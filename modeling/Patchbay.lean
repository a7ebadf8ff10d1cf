import Patchbay.Code.Basic
import Patchbay.Digraph.Sort
import Patchbay.Helper.Library
import Patchbay.Message
import Patchbay.Node.Generation
import Patchbay.Node.Registry
import Patchbay.Patch.Request
import Patchbay.Program.Basic
import Patchbay.Proofs.Helper.Calls
import Patchbay.Proofs.Helper.Requests
import Patchbay.Proofs.Helper.Resolution
import Patchbay.Proofs.Node.Message
import Patchbay.Proofs.Patch.Acyclic
import Patchbay.Proofs.Patch.Checked
import Patchbay.Proofs.Patch.Observation
import Patchbay.Proofs.Patch.Refusal
import Patchbay.Proofs.Patch.Sample
import Patchbay.Proofs.Patch.Termination
import Patchbay.Proofs.Program.Append
import Patchbay.Proofs.Program.Arguments
import Patchbay.Proofs.Program.Comments
import Patchbay.Proofs.Settings.RoundTrip
import Patchbay.Proofs.Template.Literal
import Patchbay.Settings.Basic
import Patchbay.Settings.Document
import Patchbay.Template.Literal
import Patchbay.Text.Lines
import Patchbay.Text.Quoted
import Patchbay.Toml.Moment
import Patchbay.Toml.Number
import Patchbay.Toml.Text
import Patchbay.Proofs.Delivery.Confined
import Patchbay.Proofs.Delivery.Local
import Patchbay.Proofs.Patch.Confined
import Patchbay.Proofs.Patch.Independent
import Patchbay.Proofs.Template.Parts
import Patchbay.Proofs.Template.Written
import Patchbay.Proofs.Template.Substitution
import Patchbay.Proofs.Template.Arity
import Patchbay.Proofs.Code.Boundary
import Patchbay.Proofs.Text.Quoted
import Patchbay.Proofs.Code.Nesting
import Patchbay.Proofs.Node.Cursor
import Patchbay.Proofs.Helper.Registration
import Patchbay.Proofs.Code.Literal
import Patchbay.Proofs.Number.Display
import Patchbay.Proofs.Node.Guard
