import Patchbay.Patch.Signal

/-!
Requests: what can be asked of a patch, and the replies. A patch is changed in place. The edge of a
signal connection is drawn before it is known whether it closes a loop, and is taken out again if it
does; an edge stands for all connections from one node to another.
-/
namespace Patchbay

/-- A request to a patch that may change it. -/
inductive Operation where
  | add (nodeType : String) (args : List Atom)
  | connect (source outlet target inlet : Nat)
  | send (node inlet : Nat) (message : Message)
  | setInput (node inlet : Nat) (value : Float)
  | setArray (name : String) (values : Array Float)
  | record (on : Bool)
  | drainLog
  | tick

/-- A request to a patch that only looks at it. -/
inductive Question where
  | loggedFrom (node outlet : Nat)
  | array (name : String)
  | output (node outlet : Nat)
  | sampleRate

inductive Request where
  | change (operation : Operation)
  | ask (question : Question)

inductive Reply where
  | done
  /-- A node was added, under this number. -/
  | node (number : Nat)
  | log (sent : List Sent)
  | messages (found : List Message)
  | array (values : Option (Array Float))
  | output (value : Option Float)
  | sampleRate (rate : Float)
  | refused (cause : Error)

namespace Patch

/-- The placements at both ends of a connection, and its kind. -/
def ends (p : Patch) (source outlet target inlet : Nat) :
    Except ConnectionFault (Placement × Placement × JackKind) := do
  let a ← p.placement source
  let b ← p.placement target
  let kind ← connectionKind a b outlet inlet
  return (a, b, kind)

def setSignalGraph (p : Patch) (g : Digraph Nat) : Patch :=
  { p with wiring := { p.wiring with signalGraph := g } }

def appendConnection (p : Patch) (c : Connection) : Patch :=
  { p with wiring := { p.wiring with connections := p.wiring.connections ++ [c] } }

/-- Connects two jacks, and gives the patch that is left in either case. -/
def connectInPlace (p : Patch) (source outlet target inlet : Nat) :
    Except ConnectionFault Unit × Patch :=
  match p.ends source outlet target inlet with
  | .error cause => (.error cause, p)
  | .ok (a, b, kind) =>
    let c : Connection := ⟨source, outlet, target, inlet, kind⟩
    if kind = .signal then
      let drawn := p.setSignalGraph (p.wiring.signalGraph.insertEdge source target)
      if drawn.wiring.signalGraph.isAcyclic then (.ok (), drawn.appendConnection c)
      else
        (.error (.signalLoop a.nodeType b.nodeType),
          drawn.setSignalGraph (drawn.wiring.signalGraph.removeEdge source target))
    else (.ok (), p.appendConnection c)

def tell (p : Patch) : Question → Reply
  | .loggedFrom node outlet => .messages (p.loggedFrom node outlet)
  | .array name => .array (p.array? name)
  | .output node outlet => .output (p.output? node outlet)
  | .sampleRate => .sampleRate p.sampleRate

/-- The reply to a request, and the patch afterwards. -/
def respond (p : Patch) : Request → Reply × Patch
  | .change (.add nodeType args) =>
    match p.add nodeType args with
    | .ok (q, n) => (.node n, q)
    | .error cause => (.refused cause, p)
  | .change (.connect source outlet target inlet) =>
    match p.connectInPlace source outlet target inlet with
    | (.ok (), q) => (.done, q)
    | (.error cause, q) => (.refused (.connection cause), q)
  | .change (.send node inlet m) => (.done, p.send node inlet m)
  | .change (.setInput node inlet value) => (.done, p.setInput node inlet value)
  | .change (.setArray name values) => (.done, p.setArray name values)
  | .change (.record on) => (.done, p.record on)
  | .change .drainLog => (.log p.drainLog.1, p.drainLog.2)
  | .change .tick =>
    match p.tick with
    | .ok q => (.done, q)
    | .error cause => (.refused (.fault cause), p)
  | .ask question => (p.tell question, p)

/-- The patch after requests in turn. -/
def following (p : Patch) (requests : List Request) : Patch :=
  requests.foldl (fun p r => (p.respond r).2) p

/-- The replies to requests in turn. -/
def replies (p : Patch) : List Request → List Reply
  | [] => []
  | r :: rest => (p.respond r).1 :: (p.respond r).2.replies rest

@[simp] theorem following_nil (p : Patch) : p.following [] = p := rfl

@[simp] theorem following_cons (p : Patch) (r : Request) (rest : List Request) :
    p.following (r :: rest) = (p.respond r).2.following rest := rfl

theorem replies_append (p : Patch) (first rest : List Request) :
    p.replies (first ++ rest) = p.replies first ++ (p.following first).replies rest := by
  induction first generalizing p with
  | nil => rfl
  | cons r first ih => simp [replies, ih]

end Patch

end Patchbay
