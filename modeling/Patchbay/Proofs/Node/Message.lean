import Mathlib
import Patchbay.Node.Basic
import Patchbay.Proofs.Template.Groups

/-!
A message box over its history. Its active templates are those of the last `set` message with a
proper payload, or else the declared ones, and a message that is no `set` message is answered by
what they evaluate to. A payload is read as a declaration is, but for its commas.
-/
namespace Patchbay

namespace Template

/-- Scanning leaves a comma as it is. -/
theorem ofSymbol_comma : Segment.ofSymbol "," = .ok (.literal (.symbol ",")) := by
  have hmarks : marks ",".toList = .ok [.char ','] := by
    have hnil : marks [] = .ok [] := by rw [marks.eq_def]
    have hcons : marks [','] = marks [] >>= fun ms => .ok (.char ',' :: ms) := by
      rw [marks.eq_def]
      rfl
    exact hcons.trans (by rw [hnil]; rfl)
  rw [Segment.ofSymbol, hmarks]
  rfl

end Template

/-- A message that comes in on an inlet, with the sample rate and the arrays at that time. -/
structure Arrival where
  inlet : ℕ
  message : Message
  rate : Float
  tables : Tables

namespace Node

def receiveArrival (node : Node) (a : Arrival) : Reception :=
  node.receive a.inlet a.message a.rate a.tables

/-- The node after the messages of its history. -/
def after (node : Node) (history : List Arrival) : Node :=
  history.foldl (fun n a => (n.receiveArrival a).node) node

theorem after_concat (node : Node) (history : List Arrival) (a : Arrival) :
    node.after (history ++ [a]) = ((node.after history).receiveArrival a).node :=
  List.foldl_concat _ _ _ _

end Node

/-- The template that a message puts in place of the active ones. -/
def Message.replacement? : Message → Option Template
  | first :: payload =>
    if first.isSymbol "set" then (Template.ofAtomsWithSelector payload).toOption else none
  | [] => none

/-- The active templates after some messages: the last replacement, if there was any. -/
def Templates.activeAfter (declared : Templates) (messages : List Message) : Templates :=
  ((messages.filterMap Message.replacement?).getLast?.map .single).getD declared

section Payload

variable {payload : List Atom} {ts : Templates}

theorem SetOutcome.ofMessage_set (payload : List Atom) :
    SetOutcome.ofMessage (.symbol "set" :: payload) =
      match Template.ofAtomsWithSelector payload with
      | .ok t => .applied (.single t)
      | .error e => .rejected e := rfl

theorem Templates.ofAtoms_of_no_comma (h : ∀ a ∈ payload, ¬a.isSymbol ",") :
    Templates.ofAtoms payload = (Template.ofAtomsWithSelector payload).map .single := by
  have hgroups : groups payload = [payload] :=
    List.splitOnP_eq_singleton fun a ha => by simpa using h a ha
  rw [ofAtoms, hgroups, ofGroups]
  cases Template.ofAtomsWithSelector payload <;> rfl

/-- A payload without commas is read as a declaration is. -/
theorem SetOutcome.ofMessage_of_no_comma (h : ∀ a ∈ payload, ¬a.isSymbol ",") :
    SetOutcome.ofMessage (.symbol "set" :: payload) =
      match Templates.ofAtoms payload with
      | .ok ts => .applied ts
      | .error e => .rejected e := by
  rw [ofMessage_set, Templates.ofAtoms_of_no_comma h]
  cases Template.ofAtomsWithSelector payload <;> rfl

/-- A payload gives a single template, in which each comma that is scanned is a segment. -/
theorem SetOutcome.applied_set (h : SetOutcome.ofMessage (.symbol "set" :: payload) = .applied ts) :
    ts.others = [] ∧ ts.first.segments.length = (Template.scanned payload).length ∧
      ∀ i : ℕ, (Template.scanned payload)[i]? = some (Atom.symbol ",") →
        ts.first.segments[i]? = some (Segment.literal (.symbol ",")) := by
  rw [ofMessage_set, Template.ofAtomsWithSelector_eq] at h
  split at h
  · next t ht =>
    cases h
    have hsegments := Template.forall₂_ofAtoms ht
    refine ⟨rfl, hsegments.length_eq.symm, fun i hi => ?_⟩
    obtain ⟨hlt, hget⟩ := List.getElem?_eq_some_iff.1 hi
    have hsegment := hsegments.get hlt (hsegments.length_eq ▸ hlt)
    rw [List.get_eq_getElem, hget, Segment.ofAtom, Template.ofSymbol_comma] at hsegment
    rw [List.getElem?_eq_getElem (hsegments.length_eq ▸ hlt)]
    exact congrArg some (Except.ok.inj hsegment).symm
  · cases h

end Payload

/-- Of the values of a list, the last one comes from its last item or from those before. -/
theorem getLast?_filterMap_concat {α β : Type*} (f : α → Option β) (xs : List α) (x : α) :
    ((xs ++ [x]).filterMap f).getLast? = (f x).or (xs.filterMap f).getLast? := by
  rw [List.filterMap_append]
  cases h : f x with
  | none => simp [h]
  | some y => simp [h]

section Step

variable {declared active : Templates} {m : Message}

/-- The templates that are active after one more message. -/
def Templates.replacedBy (active : Templates) (m : Message) : Templates :=
  (m.replacement?.map .single).getD active

theorem Templates.activeAfter_concat (declared : Templates) (messages : List Message)
    (m : Message) :
    declared.activeAfter (messages ++ [m]) = (declared.activeAfter messages).replacedBy m := by
  rw [activeAfter, getLast?_filterMap_concat, replacedBy]
  cases m.replacement? <;> rfl

/-- One message changes the active templates or is answered by them, never both. -/
theorem Node.receiveMessage_eq (declared active : Templates) (m : Message) (tables : Tables) :
    Node.receiveMessage declared active m tables =
      ⟨.message declared (active.replacedBy m), tables,
        if m.startsWith "set" then [] else (active.evaluate m).map fun out => (0, out)⟩ := by
  unfold Node.receiveMessage SetOutcome.ofMessage Templates.replacedBy Message.replacement?
  cases m with
  | nil => rfl
  | cons first payload =>
    have hstarts : Message.startsWith (first :: payload) "set" = first.isSymbol "set" := rfl
    rw [hstarts]
    by_cases hset : first.isSymbol "set"
    · simp only [if_pos hset]
      cases Template.ofAtomsWithSelector payload <;> rfl
    · simp only [if_neg hset]
      rfl

/-- The active templates after a history are those of the last message that replaced them. -/
theorem Node.after_message (declared : Templates) (history : List Arrival) :
    (Node.message declared declared).after history =
      .message declared (declared.activeAfter (history.map (·.message))) := by
  induction history using List.reverseRecOn with
  | nil => rfl
  | append_singleton history a ih =>
    rw [after_concat, ih, List.map_append, List.map_singleton, Templates.activeAfter_concat]
    exact congrArg Reception.node (receiveMessage_eq _ _ _ _)

theorem Templates.evaluate_eq (ts : Templates) (m : Message) :
    ts.evaluate m = ts.toList.filterMap fun t => (t.evaluate m).toOption := by
  rw [evaluate, results, List.filterMap_map]
  rfl

/-- What a `set` message does to a box is what its payload says. -/
theorem Node.after_set {node : Node} {history : List Arrival} {a : Arrival}
    (h : node.after history = .message declared active) :
    (∀ ts, SetOutcome.ofMessage a.message = .applied ts →
      node.after (history ++ [a]) = .message declared ts) ∧
    ∀ e, SetOutcome.ofMessage a.message = .rejected e →
      node.after (history ++ [a]) = .message declared active := by
  constructor
  · intro ts hts
    rw [after_concat, h, receiveArrival, receive, receiveMessage, hts]
  · intro e he
    rw [after_concat, h, receiveArrival, receive, receiveMessage, he]

/-- At any moment the active templates of a box are the one of the latest `set` message with a
proper payload, or else the declared ones. A `set` message is not answered; any other is answered by
what the active templates make of it, in their order. A payload without commas is taken or refused
as a declaration would be; in any payload a comma is a symbol of the single template. -/
theorem Node.message_history {args : List Atom} {node : Node}
    (hmake : NodeKind.message.make args = .ok node) :
    ∃ declared, Templates.ofAtoms args = .ok declared ∧ ∀ history : List Arrival,
      node.after history = .message declared (declared.activeAfter (history.map (·.message))) ∧
      (∀ a, (a.message.startsWith "set" → ((node.after history).receiveArrival a).sent = []) ∧
        (¬a.message.startsWith "set" → ((node.after history).receiveArrival a).sent =
          ((declared.activeAfter (history.map (·.message))).toList.filterMap fun t =>
            (t.evaluate a.message).toOption).map fun out => (0, out))) ∧
      ∀ a payload, a.message = .symbol "set" :: payload →
        ((∀ x ∈ payload, ¬x.isSymbol ",") →
          match Templates.ofAtoms payload with
          | .ok ts => SetOutcome.ofMessage a.message = .applied ts ∧
              node.after (history ++ [a]) = .message declared ts
          | .error e => SetOutcome.ofMessage a.message = .rejected e ∧
              node.after (history ++ [a]) = node.after history) ∧
        ∀ ts, SetOutcome.ofMessage a.message = .applied ts →
          node.after (history ++ [a]) = .message declared ts ∧ ts.others = [] ∧
          ts.first.segments.length = (Template.scanned payload).length ∧
          ∀ i : ℕ, (Template.scanned payload)[i]? = some (Atom.symbol ",") →
            ts.first.segments[i]? = some (Segment.literal (.symbol ",")) := by
  obtain ⟨declared, hdeclared, h⟩ := bind_eq_ok.1 hmake
  cases h
  refine ⟨declared, hdeclared, fun history => ?_⟩
  have hafter := after_message declared history
  refine ⟨hafter, fun a => ⟨fun hset => ?_, fun hset => ?_⟩, ?_⟩
  · rw [hafter, receiveArrival, receive, receiveMessage_eq]
    exact if_pos hset
  · rw [hafter, receiveArrival, receive, receiveMessage_eq, ← Templates.evaluate_eq]
    exact if_neg hset
  · intro a payload ha
    obtain ⟨happlied, hrejected⟩ := after_set (a := a) hafter
    refine ⟨fun hcomma => ?_, fun ts hts => ⟨happlied ts hts, ?_⟩⟩
    · have houtcome := SetOutcome.ofMessage_of_no_comma hcomma
      rw [← ha] at houtcome
      split
      · next ts hts =>
        rw [hts] at houtcome
        exact ⟨houtcome, happlied ts houtcome⟩
      · next e he =>
        rw [he] at houtcome
        exact ⟨houtcome, (hrejected e houtcome).trans hafter.symm⟩
    · rw [ha] at hts
      exact SetOutcome.applied_set hts

theorem replacement?_comma : Message.replacement? [.symbol "set", .symbol ","] =
    some ⟨[.literal (.symbol ",")]⟩ := by
  have hatoms : Template.ofAtoms [.symbol ","] = .ok ⟨[.literal (.symbol ",")]⟩ := by
    rw [Template.ofAtoms_symbol, Template.ofSymbol_comma]
    rfl
  exact congrArg Except.toOption hatoms

/-- Declared with two templates, and then set to a comma. -/
theorem Node.message_history_pair : ∃ node declared,
    NodeKind.message.make [.symbol "$1", .symbol ",", .float 1] = .ok node ∧
      node.after [] = .message declared declared ∧
      ∀ rate tables,
        (node.receiveArrival ⟨0, [.symbol "set", .symbol ","], rate, tables⟩).sent = [] ∧
        node.after [⟨0, [.symbol "set", .symbol ","], rate, tables⟩] =
          .message declared (.single ⟨[.literal (.symbol ",")]⟩) := by
  have hok : (NodeKind.message.make [.symbol "$1", .symbol ",", .float 1]).toBool := by
    decide +kernel
  cases h : NodeKind.message.make [.symbol "$1", .symbol ",", .float 1] with
  | error e => rw [h] at hok; cases hok
  | ok node =>
    obtain ⟨declared, -, hhistory⟩ := Node.message_history h
    refine ⟨node, declared, rfl, (hhistory []).1, fun rate tables => ⟨?_, ?_⟩⟩
    · exact ((hhistory []).2.1 _).1 rfl
    · rw [(hhistory _).1, Templates.activeAfter, List.map_singleton, List.filterMap_cons,
        replacement?_comma]
      rfl

end Step

end Patchbay
