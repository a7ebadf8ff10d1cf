import Mathlib.Data.List.Perm.Basic
import Patchbay.Proofs.Delivery.Recursion

/-!
Accounts of a send: which deliveries were attempted so far, and what became of each. Every message
that was queued for a node was taken up by it, in order, or still waits.
-/
namespace Patchbay

open Traffic

/-- What has happened in a part of a send, each list in the order of the events. -/
structure Ledger where
  /-- Messages that left a node. -/
  sents : List Sent
  /-- Deliveries to a message inlet that is not there. -/
  ignored : List Delivery
  /-- Deliveries to a message inlet that is there. -/
  attempts : List Delivery
  /-- Messages that a node began to handle, at once or from its queue. -/
  handlings : List Delivery
  queuings : List Delivery
  /-- Messages that a node took from its queue. -/
  resumptions : List Delivery
  drops : List Delivery

namespace Ledger

def empty : Ledger := ⟨[], [], [], [], [], [], []⟩

def add (l : Ledger) : Event → Ledger
  | .sent s => { l with sents := l.sents ++ [s] }
  | .ignored d => { l with ignored := l.ignored ++ [d] }
  | .handled d => { l with attempts := l.attempts ++ [d], handlings := l.handlings ++ [d] }
  | .queued d => { l with attempts := l.attempts ++ [d], queuings := l.queuings ++ [d] }
  | .dropped d => { l with attempts := l.attempts ++ [d], drops := l.drops ++ [d] }
  | .resumed d => { l with resumptions := l.resumptions ++ [d], handlings := l.handlings ++ [d] }
  | .finished _ => l
  | .returned _ => l

def ofEvents (es : List Event) : Ledger := es.foldl add empty

@[simp] theorem ofEvents_nil : ofEvents [] = empty := rfl

@[simp] theorem ofEvents_append_singleton (es : List Event) (e : Event) :
    ofEvents (es ++ [e]) = (ofEvents es).add e := by
  simp [ofEvents]

end Ledger

/-- The messages that tasks are still to record. -/
def openSents (tasks : List Task) : List Sent :=
  tasks.filterMap fun
    | .act (.record s) => some s
    | _ => none

/-- The deliveries that tasks are still to attempt. -/
def openDeliveries (tasks : List Task) : List Delivery :=
  tasks.filterMap fun
    | .act (.deliver d) => some d
    | _ => none

section Open
variable {w : Wiring} {s : Sent} {d : Delivery} {n : Nat} {tasks rest : List Task}

@[simp] theorem openSents_record : openSents (.act (.record s) :: rest) = s :: openSents rest := rfl

@[simp] theorem openSents_deliver : openSents (.act (.deliver d) :: rest) = openSents rest := rfl

@[simp] theorem openSents_finish : openSents (.finish n :: rest) = openSents rest := rfl

@[simp] theorem openSents_append : openSents (tasks ++ rest) = openSents tasks ++ openSents rest :=
  List.filterMap_append

@[simp] theorem openDeliveries_record :
    openDeliveries (.act (.record s) :: rest) = openDeliveries rest := rfl

@[simp] theorem openDeliveries_deliver :
    openDeliveries (.act (.deliver d) :: rest) = d :: openDeliveries rest := rfl

@[simp] theorem openDeliveries_finish :
    openDeliveries (.finish n :: rest) = openDeliveries rest := rfl

@[simp] theorem openDeliveries_append :
    openDeliveries (tasks ++ rest) = openDeliveries tasks ++ openDeliveries rest :=
  List.filterMap_append

theorem open_map_deliver (ds : List Delivery) :
    openSents (ds.map fun d => .act (.deliver d)) = [] ∧
      openDeliveries (ds.map fun d => .act (.deliver d)) = ds := by
  induction ds with
  | nil => exact ⟨rfl, rfl⟩
  | cons d ds ih => simpa using ih

/-- The actions of emissions record each message and attempt its deliveries. -/
theorem open_emissions (ss : List Sent) :
    openSents ((ss.flatMap w.emission).map .act) = ss ∧
      openDeliveries ((ss.flatMap w.emission).map .act) = ss.flatMap w.deliveries := by
  induction ss with
  | nil => exact ⟨rfl, rfl⟩
  | cons s ss ih =>
    obtain ⟨hs, hd⟩ := open_map_deliver (w.deliveries s)
    simp_all [Wiring.emission, Function.comp_def]

end Open

theorem Traffic.perm_of_takeWaiting {n : Nat} {ds : List Delivery} {d : Delivery}
    {others : List Delivery} (h : takeWaiting n ds = some (d, others)) : ds.Perm (d :: others) := by
  induction ds generalizing others with
  | nil => simp [takeWaiting] at h
  | cons e es ih =>
    simp only [takeWaiting] at h
    split at h
    · obtain ⟨rfl, rfl⟩ := Prod.mk.inj (Option.some.inj h)
      exact .refl _
    · obtain ⟨⟨f, fs⟩, hf, he⟩ := Option.map_eq_some_iff.1 h
      obtain ⟨rfl, rfl⟩ := Prod.mk.inj he
      exact ((ih hf).cons e).trans (.swap ..)

/-- What the ledger of a send that begins with one delivery tells about the moment reached. -/
structure Accounts (w : Wiring) (first : Delivery) (l : Ledger) (c : Moment) : Prop where
  queued : c.traffic.queued = l.queuings.length
  bound : l.queuings.length ≤ maxWaiting
  full : l.drops ≠ [] → l.queuings.length = maxWaiting
  inOrder : ∀ n, l.queuings.filter (·.target = n) =
    l.resumptions.filter (·.target = n) ++ c.traffic.waitingFor n
  fates : l.attempts.Perm (l.handlings ++ (c.traffic.waiting ++ l.drops))
  ignored : ∀ d ∈ l.ignored, w.inlet? d.target d.inlet ≠ some .message
  origins : (l.ignored ++ (l.attempts ++ openDeliveries c.tasks)).Perm
    (first :: (l.sents ++ openSents c.tasks).flatMap w.deliveries)

private theorem perm_insert {α : Type} {xs ys zs : List α} (a : α) (h : xs.Perm (ys ++ zs)) :
    (xs ++ [a]).Perm (ys ++ a :: zs) :=
  calc (xs ++ [a]).Perm (a :: xs) := List.perm_append_singleton a xs
    List.Perm _ (a :: (ys ++ zs)) := h.cons a
    List.Perm _ (ys ++ a :: zs) := List.perm_middle.symm

private theorem perm_emit {α : Type} {xs ys us vs : List α} {a : α} (zs : List α)
    (h : (xs ++ ys).Perm (a :: (us ++ vs))) :
    (xs ++ (zs ++ ys)).Perm (a :: (us ++ (zs ++ vs))) :=
  calc (xs ++ (zs ++ ys)).Perm (zs ++ (xs ++ ys)) := List.perm_append_comm_assoc xs zs ys
    List.Perm _ (zs ++ a :: (us ++ vs)) := h.append_left zs
    List.Perm _ (a :: (zs ++ (us ++ vs))) := List.perm_middle
    List.Perm _ (a :: (us ++ (zs ++ vs))) := (List.perm_append_comm_assoc zs us vs).cons a

namespace Accounts

variable {w : Wiring} {rate : Float} {first d : Delivery} {l : Ledger} {t : Traffic}
  {rest : List Task} {n : Nat}

/-- What a handling emits is recorded and attempted later. -/
theorem handling {node : Node} (h : Accounts w first l ⟨t, .finish d.target :: rest⟩) :
    Accounts w first l (.handling w rate t node d rest) where
  queued := h.queued
  bound := h.bound
  full := h.full
  inOrder := h.inOrder
  fates := h.fates
  ignored := h.ignored
  origins := by
    obtain ⟨hs, hd⟩ := open_emissions (w := w) (t.emitted rate node d)
    have ho : ((l.ignored ++ l.attempts) ++ openDeliveries rest).Perm
        (first :: (l.sents.flatMap w.deliveries ++ (openSents rest).flatMap w.deliveries)) := by
      simpa using h.origins
    simpa [Moment.handling, actions_handle, hs, hd] using perm_emit _ ho

theorem record {s : Sent} (h : Accounts w first l ⟨t, .act (.record s) :: rest⟩) :
    Accounts w first (l.add (.sent s)) ⟨t.record s, rest⟩ where
  queued := by simpa [Ledger.add] using h.queued
  bound := h.bound
  full := h.full
  inOrder n := by simpa [Ledger.add, waitingFor] using h.inOrder n
  fates := by simpa [Ledger.add] using h.fates
  ignored := h.ignored
  origins := by simpa [Ledger.add] using h.origins

theorem ignore (h : Accounts w first l ⟨t, .act (.deliver d) :: rest⟩)
    (hinlet : w.inlet? d.target d.inlet ≠ some .message) :
    Accounts w first (l.add (.ignored d)) ⟨t, rest⟩ where
  queued := h.queued
  bound := h.bound
  full := h.full
  inOrder := h.inOrder
  fates := h.fates
  ignored := by
    simp only [Ledger.add, List.mem_append, List.mem_singleton]
    rintro e (he | rfl)
    · exact h.ignored e he
    · exact hinlet
  origins := by
    have ho : (l.attempts ++ d :: openDeliveries rest).Perm
      (d :: (l.attempts ++ openDeliveries rest)) := List.perm_middle
    simpa [Ledger.add] using (ho.symm.append_left l.ignored).trans h.origins

theorem enter (h : Accounts w first l ⟨t, .act (.deliver d) :: rest⟩) :
    Accounts w first (l.add (.handled d)) ⟨t.enter d.target, .finish d.target :: rest⟩ where
  queued := h.queued
  bound := h.bound
  full := h.full
  inOrder := h.inOrder
  fates := by simpa [Ledger.add, Traffic.enter] using perm_insert d h.fates
  ignored := h.ignored
  origins := by simpa [Ledger.add] using h.origins

theorem queue (h : Accounts w first l ⟨t, .act (.deliver d) :: rest⟩)
    (hroom : t.queued < maxWaiting) :
    Accounts w first (l.add (.queued d)) ⟨t.enqueue d, rest⟩ := by
  have hq : t.queued = l.queuings.length := h.queued
  refine ⟨?_, ?_, fun hd => ?_, fun n => ?_, ?_, h.ignored, ?_⟩
  · simp [Ledger.add, enqueue_of_room hroom, hq]
  · simpa [Ledger.add, ← hq] using Nat.succ_le_of_lt hroom
  · have hfull := h.full hd
    omega
  · have hn : l.queuings.filter (·.target = n) =
      l.resumptions.filter (·.target = n) ++ t.waitingFor n := h.inOrder n
    by_cases he : d.target = n <;> simp [Ledger.add, waitingFor_enqueue, hn, hroom, he]
  · have hf : l.attempts.Perm ((l.handlings ++ t.waiting) ++ l.drops) := by simpa using h.fates
    simpa [Ledger.add, enqueue_of_room hroom] using perm_insert d hf
  · simpa [Ledger.add] using h.origins

theorem drop (h : Accounts w first l ⟨t, .act (.deliver d) :: rest⟩)
    (hfull : maxWaiting ≤ t.queued) : Accounts w first (l.add (.dropped d)) ⟨t, rest⟩ where
  queued := h.queued
  bound := h.bound
  full _ := Nat.le_antisymm h.bound (h.queued ▸ hfull)
  inOrder := h.inOrder
  fates := by simpa [Ledger.add] using h.fates.append_right [d]
  ignored := h.ignored
  origins := by simpa [Ledger.add] using h.origins

theorem dequeue {others : List Delivery} (h : Accounts w first l ⟨t, .drain n :: rest⟩)
    (hwait : takeWaiting n t.waiting = some (d, others)) :
    Accounts w first (l.add (.resumed d)) ⟨t.dequeue others, .finish n :: rest⟩ where
  queued := h.queued
  bound := h.bound
  full := h.full
  inOrder m := by
    have hm := h.inOrder m
    have ht := target_of_takeWaiting hwait
    rw [waitingFor_of_takeWaiting hwait m] at hm
    by_cases he : m = n <;> simp_all [Ledger.add, eq_comm]
  fates := by
    have hp := (perm_of_takeWaiting hwait).append_right l.drops
    simpa [Ledger.add, Traffic.dequeue] using h.fates.trans (hp.append_left l.handlings)
  ignored := h.ignored
  origins := h.origins

theorem step {a b : Moment} {e : Event} (h : Accounts w first l a) (hs : Step w rate a e b) :
    Accounts w first (l.add e) b := by
  cases hs with
  | record => exact h.record
  | ignore hinlet => exact h.ignore hinlet
  | handle => exact h.enter.handling
  | queue _ _ hroom => exact h.queue hroom
  | drop _ _ hfull => exact h.drop hfull
  | finish => exact ⟨h.queued, h.bound, h.full, h.inOrder, h.fates, h.ignored, h.origins⟩
  | resume hwait _ =>
    obtain rfl := target_of_takeWaiting hwait
    exact (h.dequeue hwait).handling
  | leave => exact ⟨h.queued, h.bound, h.full, h.inOrder, h.fates, h.ignored, h.origins⟩

theorem run {a b : Moment} {es : List Event} (h : Accounts w first .empty a)
    (hr : Run w rate a es b) : Accounts w first (.ofEvents es) b := by
  induction hr with
  | refl => exact h
  | step _ hs ih =>
    rw [Ledger.ofEvents_append_singleton]
    exact ih.step hs

/-- At first nothing waits, and the one delivery is the only task. -/
theorem start (hqueued : t.queued = 0) (hwaiting : t.waiting = []) :
    Accounts w first .empty ⟨t, [.act (.deliver first)]⟩ where
  queued := hqueued
  bound := Nat.zero_le _
  full h := absurd rfl h
  inOrder n := by simp [Ledger.empty, waitingFor, hwaiting]
  fates := by simp [Ledger.empty, hwaiting]
  ignored := by simp [Ledger.empty]
  origins := .refl _

end Accounts

theorem Step.queued_le {w : Wiring} {rate : Float} {a b : Moment} {e : Event}
    (h : Step w rate a e b) : a.traffic.queued ≤ b.traffic.queued := by
  cases h with
  | record => simp
  | queue _ _ hroom => simp [enqueue_of_room hroom]
  | ignore => exact Nat.le_refl _
  | handle => exact Nat.le_refl _
  | drop => exact Nat.le_refl _
  | finish => exact Nat.le_refl _
  | resume => exact Nat.le_refl _
  | leave => exact Nat.le_refl _

theorem Run.queued_le {w : Wiring} {rate : Float} {a b : Moment} {es : List Event}
    (h : Run w rate a es b) : a.traffic.queued ≤ b.traffic.queued := by
  induction h with
  | refl => exact Nat.le_refl _
  | step _ hs ih => exact Nat.le_trans ih hs.queued_le

/-- The log gains the messages that leave nodes, as long as they are recorded. -/
def Logged (start : Traffic) (l : Ledger) (c : Moment) : Prop :=
  c.traffic.recording = start.recording ∧
    c.traffic.log.toList = start.log.toList ++ if start.recording then l.sents else []

namespace Logged

variable {w : Wiring} {rate : Float} {start : Traffic} {l : Ledger} {a b : Moment}

theorem step {e : Event} (h : Logged start l a) (hs : Step w rate a e b) :
    Logged start (l.add e) b := by
  obtain ⟨hr, hl⟩ := h
  cases hs with
  | record =>
    unfold Logged Traffic.record
    cases hon : start.recording <;> simp_all [Ledger.add]
  | ignore => exact ⟨hr, hl⟩
  | handle => exact ⟨hr, hl⟩
  | queue _ _ hroom => rw [enqueue_of_room hroom]; exact ⟨hr, hl⟩
  | drop => exact ⟨hr, hl⟩
  | finish => exact ⟨hr, hl⟩
  | resume => exact ⟨hr, hl⟩
  | leave => exact ⟨hr, hl⟩

theorem run {es : List Event} (hr : Run w rate a es b) :
    Logged a.traffic (.ofEvents es) b := by
  induction hr with
  | refl => simp [Logged, Ledger.empty]
  | step _ hs ih =>
    rw [Ledger.ofEvents_append_singleton]
    exact ih.step hs

end Logged

end Patchbay
