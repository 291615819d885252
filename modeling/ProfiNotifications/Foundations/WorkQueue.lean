import Mathlib.Algebra.BigOperators.Group.List.Basic
import Mathlib.Algebra.Order.BigOperators.Group.List
import Mathlib.Algebra.Order.Ring.Int
import Mathlib.Algebra.Order.Ring.Nat
import Mathlib.Data.List.Perm.Basic
import ProfiNotifications.Foundations.Transition

/-! # Work queues

A service takes messages from its main queue, several at a time, handles them by calls
that may put further messages into queues, and acknowledges or rejects them. A rejected
message, and one that has waited long enough in a queue with a time to live, goes to the
queue that its own names for dead letters. When the channel of a delivery is lost, its
message is back in the main queue, while the handler goes on as an orphan that nobody
listens to. A publication that fails may have arrived nevertheless.

What the messages stand for is counted by weights: if no step of a delivery loses weight,
none is lost in a run; if none but the counted ones add weight, the total is bounded.
-/

namespace WorkQueue

open Transition

/-! ## One of several -/

section Pick

variable {β : Type*} {l rest : List β} {i : ℕ} {x : β}

def pick (l : List β) (i : ℕ) : Option (β × List β) := l[i]?.map fun x => (x, l.eraseIdx i)

theorem perm_of_pick (h : pick l i = some (x, rest)) : l.Perm (x :: rest) := by
  obtain ⟨y, hy, heq⟩ := Option.map_eq_some_iff.mp h
  obtain ⟨rfl, rfl⟩ := Prod.mk.inj heq
  obtain ⟨hi, rfl⟩ := List.getElem?_eq_some_iff.mp hy
  exact (List.getElem_cons_eraseIdx_perm hi).symm

end Pick

inductive Settlement where
  | acked
  | rejected
  deriving DecidableEq, Repr

/--
A service with its queues: what a message is handled by under given answers of the ports,
and what a call puts into queues, where a failed publication may have arrived or not.
-/
structure Service (κ μ α τ : Type) where
  main : κ
  prefetch : ℕ
  handle : α → μ → List τ × Settlement
  emits : τ → Bool → List (κ × μ)
  deadLetter : κ → Option κ
  expires : κ → Bool

variable {κ μ α τ : Type}

namespace Service

variable (svc : Service κ μ α τ)

/-- Where a message goes that leaves a queue without an acknowledgement. -/
def deadLettered (queue : κ) (message : μ) : List (κ × μ) :=
  (svc.deadLetter queue).toList.map fun queue' => (queue', message)

end Service

/-- A message at its handler, with the calls that it has made and those that are left. -/
structure Delivery (svc : Service κ μ α τ) where
  message : μ
  answers : α
  performed : List (τ × Bool)
  pending : List τ
  calls_eq : performed.map Prod.fst ++ pending = (svc.handle answers message).1

namespace Delivery

variable {svc : Service κ μ α τ}

def start (svc : Service κ μ α τ) (message : μ) (answers : α) : Delivery svc where
  message := message
  answers := answers
  performed := []
  pending := (svc.handle answers message).1
  calls_eq := rfl

def settlement (d : Delivery svc) : Settlement := (svc.handle d.answers d.message).2

def perform (d : Delivery svc) (arrived : Bool) : Option (Delivery svc × List (κ × μ)) :=
  match h : d.pending with
  | [] => none
  | t :: ts => some
      ({ message := d.message
         answers := d.answers
         performed := d.performed ++ [(t, arrived)]
         pending := ts
         calls_eq := by rw [← d.calls_eq, h]; simp }, svc.emits t arrived)

def leftover (d : Delivery svc) : List (κ × μ) :=
  match d.settlement with
  | .acked => []
  | .rejected => svc.deadLettered svc.main d.message

theorem perform_eq_some {d d' : Delivery svc} {arrived : Bool} {emitted : List (κ × μ)}
    (h : d.perform arrived = some (d', emitted)) : ∃ t, d.pending = t :: d'.pending ∧
      d'.message = d.message ∧ d'.answers = d.answers ∧
      d'.performed = d.performed ++ [(t, arrived)] ∧ emitted = svc.emits t arrived := by
  unfold perform at h
  split at h
  · cases h
  · rename_i t ts hp
    obtain ⟨rfl, rfl⟩ := Prod.mk.inj (Option.some.inj h)
    exact ⟨t, hp, rfl, rfl, rfl, rfl⟩

theorem mem_calls_of_performed {d : Delivery svc} {t : τ} {arrived : Bool}
    (h : (t, arrived) ∈ d.performed) : t ∈ (svc.handle d.answers d.message).1 := by
  rw [← d.calls_eq]
  exact List.mem_append_left _ (List.mem_map_of_mem h)

theorem mem_calls_of_pending {d : Delivery svc} {t : τ} (h : t ∈ d.pending) :
    t ∈ (svc.handle d.answers d.message).1 := by
  rw [← d.calls_eq]
  exact List.mem_append_right _ h

theorem performed_of_done {d : Delivery svc} (h : d.pending = []) :
    d.performed.map Prod.fst = (svc.handle d.answers d.message).1 := by
  rw [← d.calls_eq, h, List.append_nil]

end Delivery

/--
The messages with the queues they are in, the deliveries in hand and the orphaned ones;
and, of the past, what was posted and which deliveries were settled.
-/
structure World (svc : Service κ μ α τ) where
  stored : List (κ × μ) := []
  inFlight : List (Delivery svc) := []
  orphans : List (Delivery svc) := []
  posted : List μ := []
  settled : List (Delivery svc) := []

inductive Action (μ α : Type) where
  | post (message : μ)
  | deliver (i : ℕ) (answers : α)
  | proceed (k : ℕ) (arrived : Bool)
  | settle (k : ℕ)
  | disconnect (k : ℕ)
  | orphanProceed (k : ℕ) (arrived : Bool)
  | expire (i : ℕ)

namespace Service

variable (svc : Service κ μ α τ)

/-- A message comes back to the queue at any place, so any message may be the next one. -/
def step [DecidableEq κ] (w : World svc) : Action μ α → Option (World svc)
  | .post message => some
      { w with stored := w.stored ++ [(svc.main, message)], posted := w.posted ++ [message] }
  | .deliver i answers => (pick w.stored i).bind fun (p, rest) =>
      if p.1 = svc.main ∧ w.inFlight.length < svc.prefetch then
        some { w with stored := rest, inFlight := w.inFlight ++ [.start svc p.2 answers] }
      else none
  | .proceed k arrived => (pick w.inFlight k).bind fun (d, rest) =>
      (d.perform arrived).map fun (d', emitted) =>
        { w with stored := w.stored ++ emitted, inFlight := rest ++ [d'] }
  | .settle k => (pick w.inFlight k).bind fun (d, rest) =>
      if d.pending.isEmpty then
        some { w with
          stored := w.stored ++ d.leftover, inFlight := rest, settled := w.settled ++ [d] }
      else none
  | .disconnect k => (pick w.inFlight k).map fun (d, rest) =>
      { w with
        stored := w.stored ++ [(svc.main, d.message)], inFlight := rest
        orphans := w.orphans ++ [d] }
  | .orphanProceed k arrived => (pick w.orphans k).bind fun (d, rest) =>
      (d.perform arrived).map fun (d', emitted) =>
        { w with stored := w.stored ++ emitted, orphans := rest ++ [d'] }
  | .expire i => (pick w.stored i).bind fun (p, rest) =>
      if svc.expires p.1 then some { w with stored := rest ++ svc.deadLettered p.1 p.2 }
      else none

/-! ## What a step does -/

/-- A step, where only what is in a queue or in hand matters and not at which place. -/
inductive Step (w : World svc) : Action μ α → World svc → Prop
  | posted {message : μ} : Step w (.post message)
      { w with stored := w.stored ++ [(svc.main, message)], posted := w.posted ++ [message] }
  | delivered {i : ℕ} {answers : α} {message : μ} {rest : List (κ × μ)}
      (hp : w.stored.Perm ((svc.main, message) :: rest)) (hw : w.inFlight.length < svc.prefetch) :
      Step w (.deliver i answers)
        { w with stored := rest, inFlight := w.inFlight ++ [.start svc message answers] }
  | proceeded {k : ℕ} {arrived : Bool} {d d' : Delivery svc} {emitted : List (κ × μ)}
      {rest : List (Delivery svc)} (hp : w.inFlight.Perm (d :: rest))
      (hd : d.perform arrived = some (d', emitted)) :
      Step w (.proceed k arrived)
        { w with stored := w.stored ++ emitted, inFlight := rest ++ [d'] }
  | settled {k : ℕ} {d : Delivery svc} {rest : List (Delivery svc)}
      (hp : w.inFlight.Perm (d :: rest)) (hd : d.pending = []) :
      Step w (.settle k)
        { w with
          stored := w.stored ++ d.leftover, inFlight := rest, settled := w.settled ++ [d] }
  | disconnected {k : ℕ} {d : Delivery svc} {rest : List (Delivery svc)}
      (hp : w.inFlight.Perm (d :: rest)) :
      Step w (.disconnect k)
        { w with
          stored := w.stored ++ [(svc.main, d.message)], inFlight := rest
          orphans := w.orphans ++ [d] }
  | orphanProceeded {k : ℕ} {arrived : Bool} {d d' : Delivery svc} {emitted : List (κ × μ)}
      {rest : List (Delivery svc)} (hp : w.orphans.Perm (d :: rest))
      (hd : d.perform arrived = some (d', emitted)) :
      Step w (.orphanProceed k arrived)
        { w with stored := w.stored ++ emitted, orphans := rest ++ [d'] }
  | expired {i : ℕ} {queue : κ} {message : μ} {rest : List (κ × μ)}
      (hp : w.stored.Perm ((queue, message) :: rest)) (he : svc.expires queue = true) :
      Step w (.expire i) { w with stored := rest ++ svc.deadLettered queue message }

variable {svc} {w w' : World svc} {a : Action μ α}

theorem step_cases [DecidableEq κ] (h : svc.step w a = some w') : svc.Step w a w' := by
  cases a with
  | post message =>
    obtain rfl := Option.some.inj h
    exact .posted
  | deliver i answers =>
    obtain ⟨⟨⟨queue, message⟩, rest⟩, hp, h⟩ := Option.bind_eq_some_iff.mp h
    dsimp only at h
    split at h
    · rename_i hq
      obtain ⟨rfl, hw⟩ := hq
      obtain rfl := Option.some.inj h
      exact .delivered (perm_of_pick hp) hw
    · cases h
  | proceed k arrived =>
    obtain ⟨⟨d, rest⟩, hp, h⟩ := Option.bind_eq_some_iff.mp h
    obtain ⟨⟨d', emitted⟩, hd, rfl⟩ := Option.map_eq_some_iff.mp h
    exact .proceeded (perm_of_pick hp) hd
  | settle k =>
    obtain ⟨⟨d, rest⟩, hp, h⟩ := Option.bind_eq_some_iff.mp h
    dsimp only at h
    split at h
    · obtain rfl := Option.some.inj h
      exact .settled (perm_of_pick hp) (List.isEmpty_iff.mp ‹_›)
    · cases h
  | disconnect k =>
    obtain ⟨⟨d, rest⟩, hp, rfl⟩ := Option.map_eq_some_iff.mp h
    exact .disconnected (perm_of_pick hp)
  | orphanProceed k arrived =>
    obtain ⟨⟨d, rest⟩, hp, h⟩ := Option.bind_eq_some_iff.mp h
    obtain ⟨⟨d', emitted⟩, hd, rfl⟩ := Option.map_eq_some_iff.mp h
    exact .orphanProceeded (perm_of_pick hp) hd
  | expire i =>
    obtain ⟨⟨⟨queue, message⟩, rest⟩, hp, h⟩ := Option.bind_eq_some_iff.mp h
    dsimp only at h
    split at h
    · obtain rfl := Option.some.inj h
      exact .expired (perm_of_pick hp) ‹_›
    · cases h

end Service

/-! ## Weights -/

/-- What messages, deliveries in hand and settled deliveries weigh. -/
structure Weights (svc : Service κ μ α τ) where
  stored : κ × μ → ℕ
  held : Delivery svc → ℕ
  settled : Delivery svc → ℕ

namespace Weights

variable {svc : Service κ μ α τ} (W : Weights svc)

def ofStored (messages : List (κ × μ)) : ℕ := (messages.map W.stored).sum

def ofPosted (w : World svc) : ℕ := (w.posted.map fun message => W.stored (svc.main, message)).sum

/-- The weight without the orphans. -/
def total (w : World svc) : ℕ :=
  W.ofStored w.stored + (w.inFlight.map W.held).sum + (w.settled.map W.settled).sum

@[simp] theorem ofStored_nil : W.ofStored [] = 0 := rfl

@[simp] theorem ofStored_cons (p : κ × μ) (l : List (κ × μ)) :
    W.ofStored (p :: l) = W.stored p + W.ofStored l := List.sum_cons

@[simp] theorem ofStored_append (l l' : List (κ × μ)) :
    W.ofStored (l ++ l') = W.ofStored l + W.ofStored l' := by
  simp [ofStored]

theorem ofStored_perm {l l' : List (κ × μ)} (h : l.Perm l') : W.ofStored l = W.ofStored l' :=
  (h.map W.stored).sum_eq

theorem sum_map_ite {β : Type*} (P : β → Prop) [DecidablePred P] (l : List β) :
    (l.map fun x => if P x then 1 else 0).sum = l.countP fun x => P x := by
  induction l with
  | nil => rfl
  | cons x l ih => by_cases h : P x <;> simp [ih, h, Nat.add_comm]

/-- No step of a delivery loses weight. -/
structure Kept : Prop where
  start : ∀ message answers, W.stored (svc.main, message) ≤ W.held (.start svc message answers)
  perform : ∀ (d d' : Delivery svc) arrived emitted, d.perform arrived = some (d', emitted) →
    W.held d ≤ W.held d' + W.ofStored emitted
  settle : ∀ d : Delivery svc, d.pending = [] →
    W.held d ≤ W.settled d + W.ofStored d.leftover
  disconnect : ∀ d : Delivery svc, W.held d ≤ W.stored (svc.main, d.message)
  expire : ∀ queue message, svc.expires queue = true →
    W.stored (queue, message) ≤ W.ofStored (svc.deadLettered queue message)

variable {W} {w w' : World svc} {a : Action μ α}

theorem Kept.step (hW : W.Kept) (hi : W.ofPosted w ≤ W.total w) (hs : svc.Step w a w') :
    W.ofPosted w' ≤ W.total w' := by
  cases hs with
  | posted =>
    simp only [ofPosted, total, List.map_append, List.sum_append, ofStored_append,
      ofStored_cons, ofStored_nil, List.map_cons, List.map_nil, List.sum_cons, List.sum_nil]
      at hi ⊢
    omega
  | @delivered i answers message rest hp hw =>
    have hstart := hW.start message answers
    have hstored := W.ofStored_perm hp
    simp only [ofPosted, total, List.map_append, List.sum_append, ofStored_cons,
      List.map_cons, List.map_nil, List.sum_cons, List.sum_nil] at hi hstored ⊢
    omega
  | @proceeded k arrived d d' emitted rest hp hd =>
    have hperform := hW.perform d d' arrived emitted hd
    have hheld := (hp.map W.held).sum_eq
    simp only [ofPosted, total, List.map_append, List.sum_append, ofStored_append,
      List.map_cons, List.map_nil, List.sum_cons, List.sum_nil] at hi hheld ⊢
    omega
  | @settled k d rest hp hd =>
    have hsettle := hW.settle d hd
    have hheld := (hp.map W.held).sum_eq
    simp only [ofPosted, total, List.map_append, List.sum_append, ofStored_append,
      List.map_cons, List.map_nil, List.sum_cons, List.sum_nil] at hi hheld ⊢
    omega
  | @disconnected k d rest hp =>
    have hback := hW.disconnect d
    have hheld := (hp.map W.held).sum_eq
    simp only [ofPosted, total, List.map_cons, List.sum_cons, ofStored_append, ofStored_cons,
      ofStored_nil] at hi hheld ⊢
    omega
  | orphanProceeded hp hd =>
    simp only [ofPosted, total, ofStored_append] at hi ⊢
    omega
  | @expired i queue message rest hp he =>
    have hexpire := hW.expire queue message he
    have hstored := W.ofStored_perm hp
    simp only [ofPosted, total, ofStored_append, ofStored_cons] at hi hstored ⊢
    omega

/-- What was posted is still there, whatever the ports answer and whatever is lost. -/
theorem Kept.posted_le [DecidableEq κ] {allowed : World svc → Action μ α → Prop} (hW : W.Kept)
    (h : Reach svc.step allowed {} w) : W.ofPosted w ≤ W.total w := by
  induction h with
  | refl => exact Nat.le_refl 0
  | tail _ _ hs ih => exact hW.step ih (Service.step_cases hs)

end Weights

/-! ## Where messages come from -/

namespace World

variable {svc : Service κ μ α τ}

def deliveries (w : World svc) : List (Delivery svc) := w.inFlight ++ w.orphans ++ w.settled

theorem mem_deliveries {w : World svc} {d : Delivery svc} :
    d ∈ w.deliveries ↔ d ∈ w.inFlight ∨ d ∈ w.orphans ∨ d ∈ w.settled := by
  simp [deliveries]

end World

namespace Service

variable (svc : Service κ μ α τ)

/-- Messages that come from one that was posted, by being handled and by being dead-lettered. -/
inductive Descends (root : μ) : κ → μ → Prop
  | root : Descends root svc.main root
  | emitted {message message' : μ} {queue : κ} {answers : α} {t : τ} {arrived : Bool} :
      Descends root svc.main message → t ∈ (svc.handle answers message).1 →
      (queue, message') ∈ svc.emits t arrived → Descends root queue message'
  | deadLettered {message : μ} {queue queue' : κ} : Descends root queue message →
      svc.deadLetter queue = some queue' → Descends root queue' message

/-- Nothing leaves the queue in a run. -/
def Final (queue : κ) : Prop := queue ≠ svc.main ∧ svc.expires queue = false

/-- The origin of the messages, and what has become of the calls of the deliveries. -/
structure Traced (w : World svc) : Prop where
  stored : ∀ p ∈ w.stored, ∃ root ∈ w.posted, svc.Descends root p.1 p.2
  delivered : ∀ d ∈ w.deliveries, ∃ root ∈ w.posted, svc.Descends root svc.main d.message
  arrived : ∀ d ∈ w.deliveries, ∀ c ∈ d.performed, ∀ p ∈ svc.emits c.1 c.2,
    svc.Final p.1 → p ∈ w.stored
  done : ∀ d ∈ w.settled, d.pending = []

variable {svc} {w w' : World svc} {a : Action μ α}

theorem mem_deadLettered {queue : κ} {message : μ} {p : κ × μ} :
    p ∈ svc.deadLettered queue message ↔ svc.deadLetter queue = some p.1 ∧ p.2 = message := by
  simp only [deadLettered, List.mem_map, Option.mem_toList]
  constructor
  · rintro ⟨queue', hq, rfl⟩
    exact ⟨hq, rfl⟩
  · rintro ⟨hq, rfl⟩
    exact ⟨p.1, hq, rfl⟩

theorem mem_leftover {d : Delivery svc} {p : κ × μ} (h : p ∈ d.leftover) :
    svc.deadLetter svc.main = some p.1 ∧ p.2 = d.message := by
  unfold Delivery.leftover at h
  split at h
  · cases h
  · exact mem_deadLettered.mp h

theorem Step.mem_stored (hs : svc.Step w a w') {p : κ × μ} (hp : p ∈ w'.stored) :
    p ∈ w.stored ∨ (a = .post p.2 ∧ p.1 = svc.main) ∨
      (∃ d ∈ w.deliveries, ∃ t ∈ d.pending, ∃ arrived, p ∈ svc.emits t arrived) ∨
      (∃ d ∈ w.deliveries, d.message = p.2 ∧
        (p.1 = svc.main ∨ svc.deadLetter svc.main = some p.1)) ∨
      ∃ queue, (queue, p.2) ∈ w.stored ∧ svc.deadLetter queue = some p.1 := by
  cases hs with
  | posted =>
    rcases List.mem_append.mp hp with hp | hp
    · exact Or.inl hp
    · obtain rfl := List.mem_singleton.mp hp
      exact Or.inr (Or.inl ⟨rfl, rfl⟩)
  | delivered hq hw => exact Or.inl (hq.mem_iff.mpr (List.mem_cons_of_mem _ hp))
  | @proceeded k arrived d d' emitted rest hq hd =>
    rcases List.mem_append.mp hp with hp | hp
    · exact Or.inl hp
    · obtain ⟨t, hpending, -, -, -, rfl⟩ := Delivery.perform_eq_some hd
      have hmem : d ∈ w.deliveries :=
        World.mem_deliveries.mpr (Or.inl (hq.mem_iff.mpr List.mem_cons_self))
      have ht : t ∈ d.pending := hpending ▸ List.mem_cons_self
      exact Or.inr (Or.inr (Or.inl ⟨d, hmem, t, ht, arrived, hp⟩))
  | @settled k d rest hq hd =>
    rcases List.mem_append.mp hp with hp | hp
    · exact Or.inl hp
    · obtain ⟨hdead, hmessage⟩ := mem_leftover hp
      have hmem : d ∈ w.deliveries :=
        World.mem_deliveries.mpr (Or.inl (hq.mem_iff.mpr List.mem_cons_self))
      exact Or.inr (Or.inr (Or.inr (Or.inl ⟨d, hmem, hmessage.symm, Or.inr hdead⟩)))
  | @disconnected k d rest hq =>
    rcases List.mem_append.mp hp with hp | hp
    · exact Or.inl hp
    · obtain rfl := List.mem_singleton.mp hp
      have hmem : d ∈ w.deliveries :=
        World.mem_deliveries.mpr (Or.inl (hq.mem_iff.mpr List.mem_cons_self))
      exact Or.inr (Or.inr (Or.inr (Or.inl ⟨d, hmem, rfl, Or.inl rfl⟩)))
  | @orphanProceeded k arrived d d' emitted rest hq hd =>
    rcases List.mem_append.mp hp with hp | hp
    · exact Or.inl hp
    · obtain ⟨t, hpending, -, -, -, rfl⟩ := Delivery.perform_eq_some hd
      have hmem : d ∈ w.deliveries :=
        World.mem_deliveries.mpr (Or.inr (Or.inl (hq.mem_iff.mpr List.mem_cons_self)))
      have ht : t ∈ d.pending := hpending ▸ List.mem_cons_self
      exact Or.inr (Or.inr (Or.inl ⟨d, hmem, t, ht, arrived, hp⟩))
  | @expired i queue message rest hq he =>
    rcases List.mem_append.mp hp with hp | hp
    · exact Or.inl (hq.mem_iff.mpr (List.mem_cons_of_mem _ hp))
    · obtain ⟨hdead, hmessage⟩ := mem_deadLettered.mp hp
      have hmem : (queue, p.2) ∈ w.stored := hmessage ▸ hq.mem_iff.mpr List.mem_cons_self
      exact Or.inr (Or.inr (Or.inr (Or.inr ⟨queue, hmem, hdead⟩)))

theorem Step.final (hs : svc.Step w a w') {p : κ × μ} (hp : p ∈ w.stored) (hf : svc.Final p.1) :
    p ∈ w'.stored := by
  cases hs with
  | posted | proceeded | settled | disconnected | orphanProceeded =>
    exact List.mem_append_left _ hp
  | delivered hq hw =>
    rcases List.mem_cons.mp (hq.mem_iff.mp hp) with rfl | hp
    · exact absurd rfl hf.1
    · exact hp
  | expired hq he =>
    rcases List.mem_cons.mp (hq.mem_iff.mp hp) with rfl | hp
    · exact absurd he (by rw [hf.2]; exact Bool.false_ne_true)
    · exact List.mem_append_left _ hp

theorem Step.posted_subset (hs : svc.Step w a w') : w.posted ⊆ w'.posted := by
  cases hs with
  | posted => exact List.subset_append_left _ _
  | delivered | proceeded | settled | disconnected | orphanProceeded | expired =>
    exact List.Subset.refl _

theorem Step.mem_deliveries (hs : svc.Step w a w') {d : Delivery svc} (hd : d ∈ w'.deliveries) :
    d ∈ w.deliveries ∨
      (∃ d₀ ∈ w.deliveries, ∃ arrived emitted, d₀.perform arrived = some (d, emitted) ∧
        emitted ⊆ w'.stored) ∨
      ∃ i message answers, a = .deliver i answers ∧ (svc.main, message) ∈ w.stored ∧
        d = .start svc message answers := by
  simp only [World.mem_deliveries] at hd ⊢
  cases hs with
  | posted => exact Or.inl hd
  | @delivered i answers message rest hq hw =>
    rcases hd with hd | hd
    · rcases List.mem_append.mp hd with hd | hd
      · exact Or.inl (Or.inl hd)
      · obtain rfl := List.mem_singleton.mp hd
        exact Or.inr (Or.inr ⟨i, message, answers, rfl, hq.mem_iff.mpr List.mem_cons_self, rfl⟩)
    · exact Or.inl (Or.inr hd)
  | @proceeded k arrived d₀ d' emitted rest hq hperform =>
    rcases hd with hd | hd
    · rcases List.mem_append.mp hd with hd | hd
      · exact Or.inl (Or.inl (hq.mem_iff.mpr (List.mem_cons_of_mem _ hd)))
      · obtain rfl := List.mem_singleton.mp hd
        exact Or.inr (Or.inl ⟨d₀, Or.inl (hq.mem_iff.mpr List.mem_cons_self), arrived, emitted,
          hperform, List.subset_append_right _ _⟩)
    · exact Or.inl (Or.inr hd)
  | @settled k d₀ rest hq hpending =>
    rcases hd with hd | hd | hd
    · exact Or.inl (Or.inl (hq.mem_iff.mpr (List.mem_cons_of_mem _ hd)))
    · exact Or.inl (Or.inr (Or.inl hd))
    · rcases List.mem_append.mp hd with hd | hd
      · exact Or.inl (Or.inr (Or.inr hd))
      · obtain rfl := List.mem_singleton.mp hd
        exact Or.inl (Or.inl (hq.mem_iff.mpr List.mem_cons_self))
  | @disconnected k d₀ rest hq =>
    rcases hd with hd | hd | hd
    · exact Or.inl (Or.inl (hq.mem_iff.mpr (List.mem_cons_of_mem _ hd)))
    · rcases List.mem_append.mp hd with hd | hd
      · exact Or.inl (Or.inr (Or.inl hd))
      · obtain rfl := List.mem_singleton.mp hd
        exact Or.inl (Or.inl (hq.mem_iff.mpr List.mem_cons_self))
    · exact Or.inl (Or.inr (Or.inr hd))
  | @orphanProceeded k arrived d₀ d' emitted rest hq hperform =>
    rcases hd with hd | hd | hd
    · exact Or.inl (Or.inl hd)
    · rcases List.mem_append.mp hd with hd | hd
      · exact Or.inl (Or.inr (Or.inl (hq.mem_iff.mpr (List.mem_cons_of_mem _ hd))))
      · obtain rfl := List.mem_singleton.mp hd
        exact Or.inr (Or.inl ⟨d₀, Or.inr (Or.inl (hq.mem_iff.mpr List.mem_cons_self)), arrived,
          emitted, hperform, List.subset_append_right _ _⟩)
    · exact Or.inl (Or.inr (Or.inr hd))
  | expired hq he => exact Or.inl hd

theorem Traced.step (h : svc.Traced w) (hs : svc.Step w a w') : svc.Traced w' := by
  constructor
  · rintro p hp
    rcases hs.mem_stored hp with hp | ⟨rfl, hmain⟩ | ⟨d, hd, t, ht, arrived, hemit⟩ |
      ⟨d, hd, hmessage, hqueue⟩ | ⟨queue, hq, hdead⟩
    · obtain ⟨root, hroot, hdesc⟩ := h.stored p hp
      exact ⟨root, hs.posted_subset hroot, hdesc⟩
    · cases hs
      exact ⟨p.2, List.mem_append_right _ List.mem_cons_self, hmain ▸ .root⟩
    · obtain ⟨root, hroot, hdesc⟩ := h.delivered d hd
      exact ⟨root, hs.posted_subset hroot,
        .emitted hdesc (Delivery.mem_calls_of_pending ht) hemit⟩
    · obtain ⟨root, hroot, hdesc⟩ := h.delivered d hd
      rw [hmessage] at hdesc
      refine ⟨root, hs.posted_subset hroot, ?_⟩
      rcases hqueue with hmain | hdead
      · exact hmain ▸ hdesc
      · exact .deadLettered hdesc hdead
    · obtain ⟨root, hroot, hdesc⟩ := h.stored _ hq
      exact ⟨root, hs.posted_subset hroot, .deadLettered hdesc hdead⟩
  · rintro d hd
    rcases hs.mem_deliveries hd with hd | ⟨d₀, hd₀, arrived, emitted, hperform, -⟩ |
      ⟨i, message, answers, -, hq, rfl⟩
    · obtain ⟨root, hroot, hdesc⟩ := h.delivered d hd
      exact ⟨root, hs.posted_subset hroot, hdesc⟩
    · obtain ⟨root, hroot, hdesc⟩ := h.delivered d₀ hd₀
      obtain ⟨t, -, hmessage, -⟩ := Delivery.perform_eq_some hperform
      exact ⟨root, hs.posted_subset hroot, hmessage ▸ hdesc⟩
    · obtain ⟨root, hroot, hdesc⟩ := h.stored _ hq
      exact ⟨root, hs.posted_subset hroot, hdesc⟩
  · rintro d hd c hc p hp hf
    rcases hs.mem_deliveries hd with hd | ⟨d₀, hd₀, arrived, emitted, hperform, hsub⟩ |
      ⟨i, message, answers, -, hq, rfl⟩
    · exact hs.final (h.arrived d hd c hc p hp hf) hf
    · obtain ⟨t, -, -, -, hperformed, rfl⟩ := Delivery.perform_eq_some hperform
      rw [hperformed] at hc
      rcases List.mem_append.mp hc with hc | hc
      · exact hs.final (h.arrived d₀ hd₀ c hc p hp hf) hf
      · obtain rfl := List.mem_singleton.mp hc
        exact hsub hp
    · cases hc
  · rintro d hd
    cases hs with
    | settled hq hpending =>
      rcases List.mem_append.mp hd with hd | hd
      · exact h.done d hd
      · obtain rfl := List.mem_singleton.mp hd
        exact hpending
    | posted | delivered | proceeded | disconnected | orphanProceeded | expired =>
      exact h.done d hd

/-- In every run the messages come from posted ones, and what was published has arrived. -/
theorem traced [DecidableEq κ] {allowed : World svc → Action μ α → Prop}
    (h : Reach svc.step allowed {} w) : svc.Traced w := by
  have hinit : svc.Traced {} := by constructor <;> nofun
  exact h.invariant hinit fun _ _ _ _ hi _ hs => hi.step (step_cases hs)

theorem answers_of_reach [DecidableEq κ] {allowed : World svc → Action μ α → Prop} {P : α → Prop}
    (hP : ∀ w i answers, allowed w (.deliver i answers) → P answers)
    (h : Reach svc.step allowed {} w) : ∀ d ∈ w.deliveries, P d.answers := by
  induction h with
  | refl => nofun
  | tail _ ha hs ih =>
    rintro d hd
    rcases (step_cases hs).mem_deliveries hd with hd | ⟨d₀, hd₀, arrived, emitted, hperform, -⟩ |
      ⟨i, message, answers, rfl, -, rfl⟩
    · exact ih d hd
    · obtain ⟨t, -, -, hanswers, -⟩ := Delivery.perform_eq_some hperform
      exact hanswers ▸ ih d₀ hd₀
    · exact hP _ i answers ha

end Service

/-! ## Queues that are only published to -/

namespace Service

variable (svc : Service κ μ α τ)

/-- No message is brought to the queue but by a call. -/
def OnlyPublished (queue : κ) : Prop :=
  queue ≠ svc.main ∧ ∀ queue', svc.deadLetter queue' ≠ some queue

variable {svc} {w w' : World svc} {a : Action μ α}

theorem Step.continued (hs : svc.Step w a w') {d : Delivery svc} (hd : d ∈ w.deliveries) :
    ∃ d' ∈ w'.deliveries, d'.message = d.message ∧ d'.answers = d.answers ∧
      d.performed ⊆ d'.performed := by
  have hsame : d ∈ w'.deliveries → ∃ d' ∈ w'.deliveries, d'.message = d.message ∧
      d'.answers = d.answers ∧ d.performed ⊆ d'.performed :=
    fun h => ⟨d, h, rfl, rfl, List.Subset.refl _⟩
  simp only [World.mem_deliveries] at hd hsame ⊢
  cases hs with
  | posted | expired => exact hsame hd
  | delivered =>
    apply hsame
    rcases hd with hd | hd
    · exact Or.inl (List.mem_append_left _ hd)
    · exact Or.inr hd
  | @proceeded k arrived d₀ d' emitted rest hq hperform =>
    rcases hd with hd | hd
    · rcases List.mem_cons.mp (hq.mem_iff.mp hd) with rfl | hd
      · obtain ⟨t, -, hmessage, hanswers, hperformed, -⟩ := Delivery.perform_eq_some hperform
        exact ⟨d', Or.inl (List.mem_append_right _ List.mem_cons_self), hmessage, hanswers,
          hperformed ▸ List.subset_append_left _ _⟩
      · exact hsame (Or.inl (List.mem_append_left _ hd))
    · exact hsame (Or.inr hd)
  | @settled k d₀ rest hq hpending =>
    apply hsame
    rcases hd with hd | hd | hd
    · rcases List.mem_cons.mp (hq.mem_iff.mp hd) with rfl | hd
      · exact Or.inr (Or.inr (List.mem_append_right _ List.mem_cons_self))
      · exact Or.inl hd
    · exact Or.inr (Or.inl hd)
    · exact Or.inr (Or.inr (List.mem_append_left _ hd))
  | @disconnected k d₀ rest hq =>
    apply hsame
    rcases hd with hd | hd | hd
    · rcases List.mem_cons.mp (hq.mem_iff.mp hd) with rfl | hd
      · exact Or.inr (Or.inl (List.mem_append_right _ List.mem_cons_self))
      · exact Or.inl hd
    · exact Or.inr (Or.inl (List.mem_append_left _ hd))
    · exact Or.inr (Or.inr hd)
  | @orphanProceeded k arrived d₀ d' emitted rest hq hperform =>
    rcases hd with hd | hd | hd
    · exact hsame (Or.inl hd)
    · rcases List.mem_cons.mp (hq.mem_iff.mp hd) with rfl | hd
      · obtain ⟨t, -, hmessage, hanswers, hperformed, -⟩ := Delivery.perform_eq_some hperform
        exact ⟨d', Or.inr (Or.inl (List.mem_append_right _ List.mem_cons_self)), hmessage,
          hanswers, hperformed ▸ List.subset_append_left _ _⟩
      · exact hsame (Or.inr (Or.inl (List.mem_append_left _ hd)))
    · exact hsame (Or.inr (Or.inr hd))

theorem Step.published (hs : svc.Step w a w') {p : κ × μ} (hq : svc.OnlyPublished p.1)
    (hp : p ∈ w'.stored) : p ∈ w.stored ∨
      ∃ d ∈ w'.deliveries, ∃ c ∈ d.performed, p ∈ svc.emits c.1 c.2 := by
  obtain ⟨hmain, hdead⟩ := hq
  cases hs with
  | posted =>
    rcases List.mem_append.mp hp with hp | hp
    · exact Or.inl hp
    · obtain rfl := List.mem_singleton.mp hp
      exact absurd rfl hmain
  | delivered hq hw => exact Or.inl (hq.mem_iff.mpr (List.mem_cons_of_mem _ hp))
  | @proceeded k arrived d d' emitted rest hq hperform =>
    rcases List.mem_append.mp hp with hp | hp
    · exact Or.inl hp
    · obtain ⟨t, -, -, -, hperformed, rfl⟩ := Delivery.perform_eq_some hperform
      have hmem : d' ∈ rest ++ [d'] := List.mem_append_right _ List.mem_cons_self
      exact Or.inr ⟨d', World.mem_deliveries.mpr (Or.inl hmem), (t, arrived), by simp [hperformed],
        hp⟩
  | settled hq hpending =>
    rcases List.mem_append.mp hp with hp | hp
    · exact Or.inl hp
    · exact absurd (mem_leftover hp).1 (hdead _)
  | disconnected hq =>
    rcases List.mem_append.mp hp with hp | hp
    · exact Or.inl hp
    · obtain rfl := List.mem_singleton.mp hp
      exact absurd rfl hmain
  | @orphanProceeded k arrived d d' emitted rest hq hperform =>
    rcases List.mem_append.mp hp with hp | hp
    · exact Or.inl hp
    · obtain ⟨t, -, -, -, hperformed, rfl⟩ := Delivery.perform_eq_some hperform
      have hmem : d' ∈ rest ++ [d'] := List.mem_append_right _ List.mem_cons_self
      exact Or.inr ⟨d', World.mem_deliveries.mpr (Or.inr (Or.inl hmem)), (t, arrived),
        by simp [hperformed], hp⟩
  | expired hq he =>
    rcases List.mem_append.mp hp with hp | hp
    · exact Or.inl (hq.mem_iff.mpr (List.mem_cons_of_mem _ hp))
    · exact absurd (mem_deadLettered.mp hp).1 (hdead _)

/-- In every run, what is in such a queue was published by a call of a delivery. -/
theorem published [DecidableEq κ] {allowed : World svc → Action μ α → Prop}
    (h : Reach svc.step allowed {} w) {p : κ × μ} (hq : svc.OnlyPublished p.1)
    (hp : p ∈ w.stored) : ∃ d ∈ w.deliveries, ∃ c ∈ d.performed, p ∈ svc.emits c.1 c.2 := by
  induction h with
  | refl => cases hp
  | tail _ _ hs ih =>
    rcases (step_cases hs).published hq hp with hp | hp
    · obtain ⟨d, hd, c, hc, hemit⟩ := ih hp
      obtain ⟨d', hd', -, -, hsub⟩ := (step_cases hs).continued hd
      exact ⟨d', hd', c, hsub hc, hemit⟩
    · exact hp

end Service

/-! ## Bounded weights -/

namespace Weights

variable {svc : Service κ μ α τ} (W : Weights svc)

/-- The weight with the orphans. -/
def overall (w : World svc) : ℕ :=
  W.ofStored w.stored + (w.inFlight.map W.held).sum + (w.orphans.map W.held).sum +
    (w.settled.map W.settled).sum

/-- What the deliveries of a run have added. -/
def gained (gain : Delivery svc → ℕ) (w : World svc) : ℕ :=
  (w.inFlight.map gain).sum + (w.orphans.map gain).sum + (w.settled.map gain).sum

/-- The weight of the messages that lost channels have brought back. -/
def returned (w : World svc) : ℕ :=
  (w.orphans.map fun d => W.stored (svc.main, d.message)).sum

/-- A step of a delivery adds no more weight than it gains. -/
structure Bounded (gain : Delivery svc → ℕ) : Prop where
  start : ∀ message answers, W.held (.start svc message answers) ≤
    W.stored (svc.main, message) + gain (.start svc message answers)
  perform : ∀ (d d' : Delivery svc) arrived emitted, d.perform arrived = some (d', emitted) →
    W.held d' + W.ofStored emitted + gain d ≤ W.held d + gain d'
  settle : ∀ d : Delivery svc, d.pending = [] →
    W.settled d + W.ofStored d.leftover ≤ W.held d
  expire : ∀ queue message, svc.expires queue = true →
    W.ofStored (svc.deadLettered queue message) ≤ W.stored (queue, message)

variable {W} {gain : Delivery svc → ℕ} {w w' : World svc} {a : Action μ α}

theorem Bounded.step (hW : W.Bounded gain)
    (hi : W.overall w ≤ W.ofPosted w + gained gain w + W.returned w) (hs : svc.Step w a w') :
    W.overall w' ≤ W.ofPosted w' + gained gain w' + W.returned w' := by
  cases hs with
  | posted =>
    simp only [ofPosted, overall, gained, returned, List.map_append, List.sum_append,
      ofStored_append, ofStored_cons, ofStored_nil, List.map_cons, List.map_nil, List.sum_cons,
      List.sum_nil] at hi ⊢
    omega
  | @delivered i answers message rest hp hw =>
    have hstart := hW.start message answers
    have hstored := W.ofStored_perm hp
    simp only [ofPosted, overall, gained, returned, List.map_append, List.sum_append,
      ofStored_cons, List.map_cons, List.map_nil, List.sum_cons, List.sum_nil] at hi hstored ⊢
    omega
  | @proceeded k arrived d d' emitted rest hp hd =>
    have hperform := hW.perform d d' arrived emitted hd
    have hheld := (hp.map W.held).sum_eq
    have hgained := (hp.map gain).sum_eq
    simp only [ofPosted, overall, gained, returned, List.map_append, List.sum_append,
      ofStored_append, List.map_cons, List.map_nil, List.sum_cons, List.sum_nil]
      at hi hheld hgained ⊢
    omega
  | @settled k d rest hp hd =>
    have hsettle := hW.settle d hd
    have hheld := (hp.map W.held).sum_eq
    have hgained := (hp.map gain).sum_eq
    simp only [ofPosted, overall, gained, returned, List.map_append, List.sum_append,
      ofStored_append, List.map_cons, List.map_nil, List.sum_cons, List.sum_nil]
      at hi hheld hgained ⊢
    omega
  | @disconnected k d rest hp =>
    have hheld := (hp.map W.held).sum_eq
    have hgained := (hp.map gain).sum_eq
    simp only [ofPosted, overall, gained, returned, List.map_append, List.sum_append,
      ofStored_append, ofStored_cons, ofStored_nil, List.map_cons, List.map_nil, List.sum_cons,
      List.sum_nil] at hi hheld hgained ⊢
    omega
  | @orphanProceeded k arrived d d' emitted rest hp hd =>
    have hperform := hW.perform d d' arrived emitted hd
    obtain ⟨t, -, hmessage, -⟩ := Delivery.perform_eq_some hd
    have hheld := (hp.map W.held).sum_eq
    have hgained := (hp.map gain).sum_eq
    have hreturned := (hp.map fun d => W.stored (svc.main, d.message)).sum_eq
    simp only [ofPosted, overall, gained, returned, List.map_append, List.sum_append,
      ofStored_append, List.map_cons, List.map_nil, List.sum_cons, List.sum_nil, hmessage]
      at hi hheld hgained hreturned ⊢
    omega
  | @expired i queue message rest hp he =>
    have hexpire := hW.expire queue message he
    have hstored := W.ofStored_perm hp
    simp only [ofPosted, overall, gained, returned, ofStored_append, ofStored_cons]
      at hi hstored ⊢
    omega

/-- A run adds no more weight than its deliveries and its lost channels account for. -/
theorem Bounded.overall_le [DecidableEq κ] {allowed : World svc → Action μ α → Prop}
    (hW : W.Bounded gain) (h : Reach svc.step allowed {} w) :
    W.overall w ≤ W.ofPosted w + gained gain w + W.returned w := by
  induction h with
  | refl => exact Nat.le_refl 0
  | tail _ _ hs ih => exact hW.step ih (Service.step_cases hs)

end Weights

end WorkQueue
