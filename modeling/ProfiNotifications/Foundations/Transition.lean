import Mathlib.Data.List.Basic

/-! # Runs of a partial step function

A system is a step function that says, for every state and action, whether the action
is enabled and which state it leads to. Reachability is taken along the actions that a
run is allowed to perform; an invariant of all allowed steps holds in every reachable
state.
-/

namespace Transition

variable {σ α : Type*}

/-- Perform actions in order, failing at the first one that is not enabled. -/
def run (step : σ → α → Option σ) : σ → List α → Option σ
  | s, [] => some s
  | s, a :: as => (step s a).bind fun s' => run step s' as

theorem run_append {step : σ → α → Option σ} {s : σ} (as bs : List α) :
    run step s (as ++ bs) = (run step s as).bind fun t => run step t bs := by
  induction as generalizing s with
  | nil => rfl
  | cons a as ih =>
    simp only [List.cons_append, run]
    cases step s a with
    | none => rfl
    | some t => exact ih

/-- A step function restricted to the actions that a procedure admits. -/
def guarded (step : σ → α → Option σ) (admits : σ → α → Bool) (s : σ) (a : α) : Option σ :=
  if admits s a then step s a else none

theorem guarded_eq_some {step : σ → α → Option σ} {admits : σ → α → Bool} {s s' : σ} {a : α}
    (h : guarded step admits s a = some s') : admits s a = true ∧ step s a = some s' := by
  unfold guarded at h
  split at h
  · exact ⟨‹_›, h⟩
  · cases h

/-- States reachable from `s₀` by enabled actions that are allowed where they happen. -/
inductive Reach (step : σ → α → Option σ) (allowed : σ → α → Prop) (s₀ : σ) : σ → Prop
  | refl : Reach step allowed s₀ s₀
  | tail {s s' : σ} {a : α} : Reach step allowed s₀ s → allowed s a → step s a = some s' →
      Reach step allowed s₀ s'

namespace Reach

variable {step : σ → α → Option σ} {allowed allowed' : σ → α → Prop} {s₀ s s' : σ}

theorem trans (h : Reach step allowed s₀ s) (h' : Reach step allowed s s') :
    Reach step allowed s₀ s' := by
  induction h' with
  | refl => exact h
  | tail _ ha hs ih => exact .tail ih ha hs

theorem head {a : α} (ha : allowed s₀ a) (hs : step s₀ a = some s)
    (h : Reach step allowed s s') : Reach step allowed s₀ s' :=
  trans (.tail .refl ha hs) h

theorem mono (hm : ∀ s a, allowed s a → allowed' s a) (h : Reach step allowed s₀ s) :
    Reach step allowed' s₀ s := by
  induction h with
  | refl => exact .refl
  | tail _ ha hs ih => exact .tail ih (hm _ _ ha) hs

/-- What holds initially and survives every allowed step from a reachable state holds
in every reachable state. -/
theorem invariant {inv : σ → Prop} (h₀ : inv s₀)
    (hstep : ∀ s a s', Reach step allowed s₀ s → inv s → allowed s a → step s a = some s' → inv s')
    (h : Reach step allowed s₀ s) : inv s := by
  induction h with
  | refl => exact h₀
  | tail hr ha hs ih => exact hstep _ _ _ hr ih ha hs

theorem of_run {admits : σ → α → Bool} {as : List α}
    (h : run (guarded step admits) s₀ as = some s) :
    Reach step (fun s a => admits s a = true) s₀ s := by
  induction as generalizing s₀ with
  | nil =>
    obtain rfl : s₀ = s := Option.some.inj h
    exact .refl
  | cons a as ih =>
    obtain ⟨s₁, hs, hr⟩ := Option.bind_eq_some_iff.mp h
    obtain ⟨ha, hs⟩ := guarded_eq_some hs
    exact head ha hs (ih hr)

theorem of_run_of_forall {P : α → Prop} {as : List α} (hP : ∀ a ∈ as, P a)
    (h : run step s₀ as = some s) : Reach step (fun _ a => P a) s₀ s := by
  induction as generalizing s₀ with
  | nil =>
    obtain rfl : s₀ = s := Option.some.inj h
    exact .refl
  | cons a as ih =>
    obtain ⟨s₁, hs, hr⟩ := Option.bind_eq_some_iff.mp h
    exact head (hP a List.mem_cons_self) hs (ih (fun b hb => hP b (List.mem_cons_of_mem _ hb)) hr)

end Reach

/-- An invariant of enabled steps that counts them, after a whole run. -/
theorem run_invariant {step : σ → α → Option σ} (inv : ℕ → σ → Prop)
    (hstep : ∀ k s a s', inv k s → step s a = some s' → inv (k + 1) s') {as : List α} {k : ℕ}
    {s s' : σ} (h₀ : inv k s) (h : run step s as = some s') : inv (k + as.length) s' := by
  induction as generalizing k s with
  | nil =>
    obtain rfl : s = s' := Option.some.inj h
    exact h₀
  | cons a as ih =>
    obtain ⟨s₁, hs, hr⟩ := Option.bind_eq_some_iff.mp h
    have hk : k + (a :: as).length = k + 1 + as.length := by simp only [List.length_cons]; omega
    rw [hk]
    exact ih (hstep k s a s₁ h₀ hs) hr

theorem run_measure_le {step : σ → α → Option σ} (inv : σ → Prop) (measure : σ → ℕ)
    {raises : α → Bool} (hstep : ∀ s a s', inv s → step s a = some s' →
      inv s' ∧ measure s' ≤ measure s + if raises a then 1 else 0) {as : List α} {s s' : σ}
    (h₀ : inv s) (h : run step s as = some s') :
    inv s' ∧ measure s' ≤ measure s + as.countP raises := by
  induction as generalizing s with
  | nil =>
    obtain rfl : s = s' := Option.some.inj h
    exact ⟨h₀, Nat.le_refl _⟩
  | cons a as ih =>
    obtain ⟨s₁, hs, hr⟩ := Option.bind_eq_some_iff.mp h
    obtain ⟨h₁, hle⟩ := hstep s a s₁ h₀ hs
    obtain ⟨h', hle'⟩ := ih h₁ hr
    refine ⟨h', ?_⟩
    rw [List.countP_cons]
    omega

section Padded

variable {μ : Type*}

/-- The second list is the first one with copies inserted anywhere. -/
inductive Padded (copy : μ → Prop) : List μ → List μ → Prop
  | nil : Padded copy [] []
  | keep (x : μ) {xs ys : List μ} (h : Padded copy xs ys) : Padded copy (x :: xs) (x :: ys)
  | insert {x : μ} (hx : copy x) {xs ys : List μ} (h : Padded copy xs ys) :
      Padded copy xs (x :: ys)

/-- Copies that change nothing, now and later, leave the outcome of a run as it is. -/
theorem Padded.foldl_eq {copy : μ → Prop} {f : σ → μ → σ} (inv : σ → Prop)
    (hinv : ∀ s x, inv s → inv (f s x)) (hcopy : ∀ s x, inv s → copy x → f s x = s)
    {xs ys : List μ} (h : Padded copy xs ys) {s : σ} (hs : inv s) :
    ys.foldl f s = xs.foldl f s := by
  induction h generalizing s with
  | nil => rfl
  | keep x _ ih => exact ih (hinv s x hs)
  | insert hx _ ih => rw [List.foldl_cons, hcopy s _ hs hx]; exact ih hs

theorem foldl_invariant {f : σ → μ → σ} (inv : σ → Prop)
    (hinv : ∀ s x, inv s → inv (f s x)) {s : σ} (hs : inv s) (xs : List μ) :
    inv (xs.foldl f s) := by
  induction xs generalizing s with
  | nil => exact hs
  | cons x xs ih => exact ih (hinv s x hs)

end Padded

end Transition
