import Mathlib.Data.ENat.Lattice

/-! # Following cursors

Pages are fetched one after another, each at the cursor that the page before it gave. A
walk stops at a page without a cursor, when its budget is spent, or when a fetch fails. It
gets as many pages as there are, or as the budget allows.
-/

namespace Cursor

variable {κ ε π : Type*} (fetch : Option κ → Except ε π) (next : π → Option κ)

/-- Pages that follow each other, the first one at a cursor. -/
def Chain : Option κ → List π → Prop
  | _, [] => True
  | c, p :: ps => fetch c = .ok p ∧ (ps ≠ [] → (next p).isSome) ∧ Chain (next p) ps

def after (c : Option κ) (ps : List π) : Option κ := ps.getLast?.elim c next

/-- Pages up to the first one without a cursor. -/
structure Complete (c : Option κ) (ps : List π) : Prop where
  chain : Chain fetch next c ps
  nonempty : ps ≠ []
  ended : after next c ps = none

/-- How many pages there are up to and including the first one without a cursor. -/
noncomputable def pageCount (c : Option κ) : ℕ∞ :=
  ⨅ ps, ⨅ (_ : Complete fetch next c ps), (ps.length : ℕ∞)

/-- A walk with a budget, the pages it gets, and the failure that stops it. -/
inductive Walk : ℕ → Option κ → List π → Option ε → Prop
  | spent (c : Option κ) : Walk 0 c [] none
  | failed {n : ℕ} {c : Option κ} {e : ε} (hf : fetch c = .error e) : Walk (n + 1) c [] (some e)
  | ended {n : ℕ} {c : Option κ} {p : π} (hf : fetch c = .ok p) (hn : next p = none) :
      Walk (n + 1) c [p] none
  | more {n : ℕ} {c : Option κ} {p : π} {ps : List π} {stop : Option ε} (hf : fetch c = .ok p)
      (hn : (next p).isSome) (h : Walk n (next p) ps stop) : Walk (n + 1) c (p :: ps) stop

variable {fetch next} {c : Option κ} {n : ℕ} {p : π} {ps ps' : List π} {e : ε} {stop : Option ε}

@[simp] theorem after_nil (c : Option κ) : after next c [] = c := rfl

@[simp] theorem after_cons (c : Option κ) (p : π) (ps : List π) :
    after next c (p :: ps) = after next (next p) ps := by
  cases ps with
  | nil => rfl
  | cons q ps => simp [after, List.getLast?_cons]

theorem Chain.length_le (h : Chain fetch next c ps) (h' : Complete fetch next c ps') :
    ps.length ≤ ps'.length := by
  induction ps generalizing c ps' with
  | nil => exact Nat.zero_le _
  | cons p ps ih =>
    obtain ⟨hc, hne, hend⟩ := h'
    obtain ⟨p', ps', rfl⟩ := List.exists_cons_of_ne_nil hne
    obtain ⟨hf, hn, h⟩ := h
    obtain ⟨hf', -, h'⟩ := hc
    obtain rfl : p = p' := Except.ok.inj (hf.symm.trans hf')
    rw [after_cons] at hend
    by_cases hps : ps = []
    · simp [hps]
    · have hps' : ps' ≠ [] := by
        rintro rfl
        have hsome := hn hps
        rw [after_nil] at hend
        rw [hend] at hsome
        cases hsome
      exact Nat.succ_le_succ (ih h ⟨h', hps', hend⟩)

theorem Chain.length_le_pageCount (h : Chain fetch next c ps) :
    (ps.length : ℕ∞) ≤ pageCount fetch next c :=
  le_iInf fun _ => le_iInf fun h' => Nat.cast_le.mpr (h.length_le h')

theorem Complete.pageCount_eq (h : Complete fetch next c ps) :
    pageCount fetch next c = ps.length :=
  le_antisymm (iInf₂_le ps h) h.chain.length_le_pageCount

theorem Walk.chain (h : Walk fetch next n c ps stop) : Chain fetch next c ps := by
  induction h with
  | spent => trivial
  | failed => trivial
  | ended hf => exact ⟨hf, fun h => absurd rfl h, trivial⟩
  | more hf hn _ ih => exact ⟨hf, fun _ => hn, ih⟩

theorem Walk.failed_at (h : Walk fetch next n c ps (some e)) :
    fetch (after next c ps) = .error e ∧ ps.length < n ∧ ∀ p ∈ ps, (next p).isSome := by
  generalize hs : some e = stop at h
  induction h with
  | spent => cases hs
  | failed hf =>
    obtain rfl := Option.some.inj hs
    exact ⟨hf, Nat.succ_pos _, by simp⟩
  | ended => cases hs
  | more hf hn h ih =>
    obtain ⟨hat, hlt, hall⟩ := ih hs
    refine ⟨by rwa [after_cons], Nat.succ_lt_succ hlt, ?_⟩
    simpa using ⟨hn, hall⟩

/-- A walk that does not fail spends its budget or comes to a page without a cursor. -/
theorem Walk.stopped (h : Walk fetch next n c ps none) :
    ps.length ≤ n ∧ (ps.length = n ∨ ps ≠ [] ∧ after next c ps = none) := by
  generalize hs : (none : Option ε) = stop at h
  induction h with
  | spent => exact ⟨le_rfl, Or.inl rfl⟩
  | failed => cases hs
  | ended hf hn => exact ⟨Nat.succ_le_succ (Nat.zero_le _), Or.inr ⟨by simp, by simpa using hn⟩⟩
  | @more n c p ps stop hf hn h ih =>
    obtain ⟨hle, hstop⟩ := ih hs
    refine ⟨Nat.succ_le_succ hle, ?_⟩
    rcases hstop with heq | ⟨-, hend⟩
    · exact Or.inl (congrArg Nat.succ heq)
    · exact Or.inr ⟨by simp, by rwa [after_cons]⟩

theorem Walk.length_eq (h : Walk fetch next n c ps none) :
    (ps.length : ℕ∞) = min (n : ℕ∞) (pageCount fetch next c) := by
  obtain ⟨hle, hstop⟩ := h.stopped
  have hcount := h.chain.length_le_pageCount
  rcases hstop with rfl | ⟨hne, hend⟩
  · exact (min_eq_left hcount).symm
  · rw [Complete.pageCount_eq ⟨h.chain, hne, hend⟩]
    exact (min_eq_right (Nat.cast_le.mpr hle)).symm

end Cursor
