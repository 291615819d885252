import Mathlib.Data.List.Nodup
import Mathlib.Data.List.Sort
import Mathlib.Order.Defs.LinearOrder

/-! # Sorting that need not be stable

A sort by a comparison rearranges a list so that no element is less than an earlier one.
Which of two elements comes first when neither is less is left open.
-/

/-- A sort of lists by a comparison `less`. -/
structure SortSlice where
  run : {α : Type} → (less : α → α → Bool) → List α → List α
  perm : ∀ {α : Type} (less : α → α → Bool) (l : List α), (run less l).Perm l
  sorted : ∀ {α : Type} (less : α → α → Bool),
    (∀ a b, less a b = true → less b a = false) →
    (∀ a b c, less b a = false → less c b = false → less c a = false) →
    ∀ l, (run less l).Pairwise fun a b => less b a = false

namespace SortSlice

/-- Sorting by keys that tell the elements apart leaves nothing open. -/
theorem run_eq_of_perm {α κ : Type} [LinearOrder κ] (s : SortSlice) {less : α → α → Bool}
    {key : α → κ} (hless : ∀ a b, less a b = true ↔ key a < key b) {l l' : List α}
    (hn : (l.map key).Nodup) (hp : l.Perm l') : s.run less l = s.run less l' := by
  have hle : ∀ a b, less a b = false ↔ key b ≤ key a := by
    intro a b
    rw [← Bool.not_eq_true, hless, not_lt]
  have hsorted : ∀ l : List α, (s.run less l).Pairwise fun a b => key a ≤ key b := by
    intro l
    have h := s.sorted less (fun a b h => (hle b a).mpr ((hless a b).mp h).le)
      (fun a b c h h' => (hle c a).mpr (((hle b a).mp h).trans ((hle c b).mp h'))) l
    exact h.imp fun {a b} h => (hle b a).mp h
  have hall : (s.run less l).Perm (s.run less l') :=
    (s.perm less l).trans (hp.trans (s.perm less l').symm)
  apply List.Perm.eq_of_pairwise _ (hsorted l) (hsorted l') hall
  intro a b ha hb hab hba
  have ha' : a ∈ l := (s.perm less l).mem_iff.mp ha
  have hb' : b ∈ l := hp.mem_iff.mpr ((s.perm less l').mem_iff.mp hb)
  exact List.inj_on_of_nodup_map hn ha' hb' (le_antisymm hab hba)

def stable : SortSlice where
  run less l := l.mergeSort fun a b => !less b a
  perm _ l := List.mergeSort_perm l _
  sorted less hasymm htrans l := by
    have h := @List.pairwise_mergeSort _ (fun a b => !less b a)
      (fun a b c hab hbc => by simpa using htrans a b c (by simpa using hab) (by simpa using hbc))
      (fun a b => by cases h : less b a with
        | false => rfl
        | true => simpa using hasymm b a h) l
    simpa using h

/-- So is the sort by insertion, which is by recursion on the list. -/
def inserting : SortSlice where
  run less l := l.insertionSort fun a b => less b a = false
  perm less l := List.perm_insertionSort (fun a b => less b a = false) l
  sorted less hasymm htrans l := by
    have : Std.Total fun a b => less b a = false := ⟨fun a b => by
      cases h : less b a with
      | false => exact Or.inl rfl
      | true => exact Or.inr (hasymm b a h)⟩
    have : IsTrans _ fun a b => less b a = false := ⟨htrans⟩
    exact List.pairwise_insertionSort _ l

end SortSlice
