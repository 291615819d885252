import Mathlib.Data.List.Basic

/-! # Selecting again by key

Some places of a list are marked. Who is told only the keys of the items at the marked
places can select by these keys from the whole list. That gives every marked item, in
order, and nothing else exactly if places with items of the same key are marked alike.
-/

namespace Selection

variable {ι κ π : Type*} [DecidableEq κ] (key : ι → κ) (mark : ι × π → Bool) (ps : List (ι × π))

def marked : List ι := (ps.filter mark).map Prod.fst

def reselected : List ι :=
  (ps.map Prod.fst).filter fun x => decide (key x ∈ (marked mark ps).map key)

variable {key mark ps}

theorem mem_marked {x : ι} : x ∈ marked mark ps ↔ ∃ p ∈ ps, mark p = true ∧ p.1 = x := by
  simp only [marked, List.mem_map, List.mem_filter, and_assoc]

omit [DecidableEq κ] in
theorem mem_keys_marked {k : κ} :
    k ∈ (marked mark ps).map key ↔ ∃ p ∈ ps, mark p = true ∧ key p.1 = k := by
  simp only [List.mem_map, mem_marked]
  constructor
  · rintro ⟨_, ⟨p, hp, hm, rfl⟩, hk⟩
    exact ⟨p, hp, hm, hk⟩
  · rintro ⟨p, hp, hm, hk⟩
    exact ⟨p.1, ⟨p, hp, hm, rfl⟩, hk⟩

theorem mem_reselected {x : ι} : x ∈ reselected key mark ps ↔
    x ∈ ps.map Prod.fst ∧ ∃ q ∈ ps, mark q = true ∧ key q.1 = key x := by
  simp only [reselected, List.mem_filter, decide_eq_true_eq, mem_keys_marked]

omit [DecidableEq κ] in
theorem marked_zipIdx_map {f : ι → κ} {m : ℕ → Bool} (l : List ι) :
    marked (fun p => m p.2) (l.map f).zipIdx = (marked (fun p => m p.2) l.zipIdx).map f := by
  rw [marked, marked, List.zipIdx_map, List.filter_map, List.map_map, List.map_map]
  rfl

/-- Selecting by key is a choice of places as well. -/
theorem reselected_eq : reselected key mark ps =
    (ps.filter fun p => decide (key p.1 ∈ (marked mark ps).map key)).map Prod.fst :=
  List.filter_map

theorem filter_mark_sublist : (ps.filter mark).Sublist
    (ps.filter fun p => decide (key p.1 ∈ (marked mark ps).map key)) := by
  have hfilter : ps.filter mark =
      (ps.filter fun p => decide (key p.1 ∈ (marked mark ps).map key)).filter mark := by
    rw [List.filter_filter]
    apply List.filter_congr
    rintro p hp
    cases hm : mark p with
    | false => rfl
    | true =>
      rw [Bool.true_and, eq_comm, decide_eq_true_eq]
      exact mem_keys_marked.mpr ⟨p, hp, hm, rfl⟩
  rw [hfilter]
  exact List.filter_sublist

theorem marked_sublist_reselected : (marked mark ps).Sublist (reselected key mark ps) := by
  rw [reselected_eq]
  exact filter_mark_sublist.map Prod.fst

theorem count_marked_add [DecidableEq ι] (x : ι) :
    (marked mark ps).count x + (marked (fun p => !mark p) ps).count x =
      (ps.map Prod.fst).count x := by
  induction ps with
  | nil => rfl
  | cons p ps ih =>
    have hcons : (marked mark (p :: ps)).count x + (marked (fun p => !mark p) (p :: ps)).count x =
        (marked mark ps).count x + (marked (fun p => !mark p) ps).count x +
          if p.1 = x then 1 else 0 := by
      cases hm : mark p <;> simp [marked, List.count_cons, hm] <;> omega
    rw [hcons, ih, List.map_cons, List.count_cons]
    simp

theorem reselected_eq_marked_iff : reselected key mark ps = marked mark ps ↔
    ∀ p ∈ ps, ∀ q ∈ ps, key p.1 = key q.1 → mark p = true → mark q = true := by
  rw [reselected_eq]
  constructor
  · rintro h p hp q hq hk hm
    have hlen := congrArg List.length h
    rw [marked, List.length_map, List.length_map] at hlen
    have hq' : q ∈ ps.filter fun p => decide (key p.1 ∈ (marked mark ps).map key) := by
      rw [List.mem_filter, decide_eq_true_eq, mem_keys_marked]
      exact ⟨hq, p, hp, hm, hk⟩
    rw [← filter_mark_sublist.eq_of_length hlen.symm] at hq'
    exact (List.mem_filter.mp hq').2
  · rintro h
    apply congrArg (List.map Prod.fst)
    apply List.filter_congr
    rintro q hq
    rw [Bool.eq_iff_iff, decide_eq_true_eq, mem_keys_marked]
    constructor
    · rintro ⟨p, hp, hm, hk⟩
      exact h p hp q hq hk hm
    · rintro hm
      exact ⟨q, hq, hm, rfl⟩

end Selection
