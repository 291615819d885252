import Mathlib.Data.List.Induction
import Mathlib.Order.Bounds.Basic
import ProfiNotifications.Foundations.Keyed

/-! # The greatest entry of every key

Entries compete for the place of their key in a table. An entry takes the place when it
is free or when its rank is strictly greater than the rank of the entry that holds it, so
the place goes to the first of the entries with the greatest rank. The ranks that a table
holds depend only on the ranks that occur, not on the order of the entries.
-/

namespace Latest

variable {κ α ρ : Type*} [DecidableEq κ] [LinearOrder ρ] (key : α → κ) (rank : α → ρ)

/-- Let an entry compete for the place of its key. -/
def contend (table : List α) (a : α) : List α :=
  match Keyed.lookup key table (key a) with
  | none => Keyed.upsert key table a
  | some b => if rank b < rank a then Keyed.upsert key table a else table

def latest (l : List α) : List α := l.foldl (contend key rank) []

def ranks (l : List α) (k : κ) : Set ρ := {r | ∃ a ∈ l, key a = k ∧ rank a = r}

variable {key rank} {l : List α} {k : κ} {a : α} {r : ρ}

theorem latest_concat (l : List α) (a : α) :
    latest key rank (l ++ [a]) = contend key rank (latest key rank l) a := by
  rw [latest, List.foldl_concat, latest]

theorem lookup_contend_of_ne {table : List α} (h : key a ≠ k) :
    Keyed.lookup key (contend key rank table a) k = Keyed.lookup key table k := by
  unfold contend
  split
  · rw [Keyed.lookup_upsert, if_neg h]
  · split
    · rw [Keyed.lookup_upsert, if_neg h]
    · rfl

theorem nodup_contend {table : List α} (h : (table.map key).Nodup) (a : α) :
    ((contend key rank table a).map key).Nodup := by
  unfold contend
  split
  · exact Keyed.nodup_upsert h a
  · split
    · exact Keyed.nodup_upsert h a
    · exact h

variable (key rank) in
theorem nodup_latest (l : List α) : ((latest key rank l).map key).Nodup := by
  induction l using List.reverseRecOn with
  | nil => exact List.nodup_nil
  | append_singleton l a ih => rw [latest_concat]; exact nodup_contend ih a

section Holds

omit [DecidableEq κ]

/-- An entry holds a place if it is an entry of that key and none has a greater rank. -/
def Holds (key : α → κ) (rank : α → ρ) (l : List α) (k : κ) (a : α) : Prop :=
  (a ∈ l ∧ key a = k) ∧ ∀ b ∈ l, key b = k → rank b ≤ rank a

theorem Holds.concat_of_ne (h : Holds key rank l k a) {c : α} (hc : key c ≠ k) :
    Holds key rank (l ++ [c]) k a := by
  obtain ⟨⟨hm, hk⟩, hg⟩ := h
  refine ⟨⟨List.mem_append_left _ hm, hk⟩, fun b hb hbk => ?_⟩
  rcases List.mem_append.mp hb with hb | hb
  · exact hg b hb hbk
  · rw [List.mem_singleton] at hb
    exact absurd (hb ▸ hbk) hc

theorem Holds.concat_of_le (h : Holds key rank l k a) {c : α} (hc : rank c ≤ rank a) :
    Holds key rank (l ++ [c]) k a := by
  obtain ⟨⟨hm, hk⟩, hg⟩ := h
  refine ⟨⟨List.mem_append_left _ hm, hk⟩, fun b hb hbk => ?_⟩
  rcases List.mem_append.mp hb with hb | hb
  · exact hg b hb hbk
  · rw [List.mem_singleton.mp hb]
    exact hc

end Holds

variable (key rank) in
theorem lookup_latest (l : List α) (k : κ) :
    (Keyed.lookup key (latest key rank l) k = none ∧ k ∉ l.map key) ∨
      ∃ a, Keyed.lookup key (latest key rank l) k = some a ∧ Holds key rank l k a := by
  induction l using List.reverseRecOn with
  | nil => exact Or.inl ⟨rfl, by simp⟩
  | append_singleton l c ih =>
    rw [latest_concat]
    by_cases hc : key c = k
    · subst hc
      apply Or.inr
      unfold contend
      rcases ih with ⟨hl, hn⟩ | ⟨a, hl, hh⟩
      · rw [hl]
        refine ⟨c, by rw [Keyed.lookup_upsert, if_pos rfl], ⟨by simp, rfl⟩, fun b hb hbk => ?_⟩
        rcases List.mem_append.mp hb with hb | hb
        · exact absurd (hbk ▸ List.mem_map_of_mem hb) hn
        · rw [List.mem_singleton.mp hb]
      · rw [hl]
        simp only
        split
        · rename_i hlt
          refine ⟨c, by rw [Keyed.lookup_upsert, if_pos rfl], ⟨by simp, rfl⟩, fun b hb hbk => ?_⟩
          rcases List.mem_append.mp hb with hb | hb
          · exact (hh.2 b hb hbk).trans hlt.le
          · rw [List.mem_singleton.mp hb]
        · rename_i hle
          exact ⟨a, hl, hh.concat_of_le (not_lt.mp hle)⟩
    · rw [lookup_contend_of_ne hc]
      rcases ih with ⟨hl, hn⟩ | ⟨a, hl, hh⟩
      · refine Or.inl ⟨hl, ?_⟩
        rw [List.map_append, List.map_singleton, List.mem_append, List.mem_singleton]
        exact not_or.mpr ⟨hn, Ne.symm hc⟩
      · exact Or.inr ⟨a, hl, hh.concat_of_ne hc⟩

theorem holds_of_lookup (h : Keyed.lookup key (latest key rank l) k = some a) :
    Holds key rank l k a := by
  rcases lookup_latest key rank l k with ⟨hl, _⟩ | ⟨b, hl, hh⟩
  · rw [hl] at h; cases h
  · rw [hl, Option.some.injEq] at h
    exact h ▸ hh

section First

omit [DecidableEq κ]

/-- An entry is the first of its key with the greatest rank. -/
def First (key : α → κ) (rank : α → ρ) (l : List α) (k : κ) (a : α) : Prop :=
  ∃ before after, l = before ++ a :: after ∧ key a = k ∧
    (∀ b ∈ before, key b = k → rank b < rank a) ∧ ∀ b ∈ after, key b = k → rank b ≤ rank a

theorem First.concat (h : First key rank l k a) {c : α} (hc : key c = k → rank c ≤ rank a) :
    First key rank (l ++ [c]) k a := by
  obtain ⟨before, after, rfl, hk, hb, ha⟩ := h
  refine ⟨before, after ++ [c], by simp, hk, hb, ?_⟩
  exact List.forall_mem_append.mpr ⟨ha, List.forall_mem_singleton.mpr hc⟩

end First

/-- The place of a key goes to the first of its entries with the greatest rank. -/
theorem first_of_lookup (h : Keyed.lookup key (latest key rank l) k = some a) :
    First key rank l k a := by
  induction l using List.reverseRecOn generalizing a with
  | nil => cases h
  | append_singleton l c ih =>
    rw [latest_concat] at h
    by_cases hc : key c = k
    · subst hc
      unfold contend at h
      cases hl : Keyed.lookup key (latest key rank l) (key c) with
      | none =>
        rw [hl] at h
        simp only [Keyed.lookup_upsert, if_true] at h
        obtain rfl := Option.some.inj h
        rcases lookup_latest key rank l (key c) with ⟨-, hn⟩ | ⟨b, hb, -⟩
        · refine ⟨l, [], rfl, rfl, fun b hb hbk => ?_, by rintro b ⟨⟩⟩
          exact absurd (hbk ▸ List.mem_map_of_mem hb) hn
        · rw [hl] at hb
          cases hb
      | some b =>
        rw [hl] at h
        simp only at h
        split at h
        · rename_i hlt
          simp only [Keyed.lookup_upsert, if_true] at h
          obtain rfl := Option.some.inj h
          refine ⟨l, [], rfl, rfl, fun d hd hdk => ?_, by rintro b ⟨⟩⟩
          exact ((holds_of_lookup hl).2 d hd hdk).trans_lt hlt
        · rename_i hle
          obtain rfl := Option.some.inj (hl.symm.trans h)
          exact (ih hl).concat fun _ => not_lt.mp hle
    · rw [lookup_contend_of_ne hc] at h
      exact (ih h).concat fun hk => absurd hk hc

theorem exists_lookup (rank : α → ρ) (h : k ∈ l.map key) :
    ∃ a, Keyed.lookup key (latest key rank l) k = some a := by
  rcases lookup_latest key rank l k with ⟨_, hn⟩ | ⟨a, hl, _⟩
  · exact absurd h hn
  · exact ⟨a, hl⟩

/-- The table holds, under every key, the greatest rank that occurs under it. -/
theorem exists_mem_latest_iff :
    (∃ a ∈ latest key rank l, key a = k ∧ rank a = r) ↔ IsGreatest (ranks key rank l k) r := by
  constructor
  · rintro ⟨a, ha, rfl, rfl⟩
    obtain ⟨⟨hm, hk⟩, hg⟩ := holds_of_lookup (Keyed.lookup_of_mem (nodup_latest key rank l) ha)
    refine ⟨⟨a, hm, hk, rfl⟩, ?_⟩
    rintro _ ⟨b, hb, hbk, rfl⟩
    exact hg b hb hbk
  · rintro ⟨⟨b, hb, rfl, rfl⟩, hub⟩
    have hk : key b ∈ l.map key := List.mem_map_of_mem hb
    obtain ⟨a, hl⟩ := exists_lookup rank hk
    obtain ⟨⟨hm, hk⟩, hg⟩ := holds_of_lookup hl
    exact ⟨a, (Keyed.mem_of_lookup hl).1, hk, le_antisymm (hub ⟨a, hm, hk, rfl⟩) (hg b hb rfl)⟩

section Least

def least (start : ρ) (l : List ρ) : ρ := l.foldl (fun m x => if x < m then x else m) start

@[simp] theorem least_nil (start : ρ) : least start [] = start := rfl

@[simp] theorem least_cons (start x : ρ) (l : List ρ) :
    least start (x :: l) = least (if x < start then x else start) l := rfl

theorem isLeast_least (start : ρ) (l : List ρ) :
    IsLeast {x | x = start ∨ x ∈ l} (least start l) := by
  induction l generalizing start with
  | nil => exact ⟨Or.inl rfl, by rintro x (rfl | h); exacts [le_rfl, absurd h List.not_mem_nil]⟩
  | cons y l ih =>
    rw [least_cons]
    obtain ⟨hm, hlb⟩ := ih (if y < start then y else start)
    constructor
    · rcases hm with hm | hm
      · rw [hm]
        split
        exacts [Or.inr List.mem_cons_self, Or.inl rfl]
      · exact Or.inr (List.mem_cons_of_mem _ hm)
    · have hs := hlb (Or.inl rfl)
      rintro x (rfl | hx)
      · apply hs.trans
        split
        exacts [le_of_lt ‹_›, le_rfl]
      · rcases List.mem_cons.mp hx with rfl | hx
        · apply hs.trans
          split
          exacts [le_rfl, not_lt.mp ‹_›]
        · exact hlb (Or.inr hx)

theorem least_congr {start : ρ} {l l' : List ρ} (h : ∀ x, x ∈ l ↔ x ∈ l') :
    least start l = least start l' := by
  apply (isLeast_least start l).unique
  have hl := isLeast_least start l'
  simpa only [h] using hl

end Least

end Latest
