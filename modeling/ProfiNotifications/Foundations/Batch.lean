import Mathlib.Data.Finset.Max
import Mathlib.Data.Finset.Card
import Mathlib.Data.List.Sort
import ProfiNotifications.Foundations.ReadCommitted

/-! # Batches of the oldest items

A worker takes the oldest items of a finite backlog, a fixed number at a time. It
removes a batch of sound items and gives a batch with a bad item back. All sound items
are removed, whatever the choice between items of one age, if and only if the bad items
are younger than all of them and the sound items fill whole batches.
-/

namespace Batch

variable {ι : Type*} {rank : ι → ℕ} {bad : ι → Prop} {b : ℕ} {s t : Finset ι}

/-- A batch of at most `b` items of `s`, none of them younger than an item left behind. -/
structure Oldest (rank : ι → ℕ) (b : ℕ) (s t : Finset ι) : Prop where
  subset : t ⊆ s
  card_eq : t.card = min b s.card
  first : ∀ x ∈ t, ∀ y ∈ s, y ∉ t → rank x ≤ rank y

variable [DecidablePred bad]

variable (bad) in
def sound (s : Finset ι) : Finset ι := s.filter fun x => ¬ bad x

variable (rank bad b) in
/-- No item is bad, or the sound items are all older than the bad ones and fill whole batches. -/
def Drains (s : Finset ι) : Prop :=
  (∀ x ∈ s, ¬ bad x) ∨
    (∀ x ∈ s, ¬ bad x → ∀ y ∈ s, bad y → rank x < rank y) ∧ b ∣ (sound bad s).card

@[simp] theorem mem_sound {x : ι} : x ∈ sound bad s ↔ x ∈ s ∧ ¬ bad x := Finset.mem_filter

theorem Oldest.card_eq_of_not_mem (h : Oldest rank b s t) {y : ι} (hy : y ∈ s) (hyt : y ∉ t) :
    t.card = b := by
  have hlt : t.card < s.card := Finset.card_lt_card ⟨h.subset, fun hs => hyt (hs hy)⟩
  have := h.card_eq
  omega

theorem exists_sound_of_not_drains (h : ¬ Drains rank bad b s) : ∃ x ∈ s, ¬ bad x := by
  by_contra hn
  apply h
  right
  have hall : ∀ x ∈ s, bad x := fun x hx => not_not.mp fun hb => hn ⟨x, hx, hb⟩
  refine ⟨fun x hx hxb => absurd (hall x hx) hxb, ?_⟩
  have hempty : sound bad s = ∅ := by
    ext x
    simpa using hall x
  rw [hempty]
  simp

variable [DecidableEq ι]

theorem Oldest.card_sound_sdiff (h : Oldest rank b s t) (hc : ∀ x ∈ t, ¬ bad x) :
    (sound bad (s \ t)).card + t.card = (sound bad s).card := by
  have hsub : t ⊆ sound bad s := fun x hx => mem_sound.mpr ⟨h.subset hx, hc x hx⟩
  have he : sound bad (s \ t) = sound bad s \ t := by
    ext x
    simp only [mem_sound, Finset.mem_sdiff]
    tauto
  rw [he]
  exact Finset.card_sdiff_add_card_eq_card hsub

/-- In a backlog that drains, a batch is sound or only bad items are left. -/
theorem Drains.batch (h : Drains rank bad b s) (ho : Oldest rank b s t) :
    (∀ x ∈ t, ¬ bad x) ∨ ∀ x ∈ s, bad x := by
  rcases h with h | ⟨hlt, hdvd⟩
  · exact Or.inl fun x hx => h x (ho.subset hx)
  by_cases hbad : ∃ y ∈ t, bad y
  · right
    obtain ⟨y, hy, hby⟩ := hbad
    have hsub : sound bad s ⊆ t.erase y := by
      intro x hx
      obtain ⟨hxs, hx⟩ := mem_sound.mp hx
      have hlt := hlt x hxs hx y (ho.subset hy) hby
      refine Finset.mem_erase.mpr ⟨fun he => hx (he ▸ hby), ?_⟩
      by_contra hxt
      have := ho.first y hy x hxs hxt
      omega
    have hcard := Finset.card_le_card hsub
    rw [Finset.card_erase_of_mem hy] at hcard
    have hpos := Finset.card_pos.mpr ⟨y, hy⟩
    have hle := ho.card_eq
    have hzero : (sound bad s).card = 0 := Nat.eq_zero_of_dvd_of_lt hdvd (by omega)
    intro x hx
    by_contra hx'
    have hmem := mem_sound.mpr ⟨hx, hx'⟩
    rw [Finset.card_eq_zero.mp hzero] at hmem
    simp at hmem
  · left
    rintro x hx hb
    exact hbad ⟨x, hx, hb⟩

theorem Drains.sdiff (h : Drains rank bad b s) (ho : Oldest rank b s t)
    (hc : ∀ x ∈ t, ¬ bad x) : Drains rank bad b (s \ t) := by
  rcases h with h | ⟨hlt, hdvd⟩
  · exact Or.inl fun x hx => h x (Finset.mem_sdiff.mp hx).1
  by_cases hbad : ∃ y ∈ s, bad y
  · obtain ⟨y, hy, hby⟩ := hbad
    right
    constructor
    · intro x hx hxb z hz hzb
      exact hlt x (Finset.mem_sdiff.mp hx).1 hxb z (Finset.mem_sdiff.mp hz).1 hzb
    · have hfull := ho.card_eq_of_not_mem hy fun hyt => hc y hyt hby
      rw [← ho.card_sound_sdiff hc, hfull] at hdvd
      exact (Nat.dvd_add_left (Nat.dvd_refl b)).mp hdvd
  · left
    rintro x hx hb
    exact hbad ⟨x, (Finset.mem_sdiff.mp hx).1, hb⟩

variable (rank b s) in
theorem exists_oldest : ∃ t, Oldest rank b s t := by
  induction b with
  | zero => exact ⟨∅, by simp, by simp, by simp⟩
  | succ b ih =>
    obtain ⟨t, ht⟩ := ih
    by_cases hs : s ⊆ t
    · obtain rfl := Finset.Subset.antisymm hs ht.subset
      have := ht.card_eq
      exact ⟨s, hs, by omega, fun _ _ y hy hyt => absurd hy hyt⟩
    · obtain ⟨y, hy, hyt⟩ := Finset.not_subset.mp hs
      obtain ⟨x, hx, hmin⟩ := Finset.exists_min_image (s \ t) rank
        ⟨y, Finset.mem_sdiff.mpr ⟨hy, hyt⟩⟩
      obtain ⟨hxs, hxt⟩ := Finset.mem_sdiff.mp hx
      have hlt : t.card < s.card := Finset.card_lt_card ⟨ht.subset, hs⟩
      have hcard := ht.card_eq
      refine ⟨insert x t, Finset.insert_subset hxs ht.subset, ?_, ?_⟩
      · rw [Finset.card_insert_of_notMem hxt]
        omega
      · intro z hz w hw hwx
        have hwt : w ∉ t := fun hwt => hwx (Finset.mem_insert_of_mem hwt)
        rcases Finset.mem_insert.mp hz with rfl | hz
        · exact hmin w (Finset.mem_sdiff.mpr ⟨hw, hwt⟩)
        · exact ht.first z hz w hw hwt

/-- A backlog that does not drain has a batch with a bad item, or one that leaves such a backlog. -/
theorem exists_oldest_of_not_drains (h : ¬ Drains rank bad b s) :
    ∃ t, Oldest rank b s t ∧ ((∃ x ∈ t, bad x) ∨ ¬ Drains rank bad b (s \ t)) := by
  obtain ⟨t, ht⟩ := exists_oldest (fun x => 2 * rank x + if bad x then 0 else 1) b s
  have ho : Oldest rank b s t := by
    refine ⟨ht.subset, ht.card_eq, fun x hx y hy hyt => ?_⟩
    have := ht.first x hx y hy hyt
    split at this <;> split at this <;> omega
  refine ⟨t, ho, or_iff_not_imp_left.mpr fun hbad hd => h ?_⟩
  have hc : ∀ x ∈ t, ¬ bad x := fun x hx hb => hbad ⟨x, hx, hb⟩
  rcases hd with hd | ⟨hlt, hdvd⟩
  · left
    intro x hx
    by_cases hxt : x ∈ t
    · exact hc x hxt
    · exact hd x (Finset.mem_sdiff.mpr ⟨hx, hxt⟩)
  by_cases hnone : ∃ y ∈ s, bad y
  · obtain ⟨y, hy, hby⟩ := hnone
    right
    constructor
    · intro x hx hxb z hz hzb
      have hzt : z ∉ t := fun hzt => hc z hzt hzb
      by_cases hxt : x ∈ t
      · have := ht.first x hxt z hz hzt
        rw [if_neg hxb, if_pos hzb] at this
        omega
      · exact hlt x (Finset.mem_sdiff.mpr ⟨hx, hxt⟩) hxb z (Finset.mem_sdiff.mpr ⟨hz, hzt⟩) hzb
    · rw [← ho.card_sound_sdiff hc, ho.card_eq_of_not_mem hy fun hyt => hc y hyt hby]
      exact (Nat.dvd_add_left (Nat.dvd_refl b)).mpr hdvd
  · left
    rintro x hx hb
    exact hnone ⟨x, hx, hb⟩

section Query

open ReadCommitted

variable {κ : Type*} [DecidableEq κ] {key : ι → κ} {candidates result : List ι}

omit [DecidableEq κ] in
theorem Oldest.of_limited (h : Limited key rank b candidates result) (hn : candidates.Nodup) :
    Oldest rank b candidates.toFinset result.toFinset := by
  constructor
  · intro x hx
    exact List.mem_toFinset.mpr (h.subset x (List.mem_toFinset.mp hx))
  · rw [List.toFinset_card_of_nodup h.nodup.of_map, List.toFinset_card_of_nodup hn, h.length]
  · intro x hx y hy hyt
    simp only [List.mem_toFinset] at hx hy hyt
    exact h.first x hx y hy hyt

omit [DecidableEq κ] in
variable (key) in
theorem Oldest.exists_limited (h : Oldest rank b candidates.toFinset t)
    (hn : (candidates.map key).Nodup) :
    ∃ result, Limited key rank b candidates result ∧ result.toFinset = t := by
  have hperm := List.mergeSort_perm t.toList fun x y => decide (rank x ≤ rank y)
  refine ⟨t.toList.mergeSort fun x y => decide (rank x ≤ rank y), ?_, ?_⟩
  · have hmem : ∀ {x}, x ∈ t.toList.mergeSort (fun x y => decide (rank x ≤ rank y)) ↔ x ∈ t :=
      hperm.mem_iff.trans Finset.mem_toList
    have hsub : ∀ x ∈ t, x ∈ candidates := fun x hx => List.mem_toFinset.mp (h.subset hx)
    refine ⟨?_, fun x hx => hsub x (hmem.mp hx), ?_, ?_, ?_⟩
    · rw [(hperm.map key).nodup_iff]
      refine t.nodup_toList.map_on fun x hx y hy hk => ?_
      exact List.inj_on_of_nodup_map hn (hsub x (Finset.mem_toList.mp hx))
        (hsub y (Finset.mem_toList.mp hy)) hk
    · rw [hperm.length_eq, Finset.length_toList, h.card_eq,
        List.toFinset_card_of_nodup hn.of_map]
    · have hsorted : (t.toList.mergeSort fun x y => decide (rank x ≤ rank y)).Pairwise
          fun x y => decide (rank x ≤ rank y) = true := List.pairwise_mergeSort
        (fun x y z hxy hyz => by simp only [decide_eq_true_eq] at *; omega)
        (fun x y => by simp only [Bool.or_eq_true, decide_eq_true_eq]; omega) t.toList
      simpa using hsorted
    · intro x hx y hy hyt
      exact h.first x (hmem.mp hx) y (List.mem_toFinset.mpr hy) fun hy' => hyt (hmem.mpr hy')
  · ext x
    rw [List.mem_toFinset, hperm.mem_iff, Finset.mem_toList]

end Query

end Batch
