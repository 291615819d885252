import Mathlib.Data.List.Basic
import Mathlib.Data.List.Induction
import Mathlib.Data.List.Nodup

/-! # Keyed tables

A table is a list of rows in which every row has a key. Writing a row replaces the
row with the same key in place and appends it when there is none; an overlay writes a
list of rows one after another. Lookups, key sets and projections of an overlay are
computed from the table and the written rows. The fresh rows of a list are the first
occurrences of keys that are not taken yet.
-/

namespace Keyed

variable {κ ρ β : Type*} [DecidableEq κ] (key : ρ → κ)

def lookup (rows : List ρ) (k : κ) : Option ρ := rows.find? fun r => key r = k

/-- Write a row over the first row with the same key, or append it. -/
def upsert : List ρ → ρ → List ρ
  | [], r => [r]
  | r' :: rows, r => if key r' = key r then r :: rows else r' :: upsert rows r

def overlay (rows writes : List ρ) : List ρ := writes.foldl (upsert key) rows

variable {key}

@[simp] theorem lookup_nil (k : κ) : lookup key [] k = none := rfl

theorem lookup_cons (r : ρ) (rows : List ρ) (k : κ) :
    lookup key (r :: rows) k = if key r = k then some r else lookup key rows k := by
  by_cases h : key r = k <;> simp [lookup, h]

theorem lookup_eq_none_iff {rows : List ρ} {k : κ} :
    lookup key rows k = none ↔ k ∉ rows.map key := by
  simp [lookup, List.find?_eq_none]

theorem mem_of_lookup {rows : List ρ} {k : κ} {r : ρ} (h : lookup key rows k = some r) :
    r ∈ rows ∧ key r = k :=
  ⟨List.mem_of_find?_eq_some h, by simpa using List.find?_some h⟩

theorem exists_lookup_of_mem_keys {rows : List ρ} {k : κ} (h : k ∈ rows.map key) :
    ∃ r, lookup key rows k = some r := by
  cases hl : lookup key rows k with
  | none => exact absurd h (lookup_eq_none_iff.mp hl)
  | some r => exact ⟨r, rfl⟩

theorem mem_keys_of_lookup {rows : List ρ} {k : κ} {r : ρ} (h : lookup key rows k = some r) :
    k ∈ rows.map key :=
  List.mem_map.mpr ⟨r, mem_of_lookup h⟩

theorem lookup_of_mem {rows : List ρ} (hn : (rows.map key).Nodup) {r : ρ} (h : r ∈ rows) :
    lookup key rows (key r) = some r := by
  induction rows with
  | nil => simp at h
  | cons r' rows ih =>
    rw [List.map_cons, List.nodup_cons] at hn
    rw [lookup_cons]
    rcases List.mem_cons.mp h with rfl | h
    · simp
    · have hne : key r' ≠ key r := fun he => hn.1 (he ▸ List.mem_map_of_mem h)
      rw [if_neg hne, ih hn.2 h]

theorem lookup_eq_some_iff {rows : List ρ} (hn : (rows.map key).Nodup) {k : κ} {r : ρ} :
    lookup key rows k = some r ↔ r ∈ rows ∧ key r = k := by
  constructor
  · exact mem_of_lookup
  · rintro ⟨h, rfl⟩; exact lookup_of_mem hn h

omit [DecidableEq κ] in
theorem eq_of_key_eq {rows : List ρ} (hn : (rows.map key).Nodup) {r r' : ρ} (h : r ∈ rows)
    (h' : r' ∈ rows) (hk : key r = key r') : r = r' :=
  List.inj_on_of_nodup_map hn h h' hk

omit [DecidableEq κ] in
theorem mem_keys_filter {rows : List ρ} (hn : (rows.map key).Nodup) {r : ρ} (hr : r ∈ rows)
    {p : ρ → Bool} : key r ∈ (rows.filter p).map key ↔ p r = true := by
  constructor
  · intro hk
    obtain ⟨r', hr', he⟩ := List.mem_map.mp hk
    obtain ⟨hr', hp⟩ := List.mem_filter.mp hr'
    rwa [← eq_of_key_eq hn hr' hr he]
  · intro hp
    exact List.mem_map_of_mem (List.mem_filter.mpr ⟨hr, hp⟩)

section Upsert

theorem upsert_of_not_mem {rows : List ρ} {r : ρ} (h : key r ∉ rows.map key) :
    upsert key rows r = rows ++ [r] := by
  induction rows with
  | nil => rfl
  | cons r' rows ih =>
    rw [List.map_cons, List.mem_cons, not_or] at h
    rw [upsert, if_neg (Ne.symm h.1), ih h.2, List.cons_append]

theorem map_key_upsert_of_mem {rows : List ρ} {r : ρ} (h : key r ∈ rows.map key) :
    (upsert key rows r).map key = rows.map key := by
  induction rows with
  | nil => simp at h
  | cons r' rows ih =>
    by_cases hk : key r' = key r
    · simp [upsert, hk]
    · rw [List.map_cons, List.mem_cons] at h
      rw [upsert, if_neg hk, List.map_cons, List.map_cons,
        ih (h.resolve_left (Ne.symm hk))]

@[simp] theorem mem_keys_upsert {rows : List ρ} {r : ρ} {k : κ} :
    k ∈ (upsert key rows r).map key ↔ k ∈ rows.map key ∨ k = key r := by
  by_cases h : key r ∈ rows.map key
  · rw [map_key_upsert_of_mem h]
    exact ⟨Or.inl, fun h' => h'.elim id (fun he => he ▸ h)⟩
  · simp [upsert_of_not_mem h]

theorem nodup_upsert {rows : List ρ} (hn : (rows.map key).Nodup) (r : ρ) :
    ((upsert key rows r).map key).Nodup := by
  by_cases h : key r ∈ rows.map key
  · rwa [map_key_upsert_of_mem h]
  · rw [upsert_of_not_mem h, List.map_append, List.map_singleton]
    exact List.nodup_append.mpr ⟨hn, by simp, by simp only [List.mem_singleton]; grind⟩

theorem lookup_upsert (rows : List ρ) (r : ρ) (k : κ) :
    lookup key (upsert key rows r) k = if key r = k then some r else lookup key rows k := by
  induction rows with
  | nil => simp [upsert, lookup_cons]
  | cons r' rows ih =>
    by_cases hk : key r' = key r
    · by_cases h : key r = k <;> simp [upsert, hk, lookup_cons, h]
    · rw [upsert, if_neg hk, lookup_cons, lookup_cons, ih]
      by_cases h : key r = k
      · simp [h, h ▸ hk]
      · simp [h]

theorem mem_upsert {rows : List ρ} (hn : (rows.map key).Nodup) {r w : ρ} :
    r ∈ upsert key rows w ↔ r = w ∨ (r ∈ rows ∧ key r ≠ key w) := by
  have hl : ∀ {l : List ρ}, (l.map key).Nodup → (r ∈ l ↔ lookup key l (key r) = some r) :=
    fun h => by rw [lookup_eq_some_iff h]; simp
  rw [hl (nodup_upsert hn w), hl hn, lookup_upsert]
  split
  · rename_i h
    simp [h, eq_comm]
  · rename_i h
    simp only [ne_eq, Ne.symm h, not_false_eq_true, and_true]
    exact ⟨Or.inr, fun h' => h'.resolve_left fun he => h (by rw [he])⟩

theorem mem_or_eq_of_mem_upsert {rows : List ρ} {r w : ρ} (h : r ∈ upsert key rows w) :
    r ∈ rows ∨ r = w := by
  induction rows with
  | nil => exact Or.inr (List.mem_singleton.mp h)
  | cons r' rows ih =>
    unfold upsert at h
    split at h
    · rcases List.mem_cons.mp h with rfl | h
      exacts [Or.inr rfl, Or.inl (List.mem_cons_of_mem _ h)]
    · rcases List.mem_cons.mp h with rfl | h
      · exact Or.inl List.mem_cons_self
      · exact (ih h).imp_left (List.mem_cons_of_mem _)

/-- Writing a row under the key of another row puts it in that row's place. -/
theorem upsert_replace {before after : List ρ} {r w : ρ}
    (hn : ((before ++ r :: after).map key).Nodup) (hk : key r = key w) :
    upsert key (before ++ r :: after) w = before ++ w :: after := by
  induction before with
  | nil => rw [List.nil_append, upsert, if_pos hk, List.nil_append]
  | cons b before ih =>
    rw [List.cons_append, List.map_cons, List.nodup_cons] at hn
    have hne : key b ≠ key w := by
      intro he
      apply hn.1
      simp [he, ← hk]
    rw [List.cons_append, upsert, if_neg hne, ih hn.2, List.cons_append]

theorem filterMap_upsert {f : ρ → Option β} {rows : List ρ} {r : ρ}
    (h : (lookup key rows (key r)).bind f = f r) :
    (upsert key rows r).filterMap f = rows.filterMap f := by
  induction rows with
  | nil =>
    rw [lookup_nil, Option.bind_none] at h
    simp [upsert, ← h]
  | cons r' rows ih =>
    rw [lookup_cons] at h
    by_cases hk : key r' = key r
    · rw [if_pos hk, Option.bind_some] at h
      simp [upsert, hk, List.filterMap_cons, h]
    · rw [if_neg hk] at h
      rw [upsert, if_neg hk, List.filterMap_cons, List.filterMap_cons, ih h]

theorem filter_upsert {p : ρ → Bool} (hp : ∀ r r', key r = key r' → p r = p r')
    (rows : List ρ) (r : ρ) :
    (upsert key rows r).filter p = if p r then upsert key (rows.filter p) r else rows.filter p := by
  induction rows with
  | nil => cases h : p r <;> simp [upsert, h]
  | cons r' rows ih =>
    by_cases hk : key r' = key r
    · cases h : p r <;> simp [upsert, hk, h, hp r' r hk]
    · rw [upsert, if_neg hk, List.filter_cons, List.filter_cons, ih]
      cases h : p r <;> cases h' : p r' <;> simp [upsert, hk]

end Upsert

section Overlay

variable {rows writes : List ρ}

@[simp] theorem overlay_nil (rows : List ρ) : overlay key rows [] = rows := rfl

@[simp] theorem overlay_cons (rows : List ρ) (w : ρ) (writes : List ρ) :
    overlay key rows (w :: writes) = overlay key (upsert key rows w) writes := rfl

theorem overlay_append (rows ws ws' : List ρ) :
    overlay key rows (ws ++ ws') = overlay key (overlay key rows ws) ws' :=
  List.foldl_append

@[simp] theorem mem_keys_overlay {k : κ} :
    k ∈ (overlay key rows writes).map key ↔ k ∈ rows.map key ∨ k ∈ writes.map key := by
  induction writes generalizing rows with
  | nil => simp
  | cons w writes ih =>
    rw [overlay_cons, ih, mem_keys_upsert, List.map_cons, List.mem_cons, or_assoc]

theorem nodup_overlay (hn : (rows.map key).Nodup) (writes : List ρ) :
    ((overlay key rows writes).map key).Nodup := by
  induction writes generalizing rows with
  | nil => exact hn
  | cons w writes ih => exact ih (nodup_upsert hn w)

theorem lookup_overlay_of_not_mem {k : κ} (h : k ∉ writes.map key) :
    lookup key (overlay key rows writes) k = lookup key rows k := by
  induction writes generalizing rows with
  | nil => rfl
  | cons w writes ih =>
    rw [List.map_cons, List.mem_cons, not_or] at h
    rw [overlay_cons, ih h.2, lookup_upsert, if_neg (Ne.symm h.1)]

theorem lookup_overlay_last {before after : List ρ} {w : ρ} (h : key w ∉ after.map key) :
    lookup key (overlay key rows (before ++ w :: after)) (key w) = some w := by
  rw [overlay_append, overlay_cons, lookup_overlay_of_not_mem h, lookup_upsert, if_pos rfl]

theorem lookup_overlay (hw : (writes.map key).Nodup) (k : κ) :
    lookup key (overlay key rows writes) k =
      (lookup key writes k).or (lookup key rows k) := by
  induction writes generalizing rows with
  | nil => simp
  | cons w writes ih =>
    rw [List.map_cons, List.nodup_cons] at hw
    rw [overlay_cons, lookup_cons]
    by_cases h : key w = k
    · subst h
      rw [lookup_overlay_of_not_mem hw.1, lookup_upsert]
      simp
    · rw [ih hw.2, lookup_upsert, if_neg h, if_neg h]

theorem mem_overlay (hn : (rows.map key).Nodup) (hw : (writes.map key).Nodup) {r : ρ} :
    r ∈ overlay key rows writes ↔ r ∈ writes ∨ (r ∈ rows ∧ key r ∉ writes.map key) := by
  have hl : ∀ {l : List ρ}, (l.map key).Nodup → (r ∈ l ↔ lookup key l (key r) = some r) :=
    fun h => by rw [lookup_eq_some_iff h]; simp
  rw [hl (nodup_overlay hn writes), lookup_overlay hw, hl hw, hl hn, ← lookup_eq_none_iff]
  cases lookup key writes (key r) <;> simp

theorem overlay_of_fresh (hw : (writes.map key).Nodup)
    (hd : ∀ k ∈ writes.map key, k ∉ rows.map key) :
    overlay key rows writes = rows ++ writes := by
  induction writes generalizing rows with
  | nil => simp
  | cons w writes ih =>
    rw [List.map_cons, List.nodup_cons] at hw
    rw [overlay_cons, upsert_of_not_mem (hd _ (by simp)), ih hw.2]
    · simp
    · intro k hk hr
      rw [List.map_append, List.map_singleton, List.mem_append, List.mem_singleton] at hr
      rcases hr with hr | rfl
      · exact hd k (by simp [List.mem_map.mp hk]) hr
      · exact hw.1 hk

theorem filter_overlay {p : ρ → Bool} (hp : ∀ r r', key r = key r' → p r = p r')
    (rows writes : List ρ) :
    (overlay key rows writes).filter p = overlay key (rows.filter p) (writes.filter p) := by
  induction writes generalizing rows with
  | nil => rfl
  | cons w writes ih =>
    rw [overlay_cons, ih, filter_upsert hp, List.filter_cons]
    cases p w <;> rfl

theorem mem_or_mem_of_mem_overlay {r : ρ} (h : r ∈ overlay key rows writes) :
    r ∈ rows ∨ r ∈ writes := by
  induction writes generalizing rows with
  | nil => exact Or.inl h
  | cons w writes ih =>
    rcases ih h with h | h
    · rcases mem_or_eq_of_mem_upsert h with h | rfl
      exacts [Or.inl h, Or.inr List.mem_cons_self]
    · exact Or.inr (List.mem_cons_of_mem _ h)

theorem filterMap_overlay {f : ρ → Option β} (hw : (writes.map key).Nodup)
    (h : ∀ w ∈ writes, (lookup key rows (key w)).bind f = f w) :
    (overlay key rows writes).filterMap f = rows.filterMap f := by
  induction writes generalizing rows with
  | nil => rfl
  | cons w writes ih =>
    rw [List.map_cons, List.nodup_cons] at hw
    rw [overlay_cons, ih hw.2, filterMap_upsert (h w (by simp))]
    intro w' hw'
    have hne : key w ≠ key w' := fun he => hw.1 (he ▸ List.mem_map_of_mem hw')
    rw [lookup_upsert, if_neg hne]
    exact h w' (by simp [hw'])

/-- The first row of the reversed writes is the one that was written last. -/
theorem lookup_overlay_reverse (k : κ) :
    lookup key (overlay key rows writes) k =
      (lookup key writes.reverse k).or (lookup key rows k) := by
  induction writes using List.reverseRecOn with
  | nil => rfl
  | append_singleton writes w ih =>
    rw [overlay_append, overlay_cons, overlay_nil, lookup_upsert, ih, List.reverse_append,
      List.reverse_singleton, List.singleton_append, lookup_cons]
    split <;> rfl

theorem lookup_overlay_append (k : κ) :
    lookup key (overlay key rows writes) k =
      (lookup key (overlay key [] writes) k).or (lookup key rows k) := by
  rw [lookup_overlay_reverse, lookup_overlay_reverse, lookup_nil, Option.or_none]

end Overlay

section Order

variable {rows writes : List ρ} {α : Type*} [BEq α] [LawfulBEq α]

theorem eraseDups_of_nodup {l : List α} (h : l.Nodup) : l.eraseDups = l := by
  induction l with
  | nil => rfl
  | cons k l ih =>
    rw [List.nodup_cons] at h
    have hf : l.filter (fun a => !a == k) = l := by
      apply List.filter_eq_self.mpr
      rintro a ha
      have hne : a ≠ k := by
        rintro rfl
        exact h.1 ha
      simpa using hne
    rw [List.eraseDups_cons, hf, ih h.2]

theorem eraseDups_append_of_subset {l l' : List α} (h : ∀ k ∈ l', k ∈ l) :
    (l ++ l').eraseDups = l.eraseDups := by
  have hnil : l'.removeAll l = [] := by
    apply List.filter_eq_nil_iff.mpr
    intro k hk
    simpa using h k hk
  rw [List.eraseDups_append, hnil, List.eraseDups_nil, List.append_nil]

theorem eraseDups_concat_of_not_mem {l : List α} {k : α} (h : k ∉ l) :
    (l ++ [k]).eraseDups = l.eraseDups ++ [k] := by
  have hone : [k].removeAll l = [k] := by
    apply List.filter_eq_self.mpr
    intro a ha
    simpa [List.mem_singleton.mp ha] using h
  rw [List.eraseDups_append, hone, eraseDups_of_nodup (List.nodup_singleton k)]

theorem nodup_eraseDups (l : List α) : l.eraseDups.Nodup := by
  induction l using List.reverseRecOn with
  | nil => exact List.nodup_nil
  | append_singleton l a ih =>
    by_cases ha : a ∈ l
    · rw [eraseDups_append_of_subset (by simpa using ha)]
      exact ih
    · rw [eraseDups_concat_of_not_mem ha]
      exact List.nodup_append.mpr ⟨ih, List.nodup_singleton a, by
        rintro b hb c hc rfl
        exact ha (List.mem_eraseDups.mp (List.mem_singleton.mp hc ▸ hb))⟩

/-- Rows stand in the order in which their keys first occur. -/
theorem map_key_overlay [BEq κ] [LawfulBEq κ] (hn : (rows.map key).Nodup) :
    (overlay key rows writes).map key = ((rows ++ writes).map key).eraseDups := by
  induction writes using List.reverseRecOn with
  | nil => rw [overlay_nil, List.append_nil, eraseDups_of_nodup hn]
  | append_singleton writes w ih =>
    have hmem : key w ∈ (overlay key rows writes).map key ↔ key w ∈ (rows ++ writes).map key := by
      rw [mem_keys_overlay, List.map_append, List.mem_append]
    rw [overlay_append, overlay_cons, overlay_nil, ← List.append_assoc, List.map_append,
      List.map_singleton]
    by_cases hw : key w ∈ (rows ++ writes).map key
    · rw [map_key_upsert_of_mem (hmem.mpr hw), ih, eraseDups_append_of_subset]
      rintro k hk
      rwa [List.mem_singleton.mp hk]
    · rw [upsert_of_not_mem (mt hmem.mp hw), List.map_append, List.map_singleton, ih,
        eraseDups_concat_of_not_mem hw]

theorem eq_of_lookup_eq {rows' : List ρ} (hn : (rows.map key).Nodup)
    (hk : rows.map key = rows'.map key) (hl : ∀ k, lookup key rows k = lookup key rows' k) :
    rows = rows' := by
  have hlen : rows.length = rows'.length := by simpa using congrArg List.length hk
  apply List.ext_getElem hlen
  intro i h h'
  have hkey : key rows[i] = key rows'[i] := by
    have hget : (rows.map key)[i]? = (rows'.map key)[i]? := by rw [hk]
    simpa [h, h'] using hget
  have hi := lookup_of_mem hn (List.getElem_mem h)
  have hi' := lookup_of_mem (hk ▸ hn) (List.getElem_mem h')
  rw [hl, hkey, hi'] at hi
  exact (Option.some.inj hi).symm

/-- Writing changes nothing if and only if the rows written last are there already. -/
theorem overlay_eq_self_iff (hn : (rows.map key).Nodup) :
    overlay key rows writes = rows ↔ ∀ w ∈ overlay key [] writes, w ∈ rows := by
  have hnil : (([] : List ρ).map key).Nodup := List.nodup_nil
  have hlast := nodup_overlay hnil writes
  constructor
  · intro h w hw
    have hl : lookup key (overlay key rows writes) (key w) = _ := lookup_overlay_append (key w)
    rw [h, lookup_of_mem hlast hw] at hl
    exact (mem_of_lookup hl).1
  · intro h
    refine eq_of_lookup_eq (nodup_overlay hn writes) ?_ fun k => ?_
    · have hsub : ∀ k ∈ writes.map key, k ∈ rows.map key := by
        intro k hk
        obtain ⟨w, hw, rfl⟩ := List.mem_map.mp (mem_keys_overlay.mpr (Or.inr hk))
        exact List.mem_map_of_mem (h w hw)
      rw [map_key_overlay hn, List.map_append, eraseDups_append_of_subset hsub,
        eraseDups_of_nodup hn]
    · rw [lookup_overlay_append]
      cases hk : lookup key (overlay key [] writes) k with
      | none => rfl
      | some w =>
        obtain ⟨hw, rfl⟩ := mem_of_lookup hk
        exact (lookup_of_mem hn (h w hw)).symm

end Order

section Fresh

variable (key) in
/-- The rows of a list whose keys are not taken, neither beforehand nor by an earlier row. -/
def fresh (taken : List κ) : List ρ → List ρ
  | [] => []
  | r :: rows => if key r ∈ taken then fresh taken rows else r :: fresh (key r :: taken) rows

variable {taken taken' : List κ} {rows : List ρ}

@[simp] theorem fresh_nil : fresh key taken ([] : List ρ) = [] := rfl

theorem fresh_sublist (taken : List κ) (rows : List ρ) :
    (fresh key taken rows).Sublist rows := by
  induction rows generalizing taken with
  | nil => exact .slnil
  | cons r rows ih =>
    unfold fresh
    split
    · exact (ih _).cons r
    · exact (ih _).cons_cons r

theorem fresh_congr (h : ∀ k ∈ rows.map key, k ∈ taken ↔ k ∈ taken') :
    fresh key taken rows = fresh key taken' rows := by
  induction rows generalizing taken taken' with
  | nil => rfl
  | cons r rows ih =>
    have hr := h (key r) (by simp)
    have ht : ∀ k ∈ rows.map key, k ∈ taken ↔ k ∈ taken' := fun k hk => h k (by simp_all)
    unfold fresh
    by_cases hk : key r ∈ taken
    · rw [if_pos hk, if_pos (hr.mp hk), ih ht]
    · rw [if_neg hk, if_neg (mt hr.mpr hk)]
      congr 1
      exact ih fun k hk => by simp [ht k hk]

@[simp] theorem mem_keys_fresh {k : κ} :
    k ∈ (fresh key taken rows).map key ↔ k ∈ rows.map key ∧ k ∉ taken := by
  induction rows generalizing taken with
  | nil => simp
  | cons r rows ih =>
    unfold fresh
    by_cases hk : key r ∈ taken
    · rw [if_pos hk, ih, List.map_cons, List.mem_cons]
      constructor
      · rintro ⟨h, h'⟩; exact ⟨Or.inr h, h'⟩
      · rintro ⟨rfl | h, h'⟩
        exacts [absurd hk h', ⟨h, h'⟩]
    · rw [if_neg hk, List.map_cons, List.mem_cons, ih, List.map_cons, List.mem_cons,
        List.mem_cons]
      by_cases he : k = key r
      · simp [he, hk]
      · simp [he]

theorem nodup_fresh : ((fresh key taken rows).map key).Nodup := by
  induction rows generalizing taken with
  | nil => simp
  | cons r rows ih =>
    unfold fresh
    split
    · exact ih
    · rw [List.map_cons, List.nodup_cons]
      exact ⟨fun h => (mem_keys_fresh.mp h).2 List.mem_cons_self, ih⟩

theorem fresh_append (taken : List κ) (rows rows' : List ρ) :
    fresh key taken (rows ++ rows') =
      fresh key taken rows ++ fresh key (taken ++ rows.map key) rows' := by
  induction rows generalizing taken with
  | nil => simp
  | cons r rows ih =>
    rw [List.cons_append, fresh, fresh]
    split
    · rename_i hk
      rw [ih]
      congr 1
      refine fresh_congr fun k _ => ?_
      simp only [List.mem_append, List.map_cons, List.mem_cons]
      constructor
      · rintro (h | h)
        exacts [Or.inl h, Or.inr (Or.inr h)]
      · rintro (h | rfl | h)
        exacts [Or.inl h, Or.inl hk, Or.inr h]
    · rw [ih, List.cons_append]
      congr 2
      refine fresh_congr fun k _ => ?_
      simp only [List.mem_append, List.map_cons, List.mem_cons]
      exact ⟨fun h => by tauto, fun h => by tauto⟩

theorem lookup_fresh {k : κ} (h : k ∉ taken) :
    lookup key (fresh key taken rows) k = lookup key rows k := by
  induction rows generalizing taken with
  | nil => rfl
  | cons r rows ih =>
    unfold fresh
    rw [lookup_cons]
    by_cases hk : key r = k
    · subst hk
      rw [if_neg h, lookup_cons]
      simp
    · rw [if_neg hk]
      split
      · exact ih h
      · rw [lookup_cons, if_neg hk]
        exact ih (by simp only [List.mem_cons, not_or]; exact ⟨Ne.symm hk, h⟩)

end Fresh

end Keyed
