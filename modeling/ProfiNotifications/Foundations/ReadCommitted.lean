import ProfiNotifications.Foundations.Keyed

/-! # Read-committed transactions on a keyed table

Committed rows are visible to everybody; what an open transaction has written is
visible to itself only and replaces the committed rows when it commits. A row that a
transaction wrote or locked is owned by it until it ends: a second update of the row
and a second insert of its key wait, a locking read that skips locked rows passes over
it. Statements therefore keep the owned keys of different transactions disjoint, and a
commit changes no row that another transaction owns.
-/

namespace ReadCommitted

open Keyed

variable {κ ρ : Type*}

/-- Row versions an open transaction wrote and the keys of rows it only locked. -/
structure Pending (κ ρ : Type*) where
  writes : List ρ := []
  locks : List κ := []

section Ownership

variable (key : ρ → κ)

def Pending.written (p : Pending κ ρ) : List κ := p.writes.map key

/-- The keys of the rows a transaction keeps from other writers. -/
def Pending.owned (p : Pending κ ρ) : List κ := p.written key ++ p.locks

/-- Another open transaction has written a row with this key. -/
def WrittenElsewhere (others : List (Pending κ ρ)) (k : κ) : Prop :=
  ∃ q ∈ others, k ∈ q.written key

/-- Another open transaction has written or locked the row with this key. -/
def OwnedElsewhere (others : List (Pending κ ρ)) (k : κ) : Prop :=
  ∃ q ∈ others, k ∈ q.owned key

/-- A transaction writes every key once and locks existing rows only. -/
structure Pending.WellFormed (rows : List ρ) (p : Pending κ ρ) : Prop where
  nodup : (p.written key).Nodup
  locks_mem : ∀ k ∈ p.locks, k ∈ rows.map key ∨ k ∈ p.written key

/-- The keys of different transactions are disjoint. -/
def Exclusive (ps : List (Pending κ ρ)) : Prop :=
  ∀ ⦃i j : ℕ⦄ ⦃p q : Pending κ ρ⦄, i ≠ j → ps[i]? = some p → ps[j]? = some q →
    ∀ k ∈ p.owned key, k ∉ q.owned key

/-- A step that takes over only keys nobody else owns. -/
def Acquires (others : List (Pending κ ρ)) (p p' : Pending κ ρ) : Prop :=
  ∀ k ∈ p'.owned key, k ∈ p.owned key ∨ ¬ OwnedElsewhere key others k

variable {key} {rows : List ρ} {others : List (Pending κ ρ)} {p p' : Pending κ ρ}

@[simp] theorem mem_owned {k : κ} : k ∈ p.owned key ↔ k ∈ p.written key ∨ k ∈ p.locks :=
  List.mem_append

@[simp] theorem written_empty : ({} : Pending κ ρ).written key = [] := rfl

@[simp] theorem owned_empty : ({} : Pending κ ρ).owned key = [] := rfl

theorem Acquires.refl : Acquires key others p p := fun _ h => Or.inl h

theorem Acquires.trans {p'' : Pending κ ρ} (h : Acquires key others p p')
    (h' : Acquires key others p' p'') : Acquires key others p p'' :=
  fun k hk => (h' k hk).elim (h k) Or.inr

theorem Acquires.release : Acquires key others p {} := by
  intro k hk; simp at hk

theorem Pending.WellFormed.empty : Pending.WellFormed key rows ({} : Pending κ ρ) :=
  ⟨by simp, by simp⟩

theorem Pending.WellFormed.mono {rows' : List ρ} (h : p.WellFormed key rows)
    (hr : ∀ k ∈ rows.map key, k ∈ rows'.map key) : p.WellFormed key rows' :=
  ⟨h.nodup, fun k hk => (h.locks_mem k hk).imp_left (hr k)⟩

theorem Exclusive.nil : Exclusive key ([] : List (Pending κ ρ)) := by
  intro i j p q _ h; simp at h

theorem Exclusive.start {ps : List (Pending κ ρ)} (h : Exclusive key ps) :
    Exclusive key (ps ++ [({} : Pending κ ρ)]) := by
  have hlast : ∀ {i : ℕ} {p : Pending κ ρ}, (ps ++ [({} : Pending κ ρ)])[i]? = some p →
      ps[i]? = some p ∨ p = {} := by
    intro i p hp
    rw [List.getElem?_append] at hp
    split at hp
    · exact Or.inl hp
    · exact Or.inr (List.mem_singleton.mp (List.mem_of_getElem? hp))
  intro i j p q hij hp hq k hk hk'
  rcases hlast hp with hp | rfl
  · rcases hlast hq with hq | rfl
    · exact h hij hp hq k hk hk'
    · simp at hk'
  · simp at hk

/-- A step that takes only free keys keeps the owned keys disjoint. -/
theorem Exclusive.set {ps : List (Pending κ ρ)} {i : ℕ} (h : Exclusive key ps)
    (hp : ps[i]? = some p) (ha : Acquires key (ps.eraseIdx i) p p') :
    Exclusive key (ps.set i p') := by
  have hi : i < ps.length := (List.getElem?_eq_some_iff.mp hp).1
  have hfree : ∀ {j : ℕ} {q : Pending κ ρ}, i ≠ j → ps[j]? = some q →
      ∀ k ∈ p'.owned key, k ∉ q.owned key := by
    intro j q hij hq k hk hk'
    rcases ha k hk with hk | hk
    · exact h hij hp hq k hk hk'
    · exact hk ⟨q, List.mem_eraseIdx_iff_getElem?.mpr ⟨j, Ne.symm hij, hq⟩, hk'⟩
  intro a b q r hab hq hr k hk hk'
  rw [List.getElem?_set] at hq hr
  by_cases hia : i = a
  · subst hia
    rw [if_pos rfl, if_pos hi] at hq
    rw [if_neg hab] at hr
    obtain rfl := Option.some.inj hq
    exact hfree hab hr k hk hk'
  · rw [if_neg hia] at hq
    by_cases hib : i = b
    · subst hib
      rw [if_pos rfl, if_pos hi] at hr
      obtain rfl := Option.some.inj hr
      exact hfree hia hq k hk' hk
    · rw [if_neg hib] at hr
      exact h hab hq hr k hk hk'

end Ownership

section Statements

variable [DecidableEq κ] (key : ρ → κ)

instance (others : List (Pending κ ρ)) (k : κ) : Decidable (WrittenElsewhere key others k) :=
  inferInstanceAs (Decidable (∃ q ∈ others, k ∈ q.written key))

instance (others : List (Pending κ ρ)) (k : κ) : Decidable (OwnedElsewhere key others k) :=
  inferInstanceAs (Decidable (∃ q ∈ others, k ∈ q.owned key))

/-- The table as an open transaction sees it. -/
def view (rows : List ρ) (p : Pending κ ρ) : List ρ := overlay key rows p.writes

def select (rows : List ρ) (p : Pending κ ρ) (k : κ) : Option ρ := lookup key (view key rows p) k

/--
`INSERT .. ON CONFLICT DO NOTHING`, with the answer whether a row was inserted. It
waits (`none`) while another transaction's uncommitted row has the key.
-/
def insertOrIgnore (rows : List ρ) (others : List (Pending κ ρ)) (p : Pending κ ρ) (r : ρ) :
    Option (Pending κ ρ × Bool) :=
  if WrittenElsewhere key others (key r) then none
  else if key r ∈ (view key rows p).map key then some (p, false)
  else some ({ p with writes := p.writes ++ [r] }, true)

/--
`UPDATE .. WHERE key = k`, with the answer whether a row was changed. It waits while
another transaction owns the row, and then changes the version committed last.
-/
def update (rows : List ρ) (others : List (Pending κ ρ)) (p : Pending κ ρ) (k : κ) (f : ρ → ρ) :
    Option (Pending κ ρ × Bool) :=
  match select key rows p k with
  | none => some (p, false)
  | some r =>
    if OwnedElsewhere key others k then none
    else some ({ p with writes := upsert key p.writes (f r) }, true)

/-- `UPDATE .. WHERE key IN ks`. -/
def updateAll (rows : List ρ) (others : List (Pending κ ρ)) (f : ρ → ρ) :
    Pending κ ρ → List κ → Option (Pending κ ρ)
  | p, [] => some p
  | p, k :: ks => (update key rows others p k f).bind fun q => updateAll rows others f q.1 ks

/-- The rows a `SELECT .. FOR UPDATE SKIP LOCKED` may take. -/
def unlocked (rows : List ρ) (others : List (Pending κ ρ)) (p : Pending κ ρ) (wanted : ρ → Bool) :
    List ρ :=
  (view key rows p).filter fun r => wanted r && !decide (OwnedElsewhere key others (key r))

/-- A result of `ORDER BY rank LIMIT n` on the candidate rows, ties in any order. -/
structure Limited (rank : ρ → ℕ) (n : ℕ) (candidates result : List ρ) : Prop where
  nodup : (result.map key).Nodup
  subset : ∀ r ∈ result, r ∈ candidates
  length : result.length = min n candidates.length
  sorted : result.Pairwise fun r r' => rank r ≤ rank r'
  first : ∀ r ∈ result, ∀ c ∈ candidates, c ∉ result → rank r ≤ rank c

instance [DecidableEq ρ] (rank : ρ → ℕ) (n : ℕ) (candidates result : List ρ) :
    Decidable (Limited key rank n candidates result) :=
  decidable_of_iff ((result.map key).Nodup ∧ (∀ r ∈ result, r ∈ candidates) ∧
      result.length = min n candidates.length ∧
      (result.Pairwise fun r r' => rank r ≤ rank r') ∧
      ∀ r ∈ result, ∀ c ∈ candidates, c ∉ result → rank r ≤ rank c)
    ⟨fun ⟨a, b, c, d, e⟩ => ⟨a, b, c, d, e⟩, fun ⟨a, b, c, d, e⟩ => ⟨a, b, c, d, e⟩⟩

/-- Lock rows until the end of the transaction. -/
def lock (p : Pending κ ρ) (rows : List ρ) : Pending κ ρ :=
  { p with locks := p.locks ++ rows.map key }

variable {key} {rows : List ρ} {others : List (Pending κ ρ)} {p p' : Pending κ ρ}

theorem select_of_not_written {k : κ} (h : k ∉ p.written key) :
    select key rows p k = lookup key rows k :=
  lookup_overlay_of_not_mem h

theorem mem_keys_view {k : κ} :
    k ∈ (view key rows p).map key ↔ k ∈ rows.map key ∨ k ∈ p.written key :=
  mem_keys_overlay

theorem insertOrIgnore_quiet (ho : ∀ q ∈ others, q = {}) (rows : List ρ) (p : Pending κ ρ)
    (r : ρ) : insertOrIgnore key rows others p r = insertOrIgnore key rows [] p r := by
  have hw : ¬ WrittenElsewhere key others (key r) := by
    rintro ⟨q, hq, hk⟩
    rw [ho q hq] at hk
    cases hk
  have hn : ¬ WrittenElsewhere key ([] : List (Pending κ ρ)) (key r) := by simp [WrittenElsewhere]
  unfold insertOrIgnore
  rw [if_neg hw, if_neg hn]

theorem update_quiet (ho : ∀ q ∈ others, q = {}) (rows : List ρ) (p : Pending κ ρ) (k : κ)
    (f : ρ → ρ) : update key rows others p k f = update key rows [] p k f := by
  have hw : ¬ OwnedElsewhere key others k := by
    rintro ⟨q, hq, hk⟩
    rw [ho q hq] at hk
    cases hk
  have hn : ¬ OwnedElsewhere key ([] : List (Pending κ ρ)) k := by simp [OwnedElsewhere]
  unfold update
  split
  · rfl
  · rw [if_neg hw, if_neg hn]

theorem updateAll_quiet (ho : ∀ q ∈ others, q = {}) (rows : List ρ) (p : Pending κ ρ)
    (ks : List κ) (f : ρ → ρ) :
    updateAll key rows others f p ks = updateAll key rows [] f p ks := by
  induction ks generalizing p with
  | nil => rfl
  | cons k ks ih => simp only [updateAll, update_quiet ho, ih]

theorem insertOrIgnore_alone (rows : List ρ) (p : Pending κ ρ) (r : ρ) :
    insertOrIgnore key rows [] p r = some
      (if key r ∈ rows.map key ∨ key r ∈ p.written key then (p, false)
        else ({ p with writes := p.writes ++ [r] }, true)) := by
  unfold insertOrIgnore
  rw [if_neg (by simp [WrittenElsewhere])]
  simp only [mem_keys_view]
  split <;> rfl

theorem update_alone {k : κ} {r : ρ} (f : ρ → ρ) (hs : select key rows p k = some r) :
    update key rows [] p k f = some ({ p with writes := upsert key p.writes (f r) }, true) := by
  unfold update
  rw [hs]
  exact if_neg (by simp [OwnedElsewhere])

/-- What an insert does: it inserts a row with a new key, or finds the key taken. -/
theorem insertOrIgnore_cases {r : ρ} {b : Bool}
    (h : insertOrIgnore key rows others p r = some (p', b)) :
    (b = false ∧ p' = p ∧ (key r ∈ rows.map key ∨ key r ∈ p.written key)) ∨
    (b = true ∧ p' = { p with writes := p.writes ++ [r] } ∧ key r ∉ rows.map key ∧
      key r ∉ p.written key ∧ ¬ WrittenElsewhere key others (key r)) := by
  unfold insertOrIgnore at h
  split at h
  · cases h
  · rename_i hw
    split at h <;> rename_i hk <;> obtain ⟨rfl, rfl⟩ := Prod.mk.inj (Option.some.inj h)
    · exact Or.inl ⟨rfl, rfl, mem_keys_view.mp hk⟩
    · rw [mem_keys_view, not_or] at hk
      exact Or.inr ⟨rfl, rfl, hk.1, hk.2, hw⟩

/-- What an update does: it finds no row, or it writes the new version of a free row. -/
theorem update_cases {k : κ} {f : ρ → ρ} {b : Bool}
    (h : update key rows others p k f = some (p', b)) :
    (b = false ∧ p' = p ∧ select key rows p k = none) ∨
    ∃ r, b = true ∧ select key rows p k = some r ∧ ¬ OwnedElsewhere key others k ∧
      p' = { p with writes := upsert key p.writes (f r) } := by
  unfold update at h
  split at h
  · obtain ⟨rfl, rfl⟩ := Prod.mk.inj (Option.some.inj h)
    exact Or.inl ⟨rfl, rfl, ‹_›⟩
  · rename_i r hr
    split at h
    · cases h
    · rename_i ho
      obtain ⟨rfl, rfl⟩ := Prod.mk.inj (Option.some.inj h)
      exact Or.inr ⟨r, rfl, hr, ho, rfl⟩

theorem updateAll_induction {Q : Pending κ ρ → Prop} {f : ρ → ρ}
    (hQ : ∀ p k p' b, Q p → update key rows others p k f = some (p', b) → Q p') {ks : List κ}
    (hp : Q p) (h : updateAll key rows others f p ks = some p') : Q p' := by
  induction ks generalizing p with
  | nil => exact Option.some.inj h ▸ hp
  | cons k ks ih =>
    obtain ⟨⟨q, b⟩, hu, hr⟩ := Option.bind_eq_some_iff.mp h
    exact ih (hQ _ _ _ _ hp hu) hr

theorem mem_unlocked {wanted : ρ → Bool} {r : ρ} :
    r ∈ unlocked key rows others p wanted ↔
      r ∈ view key rows p ∧ wanted r = true ∧ ¬ OwnedElsewhere key others (key r) := by
  simp [unlocked]

theorem insertOrIgnore_wellFormed {r : ρ} {b : Bool} (hp : p.WellFormed key rows)
    (h : insertOrIgnore key rows others p r = some (p', b)) : p'.WellFormed key rows := by
  rcases insertOrIgnore_cases h with ⟨-, rfl, -⟩ | ⟨-, rfl, -, hk, -⟩
  · exact hp
  · refine ⟨?_, fun k hk => (hp.locks_mem k hk).imp_right fun h => by
      simp only [Pending.written, List.map_append, List.mem_append] at h ⊢; exact Or.inl h⟩
    simp only [Pending.written, List.map_append, List.map_singleton] at hk ⊢
    refine List.nodup_append.mpr ⟨hp.nodup, by simp, ?_⟩
    rintro a ha b hb rfl
    exact hk (by rwa [List.mem_singleton.mp hb] at ha)

theorem update_wellFormed {k : κ} {f : ρ → ρ} {b : Bool} (hp : p.WellFormed key rows)
    (h : update key rows others p k f = some (p', b)) : p'.WellFormed key rows := by
  rcases update_cases h with ⟨-, rfl, -⟩ | ⟨r, -, -, -, rfl⟩
  · exact hp
  · exact ⟨nodup_upsert hp.nodup _, fun k hk => (hp.locks_mem k hk).imp_right fun h =>
      mem_keys_upsert.mpr (Or.inl h)⟩

theorem updateAll_wellFormed {f : ρ → ρ} {ks : List κ} (hp : p.WellFormed key rows)
    (h : updateAll key rows others f p ks = some p') : p'.WellFormed key rows :=
  updateAll_induction (fun _ _ _ _ => update_wellFormed) hp h

theorem lock_wellFormed {taken : List ρ} (hp : p.WellFormed key rows)
    (ht : ∀ r ∈ taken, r ∈ view key rows p) : (lock key p taken).WellFormed key rows := by
  refine ⟨hp.nodup, fun k hk => ?_⟩
  rcases List.mem_append.mp hk with hk | hk
  · exact hp.locks_mem k hk
  · obtain ⟨r, hr, rfl⟩ := List.mem_map.mp hk
    exact mem_keys_view.mp (List.mem_map_of_mem (ht r hr))

theorem updateAll_writes {f : ρ → ρ} (hf : ∀ r, key (f r) = key r) {rs : List ρ}
    (hn : (rs.map key).Nodup) (hw : ∀ r ∈ rs, key r ∉ p.written key)
    (hr : ∀ r ∈ rs, lookup key rows (key r) = some r)
    (h : updateAll key rows others f p (rs.map key) = some p') :
    p' = { p with writes := p.writes ++ rs.map f } := by
  induction rs generalizing p with
  | nil => simpa [updateAll] using h.symm
  | cons r rs ih =>
    rw [List.map_cons, List.nodup_cons] at hn
    obtain ⟨⟨q, b⟩, hu, h⟩ := Option.bind_eq_some_iff.mp h
    have hsel : select key rows p (key r) = some r :=
      (select_of_not_written (hw r List.mem_cons_self)).trans (hr r List.mem_cons_self)
    have hq : q = { p with writes := p.writes ++ [f r] } := by
      rcases update_cases hu with ⟨-, -, hs⟩ | ⟨r', -, hs, -, rfl⟩
      · exact absurd (hs.symm.trans hsel) (by simp)
      · obtain rfl := Option.some.inj (hs.symm.trans hsel)
        rw [upsert_of_not_mem (by rw [hf]; exact hw r' List.mem_cons_self)]
    subst hq
    rw [ih hn.2 ?_ (fun r' hr' => hr r' (List.mem_cons_of_mem _ hr')) h]
    · simp
    · intro r' hr' hk
      rw [Pending.written, List.map_append, List.map_singleton, List.mem_append,
        List.mem_singleton, hf] at hk
      rcases hk with hk | hk
      · exact hw r' (List.mem_cons_of_mem _ hr') hk
      · exact hn.1 (hk ▸ List.mem_map_of_mem hr')

theorem insertOrIgnore_acquires {r : ρ} {b : Bool}
    (ho : ∀ q ∈ others, q.WellFormed key rows)
    (h : insertOrIgnore key rows others p r = some (p', b)) : Acquires key others p p' := by
  rcases insertOrIgnore_cases h with ⟨-, rfl, -⟩ | ⟨-, rfl, hk, -, hw⟩
  · exact .refl
  · intro k hk'
    simp only [Pending.owned, Pending.written, List.map_append, List.map_singleton,
      List.mem_append, List.mem_singleton] at hk'
    rcases hk' with (hk' | rfl) | hk'
    · exact Or.inl (mem_owned.mpr (Or.inl hk'))
    · right
      rintro ⟨q, hq, hk'⟩
      rcases mem_owned.mp hk' with hk' | hk'
      · exact hw ⟨q, hq, hk'⟩
      · rcases (ho q hq).locks_mem _ hk' with h | h
        · exact hk h
        · exact hw ⟨q, hq, h⟩
    · exact Or.inl (mem_owned.mpr (Or.inr hk'))

theorem update_acquires {k : κ} {f : ρ → ρ} {b : Bool} (hf : ∀ r, key (f r) = key r)
    (h : update key rows others p k f = some (p', b)) : Acquires key others p p' := by
  rcases update_cases h with ⟨-, rfl, -⟩ | ⟨r, -, hs, ho, rfl⟩
  · exact .refl
  · intro k' hk'
    rcases mem_owned.mp hk' with hk' | hk'
    · rcases mem_keys_upsert.mp hk' with hk' | rfl
      · exact Or.inl (mem_owned.mpr (Or.inl hk'))
      · rw [hf, (mem_of_lookup hs).2]; exact Or.inr ho
    · exact Or.inl (mem_owned.mpr (Or.inr hk'))

theorem updateAll_acquires {f : ρ → ρ} (hf : ∀ r, key (f r) = key r) {ks : List κ}
    (h : updateAll key rows others f p ks = some p') : Acquires key others p p' :=
  updateAll_induction (fun _ _ _ _ hq hu => hq.trans (update_acquires hf hu)) .refl h

omit [DecidableEq κ] in
theorem lock_acquires {taken : List ρ}
    (ht : ∀ r ∈ taken, ¬ OwnedElsewhere key others (key r)) :
    Acquires key others p (lock key p taken) := by
  intro k hk
  rcases mem_owned.mp hk with hk | hk
  · exact Or.inl (mem_owned.mpr (Or.inl hk))
  · rcases List.mem_append.mp hk with hk | hk
    · exact Or.inl (mem_owned.mpr (Or.inr hk))
    · obtain ⟨r, hr, rfl⟩ := List.mem_map.mp hk
      exact Or.inr (ht r hr)

end Statements

section Commit

variable [DecidableEq κ]

def commit (key : ρ → κ) (rows : List ρ) (p : Pending κ ρ) : List ρ := view key rows p

variable {key : ρ → κ} {rows : List ρ} {p q : Pending κ ρ}

theorem mem_keys_commit {k : κ} :
    k ∈ (commit key rows p).map key ↔ k ∈ rows.map key ∨ k ∈ p.written key :=
  mem_keys_view

theorem nodup_commit (h : (rows.map key).Nodup) : ((commit key rows p).map key).Nodup :=
  nodup_overlay h _

theorem lookup_commit_of_not_written {k : κ} (h : k ∉ p.written key) :
    lookup key (commit key rows p) k = lookup key rows k :=
  lookup_overlay_of_not_mem h

end Commit

section Rows

variable {β : Type*} [DecidableEq κ] {key : ρ → κ} {rows : List ρ}
  {others : List (Pending κ ρ)} {p p' : Pending κ ρ} {Q : ρ → Prop} {g : ρ → Option β}

variable (key) in
/-- The writes of a transaction agree under `g` with the committed rows they replace. -/
def Agrees (g : ρ → Option β) (rows : List ρ) (p : Pending κ ρ) : Prop :=
  ∀ w ∈ p.writes, (lookup key rows (key w)).bind g = g w

theorem mem_view (hn : (rows.map key).Nodup) (hp : p.WellFormed key rows) {r : ρ} :
    r ∈ view key rows p ↔ r ∈ p.writes ∨ (r ∈ rows ∧ key r ∉ p.written key) :=
  mem_overlay hn hp.nodup

theorem update_forall {k : κ} {f : ρ → ρ} {b : Bool} (hn : (rows.map key).Nodup)
    (hp : p.WellFormed key rows) (hf : ∀ r, Q r → Q (f r)) (hr : ∀ r ∈ rows, Q r)
    (hw : ∀ w ∈ p.writes, Q w) (h : update key rows others p k f = some (p', b)) :
    ∀ w ∈ p'.writes, Q w := by
  rcases update_cases h with ⟨-, rfl, -⟩ | ⟨r, -, hs, -, rfl⟩
  · exact hw
  · have hq : Q r := by
      rcases (mem_view hn hp).mp (mem_of_lookup hs).1 with h | ⟨h, -⟩
      exacts [hw r h, hr r h]
    intro w hw'
    rcases (mem_upsert hp.nodup).mp hw' with rfl | ⟨hw', -⟩
    exacts [hf r hq, hw w hw']

theorem updateAll_forall {f : ρ → ρ} {ks : List κ} (hn : (rows.map key).Nodup)
    (hp : p.WellFormed key rows) (hf : ∀ r, Q r → Q (f r)) (hr : ∀ r ∈ rows, Q r)
    (hw : ∀ w ∈ p.writes, Q w) (h : updateAll key rows others f p ks = some p') :
    ∀ w ∈ p'.writes, Q w :=
  (updateAll_induction
    (Q := fun q => q.WellFormed key rows ∧ ∀ w ∈ q.writes, Q w)
    (fun _ _ _ _ hq hu => ⟨update_wellFormed hq.1 hu, update_forall hn hq.1 hf hr hq.2 hu⟩)
    ⟨hp, hw⟩ h).2

theorem insertOrIgnore_forall {r : ρ} {b : Bool} (hq : Q r) (hw : ∀ w ∈ p.writes, Q w)
    (h : insertOrIgnore key rows others p r = some (p', b)) : ∀ w ∈ p'.writes, Q w := by
  rcases insertOrIgnore_cases h with ⟨-, rfl, -⟩ | ⟨-, rfl, -⟩
  · exact hw
  · intro w hw'
    rcases List.mem_append.mp hw' with hw' | hw'
    · exact hw w hw'
    · rwa [List.mem_singleton.mp hw']

theorem commit_forall (hn : (rows.map key).Nodup) (hp : p.WellFormed key rows)
    (hr : ∀ r ∈ rows, Q r) (hw : ∀ w ∈ p.writes, Q w) : ∀ r ∈ commit key rows p, Q r := by
  intro r hr'
  rcases (mem_view hn hp).mp hr' with h | ⟨h, -⟩
  exacts [hw r h, hr r h]

theorem Agrees.empty : Agrees key g rows {} := by intro w hw; cases hw

theorem Agrees.update {k : κ} {f : ρ → ρ} {b : Bool} (ha : Agrees key g rows p)
    (hn : (rows.map key).Nodup) (hp : p.WellFormed key rows) (hk : ∀ r, key (f r) = key r)
    (hf : ∀ r, g (f r) = g r) (h : update key rows others p k f = some (p', b)) :
    Agrees key g rows p' := by
  rcases update_cases h with ⟨-, rfl, -⟩ | ⟨r, -, hs, -, rfl⟩
  · exact ha
  · intro w hw
    rcases (mem_upsert hp.nodup).mp hw with rfl | ⟨hw, -⟩
    · rw [hk, hf]
      rcases (mem_view hn hp).mp (mem_of_lookup hs).1 with h | ⟨h, -⟩
      · exact ha r h
      · rw [lookup_of_mem hn h, Option.bind_some]
    · exact ha w hw

theorem Agrees.updateAll {f : ρ → ρ} {ks : List κ} (ha : Agrees key g rows p)
    (hn : (rows.map key).Nodup) (hp : p.WellFormed key rows) (hk : ∀ r, key (f r) = key r)
    (hf : ∀ r, g (f r) = g r) (h : updateAll key rows others f p ks = some p') :
    Agrees key g rows p' :=
  (updateAll_induction (Q := fun q => q.WellFormed key rows ∧ Agrees key g rows q)
    (fun _ _ _ _ hq hu => ⟨update_wellFormed hq.1 hu, hq.2.update hn hq.1 hk hf hu⟩)
    ⟨hp, ha⟩ h).2

theorem Agrees.insertOrIgnore {r : ρ} {b : Bool} (ha : Agrees key g rows p) (hg : g r = none)
    (h : insertOrIgnore key rows others p r = some (p', b)) : Agrees key g rows p' := by
  rcases insertOrIgnore_cases h with ⟨-, rfl, -⟩ | ⟨-, rfl, hk, -, -⟩
  · exact ha
  · intro w hw
    rcases List.mem_append.mp hw with hw | hw
    · exact ha w hw
    · rw [List.mem_singleton.mp hw, lookup_eq_none_iff.mpr hk, hg]; rfl

theorem Agrees.congr {rows' : List ρ} (ha : Agrees key g rows p)
    (hl : ∀ k ∈ p.written key, lookup key rows' k = lookup key rows k) :
    Agrees key g rows' p :=
  fun w hw => by rw [hl _ (List.mem_map_of_mem hw)]; exact ha w hw

theorem Agrees.commit (ha : Agrees key g rows p) (hp : p.WellFormed key rows) :
    (ReadCommitted.commit key rows p).filterMap g = rows.filterMap g :=
  filterMap_overlay hp.nodup ha

end Rows

end ReadCommitted
