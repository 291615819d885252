import ProfiNotifications.Foundations.Keyed

/-! # Histories of a keyed table

A history lists the rows that were written to a table and the keys that were erased from
it. A table records a history if it has at most one row per key, and the row under a key
is the one that was written last, unless the key was erased since.
-/

namespace Keyed

/-- What happened to a table. -/
inductive Event (κ ρ : Type*) where
  | write (r : ρ)
  | erase (k : κ)

variable {κ ρ : Type*}

namespace Event

def row : Event κ ρ → Option ρ
  | write r => some r
  | erase _ => none

variable (key : ρ → κ)

def target : Event κ ρ → κ
  | write r => key r
  | erase k => k

@[simp] theorem row_write (r : ρ) : (write r : Event κ ρ).row = some r := rfl

@[simp] theorem row_erase (k : κ) : (erase k : Event κ ρ).row = none := rfl

@[simp] theorem target_write (r : ρ) : (write r).target key = key r := rfl

@[simp] theorem target_erase (k : κ) : (erase k : Event κ ρ).target key = k := rfl

variable {key}

theorem row_eq_some_iff {e : Event κ ρ} {r : ρ} : e.row = some r ↔ e = write r := by
  cases e with
  | write r' => simp
  | erase k => simp

end Event

variable [DecidableEq κ]

def lastEvent (key : ρ → κ) (events : List (Event κ ρ)) (k : κ) : Option (Event κ ρ) :=
  lookup (Event.target key) events.reverse k

/-- The table that is left by a history of writes and erasures. -/
structure Records (key : ρ → κ) (rows : List ρ) (events : List (Event κ ρ)) : Prop where
  nodup : (rows.map key).Nodup
  lookup_eq : ∀ k, lookup key rows k = (lastEvent key events k).bind Event.row

variable {key : ρ → κ} {rows writes : List ρ} {events events' : List (Event κ ρ)} {k : κ} {r : ρ}

@[simp] theorem lastEvent_nil (k : κ) : lastEvent key [] k = none := rfl

theorem lastEvent_append (events events' : List (Event κ ρ)) (k : κ) :
    lastEvent key (events ++ events') k =
      (lastEvent key events' k).or (lastEvent key events k) := by
  simp only [lastEvent, lookup, List.reverse_append, List.find?_append]

theorem lastEvent_concat (events : List (Event κ ρ)) (e : Event κ ρ) (k : κ) :
    lastEvent key (events ++ [e]) k =
      if e.target key = k then some e else lastEvent key events k := by
  rw [lastEvent_append, lastEvent, List.reverse_singleton, lookup_cons, lookup_nil]
  split <;> rfl

theorem lastEvent_erase (keys : List κ) (k : κ) :
    lastEvent key (keys.map Event.erase) k = if k ∈ keys then some (.erase k) else none := by
  induction keys using List.reverseRecOn with
  | nil => rfl
  | append_singleton keys k' ih =>
    rw [List.map_append, List.map_singleton, lastEvent_concat, Event.target_erase, ih]
    by_cases h : k' = k
    · simp [h]
    · simp [h, Ne.symm h]

namespace Records

theorem nil : Records key [] [] := ⟨List.nodup_nil, fun _ => rfl⟩

/-- Rows are the last writes that were not erased since. -/
theorem mem_iff (h : Records key rows events) :
    r ∈ rows ↔ lastEvent key events (key r) = some (.write r) := by
  have hrow : (lastEvent key events (key r)).bind Event.row = some r ↔
      lastEvent key events (key r) = some (.write r) := by
    cases lastEvent key events (key r) with
    | none => simp
    | some e => simp [Event.row_eq_some_iff]
  rw [← hrow, ← h.lookup_eq, lookup_eq_some_iff h.nodup]
  simp

theorem mem_keys_iff (h : Records key rows events) :
    k ∈ rows.map key ↔ ∃ r, lastEvent key events k = some (.write r) := by
  constructor
  · rintro hk
    obtain ⟨r, hr, rfl⟩ := List.mem_map.mp hk
    exact ⟨r, h.mem_iff.mp hr⟩
  · rintro ⟨r, hr⟩
    apply mem_keys_of_lookup (r := r)
    rw [h.lookup_eq, hr]
    rfl

theorem upsert (h : Records key rows events) (r : ρ) :
    Records key (upsert key rows r) (events ++ [.write r]) where
  nodup := nodup_upsert h.nodup r
  lookup_eq k := by
    rw [lookup_upsert, lastEvent_concat, h.lookup_eq, Event.target_write]
    split <;> rfl

theorem overlay (h : Records key rows events) (writes : List ρ) :
    Records key (overlay key rows writes) (events ++ writes.map .write) := by
  induction writes generalizing rows events with
  | nil => simpa using h
  | cons w writes ih => simpa using ih (h.upsert w)

theorem filter (h : Records key rows events) (p : ρ → Bool) :
    Records key (rows.filter p)
      (events ++ ((rows.filter fun r => !p r).map key).map .erase) where
  nodup := h.nodup.sublist (List.filter_sublist.map key)
  lookup_eq k := by
    rw [lastEvent_append, lastEvent_erase]
    cases hl : Keyed.lookup key rows k with
    | none =>
      have hk := lookup_eq_none_iff.mp hl
      have hsub : ∀ q : ρ → Bool, k ∉ (rows.filter q).map key :=
        fun q hq => hk ((List.filter_sublist.map key).subset hq)
      rw [lookup_eq_none_iff.mpr (hsub p), if_neg (hsub _), Option.none_or, ← h.lookup_eq, hl]
    | some r =>
      obtain ⟨hr, rfl⟩ := mem_of_lookup hl
      cases hp : p r with
      | false =>
        have hdrop : key r ∉ (rows.filter p).map key := by simp [mem_keys_filter h.nodup hr, hp]
        rw [if_pos ((mem_keys_filter h.nodup hr).mpr (by simp [hp])),
          lookup_eq_none_iff.mpr hdrop]
        rfl
      | true =>
        have hstay : key r ∉ (rows.filter fun r => !p r).map key := by
          simp [mem_keys_filter h.nodup hr, hp]
        rw [if_neg hstay, Option.none_or, ← h.lookup_eq, hl]
        exact lookup_of_mem (h.nodup.sublist (List.filter_sublist.map key))
          (List.mem_filter.mpr ⟨hr, hp⟩)

end Records

end Keyed
