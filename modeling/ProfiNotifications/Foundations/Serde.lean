import ProfiNotifications.Foundations.Json

/-! # Decoding JSON into typed records

The members of a record are found by name: a member that occurs twice is an error, and an
unknown member is skipped. A field may be required; it may be optional, and is then absent
when it is missing or `null`; or it may have a default, which stands in for a missing
member only, so that `null` is read like any other value. Records are read from objects,
and the value of a number literal is taken to be exact.
-/

namespace Serde

variable {α β : Type*}

def string : Json → Option String
  | .str s => some s
  | _ => none

def bool : Json → Option Bool
  | .bool b => some b
  | _ => none

def int64 : Json → Option Int64
  | .int n =>
    if Int64.minValue.toInt ≤ n ∧ n ≤ Int64.maxValue.toInt then some (.ofInt n) else none
  | _ => none

def uint32 : Json → Option UInt32
  | .int n => if 0 ≤ n ∧ n < 2 ^ 32 then some (.ofNat n.toNat) else none
  | _ => none

def float64 : Json → Option ℚ
  | .int n => some n
  | .float x => some x
  | _ => none

def seq (elem : Json → Option α) : Json → Option (List α)
  | .arr items => items.mapM elem
  | _ => none

def nullable (dec : Json → Option α) : Json → Option (Option α)
  | .null => some none
  | j => (dec j).map some

/-- A record, read from its members. A derived decoder also reads an array of the fields in their
order; only objects are read here. -/
def struct (read : Json → Option α) : Json → Option α
  | .obj ms => read (.obj ms)
  | _ => none

def members : Json → String → List Json
  | .obj ms, name => (ms.filter fun m => m.1 = name).map Prod.snd
  | _, _ => []

/-- A field, given what a missing member stands for. -/
def field (missing : Option α) (dec : Json → Option α) (j : Json) (name : String) : Option α :=
  match members j name with
  | [] => missing
  | [v] => dec v
  | _ => none

def required (dec : Json → Option α) : Json → String → Option α := field none dec

def optional (dec : Json → Option α) : Json → String → Option (Option α) :=
  field (some none) (nullable dec)

def default (zero : α) (dec : Json → Option α) : Json → String → Option α :=
  field (some zero) dec

/-- The value of a member, unless it is missing or `null`. -/
def value (j : Json) (name : String) : Option Json :=
  match members j name with
  | [] | .null :: _ => none
  | v :: _ => some v

def get (dec : Json → Option α) (j : Json) (name : String) : Option α := (value j name).bind dec

def IsNull (j : Json) (name : String) : Prop := members j name = [.null]

instance (j : Json) (name : String) : Decidable (IsNull j name) :=
  inferInstanceAs (Decidable (_ = _))

def items : Json → List Json
  | .arr l => l
  | _ => []

def elements (j : Json) (name : String) : List Json := (value j name).elim [] items

def IsList (P : Json → Prop) (j : Json) : Prop := ∃ l, j = .arr l ∧ ∀ v ∈ l, P v

/-- A member that is missing, or `null`, or as it should be. -/
def Sparse (P : Json → Prop) (j : Json) (name : String) : Prop :=
  members j name = [] ∨ IsNull j name ∨ ∃ v, members j name = [v] ∧ v ≠ .null ∧ P v

variable {dec : Json → Option α} {read : Json → α} {P : Json → Prop} {j v : Json} {name : String}
  {zero : α} {l : List Json}

theorem value_eq_none (h : members j name = [] ∨ IsNull j name) : value j name = none := by
  rcases h with h | h
  · simp [value, h]
  · rw [IsNull] at h
    simp [value, h]

theorem value_of_members (h : members j name = [v]) (hv : v ≠ .null) : value j name = some v := by
  cases v with
  | null => exact absurd rfl hv
  | _ => simp [value, h]

theorem Sparse.of_value (h : Sparse P j name) (hv : value j name = some v) : P v := by
  rcases h with h | h | ⟨w, h, hw, hp⟩
  · rw [value_eq_none (Or.inl h)] at hv
    cases hv
  · rw [value_eq_none (Or.inr h)] at hv
    cases hv
  · rw [value_of_members h hw] at hv
    rwa [← Option.some.inj hv]

theorem nullable_of_ne (h : v ≠ .null) : nullable dec v = (dec v).map some := by
  cases v with
  | null => exact absurd rfl h
  | _ => rfl

theorem optional_of_sparse (h : Sparse P j name) : optional dec j name =
    (value j name).elim (some none) fun v => (dec v).map some := by
  unfold optional field
  rcases h with h | h | ⟨v, h, hv, hp⟩
  · rw [value_eq_none (Or.inl h), h]
    rfl
  · rw [value_eq_none (Or.inr h), show members j name = _ from h]
    rfl
  · rw [value_of_members h hv, h]
    exact nullable_of_ne hv

/-- A field with a default is read like its value, unless it is `null`. -/
theorem default_of_sparse (h : Sparse P j name) (hnull : dec .null = none) :
    default zero dec j name =
      if IsNull j name then none else (value j name).elim (some zero) dec := by
  unfold default field
  rcases h with h | h | ⟨v, h, hv, hp⟩
  · rw [value_eq_none (Or.inl h), if_neg (by simp [IsNull, h]), h]
    rfl
  · rw [if_pos h, show members j name = _ from h]
    exact hnull
  · rw [value_of_members h hv, if_neg (by simpa [IsNull, h] using hv), h]
    rfl

theorem required_of_members (h : members j name = [v]) : required dec j name = dec v := by
  simp [required, field, h]

theorem get_of_members (h : members j name = [v]) (hv : v ≠ .null) : get dec j name = dec v := by
  rw [get, value_of_members h hv]
  rfl

@[simp] theorem members_nil : members (.obj []) name = [] := rfl

theorem members_cons (n : String) (ms : List (String × Json)) :
    members (.obj ((n, v) :: ms)) name =
      if n = name then v :: members (.obj ms) name else members (.obj ms) name := by
  by_cases h : n = name <;> simp [members, h]

@[simp] theorem struct_obj (dec : Json → Option α) (ms : List (String × Json)) :
    struct dec (.obj ms) = dec (.obj ms) := rfl

theorem optional_get (h : Sparse P j name) (hP : ∀ v, P v → (dec v).isSome) :
    optional dec j name = some (get dec j name) := by
  rw [optional_of_sparse h, get]
  cases hv : value j name with
  | none => rfl
  | some v =>
    obtain ⟨a, ha⟩ := Option.isSome_iff_exists.mp (hP v (h.of_value hv))
    rw [Option.elim_some, Option.bind_some, ha]
    rfl

theorem optional_map (h : Sparse P j name) (hP : ∀ v, P v → dec v = some (read v)) :
    optional dec j name = some ((value j name).map read) := by
  rw [optional_of_sparse h]
  cases hv : value j name with
  | none => rfl
  | some v =>
    rw [Option.elim_some, hP v (h.of_value hv)]
    rfl

theorem default_get (h : Sparse P j name) (hnull : dec .null = none)
    (hP : ∀ v, P v → (dec v).isSome) : default zero dec j name =
      if IsNull j name then none else some ((get dec j name).getD zero) := by
  rw [default_of_sparse h hnull, get]
  congr 1
  cases hv : value j name with
  | none => rfl
  | some v =>
    obtain ⟨a, ha⟩ := Option.isSome_iff_exists.mp (hP v (h.of_value hv))
    rw [Option.elim_some, Option.bind_some, ha]
    rfl

theorem seq_arr (h : ∀ v ∈ l, dec v = some (read v)) : seq dec (.arr l) = some (l.map read) := by
  induction l with
  | nil => rfl
  | cons v l ih =>
    have hi := ih fun w hw => h w (List.mem_cons_of_mem _ hw)
    rw [seq] at hi
    rw [seq, List.mapM_cons, h v List.mem_cons_self, hi]
    rfl

theorem default_seq (h : Sparse (IsList P) j name)
    (hP : ∀ v ∈ elements j name, dec v = some (read v)) :
    default [] (seq dec) j name =
      if IsNull j name then none else some ((elements j name).map read) := by
  rw [default_of_sparse h rfl]
  congr 1
  unfold elements at *
  cases hv : value j name with
  | none => rfl
  | some v =>
    obtain ⟨l, rfl, -⟩ := h.of_value hv
    rw [hv] at hP
    exact seq_arr hP

theorem seq_arr_eq_none (h : v ∈ l) (hv : dec v = none) : seq dec (.arr l) = none := by
  induction l with
  | nil => exact absurd h List.not_mem_nil
  | cons w l ih =>
    rw [seq, List.mapM_cons]
    rcases List.mem_cons.mp h with rfl | h
    · rw [hv]
      rfl
    · have hi := ih h
      rw [seq] at hi
      rw [hi]
      cases dec w <;> rfl

theorem default_seq_eq_none (h : Sparse (IsList P) j name) (hv : v ∈ elements j name)
    (hd : dec v = none) : default [] (seq dec) j name = none := by
  rw [default_of_sparse h rfl]
  split
  · rfl
  · unfold elements at hv
    cases hw : value j name with
    | none =>
      rw [hw] at hv
      exact absurd hv List.not_mem_nil
    | some w =>
      obtain ⟨l, rfl, -⟩ := h.of_value hw
      rw [hw] at hv
      exact seq_arr_eq_none hv hd

theorem mem_elements (h : Sparse (IsList P) j name) (hv : v ∈ elements j name) : P v := by
  unfold elements at hv
  cases hw : value j name with
  | none =>
    rw [hw] at hv
    exact absurd hv List.not_mem_nil
  | some w =>
    obtain ⟨l, rfl, hl⟩ := h.of_value hw
    rw [hw] at hv
    exact hl v hv

end Serde
