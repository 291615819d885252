import ProfiNotifications.Foundations.Json

/-! # The atoms of a JSON value

The strings, member names and non-finite numbers that occur anywhere in a value: what a
store that takes every shape of value may still refuse. Each operation on values says of
which atoms its result is made.
-/

namespace Json

/-- A text or a non-finite number. -/
inductive Atom where
  | text (s : String)
  | nonFinite (x : NonFinite)

mutual

/-- The strings, member names and non-finite numbers of a value. -/
def atoms : Json → List Atom
  | .str s => [.text s]
  | .nonFinite x => [.nonFinite x]
  | .arr items => atomsOfItems items
  | .obj members => atomsOfMembers members
  | .null | .bool _ | .int _ | .float _ => []

def atomsOfItems : List Json → List Atom
  | [] => []
  | j :: items => atoms j ++ atomsOfItems items

def atomsOfMembers : List (String × Json) → List Atom
  | [] => []
  | (name, j) :: members => .text name :: (atoms j ++ atomsOfMembers members)

end

def AllAtoms (P : Atom → Prop) (j : Json) : Prop := ∀ a ∈ j.atoms, P a

variable {P : Atom → Prop}

@[simp] theorem allAtoms_null : AllAtoms P .null := List.forall_mem_nil P

@[simp] theorem allAtoms_bool (b : Bool) : AllAtoms P (.bool b) := List.forall_mem_nil P

@[simp] theorem allAtoms_int (n : ℤ) : AllAtoms P (.int n) := List.forall_mem_nil P

@[simp] theorem allAtoms_float (x : ℚ) : AllAtoms P (.float x) := List.forall_mem_nil P

@[simp] theorem allAtoms_nonFinite {x : NonFinite} :
    AllAtoms P (.nonFinite x) ↔ P (.nonFinite x) :=
  List.forall_mem_singleton

@[simp] theorem allAtoms_str {s : String} : AllAtoms P (.str s) ↔ P (.text s) :=
  List.forall_mem_singleton

@[simp] theorem allAtoms_arr {items : List Json} :
    AllAtoms P (.arr items) ↔ ∀ j ∈ items, AllAtoms P j := by
  induction items with
  | nil => exact iff_of_true (List.forall_mem_nil P) (List.forall_mem_nil _)
  | cons j items ih =>
    rw [List.forall_mem_cons, ← ih]
    exact List.forall_mem_append

theorem allAtoms_obj {members : List (String × Json)} :
    AllAtoms P (.obj members) ↔
      (∀ m ∈ members, P (.text m.1)) ∧ ∀ m ∈ members, AllAtoms P m.2 := by
  induction members with
  | nil =>
    exact iff_of_true (List.forall_mem_nil P) ⟨List.forall_mem_nil _, List.forall_mem_nil _⟩
  | cons m members ih =>
    obtain ⟨name, j⟩ := m
    have hcons : AllAtoms P (.obj ((name, j) :: members)) ↔
        P (.text name) ∧ AllAtoms P j ∧ AllAtoms P (.obj members) :=
      List.forall_mem_cons.trans (and_congr_right' List.forall_mem_append)
    rw [hcons, ih, List.forall_mem_cons, List.forall_mem_cons]
    tauto

@[simp] theorem allAtoms_ofOption {α : Type*} {f : α → Json} {o : Option α} :
    AllAtoms P (.ofOption f o) ↔ ∀ a ∈ o, AllAtoms P (f a) := by
  cases o <;> simp

theorem allAtoms_present {α : Type*} {members : List (String × Json)} {name : String}
    {f : α → Json} {o : Option α} : AllAtoms P (.obj (members ++ present name f o)) ↔
      AllAtoms P (.obj members) ∧ ∀ a ∈ o, P (.text name) ∧ AllAtoms P (f a) := by
  cases o with
  | none => simp [present]
  | some a =>
    simp only [present, allAtoms_obj, List.forall_mem_append, List.forall_mem_singleton,
      Option.mem_some_iff, forall_eq']
    tauto

end Json
