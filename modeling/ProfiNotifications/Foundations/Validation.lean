import Mathlib.Data.List.Forall2
import ProfiNotifications.Foundations.Json

/-! # Validating JSON against a record schema

A validator either builds a value or lists the paths of the offending fields. Record
schemas are read field by field and all errors are collected. Scalars are read the way
lax schema libraries read them: strings only from strings, integers also from Booleans,
from whole doubles of 64 bits and from numeric strings, and so on; how a string spells a
number or a Boolean, and which double an integer is, is left to `Lax`.
-/

/-- A value, or the paths of the fields that were rejected. -/
inductive Validated (α : Type) where
  | ok (a : α)
  | errors (paths : List (List String))
  deriving Repr, DecidableEq

namespace Validated

variable {α β : Type}

def map (f : α → β) : Validated α → Validated β
  | .ok a => .ok (f a)
  | .errors es => .errors es

def ap : Validated (α → β) → Validated α → Validated β
  | .ok f, .ok a => .ok (f a)
  | .ok _, .errors es => .errors es
  | .errors es, .ok _ => .errors es
  | .errors es, .errors es' => .errors (es ++ es')

instance : Functor Validated where
  map := Validated.map

instance : Seq Validated where
  seq f x := ap f (x ())

/-- Prefix the error paths with the name of the field they come from. -/
def at_ (name : String) : Validated α → Validated α
  | .ok a => .ok a
  | .errors es => .errors (es.map (name :: ·))

def toOption : Validated α → Option α
  | .ok a => some a
  | .errors _ => none

@[simp] theorem map_ok (f : α → β) (a : α) : f <$> Validated.ok a = .ok (f a) := rfl

@[simp] theorem seq_ok (f : α → β) (a : α) : Validated.ok f <*> .ok a = .ok (f a) := rfl

@[simp] theorem at_ok (name : String) (a : α) : (Validated.ok a).at_ name = .ok a := rfl

theorem map_eq_ok {f : α → β} {x : Validated α} {b : β} :
    f <$> x = .ok b ↔ ∃ a, x = .ok a ∧ f a = b := by
  cases x with
  | ok a => simp
  | errors es =>
    constructor
    · intro h; cases h
    · rintro ⟨_, h, _⟩; cases h

theorem seq_eq_ok {f : Validated (α → β)} {x : Validated α} {b : β} :
    f <*> x = .ok b ↔ ∃ g a, f = .ok g ∧ x = .ok a ∧ g a = b := by
  constructor
  · cases f with
    | ok g =>
      cases x with
      | ok a => intro h; exact ⟨g, a, rfl, rfl, by simpa using h⟩
      | errors es => intro h; cases h
    | errors es => cases x <;> intro h <;> cases h
  · rintro ⟨g, a, rfl, rfl, rfl⟩; rfl

theorem at_eq_ok {name : String} {x : Validated α} {a : α} : x.at_ name = .ok a ↔ x = .ok a := by
  cases x <;> simp [at_]

/-- Validate every item, naming the items by their positions. -/
def all (v : Json → Validated α) : ℕ → List Json → Validated (List α)
  | _, [] => .ok []
  | i, j :: js => List.cons <$> (v j).at_ (toString i) <*> all v (i + 1) js

theorem all_eq_ok {v : Json → Validated α} {i : ℕ} {js : List Json} {as : List α} :
    all v i js = .ok as ↔ List.Forall₂ (fun j a => v j = .ok a) js as := by
  induction js generalizing i as with
  | nil => simp [all, eq_comm]
  | cons j js ih =>
    simp only [all, seq_eq_ok, map_eq_ok, at_eq_ok, ih, List.forall₂_cons_left_iff]
    constructor
    · rintro ⟨_, as', ⟨a, ha, rfl⟩, h, rfl⟩; exact ⟨a, as', ha, h, rfl⟩
    · rintro ⟨a, as', ha, h, rfl⟩; exact ⟨_, as', ⟨a, ha, rfl⟩, h, rfl⟩

end Validated

/-- How strings spell numbers and Booleans in a lax schema library, and the double of an integer. -/
structure Lax where
  intOfStr : String → Option ℤ
  floatOfStr : String → Option Double
  boolOfStr : String → Option Bool
  floatOfInt : ℤ → Option ℚ

namespace Lax

/-- A library that reads decimal integers, and no other strings. -/
def plain : Lax where
  intOfStr := String.toInt?
  floatOfStr _ := none
  boolOfStr _ := none
  floatOfInt n := some n

variable (lax : Lax) {α : Type}

def read : Option α → Validated α
  | some a => .ok a
  | none => .errors [[]]

def str : Json → Validated String
  | .str s => .ok s
  | _ => .errors [[]]

/-- An integer literal has no bounds; a whole double must lie between the 64-bit ones. -/
def int : Json → Validated ℤ
  | .int n => .ok n
  | .bool b => .ok (if b then 1 else 0)
  | .float x => read (if x.den = 1 ∧ -2 ^ 63 < x ∧ x < 2 ^ 63 then some x.num else none)
  | .str s => read (lax.intOfStr s)
  | _ => .errors [[]]

def float : Json → Validated Double
  | .float x => .ok (.finite x)
  | .nonFinite x => .ok (.nonFinite x)
  | .int n => read ((lax.floatOfInt n).map .finite)
  | .bool b => .ok (.finite (if b then 1 else 0))
  | .str s => read (lax.floatOfStr s)
  | _ => .errors [[]]

def bool : Json → Validated Bool
  | .bool b => .ok b
  | .int n => read (if n = 0 then some false else if n = 1 then some true else none)
  | .float x => read (if x = 0 then some false else if x = 1 then some true else none)
  | .str s => read (lax.boolOfStr s)
  | _ => .errors [[]]

def optional (v : Json → Validated α) : Json → Validated (Option α)
  | .null => .ok none
  | j => some <$> v j

def list (v : Json → Validated α) : Json → Validated (List α)
  | .arr js => .all v 0 js
  | _ => .errors [[]]

def required (ms : List (String × Json)) (name : String) (v : Json → Validated α) : Validated α :=
  match Json.get ms name with
  | some j => (v j).at_ name
  | none => .errors [[name]]

def default (ms : List (String × Json)) (name : String) (d : α) (v : Json → Validated α) :
    Validated α :=
  match Json.get ms name with
  | some j => (v j).at_ name
  | none => .ok d

/-- A member read under its alias or else under its own name. -/
def aliased (ms : List (String × Json)) (alias_ name : String) (d : α) (v : Json → Validated α) :
    Validated α :=
  match Json.get ms alias_ with
  | some j => (v j).at_ alias_
  | none => default ms name d v

def model (v : List (String × Json) → Validated α) : Json → Validated α
  | .obj ms => v ms
  | _ => .errors [[]]

@[simp] theorem str_str (s : String) : str (.str s) = .ok s := rfl

@[simp] theorem int_int (n : ℤ) : lax.int (.int n) = .ok n := rfl

@[simp] theorem float_float (x : ℚ) : lax.float (.float x) = .ok (.finite x) := rfl

@[simp] theorem float_ofDouble (x : Double) : lax.float (.ofDouble x) = .ok x := by
  cases x <;> rfl

@[simp] theorem bool_bool (b : Bool) : lax.bool (.bool b) = .ok b := rfl

theorem required_of_get {ms : List (String × Json)} {name : String}
    {v : Json → Validated α} {j : Json} {a : α} (hj : Json.get ms name = some j)
    (hv : v j = .ok a) : required ms name v = .ok a := by
  rw [required, hj]
  exact congrArg (Validated.at_ name) hv

theorem optional_ofOption {v : Json → Validated α} {f : α → Json} (hv : ∀ a, v (f a) = .ok a)
    (hf : ∀ a, f a ≠ .null) (o : Option α) : optional v (.ofOption f o) = .ok o := by
  cases o with
  | none => rfl
  | some a =>
    rw [Json.ofOption_some]
    unfold optional
    split
    · exact absurd ‹_› (hf a)
    · rw [hv]; rfl

theorem aliased_of_get {ms : List (String × Json)} {alias_ name : String}
    {v : Json → Validated α} {f : α → Json} {o : Option α}
    (ha : Json.get ms alias_ = o.map f) (hn : Json.get ms name = none)
    (hv : ∀ a, v (f a) = .ok a) (hf : ∀ a, f a ≠ .null) :
    aliased ms alias_ name none (optional v) = .ok o := by
  cases o with
  | none => rw [aliased, ha, Option.map_none, default, hn]
  | some a =>
    rw [aliased, ha, Option.map_some]
    exact congrArg (Validated.at_ alias_) (optional_ofOption hv hf (some a))

theorem list_map {v : Json → Validated α} {f : α → Json} (hv : ∀ a, v (f a) = .ok a)
    (l : List α) : list v (.arr (l.map f)) = .ok l := by
  apply Validated.all_eq_ok.mpr
  induction l with
  | nil => exact .nil
  | cons a l ih => exact .cons (hv a) ih

@[simp] theorem model_obj (v : List (String × Json) → Validated α) (ms : List (String × Json)) :
    model v (.obj ms) = v ms := rfl

end Lax
