import Mathlib.Algebra.Order.Ring.Int
import Mathlib.Data.Rat.Defs

/-! # JSON values

Values are what readers make of a text. They keep the distinction between an integer
literal and a literal with a fraction or exponent, which is a double: a finite one by its
value, and an infinity or NaN where a reader has such a literal or takes one beyond the
range for it. An object is a list of members; reading a name takes the first member that
has it.
-/

/-- A double that is no number. -/
inductive NonFinite where
  | infinity
  | negInfinity
  | nan
  deriving DecidableEq, Repr

/-- A double, by the number that it stands for. -/
inductive Double where
  | finite (x : ℚ)
  | nonFinite (x : NonFinite)
  deriving DecidableEq, Repr

namespace Double

def IsFinite : Double → Prop
  | .finite _ => True
  | .nonFinite _ => False

@[simp] theorem isFinite_finite (x : ℚ) : (finite x).IsFinite := trivial

@[simp] theorem not_isFinite_nonFinite (x : NonFinite) : ¬ (nonFinite x).IsFinite := id

end Double

inductive Json where
  | null
  | bool (b : Bool)
  | int (n : ℤ)
  | float (x : ℚ)
  | nonFinite (x : NonFinite)
  | str (s : String)
  | arr (items : List Json)
  | obj (members : List (String × Json))
  deriving Repr, Inhabited

namespace Json

mutual

def decEq : (a b : Json) → Decidable (a = b)
  | .null, .null => isTrue rfl
  | .bool a, .bool b => decidable_of_iff (a = b) (by simp)
  | .int a, .int b => decidable_of_iff (a = b) (by simp)
  | .float a, .float b => decidable_of_iff (a = b) (by simp)
  | .nonFinite a, .nonFinite b => decidable_of_iff (a = b) (by simp)
  | .str a, .str b => decidable_of_iff (a = b) (by simp)
  | .arr a, .arr b => @decidable_of_iff _ (a = b) (by simp) (decEqItems a b)
  | .obj a, .obj b => @decidable_of_iff _ (a = b) (by simp) (decEqMembers a b)
  | .null, .bool _ | .null, .int _ | .null, .float _ | .null, .nonFinite _ | .null, .str _
  | .null, .arr _ | .null, .obj _ | .bool _, .null | .bool _, .int _ | .bool _, .float _
  | .bool _, .nonFinite _ | .bool _, .str _ | .bool _, .arr _ | .bool _, .obj _ | .int _, .null
  | .int _, .bool _ | .int _, .float _ | .int _, .nonFinite _ | .int _, .str _ | .int _, .arr _
  | .int _, .obj _ | .float _, .null | .float _, .bool _ | .float _, .int _
  | .float _, .nonFinite _ | .float _, .str _ | .float _, .arr _ | .float _, .obj _
  | .nonFinite _, .null | .nonFinite _, .bool _ | .nonFinite _, .int _ | .nonFinite _, .float _
  | .nonFinite _, .str _ | .nonFinite _, .arr _ | .nonFinite _, .obj _ | .str _, .null
  | .str _, .bool _ | .str _, .int _ | .str _, .float _ | .str _, .nonFinite _ | .str _, .arr _
  | .str _, .obj _ | .arr _, .null | .arr _, .bool _ | .arr _, .int _ | .arr _, .float _
  | .arr _, .nonFinite _ | .arr _, .str _ | .arr _, .obj _ | .obj _, .null | .obj _, .bool _
  | .obj _, .int _ | .obj _, .float _ | .obj _, .nonFinite _ | .obj _, .str _
  | .obj _, .arr _ => isFalse (by simp)

def decEqItems : (a b : List Json) → Decidable (a = b)
  | [], [] => isTrue rfl
  | [], _ :: _ | _ :: _, [] => isFalse (by simp)
  | a :: as, b :: bs =>
    @decidable_of_iff _ (a = b ∧ as = bs) (by simp)
      (@instDecidableAnd _ _ (decEq a b) (decEqItems as bs))

def decEqMembers : (a b : List (String × Json)) → Decidable (a = b)
  | [], [] => isTrue rfl
  | [], _ :: _ | _ :: _, [] => isFalse (by simp)
  | (n, a) :: as, (m, b) :: bs =>
    @decidable_of_iff _ (n = m ∧ a = b ∧ as = bs) (by simp [and_assoc])
      (@instDecidableAnd _ _ _ (@instDecidableAnd _ _ (decEq a b) (decEqMembers as bs)))

end

instance : DecidableEq Json := decEq

def get (members : List (String × Json)) (name : String) : Option Json :=
  (members.find? fun m => m.1 = name).map Prod.snd

@[simp] theorem get_nil (name : String) : get [] name = none := rfl

@[simp] theorem get_cons (n : String) (j : Json) (ms : List (String × Json)) (name : String) :
    get ((n, j) :: ms) name = if n = name then some j else get ms name := by
  by_cases h : n = name <;> simp [get, h]

theorem get_append (ms ms' : List (String × Json)) (name : String) :
    get (ms ++ ms') name = (get ms name).or (get ms' name) := by
  rw [get, get, get, List.find?_append]
  cases ms.find? fun m => m.1 = name <;> rfl

/-- A member that is left out when its value is absent. -/
def present {α : Type*} (name : String) (f : α → Json) : Option α → List (String × Json)
  | none => []
  | some a => [(name, f a)]

@[simp] theorem get_present_self {α : Type*} (name : String) (f : α → Json) (o : Option α) :
    get (present name f o) name = o.map f := by
  cases o <;> simp [present]

theorem get_present_of_ne {α : Type*} {n name : String} (h : n ≠ name) (f : α → Json)
    (o : Option α) : get (present n f o) name = none := by
  cases o <;> simp [present, h]

/-- A double as a value. -/
def ofDouble : Double → Json
  | .finite x => .float x
  | .nonFinite x => .nonFinite x

@[simp] theorem ofDouble_finite (x : ℚ) : ofDouble (.finite x) = .float x := rfl

/-- A named member of a value, if the value is an object that has it. -/
def field : Json → String → Option Json
  | .obj members, name => get members name
  | _, _ => none

/-- An optional value, `null` when it is absent. -/
def ofOption {α : Type*} (f : α → Json) : Option α → Json
  | none => .null
  | some a => f a

@[simp] theorem ofOption_none {α : Type*} (f : α → Json) : ofOption f none = .null := rfl

@[simp] theorem ofOption_some {α : Type*} (f : α → Json) (a : α) : ofOption f (some a) = f a := rfl

theorem ofOption_map {α β : Type*} (f : β → Json) (g : α → β) (o : Option α) :
    ofOption f (o.map g) = ofOption (fun a => f (g a)) o := by
  cases o <;> rfl

end Json
