import Mathlib.Data.Rat.Floor
import ProfiNotifications.Foundations.Json

/-! # Reading JSON into records of typed fields

The members of an object are read in order, and every member is stored in the field
whose name it matches up to letter case, so the last of several matching members wins.
`null` leaves a field as it is, unless the field is a pointer or a list. Numbers are read
as floating-point numbers, which are represented by their rational values.
-/

namespace Unmarshal

/-- The letters that fold to an ASCII letter: both cases, the long s and the Kelvin sign. -/
def foldRune (c : Char) : Char :=
  if c.toNat = 0x17F then 's' else if c.toNat = 0x212A then 'k' else c.toLower

def foldName (name : String) : List Char := name.toList.map foldRune

def matching (name : String) (ms : List (String × Json)) : List Json :=
  (ms.filter fun m => foldName m.1 = foldName name).map Prod.snd

/-- Read the members of a field one after another. -/
def field {α : Type*} (ms : List (String × Json)) (name : String) (zero : α)
    (store : α → Json → Option α) : Option α :=
  (matching name ms).foldlM store zero

def string (old : String) : Json → Option String
  | .null => some old
  | .str s => some s
  | _ => none

def bool (old : Bool) : Json → Option Bool
  | .null => some old
  | .bool b => some b
  | _ => none

/-- A pointer to a floating-point number. The number is taken as it is: rounding to a double, and
refusing what is beyond the range of doubles, is left to the layer that reads the text. -/
def float64Pointer (_ : Option ℚ) : Json → Option (Option ℚ)
  | .null => some none
  | .int n => some (some n)
  | .float x => some (some x)
  | _ => none

def rawMessage (_ : Option Json) (j : Json) : Option (Option Json) := some (some j)

def struct {α : Type*} (read : List (String × Json) → Option α) : Json → Option α
  | .null => read []
  | .obj ms => read ms
  | _ => none

def slice {α : Type*} (elem : Json → Option α) : Json → Option (List α)
  | .null => some []
  | .arr items => items.mapM elem
  | _ => none

/-- A number, written as an integer literal when it is whole. -/
def number (x : ℚ) : Json := if x.den = 1 then .int x.num else .float x

/-- Conversion of a floating-point number to a 64-bit integer: the fraction is dropped, and
what is out of range becomes the least integer. -/
def toInt64 (x : ℚ) : Int64 :=
  let n := if 0 ≤ x then ⌊x⌋ else ⌈x⌉
  if Int64.minValue.toInt ≤ n ∧ n ≤ Int64.maxValue.toInt then .ofInt n else Int64.minValue

theorem toInt64_toInt (n : Int64) : toInt64 (n.toInt : ℚ) = n := by
  have hrange : Int64.minValue.toInt ≤ n.toInt ∧ n.toInt ≤ Int64.maxValue.toInt :=
    ⟨Int64.le_iff_toInt_le.mp (Int64.minValue_le n), Int64.le_iff_toInt_le.mp (Int64.le_maxValue n)⟩
  rw [toInt64, Int.floor_intCast, Int.ceil_intCast, ite_self, if_pos hrange, Int64.ofInt_toInt]

@[simp] theorem matching_nil (name : String) : matching name [] = [] := rfl

theorem matching_cons (name n : String) (j : Json) (ms : List (String × Json)) :
    matching name ((n, j) :: ms) =
      if foldName n = foldName name then j :: matching name ms else matching name ms := by
  by_cases h : foldName n = foldName name <;> simp [matching, h]

theorem matching_eq_nil {ms : List (String × Json)} {name : String}
    (h : foldName name ∉ ms.map fun m => foldName m.1) : matching name ms = [] := by
  induction ms with
  | nil => rfl
  | cons m ms ih =>
    rw [List.map_cons, List.mem_cons, not_or] at h
    rw [matching_cons, if_neg (Ne.symm h.1), ih h.2]

theorem matching_of_mem {ms : List (String × Json)} {name : String} {j : Json}
    (hn : (ms.map fun m => foldName m.1).Nodup) (h : (name, j) ∈ ms) :
    matching name ms = [j] := by
  induction ms with
  | nil => exact absurd h List.not_mem_nil
  | cons m ms ih =>
    rw [List.map_cons, List.nodup_cons] at hn
    rw [matching_cons]
    rcases List.mem_cons.mp h with rfl | h
    · rw [if_pos rfl, matching_eq_nil hn.1]
    · have hm : foldName name ∈ ms.map fun m => foldName m.1 :=
        List.mem_map.mpr ⟨(name, j), h, rfl⟩
      have hne : foldName m.1 ≠ foldName name := fun he => hn.1 (he ▸ hm)
      rw [if_neg hne, ih hn.2 h]

/-- A member is stored in its field when the names of the members differ. -/
theorem field_of_mem {α : Type*} {ms : List (String × Json)} {name : String} {zero a : α}
    {store : α → Json → Option α} {j : Json} (hn : (ms.map fun m => foldName m.1).Nodup)
    (h : (name, j) ∈ ms) (hs : store zero j = some a) : field ms name zero store = some a := by
  rw [field, matching_of_mem hn h, List.foldlM_cons, hs]
  rfl

theorem field_of_not_mem {α : Type*} {ms : List (String × Json)} {name : String} {zero : α}
    {store : α → Json → Option α} (h : foldName name ∉ ms.map fun m => foldName m.1) :
    field ms name zero store = some zero := by
  rw [field, matching_eq_nil h]
  rfl

theorem float64Pointer_number (old : Option ℚ) (x : ℚ) :
    float64Pointer old (number x) = some (some x) := by
  unfold number
  split
  · rename_i h
    rw [float64Pointer, Rat.coe_int_num_of_den_eq_one h]
  · rfl

theorem slice_arr {α β : Type*} {elem : Json → Option α} {f : β → Json} {g : β → α}
    (h : ∀ b, elem (f b) = some (g b)) (l : List β) :
    slice elem (.arr (l.map f)) = some (l.map g) := by
  induction l with
  | nil => rfl
  | cons b l ih =>
    rw [slice, List.map_cons, List.mapM_cons, h]
    rw [slice] at ih
    rw [ih]
    rfl

end Unmarshal
