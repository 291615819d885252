import Mathlib.Algebra.Order.Ring.Int
import Mathlib.Data.List.DropRight

/-! # Strings in UTF-16 code units, and blanks

A string is a sequence of Unicode scalar values; languages that store UTF-16 count a
scalar value beyond the basic plane twice. Which characters are blank differs between
languages, stripping blanks does not.
-/

namespace Text

/-- The number of UTF-16 code units of a character. -/
def utf16Width (c : Char) : ℕ := if 0xFFFF < c.toNat then 2 else 1

def utf16Len (s : String) : ℕ := (s.toList.map utf16Width).sum

def units (cs : List Char) : ℕ := (cs.map utf16Width).sum

/-- The blanks of Python's `str.isspace` and `str.strip`. -/
def pySpace (c : Char) : Bool :=
  let n := c.toNat
  (9 ≤ n && n ≤ 13) || (0x1C ≤ n && n ≤ 0x20) || n = 0x85 || n = 0xA0 || n = 0x1680 ||
    (0x2000 ≤ n && n ≤ 0x200A) || n = 0x2028 || n = 0x2029 || n = 0x202F || n = 0x205F ||
    n = 0x3000

/-- The zeros of the decimal digits in Unicode; nine more digits follow each of them. -/
def decimalZeros : List ℕ :=
  [0x30, 0x660, 0x6F0, 0x7C0, 0x966, 0x9E6, 0xA66, 0xAE6, 0xB66, 0xBE6, 0xC66, 0xCE6, 0xD66,
    0xDE6, 0xE50, 0xED0, 0xF20, 0x1040, 0x1090, 0x17E0, 0x1810, 0x1946, 0x19D0, 0x1A80, 0x1A90,
    0x1B50, 0x1BB0, 0x1C40, 0x1C50, 0xA620, 0xA8D0, 0xA900, 0xA9D0, 0xA9F0, 0xAA50, 0xABF0,
    0xFF10, 0x104A0, 0x10D30, 0x11066, 0x110F0, 0x11136, 0x111D0, 0x112F0, 0x11450, 0x114D0,
    0x11650, 0x116C0, 0x11730, 0x118E0, 0x11950, 0x11C50, 0x11D50, 0x11DA0, 0x11F50, 0x16A60,
    0x16AC0, 0x16B50, 0x1D7CE, 0x1D7D8, 0x1D7E2, 0x1D7EC, 0x1D7F6, 0x1E140, 0x1E2F0, 0x1E4F0,
    0x1E950, 0x1FBF0]

/-- The digits of Python's regular expressions and of its `int`. -/
def pyDigit (c : Char) : Bool := decimalZeros.any fun zero => zero ≤ c.toNat && c.toNat < zero + 10

/-- The blanks of ECMAScript's `String.prototype.trim`. -/
def jsSpace (c : Char) : Bool :=
  let n := c.toNat
  (9 ≤ n && n ≤ 13) || n = 0x20 || n = 0xA0 || n = 0x1680 || (0x2000 ≤ n && n ≤ 0x200A) ||
    n = 0x2028 || n = 0x2029 || n = 0x202F || n = 0x205F || n = 0x3000 || n = 0xFEFF

variable (space : Char → Bool)

def rstrip (s : String) : String := .ofList (s.toList.rdropWhile space)

def strip (s : String) : String := .ofList ((s.toList.dropWhile space).rdropWhile space)

variable {space}

@[simp] theorem utf16Len_empty : utf16Len "" = 0 := rfl

theorem utf16Len_eq (s : String) : utf16Len s = units s.toList := rfl

@[simp] theorem units_nil : units [] = 0 := rfl

@[simp] theorem units_cons (c : Char) (cs : List Char) :
    units (c :: cs) = utf16Width c + units cs := by simp [units]

@[simp] theorem units_append (cs ds : List Char) : units (cs ++ ds) = units cs + units ds := by
  simp [units]

theorem one_le_utf16Width (c : Char) : 1 ≤ utf16Width c := by
  unfold utf16Width
  split <;> omega

theorem units_eq_zero_iff {cs : List Char} : units cs = 0 ↔ cs = [] := by
  cases cs with
  | nil => simp
  | cons c cs =>
    have := one_le_utf16Width c
    simp only [units_cons, reduceCtorEq, iff_false]
    omega

@[simp] theorem utf16Len_append (s t : String) :
    utf16Len (s ++ t) = utf16Len s + utf16Len t := by
  simp [utf16Len]

theorem mem_append_left {c : Char} {s : String} (t : String) (h : c ∈ s.toList) :
    c ∈ (s ++ t).toList := by
  rw [String.toList_append]
  exact List.mem_append_left _ h

theorem mem_intercalate {c : Char} {s t : String} {l : List String} (hs : s ∈ l)
    (hc : c ∈ s.toList) : c ∈ (t.intercalate l).toList := by
  induction l with
  | nil => cases hs
  | cons u l ih =>
    cases l with
    | nil =>
      obtain rfl := List.mem_singleton.mp hs
      rwa [String.intercalate_singleton]
    | cons w l =>
      rw [String.intercalate_cons_cons]
      rcases List.mem_cons.mp hs with rfl | hs
      · exact mem_append_left _ (mem_append_left _ hc)
      · rw [String.toList_append]
        exact List.mem_append_right _ (ih hs)

theorem sum_utf16Width_le {cs ds : List Char} (h : cs.Sublist ds) :
    (cs.map utf16Width).sum ≤ (ds.map utf16Width).sum := by
  induction h with
  | slnil => exact Nat.le_refl _
  | cons _ _ ih => rw [List.map_cons, List.sum_cons]; omega
  | cons_cons _ _ ih => rw [List.map_cons, List.sum_cons, List.map_cons, List.sum_cons]; omega

theorem utf16Len_rstrip_le (s : String) : utf16Len (rstrip space s) ≤ utf16Len s := by
  rw [rstrip, utf16Len, String.toList_ofList]
  exact sum_utf16Width_le (List.rdropWhile_prefix _ _).sublist

theorem strip_eq_self {s : String} (h : ∀ c ∈ s.toList, space c = false) : strip space s = s := by
  have hdrop : s.toList.dropWhile space = s.toList := by
    rw [List.dropWhile_eq_self_iff]
    exact fun hne => by simp [h _ (List.getElem_mem hne)]
  have hrdrop : s.toList.rdropWhile space = s.toList := by
    rw [List.rdropWhile_eq_self_iff]
    exact fun hne => by simp [h _ (List.getLast_mem hne)]
  rw [strip, hdrop, hrdrop, String.ofList_toList]

theorem pySpace_of_pyDigit {c : Char} (h : pyDigit c = true) : pySpace c = false := by
  simp only [pyDigit, decimalZeros, List.any_cons, List.any_nil, Bool.or_eq_true, Bool.and_eq_true,
    decide_eq_true_eq, Bool.or_false] at h
  simp only [pySpace, Bool.or_eq_false_iff, Bool.and_eq_false_iff, decide_eq_false_iff_not]
  omega

theorem rdropWhile_append {cs : List Char} (h : cs.rdropWhile space = cs) (ds : List Char) :
    (cs ++ ds).rdropWhile space = cs ++ ds.rdropWhile space := by
  induction ds using List.reverseRecOn with
  | nil => rw [List.append_nil, h, List.rdropWhile_nil, List.append_nil]
  | append_singleton ds d ih =>
    rw [← List.append_assoc, List.rdropWhile_concat, List.rdropWhile_concat]
    split
    · exact ih
    · rw [List.append_assoc]

theorem strip_eq_empty_iff {s : String} :
    strip space s = "" ↔ ∀ c ∈ s.toList, space c = true := by
  rw [strip, ← String.toList_inj, String.toList_ofList]
  constructor
  · intro h c hc
    rw [← List.takeWhile_append_dropWhile (p := space) (l := s.toList)] at hc
    rcases List.mem_append.mp hc with hc | hc
    · exact List.mem_takeWhile_imp hc
    · exact List.rdropWhile_eq_nil_iff.mp h c hc
  · intro h
    rw [List.dropWhile_eq_nil_iff.mpr h]
    rfl

end Text
