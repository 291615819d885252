import Mathlib.Algebra.Order.Ring.Int

/-! # Differences of 64-bit integers

The difference of two signed 64-bit integers is taken modulo `2 ^ 64`. It is exact when it
is in range; one that is too small comes out as a large positive number.
-/

namespace Wrapping

variable {a b : Int64}

theorem toInt_sub (h : -2 ^ 63 ≤ a.toInt - b.toInt) (h' : a.toInt - b.toInt < 2 ^ 63) :
    (a - b).toInt = a.toInt - b.toInt := by
  rw [Int64.toInt_sub]
  apply Int.bmod_eq_of_le <;> omega

theorem toInt_sub_of_lt (h : a.toInt - b.toInt < -2 ^ 63) :
    (a - b).toInt = a.toInt - b.toInt + 2 ^ 64 := by
  have ha := a.le_toInt
  have hb := b.toInt_lt
  rw [Int64.toInt_sub, ← Int.add_bmod_right]
  apply Int.bmod_eq_of_le <;> omega

theorem toInt_sub_of_ge (h : 2 ^ 63 ≤ a.toInt - b.toInt) :
    (a - b).toInt = a.toInt - b.toInt - 2 ^ 64 := by
  have ha := a.toInt_lt
  have hb := b.le_toInt
  rw [Int64.toInt_sub, ← Int.sub_bmod_right]
  apply Int.bmod_eq_of_le <;> omega

theorem pos_iff : 0 < a ↔ 0 < a.toInt := by
  rw [Int64.lt_iff_toInt_lt, Int64.toInt_zero]

/-- A positive number is subtracted within the range, or the difference wraps around. -/
theorem sub_pos_iff (hb : 0 < b) :
    0 < a - b ↔ b < a ∨ a.toInt - b.toInt < -2 ^ 63 := by
  rw [pos_iff] at hb
  rw [pos_iff, Int64.lt_iff_toInt_lt]
  have ha := a.toInt_lt
  have ha' := a.le_toInt
  have hb' := b.toInt_lt
  by_cases h : a.toInt - b.toInt < -2 ^ 63
  · rw [toInt_sub_of_lt h]
    omega
  · rw [toInt_sub (Int.not_lt.mp h) (by omega)]
    omega

theorem sub_le_iff_of_pos (h : 0 < a - b) :
    (a - b).toInt ≤ a.toInt - b.toInt ↔ b ≤ a := by
  rw [pos_iff] at h
  rw [Int64.le_iff_toInt_le]
  have ha := a.toInt_lt
  have hb := b.le_toInt
  by_cases hlow : a.toInt - b.toInt < -2 ^ 63
  · rw [toInt_sub_of_lt hlow]
    omega
  · by_cases hhigh : 2 ^ 63 ≤ a.toInt - b.toInt
    · rw [toInt_sub_of_ge hhigh] at h
      omega
    · rw [toInt_sub (Int.not_lt.mp hlow) (Int.not_le.mp hhigh)] at h ⊢
      omega

end Wrapping
