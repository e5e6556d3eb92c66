import Mathlib.Data.Nat.Bitwise

namespace TetherDesk.Lib.BitField

-- The value in the `width` bits of `word` from bit `shift` on.
def field (width shift word : Nat) : Nat := (word >>> shift) &&& (2 ^ width - 1)

theorem field_zero (width shift : Nat) : field width shift 0 = 0 := by simp [field]

theorem testBit_field (width shift word i : Nat) :
    (field width shift word).testBit i = (decide (i < width) && word.testBit (shift + i)) := by
  simp only [field, Nat.testBit_and, Nat.testBit_shiftRight, Nat.testBit_two_pow_sub_one]
  exact Bool.and_comm _ _

-- A value stored in an empty field is read back.
theorem field_or_self (width shift word v : Nat) (hv : v < 2 ^ width)
    (hempty : field width shift word = 0) :
    field width shift (word ||| v <<< shift) = v := by
  apply Nat.eq_of_testBit_eq
  intro i
  have h := congrArg (Nat.testBit · i) hempty
  simp only [testBit_field, Nat.zero_testBit] at h
  simp only [testBit_field, Nat.testBit_or, Nat.testBit_shiftLeft, Nat.add_sub_cancel_left,
    Nat.le_add_right, ge_iff_le, decide_true, Bool.true_and]
  by_cases hi : i < width
  · simp only [hi, decide_true, Bool.true_and] at h ⊢
    simp [h]
  · have hb : v.testBit i = false :=
      Nat.testBit_lt_two_pow (hv.trans_le (Nat.pow_le_pow_right Nat.zero_lt_two (by omega)))
    simp [hi, hb]

-- A value stored in another field does not disturb this one.
theorem field_or_other (width shift shift' word v : Nat) (hv : v < 2 ^ width)
    (hdisjoint : shift + width ≤ shift' ∨ shift' + width ≤ shift) :
    field width shift (word ||| v <<< shift') = field width shift word := by
  apply Nat.eq_of_testBit_eq
  intro i
  simp only [testBit_field, Nat.testBit_or, Nat.testBit_shiftLeft]
  by_cases hi : i < width
  · have hb : (decide (shift + i ≥ shift') && v.testBit (shift + i - shift')) = false := by
      rcases hdisjoint with h | h
      · simp; omega
      · rw [Nat.testBit_lt_two_pow (hv.trans_le (Nat.pow_le_pow_right Nat.zero_lt_two (by omega))),
          Bool.and_false]
    rw [hb, Bool.or_false]
  · simp [hi]

-- Two values side by side.
theorem or_shiftLeft {width v : Nat} (hv : v < 2 ^ width) (w : Nat) : v ||| w <<< width = v + 2 ^ width * w := by
  rw [Nat.or_comm, ← Nat.shiftLeft_add_eq_or_of_lt hv, Nat.shiftLeft_eq, Nat.mul_comm, Nat.add_comm]

end TetherDesk.Lib.BitField
