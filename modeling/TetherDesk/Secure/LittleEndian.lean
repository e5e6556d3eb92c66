import TetherDesk.Secure.Reference
import Mathlib.Data.Nat.Digits.Lemmas

namespace TetherDesk.Secure

variable (m : Bytes)

theorem le_ofDigits : le m = Nat.ofDigits 256 (m.map UInt8.toNat) := by
  induction m with
  | nil => rfl
  | cons b m ih =>
      rw [List.map_cons, Nat.ofDigits_cons, ← ih]
      rfl

theorem digits_lt : ∀ d ∈ m.map UInt8.toNat, d < 256 := by
  intro d hd
  obtain ⟨b, -, rfl⟩ := List.mem_map.mp hd
  exact b.toNat_lt

-- The number in a part of the bytes.
theorem le_drop (i : Nat) : le (m.drop i) = le m / 256 ^ i := by
  rw [le_ofDigits, le_ofDigits, List.map_drop, Nat.ofDigits_div_pow_eq_ofDigits_drop i (by omega) _ (digits_lt m)]

theorem le_take (n : Nat) : le (m.take n) = le m % 256 ^ n := by
  rw [le_ofDigits, le_ofDigits, List.map_take, Nat.ofDigits_mod_pow_eq_ofDigits_take n (by omega) _ (digits_lt m)]

theorem le_lt : le m < 256 ^ m.length := by
  have htake := le_take m m.length
  rw [List.take_length] at htake
  rw [htake]
  exact Nat.mod_lt _ (Nat.pow_pos (by omega))

theorem byteAt_le (i : Nat) : (byteAt m i).toNat = le m / 256 ^ i % 256 := by
  rw [← le_drop]
  unfold byteAt
  rw [List.getD_eq_getElem?_getD, ← Nat.add_zero i, ← List.getElem?_drop, Nat.add_zero]
  cases m.drop i with
  | nil => rfl
  | cons b rest =>
      have hb := b.toNat_lt
      show b.toNat = (b.toNat + 256 * le rest) % 256
      omega

theorem le_append (a b : Bytes) : le (a ++ b) = le a + 256 ^ a.length * le b := by
  rw [le_ofDigits, le_ofDigits, le_ofDigits, List.map_append, Nat.ofDigits_append, List.length_map]

theorem le_zeros (n : Nat) : le (List.replicate n 0) = 0 := by
  induction n with
  | zero => rfl
  | succ n ih =>
      rw [List.replicate_succ]
      show 0 + 256 * le (List.replicate n 0) = 0
      rw [ih]

-- The bytes are those of their number.
theorem putLe_le : putLe m.length (le m) = m := by
  refine List.ext_getElem (by simp [putLe]) fun i _ hi => ?_
  have hbyte := byteAt_le m i
  rw [byteAt, List.getD_eq_getElem _ _ hi] at hbyte
  refine UInt8.toNat_inj.mp ?_
  simp only [putLe, List.getElem_map, List.getElem_range, UInt8.toNat_ofNat']
  rw [hbyte, Nat.shiftRight_eq_div_pow, Nat.pow_mul]

theorem le_putLe (w v : Nat) : le (putLe w v) = v % 256 ^ w := by
  induction w with
  | zero => exact (Nat.mod_one v).symm
  | succ w ih =>
      have hlast : putLe (w + 1) v = putLe w v ++ [UInt8.ofNat (v >>> (8 * w))] := by
        unfold putLe
        rw [List.range_succ, List.map_append, List.map_singleton]
      have hbyte : le [UInt8.ofNat (v >>> (8 * w))] = v / 256 ^ w % 256 := by
        show (UInt8.ofNat (v >>> (8 * w))).toNat + 256 * 0 = _
        rw [UInt8.toNat_ofNat', Nat.shiftRight_eq_div_pow, Nat.pow_mul]
        rfl
      rw [hlast, le_append, ih, hbyte, Nat.pow_succ, Nat.mod_mul]
      simp [putLe]

-- Another byte in one place.
theorem le_set {i : Nat} (h : i < m.length) (b : UInt8) : le (m.set i b) + 256 ^ i * m[i].toNat =
    le m + 256 ^ i * b.toNat := by
  induction m generalizing i with
  | nil => exact absurd h (Nat.not_lt_zero _)
  | cons a m ih =>
      cases i with
      | zero =>
          show b.toNat + 256 * le m + 1 * a.toNat = a.toNat + 256 * le m + 1 * b.toNat
          omega
      | succ i =>
          have hrest := ih (Nat.lt_of_succ_lt_succ h)
          rw [List.set_cons_succ, List.getElem_cons_succ, Nat.pow_succ']
          show a.toNat + 256 * le (m.set i b) + _ = a.toNat + 256 * le m + _
          rw [Nat.mul_assoc, Nat.mul_assoc]
          omega

-- All bytes are 0 if the number is.
theorem foldl_or (l : Bytes) (acc : UInt8) : l.foldl (· ||| ·) acc = 0 ↔ acc = 0 ∧ le l = 0 := by
  induction l generalizing acc with
  | nil => exact (and_iff_left rfl).symm
  | cons b l ih =>
      have hcons : le (b :: l) = 0 ↔ b = 0 ∧ le l = 0 := by
        have hb : b = 0 ↔ b.toNat = 0 := UInt8.toNat_inj.symm
        show b.toNat + 256 * le l = 0 ↔ _
        rw [hb]
        omega
      rw [List.foldl_cons, ih, UInt8.or_eq_zero_iff, hcons, and_assoc]

end TetherDesk.Secure
