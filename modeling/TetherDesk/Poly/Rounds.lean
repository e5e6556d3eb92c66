import TetherDesk.Poly
import TetherDesk.Lib.BitField
import TetherDesk.Secure.LittleEndian
import Mathlib.Data.Nat.ModEq
import Mathlib.Tactic.Ring
import Mathlib.Tactic.Linarith

namespace TetherDesk.Poly

open TetherDesk.Lib.BitField TetherDesk.Secure

def p : Nat := 2 ^ 130 - 5

def Limbs.value (l : Limbs) : Nat := l.l0 + 2 ^ 26 * l.l1 + 2 ^ 52 * l.l2 + 2 ^ 78 * l.l3 + 2 ^ 104 * l.l4

-- All limbs are at most a bound.
structure Limbs.AtMost (l : Limbs) (bound : Nat) : Prop where
  l0 : l.l0 ≤ bound
  l1 : l.l1 ≤ bound
  l2 : l.l2 ≤ bound
  l3 : l.l3 ≤ bound
  l4 : l.l4 ≤ bound

-- What a round leaves: limbs of 26 bits, but for a last carry in the second one.
structure Limbs.Settled (l : Limbs) : Prop where
  l0 : l.l0 < 2 ^ 26
  l1 : l.l1 < 2 ^ 26 + 2 ^ 6
  l2 : l.l2 < 2 ^ 26
  l3 : l.l3 < 2 ^ 26
  l4 : l.l4 < 2 ^ 26

section Arithmetic

variable {a b : Nat}

theorem sum32_some (h : a + b < 2 ^ 32) : sum32 a b = some (a + b) := if_pos h

theorem mul32_some (h : a * b < 2 ^ 32) : mul32 a b = some (a * b) := if_pos h

theorem sum64_some (h : a + b < 2 ^ 64) : sum64 a b = some (a + b) := if_pos h

theorem mul64_some (h : a * b < 2 ^ 64) : mul64 a b = some (a * b) := if_pos h

theorem and_mask (a : Nat) : a &&& 0x3ffffff = a % 2 ^ 26 := Nat.and_two_pow_sub_one_eq_mod a 26

theorem carry32_some (h : Nat) : ∃ c e, carry32 h = (c, e) ∧ h = e + 2 ^ 26 * c ∧ e < 2 ^ 26 := by
  refine ⟨h / 2 ^ 26, h % 2 ^ 26, ?_, (Nat.mod_add_div h (2 ^ 26)).symm, Nat.mod_lt _ (by omega)⟩
  unfold carry32
  rw [and_mask, Nat.shiftRight_eq_div_pow]

theorem carry64_some {d : Nat} (h : d < 2 ^ 58) : ∃ c e, carry64 d = (c, e) ∧ d = e + 2 ^ 26 * c ∧ e < 2 ^ 26 := by
  refine ⟨d / 2 ^ 26, d % 2 ^ 26, ?_, (Nat.mod_add_div d (2 ^ 26)).symm, Nat.mod_lt _ (by omega)⟩
  unfold carry64 low32
  rw [and_mask, Nat.shiftRight_eq_div_pow, Nat.mod_eq_of_lt (show d / 2 ^ 26 < 2 ^ 32 by omega),
    Nat.mod_mod_of_dvd _ (by decide)]

-- A sum of five products stays far below 2 ^ 64.
theorem dot_some {h b : Limbs} {H B : Nat} (hh : h.AtMost H) (hb : b.AtMost B) (hsmall : 5 * (H * B) < 2 ^ 64) :
    dot h b = some (h.l0 * b.l0 + h.l1 * b.l1 + h.l2 * b.l2 + h.l3 * b.l3 + h.l4 * b.l4) ∧
      h.l0 * b.l0 + h.l1 * b.l1 + h.l2 * b.l2 + h.l3 * b.l3 + h.l4 * b.l4 ≤ 5 * (H * B) := by
  have h0 := Nat.mul_le_mul hh.l0 hb.l0
  have h1 := Nat.mul_le_mul hh.l1 hb.l1
  have h2 := Nat.mul_le_mul hh.l2 hb.l2
  have h3 := Nat.mul_le_mul hh.l3 hb.l3
  have h4 := Nat.mul_le_mul hh.l4 hb.l4
  refine ⟨?_, by omega⟩
  unfold dot
  simp (disch := omega) only [mul64_some, sum64_some, Option.bind_eq_bind, Option.bind_some]

end Arithmetic

section Bytes

variable (m : Bytes)

theorem le32_le (i : Nat) : le32 (m.drop i) = le m / 256 ^ i % 2 ^ 32 := by
  have hword : le32 (m.drop i) = (byteAt (m.drop i) 0).toNat + 2 ^ 8 * (byteAt (m.drop i) 1).toNat +
      2 ^ 16 * (byteAt (m.drop i) 2).toNat + 2 ^ 24 * (byteAt (m.drop i) 3).toNat := by
    have h0 := (byteAt (m.drop i) 0).toNat_lt
    have h1 := (byteAt (m.drop i) 1).toNat_lt
    have h2 := (byteAt (m.drop i) 2).toNat_lt
    unfold le32
    generalize (byteAt (m.drop i) 0).toNat = b0 at *
    generalize (byteAt (m.drop i) 1).toNat = b1 at *
    generalize (byteAt (m.drop i) 2).toNat = b2 at *
    rw [or_shiftLeft h0, or_shiftLeft (show b0 + 2 ^ 8 * b1 < 2 ^ 16 by omega),
      or_shiftLeft (show b0 + 2 ^ 8 * b1 + 2 ^ 16 * b2 < 2 ^ 24 by omega)]
  rw [hword, byteAt_le, byteAt_le, byteAt_le, byteAt_le, le_drop]
  generalize le m / 256 ^ i = n
  omega

end Bytes

section Round

-- A limb of the block.
theorem block_limb (m : Bytes) (i k : Nat) (hk : k ≤ 6) :
    (le32 (m.drop i) >>> k) &&& 0x3ffffff = le m / 256 ^ i / 2 ^ k % 2 ^ 26 := by
  rw [and_mask, le32_le, Nat.shiftRight_eq_div_pow]
  generalize le m / 256 ^ i = n
  have hsplit : (2 : Nat) ^ 32 = 2 ^ k * 2 ^ (32 - k) := by rw [← Nat.pow_add]; congr 1; omega
  rw [hsplit, Nat.mod_mul_right_div_self, Nat.mod_mod_of_dvd _ (Nat.pow_dvd_pow 2 (by omega))]

-- Adding a block adds its number, with the bit behind it.
theorem polyAdd_some {h : Limbs} (hh : h.Settled) (m : Bytes) {b : Nat} (hb : b ≤ 1) :
    ∃ h', polyAdd h m (b <<< 24) = some h' ∧ h'.AtMost (2 ^ 27 + 2 ^ 6) ∧
      h'.value = h.value + (le (m.take 16) + 2 ^ 128 * b) := by
  have h0 := hh.l0
  have h1 := hh.l1
  have h2 := hh.l2
  have h3 := hh.l3
  have h4 := hh.l4
  have hm0 := block_limb m 0 0 (by omega)
  have hm1 := block_limb m 3 2 (by omega)
  have hm2 := block_limb m 6 4 (by omega)
  have hm3 := block_limb m 9 6 (by omega)
  have hm4 : (le32 (m.drop 12) >>> 8) ||| (b <<< 24) = le m / 2 ^ 104 % 2 ^ 24 + 2 ^ 24 * b := by
    rw [le32_le, Nat.shiftRight_eq_div_pow]
    generalize le m = n
    rw [or_shiftLeft (by omega)]
    omega
  rw [List.drop_zero, Nat.shiftRight_zero] at hm0
  have hvalue := le_take m 16
  generalize le m = n at *
  unfold polyAdd
  rw [hm0, hm1, hm2, hm3, hm4]
  simp (disch := omega) only [sum32_some, Option.bind_eq_bind, Option.bind_some]
  refine ⟨_, rfl, ⟨?_, ?_, ?_, ?_, ?_⟩, ?_⟩
  all_goals dsimp only [Limbs.value]
  · omega
  · omega
  · omega
  · omega
  · omega
  · rw [hvalue]
    omega

theorem polyFives_some {r : Limbs} (hr : r.AtMost (2 ^ 26)) :
    polyFives r = some ⟨0, r.l1 * 5, r.l2 * 5, r.l3 * 5, r.l4 * 5⟩ := by
  have h1 := hr.l1
  have h2 := hr.l2
  have h3 := hr.l3
  have h4 := hr.l4
  unfold polyFives
  simp (disch := omega) only [mul32_some, Option.bind_eq_bind, Option.bind_some]

-- What the products of high limbs are worth above 2 ^ 130.
def high (h r : Limbs) : Nat :=
  h.l1 * r.l4 + h.l2 * r.l3 + h.l3 * r.l2 + h.l4 * r.l1 + 2 ^ 26 * (h.l2 * r.l4 + h.l3 * r.l3 + h.l4 * r.l2) +
    2 ^ 52 * (h.l3 * r.l4 + h.l4 * r.l3) + 2 ^ 78 * (h.l4 * r.l4)

def dots (h r : Limbs) : Limbs where
  l0 := h.l0 * r.l0 + h.l1 * (r.l4 * 5) + h.l2 * (r.l3 * 5) + h.l3 * (r.l2 * 5) + h.l4 * (r.l1 * 5)
  l1 := h.l0 * r.l1 + h.l1 * r.l0 + h.l2 * (r.l4 * 5) + h.l3 * (r.l3 * 5) + h.l4 * (r.l2 * 5)
  l2 := h.l0 * r.l2 + h.l1 * r.l1 + h.l2 * r.l0 + h.l3 * (r.l4 * 5) + h.l4 * (r.l3 * 5)
  l3 := h.l0 * r.l3 + h.l1 * r.l2 + h.l2 * r.l1 + h.l3 * r.l0 + h.l4 * (r.l4 * 5)
  l4 := h.l0 * r.l4 + h.l1 * r.l3 + h.l2 * r.l2 + h.l3 * r.l1 + h.l4 * r.l0

-- The five sums are the product, but for a multiple of p.
theorem dots_value (h r : Limbs) : h.value * r.value = (dots h r).value + p * high h r := by
  have hsum : h.value * r.value + 5 * high h r = (dots h r).value + 2 ^ 130 * high h r := by
    unfold Limbs.value dots high
    ring
  rw [show (2 : Nat) ^ 130 = p + 5 from rfl, Nat.add_mul] at hsum
  omega

theorem polyDots_some {r h : Limbs} (hr : r.AtMost (2 ^ 26)) (hh : h.AtMost (2 ^ 27 + 2 ^ 6)) :
    polyDots r ⟨0, r.l1 * 5, r.l2 * 5, r.l3 * 5, r.l4 * 5⟩ h = some (dots h r) ∧
      (dots h r).AtMost (5 * ((2 ^ 27 + 2 ^ 6) * (5 * 2 ^ 26))) ∧
        (dots h r).l4 ≤ 5 * ((2 ^ 27 + 2 ^ 6) * 2 ^ 26) := by
  obtain ⟨h0, h1, h2, h3, h4⟩ := hr
  have hsum := fun b : Limbs => fun hb : b.AtMost (5 * 2 ^ 26) => dot_some hh hb (by norm_num)
  have hr0 : r.l0 ≤ 5 * 2 ^ 26 := by omega
  have hr1 : r.l1 ≤ 5 * 2 ^ 26 := by omega
  have hr2 : r.l2 ≤ 5 * 2 ^ 26 := by omega
  have hr3 : r.l3 ≤ 5 * 2 ^ 26 := by omega
  have hs1 : r.l1 * 5 ≤ 5 * 2 ^ 26 := by omega
  have hs2 : r.l2 * 5 ≤ 5 * 2 ^ 26 := by omega
  have hs3 : r.l3 * 5 ≤ 5 * 2 ^ 26 := by omega
  have hs4 : r.l4 * 5 ≤ 5 * 2 ^ 26 := by omega
  obtain ⟨hd0, hle0⟩ := hsum ⟨r.l0, r.l4 * 5, r.l3 * 5, r.l2 * 5, r.l1 * 5⟩ ⟨hr0, hs4, hs3, hs2, hs1⟩
  obtain ⟨hd1, hle1⟩ := hsum ⟨r.l1, r.l0, r.l4 * 5, r.l3 * 5, r.l2 * 5⟩ ⟨hr1, hr0, hs4, hs3, hs2⟩
  obtain ⟨hd2, hle2⟩ := hsum ⟨r.l2, r.l1, r.l0, r.l4 * 5, r.l3 * 5⟩ ⟨hr2, hr1, hr0, hs4, hs3⟩
  obtain ⟨hd3, hle3⟩ := hsum ⟨r.l3, r.l2, r.l1, r.l0, r.l4 * 5⟩ ⟨hr3, hr2, hr1, hr0, hs4⟩
  obtain ⟨hd4, hle4⟩ := dot_some (b := ⟨r.l4, r.l3, r.l2, r.l1, r.l0⟩) hh ⟨h4, h3, h2, h1, h0⟩ (by norm_num)
  refine ⟨?_, ⟨hle0, hle1, hle2, hle3, hle4.trans (by norm_num)⟩, hle4⟩
  unfold polyDots
  rw [hd0, hd1, hd2, hd3, hd4]
  rfl

-- The carries settle the limbs, and take off a multiple of p.
theorem polyCarry_some {d : Limbs} (hd : d.AtMost (5 * ((2 ^ 27 + 2 ^ 6) * (5 * 2 ^ 26))))
    (hd4 : d.l4 ≤ 5 * ((2 ^ 27 + 2 ^ 6) * 2 ^ 26)) :
    ∃ h q, polyCarry d = some h ∧ h.Settled ∧ d.value = h.value + p * q := by
  obtain ⟨h0, h1, h2, h3, -⟩ := hd
  obtain ⟨c0, e0, hc0, hd0, he0⟩ := carry64_some (show d.l0 < 2 ^ 58 by omega)
  obtain ⟨c1, e1, hc1, hd1, he1⟩ := carry64_some (show d.l1 + c0 < 2 ^ 58 by omega)
  obtain ⟨c2, e2, hc2, hd2, he2⟩ := carry64_some (show d.l2 + c1 < 2 ^ 58 by omega)
  obtain ⟨c3, e3, hc3, hd3, he3⟩ := carry64_some (show d.l3 + c2 < 2 ^ 58 by omega)
  obtain ⟨c4, e4, hc4, hd4', he4⟩ := carry64_some (show d.l4 + c3 < 2 ^ 58 by omega)
  obtain ⟨c5, e5, hc5, hd5, he5⟩ := carry32_some (e0 + c4 * 5)
  refine ⟨⟨e5, e1 + c5, e2, e3, e4⟩, c4, ?_, ⟨he5, by dsimp only; omega, he2, he3, he4⟩, ?_⟩
  · unfold polyCarry
    simp (disch := omega) only [hc0, hc1, hc2, hc3, hc4, hc5, sum64_some, sum32_some, mul32_some,
      Option.bind_eq_bind,
      Option.bind_some]
  · have hp : p * c4 + 5 * c4 = 2 ^ 130 * c4 := by
      rw [← Nat.add_mul]
      rfl
    unfold Limbs.value
    dsimp only
    omega

-- One block: h := (h + block) * r, modulo p.
theorem polyBlock_some {r h : Limbs} (hr : r.AtMost (2 ^ 26)) (hh : h.Settled) (m : Bytes) {b : Nat} (hb : b ≤ 1) :
    ∃ h', polyBlock r ⟨0, r.l1 * 5, r.l2 * 5, r.l3 * 5, r.l4 * 5⟩ h m (b <<< 24) = some h' ∧ h'.Settled ∧
      h'.value ≡ (h.value + (le (m.take 16) + 2 ^ 128 * b)) * r.value [MOD p] := by
  obtain ⟨a, hadd, hle, hvalue⟩ := polyAdd_some hh m hb
  obtain ⟨hdots, hle, hle4⟩ := polyDots_some hr hle
  obtain ⟨h', q, hcarry, hsettled, hcarried⟩ := polyCarry_some hle hle4
  refine ⟨h', ?_, hsettled, ?_⟩
  · unfold polyBlock
    rw [hadd, Option.bind_eq_bind, Option.bind_some, hdots, Option.bind_some, hcarry]
  · rw [← hvalue, dots_value, hcarried, Nat.add_assoc, ← Nat.mul_add]
    exact (Nat.add_mul_mod_self_left _ _ _).symm

end Round

end TetherDesk.Poly
