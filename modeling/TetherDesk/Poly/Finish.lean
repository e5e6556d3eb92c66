import TetherDesk.Poly.Rounds

namespace TetherDesk.Poly

open TetherDesk.Lib.BitField TetherDesk.Secure

-- Limbs of 26 bits, the only ones for their number.
structure Limbs.Canonical (l : Limbs) : Prop where
  l0 : l.l0 < 2 ^ 26
  l1 : l.l1 < 2 ^ 26
  l2 : l.l2 < 2 ^ 26
  l3 : l.l3 < 2 ^ 26
  l4 : l.l4 < 2 ^ 26

section Reduce

-- A first limb that lost its carry has room for the one that comes around.
theorem polySettle_some {h : Limbs} (hh : h.Settled) :
    ∃ h', polySettle h = some h' ∧ h'.Canonical ∧ h'.value ≡ h.value [MOD p] := by
  obtain ⟨h0, h1, h2, h3, h4⟩ := hh
  obtain ⟨c1, e1, hc1, hd1, he1⟩ := carry32_some h.l1
  obtain ⟨c2, e2, hc2, hd2, he2⟩ := carry32_some (h.l2 + c1)
  obtain ⟨c3, e3, hc3, hd3, he3⟩ := carry32_some (h.l3 + c2)
  obtain ⟨c4, e4, hc4, hd4, he4⟩ := carry32_some (h.l4 + c3)
  obtain ⟨c0, e0, hc0, hd0, he0⟩ := carry32_some (h.l0 + c4 * 5)
  refine ⟨⟨e0, e1 + c0, e2, e3, e4⟩, ?_, ⟨he0, by dsimp only; omega, he2, he3, he4⟩, ?_⟩
  · unfold polySettle
    simp (disch := omega) only [hc0, hc1, hc2, hc3, hc4, sum32_some, mul32_some, Option.bind_eq_bind,
      Option.bind_some]
  · have hp : p * c4 + 5 * c4 = 2 ^ 130 * c4 := by
      rw [← Nat.add_mul]
      rfl
    have hvalue : h.value = (⟨e0, e1 + c0, e2, e3, e4⟩ : Limbs).value + p * c4 := by
      unfold Limbs.value
      dsimp only
      omega
    rw [hvalue]
    exact (Nat.add_mul_mod_self_left _ _ _).symm

theorem and_ones {a : Nat} (h : a < 2 ^ 32) : a &&& (2 ^ 32 - 1) = a := by
  rw [Nat.and_two_pow_sub_one_eq_mod, Nat.mod_eq_of_lt h]

-- h + 5 reaches 2 ^ 130 exactly if h is not below p.
theorem polyReduce_some {h : Limbs} (hh : h.Canonical) :
    ∃ h', polyReduce h = some h' ∧ h'.Canonical ∧ h'.value = h.value % p := by
  obtain ⟨h0, h1, h2, h3, h4⟩ := hh
  obtain ⟨c0, g0, hc0, hd0, hg0⟩ := carry32_some (h.l0 + 5)
  obtain ⟨c1, g1, hc1, hd1, hg1⟩ := carry32_some (h.l1 + c0)
  obtain ⟨c2, g2, hc2, hd2, hg2⟩ := carry32_some (h.l2 + c1)
  obtain ⟨c3, g3, hc3, hd3, hg3⟩ := carry32_some (h.l3 + c2)
  unfold polyReduce
  simp (disch := omega) only [hc0, hc1, hc2, hc3, sum32_some, Option.bind_eq_bind, Option.bind_some]
  by_cases hfull : 2 ^ 26 ≤ h.l4 + c3
  · have hg4 : (h.l4 + c3 + 2 ^ 32 - 2 ^ 26) % 2 ^ 32 = h.l4 + c3 - 2 ^ 26 := by omega
    have hmask : ((h.l4 + c3 - 2 ^ 26) >>> 31 + 2 ^ 32 - 1) % 2 ^ 32 = 2 ^ 32 - 1 := by
      rw [Nat.shiftRight_eq_div_pow]
      omega
    rw [hg4, hmask, Nat.sub_self]
    simp (disch := omega) only [Nat.and_zero, Nat.zero_or, and_ones]
    refine ⟨_, rfl, ⟨hg0, hg1, hg2, hg3, by dsimp only; omega⟩, ?_⟩
    have hvalue : h.value = (⟨g0, g1, g2, g3, h.l4 + c3 - 2 ^ 26⟩ : Limbs).value + p := by
      unfold Limbs.value p
      dsimp only
      omega
    have hlt : (⟨g0, g1, g2, g3, h.l4 + c3 - 2 ^ 26⟩ : Limbs).value < p := by
      unfold Limbs.value p
      dsimp only
      omega
    rw [hvalue, Nat.add_mod_right, Nat.mod_eq_of_lt hlt]
  · have hg4 : (h.l4 + c3 + 2 ^ 32 - 2 ^ 26) % 2 ^ 32 = h.l4 + c3 + 2 ^ 32 - 2 ^ 26 := by omega
    have hmask : ((h.l4 + c3 + 2 ^ 32 - 2 ^ 26) >>> 31 + 2 ^ 32 - 1) % 2 ^ 32 = 0 := by
      rw [Nat.shiftRight_eq_div_pow]
      omega
    rw [hg4, hmask, Nat.sub_zero]
    simp (disch := omega) only [Nat.and_zero, Nat.or_zero, and_ones]
    refine ⟨h, rfl, ⟨h0, h1, h2, h3, h4⟩, (Nat.mod_eq_of_lt ?_).symm⟩
    unfold Limbs.value p
    omega

end Reduce

section Pack

variable {a b n k : Nat}

-- The upper bits of a limb and the lower ones of the next.
theorem or_shl32 (ha : a < 2 ^ n) (hn : n ≤ 32) : a ||| shl32 b n = a + 2 ^ n * (b % 2 ^ (32 - n)) := by
  have hsplit : (2 : Nat) ^ 32 = 2 ^ (32 - n) * 2 ^ n := by rw [← Nat.pow_add]; congr 1; omega
  unfold shl32
  rw [Nat.shiftLeft_eq, hsplit, Nat.mul_mod_mul_right, ← Nat.shiftLeft_eq, or_shiftLeft ha]

-- Four words, the lowest first.
def words (w : Nat × Nat × Nat × Nat) : Nat := w.1 + 2 ^ 32 * w.2.1 + 2 ^ 64 * w.2.2.1 + 2 ^ 96 * w.2.2.2

structure Small (w : Nat × Nat × Nat × Nat) : Prop where
  w0 : w.1 < 2 ^ 32
  w1 : w.2.1 < 2 ^ 32
  w2 : w.2.2.1 < 2 ^ 32
  w3 : w.2.2.2 < 2 ^ 32

theorem polyWords_value {h : Limbs} (hh : h.Canonical) : Small (polyWords h) ∧
    words (polyWords h) = h.value % 2 ^ 128 := by
  obtain ⟨h0, h1, h2, h3, h4⟩ := hh
  have hw : polyWords h = (h.l0 + 2 ^ 26 * (h.l1 % 2 ^ 6), h.l1 / 2 ^ 6 + 2 ^ 20 * (h.l2 % 2 ^ 12),
      h.l2 / 2 ^ 12 + 2 ^ 14 * (h.l3 % 2 ^ 18), h.l3 / 2 ^ 18 + 2 ^ 8 * (h.l4 % 2 ^ 24)) := by
    unfold polyWords
    simp only [Nat.shiftRight_eq_div_pow]
    rw [or_shl32 h0 (by omega), or_shl32 (show h.l1 / 2 ^ 6 < 2 ^ 20 by omega) (by omega),
      or_shl32 (show h.l2 / 2 ^ 12 < 2 ^ 14 by omega) (by omega),
        or_shl32 (show h.l3 / 2 ^ 18 < 2 ^ 8 by omega) (by omega)]
  rw [hw]
  refine ⟨⟨?_, ?_, ?_, ?_⟩, ?_⟩
  · dsimp only
    omega
  · dsimp only
    omega
  · dsimp only
    omega
  · dsimp only
    omega
  · unfold words Limbs.value
    dsimp only
    omega

-- A byte of a word is one of the number's.
theorem ofNat_word {i j : Nat} (v : Nat) (hj : j ≤ 24) :
    UInt8.ofNat (v / 2 ^ i % 2 ^ 32 / 2 ^ j) = UInt8.ofNat (v / 2 ^ (i + j)) := by
  refine UInt8.toNat_inj.mp ?_
  have hsplit : (2 : Nat) ^ 32 = 2 ^ j * 2 ^ (32 - j) := by rw [← Nat.pow_add]; congr 1; omega
  rw [UInt8.toNat_ofNat', UInt8.toNat_ofNat', hsplit, Nat.mod_mul_right_div_self, Nat.pow_add,
    ← Nat.div_div_eq_div_mul]
  exact Nat.mod_mod_of_dvd _ (Nat.pow_dvd_pow 2 (by omega))

theorem putLe32_word (v i : Nat) :
    putLe32 (v / 2 ^ i % 2 ^ 32) =
      [UInt8.ofNat (v / 2 ^ i), UInt8.ofNat (v / 2 ^ (i + 8)), UInt8.ofNat (v / 2 ^ (i + 16)),
        UInt8.ofNat (v / 2 ^ (i + 24))] := by
  have h0 := ofNat_word (i := i) (j := 0) v (by omega)
  rw [Nat.pow_zero, Nat.div_one, Nat.add_zero] at h0
  unfold putLe32
  simp only [Nat.shiftRight_eq_div_pow]
  rw [h0, ofNat_word v (by omega), ofNat_word v (by omega), ofNat_word v (by omega)]

theorem putLe_words (v : Nat) :
    putLe 16 v = putLe32 (v / 2 ^ 0 % 2 ^ 32) ++ putLe32 (v / 2 ^ 32 % 2 ^ 32) ++ putLe32 (v / 2 ^ 64 % 2 ^ 32) ++
      putLe32 (v / 2 ^ 96 % 2 ^ 32) := by
  rw [putLe32_word, putLe32_word, putLe32_word, putLe32_word]
  simp only [putLe, Nat.shiftRight_eq_div_pow]
  rfl

theorem putLe64_eq (v : Nat) : putLe64 v = putLe 8 v := by
  have hlow : low32 v = v / 2 ^ 0 % 2 ^ 32 := by rw [Nat.pow_zero, Nat.div_one]; rfl
  have hhigh : low32 (v >>> 32) = v / 2 ^ 32 % 2 ^ 32 := by rw [Nat.shiftRight_eq_div_pow]; rfl
  unfold putLe64
  rw [hlow, hhigh, putLe32_word, putLe32_word]
  simp only [putLe, Nat.shiftRight_eq_div_pow]
  rfl

theorem polyPad_some {w s : Nat × Nat × Nat × Nat} (hw : Small w) (hs : Small s) :
    polyPad w s = some (putLe 16 ((words w + words s) % 2 ^ 128)) := by
  obtain ⟨w0, w1, w2, w3⟩ := w
  obtain ⟨s0, s1, s2, s3⟩ := s
  obtain ⟨hw0, hw1, hw2, hw3⟩ := hw
  obtain ⟨hs0, hs1, hs2, hs3⟩ := hs
  dsimp only at hw0 hw1 hw2 hw3 hs0 hs1 hs2 hs3
  unfold polyPad words
  simp only [Nat.shiftRight_eq_div_pow]
  simp (disch := omega) only [sum64_some, Option.bind_eq_bind, Option.bind_some]
  rw [putLe_words]
  unfold low32
  generalize hW : w0 + 2 ^ 32 * w1 + 2 ^ 64 * w2 + 2 ^ 96 * w3 + (s0 + 2 ^ 32 * s1 + 2 ^ 64 * s2 + 2 ^ 96 * s3) = v
  have hv0 : v % 2 ^ 128 / 2 ^ 0 % 2 ^ 32 = (w0 + s0) % 2 ^ 32 := by omega
  have hv1 : v % 2 ^ 128 / 2 ^ 32 % 2 ^ 32 = (w1 + s1 + (w0 + s0) / 2 ^ 32) % 2 ^ 32 := by omega
  have hv2 : v % 2 ^ 128 / 2 ^ 64 % 2 ^ 32 = (w2 + s2 + (w1 + s1 + (w0 + s0) / 2 ^ 32) / 2 ^ 32) % 2 ^
      32 := by omega
  have hv3 : v % 2 ^ 128 / 2 ^ 96 % 2 ^ 32 =
      (w3 + s3 + (w2 + s2 + (w1 + s1 + (w0 + s0) / 2 ^ 32) / 2 ^ 32) / 2 ^ 32) % 2 ^ 32 := by omega
  rw [hv0, hv1, hv2, hv3]

end Pack

end TetherDesk.Poly
