import TetherDesk.X25519
import TetherDesk.Lib.MontgomeryLadder

namespace TetherDesk.X25519

open TetherDesk.Lib.Radix TetherDesk.Lib.MontgomeryLadder TetherDesk.Secure

-- The element that limbs stand for: after fmul, and after one sum or difference more.
def Is (o : Gf) (u : ZMod curveP) : Prop := Reduced o ∧ (number o : ZMod curveP) = u
def Loose (o : Gf) (u : ZMod curveP) : Prop := Bounded o (2 ^ 18) ∧ (number o : ZMod curveP) = u

section Field

variable {a b : Gf} {u v : ZMod curveP}

theorem Is.loose (h : Is a u) : Loose a u := ⟨h.1.bounded.mono (by norm_num), h.2⟩

theorem Is.of_eq (h : Is a u) (huv : u = v) : Is a v := huv ▸ h

theorem fadd_loose (ha : Is a u) (hb : Is b v) : ∃ o, fadd a b = some o ∧ Loose o (u + v) := by
  obtain ⟨o, hadd, hbound, hnumber⟩ := fadd_some ha.1.bounded hb.1.bounded (by norm_num)
  refine ⟨o, hadd, hbound.mono (by norm_num), ?_⟩
  rw [hnumber, Int.cast_add, ha.2, hb.2]

theorem fsub_loose (ha : Is a u) (hb : Is b v) : ∃ o, fsub a b = some o ∧ Loose o (u - v) := by
  obtain ⟨o, hsub, hbound, hnumber⟩ := fsub_some ha.1.bounded hb.1.bounded (by norm_num)
  refine ⟨o, hsub, hbound.mono (by norm_num), ?_⟩
  rw [hnumber, Int.cast_sub, ha.2, hb.2]

theorem fmul_is (ha : Loose a u) (hb : Loose b v) : ∃ o, fmul a b = some o ∧ Is o (u * v) := by
  obtain ⟨o, hmul, hreduced, q, hnumber⟩ := fmul_some ha.1 hb.1
  have hcast := congrArg (Int.cast : Int → ZMod curveP) hnumber
  rw [Int.cast_mul, Int.cast_add, Int.cast_mul, Int.cast_natCast, ZMod.natCast_self, zero_mul, add_zero, ha.2,
    hb.2] at hcast
  exact ⟨o, hmul, hreduced, hcast.symm⟩

theorem fsq_is (ha : Loose a u) : ∃ o, fsq a = some o ∧ Is o (u ^ 2) := by
  obtain ⟨o, hmul, ho⟩ := fmul_is ha ha
  exact ⟨o, hmul, by rwa [pow_two]⟩

theorem k121665_is : Is k121665 121665 := by
  have hdigits : Digits (2 ^ 16) k121665 := by
    unfold Digits
    decide
  have hnumber : number k121665 = 121665 := by decide +kernel
  refine ⟨reduced_of_digits hdigits, ?_⟩
  rw [hnumber]
  rfl

theorem one_is : Is one 1 := by
  have hdigits : Digits (2 ^ 16) one := by
    unfold Digits
    decide
  have hnumber : number one = 1 := by decide +kernel
  exact ⟨reduced_of_digits hdigits, by rw [hnumber, Int.cast_one]⟩

theorem zero_is : Is (Vector.replicate 16 0) 0 := by
  have hdigits : Digits (2 ^ 16) (Vector.replicate 16 0) := by
    unfold Digits
    decide
  exact ⟨reduced_of_digits hdigits, by rw [number, value_replicate, Int.cast_zero]⟩

end Field

section Steps

-- The four coordinates.
structure Holds (st : X25519.Points) (s : Lib.MontgomeryLadder.Points (ZMod curveP)) : Prop where
  a : Is st.a s.x2
  b : Is st.b s.x3
  c : Is st.c s.z2
  d : Is st.d s.z3

theorem sel25519_is {p q : Gf} {u v : ZMod curveP} (hp : Is p u) (hq : Is q v) (bit : Bool) :
    ∃ p' q', sel25519 p q bit.toNat = (p', q') ∧ Is p' (if bit then v else u) ∧ Is q' (if bit then u else v) := by
  have hp' := hp.1.bounded.mono (show (2 : Int) ^ 17 ≤ 2 ^ 62 by norm_num)
  have hq' := hq.1.bounded.mono (show (2 : Int) ^ 17 ≤ 2 ^ 62 by norm_num)
  cases bit
  · exact ⟨p, q, sel25519_zero hp' hq', hp, hq⟩
  · exact ⟨q, p, sel25519_one hp' hq', hq, hp⟩

theorem ladderStep_some {x : Gf} {x1 : ZMod curveP} {st : X25519.Points}
    {s : Lib.MontgomeryLadder.Points (ZMod curveP)}
    (hx : Is x x1) (h : Holds st s) (bit : Bool) :
    ∃ st', ladderStep x bit.toNat st = some st' ∧ Holds st' ((step 121665 x1 (s.swap bit)).swap bit) := by
  obtain ⟨a, b, hsel, ha, hb⟩ := sel25519_is h.a h.b bit
  obtain ⟨c, d, hsel', hc, hd⟩ := sel25519_is h.c h.d bit
  obtain ⟨e₁, he₁, hse₁⟩ := fadd_loose ha hc
  obtain ⟨a₁, ha₁, hsa₁⟩ := fsub_loose ha hc
  obtain ⟨c₁, hc₁, hsc₁⟩ := fadd_loose hb hd
  obtain ⟨b₁, hb₁, hsb₁⟩ := fsub_loose hb hd
  obtain ⟨d₂, hd₂, hsd₂⟩ := fsq_is hse₁
  obtain ⟨f, hf, hsf⟩ := fsq_is hsa₁
  obtain ⟨a₂, ha₂, hsa₂⟩ := fmul_is hsc₁ hsa₁
  obtain ⟨c₂, hc₂, hsc₂⟩ := fmul_is hsb₁ hse₁
  obtain ⟨e₃, he₃, hse₃⟩ := fadd_loose hsa₂ hsc₂
  obtain ⟨a₃, ha₃, hsa₃⟩ := fsub_loose hsa₂ hsc₂
  obtain ⟨b₃, hb₃, hsb₃⟩ := fsq_is hsa₃
  obtain ⟨c₃, hc₃, hsc₃⟩ := fsub_loose hsd₂ hsf
  obtain ⟨a₄, ha₄, hsa₄⟩ := fmul_is hsc₃ k121665_is.loose
  obtain ⟨a₅, ha₅, hsa₅⟩ := fadd_loose hsa₄ hsd₂
  obtain ⟨c₄, hc₄, hsc₄⟩ := fmul_is hsc₃ hsa₅
  obtain ⟨a₆, ha₆, hsa₆⟩ := fmul_is hsd₂.loose hsf.loose
  obtain ⟨d₃, hd₃, hsd₃⟩ := fmul_is hsb₃.loose hx.loose
  obtain ⟨b₄, hb₄, hsb₄⟩ := fsq_is hse₃
  obtain ⟨a₇, b₅, hsel₂, ha₇, hb₅⟩ := sel25519_is hsa₆ hsb₄ bit
  obtain ⟨c₅, d₄, hsel₃, hc₅, hd₄⟩ := sel25519_is hsc₄ hsd₃ bit
  refine ⟨⟨a₇, b₅, c₅, d₄⟩, ?_, ?_⟩
  · unfold ladderStep
    rw [hsel, hsel']
    dsimp only [Option.bind_eq_bind]
    rw [he₁, Option.bind_some, ha₁, Option.bind_some, hc₁, Option.bind_some, hb₁, Option.bind_some, hd₂,
      Option.bind_some, hf,
      Option.bind_some, ha₂, Option.bind_some, hc₂, Option.bind_some, he₃, Option.bind_some, ha₃,
        Option.bind_some, hb₃,
      Option.bind_some, hc₃, Option.bind_some, ha₄, Option.bind_some, ha₅, Option.bind_some, hc₄,
        Option.bind_some, ha₆,
      Option.bind_some, hd₃, Option.bind_some, hb₄, Option.bind_some, hsel₂, hsel₃]
  · cases bit
    · simp only [Bool.false_eq_true, if_false] at *
      refine ⟨ha₇.of_eq ?_, hb₅.of_eq ?_, hc₅.of_eq ?_, hd₄.of_eq ?_⟩
      all_goals simp only [step, Lib.MontgomeryLadder.Points.swap, Bool.false_eq_true, if_false]
      all_goals ring
    · simp only [if_true] at *
      refine ⟨ha₇.of_eq ?_, hb₅.of_eq ?_, hc₅.of_eq ?_, hd₄.of_eq ?_⟩
      all_goals simp only [step, Lib.MontgomeryLadder.Points.swap, if_true]
      all_goals ring

end Steps

section Loops

-- A bit of the scalar, in its byte.
theorem scalar_bit (z : Bytes) (i : Nat) :
    ((byteAt z (i >>> 3)).toNat >>> (i &&& 7)) &&& 1 = ((le z).testBit i).toNat := by
  have hi : i >>> 3 = i / 8 := Nat.shiftRight_eq_div_pow i 3
  have hr : i &&& 7 = i % 8 := Nat.and_two_pow_sub_one_eq_mod i 3
  have hsplit : (256 : Nat) = 2 ^ (i % 8) * 2 ^ (8 - i % 8) := by
    rw [← Nat.pow_add, show i % 8 + (8 - i % 8) = 8 by omega]
  have hpow : 256 ^ (i / 8) * 2 ^ (i % 8) = 2 ^ i := by
    rw [show (256 : Nat) = 2 ^ 8 from rfl, ← Nat.pow_mul, ← Nat.pow_add]
    congr 1
    omega
  rw [hi, hr, byteAt_le, Nat.shiftRight_eq_div_pow, Nat.and_one_is_mod, hsplit, Nat.mod_mul_right_div_self,
    Nat.mod_mod_of_dvd _ (dvd_pow_self 2 (by omega)), ← hsplit, Nat.div_div_eq_div_mul, hpow,
      Nat.testBit_eq_decide_div_mod_eq]
  by_cases h : le z / 2 ^ i % 2 = 1
  · rw [h]
    rfl
  · rw [decide_eq_false h]
    show _ = 0
    omega

theorem ladderLoop_some {x : Gf} {x1 : ZMod curveP} (hx : Is x x1) (z : Bytes) (n : Nat) {st : X25519.Points}
    {s : Lib.MontgomeryLadder.Points (ZMod curveP)} (h : Holds st s) :
    ∃ st', ladderLoop x z n st = some st' ∧ Holds st' (runBack 121665 x1 (le z).testBit n s) := by
  induction n generalizing st s with
  | zero => exact ⟨st, rfl, h⟩
  | succ n ih =>
      obtain ⟨st₁, hstep, hst₁⟩ := ladderStep_some hx h ((le z).testBit n)
      obtain ⟨st', hloop, hst'⟩ := ih hst₁
      refine ⟨st', ?_, hst'⟩
      rw [ladderLoop, scalar_bit, hstep, Option.bind_eq_bind, Option.bind_some, hloop]

-- The exponent after the remaining steps of the inversion.
def exponent : Nat → Nat → Nat
  | 0, e => e
  | a + 1, e => exponent a (if a ≠ 2 ∧ a ≠ 4 then 2 * e + 1 else 2 * e)

theorem invLoop_some {base : Gf} {u : ZMod curveP} (hbase : Is base u) (n e : Nat) {c : Gf} (hc : Is c (u ^ e)) :
    ∃ c', invLoop base n c = some c' ∧ Is c' (u ^ exponent n e) := by
  induction n generalizing e c with
  | zero => exact ⟨c, rfl, hc⟩
  | succ a ih =>
      obtain ⟨c₁, hsq, hc₁⟩ := fsq_is hc.loose
      rw [← pow_mul, mul_comm e] at hc₁
      rw [invLoop, hsq, Option.bind_eq_bind, Option.bind_some, exponent]
      by_cases ha : a ≠ 2 ∧ a ≠ 4
      · obtain ⟨c₂, hmul, hc₂⟩ := fmul_is hc₁.loose hbase.loose
        rw [← pow_succ] at hc₂
        rw [if_pos ha, if_pos ha, hmul, Option.bind_some]
        exact ih _ hc₂
      · rw [if_neg ha, if_neg ha, Option.bind_some]
        exact ih _ hc₁

theorem inv25519_some {c : Gf} {u : ZMod curveP} (hc : Is c u) : ∃ c', inv25519 c = some c' ∧
    Is c' (u ^ (curveP - 2)) := by
  have hexponent : exponent 254 1 = curveP - 2 := by decide +kernel
  rw [← hexponent]
  exact invLoop_some hc 254 1 (hc.of_eq (pow_one u).symm)

end Loops

-- RFC 7748: the scalar and the coordinate as the bytes give them, and what the ladder computes modulo p.
def scalar (n : Vector UInt8 32) : Nat := le n.toList % 2 ^ 254 / 8 * 8 + 2 ^ 254
def coordinate (p : Vector UInt8 32) : Nat := le p.toList % 2 ^ 255

def x25519 (n p : Vector UInt8 32) : ZMod curveP :=
  let (x, z) := ladder 121665 (coordinate p : ZMod curveP) (scalar n).testBit 255
  x * z ^ (curveP - 2)

instance : NeZero curveP := ⟨by decide⟩

theorem le_clampScalar (n : Vector UInt8 32) : le (clampScalar n).toList = scalar n := by
  have hbits : ∀ k : Fin 256, (k.val &&& 127) ||| 64 = k.val % 64 + 64 ∧
      k.val &&& 248 = k.val / 8 * 8 := by decide +kernel
  have h31 : ((n[31] &&& 127) ||| 64).toNat = n[31].toNat % 64 + 64 := by
    rw [UInt8.toNat_or, UInt8.toNat_and]
    exact (hbits ⟨n[31].toNat, n[31].toNat_lt⟩).1
  have h0 : (n[0] &&& 248).toNat = n[0].toNat / 8 * 8 := by
    rw [UInt8.toNat_and]
    exact (hbits ⟨n[0].toNat, n[0].toNat_lt⟩).2
  have hlen : n.toList.length = 32 := by simp
  have hlt := le_lt n.toList
  rw [hlen] at hlt
  have hget : ∀ (i : Nat) (hi : i < 32), n.toList[i] = n[i] := fun i hi => by simp
  have hz : ∃ z : Bytes, (clampScalar n).toList = z.set 0 (n[0] &&& 248) ∧
      z = n.toList.set 31 ((n[31] &&& 127) ||| 64) ∧
      ∃ h : 0 < z.length, z[0] = n[0] := by
    refine ⟨_, ?_, rfl, by rw [List.length_set]; omega, ?_⟩
    · unfold clampScalar
      dsimp only
      rw [Vector.getElem_set_ne _ _ (by omega), Vector.toList_set, Vector.toList_set]
    · rw [List.getElem_set_ne (by omega), hget 0 (by omega)]
  obtain ⟨z, hz, hz31, hpos, hz0⟩ := hz
  have hset := le_set n.toList (i := 31) (by omega) ((n[31] &&& 127) ||| 64)
  have hset' := le_set z hpos (n[0] &&& 248)
  have hb31 : n[31].toNat = le n.toList / 256 ^ 31 % 256 := by
    rw [← byteAt_le]
    simp [byteAt]
  have hb0 : n[0].toNat = le n.toList / 256 ^ 0 % 256 := by
    rw [← byteAt_le]
    simp [byteAt]
  rw [hget 31 (by omega), h31, ← hz31] at hset
  rw [hz0, h0] at hset'
  rw [hz, scalar]
  omega

theorem rdX25519_exact (n p : Vector UInt8 32) :
    (x25519 n p).val < curveP ∧
      rdX25519 n p = some (putLe 32 (x25519 n p).val, if x25519 n p = 0 then -1 else 0) := by
  obtain ⟨hdigits, hnumber⟩ := unpack25519_number p
  have hx : Is (unpack25519 p) (coordinate p : ZMod curveP) := by
    refine ⟨reduced_of_digits hdigits, ?_⟩
    rw [hnumber, Int.cast_natCast]
    rfl
  have hfirst : Holds ⟨one, unpack25519 p, Vector.replicate 16 0, one⟩ ⟨1, 0, (coordinate p : ZMod curveP), 1⟩ :=
    ⟨one_is, hx, zero_is, one_is⟩
  obtain ⟨s, hloop, hs⟩ := ladderLoop_some hx (clampScalar n).toList 255 hfirst
  obtain ⟨c, hinv, hc⟩ := inv25519_some hs.c
  obtain ⟨a, hmul, ha⟩ := fmul_is hs.a.loose hc.loose
  have hvalue : (number a : ZMod curveP) = x25519 n p := by
    rw [ha.2, le_clampScalar, x25519, ladder_back]
  have hval : (number a % curveP).toNat = (x25519 n p).val := by
    have := ZMod.val_intCast (n := curveP) (number a)
    rw [hvalue] at this
    omega
  have hlt := ZMod.val_lt (x25519 n p)
  refine ⟨hlt, ?_⟩
  have hzero : (putLe 32 (x25519 n p).val).foldl (· ||| ·) 0 = 0 ↔ x25519 n p = 0 := by
    have hp : curveP < 256 ^ 32 := by decide
    rw [foldl_or, le_putLe, Nat.mod_eq_of_lt (hlt.trans hp), ZMod.val_eq_zero]
    exact and_iff_right rfl
  unfold rdX25519
  dsimp only
  rw [hloop]
  dsimp only [Option.bind_eq_bind]
  rw [Option.bind_some, hinv, Option.bind_some, hmul, Option.bind_some, pack25519_some ha.1, hval, Option.bind_some]
  by_cases hu : x25519 n p = 0
  · rw [if_pos hu, if_neg (not_not.mpr (hzero.mpr hu))]
  · rw [if_neg hu, if_pos (mt hzero.mp hu)]

end TetherDesk.X25519
