import TetherDesk.Bytes
import TetherDesk.Lib.Radix
import TetherDesk.Secure.LittleEndian
import TetherDesk.Secure.Reference
import Mathlib.Data.UInt
import Mathlib.Data.ZMod.Basic

namespace TetherDesk.X25519

-- int64_t gf[16]: a number in limbs of 16 bits, which may be negative or larger.
abbrev Gf := Vector Int 16

-- Sums, differences and products of int64_t; none is an overflow.
def fits64 (x : Int) : Option Int := if -2 ^ 63 ≤ x ∧ x < 2 ^ 63 then some x else none
def add64 (a b : Int) : Option Int := fits64 (a + b)
def sub64 (a b : Int) : Option Int := fits64 (a - b)
def mul64 (a b : Int) : Option Int := fits64 (a * b)

def k121665 : Gf := #v[0xDB41, 1, 0, 0, 0, 0, 0, 0, 0, 0, 0, 0, 0, 0, 0, 0]

-- The index (i + 1) * (i < 15).
def next (i : Fin 16) : Fin 16 := if h : i.val < 15 then ⟨i.val + 1, by omega⟩ else 0

def carStep (o : Gf) (i : Fin 16) : Option Gf := do
  let o := o.set i (← add64 o[i] (2 ^ 16))
  let c := o[i] >>> (16 : Nat)
  let around ← mul64 (← mul64 37 (← sub64 c 1)) (if i.val = 15 then 1 else 0)
  let o := o.set (next i) (← add64 o[next i] (← add64 (← sub64 c 1) around))
  some (o.set i (← sub64 o[i] (← mul64 c 65536)))

def car25519 (o : Gf) : Option Gf := (List.finRange 16).foldlM carStep o

def word (x : Int) : BitVec 64 := BitVec.ofInt 64 x

-- t = c & (p[i] ^ q[i]) in every limb, c = ~(b - 1).
def sel25519 (p q : Gf) (b : Int) : Gf × Gf :=
  let c := ~~~(word b - 1)
  let t (i : Fin 16) := c &&& (word p[i] ^^^ word q[i])
  (Vector.ofFn fun i => (word p[i] ^^^ t i).toInt, Vector.ofFn fun i => (word q[i] ^^^ t i).toInt)

-- (x >> 16) & 1 and x & 0xffff, x in two's complement.
def borrow (x : Int) : Int := (x >>> (16 : Nat)) % 2
def low16 (x : Int) : Int := x % 2 ^ 16

def packStep (t m : Gf) (i : Fin 14) : Option Gf := do
  let j : Fin 16 := ⟨i.val, by omega⟩
  let k : Fin 16 := ⟨i.val + 1, by omega⟩
  let m := m.set k (← sub64 (← sub64 t[k] 0xffff) (borrow m[j]))
  some (m.set j (low16 m[j]))

-- One of the two passes over t; every limb of m is written before it is read.
def packPass (t : Gf) : Option Gf := do
  let m : Gf := (Vector.replicate 16 0).set 0 (← sub64 t[0] 0xffed)
  let m ← (List.finRange 14).foldlM (packStep t) m
  let m := m.set 15 (← sub64 (← sub64 t[15] 0x7fff) (borrow m[14]))
  let b := borrow m[15]
  let m := m.set 14 (low16 m[14])
  some (sel25519 t m (1 - b)).1

-- The conversion to uint8_t.
def byte (x : Int) : UInt8 := UInt8.ofNat (x % 2 ^ 8).toNat

def pack25519 (n : Gf) : Option Bytes := do
  let t ← car25519 n
  let t ← car25519 t
  let t ← car25519 t
  let t ← packPass t
  let t ← packPass t
  some (t.toList.flatMap fun x => [byte x, byte (x >>> (8 : Nat))])

def unpack25519 (n : Vector UInt8 32) : Gf :=
  let o : Gf := Vector.ofFn fun i => n[2 * i.val].toNat + 2 ^ 8 * n[2 * i.val + 1].toNat
  o.set 15 (o[15] % 2 ^ 15)

-- A loop that sets one limb after the other.
def limbs (f : Fin 16 → Option Int) : Option Gf :=
  (List.finRange 16).foldlM (fun o i => do some (o.set i (← f i))) (Vector.replicate 16 0)

def fadd (a b : Gf) : Option Gf := limbs fun i => add64 a[i] b[i]
def fsub (a b : Gf) : Option Gf := limbs fun i => sub64 a[i] b[i]

def fmulStep (a b : Gf) (i : Fin 16) (t : Vector Int 31) (j : Fin 16) : Option (Vector Int 31) := do
  let k : Fin 31 := ⟨i.val + j.val, by omega⟩
  some (t.set k (← add64 t[k] (← mul64 a[i] b[j])))

def fmulRow (a b : Gf) (t : Vector Int 31) (i : Fin 16) : Option (Vector Int 31) :=
  (List.finRange 16).foldlM (fmulStep a b i) t

def low (i : Fin 15) : Fin 31 := ⟨i.val, by omega⟩
def high (i : Fin 15) : Fin 31 := ⟨i.val + 16, by omega⟩

def foldStep (t : Vector Int 31) (i : Fin 15) : Option (Vector Int 31) := do
  some (t.set (low i) (← add64 t[low i] (← mul64 38 t[high i])))

def fmul (a b : Gf) : Option Gf := do
  let t ← (List.finRange 16).foldlM (fmulRow a b) (Vector.replicate 31 0)
  let t ← (List.finRange 15).foldlM foldStep t
  let o : Gf := Vector.ofFn fun i => t[i.val]
  let o ← car25519 o
  car25519 o

def fsq (a : Gf) : Option Gf := fmul a a

-- for (a = count - 1; a >= 0; a--)
def invLoop (base : Gf) : Nat → Gf → Option Gf
  | 0, c => some c
  | a + 1, c => do
      let c ← fsq c
      let c ← if a ≠ 2 ∧ a ≠ 4 then fmul c base else some c
      invLoop base a c

def inv25519 (base : Gf) : Option Gf := invLoop base 254 base

structure Points where
  a : Gf
  b : Gf
  c : Gf
  d : Gf

def ladderStep (x : Gf) (r : Nat) (s : Points) : Option Points := do
  let (a, b) := sel25519 s.a s.b r
  let (c, d) := sel25519 s.c s.d r
  let e ← fadd a c
  let a ← fsub a c
  let c ← fadd b d
  let b ← fsub b d
  let d ← fsq e
  let f ← fsq a
  let a ← fmul c a
  let c ← fmul b e
  let e ← fadd a c
  let a ← fsub a c
  let b ← fsq a
  let c ← fsub d f
  let a ← fmul c k121665
  let a ← fadd a d
  let c ← fmul c a
  let a ← fmul d f
  let d ← fmul b x
  let b ← fsq e
  let (a, b) := sel25519 a b r
  let (c, d) := sel25519 c d r
  some ⟨a, b, c, d⟩

-- for (i = count - 1; i >= 0; --i)
def ladderLoop (x : Gf) (z : Bytes) : Nat → Points → Option Points
  | 0, s => some s
  | i + 1, s => do
      let r := ((byteAt z (i >>> 3)).toNat >>> (i &&& 7)) &&& 1
      let s ← ladderStep x r s
      ladderLoop x z i s

-- z, the scalar with the bits set and cleared.
def clampScalar (n : Vector UInt8 32) : Vector UInt8 32 :=
  let z := n.set 31 ((n[31] &&& 127) ||| 64)
  z.set 0 (z[0] &&& 248)

def one : Gf := (Vector.replicate 16 0).set 0 1

-- The bytes written to q, and what is returned.
def rdX25519 (n p : Vector UInt8 32) : Option (Bytes × Int) := do
  let z := clampScalar n
  let x := unpack25519 p
  let s ← ladderLoop x z.toList 255 ⟨one, x, Vector.replicate 16 0, one⟩
  let c ← inv25519 s.c
  let a ← fmul s.a c
  let q ← pack25519 a
  let acc := q.foldl (· ||| ·) 0
  some (q, if acc ≠ 0 then 0 else -1)

open TetherDesk.Lib.Radix TetherDesk.Secure

-- The number that limbs stand for.
abbrev number (o : Gf) : Int := value (2 ^ 16) o

section Arithmetic

variable {a b : Int}

theorem add64_some (h : -2 ^ 63 ≤ a + b ∧ a + b < 2 ^ 63) : add64 a b = some (a + b) := if_pos h

theorem sub64_some (h : -2 ^ 63 ≤ a - b ∧ a - b < 2 ^ 63) : sub64 a b = some (a - b) := if_pos h

theorem mul64_some (h : -2 ^ 63 ≤ a * b ∧ a * b < 2 ^ 63) : mul64 a b = some (a * b) := if_pos h

end Arithmetic

section Carry

theorem next_ne (i : Fin 16) : next i ≠ i := by
  unfold next
  split
  · intro h
    have := congrArg Fin.val h
    simp at this
  · intro h
    subst h
    simp at *

-- A step leaves a digit and hands what is above it on, from the last limb to the first one 38 times.
theorem carStep_some {o : Gf} {i : Fin 16} (hi : -2 ^ 56 ≤ o[i] ∧ o[i] ≤ 2 ^ 56)
    (hn : -2 ^ 56 ≤ o[next i] ∧ o[next i] ≤ 2 ^ 56) :
    carStep o i =
      some ((raise o (next i) ((if i.val = 15 then 38 else 1) * (o[i] / 2 ^ 16))).set i (o[i] % 2 ^ 16)) := by
  have hne := next_ne i
  have hshift : (o[i] + 2 ^ 16) >>> (16 : Nat) = o[i] / 2 ^ 16 + 1 := by
    rw [Int.shiftRight_eq_div_pow]
    omega
  have hset : ∀ x y z : Int, ((o.set i x).set (next i) y).set i z = (o.set (next i) y).set i z := by
    intro x y z
    refine ext_getElem fun j => ?_
    simp only [getElem_set]
    split
    · rfl
    · rfl
  unfold carStep raise
  simp (disch := omega) only [add64_some, sub64_some, Option.bind_eq_bind, Option.bind_some, getElem_set,
    ite_true, hshift,
    if_neg hne, if_neg (Ne.symm hne)]
  by_cases h15 : i.val = 15
  · simp (disch := omega) only [if_pos h15, add64_some, sub64_some, mul64_some, Option.bind_some, hset]
    congr 3
    · omega
    · omega
  · simp (disch := omega) only [if_neg h15, add64_some, sub64_some, mul64_some, Option.bind_some, hset]
    congr 3
    · omega
    · omega

-- The limb that has taken the carry of i steps, and how many times.
def slot (i : Nat) : Fin 16 := ⟨i % 16, by omega⟩
def around (i : Nat) : Int := if i = 16 then 38 else 1

theorem slot_self (i : Fin 16) : slot i = i := Fin.ext (Nat.mod_eq_of_lt i.isLt)

theorem slot_succ (i : Fin 16) : slot (i + 1) = next i := by
  unfold next slot
  split
  · exact Fin.ext (by simp only; omega)
  · exact Fin.ext (by show _ = 0; simp only; omega)

theorem around_self (i : Fin 16) : around i = 1 := if_neg (by omega)

theorem around_succ (i : Fin 16) : around (i + 1) = if i.val = 15 then 38 else 1 := by
  unfold around
  split
  · rw [if_pos (by omega)]
  · rw [if_neg (by omega)]

-- After i steps: digits below i, the limbs of the start from there on, and a carry within a bound.
def Carried (start : Gf) (most : Nat → Int) (i : Nat) (o : Gf) : Prop :=
  ∃ (e : Gf) (k : Int), o = raise e (slot i) (around i * k) ∧
    (∀ j : Fin 16, j.val < i → 0 ≤ e[j] ∧ e[j] < 2 ^ 16) ∧ (∀ j : Fin 16, i ≤ j.val → e[j] = start[j]) ∧
    number start = number e + k * (2 ^ 16) ^ i ∧ -most i ≤ k ∧ k ≤ most i

theorem carStep_carried {start : Gf} {bound most : Nat → Int} (hstart : ∀ j : Fin 16, -bound j ≤ start[j] ∧
    start[j] ≤ bound j)
    (hmost : ∀ i, bound i + most i ≤ 2 ^ 16 * most (i + 1)) (hbound : ∀ i, 0 ≤ most i ∧ bound i + most i ≤ 2 ^ 55)
    (i : Fin 16) (o : Gf) (h : Carried start most i o) : ∃ o', carStep o i = some o' ∧
      Carried start most (i + 1) o' := by
  obtain ⟨e, k, ho, hdigits, hrest, hnumber, hk⟩ := h
  have hcarry := hmost i
  have hfits := hbound i
  have hei := hrest i (Nat.le_refl _)
  have hsi := hstart i
  have hne := next_ne i
  rw [slot_self, around_self, one_mul] at ho
  have hoi : o[i] = e[i] + k := by rw [ho, getElem_raise, if_pos rfl]
  have hon : o[next i] = e[next i] := by rw [ho, getElem_raise, if_neg (Ne.symm hne), add_zero]
  have hen : -2 ^ 56 ≤ e[next i] ∧ e[next i] ≤ 2 ^ 56 := by
    by_cases hlast : (next i).val < i.val
    · have := hdigits (next i) hlast
      omega
    · have hsn := hstart (next i)
      rw [hrest (next i) (by omega)]
      have := hbound (next i)
      omega
  refine ⟨_, carStep_some (by omega) (by omega), e.set i (o[i] % 2 ^ 16), o[i] / 2 ^ 16, ?_, ?_, ?_, ?_, ?_⟩
  · rw [slot_succ, around_succ]
    refine ext_getElem fun j => ?_
    rw [getElem_set, getElem_raise, getElem_raise, getElem_set]
    by_cases hj : i = j
    · subst hj
      rw [if_pos rfl, if_pos rfl, if_neg hne, add_zero]
    · rw [if_neg hj, if_neg hj, ho, getElem_raise, if_neg hj, add_zero]
  · intro j hj
    rw [getElem_set]
    split
    · omega
    · next h => exact hdigits j (by have := Fin.val_ne_of_ne h; omega)
  · intro j hj
    rw [getElem_set, if_neg (Fin.ne_of_val_ne (by omega))]
    exact hrest j (by omega)
  · rw [hnumber]
    exact (value_digit e i hoi).symm
  · constructor
    · omega
    · omega

-- All 16 steps: digits, and the last carry that the first limb has taken 38 times.
theorem car25519_some {o : Gf} (bound most : Nat → Int) (ho : ∀ j : Fin 16, -bound j ≤ o[j] ∧ o[j] ≤ bound j)
    (hzero : most 0 = 0) (hmost : ∀ i, bound i + most i ≤ 2 ^ 16 * most (i + 1))
    (hbound : ∀ i, 0 ≤ most i ∧ bound i + most i ≤ 2 ^ 55) :
    ∃ e k, car25519 o = some (raise e 0 (38 * k)) ∧ Digits (2 ^ 16) e ∧ number o = number e + k * 2 ^ 256 ∧
      -most 16 ≤ k ∧ k ≤ most 16 := by
  have hfirst : Carried o most 0 o := by
    refine ⟨o, 0, ?_, fun j hj => absurd hj (Nat.not_lt_zero _), fun j _ => rfl, by ring, by omega⟩
    refine ext_getElem fun j => ?_
    rw [getElem_raise, mul_zero, ite_self, add_zero]
  obtain ⟨o', hcar, e, k, ho', hdigits, -, hnumber, hk⟩ :=
    finRange_foldlM (Carried o most) hfirst (carStep_carried ho hmost hbound)
  refine ⟨e, k, ?_, fun j => hdigits j j.isLt, ?_, hk⟩
  · unfold car25519
    rw [hcar, ho']
    rfl
  · rw [hnumber, ← pow_mul]

end Carry

-- What fmul leaves: digits, but for a last carry that the first limb has taken.
def Reduced (o : Gf) : Prop := ∃ e k, o = raise e 0 (38 * k) ∧ Digits (2 ^ 16) e ∧ -2 ≤ k ∧ k ≤ 2

theorem Reduced.bounded {o : Gf} (h : Reduced o) : Bounded o (2 ^ 17) := by
  obtain ⟨e, k, rfl, hdigits, hk⟩ := h
  exact (hdigits.bounded.raise 0 (y := 76) (by omega)).mono (by norm_num)

theorem reduced_of_digits {o : Gf} (h : Digits (2 ^ 16) o) : Reduced o := by
  refine ⟨o, 0, ext_getElem fun j => ?_, h, by omega⟩
  rw [getElem_raise, mul_zero, ite_self, add_zero]

section Sums

theorem limbs_some {f : Fin 16 → Option Int} {g : Fin 16 → Int} (h : ∀ i, f i = some (g i)) :
    limbs f = some (Vector.ofFn g) := by
  have hset : ∀ (i : Fin 16) (o : Gf), (∀ j : Fin 16, j.val < i.val → o[j] = g j) →
      ∃ o', (do some (o.set i (← f i)) : Option Gf) = some o' ∧ ∀ j : Fin 16, j.val < i.val + 1 → o'[j] = g j := by
    intro i o ho
    refine ⟨o.set i (g i), by rw [h, Option.bind_eq_bind, Option.bind_some], fun j hj => ?_⟩
    rw [getElem_set]
    split
    · next hij => rw [hij]
    · next hij => exact ho j (by have := Fin.val_ne_of_ne hij; omega)
  obtain ⟨o, hfold, ho⟩ := finRange_foldlM (fun (i : Nat) (o : Gf) => ∀ j : Fin 16, j.val < i → o[j] = g j)
    (s := Vector.replicate 16 0) (fun j hj => absurd hj (Nat.not_lt_zero _)) hset
  unfold limbs
  rw [hfold]
  congr 1
  refine ext_getElem fun j => ?_
  rw [ho j j.isLt, getElem_ofFn]

variable {a b : Gf} {A B : Int}

theorem fadd_some (ha : Bounded a A) (hb : Bounded b B) (h : A + B < 2 ^ 63) :
    ∃ o, fadd a b = some o ∧ Bounded o (A + B) ∧ number o = number a + number b := by
  refine ⟨_, limbs_some fun i => add64_some ?_, ?_, ?_⟩
  · have := ha i
    have := hb i
    omega
  · intro i
    have := ha i
    have := hb i
    rw [getElem_ofFn]
    omega
  · unfold number
    rw [value_ofFn, value, value, ← Finset.sum_add_distrib]
    exact Finset.sum_congr rfl fun i _ => add_mul _ _ _

theorem fsub_some (ha : Bounded a A) (hb : Bounded b B) (h : A + B < 2 ^ 63) :
    ∃ o, fsub a b = some o ∧ Bounded o (A + B) ∧ number o = number a - number b := by
  refine ⟨_, limbs_some fun i => sub64_some ?_, ?_, ?_⟩
  · have := ha i
    have := hb i
    omega
  · intro i
    have := ha i
    have := hb i
    rw [getElem_ofFn]
    omega
  · unfold number
    rw [value_ofFn, value, value, ← Finset.sum_sub_distrib]
    exact Finset.sum_congr rfl fun i _ => sub_mul _ _ _

end Sums

section Product

variable {a b : Gf}

theorem mul_bounds {x y A B : Int} (hx : -A ≤ x ∧ x ≤ A) (hy : -B ≤ y ∧ y ≤ B) : -(A * B) ≤ x * y ∧
    x * y ≤ A * B := by
  have hx' := abs_le.mpr hx
  have hy' := abs_le.mpr hy
  rw [← abs_le, abs_mul]
  exact mul_le_mul hx' hy' (abs_nonneg y) ((abs_nonneg x).trans hx')

theorem fmulStep_some (ha : Bounded a (2 ^ 18)) (hb : Bounded b (2 ^ 18)) (i : Fin 16) (t : Vector Int 31)
    (j : Fin 16)
    (bound : Int) (ht : Bounded t bound) (hbound : bound + 2 ^ 36 ≤ 2 ^ 60) :
    ∃ t', fmulStep a b i t j = some t' ∧ Bounded t' (bound + 2 ^ 36) ∧
      value (2 ^ 16) t' = value (2 ^ 16) t + a[i] * b[j] * (2 ^ 16) ^ (i.val + j.val) := by
  have hab := mul_bounds (ha i) (hb j)
  have htk := ht ⟨i.val + j.val, by omega⟩
  refine ⟨raise t ⟨i.val + j.val, by omega⟩ (a[i] * b[j]), ?_, ht.raise _ (by omega), value_raise _ _ _⟩
  unfold fmulStep raise
  simp (disch := omega) only [mul64_some, add64_some, Option.bind_eq_bind, Option.bind_some]

theorem fmulRow_some (ha : Bounded a (2 ^ 18)) (hb : Bounded b (2 ^ 18)) (t : Vector Int 31) (i : Fin 16)
    (bound : Int)
    (ht : Bounded t bound) (hbound : bound + 2 ^ 40 ≤ 2 ^ 60) :
    ∃ t', fmulRow a b t i = some t' ∧ Bounded t' (bound + 2 ^ 40) ∧
      value (2 ^ 16) t' = value (2 ^ 16) t + a[i] * (2 ^ 16) ^ i.val * number b := by
  obtain ⟨t', hfold, ht', hvalue⟩ := foldlM_value (fun j : Fin 16 => a[i] * b[j] * (2 ^ 16) ^ (i.val + j.val))
    (fmulStep_some ha hb i) (by omega) (List.finRange 16) ht (by rw [List.length_finRange]; omega)
  refine ⟨t', hfold, ?_, ?_⟩
  · rw [List.length_finRange] at ht'
    exact ht'
  · rw [hvalue, ← Fin.sum_univ_def]
    congr 1
    unfold number value
    rw [Finset.mul_sum]
    refine Finset.sum_congr rfl fun j _ => ?_
    rw [pow_add]
    ring

-- All products, and no limb of the sum above 256 of them.
theorem fmulRows_some (ha : Bounded a (2 ^ 18)) (hb : Bounded b (2 ^ 18)) :
    ∃ t, (List.finRange 16).foldlM (fmulRow a b) (Vector.replicate 31 0) = some t ∧ Bounded t (2 ^ 44) ∧
      value (2 ^ 16) t = number a * number b := by
  have hzero : Bounded (Vector.replicate 31 0) 0 := by
    intro i
    rw [Fin.getElem_fin, Vector.getElem_replicate]
    omega
  obtain ⟨t, hfold, ht, hvalue⟩ := foldlM_value (fun i : Fin 16 => a[i] * (2 ^ 16) ^ i.val * number b)
    (fmulRow_some ha hb) (by omega) (List.finRange 16) hzero (by rw [List.length_finRange]; omega)
  refine ⟨t, hfold, ?_, ?_⟩
  · rw [List.length_finRange] at ht
    exact ht
  · rw [hvalue, value_replicate, zero_add, ← Fin.sum_univ_def, ← Finset.sum_mul]
    rfl

-- What the upper limbs of a product are worth, from 2 ^ 256 on.
def upper (t : Vector Int 31) (i : Nat) : Int := if h : i < 15 then t[high ⟨i, h⟩] * (2 ^ 16) ^ i else 0

theorem upper_eq (t : Vector Int 31) (i : Fin 15) : upper t i = t[high i] * (2 ^ 16) ^ i.val := dif_pos i.isLt

-- After i steps: the upper limbs are as before, and the first i of them were added 38 times.
structure Folded (t : Vector Int 31) (i : Nat) (t' : Vector Int 31) : Prop where
  rest : ∀ k : Fin 31, i ≤ k.val → t'[k] = t[k]
  bounded : Bounded t' (2 ^ 50)
  value : value (2 ^ 16) t' = value (2 ^ 16) t + 38 * ∑ j ∈ Finset.range i, upper t j

theorem foldStep_some {t : Vector Int 31} (ht : Bounded t (2 ^ 44)) (i : Fin 15) (t' : Vector Int 31)
    (h : Folded t i t') :
    ∃ t'', foldStep t' i = some t'' ∧ Folded t (i + 1) t'' := by
  have hlow := h.rest (low i) (Nat.le_refl _)
  have hhigh := h.rest (high i) (Nat.le_add_right _ _)
  have htlow := ht (low i)
  have hthigh := ht (high i)
  rw [← hlow] at htlow
  rw [← hhigh] at hthigh
  refine ⟨raise t' (low i) (38 * t'[high i]), ?_, fun k hk => ?_, fun k => ?_, ?_⟩
  · unfold foldStep raise
    simp (disch := omega) only [mul64_some, add64_some, Option.bind_eq_bind, Option.bind_some]
  · have hne : low i ≠ k := Fin.ne_of_val_ne (show i.val ≠ k.val by omega)
    rw [getElem_raise, if_neg hne, add_zero, h.rest k (by omega)]
  · have hk := h.bounded k
    rw [getElem_raise]
    split
    · next hlk =>
        rw [← hlk]
        omega
    · omega
  · rw [value_raise, h.value, Finset.sum_range_succ, upper_eq, ← hhigh]
    show _ + 38 * t'[high i] * (2 ^ 16) ^ i.val = _
    ring

-- The upper limbs, 38 times, added to the lower ones: 2 ^ 256 is 38 modulo p.
theorem foldSteps_some {t : Vector Int 31} (ht : Bounded t (2 ^ 44)) :
    ∃ t', (List.finRange 15).foldlM foldStep t = some t' ∧
      Bounded (Vector.ofFn fun i : Fin 16 => t'[i.val]) (2 ^ 50) ∧
      ∃ q, value (2 ^ 16) t = number (Vector.ofFn fun i : Fin 16 => t'[i.val]) + curveP * q := by
  have hfirst : Folded t 0 t := ⟨fun k _ => rfl, ht.mono (by norm_num), by simp⟩
  obtain ⟨t', hfold, ht'⟩ := finRange_foldlM (Folded t) hfirst fun i t' h => foldStep_some ht i t' h
  refine ⟨t', hfold, fun i => ?_, 2 * ∑ i ∈ Finset.range 15, upper t i, ?_⟩
  · rw [getElem_ofFn]
    exact ht'.bounded ⟨i.val, by omega⟩
  · have hupper : ∑ i : Fin 15, t'[Fin.natAdd 16 i] * (2 ^ 16) ^ i.val = ∑ i ∈ Finset.range 15, upper t i := by
      rw [Finset.sum_range]
      refine Finset.sum_congr rfl fun i _ => ?_
      have hhigh : t'[Fin.natAdd 16 i] = t'[high i] :=
        congrArg (fun k : Fin 31 => t'[k]) (Fin.ext (Nat.add_comm 16 i) : Fin.natAdd 16 i = high i)
      rw [hhigh, ht'.rest (high i) (by show 15 ≤ i.val + 16; omega), upper_eq]
    have hlower : ∑ i : Fin 16, t'[Fin.castAdd 15 i] * (2 ^ 16) ^ i.val =
        number (Vector.ofFn fun i : Fin 16 => t'[i.val]) :=
      (value_ofFn _).symm
    have hsplit := value_split (b := 2 ^ 16) (m := 16) (n := 15) t'
    have hvalue := ht'.value
    rw [hupper, hlower] at hsplit
    have hp : (curveP : Int) = 2 ^ 255 - 19 := by norm_num [curveP]
    rw [hp]
    linear_combination hsplit - hvalue

-- The last carry counts 2 ^ 256 for 38.
theorem number_around {o e : Gf} {k : Int} (h : number o = number e + k * 2 ^ 256) :
    number o = number (raise e 0 (38 * k)) + curveP * (2 * k) := by
  have hp : (curveP : Int) = 2 ^ 255 - 19 := by norm_num [curveP]
  have hraise : number (raise e 0 (38 * k)) = number e + 38 * k * (2 ^ 16) ^ 0 := value_raise e 0 (38 * k)
  rw [h, hraise, hp]
  ring

-- What the carries out of limbs of 50 bits are at most, and then, after the first limb took the last of them.
def firstMost : Nat → Int
  | 0 => 0
  | _ + 1 => 2 ^ 35

def secondBound : Nat → Int
  | 0 => 2 ^ 41
  | _ + 1 => 2 ^ 16

def secondMost : Nat → Int
  | 0 => 0
  | 1 => 2 ^ 26
  | 2 => 2 ^ 11
  | _ + 3 => 2

theorem car25519_twice {o : Gf} (ho : Bounded o (2 ^ 50)) :
    ∃ o' o'', car25519 o = some o' ∧ car25519 o' = some o'' ∧ Reduced o'' ∧
        ∃ q, number o = number o'' + curveP * q := by
  obtain ⟨e, k, hcar, hdigits, hnumber, hk⟩ := car25519_some (fun _ => 2 ^ 50) firstMost ho rfl
    (by intro i; rcases i with _ | i <;> simp only [firstMost] <;> omega)
    (by intro i; rcases i with _ | i <;> simp only [firstMost] <;> omega)
  have hk35 : -2 ^ 35 ≤ k ∧ k ≤ 2 ^ 35 := hk
  have hbound : ∀ j : Fin 16, -secondBound j ≤ (raise e 0 (38 * k))[j] ∧ (raise e 0 (38 * k))[j] ≤
      secondBound j := by
    intro j
    have hj := hdigits j
    rw [getElem_raise]
    by_cases hzero : 0 = j
    · subst hzero
      rw [if_pos rfl]
      simp only [secondBound]
      omega
    · rw [if_neg hzero, add_zero]
      rcases j with ⟨_ | j, hlt⟩
      · exact absurd rfl hzero
      · simp only [secondBound]
        omega
  obtain ⟨e', k', hcar', hdigits', hnumber', hk'⟩ := car25519_some secondBound secondMost hbound rfl
    (by intro i; rcases i with _ | _ | _ | i <;> simp only [secondBound, secondMost] <;> omega)
    (by intro i; rcases i with _ | _ | _ | i <;> simp only [secondBound, secondMost] <;> omega)
  refine ⟨_, _, hcar, hcar', ⟨e', k', rfl, hdigits', hk'⟩, 2 * k + 2 * k', ?_⟩
  rw [number_around hnumber, number_around hnumber']
  ring

theorem fmul_some (ha : Bounded a (2 ^ 18)) (hb : Bounded b (2 ^ 18)) :
    ∃ o, fmul a b = some o ∧ Reduced o ∧ ∃ q, number a * number b = number o + curveP * q := by
  obtain ⟨t, hrows, ht, hproduct⟩ := fmulRows_some ha hb
  obtain ⟨t', hfold, ho, q, hfolded⟩ := foldSteps_some ht
  obtain ⟨o', o'', hcar, hcar', hreduced, q', hcarried⟩ := car25519_twice ho
  refine ⟨o'', ?_, hreduced, q + q', ?_⟩
  · unfold fmul
    rw [hrows, Option.bind_eq_bind, Option.bind_some, hfold, Option.bind_some]
    dsimp only
    rw [hcar, Option.bind_eq_bind, Option.bind_some, hcar']
  · rw [← hproduct, hfolded, hcarried]
    ring

end Product

section Select

theorem word_toInt {x : Int} (h : -2 ^ 62 ≤ x ∧ x ≤ 2 ^ 62) : (word x).toInt = x :=
  BitVec.toInt_ofInt_eq_self (by decide) (by norm_num; omega) (by norm_num; omega)

-- The mask is all zeros or all ones.
theorem sel25519_zero {p q : Gf} (hp : Bounded p (2 ^ 62)) (hq : Bounded q (2 ^ 62)) : sel25519 p q 0 = (p, q) := by
  have hmask : ~~~(word 0 - 1) = 0#64 := by decide
  unfold sel25519
  simp only [hmask, BitVec.zero_and, BitVec.xor_zero]
  refine Prod.ext (ext_getElem fun i => ?_) (ext_getElem fun i => ?_)
  · rw [getElem_ofFn, word_toInt (hp i)]
  · rw [getElem_ofFn, word_toInt (hq i)]

theorem sel25519_one {p q : Gf} (hp : Bounded p (2 ^ 62)) (hq : Bounded q (2 ^ 62)) : sel25519 p q 1 = (q, p) := by
  have hmask : ~~~(word 1 - 1) = BitVec.allOnes 64 := by decide
  have hleft : ∀ x y : BitVec 64, x ^^^ (x ^^^ y) = y :=
    fun x y => by rw [← BitVec.xor_assoc, BitVec.xor_self, BitVec.zero_xor]
  have hright : ∀ x y : BitVec 64, y ^^^ (x ^^^ y) = x := fun x y => by rw [BitVec.xor_comm x, hleft]
  unfold sel25519
  simp only [hmask, BitVec.allOnes_and, hleft, hright]
  refine Prod.ext (ext_getElem fun i => ?_) (ext_getElem fun i => ?_)
  · rw [getElem_ofFn, word_toInt (hq i)]
  · rw [getElem_ofFn, word_toInt (hp i)]

end Select

section Digits

-- A number as fmul leaves it is within 76 of 0 or of 2 ^ 256: the carry around the limbs
-- cannot spoil the first one.
theorem car25519_reduced {o : Gf} (h : Reduced o) :
    ∃ t, car25519 o = some t ∧ Digits (2 ^ 16) t ∧ ∃ q, number o = number t + curveP * q := by
  obtain ⟨t, k, hcar, hdigits, hnumber, hk⟩ :=
    car25519_some (fun _ => 2 ^ 17) (fun i => if i = 0 then 0 else 4) h.bounded rfl
    (by intro i; split <;> omega) (by intro i; split <;> omega)
  refine ⟨_, hcar, ?_, _, number_around hnumber⟩
  obtain ⟨e, c, rfl, he, hc⟩ := h
  have hvalue : number (raise e 0 (38 * c)) = number e + 38 * c * (2 ^ 16) ^ 0 := value_raise e 0 (38 * c)
  have hrange := he.value_lt (by omega)
  have htrange := hdigits.value_lt (by omega)
  have hfirst := hdigits.first
  have hzero := hdigits 0
  have haround : 0 ≤ t[(0 : Fin 16)] + 38 * k ∧ t[(0 : Fin 16)] + 38 * k < 2 ^ 16 := by
    unfold number at *
    omega
  intro j
  have hj := hdigits j
  rw [getElem_raise]
  split
  · next h0 =>
      subst h0
      exact haround
  · rwa [add_zero]

theorem car25519_digits {o : Gf} (h : Reduced o) :
    ∃ t t' t'', car25519 o = some t ∧ car25519 t = some t' ∧ car25519 t' = some t'' ∧ Digits (2 ^ 16) t'' ∧
      ∃ q, number o = number t'' + curveP * q := by
  obtain ⟨t, hcar, hdigits, q, hnumber⟩ := car25519_reduced h
  obtain ⟨t', hcar', hdigits', q', hnumber'⟩ := car25519_reduced (reduced_of_digits hdigits)
  obtain ⟨t'', hcar'', hdigits'', q'', hnumber''⟩ := car25519_reduced (reduced_of_digits hdigits')
  refine ⟨t, t', t'', hcar, hcar', hcar'', hdigits'', q + q' + q'', ?_⟩
  rw [hnumber, hnumber', hnumber'']
  ring

end Digits

section Subtract

-- The limbs of p.
def limbP (i : Nat) : Int := if i = 0 then 0xffed else if i = 15 then 0x7fff else 0xffff

theorem borrow_eq {x : Int} (h : -2 ^ 16 ≤ x ∧ x < 2 ^ 16) :
    0 ≤ low16 x ∧ low16 x < 2 ^ 16 ∧ x = low16 x - 2 ^ 16 * borrow x ∧ borrow x = if x < 0 then 1 else 0 := by
  unfold low16 borrow
  rw [Int.shiftRight_eq_div_pow]
  split
  · omega
  · omega

-- One limb of the difference, and the limb below it without its borrow.
def subLimb (t m : Gf) (j k : Fin 16) (c : Int) : Gf := (m.set k (t[k] - c - borrow m[j])).set j (low16 m[j])

def difference (t : Gf) (i : Nat) : Int := if h : i < 16 then (t[(⟨i, h⟩ : Fin 16)] - limbP i) * (2 ^ 16) ^ i else 0

-- The limbs of m up to i are those of t - p: digits, but for the sign of the last one.
structure Subtracted (t : Gf) (i : Nat) (m : Gf) : Prop where
  digits : ∀ j : Fin 16, j.val < i → 0 ≤ m[j] ∧ m[j] < 2 ^ 16
  last : ∀ j : Fin 16, j.val = i → -2 ^ 16 ≤ m[j] ∧ m[j] < 2 ^ 16
  rest : ∀ j : Fin 16, i < j.val → m[j] = 0
  sum : number m = ∑ j ∈ Finset.range (i + 1), difference t j

theorem Subtracted.step {t m : Gf} {i : Nat} (ht : Digits (2 ^ 16) t) (h : Subtracted t i m) {j k : Fin 16}
    (hj : j.val = i)
    (hk : k.val = i + 1) : Subtracted t (i + 1) (subLimb t m j k (limbP k)) := by
  have hborrow := borrow_eq (h.last j hj)
  have htk := ht k
  have hp : 0x7fff ≤ limbP k ∧ limbP k ≤ 0xffff := by
    unfold limbP
    split
    · omega
    · split
      · omega
      · omega
  have hjk : j ≠ k := Fin.ne_of_val_ne (by omega)
  have hzero := h.rest k (by omega)
  refine ⟨fun l hl => ?_, fun l hl => ?_, fun l hl => ?_, ?_⟩
  · unfold subLimb
    rw [getElem_set]
    split
    · exact ⟨hborrow.1, hborrow.2.1⟩
    · next hjl =>
        have hval := Fin.val_ne_of_ne hjl
        rw [getElem_set, if_neg (Fin.ne_of_val_ne (by omega))]
        exact h.digits l (by omega)
  · obtain rfl : k = l := Fin.ext (by omega)
    unfold subLimb
    rw [getElem_set, if_neg hjk, getElem_set, if_pos rfl]
    have := hborrow.2.2.2
    split at this
    · omega
    · omega
  · unfold subLimb
    rw [getElem_set, if_neg (Fin.ne_of_val_ne (by omega)), getElem_set, if_neg (Fin.ne_of_val_ne (by omega))]
    exact h.rest l (by omega)
  · have hfin : (⟨i + 1, by omega⟩ : Fin 16) = k := Fin.ext hk.symm
    have hdiff : difference t (i + 1) = (t[k] - limbP k) * (2 ^ 16) ^ k.val :=
      (dif_pos (by omega)).trans (congrArg (fun k : Fin 16 => (t[k] - limbP k.val) * (2 ^ 16) ^ k.val) hfin)
    have hpowk : (2 ^ 16 : Int) ^ k.val = (2 ^ 16) ^ j.val * 2 ^ 16 := by rw [hk, hj, pow_succ]
    have hlow := hborrow.2.2.1
    have hvalue := h.sum
    unfold number subLimb at *
    rw [value_set, value_set, getElem_set, if_neg (Ne.symm hjk), hzero, Finset.sum_range_succ, ← hvalue,
      hdiff, hpowk]
    generalize (2 ^ 16 : Int) ^ j.val = P
    linear_combination -P * hlow

theorem Subtracted.first {t : Gf} (ht : Digits (2 ^ 16) t) :
    Subtracted t 0 ((Vector.replicate 16 0).set 0 (t[0] - 0xffed)) := by
  have h0 := ht 0
  have hget : ∀ l : Fin 16, (((Vector.replicate 16 0).set 0 (t[0] - 0xffed) : Gf))[l] = if 0 =
      l then t[0] - 0xffed else 0 := by
    intro l
    refine (getElem_set _ 0 l _).trans ?_
    simp
  refine ⟨fun j hj => absurd hj (Nat.not_lt_zero _), fun j hj => ?_, fun j hj => ?_, ?_⟩
  · obtain rfl : 0 = j := Fin.ext hj.symm
    rw [hget, if_pos rfl]
    rw [Fin.getElem_fin] at h0
    simp only [Fin.val_zero] at h0
    omega
  · rw [hget, if_neg (Fin.ne_of_val_ne (by show 0 ≠ j.val; omega))]
  · have hdiff : difference t 0 = (t[0] - 0xffed) * (2 ^ 16) ^ 0 := rfl
    have hvalue : number ((Vector.replicate 16 0).set 0 (t[0] - 0xffed)) =
        value (2 ^ 16) (Vector.replicate 16 0) + (t[0] - 0xffed - (Vector.replicate 16 0)[(0 : Fin 16)]) *
          (2 ^ 16) ^ 0 :=
      value_set _ (0 : Fin 16) _
    rw [hvalue, value_replicate, Finset.sum_range_one, hdiff, Fin.getElem_fin, Vector.getElem_replicate]
    ring

-- What the code computes for a limb is that limb of the difference.
theorem subLimb_some {t m : Gf} {i : Nat} (ht : Digits (2 ^ 16) t) (h : Subtracted t i m) {j k : Fin 16}
    {c : Int} (hj : j.val = i)
    (hk : k.val = i + 1) (hc : c = limbP k) :
    (sub64 t[k] c).bind (fun x => sub64 x (borrow m[j])) = some (t[k] - c - borrow m[j]) ∧
      (m.set k (t[k] - c - borrow m[j])).set j (low16 (m.set k (t[k] - c - borrow m[j]))[j]) =
        subLimb t m j k (limbP k) := by
  have hborrow := borrow_eq (h.last j hj)
  have htk := ht k
  have hp : 0 ≤ c ∧ c ≤ 0xffff := by
    rw [hc]
    unfold limbP
    split
    · omega
    · split
      · omega
      · omega
  have hb : 0 ≤ borrow m[j] ∧ borrow m[j] ≤ 1 := by
    rw [hborrow.2.2.2]
    split
    · omega
    · omega
  constructor
  · rw [sub64_some (by omega), Option.bind_some, sub64_some (by omega)]
  · rw [getElem_set, if_neg (Fin.ne_of_val_ne (by omega)), hc]
    rfl

theorem packStep_some {t : Gf} (ht : Digits (2 ^ 16) t) (i : Fin 14) (m : Gf) (h : Subtracted t i m) :
    ∃ m', packStep t m i = some m' ∧ Subtracted t (i + 1) m' := by
  have hlimb : (0xffff : Int) = limbP (i.val + 1) := by
    unfold limbP
    rw [if_neg (by omega), if_neg (by omega)]
  obtain ⟨hsub, hset⟩ := subLimb_some (j := ⟨i.val, by omega⟩) (k := ⟨i.val + 1, by omega⟩) ht h rfl rfl hlimb
  refine ⟨_, ?_, h.step (j := ⟨i.val, by omega⟩) (k := ⟨i.val + 1, by omega⟩) ht rfl rfl⟩
  rw [← hset]
  unfold packStep
  dsimp only [Option.bind_eq_bind]
  rw [← Option.bind_assoc, hsub]
  rfl

theorem sum_difference (t : Gf) : ∑ j ∈ Finset.range 16, difference t j = number t - curveP := by
  have hp : ∑ i : Fin 16, limbP i.val * (2 ^ 16) ^ i.val = (curveP : Int) := by decide +kernel
  have hterm : ∀ i : Fin 16, difference t i = t[i] * (2 ^ 16) ^ i.val - limbP i.val * (2 ^ 16) ^ i.val := fun i =>
    (dif_pos i.isLt).trans (sub_mul _ _ _)
  rw [Finset.sum_range, Finset.sum_congr rfl fun i _ => hterm i, Finset.sum_sub_distrib, hp]
  rfl

-- The last limb has the sign of the number.
theorem Subtracted.sign {t m : Gf} (h : Subtracted t 15 m) : 0 ≤ number m ↔ 0 ≤ m[(15 : Fin 16)] := by
  obtain ⟨hlow, hhigh⟩ := digits_sum_lt (b := 2 ^ 16) (by omega) (fun i : Fin 15 => m[i.castSucc]) fun i =>
    h.digits i.castSucc i.isLt
  have hsplit : number m = ∑ i : Fin 15, m[i.castSucc] * (2 ^ 16) ^ i.val + m[(15 : Fin 16)] * (2 ^ 16) ^ 15 :=
    Fin.sum_univ_castSucc _
  rw [hsplit]
  constructor
  · intro h
    by_contra hneg
    omega
  · intro h
    omega

-- A pass takes p off a number that is not below it.
theorem packPass_some {t : Gf} (ht : Digits (2 ^ 16) t) :
    ∃ t', packPass t = some t' ∧ Digits (2 ^ 16) t' ∧
      number t' = if curveP ≤ number t then number t - curveP else number t := by
  have h0 : (0 : Int) ≤ t[0] ∧ t[0] < 2 ^ 16 := ht 0
  obtain ⟨m, hfold, hm⟩ := finRange_foldlM (Subtracted t) (Subtracted.first ht) (packStep_some ht)
  obtain ⟨hsub, hset⟩ := subLimb_some (j := 14) (k := 15) (c := 0x7fff) ht hm rfl rfl rfl
  have hlast := hm.step (j := 14) (k := 15) ht rfl rfl
  rw [← hset] at hlast
  generalize hy : t[(15 : Fin 16)] - 0x7fff - borrow m[(14 : Fin 16)] = y at hsub hset hlast
  have hpass : packPass t = some (sel25519 t ((m.set 15 y).set 14 (low16 (m.set 15 y)[14]))
      ((1 : Int) - borrow (m.set 15 y)[15])).1 := by
    unfold packPass
    rw [sub64_some (by omega), Option.bind_eq_bind, Option.bind_some]
    dsimp only [Option.bind_eq_bind]
    rw [hfold, Option.bind_some, ← Option.bind_assoc]
    exact congrArg (fun x : Option Int => x.bind _) hsub
  have hy15 : (m.set 15 y)[15] = y := Vector.getElem_set_self _
  have hM15 : ((m.set 15 y).set 14 (low16 (m.set 15 y)[14]))[15] = y :=
    (Vector.getElem_set_ne _ _ (by omega)).trans hy15
  rw [hpass, hy15]
  generalize hM : (m.set 15 y).set 14 (low16 (m.set 15 y)[14]) = M at hM15
  have hMsub : Subtracted t 15 M := by
    rw [← hM]
    exact hlast
  have hnumber : number M = number t - curveP := hMsub.sum.trans (sum_difference t)
  have hsign := hMsub.sign
  have hrange := hMsub.last 15 rfl
  have hMget : M[(15 : Fin 16)] = y := hM15
  have hborrow := (borrow_eq (by rw [← hMget]; exact hrange : -2 ^ 16 ≤ y ∧ y < 2 ^ 16)).2.2.2
  have htbound : Bounded t (2 ^ 62) := ht.bounded.mono (by norm_num)
  have hMbound : Bounded M (2 ^ 62) := by
    intro j
    by_cases hj : j.val < 15
    · have := hMsub.digits j hj
      omega
    · have := hMsub.last j (by omega)
      omega
  rw [hborrow]
  rw [hMget, hnumber] at hsign
  by_cases hneg : y < 0
  · refine ⟨t, ?_, ht, ?_⟩
    · rw [if_pos hneg, sub_self, sel25519_zero htbound hMbound]
    · rw [if_neg (by omega)]
  · refine ⟨M, ?_, fun j => ?_, ?_⟩
    · rw [if_neg hneg, sub_zero, sel25519_one htbound hMbound]
    · by_cases hj : j.val < 15
      · exact hMsub.digits j hj
      · obtain rfl : 15 = j := Fin.ext (by show 15 = j.val; omega)
        rw [hMget] at hrange ⊢
        omega
    · rw [if_pos (by omega), hnumber]

end Subtract

section Bytes

theorem byte_toNat (x : Int) : ((byte x).toNat : Int) = x % 2 ^ 8 := by
  unfold byte
  rw [UInt8.toNat_ofNat']
  omega

theorem le_limbs {l : List Int} (hl : ∀ x ∈ l, 0 ≤ x ∧ x < 2 ^ 16) :
    (le (l.flatMap fun x => [byte x, byte (x >>> (8 : Nat))]) : Int) =
      l.foldr (fun x acc => x + 2 ^ 16 * acc) 0 := by
  induction l with
  | nil => rfl
  | cons x l ih =>
      have hx := hl x List.mem_cons_self
      have hrest := ih fun y hy => hl y (List.mem_cons_of_mem _ hy)
      have hlow := byte_toNat x
      have hhigh := byte_toNat (x >>> (8 : Nat))
      rw [Int.shiftRight_eq_div_pow] at hhigh
      rw [List.flatMap_cons, List.foldr_cons, ← hrest]
      show (((byte x).toNat + 256 *
          ((byte (x >>> (8 : Nat))).toNat + 256 * le (l.flatMap fun x => [byte x, byte (x >>> (8 : Nat))])) :
          Nat) : Int) = _
      push_cast
      rw [Int.shiftRight_eq_div_pow]
      omega

-- Two bytes for every limb: the number in 32 bytes.
theorem pack_bytes {t : Gf} (ht : Digits (2 ^ 16) t) :
    (t.toList.flatMap fun x => [byte x, byte (x >>> (8 : Nat))]) = putLe 32 (number t).toNat := by
  have hmem : ∀ x ∈ t.toList, 0 ≤ x ∧ x < 2 ^ 16 := by
    intro x hx
    obtain ⟨i, hi, rfl⟩ := List.getElem_of_mem hx
    exact ht ⟨i, by simpa using hi⟩
  have hnumber := le_limbs hmem
  rw [← value_toList] at hnumber
  have hlen : (t.toList.flatMap fun x => [byte x, byte (x >>> (8 : Nat))]).length = 32 := by
    rw [List.length_flatMap]
    simp
  have hputLe := putLe_le (t.toList.flatMap fun x => [byte x, byte (x >>> (8 : Nat))])
  rw [hlen] at hputLe
  rw [← hputLe]
  congr 1
  unfold number
  omega

-- The encoding of the number modulo p: a number of 256 bits is below 2 * p + 38.
theorem pack25519_some {n : Gf} (h : Reduced n) : pack25519 n = some (putLe 32 (number n % curveP).toNat) := by
  obtain ⟨t, t', t'', hcar, hcar', hcar'', hdigits, q, hnumber⟩ := car25519_digits h
  obtain ⟨u, hpass, hu, hunumber⟩ := packPass_some hdigits
  obtain ⟨v, hpass', hv, hvnumber⟩ := packPass_some hu
  have hp : (curveP : Int) = 2 ^ 255 - 19 := by norm_num [curveP]
  have hrange : 0 ≤ number t'' ∧ number t'' < (2 ^ 16) ^ 16 := hdigits.value_lt (by omega)
  have hmod : number n % curveP = number v := by
    have hsame : number n % curveP = number t'' % curveP := by rw [hnumber, Int.add_mul_emod_self_left]
    rw [hsame, hvnumber, hunumber]
    rw [hp]
    split
    · split
      · omega
      · omega
    · omega
  unfold pack25519
  rw [hcar, Option.bind_eq_bind, Option.bind_some, hcar', Option.bind_some, hcar'', Option.bind_some, hpass,
    Option.bind_some, hpass',
    Option.bind_some, pack_bytes hv, hmod]

theorem unpack_limb (n : Vector UInt8 32) (i : Fin 16) :
    n[2 * i.val].toNat + 2 ^ 8 * n[2 * i.val + 1].toNat = le n.toList / (2 ^ 16) ^ i.val % 2 ^ 16 := by
  have hbyte : ∀ k : Fin 32, n[k.val].toNat = le n.toList / 256 ^ k.val % 256 := by
    intro k
    rw [← byteAt_le]
    unfold byteAt
    rw [List.getD_eq_getElem _ _ (by simp)]
    simp
  have hpow : (256 : Nat) ^ (2 * i.val) =
      (2 ^ 16) ^ i.val := by rw [Nat.pow_mul, show (256 : Nat) ^ 2 = 2 ^ 16 from rfl]
  have hlow : n[2 * i.val].toNat = le n.toList / (2 ^ 16) ^ i.val % 256 := by
    rw [← hpow]
    exact hbyte ⟨2 * i.val, by omega⟩
  have hhigh : n[2 * i.val + 1].toNat = le n.toList / (2 ^ 16) ^ i.val / 256 % 256 := by
    rw [Nat.div_div_eq_div_mul, ← hpow, ← Nat.pow_succ]
    exact hbyte ⟨2 * i.val + 1, by omega⟩
  rw [hlow, hhigh]
  generalize le n.toList / (2 ^ 16) ^ i.val = N
  omega

-- The number of the first 256 bits, and then without the highest of them.
theorem number_masked {o : Gf} {N : Nat} (ho : ∀ i : Fin 16, o[i] = (N / (2 ^ 16) ^ i.val % 2 ^ 16 : Nat)) :
    Digits (2 ^ 16) (o.set 15 (o[15] % 2 ^ 15)) ∧ number (o.set 15 (o[15] % 2 ^ 15)) = (N % 2 ^ 255 : Nat) := by
  have h15 : o[15] = (N / (2 ^ 16) ^ 15 % 2 ^ 16 : Nat) := ho 15
  have hsum : number o = (N % (2 ^ 16) ^ 16 : Nat) := by
    rw [← sum_digits, number, value]
    push_cast
    exact Finset.sum_congr rfl fun i _ => by rw [ho i]; push_cast; rfl
  constructor
  · intro i
    have hi := ho i
    refine (getElem_set o 15 i _).symm ▸ ?_
    split
    · omega
    · omega
  · have hset : number (o.set 15 (o[15] % 2 ^ 15)) = number o + (o[15] % 2 ^ 15 - o[15]) * (2 ^ 16) ^ 15 :=
      value_set o (15 : Fin 16) _
    rw [hset, hsum, h15]
    omega

-- The digits of the bytes, without the highest bit.
theorem unpack25519_number (n : Vector UInt8 32) :
    Digits (2 ^ 16) (unpack25519 n) ∧ number (unpack25519 n) = (le n.toList % 2 ^ 255 : Nat) := by
  refine number_masked fun i => ?_
  rw [getElem_ofFn, ← unpack_limb]
  push_cast
  rfl

end Bytes

end TetherDesk.X25519
