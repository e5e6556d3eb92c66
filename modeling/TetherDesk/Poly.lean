import TetherDesk.Bytes
import Mathlib.Data.UInt

namespace TetherDesk.Poly

-- Sums and products of uint32_t and uint64_t; none is an overflow.
def sum32 (a b : Nat) : Option Nat := if a + b < 2 ^ 32 then some (a + b) else none
def mul32 (a b : Nat) : Option Nat := if a * b < 2 ^ 32 then some (a * b) else none
def sum64 (a b : Nat) : Option Nat := if a + b < 2 ^ 64 then some (a + b) else none
def mul64 (a b : Nat) : Option Nat := if a * b < 2 ^ 64 then some (a * b) else none

-- The conversion to uint32_t, and a shift to the left that lets bits go.
def low32 (a : Nat) : Nat := a % 2 ^ 32
def shl32 (a n : Nat) : Nat := (a <<< n) % 2 ^ 32

def le32 (p : Bytes) : Nat :=
  (byteAt p 0).toNat ||| ((byteAt p 1).toNat <<< 8) ||| ((byteAt p 2).toNat <<< 16) ||| ((byteAt p 3).toNat <<< 24)

def putLe32 (v : Nat) : Bytes :=
  [UInt8.ofNat v, UInt8.ofNat (v >>> 8), UInt8.ofNat (v >>> 16), UInt8.ofNat (v >>> 24)]

def putLe64 (v : Nat) : Bytes := putLe32 (low32 v) ++ putLe32 (low32 (v >>> 32))

-- A number in five limbs of 26 bits.
structure Limbs where
  l0 : Nat
  l1 : Nat
  l2 : Nat
  l3 : Nat
  l4 : Nat
  deriving DecidableEq, Repr

structure PolyState where
  r : Limbs
  h : Limbs
  pad : Nat × Nat × Nat × Nat
  deriving DecidableEq, Repr

-- One of the sums d0 to d4, from left to right.
def dot (h b : Limbs) : Option Nat := do
  let p0 ← mul64 h.l0 b.l0
  let p1 ← mul64 h.l1 b.l1
  let p2 ← mul64 h.l2 b.l2
  let p3 ← mul64 h.l3 b.l3
  let p4 ← mul64 h.l4 b.l4
  let d ← sum64 p0 p1
  let d ← sum64 d p2
  let d ← sum64 d p3
  sum64 d p4

-- c = (uint32_t)(d >> 26) and the limb that stays.
def carry64 (d : Nat) : Nat × Nat := (low32 (d >>> 26), low32 d &&& 0x3ffffff)

def carry32 (h : Nat) : Nat × Nat := (h >>> 26, h &&& 0x3ffffff)

-- r and the products of its limbs with 5, as poly_blocks finds them.
def polyFives (r : Limbs) : Option Limbs := do
  let s1 ← mul32 r.l1 5
  let s2 ← mul32 r.l2 5
  let s3 ← mul32 r.l3 5
  let s4 ← mul32 r.l4 5
  some ⟨0, s1, s2, s3, s4⟩

-- h with the block added.
def polyAdd (h : Limbs) (m : Bytes) (hibit : Nat) : Option Limbs := do
  let h0 ← sum32 h.l0 (le32 m &&& 0x3ffffff)
  let h1 ← sum32 h.l1 ((le32 (m.drop 3) >>> 2) &&& 0x3ffffff)
  let h2 ← sum32 h.l2 ((le32 (m.drop 6) >>> 4) &&& 0x3ffffff)
  let h3 ← sum32 h.l3 ((le32 (m.drop 9) >>> 6) &&& 0x3ffffff)
  let h4 ← sum32 h.l4 ((le32 (m.drop 12) >>> 8) ||| hibit)
  some ⟨h0, h1, h2, h3, h4⟩

-- The sums d0 to d4.
def polyDots (r s h : Limbs) : Option Limbs := do
  let d0 ← dot h ⟨r.l0, s.l4, s.l3, s.l2, s.l1⟩
  let d1 ← dot h ⟨r.l1, r.l0, s.l4, s.l3, s.l2⟩
  let d2 ← dot h ⟨r.l2, r.l1, r.l0, s.l4, s.l3⟩
  let d3 ← dot h ⟨r.l3, r.l2, r.l1, r.l0, s.l4⟩
  let d4 ← dot h ⟨r.l4, r.l3, r.l2, r.l1, r.l0⟩
  some ⟨d0, d1, d2, d3, d4⟩

def polyCarry (d : Limbs) : Option Limbs := do
  let (c, h0) := carry64 d.l0
  let d1 ← sum64 d.l1 c
  let (c, h1) := carry64 d1
  let d2 ← sum64 d.l2 c
  let (c, h2) := carry64 d2
  let d3 ← sum64 d.l3 c
  let (c, h3) := carry64 d3
  let d4 ← sum64 d.l4 c
  let (c, h4) := carry64 d4
  let h0 ← sum32 h0 (← mul32 c 5)
  let (c, h0) := carry32 h0
  let h1 ← sum32 h1 c
  some ⟨h0, h1, h2, h3, h4⟩

-- One round of poly_blocks.
def polyBlock (r s h : Limbs) (m : Bytes) (hibit : Nat) : Option Limbs := do
  let h ← polyAdd h m hibit
  let d ← polyDots r s h
  polyCarry d

def polyLoop (r s h : Limbs) (m : Bytes) (hibit : Nat) : Option Limbs :=
  if m.length ≥ 16 then do
    let h ← polyBlock r s h m hibit
    polyLoop r s h (m.drop 16) hibit
  else some h
termination_by m.length
decreasing_by rw [List.length_drop]; omega

def polyBlocks (st : PolyState) (m : Bytes) (hibit : Nat) : Option PolyState := do
  let s ← polyFives st.r
  let h ← polyLoop st.r s st.h m hibit
  some { st with h := h }

def polyInit (key : Bytes) : PolyState where
  r :=
    { l0 := le32 key &&& 0x3ffffff
      l1 := (le32 (key.drop 3) >>> 2) &&& 0x3ffff03
      l2 := (le32 (key.drop 6) >>> 4) &&& 0x3ffc0ff
      l3 := (le32 (key.drop 9) >>> 6) &&& 0x3f03fff
      l4 := (le32 (key.drop 12) >>> 8) &&& 0x00fffff }
  h := ⟨0, 0, 0, 0, 0⟩
  pad := (le32 (key.drop 16), le32 (key.drop 20), le32 (key.drop 24), le32 (key.drop 28))

-- The carries at the beginning of poly_finish.
def polySettle (h : Limbs) : Option Limbs := do
  let (c, h1) := carry32 h.l1
  let h2 ← sum32 h.l2 c
  let (c, h2) := carry32 h2
  let h3 ← sum32 h.l3 c
  let (c, h3) := carry32 h3
  let h4 ← sum32 h.l4 c
  let (c, h4) := carry32 h4
  let h0 ← sum32 h.l0 (← mul32 c 5)
  let (c, h0) := carry32 h0
  let h1 ← sum32 h1 c
  some ⟨h0, h1, h2, h3, h4⟩

-- h or h - p, whichever is below p; the sum for g4 wraps around when h is.
def polyReduce (h : Limbs) : Option Limbs := do
  let g0 ← sum32 h.l0 5
  let (c, g0) := carry32 g0
  let g1 ← sum32 h.l1 c
  let (c, g1) := carry32 g1
  let g2 ← sum32 h.l2 c
  let (c, g2) := carry32 g2
  let g3 ← sum32 h.l3 c
  let (c, g3) := carry32 g3
  let g4 := (h.l4 + c + 2 ^ 32 - 2 ^ 26) % 2 ^ 32
  let mask := ((g4 >>> 31) + 2 ^ 32 - 1) % 2 ^ 32
  let keep := 2 ^ 32 - 1 - mask
  some
    { l0 := (h.l0 &&& keep) ||| (g0 &&& mask)
      l1 := (h.l1 &&& keep) ||| (g1 &&& mask)
      l2 := (h.l2 &&& keep) ||| (g2 &&& mask)
      l3 := (h.l3 &&& keep) ||| (g3 &&& mask)
      l4 := (h.l4 &&& keep) ||| (g4 &&& mask) }

-- The low 128 bits in four words.
def polyWords (h : Limbs) : Nat × Nat × Nat × Nat :=
  (h.l0 ||| shl32 h.l1 26, (h.l1 >>> 6) ||| shl32 h.l2 20, (h.l2 >>> 12) ||| shl32 h.l3 14, (h.l3 >>> 18) |||
    shl32 h.l4 8)

def polyPad (w pad : Nat × Nat × Nat × Nat) : Option Bytes := do
  let (w0, w1, w2, w3) := w
  let (p0, p1, p2, p3) := pad
  let f0 ← sum64 w0 p0
  let f1 ← sum64 (← sum64 w1 p1) (f0 >>> 32)
  let f2 ← sum64 (← sum64 w2 p2) (f1 >>> 32)
  let f3 ← sum64 (← sum64 w3 p3) (f2 >>> 32)
  some (putLe32 (low32 f0) ++ putLe32 (low32 f1) ++ putLe32 (low32 f2) ++ putLe32 (low32 f3))

def polyFinish (st : PolyState) : Option Bytes := do
  let h ← polySettle st.h
  let h ← polyReduce h
  polyPad (polyWords h) st.pad

def rdPoly1305 (msg key : Bytes) : Option Bytes := do
  let st := polyInit key
  let full := msg.length / 16 * 16
  let st ← polyBlocks st (msg.take full) (1 <<< 24)
  let st ←
    if msg.length > full then
      let rest := msg.drop full
      polyBlocks st (rest ++ [1] ++ List.replicate (15 - rest.length) 0) 0
    else some st
  polyFinish st

-- Every block is full, the last one with zeros.
def polyPadded (st : PolyState) (p : Bytes) : Option PolyState := do
  let full := p.length / 16 * 16
  let st ← polyBlocks st (p.take full) (1 <<< 24)
  if p.length > full then
    let rest := p.drop full
    polyBlocks st (rest ++ List.replicate (16 - rest.length) 0) (1 <<< 24)
  else some st

section ChaCha20

def rotl (v n : UInt32) : UInt32 := (v <<< n) ||| (v >>> (32 - n))

def setWord {n : Nat} (x : Vector UInt32 n) (i : Fin n) (v : UInt32) : Vector UInt32 n := x.set i v i.isLt

def quarterRound (a b c d : Fin 16) (x : Vector UInt32 16) : Vector UInt32 16 :=
  let x := setWord x a (x.get a + x.get b)
  let x := setWord x d (rotl (x.get d ^^^ x.get a) 16)
  let x := setWord x c (x.get c + x.get d)
  let x := setWord x b (rotl (x.get b ^^^ x.get c) 12)
  let x := setWord x a (x.get a + x.get b)
  let x := setWord x d (rotl (x.get d ^^^ x.get a) 8)
  let x := setWord x c (x.get c + x.get d)
  setWord x b (rotl (x.get b ^^^ x.get c) 7)

local instance sixteen : NeZero 16 := ⟨by decide⟩

def doubleRound (x : Vector UInt32 16) : Vector UInt32 16 :=
  let x := quarterRound 0 4 8 12 x
  let x := quarterRound 1 5 9 13 x
  let x := quarterRound 2 6 10 14 x
  let x := quarterRound 3 7 11 15 x
  let x := quarterRound 0 5 10 15 x
  let x := quarterRound 1 6 11 12 x
  let x := quarterRound 2 7 8 13 x
  quarterRound 3 4 9 14 x

def chachaBlock (st : Vector UInt32 16) : Bytes :=
  let x := (List.range 10).foldl (fun x _ => doubleRound x) st
  (Vector.zipWith (· + ·) x st).toList.flatMap fun v => putLe32 v.toNat

-- st[12]++ for every 64 bytes of keystream.
def chachaLoop : Nat → Vector UInt32 16 → Bytes → Bytes
  | 0, _, _ => []
  | fuel + 1, st, p =>
      if p = [] then []
      else
        List.zipWith (· ^^^ ·) (p.take 64) (chachaBlock st) ++ chachaLoop fuel (st.set 12 (st[12] + 1)) (p.drop 64)

def rdChacha20 (input key nonce : Bytes) (counter : UInt32) : Bytes :=
  let word (p : Bytes) (i : Nat) : UInt32 := UInt32.ofNat (le32 (p.drop (4 * i)))
  chachaLoop input.length
    #v[0x61707865, 0x3320646e, 0x79622d32, 0x6b206574, word key 0, word key 1, word key 2, word key 3,
      word key 4, word key 5,
      word key 6, word key 7, counter, word nonce 0, word nonce 1, word nonce 2]
    input

end ChaCha20

def aeadTag (ct ad key nonce : Bytes) : Option Bytes := do
  let otk := rdChacha20 (List.replicate 64 0) key nonce 0
  let st := polyInit otk
  let st ← polyPadded st ad
  let st ← polyPadded st ct
  let st ← polyBlocks st (putLe64 ad.length ++ putLe64 ct.length) (1 <<< 24)
  polyFinish st

end TetherDesk.Poly
