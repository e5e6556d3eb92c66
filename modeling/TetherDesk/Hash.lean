import TetherDesk.Bytes
import Mathlib.Data.Vector.Basic
import Mathlib.Data.UInt

namespace TetherDesk.Hash

def rol32 (x n : UInt32) : UInt32 := (x <<< n) ||| (x >>> (32 - n))
def ror32 (x n : UInt32) : UInt32 := (x >>> n) ||| (x <<< (32 - n))

def be32 (p : Bytes) : UInt32 :=
  ((byteAt p 0).toUInt32 <<< 24) ||| ((byteAt p 1).toUInt32 <<< 16) ||| ((byteAt p 2).toUInt32 <<< 8) |||
    (byteAt p 3).toUInt32

def putBe32 (v : UInt32) : Bytes := [(v >>> 24).toUInt8, (v >>> 16).toUInt8, (v >>> 8).toUInt8, v.toUInt8]

def memcpy (dst : Bytes) (i : Nat) (src : Bytes) : Bytes := dst.take i ++ src ++ dst.drop (i + src.length)

def word (w : List UInt32) (i : Nat) : UInt32 := w.getD i 0

-- The words of a block, extended to the full message schedule.
def firstWords (p : Bytes) : List UInt32 := (List.range 16).map fun i => be32 (p.drop (4 * i))

def sha1Schedule (p : Bytes) : List UInt32 :=
  (List.range' 16 64).foldl
    (fun w i => w ++ [rol32 (word w (i - 3) ^^^ word w (i - 8) ^^^ word w (i - 14) ^^^ word w (i - 16)) 1])
      (firstWords p)

def sha1Round (w : List UInt32) (h : Vector UInt32 5) (i : Nat) : Vector UInt32 5 :=
  let (a, b, c, d, e) := (h[0], h[1], h[2], h[3], h[4])
  let (f, k) : UInt32 × UInt32 :=
    if i < 20 then ((b &&& c) ||| (~~~b &&& d), 0x5A827999)
    else if i < 40 then (b ^^^ c ^^^ d, 0x6ED9EBA1)
    else if i < 60 then ((b &&& c) ||| (b &&& d) ||| (c &&& d), 0x8F1BBCDC)
    else (b ^^^ c ^^^ d, 0xCA62C1D6)
  let t := rol32 a 5 + f + e + k + word w i
  #v[t, a, rol32 b 30, c, d]

def sha1Block (h : Vector UInt32 5) (p : Bytes) : Vector UInt32 5 :=
  Vector.zipWith (· + ·) h ((List.range 80).foldl (sha1Round (sha1Schedule p)) h)

def sha1Iv : Vector UInt32 5 := #v[0x67452301, 0xEFCDAB89, 0x98BADCFE, 0x10325476, 0xC3D2E1F0]

-- The loop over the complete blocks; what is left of the message comes with the state.
def sha1Blocks (h : Vector UInt32 5) (p : Bytes) : Vector UInt32 5 × Bytes :=
  if p.length ≥ 64 then sha1Blocks (sha1Block h p) (p.drop 64) else (h, p)
termination_by p.length
decreasing_by rw [List.length_drop]; omega

def rdSha1 (data : Bytes) : Bytes :=
  let (h, p) := sha1Blocks sha1Iv data
  let n := p.length
  let tail := (memcpy (List.replicate 128 0) 0 p).set n 0x80
  let tl := if n + 9 ≤ 64 then 64 else 128
  let bits := UInt64.ofNat data.length * 8
  let tail := (List.range 8).foldl (fun t i => t.set (tl - 1 - i) (bits >>> UInt64.ofNat (8 * i)).toUInt8) tail
  let h := sha1Block h tail
  let h := if tl = 128 then sha1Block h (tail.drop 64) else h
  h.toList.flatMap putBe32

def k256 : List UInt32 :=
  [0x428a2f98, 0x71374491, 0xb5c0fbcf, 0xe9b5dba5, 0x3956c25b, 0x59f111f1, 0x923f82a4, 0xab1c5ed5,
   0xd807aa98, 0x12835b01, 0x243185be, 0x550c7dc3, 0x72be5d74, 0x80deb1fe, 0x9bdc06a7, 0xc19bf174,
   0xe49b69c1, 0xefbe4786, 0x0fc19dc6, 0x240ca1cc, 0x2de92c6f, 0x4a7484aa, 0x5cb0a9dc, 0x76f988da,
   0x983e5152, 0xa831c66d, 0xb00327c8, 0xbf597fc7, 0xc6e00bf3, 0xd5a79147, 0x06ca6351, 0x14292967,
   0x27b70a85, 0x2e1b2138, 0x4d2c6dfc, 0x53380d13, 0x650a7354, 0x766a0abb, 0x81c2c92e, 0x92722c85,
   0xa2bfe8a1, 0xa81a664b, 0xc24b8b70, 0xc76c51a3, 0xd192e819, 0xd6990624, 0xf40e3585, 0x106aa070,
   0x19a4c116, 0x1e376c08, 0x2748774c, 0x34b0bcb5, 0x391c0cb3, 0x4ed8aa4a, 0x5b9cca4f, 0x682e6ff3,
   0x748f82ee, 0x78a5636f, 0x84c87814, 0x8cc70208, 0x90befffa, 0xa4506ceb, 0xbef9a3f7, 0xc67178f2]

def sha256Schedule (p : Bytes) : List UInt32 :=
  (List.range' 16 48).foldl
    (fun w i =>
      let s0 := ror32 (word w (i - 15)) 7 ^^^ ror32 (word w (i - 15)) 18 ^^^ (word w (i - 15) >>> 3)
      let s1 := ror32 (word w (i - 2)) 17 ^^^ ror32 (word w (i - 2)) 19 ^^^ (word w (i - 2) >>> 10)
      w ++ [word w (i - 16) + s0 + word w (i - 7) + s1])
    (firstWords p)

def sha256Round (w : List UInt32) (st : Vector UInt32 8) (i : Nat) : Vector UInt32 8 :=
  let (a, b, c, d) := (st[0], st[1], st[2], st[3])
  let (e, f, g, hh) := (st[4], st[5], st[6], st[7])
  let S1 := ror32 e 6 ^^^ ror32 e 11 ^^^ ror32 e 25
  let ch := (e &&& f) ^^^ (~~~e &&& g)
  let t1 := hh + S1 + ch + word k256 i + word w i
  let S0 := ror32 a 2 ^^^ ror32 a 13 ^^^ ror32 a 22
  let mj := (a &&& b) ^^^ (a &&& c) ^^^ (b &&& c)
  let t2 := S0 + mj
  #v[t1 + t2, a, b, c, d + t1, e, f, g]

def sha256Block (h : Vector UInt32 8) (p : Bytes) : Vector UInt32 8 :=
  Vector.zipWith (· + ·) h ((List.range 64).foldl (sha256Round (sha256Schedule p)) h)

-- The context between two calls.
structure Sha256Ctx where
  h : Vector UInt32 8
  total : UInt64
  block : Bytes
  fill : Nat
  block_length : block.length = 64
  fill_lt : fill < 64

def sha256Iv : Vector UInt32 8 :=
  #v[0x6a09e667, 0xbb67ae85, 0x3c6ef372, 0xa54ff53a, 0x510e527f, 0x9b05688c, 0x1f83d9ab, 0x5be0cd19]

-- The block is left as it was found.
def rdSha256Init (c : Sha256Ctx) : Sha256Ctx := { c with h := sha256Iv, total := 0, fill := 0, fill_lt := by omega }

theorem memcpy_length {dst src : Bytes} {i : Nat} (h : i + src.length ≤ dst.length) :
    (memcpy dst i src).length = dst.length := by
  unfold memcpy
  simp only [List.length_append, List.length_take, List.length_drop]
  omega

-- How much of the input goes into the block, and the block then.
def Sha256Ctx.take (c : Sha256Ctx) (p : Bytes) : Nat :=
  let take := 64 - c.fill
  if take > p.length then p.length else take

def Sha256Ctx.filled (c : Sha256Ctx) (p : Bytes) : Bytes := memcpy c.block c.fill (p.take (c.take p))

theorem Sha256Ctx.take_le (c : Sha256Ctx) (p : Bytes) : c.take p ≤ p.length ∧ c.fill + c.take p ≤ 64 := by
  have := c.fill_lt
  unfold Sha256Ctx.take
  dsimp only
  split_ifs <;> omega

theorem Sha256Ctx.take_pos (c : Sha256Ctx) {p : Bytes} (h : p ≠ []) : 0 < c.take p := by
  have := c.fill_lt
  have := List.length_pos_iff.mpr h
  unfold Sha256Ctx.take
  dsimp only
  split_ifs <;> omega

theorem Sha256Ctx.filled_length (c : Sha256Ctx) (p : Bytes) : (c.filled p).length = 64 := by
  have htake := c.take_le p
  refine (memcpy_length ?_).trans c.block_length
  rw [List.length_take, c.block_length]
  omega

-- The loop of rd_sha256_update.
def Sha256Ctx.absorb (c : Sha256Ctx) (p : Bytes) : Sha256Ctx :=
  if hp : p = [] then c
  else if hfull : c.fill + c.take p = 64 then
    Sha256Ctx.absorb
      { c with
        h := sha256Block c.h (c.filled p), block := c.filled p, fill := 0, block_length := c.filled_length p
        fill_lt := by omega }
      (p.drop (c.take p))
  else
    Sha256Ctx.absorb
      { c with
        block := c.filled p, fill := c.fill + c.take p, block_length := c.filled_length p
        fill_lt := by have := c.take_le p; omega }
      (p.drop (c.take p))
termination_by p.length
decreasing_by
  all_goals
    have hpos := c.take_pos hp
    have := List.length_pos_iff.mpr hp
    rw [List.length_drop]
    omega

def rdSha256Update (c : Sha256Ctx) (data : Bytes) : Sha256Ctx :=
  { c with total := c.total + UInt64.ofNat data.length }.absorb data

theorem Sha256Ctx.absorb_nil (c : Sha256Ctx) : c.absorb [] = c := by
  rw [Sha256Ctx.absorb]
  exact dif_pos rfl

theorem update_byte_fill (c : Sha256Ctx) (b : UInt8) :
    (rdSha256Update c [b]).fill = if c.fill = 63 then 0 else c.fill + 1 := by
  have hfill := c.fill_lt
  unfold rdSha256Update
  rw [Sha256Ctx.absorb]
  generalize hc : { c with total := c.total + UInt64.ofNat [b].length } = d
  have hd : d.fill = c.fill := by rw [← hc]
  have htake : d.take [b] = 1 := by
    unfold Sha256Ctx.take
    rw [List.length_singleton]
    dsimp only
    split_ifs <;> omega
  have hrest : [b].drop (d.take [b]) = [] := by rw [htake]; rfl
  rw [dif_neg (List.cons_ne_nil b [])]
  by_cases hlast : c.fill = 63
  · rw [dif_pos (by omega), if_pos hlast, hrest, Sha256Ctx.absorb_nil]
  · rw [dif_neg (by omega), if_neg hlast, hrest, Sha256Ctx.absorb_nil]
    dsimp only
    omega

-- Zero bytes until the length fits behind them.
def rdSha256Pad (c : Sha256Ctx) : Sha256Ctx := if c.fill ≠ 56 then rdSha256Pad (rdSha256Update c [0]) else c
termination_by (120 - c.fill) % 64
decreasing_by
  have := c.fill_lt
  rw [update_byte_fill]
  split_ifs <;> omega

-- The digest, and the context as it is left behind.
def rdSha256Final (c : Sha256Ctx) : Bytes × Sha256Ctx :=
  let bits := c.total * 8
  let c := rdSha256Pad (rdSha256Update c [0x80])
  let lenBe := (List.range 8).map fun i => (bits >>> UInt64.ofNat (56 - 8 * i)).toUInt8
  let c := rdSha256Update c lenBe
  (c.h.toList.flatMap putBe32, c)

-- c is what the local context holds before it is initialised.
def rdSha256 (c : Sha256Ctx) (data : Bytes) : Bytes := (rdSha256Final (rdSha256Update (rdSha256Init c) data)).1

end TetherDesk.Hash
