import TetherDesk.Secure

namespace TetherDesk.Secure

-- The primitives as their standards define them, on natural numbers. Every
-- intermediate value is computed before the next step, so that they evaluate fast.
def withValue {α : Type} (n : Nat) (k : Nat → α) : α :=
  match n with
  | 0 => k 0
  | m + 1 => k (m + 1)

def withList {α : Type} (ns : List Nat) (k : List Nat → α) : α :=
  match ns with
  | [] => k []
  | n :: ns => withValue n fun n => withList ns fun ns => k (n :: ns)

def add32 (a b : Nat) : Nat := (a + b) % 2 ^ 32
def rotl32 (v n : Nat) : Nat := (v <<< n % 2 ^ 32) ||| (v >>> (32 - n))
def rotr32 (v n : Nat) : Nat := rotl32 v (32 - n)
def not32 (v : Nat) : Nat := 2 ^ 32 - 1 - v

def word (ws : List Nat) (i : Nat) : Nat := ws.getD i 0

def be32 (p : Bytes) : Nat := p.foldl (fun acc b => acc * 256 + b.toNat) 0

def putBe (width v : Nat) : Bytes := (List.range width).map fun i => UInt8.ofNat (v >>> (8 * (width - 1 - i)))

def le (p : Bytes) : Nat := p.foldr (fun b acc => b.toNat + 256 * acc) 0

def putLe (width v : Nat) : Bytes := (List.range width).map fun i => UInt8.ofNat (v >>> (8 * i))

-- The message cut into pieces of n bytes.
def pieces (n : Nat) (p : Bytes) : List Bytes :=
  (List.range ((p.length + n - 1) / n)).map fun i => (p.drop (i * n)).take n

def mdPad (p : Bytes) : Bytes :=
  p ++ [0x80] ++ List.replicate ((119 - p.length % 64) % 64) 0 ++ putBe 8 (8 * p.length)

def kSha256 : List Nat :=
  [0x428a2f98, 0x71374491, 0xb5c0fbcf, 0xe9b5dba5, 0x3956c25b, 0x59f111f1, 0x923f82a4, 0xab1c5ed5,
   0xd807aa98, 0x12835b01, 0x243185be, 0x550c7dc3, 0x72be5d74, 0x80deb1fe, 0x9bdc06a7, 0xc19bf174,
   0xe49b69c1, 0xefbe4786, 0x0fc19dc6, 0x240ca1cc, 0x2de92c6f, 0x4a7484aa, 0x5cb0a9dc, 0x76f988da,
   0x983e5152, 0xa831c66d, 0xb00327c8, 0xbf597fc7, 0xc6e00bf3, 0xd5a79147, 0x06ca6351, 0x14292967,
   0x27b70a85, 0x2e1b2138, 0x4d2c6dfc, 0x53380d13, 0x650a7354, 0x766a0abb, 0x81c2c92e, 0x92722c85,
   0xa2bfe8a1, 0xa81a664b, 0xc24b8b70, 0xc76c51a3, 0xd192e819, 0xd6990624, 0xf40e3585, 0x106aa070,
   0x19a4c116, 0x1e376c08, 0x2748774c, 0x34b0bcb5, 0x391c0cb3, 0x4ed8aa4a, 0x5b9cca4f, 0x682e6ff3,
   0x748f82ee, 0x78a5636f, 0x84c87814, 0x8cc70208, 0x90befffa, 0xa4506ceb, 0xbef9a3f7, 0xc67178f2]

-- The last 16 words of the message schedule, advanced by one.
def scheduleStep (ws : List Nat) : Nat :=
  let s0 := rotr32 (word ws 1) 7 ^^^ rotr32 (word ws 1) 18 ^^^ (word ws 1 >>> 3)
  let s1 := rotr32 (word ws 14) 17 ^^^ rotr32 (word ws 14) 19 ^^^ (word ws 14 >>> 10)
  add32 (add32 (word ws 0) s0) (add32 (word ws 9) s1)

def roundSha256 (k w : Nat) : List Nat → List Nat
  | [a, b, c, d, e, f, g, h] =>
      let t1 := add32 (add32 (add32 h (rotr32 e 6 ^^^ rotr32 e 11 ^^^ rotr32 e 25))
        (add32 ((e &&& f) ^^^ (not32 e &&& g)) k)) w
      let t2 := add32 (rotr32 a 2 ^^^ rotr32 a 13 ^^^ rotr32 a 22) ((a &&& b) ^^^ (a &&& c) ^^^ (b &&& c))
      [add32 t1 t2, a, b, c, add32 d t1, e, f, g]
  | st => st

def roundsSha256 : List Nat → List Nat → List Nat → List Nat
  | [], _, st => st
  | k :: ks, ws, st =>
      withList (roundSha256 k (word ws 0) st) fun st =>
        withValue (scheduleStep ws) fun w => roundsSha256 ks (ws.drop 1 ++ [w]) st

def blockSha256 (h : List Nat) (p : Bytes) : List Nat :=
  withList ((pieces 4 p).map be32) fun ws => List.zipWith add32 h (roundsSha256 kSha256 ws h)

def blocksSha256 : List Nat → List Bytes → List Nat
  | h, [] => h
  | h, p :: ps => withList (blockSha256 h p) fun h => blocksSha256 h ps

def sha256 (p : Bytes) : Bytes :=
  (blocksSha256 [0x6a09e667, 0xbb67ae85, 0x3c6ef372, 0xa54ff53a, 0x510e527f, 0x9b05688c, 0x1f83d9ab,
    0x5be0cd19] (pieces 64 (mdPad p))).flatMap (putBe 4)

def roundSha1 (i w : Nat) : List Nat → List Nat
  | [a, b, c, d, e] =>
      let (f, k) :=
        if i < 20 then ((b &&& c) ||| (not32 b &&& d), 0x5A827999)
        else if i < 40 then (b ^^^ c ^^^ d, 0x6ED9EBA1)
        else if i < 60 then ((b &&& c) ||| (b &&& d) ||| (c &&& d), 0x8F1BBCDC)
        else (b ^^^ c ^^^ d, 0xCA62C1D6)
      [add32 (add32 (rotl32 a 5) f) (add32 (add32 e k) w), a, rotl32 b 30, c, d]
  | st => st

def roundsSha1 : List Nat → List Nat → List Nat → List Nat
  | [], _, st => st
  | i :: is, ws, st =>
      withList (roundSha1 i (word ws 0) st) fun st =>
        withValue (rotl32 (word ws 13 ^^^ word ws 8 ^^^ word ws 2 ^^^ word ws 0) 1) fun w =>
          roundsSha1 is (ws.drop 1 ++ [w]) st

def blocksSha1 : List Nat → List Bytes → List Nat
  | h, [] => h
  | h, p :: ps =>
      withList ((pieces 4 p).map be32) fun ws =>
        withList (List.zipWith add32 h (roundsSha1 (List.range 80) ws h)) fun h => blocksSha1 h ps

def sha1 (p : Bytes) : Bytes :=
  (blocksSha1 [0x67452301, 0xEFCDAB89, 0x98BADCFE, 0x10325476, 0xC3D2E1F0] (pieces 64 (mdPad p))).flatMap
    (putBe 4)

def quarterRound (i j k l : Nat) (x : List Nat) : List Nat :=
  withValue (add32 (word x i) (word x j)) fun a =>
  withValue (rotl32 (word x l ^^^ a) 16) fun d =>
  withValue (add32 (word x k) d) fun c =>
  withValue (rotl32 (word x j ^^^ c) 12) fun b =>
  withValue (add32 a b) fun a =>
  withValue (rotl32 (d ^^^ a) 8) fun d =>
  withValue (add32 c d) fun c =>
  withValue (rotl32 (b ^^^ c) 7) fun b => withList ((((x.set i a).set j b).set k c).set l d) id

def doubleRound (x : List Nat) : List Nat :=
  [(0, 4, 8, 12), (1, 5, 9, 13), (2, 6, 10, 14), (3, 7, 11, 15), (0, 5, 10, 15), (1, 6, 11, 12),
    (2, 7, 8, 13), (3, 4, 9, 14)].foldl (fun x (i, j, k, l) => quarterRound i j k l x) x

def doubleRounds : Nat → List Nat → List Nat
  | 0, x => x
  | n + 1, x => doubleRounds n (doubleRound x)

def chachaBlock (key nonce : Bytes) (counter : Nat) : Bytes :=
  withList ([0x61707865, 0x3320646e, 0x79622d32, 0x6b206574] ++ (pieces 4 key).map le ++ [counter % 2 ^ 32] ++
    (pieces 4 nonce).map le) fun st =>
      (List.zipWith add32 st (doubleRounds 10 st)).flatMap (putLe 4)

def chacha20 (input key nonce : Bytes) (counter : Nat) : Bytes :=
  (pieces 64 input).zipIdx.flatMap fun (p, i) => List.zipWith (· ^^^ ·) p (chachaBlock key nonce (counter + i))

def poly1305Loop (r : Nat) : List Bytes → Nat → Nat
  | [], acc => acc
  | p :: ps, acc => withValue ((acc + le (p ++ [1])) * r % (2 ^ 130 - 5)) fun acc => poly1305Loop r ps acc

def poly1305 (msg key : Bytes) : Bytes :=
  let r := le (key.take 16) &&& 0x0ffffffc0ffffffc0ffffffc0fffffff
  putLe 16 (poly1305Loop r (pieces 16 msg) 0 + le ((key.drop 16).take 16))

def pad16 (p : Bytes) : Bytes := p ++ List.replicate ((16 - p.length % 16) % 16) 0

def chachaPolyTag (ct ad key nonce : Bytes) : Bytes :=
  poly1305 (pad16 ad ++ pad16 ct ++ le64 ad.length ++ le64 ct.length) (chachaBlock key nonce 0)

def curveP : Nat := 2 ^ 255 - 19

def subP (a b : Nat) : Nat := (a + curveP - b) % curveP

def powP (base : Nat) : Nat → Nat → Nat → Nat
  | 0, _, acc => acc
  | fuel + 1, e, acc =>
      withValue (acc * acc % curveP) fun acc =>
        withValue (if e >>> fuel % 2 = 1 then acc * base % curveP else acc) fun acc => powP base fuel e acc

structure Ladder where
  x2 : Nat
  z2 : Nat
  x3 : Nat
  z3 : Nat

def ladderStep (x1 : Nat) (bit : Bool) (s : Ladder) : Ladder :=
  let (x2, z2, x3, z3) := if bit then (s.x3, s.z3, s.x2, s.z2) else (s.x2, s.z2, s.x3, s.z3)
  withValue ((x2 + z2) % curveP) fun a =>
  withValue (a * a % curveP) fun aa =>
  withValue (subP x2 z2) fun b =>
  withValue (b * b % curveP) fun bb =>
  withValue (subP aa bb) fun e =>
  withValue (subP x3 z3 * a % curveP) fun da =>
  withValue ((x3 + z3) * b % curveP) fun cb =>
  withValue ((da + cb) * (da + cb) % curveP) fun x3 =>
  withValue (x1 * (subP da cb * subP da cb % curveP) % curveP) fun z3 =>
  withValue (aa * bb % curveP) fun x2 =>
  withValue (e * ((aa + 121665 * e) % curveP) % curveP) fun z2 =>
    if bit then ⟨x3, z3, x2, z2⟩ else ⟨x2, z2, x3, z3⟩

def ladder (x1 k : Nat) : Nat → Ladder → Ladder
  | 0, s => s
  | fuel + 1, s => ladder x1 k fuel (ladderStep x1 (k >>> fuel % 2 = 1) s)

def x25519 (scalar point : Bytes) : Bytes :=
  withValue (le (scalar.take 32) % 2 ^ 254 / 8 * 8 + 2 ^ 254) fun k =>
    withValue (le (point.take 32) % 2 ^ 255 % curveP) fun x1 =>
      let s := ladder x1 k 255 ⟨1, 0, x1, 1⟩
      withValue (s.x2 * powP s.z2 255 (curveP - 2) 1 % curveP) fun u => putLe 32 u

def reference : Crypto := ⟨sha1, sha256, x25519, chacha20, chachaPolyTag⟩

end TetherDesk.Secure
