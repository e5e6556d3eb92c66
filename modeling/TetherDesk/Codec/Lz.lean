import TetherDesk.Bytes
import TetherDesk.Lib.BackReference
import Mathlib.Logic.Function.Basic

namespace TetherDesk.Codec

open TetherDesk.Lib.BackReference

def LZ_HASH_LOG : Nat := 13
def LZ_MIN_MATCH : Nat := 4
def LZ_LAST_LITERALS : Nat := 5
def LZ_MF_LIMIT : Nat := 12

def read32 (src : Bytes) (p : Nat) : UInt32 :=
  (byteAt src p).toUInt32 ||| ((byteAt src (p + 1)).toUInt32 <<< 8) |||
    ((byteAt src (p + 2)).toUInt32 <<< 16) ||| ((byteAt src (p + 3)).toUInt32 <<< 24)

def rdLzBound (n : Nat) : Nat := n + n / 255 + 16

-- The bytes put_len writes for a length.
def putLen (len : Nat) : Bytes :=
  List.replicate (len / 255) 255 ++ [UInt8.ofNat (len % 255)]

-- The token's high nibble and the bytes that follow the token.
def emitLiterals (lit : Bytes) : UInt8 × Bytes :=
  (UInt8.ofNat ((if lit.length ≥ 15 then 15 else lit.length) <<< 4),
    (if lit.length ≥ 15 then putLen (lit.length - 15) else []) ++ lit)

-- One complete sequence: the reserved token byte, the literals, the offset and
-- the rest of the match length.
def emitSequence (lit : Bytes) (off m : Nat) : Bytes :=
  let ml := m - LZ_MIN_MATCH
  let (token, body) := emitLiterals lit
  (token ||| UInt8.ofNat (if ml ≥ 15 then 15 else ml)) ::
    (body ++ [UInt8.ofNat off, UInt8.ofNat (off >>> 8)] ++
      if ml ≥ 15 then putLen (ml - 15) else [])

-- table[h] holds a position plus one, 0 when unused. `op` is dst[0..op).
structure LzState where
  ip : Nat
  anchor : Nat
  table : Nat → Nat
  op : Bytes

def lzHash (seq : UInt32) : Nat := ((seq * (2654435761 : UInt32)) >>> UInt32.ofNat (32 - LZ_HASH_LOG)).toNat

-- while (m < maxm && src[ref + m] == src[ip + m]) m++;
def extendForward (src : Bytes) (ref ip maxm : Nat) : Nat → Nat → Nat
  | 0, m => m
  | fuel + 1, m =>
      if m < maxm ∧ byteAt src (ref + m) = byteAt src (ip + m) then
        extendForward src ref ip maxm fuel (m + 1)
      else m

-- while (ip > anchor && ref > 0 && src[ip - 1] == src[ref - 1]) ip--, ref--, m++;
def extendBackward (src : Bytes) (anchor : Nat) : Nat → Nat → Nat → Nat × Nat × Nat
  | ip + 1, ref + 1, m =>
      if anchor < ip + 1 ∧ byteAt src ip = byteAt src ref then
        extendBackward src anchor ip ref (m + 1)
      else (ip + 1, ref + 1, m)
  | ip, ref, m => (ip, ref, m)

-- The candidate position, when the guard accepts it. The subtraction is on
-- size_t, so a candidate ahead of ip would wrap and be refused as too far.
def candidate (src : Bytes) (ip cand : Nat) (seq : UInt32) : Option Nat :=
  if cand = 0 ∨ cand - 1 > ip ∨ ip - (cand - 1) > 65535 ∨ read32 src (cand - 1) ≠ seq then none
  else some (cand - 1)

-- One iteration of the search loop.
def compressStep (src : Bytes) (st : LzState) : LzState :=
  let limit := src.length - LZ_MF_LIMIT
  let seq := read32 src st.ip
  let h := lzHash seq
  let cand := st.table h
  let table := Function.update st.table h ((st.ip + 1) % 2 ^ 32)
  match candidate src st.ip cand seq with
  | none => { st with ip := st.ip + (1 + ((st.ip - st.anchor) >>> 6)), table := table }
  | some ref =>
      let maxm := src.length - LZ_LAST_LITERALS - st.ip
      let m := extendForward src ref st.ip maxm maxm LZ_MIN_MATCH
      let (ip, ref, m) := extendBackward src st.anchor st.ip ref m
      let op := st.op ++ emitSequence ((src.drop st.anchor).take (ip - st.anchor)) (ip - ref) m
      let next := ip + m
      { ip := next
        anchor := next
        table :=
          if next - 2 ≤ limit then
            Function.update table (lzHash (read32 src (next - 2))) ((next - 2 + 1) % 2 ^ 32)
          else table
        op := op }

-- Every iteration advances ip, so the input length bounds the iterations.
def compressLoop (src : Bytes) : Nat → LzState → LzState
  | 0, st => st
  | fuel + 1, st =>
      if st.ip ≤ src.length - LZ_MF_LIMIT then compressLoop src fuel (compressStep src st) else st

-- The compressed bytes; [] stands for the return value 0.
def rdLzCompress (src : Bytes) (cap : Nat) : Bytes :=
  if cap < rdLzBound src.length then []
  else
    let st₀ : LzState := { ip := 0, anchor := 0, table := fun _ => 0, op := [] }
    let st := if src.length ≥ LZ_MF_LIMIT then compressLoop src src.length st₀ else st₀
    let (token, body) := emitLiterals (src.drop st.anchor)
    st.op ++ token :: body

-- The length and the input left; none when the input ends inside the length.
def readLen : Bytes → Nat → Option (Nat × Bytes)
  | [], _ => none
  | b :: rest, len => if b = 255 then readLen rest (len + 255) else some (len + b.toNat, rest)

-- A nibble of the token, followed by length bytes when it is 15.
def readNibbleLen (nibble : Nat) (rest : Bytes) : Option (Nat × Bytes) :=
  if nibble = 15 then readLen rest 15 else some (nibble, rest)

-- The match of one sequence: offset, length and the copy out of dst.
def decompressMatch (token : UInt8) (cap : Nat) (rest dst : Bytes) : Option (Bytes × Bytes) :=
  match rest with
  | o₀ :: o₁ :: rest =>
      let off := o₀.toNat ||| (o₁.toNat <<< 8)
      if off = 0 ∨ off > dst.length then none
      else
        match readNibbleLen (token.toNat &&& 15) rest with
        | none => none
        | some (ml, rest) =>
            let ml := ml + LZ_MIN_MATCH
            if ml > cap - dst.length then none
            else if off ≥ ml then
              some (rest, dst ++ (dst.drop (dst.length - off)).take ml)
            else some (rest, copyBack off ml dst)
  | _ => none

-- src[ip..n) is the list `rest`, dst[0..op) the list `dst`.
def decompressLoop (cap : Nat) : Nat → Bytes → Bytes → Option Bytes
  | _, [], dst => some dst
  | 0, _ :: _, _ => none
  | fuel + 1, t :: rest, dst =>
      match readNibbleLen (t.toNat >>> 4) rest with
      | none => none
      | some (lit, rest) =>
          if lit > rest.length ∨ lit > cap - dst.length then none
          else
            let dst := dst ++ rest.take lit
            let rest := rest.drop lit
            -- final literal-only sequence
            if rest = [] then some dst
            else
              match decompressMatch t cap rest dst with
              | none => none
              | some (rest, dst) => decompressLoop cap fuel rest dst

-- The decompressed bytes; none stands for the return value -1.
def rdLzDecompress (src : Bytes) (cap : Nat) : Option Bytes :=
  decompressLoop cap src.length src []

end TetherDesk.Codec
