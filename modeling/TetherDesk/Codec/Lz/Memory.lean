import TetherDesk.Codec.Lz
import TetherDesk.Lib.Buffer

namespace TetherDesk.Codec

open TetherDesk.Lib.Buffer

-- The compressor and the decompressor on the arrays they are given. The outer
-- none is an access outside an array, a read of an element nothing has been
-- written to, a copy that overlaps itself, a size_t difference below zero or a
-- loop that goes on; the inner one is the return value -1.

-- read_len: the position behind the length bytes and the length.
def readLenAt (src : Bytes) : Nat → Nat → Nat → Option (Option (Nat × Nat))
  | 0, _, _ => none
  | fuel + 1, ip, len =>
      if ip ≥ src.length then some none
      else do
        let b ← src[ip]?
        if b = 255 then readLenAt src fuel (ip + 1) (len + b.toNat)
        else some (some (ip + 1, len + b.toNat))

def readNibbleLenAt (src : Bytes) (nibble ip : Nat) : Option (Option (Nat × Nat)) :=
  if nibble = 15 then readLenAt src (src.length + 1) ip nibble else some (some (ip, nibble))

def copyMatchAt (dst : Cells UInt8) (d s off ml : Nat) : Option (Cells UInt8) :=
  if off ≥ ml then copyBlock dst d s ml else copyForward dst d s ml

-- From the offset of a sequence to the end of its match.
def decompressMatchAt (src : Bytes) (t : UInt8) (cap ip op : Nat) (dst : Cells UInt8) :
    Option (Option (Nat × Nat × Cells UInt8)) := do
  let left ← sub src.length ip
  if left < 2 then some none
  else
    let o₀ ← src[ip]?
    let o₁ ← src[ip + 1]?
    let off := o₀.toNat ||| (o₁.toNat <<< 8)
    if off = 0 ∨ off > op then some none
    else
      match ← readNibbleLenAt src (t.toNat &&& 15) (ip + 2) with
      | none => some none
      | some (ip, ml) =>
          let ml := ml + LZ_MIN_MATCH
          let room ← sub cap op
          if ml > room then some none
          else
            let s ← sub op off
            let dst ← copyMatchAt dst op s off ml
            some (some (ip, op + ml, dst))

def decompressLoopAt (src : Bytes) (cap : Nat) :
    Nat → Nat → Nat → Cells UInt8 → Option (Option (Nat × Cells UInt8))
  | 0, _, _, _ => none
  | fuel + 1, ip, op, dst =>
      if ip ≥ src.length then some (some (op, dst))
      else do
        let t ← src[ip]?
        match ← readNibbleLenAt src (t.toNat >>> 4) (ip + 1) with
        | none => some none
        | some (ip, lit) =>
            let left ← sub src.length ip
            let room ← sub cap op
            if lit > left ∨ lit > room then some none
            else
              let literals ← slice src ip lit
              let dst ← storeAll dst op literals
              -- final literal-only sequence
              if ip + lit = src.length then some (some (op + lit, dst))
              else
                match ← decompressMatchAt src t cap (ip + lit) (op + lit) dst with
                | none => some none
                | some (ip, op, dst) => decompressLoopAt src cap fuel ip op dst

-- The length and the array after the call.
def rdLzDecompressInto (src : Bytes) (cap : Nat) (dst : Cells UInt8) :
    Option (Option (Nat × Cells UInt8)) :=
  decompressLoopAt src cap (src.length + 1) 0 0 dst

def read32At (src : Bytes) (p : Nat) : Option UInt32 := do
  let _ ← slice src p 4
  return read32 src p

-- table[h], an array of 1 << LZ_HASH_LOG words.
def slotAt (table : Nat → Nat) (h : Nat) : Option Nat :=
  if h < 1 <<< LZ_HASH_LOG then some (table h) else none

def setSlotAt (table : Nat → Nat) (h v : Nat) : Option (Nat → Nat) :=
  if h < 1 <<< LZ_HASH_LOG then some (Function.update table h v) else none

-- The write position moves past a byte that is filled in later.
def reserve (dst : Cells UInt8) (op : Nat) : Option Nat := if op < dst.length then some (op + 1) else none

def putLenAt : Nat → Cells UInt8 → Nat → Nat → Option (Nat × Cells UInt8)
  | 0, _, _, _ => none
  | fuel + 1, dst, op, len =>
      if len ≥ 255 then do
        let dst ← store dst op 255
        putLenAt fuel dst (op + 1) (len - 255)
      else do
        let dst ← store dst op (UInt8.ofNat len)
        some (op + 1, dst)

-- put_len for a length of 15 or more, which the nibble does not hold.
def putNibbleLenAt (dst : Cells UInt8) (op n : Nat) : Option (Nat × Cells UInt8) :=
  if n ≥ 15 then putLenAt (n + 1) dst op (n - 15) else some (op, dst)

def emitLiteralsAt (src : Bytes) (dst : Cells UInt8) (op token lit n : Nat) : Option (Nat × Cells UInt8) := do
  let dst ← store dst token (UInt8.ofNat ((if n ≥ 15 then 15 else n) <<< 4))
  let (op, dst) ← putNibbleLenAt dst op n
  let literals ← slice src lit n
  let dst ← storeAll dst op literals
  some (op + n, dst)

def emitSequenceAt (src : Bytes) (dst : Cells UInt8) (op anchor ip ref m : Nat) :
    Option (Nat × Cells UInt8) := do
  let token := op
  let op ← reserve dst op
  let n ← sub ip anchor
  let (op, dst) ← emitLiteralsAt src dst op token anchor n
  let off ← sub ip ref
  let dst ← store dst op (UInt8.ofNat off)
  let dst ← store dst (op + 1) (UInt8.ofNat (off >>> 8))
  let ml ← sub m LZ_MIN_MATCH
  let t ← load dst token
  let dst ← store dst token (t ||| UInt8.ofNat (if ml ≥ 15 then 15 else ml))
  putNibbleLenAt dst (op + 2) ml

def extendForwardAt (src : Bytes) (ref ip maxm : Nat) : Nat → Nat → Option Nat
  | 0, _ => none
  | fuel + 1, m =>
      if m < maxm then do
        let a ← src[ref + m]?
        let b ← src[ip + m]?
        if a = b then extendForwardAt src ref ip maxm fuel (m + 1) else some m
      else some m

def extendBackwardAt (src : Bytes) (anchor : Nat) : Nat → Nat → Nat → Option (Nat × Nat × Nat)
  | ip + 1, ref + 1, m =>
      if anchor < ip + 1 then do
        let a ← src[ip]?
        let b ← src[ref]?
        if a = b then extendBackwardAt src anchor ip ref (m + 1) else some (ip + 1, ref + 1, m)
      else some (ip + 1, ref + 1, m)
  | ip, ref, m => some (ip, ref, m)

def candidateAt (src : Bytes) (ip cand : Nat) (seq : UInt32) : Option (Option Nat) :=
  if cand = 0 then some none
  else do
    let ref ← sub cand 1
    let off ← sub ip ref
    if off > 65535 then some none
    else
      let word ← read32At src ref
      if word ≠ seq then some none else some (some ref)

-- The state of the search loop with the output in an array.
structure LzCursor where
  ip : Nat
  anchor : Nat
  table : Nat → Nat
  op : Nat
  dst : Cells UInt8

def compressStepAt (src : Bytes) (st : LzCursor) : Option LzCursor := do
  let limit ← sub src.length LZ_MF_LIMIT
  let seq ← read32At src st.ip
  let cand ← slotAt st.table (lzHash seq)
  let table ← setSlotAt st.table (lzHash seq) ((st.ip + 1) % 2 ^ 32)
  match ← candidateAt src st.ip cand seq with
  | none =>
      let run ← sub st.ip st.anchor
      some { st with ip := st.ip + (1 + (run >>> 6)), table := table }
  | some ref =>
      let end' ← sub src.length LZ_LAST_LITERALS
      let maxm ← sub end' st.ip
      let m ← extendForwardAt src ref st.ip maxm (maxm + 1) LZ_MIN_MATCH
      let (ip, ref, m) ← extendBackwardAt src st.anchor st.ip ref m
      let (op, dst) ← emitSequenceAt src st.dst st.op st.anchor ip ref m
      let next := ip + m
      let behind ← sub next 2
      if behind ≤ limit then
        let s2 ← read32At src behind
        let table ← setSlotAt table (lzHash s2) ((behind + 1) % 2 ^ 32)
        some { ip := next, anchor := next, table := table, op := op, dst := dst }
      else some { ip := next, anchor := next, table := table, op := op, dst := dst }

def compressLoopAt (src : Bytes) : Nat → LzCursor → Option LzCursor
  | 0, _ => none
  | fuel + 1, st => do
      let limit ← sub src.length LZ_MF_LIMIT
      if st.ip ≤ limit then
        let st ← compressStepAt src st
        compressLoopAt src fuel st
      else some st

-- The length and the array after the call.
def rdLzCompressInto (src : Bytes) (cap : Nat) (dst : Cells UInt8) : Option (Nat × Cells UInt8) :=
  if cap < rdLzBound src.length then some (0, dst)
  else do
    let st₀ : LzCursor := { ip := 0, anchor := 0, table := fun _ => 0, op := 0, dst := dst }
    let st ← (if src.length ≥ LZ_MF_LIMIT then compressLoopAt src (src.length + 1) st₀ else some st₀)
    let token := st.op
    let op ← reserve st.dst st.op
    let n ← sub src.length st.anchor
    emitLiteralsAt src st.dst op token st.anchor n

end TetherDesk.Codec
