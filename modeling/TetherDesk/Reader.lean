import TetherDesk.Bytes

namespace TetherDesk

def le16 (v : Nat) : Bytes := [UInt8.ofNat v, UInt8.ofNat (v >>> 8)]
def le32 (v : Nat) : Bytes := le16 v ++ le16 (v >>> 16)
def le64 (v : Nat) : Bytes := le32 v ++ le32 (v >>> 32)

def rd16 (p : Bytes) : Nat := (byteAt p 0).toNat + 2 ^ 8 * (byteAt p 1).toNat
def rd32 (p : Bytes) : Nat := rd16 p + 2 ^ 16 * rd16 (p.drop 2)

-- The C string at the start of a buffer.
def cStr (p : Bytes) : Bytes := p.takeWhile (· ≠ 0)

-- The bytes each rd_buf_put_* function appends; growing the buffer succeeds.
def putU8 (v : Nat) : Bytes := [UInt8.ofNat v]
def putU16 (v : Nat) : Bytes := le16 v
def putU32 (v : Nat) : Bytes := le32 v
def putU64 (v : Nat) : Bytes := le64 v

def putStr (s : Bytes) : Bytes :=
  let s := (cStr s).take 0xFFFF
  putU16 s.length ++ s

def putBlob (p : Bytes) : Bytes := putU32 p.length ++ p

def rdBufConsume (b : Bytes) (n : Nat) : Bytes := if n ≥ b.length then [] else b.drop n

-- Overwrite n bytes at off when they lie inside the buffer.
def rdBufPatch (b : Bytes) (off : Nat) (v : Bytes) : Bytes :=
  if off + v.length ≤ b.length then b.take off ++ v ++ b.drop (off + v.length) else b

def rdBufPatchU32 (b : Bytes) (off v : Nat) : Bytes := rdBufPatch b off (le32 v)
def rdBufPatchU16 (b : Bytes) (off v : Nat) : Bytes := rdBufPatch b off (le16 v)

theorem rdBufPatch_over (a v w b : Bytes) (h : w.length = v.length) : rdBufPatch (a ++ v ++ b) a.length w =
    a ++ w ++ b := by
  have hinside : a.length + w.length ≤ (a ++ v ++ b).length := by
    rw [List.length_append, List.length_append]
    omega
  rw [rdBufPatch, if_pos hinside, h, ← List.length_append, List.drop_left, List.append_assoc a v, List.take_left]

-- `rest` is p[pos..len).
structure Reader where
  rest : Bytes
  err : Bool

def rdReaderInit (p : Bytes) : Reader := ⟨p, false⟩

def rdRemaining (r : Reader) : Nat := if r.err then 0 else r.rest.length

def rdGetBytes (r : Reader) (n : Nat) : Option Bytes × Reader :=
  if r.err ∨ r.rest.length < n then (none, { r with err := true })
  else (some (r.rest.take n), { r with rest := r.rest.drop n })

def rdGetU8 (r : Reader) : Nat × Reader :=
  match rdGetBytes r 1 with
  | (some p, r) => ((byteAt p 0).toNat, r)
  | (none, r) => (0, r)

def rdGetU16 (r : Reader) : Nat × Reader :=
  match rdGetBytes r 2 with
  | (some p, r) => (rd16 p, r)
  | (none, r) => (0, r)

def rdGetI16 (r : Reader) : Int × Reader :=
  let (v, r) := rdGetU16 r
  (if v < 2 ^ 15 then v else v - 2 ^ 16, r)

def rdGetU32 (r : Reader) : Nat × Reader :=
  match rdGetBytes r 4 with
  | (some p, r) => (rd32 p, r)
  | (none, r) => (0, r)

def rdGetU64 (r : Reader) : Nat × Reader :=
  let (lo, r) := rdGetU32 r
  let (hi, r) := rdGetU32 r
  (lo ||| (hi <<< 32), r)

-- The bytes copied into out before its terminating NUL.
def rdGetStr (r : Reader) (cap : Nat) : Bytes × Reader :=
  let (n, r) := rdGetU16 r
  match rdGetBytes r n with
  | (some p, r) => (p.take (cap - 1), r)
  | (none, r) => ([], r)

def rdGetBlob (r : Reader) : Option Bytes × Reader :=
  let (n, r) := rdGetU32 r
  rdGetBytes r n

end TetherDesk
