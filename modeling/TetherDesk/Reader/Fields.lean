import TetherDesk.Reader.Buffer
import TetherDesk.Reader.Memory
import TetherDesk.Reader.Theorems

namespace TetherDesk

open TetherDesk.Lib.Buffer

-- A text with its NUL in the array out; an array of no bytes stays as it is.
def terminated (out text : Bytes) : Bytes := if out = [] then [] else text ++ 0 :: out.drop (text.length + 1)

-- rd_get_str with the array out of cap bytes and the return value.
def rdGetStrOut (r : Reader) (out : Bytes) : (Bytes × Nat) × Reader :=
  let (n, r) := rdGetU16 r
  match rdGetBytes r n with
  | (some p, r) => ((terminated out (p.take (out.length - 1)), n), r)
  | (none, r) => ((terminated out [], 0), r)

-- The array holds the text that rdGetStr gives.
theorem rdGetStrOut_eq (r : Reader) (out : Bytes) :
    (rdGetStrOut r out).1.1 = terminated out (rdGetStr r out.length).1 ∧ (rdGetStrOut r out).2 =
      (rdGetStr r out.length).2 := by
  unfold rdGetStrOut rdGetStr
  dsimp only
  cases rdGetBytes (rdGetU16 r).2 (rdGetU16 r).1 with
  | mk p r => cases p <;> exact ⟨rfl, rfl⟩

def rdGetI16At (m : Bytes) (r : ReaderAt) : Option (Int × ReaderAt) := do
  let (v, r) ← rdGetU16At m r
  some (if v < 2 ^ 15 then v else v - 2 ^ 16, r)

def rdGetU64At (m : Bytes) (r : ReaderAt) : Option (Nat × ReaderAt) := do
  let (lo, r) ← rdGetU32At m r
  let (hi, r) ← rdGetU32At m r
  some (lo ||| (hi <<< 32), r)

-- The copy of c bytes into out and the NUL behind them.
def copyStrAt (out text : Bytes) : Option Bytes :=
  if text.length < out.length then some (text ++ 0 :: out.drop (text.length + 1)) else none

def rdGetStrAt (m : Bytes) (out : Bytes) (r : ReaderAt) : Option ((Bytes × Nat) × ReaderAt) := do
  let cap := out.length
  let (n, r) ← rdGetU16At m r
  match ← rdGetBytesAt m r n with
  | (some p, r) =>
      if cap ≠ 0 then
        let text ← slice m p (if n < cap - 1 then n else cap - 1)
        let out ← copyStrAt out text
        some ((out, n), r)
      else some ((out, n), r)
  | (none, r) =>
      if cap ≠ 0 then
        let out ← copyStrAt out []
        some ((out, 0), r)
      else some ((out, 0), r)

def rdGetRawAt (m : Bytes) (n : Nat) (r : ReaderAt) : Option (Option Bytes × ReaderAt) := do
  match ← rdGetBytesAt m r n with
  | (some p, r) =>
      let raw ← slice m p n
      some (some raw, r)
  | (none, r) => some (none, r)

-- A field to write: a string ends at its NUL, and n of rd_buf_put_blob is a u32.
inductive Field
  | u8 (v : UInt8)
  | u16 (v : UInt16)
  | i16 (v : Int16)
  | u32 (v : UInt32)
  | u64 (v : UInt64)
  | str (s : { s : Bytes // 0 ∉ s })
  | blob (p : { p : Bytes // p.length < 2 ^ 32 })
  | raw (p : Bytes)

-- A field to read; a string goes to an array.
inductive Kind
  | u8
  | u16
  | i16
  | u32
  | u64
  | str (out : Bytes)
  | blob
  | raw (n : Nat)

-- What is read; none is NULL.
inductive Value
  | nat (v : Nat)
  | int (v : Int)
  | str (out : Bytes) (n : Nat)
  | bytes (p : Option Bytes)

-- The kind a field is read as, out being the array for a string.
def Field.kind (out : Bytes) : Field → Kind
  | .u8 _ => .u8
  | .u16 _ => .u16
  | .i16 _ => .i16
  | .u32 _ => .u32
  | .u64 _ => .u64
  | .str _ => .str out
  | .blob _ => .blob
  | .raw p => .raw p.length

def putField (b : Buf) : Field → Option Buf
  | .u8 v => rdBufPutU8 b v
  | .u16 v => rdBufPutU16 b v
  | .i16 v => rdBufPutU16 b v.toUInt16
  | .u32 v => rdBufPutU32 b v
  | .u64 v => rdBufPutU64 b v
  | .str s => rdBufPutStr b s
  | .blob p => rdBufPutBlob b p
  | .raw p => rdBufPut b p

def getField (m : Bytes) (r : ReaderAt) : Kind → Option (Value × ReaderAt)
  | .u8 => (rdGetU8At m r).map fun (v, r) => (.nat v, r)
  | .u16 => (rdGetU16At m r).map fun (v, r) => (.nat v, r)
  | .i16 => (rdGetI16At m r).map fun (v, r) => (.int v, r)
  | .u32 => (rdGetU32At m r).map fun (v, r) => (.nat v, r)
  | .u64 => (rdGetU64At m r).map fun (v, r) => (.nat v, r)
  | .str out => (rdGetStrAt m out r).map fun ((out, n), r) => (.str out n, r)
  | .blob => (rdGetBlobAt m r).map fun (p, r) => (.bytes p, r)
  | .raw n => (rdGetRawAt m n r).map fun (p, r) => (.bytes p, r)

def putFields : Buf → List Field → Option Buf
  | b, [] => some b
  | b, f :: fields => do
      let b ← putField b f
      putFields b fields

def getFields (m : Bytes) : ReaderAt → List Kind → Option (List Value × ReaderAt)
  | r, [] => some ([], r)
  | r, k :: kinds => do
      let (v, r) ← getField m r k
      let (values, r) ← getFields m r kinds
      some (v :: values, r)

-- What reading a written field gives.
def Field.value (out : Bytes) : Field → Value
  | .u8 v => .nat v.toNat
  | .u16 v => .nat v.toNat
  | .i16 v => .int v.toInt
  | .u32 v => .nat v.toNat
  | .u64 v => .nat v.toNat
  | .str s => .str (terminated out (s.val.take (min 65535 (out.length - 1)))) (min s.val.length 65535)
  | .blob p => .bytes (some p)
  | .raw p => .bytes (some p)

-- What a read gives once err is set.
def Kind.zero : Kind → Value
  | .u8 | .u16 | .u32 | .u64 => .nat 0
  | .i16 => .int 0
  | .str out => .str (terminated out []) 0
  | .blob | .raw _ => .bytes none

-- The bytes a kind takes from the front of what is left.
def Kind.size (left : Bytes) : Kind → Nat
  | .u8 => 1
  | .u16 | .i16 => 2
  | .u32 => 4
  | .u64 => 8
  | .str _ => 2 + rd16 left
  | .blob => 4 + rd32 left
  | .raw n => n

def Enough : Bytes → List Kind → Prop
  | _, [] => True
  | left, k :: kinds => k.size left ≤ left.length ∧ Enough (left.drop (k.size left)) kinds

section Checked

variable {m : Bytes}

theorem ReadsAs.map {α β : Type} {checked : ReaderAt → Option (α × ReaderAt)} {read : Reader → α × Reader}
    (h : ReadsAs m checked read) (f : α → β) :
    ReadsAs m (fun r => (checked r).map fun (v, r) => (f v, r)) (fun r => (f (read r).1, (read r).2)) := by
  intro r hpos
  obtain ⟨v, r', hget, hpos', hread⟩ := h r hpos
  refine ⟨f v, r', ?_, hpos', ?_⟩
  · dsimp only
    rw [hget]
    rfl
  · dsimp only
    rw [hread]

theorem rdGetI16At_eq : ReadsAs m (rdGetI16At m) rdGetI16 := by
  intro r hpos
  obtain ⟨v, r', hget, hpos', hread⟩ := rdGetU16At_eq m r hpos
  rw [rdGetI16At, hget, rdGetI16, hread]
  exact ⟨_, r', rfl, hpos', rfl⟩

theorem rdGetU64At_eq : ReadsAs m (rdGetU64At m) rdGetU64 := by
  intro r hpos
  obtain ⟨lo, r₁, hlo, hpos₁, hread₁⟩ := rdGetU32At_eq m r hpos
  obtain ⟨hi, r', hhi, hpos', hread⟩ := rdGetU32At_eq m r₁ hpos₁
  rw [rdGetU64At, hlo, rdGetU64, hread₁]
  dsimp only [Option.bind_eq_bind, Option.bind_some]
  rw [hhi, hread]
  exact ⟨_, r', rfl, hpos', rfl⟩

theorem rdGetRawAt_eq (n : Nat) : ReadsAs m (rdGetRawAt m n) (rdGetBytes · n) := by
  intro r hpos
  obtain ⟨p, r', hget, hpos', hin, hread⟩ := rdGetBytesAt_eq m n r hpos
  dsimp only
  rw [rdGetRawAt, hget, hread, Option.bind_eq_bind, Option.bind_some]
  cases p with
  | none => exact ⟨none, r', rfl, hpos', rfl⟩
  | some p =>
      refine ⟨_, r', ?_, hpos', rfl⟩
      dsimp only
      rw [slice_of_le (hin p rfl)]
      rfl

theorem copyStrAt_eq {out text : Bytes} (h : text.length < out.length) : copyStrAt out text =
    some (terminated out text) := by
  have hne : out ≠ [] := List.ne_nil_of_length_pos (Nat.zero_lt_of_lt h)
  rw [copyStrAt, if_pos h, terminated, if_neg hne]

theorem rdGetStrAt_eq (out : Bytes) : ReadsAs m (rdGetStrAt m out) (rdGetStrOut · out) := by
  intro r hpos
  obtain ⟨n, r₁, hlen, hpos₁, hread₁⟩ := rdGetU16At_eq m r hpos
  obtain ⟨p, r', hget, hpos', hin, hread⟩ := rdGetBytesAt_eq m n r₁ hpos₁
  dsimp only
  rw [rdGetStrAt, hlen, rdGetStrOut, hread₁]
  dsimp only [Option.bind_eq_bind, Option.bind_some]
  rw [hget, hread, Option.bind_some]
  by_cases hout : out = []
  · subst hout
    cases p with
    | none => exact ⟨_, r', rfl, hpos', rfl⟩
    | some p => exact ⟨_, r', rfl, hpos', rfl⟩
  · have hcap : 0 < out.length := List.length_pos_iff.mpr hout
    cases p with
    | none =>
        refine ⟨_, r', ?_, hpos', rfl⟩
        dsimp only
        rw [if_pos hcap.ne', copyStrAt_eq (by exact hcap), Option.bind_some]
    | some p =>
        have hin := hin p rfl
        refine ⟨_, r', ?_, hpos', rfl⟩
        have htext : slice m p (if n < out.length - 1 then n else out.length - 1) =
            some (((m.drop p).take n).take (out.length - 1)) := by
          rw [slice_of_le (by split <;> omega), List.take_take]
          congr 2
          split <;> omega
        dsimp only
        rw [if_pos hcap.ne', htext, Option.bind_some, copyStrAt_eq (by rw [List.length_take]; omega),
          Option.bind_some]

end Checked

-- The reads on what is left.
def readField (r : Reader) : Kind → Value × Reader
  | .u8 => (.nat (rdGetU8 r).1, (rdGetU8 r).2)
  | .u16 => (.nat (rdGetU16 r).1, (rdGetU16 r).2)
  | .i16 => (.int (rdGetI16 r).1, (rdGetI16 r).2)
  | .u32 => (.nat (rdGetU32 r).1, (rdGetU32 r).2)
  | .u64 => (.nat (rdGetU64 r).1, (rdGetU64 r).2)
  | .str out => (.str (rdGetStrOut r out).1.1 (rdGetStrOut r out).1.2, (rdGetStrOut r out).2)
  | .blob => (.bytes (rdGetBlob r).1, (rdGetBlob r).2)
  | .raw n => (.bytes (rdGetBytes r n).1, (rdGetBytes r n).2)

theorem getField_eq (m : Bytes) (k : Kind) : ReadsAs m (getField m · k) (readField · k) := by
  cases k with
  | u8 => exact (rdGetU8At_eq m).map Value.nat
  | u16 => exact (rdGetU16At_eq m).map Value.nat
  | i16 => exact rdGetI16At_eq.map Value.int
  | u32 => exact (rdGetU32At_eq m).map Value.nat
  | u64 => exact rdGetU64At_eq.map Value.nat
  | str out => exact (rdGetStrAt_eq out).map fun (out, n) => Value.str out n
  | blob => exact (rdGetBlobAt_eq m).map Value.bytes
  | raw n => exact (rdGetRawAt_eq n).map Value.bytes

section Left

variable (left rest : Bytes)

theorem rdGetBytes_enough {n : Nat} (h : n ≤ left.length) :
    rdGetBytes ⟨left, false⟩ n = (some (left.take n), ⟨left.drop n, false⟩) := by
  rw [rdGetBytes, if_neg (by simpa using h)]

theorem rdGetBytes_short {n : Nat} (h : left.length < n) : rdGetBytes ⟨left, false⟩ n = (none, ⟨left, true⟩) := by
  rw [rdGetBytes, if_pos (.inr h)]

theorem rdGetBytes_err (n : Nat) : rdGetBytes ⟨left, true⟩ n = (none, ⟨left, true⟩) := if_pos (.inl rfl)

-- After an error every read gives zero and leaves the reader as it is.
theorem readField_err (k : Kind) : readField ⟨left, true⟩ k = (k.zero, ⟨left, true⟩) := by
  cases k <;>
    simp [readField, Kind.zero, rdGetU8, rdGetU16, rdGetI16, rdGetU32, rdGetU64, rdGetStrOut, rdGetBlob,
      rdGetBytes_err]

theorem rd16_take (n : Nat) : rd16 (left.take (n + 2)) = rd16 left := by
  unfold rd16 byteAt
  simp only [List.getD_eq_getElem?_getD]
  rw [List.getElem?_take_of_lt (by omega), List.getElem?_take_of_lt (by omega)]

theorem rd32_take : rd32 (left.take 4) = rd32 left := by
  unfold rd32
  rw [rd16_take left 2, List.drop_take, rd16_take _ 0]

theorem rdGetU16_enough (h : 2 ≤ left.length) : rdGetU16 ⟨left, false⟩ = (rd16 left, ⟨left.drop 2, false⟩) := by
  rw [rdGetU16, rdGetBytes_enough left h]
  dsimp only
  rw [rd16_take left 0]

theorem rdGetU16_short (h : left.length < 2) : rdGetU16 ⟨left, false⟩ = (0, ⟨left, true⟩) := by
  rw [rdGetU16, rdGetBytes_short left h]

theorem rdGetU32_enough (h : 4 ≤ left.length) : rdGetU32 ⟨left, false⟩ = (rd32 left, ⟨left.drop 4, false⟩) := by
  rw [rdGetU32, rdGetBytes_enough left h]
  dsimp only
  rw [rd32_take]

theorem rdGetU32_short (h : left.length < 4) : rdGetU32 ⟨left, false⟩ = (0, ⟨left, true⟩) := by
  rw [rdGetU32, rdGetBytes_short left h]

theorem rdGetU32_err : rdGetU32 ⟨left, true⟩ = (0, ⟨left, true⟩) := by
  rw [rdGetU32, rdGetBytes_err]

theorem readField_enough (k : Kind) (h : k.size left ≤ left.length) :
    (readField ⟨left, false⟩ k).2 = ⟨left.drop (k.size left), false⟩ := by
  cases k with
  | u8 =>
      change 1 ≤ left.length at h
      simp only [readField, rdGetU8, rdGetBytes_enough left h, Kind.size]
  | u16 => simp only [readField, rdGetU16_enough left h, Kind.size]
  | i16 => simp only [readField, rdGetI16, rdGetU16_enough left h, Kind.size]
  | u32 => simp only [readField, rdGetU32_enough left h, Kind.size]
  | u64 =>
      change 8 ≤ left.length at h
      have hlater : 4 ≤ (left.drop 4).length := by rw [List.length_drop]; omega
      simp only [readField, rdGetU64, rdGetU32_enough left (by omega), rdGetU32_enough _ hlater, Kind.size,
        List.drop_drop]
  | str out =>
      change 2 + rd16 left ≤ left.length at h
      have hlater : rd16 left ≤ (left.drop 2).length := by rw [List.length_drop]; omega
      simp only [readField, rdGetStrOut, rdGetU16_enough left (by omega), rdGetBytes_enough _ hlater,
        Kind.size, List.drop_drop]
  | blob =>
      change 4 + rd32 left ≤ left.length at h
      have hlater : rd32 left ≤ (left.drop 4).length := by rw [List.length_drop]; omega
      simp only [readField, rdGetBlob, rdGetU32_enough left (by omega), rdGetBytes_enough _ hlater, Kind.size,
        List.drop_drop]
  | raw n =>
      change n ≤ left.length at h
      simp only [readField, rdGetBytes_enough left h, Kind.size]

theorem readField_short (k : Kind) (h : left.length < k.size left) : (readField ⟨left, false⟩ k).2.err = true := by
  cases k with
  | u8 =>
      change left.length < 1 at h
      simp only [readField, rdGetU8, rdGetBytes_short left h]
  | u16 => simp only [readField, rdGetU16_short left h]
  | i16 => simp only [readField, rdGetI16, rdGetU16_short left h]
  | u32 => simp only [readField, rdGetU32_short left h]
  | u64 =>
      change left.length < 8 at h
      by_cases hlow : 4 ≤ left.length
      · have hlater : (left.drop 4).length < 4 := by rw [List.length_drop]; omega
        simp only [readField, rdGetU64, rdGetU32_enough left hlow, rdGetU32_short _ hlater]
      · simp only [readField, rdGetU64, rdGetU32_short left (by omega), rdGetU32_err]
  | str out =>
      change left.length < 2 + rd16 left at h
      by_cases hlow : 2 ≤ left.length
      · have hlater : (left.drop 2).length < rd16 left := by rw [List.length_drop]; omega
        simp only [readField, rdGetStrOut, rdGetU16_enough left hlow, rdGetBytes_short _ hlater]
      · simp only [readField, rdGetStrOut, rdGetU16_short left (by omega), rdGetBytes_err]
  | blob =>
      change left.length < 4 + rd32 left at h
      by_cases hlow : 4 ≤ left.length
      · have hlater : (left.drop 4).length < rd32 left := by rw [List.length_drop]; omega
        simp only [readField, rdGetBlob, rdGetU32_enough left hlow, rdGetBytes_short _ hlater]
      · simp only [readField, rdGetBlob, rdGetU32_short left (by omega), rdGetBytes_err]
  | raw n =>
      change left.length < n at h
      simp only [readField, rdGetBytes_short left h]

end Left

-- What a field puts.
def Field.wire : Field → Bytes
  | .u8 v => putU8 v.toNat
  | .u16 v => putU16 v.toNat
  | .i16 v => putU16 v.toUInt16.toNat
  | .u32 v => putU32 v.toNat
  | .u64 v => putU64 v.toNat
  | .str s => putStr s
  | .blob p => putBlob p
  | .raw p => p

theorem putField_wire {b : Buf} {out : Bytes} (h : Holds b out) (f : Field) :
    ∃ b', putField b f = some b' ∧ Holds b' (out ++ f.wire) := by
  cases f with
  | u8 v => exact h.u8 v
  | u16 v => exact h.u16 v
  | i16 v => exact h.u16 v.toUInt16
  | u32 v => exact h.u32 v
  | u64 v => exact h.u64 v
  | str s => exact h.str s
  | blob p => exact h.blob p p.property
  | raw p => exact h.put p

section RoundTrip

variable (rest : Bytes)

theorem rdGetI16_put (v : Int16) : rdGetI16 ⟨putU16 v.toUInt16.toNat ++ rest, false⟩ =
    (v.toInt, ⟨rest, false⟩) := by
  rw [rdGetI16, rdGetU16_putU16 _ v.toUInt16.toNat_lt]
  dsimp only
  have hint : v.toInt = if 2 * v.toUInt16.toNat < 2 ^ 16 then (v.toUInt16.toNat : Int) else v.toUInt16.toNat -
      2 ^ 16 := by
    exact BitVec.toInt_eq_toNat_cond v.toBitVec
  rw [hint]
  congr 1
  split_ifs <;> omega

theorem rdGetU64_put (v : UInt64) : rdGetU64 ⟨putU64 v.toNat ++ rest, false⟩ = (v.toNat, ⟨rest, false⟩) := by
  have hv := v.toNat_lt
  have hhigh : v.toNat >>> 32 < 2 ^ 32 := by rw [Nat.shiftRight_eq_div_pow]; omega
  have hlow : rdGetU32 ⟨le32 v.toNat ++ (le32 (v.toNat >>> 32) ++ rest), false⟩ =
      (v.toNat % 2 ^ 32, ⟨le32 (v.toNat >>> 32) ++ rest, false⟩) := by
    rw [← le32_mod]
    exact rdGetU32_putU32 _ (Nat.mod_lt _ (by decide)) _
  rw [putU64, le64, List.append_assoc, rdGetU64, hlow]
  dsimp only
  rw [show le32 (v.toNat >>> 32) = putU32 (v.toNat >>> 32) from rfl, rdGetU32_putU32 _ hhigh]
  dsimp only
  congr 1
  rw [Nat.or_comm, ← Nat.shiftLeft_add_eq_or_of_lt (Nat.mod_lt _ (by decide)), Nat.shiftLeft_eq,
    Nat.shiftRight_eq_div_pow]
  omega

theorem rdGetStrOut_put {s : Bytes} (hs : 0 ∉ s) (out : Bytes) :
    rdGetStrOut ⟨putStr s ++ rest, false⟩ out =
      ((terminated out (s.take (min 65535 (out.length - 1))), min s.length 65535), ⟨rest, false⟩) := by
  have hlen : (s.take 65535).length < 2 ^ 16 := by rw [List.length_take]; omega
  rw [putStr, cStr_of_notMem hs, rdGetStrOut, List.append_assoc, rdGetU16_putU16 _ hlen]
  dsimp only
  rw [rdGetBytes_append _ rest _ rfl]
  dsimp only
  rw [List.take_take, Nat.min_comm (out.length - 1), List.length_take, Nat.min_comm s.length]

theorem readField_wire (f : Field) (out : Bytes) :
    readField ⟨f.wire ++ rest, false⟩ (f.kind out) = (f.value out, ⟨rest, false⟩) := by
  cases f with
  | u8 v => simp only [readField, Field.wire, Field.kind, Field.value, rdGetU8_putU8 _ v.toNat_lt]
  | u16 v => simp only [readField, Field.wire, Field.kind, Field.value, rdGetU16_putU16 _ v.toNat_lt]
  | i16 v => simp only [readField, Field.wire, Field.kind, Field.value, rdGetI16_put]
  | u32 v => simp only [readField, Field.wire, Field.kind, Field.value, rdGetU32_putU32 _ v.toNat_lt]
  | u64 v => simp only [readField, Field.wire, Field.kind, Field.value, rdGetU64_put]
  | str s => simp only [readField, Field.wire, Field.kind, Field.value, rdGetStrOut_put _ s.property]
  | blob p =>
      simp only [readField, Field.wire, Field.kind, Field.value, putBlob, List.append_assoc,
        rdGetBlob_put _ _ p.property]
  | raw p => simp only [readField, Field.wire, Field.kind, Field.value, rdGetBytes_append p rest _ rfl]

end RoundTrip

section Runs

theorem putFields_wire {b : Buf} {out : Bytes} (h : Holds b out) (fields : List Field) :
    ∃ b', putFields b fields = some b' ∧ Holds b' (out ++ fields.flatMap Field.wire) := by
  induction fields generalizing b out with
  | nil => exact ⟨b, rfl, by rwa [List.flatMap_nil, List.append_nil]⟩
  | cons f fields ih =>
      obtain ⟨b₁, hput, h₁⟩ := putField_wire h f
      obtain ⟨b', hrest, h'⟩ := ih h₁
      rw [List.append_assoc, ← List.flatMap_cons] at h'
      exact ⟨b', by rw [putFields, hput, Option.bind_eq_bind, Option.bind_some, hrest], h'⟩

def readFields : Reader → List Kind → List Value × Reader
  | r, [] => ([], r)
  | r, k :: kinds =>
      ((readField r k).1 :: (readFields (readField r k).2 kinds).1, (readFields (readField r k).2 kinds).2)

theorem getFields_eq (m : Bytes) (kinds : List Kind) : ReadsAs m (getFields m · kinds) (readFields · kinds) := by
  induction kinds with
  | nil =>
      intro r hpos
      exact ⟨[], r, rfl, hpos, rfl⟩
  | cons k kinds ih =>
      intro r hpos
      obtain ⟨v, r₁, hget, hpos₁, hread₁⟩ := getField_eq m k r hpos
      obtain ⟨values, r', hrest, hpos', hread'⟩ := ih r₁ hpos₁
      dsimp only at hget hread₁ hrest hread' ⊢
      rw [getFields, hget, readFields, hread₁]
      dsimp only [Option.bind_eq_bind, Option.bind_some]
      rw [hrest, hread']
      exact ⟨v :: values, r', rfl, hpos', rfl⟩

theorem readFields_wire (fields : List (Field × Bytes)) (rest : Bytes) :
    readFields ⟨(fields.map Prod.fst).flatMap Field.wire ++ rest, false⟩ (fields.map fun (f, out) => f.kind out) =
      (fields.map fun (f, out) => f.value out, ⟨rest, false⟩) := by
  induction fields with
  | nil => rfl
  | cons f fields ih =>
      rw [List.map_cons, List.flatMap_cons, List.append_assoc, List.map_cons, readFields, readField_wire, ih]
      rfl

theorem readFields_err (left : Bytes) (kinds : List Kind) :
    readFields ⟨left, true⟩ kinds = (kinds.map Kind.zero, ⟨left, true⟩) := by
  induction kinds with
  | nil => rfl
  | cons k kinds ih =>
      rw [readFields, readField_err, ih]
      rfl

-- An error is too few bytes for one of the kinds.
theorem readFields_enough (left : Bytes) (kinds : List Kind) :
    (readFields ⟨left, false⟩ kinds).2.err = true ↔ ¬ Enough left kinds := by
  induction kinds generalizing left with
  | nil => simp [readFields, Enough]
  | cons k kinds ih =>
      by_cases hk : k.size left ≤ left.length
      · rw [readFields, readField_enough left k hk, ih, Enough]
        simp [hk]
      · have herr := readField_short left k (by omega)
        cases hr : (readField ⟨left, false⟩ k).2 with
        | mk left' err =>
            rw [hr] at herr
            dsimp only at herr
            subst herr
            rw [readFields, hr, readFields_err, Enough]
            simp [hk]

end Runs

-- Readers of one message that read the same stand at the same place.
theorem toReader_injective {m : Bytes} {r r' : ReaderAt} (hpos : r.pos ≤ m.length) (hpos' : r'.pos ≤ m.length)
    (h : r.toReader m = r'.toReader m) : r = r' := by
  have hleft := congrArg (List.length ∘ Reader.rest) h
  have herr : r.err = r'.err := congrArg Reader.err h
  simp only [Function.comp_apply, ReaderAt.toReader, List.length_drop] at hleft
  obtain ⟨pos, err⟩ := r
  obtain ⟨pos', err'⟩ := r'
  dsimp only at *
  rw [herr, show pos = pos' by omega]

-- What has been put is read back; on any bytes an error is too few of them, and
-- it stays.
theorem wire_fields :
    (∀ fields : List (Field × Bytes), ∃ b m, putFields rdBufInit (fields.map Prod.fst) = some b ∧
      loadAll b.data 0 b.len = some m ∧
      getFields m ⟨0, false⟩ (fields.map fun (f, out) => f.kind out) =
        some (fields.map fun (f, out) => f.value out, ⟨m.length, false⟩)) ∧
    ∀ (m : Bytes) (kinds : List Kind), ∃ values r, getFields m ⟨0, false⟩ kinds = some (values, r) ∧
      r.pos ≤ m.length ∧
      (r.err = true ↔ ¬ Enough m kinds) ∧
      (r.err = true → ∀ more, getFields m r more = some (more.map Kind.zero, r)) := by
  constructor
  · intro fields
    obtain ⟨b, hput, hb⟩ := putFields_wire rdBufInit_holds (fields.map Prod.fst)
    rw [List.nil_append] at hb
    generalize hm : (fields.map Prod.fst).flatMap Field.wire = m at hb
    obtain ⟨values, r, hget, hpos, hread⟩ :=
      getFields_eq m (fields.map fun (f, out) => f.kind out) ⟨0, false⟩ (Nat.zero_le _)
    have hwire := readFields_wire fields []
    rw [hm, List.append_nil] at hwire
    change readFields ⟨m, false⟩ _ = _ at hread
    rw [hwire, Prod.mk.injEq] at hread
    obtain ⟨hvalues, hend⟩ := hread
    have hwhole : (⟨[], false⟩ : Reader) = ReaderAt.toReader m ⟨m.length, false⟩ := by
      rw [ReaderAt.toReader, List.drop_length]
    rw [hwhole] at hend
    rw [← hvalues, ← toReader_injective (Nat.le_refl _) hpos hend] at hget
    exact ⟨b, m, hput, hb.load, hget⟩
  · intro m kinds
    obtain ⟨values, r, hget, hpos, hread⟩ := getFields_eq m kinds ⟨0, false⟩ (Nat.zero_le _)
    change readFields ⟨m, false⟩ kinds = _ at hread
    have herr := readFields_enough m kinds
    rw [hread] at herr
    refine ⟨values, r, hget, hpos, herr, ?_⟩
    intro hset more
    obtain ⟨zeros, r', hmore, hpos', hlater⟩ := getFields_eq m more r hpos
    have hsame : r.toReader m = ⟨m.drop r.pos, true⟩ := by rw [ReaderAt.toReader, hset]
    dsimp only at hmore hlater
    rw [hsame, readFields_err, ← hsame, Prod.mk.injEq] at hlater
    obtain ⟨hzeros, hstay⟩ := hlater
    rw [hmore, ← hzeros, ← toReader_injective hpos hpos' hstay]

end TetherDesk
