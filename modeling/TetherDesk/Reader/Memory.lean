import TetherDesk.Reader
import TetherDesk.Lib.Buffer

namespace TetherDesk

open TetherDesk.Lib.Buffer

-- rd_reader over the bytes of a message; none is a read outside the message or
-- a difference below zero.
structure ReaderAt where
  pos : Nat
  err : Bool

-- The position of the bytes, none for NULL.
def rdGetBytesAt (m : Bytes) (r : ReaderAt) (n : Nat) : Option (Option Nat × ReaderAt) :=
  if r.err then some (none, { r with err := true })
  else do
    let left ← sub m.length r.pos
    if left < n then some (none, { r with err := true })
    else some (some r.pos, { r with pos := r.pos + n })

def rd16At (m : Bytes) (p : Nat) : Option Nat := do
  let lo ← m[p]?
  let hi ← m[p + 1]?
  return lo.toNat + 2 ^ 8 * hi.toNat

def rd32At (m : Bytes) (p : Nat) : Option Nat := do
  let lo ← rd16At m p
  let hi ← rd16At m (p + 2)
  return lo + 2 ^ 16 * hi

def rdGetU8At (m : Bytes) (r : ReaderAt) : Option (Nat × ReaderAt) := do
  match ← rdGetBytesAt m r 1 with
  | (some p, r) =>
      let b ← m[p]?
      some (b.toNat, r)
  | (none, r) => some (0, r)

def rdGetU16At (m : Bytes) (r : ReaderAt) : Option (Nat × ReaderAt) := do
  match ← rdGetBytesAt m r 2 with
  | (some p, r) =>
      let v ← rd16At m p
      some (v, r)
  | (none, r) => some (0, r)

def rdGetU32At (m : Bytes) (r : ReaderAt) : Option (Nat × ReaderAt) := do
  match ← rdGetBytesAt m r 4 with
  | (some p, r) =>
      let v ← rd32At m p
      some (v, r)
  | (none, r) => some (0, r)

-- The bytes at the pointer, all of them inside the message.
def rdGetBlobAt (m : Bytes) (r : ReaderAt) : Option (Option Bytes × ReaderAt) := do
  let (n, r) ← rdGetU32At m r
  match ← rdGetBytesAt m r n with
  | (some p, r) =>
      let blob ← slice m p n
      some (some blob, r)
  | (none, r) => some (none, r)

-- What is left to read.
def ReaderAt.toReader (m : Bytes) (r : ReaderAt) : Reader := ⟨m.drop r.pos, r.err⟩

-- A checked read that does what the read on the rest of the message does.
def ReadsAs {α : Type} (m : Bytes) (checked : ReaderAt → Option (α × ReaderAt)) (read : Reader → α × Reader) :
    Prop :=
  ∀ r : ReaderAt, r.pos ≤ m.length →
    ∃ v r', checked r = some (v, r') ∧ r'.pos ≤ m.length ∧ read (r.toReader m) = (v, r'.toReader m)

theorem rdGetBytesAt_eq (m : Bytes) (n : Nat) (r : ReaderAt) (hpos : r.pos ≤ m.length) :
    ∃ p r', rdGetBytesAt m r n = some (p, r') ∧ r'.pos ≤ m.length ∧ (∀ i, p = some i → i + n ≤ m.length) ∧
      rdGetBytes (r.toReader m) n = (p.map fun i => (m.drop i).take n, r'.toReader m) := by
  obtain ⟨pos, err⟩ := r
  cases err with
  | true => exact ⟨none, ⟨pos, true⟩, rfl, hpos, nofun, rfl⟩
  | false =>
      dsimp only at hpos
      by_cases hshort : m.length - pos < n
      · refine ⟨none, ⟨pos, true⟩, ?_, hpos, nofun, ?_⟩
        · simp [rdGetBytesAt, sub_of_le hpos, hshort]
        · simp [rdGetBytes, ReaderAt.toReader, hshort]
      · refine ⟨some pos, ⟨pos + n, false⟩, ?_, by dsimp only; omega, ?_, ?_⟩
        · simp [rdGetBytesAt, sub_of_le hpos, hshort]
        · rintro i ⟨⟩
          omega
        · simp [rdGetBytes, ReaderAt.toReader, hshort]

theorem byteAt_window (m : Bytes) (p n i : Nat) (hi : i < n) (hin : p + n ≤ m.length) :
    m[p + i]? = some (byteAt ((m.drop p).take n) i) := by
  rw [byteAt, List.getD_eq_getElem?_getD, List.getElem?_take_of_lt hi, List.getElem?_drop,
    List.getElem?_eq_getElem (by omega)]
  rfl

theorem rd16At_eq (m : Bytes) (p n : Nat) (hn : 2 ≤ n) (hin : p + n ≤ m.length) :
    rd16At m p = some (rd16 ((m.drop p).take n)) := by
  have h₀ := byteAt_window m p n 0 (by omega) hin
  rw [Nat.add_zero] at h₀
  simp only [rd16At, Option.bind_eq_bind]
  rw [h₀, Option.bind_some, byteAt_window m p n 1 (by omega) hin, Option.bind_some]
  rfl

theorem rd32At_eq (m : Bytes) (p : Nat) (hin : p + 4 ≤ m.length) :
    rd32At m p = some (rd32 ((m.drop p).take 4)) := by
  have hhigh : ((m.drop p).take 4).drop 2 = (m.drop (p + 2)).take 2 := by
    rw [List.drop_take, List.drop_drop]
  simp only [rd32At, Option.bind_eq_bind]
  rw [rd16At_eq m p 4 (by omega) hin, Option.bind_some, rd16At_eq m (p + 2) 2 (Nat.le_refl 2) (by omega),
    Option.bind_some,
    rd32, hhigh]
  rfl

theorem rdGetU8At_eq (m : Bytes) : ReadsAs m (rdGetU8At m) rdGetU8 := by
  intro r hpos
  obtain ⟨p, r', hget, hpos', hin, hread⟩ := rdGetBytesAt_eq m 1 r hpos
  rw [rdGetU8At, hget, rdGetU8, hread]
  cases p with
  | none => exact ⟨0, r', rfl, hpos', rfl⟩
  | some p =>
      have hbyte := byteAt_window m p 1 0 (by omega) (hin p rfl)
      rw [Nat.add_zero] at hbyte
      refine ⟨_, r', ?_, hpos', rfl⟩
      rw [Option.bind_eq_bind, Option.bind_some]
      dsimp only
      rw [hbyte]
      rfl

theorem rdGetU16At_eq (m : Bytes) : ReadsAs m (rdGetU16At m) rdGetU16 := by
  intro r hpos
  obtain ⟨p, r', hget, hpos', hin, hread⟩ := rdGetBytesAt_eq m 2 r hpos
  rw [rdGetU16At, hget, rdGetU16, hread]
  cases p with
  | none => exact ⟨0, r', rfl, hpos', rfl⟩
  | some p =>
      refine ⟨_, r', ?_, hpos', rfl⟩
      rw [Option.bind_eq_bind, Option.bind_some]
      dsimp only
      rw [rd16At_eq m p 2 (Nat.le_refl 2) (hin p rfl)]
      rfl

theorem rdGetU32At_eq (m : Bytes) : ReadsAs m (rdGetU32At m) rdGetU32 := by
  intro r hpos
  obtain ⟨p, r', hget, hpos', hin, hread⟩ := rdGetBytesAt_eq m 4 r hpos
  rw [rdGetU32At, hget, rdGetU32, hread]
  cases p with
  | none => exact ⟨0, r', rfl, hpos', rfl⟩
  | some p =>
      refine ⟨_, r', ?_, hpos', rfl⟩
      rw [Option.bind_eq_bind, Option.bind_some]
      dsimp only
      rw [rd32At_eq m p (hin p rfl)]
      rfl

theorem rdGetBlobAt_eq (m : Bytes) : ReadsAs m (rdGetBlobAt m) rdGetBlob := by
  intro r hpos
  obtain ⟨n, r₁, hlen, hpos₁, hread₁⟩ := rdGetU32At_eq m r hpos
  obtain ⟨p, r', hget, hpos', hin, hread⟩ := rdGetBytesAt_eq m n r₁ hpos₁
  simp only [rdGetBlobAt, rdGetBlob, Option.bind_eq_bind]
  rw [hlen, Option.bind_some, hread₁]
  dsimp only
  rw [hget, Option.bind_some, hread]
  cases p with
  | none => exact ⟨none, r', rfl, hpos', rfl⟩
  | some p =>
      refine ⟨_, r', ?_, hpos', rfl⟩
      dsimp only
      rw [slice_of_le (hin p rfl)]
      rfl

end TetherDesk
