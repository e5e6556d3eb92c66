import TetherDesk.Reader
import TetherDesk.Lib.Buffer

namespace TetherDesk

open TetherDesk.Lib.Buffer

-- rd_buf: cap is the length of data. Growing succeeds, and what it adds holds
-- nothing yet; none is a write outside data.
structure Buf where
  data : Cells UInt8
  len : Nat

def rdBufInit : Buf := ⟨[], 0⟩

-- The loop that doubles ncap, n times at most.
def doubleCap (need : Nat) : Nat → Nat → Nat
  | 0, ncap => ncap
  | n + 1, ncap => if ncap < need then doubleCap need n (ncap * 2) else ncap

def rdBufReserve (b : Buf) (extra : Nat) : Buf :=
  let need := b.len + extra
  if need ≤ b.data.length then b
  else
    let ncap := doubleCap need need (if b.data.length ≠ 0 then b.data.length else 256)
    { b with data := b.data ++ List.replicate (ncap - b.data.length) (.stale 0) }

def rdBufPut (b : Buf) (p : Bytes) : Option Buf :=
  if p = [] then some b
  else do
    let b := rdBufReserve b p.length
    let data ← storeAll b.data b.len p
    some ⟨data, b.len + p.length⟩

def rdBufPutU8 (b : Buf) (v : UInt8) : Option Buf := rdBufPut b [v]
def rdBufPutU16 (b : Buf) (v : UInt16) : Option Buf := rdBufPut b (le16 v.toNat)
def rdBufPutU32 (b : Buf) (v : UInt32) : Option Buf := rdBufPut b (le32 v.toNat)

def rdBufPutU64 (b : Buf) (v : UInt64) : Option Buf := do
  let b ← rdBufPutU32 b v.toUInt32
  rdBufPutU32 b (v >>> 32).toUInt32

def rdBufPutStr (b : Buf) (s : Bytes) : Option Buf := do
  let n := min (cStr s).length 0xFFFF
  let b ← rdBufPutU16 b (UInt16.ofNat n)
  rdBufPut b (s.take n)

def rdBufPutBlob (b : Buf) (p : Bytes) : Option Buf := do
  let b ← rdBufPutU32 b (UInt32.ofNat p.length)
  rdBufPut b p

-- What has been put, and nothing else, is written.
def Holds (b : Buf) (out : Bytes) : Prop := ∃ old, b.data = filled out old ∧ b.len = out.length

theorem rdBufInit_holds : Holds rdBufInit [] := ⟨[], rfl, rfl⟩

theorem le_doubleCap (need n ncap : Nat) (hpos : 0 < ncap) (hn : need ≤ ncap + n) :
    need ≤ doubleCap need n ncap := by
  induction n generalizing ncap with
  | zero => exact hn
  | succ n ih =>
      rw [doubleCap]
      split
      · exact ih (ncap * 2) (by omega) (by omega)
      · omega

theorem le32_mod (v : Nat) : le32 (v % 2 ^ 32) = le32 v := by
  have hbyte : ∀ k ≤ 24, UInt8.ofNat ((v % 2 ^ 32) >>> k) = UInt8.ofNat (v >>> k) := by
    intro k hk
    have hpow : 2 ^ 32 = 2 ^ k * 2 ^ (32 - k) := by rw [← Nat.pow_add, Nat.add_sub_cancel' (by omega)]
    have hdvd : 2 ^ 8 ∣ 2 ^ (32 - k) := Nat.pow_dvd_pow 2 (by omega)
    rw [← UInt8.toNat_inj, UInt8.toNat_ofNat', UInt8.toNat_ofNat', Nat.shiftRight_eq_div_pow,
      Nat.shiftRight_eq_div_pow,
      hpow, Nat.mod_mul_right_div_self, Nat.mod_mod_of_dvd _ hdvd]
  unfold le32 le16
  rw [← Nat.shiftRight_add, ← Nat.shiftRight_add, hbyte 8 (by omega), hbyte 16 (by omega),
    hbyte (16 + 8) (by omega)]
  rw [show UInt8.ofNat (v % 2 ^ 32) = UInt8.ofNat v from hbyte 0 (by omega)]

section Put

variable {b b' : Buf} {out : Bytes}

theorem Holds.load (h : Holds b out) : loadAll b.data 0 b.len = some out := by
  obtain ⟨old, hdata, hlen⟩ := h
  rw [hdata, hlen, loadAll_filled out old 0 out.length (by omega), List.drop_zero, List.take_length]

theorem Holds.reserve (h : Holds b out) (extra : Nat) :
    Holds (rdBufReserve b extra) out ∧ out.length + extra ≤ (rdBufReserve b extra).data.length := by
  obtain ⟨old, hdata, hlen⟩ := h
  unfold rdBufReserve
  dsimp only
  by_cases hroom : b.len + extra ≤ b.data.length
  · rw [if_pos hroom]
    exact ⟨⟨old, hdata, hlen⟩, by omega⟩
  · have hcap := le_doubleCap (b.len + extra) (b.len + extra) (if b.data.length ≠ 0 then b.data.length else 256)
      (by split <;> omega) (by omega)
    generalize doubleCap (b.len + extra) (b.len + extra) _ = ncap at hcap ⊢
    rw [if_neg hroom]
    refine ⟨⟨old ++ List.replicate (ncap - b.data.length) 0, ?_, hlen⟩, ?_⟩
    · rw [hdata, filled, filled, List.map_append, List.map_replicate, List.append_assoc]
    · rw [List.length_append, List.length_replicate]
      omega

theorem Holds.put (h : Holds b out) (p : Bytes) : ∃ b', rdBufPut b p = some b' ∧ Holds b' (out ++ p) := by
  unfold rdBufPut
  by_cases hp : p = []
  · subst hp
    rw [if_pos rfl, List.append_nil]
    exact ⟨b, rfl, h⟩
  · obtain ⟨⟨old, hdata, hlen⟩, hroom⟩ := h.reserve p.length
    rw [hdata, filled_length] at hroom
    rw [if_neg hp]
    dsimp only
    rw [hdata, hlen, storeAll_filled out old p (by omega), Option.bind_eq_bind, Option.bind_some]
    exact ⟨_, rfl, old.drop p.length, rfl, by rw [List.length_append]⟩

theorem Holds.u8 (h : Holds b out) (v : UInt8) :
    ∃ b', rdBufPutU8 b v = some b' ∧ Holds b' (out ++ putU8 v.toNat) := by
  have hbyte : putU8 v.toNat = [v] := by rw [putU8, UInt8.ofNat_toNat]
  rw [hbyte]
  exact h.put [v]

theorem Holds.u16 (h : Holds b out) (v : UInt16) :
    ∃ b', rdBufPutU16 b v = some b' ∧ Holds b' (out ++ putU16 v.toNat) := h.put _

theorem Holds.u32 (h : Holds b out) (v : UInt32) :
    ∃ b', rdBufPutU32 b v = some b' ∧ Holds b' (out ++ putU32 v.toNat) := h.put _

theorem Holds.u64 (h : Holds b out) (v : UInt64) :
    ∃ b', rdBufPutU64 b v = some b' ∧ Holds b' (out ++ putU64 v.toNat) := by
  obtain ⟨b₁, hput₁, h₁⟩ := h.u32 v.toUInt32
  obtain ⟨b₂, hput₂, h₂⟩ := h₁.u32 (v >>> 32).toUInt32
  have hlow : le32 v.toUInt32.toNat = le32 v.toNat := by rw [UInt64.toNat_toUInt32, le32_mod]
  have hhigh : le32 (v >>> 32).toUInt32.toNat = le32 (v.toNat >>> 32) := by
    rw [UInt64.toNat_toUInt32, le32_mod, UInt64.toNat_shiftRight]
    rfl
  rw [putU32, putU32, hlow, hhigh, List.append_assoc] at h₂
  exact ⟨b₂, by rw [rdBufPutU64, hput₁, Option.bind_eq_bind, Option.bind_some, hput₂], h₂⟩

theorem Holds.str (h : Holds b out) (s : Bytes) :
    ∃ b', rdBufPutStr b s = some b' ∧ Holds b' (out ++ putStr s) := by
  obtain ⟨b₁, hput₁, h₁⟩ := h.u16 (UInt16.ofNat (min (cStr s).length 0xFFFF))
  obtain ⟨b₂, hput₂, h₂⟩ := h₁.put (s.take (min (cStr s).length 0xFFFF))
  have hlen : (UInt16.ofNat (min (cStr s).length 0xFFFF)).toNat = min (cStr s).length 0xFFFF := by
    rw [UInt16.toNat_ofNat', Nat.mod_eq_of_lt (by omega)]
  have htext : s.take (min (cStr s).length 0xFFFF) = (cStr s).take 0xFFFF := by
    have hprefix : s.take (cStr s).length = cStr s := (List.prefix_iff_eq_take.mp (List.takeWhile_prefix _)).symm
    rw [Nat.min_comm, ← List.take_take, hprefix]
  have hwire : putStr s = putU16 (min (cStr s).length 0xFFFF) ++ (cStr s).take 0xFFFF := by
    rw [putStr, List.length_take, Nat.min_comm]
  rw [hlen, htext, List.append_assoc, ← hwire] at h₂
  exact ⟨b₂, by rw [rdBufPutStr, hput₁, Option.bind_eq_bind, Option.bind_some, hput₂], h₂⟩

theorem Holds.blob (h : Holds b out) (p : Bytes) (hp : p.length < 2 ^ 32) :
    ∃ b', rdBufPutBlob b p = some b' ∧ Holds b' (out ++ putBlob p) := by
  obtain ⟨b₁, hput₁, h₁⟩ := h.u32 (UInt32.ofNat p.length)
  obtain ⟨b₂, hput₂, h₂⟩ := h₁.put p
  have hlen : (UInt32.ofNat p.length).toNat = p.length := by
    rw [UInt32.toNat_ofNat', Nat.mod_eq_of_lt hp]
  rw [hlen, List.append_assoc] at h₂
  exact ⟨b₂, by rw [rdBufPutBlob, hput₁, Option.bind_eq_bind, Option.bind_some, hput₂], h₂⟩

end Put

end TetherDesk
