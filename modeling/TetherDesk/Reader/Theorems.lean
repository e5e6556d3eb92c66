import TetherDesk.Reader
import Mathlib.Data.List.TakeWhile
import Mathlib.Tactic

namespace TetherDesk

@[simp] theorem le16_length (v : Nat) : (le16 v).length = 2 := rfl
@[simp] theorem le32_length (v : Nat) : (le32 v).length = 4 := rfl
@[simp] theorem le64_length (v : Nat) : (le64 v).length = 8 := rfl

theorem rd16_le16 (v : Nat) (rest : Bytes) : rd16 (le16 v ++ rest) = v % 2 ^ 16 := by
  change (UInt8.ofNat v).toNat + 2 ^ 8 * (UInt8.ofNat (v >>> 8)).toNat = _
  rw [UInt8.toNat_ofNat', UInt8.toNat_ofNat', Nat.shiftRight_eq_div_pow]
  omega

theorem rd32_le32 (v : Nat) (rest : Bytes) : rd32 (le32 v ++ rest) = v % 2 ^ 32 := by
  unfold rd32 le32
  have hdrop : (le16 v ++ le16 (v >>> 16) ++ rest).drop 2 = le16 (v >>> 16) ++ rest := rfl
  rw [hdrop, List.append_assoc, rd16_le16, rd16_le16, Nat.shiftRight_eq_div_pow]
  omega

theorem rd16_lt (p : Bytes) : rd16 p < 2 ^ 16 := by
  have h₀ := (byteAt p 0).toNat_lt
  have h₁ := (byteAt p 1).toNat_lt
  unfold rd16
  omega

theorem rd32_lt (p : Bytes) : rd32 p < 2 ^ 32 := by
  have h₀ := rd16_lt p
  have h₁ := rd16_lt (p.drop 2)
  unfold rd32
  omega

theorem rdGetU32_lt (r : Reader) : (rdGetU32 r).1 < 2 ^ 32 := by
  unfold rdGetU32
  split
  · exact rd32_lt _
  · exact Nat.two_pow_pos 32

theorem le64_injective {a b : Nat} (ha : a < 2 ^ 64) (hb : b < 2 ^ 64) (h : le64 a = le64 b) : a = b := by
  unfold le64 at h
  obtain ⟨hlo, hhi⟩ := List.append_inj h (by simp)
  have hlo := congrArg rd32 hlo
  have hhi := congrArg rd32 hhi
  rw [← List.append_nil (le32 a), ← List.append_nil (le32 b), rd32_le32, rd32_le32] at hlo
  rw [← List.append_nil (le32 (a >>> 32)), ← List.append_nil (le32 (b >>> 32)), rd32_le32, rd32_le32,
    Nat.shiftRight_eq_div_pow, Nat.shiftRight_eq_div_pow] at hhi
  omega

theorem cStr_append {m : Bytes} (h : 0 ∉ m) (rest : Bytes) : cStr (m ++ rest) = m ++ cStr rest := by
  have hall : ∀ ch ∈ m, decide (ch ≠ 0) = true := by
    intro ch hch
    rw [decide_eq_true_eq]
    rintro rfl
    exact h hch
  exact List.takeWhile_append_of_pos hall

theorem cStr_of_notMem {s : Bytes} (h : (0 : UInt8) ∉ s) : cStr s = s :=
  List.takeWhile_eq_self_iff.mpr fun _ hc => decide_eq_true fun he => h (he ▸ hc)

-- Reading back what was written at the start of the unread bytes.
theorem rdGetBytes_append (p rest : Bytes) (n : Nat) (h : p.length = n) :
    rdGetBytes ⟨p ++ rest, false⟩ n = (some p, ⟨rest, false⟩) := by
  subst h
  simp [rdGetBytes]

theorem rdGetU8_putU8 (v : Nat) (hv : v < 2 ^ 8) (rest : Bytes) :
    rdGetU8 ⟨putU8 v ++ rest, false⟩ = (v, ⟨rest, false⟩) := by
  rw [rdGetU8, rdGetBytes_append (putU8 v) rest 1 rfl]
  simp only [byteAt, putU8, List.getD_cons_zero, UInt8.toNat_ofNat', Nat.mod_eq_of_lt hv]

theorem rdGetU16_put (v : Nat) (rest : Bytes) :
    rdGetU16 ⟨putU16 v ++ rest, false⟩ = (v % 2 ^ 16, ⟨rest, false⟩) := by
  have hread := rd16_le16 v []
  rw [List.append_nil] at hread
  rw [rdGetU16, rdGetBytes_append (putU16 v) rest 2 rfl]
  simp only [putU16, hread]

theorem rdGetU16_putU16 (v : Nat) (hv : v < 2 ^ 16) (rest : Bytes) :
    rdGetU16 ⟨putU16 v ++ rest, false⟩ = (v, ⟨rest, false⟩) := by
  rw [rdGetU16_put, Nat.mod_eq_of_lt hv]

theorem rdGetU32_putU32 (v : Nat) (hv : v < 2 ^ 32) (rest : Bytes) :
    rdGetU32 ⟨putU32 v ++ rest, false⟩ = (v, ⟨rest, false⟩) := by
  have hread := rd32_le32 v []
  rw [List.append_nil, Nat.mod_eq_of_lt hv] at hread
  rw [rdGetU32, rdGetBytes_append (putU32 v) rest 4 rfl]
  simp only [putU32, hread]

theorem rdGetBlob_put (p rest : Bytes) (hp : p.length < 2 ^ 32) :
    rdGetBlob ⟨putU32 p.length ++ (p ++ rest), false⟩ = (some p, ⟨rest, false⟩) := by
  rw [rdGetBlob, rdGetU32_putU32 _ hp]
  exact rdGetBytes_append p rest _ rfl

theorem rdGetStr_putStr (t rest : Bytes) (cap : Nat) :
    rdGetStr ⟨putStr t ++ rest, false⟩ cap = (((cStr t).take 0xFFFF).take (cap - 1), ⟨rest, false⟩) := by
  have hlen : ((cStr t).take 0xFFFF).length < 2 ^ 16 := by rw [List.length_take]; omega
  rw [putStr, List.append_assoc, rdGetStr, rdGetU16_putU16 _ hlen]
  dsimp only
  rw [rdGetBytes_append _ rest _ rfl]

end TetherDesk
