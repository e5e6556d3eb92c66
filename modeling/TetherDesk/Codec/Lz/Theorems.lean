import TetherDesk.Codec.Lz
import Mathlib.Tactic.Ring
import Mathlib.Tactic.SplitIfs
import Mathlib.Tactic.IntervalCases

namespace TetherDesk.Codec

open TetherDesk.Lib.BackReference

theorem readLen_length_lt (rest : Bytes) (len : Nat) (out : Nat) (left : Bytes)
    (h : readLen rest len = some (out, left)) : left.length < rest.length := by
  induction rest generalizing len with
  | nil => simp [readLen] at h
  | cons b rest ih =>
      simp only [readLen] at h
      split at h
      · have := ih _ h
        simp only [List.length_cons]
        omega
      · simp only [Option.some.injEq, Prod.mk.injEq] at h
        simp [← h.2]

theorem readNibbleLen_length_le (nibble : Nat) (rest : Bytes) (out : Nat) (left : Bytes)
    (h : readNibbleLen nibble rest = some (out, left)) : left.length ≤ rest.length := by
  unfold readNibbleLen at h
  split at h
  · exact (readLen_length_lt _ _ _ _ h).le
  · simp only [Option.some.injEq, Prod.mk.injEq] at h
    simp [← h.2]

theorem decompressMatch_length_lt (token : UInt8) (cap : Nat) (rest dst left out : Bytes)
    (h : decompressMatch token cap rest dst = some (left, out)) : left.length < rest.length := by
  unfold decompressMatch at h
  split at h
  · rename_i o₀ o₁ rest
    cases hlen : readNibbleLen (token.toNat &&& 15) rest with
    | none => simp [hlen] at h
    | some read =>
        have hle := readNibbleLen_length_le _ _ _ _ hlen
        have hleft : left = read.2 := by
          simp only [hlen, gt_iff_lt] at h
          split_ifs at h <;> simp_all
        subst hleft
        simp only [List.length_cons]
        omega
  · simp at h

-- Fuel beyond the remaining input changes nothing.
theorem decompressLoop_fuel (cap fuel : Nat) (rest dst : Bytes) (hfuel : rest.length ≤ fuel) :
    decompressLoop cap fuel rest dst = decompressLoop cap rest.length rest dst := by
  suffices h : ∀ f₁ f₂, rest.length ≤ f₁ → rest.length ≤ f₂ →
      decompressLoop cap f₁ rest dst = decompressLoop cap f₂ rest dst from h _ _ hfuel le_rfl
  clear hfuel
  intro f₁
  induction f₁ generalizing rest dst with
  | zero =>
      intro f₂ h₁ _
      obtain rfl : rest = [] := List.length_eq_zero_iff.mp (by omega)
      simp [decompressLoop]
  | succ f₁ ih =>
      intro f₂ h₁ h₂
      cases rest with
      | nil => simp [decompressLoop]
      | cons t rest =>
          cases f₂ with
          | zero => simp at h₂
          | succ f₂ =>
              simp only [List.length_cons, Nat.add_le_add_iff_right] at h₁ h₂
              simp only [decompressLoop]
              cases hlen : readNibbleLen (t.toNat >>> 4) rest with
              | none => rfl
              | some read =>
                  have hle := readNibbleLen_length_le _ _ _ _ hlen
                  dsimp only
                  split_ifs
                  · rfl
                  · rfl
                  · cases hmatch : decompressMatch t cap (read.2.drop read.1) (dst ++ read.2.take read.1) with
                    | none => rfl
                    | some matched =>
                        have hlt := decompressMatch_length_lt _ _ _ _ _ _ hmatch
                        have hdrop : (read.2.drop read.1).length ≤ read.2.length := by simp
                        exact ih matched.1 matched.2 f₂ (by omega) (by omega)

-- The decoder started on the rest of the input, with dst filled so far.
def decompressFrom (cap : Nat) (rest dst : Bytes) : Option Bytes :=
  decompressLoop cap rest.length rest dst

theorem decompressFrom_cons (cap : Nat) (t : UInt8) (rest dst : Bytes) :
    decompressFrom cap (t :: rest) dst =
      match readNibbleLen (t.toNat >>> 4) rest with
      | none => none
      | some (lit, rest) =>
          if lit > rest.length ∨ lit > cap - dst.length then none
          else if rest.drop lit = [] then some (dst ++ rest.take lit)
          else
            match decompressMatch t cap (rest.drop lit) (dst ++ rest.take lit) with
            | none => none
            | some (rest, dst) => decompressFrom cap rest dst := by
  unfold decompressFrom
  simp only [List.length_cons, decompressLoop]
  cases hlen : readNibbleLen (t.toNat >>> 4) rest with
  | none => rfl
  | some read =>
      have hle := readNibbleLen_length_le _ _ _ _ hlen
      dsimp only
      split_ifs
      · rfl
      · rfl
      · cases hmatch : decompressMatch t cap (read.2.drop read.1) (dst ++ read.2.take read.1) with
        | none => rfl
        | some matched =>
            have hlt := decompressMatch_length_lt _ _ _ _ _ _ hmatch
            have hdrop : (read.2.drop read.1).length ≤ read.2.length := by simp
            exact decompressLoop_fuel cap _ matched.1 matched.2 (by omega)

theorem rdLzDecompress_eq (src : Bytes) (cap : Nat) :
    rdLzDecompress src cap = decompressFrom cap src [] := rfl

-- read_len inverts put_len.
theorem readLen_putLen (len start : Nat) (rest : Bytes) :
    readLen (putLen len ++ rest) start = some (start + len, rest) := by
  unfold putLen
  have hmod : len % 255 < 255 := Nat.mod_lt _ (by norm_num)
  have hlast : (UInt8.ofNat (len % 255)).toNat = len % 255 := by
    rw [UInt8.toNat_ofNat']
    exact Nat.mod_eq_of_lt (by omega)
  have hne : UInt8.ofNat (len % 255) ≠ 255 := by
    intro h
    have := congrArg UInt8.toNat h
    rw [hlast] at this
    simp at this
    omega
  have hdiv := Nat.div_add_mod len 255
  generalize len / 255 = k at hdiv
  generalize len % 255 = r at hmod hlast hne hdiv
  subst hdiv
  induction k generalizing start with
  | zero => simp [readLen, hne, hlast]
  | succ k ih =>
      simp only [List.replicate_succ, List.cons_append, readLen, if_true]
      rw [ih]
      simp only [Option.some.injEq, Prod.mk.injEq, and_true]
      ring

-- Reading back a nibble and the length bytes written after it.
theorem readNibbleLen_put (n : Nat) (rest : Bytes) :
    readNibbleLen (if n ≥ 15 then 15 else n) ((if n ≥ 15 then putLen (n - 15) else []) ++ rest) =
      some (n, rest) := by
  unfold readNibbleLen
  by_cases h : n ≥ 15
  · simp only [h, if_true]
    rw [readLen_putLen]
    congr 2
    omega
  · simp only [h, if_false, List.nil_append]
    rw [if_neg (by omega)]

theorem nibble_toNat (n : Nat) : (if n ≥ 15 then 15 else n) < 16 := by split_ifs <;> omega

-- The token carries the literal nibble in its high half.
theorem token_high (lit m : Nat) (hl : lit < 16) (hm : m < 16) :
    (UInt8.ofNat (lit <<< 4) ||| UInt8.ofNat m).toNat >>> 4 = lit := by
  interval_cases lit <;> interval_cases m <;> rfl

-- The match nibble sits in the low half.
theorem token_low (lit m : Nat) (hl : lit < 16) (hm : m < 16) :
    (UInt8.ofNat (lit <<< 4) ||| UInt8.ofNat m).toNat &&& 15 = m := by
  interval_cases lit <;> interval_cases m <;> rfl

theorem offset_bytes (off : Nat) (h : off < 65536) :
    (UInt8.ofNat off).toNat ||| ((UInt8.ofNat (off >>> 8)).toNat <<< 8) = off := by
  have hlo : off % 2 ^ 8 < 2 ^ 8 := Nat.mod_lt _ (by norm_num)
  rw [UInt8.toNat_ofNat', UInt8.toNat_ofNat', Nat.or_comm, ← Nat.shiftLeft_add_eq_or_of_lt hlo,
    Nat.shiftRight_eq_div_pow, Nat.shiftLeft_eq]
  omega

theorem copyMatch_eq (off ml : Nat) (dst : Bytes) (hoff : off ≤ dst.length) :
    (if off ≥ ml then dst ++ (dst.drop (dst.length - off)).take ml else copyBack off ml dst) =
      copyBack off ml dst := by
  split_ifs with h
  · exact (copyBack_eq_block off ml dst h hoff).symm
  · rfl

-- The decoder undoes one emitted sequence.
theorem decompressFrom_emitSequence (cap : Nat) (lit : Bytes) (off m : Nat) (rest dst : Bytes)
    (hm : LZ_MIN_MATCH ≤ m) (hpos : 0 < off) (hfar : off < 65536) (hback : off ≤ (dst ++ lit).length)
    (hcap : (dst ++ lit).length + m ≤ cap) :
    decompressFrom cap (emitSequence lit off m ++ rest) dst =
      decompressFrom cap rest (copyBack off m (dst ++ lit)) := by
  have hl := nibble_toNat lit.length
  have hml := nibble_toNat (m - LZ_MIN_MATCH)
  rw [List.length_append] at hback hcap
  simp only [emitSequence, emitLiterals, List.cons_append, List.append_assoc]
  rw [decompressFrom_cons, token_high _ _ hl hml, readNibbleLen_put]
  simp only [List.length_append, List.take_left', List.drop_left', List.nil_append]
  rw [if_neg (by omega), if_neg (by simp)]
  simp only [decompressMatch, token_low _ _ hl hml, offset_bytes off hfar, readNibbleLen_put]
  rw [if_neg (by rw [List.length_append]; omega)]
  simp only [Nat.sub_add_cancel hm]
  rw [if_neg (by rw [List.length_append]; omega)]
  have hcopy := copyMatch_eq off m (dst ++ lit) (by rw [List.length_append]; omega)
  split_ifs at hcopy ⊢ with h
  · rw [hcopy]
  · rfl

-- The last sequence holds literals only and ends the input.
theorem decompressFrom_emitLiterals (cap : Nat) (lit dst : Bytes)
    (hcap : dst.length + lit.length ≤ cap) :
    decompressFrom cap ((emitLiterals lit).1 :: (emitLiterals lit).2) dst = some (dst ++ lit) := by
  have hl := nibble_toNat lit.length
  have htoken := token_high _ 0 hl (by norm_num)
  simp only [show (UInt8.ofNat 0) = 0 from rfl, UInt8.or_zero] at htoken
  simp only [emitLiterals]
  rw [decompressFrom_cons, htoken, readNibbleLen_put]
  simp only [gt_iff_lt, Nat.lt_irrefl, false_or, List.drop_length, List.take_length, if_true]
  rw [if_neg (by omega)]

end TetherDesk.Codec
