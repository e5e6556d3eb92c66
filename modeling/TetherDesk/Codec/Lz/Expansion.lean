import TetherDesk.Codec.Lz.Memory
import TetherDesk.Codec.Lz.Theorems

namespace TetherDesk.Codec

open TetherDesk.Lib.BackReference
open TetherDesk.Lib.Buffer

-- A length: a nibble below 15 stands for itself, 15 is continued by bytes that
-- are added to it, the last of them the first below 255.
inductive LengthField : Nat → Bytes → Nat → Prop
  | short (n : Nat) (h : n ≠ 15) : LengthField n [] n
  | extended (k : Nat) (b : UInt8) (h : b ≠ 255) :
      LengthField 15 (List.replicate k 255 ++ [b]) (15 + 255 * k + b.toNat)

-- The input is a sequence of LZ4 sequences, which take the output from `out`
-- to `final`. The last one may stop behind its literals.
inductive Expands : Bytes → Bytes → Bytes → Prop
  | done (out : Bytes) : Expands [] out out
  | literals (t : UInt8) (more lit out : Bytes) (hlit : LengthField (t.toNat >>> 4) more lit.length) :
      Expands (t :: (more ++ lit)) out (out ++ lit)
  | sequence (t o₀ o₁ : UInt8) (more lit more' rest out final : Bytes) (ml : Nat)
      (hlit : LengthField (t.toNat >>> 4) more lit.length)
      (hpos : 1 ≤ o₀.toNat ||| (o₁.toNat <<< 8))
      (hback : o₀.toNat ||| (o₁.toNat <<< 8) ≤ (out ++ lit).length)
      (hml : LengthField (t.toNat &&& 15) more' ml)
      (hrest : Expands rest
        (copyBack (o₀.toNat ||| (o₁.toNat <<< 8)) (ml + LZ_MIN_MATCH) (out ++ lit)) final) :
      Expands (t :: (more ++ lit ++ o₀ :: o₁ :: (more' ++ rest))) out final

theorem Expands.length_le {src out final : Bytes} (h : Expands src out final) :
    out.length ≤ final.length := by
  induction h with
  | done out => exact le_rfl
  | literals t more lit out hlit => simp
  | sequence t o₀ o₁ more lit more' rest out final ml hlit hpos hback hml hrest ih =>
      rw [copyBack_length, List.length_append] at ih
      omega

theorem readLen_extended (k : Nat) (b : UInt8) (hb : b ≠ 255) (rest : Bytes) (len : Nat) :
    readLen (List.replicate k 255 ++ b :: rest) len = some (len + 255 * k + b.toNat, rest) := by
  induction k generalizing len with
  | zero => simp [readLen, hb]
  | succ k ih =>
      rw [List.replicate_succ, List.cons_append, readLen, if_pos rfl, ih,
        show len + 255 + 255 * k = len + 255 * (k + 1) by ring]

theorem readLen_some (src : Bytes) (len n : Nat) (rest : Bytes) (h : readLen src len = some (n, rest)) :
    ∃ k b, b ≠ 255 ∧ src = List.replicate k 255 ++ b :: rest ∧ n = len + 255 * k + b.toNat := by
  induction src generalizing len with
  | nil => simp [readLen] at h
  | cons b src ih =>
      rw [readLen] at h
      by_cases hb : b = 255
      · rw [if_pos hb] at h
        obtain ⟨k, c, hc, hsrc, hn⟩ := ih (len + 255) h
        exact ⟨k + 1, c, hc, by rw [hb, hsrc, List.replicate_succ, List.cons_append], by omega⟩
      · rw [if_neg hb] at h
        simp only [Option.some.injEq, Prod.mk.injEq] at h
        exact ⟨0, b, hb, by rw [h.2]; rfl, by omega⟩

theorem readNibbleLen_some_iff (nibble : Nat) (src : Bytes) (n : Nat) (rest : Bytes) :
    readNibbleLen nibble src = some (n, rest) ↔ ∃ more, src = more ++ rest ∧ LengthField nibble more n := by
  unfold readNibbleLen
  constructor
  · intro h
    by_cases hn : nibble = 15
    · rw [if_pos hn] at h
      obtain ⟨k, b, hb, hsrc, rfl⟩ := readLen_some src 15 n rest h
      exact ⟨List.replicate k 255 ++ [b], by simp [hsrc], hn ▸ .extended k b hb⟩
    · rw [if_neg hn] at h
      simp only [Option.some.injEq, Prod.mk.injEq] at h
      exact ⟨[], by simp [h.2], h.1 ▸ .short nibble hn⟩
  · rintro ⟨more, rfl, hmore⟩
    cases hmore with
    | short n hn => simp [hn]
    | extended k b hb => simp [readLen_extended k b hb]

-- The decoder accepts exactly the sequences whose expansion fits.
theorem decompressFrom_of_expands {src out final : Bytes} (cap : Nat) (h : Expands src out final)
    (hcap : final.length ≤ cap) : decompressFrom cap src out = some final := by
  induction h with
  | done out => rfl
  | literals t more lit out hlit =>
      have hread := (readNibbleLen_some_iff _ (more ++ lit) lit.length lit).mpr ⟨more, rfl, hlit⟩
      rw [List.length_append] at hcap
      rw [decompressFrom_cons, hread]
      simp only [List.drop_length, List.take_length]
      rw [if_neg (by omega), if_pos trivial]
  | sequence t o₀ o₁ more lit more' rest out final ml hlit hpos hback hml hrest ih =>
      have hread := (readNibbleLen_some_iff _ (more ++ lit ++ o₀ :: o₁ :: (more' ++ rest)) lit.length
        (lit ++ o₀ :: o₁ :: (more' ++ rest))).mpr ⟨more, by simp, hlit⟩
      have hmatch := (readNibbleLen_some_iff _ (more' ++ rest) ml rest).mpr ⟨more', rfl, hml⟩
      have hgrown := hrest.length_le
      rw [copyBack_length] at hgrown
      have hsum : (out ++ lit).length = out.length + lit.length := List.length_append
      rw [decompressFrom_cons, hread]
      simp only [List.take_left', List.drop_left', List.length_append]
      rw [if_neg (by omega), if_neg (by simp)]
      simp only [decompressMatch, hmatch]
      rw [if_neg (by omega), if_neg (by omega)]
      have hcopy := copyMatch_eq (o₀.toNat ||| (o₁.toNat <<< 8)) (ml + LZ_MIN_MATCH) (out ++ lit) hback
      split_ifs at hcopy ⊢ with hfar
      · rw [hcopy]
        exact ih hcap
      · exact ih hcap

theorem decompressMatch_some (t : UInt8) (cap : Nat) (rest dst left final : Bytes)
    (h : decompressMatch t cap rest dst = some (left, final)) :
    ∃ o₀ o₁ more' ml, rest = o₀ :: o₁ :: (more' ++ left) ∧ 1 ≤ o₀.toNat ||| (o₁.toNat <<< 8) ∧
      o₀.toNat ||| (o₁.toNat <<< 8) ≤ dst.length ∧ LengthField (t.toNat &&& 15) more' ml ∧
      ml + LZ_MIN_MATCH ≤ cap - dst.length ∧
      final = copyBack (o₀.toNat ||| (o₁.toNat <<< 8)) (ml + LZ_MIN_MATCH) dst := by
  unfold decompressMatch at h
  split at h
  · rename_i o₀ o₁ rest
    dsimp only at h
    by_cases hoff : o₀.toNat ||| (o₁.toNat <<< 8) = 0 ∨ o₀.toNat ||| (o₁.toNat <<< 8) > dst.length
    · rw [if_pos hoff] at h
      cases h
    · rw [if_neg hoff] at h
      cases hread : readNibbleLen (t.toNat &&& 15) rest with
      | none =>
          rw [hread] at h
          cases h
      | some read =>
          obtain ⟨ml, rest'⟩ := read
          obtain ⟨more', hrest, hml⟩ := (readNibbleLen_some_iff _ _ _ _).mp hread
          have hcopy := copyMatch_eq (o₀.toNat ||| (o₁.toNat <<< 8)) (ml + LZ_MIN_MATCH) dst (by omega)
          rw [hread] at h
          dsimp only at h
          by_cases hroom : ml + LZ_MIN_MATCH > cap - dst.length
          · rw [if_pos hroom] at h
            cases h
          · rw [if_neg hroom] at h
            have hboth : left = rest' ∧
                final = copyBack (o₀.toNat ||| (o₁.toNat <<< 8)) (ml + LZ_MIN_MATCH) dst := by
              split_ifs at h hcopy with hfar
              · simp only [Option.some.injEq, Prod.mk.injEq] at h
                exact ⟨h.1.symm, h.2.symm.trans hcopy⟩
              · simp only [Option.some.injEq, Prod.mk.injEq] at h
                exact ⟨h.1.symm, h.2.symm⟩
            obtain ⟨rfl, rfl⟩ := hboth
            exact ⟨o₀, o₁, more', ml, by rw [hrest], by omega, by omega, hml, by omega, rfl⟩
  · cases h

theorem expands_of_decompressFrom (cap n : Nat) (src out final : Bytes) (hn : src.length ≤ n)
    (hout : out.length ≤ cap) (h : decompressFrom cap src out = some final) :
    Expands src out final ∧ final.length ≤ cap := by
  induction n generalizing src out with
  | zero =>
      obtain rfl : src = [] := List.length_eq_zero_iff.mp (by omega)
      obtain rfl : out = final := Option.some.inj h
      exact ⟨.done out, hout⟩
  | succ n ih =>
      cases src with
      | nil =>
          obtain rfl : out = final := Option.some.inj h
          exact ⟨.done out, hout⟩
      | cons t src =>
          rw [decompressFrom_cons] at h
          cases hread : readNibbleLen (t.toNat >>> 4) src with
          | none =>
              rw [hread] at h
              cases h
          | some read =>
              obtain ⟨lit, rest⟩ := read
              obtain ⟨more, rfl, hlit⟩ := (readNibbleLen_some_iff _ _ _ _).mp hread
              rw [hread] at h
              dsimp only at h
              by_cases hfull : lit > rest.length ∨ lit > cap - out.length
              · rw [if_pos hfull] at h
                cases h
              · rw [if_neg hfull] at h
                have hlen : (rest.take lit).length = lit := List.length_take_of_le (by omega)
                have hlit' : LengthField (t.toNat >>> 4) more (rest.take lit).length := by rwa [hlen]
                have hsum : (out ++ rest.take lit).length = out.length + lit := by
                  rw [List.length_append, hlen]
                by_cases hlast : rest.drop lit = []
                · rw [if_pos hlast] at h
                  cases h
                  have hrest : rest.take lit = rest := by
                    have hsplit := List.take_append_drop lit rest
                    rwa [hlast, List.append_nil] at hsplit
                  rw [hrest] at hlit' hsum ⊢
                  exact ⟨.literals t more rest out hlit', by omega⟩
                · rw [if_neg hlast] at h
                  cases hmatch : decompressMatch t cap (rest.drop lit) (out ++ rest.take lit) with
                  | none =>
                      rw [hmatch] at h
                      cases h
                  | some matched =>
                      obtain ⟨left, grown⟩ := matched
                      obtain ⟨o₀, o₁, more', ml, hrest, hpos, hback, hml, hroom, rfl⟩ :=
                        decompressMatch_some _ _ _ _ _ _ hmatch
                      have hcount := congrArg List.length hrest
                      rw [hmatch] at h
                      rw [List.length_drop] at hcount
                      simp only [List.length_cons, List.length_append] at hcount hn
                      obtain ⟨hexpands, hfits⟩ := ih left _ (by omega)
                        (by rw [copyBack_length]; omega) h
                      refine ⟨?_, hfits⟩
                      have hsrc : more ++ rest = more ++ rest.take lit ++ o₀ :: o₁ :: (more' ++ left) := by
                        rw [List.append_assoc, ← hrest, List.take_append_drop]
                      rw [hsrc]
                      exact .sequence t o₀ o₁ more _ more' left out final ml hlit' hpos hback hml hexpands

theorem rdLzDecompress_eq_some_iff (src : Bytes) (cap : Nat) (final : Bytes) :
    rdLzDecompress src cap = some final ↔ Expands src [] final ∧ final.length ≤ cap := by
  constructor
  · exact fun h => expands_of_decompressFrom cap src.length src [] final le_rfl (Nat.zero_le _) h
  · exact fun h => decompressFrom_of_expands cap h.1 h.2

end TetherDesk.Codec
