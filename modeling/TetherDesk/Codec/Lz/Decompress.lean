import TetherDesk.Codec.Lz.Expansion

namespace TetherDesk.Codec

open TetherDesk.Lib.BackReference
open TetherDesk.Lib.Buffer

theorem readLenAt_eq (src : Bytes) (fuel ip len : Nat) (hip : ip ≤ src.length)
    (hfuel : src.length - ip < fuel) :
    ∃ read, readLenAt src fuel ip len = some read ∧
      match read with
      | none => readLen (src.drop ip) len = none
      | some (ip', n) => ip ≤ ip' ∧ ip' ≤ src.length ∧ readLen (src.drop ip) len = some (n, src.drop ip') := by
  induction fuel generalizing ip len with
  | zero => omega
  | succ fuel ih =>
      rw [readLenAt]
      by_cases hend : ip ≥ src.length
      · rw [if_pos hend, List.drop_eq_nil_of_le hend]
        exact ⟨none, rfl, rfl⟩
      · have hlt : ip < src.length := by omega
        rw [if_neg hend, List.getElem?_eq_getElem hlt, Option.bind_eq_bind, Option.bind_some,
          List.drop_eq_getElem_cons hlt, readLen]
        by_cases hb : src[ip] = 255
        · obtain ⟨read, hread, hspec⟩ := ih (ip + 1) (len + 255) (by omega) (by omega)
          rw [if_pos hb, if_pos hb, hb]
          refine ⟨read, hread, ?_⟩
          cases read with
          | none => exact hspec
          | some read => exact ⟨by omega, hspec.2⟩
        · rw [if_neg hb, if_neg hb]
          exact ⟨_, rfl, by omega, by omega, rfl⟩

theorem readNibbleLenAt_eq (src : Bytes) (nibble ip : Nat) (hip : ip ≤ src.length) :
    ∃ read, readNibbleLenAt src nibble ip = some read ∧
      match read with
      | none => readNibbleLen nibble (src.drop ip) = none
      | some (ip', n) =>
          ip ≤ ip' ∧ ip' ≤ src.length ∧ readNibbleLen nibble (src.drop ip) = some (n, src.drop ip') := by
  unfold readNibbleLenAt readNibbleLen
  by_cases h : nibble = 15
  · rw [if_pos h, if_pos h, h]
    exact readLenAt_eq src _ ip 15 hip (by omega)
  · rw [if_neg h, if_neg h]
    exact ⟨_, rfl, le_rfl, hip, rfl⟩

theorem decompressMatch_short (t : UInt8) (cap : Nat) (rest dst : Bytes) (h : rest.length < 2) :
    decompressMatch t cap rest dst = none := by
  match rest, h with
  | [], _ => rfl
  | [_], _ => rfl

-- Both ways of copying a match append it byte by byte.
theorem copyMatchAt_eq (out old : Bytes) (off ml : Nat) (hpos : 1 ≤ off) (hback : off ≤ out.length)
    (hroom : ml ≤ old.length) :
    copyMatchAt (filled out old) out.length (out.length - off) off ml =
      some (filled (copyBack off ml out) (old.drop ml)) := by
  unfold copyMatchAt
  by_cases hfar : off ≥ ml
  · rw [if_pos hfar, copyBlock_filled out old off ml hfar hback hroom]
  · rw [if_neg hfar, copyForward_filled out old off ml hpos hback hroom]

-- With n - ip and cap - op as they are, a match is read, checked and copied as
-- decompressMatch does it.
theorem decompressMatchAt_eq (src : Bytes) (t : UInt8) (cap ip : Nat) (out old : Bytes)
    (hip : ip ≤ src.length) (hout : out.length ≤ cap) (hcap : cap ≤ out.length + old.length) :
    ∃ found, decompressMatchAt src t cap ip out.length (filled out old) = some found ∧
      match found with
      | none => decompressMatch t cap (src.drop ip) out = none
      | some (ip', op, dst) => ∃ grown, ip < ip' ∧ ip' ≤ src.length ∧ op = grown.length ∧
          out.length ≤ grown.length ∧ grown.length ≤ cap ∧
          dst = filled grown (old.drop (grown.length - out.length)) ∧
          decompressMatch t cap (src.drop ip) out = some (src.drop ip', grown) := by
  simp only [decompressMatchAt, Option.bind_eq_bind]
  rw [sub_of_le hip, Option.bind_some]
  by_cases hshort : src.length - ip < 2
  · rw [if_pos hshort]
    exact ⟨none, rfl, decompressMatch_short t cap _ out (by rwa [List.length_drop])⟩
  · have h₀ : ip < src.length := by omega
    have h₁ : ip + 1 < src.length := by omega
    rw [if_neg hshort, List.getElem?_eq_getElem h₀, List.getElem?_eq_getElem h₁,
      Option.bind_some, Option.bind_some, List.drop_eq_getElem_cons h₀, List.drop_eq_getElem_cons h₁]
    simp only [decompressMatch]
    generalize src[ip].toNat ||| (src[ip + 1].toNat <<< 8) = off
    by_cases hoff : off = 0 ∨ off > out.length
    · rw [if_pos hoff, if_pos hoff]
      exact ⟨none, rfl, rfl⟩
    · obtain ⟨read, hread, hspec⟩ := readNibbleLenAt_eq src (t.toNat &&& 15) (ip + 2) (by omega)
      rw [if_neg hoff, if_neg hoff, hread, Option.bind_some]
      cases read with
      | none =>
          dsimp only at hspec ⊢
          rw [hspec]
          exact ⟨none, rfl, rfl⟩
      | some read =>
          obtain ⟨ip', ml⟩ := read
          obtain ⟨hle, hend, hspec⟩ := hspec
          dsimp only
          rw [hspec, sub_of_le hout, Option.bind_some]
          by_cases hroom : ml + LZ_MIN_MATCH > cap - out.length
          · rw [if_pos hroom]
            exact ⟨none, rfl, by dsimp only; rw [if_pos hroom]⟩
          · have hlen := copyBack_length off (ml + LZ_MIN_MATCH) out
            have hcopy := copyMatch_eq off (ml + LZ_MIN_MATCH) out (by omega)
            have hdone := copyMatchAt_eq out old off (ml + LZ_MIN_MATCH) (by omega) (by omega) (by omega)
            rw [if_neg hroom, sub_of_le (by omega), Option.bind_some, hdone, Option.bind_some]
            refine ⟨_, rfl, copyBack off (ml + LZ_MIN_MATCH) out, by omega, hend, hlen.symm, by omega,
              by omega, by rw [hlen, Nat.add_sub_cancel_left], ?_⟩
            dsimp only
            rw [if_neg hroom]
            split_ifs at hcopy ⊢ with hfar
            · rw [hcopy]
            · rfl

theorem decompressLoopAt_eq (src : Bytes) (cap fuel ip : Nat) (out old : Bytes) (hip : ip ≤ src.length)
    (hout : out.length ≤ cap) (hcap : cap ≤ out.length + old.length) (hfuel : src.length - ip < fuel) :
    decompressLoopAt src cap fuel ip out.length (filled out old) =
      some ((decompressFrom cap (src.drop ip) out).map fun final =>
        (final.length, filled final (old.drop (final.length - out.length)))) := by
  induction fuel generalizing ip out old with
  | zero => omega
  | succ fuel ih =>
      simp only [decompressLoopAt, Option.bind_eq_bind]
      by_cases hend : ip ≥ src.length
      · rw [if_pos hend, List.drop_eq_nil_of_le hend]
        simp [decompressFrom, decompressLoop]
      · have hlt : ip < src.length := by omega
        rw [if_neg hend, List.getElem?_eq_getElem hlt, Option.bind_some, List.drop_eq_getElem_cons hlt,
          decompressFrom_cons]
        obtain ⟨read, hread, hspec⟩ := readNibbleLenAt_eq src (src[ip].toNat >>> 4) (ip + 1) (by omega)
        rw [hread, Option.bind_some]
        cases read with
        | none =>
            dsimp only at hspec ⊢
            rw [hspec]
            rfl
        | some read =>
            obtain ⟨ip', lit⟩ := read
            obtain ⟨hle, hin, hspec⟩ := hspec
            dsimp only
            rw [hspec, sub_of_le hin, Option.bind_some, sub_of_le hout, Option.bind_some]
            dsimp only
            rw [List.length_drop]
            by_cases hfull : lit > src.length - ip' ∨ lit > cap - out.length
            · rw [if_pos hfull, if_pos hfull]
              rfl
            · have hlen : ((src.drop ip').take lit).length = lit := by
                rw [List.length_take, List.length_drop]
                omega
              have hsum : (out ++ (src.drop ip').take lit).length = out.length + lit := by
                rw [List.length_append, hlen]
              rw [if_neg hfull, if_neg hfull, slice_of_le (by omega), Option.bind_some,
                storeAll_filled out old _ (by omega), Option.bind_some, hlen, List.drop_drop]
              by_cases hlast : ip' + lit = src.length
              · rw [if_pos hlast, if_pos (List.drop_eq_nil_of_le (by omega)), Option.map_some, hsum,
                  Nat.add_sub_cancel_left]
              · have hne : src.drop (ip' + lit) ≠ [] := by
                  rw [Ne, List.drop_eq_nil_iff]
                  omega
                rw [if_neg hlast, if_neg hne, ← hsum]
                obtain ⟨found, hfound, hmatch⟩ := decompressMatchAt_eq src src[ip] cap (ip' + lit)
                  (out ++ (src.drop ip').take lit) (old.drop lit) (by omega) (by omega)
                  (by rw [List.length_drop]; omega)
                rw [hfound, Option.bind_some]
                cases found with
                | none =>
                    dsimp only at hmatch ⊢
                    rw [hmatch]
                    rfl
                | some found =>
                    obtain ⟨ip₂, op, dst⟩ := found
                    obtain ⟨grown, hnext, hin₂, rfl, hgrow, hfits, rfl, hmatch⟩ := hmatch
                    dsimp only
                    rw [hmatch, ih ip₂ grown _ hin₂ hfits (by simp only [List.length_drop]; omega) (by omega)]
                    dsimp only
                    cases hfrom : decompressFrom cap (src.drop ip₂) grown with
                    | none => rfl
                    | some final =>
                        have hlonger := (expands_of_decompressFrom cap _ _ grown final le_rfl hfits
                            hfrom).1.length_le
                        rw [Option.map_some, Option.map_some, List.drop_drop, List.drop_drop, hsum]
                        rw [hsum] at hgrow
                        congr 5
                        omega

-- No access of rd_lz_decompress faults; its result and the array it leaves are
-- those of the expansion, whatever the array held before.
theorem rdLzDecompressInto_eq (src : Bytes) (cap : Nat) (old : Bytes) (hcap : cap ≤ old.length) :
    rdLzDecompressInto src cap (fresh old) =
      some ((rdLzDecompress src cap).map fun out => (out.length, filled out (old.drop out.length))) := by
  have h := decompressLoopAt_eq src cap (src.length + 1) 0 [] old (Nat.zero_le _) (Nat.zero_le _)
    (by simpa using hcap) (by omega)
  rw [List.drop_zero] at h
  exact h

-- rd_lz_decompress on an array of cap elements: it ends without a fault, it
-- succeeds exactly on the sequences whose expansion fits, and neither what the
-- array held nor more room changes what it writes. The block copy of a match
-- is the bytewise one.
theorem lz_decoder_exact (src old : Bytes) :
    (∃ result, rdLzDecompressInto src old.length (fresh old) = some result) ∧
    (∀ n dst, rdLzDecompressInto src old.length (fresh old) = some (some (n, dst)) ↔
      ∃ out, Expands src [] out ∧ out.length = n ∧ n ≤ old.length ∧ dst = filled out (old.drop n)) ∧
    (rdLzDecompressInto src old.length (fresh old) = some none ↔
      ∀ out, Expands src [] out → old.length < out.length) ∧
    (∀ old' n dst, old.length ≤ old'.length →
      rdLzDecompressInto src old.length (fresh old) = some (some (n, dst)) →
      ∃ dst', rdLzDecompressInto src old'.length (fresh old') = some (some (n, dst')) ∧
        dst'.take n = dst.take n) ∧
    (∀ out off ml, 1 ≤ off → off ≤ out.length → ml ≤ old.length → ml ≤ off →
      copyBlock (filled out old) out.length (out.length - off) ml =
        copyForward (filled out old) out.length (out.length - off) ml) := by
  have hrun := rdLzDecompressInto_eq src old.length old le_rfl
  have hsome : ∀ n dst, rdLzDecompressInto src old.length (fresh old) = some (some (n, dst)) ↔
      ∃ out, Expands src [] out ∧ out.length = n ∧ n ≤ old.length ∧ dst = filled out (old.drop n) := by
    intro n dst
    rw [hrun, Option.some.injEq, Option.map_eq_some_iff]
    constructor
    · rintro ⟨out, hout, hpair⟩
      obtain ⟨hexpands, hfits⟩ := (rdLzDecompress_eq_some_iff src _ out).mp hout
      cases hpair
      exact ⟨out, hexpands, rfl, hfits, rfl⟩
    · rintro ⟨out, hexpands, rfl, hfits, rfl⟩
      exact ⟨out, (rdLzDecompress_eq_some_iff src _ out).mpr ⟨hexpands, hfits⟩, rfl⟩
  refine ⟨⟨_, hrun⟩, hsome, ?_, ?_, ?_⟩
  · rw [hrun, Option.some.injEq, Option.map_eq_none_iff, Option.eq_none_iff_forall_ne_some]
    constructor
    · intro hnone out hexpands
      by_contra hfits
      exact hnone out ((rdLzDecompress_eq_some_iff src _ out).mpr ⟨hexpands, by omega⟩)
    · intro htoo out hout
      obtain ⟨hexpands, hfits⟩ := (rdLzDecompress_eq_some_iff src _ out).mp hout
      have := htoo out hexpands
      omega
  · intro old' n dst hroom hdst
    obtain ⟨out, hexpands, rfl, hfits, rfl⟩ := (hsome n dst).mp hdst
    have hout := (rdLzDecompress_eq_some_iff src old'.length out).mpr ⟨hexpands, by omega⟩
    refine ⟨filled out (old'.drop out.length), ?_, ?_⟩
    · rw [rdLzDecompressInto_eq src old'.length old' le_rfl, hout]
      rfl
    · rw [take_filled, take_filled]
  · intro out off ml hpos hback hroom hfar
    rw [copyBlock_filled out old off ml hfar hback hroom, copyForward_filled out old off ml hpos hback hroom]

-- One literal, then a match that overlaps itself.
theorem lz_decoder_exact_run :
    rdLzDecompressInto [0x12, 65, 1, 0] 7 (fresh (List.replicate 7 0)) =
        some (some (7, filled (List.replicate 7 65) [])) ∧
      ∃ dst, rdLzDecompressInto [0x12, 65, 1, 0] 9 (fresh (List.replicate 9 1)) = some (some (7, dst)) := by
  have hspec := lz_decoder_exact [0x12, 65, 1, 0] (List.replicate 7 0)
  have hexpands : Expands [0x12, 65, 1, 0] [] (List.replicate 7 65) :=
    .sequence 0x12 1 0 [] [65] [] [] [] _ 2 (.short 1 (by decide)) (by decide) (by decide)
      (.short 2 (by decide)) (.done _)
  have hrun := (hspec.2.1 7 (filled (List.replicate 7 65) [])).mpr ⟨_, hexpands, rfl, le_rfl, rfl⟩
  obtain ⟨dst, hmore, _⟩ := hspec.2.2.2.1 (List.replicate 9 1) 7 _ (by decide) hrun
  exact ⟨hrun, dst, hmore⟩

end TetherDesk.Codec
