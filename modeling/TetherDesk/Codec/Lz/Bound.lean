import TetherDesk.Codec.Lz.Memory
import TetherDesk.Codec.Lz.RoundTrip

namespace TetherDesk.Codec

open TetherDesk.Lib.Buffer

-- The length bytes behind a nibble.
def nibbleLen (n : Nat) : Bytes := if n ≥ 15 then putLen (n - 15) else []

theorem nibbleLen_length (n : Nat) : (nibbleLen n).length = if n ≥ 15 then (n - 15) / 255 + 1 else 0 := by
  unfold nibbleLen
  split_ifs
  · simp [putLen]
  · rfl

theorem putLen_of_ge (len : Nat) (h : len ≥ 255) : putLen len = 255 :: putLen (len - 255) := by
  obtain ⟨k, rfl⟩ : ∃ k, len = k + 255 := ⟨len - 255, by omega⟩
  rw [putLen, putLen, Nat.add_sub_cancel, Nat.add_div_right _ (by omega), List.replicate_succ,
    Nat.add_mod_right]
  rfl

theorem putLen_of_lt (len : Nat) (h : ¬len ≥ 255) : putLen len = [UInt8.ofNat len] := by
  rw [putLen, Nat.div_eq_of_lt (by omega), Nat.mod_eq_of_lt (by omega)]
  rfl

theorem putLenAt_eq (fuel : Nat) (out old : Bytes) (len : Nat) (hfuel : len < fuel)
    (hroom : (putLen len).length ≤ old.length) :
    putLenAt fuel (filled out old) out.length len =
      some ((out ++ putLen len).length, filled (out ++ putLen len) (old.drop (putLen len).length)) := by
  induction fuel generalizing out old len with
  | zero => omega
  | succ fuel ih =>
      rw [putLenAt]
      by_cases h : len ≥ 255
      · rw [putLen_of_ge len h, List.length_cons] at hroom
        have hnext := ih (out ++ [255]) (old.drop 1) (len - 255) (by omega) (by rw [List.length_drop]; omega)
        rw [List.length_append, List.length_singleton] at hnext
        rw [if_pos h, store_filled out old 255 (by omega), Option.bind_eq_bind, Option.bind_some, hnext,
          putLen_of_ge len h, List.append_assoc, List.drop_drop, List.length_cons, Nat.add_comm 1]
        rfl
      · rw [putLen_of_lt len h, List.length_singleton] at hroom
        rw [if_neg h, store_filled out old _ (by omega), Option.bind_eq_bind, Option.bind_some,
          putLen_of_lt len h, List.length_append, List.length_singleton]

theorem putNibbleLenAt_eq (out old : Bytes) (n : Nat) (hroom : (nibbleLen n).length ≤ old.length) :
    putNibbleLenAt (filled out old) out.length n =
      some ((out ++ nibbleLen n).length, filled (out ++ nibbleLen n) (old.drop (nibbleLen n).length)) := by
  unfold putNibbleLenAt
  by_cases h : n ≥ 15
  · rw [nibbleLen, if_pos h] at hroom ⊢
    rw [if_pos h, putLenAt_eq (n + 1) out old (n - 15) (by omega) hroom]
  · rw [nibbleLen, if_neg h, if_neg h, List.append_nil]
    rfl

theorem emitLiterals_eq (lit : Bytes) : emitLiterals lit =
    (UInt8.ofNat ((if lit.length ≥ 15 then 15 else lit.length) <<< 4), nibbleLen lit.length ++ lit) := rfl

-- The token's place is reserved, everything else is appended in order.
theorem emitLiteralsAt_eq (src out old : Bytes) (anchor n : Nat) (hsrc : anchor + n ≤ src.length)
    (hroom : 1 + (nibbleLen n).length + n ≤ old.length) :
    emitLiteralsAt src (filled out old) (out.length + 1) out.length anchor n =
      (let (token, body) := emitLiterals ((src.drop anchor).take n)
       some ((out ++ token :: body).length, filled (out ++ token :: body) (old.drop (body.length + 1)))) := by
  have hlen : ((src.drop anchor).take n).length = n := by
    rw [List.length_take, List.length_drop]
    omega
  have hnibble := putNibbleLenAt_eq (out ++ [UInt8.ofNat ((if n ≥ 15 then 15 else n) <<< 4)]) (old.drop 1) n
    (by rw [List.length_drop]; omega)
  rw [List.length_append, List.length_singleton] at hnibble
  simp only [emitLiteralsAt, Option.bind_eq_bind]
  rw [store_filled out old _ (by omega), Option.bind_some, hnibble, Option.bind_some]
  dsimp only
  rw [slice_of_le hsrc, Option.bind_some, storeAll_filled _ _ _ (by simp only [List.length_drop]; omega),
    Option.bind_some, emitLiterals_eq, hlen]
  simp only [List.append_assoc, List.cons_append, List.nil_append, List.drop_drop, List.length_append,
    List.length_cons, hlen]
  refine congrArg some (Prod.ext ?_ ?_)
  · dsimp only
    omega
  · rw [show 1 + (nibbleLen n).length + n = (nibbleLen n).length + n + 1 by omega]

theorem emitSequence_eq (lit : Bytes) (off m : Nat) : emitSequence lit off m =
    ((emitLiterals lit).1 ||| UInt8.ofNat (if m - LZ_MIN_MATCH ≥ 15 then 15 else m - LZ_MIN_MATCH)) ::
      ((emitLiterals lit).2 ++ [UInt8.ofNat off, UInt8.ofNat (off >>> 8)] ++ nibbleLen (m - LZ_MIN_MATCH)) := rfl

theorem emitSequence_length (lit : Bytes) (off m : Nat) : (emitSequence lit off m).length =
    3 + (nibbleLen lit.length).length + lit.length + (nibbleLen (m - LZ_MIN_MATCH)).length := by
  rw [emitSequence_eq, emitLiterals_eq]
  simp only [List.length_cons, List.length_append, List.length_nil]
  omega

theorem emitSequenceAt_eq (src out old : Bytes) (anchor ip ref m : Nat) (hanchor : anchor ≤ ip)
    (hip : ip ≤ src.length) (href : ref ≤ ip) (hm : LZ_MIN_MATCH ≤ m)
    (hroom : (emitSequence ((src.drop anchor).take (ip - anchor)) (ip - ref) m).length ≤ old.length) :
    emitSequenceAt src (filled out old) out.length anchor ip ref m =
      (let s := emitSequence ((src.drop anchor).take (ip - anchor)) (ip - ref) m
       some ((out ++ s).length, filled (out ++ s) (old.drop s.length))) := by
  have hlen : ((src.drop anchor).take (ip - anchor)).length = ip - anchor := by
    rw [List.length_take, List.length_drop]
    omega
  rw [emitSequence_length, hlen] at hroom
  have hlit := emitLiteralsAt_eq src out old anchor (ip - anchor) (by omega) (by omega)
  have hbody : (emitLiterals ((src.drop anchor).take (ip - anchor))).2.length =
      (nibbleLen (ip - anchor)).length + (ip - anchor) := by
    rw [emitLiterals_eq, List.length_append, hlen]
  simp only [emitSequenceAt, Option.bind_eq_bind, emitSequence_eq]
  generalize emitLiterals ((src.drop anchor).take (ip - anchor)) = lit at hlit hbody ⊢
  obtain ⟨token, body⟩ := lit
  dsimp only at hlit hbody ⊢
  rw [reserve, if_pos (by rw [filled_length]; omega), Option.bind_some, sub_of_le hanchor, Option.bind_some,
    hlit, Option.bind_some]
  dsimp only
  rw [sub_of_le href, Option.bind_some, store_filled _ _ _ (by rw [List.length_drop]; omega), Option.bind_some]
  generalize hout : out ++ token :: body ++ [UInt8.ofNat (ip - ref)] = out₁
  have hout₁ : out₁.length = (out ++ token :: body).length + 1 := by
    rw [← hout, List.length_append, List.length_singleton]
  rw [← hout₁, store_filled _ _ _ (by simp only [List.length_drop]; omega), Option.bind_some,
    sub_of_le hm, Option.bind_some]
  have hmark : out₁ ++ [UInt8.ofNat ((ip - ref) >>> 8)] =
      out ++ token :: (body ++ [UInt8.ofNat (ip - ref), UInt8.ofNat ((ip - ref) >>> 8)]) := by
    rw [← hout]
    simp
  have htoken : out.length < (out ++ token :: (body ++
      [UInt8.ofNat (ip - ref), UInt8.ofNat ((ip - ref) >>> 8)])).length := by
    rw [List.length_append, List.length_cons]
    omega
  rw [hmark, load_filled _ _ _ htoken, Option.bind_some, store_set _ _ _ _ htoken, Option.bind_some,
    List.set_append_right _ _ le_rfl, Nat.sub_self, List.set_cons_zero,
    List.getElem_append_right le_rfl]
  simp only [Nat.sub_self, List.getElem_cons_zero]
  -- what is left is the length behind the match nibble
  have hoff : (body ++ [UInt8.ofNat (ip - ref), UInt8.ofNat ((ip - ref) >>> 8)]).length = body.length + 2 := by
    rw [List.length_append]
    rfl
  generalize body ++ [UInt8.ofNat (ip - ref), UInt8.ofNat ((ip - ref) >>> 8)] = tail at hoff ⊢
  generalize token ||| UInt8.ofNat (if m - LZ_MIN_MATCH ≥ 15 then 15 else m - LZ_MIN_MATCH) = token'
  have hlast := putNibbleLenAt_eq (out ++ token' :: tail) (old.drop (body.length + 3)) (m - LZ_MIN_MATCH)
    (by rw [List.length_drop]; omega)
  have hop : (out ++ token :: body).length + 2 = (out ++ token' :: tail).length := by
    simp only [List.length_append, List.length_cons]
    omega
  have hsize : (token' :: (tail ++ nibbleLen (m - LZ_MIN_MATCH))).length =
      body.length + 3 + (nibbleLen (m - LZ_MIN_MATCH)).length := by
    simp only [List.length_append, List.length_cons]
    omega
  rw [hop, List.drop_drop, List.drop_drop, hlast, List.append_assoc, List.cons_append, List.drop_drop, hsize]

-- The four bytes at p lie in the source.
theorem read32At_of_le (src : Bytes) (p : Nat) (h : p + 4 ≤ src.length) :
    read32At src p = some (read32 src p) := by
  rw [read32At, slice_of_le h]
  rfl

theorem lzHash_lt (seq : UInt32) : lzHash seq < 1 <<< LZ_HASH_LOG := by
  unfold lzHash
  rw [UInt32.toNat_shiftRight]
  have hword := (seq * (2654435761 : UInt32)).toNat_lt
  change _ >>> (19 % 32) < _
  rw [Nat.shiftRight_eq_div_pow]
  change _ / 2 ^ 19 < 8192
  omega

theorem extendForwardAt_eq (src : Bytes) (ref ip maxm fuel m : Nat) (hfuel : maxm - m ≤ fuel)
    (href : ref ≤ ip) (hend : ip + maxm ≤ src.length) :
    extendForwardAt src ref ip maxm (fuel + 1) m = some (extendForward src ref ip maxm fuel m) := by
  induction fuel generalizing m with
  | zero =>
      rw [extendForwardAt, if_neg (by omega)]
      rfl
  | succ fuel ih =>
      rw [extendForwardAt, extendForward]
      by_cases hm : m < maxm
      · have hr : ref + m < src.length := by omega
        have hi : ip + m < src.length := by omega
        have hra : byteAt src (ref + m) = src[ref + m] := List.getD_eq_getElem _ _ hr
        have hia : byteAt src (ip + m) = src[ip + m] := List.getD_eq_getElem _ _ hi
        rw [if_pos hm, List.getElem?_eq_getElem hr, List.getElem?_eq_getElem hi, ← hra, ← hia]
        simp only [Option.bind_eq_bind, Option.bind_some]
        by_cases heq : byteAt src (ref + m) = byteAt src (ip + m)
        · rw [if_pos heq, if_pos ⟨hm, heq⟩, ih (m + 1) (by omega)]
        · rw [if_neg heq, if_neg (fun h => heq h.2)]
      · rw [if_neg hm, if_neg (fun h => hm h.1)]

theorem extendBackwardAt_eq (src : Bytes) (anchor ip ref m : Nat) (hip : ip ≤ src.length) (href : ref ≤ ip) :
    extendBackwardAt src anchor ip ref m = some (extendBackward src anchor ip ref m) := by
  induction ip generalizing ref m with
  | zero => cases ref <;> rfl
  | succ ip ih =>
      cases ref with
      | zero => rfl
      | succ ref =>
          rw [extendBackwardAt, extendBackward]
          by_cases ha : anchor < ip + 1
          · have hi : ip < src.length := by omega
            have hr : ref < src.length := by omega
            have hia : byteAt src ip = src[ip] := List.getD_eq_getElem _ _ hi
            have hra : byteAt src ref = src[ref] := List.getD_eq_getElem _ _ hr
            rw [if_pos ha, List.getElem?_eq_getElem hi, List.getElem?_eq_getElem hr, ← hia, ← hra]
            simp only [Option.bind_eq_bind, Option.bind_some]
            by_cases heq : byteAt src ip = byteAt src ref
            · rw [if_pos heq, if_pos ⟨ha, heq⟩, ih ref (m + 1) (by omega) (by omega)]
            · rw [if_neg heq, if_neg (fun h => heq h.2)]
          · rw [if_neg ha, if_neg (fun h => ha h.1)]

-- A table entry is a position before ip plus one.
theorem candidateAt_eq (src : Bytes) (ip cand : Nat) (seq : UInt32) (hcand : cand ≤ ip)
    (hip : ip + 4 ≤ src.length) : candidateAt src ip cand seq = some (candidate src ip cand seq) := by
  simp only [candidateAt, candidate, Option.bind_eq_bind]
  by_cases h₀ : cand = 0
  · rw [if_pos h₀, if_pos (Or.inl h₀)]
  · rw [if_neg h₀, sub_of_le (by omega), Option.bind_some, sub_of_le (by omega), Option.bind_some]
    by_cases hfar : ip - (cand - 1) > 65535
    · rw [if_pos hfar, if_pos (Or.inr (Or.inr (Or.inl hfar)))]
    · rw [if_neg hfar, read32At_of_le src _ (by omega), Option.bind_some]
      by_cases hword : read32 src (cand - 1) ≠ seq
      · rw [if_pos hword, if_pos (Or.inr (Or.inr (Or.inr hword)))]
      · rw [if_neg hword, if_neg]
        rintro (h | h | h | h)
        · exact h₀ h
        · omega
        · exact hfar h
        · exact hword h

-- The search state as it lies in memory.
def cursor (old : Bytes) (st : LzState) : LzCursor :=
  { ip := st.ip
    anchor := st.anchor
    table := st.table
    op := st.op.length
    dst := filled st.op (old.drop st.op.length) }

-- The overhead of a sequence is paid for by the bytes its match covers, but for
-- one byte in 255 of its literals.
theorem emitSequence_paid (lit : Bytes) (off m : Nat) (hm : LZ_MIN_MATCH ≤ m) :
    (emitSequence lit off m).length ≤ lit.length + m + lit.length / 255 := by
  rw [emitSequence_length, nibbleLen_length, nibbleLen_length]
  unfold LZ_MIN_MATCH at *
  split_ifs <;> omega

-- Everything up to the anchor has been written within its share of the bound.
def Paid (st : LzState) : Prop := st.op.length ≤ st.anchor + st.anchor / 255

theorem compressStep_spec (src old : Bytes) (st : LzState) (hn : LZ_MF_LIMIT ≤ src.length)
    (hip : st.ip ≤ src.length - LZ_MF_LIMIT) (inv : LzInvariant src st) (hpaid : Paid st)
    (hroom : rdLzBound src.length ≤ old.length) :
    compressStepAt src (cursor old st) = some (cursor old (compressStep src st)) ∧
      Paid (compressStep src st) ∧ st.ip < (compressStep src st).ip := by
  have hn' := hn
  have hip' := hip
  unfold LZ_MF_LIMIT at hn' hip'
  have hword := read32At_of_le src st.ip (by omega)
  have hslot : slotAt st.table (lzHash (read32 src st.ip)) = some (st.table (lzHash (read32 src st.ip))) :=
    if_pos (lzHash_lt _)
  have hset : ∀ table : Nat → Nat, ∀ seq v, setSlotAt table (lzHash seq) v =
      some (Function.update table (lzHash seq) v) := fun table seq v => if_pos (lzHash_lt seq)
  have hcand := candidateAt_eq src st.ip (st.table (lzHash (read32 src st.ip))) (read32 src st.ip)
    (inv.table_le _) (by omega)
  simp only [compressStepAt, compressStep, cursor, Option.bind_eq_bind]
  rw [sub_of_le hn, Option.bind_some, hword, Option.bind_some, hslot, Option.bind_some, hset, Option.bind_some,
    hcand, Option.bind_some]
  cases hc : candidate src st.ip (st.table (lzHash (read32 src st.ip))) (read32 src st.ip) with
  | none =>
      dsimp only
      rw [sub_of_le inv.anchor_le_ip]
      exact ⟨rfl, hpaid, by omega⟩
  | some ref =>
      obtain ⟨href, ip, ref', m, hext, hanchor, href', _, hm, hnext, hend, _⟩ :=
        found_spec src st ref hn hip inv hc
      have hlit : ((src.drop st.anchor).take (ip - st.anchor)).length = ip - st.anchor := by
        rw [List.length_take, List.length_drop]
        unfold LZ_LAST_LITERALS at hend
        omega
      have hcost := emitSequence_paid ((src.drop st.anchor).take (ip - st.anchor)) (ip - ref') m hm
      rw [hlit] at hcost
      have hlast : LZ_LAST_LITERALS = 5 := rfl
      have hmin : LZ_MIN_MATCH = 4 := rfl
      have hbound : rdLzBound src.length = src.length + src.length / 255 + 16 := rfl
      unfold Paid at hpaid ⊢
      dsimp only
      rw [sub_of_le (by omega), Option.bind_some, sub_of_le (by omega), Option.bind_some,
        extendForwardAt_eq src ref st.ip _ _ _ (by omega) href.le (by omega), Option.bind_some,
        extendBackwardAt_eq src st.anchor st.ip ref _ (by omega) href.le, Option.bind_some, hext]
      dsimp only
      rw [emitSequenceAt_eq src st.op _ st.anchor ip ref' m hanchor (by omega) href'.le hm
        (by rw [List.length_drop]; omega), Option.bind_some]
      dsimp only
      rw [sub_of_le (by omega), Option.bind_some, List.drop_drop, ← List.length_append]
      refine ⟨?_, by rw [List.length_append]; omega, by omega⟩
      by_cases hbehind : ip + m - 2 ≤ src.length - LZ_MF_LIMIT
      · rw [if_pos hbehind, if_pos hbehind, read32At_of_le src _ (by omega), Option.bind_some, hset,
          Option.bind_some]
      · rw [if_neg hbehind, if_neg hbehind]

theorem compressLoop_spec (src old : Bytes) (fuel : Nat) (st : LzState) (hn : LZ_MF_LIMIT ≤ src.length)
    (hfuel : src.length - LZ_MF_LIMIT < st.ip + fuel) (inv : LzInvariant src st) (hpaid : Paid st)
    (hroom : rdLzBound src.length ≤ old.length) :
    compressLoopAt src (fuel + 1) (cursor old st) = some (cursor old (compressLoop src fuel st)) ∧
      Paid (compressLoop src fuel st) := by
  induction fuel generalizing st with
  | zero =>
      simp only [compressLoopAt, compressLoop, Option.bind_eq_bind]
      rw [sub_of_le hn, Option.bind_some, if_neg (by change ¬st.ip ≤ _; omega)]
      exact ⟨rfl, hpaid⟩
  | succ fuel ih =>
      rw [compressLoopAt, compressLoop, sub_of_le hn]
      simp only [Option.bind_eq_bind, Option.bind_some]
      by_cases hip : st.ip ≤ src.length - LZ_MF_LIMIT
      · obtain ⟨hstep, hpaid', hgrow⟩ := compressStep_spec src old st hn hip inv hpaid hroom
        rw [if_pos hip, if_pos (by exact hip), hstep, Option.bind_some]
        exact ih _ (by omega) (compressStep_invariant src st hn hip inv) hpaid'
      · rw [if_neg hip, if_neg (by exact hip)]
        exact ⟨rfl, hpaid⟩

-- The search leaves room for the token, the length and the bytes of the last
-- literals.
theorem search_spec (src old : Bytes) (hroom : rdLzBound src.length ≤ old.length) :
    ∃ st : LzState, st = (if src.length ≥ LZ_MF_LIMIT then
        compressLoop src src.length { ip := 0, anchor := 0, table := fun _ => 0, op := [] }
        else { ip := 0, anchor := 0, table := fun _ => 0, op := [] }) ∧
      (if src.length ≥ LZ_MF_LIMIT then
        compressLoopAt src (src.length + 1)
          { ip := 0, anchor := 0, table := fun _ => 0, op := 0, dst := fresh old }
        else some { ip := 0, anchor := 0, table := fun _ => 0, op := 0, dst := fresh old }) =
        some (cursor old st) ∧
      LzInvariant src st ∧ Paid st := by
  refine ⟨_, rfl, ?_⟩
  by_cases hn : src.length ≥ LZ_MF_LIMIT
  · rw [if_pos hn, if_pos hn]
    have hlimit : LZ_MF_LIMIT = 12 := rfl
    obtain ⟨hloop, hpaid⟩ := compressLoop_spec src old src.length
      { ip := 0, anchor := 0, table := fun _ => 0, op := [] } hn (by dsimp only; omega) (initial_invariant src)
      (Nat.zero_le _) hroom
    exact ⟨hloop, compressLoop_invariant src _ _ hn (initial_invariant src), hpaid⟩
  · rw [if_neg hn, if_neg hn]
    exact ⟨rfl, initial_invariant src, Nat.zero_le _⟩

-- In an array of rd_lz_bound elements no write of rd_lz_compress is out of
-- place, and none of its reads is outside the source.
theorem rdLzCompressInto_eq (src old : Bytes) (cap : Nat) (hroom : rdLzBound src.length ≤ old.length) :
    rdLzCompressInto src cap (fresh old) =
        some ((rdLzCompress src cap).length,
          filled (rdLzCompress src cap) (old.drop (rdLzCompress src cap).length)) ∧
      (rdLzCompress src cap).length ≤ rdLzBound src.length := by
  unfold rdLzCompressInto rdLzCompress
  by_cases hcap : cap < rdLzBound src.length
  · rw [if_pos hcap, if_pos hcap]
    exact ⟨rfl, Nat.zero_le _⟩
  · rw [if_neg hcap, if_neg hcap]
    obtain ⟨st, hst, hsearch, inv, hpaid⟩ := search_spec src old hroom
    simp only [Option.bind_eq_bind]
    rw [← hst, hsearch, Option.bind_some]
    have hle := inv.anchor_le
    have hbound : rdLzBound src.length = src.length + src.length / 255 + 16 := rfl
    have hlit : ((src.drop st.anchor).take (src.length - st.anchor)) = src.drop st.anchor :=
      List.take_of_length_le (by rw [List.length_drop])
    have hlong := nibbleLen_length (src.length - st.anchor)
    have hbody : (emitLiterals (src.drop st.anchor)).2.length =
        (nibbleLen (src.length - st.anchor)).length + (src.length - st.anchor) := by
      rw [emitLiterals_eq, List.length_append, List.length_drop]
    have hfits : (nibbleLen (src.length - st.anchor)).length ≤ (src.length - st.anchor) / 255 + 1 := by
      rw [hlong]
      split_ifs <;> omega
    unfold Paid at hpaid
    have hlast := emitLiteralsAt_eq src st.op (old.drop st.op.length) st.anchor (src.length - st.anchor)
      (by omega) (by rw [List.length_drop]; omega)
    rw [hlit] at hlast
    generalize emitLiterals (src.drop st.anchor) = lit at hlast hbody ⊢
    obtain ⟨token, body⟩ := lit
    dsimp only [cursor] at hlast hbody ⊢
    have hsize : (st.op ++ token :: body).length = st.op.length + (body.length + 1) := by
      rw [List.length_append, List.length_cons]
    rw [reserve, if_pos (by rw [filled_length, List.length_drop]; omega), Option.bind_some, sub_of_le hle,
      Option.bind_some, hlast, List.drop_drop, hsize]
    exact ⟨rfl, by omega⟩

end TetherDesk.Codec
