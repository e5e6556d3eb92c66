import TetherDesk.Hash
import TetherDesk.Lib.Chunks
import TetherDesk.Lib.MerkleDamgard
import TetherDesk.Secure

namespace TetherDesk.Hash

open TetherDesk.Lib TetherDesk.Lib.MerkleDamgard

-- A big-endian number.
def beNat (p : Bytes) : Nat := p.foldl (fun acc b => acc * 256 + b.toNat) 0

-- The message, 0x80, the least number of zero bytes and the bit length in eight bytes
-- make a multiple of 64 bytes.
structure Padded (m p : Bytes) (zeros : Nat) (length : Bytes) : Prop where
  padded : p = m ++ [0x80] ++ List.replicate zeros 0 ++ length
  width : length.length = 8
  bits : beNat length = 8 * m.length
  whole : 64 ∣ p.length
  least : ∀ k, 64 ∣ m.length + 1 + k + 8 → zeros ≤ k

section Streaming

theorem filled_take (c : Sha256Ctx) (p : Bytes) :
    (c.filled p).take (c.fill + c.take p) = c.block.take c.fill ++ p.take (c.take p) := by
  have htake := c.take_le p
  have hblock := c.block_length
  have hlt := c.fill_lt
  unfold Sha256Ctx.filled memcpy
  rw [List.take_left']
  simp only [List.length_append, List.length_take]
  omega

-- A context as the hash of what it was fed: the block function, and the start of the
-- next block.
def Sha256Ctx.stream (c : Sha256Ctx) : Stream (Vector UInt32 8) UInt8 64 :=
  ⟨c.h, c.block.take c.fill, by have := c.fill_lt; rw [List.length_take]; omega⟩

theorem stream_rest_length (c : Sha256Ctx) : c.stream.rest.length = c.fill := by
  have := c.fill_lt
  have := c.block_length
  unfold Sha256Ctx.stream
  rw [List.length_take]
  omega

theorem absorb_stream (c : Sha256Ctx) (p : Bytes) :
    (c.absorb p).stream = c.stream.absorb sha256Block p ∧ (c.absorb p).total = c.total := by
  induction c, p using Sha256Ctx.absorb.induct with
  | case1 c => rw [Sha256Ctx.absorb_nil]; exact ⟨rfl, rfl⟩
  | case2 c p hp hfull ih =>
      have htake := c.take_le p
      rw [Sha256Ctx.absorb, dif_neg hp, dif_pos hfull]
      refine ⟨ih.1.trans ?_, ih.2⟩
      conv_rhs => rw [← List.take_append_drop (c.take p) p, absorb_append]
      congr 1
      obtain ⟨hh, hrest⟩ := absorb_full sha256Block c.stream (p.take (c.take p))
        (by rw [stream_rest_length, List.length_take]; omega)
      have hwhole : c.filled p = c.block.take c.fill ++ p.take (c.take p) := by
        rw [← filled_take, hfull, ← c.filled_length p, List.take_length]
      exact Stream.ext' ((congrArg (sha256Block c.h) hwhole).trans hh.symm) hrest.symm
  | case3 c p hp hfull ih =>
      have htake := c.take_le p
      rw [Sha256Ctx.absorb, dif_neg hp, dif_neg hfull]
      refine ⟨ih.1.trans ?_, ih.2⟩
      conv_rhs => rw [← List.take_append_drop (c.take p) p, absorb_append]
      congr 1
      obtain ⟨hh, hrest⟩ := absorb_short sha256Block c.stream (p.take (c.take p))
        (by rw [stream_rest_length, List.length_take]; omega)
      exact Stream.ext' hh.symm ((filled_take c p).trans hrest.symm)

theorem update_stream (c : Sha256Ctx) (data : Bytes) :
    (rdSha256Update c data).stream = c.stream.absorb sha256Block data ∧
      (rdSha256Update c data).total = c.total + UInt64.ofNat data.length :=
  absorb_stream _ data

theorem pad_stream (c : Sha256Ctx) :
    (rdSha256Pad c).stream = c.stream.absorb sha256Block (List.replicate ((120 - c.fill) % 64) 0) := by
  induction c using rdSha256Pad.induct with
  | case1 c hfill ih =>
      have hlt := c.fill_lt
      have hcount : (120 - c.fill) % 64 = (120 - (rdSha256Update c [0]).fill) % 64 + 1 := by
        rw [update_byte_fill]
        split_ifs <;> omega
      rw [rdSha256Pad, if_pos hfill, ih, hcount, (update_stream c [0]).1, List.replicate_succ]
      rfl
  | case2 c hfill =>
      rw [rdSha256Pad, if_neg hfill, not_not.mp hfill]
      rfl

-- The bit length as the last eight bytes.
def lengthBytes (bits : UInt64) : Bytes := (List.range 8).map fun i => (bits >>> UInt64.ofNat (56 - 8 * i)).toUInt8

theorem beNat_concat (p : Bytes) (b : UInt8) : beNat (p ++ [b]) = beNat p * 256 + b.toNat := by simp [beNat]

theorem beNat_digits (v k : Nat) :
    beNat ((List.range k).map fun i => UInt8.ofNat (v >>> (8 * (k - 1 - i)))) = v % 256 ^ k := by
  induction k generalizing v with
  | zero => simp [beNat, Nat.mod_one]
  | succ k ih =>
      have hhigh : (List.range k).map (fun i => UInt8.ofNat (v >>> (8 * (k + 1 - 1 - i)))) =
          (List.range k).map fun i => UInt8.ofNat ((v / 256) >>> (8 * (k - 1 - i))) := by
        refine List.map_congr_left fun i hi => ?_
        have hi := List.mem_range.mp hi
        rw [show 8 * (k + 1 - 1 - i) = 8 + 8 * (k - 1 - i) by omega, Nat.shiftRight_add,
          Nat.shiftRight_eq_div_pow v 8]
      have hlow : (UInt8.ofNat (v >>> (8 * (k + 1 - 1 - k)))).toNat = v % 256 := by
        rw [show 8 * (k + 1 - 1 - k) = 0 by omega]
        rfl
      rw [List.range_succ, List.map_append, List.map_cons, List.map_nil, beNat_concat, hhigh, ih, hlow,
        Nat.pow_succ',
        Nat.mod_mul, Nat.mul_comm (v / 256 % 256 ^ k), Nat.add_comm]

theorem beNat_lengthBytes (bits : UInt64) : beNat (lengthBytes bits) = bits.toNat := by
  have hbytes : lengthBytes bits = (List.range 8).map fun i => UInt8.ofNat (bits.toNat >>> (8 * (8 - 1 - i))) := by
    refine List.map_congr_left fun i hi => ?_
    have hi := List.mem_range.mp hi
    rw [← UInt8.toNat_inj, UInt64.toNat_toUInt8, UInt64.toNat_shiftRight, UInt64.toNat_ofNat', UInt8.toNat_ofNat',
      Nat.mod_eq_of_lt (show 56 - 8 * i < 2 ^ 64 by omega), Nat.mod_eq_of_lt (show 56 - 8 * i < 64 by omega),
      show 56 - 8 * i = 8 * (8 - 1 - i) by omega]
  rw [hbytes, beNat_digits]
  exact Nat.mod_eq_of_lt bits.toNat_lt

-- The digest of a context in terms of what it was fed.
theorem final_stream (c : Sha256Ctx) :
    (rdSha256Final c).1 = (c.stream.absorb sha256Block
      ([0x80] ++ List.replicate ((119 - c.fill) % 64) 0 ++ lengthBytes (c.total * 8))).h.toList.flatMap
        putBe32 := by
  have hfill := c.fill_lt
  have hcount : (119 - c.fill) % 64 = (120 - (rdSha256Update c [0x80]).fill) % 64 := by
    rw [update_byte_fill]
    split_ifs <;> omega
  rw [absorb_append, absorb_append, ← (update_stream c [0x80]).1, hcount, ← pad_stream, ← (update_stream _ _).1]
  rfl

end Streaming

section Padding

variable (m : Bytes)

-- The message as both functions pad it.
def pad : Bytes :=
  m ++ [0x80] ++ List.replicate ((119 - m.length % 64) % 64) 0 ++ lengthBytes (UInt64.ofNat m.length * 8)

theorem pad_length : (pad m).length = (m.length + 72) / 64 * 64 := by
  unfold pad lengthBytes
  simp only [List.length_append, List.length_singleton, List.length_replicate, List.length_map, List.length_range]
  omega

-- The padding is the one of the standard, and there is no other.
theorem padded_pad (h : m.length < 2 ^ 61) :
    Padded m (pad m) ((119 - m.length % 64) % 64) (lengthBytes (UInt64.ofNat m.length * 8)) := by
  refine ⟨rfl, by simp [lengthBytes], ?_, ?_, fun k hk => by omega⟩
  · have height : (8 : UInt64).toNat = 8 := rfl
    rw [beNat_lengthBytes, UInt64.toNat_mul, UInt64.toNat_ofNat', height]
    omega
  · rw [pad_length]
    exact Nat.dvd_mul_left _ _

theorem beNat_inj {p q : Bytes} (hlength : p.length = q.length) (h : beNat p = beNat q) : p = q := by
  induction p using List.reverseRecOn generalizing q with
  | nil => exact (List.eq_nil_of_length_eq_zero hlength.symm).symm
  | append_singleton p a ih =>
      rcases List.eq_nil_or_concat q with rfl | ⟨q, b, rfl⟩
      · simp at hlength
      · rw [List.concat_eq_append] at hlength h ⊢
        rw [beNat_concat, beNat_concat] at h
        have ha := a.toNat_lt
        have hb := b.toNat_lt
        rw [ih (by simpa using hlength) (by omega), UInt8.toNat_inj.mp (show a.toNat = b.toNat by omega)]

theorem Padded.unique {m p : Bytes} {zeros : Nat} {length : Bytes} (hp : Padded m p zeros length)
    (h : m.length < 2 ^ 61) :
    p = pad m := by
  have hpad := padded_pad m h
  have hwhole : ∀ k l, 64 ∣ (m ++ [0x80] ++ List.replicate k 0 ++ l : Bytes).length → l.length = 8 →
      64 ∣ m.length + 1 + k + 8 := by
    intro k l hdvd hl
    rwa [List.length_append, List.length_append, List.length_append, List.length_singleton,
      List.length_replicate, hl] at hdvd
  have hzeros : zeros = (119 - m.length % 64) % 64 :=
    Nat.le_antisymm (hp.least _ (hwhole _ _ hpad.whole hpad.width))
      (hpad.least _ (hwhole _ _ (hp.padded ▸ hp.whole) hp.width))
  have hlength := beNat_inj (hp.width.trans hpad.width.symm) (hp.bits.trans hpad.bits.symm)
  rw [hp.padded, hzeros, hlength]
  rfl

end Padding

section Sha256

-- A context that has been fed a message since its initialisation.
structure Fed (c : Sha256Ctx) (m : Bytes) : Prop where
  stream : c.stream = (Stream.start (Nat.succ_pos 63) sha256Iv).absorb sha256Block m
  total : c.total = UInt64.ofNat m.length

theorem init_fed (c : Sha256Ctx) : Fed (rdSha256Init c) [] := ⟨Stream.ext' rfl rfl, rfl⟩

theorem Fed.update {c : Sha256Ctx} {m : Bytes} (h : Fed c m) (data : Bytes) : Fed (rdSha256Update c data)
    (m ++ data) := by
  obtain ⟨hstream, htotal⟩ := update_stream c data
  refine ⟨?_, ?_⟩
  · rw [hstream, h.stream, absorb_append]
  · rw [htotal, h.total, List.length_append, UInt64.ofNat_add]

theorem Fed.updates {c : Sha256Ctx} {m : Bytes} (h : Fed c m) (chunks : List Bytes) :
    Fed (chunks.foldl rdSha256Update c) (m ++ chunks.flatten) := by
  induction chunks generalizing c m with
  | nil => simpa using h
  | cons data chunks ih => simpa using ih (h.update data)

-- What a context gives in the end depends on what it was fed only.
theorem Fed.final {c : Sha256Ctx} {m : Bytes} (h : Fed c m) :
    (rdSha256Final c).1 = (iterate sha256Block 64 sha256Iv (pad m)).toList.flatMap putBe32 := by
  have hfill : c.fill = m.length % 64 := by
    rw [← stream_rest_length, h.stream, absorb_rest_length]
    simp [Stream.start]
  rw [final_stream, h.stream, ← absorb_append, h.total, hfill, absorb_start]
  unfold pad
  simp only [List.append_assoc]

theorem rdSha256_digest (c : Sha256Ctx) (m : Bytes) :
    rdSha256 c m = (iterate sha256Block 64 sha256Iv (pad m)).toList.flatMap putBe32 := ((init_fed c).update m).final

theorem Fed.digest {c : Sha256Ctx} {m : Bytes} (h : Fed c m) (c₀ : Sha256Ctx) : (rdSha256Final c).1 =
    rdSha256 c₀ m := by
  rw [h.final, rdSha256_digest]

end Sha256

section Sha1

-- A block function reads 64 bytes of what it is given.
theorem firstWords_take (p : Bytes) : firstWords (p.take 64) = firstWords p := by
  refine List.map_congr_left fun i hi => ?_
  have hi := List.mem_range.mp hi
  have hbyte : ∀ j < 4, byteAt ((p.take 64).drop (4 * i)) j = byteAt (p.drop (4 * i)) j := by
    intro j hj
    unfold byteAt
    rw [List.getD_eq_getElem?_getD, List.getD_eq_getElem?_getD, List.getElem?_drop, List.getElem?_drop,
      List.getElem?_take_of_lt (by omega)]
  unfold be32
  rw [hbyte 0 (by omega), hbyte 1 (by omega), hbyte 2 (by omega), hbyte 3 (by omega)]

theorem sha1Block_take (h : Vector UInt32 5) (p : Bytes) : sha1Block h (p.take 64) = sha1Block h p := by
  unfold sha1Block sha1Schedule
  rw [firstWords_take]

-- The loop takes the complete blocks of the message off whatever follows it.
theorem sha1Blocks_iterate (h : Vector UInt32 5) (p suffix : Bytes) :
    iterate sha1Block 64 h (p ++ suffix) = iterate sha1Block 64 (sha1Blocks h p).1 ((sha1Blocks h p).2 ++ suffix) ∧
      (sha1Blocks h p).2.length = p.length % 64 := by
  induction h, p using sha1Blocks.induct with
  | case1 h p hlong ih =>
      have hlength : (p.drop 64).length % 64 = p.length % 64 := by
        rw [List.length_drop]
        omega
      rw [sha1Blocks, if_pos hlong, ← ih.1, ih.2, hlength, iterate_step sha1Block h (by omega) (by simp; omega),
        List.take_append_of_le_length hlong, List.drop_append_of_le_length hlong, sha1Block_take]
      exact ⟨rfl, rfl⟩
  | case2 h p hlong =>
      rw [sha1Blocks, if_neg hlong, Nat.mod_eq_of_lt (by omega)]
      exact ⟨rfl, rfl⟩

theorem set_take_succ {α : Type} (t : List α) {j : Nat} (h : j < t.length) (a : α) :
    (t.take (j + 1)).set j a = t.take j ++ [a] := by
  rw [List.take_succ_eq_append_getElem h, List.set_append_right _ _ (by simp)]
  simp [Nat.min_eq_left (Nat.le_of_lt h)]

-- Elements stored downwards from a position.
theorem foldl_set_down {α : Type} (t : List α) (f : Nat → α) {tl : Nat} (htl : tl ≤ t.length) :
    ∀ k ≤ tl, (List.range k).foldl (fun t i => t.set (tl - 1 - i) (f i)) t =
      t.take (tl - k) ++ ((List.range k).map f).reverse ++ t.drop tl := by
  intro k hk
  induction k with
  | zero => simp
  | succ k ih =>
      have hlast : tl - k = tl - 1 - k + 1 := by omega
      rw [List.range_succ, List.foldl_append, List.foldl_cons, List.foldl_nil, ih (by omega), hlast,
        List.append_assoc,
        List.set_append_left _ _ (by simp; omega), set_take_succ t (by omega), List.map_append, List.reverse_append]
      simp [show tl - (k + 1) = tl - 1 - k by omega]

-- The tail buffer holds the rest of the message and its padding.
theorem tail_eq (rest : Bytes) (bits : UInt64) {tl : Nat} (hfit : rest.length + 9 ≤ tl) (htl : tl ≤ 128) :
    (List.range 8).foldl (fun t i => t.set (tl - 1 - i) (bits >>> UInt64.ofNat (8 * i)).toUInt8)
        ((memcpy (List.replicate 128 0) 0 rest).set rest.length 0x80) =
      rest ++ [0x80] ++ List.replicate (tl - 9 - rest.length) 0 ++ lengthBytes bits ++
        List.replicate (128 - tl) 0 := by
  have hmarked : (memcpy (List.replicate 128 0) 0 rest).set rest.length 0x80 =
      rest ++ [0x80] ++ List.replicate (127 - rest.length) 0 := by
    unfold memcpy
    rw [List.take_zero, List.nil_append, Nat.zero_add, List.drop_replicate,
      List.set_append_right _ _ (Nat.le_refl _),
      Nat.sub_self, show 128 - rest.length = 127 - rest.length + 1 by omega, List.replicate_succ,
        List.set_cons_zero]
    simp
  have hbytes : ((List.range 8).map fun i => (bits >>> UInt64.ofNat (8 * i)).toUInt8).reverse =
      lengthBytes bits := rfl
  have hlength : (rest ++ [0x80] ++ List.replicate (127 - rest.length) 0 : Bytes).length = 128 := by
    simp only [List.length_append, List.length_singleton, List.length_replicate]
    omega
  rw [hmarked, foldl_set_down _ _ (by omega) 8 (by omega), hbytes, List.take_append, List.drop_append]
  have hlong : (rest ++ [0x80] : Bytes).length = rest.length + 1 := by simp
  rw [List.take_of_length_le (by omega), List.drop_eq_nil_of_le (by omega), hlong, List.take_replicate,
    List.drop_replicate,
    show min (tl - 8 - (rest.length + 1)) (127 - rest.length) = tl - 9 - rest.length by omega,
    show 127 - rest.length - (tl - (rest.length + 1)) = 128 - tl by omega]
  rfl

theorem rdSha1_digest (m : Bytes) : rdSha1 m = (iterate sha1Block 64 sha1Iv (pad m)).toList.flatMap putBe32 := by
  obtain ⟨hloop, hlength⟩ := sha1Blocks_iterate sha1Iv m
    ([0x80] ++ (List.replicate ((119 - m.length % 64) % 64) 0 ++ lengthBytes (UInt64.ofNat m.length * 8)))
  unfold rdSha1 pad
  rw [List.append_assoc, List.append_assoc, hloop]
  generalize sha1Blocks sha1Iv m = o at hlength ⊢
  obtain ⟨h, rest⟩ := o
  dsimp only at hlength ⊢
  generalize UInt64.ofNat m.length * 8 = bits
  rw [← hlength]
  have hmod : rest.length < 64 := by omega
  by_cases hone : rest.length + 9 ≤ 64
  · have hzeros : (119 - rest.length) % 64 = 64 - 9 - rest.length := by omega
    rw [if_pos hone, tail_eq rest bits hone (by omega), if_neg (by omega), hzeros, ← List.append_assoc,
      ← List.append_assoc]
    generalize hA : rest ++ [0x80] ++ List.replicate (64 - 9 - rest.length) 0 ++ lengthBytes bits = A
    have hlength : A.length = 64 := by
      rw [← hA]
      simp [lengthBytes]
      omega
    rw [iterate_one sha1Block h (by omega) hlength, ← sha1Block_take, List.take_left' hlength]
  · have hzeros : (119 - rest.length) % 64 = 128 - 9 - rest.length := by omega
    rw [if_neg hone, tail_eq rest bits (by omega) (by omega), if_pos rfl, hzeros, ← List.append_assoc,
      ← List.append_assoc]
    generalize hA : rest ++ [0x80] ++ List.replicate (128 - 9 - rest.length) 0 ++ lengthBytes bits = A
    have hlength : A.length = 128 := by
      rw [← hA]
      simp [lengthBytes]
      omega
    rw [iterate_step sha1Block h (by omega) (by omega),
      iterate_one sha1Block _ (by omega) (by simp [hlength]), sha1Block_take]
    simp

end Sha1

-- Both hash functions are the iterations of their block functions over the message as
-- the standard pads it, however the message comes and whatever the contexts hold.
theorem hashes_standard (m : Bytes) (h : m.length < 2 ^ 61) :
    (∃ p zeros length, Padded m p zeros length) ∧
    ∀ p zeros length, Padded m p zeros length →
      rdSha1 m = (iterate sha1Block 64 sha1Iv p).toList.flatMap putBe32 ∧
      ∀ c, rdSha256 c m = (iterate sha256Block 64 sha256Iv p).toList.flatMap putBe32 ∧
        ∀ c' chunks, List.flatten chunks = m →
          (rdSha256Final (chunks.foldl rdSha256Update (rdSha256Init c'))).1 = rdSha256 c m := by
  refine ⟨⟨_, _, _, padded_pad m h⟩, fun p zeros length hp => ?_⟩
  obtain rfl := hp.unique h
  refine ⟨rdSha1_digest m, fun c => ⟨rdSha256_digest c m, fun c' chunks hchunks => ?_⟩⟩
  have hfed := (init_fed c').updates chunks
  rw [List.nil_append, hchunks] at hfed
  exact hfed.digest c

theorem hashes_standard_abc : rdSha1 (ascii "abc") = [0xa9, 0x99, 0x3e, 0x36, 0x47, 0x06, 0x81, 0x6a,
    0xba, 0x3e, 0x25,
    0x71, 0x78, 0x50, 0xc2, 0x6c, 0x9c, 0xd0, 0xd8, 0x9d] := by
  have h := hashes_standard (ascii "abc") (by decide)
  rw [(h.2 _ _ _ (padded_pad (ascii "abc") (by decide))).1]
  decide +kernel

end TetherDesk.Hash
