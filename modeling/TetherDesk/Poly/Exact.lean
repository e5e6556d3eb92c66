import TetherDesk.Poly.Finish
import TetherDesk.Secure.Pieces
import Mathlib.Algebra.BigOperators.Intervals

namespace TetherDesk.Poly

open TetherDesk.Lib.BitField TetherDesk.Secure

section Horner

-- The sum over the blocks, each with its power of r.
def polySum (r : Nat) (cs : List Nat) : Nat := ∑ i ∈ Finset.range cs.length, cs.getD i 0 * r ^ (cs.length - i)

-- The sum as it is computed, block after block.
def horner (r acc : Nat) (cs : List Nat) : Nat := cs.foldl (fun acc c => (acc + c) * r) acc

theorem horner_sum (r acc : Nat) (cs : List Nat) : horner r acc cs = acc * r ^ cs.length + polySum r cs := by
  induction cs generalizing acc with
  | nil => simp [horner, polySum]
  | cons c cs ih =>
      have hstep : polySum r (c :: cs) = polySum r cs + c * r ^ (cs.length + 1) := by
        unfold polySum
        rw [List.length_cons, Finset.sum_range_succ']
        simp
      rw [hstep, List.length_cons]
      refine (ih ((acc + c) * r)).trans ?_
      ring

theorem horner_zero (r : Nat) (cs : List Nat) : horner r 0 cs =
    polySum r cs := by rw [horner_sum, Nat.zero_mul, Nat.zero_add]

theorem horner_append (r acc : Nat) (cs ds : List Nat) : horner r acc (cs ++ ds) = horner r (horner r acc cs) ds :=
  List.foldl_append

theorem horner_congr {r acc acc' : Nat} (h : acc ≡ acc' [MOD p]) (cs : List Nat) :
    horner r acc cs ≡ horner r acc' cs [MOD p] := by
  induction cs generalizing acc acc' with
  | nil => exact h
  | cons c cs ih => exact ih ((h.add_right c).mul_right r)

end Horner

section Pieces

theorem pieces_append {a : Bytes} (b : Bytes) (h : a.length % 16 = 0) : pieces 16 (a ++ b) =
    pieces 16 a ++ pieces 16 b := by
  induction hn : a.length using Nat.strongRecOn generalizing a with
  | ind n ih =>
      by_cases ha : a = []
      · subst ha
        rfl
      · have hpos := List.length_pos_iff.mpr ha
        rw [pieces_cons (by decide) ha, pieces_cons (by decide) (by simp [ha]),
          List.take_append_of_le_length (by omega),
          List.drop_append_of_le_length (by omega), List.cons_append]
        congr 1
        exact ih (a.drop 16).length (by rw [List.length_drop]; omega) (by rw [List.length_drop]; omega) rfl

-- The numbers of full blocks, b the bit behind each.
def fullBlocks (m : Bytes) (b : Nat) : List Nat := (pieces 16 m).map fun block => le block + 2 ^ 128 * b

end Pieces

section Loop

theorem polyLoop_some {r h : Limbs} (hr : r.AtMost (2 ^ 26)) (hh : h.Settled) (m : Bytes) {b : Nat} (hb : b ≤ 1)
    (hm : m.length % 16 = 0) :
    ∃ h', polyLoop r ⟨0, r.l1 * 5, r.l2 * 5, r.l3 * 5, r.l4 * 5⟩ h m (b <<< 24) = some h' ∧ h'.Settled ∧
      h'.value ≡ horner r.value h.value (fullBlocks m b) [MOD p] := by
  induction hn : m.length using Nat.strongRecOn generalizing h m with
  | ind n ih =>
      rw [polyLoop]
      by_cases hlong : m.length ≥ 16
      · obtain ⟨h₁, hblock, hsettled, hvalue⟩ := polyBlock_some hr hh m hb
        have hne : m ≠ [] := by
          rintro rfl
          simp at hlong
        obtain ⟨h', hloop, hsettled', hvalue'⟩ :=
          ih (m.drop 16).length (by rw [List.length_drop]; omega) hsettled (m.drop 16)
          (by rw [List.length_drop]; omega) rfl
        refine ⟨h', ?_, hsettled', ?_⟩
        · rw [if_pos hlong, hblock, Option.bind_eq_bind, Option.bind_some, hloop]
        · unfold fullBlocks
          rw [pieces_cons (by decide) hne, List.map_cons]
          exact hvalue'.trans (horner_congr hvalue _)
      · have hnil : m = [] := List.eq_nil_of_length_eq_zero (by omega)
        subst hnil
        exact ⟨h, if_neg hlong, hh, rfl⟩

-- A state between two calls: the key's numbers stay, the sum is the one so far.
structure PolyState.Holds (st : PolyState) (r : Limbs) (pad : Nat × Nat × Nat × Nat) (acc : Nat) : Prop where
  r : st.r = r
  pad : st.pad = pad
  settled : st.h.Settled
  value : st.h.value ≡ acc [MOD p]

theorem polyBlocks_some {st : PolyState} {r : Limbs} {pad : Nat × Nat × Nat × Nat} {acc : Nat}
    (hst : st.Holds r pad acc)
    (hr : r.AtMost (2 ^ 26)) (m : Bytes) {b : Nat} (hb : b ≤ 1) (hm : m.length % 16 = 0) :
    ∃ st', polyBlocks st m (b <<< 24) = some st' ∧ st'.Holds r pad (horner r.value acc (fullBlocks m b)) := by
  obtain ⟨hr', hpad, hsettled, hvalue⟩ := hst
  obtain ⟨h', hloop, hsettled', hvalue'⟩ := polyLoop_some hr hsettled m hb hm
  refine ⟨{ st with h := h' }, ?_, hr', hpad, hsettled', hvalue'.trans (horner_congr hvalue _)⟩
  unfold polyBlocks
  rw [hr', polyFives_some hr, Option.bind_eq_bind, Option.bind_some, hloop, Option.bind_some]

-- The last reduction, and the sum with the second half of the key.
theorem polyFinish_some {st : PolyState} {r : Limbs} {pad : Nat × Nat × Nat × Nat} {acc : Nat}
    (hst : st.Holds r pad acc)
    (hpad : Small pad) : polyFinish st = some (putLe 16 ((acc % p + words pad) % 2 ^ 128)) := by
  obtain ⟨h, hsettle, hcanonical, hvalue⟩ := polySettle_some hst.settled
  obtain ⟨h', hreduce, hcanonical', hvalue'⟩ := polyReduce_some hcanonical
  obtain ⟨hsmall, hwords⟩ := polyWords_value hcanonical'
  have hmod : h'.value = acc % p := by
    rw [hvalue']
    exact hvalue.trans hst.value
  unfold polyFinish
  rw [hsettle, Option.bind_eq_bind, Option.bind_some, hreduce, Option.bind_some, hst.pad,
    polyPad_some hsmall hpad, hwords, hmod,
    Nat.mod_add_mod]

end Loop

section Key

-- r, without the bits that the standard clears.
def clamp (key : Bytes) : Nat := le (key.take 16) &&& 0x0ffffffc0ffffffc0ffffffc0fffffff

theorem and_limb {c : Nat} (x : Nat) (hc : c < 2 ^ 26) : x &&& c = x % 2 ^ 26 &&& c := by
  have hle : x &&& c ≤ c := Nat.and_le_right
  have hmod := Nat.and_mod_two_pow (a := x) (b := c) (n := 26)
  rwa [Nat.mod_eq_of_lt (show x &&& c < 2 ^ 26 by omega), Nat.mod_eq_of_lt hc] at hmod

-- A limb of the clamped number.
theorem clamp_limb (key : Bytes) {i k c : Nat} (hc : c < 2 ^ 26) (hk : k ≤ 6) (hi : 8 * i + k + 26 ≤ 128)
    (hmask : 0x0ffffffc0ffffffc0ffffffc0fffffff / 2 ^ (8 * i + k) % 2 ^ 26 = c) :
    (le32 (key.drop i) >>> k) &&& c = clamp key / 2 ^ (8 * i + k) % 2 ^ 26 := by
  have hsplit : 256 ^ 16 = 2 ^ (8 * i + k) * 2 ^ (128 - (8 * i + k)) := by
    rw [← Nat.pow_add, show (256 : Nat) = 2 ^ 8 from rfl, ← Nat.pow_mul]
    congr 1
    omega
  have hpow : 256 ^ i * 2 ^ k = 2 ^ (8 * i + k) := by rw [Nat.pow_add, Nat.pow_mul]
  unfold clamp
  rw [Nat.and_div_two_pow, Nat.and_mod_two_pow, hmask, and_limb _ hc]
  congr 1
  rw [← and_mask, block_limb key i k hk, le_take, hsplit, Nat.mod_mul_right_div_self,
    Nat.mod_mod_of_dvd _ (Nat.pow_dvd_pow 2 (by omega)), Nat.div_div_eq_div_mul, hpow]

theorem polyInit_value (key : Bytes) : (polyInit key).r.AtMost (2 ^ 26) ∧ (polyInit key).r.value = clamp key := by
  have h0 := clamp_limb key (i := 0) (k := 0) (c := 0x3ffffff) (by omega) (by omega) (by omega) (by rfl)
  have h1 := clamp_limb key (i := 3) (k := 2) (c := 0x3ffff03) (by omega) (by omega) (by omega) (by rfl)
  have h2 := clamp_limb key (i := 6) (k := 4) (c := 0x3ffc0ff) (by omega) (by omega) (by omega) (by rfl)
  have h3 := clamp_limb key (i := 9) (k := 6) (c := 0x3f03fff) (by omega) (by omega) (by omega) (by rfl)
  have h4 : (le32 (key.drop 12) >>> 8) &&& 0x00fffff = clamp key / 2 ^ 104 := by
    unfold clamp
    rw [Nat.and_div_two_pow, le32_le, le_take, Nat.shiftRight_eq_div_pow]
    congr 1
    omega
  have hlt : clamp key < 2 ^ 124 := by
    have hle : clamp key ≤ 0x0ffffffc0ffffffc0ffffffc0fffffff := Nat.and_le_right
    omega
  rw [List.drop_zero, Nat.shiftRight_zero] at h0
  unfold polyInit
  rw [h0, h1, h2, h3, h4]
  refine ⟨⟨?_, ?_, ?_, ?_, ?_⟩, ?_⟩
  all_goals dsimp only [Limbs.value]
  all_goals omega

theorem polyInit_pad (key : Bytes) :
    Small (polyInit key).pad ∧ words (polyInit key).pad = le ((key.drop 16).take 16) := by
  unfold polyInit words
  rw [le_take, le_drop]
  simp only [le32_le]
  have hlt := fun n : Nat => Nat.mod_lt n (show 0 < 2 ^ 32 by omega)
  refine ⟨⟨hlt _, hlt _, hlt _, hlt _⟩, ?_⟩
  omega

theorem polyInit_holds (key : Bytes) : (polyInit key).Holds (polyInit key).r (polyInit key).pad 0 := by
  have hzero : (⟨0, 0, 0, 0, 0⟩ : Limbs).Settled := ⟨by decide, by decide, by decide, by decide, by decide⟩
  exact ⟨rfl, rfl, hzero, rfl⟩

end Key

section Messages

theorem pieces_short {m : Bytes} (h : m ≠ []) (hm : m.length ≤ 16) : pieces 16 m = [m] := by
  rw [pieces_cons (by decide) h, List.take_of_length_le hm, List.drop_eq_nil_of_le hm, pieces_nil]

theorem fullBlocks_append {a : Bytes} (b : Bytes) (n : Nat) (h : a.length % 16 = 0) :
    fullBlocks (a ++ b) n = fullBlocks a n ++ fullBlocks b n := by
  unfold fullBlocks
  rw [pieces_append b h, List.map_append]

-- The numbers of a message's blocks, a 1 behind each.
def blocks (m : Bytes) : List Nat := (pieces 16 m).map fun block => le (block ++ [1])

theorem blocks_full {m : Bytes} (h : m.length % 16 = 0) : blocks m = fullBlocks m 1 := by
  induction hn : m.length using Nat.strongRecOn generalizing m with
  | ind n ih =>
      by_cases hm : m = []
      · subst hm
        rfl
      · have hpos := List.length_pos_iff.mpr hm
        have hdrop := List.length_drop (i := 16) (l := m)
        have hstep := ih (m.drop 16).length (by omega) (by omega) rfl
        have hlen : (m.take 16).length = 16 := by
          rw [List.length_take]
          omega
        unfold blocks fullBlocks at *
        rw [pieces_cons (by decide) hm, List.map_cons, List.map_cons, hstep, le_append, hlen]
        rfl

theorem blocks_append {a : Bytes} (b : Bytes) (h : a.length % 16 = 0) : blocks (a ++ b) = blocks a ++ blocks b := by
  unfold blocks
  rw [pieces_append b h, List.map_append]

theorem pad16_length (m : Bytes) : (pad16 m).length % 16 = 0 := by
  unfold pad16
  rw [List.length_append, List.length_replicate]
  omega

-- Full blocks, and what is behind them.
theorem take_full (m : Bytes) : (m.take (m.length / 16 * 16)).length % 16 = 0 := by
  rw [List.length_take]
  omega

theorem length_rest (m : Bytes) : (m.drop (m.length / 16 * 16)).length = m.length % 16 := by
  rw [List.length_drop]
  omega

-- The rest with a 1 and zeros is one block without a bit behind it.
theorem rest_block {rest : Bytes} (h : rest.length < 16) :
    fullBlocks (rest ++ [1] ++ List.replicate (15 - rest.length) 0) 0 = [le (rest ++ [1])] := by
  unfold fullBlocks
  rw [pieces_short (by simp) (by simp; omega), List.map_singleton, le_append, le_zeros]
  rfl

-- A message is its full blocks and, with one more byte and zeros, the rest.
theorem rdPoly1305_some (msg key : Bytes) :
    rdPoly1305 msg key =
      some (putLe 16 ((polySum (clamp key) (blocks msg) % p + le ((key.drop 16).take 16)) % 2 ^ 128)) := by
  obtain ⟨hr, hvalue⟩ := polyInit_value key
  obtain ⟨hpad, hwords⟩ := polyInit_pad key
  have hlen := length_rest msg
  have hsplit := List.take_append_drop (msg.length / 16 * 16) msg
  obtain ⟨st, hst, hholds⟩ := polyBlocks_some (polyInit_holds key) hr _ (Nat.le_refl 1) (take_full msg)
  rw [← blocks_full (take_full msg)] at hholds
  unfold rdPoly1305
  dsimp only
  rw [hst, Option.bind_eq_bind, Option.bind_some, ← hwords, ← hvalue]
  by_cases hmore : msg.length > msg.length / 16 * 16
  · have hne : msg.drop (msg.length / 16 * 16) ≠ [] := by
      intro hnil
      rw [hnil, List.length_nil] at hlen
      omega
    obtain ⟨st', hst', hholds'⟩ := polyBlocks_some hholds hr
      (msg.drop (msg.length / 16 * 16) ++ [1] ++ List.replicate (15 - (msg.drop (msg.length / 16 * 16)).length) 0)
      (Nat.zero_le 1) (by simp only [List.length_append, List.length_replicate, List.length_singleton]; omega)
    have hrest : blocks (msg.drop (msg.length / 16 * 16)) = [le (msg.drop (msg.length / 16 * 16) ++ [1])] := by
      unfold blocks
      rw [pieces_short hne (by omega), List.map_singleton]
    rw [rest_block (by omega), ← hrest, ← horner_append, ← blocks_append _ (take_full msg), hsplit,
      horner_zero] at hholds'
    rw [Nat.zero_shiftLeft] at hst'
    rw [if_pos hmore, hst', Option.bind_some, polyFinish_some hholds' hpad]
  · have hnil : msg.drop (msg.length / 16 * 16) = [] := List.eq_nil_of_length_eq_zero (by omega)
    rw [hnil, List.append_nil] at hsplit
    rw [hsplit, horner_zero] at hholds
    rw [if_neg hmore, Option.bind_some, polyFinish_some hholds hpad]

-- A part of the authenticated data is read as it is with its zeros.
theorem polyPadded_some {st : PolyState} {r : Limbs} {pad : Nat × Nat × Nat × Nat} {acc : Nat}
    (hst : st.Holds r pad acc)
    (hr : r.AtMost (2 ^ 26)) (m : Bytes) :
    ∃ st', polyPadded st m = some st' ∧ st'.Holds r pad (horner r.value acc (blocks (pad16 m))) := by
  have hlen := length_rest m
  have hsplit := List.take_append_drop (m.length / 16 * 16) m
  obtain ⟨st₁, hst₁, hholds⟩ := polyBlocks_some hst hr _ (Nat.le_refl 1) (take_full m)
  unfold polyPadded
  dsimp only
  rw [hst₁, Option.bind_eq_bind, Option.bind_some]
  by_cases hmore : m.length > m.length / 16 * 16
  · generalize hrest : m.drop (m.length / 16 * 16) = rest at *
    have hlast : (rest ++ List.replicate (16 - rest.length) 0).length % 16 = 0 := by
      rw [List.length_append, List.length_replicate]
      omega
    have hpad : pad16 m = m.take (m.length / 16 * 16) ++ (rest ++ List.replicate (16 - rest.length) 0) := by
      unfold pad16
      rw [← List.append_assoc, hsplit]
      congr 2
      omega
    obtain ⟨st', hst', hholds'⟩ := polyBlocks_some hholds hr _ (Nat.le_refl 1) hlast
    rw [← horner_append, ← fullBlocks_append _ 1 (take_full m), ← hpad, ← blocks_full (pad16_length m)] at hholds'
    exact ⟨st', by rw [if_pos hmore, hst'], hholds'⟩
  · have hpad : pad16 m = m.take (m.length / 16 * 16) := by
      unfold pad16
      rw [show (16 - m.length % 16) % 16 = 0 by omega, List.replicate_zero, List.append_nil,
        List.take_of_length_le (by omega)]
    rw [← hpad, ← blocks_full (pad16_length m)] at hholds
    exact ⟨st₁, if_neg hmore, hholds⟩

-- The tag of the standard: every block times its power of r, the sum modulo p,
-- and the second half of the key.
def polyTag (msg key : Bytes) : Bytes :=
  putLe 16 ((polySum (clamp key) (blocks msg) % p + le ((key.drop 16).take 16)) % 2 ^ 128)

-- What the tag of a sealed message is taken of.
def aeadData (ct ad : Bytes) : Bytes := pad16 ad ++ pad16 ct ++ putLe 8 ad.length ++ putLe 8 ct.length

theorem aeadTag_some (ct ad key nonce : Bytes) :
    aeadTag ct ad key nonce = some (polyTag (aeadData ct ad) (rdChacha20 (List.replicate 64 0) key nonce 0)) := by
  generalize hotk : rdChacha20 (List.replicate 64 0) key nonce 0 = otk
  obtain ⟨hr, hvalue⟩ := polyInit_value otk
  obtain ⟨hpad, hwords⟩ := polyInit_pad otk
  obtain ⟨st₁, hst₁, hholds₁⟩ := polyPadded_some (polyInit_holds otk) hr ad
  obtain ⟨st₂, hst₂, hholds₂⟩ := polyPadded_some hholds₁ hr ct
  have hlens : (putLe 8 ad.length ++ putLe 8 ct.length).length % 16 = 0 := by simp [putLe]
  obtain ⟨st₃, hst₃, hholds₃⟩ := polyBlocks_some hholds₂ hr _ (Nat.le_refl 1) hlens
  have hdata : blocks (aeadData ct ad) =
      blocks (pad16 ad) ++ (blocks (pad16 ct) ++ blocks (putLe 8 ad.length ++ putLe 8 ct.length)) := by
    unfold aeadData
    rw [List.append_assoc, List.append_assoc, blocks_append _ (pad16_length ad), blocks_append _ (pad16_length ct)]
  rw [← blocks_full hlens, ← horner_append, ← horner_append, ← hdata, horner_zero] at hholds₃
  unfold aeadTag
  dsimp only
  rw [hotk, putLe64_eq, putLe64_eq, hst₁, Option.bind_eq_bind, Option.bind_some, hst₂, Option.bind_some, hst₃,
    Option.bind_some,
    polyFinish_some hholds₃ hpad, hvalue, hwords]
  rfl

theorem poly1305_exact :
    (∀ msg key : Bytes, rdPoly1305 msg key = some (polyTag msg key)) ∧
      ∀ ct ad key nonce : Bytes,
        aeadTag ct ad key nonce = some (polyTag (aeadData ct ad) (rdChacha20 (List.replicate 64 0) key nonce 0)) :=
  ⟨rdPoly1305_some, aeadTag_some⟩

end Messages

end TetherDesk.Poly
