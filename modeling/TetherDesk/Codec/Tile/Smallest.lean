import TetherDesk.Codec.Tile.Worst
import TetherDesk.Codec.Lz.Expansion
import Mathlib.Data.Finset.Dedup

namespace TetherDesk.Codec

open TetherDesk.Lib

section Colours

-- The number of colours of a tile.
def colours (px : List UInt32) : Nat := px.toFinset.card

-- The palette holds each colour so far once, and the table leads to it.
structure PalDistinct (done : List UInt32) (st : PalState) : Prop where
  placed : LinearProbe.Placed PAL_HASH palHash st.slots
  stored : ∀ c ∈ st.pal, ∃ s i, st.slots s = some (i, c)
  nodup : st.pal.Nodup
  mem : ∀ c ∈ st.pal, c ∈ done

theorem Indexes.mem {pal : List UInt32} {idx : List UInt8} {px : List UInt32} (h : Indexes pal idx px) :
    ∀ c ∈ px, c ∈ pal := by
  intro c hc
  obtain ⟨i, hi, rfl⟩ := List.getElem_of_mem hc
  exact List.mem_of_getElem? (h.getElem i hi)

-- A free slot for a colour means that the palette does not hold it.
theorem PalDistinct.absent {done : List UInt32} {st : PalState} {c : UInt32} (h : PalDistinct done st)
    (hnone : st.slots (LinearProbe.probe PAL_HASH st.slots c PAL_HASH (palHash c)) = none) : c ∉ st.pal := by
  intro hc
  obtain ⟨s, i, hs⟩ := h.stored c hc
  exact h.placed.absent (palHash_lt c) hnone s i hs

theorem palStep_distinct {done : List UInt32} {st st' : PalState} {c : UInt32} (h : PalDistinct done st)
    (hstep : palStep st c = some st') : PalDistinct (done ++ [c]) st' := by
  have hmem : ∀ d ∈ st.pal, d ∈ done ++ [c] := fun d hd => List.mem_append_left _ (h.mem d hd)
  unfold palStep at hstep
  by_cases hsame : c = st.last
  · rw [if_pos hsame, Option.some.injEq] at hstep
    subst hstep
    exact ⟨h.placed, h.stored, h.nodup, hmem⟩
  · rw [if_neg hsame] at hstep
    dsimp only at hstep
    cases hs : st.slots (LinearProbe.probe PAL_HASH st.slots c PAL_HASH (palHash c)) with
    | some entry =>
        simp only [hs, Option.some.injEq] at hstep
        subst hstep
        exact ⟨h.placed, h.stored, h.nodup, hmem⟩
    | none =>
        simp only [hs] at hstep
        split_ifs at hstep
        rw [Option.some.injEq] at hstep
        subst hstep
        have habsent := h.absent hs
        refine ⟨h.placed.insert (palHash_lt c) hs _, fun d hd => ?_, ?_, fun d hd => ?_⟩
        · dsimp only at hd ⊢
          rcases List.mem_append.mp hd with hold | hnew
          · obtain ⟨s, i, hslot⟩ := h.stored d hold
            refine ⟨s, i, ?_⟩
            rw [Function.update_of_ne, hslot]
            rintro rfl
            rw [hs] at hslot
            exact Option.some_ne_none _ hslot.symm
          · obtain rfl := List.mem_singleton.mp hnew
            exact ⟨_, st.pal.length, Function.update_self _ _ _⟩
        · exact List.nodup_append.mpr ⟨h.nodup, List.nodup_singleton c, by
            rintro d hd _ hc rfl
            exact habsent (List.mem_singleton.mp hc ▸ hd)⟩
        · rcases List.mem_append.mp hd with hold | hnew
          · exact hmem d hold
          · exact List.mem_append_right _ hnew

theorem palInit_distinct (px : List UInt32) : PalDistinct [] (palInit px) :=
  ⟨fun _ _ _ h => absurd h.symm (Option.some_ne_none _), fun _ hc => absurd hc List.not_mem_nil, List.nodup_nil,
    fun _ hc => absurd hc List.not_mem_nil⟩

theorem palStep_none {done : List UInt32} {st : PalState} {c : UInt32} (h : PalDistinct done st)
    (hstep : palStep st c = none) :
    st.pal.length = 256 ∧ c ∉ st.pal := by
  unfold palStep at hstep
  by_cases hsame : c = st.last
  · rw [if_pos hsame] at hstep
    exact absurd hstep (Option.some_ne_none _)
  · rw [if_neg hsame] at hstep
    dsimp only at hstep
    cases hs : st.slots (LinearProbe.probe PAL_HASH st.slots c PAL_HASH (palHash c)) with
    | some entry =>
        simp only [hs] at hstep
        exact absurd hstep (Option.some_ne_none _)
    | none =>
        simp only [hs] at hstep
        split_ifs at hstep with hfull
        exact ⟨hfull, h.absent hs⟩

-- The loop over the pixels: with a palette, it is of all their colours; without one, there are more than 256.
theorem palFold_colours {px : List UInt32} (todo done : List UInt32) (st : PalState) (htodo : ∀ c ∈ todo, c ∈ px)
    (inv : PalInvariant px done st) (h : PalDistinct done st) :
    match todo.foldlM palStep st with
    | some st' => PalDistinct (done ++ todo) st'
    | none => 256 < colours (done ++ todo) := by
  induction todo generalizing done st with
  | nil => simpa using h
  | cons c todo ih =>
      have hc := htodo c List.mem_cons_self
      rw [List.foldlM_cons]
      cases hstep : palStep st c with
      | some st' =>
          have := ih (done ++ [c]) st' (fun d hd => htodo d (List.mem_cons_of_mem c hd))
              (palStep_invariant hc inv hstep)
            (palStep_distinct h hstep)
          rwa [List.append_assoc, List.singleton_append] at this
      | none =>
          obtain ⟨hfull, habsent⟩ := palStep_none h hstep
          have hnodup : (c :: st.pal).Nodup := List.nodup_cons.mpr ⟨habsent, h.nodup⟩
          have hsub : (c :: st.pal).toFinset ⊆ (done ++ c :: todo).toFinset := by
            intro d hd
            rw [List.mem_toFinset] at hd ⊢
            rcases List.mem_cons.mp hd with rfl | hold
            · exact List.mem_append_right _ List.mem_cons_self
            · exact List.mem_append_left _ (h.mem d hold)
          have hcard := Finset.card_le_card hsub
          rw [List.toFinset_card_of_nodup hnodup, List.length_cons, hfull] at hcard
          exact hcard

variable {px : List UInt32} (hpx : ∀ c ∈ px, Rgb24 c)

include hpx in
theorem palInit_invariant : PalInvariant px [] (palInit px) := by
  refine ⟨by simp [palInit], ?_, by simp [palInit], Or.inl (complement_ne hpx), .nil⟩
  simp [LinearProbe.filled, palInit]

include hpx in
theorem palette_colours {st : PalState} (hst : buildPalette px = some st) : st.pal.length = colours px := by
  have hfold := palFold_colours px [] (palInit px) (fun _ h => h) (palInit_invariant hpx) (palInit_distinct px)
  rw [show px.foldlM palStep (palInit px) = some st from hst, List.nil_append] at hfold
  have hidx := (buildPalette_invariant hpx hst).idx_ok
  unfold colours
  rw [← List.toFinset_card_of_nodup hfold.nodup]
  congr 1
  ext c
  rw [List.mem_toFinset, List.mem_toFinset]
  exact ⟨hfold.mem c, hidx.mem c⟩

-- There is a palette exactly for up to 256 colours.
include hpx in
theorem buildPalette_some_iff : (∃ st, buildPalette px = some st) ↔ colours px ≤ 256 := by
  have hfold := palFold_colours px [] (palInit px) (fun _ h => h) (palInit_invariant hpx) (palInit_distinct px)
  rw [show px.foldlM palStep (palInit px) = buildPalette px from rfl, List.nil_append] at hfold
  constructor
  · rintro ⟨st, hst⟩
    rw [← palette_colours hpx hst]
    exact (buildPalette_invariant hpx hst).np_le
  · intro hle
    cases hst : buildPalette px with
    | some st => exact ⟨st, rfl⟩
    | none =>
        rw [hst] at hfold
        exact absurd hle (Nat.not_le.mpr hfold)

end Colours

section Candidates

variable (px : List UInt32) (w h : Nat)

def solidPayload : Bytes := putRgb (px.getD 0 0)

def palettePayload (st : PalState) : Bytes :=
  UInt8.ofNat (st.pal.length - 1) :: (st.pal.flatMap putRgb ++
    rdLzCompress (packIndices (palBpp st.pal.length) w h st.idx) lzCap)

def zrgbPayload : Bytes := rdLzCompress (Predictor.residuals (predict w) codeSample (decorrelate px)) lzCap

def rawPayload : Bytes := px.flatMap putRgb

-- The payloads of the encodings that can represent the pixels.
def Candidate (payload : Bytes) : Prop :=
  (colours px = 1 ∧ payload = solidPayload px) ∨
    (colours px ≤ 256 ∧ ∃ st, buildPalette px = some st ∧ payload = palettePayload w h st) ∨
    payload = zrgbPayload px w ∨ payload = rawPayload px

-- A tile whose predicted samples compress to less than both its palette payload and its raw pixels.
def PredictedBetter : Prop :=
  colours px ≠ 1 ∧ ∃ st, buildPalette px = some st ∧ (zrgbPayload px w).length < (palettePayload w h st).length ∧
    (zrgbPayload px w).length < (rawPayload px).length

theorem palettePayload_length (st : PalState) : (palettePayload w h st).length =
    1 + st.pal.length * 3 + (rdLzCompress (packIndices (palBpp st.pal.length) w h st.idx) lzCap).length := by
  rw [palettePayload, List.length_cons, List.length_append, putRgb_flatMap_length]
  omega

-- Two bytes stand for one byte at most.
theorem expands_short {p out final : Bytes} (h : Expands p out final) (hp : p.length ≤ 2) : final.length ≤
    out.length + 1 := by
  cases h with
  | done => omega
  | literals t more lit _ hlit =>
      rw [List.length_cons, List.length_append] at hp
      rw [List.length_append]
      omega
  | sequence =>
      simp only [List.length_cons, List.length_append] at hp
      omega

theorem compress_length {src : Bytes} {cap : Nat} (hcap : rdLzBound src.length ≤ cap) (hsrc : 2 ≤ src.length) :
    3 ≤ (rdLzCompress src cap).length := by
  by_contra hshort
  have hback := decompress_compress src cap src.length hcap (Nat.le_refl _)
  have hexpands := ((rdLzDecompress_eq_some_iff _ _ _).mp hback).1
  have := expands_short hexpands (by omega)
  rw [List.length_nil] at this
  omega

end Candidates

section Choice

variable (bgra : Bytes) (stride w h : Nat) (quality : Int)

theorem zrgb_length (hw : 1 ≤ w ∧ w ≤ RD_TILE) (hh : 1 ≤ h ∧ h ≤ RD_TILE) :
    3 ≤ (zrgbPayload (tilePixels bgra stride w h quality) w).length := by
  have harea : 1 ≤ w * h := Nat.mul_pos hw.1 hh.1
  have hmost : w * h ≤ TILE_PX := Nat.mul_le_mul hw.2 hh.2
  have hlen : (Predictor.residuals (predict w) codeSample
      (decorrelate (tilePixels bgra stride w h quality))).length = w * h * 3 := by
    rw [Predictor.residuals_length, decorrelate_length, tilePixels_length]
  refine compress_length (rdLzBound_le_lzCap ?_) ?_
  · omega
  · omega

-- What the encoder chooses: by the number of colours, and then against the raw pixels only.
theorem rdEncodeTile_length :
    let px := tilePixels bgra stride w h quality
    (colours px = 1 ∧ (∃ st, buildPalette px = some st ∧ st.pal.length = 1) ∧
      (rdEncodeTile bgra stride w h quality).2.length = 3) ∨
      (colours px ≠ 1 ∧ ∃ st, buildPalette px = some st ∧ (rdEncodeTile bgra stride w h quality).2.length =
        min (palettePayload w h st).length (rawPayload px).length) ∨
      (buildPalette px = none ∧ (rdEncodeTile bgra stride w h quality).2.length =
        min (zrgbPayload px w).length (rawPayload px).length) := by
  have hpx := tilePixels_rgb24 bgra stride w h quality
  have hraw : (rawPayload (tilePixels bgra stride w h quality)).length = w * h * 3 := by
    rw [rawPayload, putRgb_flatMap_length, tilePixels_length]
  intro px
  rw [rdEncodeTile]
  dsimp only
  cases hst : buildPalette (tilePixels bgra stride w h quality) with
  | some st =>
      have hcolours := palette_colours hpx hst
      have hlen := palettePayload_length w h st
      dsimp only
      by_cases hsolid : st.pal.length = 1
      · rw [if_pos hsolid]
        exact Or.inl ⟨hcolours.symm.trans hsolid, ⟨st, rfl, hsolid⟩, rfl⟩
      · rw [if_neg hsolid, ← hlen]
        refine Or.inr (Or.inl ⟨fun h1 => hsolid (hcolours.trans h1), st, rfl, ?_⟩)
        rw [hraw]
        split_ifs with hless
        · exact (Nat.min_eq_left (Nat.le_of_lt hless)).symm
        · exact hraw.trans (Nat.min_eq_right (Nat.not_lt.mp hless)).symm
  | none =>
      dsimp only
      refine Or.inr (Or.inr ⟨rfl, ?_⟩)
      rw [hraw]
      unfold zrgbPayload
      split_ifs with hless
      · exact (Nat.min_eq_left (Nat.le_of_lt hless)).symm
      · exact hraw.trans (Nat.min_eq_right (Nat.not_lt.mp hless)).symm

-- The choice is the smallest unless the residuals, which are never tried with a palette,
-- would have been smaller.
theorem encodeTile_shortest_iff (hw : 1 ≤ w ∧ w ≤ RD_TILE) (hh : 1 ≤ h ∧ h ≤ RD_TILE) :
    (∀ payload, Candidate (tilePixels bgra stride w h quality) w h payload →
        (rdEncodeTile bgra stride w h quality).2.length ≤ payload.length) ↔
      ¬PredictedBetter (tilePixels bgra stride w h quality) w h := by
  have hzrgb := zrgb_length bgra stride w h quality hw hh
  have hiff := buildPalette_some_iff (tilePixels_rgb24 bgra stride w h quality)
  have hchoice := rdEncodeTile_length bgra stride w h quality
  have harea : 1 ≤ w * h := Nat.mul_pos hw.1 hh.1
  have hraw : (rawPayload (tilePixels bgra stride w h quality)).length = w * h * 3 := by
    rw [rawPayload, putRgb_flatMap_length, tilePixels_length]
  dsimp only at hchoice
  generalize tilePixels bgra stride w h quality = px at *
  generalize (rdEncodeTile bgra stride w h quality).2.length = chosen at *
  rcases hchoice with ⟨hone, ⟨st, hst, hnp⟩, hlen⟩ | ⟨hmany, st, hst, hlen⟩ | ⟨hnone, hlen⟩
  · refine iff_of_true (fun payload hpayload => ?_) fun hbetter => hbetter.1 hone
    rcases hpayload with ⟨-, rfl⟩ | ⟨-, st', hst', rfl⟩ | rfl | rfl
    · exact Nat.le_of_eq hlen
    · obtain rfl : st = st' := Option.some.inj (hst.symm.trans hst')
      have := palettePayload_length w h st
      omega
    · omega
    · omega
  · constructor
    · rintro hall ⟨-, st', hst', hless, hless'⟩
      obtain rfl : st = st' := Option.some.inj (hst.symm.trans hst')
      have := hall (zrgbPayload px w) (Or.inr (Or.inr (Or.inl rfl)))
      omega
    · intro hbetter payload hpayload
      rcases hpayload with ⟨hone, -⟩ | ⟨-, st', hst', rfl⟩ | rfl | rfl
      · exact absurd hone hmany
      · obtain rfl : st = st' := Option.some.inj (hst.symm.trans hst')
        omega
      · by_contra hlt
        exact hbetter ⟨hmany, st, hst, by omega, by omega⟩
      · omega
  · have hcolours : ¬colours px ≤ 256 := fun hle => by
      obtain ⟨st, hst⟩ := hiff.mpr hle
      exact Option.some_ne_none _ (hst.symm.trans hnone)
    refine iff_of_true (fun payload hpayload => ?_) fun hbetter => ?_
    · rcases hpayload with ⟨hone, -⟩ | ⟨hle, -⟩ | rfl | rfl
      · omega
      · omega
      · omega
      · omega
    · obtain ⟨-, st, hst, -⟩ := hbetter
      exact Option.some_ne_none _ (hst.symm.trans hnone)

-- With a palette of two colours or more only the raw pixels are compared with it.
theorem encodeTile_smallest (hw : 1 ≤ w ∧ w ≤ RD_TILE) (hh : 1 ≤ h ∧ h ≤ RD_TILE) :
    (rdEncodeTile bgra stride w h quality).2.length ≤ 3 * w * h ∧
      (colours (tilePixels bgra stride w h quality) = 1 ∨ 256 < colours (tilePixels bgra stride w h quality) →
        ∀ payload, Candidate (tilePixels bgra stride w h quality) w h payload →
          (rdEncodeTile bgra stride w h quality).2.length ≤ payload.length) := by
  have hmost := payload_length_le bgra stride w h quality hw.1 hh.1
  refine ⟨by rwa [Nat.mul_assoc, Nat.mul_comm], fun hcolours => ?_⟩
  refine (encodeTile_shortest_iff bgra stride w h quality hw hh).mpr ?_
  rintro ⟨hmany, st, hst, -⟩
  have hfew := (buildPalette_some_iff (tilePixels_rgb24 bgra stride w h quality)).mp ⟨st, hst⟩
  omega

-- Sixteen greys that quality 3 rounds to one.
def nearlyFlat : Bytes :=
    (List.range 16).flatMap fun i => [UInt8.ofNat (121 + i / 4), 122, UInt8.ofNat (124 - i % 4), 0]

theorem encodeTile_smallest_flat :
    (rdEncodeTile nearlyFlat 16 4 4 3).2.length = 3 ∧
      ∀ payload, Candidate (tilePixels nearlyFlat 16 4 4 3) 4 4 payload → 3 ≤ payload.length := by
  have hone : colours (tilePixels nearlyFlat 16 4 4 3) = 1 := by decide +kernel
  have hchosen : (rdEncodeTile nearlyFlat 16 4 4 3).2.length = 3 := by decide +kernel
  have hsmallest := (encodeTile_smallest nearlyFlat 16 4 4 3 (by decide) (by decide)).2 (.inl hone)
  rw [hchosen] at hsmallest
  exact ⟨hchosen, hsmallest⟩

-- Sixteen greys, each one lighter than the last.
def gradient : Bytes := (List.range 16).flatMap fun i => [UInt8.ofNat i, UInt8.ofNat i, UInt8.ofNat i, 0]

theorem encodeTile_gradient :
    ¬∀ bgra stride w h quality, 1 ≤ w ∧ w ≤ RD_TILE → 1 ≤ h ∧ h ≤ RD_TILE →
      ∀ payload, Candidate (tilePixels bgra stride w h quality) w h payload →
        (rdEncodeTile bgra stride w h quality).2.length ≤ payload.length := by
  intro hall
  have hle := hall gradient 64 16 1 0 (by decide) (by decide) _ (Or.inr (Or.inr (Or.inl rfl)))
  have hzrgb : (zrgbPayload (tilePixels gradient 64 16 1 0) 16).length = 14 := by decide +kernel
  have hchosen : (rdEncodeTile gradient 64 16 1 0).2.length = 48 := by decide +kernel
  omega

end Choice

end TetherDesk.Codec
