import TetherDesk.Codec.Tile.Palette
import TetherDesk.Codec.Lz.RoundTrip

namespace TetherDesk.Codec

open TetherDesk.Lib

theorem predict_causal (w : Nat) : Predictor.Causal (predict w) := by
  intro s t i hsame
  have hat : ∀ j < i, byteAt s j = byteAt t j := hsame
  unfold predict
  dsimp only
  by_cases hx : i / 3 % w = 0
  · by_cases hy : i / 3 / w = 0
    · simp [hx, hy]
    · -- the neighbour above: y ≠ 0 puts it a full row before i
      have hw : 0 < w := Nat.pos_of_ne_zero fun h => hy (by simp [h])
      have hrow : w ≤ i / 3 := by by_contra hlt; exact hy (Nat.div_eq_of_lt (by omega))
      simp [hx, hy, hat (i - w * 3) (by omega)]
  · have hi : 3 ≤ i := by
      by_contra hlt
      exact hx (by rw [Nat.div_eq_of_lt (by omega)]; exact Nat.zero_mod w)
    by_cases hy : i / 3 / w = 0
    · simp [hx, hy, hat (i - 3) (by omega)]
    · have hw : 0 < w := Nat.pos_of_ne_zero fun h => hy (by simp [h])
      have hrow : w ≤ i / 3 := by by_contra hlt; exact hy (Nat.div_eq_of_lt (by omega))
      simp [hx, hy, hat (i - 3) (by omega), hat (i - w * 3) (by omega), hat (i - w * 3 - 3) (by omega)]

theorem restore_codeSample (t : UInt8) (p : Int) : restoreSample (codeSample t p) p = t := by
  unfold restoreSample codeSample
  have hcast : ∀ v : UInt8, UInt8.ofInt v.toNat = v := by
    intro v
    have hv := v.toNat_lt
    rw [UInt8.ofInt, Int.emod_eq_of_lt (by omega) (by omega), Int.toNat_natCast, UInt8.ofNat_toNat]
  rw [UInt8.ofInt_add, hcast, ← UInt8.ofInt_add, Int.sub_add_cancel, hcast]

theorem decorrelate_length (px : List UInt32) : (decorrelate px).length = px.length * 3 :=
  Chunks.length_flatMap_const px _ 3 fun _ _ => rfl

theorem putRgb_flatMap_length (px : List UInt32) : (px.flatMap putRgb).length = px.length * 3 :=
  Chunks.length_flatMap_const px _ 3 fun _ _ => rfl

theorem byteAt_decorrelate (px : List UInt32) (i k : Nat) (hi : i < px.length) (hk : k < 3) :
    byteAt (decorrelate px) (i * 3 + k) =
      [green px[i], red px[i] - green px[i], blue px[i] - green px[i]].getD k 0 :=
  Chunks.getD_flatMap_const px _ 0 3 i k hi hk fun _ _ => rfl

theorem byteAt_putRgb (px : List UInt32) (i k : Nat) (hi : i < px.length) (hk : k < 3) :
    byteAt (px.flatMap putRgb) (i * 3 + k) = (putRgb px[i]).getD k 0 :=
  Chunks.getD_flatMap_const px _ 0 3 i k hi hk fun _ _ => rfl

theorem mem_window {w h y x : Nat} : (y, x) ∈ window w h ↔ y < h ∧ x < w := by
  simp [window, and_comm]

theorem blit_congr (dst ds : Nat) (px px' : Nat → Nat → Option UInt32) (coords : List (Nat × Nat))
    (fb : Pixels) (h : ∀ c ∈ coords, px c.1 c.2 = px' c.1 c.2) :
    blit dst ds px coords fb = blit dst ds px' coords fb := by
  induction coords generalizing fb with
  | nil => rfl
  | cons c rest ih =>
      obtain ⟨y, x⟩ := c
      simp only [blit]
      rw [h (y, x) List.mem_cons_self]
      cases px' y x with
      | none => rfl
      | some colour => exact ih _ fun d hd => h d (List.mem_cons_of_mem _ hd)

-- Write every pixel of the w x h window at dst.
def paint (dst ds w h : Nat) (colour : Nat → Nat → UInt32) (fb : Pixels) : Pixels := fun a =>
  if w ≤ ds ∧ dst ≤ a ∧ (a - dst) / ds < h ∧ (a - dst) % ds < w then
    colour ((a - dst) / ds) ((a - dst) % ds)
  else fb a

theorem paint_inside (dst ds w h : Nat) (colour : Nat → Nat → UInt32) (fb : Pixels) (x y : Nat)
    (hds : w ≤ ds) (hx : x < w) (hy : y < h) :
    paint dst ds w h colour fb (dst + y * ds + x) = colour y x := by
  have hpos : 0 < ds := by omega
  have hsub : dst + y * ds + x - dst = ds * y + x := by rw [Nat.mul_comm ds y]; omega
  have hdiv : (ds * y + x) / ds = y := by
    rw [Nat.mul_add_div hpos, Nat.div_eq_of_lt (by omega), Nat.add_zero]
  have hmod : (ds * y + x) % ds = x := by rw [Nat.mul_add_mod, Nat.mod_eq_of_lt (by omega)]
  simp only [paint, hsub, hdiv, hmod]
  rw [if_pos ⟨hds, by omega, hy, hx⟩]

theorem paint_outside (dst ds w h : Nat) (colour : Nat → Nat → UInt32) (fb : Pixels) (a : Nat)
    (hout : ∀ y < h, ∀ x < w, a ≠ dst + y * ds + x) : paint dst ds w h colour fb a = fb a := by
  unfold paint
  rw [if_neg]
  rintro ⟨hds, hle, hy, hx⟩
  apply hout _ hy _ hx
  have := Nat.div_add_mod (a - dst) ds
  rw [Nat.mul_comm] at this
  omega

-- Painting a rectangle of a picture ds pixels wide, seen at pixel (X, Y).
theorem paint_at (x y w h ds : Nat) (colour : Nat → Nat → UInt32) (fb : Pixels) (X Y : Nat)
    (hfit : x + w ≤ ds) (hX : X < ds) :
    paint (y * ds + x) ds w h colour fb (Y * ds + X) =
      if x ≤ X ∧ X < x + w ∧ y ≤ Y ∧ Y < y + h then colour (Y - y) (X - x) else fb (Y * ds + X) := by
  by_cases hin : x ≤ X ∧ X < x + w ∧ y ≤ Y ∧ Y < y + h
  · rw [if_pos hin]
    have hat : Y * ds + X = y * ds + x + (Y - y) * ds + (X - x) := by
      have : y * ds + (Y - y) * ds = Y * ds := by rw [← Nat.add_mul, Nat.add_sub_cancel' hin.2.2.1]
      omega
    rw [hat, paint_inside _ _ _ _ _ _ _ _ (by omega) (by omega) (by omega)]
  · rw [if_neg hin]
    apply paint_outside
    intro y' hy' x' hx' heq
    have hat : X + Y * ds = (x + x') + (y + y') * ds := by rw [Nat.add_mul]; omega
    have hmod := congrArg (· % ds) hat
    have hdiv := congrArg (· / ds) hat
    have hpos : 0 < ds := by omega
    simp only [Nat.add_mul_mod_self_right, Nat.add_mul_div_right _ _ hpos, Nat.mod_eq_of_lt hX,
      Nat.mod_eq_of_lt (by omega : x + x' < ds), Nat.div_eq_of_lt hX,
      Nat.div_eq_of_lt (by omega : x + x' < ds)] at hmod hdiv
    omega

-- The value the loop leaves at an address: the colour of a coordinate mapped to
-- it, when there is one and no two coordinates share an address.
theorem blit_some (dst ds : Nat) (colour : Nat → Nat → UInt32) (coords : List (Nat × Nat)) (fb : Pixels)
    (hinj : coords.Pairwise fun c d => dst + c.1 * ds + c.2 ≠ dst + d.1 * ds + d.2) :
    (blit dst ds (fun y x => some (colour y x)) coords fb).1 = 0 ∧
    (∀ c ∈ coords, (blit dst ds (fun y x => some (colour y x)) coords fb).2 (dst + c.1 * ds + c.2) =
      colour c.1 c.2) ∧
    ∀ a, (∀ c ∈ coords, a ≠ dst + c.1 * ds + c.2) →
      (blit dst ds (fun y x => some (colour y x)) coords fb).2 a = fb a := by
  induction coords generalizing fb with
  | nil => simp [blit]
  | cons c rest ih =>
      obtain ⟨y, x⟩ := c
      rw [List.pairwise_cons] at hinj
      obtain ⟨h₁, h₂, h₃⟩ := ih (Function.update fb (dst + y * ds + x) (colour y x)) hinj.2
      simp only [blit]
      refine ⟨h₁, fun c hc => ?_, fun a ha => ?_⟩
      · rcases List.mem_cons.mp hc with rfl | hc
        · rw [h₃ _ fun d hd => hinj.1 d hd, Function.update_self]
        · exact h₂ c hc
      · rw [h₃ a fun d hd => ha d (List.mem_cons_of_mem _ hd),
          Function.update_of_ne (ha (y, x) List.mem_cons_self)]

theorem window_pairwise (dst ds w h : Nat) (hds : w ≤ ds) :
    (window w h).Pairwise fun c d => dst + c.1 * ds + c.2 ≠ dst + d.1 * ds + d.2 := by
  unfold window
  rw [List.pairwise_flatMap]
  constructor
  · intro y _
    rw [List.pairwise_map]
    exact List.nodup_range.imp fun hne => by simpa using hne
  · refine List.Pairwise.imp_of_mem ?_ List.pairwise_lt_range
    intro y y' _ _ hlt c hc d hd
    obtain ⟨x, hx, rfl⟩ := List.mem_map.mp hc
    obtain ⟨x', hx', rfl⟩ := List.mem_map.mp hd
    rw [List.mem_range] at hx hx'
    have : (y + 1) * ds ≤ y' * ds := Nat.mul_le_mul_right ds hlt
    rw [Nat.add_mul, Nat.one_mul] at this
    dsimp only
    omega

theorem blit_window (dst ds w h : Nat) (hds : w ≤ ds) (colour : Nat → Nat → UInt32) (fb : Pixels) :
    blit dst ds (fun y x => some (colour y x)) (window w h) fb = (0, paint dst ds w h colour fb) := by
  obtain ⟨h₁, h₂, h₃⟩ := blit_some dst ds colour (window w h) fb (window_pairwise dst ds w h hds)
  refine Prod.ext h₁ (funext fun a => ?_)
  by_cases hin : ∃ y < h, ∃ x < w, a = dst + y * ds + x
  · obtain ⟨y, hy, x, hx, rfl⟩ := hin
    dsimp only
    rw [h₂ (y, x) (mem_window.mpr ⟨hy, hx⟩), paint_inside _ _ _ _ _ _ _ _ hds hx hy]
  · have hout : ∀ y < h, ∀ x < w, a ≠ dst + y * ds + x :=
      fun y hy x hx heq => hin ⟨y, hy, x, hx, heq⟩
    dsimp only
    rw [paint_outside _ _ _ _ _ _ _ hout]
    refine h₃ a fun c hc => ?_
    have hm := mem_window.mp hc
    exact hout c.1 hm.1 c.2 hm.2

section Encodings

variable {px : List UInt32} {w h : Nat} (hlen : px.length = w * h) (hpx : ∀ c ∈ px, Rgb24 c)
include hlen hpx

omit hlen in
theorem solid_pixels {st : PalState} (h : buildPalette px = some st) (hnp : st.pal.length = 1)
    (i : Nat) (hi : i < px.length) : px[i] = st.pal.getD 0 0 := by
  have hidx := (buildPalette_invariant hpx h).idx_ok.getElem i hi
  obtain ⟨hlt, _⟩ := List.getElem?_eq_some_iff.mp hidx
  have hz : (st.idx.getD i 0).toNat = 0 := by omega
  rw [hz, List.getElem?_eq_getElem (by omega), Option.some.injEq] at hidx
  rw [← hidx, List.getD_eq_getElem _ _ (by omega)]

theorem decode_raw (dst ds : Nat) (fb : Pixels) (hw : w ≠ 0 ∧ w ≤ RD_TILE) (hh : h ≠ 0 ∧ h ≤ RD_TILE) :
    rdDecodeTile RD_ENC_RAW (px.flatMap putRgb) w h dst ds fb =
      blit dst ds (fun y x => some (0xFF000000 ||| px.getD (y * w + x) 0)) (window w h) fb := by
  rw [rdDecodeTile, if_neg (by omega), if_neg (by decide), if_pos rfl,
    if_neg (by rw [putRgb_flatMap_length, hlen]; simp)]
  apply blit_congr
  intro c hc
  have hm := mem_window.mp hc
  have hi : c.1 * w + c.2 < px.length := by rw [hlen]; exact index_lt hm.2 hm.1
  dsimp only
  have h₀ := byteAt_putRgb px _ 0 hi (by norm_num)
  rw [Nat.add_zero] at h₀
  rw [h₀, byteAt_putRgb px _ 1 hi (by norm_num), byteAt_putRgb px _ 2 hi (by norm_num),
    List.getD_eq_getElem _ _ hi, ← argb_of_rgb24 (hpx _ (List.getElem_mem hi))]
  rfl

theorem decode_solid (dst ds : Nat) (fb : Pixels) (hw : w ≠ 0 ∧ w ≤ RD_TILE) (hh : h ≠ 0 ∧ h ≤ RD_TILE)
    {st : PalState} (hst : buildPalette px = some st) (hnp : st.pal.length = 1) :
    rdDecodeTile RD_ENC_SOLID (putRgb (st.pal.getD 0 0)) w h dst ds fb =
      blit dst ds (fun y x => some (0xFF000000 ||| px.getD (y * w + x) 0)) (window w h) fb := by
  rw [rdDecodeTile, if_neg (by omega), if_pos rfl, if_neg (by simp [putRgb])]
  apply blit_congr
  intro c hc
  have hm := mem_window.mp hc
  have hi : c.1 * w + c.2 < px.length := by rw [hlen]; exact index_lt hm.2 hm.1
  have hp := solid_pixels hpx hst hnp _ hi
  rw [List.getD_eq_getElem _ _ hi, ← argb_of_rgb24 (hpx _ (List.getElem_mem hi)), hp]
  rfl

omit hlen hpx in
theorem palColour_payload (st : PalState) (lz : Bytes) (head : UInt8) (i : Nat) (hi : i < st.pal.length)
    (hc : Rgb24 st.pal[i]) :
    palColour (head :: (st.pal.flatMap putRgb ++ lz)) i = 0xFF000000 ||| st.pal[i] := by
  have hat : ∀ k < 3, byteAt (head :: (st.pal.flatMap putRgb ++ lz)) (k + 1 + i * 3) =
      (putRgb st.pal[i]).getD k 0 := by
    intro k hk
    rw [← byteAt_putRgb st.pal i k hi hk]
    unfold byteAt
    rw [show k + 1 + i * 3 = (i * 3 + k) + 1 by omega, List.getD_cons_succ,
      List.getD_eq_getElem?_getD, List.getElem?_append_left, ← List.getD_eq_getElem?_getD]
    rw [putRgb_flatMap_length]
    omega
  rw [palColour, ← argb_of_rgb24 hc]
  have h₀ := hat 0 (by norm_num)
  have h₁ := hat 1 (by norm_num)
  have h₂ := hat 2 (by norm_num)
  norm_num at h₀ h₁ h₂
  rw [h₀, h₁, h₂]
  rfl

omit hlen in
theorem palette_nonempty {st : PalState} (hst : buildPalette px = some st) (hpos : 0 < px.length) :
    0 < st.pal.length := by
  have hidx := (buildPalette_invariant hpx hst).idx_ok.getElem 0 hpos
  exact Nat.zero_lt_of_lt (List.getElem?_eq_some_iff.mp hidx).1

omit hlen hpx in
theorem rowBytes_le (w np : Nat) : rowBytes w (palBpp np) ≤ w := by
  unfold rowBytes
  rcases palBpp_cases np with h | h | h | h <;> rw [h] <;> omega

omit hlen hpx in
theorem rdLzBound_le_lzCap {n : Nat} (hn : n ≤ TILE_PX * 3) : rdLzBound n ≤ lzCap := by
  have : n / 255 ≤ TILE_PX * 3 / 255 := Nat.div_le_div_right hn
  unfold rdLzBound lzCap
  omega

theorem decode_palette (dst ds : Nat) (fb : Pixels) (hw : w ≠ 0 ∧ w ≤ RD_TILE) (hh : h ≠ 0 ∧ h ≤ RD_TILE)
    {st : PalState} (hst : buildPalette px = some st) :
    rdDecodeTile RD_ENC_PALETTE
        (UInt8.ofNat (st.pal.length - 1) :: (st.pal.flatMap putRgb ++
          rdLzCompress (packIndices (palBpp st.pal.length) w h st.idx) lzCap)) w h dst ds fb =
      blit dst ds (fun y x => some (0xFF000000 ||| px.getD (y * w + x) 0)) (window w h) fb := by
  obtain ⟨_, _, hnp, _, hidx⟩ := buildPalette_invariant hpx hst
  have hpos := palette_nonempty hpx hst (by rw [hlen]; exact Nat.mul_pos (by omega) (by omega))
  have hlook := hidx.getElem
  have hbound : ∀ i < w * h, (st.idx.getD i 0).toNat < st.pal.length := fun i hi =>
    (List.getElem?_eq_some_iff.mp (hlook i (by omega))).1
  generalize hbpp : palBpp st.pal.length = bpp
  have hcases : bpp = 1 ∨ bpp = 2 ∨ bpp = 4 ∨ bpp = 8 := hbpp ▸ palBpp_cases _
  have hpow : st.pal.length ≤ 2 ^ bpp := hbpp ▸ le_two_pow_palBpp _ hnp
  have hrow : rowBytes w bpp ≤ w := hbpp ▸ rowBytes_le w _
  have hpacked := packIndices_length bpp w h st.idx
  generalize hpk : packIndices bpp w h st.idx = packed at hpacked ⊢
  have hfits : packed.length ≤ TILE_PX * 3 := by
    have : rowBytes w bpp * h ≤ RD_TILE * RD_TILE := Nat.mul_le_mul (by omega) hh.2
    unfold TILE_PX
    omega
  generalize hlz : rdLzCompress packed lzCap = lz
  generalize hp : UInt8.ofNat (st.pal.length - 1) :: (st.pal.flatMap putRgb ++ lz) = p
  have hhead : (byteAt p 0).toNat + 1 = st.pal.length := by
    rw [← hp]
    change (UInt8.ofNat (st.pal.length - 1)).toNat + 1 = st.pal.length
    rw [UInt8.toNat_ofNat', Nat.mod_eq_of_lt (by omega)]
    omega
  have hplen : p.length = 1 + st.pal.length * 3 + lz.length := by
    rw [← hp, List.length_cons, List.length_append, putRgb_flatMap_length]
    omega
  have hdrop : p.drop (1 + st.pal.length * 3) = lz := by
    rw [← hp, Nat.add_comm 1, List.drop_succ_cons, List.drop_append_of_le_length
      (by rw [putRgb_flatMap_length]), List.drop_of_length_le (by rw [putRgb_flatMap_length]),
      List.nil_append]
  have hunpacked : rdLzDecompress lz (rowBytes w bpp * h) = some packed := by
    rw [← hlz]
    exact decompress_compress packed lzCap _ (rdLzBound_le_lzCap hfits) (by rw [hpacked])
  rw [rdDecodeTile, if_neg (by omega), if_neg (by decide), if_neg (by decide), if_pos rfl,
    if_neg (by omega)]
  simp only [hhead, hdrop, hbpp, hunpacked, hpacked]
  rw [if_neg (by omega), if_neg (by simp)]
  apply blit_congr
  intro c hc
  have hm := mem_window.mp hc
  have hi : c.1 * w + c.2 < w * h := index_lt hm.2 hm.1
  -- the index read back is the index stored, and the palette entry its pixel
  rw [← hpk, unpack_packIndices bpp w h st.idx c.2 c.1 hcases hm.2 hm.1 fun i hi =>
    (hbound i hi).trans_le hpow, if_neg (by have := hbound _ hi; omega)]
  have hpix := hlook _ (by omega : c.1 * w + c.2 < px.length)
  obtain ⟨hlt, heq⟩ := List.getElem?_eq_some_iff.mp hpix
  have hrgb : Rgb24 st.pal[(st.idx.getD (c.1 * w + c.2) 0).toNat] :=
    heq ▸ hpx _ (List.getElem_mem (by omega))
  rw [← hp, palColour_payload st lz _ _ hlt hrgb, heq, List.getD_eq_getElem _ _ (by omega)]

theorem decode_zrgb (dst ds : Nat) (fb : Pixels) (hw : w ≠ 0 ∧ w ≤ RD_TILE) (hh : h ≠ 0 ∧ h ≤ RD_TILE) :
    rdDecodeTile RD_ENC_ZRGB
        (rdLzCompress (Predictor.residuals (predict w) codeSample (decorrelate px)) lzCap) w h dst ds fb =
      blit dst ds (fun y x => some (0xFF000000 ||| px.getD (y * w + x) 0)) (window w h) fb := by
  have hdec : (decorrelate px).length = w * h * 3 := by rw [decorrelate_length, hlen]
  have hres := @Predictor.residuals_length _ _ _ (predict w) codeSample (decorrelate px)
  have hfits : w * h ≤ TILE_PX := Nat.mul_le_mul hw.2 hh.2
  have hunpacked := decompress_compress (Predictor.residuals (predict w) codeSample (decorrelate px))
    lzCap (w * h * 3) (rdLzBound_le_lzCap (by rw [hres, hdec]; omega)) (by rw [hres, hdec])
  have hrestored : Predictor.restoreAll (predict w) restoreSample (w * h * 3)
      (Predictor.residuals (predict w) codeSample (decorrelate px)) = decorrelate px := by
    rw [← hdec]
    exact Predictor.restoreAll_residuals (predict_causal w) restore_codeSample _
  rw [rdDecodeTile, if_neg (by omega), if_neg (by decide), if_neg (by decide), if_neg (by decide),
    if_pos rfl]
  simp only [hunpacked, hrestored]
  rw [if_neg (by rw [hres, hdec]; simp)]
  apply blit_congr
  intro c hc
  have hm := mem_window.mp hc
  have hi : c.1 * w + c.2 < px.length := by rw [hlen]; exact index_lt hm.2 hm.1
  have h₀ := byteAt_decorrelate px _ 0 hi (by norm_num)
  have h₁ := byteAt_decorrelate px _ 1 hi (by norm_num)
  have h₂ := byteAt_decorrelate px _ 2 hi (by norm_num)
  rw [Nat.add_zero] at h₀
  rw [h₀, h₁, h₂, List.getD_eq_getElem _ _ hi, ← argb_of_rgb24 (hpx _ (List.getElem_mem hi))]
  change some (argb (red _ - green _ + green _) (green _) (blue _ - green _ + green _)) = _
  rw [UInt8.sub_add_cancel, UInt8.sub_add_cancel]

end Encodings

-- What the decoder leaves in the window: the opaque quantised pixels of the tile.
def shownPixel (bgra : Bytes) (stride : Nat) (quality : Int) (y x : Nat) : UInt32 :=
  0xFF000000 ||| quantisedPixel bgra stride quality y x

-- Whatever encoding is chosen, decoding paints the quantised tile.
theorem decode_encodeTile (bgra : Bytes) (stride w h : Nat) (quality : Int) (dst ds : Nat) (fb : Pixels)
    (hw : 1 ≤ w ∧ w ≤ RD_TILE) (hh : 1 ≤ h ∧ h ≤ RD_TILE) (hds : w ≤ ds) :
    rdDecodeTile (rdEncodeTile bgra stride w h quality).1 (rdEncodeTile bgra stride w h quality).2 w h dst ds
        fb = (0, paint dst ds w h (shownPixel bgra stride quality) fb) := by
  have hlen := tilePixels_length bgra stride w h quality
  have hpx := tilePixels_rgb24 bgra stride w h quality
  have hshown : blit dst ds
      (fun y x => some (0xFF000000 ||| (tilePixels bgra stride w h quality).getD (y * w + x) 0))
      (window w h) fb = (0, paint dst ds w h (shownPixel bgra stride quality) fb) := by
    rw [← blit_window dst ds w h hds]
    apply blit_congr
    intro c hc
    have hm := mem_window.mp hc
    rw [tilePixels_getD bgra stride w h quality c.2 c.1 hm.2 hm.1]
    rfl
  have hw' : w ≠ 0 ∧ w ≤ RD_TILE := ⟨by omega, hw.2⟩
  have hh' : h ≠ 0 ∧ h ≤ RD_TILE := ⟨by omega, hh.2⟩
  rw [← hshown, rdEncodeTile]
  cases hst : buildPalette (tilePixels bgra stride w h quality) with
  | none =>
      dsimp only
      split_ifs
      · exact decode_zrgb hlen hpx dst ds fb hw' hh'
      · exact decode_raw hlen hpx dst ds fb hw' hh'
  | some st =>
      dsimp only
      split_ifs with hnp
      · exact decode_solid hlen hpx dst ds fb hw' hh' hst hnp
      · exact decode_palette hlen hpx dst ds fb hw' hh' hst
      · exact decode_raw hlen hpx dst ds fb hw' hh'

theorem encodeTile_length (bgra : Bytes) (stride w h : Nat) (quality : Int) :
    (rdEncodeTile bgra stride w h quality).1 < 4 ∧
    (rdEncodeTile bgra stride w h quality).2.length ≤ w * h * 3 + 3 := by
  have hraw : ((tilePixels bgra stride w h quality).flatMap putRgb).length = w * h * 3 := by
    rw [putRgb_flatMap_length, tilePixels_length]
  rw [rdEncodeTile]
  cases buildPalette (tilePixels bgra stride w h quality) with
  | none =>
      dsimp only
      split_ifs with hfits
      · exact ⟨(by decide : RD_ENC_ZRGB < 4), by dsimp only; omega⟩
      · exact ⟨(by decide : RD_ENC_RAW < 4), by dsimp only; omega⟩
  | some st =>
      dsimp only
      split_ifs with hnp hfits
      · exact ⟨(by decide : RD_ENC_SOLID < 4), by simp [putRgb]⟩
      · refine ⟨(by decide : RD_ENC_PALETTE < 4), ?_⟩
        simp only [List.length_cons, List.length_append, putRgb_flatMap_length]
        omega
      · exact ⟨(by decide : RD_ENC_RAW < 4), by dsimp only; omega⟩

-- A tile decodes to its own pixels, each channel rounded by the table of the
-- quality; nothing outside the window is written.
theorem tile_round_trip (bgra : Bytes) (stride w h : Nat) (quality : Int) (dst ds : Nat) (fb : Pixels)
    (hw : 1 ≤ w ∧ w ≤ RD_TILE) (hh : 1 ≤ h ∧ h ≤ RD_TILE) (hds : w ≤ ds) :
    let enc := rdEncodeTile bgra stride w h quality
    let dec := rdDecodeTile enc.1 enc.2 w h dst ds fb
    dec.1 = 0 ∧
    (∀ y < h, ∀ x < w, dec.2 (dst + y * ds + x) = 0xFF000000 |||
      rgb (quantise quality (byteAt bgra (y * stride + 4 * x + 2)))
        (quantise quality (byteAt bgra (y * stride + 4 * x + 1)))
        (quantise quality (byteAt bgra (y * stride + 4 * x)))) ∧
    (∀ a, (∀ y < h, ∀ x < w, a ≠ dst + y * ds + x) → dec.2 a = fb a) ∧
    (quality ≤ 0 → ∀ v, quantise quality v = v) := by
  dsimp only
  rw [decode_encodeTile bgra stride w h quality dst ds fb hw hh hds]
  refine ⟨rfl, fun y hy x hx => ?_, fun a ha => ?_, fun hq v => quantise_lossless quality hq v⟩
  · exact paint_inside _ _ _ _ _ _ _ _ hds hx hy
  · exact paint_outside _ _ _ _ _ _ _ ha

-- A 2 x 1 tile at quality 2, decoded at address 5 of a picture 7 pixels wide.
theorem tile_round_trip_two_pixels :
    let enc := rdEncodeTile [10, 20, 30, 255, 250, 251, 255, 255] 8 2 1 2
    let dec := rdDecodeTile enc.1 enc.2 2 1 5 7 (fun _ => 9)
    dec.1 = 0 ∧ dec.2 5 = 0xFF201008 ∧ dec.2 6 = 0xFFF8F8F8 ∧ dec.2 7 = 9 := by
  have h := tile_round_trip [10, 20, 30, 255, 250, 251, 255, 255] 8 2 1 2 5 7 (fun _ => 9)
    (by decide) (by decide) (by decide)
  refine ⟨h.1, (h.2.1 0 (by decide) 0 (by decide)).trans (by decide),
    (h.2.1 0 (by decide) 1 (by decide)).trans (by decide), h.2.2.1 7 ?_⟩
  decide

end TetherDesk.Codec
