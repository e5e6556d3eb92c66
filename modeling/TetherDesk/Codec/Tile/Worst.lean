import TetherDesk.Codec.Tile.RoundTrip
import TetherDesk.Lib.Incompressible

namespace TetherDesk.Codec

open TetherDesk.Lib

-- The encoder reads the pixels of the tile and nothing else.
theorem rdEncodeTile_congr {bgra bgra' : Bytes} {stride stride' w h : Nat} {quality quality' : Int}
    (heq : tilePixels bgra stride w h quality = tilePixels bgra' stride' w h quality') :
    rdEncodeTile bgra stride w h quality = rdEncodeTile bgra' stride' w h quality' := by
  unfold rdEncodeTile
  rw [heq]

-- A payload is never longer than the raw pixels.
theorem payload_length_le (bgra : Bytes) (stride w h : Nat) (quality : Int) (hw : 1 ≤ w) (hh : 1 ≤ h) :
    (rdEncodeTile bgra stride w h quality).2.length ≤ w * h * 3 := by
  have harea : 1 ≤ w * h := Nat.mul_pos hw hh
  have hraw : ((tilePixels bgra stride w h quality).flatMap putRgb).length = w * h * 3 := by
    rw [putRgb_flatMap_length, tilePixels_length]
  rw [rdEncodeTile]
  cases buildPalette (tilePixels bgra stride w h quality) with
  | none =>
      dsimp only
      split_ifs with hfits
      · exact Nat.le_of_lt hfits
      · exact Nat.le_of_eq hraw
  | some st =>
      dsimp only
      split_ifs with hnp hfits
      · simp only [putRgb, List.length_cons, List.length_nil]
        omega
      · simp only [List.length_cons, List.length_append, putRgb_flatMap_length]
        omega
      · exact Nat.le_of_eq hraw

-- BGRA pixels, row by row: s x y 0 is blue, s x y 1 green and s x y 2 red.
def pixelBytes (w h : Nat) (s : Nat → Nat → Nat → UInt8) : Bytes :=
  (List.range (w * h)).flatMap fun i => (List.range 4).map fun k => s (i % w) (i / w) k

def samplePixels (w h : Nat) (s : Nat → Nat → Nat → UInt8) : List UInt32 :=
  (List.range (w * h)).map fun i => rgb (s (i % w) (i / w) 2) (s (i % w) (i / w) 1) (s (i % w) (i / w) 0)

section

variable {w h : Nat} {s : Nat → Nat → Nat → UInt8}

theorem pixelBytes_length : (pixelBytes w h s).length = w * h * 4 := by
  rw [pixelBytes, Chunks.length_flatMap_const _ _ 4 (by simp), List.length_range]

theorem byteAt_pixelBytes {x y k : Nat} (hx : x < w) (hy : y < h) (hk : k < 4) :
    byteAt (pixelBytes w h s) (y * (4 * w) + 4 * x + k) = s x y k := by
  have hat : y * (4 * w) + 4 * x + k = (y * w + x) * 4 + k := by ring
  have hi := index_lt hx hy
  rw [byteAt, hat, pixelBytes, Chunks.getD_flatMap_const _ _ 0 4 _ _ (by simpa using hi) hk (by simp)]
  rw [List.getElem_range, List.getD_eq_getElem _ _ (by simpa using hk), List.getElem_map, List.getElem_range,
    Nat.mul_comm y w, Nat.mul_add_mod, Nat.mod_eq_of_lt hx, Nat.mul_add_div (by omega), Nat.div_eq_of_lt hx,
      Nat.add_zero]

theorem tilePixels_samples {bgra : Bytes} {stride : Nat}
    (hs : ∀ x < w, ∀ y < h, ∀ k < 3, byteAt bgra (y * stride + 4 * x + k) = s x y k) :
    tilePixels bgra stride w h 0 = samplePixels w h s := by
  unfold tilePixels samplePixels
  refine List.map_congr_left fun i hi => ?_
  rw [List.mem_range] at hi
  have hw : 0 < w := Nat.pos_of_mul_pos_right (Nat.zero_lt_of_lt hi)
  have hx : i % w < w := Nat.mod_lt _ hw
  have hy : i / w < h := Nat.div_lt_of_lt_mul hi
  have hblue := hs _ hx _ hy 0 (by omega)
  unfold quantisedPixel
  dsimp only
  rw [quantise_lossless 0 (by omega), quantise_lossless 0 (by omega), quantise_lossless 0 (by omega),
    hs _ hx _ hy 2 (by omega),
    hs _ hx _ hy 1 (by omega)]
  exact congrArg _ hblue

theorem opaque_inj {r g b r' g' b' : UInt8} (h : 0xFF000000 ||| rgb r g b = 0xFF000000 ||| rgb r' g' b') :
    r = r' ∧ g = g' ∧ b = b' := by
  have hsum : ∀ c : UInt32, c.toNat < 2 ^ 24 → (0xFF000000 ||| c).toNat = 255 * 2 ^ 24 + c.toNat := by
    intro c hc
    rw [UInt32.toNat_or, show (0xFF000000 : UInt32).toNat = 255 <<< 24 from rfl, ← Nat.shiftLeft_add_eq_or_of_lt hc,
      Nat.shiftLeft_eq]
  have hnat := congrArg UInt32.toNat h
  rw [hsum _ (rgb_lt r g b), hsum _ (rgb_lt r' g' b')] at hnat
  have hcolour : rgb r g b = rgb r' g' b' := UInt32.toNat_inj.mp (by omega)
  refine ⟨?_, ?_, ?_⟩
  · rw [← red_rgb r g b, hcolour, red_rgb]
  · rw [← green_rgb r g b, hcolour, green_rgb]
  · rw [← blue_rgb r g b, hcolour, blue_rgb]

-- The samples of a tile can be read back from its encoding.
theorem encode_samples_inj {s s' : Nat → Nat → Nat → UInt8} (hw : 1 ≤ w ∧ w ≤ RD_TILE) (hh : 1 ≤ h ∧ h ≤ RD_TILE)
    (heq : rdEncodeTile (pixelBytes w h s) (4 * w) w h 0 = rdEncodeTile (pixelBytes w h s') (4 * w) w h 0) :
    ∀ x < w, ∀ y < h, ∀ k < 3, s x y k = s' x y k := by
  intro x hx y hy
  have hpaint := decode_encodeTile (pixelBytes w h s) (4 * w) w h 0 0 w (fun _ => 0) hw hh (Nat.le_refl w)
  rw [heq, decode_encodeTile (pixelBytes w h s') (4 * w) w h 0 0 w (fun _ => 0) hw hh (Nat.le_refl w)] at hpaint
  have hpixel := congrFun (congrArg Prod.snd hpaint) (0 + y * w + x)
  dsimp only at hpixel
  rw [paint_inside _ _ _ _ _ _ _ _ (Nat.le_refl w) hx hy,
    paint_inside _ _ _ _ _ _ _ _ (Nat.le_refl w) hx hy] at hpixel
  unfold shownPixel quantisedPixel at hpixel
  dsimp only at hpixel
  simp only [quantise_lossless 0 (Int.le_refl 0)] at hpixel
  obtain ⟨hred, hgreen, hblue⟩ := opaque_inj hpixel
  have hzero : ∀ s : Nat → Nat → Nat → UInt8, byteAt (pixelBytes w h s) (y * (4 * w) + 4 * x) = s x y 0 :=
    fun s => byteAt_pixelBytes (k := 0) hx hy (by omega)
  rw [byteAt_pixelBytes hx hy (by omega), byteAt_pixelBytes hx hy (by omega)] at hred hgreen
  rw [hzero, hzero] at hblue
  intro k hk
  obtain rfl | rfl | rfl : k = 0 ∨ k = 1 ∨ k = 2 := by omega
  · exact hblue.symm
  · exact hgreen.symm
  · exact hred.symm

end

local instance byteFintype : Fintype UInt8 :=
  Fintype.ofEquiv (Fin 256) ⟨UInt8.ofFin, UInt8.toFin, fun _ => rfl, fun _ => rfl⟩

theorem card_uint8 : Fintype.card UInt8 = 256 := (Fintype.ofEquiv_card _).trans (Fintype.card_fin 256)

-- Every size of tile has contents that no encoding makes smaller than raw.
theorem exists_raw_tile {w h : Nat} (hw : 1 ≤ w ∧ w ≤ RD_TILE) (hh : 1 ≤ h ∧ h ≤ RD_TILE) :
    ∃ s : Nat → Nat → Nat → UInt8, ∀ bgra stride,
      (∀ x < w, ∀ y < h, ∀ k < 3, byteAt bgra (y * stride + 4 * x + k) = s x y k) →
      (rdEncodeTile bgra stride w h 0).2.length = w * h * 3 := by
  let samples (v : Fin (w * h * 3) → UInt8) (x y k : Nat) : UInt8 :=
    if hlt : (y * w + x) * 3 + k < w * h * 3 then v ⟨(y * w + x) * 3 + k, hlt⟩ else 0
  let code (v : Fin (w * h * 3) → UInt8) : Fin 4 × Bytes :=
    (⟨_, (encodeTile_length (pixelBytes w h (samples v)) (4 * w) w h 0).1⟩,
      (rdEncodeTile (pixelBytes w h (samples v)) (4 * w) w h 0).2)
  have hinjective : Function.Injective code := by
    intro v v' hv
    have hkind := congrArg (fun c => c.1.val) hv
    have hpayload := congrArg Prod.snd hv
    have hsame : rdEncodeTile (pixelBytes w h (samples v)) (4 * w) w h 0 =
        rdEncodeTile (pixelBytes w h (samples v')) (4 * w) w h 0 :=
      Prod.ext hkind hpayload
    have hall := encode_samples_inj hw hh hsame
    funext ⟨i, hi⟩
    have hwpos : 0 < w := by omega
    have hlt : i / 3 < w * h := by omega
    have hpixel := hall (i / 3 % w) (Nat.mod_lt _ hwpos) (i / 3 / w) (Nat.div_lt_of_lt_mul hlt) (i % 3)
        (Nat.mod_lt _ (by omega))
    have hat : (i / 3 / w * w + i / 3 % w) * 3 + i % 3 = i := by
      rw [Nat.div_add_mod', Nat.div_add_mod']
    simp only [samples, hat, dif_pos hi] at hpixel
    exact hpixel
  obtain ⟨v, hv⟩ := Incompressible.exists_incompressible (by rw [card_uint8]; omega) (w * h * 3) code hinjective
  refine ⟨samples v, fun bgra stride hs => Nat.le_antisymm (payload_length_le bgra stride w h 0 hw.1 hh.1) ?_⟩
  have hpixels : tilePixels bgra stride w h 0 = tilePixels (pixelBytes w h (samples v)) (4 * w) w h 0 :=
    (tilePixels_samples hs).trans
      (tilePixels_samples fun x hx y hy k hk => byteAt_pixelBytes hx hy (Nat.lt_succ_of_lt hk)).symm
  rw [rdEncodeTile_congr hpixels]
  exact hv

end TetherDesk.Codec
