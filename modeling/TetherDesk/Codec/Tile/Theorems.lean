import TetherDesk.Codec.Tile
import TetherDesk.Lib.BitField
import TetherDesk.Lib.Chunks
import Mathlib.Tactic

namespace TetherDesk.Codec

open TetherDesk.Lib

theorem rgb_toNat (r g b : UInt8) :
    (rgb r g b).toNat = r.toNat * 2 ^ 16 + g.toNat * 2 ^ 8 + b.toNat := by
  have hr := r.toNat_lt
  have hg := g.toNat_lt
  have hb := b.toNat_lt
  have hr' : (r.toUInt32 <<< 16).toNat = r.toNat <<< 16 := by
    rw [UInt32.toNat_shiftLeft, UInt8.toNat_toUInt32, Nat.shiftLeft_eq, Nat.shiftLeft_eq]
    exact Nat.mod_eq_of_lt (by change r.toNat * 2 ^ 16 < 2 ^ 32; omega)
  have hg' : (g.toUInt32 <<< 8).toNat = g.toNat <<< 8 := by
    rw [UInt32.toNat_shiftLeft, UInt8.toNat_toUInt32, Nat.shiftLeft_eq, Nat.shiftLeft_eq]
    exact Nat.mod_eq_of_lt (by change g.toNat * 2 ^ 8 < 2 ^ 32; omega)
  rw [rgb, UInt32.toNat_or, UInt32.toNat_or, hr', hg', UInt8.toNat_toUInt32,
    ← Nat.shiftLeft_add_eq_or_of_lt (by rw [Nat.shiftLeft_eq]; omega : g.toNat <<< 8 < 2 ^ 16)]
  rw [show r.toNat <<< 16 + g.toNat <<< 8 = (r.toNat * 2 ^ 8 + g.toNat) <<< 8 by
      simp only [Nat.shiftLeft_eq]; ring, ← Nat.shiftLeft_add_eq_or_of_lt (by omega : b.toNat < 2 ^ 8)]
  simp only [Nat.shiftLeft_eq]
  ring

theorem rgb_lt (r g b : UInt8) : (rgb r g b).toNat < 2 ^ 24 := by
  have hr := r.toNat_lt
  have hg := g.toNat_lt
  have hb := b.toNat_lt
  rw [rgb_toNat]
  omega

@[simp] theorem red_rgb (r g b : UInt8) : red (rgb r g b) = r := by
  have hg := g.toNat_lt
  have hb := b.toNat_lt
  have hr := r.toNat_lt
  apply UInt8.toNat_inj.mp
  rw [red, UInt32.toNat_toUInt8, UInt32.toNat_shiftRight, rgb_toNat, Nat.shiftRight_eq_div_pow]
  change (r.toNat * 2 ^ 16 + g.toNat * 2 ^ 8 + b.toNat) / 2 ^ 16 % 2 ^ 8 = r.toNat
  omega

@[simp] theorem green_rgb (r g b : UInt8) : green (rgb r g b) = g := by
  have hg := g.toNat_lt
  have hb := b.toNat_lt
  apply UInt8.toNat_inj.mp
  rw [green, UInt32.toNat_toUInt8, UInt32.toNat_shiftRight, rgb_toNat, Nat.shiftRight_eq_div_pow]
  change (r.toNat * 2 ^ 16 + g.toNat * 2 ^ 8 + b.toNat) / 2 ^ 8 % 2 ^ 8 = g.toNat
  omega

@[simp] theorem blue_rgb (r g b : UInt8) : blue (rgb r g b) = b := by
  have hb := b.toNat_lt
  apply UInt8.toNat_inj.mp
  rw [blue, UInt32.toNat_toUInt8, rgb_toNat]
  omega

-- A colour of the encoder: three bytes packed by rgb.
def Rgb24 (c : UInt32) : Prop := ∃ r g b, c = rgb r g b

theorem argb_of_rgb24 {c : UInt32} (h : Rgb24 c) :
    argb (red c) (green c) (blue c) = 0xFF000000 ||| c := by
  obtain ⟨r, g, b, rfl⟩ := h
  simp [argb]

theorem tilePixels_length (bgra : Bytes) (stride w h : Nat) (quality : Int) :
    (tilePixels bgra stride w h quality).length = w * h := by
  simp [tilePixels]

theorem tilePixels_rgb24 (bgra : Bytes) (stride w h : Nat) (quality : Int) :
    ∀ c ∈ tilePixels bgra stride w h quality, Rgb24 c := by
  intro c hc
  obtain ⟨i, _, rfl⟩ := List.mem_map.mp hc
  exact ⟨_, _, _, rfl⟩

theorem index_lt {w h x y : Nat} (hx : x < w) (hy : y < h) : y * w + x < w * h := by
  calc y * w + x < y * w + w := by omega
    _ = (y + 1) * w := by ring
    _ ≤ h * w := Nat.mul_le_mul_right w hy
    _ = w * h := Nat.mul_comm h w

theorem tilePixels_getD (bgra : Bytes) (stride w h : Nat) (quality : Int) (x y : Nat)
    (hx : x < w) (hy : y < h) :
    (tilePixels bgra stride w h quality).getD (y * w + x) 0 = quantisedPixel bgra stride quality y x := by
  have hw : 0 < w := by omega
  rw [List.getD_eq_getElem _ _ (by rw [tilePixels_length]; exact index_lt hx hy)]
  simp only [tilePixels, List.getElem_map, List.getElem_range]
  rw [Nat.mul_comm y w, Nat.mul_add_div hw, Nat.div_eq_of_lt hx, Nat.add_zero, Nat.mul_add_mod,
    Nat.mod_eq_of_lt hx]

-- At quality 0 (or below) nothing is rounded.
theorem quantise_lossless (quality : Int) (h : quality ≤ 0) (v : UInt8) : quantise quality v = v := by
  have hc : clampQuality quality = 0 := by
    unfold clampQuality
    split_ifs <;> omega
  have hv := v.toNat_lt
  simp only [quantise, hc]
  change UInt8.ofNat (if v.toNat + 0 > 255 then 255 else v.toNat + 0) &&& 255 = v
  rw [if_neg (by omega), Nat.add_zero, UInt8.ofNat_toNat]
  apply UInt8.toNat_inj.mp
  rw [UInt8.toNat_and]
  exact Nat.and_two_pow_sub_one_of_lt_two_pow (n := 8) hv

end TetherDesk.Codec
