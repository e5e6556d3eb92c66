import TetherDesk.Codec.Lz
import TetherDesk.Lib.LinearProbe
import TetherDesk.Lib.Predictor

namespace TetherDesk.Codec

open TetherDesk.Lib

def RD_TILE : Nat := 64
def TILE_PX : Nat := RD_TILE * RD_TILE

def RD_ENC_SOLID : Nat := 0
def RD_ENC_PALETTE : Nat := 1
def RD_ENC_ZRGB : Nat := 2
def RD_ENC_RAW : Nat := 3

def kQualityMask : List UInt8 := [0xFF, 0xFC, 0xF8, 0xF0]

def clampQuality (quality : Int) : Nat :=
  if quality < 0 then 0 else if quality > 3 then 3 else quality.toNat

-- The rounding table q[] of the encoder.
def quantise (quality : Int) (v : UInt8) : UInt8 :=
  let mask := kQualityMask.getD (clampQuality quality) 0
  let half := (~~~mask >>> 1).toNat
  UInt8.ofNat (if v.toNat + half > 255 then 255 else v.toNat + half) &&& mask

-- Median edge detector (LOCO-I / JPEG-LS) predictor.
def med (a b c : Int) : Int :=
  let mx := if a > b then a else b
  let mn := if a < b then a else b
  if c ≥ mx then mn else if c ≤ mn then mx else a + b - c

def rgb (r g b : UInt8) : UInt32 := (r.toUInt32 <<< 16) ||| (g.toUInt32 <<< 8) ||| b.toUInt32

def argb (r g b : UInt8) : UInt32 := 0xFF000000 ||| rgb r g b

def red (c : UInt32) : UInt8 := (c >>> 16).toUInt8
def green (c : UInt32) : UInt8 := (c >>> 8).toUInt8
def blue (c : UInt32) : UInt8 := c.toUInt8

def putRgb (c : UInt32) : Bytes := [red c, green c, blue c]

-- The quantised pixel at row y, column x of a BGRA tile.
def quantisedPixel (bgra : Bytes) (stride : Nat) (quality : Int) (y x : Nat) : UInt32 :=
  let row := y * stride + 4 * x
  rgb (quantise quality (byteAt bgra (row + 2))) (quantise quality (byteAt bgra (row + 1)))
    (quantise quality (byteAt bgra row))

-- px[y * w + x], row by row.
def tilePixels (bgra : Bytes) (stride w h : Nat) (quality : Int) : List UInt32 :=
  (List.range (w * h)).map fun i => quantisedPixel bgra stride quality (i / w) (i % w)

def PAL_HASH : Nat := 1024

def palHash (c : UInt32) : Nat := (((c * (2654435761 : UInt32)) >>> 22) &&& UInt32.ofNat (PAL_HASH - 1)).toNat

-- slots s = none stands for slot_idx[s] = -1. `idx` holds the indices written so far.
structure PalState where
  slots : LinearProbe.Slots UInt32 Nat
  pal : List UInt32
  last : UInt32
  lastI : UInt8
  idx : List UInt8

def palInit (px : List UInt32) : PalState :=
  { slots := fun _ => none, pal := [], last := ~~~(px.getD 0 0), lastI := 0, idx := [] }

-- One pixel of the palette loop; none is is_pal = 0.
def palStep (st : PalState) (c : UInt32) : Option PalState :=
  if c = st.last then some { st with idx := st.idx ++ [st.lastI] }
  else
    let s := LinearProbe.probe PAL_HASH st.slots c PAL_HASH (palHash c)
    match st.slots s with
    | some (i, _) =>
        some { st with last := c, lastI := UInt8.ofNat i, idx := st.idx ++ [UInt8.ofNat i] }
    | none =>
        if st.pal.length = 256 then none
        else
          let np := st.pal.length
          some
            { slots := Function.update st.slots s (some (np, c))
              pal := st.pal ++ [c]
              last := c
              lastI := UInt8.ofNat np
              idx := st.idx ++ [UInt8.ofNat np] }

def buildPalette (px : List UInt32) : Option PalState := px.foldlM palStep (palInit px)

def palBpp (np : Nat) : Nat := if np ≤ 2 then 1 else if np ≤ 4 then 2 else if np ≤ 16 then 4 else 8

def rowBytes (w bpp : Nat) : Nat := (w * bpp + 7) / 8

def pixelShift (bpp x : Nat) : Nat := 8 - bpp * (x % (8 / bpp) + 1)

-- dr[x / per_byte] |= (uint8_t)(sr[x] << shift) for each x of a zeroed row.
def packRow (bpp w : Nat) (sr : Nat → UInt8) : Bytes :=
  (List.range w).foldl
    (fun dr x => dr.modify (x / (8 / bpp)) (· ||| (sr x <<< UInt8.ofNat (pixelShift bpp x))))
    (List.replicate (rowBytes w bpp) 0)

def packIndices (bpp w h : Nat) (idx : List UInt8) : Bytes :=
  (List.range h).flatMap fun y => packRow bpp w fun x => idx.getD (y * w + x) 0

-- The index of column x in a packed row.
def unpackIndex (bpp : Nat) (sr : Bytes) (x : Nat) : UInt8 :=
  (byteAt sr (x / (8 / bpp)) >>> UInt8.ofNat (pixelShift bpp x)) &&& UInt8.ofNat (2 ^ bpp - 1)

-- Decorrelate (G, R-G, B-G).
def decorrelate (px : List UInt32) : Bytes :=
  px.flatMap fun c => [green c, red c - green c, blue c - green c]

-- The MED prediction for sample i of a w pixels wide tile; y and x are those of
-- sample i, whose neighbours lie 3 and 3 * w places before it.
def predict (w : Nat) (t : Bytes) (i : Nat) : Int :=
  let x := i / 3 % w
  let y := i / 3 / w
  let a : Int := if x ≠ 0 then (byteAt t (i - 3)).toNat else if y ≠ 0 then (byteAt t (i - w * 3)).toNat else 0
  let b : Int := if y ≠ 0 then (byteAt t (i - w * 3)).toNat else a
  let c : Int := if x ≠ 0 ∧ y ≠ 0 then (byteAt t (i - w * 3 - 3)).toNat else b
  med a b c

def codeSample (t : UInt8) (p : Int) : UInt8 := UInt8.ofInt (t.toNat - p)
def restoreSample (t : UInt8) (p : Int) : UInt8 := UInt8.ofInt (t.toNat + p)

-- sizeof lz in rd_encode_tile.
def lzCap : Nat := TILE_PX * 3 + TILE_PX * 3 / 255 + 16

-- The encoding id and the payload appended to out.
def rdEncodeTile (bgra : Bytes) (stride w h : Nat) (quality : Int) : Nat × Bytes :=
  let px := tilePixels bgra stride w h quality
  let rawSize := w * h * 3
  let raw := (RD_ENC_RAW, px.flatMap putRgb)
  match buildPalette px with
  | some st =>
      let np := st.pal.length
      if np = 1 then (RD_ENC_SOLID, putRgb (st.pal.getD 0 0))
      else
        let lz := rdLzCompress (packIndices (palBpp np) w h st.idx) lzCap
        if 1 + np * 3 + lz.length < rawSize then
          (RD_ENC_PALETTE, UInt8.ofNat (np - 1) :: (st.pal.flatMap putRgb ++ lz))
        else raw
  | none =>
      let lz := rdLzCompress (Predictor.residuals (predict w) codeSample (decorrelate px)) lzCap
      if lz.length < rawSize then (RD_ENC_ZRGB, lz) else raw

-- Pixel memory of the decoder, indexed by address in pixels.
abbrev Pixels := Nat → UInt32

-- The coordinates of the decoder's loops: y outside, x inside.
def window (w h : Nat) : List (Nat × Nat) :=
  (List.range h).flatMap fun y => (List.range w).map fun x => (y, x)

-- Write dst[y * ds + x] for each coordinate in turn; -1 at the first pixel that
-- has no colour, with the earlier writes done.
def blit (dst ds : Nat) (px : Nat → Nat → Option UInt32) : List (Nat × Nat) → Pixels → Int × Pixels
  | [], fb => (0, fb)
  | (y, x) :: rest, fb =>
      match px y x with
      | none => (-1, fb)
      | some c => blit dst ds px rest (Function.update fb (dst + y * ds + x) c)

-- The colour of palette entry i in the payload.
def palColour (p : Bytes) (i : Nat) : UInt32 :=
  argb (byteAt p (1 + i * 3)) (byteAt p (2 + i * 3)) (byteAt p (3 + i * 3))

-- rd_decode_tile writing at address dst with ds pixels per row: the return value
-- and the memory after the call.
def rdDecodeTile (enc : Nat) (p : Bytes) (w h : Nat) (dst ds : Nat) (fb : Pixels) : Int × Pixels :=
  if w = 0 ∨ h = 0 ∨ w > RD_TILE ∨ h > RD_TILE then (-1, fb)
  else
    let n := w * h
    if enc = RD_ENC_SOLID then
      if p.length ≠ 3 then (-1, fb)
      else blit dst ds (fun _ _ => some (argb (byteAt p 0) (byteAt p 1) (byteAt p 2))) (window w h) fb
    else if enc = RD_ENC_RAW then
      if p.length ≠ n * 3 then (-1, fb)
      else
        blit dst ds (fun y x =>
          let i := (y * w + x) * 3
          some (argb (byteAt p i) (byteAt p (i + 1)) (byteAt p (i + 2)))) (window w h) fb
    else if enc = RD_ENC_PALETTE then
      if p.length < 1 then (-1, fb)
      else
        let np := (byteAt p 0).toNat + 1
        if p.length < 1 + np * 3 then (-1, fb)
        else
          let bpp := palBpp np
          let want := rowBytes w bpp * h
          match rdLzDecompress (p.drop (1 + np * 3)) want with
          | none => (-1, fb)
          | some packed =>
              if packed.length ≠ want then (-1, fb)
              else
                blit dst ds (fun y x =>
                  let i := (unpackIndex bpp (packed.drop (y * rowBytes w bpp)) x).toNat
                  if i ≥ np then none else some (palColour p i)) (window w h) fb
    else if enc = RD_ENC_ZRGB then
      match rdLzDecompress p (n * 3) with
      | none => (-1, fb)
      | some res =>
          if res.length ≠ n * 3 then (-1, fb)
          else
            let t := Predictor.restoreAll (predict w) restoreSample (n * 3) res
            blit dst ds (fun y x =>
              let i := (y * w + x) * 3
              let g := byteAt t i
              some (argb (byteAt t (i + 1) + g) g (byteAt t (i + 2) + g))) (window w h) fb
    else (-1, fb)

end TetherDesk.Codec
