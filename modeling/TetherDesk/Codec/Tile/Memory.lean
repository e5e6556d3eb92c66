import TetherDesk.Codec.Tile
import TetherDesk.Codec.Lz.Memory

namespace TetherDesk.Codec

open TetherDesk.Lib.Buffer

-- rd_encode_tile and rd_decode_tile on the arrays they keep on the stack and
-- on the framebuffer. As in the compressor, the outer none is a fault.

-- The arrays of rd_encode_tile, with what happens to lie in them.
structure EncoderStack where
  work : Bytes
  res : Bytes
  lz : Bytes
  work_size : work.length = TILE_PX * 3
  res_size : res.length = TILE_PX * 3
  lz_size : lz.length = lzCap

-- pal, packed and t of rd_decode_tile.
structure DecoderStack where
  pal : List UInt32
  packed : Bytes
  t : Bytes
  pal_size : pal.length = 256
  packed_size : packed.length = TILE_PX
  t_size : t.length = TILE_PX * 3

-- dr[x / per_byte] |= (uint8_t)(sr[x] << shift)
def packPixelAt (bpp w : Nat) (idx : List UInt8) (work : Cells UInt8) (yx : Nat × Nat) : Option (Cells UInt8) := do
  let (y, x) := yx
  let at' := y * rowBytes w bpp + x / (8 / bpp)
  let d ← load work at'
  let i ← idx[y * w + x]?
  store work at' (d ||| (i <<< UInt8.ofNat (pixelShift bpp x)))

def packIndicesAt (bpp w h : Nat) (idx : List UInt8) (work : Cells UInt8) : Option (Cells UInt8) := do
  let work ← storeAll work 0 (List.replicate (rowBytes w bpp * h) 0)
  (window w h).foldlM (packPixelAt bpp w idx) work

-- t[i - back] as an int.
def sampleAt (t : Cells UInt8) (i back : Nat) : Option Int := do
  let j ← sub i back
  let v ← load t j
  return v.toNat

def predictAt (w : Nat) (t : Cells UInt8) (i : Nat) : Option Int := do
  let x := i / 3 % w
  let y := i / 3 / w
  let a ← (if x ≠ 0 then sampleAt t i 3 else if y ≠ 0 then sampleAt t i (w * 3) else some 0)
  let b ← (if y ≠ 0 then sampleAt t i (w * 3) else some a)
  let c ← (if x ≠ 0 ∧ y ≠ 0 then sampleAt t i (w * 3 + 3) else some b)
  return med a b c

-- res[i] = (uint8_t)(t[i] - med(a, b, c))
def residualAt (w : Nat) (t res : Cells UInt8) (i : Nat) : Option (Cells UInt8) := do
  let p ← predictAt w t i
  let v ← load t i
  store res i (codeSample v p)

-- t[i] = (uint8_t)(t[i] + med(a, b, c)), in place.
def restoreAtIn (w : Nat) (t : Cells UInt8) (i : Nat) : Option (Cells UInt8) := do
  let p ← predictAt w t i
  let v ← load t i
  store t i (restoreSample v p)

-- The encoding id and the payload appended to out.
def rdEncodeTileInto (stack : EncoderStack) (bgra : Bytes) (stride w h : Nat) (quality : Int) :
    Option (Nat × Bytes) :=
  let px := tilePixels bgra stride w h quality
  let rawSize := w * h * 3
  let raw := (RD_ENC_RAW, px.flatMap putRgb)
  match buildPalette px with
  | some st =>
      let np := st.pal.length
      if np = 1 then some (RD_ENC_SOLID, putRgb (st.pal.getD 0 0))
      else do
        let n := rowBytes w (palBpp np) * h
        let work ← packIndicesAt (palBpp np) w h st.idx (fresh stack.work)
        let src ← loadAll work 0 n
        let (zl, lz) ← rdLzCompressInto src lzCap (fresh stack.lz)
        if 1 + np * 3 + zl < rawSize then
          let z ← loadAll lz 0 zl
          some (RD_ENC_PALETTE, UInt8.ofNat (np - 1) :: (st.pal.flatMap putRgb ++ z))
        else some raw
  | none => do
      let t ← storeAll (fresh stack.work) 0 (decorrelate px)
      let res ← (List.range rawSize).foldlM (residualAt w t) (fresh stack.res)
      let src ← loadAll res 0 rawSize
      let (zl, lz) ← rdLzCompressInto src lzCap (fresh stack.lz)
      if zl < rawSize then
        let z ← loadAll lz 0 zl
        some (RD_ENC_ZRGB, z)
      else some raw

-- The colour in the three payload bytes at i.
def argbAt (p : Bytes) (i : Nat) : Option UInt32 := do
  let r ← p[i]?
  let g ← p[i + 1]?
  let b ← p[i + 2]?
  return argb r g b

-- blit on an array; -1 at the first pixel without a colour.
def blitAt (dst ds : Nat) (px : Nat → Nat → Option (Option UInt32)) :
    List (Nat × Nat) → Cells UInt32 → Option (Int × Cells UInt32)
  | [], fb => some (0, fb)
  | (y, x) :: rest, fb => do
      match ← px y x with
      | none => some (-1, fb)
      | some c =>
          let fb ← store fb (dst + y * ds + x) c
          blitAt dst ds px rest fb

-- pal[i] = argb(...)
def palEntryAt (p : Bytes) (pal : Cells UInt32) (i : Nat) : Option (Cells UInt32) := do
  let c ← argbAt p (1 + i * 3)
  store pal i c

-- The colour of a palette pixel, none for an index outside the palette.
def palPixelAt (w np : Nat) (packed : Cells UInt8) (pal : Cells UInt32) (y x : Nat) :
    Option (Option UInt32) := do
  let bpp := palBpp np
  let d ← load packed (y * rowBytes w bpp + x / (8 / bpp))
  let i := ((d >>> UInt8.ofNat (pixelShift bpp x)) &&& UInt8.ofNat (2 ^ bpp - 1)).toNat
  if i ≥ np then some none
  else
    let c ← load pal i
    some (some c)

def zrgbPixelAt (w : Nat) (t : Cells UInt8) (y x : Nat) : Option (Option UInt32) := do
  let i := (y * w + x) * 3
  let g ← load t i
  let r ← load t (i + 1)
  let b ← load t (i + 2)
  some (some (argb (r + g) g (b + g)))

-- The return value and the framebuffer after the call.
def rdDecodeTileInto (stack : DecoderStack) (enc : Nat) (p : Bytes) (w h dst ds : Nat) (fb : Cells UInt32) :
    Option (Int × Cells UInt32) :=
  if w = 0 ∨ h = 0 ∨ w > RD_TILE ∨ h > RD_TILE then some (-1, fb)
  else
    let n := w * h
    if enc = RD_ENC_SOLID then
      if p.length ≠ 3 then some (-1, fb)
      else do
        let c ← argbAt p 0
        blitAt dst ds (fun _ _ => some (some c)) (window w h) fb
    else if enc = RD_ENC_RAW then
      if p.length ≠ n * 3 then some (-1, fb)
      else blitAt dst ds (fun y x => (argbAt p ((y * w + x) * 3)).map some) (window w h) fb
    else if enc = RD_ENC_PALETTE then
      if p.length < 1 then some (-1, fb)
      else do
        let head ← p[0]?
        let np := head.toNat + 1
        if p.length < 1 + np * 3 then some (-1, fb)
        else
          let pal ← (List.range np).foldlM (palEntryAt p) (fresh stack.pal)
          let want := rowBytes w (palBpp np) * h
          let left ← sub p.length (1 + np * 3)
          let src ← slice p (1 + np * 3) left
          match ← rdLzDecompressInto src want (fresh stack.packed) with
          | none => some (-1, fb)
          | some (got, packed) =>
              if got ≠ want then some (-1, fb)
              else blitAt dst ds (palPixelAt w np packed pal) (window w h) fb
    else if enc = RD_ENC_ZRGB then do
      match ← rdLzDecompressInto p (n * 3) (fresh stack.t) with
      | none => some (-1, fb)
      | some (got, t) =>
          if got ≠ n * 3 then some (-1, fb)
          else
            let t ← (List.range (n * 3)).foldlM (restoreAtIn w) t
            blitAt dst ds (zrgbPixelAt w t) (window w h) fb
    else some (-1, fb)

end TetherDesk.Codec
