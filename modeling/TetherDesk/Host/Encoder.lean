import TetherDesk.Codec.Tile
import TetherDesk.Lib.WorkQueue
import TetherDesk.Reader
import TetherDesk.Proto

namespace TetherDesk.Host

open TetherDesk.Codec TetherDesk.Lib

structure Frame where
  width : Nat
  height : Nat
  stride : Nat
  seq : Nat
  pixels : Bytes
  deriving DecidableEq, Repr

@[ext]
structure TileRect where
  x : Nat
  y : Nat
  w : Nat
  h : Nat
  deriving DecidableEq, Repr

def tilesX (width : Nat) : Nat := (width + RD_TILE - 1) / RD_TILE
def tilesY (height : Nat) : Nat := (height + RD_TILE - 1) / RD_TILE
def tileTotal (width height : Nat) : Nat := tilesX width * tilesY height

-- tx, ty, tw and th of tile k.
def tileRect (width height k : Nat) : TileRect :=
  let tx := k % tilesX width * RD_TILE
  let ty := k / tilesX width * RD_TILE
  ⟨tx, ty, min RD_TILE (width - tx), min RD_TILE (height - ty)⟩

-- memcmp(a + i, b + j, n) == 0
def memEq (a : Bytes) (i : Nat) (b : Bytes) (j n : Nat) : Bool :=
  (List.range n).all fun t => byteAt a (i + t) = byteAt b (j + t)

-- memcpy(dst + i, src + j, n)
def memCpy (dst : Bytes) (i : Nat) (src : Bytes) (j n : Nat) : Bytes :=
  dst.take i ++ (List.range n).map (fun t => byteAt src (j + t)) ++ dst.drop (i + n)

def Frame.rect (f : Frame) (k : Nat) : TileRect := tileRect f.width f.height k

-- Offsets of tile k's first byte in the frame and in the shadow.
def Frame.srcAt (f : Frame) (k : Nat) : Nat := (f.rect k).y * f.stride + (f.rect k).x * 4
def Frame.shadowAt (f : Frame) (k : Nat) : Nat := (f.rect k).y * (f.width * 4) + (f.rect k).x * 4

def tileDirty (f : Frame) (shadow : Bytes) (full : Bool) (k : Nat) : Bool :=
  full || (List.range (f.rect k).h).any fun y =>
    !memEq f.pixels (f.srcAt k + y * f.stride) shadow (f.shadowAt k + y * (f.width * 4)) ((f.rect k).w * 4)

def copyTile (f : Frame) (shadow : Bytes) (k : Nat) : Bytes :=
  (List.range (f.rect k).h).foldl (fun sh y =>
    memCpy sh (f.shadowAt k + y * (f.width * 4)) f.pixels (f.srcAt k + y * f.stride) ((f.rect k).w * 4)) shadow

-- The record of tile k at quality q, its encoding and length patched in.
def tileRecord (f : Frame) (k q : Nat) : Bytes :=
  let r := f.rect k
  let buf := putU16 r.x ++ putU16 r.y ++ putU16 r.w ++ putU16 r.h
  let encAt := buf.length
  let buf := buf ++ putU8 0 ++ putU32 0
  let start := buf.length
  let (enc, payload) := rdEncodeTile (f.pixels.drop (f.srcAt k)) f.stride r.w r.h q
  let buf := (buf ++ payload).set encAt (UInt8.ofNat enc)
  rdBufPatchU32 buf (encAt + 1) (buf.length - start)

theorem tileRecord_eq (f : Frame) (k q : Nat) :
    tileRecord f k q =
      let r := f.rect k
      let (enc, payload) := rdEncodeTile (f.pixels.drop (f.srcAt k)) f.stride r.w r.h q
      putU16 r.x ++ putU16 r.y ++ putU16 r.w ++ putU16 r.h ++ putU8 enc ++ putU32 payload.length ++ payload := by
  unfold tileRecord
  dsimp only
  generalize putU16 (f.rect k).x ++ putU16 (f.rect k).y ++ putU16 (f.rect k).w ++ putU16 (f.rect k).h = front
  generalize rdEncodeTile (f.pixels.drop (f.srcAt k)) f.stride (f.rect k).w (f.rect k).h q = tile
  have hset : (front ++ putU8 0 ++ putU32 0 ++ tile.2).set front.length (UInt8.ofNat tile.1) =
      front ++ putU8 tile.1 ++ putU32 0 ++ tile.2 := by
    simp [putU8, List.append_assoc]
  have hat : front.length + 1 = (front ++ putU8 tile.1).length := by simp [putU8]
  have hlen : (front ++ putU8 tile.1 ++ putU32 0 ++ tile.2).length - (front ++ putU8 0 ++ putU32 0).length =
      tile.2.length := by
    simp [putU8]
    omega
  rw [hset, hlen, hat, rdBufPatchU32, rdBufPatch_over _ (putU32 0) (le32 tile.2.length) _ rfl, putU32]

-- scratch_[wi] with the counts of stats[wi].
structure Scratch where
  buf : Bytes
  tiles : Nat
  refined : Nat
  deriving DecidableEq, Repr

structure Encoding where
  refines : Nat
  shadow : Bytes
  tileQ : Option (List UInt8)
  scratch : List Scratch
  deriving DecidableEq, Repr

-- Append tile k at quality q to worker wi's buffer.
def Encoding.send (e : Encoding) (f : Frame) (wi k q refined : Nat) : Encoding :=
  { e with
    tileQ := e.tileQ.map fun tq => tq.set k (UInt8.ofNat q)
    scratch := e.scratch.modify wi fun s => ⟨s.buf ++ tileRecord f k q, s.tiles + 1, s.refined + refined⟩ }

-- The loop body of worker wi for tile k. Different tiles touch different bytes of
-- the shadow and different entries of tile_q; the one shared access is
-- refines.fetch_add(1).
def encodeTile (f : Frame) (full : Bool) (quality : Nat) (budget : Int) (e : Encoding) (wi k : Nat) : Encoding :=
  if tileDirty f e.shadow full k then
    { e with shadow := copyTile f e.shadow k }.send f wi k quality 0
  else
    match e.tileQ with
    | none => e
    | some tq =>
        if tq.getD k 0 = 0 then e
        else
          let before := e.refines
          let e := { e with refines := before + 1 }
          if (before : Int) < budget then e.send f wi k 0 1 else e

-- tile_q with one entry per tile.
def sizedTileQ (total : Nat) (tq : List UInt8) : List UInt8 :=
  if tq.length ≠ total then List.replicate total 0 else tq

structure Encoded where
  out : Bytes
  tiles : Nat
  refined : Nat
  shadow : Bytes
  tileQ : Option (List UInt8)
  deriving DecidableEq, Repr

-- FrameEncoder::encode when the workers act in the order of the schedule; none
-- when the schedule ends before they have all left the loop.
def encode (f : Frame) (shadow : Bytes) (full : Bool) (quality : Nat) (tileQ : Option (List UInt8))
    (budget : Int) (workers : Nat) (schedule : List Nat) : Option Encoded :=
  let total := tileTotal f.width f.height
  let start : Encoding :=
    ⟨0, shadow, tileQ.map (sizedTileQ total), List.replicate workers ⟨[], 0, 0⟩⟩
  let (queue, e) := WorkQueue.runWith (encodeTile f full quality budget) 4 total schedule
    (WorkQueue.start workers, start)
  if queue.finished then
    some ⟨e.scratch.flatMap (·.buf), (e.scratch.map (·.tiles)).sum, (e.scratch.map (·.refined)).sum, e.shadow,
      e.tileQ⟩
  else none

-- The FRAME message of maybe_send_frame, its tile count patched in.
def frameMessage (frameId : Nat) (full : Bool) (tiles : Nat) (records : Bytes) : Bytes :=
  let msg := putU8 RD_S_FRAME ++ putU32 frameId ++ putU8 (if full then RD_FRAME_FULL else 0)
  let countAt := msg.length
  rdBufPatchU16 (msg ++ putU16 0 ++ records) countAt tiles

theorem frameMessage_eq (frameId : Nat) (full : Bool) (tiles : Nat) (records : Bytes) :
    frameMessage frameId full tiles records =
      putU8 RD_S_FRAME ++ putU32 frameId ++ putU8 (if full then RD_FRAME_FULL else 0) ++ putU16 tiles ++
        records := by
  unfold frameMessage rdBufPatchU16
  exact rdBufPatch_over _ (putU16 0) (le16 tiles) _ rfl

end TetherDesk.Host
