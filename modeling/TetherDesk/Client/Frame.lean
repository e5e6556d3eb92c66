import TetherDesk.Codec.Tile
import TetherDesk.Reader
import TetherDesk.Proto

namespace TetherDesk.Client

open TetherDesk.Codec

structure Rect where
  x : Nat
  y : Nat
  w : Nat
  h : Nat
  deriving DecidableEq, Repr

-- rw_, rh_ and fb_; tex is set when there is a texture to draw on.
structure Remote where
  w : Nat
  h : Nat
  fb : Pixels
  tex : Bool

-- The tile loop of App::on_frame: whether a record was bad, the rectangles drawn
-- and fb_ after it.
def frameTiles (rw rh : Nat) : Nat → Reader → Pixels → Bool × List Rect × Pixels
  | 0, _, fb => (false, [], fb)
  | n + 1, r, fb =>
      let (x, r) := rdGetU16 r
      let (y, r) := rdGetU16 r
      let (w, r) := rdGetU16 r
      let (h, r) := rdGetU16 r
      let (enc, r) := rdGetU8 r
      let (p, r) := rdGetBlob r
      if r.err ∨ x + w > rw ∨ y + h > rh then (true, [], fb)
      else
        let (rc, fb) := rdDecodeTile enc (p.getD []) w h (y * rw + x) rw fb
        if rc ≠ 0 then (true, [], fb)
        else
          let (bad, rects, fb) := frameTiles rw rh n r fb
          (bad, ⟨x, y, w, h⟩ :: rects, fb)

structure FrameOutcome where
  id : Nat
  bad : Bool
  rects : List Rect
  remote : Remote

-- App::on_frame on the rest of a FRAME message; none when it returns early.
def onFrame (remote : Remote) (r : Reader) : Option FrameOutcome :=
  let (id, r) := rdGetU32 r
  let (_, r) := rdGetU8 r
  let (n, r) := rdGetU16 r
  if r.err ∨ !remote.tex then none
  else
    let (bad, rects, fb) := frameTiles remote.w remote.h n r remote.fb
    some ⟨id, bad, rects, { remote with fb := fb }⟩

-- App::resize_remote; tex is whether SDL_CreateTexture succeeds.
def resizeRemote (remote : Remote) (w h : Nat) (tex : Bool) : Remote :=
  if w = remote.w ∧ h = remote.h ∧ remote.tex then remote else ⟨w, h, fun _ => 0xFF000000, tex⟩

structure DisplayInfo where
  name : Bytes
  width : Nat
  height : Nat
  deriving DecidableEq, Repr

-- The loop that reads displays_.
def readDisplays : Nat → Reader → List DisplayInfo × Reader
  | 0, r => ([], r)
  | n + 1, r =>
      if r.err then ([], r)
      else
        let (name, r) := rdGetStr r 256
        let (dw, r) := rdGetU16 r
        let (dh, r) := rdGetU16 r
        let (rest, r) := readDisplays n r
        (⟨cStr name, dw, dh⟩ :: rest, r)

-- The rest of a DISPLAY_INFO message; flags is none when it is missing.
structure DisplayInfoMsg where
  w : Nat
  h : Nat
  current : Nat
  displays : List DisplayInfo
  flags : Option Nat
  err : Bool

def readDisplayInfo (r : Reader) : DisplayInfoMsg :=
  let (w, r) := rdGetU16 r
  let (h, r) := rdGetU16 r
  let (current, r) := rdGetU8 r
  let (n, r) := rdGetU8 r
  let (displays, r) := readDisplays n r
  if rdRemaining r ≠ 0 then
    let (flags, r) := rdGetU8 r
    ⟨w, h, current, displays, some flags, r.err⟩
  else ⟨w, h, current, displays, none, r.err⟩

-- What a session message does to the remote screen.
def Remote.receive (remote : Remote) (m : Bytes) : Remote :=
  let (type, r) := rdGetU8 (rdReaderInit m)
  if type = RD_S_DISPLAY_INFO then
    let info := readDisplayInfo r
    if !info.err ∧ info.w > 0 ∧ info.h > 0 then resizeRemote remote info.w info.h true else remote
  else if type = RD_S_FRAME then
    match onFrame remote r with
    | none => remote
    | some f => f.remote
  else remote

end TetherDesk.Client
