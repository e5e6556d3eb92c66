import TetherDesk.Host.Conn
import TetherDesk.Host.Guard

namespace TetherDesk.Host

open TetherDesk.Net TetherDesk.Secure

-- mask is the key a client frame would take from rd_random.
def Conn.wsFrame (c : Conn) (opcode : Nat) (p mask : Bytes) : Conn :=
  if c.dead then c
  else { c with out := c.out ++ rdWsWriteFrame opcode p (if c.clientWs then some mask else none) }

variable (cr : Crypto)

def Conn.sendMsg (c : Conn) (msg mask : Bytes) : Conn :=
  if c.dead then c
  else
    let c := { c with sent := c.sent ++ [msg] }
    if !c.ch.active then c.wsFrame RD_WS_BINARY msg mask
    else
      let (sealed, ch) := rdChannelSeal cr c.ch msg
      let c := { c with ch := ch }
      if c.clientWs then c.wsFrame RD_WS_BINARY sealed mask
      else { c with out := c.out ++ (rdWsWriteHeader RD_WS_BINARY (msg.length + RD_TAG_LEN) ++ sealed) }

structure DisplayInfo where
  name : Bytes
  width : Nat
  height : Nat
  deriving DecidableEq, Repr

-- What send_display_info reads: the capturer's answers and displays_.
structure ScreenInfo where
  latest : Option Frame
  current : Int
  displays : List DisplayInfo
  hiresSupported : Bool
  hires : Bool

def ScreenInfo.size (s : ScreenInfo) : Nat × Nat :=
  match s.latest with
  | some f => (f.width, f.height)
  | none =>
      if 0 ≤ s.current ∧ s.current < s.displays.length then
        match s.displays[s.current.toNat]? with
        | some d => (d.width, d.height)
        | none => (0, 0)
      else (0, 0)

def displayInfoMsg (s : ScreenInfo) : Bytes :=
  putU8 RD_S_DISPLAY_INFO ++ putU16 s.size.1 ++ putU16 s.size.2 ++ putU8 (s.current % 2 ^ 8).toNat ++
    putU8 (min s.displays.length 255) ++
    (s.displays.take 255).flatMap (fun d => putStr d.name ++ putU16 d.width ++ putU16 d.height) ++
    putU8 ((if s.hiresSupported then 1 else 0) ||| (if s.hires then 2 else 0))

def Conn.sendDisplayInfo (c : Conn) (s : ScreenInfo) (mask : Bytes) : Conn :=
  c.sendMsg cr (displayInfoMsg s) mask

-- The first branch of maybe_send_frame.
def Conn.fitShadow (c : Conn) (f : Frame) (s : ScreenInfo) (mask : Bytes) : Conn :=
  if f.width ≠ c.shadowW ∨ f.height ≠ c.shadowH then
    { c with
      shadow := List.replicate (f.width * f.height * 4) 0
      shadowW := f.width
      shadowH := f.height
      tileQ := []
      lossyTiles := 0
      needFull := true }.sendDisplayInfo cr s mask
  else c

-- The end of maybe_send_frame: encode, and send what was encoded.
def Conn.encodeFrame (c : Conn) (f : Frame) (now : Nat) (changed : Bool) (budget : Int)
    (threads : Nat) (schedule : List Nat) (mask : Bytes) : Option Conn :=
  (encode f c.shadow c.needFull c.quality (some c.tileQ) budget (threads + 1) schedule).map fun st =>
    let tileQ := st.tileQ.getD []
    let full := c.needFull
    let c := { c with
      shadow := st.shadow
      tileQ := tileQ
      encoded := some f
      lastSeq := f.seq
      needFull := false
      lossyTiles := tileQ.countP (· ≠ 0) }
    if st.tiles = 0 then c
    else
      let frameId := (c.frameId + 1) % 2 ^ 32
      let c := { c with
        frameId := frameId
        lastFrameUs := now
        sends := if changed then c.sends + 1 else c.sends }
      c.sendMsg cr (frameMessage frameId full st.tiles st.out) mask

-- maybe_send_frame past its first branch; none when the schedule ends before the
-- workers do.
def Conn.offerFrame (c : Conn) (f : Frame) (now threads : Nat) (schedule : List Nat)
    (mask : Bytes) : Option Conn :=
  let changed : Bool := f.seq ≠ c.lastSeq
  let c := if changed then { c with lastChangeUs := now } else c
  let refine : Bool := c.qualitySetting = 255 ∧ c.lossyTiles > 0
  let settled : Bool := sub64 now c.lastChangeUs > 250000
  if !changed ∧ !c.needFull ∧ !(refine && settled) then some c
  else if sub64 now c.lastFrameUs < kSecond / max 1 (min c.fps c.effFps) then some c
  else if sub32 c.frameId c.acked ≥ kMaxFramesInFlight ∨ c.pending > kMaxPendingOut then
    some (if c.pending > 0 ∧ changed then { c with stalls := c.stalls + 1 } else c)
  else
    c.encodeFrame cr f now changed (if !refine then 0 else if settled then 400 else 12) threads schedule mask

-- masks are the keys of the two messages it may send.
def Conn.maybeSendFrame (c : Conn) (f : Option Frame) (now : Nat) (s : ScreenInfo) (threads : Nat)
    (schedule : List Nat) (masks : Nat → Bytes) : Option Conn :=
  match f with
  | none => some c
  | some f => (c.fitShadow cr f s (masks 0)).offerFrame cr f now threads schedule (masks 1)

def Conn.adaptQuality (c : Conn) (now : Nat) : Conn :=
  if sub64 now c.adaptWindowUs < kSecond then c
  else
    let c :=
      if c.stalls > 2 ∧ c.stalls * 2 > c.sends then
        let c := { c with cleanWindows := 0 }
        if c.effFps > 10 then { c with effFps := max 10 (c.effFps / 2) }
        else if c.qualitySetting = 255 ∧ c.quality < 2 then { c with quality := c.quality + 1 }
        else c
      else if c.stalls = 0 then
        if c.cleanWindows + 1 ≥ 2 then
          let c := { c with cleanWindows := 0 }
          if c.qualitySetting = 255 ∧ c.quality > 0 then { c with quality := c.quality - 1 }
          else if c.effFps < c.fps then { c with effFps := min c.fps (c.effFps * 2) }
          else c
        else { c with cleanWindows := c.cleanWindows + 1 }
      else { c with cleanWindows := 0 }
    { c with stalls := 0, sends := 0, adaptWindowUs := now }

-- FRAME_ACK.
def Conn.frameAck (c : Conn) (id : Nat) : Conn :=
  if toInt32 (sub32 id c.acked) > 0 ∧ toInt32 (sub32 id c.frameId) ≤ 0 then { c with acked := id } else c

-- The quality and rate fields of SETTINGS.
def Conn.applySettings (c : Conn) (maxFps q fps : Nat) : Conn :=
  let qualitySetting := if q ≤ 3 ∨ q = 255 then q else 255
  let fps := max 1 (min maxFps fps)
  { c with
    qualitySetting := qualitySetting
    quality := if qualitySetting ≠ 255 then qualitySetting else c.quality
    fps := fps
    effFps := fps }

-- What switch_display does to each viewer.
def Conn.displaySwitched (c : Conn) : Conn := { c with needFull := true, shadowW := 0, shadowH := 0 }

end TetherDesk.Host
