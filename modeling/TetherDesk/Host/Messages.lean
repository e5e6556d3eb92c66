import TetherDesk.Host.Upload

namespace TetherDesk.Host

open TetherDesk.Net TetherDesk.Secure

variable {σ : Type} (cr : Crypto) (plat : Platform σ)

section SessionMessages

variable (s : Server σ) (c : Conn) (r : Reader) (io : Io)

-- SETTINGS. The byte for the resolution is sent by newer viewers only.
def Server.settings : Server σ :=
  let (q, r) := rdGetU8 r
  let (fps, r) := rdGetU8 r
  let (disp, r) := rdGetU8 r
  if r.err then s
  else
    let res := if rdRemaining r ≠ 0 then (rdGetU8 r).1 else 255
    let s := s.modify c.uid fun c => c.applySettings s.cfg.maxFps q fps
    let s :=
      if res ≠ 255 ∧ !c.viewOnly ∧ plat.capturer.supportsHighResolution s.os ∧
          decide (res = 0) ≠ plat.capturer.highResolution s.os then
        let s := { s with os := plat.capturer.setHighResolution s.os (res = 0) }
        let s := s.switchDisplay cr plat (plat.capturer.currentDisplay s.os) (io.mask 0)
        s.notice cr (ascii (if res = 0 then "Sharp (full resolution) screen" else "Fast (half resolution) screen"))
          none (io.mask 1)
      else s
    if (disp : Int) ≠ plat.capturer.currentDisplay s.os then
      if !c.viewOnly then s.switchDisplay cr plat disp (io.mask 2)
      else s.sendTo cr c.uid (noticeMsg (ascii "View-only viewers can't switch displays")) (io.mask 3 c.uid)
    else s

def Server.pointer : Server σ :=
  let (x, r) := rdGetU16 r
  let (y, r) := rdGetU16 r
  let (buttons, r) := rdGetU8 r
  let (wx, r) := rdGetI16 r
  let (wy, r) := rdGetI16 r
  if r.err ∨ c.viewOnly ∨ c.shadowW = 0 then s
  else
    let os := plat.input.pointer s.os (min (x : Int) (c.shadowW - 1)) (min (y : Int) (c.shadowH - 1))
      (UInt8.ofNat buttons) wx wy
    { s with os := os }.modify c.uid fun c => { c with sentInput := true }

def Server.key : Server σ :=
  let (hid, r) := rdGetU16 r
  let (down, r) := rdGetU8 r
  if r.err ∨ c.viewOnly ∨ hid ≥ RD_HID_MAX then s
  else
    { s with os := plat.input.key s.os hid (down ≠ 0) }.modify c.uid fun c => { c with sentInput := true }

def clipboardMsg (text : Bytes) : Bytes := putU8 RD_S_CLIPBOARD ++ putBlob text

def Server.clipboard : Server σ :=
  match rdGetBlob r with
  | (none, _) => s
  | (some text, _) =>
      if c.viewOnly ∨ text.length > RD_MAX_CLIPBOARD then s
      else if text = s.lastClip then s
      else
        let (clipCount, os) := plat.clipboard.changeCount (plat.clipboard.setText s.os text)
        { s with os := os, lastClip := text, clipCount := clipCount }.broadcast cr (clipboardMsg text)
          (some c.uid) true
          (io.mask 0)

def chatMsg (sender text : Bytes) : Bytes := putU8 RD_S_CHAT ++ putStr sender ++ putStr text

def Server.chat : Server σ :=
  let (text, r) := rdGetStr r 4096
  let t := cleanText (cStr text) 1000
  if r.err ∨ t = [] then s
  else
    (s.print (ascii "  [chat] " ++ c.name ++ ascii ": " ++ t)).broadcast cr (chatMsg c.name t) (some c.uid) false
      (io.mask 0)

def Server.fileBegin : Server σ :=
  let (id, r) := rdGetU32 r
  let (size, r) := rdGetU64 r
  let (name, r) := rdGetStr r 1024
  if !r.err then s.beginUpload cr plat c id size (cStr name) (io.mask 0 c.uid) else s

def Server.handleSessionMessage (type : Nat) : Server σ :=
  if type = RD_C_FRAME_ACK then s.modify c.uid fun c => c.frameAck (rdGetU32 r).1
  else if type = RD_C_REFRESH then s.modify c.uid fun c => { c with needFull := true }
  else if type = RD_C_SETTINGS then s.settings cr plat c r io
  else if type = RD_C_POINTER then s.pointer plat c r
  else if type = RD_C_KEY then s.key plat c r
  else if type = RD_C_CLIPBOARD then s.clipboard cr plat c r io
  else if type = RD_C_CHAT then s.chat cr c r io
  else if type = RD_C_PING then
    s.sendTo cr c.uid (putU8 RD_S_PONG ++ putU64 (rdGetU64 r).1) (io.mask 0 c.uid)
  else if type = RD_C_FILE_BEGIN then s.fileBegin cr plat c r io
  else if type = RD_C_FILE_CHUNK then s.uploadChunk cr plat c r (io.mask 0 c.uid)
  else if type = RD_C_FILE_END then s.uploadEnd cr plat c r (io.mask 0 c.uid)
  else s

end SessionMessages

section Login

-- The shared secrets of the key agreement, none when it fails: ephemeral-ephemeral
-- and ephemeral(viewer)-static(host).
def keyAgreement (cfg : ServerConfig) (ce : Bytes) (io : Io) : Option (Bytes × Bytes) :=
  if !io.randomOk then none
  else
    match rdX25519 cr (io.random 1) ce, rdX25519 cr cfg.staticPriv ce with
    | some dh1, some dh2 => some (dh1, dh2)
    | _, _ => none

def helloMsg (cfg : ServerConfig) (osName nonce se : Bytes) : Bytes :=
  putU8 RD_S_HELLO ++ putU16 RD_PROTO_VERSION ++ putU8 RD_AUTH_X25519_CHACHA ++ nonce ++ putStr cfg.hostName ++
    putStr osName ++ cfg.staticPub.take 32 ++ se

-- HELLO behind its type byte.
structure ClientHello where
  version : Nat
  name : Bytes
  ce : Option Bytes

def readClientHello (r : Reader) : ClientHello :=
  let (version, r) := rdGetU16 r
  let (name, r) := rdGetStr r 256
  let name := cleanText (cStr name) 32
  ⟨version, if name = [] then ascii "Viewer" else name, (rdGetBytes r 32).1⟩

def Conn.incompatible (c : Conn) (mask : Bytes) : Conn :=
  { c.sendMsg cr (authResultMsg false false
      (ascii "Incompatible viewer version - please update TetherDesk")) mask with closeAfterFlush := true }

-- HELLO in state Hello; only the connection itself is touched.
def Conn.hello (cfg : ServerConfig) (c : Conn) (r : Reader) (io : Io) : Conn :=
  let h := readClientHello r
  let c := { c with name := h.name }
  match h.ce with
  | some ce =>
      if h.version ≠ RD_PROTO_VERSION then c.incompatible cr (io.mask 0 c.uid)
      else
        let c := { c with nonce := io.random 0 }
        match keyAgreement cr cfg ce io with
        | none => c.close
        | some (dh1, dh2) =>
            let se := rdX25519Base cr (io.random 1)
            let c := { c with transcript := rdHsTranscript cr ce cfg.staticPub se c.nonce }
            let c := c.sendMsg cr (helloMsg cfg plat.osName c.nonce se) (io.mask 0 c.uid)
            { c with ch := rdHsKeys cr dh1 dh2 c.transcript true, state := .Auth }
  | none => c.incompatible cr (io.mask 0 c.uid)

-- The lambda fail of state Auth.
def Conn.refuse (c : Conn) (why mask : Bytes) : Conn :=
  { c.sendMsg cr (authResultMsg false false why) mask with state := .Closing, closeAfterFlush := true }

def Server.activeCount (s : Server σ) : Nat := s.conns.countP Conn.live

def Io.authTimes (io : Io) : AuthTimes := ⟨io.now 0, io.now 1, io.now 2, io.now 3⟩

-- The comparison of state Auth with the proof in the message.
def authMacOk (cfg : ServerConfig) (c : Conn) (r : Reader) : Bool :=
  match (rdGetBytes r RD_MAC_LEN).1 with
  | none => false
  | some mac => rdCtEqual mac (rdHsAuthMac cr cfg.password c.transcript)

def Server.authVerdict (s : Server σ) (c : Conn) (r : Reader) (io : Io) : AuthVerdict × Guard :=
  authAttempt s.guard c.addr (authMacOk cr s.cfg c r) (s.activeCount ≥ s.cfg.maxViewers) io.authTimes

def Conn.authenticated (c : Conn) (cfg : ServerConfig) (id now : Nat) (mask : Bytes) : Conn :=
  { c with
    state := .Active
    id := id
    viewOnly := cfg.viewOnly
    fps := cfg.maxFps
    effFps := cfg.maxFps
    needFull := true
    adaptWindowUs := now
    everAuthed := true }.sendMsg cr
    (authResultMsg true cfg.viewOnly (ascii (if cfg.viewOnly then "Connected (view only)" else "Connected"))) mask

def Server.onAuthenticated (s : Server σ) (c : Conn) (io : Io) : Server σ :=
  let s := { s with nextId := (s.nextId + 1) % 2 ^ 32, logins := s.logins + 1 }.modify c.uid fun c =>
    c.authenticated cr s.cfg s.nextId (io.now 4) (io.mask 0 c.uid)
  let s := s.sendDisplayInfo cr plat c.uid (io.mask 1 c.uid)
  let s := s.log (c.name ++ ascii " connected from " ++ c.addr ++
    (if s.cfg.viewOnly then ascii " (view only)" else []))
  let s := s.broadcastViewers cr (io.mask 2)
  s.notice cr (c.name ++ ascii " connected") (some c.uid) (io.mask 3)

def Server.handleAuth (s : Server σ) (c : Conn) (r : Reader) (io : Io) : Server σ :=
  let (verdict, guard) := s.authVerdict cr c r io
  let s := { s with guard := guard }
  let refuse (s : Server σ) (why : Bytes) := s.modify c.uid fun c => c.refuse cr why (io.mask 0 c.uid)
  match verdict with
  | .locked secondsLeft =>
      let wait := ascii (toString secondsLeft)
      refuse (s.log (ascii "rejected " ++ c.addr ++ ascii ": locked out for " ++ wait ++ ascii "s"))
        (ascii "Too many failed attempts - try again in " ++ wait ++ ascii " s")
  | .wrong =>
      refuse (s.log (ascii "wrong password from " ++ c.addr ++ ascii " (\"" ++ c.name ++ ascii "\")"))
        (ascii "Wrong password")
  | .full => refuse s (ascii "Host is full (" ++ decimal s.cfg.maxViewers ++ ascii " viewers)")
  | .ok => s.onAuthenticated cr plat c io

-- The message behind the channel, none when rd_channel_open rejects it, and the
-- connection after that; without a channel it is taken as it is.
def Conn.openMessage (c : Conn) (m : Bytes) : Option Bytes × Conn :=
  if !c.ch.active then (some m, c)
  else
    let (pl, plain, ch) := rdChannelOpen cr c.ch m (List.replicate m.length 0)
    if pl < 0 then (none, c) else (some (plain.take pl.toNat), { c with ch := ch })

def Server.handleMessage (s : Server σ) (c : Conn) (m : Bytes) (io : Io) : Server σ :=
  match c.openMessage cr m with
  | (none, c) => s.closeConn c (ascii "decryption failed (tampered or corrupted data)")
  | (some p, c) =>
      let s := s.modify c.uid fun _ => c
      let (type, r) := rdGetU8 (rdReaderInit p)
      if c.state = .Hello then
        if type ≠ RD_C_HELLO then s.closeConn c (ascii "expected hello")
        else s.modify c.uid fun c => c.hello cr plat s.cfg r io
      else if c.state = .Auth then
        if type ≠ RD_C_AUTH then s.closeConn c (ascii "expected auth") else s.handleAuth cr plat c r io
      else if c.state = .Active then s.handleSessionMessage cr plat c r io type
      else s

end Login

end TetherDesk.Host
