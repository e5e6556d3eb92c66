import TetherDesk.Host.Console
import TetherDesk.Lib.Transition

namespace TetherDesk.Host

open TetherDesk.Net TetherDesk.Secure TetherDesk.Lib.Transition

section Parts

variable {σ : Type} (cr : Crypto) (plat : Platform σ) (s : Server σ) (c : Conn)

def Conn.sendFailed (answers : List SockAnswer) : Bool :=
    !(c.tcpPending || c.tlsHandshaking) && (c.sendPending answers).1

def Server.flush (answers : List SockAnswer) : Server σ :=
  let s :=
    if c.sendFailed answers ∧ !c.dead ∧ c.state = .Active then
      s.log (c.name ++ ascii " (" ++ c.addr ++ ascii "): " ++ ascii "send failed")
    else s
  s.modify c.uid fun c => c.flush answers

-- The connect of a relay link has ended; tls is what rd_tls_new returns.
def Server.tcpReady (ok : Bool) (tls : Option TlsOut) (answers : List SockAnswer) : Server σ :=
  if !ok then s.closeConn c (ascii "relay unreachable")
  else
    let c := { c with tcpPending := false }
    let s := s.modify c.uid fun _ => c
    if s.cfg.relayPort = 443 then
      match tls with
      | none => s.closeConn c (ascii "TLS setup failed")
      | some t => s.modify c.uid fun c => { c with tls := some t, tlsHandshaking := true }
    else s.flush c answers

def Server.handshake (rc : Int) (err : Bytes) (answers : List SockAnswer) : Server σ :=
  if rc < 0 then
    let s := if c.relayCtl then s.log (ascii "relay: " ++ err) else s
    s.closeConn c (ascii "TLS handshake failed")
  else if rc > 0 then s
  else
    let c := { c with tlsHandshaking := false }
    (s.modify c.uid fun _ => c).flush c answers

-- What the receive loop of read_conn gets before it ends without an error.
def Server.received (data : Bytes) (now : Nat) : Server σ :=
  if data = [] then s else s.modify c.uid fun c => { c with inn := c.inn ++ data, lastRxUs := now }

def Server.recvFailed (data : Bytes) : Server σ :=
  (s.modify c.uid fun c => { c with inn := c.inn ++ data }).closeConn c (ascii "connection closed")

def Server.acceptNew (addr : Bytes) (now : Nat) : Server σ :=
  if s.conns.length ≥ s.cfg.maxViewers * 2 + 16 then s
  else s.push { Conn.fresh s.nextUid with addr := addr, createdUs := now, lastRxUs := now }

-- The sweep for connections that are too old or too quiet.
def Server.expire (now : Nat) (io : Io) : Server σ :=
  if c.dead then s
  else if c.state = .RelayCtl then
    if sub64 now c.lastRxUs > 70 * kSecond then s.closeConn c (ascii "relay went quiet")
    else if sub64 now c.lastPingUs > 25 * kSecond then
      s.modify c.uid fun c => { c with lastPingUs := now }.wsFrame RD_WS_PING (ascii "td") (io.mask 0 c.uid)
    else s
  else if c.state ≠ .Active ∧ sub64 now c.createdUs > 120 * kSecond then s.closeConn c (ascii "handshake timeout")
  else if c.state = .Active ∧ sub64 now c.lastRxUs > 45 * kSecond then s.closeConn c (ascii "timed out")
  else s

-- pump_frames for one viewer; f is the frame it found. maybe_send_frame reads the
-- screen's state only to announce a new size.
def Server.pump (f : Option Frame) (now : Nat) (schedule : List Nat) (io : Io) : Option (Server σ) :=
  if c.dead ∨ c.state ≠ .Active then some s
  else
    let (info, os) := s.screenInfo plat
    let resized : Bool := f.any fun f => f.width ≠ c.shadowW ∨ f.height ≠ c.shadowH
    (c.maybeSendFrame cr f now info s.pool schedule fun k => io.mask k c.uid).map fun c' =>
      { s with os := if resized then os else s.os }.modify c.uid fun _ => c'.adaptQuality now

def Server.pollClipboard (now : Nat) (io : Io) : Server σ :=
  if now < s.nextClipPollUs then s
  else
    let s := { s with nextClipPollUs := add64 now 400000 }
    let (cc, os) := plat.clipboard.changeCount s.os
    let s := { s with os := os }
    if cc = s.clipCount then s
    else
      let s := { s with clipCount := cc }
      match plat.clipboard.getText s.os with
      | (none, os) => { s with os := os }
      | (some text, os) =>
          let s := { s with os := os }
          if text = s.lastClip ∨ text.length > RD_MAX_CLIPBOARD then s
          else { s with lastClip := text }.broadcast cr (clipboardMsg text) none true (io.mask 0)

-- What happens to one closed connection when it is reaped.
def Server.dismantle (io : Io) : Server σ :=
  let os := c.uploads.foldl (fun os u => plat.files.remove (plat.files.fclose os u.2.file) u.2.path) s.os
  let os := if c.sentInput then plat.input.releaseAll os else os
  let s := { s with os := os }
  if s.relayCtl = some c.uid then
    let s := { s with relayCtl := none }
    let s := if s.relayOnline then s.log (ascii "relay connection lost - reconnecting") else s
    { s with relayOnline := false }.backOff (io.now 0)
  else s

-- The connections whose leaving is announced.
def Conn.reported : Bool := (c.state = .Active ∨ c.state = .Closing) ∧ c.name ≠ []

def leftNames (conns : List Conn) : List Bytes := (conns.filter fun c => c.dead && c.reported).map fun c => c.name

def Server.announceLeft (left : List Bytes) (io : Io) : Server σ :=
  if left = [] then s
  else
    left.zipIdx.foldl (fun s n => s.notice cr (n.1 ++ ascii " disconnected") none (io.mask (n.2 + 1)))
      (s.broadcastViewers cr (io.mask 0))

def Server.reap (io : Io) : Server σ :=
  let left := leftNames s.conns
  let s := (s.conns.filter fun c => c.dead).foldl (fun s c => s.dismantle plat c io) s
  { s with conns := s.conns.filter fun c => !c.dead }.announceLeft cr left io

end Parts

section Events

-- What the host does, one thing at a time; between two things the platform changes
-- by itself.
inductive ServerEvent (σ : Type)
  | world (os : σ)
  | consoleRead (chunk : Bytes)
  | consoleLine (io : Io)
  | tcpReady (uid : Nat) (ok : Bool) (tls : Option TlsOut) (answers : List SockAnswer)
  | handshake (uid : Nat) (rc : Int) (err : Bytes) (answers : List SockAnswer)
  | received (uid : Nat) (data : Bytes) (now : Nat)
  | recvFailed (uid : Nat) (data : Bytes)
  | http (uid : Nat)
  | relayUpgrade (uid : Nat)
  | message (uid : Nat) (io : Io)
  | staleRc (uid : Nat)
  | flush (uid : Nat) (answers : List SockAnswer)
  | accept (addr : Bytes) (now : Nat)
  | expire (uid now : Nat) (io : Io)
  | pump (uid : Nat) (f : Option Frame) (now : Nat) (schedule : List Nat) (io : Io)
  | pollClipboard (now : Nat) (io : Io)
  | reap (io : Io)
  | maintainRelay (now : Nat) (io : Io)

variable {σ : Type} (cr : Crypto) (plat : Platform σ)

def Server.onConn (s : Server σ) (uid : Nat) (f : Conn → Server σ) : Server σ :=
  match s.find uid with
  | none => s
  | some c => f c

-- The connections handle_ws_messages is called for.
def Conn.upgraded (c : Conn) : Bool := c.state ≠ .Http ∧ c.state ≠ .RelayUpgrade

-- none when the schedule of the encoder's workers ends too early, or after the
-- process has died.
def ServerEvent.apply (s : Server σ) (e : ServerEvent σ) : Option (Server σ) :=
  if s.thrown then none
  else
    match e with
    | .world os => some { s with os := os }
    | .consoleRead chunk => some { s with consoleBuf := s.consoleBuf ++ chunk }
    | .consoleLine io => some (s.consoleLine cr plat io)
    | .tcpReady uid ok tls answers =>
        some (s.onConn uid fun c => if c.tcpPending then s.tcpReady c ok tls answers else s)
    | .handshake uid rc err answers =>
        some (s.onConn uid fun c => if c.tlsHandshaking then s.handshake c rc err answers else s)
    | .received uid data now => some (s.onConn uid fun c => s.received c data now)
    | .recvFailed uid data => some (s.onConn uid fun c => s.recvFailed c data)
    | .http uid => some (s.onConn uid fun c => if c.state = .Http then s.handleHttp cr plat c else s)
    | .relayUpgrade uid =>
        some (s.onConn uid fun c => if c.state = .RelayUpgrade then s.finishRelayUpgrade c else s)
    | .message uid io => some (s.onConn uid fun c => if c.upgraded then (s.wsRound cr plat c io).1 else s)
    -- handle_ws_messages entered when its loop makes no round: rc was never assigned
    -- and happens to be negative
    | .staleRc uid =>
        some (s.onConn uid fun c =>
          if c.state = .Closing then s.closeConn c (ascii "websocket protocol error") else s)
    | .flush uid answers => some (s.onConn uid fun c => s.flush c answers)
    | .accept addr now => some (s.acceptNew addr now)
    | .expire uid now io => some (s.onConn uid fun c => s.expire c now io)
    | .pump uid f now schedule io =>
        match s.find uid with
        | none => some s
        | some c => s.pump cr plat c f now schedule io
    | .pollClipboard now io => some (s.pollClipboard cr plat now io)
    | .reap io => some (s.reap cr plat io)
    | .maintainRelay now io => some (s.maintainRelay cr now io)

-- The host once run() has started the capture.
def Server.started (cfg : ServerConfig) (pool : Nat) (os : σ) : Option (Server σ) :=
  match plat.capturer.start os cfg.display cfg.maxFps with
  | (some _, _) => none
  | (none, os) =>
      let (displays, os) := plat.capturer.displays os
      let (clipCount, os) := plat.clipboard.changeCount os
      let (lastClip, os) := plat.clipboard.getText os
      some
        { cfg := cfg, pool := pool, os := os, conns := [], nextId := 1, clipCount := clipCount
          lastClip := lastClip.getD [], displays := displays, nextClipPollUs := 0, consoleBuf := []
          guard := Guard.empty, relayCtl := none, relayNextUs := 0, relayBackoffUs := 2000000
          relayOnline := false, stopped := false, thrown := false, out := [], nextUid := 0, logins := 0 }

def serverRuns : System (Server σ) (ServerEvent σ) :=
  ⟨fun s => ∃ cfg pool os, Server.started plat cfg pool os = some s, fun s e t => e.apply cr plat s = some t⟩

end Events

end TetherDesk.Host
