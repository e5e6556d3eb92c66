import TetherDesk.Host.Encoder
import TetherDesk.Net.Link
import TetherDesk.Net.Ws
import TetherDesk.Secure

namespace TetherDesk.Host

open TetherDesk.Net TetherDesk.Secure

def kSecond : Nat := 1000000
def kMaxPendingOut : Nat := 8 <<< 20
def kMaxFramesInFlight : Nat := 2

inductive State
  | Http
  | RelayUpgrade
  | RelayCtl
  | Hello
  | Auth
  | Active
  | Closing
  deriving DecidableEq, Repr

-- `file` names the open stream.
structure Upload where
  file : Nat
  size : Nat
  received : Nat
  path : Bytes
  deriving DecidableEq, Repr

-- The fields of Conn in four groups. Some are not in the source and no code reads
-- them: uid tells connection objects apart, sent are the messages given to
-- send_msg so far, wire is what the peer has received, encoded the last frame
-- encoded, and everAuthed is set once on_authenticated has run.
structure Outgoing where
  out : Bytes
  outOff : Nat
  tls : Option TlsOut
  tcpPending : Bool
  tlsHandshaking : Bool
  clientWs : Bool
  closeAfterFlush : Bool
  dead : Bool
  bytesSent : Nat
  sent : List Bytes
  wire : Bytes
  deriving DecidableEq, Repr

structure Incoming where
  inn : Bytes
  ws : WsReader
  lastRxUs : Nat
  deriving DecidableEq, Repr

structure Session where
  state : State
  id : Nat
  name : Bytes
  nonce : Bytes
  transcript : Bytes
  ch : Channel
  viewOnly : Bool
  sentInput : Bool
  uploads : List (Nat × Upload)
  everAuthed : Bool
  deriving DecidableEq, Repr

structure Screen where
  qualitySetting : Nat
  quality : Nat
  effFps : Nat
  tileQ : List UInt8
  lossyTiles : Nat
  lastChangeUs : Nat
  fps : Nat
  frameId : Nat
  acked : Nat
  lastSeq : Nat
  needFull : Bool
  lastFrameUs : Nat
  shadow : Bytes
  shadowW : Nat
  shadowH : Nat
  stalls : Nat
  sends : Nat
  cleanWindows : Nat
  adaptWindowUs : Nat
  encoded : Option Frame
  deriving DecidableEq, Repr

structure Conn extends Outgoing, Incoming, Session, Screen where
  uid : Nat
  addr : Bytes
  createdUs : Nat
  lastPingUs : Nat
  relayCtl : Bool
  wsAccept : Bytes
  deriving DecidableEq, Repr

-- A default-constructed Conn.
def Conn.fresh (uid : Nat) : Conn :=
  { out := [], outOff := 0, tls := none, tcpPending := false, tlsHandshaking := false, clientWs := false
    closeAfterFlush := false, dead := false, bytesSent := 0, sent := [], wire := []
    inn := [], ws := rdWsReaderInit 0 true, lastRxUs := 0
    state := .Http, id := 0, name := [], nonce := List.replicate 16 0, transcript := List.replicate 32 0
    ch := Channel.zero, viewOnly := false, sentInput := false, uploads := [], everAuthed := false
    qualitySetting := 255, quality := 0, effFps := 30, tileQ := [], lossyTiles := 0, lastChangeUs := 0
    fps := 30, frameId := 0, acked := 0, lastSeq := 0, needFull := true, lastFrameUs := 0, shadow := []
    shadowW := 0, shadowH := 0, stalls := 0, sends := 0, cleanWindows := 0, adaptWindowUs := 0
    encoded := none
    uid := uid, addr := [], createdUs := 0, lastPingUs := 0, relayCtl := false, wsAccept := [] }

-- In size_t: of a queue that was cut before out_off it is more than there is memory.
def Conn.pending (c : Conn) : Nat :=
  if c.outOff ≤ c.out.length then c.out.length - c.outOff else c.out.length + 2 ^ 64 - c.outOff

theorem Conn.pending_of_le {c : Conn} (h : c.outOff ≤ c.out.length) : c.pending = c.out.length - c.outOff :=
    if_pos h

-- The loop of Server::flush: whether a send failed, and the connection after it. Of the
-- memory behind out, which a queue cut before out_off makes it send, nothing is modelled.
def Conn.sendPending (c : Conn) (answers : List SockAnswer) : Bool × Conn :=
  let r := link.drain answers c.tls (c.out.drop c.outOff)
  (r.failed,
    { c with
      tls := r.writer
      outOff := c.outOff + r.count
      bytesSent := c.bytesSent + r.count
      wire := c.wire ++ r.delivered })

-- What Server::flush does with the queue after the loop.
def Conn.settle (c : Conn) : Conn :=
  if c.pending = 0 then
    { c with out := [], outOff := 0, dead := c.dead || c.closeAfterFlush }
  else if c.outOff > 1 <<< 20 ∧ c.outOff > c.out.length / 2 then
    { c with out := rdBufConsume c.out c.outOff, outOff := 0 }
  else c

-- Server::flush, with the close_conn of a failed send.
def Conn.flush (c : Conn) (answers : List SockAnswer) : Conn :=
  if c.tcpPending || c.tlsHandshaking then c
  else
    let (failed, c) := c.sendPending answers
    if failed then { c with dead := true } else c.settle

end TetherDesk.Host
