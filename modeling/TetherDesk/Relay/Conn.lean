import TetherDesk.Net.Link
import TetherDesk.Net.Ws
import TetherDesk.Word
import Mathlib.Logic.Function.Basic

namespace TetherDesk.Relay

open TetherDesk.Net

def kSecond : Nat := 1000000
def kMaxMessage : Nat := 64 <<< 20
def kMaxConns : Nat := 4000
def kMaxConnsPerIp : Nat := 60

inductive Kind
  | Http
  | HostCtl
  | HostData
  | Viewer
  deriving DecidableEq, Repr

-- A pointer to a connection is its uid, which is not in the source.
structure Conn where
  uid : Nat
  ip : Bytes
  kind : Kind
  inn : Bytes
  out : Bytes
  outOff : Nat
  ws : WsReader
  createdUs : Nat
  lastRxUs : Nat
  lastPingUs : Nat
  closeAfterFlush : Bool
  dead : Bool
  id : Bytes
  ticket : Bytes
  peer : Option Nat
  pending : List Bytes
  pendingBytes : Nat
  deriving DecidableEq, Repr

-- A default-constructed Conn.
def Conn.fresh (uid : Nat) : Conn :=
  { uid := uid, ip := [], kind := .Http, inn := [], out := [], outOff := 0, ws := rdWsReaderInit kMaxMessage true
    createdUs := 0, lastRxUs := 0, lastPingUs := 0, closeAfterFlush := false, dead := false, id := [], ticket := []
    peer := none, pending := [], pendingBytes := 0 }

def Conn.pendingOut (c : Conn) : Nat := c.out.length - c.outOff

structure HostEntry where
  key : Bytes
  ctl : Option Nat
  deriving DecidableEq, Repr

-- A data connection that redeemed a ticket: the ticket, id and key it presented, and
-- the key that was registered for that id.
structure Pairing where
  host : Nat
  viewer : Nat
  ticket : Bytes
  id : Bytes
  key : Bytes
  registered : Bytes
  deriving DecidableEq, Repr

-- What has happened so far; none of it is in the source. received are the bytes of
-- a connection behind its upgrade request, heard the messages rd_ws_next made of
-- them, waited those kept for a host that is not there yet, and sent the frames
-- queued on a connection, each with the connection whose message it carries.
structure History where
  received : Nat → Bytes
  heard : Nat → List WsMsg
  waited : Nat → List WsMsg
  sent : Nat → List (Option Nat × WsMsg)
  issued : List (Bytes × Nat × Bytes)
  pairs : List Pairing

-- thrown is set when an exception ends the process.
structure Globals where
  conns : List Conn
  hosts : Bytes → Option HostEntry
  tickets : Bytes → Option Nat
  webRoot : Bytes
  lines : List Bytes
  nextUid : Nat
  thrown : Bool
  past : History

def Globals.started (webRoot : Bytes) : Globals :=
  ⟨[], fun _ => none, fun _ => none, webRoot, [], 0, false,
    ⟨fun _ => [], fun _ => [], fun _ => [], fun _ => [], [], []⟩⟩

section

variable (s : Globals)

def Globals.find (uid : Nat) : Option Conn := s.conns.find? (·.uid = uid)

def Globals.modify (uid : Nat) (f : Conn → Conn) : Globals :=
  { s with conns := s.conns.map fun c => if c.uid = uid then f c else c }

def Globals.log (line : Bytes) : Globals := { s with lines := s.lines ++ [line] }

def History.queue (h : History) (uid : Nat) (origin : Option Nat) (m : WsMsg) : History :=
  { h with sent := Function.update h.sent uid (h.sent uid ++ [(origin, m)]) }

def Globals.wsSend (origin : Option Nat) (uid opcode : Nat) (p : Bytes) : Globals :=
  match s.find uid with
  | none => s
  | some c =>
      if c.dead then s
      else
        { s.modify uid fun c => { c with out := c.out ++ rdWsWriteFrame opcode p none } with
          past := s.past.queue uid origin ⟨opcode, p⟩ }

def Globals.wsClose (uid code : Nat) (reason : String) : Globals :=
  (s.wsSend none uid RD_WS_CLOSE (be16 code ++ (ascii reason).take 126)).modify uid fun c =>
    { c with closeAfterFlush := true }

-- c.peer = nullptr on both sides of a pair.
def Globals.unpair (uid peer : Nat) : Globals :=
  (s.modify peer fun c => { c with peer := none }).modify uid fun c => { c with peer := none }

def Globals.dropTicket (ticket : Bytes) : Globals := { s with tickets := Function.update s.tickets ticket none }

def Globals.dropControl (c : Conn) : Globals :=
  match s.hosts c.id with
  | none => s
  | some h =>
      if h.ctl = some c.uid then
        { s with hosts := Function.update s.hosts c.id (some { h with ctl := none }) }.log
          (ascii "host " ++ c.id ++ ascii " offline")
      else s

def Globals.killConn (uid : Nat) : Globals :=
  match s.find uid with
  | none => s
  | some c =>
      if c.dead then s
      else
        let s := s.modify uid fun c => { c with dead := true }
        let s :=
          match c.peer with
          | none => s
          | some p => (s.unpair uid p).wsClose p 1001 "peer disconnected"
        let s := if c.kind = .Viewer ∧ c.ticket ≠ [] then s.dropTicket c.ticket else s
        if c.kind = .HostCtl then s.dropControl c else s

-- A message of a viewer whose host has not come yet.
def Globals.holdBack (c : Conn) (m : WsMsg) : Globals :=
  if c.pendingBytes + m.data.length > 4 <<< 20 then s.killConn c.uid
  else
    { s.modify c.uid fun c =>
        { c with pending := c.pending ++ [m.data], pendingBytes := c.pendingBytes + m.data.length } with
      past := { s.past with waited := Function.update s.past.waited c.uid (s.past.waited c.uid ++ [m]) } }

def Globals.hear (uid : Nat) (m : WsMsg) : Globals :=
  { s with past := { s.past with heard := Function.update s.past.heard uid (s.past.heard uid ++ [m]) } }

def Globals.handleWsMessage (uid : Nat) (m : WsMsg) : Globals :=
  let s := s.hear uid m
  match s.find uid with
  | none => s
  | some c =>
      if m.opcode = RD_WS_PING then s.wsSend none uid RD_WS_PONG m.data
      else if m.opcode = RD_WS_PONG then s
      else if m.opcode = RD_WS_CLOSE then
        let s := (s.wsSend none uid RD_WS_CLOSE (m.data.take 2)).modify uid fun c =>
          { c with closeAfterFlush := true }
        match c.peer with
        | none => s
        | some p => (s.wsClose p 1000 "peer closed").unpair uid p
      else if c.kind = .HostCtl then s
      else
        match c.peer with
        | some p => s.wsSend (some uid) p m.opcode m.data
        | none => if c.kind = .Viewer ∧ c.ticket ≠ [] then s.holdBack c m else s

-- The loops over rd_ws_next; the one in read_conn stops once a close is queued.
-- Whether the last call returned -1, and the state after it.
def Globals.wsLoop (stopsAtClose : Bool) : Nat → Globals → Nat → Bool × Globals
  | 0, s, _ => (false, s)
  | fuel + 1, s, uid =>
      match s.find uid with
      | none => (false, s)
      | some c =>
          if c.dead ∨ (stopsAtClose ∧ c.closeAfterFlush) then (false, s)
          else
            let (w, ws, inn) := rdWsNext c.ws c.inn
            let s := s.modify uid fun c => { c with ws := ws, inn := inn }
            match w with
            | .got m => wsLoop stopsAtClose fuel (s.handleWsMessage uid m) uid
            | .more => (false, s)
            | .error => (true, s)

end

end TetherDesk.Relay
