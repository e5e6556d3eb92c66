import TetherDesk.Lib.Transition
import TetherDesk.Relay.Http

namespace TetherDesk.Relay

open TetherDesk.Net TetherDesk.Secure TetherDesk.Lib.Transition

section

variable (cr : Crypto) (s : Globals) (uid : Nat)

-- data is what the receive loop got, closed whether it ended with an error.
def Globals.readConn (data : Bytes) (closed : Bool) (io : Io) : Globals :=
  match s.find uid with
  | none => s
  | some c =>
      let s := s.modify uid fun c =>
        { c with inn := c.inn ++ data, lastRxUs := if data = [] then c.lastRxUs else io.now }
      if c.kind = .Http then
        if closed then s.killConn uid else s.handleHttp cr uid io
      else
        let s := { s with past := { s.past with
          received := Function.update s.past.received uid (s.past.received uid ++ data) } }
        let (bad, s) := Globals.wsLoop true ((c.inn ++ data).length + 1) s uid
        if bad ∨ closed then s.killConn uid else s

def Globals.flush (answers : List SockAnswer) : Globals :=
  match s.find uid with
  | none => s
  | some c =>
      let r := link.drain answers none (c.out.drop c.outOff)
      let c := { c with outOff := c.outOff + r.count }
      let s := s.modify uid fun _ => c
      if r.failed then s.killConn uid
      else if c.pendingOut = 0 then
        let s := s.modify uid fun c => { c with out := [], outOff := 0 }
        if c.closeAfterFlush then s.killConn uid else s
      else if c.outOff > 1 <<< 20 ∧ c.outOff > c.out.length / 2 then
        s.modify uid fun c => { c with out := rdBufConsume c.out c.outOff, outOff := 0 }
      else s

def Globals.accept (addr : Bytes) (now : Nat) : Globals :=
  if s.conns.length ≥ kMaxConns ∨ s.conns.countP (fun c => c.ip = addr) ≥ kMaxConnsPerIp then s
  else
    { s with
      conns := s.conns ++
        [{ Conn.fresh s.nextUid with ip := addr, createdUs := now, lastRxUs := now, lastPingUs := now }]
      nextUid := s.nextUid + 1 }

-- The sweep for one connection, before its flush.
def Globals.expire (c : Conn) (now : Nat) : Globals :=
  if c.kind = .Http ∧ sub64 now c.createdUs > 15 * kSecond then s.killConn c.uid
  else if c.kind = .Viewer ∧ c.peer = none ∧ c.ticket ≠ [] ∧ sub64 now c.createdUs > 20 * kSecond then
    s.wsClose c.uid 4408 "host did not answer"
  else if c.kind ≠ .Http ∧ sub64 now c.lastRxUs > 90 * kSecond then s.killConn c.uid
  else if c.kind ≠ .Http ∧ sub64 now c.lastPingUs > 20 * kSecond then
    (s.modify c.uid fun c => { c with lastPingUs := now }).wsSend none c.uid RD_WS_PING (ascii "td")
  else s

def Globals.sweep (now : Nat) (answers : List SockAnswer) : Globals :=
  match s.find uid with
  | none => s
  | some c =>
      if c.dead then s
      else
        let s := s.expire c now
        if (s.find uid).any fun c => !c.dead then s.flush uid answers else s

def Globals.reap : Globals := { s with conns := s.conns.filter fun c => !c.dead }

end

-- What the relay does, one thing at a time.
inductive Event
  | accept (addr : Bytes) (now : Nat)
  | read (uid : Nat) (data : Bytes) (closed : Bool) (io : Io)
  | flush (uid : Nat) (answers : List SockAnswer)
  | sweep (uid now : Nat) (answers : List SockAnswer)
  | reap

def Globals.live (s : Globals) (uid : Nat) : Bool := (s.find uid).any fun c => !c.dead

def Event.apply (cr : Crypto) (s : Globals) : Event → Globals
  | .accept addr now => s.accept addr now
  | .read uid data closed io => if s.live uid then s.readConn cr uid data closed io else s
  | .flush uid answers => if s.live uid then s.flush uid answers else s
  | .sweep uid now answers => s.sweep uid now answers
  | .reap => s.reap

-- After an exception there is no next step.
def relayRuns (cr : Crypto) : System Globals Event :=
  ⟨fun s => ∃ webRoot, s = Globals.started webRoot, fun s e t => s.thrown = false ∧ t = e.apply cr s⟩

end TetherDesk.Relay
