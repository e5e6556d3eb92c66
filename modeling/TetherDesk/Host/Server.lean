import TetherDesk.Host.Platform

namespace TetherDesk.Host

open TetherDesk.Net TetherDesk.Secure

structure ServerConfig where
  password : Bytes
  viewOnly : Bool
  allowFiles : Bool
  maxViewers : Nat
  maxFps : Nat
  display : Int
  webRoot : Bytes
  downloadsDir : Bytes
  hostName : Bytes
  staticPriv : Bytes
  staticPub : Bytes
  relayHost : Bytes
  relayPort : Nat
  relayId : Bytes
  relayKey : Bytes
  deriving DecidableEq, Repr

-- What the host writes to standard output: a line of log() behind its time stamp,
-- a printed one, and the two that show a size in MB.
inductive Line
  | log (text : Bytes)
  | print (text : Bytes)
  | sending (name file : Bytes) (size : Nat)
  | viewer (id : Nat) (name addr : Bytes) (quality : Nat) (viewOnly : Bool) (fps bytesSent : Nat)
  deriving DecidableEq, Repr

-- The parts of the server that serving viewers leaves alone; pool is the number of
-- encoder threads. thrown is set when an exception ends the process; nextUid and
-- logins, which count connections and calls of on_authenticated, are not in the
-- source.
structure Books where
  cfg : ServerConfig
  pool : Nat
  nextId : Nat
  guard : Guard
  thrown : Bool
  nextUid : Nat
  logins : Nat

-- os is the platform's state.
structure Server (σ : Type) extends Books where
  os : σ
  conns : List Conn
  clipCount : Nat
  lastClip : Bytes
  displays : List DisplayInfo
  nextClipPollUs : Nat
  consoleBuf : Bytes
  relayCtl : Option Nat
  relayNextUs : Nat
  relayBackoffUs : Nat
  relayOnline : Bool
  stopped : Bool
  out : List Line

-- What the environment answers within one step: the clock readings in their order,
-- the mask of the frame a place of the code sends to a connection of the relay,
-- what rd_random writes and whether rd_x25519_keypair succeeds, and whether a
-- socket to the relay can be made.
structure Io where
  now : Nat → Nat
  mask : Nat → Nat → Bytes
  random : Nat → Bytes
  randomOk : Bool
  socket : Bool

-- Keep names and chat printable and bounded.
def cleanText (s : Bytes) (maxLen : Nat) : Bytes := (s.filter fun ch => 32 ≤ ch ∧ ch ≠ 127).take maxLen

def decimal (n : Nat) : Bytes := ascii (toString n)

section Basics

variable {σ : Type} (cr : Crypto) (plat : Platform σ) (s : Server σ)

def Server.find (uid : Nat) : Option Conn := s.conns.find? (·.uid = uid)

def Server.modify (uid : Nat) (f : Conn → Conn) : Server σ :=
  { s with conns := s.conns.map fun c => if c.uid = uid then f c else c }

def Server.push (c : Conn) : Server σ := { s with conns := s.conns ++ [c], nextUid := s.nextUid + 1 }

def Server.log (text : Bytes) : Server σ := { s with out := s.out ++ [.log text] }
def Server.print (text : Bytes) : Server σ := { s with out := s.out ++ [.print text] }

def Conn.close (c : Conn) : Conn := { c with dead := true }

def Server.closeConn (c : Conn) (reason : Bytes) : Server σ :=
  if c.dead then s
  else
    let s := if c.state = .Active then s.log (c.name ++ ascii " (" ++ c.addr ++ ascii "): " ++ reason) else s
    s.modify c.uid Conn.close

def Server.sendTo (uid : Nat) (msg mask : Bytes) : Server σ := s.modify uid fun c => c.sendMsg cr msg mask

def Conn.live (c : Conn) : Bool := c.state = .Active ∧ !c.dead

def Server.broadcast (msg : Bytes) (skip : Option Nat) (controlOnly : Bool) (mask : Nat → Bytes) : Server σ :=
  { s with conns := s.conns.map fun c =>
      if some c.uid ≠ skip ∧ c.live ∧ !(controlOnly && c.viewOnly) then c.sendMsg cr msg (mask c.uid) else c }

def viewersMsg (conns : List Conn) : Bytes :=
  let active := conns.filter Conn.live
  putU8 RD_S_VIEWERS ++ putU8 (min active.length 255) ++
    active.flatMap fun c => putStr c.name ++ putStr c.addr ++ putU8 (if c.viewOnly then 1 else 0)

def Server.broadcastViewers (mask : Nat → Bytes) : Server σ :=
  s.broadcast cr (viewersMsg s.conns) none false mask

def noticeMsg (text : Bytes) : Bytes := putU8 RD_S_NOTICE ++ putStr text

def Server.notice (text : Bytes) (skip : Option Nat) (mask : Nat → Bytes) : Server σ :=
  s.broadcast cr (noticeMsg text) skip false mask

def authResultMsg (ok vo : Bool) (text : Bytes) : Bytes :=
  putU8 RD_S_AUTH_RESULT ++ putU8 (if ok then 1 else 0) ++ putU8 (if vo then 1 else 0) ++ putStr text

-- What send_display_info reads.
def Server.screenInfo : ScreenInfo × σ :=
  let (latest, os) := plat.capturer.latest s.os
  (⟨latest, plat.capturer.currentDisplay os, s.displays, plat.capturer.supportsHighResolution os,
    plat.capturer.highResolution os⟩, os)

def Server.sendDisplayInfo (uid : Nat) (mask : Bytes) : Server σ :=
  let (info, os) := s.screenInfo plat
  { s with os := os }.modify uid fun c => c.sendDisplayInfo cr info mask

def Server.switchDisplay (index : Int) (mask : Nat → Bytes) : Server σ :=
  if index < 0 ∨ index ≥ s.displays.length then s
  else
    let old := plat.capturer.currentDisplay s.os
    match plat.capturer.start s.os index s.cfg.maxFps with
    | (some err, os) =>
        let s := { s with os := os }.notice cr (ascii "Could not switch display: " ++ err) none mask
        { s with os := (plat.capturer.start s.os old s.cfg.maxFps).2 }
    | (none, os) =>
        let (displays, os) := plat.capturer.displays os
        let name := (displays[index.toNat]?.map DisplayInfo.name).getD []
        let s := { s with os := os, displays := displays }.log
          (ascii "switched to display " ++ ascii (toString index) ++ ascii " (" ++ name ++ ascii ")")
        let s := { s with conns := s.conns.map fun (c : Conn) => if c.live then c.displaySwitched else c }
        s.notice cr (ascii "Now showing " ++ name) none mask

end Basics

end TetherDesk.Host
