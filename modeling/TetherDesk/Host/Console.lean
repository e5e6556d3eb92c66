import TetherDesk.Host.Http

namespace TetherDesk.Host

open TetherDesk.Secure

def helpText : List String :=
  ["  /list               show connected viewers",
   "  /kick <name|id>     disconnect a viewer",
   "  /viewonly <name|id> toggle a viewer's control rights",
   "  /password <new>     change the password for new connections",
   "  /quit               stop the host",
   "  anything else       sends a chat message to all viewers"]

variable {σ : Type} (cr : Crypto) (plat : Platform σ) (s : Server σ)

def Server.findViewer (name : Bytes) : Option Conn :=
  s.conns.find? fun c => c.live && (c.name == name || decimal c.id == name)

-- The command and its argument around the first space.
def splitCommand (line : Bytes) : Bytes × Bytes :=
  let cmd := line.takeWhile (· ≠ 32)
  (cmd, line.drop (cmd.length + 1))

def viewerLines (conns : List Conn) : List Line :=
  (conns.filter Conn.live).map fun (c : Conn) => .viewer c.id c.name c.addr c.quality c.viewOnly c.fps c.bytesSent

def Server.list : Server σ :=
  let rows := viewerLines s.conns
  if rows = [] then s.print (ascii "  no viewers connected") else { s with out := s.out ++ rows }

def Conn.kicked (c : Conn) (mask : Bytes) : Conn :=
  { c.sendMsg cr (noticeMsg (ascii "The host disconnected you")) mask with
    closeAfterFlush := true, state := .Closing }

def Server.kick (c : Conn) (io : Io) : Server σ :=
  (s.modify c.uid fun c => c.kicked cr (io.mask 0 c.uid)).log (ascii "kicked " ++ c.name)

def Server.toggleViewOnly (c : Conn) (io : Io) : Server σ :=
  let vo := !c.viewOnly
  let s := s.modify c.uid fun c => { c with viewOnly := vo }
  let s := if vo ∧ c.sentInput then { s with os := plat.input.releaseAll s.os } else s
  let text := if vo then "The host made you view-only" else "The host gave you control"
  let s := s.sendTo cr c.uid (authResultMsg true vo (ascii text)) (io.mask 0 c.uid)
  let s := s.broadcastViewers cr (io.mask 1)
  s.log (c.name ++ ascii " is now " ++ ascii (if vo then "view-only" else "in control"))

def Server.handleConsoleLine (raw : Bytes) (io : Io) : Server σ :=
  let line := cleanText raw 1000
  let (cmd, arg) := splitCommand line
  if line = [] then s
  else if cmd = ascii "/help" then { s with out := s.out ++ helpText.map fun text => .print (ascii text) }
  else if cmd = ascii "/list" then s.list
  else if cmd = ascii "/kick" ∨ cmd = ascii "/viewonly" then
    match s.findViewer arg with
    | none => s.print (ascii "  no viewer named '" ++ arg ++ ascii "' (see /list)")
    | some c => if cmd = ascii "/kick" then s.kick cr c io else s.toggleViewOnly cr plat c io
  else if cmd = ascii "/password" then
    if arg.length < 4 then s.print (ascii "  password must be at least 4 characters")
    else
      { s with cfg := { s.cfg with password := arg } }.print
        (ascii "  password changed (existing viewers stay connected)")
  else if cmd = ascii "/quit" then { s with stopped := true }
  else if byteAt cmd 0 = 47 then s.print (ascii "  unknown command - try /help")
  else s.broadcast cr (chatMsg (ascii "Host") line) none false (io.mask 0)

-- The console input up to the first line break is one line.
def Server.consoleLine (io : Io) : Server σ :=
  if s.consoleBuf.contains 10 then
    let line := s.consoleBuf.takeWhile (· ≠ 10)
    { s with consoleBuf := s.consoleBuf.drop (line.length + 1) }.handleConsoleLine cr plat line io
  else s

end TetherDesk.Host
