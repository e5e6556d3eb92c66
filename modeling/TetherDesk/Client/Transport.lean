import TetherDesk.Net.Link
import TetherDesk.Reader

namespace TetherDesk.Client

open TetherDesk.Net

inductive TransportState
  | Idle
  | Connecting
  | Open
  | Closed
  deriving DecidableEq, Repr

-- The sending side of NativeTransport. sockOpen is sock_ ≠ RD_INVALID_SOCKET; wire is
-- what the host has received so far.
structure NativeTransport where
  state : TransportState
  sockOpen : Bool
  tcpUp : Bool
  tls : Option TlsOut
  tlsReady : Bool
  out : Bytes
  wire : Bytes
  deriving DecidableEq, Repr

-- After a connect() that opened a socket, before it queues its upgrade request.
def NativeTransport.connecting : NativeTransport :=
  ⟨.Connecting, true, false, none, false, [], []⟩

def NativeTransport.dropTls (t : NativeTransport) : NativeTransport :=
  { t with tls := none, tlsReady := false }

def NativeTransport.fail (t : NativeTransport) : NativeTransport :=
  { t.dropTls with sockOpen := false, state := .Closed }

-- io_send: a closed socket fails.
def NativeTransport.ioWriter (t : NativeTransport) : Lib.Writer (Option TlsOut) UInt8 SockAnswer :=
  ⟨fun tls buf answer => if t.sockOpen then sendOn tls buf answer else (none, tls, [])⟩

def NativeTransport.flush (t : NativeTransport) (answers : List SockAnswer) : NativeTransport :=
  if !t.tcpUp || (t.tls.isSome && !t.tlsReady) then t
  else
    let r := t.ioWriter.drain answers t.tls t.out
    let t := { t with tls := r.writer, wire := t.wire ++ r.delivered }
    if r.failed then { t with out := [] }.fail
    else { t with out := rdBufConsume t.out r.count }

end TetherDesk.Client
