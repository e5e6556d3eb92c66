import TetherDesk.Bytes
import TetherDesk.Lib.Writer

namespace TetherDesk.Net

open TetherDesk.Lib

-- What the operating system does with the bytes of one send attempt.
inductive SockAnswer
  | accepts (n : Nat)
  | fails
  deriving DecidableEq, Repr

-- The outgoing side of mbedTLS: a record of `record` that still has `left` bytes
-- of ciphertext to send, none when left = 0. A record of n bytes is n + overhead
-- bytes on the wire.
structure TlsOut where
  maxRecord : Nat
  overhead : Nat
  record : Bytes
  left : Nat
  deriving DecidableEq, Repr

inductive TlsRc
  | wrote (n : Nat)
  | wantWrite
  | failed

-- rd_net_send: none is -1. The bytes accepted reach the peer.
def rdNetSend (buf : Bytes) : SockAnswer → Option Nat × Bytes
  | .accepts n => (some (min n buf.length), buf.take (min n buf.length))
  | .fails => (none, [])

-- The assumed mbedtls_ssl_write. The peer reads a record once all of it arrived.
def mbedtlsSslWrite (t : TlsOut) (buf : Bytes) (answer : SockAnswer) : TlsRc × TlsOut × Bytes :=
  if t.left ≠ 0 then
    match answer with
    | .fails => (.failed, t, [])
    | .accepts n =>
        if n < t.left then (.wantWrite, { t with left := t.left - n }, [])
        else (.wrote (min buf.length t.maxRecord), { t with record := [], left := 0 }, t.record)
  else
    let record := buf.take t.maxRecord
    let left := record.length + t.overhead
    match answer with
    | .fails => (.failed, { t with record := record, left := left }, [])
    | .accepts n =>
        if n < left then (.wantWrite, { t with record := record, left := left - n }, [])
        else (.wrote record.length, { t with record := [], left := 0 }, record)

def rdTlsSend (t : TlsOut) (buf : Bytes) (answer : SockAnswer) : Option Nat × TlsOut × Bytes :=
  match mbedtlsSslWrite t buf answer with
  | (.wrote n, t, got) => (if n > 0 then some n else none, t, got)
  | (.wantWrite, t, got) => (some 0, t, got)
  | (.failed, t, got) => (none, t, got)

-- One attempt on a link that is plain TCP (none) or TLS.
def sendOn (tls : Option TlsOut) (buf : Bytes) (answer : SockAnswer) :
    Option Nat × Option TlsOut × Bytes :=
  match tls with
  | none =>
      let (n, got) := rdNetSend buf answer
      (n, none, got)
  | some t =>
      let (n, t, got) := rdTlsSend t buf answer
      (n, some t, got)

def link : Writer (Option TlsOut) UInt8 SockAnswer := ⟨sendOn⟩

end TetherDesk.Net
