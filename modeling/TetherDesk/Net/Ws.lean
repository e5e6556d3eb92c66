import TetherDesk.Proto
import TetherDesk.Reader

namespace TetherDesk.Net

def RD_WS_CONT : Nat := 0x0
def RD_WS_TEXT : Nat := 0x1
def RD_WS_BINARY : Nat := 0x2
def RD_WS_CLOSE : Nat := 0x8
def RD_WS_PING : Nat := 0x9
def RD_WS_PONG : Nat := 0xA

def be16 (v : Nat) : Bytes := [UInt8.ofNat (v >>> 8), UInt8.ofNat v]

def be64 (v : Nat) : Bytes := (List.range 8).map fun i => UInt8.ofNat (v >>> (8 * (7 - i)))

def be (p : Bytes) : Nat := p.foldl (fun acc b => acc * 256 + b.toNat) 0

-- The second header byte on, mbit the mask bit.
def wsLength (mbit len : Nat) : Bytes :=
  if len < 126 then [UInt8.ofNat (mbit ||| len)]
  else if len ≤ 0xFFFF then UInt8.ofNat (mbit ||| 126) :: be16 len
  else UInt8.ofNat (mbit ||| 127) :: be64 len

def wsFirst (opcode : Nat) : UInt8 := UInt8.ofNat (0x80 ||| (opcode &&& 0x0F))

def rdWsWriteHeader (opcode len : Nat) : Bytes := wsFirst opcode :: wsLength 0 len

-- payload[i] ^= key[i & 3]
def maskBytes (key payload : Bytes) : Bytes :=
  payload.mapIdx fun i b => b ^^^ byteAt key (i &&& 3)

-- mask is the random key of a client frame, none without one.
def rdWsWriteFrame (opcode : Nat) (payload : Bytes) (mask : Option Bytes) : Bytes :=
  match mask with
  | none => wsFirst opcode :: (wsLength 0 payload.length ++ payload)
  | some key => wsFirst opcode :: (wsLength 0x80 payload.length ++ key ++ maskBytes key payload)

-- assemblyOpcode = none is -1.
structure WsReader where
  assembly : Bytes
  assemblyOpcode : Option Nat
  maxMessage : Nat
  expectMasked : Bool
  deriving DecidableEq, Repr

def rdWsReaderInit (maxMessage : Nat) (expectMasked : Bool) : WsReader :=
  ⟨[], none, maxMessage, expectMasked⟩

structure WsMsg where
  opcode : Nat
  data : Bytes
  deriving DecidableEq, Repr

inductive WsNext
  | got (msg : WsMsg)
  | more
  | error
  deriving DecidableEq, Repr

structure WsFrame where
  fin : Bool
  opcode : Nat
  payload : Bytes
  size : Nat

-- One frame header and its unmasked payload at the start of the input.
inductive WsParse
  | frame (f : WsFrame)
  | more
  | error

def wsPayload (r : WsReader) (inn : Bytes) (h len : Nat) : WsParse :=
  if len > r.maxMessage then .error
  else
    let fin := byteAt inn 0 &&& 0x80 ≠ 0
    let opcode := (byteAt inn 0 &&& 0x0F).toNat
    if r.expectMasked then
      if inn.length < h + 4 then .more
      else
        let key := (inn.drop h).take 4
        if inn.length < h + 4 + len then .more
        else .frame ⟨fin, opcode, maskBytes key ((inn.drop (h + 4)).take len), h + 4 + len⟩
    else if inn.length < h + len then .more
    else .frame ⟨fin, opcode, (inn.drop h).take len, h + len⟩

def wsParse (r : WsReader) (inn : Bytes) : WsParse :=
  if inn.length < 2 then .more
  else
    let len := (byteAt inn 1 &&& 0x7F).toNat
    if byteAt inn 0 &&& 0x70 ≠ 0 then .error
    else if (byteAt inn 1 &&& 0x80 ≠ 0) ≠ r.expectMasked then .error
    else if len = 126 then
      if inn.length < 4 then .more else wsPayload r inn 4 (be ((inn.drop 2).take 2))
    else if len = 127 then
      if inn.length < 10 then .more else wsPayload r inn 10 (be ((inn.drop 2).take 8))
    else wsPayload r inn 2 len

-- A data frame added to the message under assembly; none is -1.
def wsAssemble (r : WsReader) (f : WsFrame) : Option WsReader :=
  let started :=
    if f.opcode = RD_WS_CONT then
      match r.assemblyOpcode with
      | none => none
      | some _ => some r
    else if f.opcode ≠ RD_WS_BINARY ∧ f.opcode ≠ RD_WS_TEXT then none
    else
      match r.assemblyOpcode with
      | some _ => none
      | none => some { r with assemblyOpcode := some f.opcode, assembly := [] }
  match started with
  | none => none
  | some r =>
      if r.assembly.length + f.payload.length > r.maxMessage then none
      else some { r with assembly := r.assembly ++ f.payload }

-- Every frame takes at least two bytes, so inn.length rounds reach the end.
def wsNextLoop : Nat → WsReader → Bytes → WsNext × WsReader × Bytes
  | 0, r, inn => (.more, r, inn)
  | fuel + 1, r, inn =>
      match wsParse r inn with
      | .more => (.more, r, inn)
      | .error => (.error, r, inn)
      | .frame f =>
          if f.opcode ≥ 0x8 then
            if f.fin = false ∨ f.payload.length > 125 then (.error, r, inn)
            else (.got ⟨f.opcode, f.payload⟩, r, rdBufConsume inn f.size)
          else
            match wsAssemble r f with
            | none => (.error, r, inn)
            | some r =>
                let inn := rdBufConsume inn f.size
                if f.fin then
                  (.got ⟨r.assemblyOpcode.getD 0, r.assembly⟩, { r with assemblyOpcode := none }, inn)
                else wsNextLoop fuel r inn

def rdWsNext (r : WsReader) (inn : Bytes) : WsNext × WsReader × Bytes :=
  wsNextLoop (inn.length + 1) r inn

end TetherDesk.Net
