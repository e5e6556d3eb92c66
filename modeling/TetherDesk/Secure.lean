import TetherDesk.Proto
import TetherDesk.Reader

namespace TetherDesk.Secure

-- The primitives of rd_crypto.c and rd_secure.c under the handshake and the
-- channel; x25519 is the value rd_x25519 writes.
structure Crypto where
  rdSha1 : Bytes → Bytes
  rdSha256 : Bytes → Bytes
  x25519 : (scalar point : Bytes) → Bytes
  rdChacha20 : (input key nonce : Bytes) → Nat → Bytes
  aeadTag : (ct ad key nonce : Bytes) → Bytes

structure Channel where
  active : Bool
  sendKey : Bytes
  recvKey : Bytes
  sendCtr : Nat
  recvCtr : Nat
  deriving DecidableEq, Repr

def Channel.zero : Channel := ⟨false, [], [], 0, 0⟩

variable (cr : Crypto)

-- none is the return value -1: an all-zero result.
def rdX25519 (scalar point : Bytes) : Option Bytes :=
  let q := cr.x25519 scalar point
  if q.all (· = 0) then none else some q

def rdX25519Base (scalar : Bytes) : Bytes := cr.x25519 scalar (9 :: List.replicate 31 0)

def padBlock (key : Bytes) : Bytes := key ++ List.replicate (64 - key.length) 0

def rdHmacSha256 (key msg : Bytes) : Bytes :=
  let k := padBlock (if key.length > 64 then cr.rdSha256 key else key)
  let inner := cr.rdSha256 (k.map (· ^^^ 0x36) ++ msg)
  cr.rdSha256 (k.map (· ^^^ 0x5c) ++ inner)

-- Output block after output block, t the block before; i wraps at 256.
def hkdfLoop (prk info : Bytes) : Nat → Nat → Bytes → UInt8 → Bytes
  | 0, _, _, _ => []
  | fuel + 1, outLen, t, i =>
      if outLen = 0 then []
      else
        let t := rdHmacSha256 cr prk (t ++ info.take 256 ++ [i])
        let n := if outLen < 32 then outLen else 32
        t.take n ++ hkdfLoop prk info fuel (outLen - n) t (i + 1)

-- salt = none is the null pointer.
def rdHkdfSha256 (outLen : Nat) (ikm : Bytes) (salt : Option Bytes) (info : Bytes) : Bytes :=
  let prk := rdHmacSha256 cr (salt.getD (List.replicate 32 0)) ikm
  hkdfLoop cr prk info outLen outLen [] 1

def rdHsTranscript (ce ss se nonce : Bytes) : Bytes :=
  cr.rdSha256 (ascii "TetherDesk v2" ++ ce.take 32 ++ ss.take 32 ++ se.take 32 ++ nonce.take 16)

def hsOkm (dh1 dh2 th : Bytes) : Bytes :=
  rdHkdfSha256 cr 64 (dh1 ++ dh2) (some th) (ascii "tetherdesk keys")

def rdHsKeys (dh1 dh2 th : Bytes) (isHost : Bool) : Channel :=
  let okm := hsOkm cr dh1 dh2 th
  let c2s := okm.take 32
  let s2c := okm.drop 32
  { active := true
    sendKey := if isHost then s2c else c2s
    recvKey := if isHost then c2s else s2c
    sendCtr := 0
    recvCtr := 0 }

def rdHsAuthMac (password th : Bytes) : Bytes :=
  rdHmacSha256 cr password (ascii "tetherdesk-auth" ++ th.take 32)

def hexDigit (n : Nat) : UInt8 := UInt8.ofNat (if n < 10 then 48 + n else 87 + n)

def hexByte (b : UInt8) : Bytes := [hexDigit (b.toNat / 16), hexDigit (b.toNat % 16)]

-- Eight groups of two bytes with dashes between them.
def rdFingerprint (pub : Bytes) : Bytes :=
  (List.range 16).flatMap fun i =>
    (if i ≠ 0 ∧ i % 2 = 0 then ascii "-" else []) ++ hexByte (byteAt (cr.rdSha256 (pub.take 32)) i)

def rdCtEqual (a b : Bytes) : Bool := a == b

def rdAeadSeal (msg ad key nonce : Bytes) : Bytes :=
  let ct := cr.rdChacha20 msg key nonce 1
  ct ++ cr.aeadTag ct ad key nonce

-- The return value and the caller's buffer after the call.
def rdAeadOpen (out input ad key nonce : Bytes) : Int × Bytes :=
  if input.length < RD_TAG_LEN then (-1, out)
  else
    let n := input.length - RD_TAG_LEN
    let tag := cr.aeadTag (input.take n) ad key nonce
    if !rdCtEqual tag (input.drop n) then (-1, out)
    else (0, cr.rdChacha20 (input.take n) key nonce 1 ++ out.drop n)

def ctrNonce (ctr : Nat) : Bytes := List.replicate 4 0 ++ le64 ctr

-- The bytes appended to out.
def rdChannelSeal (ch : Channel) (msg : Bytes) : Bytes × Channel :=
  (rdAeadSeal cr msg [] ch.sendKey (ctrNonce ch.sendCtr),
    { ch with sendCtr := (ch.sendCtr + 1) % 2 ^ 64 })

-- The return value, the caller's buffer and the channel after the call.
def rdChannelOpen (ch : Channel) (input out : Bytes) : Int × Bytes × Channel :=
  if input.length < RD_TAG_LEN then (-1, out, ch)
  else
    let (rc, out) := rdAeadOpen cr out input [] ch.recvKey (ctrNonce ch.recvCtr)
    if rc ≠ 0 then (-1, out, ch)
    else (input.length - RD_TAG_LEN, out, { ch with recvCtr := (ch.recvCtr + 1) % 2 ^ 64 })

theorem rdChannelOpen_channel (ch : Channel) (input out : Bytes) :
    ∃ recvCtr, (rdChannelOpen cr ch input out).2.2 = { ch with recvCtr := recvCtr } := by
  unfold rdChannelOpen
  dsimp only
  split
  · exact ⟨ch.recvCtr, rfl⟩
  · split
    · exact ⟨ch.recvCtr, rfl⟩
    · exact ⟨_, rfl⟩

theorem rdFingerprint_length (pub : Bytes) : (rdFingerprint cr pub).length = 39 := by
  unfold rdFingerprint
  generalize cr.rdSha256 (pub.take 32) = hash
  rw [List.length_flatMap]
  have hgroup : ∀ i, ((if i ≠ 0 ∧ i % 2 = 0 then ascii "-" else []) ++ hexByte (byteAt hash i)).length =
      if i ≠ 0 ∧ i % 2 = 0 then 3 else 2 := by
    intro i
    split <;> rfl
  simp only [hgroup]
  rfl

end TetherDesk.Secure
