import TetherDesk.Client.App

namespace TetherDesk.Client

open TetherDesk.Secure

-- What the environment supplies while a message is handled: SDL_GetTicks, time(),
-- new_id and whether SDL_CreateTexture succeeds.
structure AppIo where
  ticks : Nat
  time : Nat
  newId : Bytes
  tex : Bool

-- The rest of a HELLO message.
structure HelloMsg where
  version : Nat
  method : Nat
  nonce : Bytes
  name : Bytes
  os : Bytes
  ss : Bytes
  se : Bytes
  err : Bool

def readHello (r : Reader) : HelloMsg :=
  let (version, r) := rdGetU16 r
  let (method, r) := rdGetU8 r
  let (nonce, r) := rdGetBytes r RD_NONCE_LEN
  let (name, r) := rdGetStr r 256
  let (os, r) := rdGetStr r 256
  let (ss, r) := rdGetBytes r 32
  let (se, r) := rdGetBytes r 32
  ⟨version, method, nonce.getD [], cStr name, cStr os, ss.getD [], se.getD [], r.err⟩

def readViewers : Nat → Reader → List Viewer
  | 0, _ => []
  | n + 1, r =>
      if r.err then []
      else
        let (name, r) := rdGetStr r 256
        let (addr, r) := rdGetStr r 128
        let (vo, r) := rdGetU8 r
        ⟨cStr name, cStr addr, vo ≠ 0⟩ :: readViewers n r

def App.onDisplayInfo (a : App) (io : AppIo) (r : Reader) : App :=
  let info := readDisplayInfo r
  let a := { a with curDisplay := info.current, displays := info.displays }
  let a :=
    match info.flags with
    | none => a
    | some flags => { a with hiresSupported := flags &&& 1 ≠ 0, hiresOn := flags &&& 2 ≠ 0 }
  if !info.err ∧ info.w > 0 ∧ info.h > 0 then { a with remote := resizeRemote a.remote info.w info.h io.tex } else a

def App.onClipboard (a : App) (io : AppIo) (r : Reader) : App :=
  match rdGetBlob r with
  | (some text, _) =>
      { a with lastRemoteClip := text, lastLocalClip := text, clipboard := cStr text }.toast
        (ascii "Clipboard updated from host (" ++ ascii (toString text.length) ++ ascii " chars)") .dim io.ticks
  | (none, _) => a

def App.onChat (a : App) (io : AppIo) (r : Reader) : App :=
  let (sender, r) := rdGetStr r 256
  let (text, r) := rdGetStr r 4096
  if !r.err then a.toast (cStr sender ++ ascii ": " ++ cStr text) .accentHover io.ticks else a

def App.onViewers (a : App) (r : Reader) : App :=
  let (n, r) := rdGetU8 r
  { a with viewers := readViewers n r }

def App.onNotice (a : App) (io : AppIo) (r : Reader) : App :=
  let (text, r) := rdGetStr r 1024
  if !r.err then a.toast (cStr text) .dim io.ticks else a

def App.onFileResult (a : App) (io : AppIo) (r : Reader) : App :=
  let (id, r) := rdGetU32 r
  let (ok, r) := rdGetU8 r
  let (text, _) := rdGetStr r 2048
  match a.uploads.find? (·.id = id) with
  | none => a
  | some u =>
      let what := ascii (if ok ≠ 0 then "Sent " else "Couldn't send ") ++ u.name ++ ascii " - " ++ cStr text
      let a := a.toast what (if ok ≠ 0 then .good else .bad) io.ticks
      { a with uploads := a.uploads.eraseP (·.id = id) }

section Handlers

variable (cr : Crypto)

-- App::on_frame; wireBytes is the size of the message.
def App.onFrame (a : App) (io : AppIo) (r : Reader) (wireBytes : Nat) : App :=
  match Client.onFrame a.remote r with
  | none => a
  | some f =>
      let a := { a with remote := f.remote }.send cr (putU8 RD_C_FRAME_ACK ++ putU32 f.id)
      let a :=
        if f.bad ∧ sub32 io.ticks a.lastRefreshReq > 1000 then
          { a with lastRefreshReq := io.ticks }.sendSimple cr RD_C_REFRESH
        else a
      { a with frames := a.frames + 1, bytes := a.bytes + wireBytes, tilesLast := (rdGetU16
        (rdGetU8 (rdGetU32 r).2).2).1 }

-- The HELLO passes the checks of the handshake; some are the two shared secrets.
def App.acceptHello (a : App) (h : HelloMsg) : Option (Bytes × Bytes) :=
  if h.err ∨ h.version ≠ RD_PROTO_VERSION ∨ h.method ≠ RD_AUTH_X25519_CHACHA ∨ a.phase ≠ .Hello then none
  else
    match rdX25519 cr a.cePriv h.se, rdX25519 cr a.cePriv h.ss with
    | some dh1, some dh2 => some (dh1, dh2)
    | _, _ => none

def App.onHello (a : App) (r : Reader) : App :=
  let h := readHello r
  match a.acceptHello cr h with
  | none =>
      a.failConnect
        (if h.err ∨ h.version ≠ RD_PROTO_VERSION ∨ h.method ≠ RD_AUTH_X25519_CHACHA ∨ a.phase ≠ .Hello then
          if h.version ≠ RD_PROTO_VERSION then ascii "The host runs an incompatible TetherDesk version"
          else ascii "Unexpected handshake from host"
        else ascii "The host sent an invalid key")
  | some (dh1, dh2) =>
      let transcript := rdHsTranscript cr a.ce h.ss h.se h.nonce
      let a := { a with
        transcript := transcript
        ch := rdHsKeys cr dh1 dh2 transcript false
        cePriv := List.replicate 32 0
        hostName := h.name
        hostOs := h.os
        hostFp := rdFingerprint cr h.ss
        verifyOldFp := a.store.knownFingerprint a.target.host a.target.port }
      if a.web ∨ a.opts.trustNewHosts ∨ a.verifyOldFp = a.hostFp then
        let a :=
          if !a.web ∧ a.verifyOldFp = [] then
            { a with store := a.store.trust a.target.host a.target.port a.hostFp }
          else a
        a.sendAuth cr
      else { a with phase := .Verify, dialog := .Verify }

-- Forget a remembered password that no longer works.
def App.forgetPassword (a : App) : App :=
  match a.store.find a.target.id with
  | some pc =>
      if pc.remember then
        { a with store := { a.store with pcs := replaceFirst a.store.pcs pc.id { pc with password := [] } } }
      else a
  | none => a

-- AUTH_RESULT with ok = 0.
def App.onAuthFailed (a : App) (text : Bytes) : App :=
  let a := { a with reconnectAttempts := 0 }.leaveSession
  if ascii "password" <:+: text ∧ !a.web then
    { a.forgetPassword.failConnect text with
      target.password := [], pwInput := [], dialogError := text, dialog := .Password }
  else a.failConnect text

-- Remember this PC (quick connects are saved automatically).
def App.rememberPc (a : App) (io : AppIo) : App :=
  let pc := a.target
  let pc := if pc.id = [] then { pc with id := io.newId, label := pc.host } else pc
  let pc := if !pc.remember then { pc with password := [] } else pc
  let pc := { pc with lastUsed := Int64.ofNat io.time }
  let a := { a with store := a.store.upsert pc, target := { a.target with id := pc.id, label := pc.label } }
  if a.target.fullscreen then a.setFullscreen true else a

def App.greet (a : App) (io : AppIo) (text : Bytes) : App :=
  if a.reconnectAttempts ≠ 0 then a.toast (ascii "Reconnected") .good io.ticks
  else a.toast (text ++ ascii " to " ++ a.hostName ++ ascii (if a.web then " - F8 for the menu" else ""))
    .good io.ticks

-- The first AUTH_RESULT with ok = 1 of a connection.
def App.onAuthenticated (a : App) (io : AppIo) (text : Bytes) : App :=
  let first : Bool := a.screen ≠ .Session
  let a := { a with phase := .Live, dialog := .None, screen := .Session }.greet io text
  let a := { a with
    reconnectAttempts := 0
    statsT0 := io.ticks
    lastPing := io.ticks
    lastClipCheck := io.ticks
    lastThumb := sub32 io.ticks 25000
    lastLocalClip := a.clipboard }.sendSettings cr
  let a := if a.opts.openMenu then { a with menuOpen := true } else a
  if first then
    let a := { a with barUntil := (io.ticks + 4000) % 2 ^ 32 }
    if a.web then a else a.rememberPc io
  else a

def App.onAuthResult (a : App) (io : AppIo) (r : Reader) : App :=
  let (ok, r) := rdGetU8 r
  let (vo, r) := rdGetU8 r
  let (text, _) := rdGetStr r 512
  let text := cStr text
  if ok = 0 then a.onAuthFailed text
  else
    let a := { a with viewOnly := vo ≠ 0 }
    if a.phase = .Auth then a.onAuthenticated cr io text
    else
      let a := a.toast text (if vo ≠ 0 then .warn else .good) io.ticks
      if vo ≠ 0 then a.releaseInput cr else a

-- The switch of handle_message on an opened message.
def App.dispatch (a : App) (io : AppIo) (m : Bytes) : App :=
  let (type, r) := rdGetU8 (rdReaderInit m)
  if type = RD_S_HELLO then a.onHello cr r
  else if type = RD_S_AUTH_RESULT then a.onAuthResult cr io r
  else if type = RD_S_DISPLAY_INFO then a.onDisplayInfo io r
  else if type = RD_S_FRAME then a.onFrame cr io r m.length
  else if type = RD_S_CLIPBOARD then a.onClipboard io r
  else if type = RD_S_CHAT then a.onChat io r
  else if type = RD_S_VIEWERS then a.onViewers r
  else if type = RD_S_NOTICE then a.onNotice io r
  else if type = RD_S_FILE_RESULT then a.onFileResult io r
  else a

-- The message behind the channel, none when rd_channel_open rejects it; without
-- a channel it is taken as it is.
def App.openMessage (a : App) (m : Bytes) : Option Bytes × App :=
  if !a.ch.active then (some m, a)
  else
    let (pl, plain, ch) := rdChannelOpen cr a.ch m (List.replicate m.length 0)
    if pl < 0 then (none, a) else (some (plain.take pl.toNat), { a with ch := ch })

def App.handleMessage (a : App) (io : AppIo) (m : Bytes) : App :=
  match a.openMessage cr m with
  | (none, a) => a.failConnect (ascii "Decryption failed - the connection may have been tampered with")
  | (some m, a) => a.dispatch cr io m

end Handlers

end TetherDesk.Client
