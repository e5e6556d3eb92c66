import TetherDesk.Client.Frame
import TetherDesk.Client.Store
import TetherDesk.Client.Transport
import TetherDesk.Secure
import TetherDesk.Word

namespace TetherDesk.Client

open TetherDesk.Secure

structure Options where
  name : Bytes
  openMenu : Bool
  trustNewHosts : Bool
  relay : Bytes
  webSecure : Bool
  webRelay : Bool
  webHost : Bytes
  webPort : Int32
  deriving DecidableEq, Repr

inductive AppScreen
  | Home
  | Session
  deriving DecidableEq, Repr

inductive Phase
  | None
  | Connecting
  | Hello
  | Verify
  | Auth
  | Live
  deriving DecidableEq, Repr

inductive Dialog
  | None
  | EditPc
  | Password
  | Verify
  | Connecting
  | SetPassword
  deriving DecidableEq, Repr

inductive Colour
  | text
  | dim
  | good
  | warn
  | bad
  | accentHover
  deriving DecidableEq, Repr

structure Toast where
  text : Bytes
  colour : Colour
  t0 : Nat
  deriving DecidableEq, Repr

structure Viewer where
  name : Bytes
  addr : Bytes
  viewOnly : Bool
  deriving DecidableEq, Repr

-- file is whether the stream is open.
structure Upload where
  id : Nat
  name : Bytes
  file : Bool
  size : Nat
  sent : Nat
  begun : Bool
  doneSending : Bool
  deriving DecidableEq, Repr

-- The application's view of its transport. Messages handed to it since connect()
-- are in sent, the address it was given in host, port, path and secure.
structure AppTransport where
  state : TransportState
  error : Bytes
  sent : List Bytes
  host : Bytes
  port : Int32
  path : Bytes
  secure : Bool
  deriving DecidableEq, Repr

-- What the messages of a session are for: the local clipboard ("" when it holds no
-- text), the remote screen, toasts, viewers and uploads.
structure SessionView where
  clipboard : Bytes
  lastLocalClip : Bytes
  lastRemoteClip : Bytes
  remote : Remote
  displays : List DisplayInfo
  curDisplay : Nat
  hiresSupported : Bool
  hiresOn : Bool
  toasts : List Toast
  viewers : List Viewer
  uploads : List Upload

-- web is the build kind. authSent and authCalls are not in the source: whether
-- send_auth was called since start_connect, and how often it was called at all.
structure App extends SessionView where
  web : Bool
  opts : Options
  store : Store
  screen : AppScreen
  dialog : Dialog
  phase : Phase
  userClosed : Bool
  reconnectAttempts : Nat
  reconnectAt : Nat
  error : Bytes
  dialogError : Bytes
  pwInput : Bytes
  pwRemember : Bool
  cePriv : Bytes
  ce : Bytes
  transcript : Bytes
  ch : Channel
  hostFp : Bytes
  verifyOldFp : Bytes
  hostName : Bytes
  hostOs : Bytes
  target : SavedPc
  viewOnly : Bool
  transport : AppTransport
  quality : Nat
  fps : Nat
  resolutionPref : Nat
  fullscreen : Bool
  menuOpen : Bool
  chatOpen : Bool
  barUntil : Nat
  held : List Nat
  buttons : Nat
  ptrDirty : Bool
  ptrX : Nat
  ptrY : Nat
  frames : Nat
  bytes : Nat
  tilesLast : Nat
  lastRefreshReq : Nat
  statsT0 : Nat
  lastPing : Nat
  lastClipCheck : Nat
  lastThumb : Nat
  authSent : Bool
  authCalls : Nat

-- The application as it is constructed.
def App.new (web : Bool) (opts : Options) (store : Store) : App :=
  { clipboard := [], lastLocalClip := [], lastRemoteClip := [], remote := ⟨0, 0, fun _ => 0, false⟩
    displays := [], curDisplay := 0, hiresSupported := false, hiresOn := false, toasts := [], viewers := []
    uploads := []
    web := web, opts := opts, store := store, screen := .Home, dialog := .None, phase := .None
    userClosed := false, reconnectAttempts := 0, reconnectAt := 0, error := [], dialogError := []
    pwInput := [], pwRemember := false, cePriv := List.replicate 32 0, ce := List.replicate 32 0
    transcript := List.replicate 32 0, ch := Channel.zero, hostFp := [], verifyOldFp := []
    hostName := [], hostOs := [], target := SavedPc.new, viewOnly := false
    transport := ⟨.Idle, [], [], [], 0, [], false⟩, quality := 255, fps := 30, resolutionPref := 255
    fullscreen := false, menuOpen := false, chatOpen := false, barUntil := 0, held := [], buttons := 0
    ptrDirty := false, ptrX := 0, ptrY := 0, frames := 0, bytes := 0, tilesLast := 0, lastRefreshReq := 0
    statsT0 := 0, lastPing := 0, lastClipCheck := 0, lastThumb := 0, authSent := false, authCalls := 0 }

def AppTransport.send (t : AppTransport) (data : Bytes) : AppTransport :=
  if t.state ≠ .Open then t else { t with sent := t.sent ++ [data] }

def AppTransport.close (t : AppTransport) : AppTransport :=
  if t.state ≠ .Idle then { t with state := .Closed } else t

-- failed is the error when no socket could be opened.
def AppTransport.connect (t : AppTransport) (host : Bytes) (port : Int32) (path : Bytes) (secure : Bool)
    (failed : Option Bytes) : AppTransport :=
  { t with
    state := if failed.isSome then .Closed else .Connecting
    error := failed.getD []
    sent := []
    host := host
    port := port
    path := path
    secure := secure }

def App.toast (a : App) (text : Bytes) (colour : Colour) (now : Nat) : App :=
  let toasts := a.toasts ++ [⟨text, colour, now⟩]
  { a with toasts := toasts.drop (toasts.length - 6) }

def App.setFullscreen (a : App) (on : Bool) : App := if a.web then a else { a with fullscreen := on }

-- Back to the home screen.
def App.leaveSession (a : App) : App :=
  if a.screen = .Session then { a with screen := .Home }.setFullscreen false else a

def App.failConnect (a : App) (why : Bytes) : App :=
  let a := { a with phase := .None, userClosed := true, transport := a.transport.close }
  if a.web then { a with error := why, dialog := .None }
  else { a with dialogError := why, dialog := .Connecting }

section Sending

variable (cr : Crypto)

def App.send (a : App) (msg : Bytes) : App :=
  if !a.ch.active then { a with transport := a.transport.send msg }
  else
    let (sealed, ch) := rdChannelSeal cr a.ch msg
    { a with ch := ch, transport := a.transport.send sealed }

def App.sendSimple (a : App) (type : Nat) : App := a.send cr (putU8 type)

def App.sendSettings (a : App) : App :=
  a.send cr (putU8 RD_C_SETTINGS ++ putU8 a.quality ++ putU8 a.fps ++ putU8 a.curDisplay ++
    putU8 a.resolutionPref)

def App.sendPointer (a : App) (wheelX wheelY : Nat) : App :=
  let a := { a with ptrDirty := false }
  if a.viewOnly ∨ a.phase ≠ .Live then a
  else
    a.send cr (putU8 RD_C_POINTER ++ putU16 a.ptrX ++ putU16 a.ptrY ++ putU8 a.buttons ++ putU16 wheelX ++
      putU16 wheelY)

def App.sendKey (a : App) (hid : Nat) (down : Bool) : App :=
  if a.viewOnly ∨ a.phase ≠ .Live ∨ hid ≥ 256 then a
  else
    let held := if down then hid :: a.held.filter (· ≠ hid) else a.held.filter (· ≠ hid)
    { a with held := held }.send cr (putU8 RD_C_KEY ++ putU16 hid ++ putU8 (if down then 1 else 0))

def App.releaseInput (a : App) : App :=
  let a := (List.range 256).foldl (fun a k => if a.held.contains k then a.sendKey cr k false else a) a
  if a.buttons ≠ 0 then { a with buttons := 0 }.sendPointer cr 0 0 else a

def App.sendAuth (a : App) : App :=
  let mac := rdHsAuthMac cr a.target.password a.transcript
  let a := a.send cr (putU8 RD_C_AUTH ++ mac)
  { a with
    phase := .Auth
    dialog := if a.dialog = .Verify then (if a.screen = .Session then .None else .Connecting) else a.dialog
    authSent := true
    authCalls := a.authCalls + 1 }

-- Host, port, path and secure flag of the transport's connect(). id is the relay
-- ID of the target; through the relay both computers only connect outwards.
def App.address (a : App) (id : Bytes) : Bytes × Int32 × Bytes × Bool :=
  let path := ascii "/v/" ++ id
  if id = [] then (a.target.host, a.target.port, ascii "/ws", false)
  else if a.web then
    if a.opts.webRelay then (a.opts.webHost, a.opts.webPort, path, a.opts.webSecure)
    else ((splitLastColon a.opts.relay).elim a.opts.relay Prod.fst, 443, path, true)
  else
    match splitLastColon a.opts.relay with
    | none => (a.opts.relay, 443, path, true)
    | some (host, port) => (host, atoi port, path, atoi port = 443)

-- priv is what rd_random writes, failed the error of a transport that found no
-- address to connect to.
def App.startConnect (a : App) (priv : Bytes) (failed : Option Bytes) : App :=
  let a := { a with error := [], dialogError := [] }
  if a.target.host = [] then a.failConnect (ascii "Enter the computer's ID or address")
  else
    let id := relayIdOf a.target.host
    if id = [] ∧ (a.target.port ≤ 0 ∨ a.target.port > 65535) then a.failConnect (ascii "Port must be 1-65535")
    else
      let a := { a with
        target.host := if id ≠ [] then id else a.target.host
        userClosed := false
        phase := .Connecting
        ch := Channel.zero
        cePriv := priv
        ce := rdX25519Base cr priv
        dialog := if a.screen ≠ AppScreen.Session then .Connecting else a.dialog
        authSent := false }
      let (host, port, path, secure) := a.address id
      { a with transport := a.transport.connect host port path secure failed }

def App.beginConnect (a : App) (pc : SavedPc) (priv : Bytes) (failed : Option Bytes) : App :=
  let pc := if pc.userName = [] then { pc with userName := a.opts.name } else pc
  let a := { a with target := pc }
  if pc.password = [] then
    { a with pwInput := [], pwRemember := pc.remember, dialogError := [], dialog := .Password }
  else a.startConnect cr priv failed

def App.disconnectUser (a : App) : App :=
  let a := { a with userClosed := true }.releaseInput cr
  let a := { a with
    transport := a.transport.close
    phase := .None
    reconnectAt := 0
    reconnectAttempts := 0
    screen := .Home
    dialog := .None
    menuOpen := false
    chatOpen := false
    uploads := [] }
  a.setFullscreen false

end Sending

def App.onTransportClosed (a : App) (now : Nat) : App :=
  let why := a.transport.error
  let wasLive : Bool := a.phase = .Live
  let a := { a with phase := .None, uploads := [], held := [], buttons := 0 }
  if !a.userClosed ∧ (wasLive ∨ (a.screen = .Session ∧ a.reconnectAttempts > 0)) ∧ a.reconnectAttempts < 10 then
    let attempts := a.reconnectAttempts + 1
    let a := { a with reconnectAttempts := attempts, reconnectAt := (now + min attempts 4 * 1000) % 2 ^ 32 }
    if wasLive then a.toast (ascii "Connection lost (" ++ why ++ ascii ") - reconnecting...") .warn now else a
  else
    let a := { a with reconnectAttempts := 0 }.leaveSession
    let a := { a with menuOpen := false, chatOpen := false }
    if !a.userClosed then a.failConnect (if why = [] then ascii "Disconnected" else why) else a

end TetherDesk.Client
