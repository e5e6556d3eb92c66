import TetherDesk.Client.App.Messages
import TetherDesk.Lib.Transition

namespace TetherDesk.Client

open TetherDesk.Secure TetherDesk.Lib.Transition

section Tick

variable (cr : Crypto)

-- One message of tick's loop, which ends when phase_ is None.
def App.deliver (a : App) (io : AppIo) (m : Bytes) : App := if a.phase = .None then a else a.handleMessage cr io m

-- HELLO goes out once the transport is open.
def App.sayHello (a : App) : App :=
  if a.phase = .Connecting ∧ a.transport.state = .Open then
    let name := if a.target.userName = [] then ascii "Viewer" else a.target.userName
    { a.send cr (putU8 RD_C_HELLO ++ putU16 RD_PROTO_VERSION ++ putStr name ++ a.ce) with phase := .Hello }
  else a

def App.noticeClosed (a : App) (now : Nat) : App :=
  if a.phase ≠ .None ∧ a.transport.state = .Closed then a.onTransportClosed now else a

def App.reconnect (a : App) (now : Nat) (priv : Bytes) (failed : Option Bytes) : App :=
  if a.phase = .None ∧ a.reconnectAt ≠ 0 ∧ now ≥ a.reconnectAt then
    { a with reconnectAt := 0 }.startConnect cr priv failed
  else a

-- The connection part of App::tick for the messages polled.
def App.tick (a : App) (now : Nat) (msgs : List (AppIo × Bytes)) (priv : Bytes) (failed : Option Bytes) : App :=
  if a.phase ≠ .None then
    ((msgs.foldl (fun a m => a.deliver cr m.1 m.2) a).sayHello cr).noticeClosed now
  else a.reconnect cr now priv failed

-- The trust button of the Verify dialog, or Enter where that presses it.
def App.trust (a : App) : App :=
  if a.dialog = .Verify then
    { a with store := a.store.trust a.target.host a.target.port a.hostFp }.sendAuth cr
  else a

-- The connect button of the Password dialog before it calls start_connect.
def App.enterPassword (a : App) (pw : Bytes) (remember : Bool) : App :=
  let a := { a with pwInput := pw, pwRemember := remember }
  let a := { a with target := { a.target with password := pw, remember := remember } }
  match a.store.find a.target.id with
  | some pc =>
      let pc := { pc with remember := remember, password := if remember then pw else [] }
      { a with store := { a.store with pcs := replaceFirst a.store.pcs pc.id pc } }
  | none => a

end Tick

-- What happens to the application, one thing at a time: the parts of tick, the
-- network, and the user.
inductive AppEvent
  | message (io : AppIo) (m : Bytes)
  | sayHello
  | closed (now : Nat)
  | reconnect (now : Nat) (priv : Bytes) (failed : Option Bytes)
  | network (state : TransportState) (error : Bytes)
  | connect (pc : SavedPc) (priv : Bytes) (failed : Option Bytes)
  | start (pc : SavedPc) (priv : Bytes) (failed : Option Bytes)
  | password (pw : Bytes) (remember : Bool) (priv : Bytes) (failed : Option Bytes)
  | trust
  | disconnect
  | form (dialog : Dialog)
  | copy (text : Bytes)
  | expireToasts (now : Nat)
  | session (msg : Bytes)
  | uploads (queue : List Upload)
  | chat (text : Bytes) (now : Nat)

def AppEvent.apply (cr : Crypto) (a : App) : AppEvent → App
  | .message io m => a.deliver cr io m
  | .sayHello => a.sayHello cr
  | .closed now => a.noticeClosed now
  | .reconnect now priv failed => a.reconnect cr now priv failed
  | .network state error => { a with transport.state := state, transport.error := error }
  | .connect pc priv failed => a.beginConnect cr pc priv failed
  | .start pc priv failed => { a with target := pc }.startConnect cr priv failed
  | .password pw remember priv failed =>
      if a.dialog = .Password ∧ pw ≠ [] then (a.enterPassword pw remember).startConnect cr priv failed else a
  | .trust => a.trust cr
  | .disconnect => a.disconnectUser cr
  -- the other dialogs are opened and closed by the user
  | .form dialog => if a.dialog ≠ .Verify ∧ dialog ≠ .Verify then { a with dialog := dialog } else a
  | .copy text => { a with clipboard := text }
  | .expireToasts now => { a with toasts := a.toasts.dropWhile fun t => sub32 now t.t0 > 7000 }
  -- pointer, keys, settings, pings, clipboard and file messages
  | .session msg => if a.phase = .Live then a.send cr msg else a
  | .uploads queue => if a.phase = .Live then { a with uploads := queue } else a
  | .chat text now =>
      if a.phase = .Live then
        (a.send cr (putU8 RD_C_CHAT ++ putStr text)).toast (ascii "You: " ++ text) .text now
      else a

def appRuns (cr : Crypto) : System App AppEvent :=
  ofFunction (fun a => ∃ web opts store, a = App.new web opts store) fun a e => e.apply cr a

theorem appRuns_next (cr : Crypto) {past : List (App × AppEvent)} {a : App} (run : Run (appRuns cr) past a)
    (e : AppEvent) :
    Run (appRuns cr) (past ++ [(a, e)]) (e.apply cr a) := .next run rfl

end TetherDesk.Client
