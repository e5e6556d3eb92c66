import TetherDesk.Client.App.Session

namespace TetherDesk.Client

open TetherDesk.Secure TetherDesk.Lib.Transition

-- The last part of a path; windows is the build kind.
def baseName (windows : Bool) (path : Bytes) : Bytes :=
  (path.reverse.takeWhile fun ch => ch ≠ 47 ∧ (!windows ∨ ch ≠ 92)).reverse

-- told and read are not in the source: the messages of transfers handed to send(), and
-- the bytes that fread returned for each transfer.
structure UploadSession where
  app : App
  nextUploadId : Nat
  told : List Bytes
  read : Nat → Bytes

-- What the environment supplies to pump_uploads: transport_->buffered() before and the
-- bytes that fread returns at each turn of the loop, and feof behind it.
structure PumpIo where
  buffered : Nat → Nat
  fread : Nat → Bytes
  feof : Bool

def fileBegin (u : Upload) : Bytes := putU8 RD_C_FILE_BEGIN ++ putU32 u.id ++ putU64 u.size ++ putStr u.name

def fileChunk (id : Nat) (data : Bytes) : Bytes := putU8 RD_C_FILE_CHUNK ++ putU32 id ++ data

def fileEnd (id : Nat) : Bytes := putU8 RD_C_FILE_END ++ putU32 id

-- path is a C string, size what ftell says, none when fopen fails.
def UploadSession.queueUpload (s : UploadSession) (windows : Bool) (path : Bytes) (size : Option Int) (now : Nat) :
    UploadSession :=
  let a := s.app
  if a.phase ≠ .Live then s
  else if a.viewOnly then { s with app := a.toast (ascii "View-only viewers can't send files") .warn now }
  else
    match size with
    | none => { s with app := a.toast (ascii "Can't open " ++ cStr path) .bad now }
    | some size =>
        if size < 0 then
          { s with app := a.toast (ascii "Folders can't be sent - drop files instead") .warn now }
        else
          let u : Upload := ⟨s.nextUploadId, baseName windows (cStr path), true, size.toNat % 2 ^ 64, 0,
            false, false⟩
          { s with
            nextUploadId := (s.nextUploadId + 1) % 2 ^ 32
            app := { a with uploads := a.uploads ++ [u] }.toast
              (ascii "Sending " ++ u.name ++ ascii " to the host...") .dim now }

section Pump

variable (cr : Crypto)

def UploadSession.tell (s : UploadSession) (msg : Bytes) : UploadSession :=
  { s with app := s.app.send cr msg, told := s.told ++ [msg] }

-- The loop of pump_uploads. Every turn that goes on takes at least one byte, so as
-- many turns as there are bytes left are enough.
def UploadSession.pumpChunks (io : PumpIo) : Nat → Nat → UploadSession → Upload → UploadSession × Upload
  | 0, _, s, u => (s, u)
  | fuel + 1, k, s, u =>
      if u.sent < u.size ∧ io.buffered k < 2 ^ 20 then
        let chunk := (io.fread k).take RD_FILE_CHUNK
        if chunk = [] then (s, u)
        else
          pumpChunks io fuel (k + 1)
            { s.tell cr (fileChunk u.id chunk) with read := Function.update s.read u.id (s.read u.id ++ chunk) }
            { u with sent := u.sent + chunk.length }
      else (s, u)

def UploadSession.sendBegin (s : UploadSession) (u : Upload) : UploadSession × Upload :=
  if u.begun then (s, u) else (s.tell cr (fileBegin u), { u with begun := true })

def UploadSession.sendEnd (io : PumpIo) (s : UploadSession) (u : Upload) : UploadSession × Upload :=
  if u.sent ≥ u.size ∨
    io.feof then (s.tell cr (fileEnd u.id), { u with doneSending := true, file := false }) else (s, u)

-- The first upload that is not sent goes on.
def UploadSession.pumpUploads (io : PumpIo) (s : UploadSession) : UploadSession :=
  match s.app.uploads.findIdx? fun u => !u.doneSending with
  | none => s
  | some i =>
      match s.app.uploads[i]? with
      | none => s
      | some u =>
          let (s, u) := s.sendBegin cr u
          let (s, u) := s.pumpChunks cr io (u.size - u.sent) 0 u
          let (s, u) := s.sendEnd cr io u
          { s with app.uploads := s.app.uploads.set i u }

end Pump

inductive UploadEvent
  | app (e : AppEvent)
  | drop (windows : Bool) (path : Bytes) (size : Option Int) (now : Nat)
  | pump (io : PumpIo)

-- pump_uploads is called while the session is live.
def UploadEvent.apply (cr : Crypto) (s : UploadSession) : UploadEvent → UploadSession
  | .app e => { s with app := e.apply cr s.app }
  | .drop windows path size now => s.queueUpload windows path size now
  | .pump io => if s.app.phase = .Live then s.pumpUploads cr io else s

-- The queue changes only by drops, pumps and messages.
def UploadEvent.Possible : UploadEvent → Prop
  | .app (.uploads _) => False
  | _ => True

def uploadRuns (cr : Crypto) : System UploadSession UploadEvent where
  init s := ∃ web opts store, s = ⟨App.new web opts store, 1, [], fun _ => []⟩
  step s e t := e.Possible ∧ t = e.apply cr s

section Queue

variable (cr : Crypto) (a : App)

-- Nothing but a drop adds to the queue.
def ShrinksQueue (a a' : App) : Prop := a'.uploads.Sublist a.uploads

theorem ShrinksQueue.of_view {a a' : App} (h : a'.toSessionView = a.toSessionView) : ShrinksQueue a a' := by
  unfold ShrinksQueue
  rw [show a'.uploads = a.uploads from congrArg SessionView.uploads h]

theorem Quiet.shrinks {a a' : App} (h : Quiet a a') : ShrinksQueue a a' := .of_view h.view

theorem ShrinksQueue.trans {a b c : App} (h₁ : ShrinksQueue a b) (h₂ : ShrinksQueue b c) : ShrinksQueue a c :=
  List.Sublist.trans h₂ h₁

theorem ShrinksQueue.same {a a' : App} (h : a'.uploads = a.uploads) : ShrinksQueue a a' := by
  unfold ShrinksQueue
  rw [h]

theorem startConnect_shrinks (priv : Bytes) (failed : Option Bytes) :
    ShrinksQueue a (a.startConnect cr priv failed) := by
  unfold App.startConnect
  dsimp only
  split_ifs
  · exact .of_view (failConnect_givenUp _ _).view
  · exact .of_view (failConnect_givenUp _ _).view
  all_goals exact .of_view rfl

theorem beginConnect_shrinks (pc : SavedPc) (priv : Bytes) (failed : Option Bytes) :
    ShrinksQueue a (a.beginConnect cr pc priv failed) := by
  unfold App.beginConnect
  dsimp only
  generalize (if pc.userName = [] then { pc with userName := a.opts.name } else pc) = target
  split_ifs
  · exact .of_view rfl
  · exact startConnect_shrinks cr { a with target := target } priv failed

theorem onTransportClosed_shrinks (now : Nat) : ShrinksQueue a (a.onTransportClosed now) := by
  have hnone : (a.onTransportClosed now).uploads = [] := by
    unfold App.onTransportClosed
    dsimp only
    generalize (if a.transport.error = [] then ascii "Disconnected" else a.transport.error) = why
    have hleft : ({ a with
        phase := .None, uploads := [], held := [], buttons := 0, reconnectAttempts :=
          0 } : App).leaveSession.uploads = [] :=
      congrArg SessionView.uploads (leaveSession_quiet _).view
    split_ifs
    · rfl
    · rfl
    · rw [show (App.failConnect _ why).uploads =
        _ from congrArg SessionView.uploads (failConnect_givenUp _ why).view]
      exact hleft
    · exact hleft
  unfold ShrinksQueue
  rw [hnone]
  exact List.nil_sublist _

theorem disconnectUser_shrinks : ShrinksQueue a (a.disconnectUser cr) := by
  have hnone : (a.disconnectUser cr).uploads = [] := by
    unfold App.disconnectUser
    dsimp only
    exact congrArg SessionView.uploads (setFullscreen_quiet _ false).view
  unfold ShrinksQueue
  rw [hnone]
  exact List.nil_sublist _

theorem onFrame_shrinks (io : AppIo) (r : Reader) (wireBytes : Nat) :
    ShrinksQueue a (a.onFrame cr io r wireBytes) := by
  unfold App.onFrame
  cases Client.onFrame a.remote r with
  | none => exact .same rfl
  | some f =>
      have hack := congrArg SessionView.uploads
        (send_quiet cr { a with remote := f.remote } (putU8 RD_C_FRAME_ACK ++ putU32 f.id)).view
      dsimp only
      generalize App.send cr { a with remote := f.remote } (putU8 RD_C_FRAME_ACK ++ putU32 f.id) = b at hack ⊢
      split_ifs
      · exact .same ((congrArg SessionView.uploads (send_quiet cr { b with lastRefreshReq := io.ticks }
          (putU8 RD_C_REFRESH)).view).trans hack)
      · exact .same hack

theorem onAuthenticated_shrinks (io : AppIo) (text : Bytes) : ShrinksQueue a (a.onAuthenticated cr io text) := by
  obtain ⟨toasts, hgreet⟩ := greet_eq { a with phase := .Live, dialog := .None, screen := .Session } io text
  unfold App.onAuthenticated
  rw [hgreet]
  dsimp only
  generalize hb : App.sendSettings cr { a with
    phase := .Live
    dialog := .None
    screen := .Session
    toasts := toasts
    reconnectAttempts := 0
    statsT0 := io.ticks
    lastPing := io.ticks
    lastClipCheck := io.ticks
    lastThumb := sub32 io.ticks 25000
    lastLocalClip := a.clipboard } = b
  have hqueue : b.uploads = a.uploads := by
    rw [← hb]
    exact (congrArg SessionView.uploads (send_quiet cr _ _).view).trans rfl
  have hmenu : (if b.opts.openMenu then { b with menuOpen := true } else b).uploads = a.uploads := by
    split_ifs <;> exact hqueue
  generalize (if b.opts.openMenu then { b with menuOpen := true } else b) = c at hmenu ⊢
  split_ifs
  · exact .same hmenu
  · unfold App.rememberPc
    dsimp only
    split_ifs
    all_goals first
      | exact .same hmenu
      | exact .same ((congrArg SessionView.uploads (setFullscreen_quiet _ true).view).trans hmenu)
  · exact .same hmenu

theorem onAuthResult_shrinks (io : AppIo) (r : Reader) : ShrinksQueue a (a.onAuthResult cr io r) := by
  unfold App.onAuthResult
  dsimp only
  split_ifs with hok hauth hvo
  · exact .of_view (onAuthFailed_givenUp a _).view
  · exact onAuthenticated_shrinks cr { a with viewOnly := decide ((rdGetU8 (rdGetU8 r).2).1 ≠ 0) } io _
  · refine ShrinksQueue.trans ?_ (releaseInput_quiet cr _).shrinks
    exact .same rfl
  · exact .same rfl

theorem dispatch_shrinks (io : AppIo) (m : Bytes) : ShrinksQueue a (a.dispatch cr io m) := by
  unfold App.dispatch
  dsimp only
  split_ifs
  · cases onHello_outcome cr a (rdGetU8 (rdReaderInit m)).2 with
    | refused _ gone => exact .of_view gone.view
    | authenticating _ _ _ view => exact .of_view view
    | asking _ _ _ view => exact .of_view view
  · exact onAuthResult_shrinks cr a io _
  · unfold App.onDisplayInfo
    dsimp only
    cases (readDisplayInfo (rdGetU8 (rdReaderInit m)).2).flags <;> split_ifs <;> exact .same rfl
  · exact onFrame_shrinks cr a io _ _
  · unfold App.onClipboard
    split <;> exact .same rfl
  · unfold App.onChat
    dsimp only
    split_ifs <;> exact .same rfl
  · exact .same rfl
  · unfold App.onNotice
    dsimp only
    split_ifs <;> exact .same rfl
  · unfold App.onFileResult
    dsimp only
    cases a.uploads.find? (·.id = (rdGetU32 (rdGetU8 (rdReaderInit m)).2).1) with
    | none => exact .same rfl
    | some u => exact List.eraseP_sublist
  · exact .same rfl

theorem handleMessage_shrinks (io : AppIo) (m : Bytes) : ShrinksQueue a (a.handleMessage cr io m) := by
  obtain ⟨recvCtr, hopen⟩ := openMessage_eq cr a m
  unfold App.handleMessage
  generalize a.openMessage cr m = o at hopen ⊢
  obtain ⟨p, b⟩ := o
  dsimp only at hopen
  have hsame : ShrinksQueue a b := by
    rw [hopen]
    exact .same rfl
  cases p with
  | none => exact hsame.trans (.of_view (failConnect_givenUp b _).view)
  | some p => exact hsame.trans (dispatch_shrinks cr b io p)

theorem apply_shrinks (e : AppEvent) (h : UploadEvent.Possible (.app e)) : ShrinksQueue a (e.apply cr a) := by
  cases e with
  | message io m =>
      unfold AppEvent.apply App.deliver
      dsimp only
      split_ifs
      · exact .same rfl
      · exact handleMessage_shrinks cr a io m
  | sayHello =>
      unfold AppEvent.apply App.sayHello
      dsimp only
      split_ifs
      · exact .of_view (send_quiet cr a _).view
      · exact .of_view (send_quiet cr a _).view
      · exact .same rfl
  | closed now =>
      unfold AppEvent.apply App.noticeClosed
      dsimp only
      split_ifs
      · exact onTransportClosed_shrinks a now
      · exact .same rfl
  | reconnect now priv failed =>
      unfold AppEvent.apply App.reconnect
      dsimp only
      split_ifs
      · exact startConnect_shrinks cr { a with reconnectAt := 0 } priv failed
      · exact .same rfl
  | network state error => exact .same rfl
  | connect pc priv failed => exact beginConnect_shrinks cr a pc priv failed
  | start pc priv failed => exact startConnect_shrinks cr { a with target := pc } priv failed
  | password pw remember priv failed =>
      unfold AppEvent.apply
      dsimp only
      split_ifs
      · refine ShrinksQueue.trans ?_ (startConnect_shrinks cr _ priv failed)
        unfold App.enterPassword
        dsimp only
        cases a.store.find a.target.id <;> exact .same rfl
      · exact .same rfl
  | trust =>
      unfold AppEvent.apply App.trust
      dsimp only
      split_ifs
      · exact .of_view (sendAuth_authed cr _).view
      · exact .same rfl
  | disconnect => exact disconnectUser_shrinks cr a
  | form dialog =>
      unfold AppEvent.apply
      dsimp only
      split_ifs <;> exact .same rfl
  | copy text => exact .same rfl
  | expireToasts now => exact .same rfl
  | session msg =>
      unfold AppEvent.apply
      dsimp only
      split_ifs
      · exact (send_quiet cr a msg).shrinks
      · exact .same rfl
  | uploads queue => exact absurd h id
  | chat text now =>
      unfold AppEvent.apply
      dsimp only
      split_ifs
      · have hsent := congrArg SessionView.uploads (send_quiet cr a (putU8 RD_C_CHAT ++ putStr text)).view
        exact .same hsent
      · exact .same rfl

end Queue

end TetherDesk.Client
