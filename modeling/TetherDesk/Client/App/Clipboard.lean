import TetherDesk.Client.App.Session
import TetherDesk.Secure.Rehearsal

namespace TetherDesk.Client

open TetherDesk.Secure TetherDesk.Lib.Transition

section Clipboard

variable (cr : Crypto)

def App.clipboardMessage (text : Bytes) : Bytes := putU8 RD_C_CLIPBOARD ++ putBlob text

def App.sendClipboard (a : App) (text : Bytes) : App :=
  if a.viewOnly ∨ text.length > RD_MAX_CLIPBOARD then a
  else { a.send cr (App.clipboardMessage text) with lastLocalClip := text }

-- Push local clipboard changes to the host automatically; focus is whether the window
-- has the input focus.
def App.checkLocalClipboard (a : App) (focus : Bool) : App :=
  if a.web ∨ a.viewOnly ∨ !focus then a
  else if a.clipboard = [] then a
  else if a.clipboard ≠ a.lastLocalClip ∧ a.clipboard ≠ a.lastRemoteClip then a.sendClipboard cr a.clipboard
  else a

-- The part of tick that runs check_local_clipboard once a second.
def App.clipboardTick (a : App) (now : Nat) (focus : Bool) : App :=
  if a.phase = .Live ∧ sub32 now a.lastClipCheck ≥ 1000 then
    { a with lastClipCheck := now }.checkLocalClipboard cr focus
  else a

-- The button "Send clipboard" of the session's menu.
def App.clipboardButton (a : App) (now : Nat) : App :=
  if !a.web ∧ !a.viewOnly ∧ a.clipboard ≠ [] then
    (a.sendClipboard cr a.clipboard).toast (ascii "Clipboard sent to host") .dim now
  else a

-- What the transport is given for a message.
def App.sealed (a : App) (msg : Bytes) : Bytes := if a.ch.active then (rdChannelSeal cr a.ch msg).1 else msg

-- The text on the clipboard, when its message is what the transport has gained.
def App.sentClip (a a' : App) : Option Bytes :=
  if a'.transport.sent = a.transport.sent ++ [a.sealed cr (App.clipboardMessage a.clipboard)] then some a.clipboard
  else none

-- The clipboard text that a message brings.
def App.clipboardIn (a : App) (m : Bytes) : Option Bytes :=
  (a.openMessage cr m).1.bind fun p =>
    let (type, r) := rdGetU8 (rdReaderInit p)
    if type = RD_S_CLIPBOARD then (rdGetBlob r).1 else none

-- The text that an event of the application exchanges: the one that a message brings,
-- and the one that is on the clipboard when the session becomes live.
def AppEvent.exchanged (a : App) : AppEvent → Option Bytes
  | .message io m =>
      if a.phase = .None then none
      else if a.phase ≠ .Live ∧ (a.handleMessage cr io m).phase = .Live then some a.clipboard
      else a.clipboardIn cr m
  | _ => none

end Clipboard

-- exchanged is not in the source: the last text exchanged with the host.
structure ClipSession where
  app : App
  exchanged : Bytes

inductive ClipEvent
  | app (e : AppEvent)
  | button (now : Nat)
  | tick (now : Nat) (focus : Bool)

def ClipEvent.run (cr : Crypto) (a : App) : ClipEvent → App
  | .app e => e.apply cr a
  | .button now => a.clipboardButton cr now
  | .tick now focus => a.clipboardTick cr now focus

-- The text that an event exchanges with the host. A check or the button exchanges
-- what the transport has gained by it.
def ClipEvent.exchanged (cr : Crypto) (a : App) : ClipEvent → Option Bytes
  | .app e => e.exchanged cr a
  | e => a.sentClip cr (e.run cr a)

def ClipEvent.apply (cr : Crypto) (s : ClipSession) (e : ClipEvent) : ClipSession :=
  ⟨e.run cr s.app, (e.exchanged cr s.app).getD s.exchanged⟩

-- The other messages of a session are no clipboard messages, and a transport opens
-- only while the application waits for it.
def ClipEvent.Possible (a : App) : ClipEvent → Prop
  | .app (.session msg) => (rdGetU8 (rdReaderInit msg)).1 ≠ RD_C_CLIPBOARD
  | .app (.network state _) => state = .Open → a.phase = .Connecting
  | _ => True

def clipRuns (cr : Crypto) : System ClipSession ClipEvent where
  init s := ∃ web opts store text, s = ⟨App.new web opts store, text⟩
  step s e t := e.Possible s.app ∧ t = e.apply cr s

-- A live session that goes on is the one from before, with the same text remembered
-- and a transport as open as it was.
def KeepsClip (a a' : App) : Prop :=
  a'.phase = .Live → a.phase = .Live ∧ a'.lastLocalClip = a.lastLocalClip ∧ a'.transport.state = a.transport.state

theorem KeepsClip.of_view {a a' : App} (hphase : a'.phase = a.phase) (hview : a'.toSessionView = a.toSessionView)
    (hopened : a'.transport.state = a.transport.state) : KeepsClip a a' :=
  fun hlive => ⟨hphase.symm.trans hlive, congrArg SessionView.lastLocalClip hview, hopened⟩

theorem Quiet.keepsClip {a a' : App} (h : Quiet a a') : KeepsClip a a' := .of_view h.phase h.view h.opened

theorem KeepsClip.of_phase {a a' : App} (h : a'.phase ≠ .Live) : KeepsClip a a' := fun hlive => absurd hlive h

theorem KeepsClip.trans {a b c : App} (h₁ : KeepsClip a b) (h₂ : KeepsClip b c) : KeepsClip a c := by
  intro hlive
  obtain ⟨hb, hclip, hopened⟩ := h₂ hlive
  obtain ⟨ha, hclip', hopened'⟩ := h₁ hb
  exact ⟨ha, hclip.trans hclip', hopened.trans hopened'⟩

section Events

variable (cr : Crypto) (a : App)

theorem startConnect_phase (priv : Bytes) (failed : Option Bytes) :
    (a.startConnect cr priv failed).phase = .None ∨ (a.startConnect cr priv failed).phase = .Connecting := by
  unfold App.startConnect
  dsimp only
  split_ifs
  · exact .inl (failConnect_givenUp _ _).phase
  · exact .inl (failConnect_givenUp _ _).phase
  all_goals exact .inr rfl

theorem startConnect_keepsClip (b : App) (priv : Bytes) (failed : Option Bytes) :
    KeepsClip a (b.startConnect cr priv failed) := by
  refine .of_phase ?_
  rcases startConnect_phase cr b priv failed with h | h <;> simp [h]

theorem onTransportClosed_phase (now : Nat) : (a.onTransportClosed now).phase = .None := by
  unfold App.onTransportClosed
  dsimp only
  generalize (if a.transport.error = [] then ascii "Disconnected" else a.transport.error) = why
  split_ifs
  · rfl
  · rfl
  · exact (failConnect_givenUp _ _).phase
  · exact (leaveSession_quiet { a with
      phase := .None, uploads := [], held := [], buttons := 0, reconnectAttempts := 0 }).phase

theorem sayHello_keepsClip : KeepsClip a (a.sayHello cr) := by
  unfold App.sayHello
  dsimp only
  split_ifs
  · exact .of_phase (by simp)
  · exact .of_phase (by simp)
  · exact (Quiet.refl a).keepsClip

theorem trust_keepsClip : KeepsClip a (a.trust cr) := by
  unfold App.trust
  split_ifs
  · exact .of_phase (by simp [(sendAuth_authed cr _).phase])
  · exact (Quiet.refl a).keepsClip

theorem apply_keepsClip (e : AppEvent) (h : ∀ io m, e ≠ .message io m)
    (hnetwork : ∀ state error, e ≠ .network state error) :
    KeepsClip a (e.apply cr a) := by
  have hsame := (Quiet.refl a).keepsClip
  cases e with
  | message io m => exact absurd rfl (h io m)
  | sayHello => exact sayHello_keepsClip cr a
  | closed now =>
      unfold AppEvent.apply App.noticeClosed
      dsimp only
      split_ifs
      · exact .of_phase (by simp [onTransportClosed_phase])
      · exact hsame
  | reconnect now priv failed =>
      unfold AppEvent.apply App.reconnect
      dsimp only
      split_ifs
      · exact startConnect_keepsClip cr a _ priv failed
      · exact hsame
  | network state error => exact absurd rfl (hnetwork state error)
  | connect pc priv failed =>
      unfold AppEvent.apply App.beginConnect
      dsimp only
      generalize (if pc.userName = [] then { pc with userName := a.opts.name } else pc) = target
      split_ifs
      · exact .of_view rfl rfl rfl
      · exact startConnect_keepsClip cr a _ priv failed
  | start pc priv failed => exact startConnect_keepsClip cr a _ priv failed
  | password pw remember priv failed =>
      unfold AppEvent.apply
      dsimp only
      split_ifs
      · exact startConnect_keepsClip cr a _ priv failed
      · exact hsame
  | trust => exact trust_keepsClip cr a
  | disconnect =>
      refine .of_phase ?_
      unfold AppEvent.apply App.disconnectUser
      dsimp only
      rw [(setFullscreen_quiet _ false).phase]
      simp
  | form dialog =>
      unfold AppEvent.apply
      dsimp only
      split_ifs
      · exact .of_view rfl rfl rfl
      · exact hsame
  | copy text => exact fun hlive => ⟨hlive, rfl, rfl⟩
  | expireToasts now => exact fun hlive => ⟨hlive, rfl, rfl⟩
  | session msg =>
      unfold AppEvent.apply
      dsimp only
      split_ifs
      · exact (send_quiet cr a msg).keepsClip
      · exact hsame
  | uploads queue =>
      unfold AppEvent.apply
      dsimp only
      split_ifs
      · exact fun hlive => ⟨hlive, rfl, rfl⟩
      · exact hsame
  | chat text now =>
      unfold AppEvent.apply
      dsimp only
      split_ifs
      · have hsent := send_quiet cr a (putU8 RD_C_CHAT ++ putStr text)
        have hclip := congrArg SessionView.lastLocalClip hsent.view
        exact fun hlive => ⟨hsent.phase.symm.trans hlive, hclip, hsent.opened⟩
      · exact hsame

end Events

section Messages

variable (cr : Crypto) (a : App) (io : AppIo) (r : Reader)

theorem onHello_keepsClip : KeepsClip a (a.onHello cr r) := by
  refine .of_phase ?_
  cases onHello_outcome cr a r with
  | refused _ gone => simp [gone.phase]
  | authenticating _ _ _ _ phase => simp [phase]
  | asking _ _ _ _ phase => simp [phase]

theorem onDisplayInfo_keepsClip : KeepsClip a (a.onDisplayInfo io r) := by
  unfold App.onDisplayInfo
  dsimp only
  cases (readDisplayInfo r).flags <;> split_ifs <;> exact fun hlive => ⟨hlive, rfl, rfl⟩

theorem onFrame_keepsClip (wireBytes : Nat) : KeepsClip a (a.onFrame cr io r wireBytes) := by
  unfold App.onFrame
  cases Client.onFrame a.remote r with
  | none => exact (Quiet.refl a).keepsClip
  | some f =>
      have hack := (send_quiet cr { a with remote := f.remote } (putU8 RD_C_FRAME_ACK ++ putU32 f.id)).keepsClip
      dsimp only
      generalize App.send cr { a with remote := f.remote } (putU8 RD_C_FRAME_ACK ++ putU32 f.id) = b at hack ⊢
      have hstart : KeepsClip a { a with remote := f.remote } := fun hlive => ⟨hlive, rfl, rfl⟩
      have hcount : ∀ c : App, KeepsClip b c → KeepsClip a { c with
          frames := c.frames + 1
          bytes := c.bytes + wireBytes
          tilesLast := (rdGetU16 (rdGetU8 (rdGetU32 r).2).2).1 } := fun c hc =>
        (hstart.trans hack).trans (hc.trans fun hlive => ⟨hlive, rfl, rfl⟩)
      split_ifs
      · refine hcount _ (KeepsClip.trans ?_ (send_quiet cr { b with
          lastRefreshReq := io.ticks } (putU8 RD_C_REFRESH)).keepsClip)
        exact fun hlive => ⟨hlive, rfl, rfl⟩
      · exact hcount b (Quiet.refl b).keepsClip

theorem onChat_keepsClip : KeepsClip a (a.onChat io r) := by
  unfold App.onChat
  dsimp only
  split_ifs <;> exact fun hlive => ⟨hlive, rfl, rfl⟩

theorem onNotice_keepsClip : KeepsClip a (a.onNotice io r) := by
  unfold App.onNotice
  dsimp only
  split_ifs <;> exact fun hlive => ⟨hlive, rfl, rfl⟩

theorem onFileResult_keepsClip : KeepsClip a (a.onFileResult io r) := by
  unfold App.onFileResult
  dsimp only
  cases a.uploads.find? (·.id = (rdGetU32 r).1) with
  | none => exact (Quiet.refl a).keepsClip
  | some u => exact fun hlive => ⟨hlive, rfl, rfl⟩

-- Going live remembers what is on the clipboard.
theorem onAuthenticated_clip (text : Bytes) : (a.onAuthenticated cr io text).lastLocalClip = a.clipboard := by
  obtain ⟨toasts, hgreet⟩ := greet_eq { a with phase := .Live, dialog := .None, screen := .Session } io text
  unfold App.onAuthenticated
  rw [hgreet]
  dsimp only
  generalize hb : App.sendSettings cr { a with
    phase := .Live
    dialog := .None
    screen := .Session
    toasts := toasts
    reconnectAttempts := 0
    statsT0 := io.ticks
    lastPing := io.ticks
    lastClipCheck := io.ticks
    lastThumb := sub32 io.ticks 25000
    lastLocalClip := a.clipboard } = b
  have hclip : b.lastLocalClip = a.clipboard := by
    rw [← hb]
    exact congrArg SessionView.lastLocalClip (send_quiet cr _ _).view
  have hmenu : (if b.opts.openMenu then { b with menuOpen := true } else b).lastLocalClip = a.clipboard := by
    split_ifs <;> exact hclip
  generalize (if b.opts.openMenu then { b with menuOpen := true } else b) = c at hmenu ⊢
  split_ifs
  · exact hmenu
  · unfold App.rememberPc
    dsimp only
    split_ifs
    all_goals first
      | exact hmenu
      | exact (congrArg SessionView.lastLocalClip (setFullscreen_quiet _ true).view).trans hmenu
  · exact hmenu

theorem onAuthResult_clip (hlive : (a.onAuthResult cr io r).phase = .Live) :
    (a.onAuthResult cr io r).lastLocalClip = if a.phase ≠ .Live then a.clipboard else a.lastLocalClip := by
  unfold App.onAuthResult at hlive ⊢
  dsimp only at hlive ⊢
  generalize cStr (rdGetStr (rdGetU8 (rdGetU8 r).2).2 512).1 = text at hlive ⊢
  by_cases hok : (rdGetU8 r).1 = 0
  · rw [if_pos hok, (onAuthFailed_givenUp a text).phase] at hlive
    cases hlive
  · rw [if_neg hok] at hlive ⊢
    by_cases hauth : a.phase = .Auth
    · rw [if_pos hauth, onAuthenticated_clip, if_pos (by simp [hauth])]
    · rw [if_neg hauth] at hlive ⊢
      have hkeeps : KeepsClip a (if (rdGetU8 (rdGetU8 r).2).1 ≠ 0 then
          ({ a with viewOnly := decide ((rdGetU8 (rdGetU8 r).2).1 ≠ 0) }.toast text
            (if (rdGetU8 (rdGetU8 r).2).1 ≠ 0 then .warn else .good) io.ticks).releaseInput cr
          else { a with viewOnly := decide ((rdGetU8 (rdGetU8 r).2).1 ≠ 0) }.toast text
            (if (rdGetU8 (rdGetU8 r).2).1 ≠ 0 then .warn else .good) io.ticks) := by
        split_ifs
        · refine KeepsClip.trans ?_ (releaseInput_quiet cr _).keepsClip
          exact fun hlive => ⟨hlive, rfl, rfl⟩
        · exact fun hlive => ⟨hlive, rfl, rfl⟩
      obtain ⟨hphase, hclip, -⟩ := hkeeps hlive
      rw [hclip, if_neg (by simp [hphase])]

-- What a message makes the live application remember.
theorem dispatch_clip (p : Bytes) (hlive : (a.dispatch cr io p).phase = .Live) :
    (a.dispatch cr io p).lastLocalClip =
      if a.phase ≠ .Live then a.clipboard
      else (if (rdGetU8 (rdReaderInit p)).1 = RD_S_CLIPBOARD then (rdGetBlob (rdGetU8 (rdReaderInit p)).2).1
        else none).getD a.lastLocalClip := by
  have hkept : ∀ b : App, (rdGetU8 (rdReaderInit p)).1 ≠ RD_S_CLIPBOARD → KeepsClip a b → b.phase = .Live →
      b.lastLocalClip = if a.phase ≠ .Live then a.clipboard
        else (if (rdGetU8 (rdReaderInit p)).1 = RD_S_CLIPBOARD then (rdGetBlob (rdGetU8 (rdReaderInit p)).2).1
          else none).getD a.lastLocalClip := by
    intro b htype hkeeps hb
    obtain ⟨hphase, hclip, -⟩ := hkeeps hb
    rw [hclip, if_neg (by simp [hphase]), if_neg htype, Option.getD_none]
  unfold App.dispatch at hlive ⊢
  generalize rdGetU8 (rdReaderInit p) = m at hlive hkept ⊢
  obtain ⟨type, r⟩ := m
  dsimp only at hlive hkept ⊢
  by_cases hhello : type = RD_S_HELLO
  · rw [if_pos hhello] at hlive ⊢
    exact hkept _ (by subst hhello; decide) (onHello_keepsClip cr a r) hlive
  rw [if_neg hhello] at hlive ⊢
  by_cases hresult : type = RD_S_AUTH_RESULT
  · rw [if_pos hresult] at hlive ⊢
    have hother : type ≠ RD_S_CLIPBOARD := by
      subst hresult
      decide
    rw [onAuthResult_clip cr a io r hlive, if_neg hother, Option.getD_none]
  rw [if_neg hresult] at hlive ⊢
  by_cases hdisplay : type = RD_S_DISPLAY_INFO
  · rw [if_pos hdisplay] at hlive ⊢
    exact hkept _ (by subst hdisplay; decide) (onDisplayInfo_keepsClip a io r) hlive
  rw [if_neg hdisplay] at hlive ⊢
  by_cases hframe : type = RD_S_FRAME
  · rw [if_pos hframe] at hlive ⊢
    exact hkept _ (by subst hframe; decide) (onFrame_keepsClip cr a io r p.length) hlive
  rw [if_neg hframe] at hlive ⊢
  by_cases hclipboard : type = RD_S_CLIPBOARD
  · rw [if_pos hclipboard] at hlive ⊢
    rw [if_pos hclipboard]
    unfold App.onClipboard at hlive ⊢
    cases hblob : rdGetBlob r with
    | mk text rest =>
        rw [hblob] at hlive
        cases text with
        | none => rw [if_neg (by simpa using hlive), Option.getD_none]
        | some text =>
            have hphase : a.phase = .Live := hlive
            rw [if_neg (by simp [hphase]), Option.getD_some]
            rfl
  rw [if_neg hclipboard] at hlive ⊢
  have hrest : KeepsClip a (if type = RD_S_CHAT then a.onChat io r
      else if type = RD_S_VIEWERS then a.onViewers r
      else if type = RD_S_NOTICE then a.onNotice io r
      else if type = RD_S_FILE_RESULT then a.onFileResult io r
      else a) := by
    split_ifs
    · exact onChat_keepsClip a io r
    · exact fun hlive => ⟨hlive, rfl, rfl⟩
    · exact onNotice_keepsClip a io r
    · exact onFileResult_keepsClip a io r
    · exact (Quiet.refl a).keepsClip
  exact hkept _ hclipboard hrest hlive

theorem handleMessage_clip (m : Bytes) (hlive : (a.handleMessage cr io m).phase = .Live) :
    (a.handleMessage cr io m).lastLocalClip =
      if a.phase ≠ .Live then a.clipboard else (a.clipboardIn cr m).getD a.lastLocalClip := by
  obtain ⟨recvCtr, hopen⟩ := openMessage_eq cr a m
  unfold App.handleMessage at hlive ⊢
  unfold App.clipboardIn
  generalize a.openMessage cr m = o at hopen hlive ⊢
  obtain ⟨p, b⟩ := o
  dsimp only at hopen
  subst hopen
  cases p with
  | none =>
      rw [(failConnect_givenUp _ _).phase] at hlive
      cases hlive
  | some p => exact dispatch_clip cr _ io p hlive

end Messages

section Sending

variable (cr : Crypto) (a : App)

theorem send_transport (now : Nat) (msg : Bytes) :
    ({ a with lastClipCheck := now }.send cr msg).transport = (a.send cr msg).transport := by
  unfold App.send
  split_ifs <;> rfl

theorem send_open (msg : Bytes) (h : a.transport.state = .Open) :
    (a.send cr msg).transport.sent = a.transport.sent ++ [a.sealed cr msg] := by
  have hopen : ∀ data, (a.transport.send data).sent = a.transport.sent ++ [data] := by
    intro data
    unfold AppTransport.send
    rw [if_neg (by simp [h])]
  unfold App.send App.sealed
  split_ifs with hplain hactive hactive
  · simp [hactive] at hplain
  · exact hopen _
  · exact hopen _
  · simp [hactive] at hplain

theorem send_closed (msg : Bytes) (h : a.transport.state ≠ .Open) : (a.send cr msg).transport = a.transport := by
  have hclosed : ∀ data, a.transport.send data = a.transport := fun data => if_pos h
  unfold App.send
  split_ifs <;> exact hclosed _

-- What a check or the button does: nothing, or it sends the text on the clipboard and
-- remembers it.
inductive ClipStep (a a' : App) : Prop
  | idle (transport : a'.transport = a.transport) (remembered : a'.lastLocalClip = a.lastLocalClip)
  | sends (transport : a'.transport = (a.send cr (App.clipboardMessage a.clipboard)).transport)
      (remembered : a'.lastLocalClip = a.clipboard)

variable {cr a} in
theorem sentClip_idle {a' : App} (h : a'.transport = a.transport) : a.sentClip cr a' = none := by
  unfold App.sentClip
  rw [h, if_neg]
  intro hsame
  have hlength := congrArg List.length hsame
  rw [List.length_append, List.length_singleton] at hlength
  omega

variable {cr a} in
theorem sentClip_sends {a' : App} (h : a'.transport = (a.send cr (App.clipboardMessage a.clipboard)).transport)
    (hopen : a.transport.state = .Open) : a.sentClip cr a' = some a.clipboard := by
  unfold App.sentClip
  rw [h, send_open cr a _ hopen, if_pos rfl]

variable {cr a} in
theorem ClipStep.exchanged {a' : App} (h : ClipStep cr a a') (hopen : a.transport.state = .Open) :
    a'.lastLocalClip = (a.sentClip cr a').getD a.lastLocalClip := by
  cases h with
  | idle transport remembered => rw [sentClip_idle transport, remembered, Option.getD_none]
  | sends transport remembered => rw [sentClip_sends transport hopen, remembered, Option.getD_some]

variable {cr a} in
theorem ClipStep.opened {a' : App} (h : ClipStep cr a a') : a'.transport.state = a.transport.state := by
  cases h with
  | idle transport => rw [transport]
  | sends transport => rw [transport, send_state]

theorem sendClipboard_step : ClipStep cr a (a.sendClipboard cr a.clipboard) := by
  unfold App.sendClipboard
  split_ifs
  · exact .idle rfl rfl
  · exact .sends rfl rfl

theorem sendClipboard_phase (text : Bytes) : (a.sendClipboard cr text).phase = a.phase := by
  unfold App.sendClipboard
  split_ifs
  · rfl
  · exact (send_quiet cr a (App.clipboardMessage text)).phase

theorem clipboardButton_step (now : Nat) :
    (a.clipboardButton cr now).phase = a.phase ∧ ClipStep cr a (a.clipboardButton cr now) := by
  unfold App.clipboardButton
  split_ifs
  · refine ⟨sendClipboard_phase cr a a.clipboard, ?_⟩
    cases sendClipboard_step cr a with
    | idle transport remembered => exact .idle transport remembered
    | sends transport remembered => exact .sends transport remembered
  · exact ⟨rfl, .idle rfl rfl⟩

-- A check that is due finds a text to send exactly when the two remembered ones are
-- others.
theorem clipboardTick_step (now : Nat) (focus : Bool) :
    (a.clipboardTick cr now focus).phase = a.phase ∧
      (((a.clipboardTick cr now focus).transport = a.transport ∧
        (a.clipboardTick cr now focus).lastLocalClip = a.lastLocalClip) ∨
      (a.phase = .Live ∧ a.clipboard ≠ a.lastLocalClip ∧ a.clipboard ≠ a.lastRemoteClip ∧
        (a.clipboardTick cr now focus).transport = (a.send cr (App.clipboardMessage a.clipboard)).transport ∧
        (a.clipboardTick cr now focus).lastLocalClip = a.clipboard)) := by
  unfold App.clipboardTick App.checkLocalClipboard
  dsimp only
  split_ifs with hdue hgate hempty hnew
  · exact ⟨rfl, .inl ⟨rfl, rfl⟩⟩
  · exact ⟨rfl, .inl ⟨rfl, rfl⟩⟩
  · refine ⟨sendClipboard_phase cr { a with lastClipCheck := now } a.clipboard, ?_⟩
    unfold App.sendClipboard
    dsimp only
    split_ifs
    · exact .inl ⟨rfl, rfl⟩
    · exact .inr ⟨hdue.1, hnew.1, hnew.2, send_transport cr a now _, rfl⟩
  · exact ⟨rfl, .inl ⟨rfl, rfl⟩⟩
  · exact ⟨rfl, .inl ⟨rfl, rfl⟩⟩

-- Checks and the button.
def ClipEvent.own : ClipEvent → Bool
  | .app _ => false
  | _ => true

theorem own_step (e : ClipEvent) (hown : e.own = true) :
    (e.run cr a).phase = a.phase ∧ ClipStep cr a (e.run cr a) ∧ e.exchanged cr a = a.sentClip cr (e.run cr a) := by
  cases e with
  | app e => cases hown
  | button now =>
      obtain ⟨hphase, hstep⟩ := clipboardButton_step cr a now
      exact ⟨hphase, hstep, rfl⟩
  | tick now focus =>
      obtain ⟨hphase, ⟨htransport, hlast⟩ | ⟨-, -, -, htransport, hlast⟩⟩ := clipboardTick_step cr a now focus
      · exact ⟨hphase, .idle htransport hlast, rfl⟩
      · exact ⟨hphase, .sends htransport hlast, rfl⟩

end Sending

-- While the session is live and its transport open, the application remembers the last
-- text exchanged.
def Remembered (s : ClipSession) : Prop :=
  s.app.phase = .Live → s.app.transport.state = .Open → s.exchanged = s.app.lastLocalClip

theorem Remembered.own {cr : Crypto} {s : ClipSession} (h : Remembered s) (e : ClipEvent) (hown : e.own = true) :
    Remembered (e.apply cr s) := by
  obtain ⟨hphase, hstep, hexchanged⟩ := own_step cr s.app e hown
  intro hlive hopen
  have hopen' : s.app.transport.state = .Open := hstep.opened.symm.trans hopen
  unfold ClipEvent.apply
  dsimp only
  rw [hexchanged, hstep.exchanged hopen', h (hphase.symm.trans hlive) hopen']

theorem Remembered.message {cr : Crypto} {s : ClipSession} (h : Remembered s) (io : AppIo) (m : Bytes) :
    Remembered ((ClipEvent.app (.message io m)).apply cr s) := by
  unfold Remembered ClipEvent.apply ClipEvent.run ClipEvent.exchanged AppEvent.apply App.deliver AppEvent.exchanged
  dsimp only
  by_cases hnone : s.app.phase = .None
  · rw [if_pos hnone, if_pos hnone, Option.getD_none]
    exact h
  · rw [if_neg hnone, if_neg hnone]
    intro hlive hopen
    rw [handleMessage_clip cr s.app io m hlive]
    by_cases hphase : s.app.phase = .Live
    · have hopened : (s.app.handleMessage cr io m).transport.state = s.app.transport.state := by
        obtain ⟨-, hkeeps⟩ | ⟨hello, -, hout⟩ := handleMessage_cases cr s.app io m
        · refine hkeeps.opened.resolve_left fun hgone => ?_
          rw [hlive] at hgone
          cases hgone
        · refine absurd hlive ?_
          cases hout with
          | refused _ gone => simp [gone.phase]
          | authenticating _ _ _ _ phase => simp [phase]
          | asking _ _ _ _ phase => simp [phase]
      rw [if_neg (by simp [hphase]), if_neg (by simp [hphase]), h hphase (hopened.symm.trans hopen)]
    · rw [if_pos ⟨hphase, hlive⟩, if_pos hphase, Option.getD_some]

theorem Remembered.apply (cr : Crypto) {s : ClipSession} (h : Remembered s) (e : ClipEvent)
    (hpossible : e.Possible s.app) :
    Remembered (e.apply cr s) := by
  cases e with
  | button now => exact h.own _ rfl
  | tick now focus => exact h.own _ rfl
  | app e =>
      have hother : (∀ io m, e ≠ .message io m) → (∀ state error, e ≠ .network state error) →
          Remembered ((ClipEvent.app e).apply cr s) := by
        intro hmessage hnetwork hlive hopen
        obtain ⟨hphase, hclip, hopened⟩ := apply_keepsClip cr s.app e hmessage hnetwork hlive
        have hnone : e.exchanged cr s.app = none := by
          cases e <;> first | rfl | exact absurd rfl (hmessage _ _)
        unfold ClipEvent.apply ClipEvent.exchanged ClipEvent.run
        dsimp only
        rw [hnone, Option.getD_none, hclip]
        exact h hphase (hopened.symm.trans hopen)
      cases e with
      | message io m => exact h.message io m
      | network state error =>
          intro hlive hopen
          have hwaits := hpossible hopen
          rw [show s.app.phase = .Live from hlive] at hwaits
          cases hwaits
      | _ => exact hother (by simp) (by simp)

-- check_local_clipboard finds a text that it may send.
structure Checks (a : App) (now : Nat) (focus : Bool) : Prop where
  native : a.web = false
  live : a.phase = .Live
  due : sub32 now a.lastClipCheck ≥ 1000
  focused : focus = true
  control : a.viewOnly = false
  text : a.clipboard ≠ []
  small : a.clipboard.length ≤ RD_MAX_CLIPBOARD

-- A check sends nothing, or the text on the clipboard, which is not the last one
-- exchanged.
structure NoEcho (cr : Crypto) (s : ClipSession) (now : Nat) (focus : Bool) : Prop where
  sends : ((ClipEvent.tick now focus).apply cr s).app.transport = s.app.transport ∨
    ((ClipEvent.tick now focus).apply cr s).app.transport =
      (s.app.send cr (App.clipboardMessage s.app.clipboard)).transport ∧ s.app.clipboard ≠ s.exchanged

theorem tick_noEcho (cr : Crypto) {s : ClipSession} (h : Remembered s) (now : Nat) (focus : Bool) :
    NoEcho cr s now focus := by
  refine ⟨?_⟩
  obtain ⟨-, ⟨htransport, -⟩ | ⟨hlive, hlocal, -, htransport, -⟩⟩ := clipboardTick_step cr s.app now focus
  · exact .inl htransport
  · by_cases hopen : s.app.transport.state = .Open
    · refine .inr ⟨htransport, ?_⟩
      rwa [h hlive hopen]
    · exact .inl (htransport.trans (send_closed cr s.app _ hopen))

-- The last text exchanged changes exactly with what the transport is given: one
-- CLIPBOARD message with the text on the clipboard, or nothing at all.
inductive Exchanges (cr : Crypto) (s : ClipSession) (e : ClipEvent) : Prop
  | silent (transport : (e.apply cr s).app.transport = s.app.transport)
      (same : (e.apply cr s).exchanged = s.exchanged)
  | sent (gains : (e.apply cr s).app.transport.sent =
        s.app.transport.sent ++ [s.app.sealed cr (App.clipboardMessage s.app.clipboard)])
      (text : (e.apply cr s).exchanged = s.app.clipboard)

theorem own_exchanges (cr : Crypto) (s : ClipSession) (e : ClipEvent) (hown : e.own = true) : Exchanges cr s e := by
  obtain ⟨-, hstep, hexchanged⟩ := own_step cr s.app e hown
  have hlast : (e.apply cr s).exchanged = (s.app.sentClip cr (e.run cr s.app)).getD s.exchanged :=
    congrArg (fun text => text.getD s.exchanged) hexchanged
  have hsilent : (e.run cr s.app).transport = s.app.transport → Exchanges cr s e := by
    intro htransport
    refine .silent htransport ?_
    rw [hlast, sentClip_idle htransport, Option.getD_none]
  cases hstep with
  | idle transport => exact hsilent transport
  | sends transport =>
      by_cases hopen : s.app.transport.state = .Open
      · refine .sent ?_ ?_
        · exact (congrArg AppTransport.sent transport).trans (send_open cr s.app _ hopen)
        · rw [hlast, sentClip_sends transport hopen, Option.getD_some]
      · exact hsilent (transport.trans (send_closed cr s.app _ hopen))

-- What a check leaves as the last text exchanged.
theorem tick_exchanged (cr : Crypto) {s : ClipSession} (h : Remembered s) {now : Nat} {focus : Bool}
    (hchecks : Checks s.app now focus) :
    ((ClipEvent.tick now focus).apply cr s).exchanged = s.app.clipboard ↔
      s.exchanged = s.app.clipboard ∨ s.app.transport.state = .Open ∧ s.app.clipboard ≠ s.app.lastRemoteClip := by
  have hlast : ((ClipEvent.tick now focus).apply cr s).exchanged =
      (s.app.sentClip cr (s.app.clipboardTick cr now focus)).getD s.exchanged := rfl
  have hidle : (s.app.clipboardTick cr now focus).transport = s.app.transport →
      ((ClipEvent.tick now focus).apply cr s).exchanged = s.exchanged := by
    intro htransport
    rw [hlast, sentClip_idle htransport, Option.getD_none]
  by_cases hnew : s.app.clipboard ≠ s.app.lastLocalClip ∧ s.app.clipboard ≠ s.app.lastRemoteClip
  · have htransport : (s.app.clipboardTick cr now focus).transport =
        (s.app.send cr (App.clipboardMessage s.app.clipboard)).transport := by
      unfold App.clipboardTick App.checkLocalClipboard App.sendClipboard
      dsimp only
      rw [if_pos ⟨hchecks.live, hchecks.due⟩, if_neg (by simp [hchecks.native, hchecks.control, hchecks.focused]),
        if_neg hchecks.text, if_pos hnew, if_neg (by simp [hchecks.control, hchecks.small])]
      exact send_transport cr s.app now _
    by_cases hopen : s.app.transport.state = .Open
    · rw [hlast, sentClip_sends htransport hopen]
      exact iff_of_true rfl (.inr ⟨hopen, hnew.2⟩)
    · rw [hidle (htransport.trans (send_closed cr s.app _ hopen))]
      exact ⟨.inl, fun hor => hor.resolve_right fun hand => hopen hand.1⟩
  · have htransport : (s.app.clipboardTick cr now focus).transport = s.app.transport := by
      obtain ⟨-, ⟨htransport, -⟩ | ⟨-, hlocal, hremote, -, -⟩⟩ := clipboardTick_step cr s.app now focus
      · exact htransport
      · exact absurd ⟨hlocal, hremote⟩ hnew
    rw [hidle htransport]
    refine ⟨.inl, ?_⟩
    rintro (hsame | ⟨hopen, hremote⟩)
    · exact hsame
    · rw [h hchecks.live hopen]
      exact (not_not.mp fun hlocal => hnew ⟨hlocal, hremote⟩).symm

theorem clipRuns_remembered {cr : Crypto} {past : List (ClipSession × ClipEvent)} {s : ClipSession}
    (run : Run (clipRuns cr) past s) : Remembered s :=
  run.invariant (fun _ s => Remembered s)
    (by rintro _ ⟨web, opts, store, text, rfl⟩ hlive; cases hlive)
    (by rintro _ s e _ hs ⟨hpossible, rfl⟩; exact hs.apply cr e hpossible)

-- In every reachable state a check leaves the local text exchanged exactly when it is
-- the last one exchanged anyway, or the transport is open and it is not the last one
-- received. A check never echoes, and checks and the button exchange what they send.
theorem local_copy_exchanged (cr : Crypto) {past : List (ClipSession × ClipEvent)} {s : ClipSession}
    (run : Run (clipRuns cr) past s) (now : Nat) (focus : Bool) :
    (Checks s.app now focus →
      (((ClipEvent.tick now focus).apply cr s).exchanged = s.app.clipboard ↔
        s.exchanged = s.app.clipboard ∨ s.app.transport.state = .Open ∧ s.app.clipboard ≠ s.app.lastRemoteClip)) ∧
      NoEcho cr s now focus ∧ Exchanges cr s (.tick now focus) ∧ Exchanges cr s (.button now) := by
  have hremembered := clipRuns_remembered run
  exact ⟨tick_exchanged cr hremembered, tick_noEcho cr hremembered now focus, own_exchanges cr s _ rfl,
    own_exchanges cr s _ rfl⟩

-- The session of connectEvents and deskHello: the client's public key, the transcript,
-- and what the key derivation gives, the key under which the host sends at last.
def clientPoint : Bytes :=
  [164, 224, 146, 146, 182, 81, 194, 120, 185, 119, 44, 86, 159, 95, 169, 187, 19, 217, 6, 180, 106, 182,
    140, 157, 249, 220, 43, 68, 9, 248, 162, 9]

def clientTranscript : Bytes :=
  [34, 191, 150, 129, 168, 214, 209, 15, 234, 184, 135, 133, 40, 75, 20, 245, 168, 78, 28, 183, 40, 163, 161,
    165, 189, 21, 50, 189, 248, 58, 245, 75]

def clientPrk : Bytes :=
  [98, 118, 96, 156, 250, 91, 146, 183, 41, 12, 60, 11, 201, 62, 59, 24, 101, 241, 69, 5, 36, 215, 86, 55,
    160, 88, 171, 188, 167, 131, 108, 107]

def clientKey : Bytes :=
  [47, 2, 66, 226, 155, 109, 129, 38, 137, 188, 141, 115, 139, 55, 155, 241, 83, 33, 8, 8, 225, 19, 128, 187,
    68, 139, 170, 43, 138, 183, 124, 59]

def hostKey : Bytes :=
  [132, 137, 40, 120, 71, 112, 221, 163, 77, 119, 43, 180, 229, 53, 80, 175, 137, 80, 94, 4, 183, 230, 97,
    136, 131, 233, 227, 208, 159, 195, 149, 123]

def sessionHashes : List (Bytes × Bytes) :=
  (ascii "TetherDesk v2" ++ clientPoint ++ basePoint ++ basePoint ++ List.replicate 16 7, clientTranscript) ::
    hmacHashes clientTranscript (clientPoint ++ clientPoint)
      [51, 182, 31, 177, 201, 215, 140, 77, 240, 20, 30, 33, 133, 74, 148, 123, 56, 108, 30, 78, 196, 16,
        241, 162, 117, 140, 168, 200, 59, 231, 224, 61] clientPrk ++
    hmacHashes clientPrk (ascii "tetherdesk keys" ++ [1])
      [46, 10, 230, 175, 191, 2, 207, 174, 157, 124, 202, 37, 159, 220, 54, 103, 4, 39, 240, 73, 124, 18,
        250, 205, 160, 219, 96, 72, 210, 9, 155, 217] clientKey ++
    hmacHashes clientPrk (clientKey ++ ascii "tetherdesk keys" ++ [2])
      [201, 110, 93, 8, 10, 76, 217, 250, 227, 167, 70, 244, 110, 214, 242, 53, 200, 133, 67, 88, 58, 41,
        200, 71, 206, 214, 25, 94, 76, 214, 94, 171] hostKey

def sessionPoints : List ((Bytes × Bytes) × Bytes) := [((List.replicate 32 1, basePoint), clientPoint)]

-- The host's AUTH_RESULT and its clipboard text a, and how they look sealed.
def loginResult : Bytes := putU8 RD_S_AUTH_RESULT ++ putU8 1 ++ putU8 0 ++ putStr (ascii "Hi")

def hostClip : Bytes := putU8 RD_S_CLIPBOARD ++ putBlob (ascii "a")

def sealedResult : Bytes := [213, 152, 204, 61, 96, 2, 237]

def sealedClip : Bytes := [226, 106, 212, 5, 70, 145]

def sessionStreams : List ((Bytes × Bytes × Bytes × Nat) × Bytes) :=
  [((loginResult, hostKey, ctrNonce 0, 1), sealedResult), ((sealedResult, hostKey, ctrNonce 0, 1), loginResult),
    ((hostClip, hostKey, ctrNonce 1, 1), sealedClip), ((sealedClip, hostKey, ctrNonce 1, 1), hostClip)]

def sessionTags : List ((Bytes × Bytes × Bytes × Bytes) × Bytes) :=
  [((sealedResult, [], hostKey, ctrNonce 0), [67, 99, 138, 245, 64, 96, 18, 185, 144, 206, 219, 165, 44,
    188, 73, 135]),
    ((sealedClip, [], hostKey, ctrNonce 1), [14, 211, 238, 140, 87, 110, 228, 21, 240, 181, 44, 181, 246,
      62, 155, 69])]

def rehearsed : Crypto where
  rdSha1 := reference.rdSha1
  rdSha256 := memo sessionHashes reference.rdSha256
  x25519 := fun scalar point => memo sessionPoints (fun p => reference.x25519 p.1 p.2) (scalar, point)
  rdChacha20 := fun input key nonce counter =>
    memo sessionStreams (fun p => reference.rdChacha20 p.1 p.2.1 p.2.2.1 p.2.2.2) (input, key, nonce, counter)
  aeadTag := fun ct ad key nonce =>
    memo sessionTags (fun p => reference.aeadTag p.1 p.2.1 p.2.2.1 p.2.2.2) (ct, ad, key, nonce)

theorem rehearsed_eq : rehearsed = reference := by
  have hhashes : ∀ p ∈ sessionHashes, reference.rdSha256 p.1 = p.2 := by decide +kernel
  have hpoints : ∀ p ∈ sessionPoints, reference.x25519 p.1.1 p.1.2 = p.2 := by decide +kernel
  have hstreams : ∀ p ∈ sessionStreams, reference.rdChacha20 p.1.1 p.1.2.1 p.1.2.2.1 p.1.2.2.2 =
      p.2 := by decide +kernel
  have htags : ∀ p ∈ sessionTags, reference.aeadTag p.1.1 p.1.2.1 p.1.2.2.1 p.1.2.2.2 = p.2 := by decide +kernel
  unfold rehearsed
  rw [memo_eq hhashes, memo_eq hpoints, memo_eq hstreams, memo_eq htags]

def hostMessage (cr : Crypto) (ctr : Nat) (msg : Bytes) : ClipEvent :=
  .app (.message ⟨0, 0, [], true⟩ (rdAeadSeal cr msg [] hostKey (ctrNonce ctr)))

-- The connection is up.
def dialled : List ClipEvent := [.app (.start deskPc (List.replicate 32 1) none), .app (.network .Open [])]

-- The login, the text a from the host, and the user copies b.
def copied (cr : Crypto) : List ClipEvent :=
  [.app .sayHello, .app (.message ⟨0, 0, [], true⟩ deskHello), hostMessage cr 0 loginResult,
    hostMessage cr 1 hostClip,
    .app (.copy (ascii "b"))]

-- Once b has been sent the user copies a.
def copiedAgain (cr : Crypto) : List ClipEvent := copied cr ++ [.tick 1000 true, .app (.copy (ascii "a"))]

def clipStart : ClipSession := ⟨App.new false trustingOptions (pinning []), []⟩

def clipSession (cr : Crypto) (events : List ClipEvent) : ClipSession :=
  (dialled ++ events).foldl (fun s e => e.apply cr s) clipStart

theorem dialled_run : ∃ past, Run (clipRuns reference) past (clipSession reference []) := by
  have start : Run (clipRuns reference) [] clipStart := .start ⟨_, _, _, _, rfl⟩
  let dial : ClipEvent := .app (.start deskPc (List.replicate 32 1) none)
  have hdial : Run (clipRuns reference) [(clipStart, dial)] (dial.apply reference clipStart) :=
    .next start ⟨trivial, rfl⟩
  have hwaits : (ClipEvent.app (.network .Open [])).Possible (dial.apply reference clipStart).app := fun _ => rfl
  exact ⟨_, .next hdial ⟨hwaits, rfl⟩⟩

-- The other events of a session may come in any state.
theorem clipSession_run {events : List ClipEvent} (h : ∀ e ∈ events, ∀ a, e.Possible a) :
    ∃ past, Run (clipRuns reference) past (clipSession reference events) := by
  induction events using List.reverseRecOn with
  | nil => exact dialled_run
  | append_singleton events e ih =>
      obtain ⟨past, run⟩ := ih fun e he => h e (List.mem_append_left _ he)
      refine ⟨_, .next run ⟨h e (List.mem_append_right _ List.mem_cons_self) _, ?_⟩⟩
      unfold clipSession
      rw [← List.append_assoc, List.foldl_concat]

theorem copiedAgain_possible : ∀ e ∈ copiedAgain reference, ∀ a, e.Possible a := by
  intro e he a
  simp only [copiedAgain, copied, List.cons_append, List.nil_append, List.mem_cons, List.not_mem_nil,
    or_false] at he
  rcases he with rfl | rfl | rfl | rfl | rfl | rfl | rfl <;> trivial

def clipFacts (a : App) (now : Nat) (text lastLocal : Bytes) : Bool :=
  a.web = false ∧ a.phase = .Live ∧ sub32 now a.lastClipCheck ≥ 1000 ∧ a.viewOnly = false ∧ a.clipboard = text ∧
    a.lastLocalClip = lastLocal ∧ a.lastRemoteClip = ascii "a" ∧ a.transport.state = .Open

theorem clipSession_facts :
    clipFacts (clipSession reference (copied reference)).app 1000 (ascii "b") (ascii "a") = true ∧
      clipFacts (clipSession reference (copiedAgain reference)).app 2000 (ascii "a") (ascii "b") = true := by
  rw [← rehearsed_eq]
  decide +kernel

-- What clipFacts says of a text that may be sent.
structure ReadyToCheck (a : App) (now : Nat) (text lastText : Bytes) : Prop where
  checks : Checks a now true
  text : a.clipboard = text
  lastLocal : a.lastLocalClip = lastText
  remote : a.lastRemoteClip = ascii "a"
  opened : a.transport.state = .Open

theorem clipFacts_ready {a : App} {now : Nat} {text lastLocal : Bytes} (h : clipFacts a now text lastLocal = true)
    (hne : text ≠ []) (hsmall : text.length ≤ RD_MAX_CLIPBOARD) : ReadyToCheck a now text lastLocal := by
  unfold clipFacts at h
  obtain ⟨hweb, hlive, hdue, hcontrol, htext, hlocal, hremote, hopened⟩ := of_decide_eq_true h
  exact ⟨⟨hweb, hlive, hdue, rfl, hcontrol, htext ▸ hne, htext ▸ hsmall⟩, htext, hlocal, hremote, hopened⟩

-- The copied b is exchanged.
theorem local_copy_exchanged_new :
    ((ClipEvent.tick 1000 true).apply reference (clipSession reference (copied reference))).exchanged =
      ascii "b" := by
  obtain ⟨past, run⟩ := clipSession_run fun e he => copiedAgain_possible e (List.mem_append_left _ he)
  have hready := clipFacts_ready clipSession_facts.1 (by decide) (by decide)
  rw [((local_copy_exchanged reference run 1000 true).1 hready.checks).mpr (.inr ⟨hready.opened, ?_⟩)]
  · exact hready.text
  · rw [hready.text, hready.remote]
    decide

-- The a copied after it is not: it was the last text from the host.
theorem local_copy_suppressed : ¬ ∀ past s, Run (clipRuns reference) past s → ∀ now focus,
    (Checks s.app now focus → ((ClipEvent.tick now focus).apply reference s).exchanged = s.app.clipboard) ∧
      NoEcho reference s now focus := by
  intro halways
  obtain ⟨past, run⟩ := clipSession_run copiedAgain_possible
  have hready := clipFacts_ready clipSession_facts.2 (by decide) (by decide)
  have hremembered := clipRuns_remembered run
  have hsent := (halways past _ run 2000 true).1 hready.checks
  rw [tick_exchanged reference hremembered hready.checks, hremembered hready.checks.live hready.opened, hready.text,
    hready.lastLocal, hready.remote] at hsent
  rcases hsent with hsame | ⟨-, hne⟩
  · exact absurd hsame (by decide)
  · exact hne rfl

end TetherDesk.Client
