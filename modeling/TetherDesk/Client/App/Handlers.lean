import TetherDesk.Client.App.Lemmas

namespace TetherDesk.Client

open TetherDesk.Secure

def App.pinned (a : App) : Bytes := a.store.knownFingerprint a.target.host a.target.port

-- What every handler but that of HELLO keeps: it pins nothing, calls no send_auth,
-- and leaves the connection as it is unless it gives it up or goes live.
structure Keeps (a a' : App) : Prop where
  authCalls : a'.authCalls = a.authCalls
  known : a'.store.known = a.store.known
  opened : a'.phase = .None ∨ a'.transport.state = a.transport.state
  phase : a'.phase = .None ∨ a'.ch.active = a.ch.active ∧ a'.authSent = a.authSent ∧
    (a'.phase = a.phase ∨ a.phase = .Auth ∧ a'.phase = .Live)

theorem Quiet.keeps {a a' : App} (h : Quiet a a') : Keeps a a' :=
  ⟨h.authCalls, congrArg Store.known h.store, .inr h.opened, .inr ⟨h.active, h.authSent, .inl h.phase⟩⟩

theorem GivenUp.keeps {a a' : App} (h : GivenUp a a') : Keeps a a' :=
  ⟨h.authCalls, h.known, .inl h.phase, .inl h.phase⟩

theorem Keeps.trans {a b c : App} (h₁ : Keeps a b) (h₂ : Keeps b c) : Keeps a c := by
  refine ⟨h₂.authCalls.trans h₁.authCalls, h₂.known.trans h₁.known, ?_, ?_⟩
  · rcases h₂.opened with hnone | hopened
    · exact .inl hnone
    · rcases h₁.opened with hnone | hopened'
      · rcases h₂.phase with hnone' | ⟨-, -, hsame | ⟨hauth, -⟩⟩
        · exact .inl hnone'
        · exact .inl (hsame.trans hnone)
        · rw [hnone] at hauth
          cases hauth
      · exact .inr (hopened.trans hopened')
  rcases h₂.phase with hnone | ⟨hactive, hsent, hphase⟩
  · exact .inl hnone
  · rcases h₁.phase with hnone | ⟨hactive', hsent', hphase'⟩
    · rcases hphase with hsame | ⟨hauth, -⟩
      · exact .inl (hsame.trans hnone)
      · rw [hnone] at hauth
        cases hauth
    · refine .inr ⟨hactive.trans hactive', hsent.trans hsent', ?_⟩
      rcases hphase with hsame | ⟨hauth, hlive⟩
      · rcases hphase' with hsame' | ⟨hauth', hlive'⟩
        · exact .inl (hsame.trans hsame')
        · exact .inr ⟨hauth', hsame.trans hlive'⟩
      · rcases hphase' with hsame' | ⟨-, hlive'⟩
        · exact .inr ⟨hsame'.symm.trans hauth, hlive⟩
        · rw [hauth] at hlive'
          cases hlive'

section Session

variable (cr : Crypto) (a : App) (io : AppIo) (r : Reader)

theorem toast_keeps (text : Bytes) (colour : Colour) (now : Nat) : Keeps a (a.toast text colour now) :=
  ⟨rfl, rfl, .inr rfl, .inr ⟨rfl, rfl, .inl rfl⟩⟩

theorem onDisplayInfo_keeps : Keeps a (a.onDisplayInfo io r) := by
  unfold App.onDisplayInfo
  dsimp only
  cases (readDisplayInfo r).flags <;> split_ifs <;> exact ⟨rfl, rfl, .inr rfl, .inr ⟨rfl, rfl, .inl rfl⟩⟩

theorem onFrame_keeps (wireBytes : Nat) : Keeps a (a.onFrame cr io r wireBytes) := by
  unfold App.onFrame
  cases Client.onFrame a.remote r with
  | none => exact (Quiet.refl a).keeps
  | some f =>
      have hack : Keeps a (App.send cr { a with remote := f.remote } (putU8 RD_C_FRAME_ACK ++ putU32 f.id)) := by
        refine Keeps.trans ?_ (send_quiet cr _ _).keeps
        exact ⟨rfl, rfl, .inr rfl, .inr ⟨rfl, rfl, .inl rfl⟩⟩
      dsimp only
      generalize App.send cr { a with remote := f.remote } (putU8 RD_C_FRAME_ACK ++ putU32 f.id) = b at hack ⊢
      split_ifs
      · have hrefresh : Keeps a (App.sendSimple cr { b with lastRefreshReq := io.ticks } RD_C_REFRESH) := by
          refine hack.trans (Keeps.trans ?_ (send_quiet cr _ _).keeps)
          exact ⟨rfl, rfl, .inr rfl, .inr ⟨rfl, rfl, .inl rfl⟩⟩
        exact ⟨hrefresh.authCalls, hrefresh.known, hrefresh.opened, hrefresh.phase⟩
      · exact ⟨hack.authCalls, hack.known, hack.opened, hack.phase⟩

theorem onClipboard_keeps : Keeps a (a.onClipboard io r) := by
  unfold App.onClipboard
  split
  · exact ⟨rfl, rfl, .inr rfl, .inr ⟨rfl, rfl, .inl rfl⟩⟩
  · exact (Quiet.refl a).keeps

theorem onChat_keeps : Keeps a (a.onChat io r) := by
  unfold App.onChat
  dsimp only
  split_ifs
  · exact toast_keeps a _ _ _
  · exact (Quiet.refl a).keeps

theorem onViewers_keeps : Keeps a (a.onViewers r) := ⟨rfl, rfl, .inr rfl, .inr ⟨rfl, rfl, .inl rfl⟩⟩

theorem onNotice_keeps : Keeps a (a.onNotice io r) := by
  unfold App.onNotice
  dsimp only
  split_ifs
  · exact toast_keeps a _ _ _
  · exact (Quiet.refl a).keeps

theorem onFileResult_keeps : Keeps a (a.onFileResult io r) := by
  unfold App.onFileResult
  dsimp only
  cases a.uploads.find? (·.id = (rdGetU32 r).1) with
  | none => exact (Quiet.refl a).keeps
  | some u => exact ⟨rfl, rfl, .inr rfl, .inr ⟨rfl, rfl, .inl rfl⟩⟩

end Session

section AuthResult

variable (cr : Crypto) (a : App) (io : AppIo)

theorem forgetPassword_eq : ∃ pcs, a.forgetPassword = { a with store.pcs := pcs } := by
  unfold App.forgetPassword
  cases a.store.find a.target.id with
  | none => exact ⟨a.store.pcs, rfl⟩
  | some pc =>
      dsimp only
      split_ifs
      · exact ⟨_, rfl⟩
      · exact ⟨a.store.pcs, rfl⟩

-- A refused login gives the connection up.
theorem onAuthFailed_givenUp (text : Bytes) : GivenUp a (a.onAuthFailed text) := by
  have hleft : Quiet a { a with reconnectAttempts := 0 }.leaveSession := by
    refine Quiet.trans ?_ (leaveSession_quiet _)
    exact ⟨rfl, rfl, rfl, rfl, rfl, rfl, rfl⟩
  unfold App.onAuthFailed
  generalize { a with reconnectAttempts := 0 }.leaveSession = b at hleft ⊢
  dsimp only
  split_ifs
  · obtain ⟨pcs, hpcs⟩ := forgetPassword_eq b
    have h := failConnect_givenUp b.forgetPassword text
    have hknown : b.store.known = a.store.known := congrArg Store.known hleft.store
    rw [hpcs] at h ⊢
    exact ⟨h.view.trans hleft.view, h.phase, h.authCalls.trans hleft.authCalls, h.known.trans hknown⟩
  · have h := failConnect_givenUp b text
    exact ⟨h.view.trans hleft.view, h.phase, h.authCalls.trans hleft.authCalls,
      h.known.trans (congrArg Store.known hleft.store)⟩

theorem rememberPc_keeps : Keeps a (a.rememberPc io) := by
  have hupsert : ∀ pc : SavedPc, (a.store.upsert pc).known = a.store.known := by
    intro pc
    unfold Store.upsert
    split_ifs <;> rfl
  unfold App.rememberPc
  dsimp only
  split_ifs
  all_goals first
    | exact ⟨rfl, hupsert _, .inr rfl, .inr ⟨rfl, rfl, .inl rfl⟩⟩
    | refine Keeps.trans ?_ (setFullscreen_quiet _ true).keeps
      exact ⟨rfl, hupsert _, .inr rfl, .inr ⟨rfl, rfl, .inl rfl⟩⟩

theorem greet_eq (text : Bytes) : ∃ toasts, a.greet io text = { a with toasts := toasts } := by
  unfold App.greet
  split_ifs <;> exact ⟨_, rfl⟩

theorem onAuthenticated_keeps (text : Bytes) (h : a.phase = .Auth) : Keeps a (a.onAuthenticated cr io text) := by
  obtain ⟨toasts, hgreet⟩ := greet_eq { a with phase := .Live, dialog := .None, screen := .Session } io text
  unfold App.onAuthenticated
  rw [hgreet]
  dsimp only
  generalize hb : App.sendSettings cr { a with
    phase := .Live
    dialog := .None
    screen := .Session
    toasts := toasts
    reconnectAttempts := 0
    statsT0 := io.ticks
    lastPing := io.ticks
    lastClipCheck := io.ticks
    lastThumb := sub32 io.ticks 25000
    lastLocalClip := a.clipboard } = b
  have hlive : Keeps a b := by
    rw [← hb]
    refine Keeps.trans ?_ (send_quiet cr _ _).keeps
    exact ⟨rfl, rfl, .inr rfl, .inr ⟨rfl, rfl, .inr ⟨h, rfl⟩⟩⟩
  have hmenu : Keeps a (if b.opts.openMenu then { b with menuOpen := true } else b) := by
    split_ifs
    · exact ⟨hlive.authCalls, hlive.known, hlive.opened, hlive.phase⟩
    · exact hlive
  generalize (if b.opts.openMenu then { b with menuOpen := true } else b) = c at hmenu ⊢
  split_ifs
  · exact ⟨hmenu.authCalls, hmenu.known, hmenu.opened, hmenu.phase⟩
  · refine Keeps.trans ?_ (rememberPc_keeps _ io)
    exact ⟨hmenu.authCalls, hmenu.known, hmenu.opened, hmenu.phase⟩
  · exact hmenu

theorem onAuthResult_keeps (r : Reader) : Keeps a (a.onAuthResult cr io r) := by
  unfold App.onAuthResult
  dsimp only
  split_ifs with hok hauth hvo
  · exact (onAuthFailed_givenUp a _).keeps
  · have h := onAuthenticated_keeps cr { a with viewOnly := decide ((rdGetU8 (rdGetU8 r).2).1 ≠ 0) } io
      (cStr (rdGetStr (rdGetU8 (rdGetU8 r).2).2 512).1) hauth
    exact ⟨h.authCalls, h.known, h.opened, h.phase⟩
  · have h := releaseInput_quiet cr ({ a with viewOnly := decide ((rdGetU8 (rdGetU8 r).2).1 ≠ 0) }.toast
      (cStr (rdGetStr (rdGetU8 (rdGetU8 r).2).2 512).1) .warn io.ticks)
    exact ⟨h.authCalls, congrArg Store.known h.store, .inr h.opened, .inr ⟨h.active, h.authSent, .inl h.phase⟩⟩
  · exact ⟨rfl, rfl, .inr rfl, .inr ⟨rfl, rfl, .inl rfl⟩⟩

end AuthResult

end TetherDesk.Client
