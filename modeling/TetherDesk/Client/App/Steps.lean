import TetherDesk.Client.App.Handlers

namespace TetherDesk.Client

open TetherDesk.Secure

-- What a HELLO leads to.
inductive HelloOutcome (cr : Crypto) (a : App) (h : HelloMsg) (a' : App) : Prop
  | refused (reject : a.acceptHello cr h = none) (gone : GivenUp a a')
  | authenticating (accept : (a.acceptHello cr h).isSome = true)
      (trusted : a.web = true ∨ a.opts.trustNewHosts = true ∨ a.pinned = rdFingerprint cr h.ss)
      (known : a'.store.known = a.store.known ∨ a.web = false ∧ a.pinned = [] ∧
        a'.store = a.store.trust a.target.host a.target.port (rdFingerprint cr h.ss))
      (view : a'.toSessionView = a.toSessionView) (phase : a'.phase = .Auth) (active : a'.ch.active = true)
      (authSent : a'.authSent = true) (authCalls : a'.authCalls = a.authCalls + 1)
  | asking (accept : (a.acceptHello cr h).isSome = true)
      (untrusted : ¬(a.web = true ∨ a.opts.trustNewHosts = true ∨ a.pinned = rdFingerprint cr h.ss))
      (known : a'.store.known = a.store.known) (view : a'.toSessionView = a.toSessionView)
      (phase : a'.phase = .Verify) (active : a'.ch.active = true) (authSent : a'.authSent = a.authSent)
      (authCalls : a'.authCalls = a.authCalls)

section Dispatch

variable (cr : Crypto) (a : App) (io : AppIo)

theorem onHello_outcome (r : Reader) : HelloOutcome cr a (readHello r) (a.onHello cr r) := by
  unfold App.onHello
  generalize readHello r = h
  dsimp only
  cases hacc : a.acceptHello cr h with
  | none => exact .refused hacc (failConnect_givenUp a _)
  | some dh =>
      obtain ⟨dh1, dh2⟩ := dh
      have haccept : (a.acceptHello cr h).isSome = true := by rw [hacc]; rfl
      dsimp only
      split_ifs with htrusted hnew
      · have hauth := sendAuth_authed cr { a with
          transcript := rdHsTranscript cr a.ce h.ss h.se h.nonce
          ch := rdHsKeys cr dh1 dh2 (rdHsTranscript cr a.ce h.ss h.se h.nonce) false
          cePriv := List.replicate 32 0
          hostName := h.name
          hostOs := h.os
          hostFp := rdFingerprint cr h.ss
          verifyOldFp := a.store.knownFingerprint a.target.host a.target.port
          store := a.store.trust a.target.host a.target.port (rdFingerprint cr h.ss) }
        exact .authenticating haccept htrusted (.inr ⟨by simpa using hnew.1, hnew.2, hauth.store⟩) hauth.view
          hauth.phase hauth.active hauth.authSent hauth.authCalls
      · have hauth := sendAuth_authed cr { a with
          transcript := rdHsTranscript cr a.ce h.ss h.se h.nonce
          ch := rdHsKeys cr dh1 dh2 (rdHsTranscript cr a.ce h.ss h.se h.nonce) false
          cePriv := List.replicate 32 0
          hostName := h.name
          hostOs := h.os
          hostFp := rdFingerprint cr h.ss
          verifyOldFp := a.store.knownFingerprint a.target.host a.target.port }
        exact .authenticating haccept htrusted (.inl (congrArg Store.known hauth.store)) hauth.view
          hauth.phase hauth.active hauth.authSent hauth.authCalls
      · exact .asking haccept htrusted rfl rfl rfl rfl rfl rfl

theorem dispatch_keeps (m : Bytes) (h : (rdGetU8 (rdReaderInit m)).1 ≠ RD_S_HELLO) :
    Keeps a (a.dispatch cr io m) := by
  unfold App.dispatch
  dsimp only
  rw [if_neg h]
  split_ifs
  · exact onAuthResult_keeps cr a io _
  · exact onDisplayInfo_keeps a io _
  · exact onFrame_keeps cr a io _ _
  · exact onClipboard_keeps a io _
  · exact onChat_keeps a io _
  · exact onViewers_keeps a _
  · exact onNotice_keeps a io _
  · exact onFileResult_keeps a io _
  · exact (Quiet.refl a).keeps

theorem openMessage_eq (m : Bytes) :
    ∃ recvCtr, (a.openMessage cr m).2 = { a with ch := { a.ch with recvCtr := recvCtr } } := by
  unfold App.openMessage
  split_ifs
  · exact ⟨a.ch.recvCtr, rfl⟩
  · obtain ⟨recvCtr, hch⟩ := rdChannelOpen_channel cr a.ch m (List.replicate m.length 0)
    dsimp only
    split_ifs
    · exact ⟨a.ch.recvCtr, rfl⟩
    · exact ⟨recvCtr, by rw [hch]⟩

end Dispatch

-- The HELLO a message brings when it passes the checks of the handshake.
def App.helloIn (cr : Crypto) (a : App) (m : Bytes) : Option HelloMsg :=
  match (a.openMessage cr m).1 with
  | none => none
  | some p =>
      let (type, r) := rdGetU8 (rdReaderInit p)
      if type = RD_S_HELLO ∧ (a.acceptHello cr (readHello r)).isSome then some (readHello r) else none

section Handle

variable (cr : Crypto) (a : App) (io : AppIo) (m : Bytes)

-- Handling a message is refusing it, an accepted HELLO, or something that keeps the
-- connection's standing.
theorem handleMessage_cases :
    (a.helloIn cr m = none ∧ Keeps a (a.handleMessage cr io m)) ∨
    ∃ h, a.helloIn cr m = some h ∧ HelloOutcome cr a h (a.handleMessage cr io m) := by
  obtain ⟨recvCtr, hopen⟩ := openMessage_eq cr a m
  unfold App.handleMessage App.helloIn
  generalize a.openMessage cr m = o at hopen ⊢
  obtain ⟨p, b⟩ := o
  dsimp only at hopen
  have hquiet : Quiet a b := by rw [hopen]; exact ⟨rfl, rfl, rfl, rfl, rfl, rfl, rfl⟩
  cases p with
  | none => exact .inl ⟨rfl, hquiet.keeps.trans (failConnect_givenUp b _).keeps⟩
  | some p =>
      dsimp only
      by_cases htype : (rdGetU8 (rdReaderInit p)).1 = RD_S_HELLO
      · have hhello : b.dispatch cr io p = b.onHello cr (rdGetU8 (rdReaderInit p)).2 := by
          unfold App.dispatch
          exact if_pos htype
        have hsame : b.acceptHello cr (readHello (rdGetU8 (rdReaderInit p)).2) =
            a.acceptHello cr (readHello (rdGetU8 (rdReaderInit p)).2) := by
          rw [hopen]
          rfl
        rw [hhello]
        have hout := onHello_outcome cr b (rdGetU8 (rdReaderInit p)).2
        cases hacc : a.acceptHello cr (readHello (rdGetU8 (rdReaderInit p)).2) with
        | none =>
            refine .inl ⟨if_neg (by simp), ?_⟩
            cases hout with
            | refused _ gone => exact hquiet.keeps.trans gone.keeps
            | authenticating accept => rw [hsame, hacc] at accept; cases accept
            | asking accept => rw [hsame, hacc] at accept; cases accept
        | some dh =>
            refine .inr ⟨_, if_pos ⟨htype, rfl⟩, ?_⟩
            subst hopen
            cases hout with
            | refused reject => rw [hsame, hacc] at reject; cases reject
            | authenticating _ trusted known view phase active authSent authCalls =>
                exact .authenticating (by rw [hacc]; rfl) trusted known view phase active authSent authCalls
            | asking _ untrusted known view phase active authSent authCalls =>
                exact .asking (by rw [hacc]; rfl) untrusted known view phase active authSent authCalls
      · exact .inl ⟨if_neg fun h => htype h.1, hquiet.keeps.trans (dispatch_keeps cr b io p htype)⟩

end Handle

-- What the other events do: nothing to the proof and the pins, and at most a new or
-- an ended connection.
structure Steady (a a' : App) : Prop where
  authCalls : a'.authCalls = a.authCalls
  known : a'.store.known = a.store.known
  phase : a'.phase = .None ∨ a'.phase = .Connecting ∨ a'.phase = .Hello ∨
    a'.phase = a.phase ∧ a'.ch.active = a.ch.active ∧ a'.authSent = a.authSent

theorem Quiet.steady {a a' : App} (h : Quiet a a') : Steady a a' :=
  ⟨h.authCalls, congrArg Store.known h.store, .inr (.inr (.inr ⟨h.phase, h.active, h.authSent⟩))⟩

theorem Steady.trans {a b c : App} (h₁ : Steady a b) (h₂ : Steady b c) : Steady a c := by
  refine ⟨h₂.authCalls.trans h₁.authCalls, h₂.known.trans h₁.known, ?_⟩
  rcases h₂.phase with h | h | h | ⟨hphase, hactive, hsent⟩
  · exact .inl h
  · exact .inr (.inl h)
  · exact .inr (.inr (.inl h))
  · rcases h₁.phase with h | h | h | ⟨hphase', hactive', hsent'⟩
    · exact .inl (hphase.trans h)
    · exact .inr (.inl (hphase.trans h))
    · exact .inr (.inr (.inl (hphase.trans h)))
    · exact .inr (.inr (.inr ⟨hphase.trans hphase', hactive.trans hactive', hsent.trans hsent'⟩))

theorem GivenUp.steady {a a' : App} (h : GivenUp a a') : Steady a a' := ⟨h.authCalls, h.known, .inl h.phase⟩

section Events

variable (cr : Crypto) (a : App)

theorem startConnect_steady (priv : Bytes) (failed : Option Bytes) : Steady a (a.startConnect cr priv failed) := by
  have hstart : Steady a { a with error := [], dialogError := [] } :=
    ⟨rfl, rfl, .inr (.inr (.inr ⟨rfl, rfl, rfl⟩))⟩
  unfold App.startConnect
  dsimp only
  by_cases hhost : a.target.host = []
  · rw [if_pos hhost]
    exact hstart.trans (failConnect_givenUp _ _).steady
  · rw [if_neg hhost]
    by_cases hport : relayIdOf a.target.host = [] ∧ (a.target.port ≤ 0 ∨ a.target.port > 65535)
    · rw [if_pos hport]
      exact hstart.trans (failConnect_givenUp _ _).steady
    · rw [if_neg hport]
      exact ⟨rfl, rfl, .inr (.inl rfl)⟩

theorem beginConnect_steady (pc : SavedPc) (priv : Bytes) (failed : Option Bytes) :
    Steady a (a.beginConnect cr pc priv failed) := by
  unfold App.beginConnect
  dsimp only
  generalize (if pc.userName = [] then { pc with userName := a.opts.name } else pc) = target
  split_ifs
  · exact ⟨rfl, rfl, .inr (.inr (.inr ⟨rfl, rfl, rfl⟩))⟩
  · refine Steady.trans ?_ (startConnect_steady cr _ priv failed)
    exact ⟨rfl, rfl, .inr (.inr (.inr ⟨rfl, rfl, rfl⟩))⟩

theorem disconnectUser_steady : Steady a (a.disconnectUser cr) := by
  have hrelease : Quiet a ({ a with userClosed := true }.releaseInput cr) := by
    refine Quiet.trans ?_ (releaseInput_quiet cr _)
    exact ⟨rfl, rfl, rfl, rfl, rfl, rfl, rfl⟩
  unfold App.disconnectUser
  generalize { a with userClosed := true }.releaseInput cr = b at hrelease ⊢
  refine Steady.trans ?_ (setFullscreen_quiet _ false).steady
  exact ⟨hrelease.authCalls, congrArg Store.known hrelease.store, .inl rfl⟩

theorem onTransportClosed_steady (now : Nat) : Steady a (a.onTransportClosed now) := by
  have hleft : ∀ b : App, Quiet b b.leaveSession := leaveSession_quiet
  unfold App.onTransportClosed
  dsimp only
  generalize (if a.transport.error = [] then ascii "Disconnected" else a.transport.error) = why
  split_ifs
  · exact ⟨rfl, rfl, .inl rfl⟩
  · exact ⟨rfl, rfl, .inl rfl⟩
  all_goals
    have h := hleft { a with
      phase := .None, uploads := [], held := [], buttons := 0, reconnectAttempts := 0 }
    generalize App.leaveSession { a with
      phase := .None, uploads := [], held := [], buttons := 0, reconnectAttempts := 0 } = b at h ⊢
  · refine Steady.trans ?_ (failConnect_givenUp _ _).steady
    exact ⟨h.authCalls, congrArg Store.known h.store, .inl h.phase⟩
  · exact ⟨h.authCalls, congrArg Store.known h.store, .inl h.phase⟩

theorem apply_steady (e : AppEvent) (hmessage : ∀ io m, e ≠ .message io m) (htrust : e ≠ .trust) :
    Steady a (e.apply cr a) := by
  have hsame : ∀ b : App, b.authCalls = a.authCalls → b.store.known = a.store.known → b.phase = a.phase →
      b.ch = a.ch → b.authSent = a.authSent → Steady a b := fun b h₁ h₂ h₃ h₄ h₅ =>
    ⟨h₁, h₂, .inr (.inr (.inr ⟨h₃, congrArg Channel.active h₄, h₅⟩))⟩
  cases e with
  | message io m => exact absurd rfl (hmessage io m)
  | trust => exact absurd rfl htrust
  | sayHello =>
      unfold AppEvent.apply App.sayHello
      dsimp only
      split_ifs
      · have h := send_quiet cr a (putU8 RD_C_HELLO ++ putU16 RD_PROTO_VERSION ++ putStr (ascii "Viewer") ++ a.ce)
        exact ⟨h.authCalls, congrArg Store.known h.store, .inr (.inr (.inl rfl))⟩
      · have h := send_quiet cr a (putU8 RD_C_HELLO ++ putU16 RD_PROTO_VERSION ++ putStr a.target.userName ++ a.ce)
        exact ⟨h.authCalls, congrArg Store.known h.store, .inr (.inr (.inl rfl))⟩
      · exact (Quiet.refl a).steady
  | closed now =>
      unfold AppEvent.apply App.noticeClosed
      dsimp only
      split_ifs
      · exact onTransportClosed_steady a now
      · exact (Quiet.refl a).steady
  | reconnect now priv failed =>
      unfold AppEvent.apply App.reconnect
      dsimp only
      split_ifs
      · exact (hsame { a with reconnectAt := 0 } rfl rfl rfl rfl rfl).trans (startConnect_steady cr _ priv failed)
      · exact (Quiet.refl a).steady
  | network state error => exact hsame _ rfl rfl rfl rfl rfl
  | connect pc priv failed => exact beginConnect_steady cr a pc priv failed
  | start pc priv failed =>
      exact (hsame { a with target := pc } rfl rfl rfl rfl rfl).trans (startConnect_steady cr _ priv failed)
  | password pw remember priv failed =>
      unfold AppEvent.apply
      dsimp only
      split_ifs
      · refine Steady.trans ?_ (startConnect_steady cr _ priv failed)
        unfold App.enterPassword
        dsimp only
        cases a.store.find a.target.id with
        | none => exact hsame _ rfl rfl rfl rfl rfl
        | some pc => exact hsame _ rfl rfl rfl rfl rfl
      · exact (Quiet.refl a).steady
  | disconnect => exact disconnectUser_steady cr a
  | form dialog =>
      unfold AppEvent.apply
      dsimp only
      split_ifs
      · exact hsame _ rfl rfl rfl rfl rfl
      · exact (Quiet.refl a).steady
  | copy text => exact hsame _ rfl rfl rfl rfl rfl
  | expireToasts now => exact hsame _ rfl rfl rfl rfl rfl
  | session msg =>
      unfold AppEvent.apply
      dsimp only
      split_ifs
      · exact (send_quiet cr a msg).steady
      · exact (Quiet.refl a).steady
  | uploads queue =>
      unfold AppEvent.apply
      dsimp only
      split_ifs
      · exact hsame _ rfl rfl rfl rfl rfl
      · exact (Quiet.refl a).steady
  | chat text now =>
      unfold AppEvent.apply
      dsimp only
      split_ifs
      · have h := (send_quiet cr a (putU8 RD_C_CHAT ++ putStr text)).steady
        exact ⟨h.authCalls, h.known, h.phase⟩
      · exact (Quiet.refl a).steady

end Events

end TetherDesk.Client
