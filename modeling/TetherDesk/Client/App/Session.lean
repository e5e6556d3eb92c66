import TetherDesk.Client.App.Pinning

namespace TetherDesk.Client

open TetherDesk.Secure TetherDesk.Lib.Transition

-- The type of a delivered message and the reader behind it, none when the channel
-- rejects it.
def App.messageIn (cr : Crypto) (a : App) (m : Bytes) : Option (Nat × Reader) :=
  (a.openMessage cr m).1.map fun p => rdGetU8 (rdReaderInit p)

def sessionTypes : List Nat :=
  [RD_S_DISPLAY_INFO, RD_S_FRAME, RD_S_CLIPBOARD, RD_S_CHAT, RD_S_VIEWERS, RD_S_NOTICE, RD_S_FILE_RESULT]

-- The phases before the host's identity is accepted.
def Phase.early (p : Phase) : Bool := p = .Connecting ∨ p = .Hello ∨ p = .Verify

-- What one delivered message may do to the session's state.
structure ActsOnlyOnSession (cr : Crypto) (a : App) (io : AppIo) (m : Bytes) : Prop where
  session : ∀ type r, a.messageIn cr m = some (type, r) → type ∈ sessionTypes →
    (a.deliver cr io m).toSessionView ≠ a.toSessionView →
    a.ch.active = true ∧ 0 ≤ (rdChannelOpen cr a.ch m (List.replicate m.length 0)).1 ∧ a.authSent = true
  early : a.phase.early = true → a.helloIn cr m = none →
    (∀ r, a.messageIn cr m = some (RD_S_AUTH_RESULT, r) → (rdGetU8 r).1 ≠ 0) →
    (a.deliver cr io m).toSessionView = a.toSessionView

-- Before the host's identity is accepted no session message and no successful
-- AUTH_RESULT arrives; the trust button is pressed only when there are keys.
def SessionGuarded (cr : Crypto) (a : App) : AppEvent → Prop
  | .message _ m => a.phase.early = true → ∀ type r, a.messageIn cr m = some (type, r) →
      type ∉ sessionTypes ∧ (type = RD_S_AUTH_RESULT → (rdGetU8 r).1 = 0)
  | .trust => a.dialog = .Verify → a.ch.active = true
  | _ => True

-- Past phase Verify there are keys, and send_auth was called for the connection.
structure Accepted (a : App) : Prop where
  verify : a.phase = .Verify → a.ch.active = true
  signedIn : a.phase = .Auth ∨ a.phase = .Live → a.ch.active = true ∧ a.authSent = true

theorem Accepted.of_before {a : App} (h : a.phase = .None ∨ a.phase = .Connecting ∨ a.phase = .Hello) :
    Accepted a := by
  refine ⟨fun hv => ?_, fun hs => ?_⟩
  · rw [hv] at h
    simp at h
  · rcases hs with hs | hs <;> rw [hs] at h <;> simp at h

theorem Accepted.congr {a a' : App} (h : Accepted a) (hphase : a'.phase = a.phase)
    (hactive : a'.ch.active = a.ch.active) (hsent : a'.authSent = a.authSent) : Accepted a' := by
  refine ⟨fun hv => ?_, fun hs => ?_⟩
  · rw [hactive]
    exact h.verify (hphase.symm.trans hv)
  · rw [hactive, hsent]
    rw [hphase] at hs
    exact h.signedIn hs

theorem Accepted.steady {a a' : App} (h : Accepted a) (hs : Steady a a') : Accepted a' := by
  rcases hs.phase with hnone | hconnecting | hhello | ⟨hphase, hactive, hsent⟩
  · exact .of_before (.inl hnone)
  · exact .of_before (.inr (.inl hconnecting))
  · exact .of_before (.inr (.inr hhello))
  · exact h.congr hphase hactive hsent

theorem Accepted.keeps {a a' : App} (h : Accepted a) (hk : Keeps a a') : Accepted a' := by
  rcases hk.phase with hnone | ⟨hactive, hsent, hsame | ⟨hauth, hlive⟩⟩
  · exact .of_before (.inl hnone)
  · exact h.congr hsame hactive hsent
  · have hkeys := h.signedIn (.inl hauth)
    refine ⟨fun hv => ?_, fun _ => ?_⟩
    · rw [hlive] at hv
      cases hv
    · rw [hactive, hsent]
      exact hkeys

theorem Accepted.hello {cr : Crypto} {a a' : App} {h : HelloMsg} (hout : HelloOutcome cr a h a') : Accepted a' := by
  cases hout with
  | refused _ gone => exact .of_before (.inl gone.phase)
  | authenticating _ _ _ _ phase active authSent =>
      refine ⟨fun hv => ?_, fun _ => ⟨active, authSent⟩⟩
      rw [phase] at hv
      cases hv
  | asking _ _ _ _ phase active =>
      refine ⟨fun _ => active, fun hs => ?_⟩
      rw [phase] at hs
      simp at hs

section Step

variable (cr : Crypto) {a : App}

theorem Accepted.apply (h : Accepted a) (e : AppEvent) (hguard : SessionGuarded cr a e) :
    Accepted (e.apply cr a) := by
  by_cases hmessage : ∃ io m, e = .message io m
  · obtain ⟨io, m, rfl⟩ := hmessage
    unfold AppEvent.apply App.deliver
    dsimp only
    by_cases hnone : a.phase = .None
    · rw [if_pos hnone]
      exact h
    · rw [if_neg hnone]
      obtain ⟨-, hkeeps⟩ | ⟨hello, -, hout⟩ := handleMessage_cases cr a io m
      · exact h.keeps hkeeps
      · exact .hello hout
  · by_cases htrust : e = .trust
    · subst htrust
      unfold AppEvent.apply App.trust
      dsimp only
      by_cases hdialog : a.dialog = .Verify
      · rw [if_pos hdialog]
        have hauth := sendAuth_authed cr { a with store := a.store.trust a.target.host a.target.port a.hostFp }
        refine ⟨fun hv => ?_, fun _ => ⟨hauth.active.trans (hguard hdialog), hauth.authSent⟩⟩
        rw [hauth.phase] at hv
        cases hv
      · rw [if_neg hdialog]
        exact h
    · exact h.steady (apply_steady cr a e (fun io m he => hmessage ⟨io, m, he⟩) htrust)

-- Nothing but session messages and AUTH_RESULT touches the session's state.
theorem dispatch_view (io : AppIo) (p : Bytes) (htypes : (rdGetU8 (rdReaderInit p)).1 ∉ sessionTypes)
    (hresult : (rdGetU8 (rdReaderInit p)).1 = RD_S_AUTH_RESULT → (rdGetU8 (rdGetU8 (rdReaderInit p)).2).1 = 0) :
    (a.dispatch cr io p).toSessionView = a.toSessionView := by
  simp only [sessionTypes, List.mem_cons, List.not_mem_nil, or_false, not_or] at htypes
  obtain ⟨hdisplay, hframe, hclipboard, hchat, hviewers, hnotice, hfile⟩ := htypes
  unfold App.dispatch
  dsimp only
  rw [if_neg hdisplay, if_neg hframe, if_neg hclipboard, if_neg hchat, if_neg hviewers, if_neg hnotice,
    if_neg hfile]
  by_cases hhello : (rdGetU8 (rdReaderInit p)).1 = RD_S_HELLO
  · rw [if_pos hhello]
    cases onHello_outcome cr a (rdGetU8 (rdReaderInit p)).2 with
    | refused _ gone => exact gone.view
    | authenticating _ _ _ view => exact view
    | asking _ _ _ view => exact view
  · rw [if_neg hhello]
    by_cases hauth : (rdGetU8 (rdReaderInit p)).1 = RD_S_AUTH_RESULT
    · rw [if_pos hauth]
      unfold App.onAuthResult
      dsimp only
      rw [if_pos (hresult hauth)]
      exact (onAuthFailed_givenUp a _).view
    · rw [if_neg hauth]

theorem deliver_early (io : AppIo) (m : Bytes) (hearly : a.phase.early = true)
    (hguard : SessionGuarded cr a (.message io m)) : (a.deliver cr io m).toSessionView = a.toSessionView := by
  unfold App.deliver
  by_cases hnone : a.phase = .None
  · rw [if_pos hnone]
  · rw [if_neg hnone]
    have hin := hguard hearly
    obtain ⟨recvCtr, hopen⟩ := openMessage_eq cr a m
    unfold App.messageIn at hin
    unfold App.handleMessage
    generalize a.openMessage cr m = o at hin hopen ⊢
    obtain ⟨p, b⟩ := o
    dsimp only at hopen
    have hview : b.toSessionView = a.toSessionView := by rw [hopen]
    cases p with
    | none => exact (failConnect_givenUp b _).view.trans hview
    | some p =>
        obtain ⟨htypes, hresult⟩ := hin _ _ rfl
        exact (dispatch_view cr io p htypes hresult).trans hview

theorem Accepted.acts (h : Accepted a) (io : AppIo) (m : Bytes) (hguard : SessionGuarded cr a (.message io m)) :
    ActsOnlyOnSession cr a io m := by
  refine ⟨fun type r hin _ hchanged => ?_, fun hearly _ _ => deliver_early cr io m hearly hguard⟩
  have hphase : a.phase = .Auth ∨ a.phase = .Live := by
    by_contra hphase
    refine hchanged ?_
    by_cases hnone : a.phase = .None
    · unfold App.deliver
      rw [if_pos hnone]
    · refine deliver_early cr io m ?_ hguard
      cases hp : a.phase <;> simp_all [Phase.early]
  obtain ⟨hactive, hsent⟩ := h.signedIn hphase
  refine ⟨hactive, ?_, hsent⟩
  by_contra hneg
  unfold App.messageIn App.openMessage at hin
  rw [if_neg (by simp [hactive])] at hin
  dsimp only at hin
  rw [if_pos (by omega)] at hin
  cases hin

end Step

-- In a run that keeps the guard every delivered message acts only on an
-- authenticated session.
theorem acts_only_on_session (cr : Crypto) {past : List (App × AppEvent)} {a : App}
    (run : Run (appRuns cr) past a) (hguard : ∀ p ∈ past, SessionGuarded cr p.1 p.2) :
    ∀ b io m, (b, AppEvent.message io m) ∈ past → ActsOnlyOnSession cr b io m := by
  intro b io m hmem
  obtain ⟨before, after, rfl⟩ := List.append_of_mem hmem
  have hb : Accepted b := by
    refine run.before.guarded (SessionGuarded cr) (fun _ a => Accepted a) ?_ ?_ ?_
    · rintro _ ⟨web, opts, store, rfl⟩
      exact .of_before (.inl rfl)
    · rintro _ s e _ hs hg rfl
      exact hs.apply cr e hg
    · exact fun p hp => hguard p (List.mem_append_left _ hp)
  exact hb.acts cr io m (hguard _ hmem)

-- The host answers with its HELLO.
theorem acts_only_on_session_hello :
    let a := helloSent (rdFingerprint reference basePoint)
    (a.deliver reference ⟨0, 0, [], true⟩ deskHello).phase = .Auth ∧
      ActsOnlyOnSession reference a ⟨0, 0, [], true⟩ deskHello := by
  intro a
  have run := appRuns_next reference (helloSent_run (rdFingerprint reference basePoint))
    (.message ⟨0, 0, [], true⟩ deskHello)
  refine ⟨by decide +kernel, acts_only_on_session reference run ?_ a _ deskHello ?_⟩
  · intro p hp
    simp only [connectEvents, history, List.cons_append, List.nil_append, List.mem_cons, List.not_mem_nil,
      or_false] at hp
    rcases hp with rfl | rfl | rfl | rfl
    · trivial
    · trivial
    · trivial
    · have htype : (a.messageIn reference deskHello).map Prod.fst = some RD_S_HELLO := by decide
      intro _ type r hin
      rw [hin] at htype
      obtain rfl := Option.some.inj htype
      exact ⟨by decide, fun h => absurd h (by decide)⟩
  · exact List.mem_append_right _ List.mem_cons_self

-- A clipboard message in the clear, before any key exists.
def plainClipboard : Bytes := putU8 RD_S_CLIPBOARD ++ putBlob (ascii "echo pwned")

theorem unauthenticated_clipboard :
    ¬ ∀ (past : List (App × AppEvent)) (a : App), Run (appRuns reference) past a →
      ∀ b io m, (b, AppEvent.message io m) ∈ past → ActsOnlyOnSession reference b io m := by
  intro halways
  let a := helloSent []
  have run := appRuns_next reference (helloSent_run []) (.message ⟨0, 0, [], true⟩ plainClipboard)
  have hacts := halways _ _ run a _ plainClipboard (List.mem_append_right _ List.mem_cons_self)
  have htype : (a.messageIn reference plainClipboard).map Prod.fst = some RD_S_CLIPBOARD := by decide
  obtain ⟨⟨type, r⟩, hin, rfl⟩ := Option.map_eq_some_iff.mp htype
  have hchanged : (a.deliver reference ⟨0, 0, [], true⟩ plainClipboard).toSessionView ≠ a.toSessionView := by
    intro hsame
    have h := congrArg SessionView.clipboard hsame
    revert h
    decide
  have hkeys := (hacts.session _ r hin (by decide) hchanged).1
  revert hkeys
  decide

end TetherDesk.Client
