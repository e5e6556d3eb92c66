import TetherDesk.Host.Server.Runs
import TetherDesk.Host.Server.Stranger
import TetherDesk.Host.Server.Rehearsal

namespace TetherDesk.Host

open TetherDesk.Net TetherDesk.Secure TetherDesk.Lib.Table TetherDesk.Lib.Transition

section Statements

variable {σ : Type} (cr : Crypto)

-- In state s a HELLO with the current version completes the key exchange on the
-- connection uid; transcript and keys are what it leaves there.
def Greets (s : Server σ) (uid : Nat) (io : Io) (transcript : Bytes) (keys : Channel) : Prop :=
  ∃ c ∈ s.conns, c.uid = uid ∧ c.state = .Hello ∧ ∃ r ce dh1 dh2,
    c.messageIn cr = some (RD_C_HELLO, r) ∧ (readClientHello r).version = RD_PROTO_VERSION ∧
    (readClientHello r).ce = some ce ∧ keyAgreement cr s.cfg ce io = some (dh1, dh2) ∧
    transcript = rdHsTranscript cr ce s.cfg.staticPub (rdX25519Base cr (io.random 1)) (io.random 0) ∧
    keys = rdHsKeys cr dh1 dh2 transcript true

-- In state s an AUTH message behind these keys proves on the connection uid that the
-- other side knows the password in force, while its address is not locked out and
-- fewer than max_viewers are active.
def Proves (s : Server σ) (uid : Nat) (io : Io) (transcript : Bytes) (keys : Channel) : Prop :=
  ∃ c ∈ s.conns, c.uid = uid ∧ c.state = .Auth ∧ c.transcript = transcript ∧
    (∃ sendCtr recvCtr, c.ch = { keys with sendCtr := sendCtr, recvCtr := recvCtr }) ∧
    (∃ r, c.messageIn cr = some (RD_C_AUTH, r) ∧
      (rdGetBytes r RD_MAC_LEN).1 = some (rdHsAuthMac cr s.cfg.password transcript)) ∧
    (lockedOut s.guard c.addr (io.now 0) (io.now 1)).1 = none ∧ s.activeCount < s.cfg.maxViewers

def Greeted (past : List (Server σ × ServerEvent σ)) (c : Conn) : Prop :=
  ∃ before s io after, past = before ++ (s, .message c.uid io) :: after ∧
    ∃ keys, Greets cr s c.uid io c.transcript keys ∧
      ∃ sendCtr recvCtr, c.ch = { keys with sendCtr := sendCtr, recvCtr := recvCtr }

-- First the HELLO and later the AUTH message of the connection.
def LoggedIn (past : List (Server σ × ServerEvent σ)) (c : Conn) : Prop :=
  ∃ before s₁ io₁ between s₂ io₂ after,
    past = before ++ (s₁, .message c.uid io₁) :: between ++ (s₂, .message c.uid io₂) :: after ∧
    ∃ keys, Greets cr s₁ c.uid io₁ c.transcript keys ∧ Proves cr s₂ c.uid io₂ c.transcript keys

-- What is true of a connection by its state.
def Known (past : List (Server σ × ServerEvent σ)) (c : Conn) : Prop :=
  (c.state = .Auth → Greeted cr past c) ∧ (c.state = .Active → LoggedIn cr past c)

end Statements

section Rows

variable {σ : Type} (cr : Crypto) {past : List (Server σ × ServerEvent σ)} {s : Server σ} {e : ServerEvent σ}
  {c c' : Conn}

theorem Greeted.concat (h : Greeted cr past c) (huid : c'.uid = c.uid) (htranscript : c'.transcript = c.transcript)
    (hch : ∃ sendCtr recvCtr, c'.ch = { c.ch with sendCtr := sendCtr, recvCtr := recvCtr })
    (p : Server σ × ServerEvent σ) :
    Greeted cr (past ++ [p]) c' := by
  obtain ⟨before, s₁, io, after, rfl, keys, hgreets, sendCtr, recvCtr, hkeys⟩ := h
  obtain ⟨sendCtr', recvCtr', hch⟩ := hch
  refine ⟨before, s₁, io, after ++ [p], by simp [huid], keys, ?_, sendCtr', recvCtr', ?_⟩
  · rw [huid, htranscript]
    exact hgreets
  · rw [hch, hkeys]

theorem LoggedIn.concat (h : LoggedIn cr past c) (huid : c'.uid = c.uid)
    (htranscript : c'.transcript = c.transcript)
    (p : Server σ × ServerEvent σ) : LoggedIn cr (past ++ [p]) c' := by
  obtain ⟨before, s₁, io₁, between, s₂, io₂, after, rfl, keys, hgreets, hproves⟩ := h
  refine ⟨before, s₁, io₁, between, s₂, io₂, after ++ [p], by simp [huid], keys, ?_⟩
  rw [huid, htranscript]
  exact ⟨hgreets, hproves⟩

-- The verdict ok, unfolded.
theorem authVerdict_ok {r : Reader} {io : Io} (h : (s.authVerdict cr c r io).1 = .ok) :
    (lockedOut s.guard c.addr (io.now 0) (io.now 1)).1 = none ∧
      (rdGetBytes r RD_MAC_LEN).1 = some (rdHsAuthMac cr s.cfg.password c.transcript) ∧
        s.activeCount < s.cfg.maxViewers := by
  unfold Server.authVerdict authAttempt Io.authTimes at h
  dsimp only at h
  generalize lockedOut s.guard c.addr (io.now 0) (io.now 1) = locked at h ⊢
  obtain ⟨wait, guard⟩ := locked
  cases wait with
  | some secondsLeft => cases h
  | none =>
      dsimp only at h
      by_cases hmac : (!authMacOk cr s.cfg c r) = true
      · rw [if_pos hmac] at h
        cases h
      rw [if_neg hmac] at h
      by_cases hfull : decide (s.activeCount ≥ s.cfg.maxViewers) = true
      · rw [if_pos hfull] at h
        cases h
      refine ⟨rfl, ?_, by simpa using hfull⟩
      unfold authMacOk at hmac
      cases hread : (rdGetBytes r RD_MAC_LEN).1 with
      | none =>
          rw [hread] at hmac
          simp at hmac
      | some mac =>
          rw [hread] at hmac
          simpa [rdCtEqual] using hmac

theorem Step.known (h : Step cr s e c c') (hc : c ∈ s.conns) (hknown : Known cr past c) :
    Known cr (past ++ [(s, e)]) c' := by
  have huid : c'.uid = c.uid := congrArg Prod.fst h.identity
  have hsame : SameSession c c' → Known cr (past ++ [(s, e)]) c' := by
    intro hsession
    obtain ⟨hstate, -, -, htranscript, -⟩ := hsession.eqs
    obtain ⟨sendCtr, recvCtr, hsession⟩ := hsession
    refine ⟨fun h => ?_, fun h => ?_⟩
    · exact (hknown.1 (hstate ▸ h)).concat cr huid htranscript ⟨sendCtr, recvCtr,
        (congrArg Session.ch hsession).trans rfl⟩ _
    · exact (hknown.2 (hstate ▸ h)).concat cr huid htranscript _
  have hother : c'.state ≠ .Auth → c'.state ≠ .Active → Known cr (past ++ [(s, e)]) c' := fun hauth hactive =>
    ⟨fun h => absurd h hauth, fun h => absurd h hactive⟩
  -- the row of a served or toggled viewer keeps its state and transcript
  have hstays : c.state = .Active → c'.state = .Active → c'.transcript = c.transcript →
      Known cr (past ++ [(s, e)]) c' := by
    intro hactive hactive' htranscript
    refine ⟨fun h => ?_, fun _ => (hknown.2 hactive).concat cr huid htranscript _⟩
    rw [hactive'] at h
    cases h
  cases h.changed with
  | quiet session _ _ _ => exact hsame session
  | upgraded before _ _ _ =>
      rcases before with ⟨-, h, -⟩ | ⟨-, h⟩
      · exact hother (by rw [h]; decide) (by rw [h]; decide)
      · refine hother ?_ ?_
        · rw [h]
          split <;> decide
        · rw [h]
          split <;> decide
  | answered before _ session _ _ => exact hsame (.of_eq session)
  | incompatible before _ _ _ session _ _ =>
      have h := session.eqs.1.trans before
      exact hother (by rw [h]; decide) (by rw [h]; decide)
  | keyFailed before _ _ session _ _ =>
      have h := session.eqs.1.trans before
      exact hother (by rw [h]; decide) (by rw [h]; decide)
  | greeted io r ce dh1 dh2 before _ event message version key agreed session _ _ =>
      have hstate : c'.state = .Auth := (congrArg Session.state session).trans rfl
      refine ⟨fun _ => ?_, fun h => ?_⟩
      · have htranscript : c'.transcript =
            rdHsTranscript cr ce s.cfg.staticPub (rdX25519Base cr (io.random 1)) (io.random 0) :=
          (congrArg Session.transcript session).trans rfl
        refine ⟨past, s, io, [], by rw [huid, event], rdHsKeys cr dh1 dh2 c'.transcript true, ?_, 0, 0, ?_⟩
        · exact ⟨c, hc, huid.symm, before, r, ce, dh1, dh2, message, version, key, agreed, htranscript, rfl⟩
        · rw [htranscript]
          exact (congrArg Session.ch session).trans rfl
      · rw [hstate] at h
        cases h
  | refused _ _ _ _ _ _ _ session _ _ =>
      have h : c'.state = .Closing := session.eqs.1
      exact hother (by rw [h]; decide) (by rw [h]; decide)
  | authenticated io r before _ event message verdict session _ _ =>
      have hstate : c'.state = .Active := session.eqs.1
      have htranscript : c'.transcript = c.transcript := session.eqs.2.2.2.1
      refine ⟨fun h => ?_, fun _ => ?_⟩
      · rw [hstate] at h
        cases h
      · obtain ⟨before', s₁, io₁, after, rfl, keys, hgreets, hkeys⟩ := hknown.1 before
        obtain ⟨hunlocked, hmac, hroom⟩ := authVerdict_ok cr verdict
        refine ⟨before', s₁, io₁, after, s, io, [], by simp [huid, event], keys, ?_, c, hc, huid.symm, before, ?_⟩
        · rw [huid, htranscript]
          exact hgreets
        · rw [htranscript]
          exact ⟨rfl, hkeys, ⟨r, message, hmac⟩, hunlocked, hroom⟩
  | left _ _ _ _ _ _ _ session _ _ =>
      have h : c'.state = .Closing := session.eqs.1
      exact hother (by rw [h]; decide) (by rw [h]; decide)
  | kicked _ session _ _ =>
      have h : c'.state = .Closing := session.eqs.1
      exact hother (by rw [h]; decide) (by rw [h]; decide)
  | served before _ _ session _ _ _ => exact hstays before (session.eqs.1.trans before) session.eqs.2.2.2.1
  | toggled _ before _ _ session _ _ =>
      have hactive : c.state = .Active := by
        unfold Conn.live at before
        exact (show c.state = .Active ∧ _ by simpa using before).1
      exact hstays hactive (session.eqs.1.trans hactive) session.eqs.2.2.2.1

theorem Newcomer.early (h : Newcomer c) : c.state ≠ .Auth ∧ c.state ≠ .Active := by
  rcases h.state with h | h <;> rw [h] <;> decide

end Rows

section Runs

variable {σ : Type} (cr : Crypto) (plat : Platform σ) {past : List (Server σ × ServerEvent σ)} {s s' : Server σ}

theorem known_run (run : Run (serverRuns cr plat) past s) : ∀ c ∈ s.conns, Known cr past c :=
  rows_run cr plat run (fun _ _ => True) (Known cr) (fun _ _ _ _ hc _ hstep hknown _ => hstep.known cr hc hknown)
    (fun _ _ h => ⟨fun hauth => absurd hauth h.early.1, fun hactive => absurd hactive h.early.2⟩) fun _ _ => trivial

theorem live_active {c : Conn} (h : c.live = true) : c.state = .Active ∧ c.dead = false := by
  unfold Conn.live at h
  simpa using h

theorem Changed.live {e : ServerEvent σ} {c c' : Conn} (h : Changed cr s e c c') (hlive : c'.live = true) :
    c.live = true ∨ LogsIn cr s e c := by
  obtain ⟨hactive, hdead⟩ := live_active hlive
  have hstays : c.state = .Active → (c.dead = true → c'.dead = true) → c.live = true := by
    intro hstate hdies
    unfold Conn.live
    have halive : c.dead = false := by
      by_contra hd
      rw [hdies (by simpa using hd)] at hdead
      cases hdead
    simp [hstate, halive]
  have hnever : ∀ state, c'.state = state → state ≠ .Active → c.live = true ∨ LogsIn cr s e c := by
    intro state hstate hne
    exact absurd (hstate.symm.trans hactive) hne
  cases h with
  | quiet session _ dead _ => exact .inl (hstays (session.eqs.1.symm.trans hactive) dead)
  | upgraded before _ _ _ =>
      rcases before with ⟨-, h, -⟩ | ⟨-, h⟩
      · exact hnever _ h (by decide)
      · exact hnever _ h (by split <;> decide)
  | answered before _ session _ _ => exact hnever _ ((congrArg Session.state session).trans before) (by decide)
  | incompatible before _ _ _ session _ _ => exact hnever _ (session.eqs.1.trans before) (by decide)
  | keyFailed before _ _ session _ _ => exact hnever _ (session.eqs.1.trans before) (by decide)
  | greeted _ _ _ _ _ _ _ _ _ _ _ _ session _ _ =>
      exact hnever .Auth ((congrArg Session.state session).trans rfl) (by decide)
  | refused _ _ _ _ _ _ _ session _ _ => exact hnever .Closing session.eqs.1 (by decide)
  | authenticated io r before alive event message verdict _ _ _ =>
      exact .inr ⟨io, r, event, before, alive, message, verdict⟩
  | left _ _ _ _ _ _ _ session _ _ => exact hnever .Closing session.eqs.1 (by decide)
  | kicked _ session _ _ => exact hnever .Closing session.eqs.1 (by decide)
  | served before _ _ _ _ _ dead => exact .inl (hstays before fun h => dead.trans h)
  | toggled _ before _ _ _ _ _ => exact .inl before

-- At most one connection logs in with a step.
theorem logsIn_uid {e : ServerEvent σ} {c d : Conn} (hc : LogsIn cr s e c) (hd : LogsIn cr s e d) :
    c.uid = d.uid := by
  obtain ⟨_, -, hc, -⟩ := hc
  obtain ⟨_, -, hd, -⟩ := hd
  rw [hc, ServerEvent.message.injEq] at hd
  exact hd.1

theorem remaining_sublist (s : Server σ) (e : ServerEvent σ) : (s.remaining e).Sublist s.conns := by
  cases e with
  | reap io => exact List.filter_sublist
  | _ => exact List.Sublist.refl _

theorem activeCount_step {e : ServerEvent σ} (htidy : s.Tidy) (h : Steps cr s e s')
    (hold : s.activeCount ≤ s.cfg.maxViewers) :
    s'.activeCount ≤ s'.cfg.maxViewers := by
  have hmax : s'.cfg.maxViewers = s.cfg.maxViewers := (congrArg ServerConfig.maxViewers h.cfg).trans rfl
  obtain ⟨rows, new, hconns, hrows, hjoins⟩ := h.rows
  have hnew : new.countP Conn.live = 0 := by
    rw [List.countP_eq_zero]
    intro c hc hlive
    cases hjoins with
    | nobody => cases hc
    | one d _ newcomer _ =>
        obtain rfl := List.mem_singleton.mp hc
        exact newcomer.early.2 (live_active hlive).1
  have hcount : s'.activeCount = rows.countP Conn.live := by
    unfold Server.activeCount
    rw [hconns, List.countP_append, hnew]
    omega
  rw [hmax, hcount]
  by_cases hlogin : ∃ c ∈ s.conns, LogsIn cr s e c
  · obtain ⟨c, -, hin⟩ := hlogin
    have hroom : s.activeCount < s.cfg.maxViewers := by
      obtain ⟨io, r, -, -, -, -, hok⟩ := id hin
      exact (authVerdict_ok cr hok).2.2
    have hle : rows.countP Conn.live ≤ (s.remaining e).countP fun d => d.live || decide (d.uid = c.uid) := by
      refine hrows.countP_le fun d d' hd hlive => ?_
      rcases hd.changed.live cr hlive with hlive | hin'
      · simp [hlive]
      · simp [logsIn_uid cr hin' hin]
    have hsub := (remaining_sublist s e).countP_le (p := fun d => d.live || decide (d.uid = c.uid))
    have hone := countP_key_le Conn.uid Conn.live htidy.distinct c.uid
    unfold Server.activeCount at hroom
    omega
  · have hle : rows.countP Conn.live ≤ (s.remaining e).countP Conn.live := by
      refine hrows.with_mem.countP_le fun d d' hd hlive => ?_
      exact (hd.2.changed.live cr hlive).resolve_right fun hin => hlogin ⟨d, remaining_subset s e d hd.1, hin⟩
    have hsub := (remaining_sublist s e).countP_le (p := Conn.live)
    unfold Server.activeCount at hold
    omega

theorem activeCount_run (run : Run (serverRuns cr plat) past s) : s.activeCount ≤ s.cfg.maxViewers := by
  refine (run.invariant (fun _ s => s.Tidy ∧ s.activeCount ≤ s.cfg.maxViewers) (fun s h => ?_) ?_).2
  · refine ⟨tidy_run cr plat (.start h), ?_⟩
    unfold Server.activeCount
    rw [started_conns plat h]
    exact Nat.zero_le _
  · rintro past s e t ⟨htidy, hold⟩ happly
    have hsteps := apply_steps cr plat htidy happly
    exact ⟨hsteps.tidy cr htidy, activeCount_step cr htidy hsteps hold⟩

-- The number of its login is a viewer's own, and gives its id.
def Numbered (s : Server σ) : Prop :=
  s.nextId = (s.logins + 1) % 2 ^ 32 ∧ ∃ number : Nat → Nat,
    (∀ c ∈ s.conns, c.state = .Active → 1 ≤ number c.uid ∧ number c.uid ≤ s.logins ∧ c.id = number c.uid % 2 ^ 32) ∧
    ∀ c ∈ s.conns, ∀ d ∈ s.conns, c.state = .Active → d.state = .Active → number c.uid = number d.uid →
        c.uid = d.uid

-- A row that is active after a step was it before with the same id, or logs in.
theorem Changed.active {e : ServerEvent σ} {c c' : Conn} (h : Changed cr s e c c') (hactive : c'.state = .Active) :
    c.state = .Active ∧ c'.id = c.id ∨ LogsIn cr s e c ∧ c'.id = s.nextId := by
  have hnever : ∀ state, c'.state = state → state ≠ .Active →
      c.state = .Active ∧ c'.id = c.id ∨ LogsIn cr s e c ∧ c'.id = s.nextId := by
    intro state hstate hne
    exact absurd (hstate.symm.trans hactive) hne
  cases h with
  | quiet session _ _ _ => exact .inl ⟨session.eqs.1.symm.trans hactive, session.eqs.2.1⟩
  | upgraded before _ _ _ =>
      rcases before with ⟨-, h, -⟩ | ⟨-, h⟩
      · exact hnever _ h (by decide)
      · exact hnever _ h (by split <;> decide)
  | answered before _ session _ _ => exact hnever _ ((congrArg Session.state session).trans before) (by decide)
  | incompatible before _ _ _ session _ _ => exact hnever _ (session.eqs.1.trans before) (by decide)
  | keyFailed before _ _ session _ _ => exact hnever _ (session.eqs.1.trans before) (by decide)
  | greeted _ _ _ _ _ _ _ _ _ _ _ _ session _ _ =>
      exact hnever .Auth ((congrArg Session.state session).trans rfl) (by decide)
  | refused _ _ _ _ _ _ _ session _ _ => exact hnever .Closing session.eqs.1 (by decide)
  | authenticated io r before alive event message verdict session _ _ =>
      exact .inr ⟨⟨io, r, event, before, alive, message, verdict⟩, session.eqs.2.1⟩
  | left _ _ _ _ _ _ _ session _ _ => exact hnever .Closing session.eqs.1 (by decide)
  | kicked _ session _ _ => exact hnever .Closing session.eqs.1 (by decide)
  | served before _ _ session _ _ _ => exact .inl ⟨before, session.eqs.2.1⟩
  | toggled _ before _ _ session _ _ => exact .inl ⟨(live_active before).1, session.eqs.2.1⟩

theorem Numbered.step {e : ServerEvent σ} (htidy : s.Tidy) (h : Steps cr s e s') (hold : Numbered s) :
    Numbered s' := by
  obtain ⟨hnext, number, hids, hdistinct⟩ := hold
  have horigin : ∀ c' ∈ s'.conns, c'.state = .Active → ∃ c ∈ s.conns, c'.uid = c.uid ∧
      (c.state = .Active ∧ c'.id = c.id ∨ LogsIn cr s e c ∧ c'.id = s.nextId) := by
    intro c' hc' hactive
    rcases h.origin cr hc' with ⟨c, hc, hstep⟩ | hnew
    · exact ⟨c, hc, congrArg Prod.fst hstep.identity, hstep.changed.active cr hactive⟩
    · exact absurd hactive hnew.early.2
  by_cases hlogin : ∃ c ∈ s.conns, LogsIn cr s e c
  · obtain ⟨hlogins, hnextId⟩ := h.login hlogin
    obtain ⟨new, hnewmem, hin⟩ := hlogin
    have hnotActive : new.state ≠ .Active := by
      obtain ⟨_, _, _, hauth, -⟩ := id hin
      rw [hauth]
      decide
    -- a row with the uid of the new viewer is the new viewer
    have hrow : ∀ c ∈ s.conns, c.uid = new.uid → c.state ≠ .Active := by
      intro c hc huid
      rw [htidy.row hnewmem c hc huid]
      exact hnotActive
    refine ⟨by rw [hnextId, hlogins, hnext]; omega, Function.update number new.uid (s.logins + 1), ?_, ?_⟩
    · intro c' hc' hactive
      obtain ⟨c, hc, huid, ⟨hwas, hid⟩ | ⟨hin', hid⟩⟩ := horigin c' hc' hactive
      · have hne : c'.uid ≠ new.uid := fun heq => hrow c hc (huid.symm.trans heq) hwas
        rw [Function.update_of_ne hne, huid, hid]
        obtain ⟨h1, h2, h3⟩ := hids c hc hwas
        exact ⟨h1, by omega, h3⟩
      · rw [huid, logsIn_uid cr hin' hin, Function.update_self, hid, hnext]
        omega
    · intro c' hc' d' hd' hcactive hdactive heq
      obtain ⟨c, hc, huidc, ⟨hwasc, -⟩ | ⟨hinc, -⟩⟩ := horigin c' hc' hcactive
      · obtain ⟨d, hd, huidd, ⟨hwasd, -⟩ | ⟨hind, -⟩⟩ := horigin d' hd' hdactive
        · have hnec : c'.uid ≠ new.uid := fun heq => hrow c hc (huidc.symm.trans heq) hwasc
          have hned : d'.uid ≠ new.uid := fun heq => hrow d hd (huidd.symm.trans heq) hwasd
          rw [Function.update_of_ne hnec, Function.update_of_ne hned, huidc, huidd] at heq
          rw [huidc, huidd]
          exact hdistinct c hc d hd hwasc hwasd heq
        · have hnec : c'.uid ≠ new.uid := fun heq => hrow c hc (huidc.symm.trans heq) hwasc
          rw [Function.update_of_ne hnec, huidd, logsIn_uid cr hind hin, Function.update_self, huidc] at heq
          have := (hids c hc hwasc).2.1
          omega
      · obtain ⟨d, hd, huidd, ⟨hwasd, -⟩ | ⟨hind, -⟩⟩ := horigin d' hd' hdactive
        · have hned : d'.uid ≠ new.uid := fun heq => hrow d hd (huidd.symm.trans heq) hwasd
          rw [Function.update_of_ne hned, huidc, logsIn_uid cr hinc hin, Function.update_self, huidd] at heq
          have := (hids d hd hwasd).2.1
          omega
        · rw [huidc, huidd]
          exact logsIn_uid cr hinc hind
  · obtain ⟨hlogins, hnextId⟩ := h.noLogin hlogin
    have hwas : ∀ c' ∈ s'.conns, c'.state = .Active → ∃ c ∈ s.conns, c'.uid = c.uid ∧ c.state = .Active ∧
        c'.id = c.id := by
      intro c' hc' hactive
      obtain ⟨c, hc, huid, hwas | ⟨hin, -⟩⟩ := horigin c' hc' hactive
      · exact ⟨c, hc, huid, hwas⟩
      · exact absurd ⟨c, hc, hin⟩ hlogin
    refine ⟨by rw [hnextId, hlogins, hnext], number, ?_, ?_⟩
    · intro c' hc' hactive
      obtain ⟨c, hc, huid, hstate, hid⟩ := hwas c' hc' hactive
      rw [huid, hid, hlogins]
      exact hids c hc hstate
    · intro c' hc' d' hd' hcactive hdactive heq
      obtain ⟨c, hc, huidc, hcstate, -⟩ := hwas c' hc' hcactive
      obtain ⟨d, hd, huidd, hdstate, -⟩ := hwas d' hd' hdactive
      rw [huidc, huidd] at heq ⊢
      exact hdistinct c hc d hd hcstate hdstate heq

theorem numbered_run (run : Run (serverRuns cr plat) past s) : Numbered s := by
  refine (run.invariant (fun _ s => s.Tidy ∧ Numbered s) (fun s h => ?_) ?_).2
  · have hconns := started_conns plat h
    refine ⟨tidy_run cr plat (.start h), ?_, id, by rw [hconns]; simp, by rw [hconns]; simp⟩
    obtain ⟨cfg, pool, os, h⟩ := h
    unfold Server.started at h
    split at h
    · cases h
    · rw [Option.some.injEq] at h
      rw [← h]
      rfl
  · rintro past s e t ⟨htidy, hold⟩ happly
    have hsteps := apply_steps cr plat htidy happly
    exact ⟨hsteps.tidy cr htidy, hold.step cr htidy hsteps⟩

theorem ids_distinct (run : Run (serverRuns cr plat) past s) (hlogins : s.logins ≤ 2 ^ 32) :
    ∀ c ∈ s.conns, ∀ d ∈ s.conns, c.state = .Active → d.state = .Active → c.id = d.id → c = d := by
  intro c hc d hd hcactive hdactive hid
  obtain ⟨-, number, hids, hdistinct⟩ := numbered_run cr plat run
  obtain ⟨hc1, hc2, hc3⟩ := hids c hc hcactive
  obtain ⟨hd1, hd2, hd3⟩ := hids d hd hdactive
  have hnumber : number c.uid = number d.uid := by
    rw [hc3, hd3] at hid
    omega
  exact row_unique Conn.uid (tidy_run cr plat run).distinct hc hd (hdistinct c hc d hd hcactive hdactive hnumber)

theorem id_lt (run : Run (serverRuns cr plat) past s) : ∀ c ∈ s.conns, c.state = .Active → c.id < 2 ^ 32 := by
  intro c hc hactive
  obtain ⟨-, number, hids, -⟩ := numbered_run cr plat run
  rw [(hids c hc hactive).2.2]
  exact Nat.mod_lt _ (by decide)

-- What a message does to a connection that is not active, short of logging it in:
-- nothing to the platform, the clipboard and the displays, nothing to any screen,
-- upload or input, and nothing at all to another connection.
theorem stranger_message (htidy : s.Tidy) {c : Conn} (hc : c ∈ s.conns) (hstate : c.state ≠ .Active) {io : Io}
    (hno : ¬ LogsIn cr s (.message c.uid io) c) (h : (ServerEvent.message c.uid io).apply cr plat s = some s') :
    s'.outer = s.outer ∧ ∃ rows new, s'.conns = rows ++ new ∧ Evolves (Alone c.uid Untouched) s.conns rows ∧
      Joins s s' new := by
  unfold ServerEvent.apply at h
  split at h
  · cases h
  rw [Option.some.injEq] at h
  have hfind : s.find c.uid = some c := find_row Conn.uid htidy.distinct hc
  unfold Server.onConn at h
  rw [hfind] at h
  dsimp only at h
  by_cases hup : c.upgraded = true
  · rw [if_pos hup] at h
    subst h
    exact ⟨wsRound_outer cr plat (htidy.row hc) (fun hactive => absurd hactive hstate) hno,
      wsRound_alone cr plat (htidy.row hc) hstate hno⟩
  · rw [if_neg hup] at h
    subst h
    exact ⟨rfl, s.conns, [], (List.append_nil _).symm, (same_alone rfl rfl Untouched.refl).conns, .nobody rfl⟩

-- In every reachable state: an active connection has said HELLO and has proved the
-- password on its own channel, there are at most max_viewers, their ids differ, and
-- no other connection's messages are handled as a viewer's.
theorem active_only_after_login (run : Run (serverRuns cr plat) past s) :
    (∀ c ∈ s.conns, c.state = .Active → LoggedIn cr past c) ∧
    s.activeCount ≤ s.cfg.maxViewers ∧
    (s.logins ≤ 2 ^ 32 → ∀ c ∈ s.conns, ∀ d ∈ s.conns, c.state = .Active → d.state = .Active →
      c.id = d.id → c = d) ∧
    ∀ c ∈ s.conns, c.state ≠ .Active → ∀ io s', (ServerEvent.message c.uid io).apply cr plat s = some s' →
      ¬ LogsIn cr s (.message c.uid io) c →
      s'.outer = s.outer ∧ ∃ rows new, s'.conns = rows ++ new ∧ Evolves (Alone c.uid Untouched) s.conns rows ∧
        Joins s s' new := by
  have htidy := tidy_run cr plat run
  refine ⟨fun c hc => (known_run cr plat run c hc).2, activeCount_run cr plat run, ids_distinct cr plat run, ?_⟩
  · intro c hc hstate io s' happly hno
    exact stranger_message cr plat htidy hc hstate hno happly

end Runs

theorem active_only_after_login_ann :
    ∃ (past : List (Server Desk × ServerEvent Desk)) (s : Server Desk) (c : Conn),
      Run (serverRuns reference deskPlatform) past s ∧ c ∈ s.conns ∧ c.state = .Active ∧
        LoggedIn reference past c := by
  have hrows : ((deskHost false (loginEvents 0 "Ann")).map fun s => s.conns.map fun c => c.state) =
      some [.Active] := by
    unfold deskHost deskRun loginEvents sealedEvents
    rw [← rehearsed_eq]
    decide +kernel
  obtain ⟨s, hs, hrows⟩ := Option.map_eq_some_iff.mp hrows
  obtain ⟨c, hc, hactive⟩ := List.map_eq_singleton_iff.mp hrows
  obtain ⟨past, hrun, -⟩ := deskHost_run hs
  have hmem : c ∈ s.conns := by simp [hc]
  exact ⟨past, s, c, hrun, hmem, hactive, (active_only_after_login reference deskPlatform hrun).1 c hmem hactive⟩

end TetherDesk.Host
