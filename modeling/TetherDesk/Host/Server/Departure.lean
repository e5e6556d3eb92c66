import TetherDesk.Host.Server.Runs
import TetherDesk.Host.Server.Stranger
import TetherDesk.Host.Server.Rehearsal

namespace TetherDesk.Host

open TetherDesk.Net TetherDesk.Secure TetherDesk.Lib.Table TetherDesk.Lib.Transition

-- The connection a step is taken for.
def ServerEvent.owner {σ : Type} : ServerEvent σ → Option Nat
  | .tcpReady uid _ _ _ => some uid
  | .handshake uid _ _ _ => some uid
  | .received uid _ _ => some uid
  | .recvFailed uid _ => some uid
  | .http uid => some uid
  | .relayUpgrade uid => some uid
  | .message uid _ => some uid
  | .staleRc uid => some uid
  | .flush uid _ => some uid
  | .expire uid _ _ => some uid
  | _ => none

def ServerEvent.asMessage {σ : Type} : ServerEvent σ → Option (Nat × Io)
  | .message uid io => some (uid, io)
  | _ => none

-- No connection that was never authenticated is turned away at the login, or says
-- CLOSE once it has given a name.
def StrangersStay {σ : Type} (cr : Crypto) (s : Server σ) (e : ServerEvent σ) : Prop :=
  ∀ p ∈ e.asMessage, ∀ c ∈ s.conns, c.uid = p.1 → c.everAuthed = false →
    (c.name ≠ [] → ∀ m ∈ c.frameIn, m.opcode ≠ RD_WS_CLOSE) ∧
    (c.state = .Auth → ∀ m ∈ c.messageIn cr, m.1 = RD_C_AUTH → (s.authVerdict cr c m.2 p.2).1 = .ok)

instance {σ : Type} (cr : Crypto) (s : Server σ) (e : ServerEvent σ) : Decidable (StrangersStay cr s e) :=
  inferInstanceAs (Decidable (∀ p ∈ e.asMessage, ∀ c ∈ s.conns, _))

-- How state, name and history of a connection go together.
structure Named (c : Conn) : Prop where
  auth : c.state = .Auth → c.name ≠ [] ∧ c.everAuthed = false
  active : c.state = .Active → c.everAuthed = true
  authed : c.everAuthed = true → (c.state = .Active ∨ c.state = .Closing) ∧ c.name ≠ []

-- The same with what StrangersStay adds.
def Departs (c : Conn) : Prop := Named c ∧ (c.state = .Closing → c.everAuthed = false → c.name = [])

section Rows

variable {σ : Type} (cr : Crypto) {s : Server σ} {e : ServerEvent σ} {c c' : Conn}

theorem Named.of_same {d : Conn} (h : Named d) (hsession : SameSession d c') : Named c' := by
  obtain ⟨hstate, -, hname, -, -, -, hauthed⟩ := hsession.eqs
  refine ⟨?_, ?_, ?_⟩
  · rw [hstate, hname, hauthed]
    exact h.auth
  · rw [hstate, hauthed]
    exact h.active
  · rw [hauthed, hstate, hname]
    exact h.authed

-- A connection that is not authenticated, in a state before the login.
theorem Named.early {state : State} (hstate : c.state = state) (hearly : state ≠ .Auth ∧ state ≠ .Active)
    (hauthed : c.everAuthed = false) : Named c := by
  refine ⟨fun h => absurd (hstate.symm.trans h) hearly.1, fun h => absurd (hstate.symm.trans h) hearly.2,
    fun h => ?_⟩
  rw [hauthed] at h
  cases h

theorem Named.unauthed (h : Named c) (hactive : c.state ≠ .Active) (hclosing : c.state ≠ .Closing) :
    c.everAuthed = false := by
  by_contra hauthed
  exact (h.authed (by simpa using hauthed)).1.elim hactive hclosing

theorem Changed.departs (h : Changed cr s e c c') (hc : c ∈ s.conns) (hold : Departs c)
    (hguard : StrangersStay cr s e) :
    Departs c' := by
  obtain ⟨hnamed, hclosing⟩ := hold
  have hsame : SameSession c c' → Departs c' := by
    intro hsession
    refine ⟨hnamed.of_same hsession, ?_⟩
    obtain ⟨hstate, -, hname, -, -, -, hauthed⟩ := hsession.eqs
    rw [hstate, hauthed, hname]
    exact hclosing
  have hearly : ∀ state, c.state = state → c.state ≠ .Active → c.state ≠ .Closing → c'.everAuthed = c.everAuthed →
      c'.state ≠ .Auth → c'.state ≠ .Active → c'.state ≠ .Closing → Departs c' := by
    intro state hstate hactive hopen hauthed hauth' hactive' hopen'
    have hfresh := hnamed.unauthed hactive hopen
    exact ⟨.early rfl ⟨hauth', hactive'⟩ (hauthed.trans hfresh), fun h => absurd h hopen'⟩
  cases h with
  | quiet session _ _ _ => exact hsame session
  | upgraded before session _ _ =>
      have hauthed : c'.everAuthed = c.everAuthed := (congrArg Session.everAuthed session).trans rfl
      rcases before with ⟨hstate, h, -⟩ | ⟨hstate, h⟩
      · refine hearly _ hstate ?_ ?_ hauthed ?_ ?_ ?_ <;> simp [hstate, h]
      · refine hearly _ hstate ?_ ?_ hauthed ?_ ?_ ?_
        · simp [hstate]
        · simp [hstate]
        all_goals rw [h]; split <;> decide
  | answered _ _ session _ _ => exact hsame (.of_eq session)
  | incompatible before _ _ _ session _ _ =>
      obtain ⟨hstate, -, -, -, -, -, hauthed⟩ := session.eqs
      have hstate' : c'.state = .Hello := hstate.trans before
      refine hearly _ before ?_ ?_ hauthed ?_ ?_ ?_ <;> simp [before, hstate']
  | keyFailed before _ _ session _ _ =>
      obtain ⟨hstate, -, -, -, -, -, hauthed⟩ := session.eqs
      have hstate' : c'.state = .Hello := hstate.trans before
      refine hearly _ before ?_ ?_ hauthed ?_ ?_ ?_ <;> simp [before, hstate']
  | greeted io r ce dh1 dh2 before _ _ _ _ _ _ session _ _ =>
      have hfresh := hnamed.unauthed (by rw [before]; decide) (by rw [before]; decide)
      have hstate : c'.state = .Auth := (congrArg Session.state session).trans rfl
      have hname : c'.name = (readClientHello r).name := (congrArg Session.name session).trans rfl
      have hauthed : c'.everAuthed = false := ((congrArg Session.everAuthed session).trans rfl).trans hfresh
      refine ⟨⟨fun _ => ⟨hname ▸ readClientHello_name r, hauthed⟩, fun h => ?_, fun h => ?_⟩, fun h => ?_⟩
      · rw [hstate] at h
        cases h
      · rw [hauthed] at h
        cases h
      · rw [hstate] at h
        cases h
  | refused io r before _ event message verdict _ _ _ =>
      exact absurd ((hguard (c.uid, io) (by rw [event]; rfl) c hc rfl (hnamed.auth before).2).2 before _
        message rfl) verdict
  | authenticated io r before _ _ _ _ session _ _ =>
      obtain ⟨hstate, -, hname, -, -, -, hauthed⟩ := session.eqs
      have hstate' : c'.state = .Active := hstate
      have hauthed' : c'.everAuthed = true := hauthed
      refine ⟨⟨fun h => ?_, fun _ => hauthed', fun _ => ⟨.inl hstate', ?_⟩⟩, fun h => ?_⟩
      · rw [hstate'] at h
        cases h
      · rw [hname]
        exact (hnamed.auth before).1
      · rw [hstate'] at h
        cases h
  | left m io before _ event frame opcode session _ _ =>
      obtain ⟨hstate, -, hname, -, -, -, hauthed⟩ := session.eqs
      have hstate' : c'.state = .Closing := hstate
      refine ⟨⟨fun h => ?_, fun h => ?_, fun h => ⟨.inr hstate', ?_⟩⟩, fun _ h => ?_⟩
      · rw [hstate'] at h
        cases h
      · rw [hstate'] at h
        cases h
      · rw [hname]
        exact (hnamed.authed (hauthed ▸ h)).2
      · rw [hname]
        by_contra hne
        exact (hguard (c.uid, io) (by rw [event]; rfl) c hc rfl (hauthed ▸ h)).1 hne m frame opcode
  | kicked before session _ _ =>
      obtain ⟨hstate, -, hname, -, -, -, hauthed⟩ := session.eqs
      have hstate' : c'.state = .Closing := hstate
      have hactive : c.state = .Active := by
        unfold Conn.live at before
        exact (show c.state = .Active ∧ _ by simpa using before).1
      have hauthed' : c'.everAuthed = true := hauthed.trans (hnamed.active hactive)
      refine ⟨⟨fun h => ?_, fun _ => hauthed', fun _ => ⟨.inr hstate', ?_⟩⟩, fun _ h => ?_⟩
      · rw [hstate'] at h
        cases h
      · rw [hname]
        exact (hnamed.authed (hnamed.active hactive)).2
      · rw [hauthed'] at h
        cases h
  | served _ _ _ session _ _ _ =>
      obtain ⟨hstate, -, hname, -, -, -, hauthed⟩ := session.eqs
      refine ⟨⟨?_, ?_, ?_⟩, ?_⟩
      · rw [hstate, hname, hauthed]
        exact hnamed.auth
      · rw [hstate, hauthed]
        exact hnamed.active
      · rw [hauthed, hstate, hname]
        exact hnamed.authed
      · rw [hstate, hauthed, hname]
        exact hclosing
  | toggled _ _ _ _ session _ _ =>
      obtain ⟨hstate, -, hname, -, -, -, hauthed⟩ := session.eqs
      refine ⟨⟨?_, ?_, ?_⟩, ?_⟩
      · rw [hstate, hname, hauthed]
        exact hnamed.auth
      · rw [hstate, hauthed]
        exact hnamed.active
      · rw [hauthed, hstate, hname]
        exact hnamed.authed
      · rw [hstate, hauthed, hname]
        exact hclosing

theorem Newcomer.departs (h : Newcomer c) : Departs c := by
  have hauthed : c.everAuthed = false := (congrArg Session.everAuthed h.session).trans rfl
  refine ⟨.early rfl ?_ hauthed, fun hstate => ?_⟩
  · rcases h.state with h | h <;> rw [h] <;> decide
  · rcases h.state with h | h <;> rw [h] at hstate <;> cases hstate

end Rows

section Heard

-- A bystander is sent exactly these messages, if it is a live viewer.
def Heard (msgs : List Bytes) (c c' : Conn) : Prop :=
  c'.uid = c.uid ∧ c'.live = c.live ∧ c'.sent = c.sent ++ if c.live then msgs else []

variable {σ : Type} (cr : Crypto) (plat : Platform σ) (s : Server σ)

theorem Heard.trans {msgs msgs' : List Bytes} {a b c : Conn} (h₁ : Heard msgs a b) (h₂ : Heard msgs' b c) :
    Heard (msgs ++ msgs') a c := by
  obtain ⟨huid, hlive, hsent⟩ := h₁
  obtain ⟨huid', hlive', hsent'⟩ := h₂
  refine ⟨huid'.trans huid, hlive'.trans hlive, ?_⟩
  rw [hsent', hsent, hlive]
  split <;> simp

theorem Heard.refl (c : Conn) : Heard [] c c := ⟨rfl, rfl, by simp⟩

theorem sendMsg_heard {c : Conn} (hlive : c.live = true) (msg mask : Bytes) :
    Heard [msg] c (c.sendMsg cr msg mask) := by
  have halive : c.dead = false := by
    unfold Conn.live at hlive
    exact (show c.state = .Active ∧ c.dead = false by simpa using hlive).2
  obtain ⟨out, sendCtr, h⟩ := Conn.sendMsg_alive cr c msg mask halive
  rw [h]
  exact ⟨rfl, rfl, by rw [if_pos hlive]⟩

theorem broadcast_heard (msg : Bytes) (mask : Nat → Bytes) :
    Evolves (Heard [msg]) s.conns (s.broadcast cr msg none false mask).conns := by
  refine Evolves.map fun c _ => ?_
  by_cases hlive : c.live = true
  · rw [if_pos (by simp [hlive])]
    exact sendMsg_heard cr hlive msg _
  · rw [if_neg (by simp [hlive])]
    exact ⟨rfl, rfl, by rw [if_neg hlive, List.append_nil]⟩

-- What the remaining viewers are told when these have left.
def leftMsgs (conns : List Conn) (left : List Bytes) : List Bytes :=
  if left = [] then [] else viewersMsg conns :: left.map fun n => noticeMsg (n ++ ascii " disconnected")

theorem announceLeft_heard (left : List Bytes) (io : Io) :
    Evolves (Heard (leftMsgs s.conns left)) s.conns (s.announceLeft cr left io).conns := by
  have hnotices : ∀ (names : List (Bytes × Nat)) (msgs : List Bytes) (t : Server σ),
      Evolves (Heard msgs) s.conns t.conns →
      Evolves (Heard (msgs ++ names.map fun n => noticeMsg (n.1 ++ ascii " disconnected"))) s.conns
        (names.foldl (fun s n => s.notice cr (n.1 ++ ascii " disconnected") none (io.mask (n.2 + 1))) t).conns := by
    intro names
    induction names with
    | nil => exact fun msgs t ht => by simpa using ht
    | cons n names ih =>
        intro msgs t ht
        have hnext := Evolves.comp (T := Heard (msgs ++ [noticeMsg (n.1 ++ ascii " disconnected")]))
          (fun _ _ _ h h' => h.trans h') ht
            (broadcast_heard cr t (noticeMsg (n.1 ++ ascii " disconnected")) (io.mask (n.2 + 1)))
        rw [List.map_cons, List.foldl_cons, ← List.singleton_append, ← List.append_assoc]
        exact ih _ _ hnext
  unfold Server.announceLeft leftMsgs
  by_cases hleft : left = []
  · rw [if_pos hleft, if_pos hleft]
    exact Evolves.rfl fun c _ => Heard.refl c
  · rw [if_neg hleft, if_neg hleft]
    have h := hnotices left.zipIdx _ _ (broadcast_heard cr s (viewersMsg s.conns) (io.mask 0))
    have hnames : (left.zipIdx.map fun n => noticeMsg (n.1 ++ ascii " disconnected")) =
        left.map fun n => noticeMsg (n ++ ascii " disconnected") := by
      conv_rhs => rw [← List.zipIdx_map_fst 0 left, List.map_map]
      rfl
    rw [hnames] at h
    exact h

-- Whom a reap reports, and to whom.
theorem reap_heard (io : Io) :
    Evolves (Heard (leftMsgs (s.conns.filter fun c => !c.dead) (leftNames s.conns)))
      (s.conns.filter fun c => !c.dead)
      (s.reap cr plat io).conns := by
  unfold Server.reap
  dsimp only
  obtain ⟨hconns, -⟩ := dismantle_all plat io (s.conns.filter fun c => c.dead) s
  generalize (s.conns.filter fun c => c.dead).foldl (fun s c => s.dismantle plat c io) s = t at hconns ⊢
  have h := announceLeft_heard cr { t with conns := t.conns.filter fun c => !c.dead } (leftNames s.conns) io
  have hfilter : (s.conns.filter fun c => !c.dead) = t.conns.filter fun c => !c.dead := by rw [hconns]
  rw [hfilter]
  exact h

-- The new viewer is announced to all others.
theorem onAuthenticated_heard (c : Conn) (io : Io) : ∃ viewers,
    Evolves (fun d d' => d.uid ≠ c.uid → Heard [viewers, noticeMsg (c.name ++ ascii " connected")] d d') s.conns
      (s.onAuthenticated cr plat c io).conns := by
  unfold Server.onAuthenticated
  dsimp only
  have hown := modify_alone { s with nextId := (s.nextId + 1) % 2 ^ 32, logins := s.logins + 1 } c.uid (fun c =>
    c.authenticated cr s.cfg s.nextId (io.now 4) (io.mask 0 c.uid)) (fun d d' => d'.uid = d.uid) fun d _ _ =>
      authenticated_uid cr d _ _ _ _
  generalize { s with nextId := (s.nextId + 1) % 2 ^ 32, logins := s.logins + 1 }.modify c.uid (fun c =>
    c.authenticated cr s.cfg s.nextId (io.now 4) (io.mask 0 c.uid)) = s₁ at hown ⊢
  have hinfo : Evolves (Alone c.uid fun d d' => d'.uid = d.uid) s₁.conns
      (s₁.sendDisplayInfo cr plat c.uid (io.mask 1 c.uid)).conns := by
    unfold Server.sendDisplayInfo
    generalize s₁.screenInfo plat = r
    obtain ⟨info, os⟩ := r
    refine (modify_alone { s₁ with os := os } c.uid _ _ fun d _ _ => ?_).conns
    exact congrArg Prod.fst (sendMsg_unmoved cr d (displayInfoMsg info) (io.mask 1 c.uid)).identity
  generalize s₁.sendDisplayInfo cr plat c.uid (io.mask 1 c.uid) = s₂ at hinfo ⊢
  generalize hs₃ : s₂.log (c.name ++ ascii " connected from " ++ c.addr ++
    (if s₂.cfg.viewOnly then ascii " (view only)" else [])) = s₃
  have hconns : s₃.conns = s₂.conns := by
    rw [← hs₃]
    rfl
  refine ⟨viewersMsg s₃.conns, ?_⟩
  have hviewers := broadcast_heard cr s₃ (viewersMsg s₃.conns) (io.mask 2)
  have hnotice : Evolves (fun d d' => d.uid ≠ c.uid → Heard [noticeMsg (c.name ++ ascii " connected")] d d')
      (s₃.broadcastViewers cr (io.mask 2)).conns
      ((s₃.broadcastViewers cr (io.mask 2)).notice cr (c.name ++ ascii " connected") (some c.uid)
        (io.mask 3)).conns := by
    refine Evolves.map fun d _ huid => ?_
    by_cases hlive : d.live = true
    · rw [if_pos ⟨by simpa using huid, hlive, rfl⟩]
      exact sendMsg_heard cr hlive _ _
    · rw [if_neg fun h => hlive h.2.1]
      exact ⟨rfl, rfl, by rw [if_neg hlive, List.append_nil]⟩
  have hquiet : Evolves (fun d d' => d.uid ≠ c.uid → d' = d) s.conns s₃.conns := by
    rw [hconns]
    refine hown.conns.comp ?_ hinfo
    intro d d₁ d' h h' hne
    unfold Alone at h h'
    rw [if_neg hne] at h
    subst h
    rw [if_neg hne] at h'
    exact h'
  have hseen : Evolves (fun d d' => d.uid ≠ c.uid → Heard [viewersMsg s₃.conns] d d') s.conns
      (s₃.broadcastViewers cr (io.mask 2)).conns := by
    refine hquiet.comp (fun d d₁ d' h h' hne => ?_) hviewers
    rw [h hne] at h'
    exact h'
  refine hseen.comp (fun d d₁ d' h h' hne => ?_) hnotice
  exact (h hne).trans (h' ((h hne).1.symm ▸ hne))

end Heard

section Runs

variable {σ : Type} (cr : Crypto) (plat : Platform σ) {past : List (Server σ × ServerEvent σ)} {s s' : Server σ}
  {e : ServerEvent σ} {c : Conn}

theorem departs_run (run : Run (serverRuns cr plat) past s) (hguard : ∀ p ∈ past, StrangersStay cr p.1 p.2) :
    ∀ c ∈ s.conns, Departs c :=
  rows_run cr plat run (StrangersStay cr) (fun _ => Departs)
    (fun _ _ _ _ hc _ hstep hold hg => hstep.changed.departs cr hc hold hg) (fun _ _ h => h.departs) hguard

-- The login of a connection that has been authenticated, under the name it still has.
def Announced (past : List (Server σ × ServerEvent σ)) (c : Conn) : Prop :=
  c.everAuthed = true → ∃ p ∈ past, ∃ d ∈ p.1.conns, d.uid = c.uid ∧ d.name = c.name ∧ LogsIn cr p.1 p.2 d

-- The login tells every other viewer of it.
theorem login_heard (htidy : s.Tidy) (hc : c ∈ s.conns) (hin : LogsIn cr s e c) (h : e.apply cr plat s = some s') :
    ∃ viewers, Evolves (fun d d' => d.uid ≠ c.uid → Heard [viewers, noticeMsg (c.name ++ ascii " connected")] d d')
      s.conns s'.conns := by
  have hlogin := hin
  obtain ⟨io, r, rfl, hstate, halive, hmsg, hok⟩ := hin
  have hround := wsRound_cases cr plat io (htidy.row hc)
  have hfind : s.find c.uid = some c := find_row Conn.uid htidy.distinct hc
  have hup : c.upgraded = true := by simp [Conn.upgraded, hstate]
  unfold ServerEvent.apply at h
  by_cases hthrown : s.thrown = true
  · rw [if_pos hthrown] at h
    cases h
  rw [if_neg hthrown] at h
  dsimp only at h
  unfold Server.onConn at h
  rw [hfind, Option.some.injEq] at h
  dsimp only at h
  rw [if_pos hup] at h
  subst h
  generalize (s.wsRound cr plat c io).1 = s' at hround ⊢
  have hother : ∀ {type : Nat} {r' : Reader}, c.messageIn cr = some (type, r') → type = RD_C_AUTH ∧ r' = r := by
    intro type r' h'
    rw [hmsg, Option.some.injEq, Prod.mk.injEq] at h'
    exact ⟨h'.1.symm, h'.2.symm⟩
  cases hround with
  | stopped h =>
      rcases h with hdead | hclosing
      · rw [halive] at hdead
        cases hdead
      · rw [hstate] at hclosing
        cases hclosing
  | read c₂ _ hno => exact absurd hlogin hno
  | closed c₂ _ _ hno => exact absurd hlogin hno
  | pong c₂ _ hno => exact absurd hlogin hno
  | left c₂ _ _ hno => exact absurd hlogin hno
  | opened c₂ _ hno => exact absurd hlogin hno
  | hello c₂ _ _ hhello =>
      rw [hstate] at hhello
      cases hhello
  | refused c₂ _ _ _ r' hmsg' hrefused =>
      rw [(hother hmsg').2] at hrefused
      exact absurd hok hrefused
  | session c₂ _ _ hactive =>
      rw [hstate] at hactive
      cases hactive
  | login c₂ hread _ _ r' hmsg' _ guard =>
      obtain ⟨viewers, hheard⟩ :=
        onAuthenticated_heard cr plat { s.modify c.uid (fun _ => c₂) with guard := guard } c₂ io
      obtain ⟨ws, inn, recvCtr, rfl, -⟩ := hread
      refine ⟨viewers, ?_⟩
      have hput : Evolves (fun d d' => d.uid ≠ c.uid → d' = d) s.conns (s.modify c.uid fun _ =>
          { c with ws := ws, inn := inn, ch := { c.ch with recvCtr := recvCtr } }).conns :=
        Evolves.map fun d _ huid => if_neg huid
      refine hput.comp (fun d d₁ d' hd hd' huid => ?_) hheard
      rw [hd huid] at hd'
      exact hd' huid

theorem Changed.announced {c' : Conn} (h : Changed cr s e c c') (hc : c ∈ s.conns) (huid : c'.uid = c.uid)
    (hnamed : Named c) (hold : Announced cr past c) : Announced cr (past ++ [(s, e)]) c' := by
  have hkeep : c'.everAuthed = c.everAuthed → c'.name = c.name → Announced cr (past ++ [(s, e)]) c' := by
    intro hauthed hname h
    obtain ⟨p, hp, d, hd, hdu, hdn, hin⟩ := hold (hauthed ▸ h)
    exact ⟨p, List.mem_append_left _ hp, d, hd, hdu.trans huid.symm, hdn.trans hname.symm, hin⟩
  have hfresh : c.state = .Hello → c'.everAuthed = c.everAuthed → Announced cr (past ++ [(s, e)]) c' := by
    intro hstate hauthed h
    rw [hauthed, hnamed.unauthed (by rw [hstate]; decide) (by rw [hstate]; decide)] at h
    cases h
  cases h with
  | quiet session _ _ _ => exact hkeep session.eqs.2.2.2.2.2.2 session.eqs.2.2.1
  | upgraded _ session _ _ =>
      exact hkeep ((congrArg Session.everAuthed session).trans rfl) ((congrArg Session.name session).trans rfl)
  | answered _ _ session _ _ => exact hkeep (congrArg Session.everAuthed session) (congrArg Session.name session)
  | incompatible before _ _ _ session _ _ => exact hfresh before session.eqs.2.2.2.2.2.2
  | keyFailed before _ _ session _ _ => exact hfresh before session.eqs.2.2.2.2.2.2
  | greeted _ _ _ _ _ before _ _ _ _ _ _ session _ _ =>
      exact hfresh before ((congrArg Session.everAuthed session).trans rfl)
  | refused _ _ _ _ _ _ _ session _ _ => exact hkeep session.eqs.2.2.2.2.2.2 session.eqs.2.2.1
  | authenticated io r before alive event message verdict session _ _ =>
      exact fun _ => ⟨(s, e), by simp, c, hc, huid.symm, session.eqs.2.2.1.symm, io, r, event, before, alive,
        message, verdict⟩
  | left _ _ _ _ _ _ _ session _ _ => exact hkeep session.eqs.2.2.2.2.2.2 session.eqs.2.2.1
  | kicked _ session _ _ => exact hkeep session.eqs.2.2.2.2.2.2 session.eqs.2.2.1
  | served _ _ _ session _ _ _ => exact hkeep session.eqs.2.2.2.2.2.2 session.eqs.2.2.1
  | toggled _ _ _ _ session _ _ => exact hkeep session.eqs.2.2.2.2.2.2 session.eqs.2.2.1

theorem announced_run (run : Run (serverRuns cr plat) past s) (hguard : ∀ p ∈ past, StrangersStay cr p.1 p.2) :
    ∀ c ∈ s.conns, Announced cr past c := by
  have h := rows_run cr plat run (StrangersStay cr) (fun past c => Departs c ∧ Announced cr past c) ?_ ?_ hguard
  · exact fun c hc => (h c hc).2
  · rintro past s e c hc c' hstep ⟨hdeparts, hold⟩ hg
    exact ⟨hstep.changed.departs cr hc hdeparts hg,
      hstep.changed.announced cr hc (congrArg Prod.fst hstep.identity) hdeparts.1 hold⟩
  · intro past c h
    refine ⟨h.departs, fun hauthed => ?_⟩
    rw [(congrArg Session.everAuthed h.session).trans rfl] at hauthed
    cases hauthed

-- A step taken for a connection that is not active, short of logging it in, leaves all
-- others as they are.
theorem stranger_alone (htidy : s.Tidy) (hc : c ∈ s.conns) (hstate : c.state ≠ .Active)
    (howner : e.owner = some c.uid)
    (hno : ¬ LogsIn cr s e c) (h : e.apply cr plat s = some s') :
    ∃ rows new, s'.conns = rows ++ new ∧ Evolves (fun d d' => d.uid ≠ c.uid → d' = d) s.conns rows ∧
        Joins s s' new := by
  have hkeep : ∀ t : Server σ, ∀ own, Evolves (Alone c.uid own) s.conns t.conns → t.nextUid = s.nextUid →
      ∃ rows new, t.conns = rows ++ new ∧ Evolves (fun d d' => d.uid ≠ c.uid → d' = d) s.conns rows ∧
          Joins s t new := by
    intro t own ht huid
    refine ⟨t.conns, [], (List.append_nil _).symm, ht.imp fun d d' hd hne => ?_, .nobody huid⟩
    unfold Alone at hd
    rwa [if_neg hne] at hd
  have hserves : ∀ t : Server σ, Serves (Alone c.uid (QuietStep e)) s t →
      ∃ rows new, t.conns = rows ++ new ∧ Evolves (fun d d' => d.uid ≠ c.uid → d' = d) s.conns rows ∧
          Joins s t new :=
    fun t ht => hkeep t _ ht.conns (congrArg Books.nextUid ht.books)
  have hsame : ∃ rows new, s.conns = rows ++ new ∧ Evolves (fun d d' => d.uid ≠ c.uid → d' = d) s.conns rows ∧
      Joins s s new :=
    ⟨s.conns, [], (List.append_nil _).symm, Evolves.rfl fun _ _ _ => rfl, .nobody rfl⟩
  have hfind : s.find c.uid = some c := find_row Conn.uid htidy.distinct hc
  unfold ServerEvent.apply at h
  by_cases hthrown : s.thrown = true
  · rw [if_pos hthrown] at h
    cases h
  rw [if_neg hthrown] at h
  cases e with
  | world os => cases howner
  | consoleRead chunk => cases howner
  | consoleLine io => cases howner
  | tcpReady uid ok tls answers =>
      obtain rfl : uid = c.uid := Option.some.inj howner
      dsimp only at h
      unfold Server.onConn at h
      rw [hfind, Option.some.injEq] at h
      subst h
      dsimp only
      split
      · exact hserves _ (tcpReady_serves (htidy.row hc) ok tls answers rfl)
      · exact hsame
  | handshake uid rc err answers =>
      obtain rfl : uid = c.uid := Option.some.inj howner
      dsimp only at h
      unfold Server.onConn at h
      rw [hfind, Option.some.injEq] at h
      subst h
      dsimp only
      split
      · exact hserves _ (handshake_serves (htidy.row hc) rc err answers rfl)
      · exact hsame
  | received uid data now =>
      obtain rfl : uid = c.uid := Option.some.inj howner
      dsimp only at h
      unfold Server.onConn at h
      rw [hfind, Option.some.injEq] at h
      exact h ▸ hserves _ (received_serves data now)
  | recvFailed uid data =>
      obtain rfl : uid = c.uid := Option.some.inj howner
      dsimp only at h
      unfold Server.onConn at h
      rw [hfind, Option.some.injEq] at h
      exact h ▸ hserves _ (recvFailed_serves data rfl)
  | http uid =>
      obtain rfl : uid = c.uid := Option.some.inj howner
      dsimp only at h
      unfold Server.onConn at h
      rw [hfind, Option.some.injEq] at h
      subst h
      dsimp only
      split
      · exact hkeep _ _ (modify_alone s c.uid _ (fun _ _ => True) fun _ _ _ => trivial).conns rfl
      · exact hsame
  | relayUpgrade uid =>
      obtain rfl : uid = c.uid := Option.some.inj howner
      dsimp only at h
      unfold Server.onConn at h
      rw [hfind, Option.some.injEq] at h
      subst h
      dsimp only
      split
      · next hupgrade =>
          obtain ⟨hrows, hbooks⟩ :=
            finishRelayUpgrade_steps (e := .relayUpgrade c.uid) cr hupgrade rfl (htidy.row hc)
          exact hkeep _ _ hrows hbooks.eqs.2.1
      · exact hsame
  | message uid io =>
      obtain rfl : uid = c.uid := Option.some.inj howner
      dsimp only at h
      unfold Server.onConn at h
      rw [hfind, Option.some.injEq] at h
      subst h
      dsimp only
      split
      · obtain ⟨rows, new, hconns, hrows, hjoins⟩ := wsRound_alone cr plat (htidy.row hc) hstate hno
        refine ⟨rows, new, hconns, hrows.imp fun d d' hd hne => ?_, hjoins⟩
        unfold Alone at hd
        rwa [if_neg hne] at hd
      · exact hsame
  | staleRc uid =>
      obtain rfl : uid = c.uid := Option.some.inj howner
      dsimp only at h
      unfold Server.onConn at h
      rw [hfind, Option.some.injEq] at h
      subst h
      dsimp only
      split
      · exact hserves _ (staleRc_serves rfl _)
      · exact hsame
  | flush uid answers =>
      obtain rfl : uid = c.uid := Option.some.inj howner
      dsimp only at h
      unfold Server.onConn at h
      rw [hfind, Option.some.injEq] at h
      exact h ▸ hserves _ (flush_serves c answers rfl (htidy.row hc))
  | accept addr now => cases howner
  | expire uid now io =>
      obtain rfl : uid = c.uid := Option.some.inj howner
      dsimp only at h
      unfold Server.onConn at h
      rw [hfind, Option.some.injEq] at h
      exact h ▸ hserves _ (expire_serves (htidy.row hc) now io rfl)
  | pump uid f now schedule io => cases howner
  | pollClipboard now io => cases howner
  | reap io => cases howner
  | maintainRelay now io => cases howner

-- A connection that has been removed does not come back.
theorem reaped_gone (run : Run (serverRuns cr plat) past s) : ∀ p ∈ past, ∀ io, p.2 = .reap io → ∀ c ∈ p.1.conns,
    c.dead = true → c.uid < s.nextUid ∧ ∀ d ∈ s.conns, d.uid ≠ c.uid := by
  refine (run.invariant (fun past s => s.Tidy ∧ ∀ p ∈ past, ∀ io, p.2 = .reap io → ∀ c ∈ p.1.conns, c.dead = true →
    c.uid < s.nextUid ∧ ∀ d ∈ s.conns, d.uid ≠ c.uid) ?_ ?_).2
  · exact fun s h => ⟨tidy_run cr plat (.start h), by simp⟩
  rintro past s e t ⟨htidy, hold⟩ happly
  have hsteps := apply_steps cr plat htidy happly
  refine ⟨hsteps.tidy cr htidy, ?_⟩
  obtain ⟨rows, new, hconns, hrows, hjoins⟩ := hsteps.rows
  -- a uid that is free before the step is free after it
  have hfree : ∀ uid, uid < s.nextUid → (∀ d ∈ s.remaining e, d.uid ≠ uid) →
      uid < t.nextUid ∧ ∀ d ∈ t.conns, d.uid ≠ uid := by
    intro uid hused hgone
    have hnew : uid < t.nextUid ∧ ∀ d ∈ new, d.uid ≠ uid := by
      cases hjoins with
      | nobody hnext => exact ⟨hnext ▸ hused, by simp⟩
      | one c huid _ hnext =>
          refine ⟨by omega, fun d hd => ?_⟩
          obtain rfl := List.mem_singleton.mp hd
          omega
    refine ⟨hnew.1, fun d hd => ?_⟩
    rw [hconns, List.mem_append] at hd
    rcases hd with hd | hd
    · obtain ⟨a, ha, hstep⟩ := hrows.new_row hd
      exact (congrArg Prod.fst hstep.identity).trans_ne (hgone a ha)
    · exact hnew.2 d hd
  intro p hp io hio c hc hdead
  rcases List.mem_append.mp hp with hp | hp
  · obtain ⟨hused, hgone⟩ := hold p hp io hio c hc hdead
    exact hfree c.uid hused fun d hd => hgone d (remaining_subset s e d hd)
  · obtain rfl := List.mem_singleton.mp hp
    subst hio
    refine hfree c.uid (htidy.used c hc) fun d hd huid => ?_
    obtain ⟨hd, halive⟩ := List.mem_filter.mp hd
    rw [htidy.row hc d hd huid, hdead] at halive
    cases halive

-- The viewers that a reap at this point removes.
def departed (conns : List Conn) : List Bytes := (conns.filter fun c => c.dead && c.everAuthed).map fun c => c.name

theorem leftNames_departed (h : ∀ c ∈ s.conns, Departs c) : leftNames s.conns = departed s.conns := by
  unfold leftNames departed
  refine congrArg _ (List.filter_congr fun c hc => ?_)
  obtain ⟨hnamed, hclosing⟩ := h c hc
  refine congrArg (c.dead && ·) (Bool.eq_iff_iff.mpr ?_)
  unfold Conn.reported
  rw [decide_eq_true_iff]
  constructor
  · rintro ⟨hactive | hstate, hname⟩
    · exact hnamed.active hactive
    · by_contra hauthed
      exact hname (hclosing hstate (by simpa using hauthed))
  · exact hnamed.authed

-- A step that concerns only connections that were never authenticated tells nobody
-- anything; a reap tells the others who has left, and only of those who had been
-- announced, each once.
theorem strangers_unheard (run : Run (serverRuns cr plat) past s) (hguard : ∀ p ∈ past, StrangersStay cr p.1 p.2) :
    (∀ c ∈ s.conns, c.everAuthed = false → ∀ e s', e.owner = some c.uid → ¬ LogsIn cr s e c →
      e.apply cr plat s = some s' →
      ∃ rows new, s'.conns = rows ++ new ∧ Evolves (fun d d' => d.uid ≠ c.uid → d' = d) s.conns rows ∧
        ∀ d ∈ new, d.sent = []) ∧
    (∀ io s', (ServerEvent.reap io).apply cr plat s = some s' →
      Evolves (Heard (leftMsgs (s.remaining (.reap io)) (departed s.conns))) (s.remaining (.reap io)) s'.conns) ∧
    (∀ c ∈ s.conns, c.everAuthed = true → ∃ p ∈ past, ∃ d ∈ p.1.conns, d.uid = c.uid ∧ d.name = c.name ∧
      LogsIn cr p.1 p.2 d ∧ ∀ t, p.2.apply cr plat p.1 = some t → ∃ viewers,
        Evolves (fun a b => a.uid ≠ c.uid → Heard [viewers, noticeMsg (c.name ++ ascii " connected")] a b)
          p.1.conns t.conns) ∧
    ∀ p ∈ past, ∀ io, p.2 = .reap io → ∀ c ∈ p.1.conns, c.dead = true → ∀ d ∈ s.conns, d.uid ≠ c.uid := by
  have htidy := tidy_run cr plat run
  have hdeparts := departs_run cr plat run hguard
  refine ⟨?_, ?_, ?_, fun p hp io hio c hc hdead => (reaped_gone cr plat run p hp io hio c hc hdead).2⟩
  · intro c hc hfresh e s' howner hno happly
    have hstate : c.state ≠ .Active := by
      intro hactive
      rw [(hdeparts c hc).1.active hactive] at hfresh
      cases hfresh
    obtain ⟨rows, new, hconns, hrows, hjoins⟩ := stranger_alone cr plat htidy hc hstate howner hno happly
    refine ⟨rows, new, hconns, hrows, fun d hd => ?_⟩
    cases hjoins with
    | nobody => cases hd
    | one d' _ hnew =>
        obtain rfl := List.mem_singleton.mp hd
        exact hnew.queued
  · intro io s' happly
    unfold ServerEvent.apply at happly
    by_cases hthrown : s.thrown = true
    · rw [if_pos hthrown] at happly
      cases happly
    rw [if_neg hthrown, Option.some.injEq] at happly
    subst happly
    have hheard := reap_heard cr plat s io
    rw [leftNames_departed hdeparts] at hheard
    exact hheard
  · intro c hc hauthed
    obtain ⟨p, hp, d, hd, hdu, hdn, hin⟩ := announced_run cr plat run hguard c hc hauthed
    refine ⟨p, hp, d, hd, hdu, hdn, hin, fun t ht => ?_⟩
    obtain ⟨before, after, rfl⟩ := List.append_of_mem hp
    rw [← hdu, ← hdn]
    exact login_heard cr plat (tidy_run cr plat run.before) hd hin ht

end Runs

-- Ann logs in, another connection is turned away for its version and dies, and the
-- reap tells Ann nothing.
theorem strangers_unheard_silent_reap :
    ∃ (past : List (Server Desk × ServerEvent Desk)) (s s' : Server Desk),
      Run (serverRuns reference deskPlatform) past s ∧ (∀ p ∈ past, StrangersStay reference p.1 p.2) ∧
      (ServerEvent.reap deskIo).apply reference deskPlatform s = some s' ∧ departed s.conns = [] ∧
      Evolves (Heard []) (s.remaining (.reap deskIo)) s'.conns ∧
      s.conns.map (fun c => (c.everAuthed, c.name, c.dead)) =
        [(true, ascii "Ann", false), (false, ascii "Bob", true)] := by
  have hrows : ((deskHostIf (fun s e => StrangersStay reference s e) false
      (loginEvents 0 "Ann" ++ helloEvents 1 0 "Bob" ++ [.recvFailed 1 []])).map fun s =>
        (s.thrown, s.conns.map fun c => (c.everAuthed, c.name, c.dead))) =
      some (false, [(true, ascii "Ann", false), (false, ascii "Bob", true)]) := by
    unfold deskHostIf loginEvents sealedEvents
    rw [← rehearsed_eq]
    decide +kernel
  obtain ⟨s, hs, hrows⟩ := Option.map_eq_some_iff.mp hrows
  rw [Prod.mk.injEq] at hrows
  obtain ⟨hthrown, hrows⟩ := hrows
  obtain ⟨past, hrun, hchecked⟩ := deskHostIf_run hs
  have hguard : ∀ p ∈ past, StrangersStay reference p.1 p.2 := fun p hp => of_decide_eq_true (hchecked p hp)
  obtain ⟨s', hs'⟩ : ∃ s', (ServerEvent.reap deskIo).apply reference deskPlatform s = some s' := by
    unfold ServerEvent.apply
    rw [if_neg (by simp [hthrown])]
    exact ⟨_, rfl⟩
  have hnone : departed s.conns = [] := by
    have hcolumn : ((s.conns.map fun c => (c.everAuthed, c.name, c.dead)).filter fun r => r.2.2 && r.1) = [] := by
      rw [hrows]
      rfl
    rw [List.filter_map, List.map_eq_nil_iff] at hcolumn
    unfold departed
    rw [List.map_eq_nil_iff]
    exact hcolumn
  have hheard := (strangers_unheard reference deskPlatform hrun hguard).2.1 deskIo s' hs'
  rw [hnone] at hheard
  exact ⟨past, s, s', hrun, hguard, hs', hnone, hheard, hrows⟩

-- The same with a CLOSE frame after that is told to Ann.
theorem stranger_reported :
    ¬ ∀ (past : List (Server Desk × ServerEvent Desk)) (s s' : Server Desk),
      Run (serverRuns reference deskPlatform) past s →
      (ServerEvent.reap deskIo).apply reference deskPlatform s = some s' →
      Evolves (Heard (leftMsgs (s.remaining (.reap deskIo)) (departed s.conns))) (s.remaining (.reap deskIo))
        s'.conns := by
  intro halways
  have hfacts : ((deskHost false (loginEvents 0 "Ann" ++ helloEvents 1 0 "Bob" ++
      [.received 1 (clientFrame RD_WS_CLOSE []) 0, .message 1 deskIo, .recvFailed 1 []])).bind fun s =>
      ((ServerEvent.reap deskIo).apply reference deskPlatform s).map fun s' =>
        (departed s.conns, (s.remaining (.reap deskIo)).map fun c => c.sent.length,
          s'.conns.map fun c => c.sent.length)) =
      some ([], [4], [6]) := by
    unfold deskHost deskRun loginEvents sealedEvents
    rw [← rehearsed_eq]
    decide +kernel
  obtain ⟨s, hs, hfacts⟩ := Option.bind_eq_some_iff.mp hfacts
  obtain ⟨s', hs', hfacts⟩ := Option.map_eq_some_iff.mp hfacts
  rw [Prod.mk.injEq, Prod.mk.injEq] at hfacts
  obtain ⟨hnone, hbefore, hafter⟩ := hfacts
  obtain ⟨past, hrun, -⟩ := deskHost_run hs
  have hheard := halways past s s' hrun hs'
  rw [hnone] at hheard
  have hcolumn := hheard.column (fun c => c.sent.length) fun a b hab => by
    obtain ⟨-, -, hsent⟩ := hab
    rw [hsent]
    split <;> simp [leftMsgs]
  rw [hbefore, hafter] at hcolumn
  exact absurd hcolumn (by decide)

end TetherDesk.Host
