import TetherDesk.Host.Server.Login

namespace TetherDesk.Host

open TetherDesk.Net TetherDesk.Secure TetherDesk.Lib.Table TetherDesk.Lib.Transition

-- A connection that has just been made.
structure Newcomer (c : Conn) : Prop where
  session : c.toSession = { (Conn.fresh 0).toSession with state := c.state }
  state : c.state = .Http ∨ c.state = .RelayUpgrade
  open_ : c.closeAfterFlush = false
  alive : c.dead = false
  queued : c.sent = []
  screen : c.toScreen = (Conn.fresh 0).toScreen

-- The connections a step adds.
inductive Joins {σ : Type} (s s' : Server σ) : List Conn → Prop
  | nobody (nextUid : s'.nextUid = s.nextUid) : Joins s s' []
  | one (c : Conn) (uid : c.uid = s.nextUid) (new : Newcomer c)
      (nextUid : s'.nextUid = s.nextUid + 1) : Joins s s' [c]

-- The connections that are still there after a step.
def Server.remaining {σ : Type} (s : Server σ) : ServerEvent σ → List Conn
  | .reap _ => s.conns.filter fun c => !c.dead
  | _ => s.conns

-- What one step does to the connections and the books.
structure Steps {σ : Type} (cr : Crypto) (s : Server σ) (e : ServerEvent σ) (s' : Server σ) : Prop where
  rows : ∃ rows new, s'.conns = rows ++ new ∧ Evolves (Step cr s e) (s.remaining e) rows ∧ Joins s s' new
  cfg : { s'.cfg with password := s.cfg.password } = s.cfg
  login : (∃ c ∈ s.conns, LogsIn cr s e c) → s'.logins = s.logins + 1 ∧ s'.nextId = (s.nextId + 1) % 2 ^ 32
  noLogin : (¬ ∃ c ∈ s.conns, LogsIn cr s e c) → s'.logins = s.logins ∧ s'.nextId = s.nextId

section

variable {σ : Type} (cr : Crypto) (plat : Platform σ) {s s' : Server σ} {c : Conn} {e : ServerEvent σ}

theorem Steps.of_evolves (hreap : s.remaining e = s.conns) (h : Evolves (Step cr s e) s.conns s'.conns)
    (hcfg : { s'.cfg with password := s.cfg.password } = s.cfg) (huid : s'.nextUid = s.nextUid)
    (hlogins : s'.logins = s.logins ∧ s'.nextId = s.nextId) (hno : ∀ c ∈ s.conns, ¬ LogsIn cr s e c) :
    Steps cr s e s' := by
  refine ⟨⟨s'.conns, [], (List.append_nil _).symm, hreap.symm ▸ h, .nobody huid⟩, hcfg, fun hlogin => ?_,
    fun _ => hlogins⟩
  obtain ⟨c, hc, hin⟩ := hlogin
  exact absurd hin (hno c hc)

-- A step that keeps the books.
theorem Steps.of_books (hreap : s.remaining e = s.conns) (h : Evolves (Step cr s e) s.conns s'.conns)
    (hbooks : s'.toBooks = s.toBooks) (hno : ∀ c ∈ s.conns, ¬ LogsIn cr s e c) : Steps cr s e s' := by
  have hcfg : s'.cfg = s.cfg := congrArg Books.cfg hbooks
  refine .of_evolves cr hreap h (by rw [hcfg]) (congrArg Books.nextUid hbooks)
    ⟨congrArg Books.logins hbooks, congrArg Books.nextId hbooks⟩ hno

theorem Steps.of_serves (hreap : s.remaining e = s.conns) (h : Serves Bystander s s')
    (hno : ∀ c ∈ s.conns, ¬ LogsIn cr s e c) :
    Steps cr s e s' := .of_books cr hreap (h.conns.imp fun _ _ => Bystander.step) h.books hno

-- Only a message can log in.
theorem not_logsIn (h : ∀ uid io, e ≠ .message uid io) : ∀ c ∈ s.conns, ¬ LogsIn cr s e c := by
  rintro c - ⟨io, r, he, -⟩
  exact h c.uid io he

theorem openRelayConn_joins (control : Bool) (ticket viewerIp : Bytes) (io : Io) :
    ∃ new, (s.openRelayConn cr control ticket viewerIp io).conns = s.conns ++ new ∧
      Joins s (s.openRelayConn cr control ticket viewerIp io) new ∧
      (s.openRelayConn cr control ticket viewerIp io).cfg = s.cfg ∧
      (s.openRelayConn cr control ticket viewerIp io).logins = s.logins ∧
      (s.openRelayConn cr control ticket viewerIp io).nextId = s.nextId := by
  unfold Server.openRelayConn
  by_cases hsocket : (!io.socket) = true
  · rw [if_pos hsocket]
    cases control with
    | true => exact ⟨[], (List.append_nil _).symm, .nobody rfl, rfl, rfl, rfl⟩
    | false => exact ⟨[], (List.append_nil _).symm, .nobody rfl, rfl, rfl, rfl⟩
  · rw [if_neg hsocket]
    have hnew : Newcomer (Conn.relay cr s.cfg s.nextUid control ticket viewerIp io) :=
      ⟨rfl, .inr rfl, rfl, rfl, rfl, rfl⟩
    cases control with
    | true => exact ⟨_, rfl, .one _ rfl hnew rfl, rfl, rfl, rfl⟩
    | false => exact ⟨_, rfl, .one _ rfl hnew rfl, rfl, rfl, rfl⟩

end

section Alone

-- The own relation for one connection, no change otherwise.
def Alone (uid : Nat) (own : Conn → Conn → Prop) (c c' : Conn) : Prop :=
  if c.uid = uid then own c c' else c' = c

-- A quiet change with the reason for a death.
def QuietStep {σ : Type} (e : ServerEvent σ) (c c' : Conn) : Prop :=
  Quiet c c' ∧ (c'.dead = true → c.dead = true ∨ Dies e c c')

variable {σ : Type} {s s' s'' : Server σ} {e : ServerEvent σ} {uid : Nat} {own own' : Conn → Conn → Prop}

theorem Alone.imp {c c' : Conn} (ha : Alone uid own c c') (h : own c c' → c.uid = uid → own' c c') :
    Alone uid own' c c' := by
  unfold Alone at *
  by_cases huid : c.uid = uid
  · rw [if_pos huid] at ha ⊢
    exact h ha huid
  · rw [if_neg huid] at ha ⊢
    exact ha

theorem modify_alone (s : Server σ) (uid : Nat) (f : Conn → Conn) (own : Conn → Conn → Prop)
    (h : ∀ c ∈ s.conns, c.uid = uid → own c (f c)) : Serves (Alone uid own) s (s.modify uid f) := by
  refine ⟨Evolves.map fun c hc => ?_, rfl⟩
  unfold Alone
  by_cases huid : c.uid = uid
  · rw [if_pos huid, if_pos huid]
    exact h c hc huid
  · rw [if_neg huid, if_neg huid]

theorem same_alone (hconns : s'.conns = s.conns) (hbooks : s'.toBooks = s.toBooks) (hown : ∀ c, own c c) :
    Serves (Alone uid own) s s' := by
  refine ⟨hconns ▸ Evolves.rfl fun c _ => ?_, hbooks⟩
  unfold Alone
  by_cases huid : c.uid = uid
  · rw [if_pos huid]
    exact hown c
  · rw [if_neg huid]

theorem Serves.quiet_trans (h₁ : Serves (Alone uid Quiet) s s') (h₂ : Serves (Alone uid Quiet) s' s'') :
    Serves (Alone uid Quiet) s s'' := by
  refine Serves.comp ?_ h₁ h₂
  intro a b c hab hbc
  unfold Alone at *
  by_cases ha : a.uid = uid
  · rw [if_pos ha] at hab ⊢
    rw [if_pos (hab.uid.trans ha)] at hbc
    exact hab.trans hbc
  · rw [if_neg ha] at hab ⊢
    subst hab
    rw [if_neg ha] at hbc
    exact hbc

-- An event with which the connection may die at any time.
theorem Serves.dies (h : Serves (Alone uid Quiet) s s') (hdies : ∀ c ∈ s.conns, c.uid = uid → ∀ c', Dies e c c') :
    Serves (Alone uid (QuietStep e)) s s' := by
  refine ⟨h.conns.with_mem.imp fun c c' hc => ?_, h.books⟩
  obtain ⟨hmem, ha⟩ := hc
  exact ha.imp fun hq huid => ⟨hq, fun _ => .inr (hdies c hmem huid c')⟩

theorem Serves.steps (cr : Crypto) (h : Serves (Alone uid (QuietStep e)) s s') :
    Evolves (Step cr s e) s.conns s'.conns := by
  refine h.conns.imp fun c c' ha => ?_
  unfold Alone at ha
  by_cases huid : c.uid = uid
  · rw [if_pos huid] at ha
    exact ha.1.step ha.2
  · rw [if_neg huid] at ha
    subst ha
    exact (Bystander.refl _).step

theorem closeConn_quiet (s : Server σ) (c : Conn) (reason : Bytes) :
    Serves (Alone c.uid Quiet) s (s.closeConn c reason) := by
  refine ⟨?_, closeConn_books s c reason⟩
  cases hdead : c.dead with
  | true =>
      unfold Server.closeConn
      rw [if_pos hdead]
      exact (same_alone rfl rfl Quiet.refl).conns
  | false =>
      rw [closeConn_conns s c reason hdead]
      exact (modify_alone s c.uid Conn.close Quiet fun d _ _ => Quiet.close d).conns

end Alone

section Flush

variable {σ : Type} {s : Server σ} {e : ServerEvent σ}

theorem flush_quiet (c : Conn) (answers : List SockAnswer) : Quiet c (c.flush answers) := by
  have hkeeps : (c.flush answers).identity = c.identity ∧ (c.flush answers).closeAfterFlush = c.closeAfterFlush ∧
      (c.dead = true → (c.flush answers).dead = true) := by
    unfold Conn.flush Conn.sendPending
    dsimp only
    split_ifs
    · exact ⟨rfl, rfl, fun h => h⟩
    · exact ⟨rfl, rfl, fun _ => rfl⟩
    · unfold Conn.settle
      split_ifs
      · exact ⟨rfl, rfl, fun h => by simp [h]⟩
      · exact ⟨rfl, rfl, fun h => h⟩
      · exact ⟨rfl, rfl, fun h => h⟩
  obtain ⟨hid, hclosing, hdead⟩ := hkeeps
  obtain ⟨o, h, hsent⟩ := c.flush_eq answers
  rw [h] at hid hclosing hdead ⊢
  exact ⟨hid, .refl _, hclosing, hdead, hsent, rfl⟩

-- A connection dies in a flush when the send fails, or when all is handed over and
-- it is to be closed.
theorem flush_dies (c : Conn) (answers : List SockAnswer) (hdead : (c.flush answers).dead = true) :
    c.dead = true ∨ c.sendFailed answers = true ∨ (c.closeAfterFlush = true ∧
      c.bytesSent + c.pending ≤ (c.flush answers).bytesSent ∧ (c.flush answers).pending = 0) := by
  unfold Conn.sendFailed
  unfold Conn.flush at hdead ⊢
  by_cases hpending : (c.tcpPending || c.tlsHandshaking) = true
  · rw [if_pos hpending] at hdead
    exact .inl hdead
  rw [if_neg hpending] at hdead ⊢
  generalize hsend : c.sendPending answers = r at hdead ⊢
  obtain ⟨failed, c₁⟩ := r
  dsimp only at hdead ⊢
  cases failed with
  | true => exact .inr (.inl (by simpa using hpending))
  | false =>
      rw [if_neg Bool.false_ne_true] at hdead ⊢
      have hc₁ : c₁ = (c.sendPending answers).2 := by rw [hsend]
      unfold Conn.sendPending at hc₁
      dsimp only at hc₁
      unfold Conn.settle at hdead ⊢
      by_cases hdone : c₁.pending = 0
      · rw [if_pos hdone] at hdead ⊢
        rw [Bool.or_eq_true] at hdead
        rcases hdead with hdead | hclosing
        · exact .inl (by rwa [hc₁] at hdead)
        · refine .inr (.inr ⟨by rwa [hc₁] at hclosing, ?_, rfl⟩)
          dsimp only
          rw [hc₁] at hdone ⊢
          unfold Conn.pending at hdone ⊢
          dsimp only at hdone ⊢
          split at hdone <;> split <;> omega
      · rw [if_neg hdone] at hdead
        refine .inl ?_
        split at hdead
        · rwa [hc₁] at hdead
        · rwa [hc₁] at hdead

-- The same for a connection that was changed before its flush.
theorem flush_quietStep {c c₁ : Conn} (hquiet : Quiet c c₁) (hdead : c₁.dead = c.dead)
    (hbytes : c₁.bytesSent = c.bytesSent)
    (hpending : c₁.pending = c.pending) (answers : List SockAnswer)
    (hfails : c₁.sendFailed answers = true → e.linkFails c) : QuietStep e c (c₁.flush answers) := by
  refine ⟨hquiet.trans (flush_quiet c₁ answers), fun h => ?_⟩
  rcases flush_dies c₁ answers h with h | h | ⟨hclosing, hhanded, hrest⟩
  · exact .inl (hdead.symm.trans h)
  · exact .inr (.failed (hfails h))
  · exact .inr (.flushed (hquiet.closing.symm.trans hclosing) (hbytes ▸ hpending ▸ hhanded) hrest)

theorem flush_serves (c : Conn) (answers : List SockAnswer) (he : e = .flush c.uid answers)
    (hrow : ∀ d ∈ s.conns, d.uid = c.uid → d = c) : Serves (Alone c.uid (QuietStep e)) s (s.flush c answers) := by
  have h : Serves (Alone c.uid (QuietStep e)) s (s.modify c.uid fun c => c.flush answers) := by
    refine modify_alone s c.uid _ _ fun d hd huid => ?_
    rw [hrow d hd huid, he]
    exact flush_quietStep (.refl c) rfl rfl rfl answers fun h => ⟨rfl, h⟩
  unfold Server.flush
  dsimp only
  split
  · exact ⟨h.conns, h.books⟩
  · exact h

theorem put_flush {c c₁ : Conn} (hrow : ∀ d ∈ s.conns, d.uid = c.uid → d = c) (huid : c₁.uid = c.uid)
    (answers : List SockAnswer) (h : QuietStep e c (c₁.flush answers)) :
    Serves (Alone c.uid (QuietStep e)) s ((s.modify c.uid fun _ => c₁).flush c₁ answers) := by
  have hput : Serves (Alone c.uid (QuietStep e)) s ((s.modify c.uid fun _ => c₁).modify c₁.uid fun c =>
      c.flush answers) := by
    rw [huid, put_modify s huid]
    refine modify_alone s c.uid _ _ fun d hd hduid => ?_
    rw [hrow d hd hduid]
    exact h
  unfold Server.flush
  dsimp only
  split
  · exact ⟨hput.conns, hput.books⟩
  · exact hput

end Flush

section OneConn

variable {σ : Type} (cr : Crypto) (plat : Platform σ) {s : Server σ} {e : ServerEvent σ} {c : Conn}

-- The events that act on one connection's row, besides messages.
theorem put_quiet {c₁ : Conn} (hrow : ∀ d ∈ s.conns, d.uid = c.uid → d = c) (h : Quiet c c₁) :
    Serves (Alone c.uid Quiet) s (s.modify c.uid fun _ => c₁) := by
  refine modify_alone s c.uid _ _ fun d hd huid => ?_
  rw [hrow d hd huid]
  exact h

theorem tcpReady_serves (hrow : ∀ d ∈ s.conns, d.uid = c.uid → d = c) (ok : Bool) (tls : Option TlsOut)
    (answers : List SockAnswer) (he : e = .tcpReady c.uid ok tls answers) :
    Serves (Alone c.uid (QuietStep e)) s (s.tcpReady c ok tls answers) := by
  have hready : Quiet c { c with tcpPending := false } := ⟨rfl, .refl c, rfl, fun h => h, rfl, rfl⟩
  unfold Server.tcpReady
  by_cases hok : (!ok) = true
  · rw [if_pos hok]
    refine (closeConn_quiet s c _).dies fun d hd huid _ => .failed ?_
    rw [he]
    exact ⟨huid.symm, .inl (by simpa using hok)⟩
  rw [if_neg hok]
  dsimp only
  split
  · cases tls with
    | none =>
        dsimp only
        refine ((put_quiet hrow hready).quiet_trans (closeConn_quiet _ _ _)).dies fun d hd huid _ => .failed ?_
        rw [he]
        exact ⟨huid.symm, .inr (.inl rfl)⟩
    | some t =>
        dsimp only
        have hput := put_modify s (show Conn.uid { c with tcpPending := false } = c.uid from rfl)
          fun c => { c with tls := some t, tlsHandshaking := true }
        rw [hput]
        refine modify_alone s c.uid _ _ fun d hd huid => ?_
        rw [hrow d hd huid]
        exact ⟨⟨rfl, .refl c, rfl, fun h => h, rfl, rfl⟩, fun h => .inl h⟩
  · refine put_flush hrow (show Conn.uid { c with tcpPending := false } = c.uid from rfl) answers
      (flush_quietStep hready rfl rfl rfl answers ?_)
    intro h
    rw [he]
    exact ⟨rfl, .inr (.inr h)⟩

theorem handshake_serves (hrow : ∀ d ∈ s.conns, d.uid = c.uid → d = c) (rc : Int) (err : Bytes)
    (answers : List SockAnswer)
    (he : e = .handshake c.uid rc err answers) :
    Serves (Alone c.uid (QuietStep e)) s (s.handshake c rc err answers) := by
  unfold Server.handshake
  by_cases hneg : rc < 0
  · rw [if_pos hneg]
    have hdies : ∀ d ∈ s.conns, d.uid = c.uid → ∀ d', Dies e d d' := fun d hd huid _ => by
      rw [he]
      exact .failed ⟨huid.symm, .inl hneg⟩
    dsimp only
    split
    · exact Serves.dies (s := s) ⟨(closeConn_quiet (s.log _) c _).conns,
        (closeConn_quiet (s.log _) c _).books⟩ hdies
    · exact (closeConn_quiet s c _).dies hdies
  rw [if_neg hneg]
  by_cases hpos : rc > 0
  · rw [if_pos hpos]
    exact same_alone rfl rfl fun d => ⟨.refl d, fun h => .inl h⟩
  · rw [if_neg hpos]
    have hdone : Quiet c { c with tlsHandshaking := false } := ⟨rfl, .refl c, rfl, fun h => h, rfl, rfl⟩
    refine put_flush hrow (show Conn.uid { c with tlsHandshaking := false } = c.uid from rfl) answers
      (flush_quietStep hdone rfl rfl rfl answers ?_)
    intro h
    rw [he]
    exact ⟨rfl, .inr h⟩

theorem received_serves (data : Bytes) (now : Nat) :
    Serves (Alone c.uid (QuietStep e)) s (s.received c data now) := by
  unfold Server.received
  split
  · exact same_alone rfl rfl fun d => ⟨.refl d, fun h => .inl h⟩
  · exact modify_alone s c.uid _ _ fun d _ _ => ⟨⟨rfl, .refl d, rfl, fun h => h, rfl, rfl⟩, fun h => .inl h⟩

theorem recvFailed_serves (data : Bytes) (he : e = .recvFailed c.uid data) :
    Serves (Alone c.uid (QuietStep e)) s (s.recvFailed c data) := by
  unfold Server.recvFailed
  have hread : Serves (Alone c.uid Quiet) s (s.modify c.uid fun c => { c with inn := c.inn ++ data }) :=
    modify_alone s c.uid _ _ fun d _ _ => ⟨rfl, .refl d, rfl, fun h => h, rfl, rfl⟩
  refine (hread.quiet_trans (closeConn_quiet _ c _)).dies fun d hd huid _ => .failed ?_
  rw [he]
  exact huid.symm

theorem expire_serves (hrow : ∀ d ∈ s.conns, d.uid = c.uid → d = c) (now : Nat) (io : Io)
    (he : e = .expire c.uid now io) :
    Serves (Alone c.uid (QuietStep e)) s (s.expire c now io) := by
  have hdies : (c.state ≠ .Active → c.state ≠ .RelayCtl → sub64 now c.createdUs > 120 * kSecond) →
      ∀ d ∈ s.conns, d.uid = c.uid → ∀ d', Dies e d d' := fun hlate d hd huid _ => by
    rw [hrow d hd huid]
    exact .expired now io he hlate
  have hsame : Serves (Alone c.uid (QuietStep e)) s s := same_alone rfl rfl fun d => ⟨.refl d, fun h => .inl h⟩
  unfold Server.expire
  by_cases hdead : c.dead = true
  · rw [if_pos hdead]
    exact hsame
  rw [if_neg hdead]
  by_cases hctl : c.state = .RelayCtl
  · rw [if_pos hctl]
    split
    · exact (closeConn_quiet s c _).dies (hdies fun _ h => absurd hctl h)
    · split
      · refine modify_alone s c.uid _ _ fun d _ _ => ?_
        obtain ⟨more, hmore⟩ :=
          Conn.wsFrame_eq { d with lastPingUs := now } RD_WS_PING (ascii "td") (io.mask 0 d.uid)
        rw [hmore]
        exact ⟨⟨rfl, .refl d, rfl, fun h => h, rfl, rfl⟩, fun h => .inl h⟩
      · exact hsame
  rw [if_neg hctl]
  by_cases hage : c.state ≠ .Active ∧ sub64 now c.createdUs > 120 * kSecond
  · rw [if_pos hage]
    exact (closeConn_quiet s c _).dies (hdies fun _ _ => hage.2)
  rw [if_neg hage]
  by_cases hquiet : c.state = .Active ∧ sub64 now c.lastRxUs > 45 * kSecond
  · rw [if_pos hquiet]
    exact (closeConn_quiet s c _).dies (hdies fun h _ => absurd hquiet.1 h)
  · rw [if_neg hquiet]
    exact hsame

theorem staleRc_serves (he : e = .staleRc c.uid) (reason : Bytes) :
    Serves (Alone c.uid (QuietStep e)) s (s.closeConn c reason) := by
  refine (closeConn_quiet s c _).dies fun d hd huid _ => .rejected (.inr (.inr ?_))
  rw [he, huid]

theorem handleHttp_step (hstate : c.state = .Http) (he : e = .http c.uid) (webRoot : Bytes)
    (readFile : Bytes → FileRead) : Step cr s e c (c.handleHttp cr webRoot readFile).2 := by
  have hanswer : ∀ c' : Conn, c'.identity = c.identity → c'.toSession = c.toSession → c'.closeAfterFlush = true →
      c'.dead = c.dead → c'.sent = c.sent → c'.toScreen = c.toScreen → Step cr s e c c' :=
    fun c' hid hsession hclosing hdead hsent hscreen =>
      ⟨hid, .answered hstate he hsession hclosing hdead, .same hsent hscreen⟩
  unfold Conn.handleHttp
  cases findSub headerEnd c.inn with
  | none =>
      dsimp only
      split
      · exact hanswer _ rfl rfl rfl rfl rfl rfl
      · exact (Bystander.refl c).step
  | some k =>
      dsimp only
      split
      · cases rdHttpHeader ((c.inn.take (k + 2)).drop ((findSub crlf (c.inn.take (k + 2))).getD
            (c.inn.take (k + 2)).length + 2)) "Sec-WebSocket-Key" 128 with
        | none => exact hanswer _ rfl rfl rfl rfl rfl rfl
        | some key =>
            dsimp only
            split
            · exact hanswer _ rfl rfl rfl rfl rfl rfl
            · exact ⟨rfl, .upgraded (.inl ⟨hstate, rfl, he⟩) rfl rfl rfl, .same rfl rfl⟩
      split
      · exact hanswer _ rfl rfl rfl rfl rfl rfl
      · generalize (firstWords ((c.inn.take (k + 2)).take ((findSub crlf (c.inn.take (k + 2))).getD
          (c.inn.take (k + 2)).length))).2 = target
        rcases Conn.serveFile_cases { c with inn := rdBufConsume c.inn (k + 4) } webRoot readFile
            target with ⟨out, hserve⟩ | hthrows
        · rw [hserve]
          dsimp only
          split
          · unfold Conn.dropBody
            split
            · exact hanswer _ rfl rfl rfl rfl rfl rfl
            · exact hanswer _ rfl rfl rfl rfl rfl rfl
          · exact hanswer _ rfl rfl rfl rfl rfl rfl
        · have hread : Unmoved c { c with inn := rdBufConsume c.inn (k + 4) } := ⟨rfl, .refl c, rfl, rfl⟩
          rw [hthrows]
          dsimp only
          rw [if_neg (by simp)]
          exact hread.step (.same rfl rfl)

end OneConn

end TetherDesk.Host
