import TetherDesk.Host.Server.Step
import TetherDesk.Net.Ws.Frames

namespace TetherDesk.Host

open TetherDesk.Net TetherDesk.Secure TetherDesk.Lib.Table

-- A connection after rd_ws_next and rd_channel_open have run on it.
def Read (c c₂ : Conn) : Prop :=
  ∃ ws inn recvCtr, c₂ = { c with ws := ws, inn := inn, ch := { c.ch with recvCtr := recvCtr } } ∧
    ws.maxMessage = c.ws.maxMessage

-- What reading leaves alone.
theorem Read.eqs {c c₂ : Conn} (h : Read c c₂) :
    c₂.uid = c.uid ∧ c₂.dead = c.dead ∧ c₂.state = c.state ∧ c₂.live = c.live ∧ c₂.addr = c.addr ∧
      c₂.transcript = c.transcript := by
  obtain ⟨ws, inn, recvCtr, rfl, -⟩ := h
  exact ⟨rfl, rfl, rfl, rfl, rfl, rfl⟩

theorem Read.trans {a b c : Conn} (h₁ : Read a b) (h₂ : Read b c) : Read a c := by
  obtain ⟨ws, inn, recvCtr, rfl, hlimit⟩ := h₁
  obtain ⟨ws', inn', recvCtr', rfl, hlimit'⟩ := h₂
  exact ⟨ws', inn', recvCtr', rfl, hlimit'.trans hlimit⟩

theorem Read.quiet {c c₂ : Conn} (h : Read c c₂) : Quiet c c₂ := by
  obtain ⟨ws, inn, recvCtr, rfl, -⟩ := h
  exact ⟨rfl, ⟨c.ch.sendCtr, recvCtr, rfl⟩, rfl, fun h => h, rfl, rfl⟩

theorem openMessage_eq (cr : Crypto) (c : Conn) (m : Bytes) :
    ∃ recvCtr, (c.openMessage cr m).2 = { c with ch := { c.ch with recvCtr := recvCtr } } := by
  unfold Conn.openMessage
  by_cases hactive : c.ch.active = true
  · rw [if_neg (by simp [hactive])]
    obtain ⟨recvCtr, hch⟩ := rdChannelOpen_channel cr c.ch m (List.replicate m.length 0)
    dsimp only
    by_cases hneg : (rdChannelOpen cr c.ch m (List.replicate m.length 0)).1 < 0
    · rw [if_pos hneg]
      exact ⟨c.ch.recvCtr, rfl⟩
    · rw [if_neg hneg]
      exact ⟨recvCtr, by rw [hch]⟩
  · rw [if_pos (by simp [hactive])]
    exact ⟨c.ch.recvCtr, rfl⟩

theorem readClientHello_name (r : Reader) : (readClientHello r).name ≠ [] := by
  unfold readClientHello
  dsimp only
  split
  · decide
  · assumption

section Login

variable {σ : Type} (cr : Crypto) (plat : Platform σ) {s : Server σ} {c c₂ : Conn} {io : Io} {r : Reader}
  {e : ServerEvent σ}

theorem authResultMsg_plain (ok vo : Bool) (text : Bytes) : Plain (authResultMsg ok vo text) :=
  .of_type RD_S_AUTH_RESULT rfl (by decide)

theorem incompatible_step (hread : Read c c₂) (hstate : c.state = .Hello) (halive : c.dead = false)
    (he : e = .message c.uid io) (name mask : Bytes) (hname : name ≠ []) :
    Step cr s e c ({ c₂ with name := name }.incompatible cr mask) := by
  obtain ⟨ws, inn, recvCtr, rfl, -⟩ := hread
  unfold Conn.incompatible
  obtain ⟨out, sent, sendCtr, screen, h, hsent⟩ := sendMsg_bystander cr
    { c with ws := ws, inn := inn, ch := { c.ch with recvCtr := recvCtr }, name := name }
    (authResultMsg false false (ascii "Incompatible viewer version - please update TetherDesk")) mask
    (authResultMsg_plain _ _ _)
  rw [h]
  exact ⟨rfl, .incompatible hstate halive ⟨io, he⟩ hname ⟨sendCtr, recvCtr, rfl⟩ rfl rfl, .plain sent rfl hsent⟩

theorem hello_step (hread : Read c c₂) (hstate : c.state = .Hello) (halive : c.dead = false)
    (he : e = .message c.uid io) (hmsg : c.messageIn cr = some (RD_C_HELLO, r)) :
    Step cr s e c (c₂.hello cr plat s.cfg r io) := by
  have hname := readClientHello_name r
  unfold Conn.hello
  dsimp only
  cases hce : (readClientHello r).ce with
  | none => exact incompatible_step cr hread hstate halive he _ _ hname
  | some ce =>
      dsimp only
      by_cases hversion : (readClientHello r).version ≠ RD_PROTO_VERSION
      · rw [if_pos hversion]
        exact incompatible_step cr hread hstate halive he _ _ hname
      rw [if_neg hversion]
      obtain ⟨ws, inn, recvCtr, rfl, -⟩ := hread
      cases hagreed : keyAgreement cr s.cfg ce io with
      | none =>
          refine ⟨rfl, .keyFailed hstate hname ⟨io, he⟩ ⟨c.ch.sendCtr, recvCtr, rfl⟩ rfl rfl,
            .plain [] ?_ (.refl _)⟩
          exact (List.append_nil _).symm
      | some dh =>
          obtain ⟨dh1, dh2⟩ := dh
          dsimp only
          generalize hc₃ : ({ c with
            ws := ws
            inn := inn
            ch := { c.ch with recvCtr := recvCtr }
            name := (readClientHello r).name
            nonce := io.random 0
            transcript := rdHsTranscript cr ce s.cfg.staticPub (rdX25519Base cr (io.random 1)) (io.random 0)
              } : Conn) = c₃
          obtain ⟨out, sent, sendCtr, screen, h, hsent⟩ := sendMsg_bystander cr c₃
            (helloMsg s.cfg plat.osName (io.random 0) (rdX25519Base cr (io.random 1))) (io.mask 0 c.uid)
            (.of_type RD_S_HELLO rfl (by decide))
          rw [h]
          subst hc₃
          exact ⟨rfl, .greeted io r ce dh1 dh2 hstate halive he hmsg (not_not.mp hversion) hce hagreed rfl rfl rfl,
            .plain sent rfl hsent⟩

theorem refuse_step (hread : Read c c₂) (hstate : c.state = .Auth) (halive : c.dead = false)
    (he : e = .message c.uid io)
    (hmsg : c.messageIn cr = some (RD_C_AUTH, r)) (hverdict : (s.authVerdict cr c r io).1 ≠ .ok)
    (why mask : Bytes) :
    Step cr s e c (c₂.refuse cr why mask) := by
  obtain ⟨ws, inn, recvCtr, rfl, -⟩ := hread
  unfold Conn.refuse
  obtain ⟨out, sent, sendCtr, screen, h, hsent⟩ := sendMsg_bystander cr
    { c with ws := ws, inn := inn, ch := { c.ch with recvCtr := recvCtr } } (authResultMsg false false why) mask
    (authResultMsg_plain _ _ _)
  rw [h]
  exact ⟨rfl, .refused io r hstate halive he hmsg hverdict ⟨sendCtr, recvCtr, rfl⟩ rfl rfl, .plain sent rfl hsent⟩

theorem authenticated_step (hread : Read c c₂) (hstate : c.state = .Auth) (halive : c.dead = false)
    (he : e = .message c.uid io) (hmsg : c.messageIn cr = some (RD_C_AUTH, r))
    (hverdict : (s.authVerdict cr c r io).1 = .ok) (now : Nat) (mask : Bytes) {c' : Conn}
    (h : Addressed (c₂.authenticated cr s.cfg s.nextId now mask) c') : Step cr s e c c' := by
  obtain ⟨ws, inn, recvCtr, rfl, -⟩ := hread
  unfold Conn.authenticated at h
  obtain ⟨out, sent, sendCtr, screen, hsent, hframeless, hsize⟩ := sendMsg_addressed cr
    { c with
      ws := ws
      inn := inn
      ch := { c.ch with recvCtr := recvCtr }
      state := .Active
      id := s.nextId
      viewOnly := s.cfg.viewOnly
      fps := s.cfg.maxFps
      effFps := s.cfg.maxFps
      needFull := true
      adaptWindowUs := now
      everAuthed := true }
    (authResultMsg true s.cfg.viewOnly
      (ascii (if s.cfg.viewOnly then "Connected (view only)" else "Connected"))) mask
    (authResultMsg_plain _ _ _).1
  rw [hsent] at h
  obtain ⟨out', sent', sendCtr', screen', rfl, hframeless', hsize'⟩ := h
  have hlogin : Tended c.toScreen
      { c.toScreen with fps := s.cfg.maxFps, effFps := s.cfg.maxFps, needFull := true, adaptWindowUs := now } :=
    ⟨.inl ⟨rfl, rfl⟩, fun _ => rfl, ⟨rfl, rfl⟩, rfl, ⟨rfl, rfl⟩, rfl, [], by simp, rfl⟩
  exact ⟨rfl, .authenticated io r hstate halive he hmsg hverdict ⟨sendCtr', recvCtr, rfl⟩ rfl rfl,
    .authenticated hstate (sent ++ sent') (List.append_assoc _ _ _)
      (fun m hm => (List.mem_append.mp hm).elim (hframeless m) (hframeless' m)) (hlogin.trans (hsize.trans hsize'))⟩

end Login

section Handle

variable {σ : Type} (cr : Crypto) (plat : Platform σ) (s : Server σ) (c : Conn)

theorem authenticated_uid (c : Conn) (cfg : ServerConfig) (id now : Nat) (mask : Bytes) :
    (c.authenticated cr cfg id now mask).uid = c.uid := by
  unfold Conn.authenticated
  exact (sendMsg_addressed cr _ _ mask (authResultMsg_plain _ _ _).1).uid

-- On authentication the new viewer gets its own state; all others only messages.
theorem onAuthenticated_evolves (io : Io) :
    Evolves (Acts c.uid fun d d' => Addressed (d.authenticated cr s.cfg s.nextId (io.now 4) (io.mask 0 d.uid))
      d') s.conns
      (s.onAuthenticated cr plat c io).conns := by
  have hown : Evolves (Acts c.uid fun d d' => d' = d.authenticated cr s.cfg s.nextId (io.now 4) (io.mask 0 d.uid))
      s.conns (({ s with nextId := (s.nextId + 1) % 2 ^ 32, logins := s.logins + 1 }.modify c.uid fun c =>
        c.authenticated cr s.cfg s.nextId (io.now 4) (io.mask 0 c.uid)).conns) :=
    (modify_serves { s with nextId := (s.nextId + 1) % 2 ^ 32, logins := s.logins + 1 } c.uid
      (fun c => c.authenticated cr s.cfg s.nextId (io.now 4) (io.mask 0 c.uid)) (fun d d' => d' =
        d.authenticated cr s.cfg
        s.nextId (io.now 4) (io.mask 0 d.uid)) fun d _ _ => rfl).conns
  unfold Server.onAuthenticated
  dsimp only
  generalize { s with nextId := (s.nextId + 1) % 2 ^ 32, logins := s.logins + 1 }.modify c.uid (fun c =>
    c.authenticated cr s.cfg s.nextId (io.now 4) (io.mask 0 c.uid)) = s₁ at hown ⊢
  have hsend := sendDisplayInfo_serves cr plat s₁ c.uid (io.mask 1 c.uid)
  generalize s₁.sendDisplayInfo cr plat c.uid (io.mask 1 c.uid) = s₂ at hsend ⊢
  have hlog : Serves Bystander s₂ (s₂.log (c.name ++ ascii " connected from " ++ c.addr ++
      (if s₂.cfg.viewOnly then ascii " (view only)" else []))) := same_books_serves s₂ rfl rfl
  generalize s₂.log (c.name ++ ascii " connected from " ++ c.addr ++
    (if s₂.cfg.viewOnly then ascii " (view only)" else [])) = s₃ at hlog ⊢
  have hothers := hlog.bystander_trans ((broadcastViewers_serves cr s₃ (io.mask 2)).bystander_trans
    (notice_serves cr _ (c.name ++ ascii " connected") (some c.uid) (io.mask 3)))
  generalize (s₃.broadcastViewers cr (io.mask 2)).notice cr (c.name ++ ascii " connected") (some c.uid)
    (io.mask 3) = s₄
    at hothers ⊢
  have hrest : Serves (Acts c.uid Addressed) s₁ s₄ := by
    refine Serves.comp ?_ hsend
      (hothers.imp fun _ _ hb => @Acts.of_bystander c.uid _ (fun _ _ => Bystander.addressed) _ _ hb)
    exact fun _ _ _ h h' => h.trans h' (fun _ _ _ h h' => h.trans h') fun _ _ h => h.uid
  refine hown.comp ?_ hrest.conns
  intro d d₁ d' hacts hb
  unfold Acts at *
  by_cases hd : d.uid = c.uid
  · rw [if_pos hd] at hacts ⊢
    subst hacts
    have huid : (d.authenticated cr s.cfg s.nextId (io.now 4) (io.mask 0 d.uid)).uid = c.uid :=
      (authenticated_uid cr d _ _ _ _).trans hd
    rw [if_pos huid] at hb
    exact hb
  · rw [if_neg hd] at hacts ⊢
    rw [if_neg (hacts.uid ▸ hd)] at hb
    exact hacts.trans hb

theorem activeCount_put {c₂ : Conn} (hrow : ∀ d ∈ s.conns, d.uid = c.uid → d = c) (hlive : c₂.live = c.live) :
    (s.modify c.uid fun _ => c₂).activeCount = s.activeCount := by
  unfold Server.activeCount Server.modify
  rw [List.countP_map]
  refine List.countP_congr fun d hd => ?_
  by_cases huid : d.uid = c.uid
  · simp [hrow d hd huid, hlive]
  · simp [huid]

-- A successful login in state s.
def LogsIn (e : ServerEvent σ) (c : Conn) : Prop :=
  ∃ io r, e = .message c.uid io ∧ c.state = .Auth ∧ c.dead = false ∧ c.messageIn cr = some (RD_C_AUTH, r) ∧
    (s.authVerdict cr c r io).1 = .ok

end Handle

section Message

variable {σ : Type} (cr : Crypto) (plat : Platform σ) {s : Server σ} {c c₁ : Conn} {io : Io} {e : ServerEvent σ}

theorem Quiet.close (c : Conn) : Quiet c c.close := ⟨rfl, .refl c, rfl, fun _ => rfl, rfl, rfl⟩

theorem close_step (hread : Read c c₁) (he : e = .message c.uid io) : Step cr s e c c₁.close :=
  (hread.quiet.trans (.close c₁)).step fun _ => .inr (.rejected (.inl ⟨io, he⟩))

theorem read_step (hread : Read c c₁) : Step cr s e c c₁ :=
  hread.quiet.step fun h => .inl (hread.eqs.2.1.symm.trans h)

theorem modify_steps (uid : Nat) (f : Conn → Conn) (h : ∀ d ∈ s.conns, d.uid = uid → Step cr s e d (f d)) :
    Evolves (Step cr s e) s.conns (s.modify uid f).conns := by
  refine Evolves.map fun d hd => ?_
  by_cases huid : d.uid = uid
  · rw [if_pos huid]
    exact h d hd huid
  · rw [if_neg huid]
    exact (Bystander.refl d).step

theorem put_steps (hrow : ∀ d ∈ s.conns, d.uid = c.uid → d = c) (h : Step cr s e c c₁) :
    Evolves (Step cr s e) s.conns (s.modify c.uid fun _ => c₁).conns := by
  refine modify_steps cr c.uid _ fun d hd huid => ?_
  rw [hrow d hd huid]
  exact h

theorem put_modify (s : Server σ) (huid : c₁.uid = c.uid) (f : Conn → Conn) :
    (s.modify c.uid fun _ => c₁).modify c.uid f = s.modify c.uid fun _ => f c₁ := by
  unfold Server.modify
  rw [List.map_map]
  congr 1
  refine List.map_congr_left fun d _ => ?_
  by_cases hd : d.uid = c.uid
  · simp [hd, huid]
  · simp [hd]

theorem closeConn_conns (s : Server σ) (c : Conn) (reason : Bytes) (halive : c.dead = false) :
    (s.closeConn c reason).conns = (s.modify c.uid Conn.close).conns := by
  unfold Server.closeConn
  rw [if_neg (by simp [halive])]
  split <;> rfl

theorem put_close_steps (hread : Read c c₁) (he : e = .message c.uid io) (halive : c.dead = false)
    (hrow : ∀ d ∈ s.conns, d.uid = c.uid → d = c)
    (reason : Bytes) : Evolves (Step cr s e) s.conns ((s.modify c.uid fun _ => c₁).closeConn c₁ reason).conns := by
  obtain ⟨huid, hdead, -⟩ := hread.eqs
  rw [closeConn_conns _ c₁ reason (hdead.trans halive), huid, put_modify s huid]
  exact put_steps cr hrow (close_step cr hread he)

theorem closeConn_books (s : Server σ) (c : Conn) (reason : Bytes) : (s.closeConn c reason).toBooks =
    s.toBooks := by
  unfold Server.closeConn
  split
  · rfl
  · split <;> rfl

theorem onAuthenticated_books (s : Server σ) (c : Conn) (io : Io) : (s.onAuthenticated cr plat c io).toBooks =
    { s.toBooks with nextId := (s.nextId + 1) % 2 ^ 32, logins := s.logins + 1 } := by
  unfold Server.onAuthenticated Server.sendDisplayInfo
  rfl

theorem messageIn_read (m : WsMsg) (hframe : c.frameIn = some m) (hopcode : m.opcode = RD_WS_BINARY) :
    c.messageIn cr = (c.openMessage cr m.data).1.map fun p => rdGetU8 (rdReaderInit p) := by
  unfold Conn.messageIn
  rw [hframe]
  dsimp only
  rw [if_pos hopcode]

theorem openMessage_read (ws : WsReader) (inn m : Bytes) :
    ({ c with ws := ws, inn := inn }.openMessage cr m).1 = (c.openMessage cr m).1 := by
  unfold Conn.openMessage
  dsimp only
  split
  · rfl
  · split <;> rfl

-- The messages that log nobody in.
theorem not_logsIn_message {type : Nat} {r : Reader} (hmsg : c.messageIn cr = some (type, r))
    (hne : c.state ≠ .Auth ∨ type ≠ RD_C_AUTH) : ¬ LogsIn cr s e c := by
  rintro ⟨-, r', -, hstate, -, hmsg', -⟩
  rw [hmsg, Option.some.injEq, Prod.mk.injEq] at hmsg'
  exact hne.elim (fun h => h hstate) fun h => h hmsg'.1

theorem messageIn_frame {type : Nat} {r : Reader} (h : c.messageIn cr = some (type, r)) :
    ∃ m, c.frameIn = some m ∧ m.opcode = RD_WS_BINARY := by
  unfold Conn.messageIn at h
  cases hframe : c.frameIn with
  | none =>
      rw [hframe] at h
      cases h
  | some m =>
      rw [hframe] at h
      dsimp only at h
      by_cases hbinary : m.opcode = RD_WS_BINARY
      · exact ⟨m, rfl, hbinary⟩
      · rw [if_neg hbinary] at h
        cases h

-- The outcomes of one round of handle_ws_messages for connection c.
inductive Round {σ : Type} (cr : Crypto) (plat : Platform σ) (s : Server σ) (c : Conn) (io : Io) : Server σ → Prop
  | stopped (h : c.dead = true ∨ c.state = .Closing) : Round cr plat s c io s
  | read (c₂ : Conn) (read : Read c c₂) (quiet : ¬ LogsIn cr s (.message c.uid io) c) :
      Round cr plat s c io (s.modify c.uid fun _ => c₂)
  | closed (c₂ : Conn) (read : Read c c₂) (alive : c.dead = false) (quiet : ¬ LogsIn cr s (.message c.uid io) c)
      (reason : Bytes) : Round cr plat s c io ((s.modify c.uid fun _ => c₂).closeConn c₂ reason)
  | pong (c₂ : Conn) (read : Read c c₂) (quiet : ¬ LogsIn cr s (.message c.uid io) c) (payload : Bytes) :
      Round cr plat s c io (s.modify c.uid fun _ => c₂.wsFrame RD_WS_PONG payload (io.mask 0 c.uid))
  | left (c₂ : Conn) (read : Read c c₂) (alive : c.dead = false) (quiet : ¬ LogsIn cr s (.message c.uid io) c)
      (stays : c.state ≠ .Closing) (m : WsMsg) (frame : c.frameIn = some m) (opcode : m.opcode = RD_WS_CLOSE)
      (lines : List Line) : Round cr plat s c io
        ({ s with out := s.out ++ lines }.modify c.uid fun _ => c₂.closing m.data (io.mask 0 c.uid))
  | opened (c₂ : Conn) (read : Read c c₂) (quiet : ¬ LogsIn cr s (.message c.uid io) c) (m : Bytes) :
      Round cr plat s c io ((s.modify c.uid fun _ => c₂).relayOpen cr c₂ m io)
  | hello (c₂ : Conn) (read : Read c c₂) (alive : c.dead = false) (state : c.state = .Hello) (r : Reader)
      (message : c.messageIn cr = some (RD_C_HELLO, r)) :
      Round cr plat s c io (s.modify c.uid fun _ => c₂.hello cr plat s.cfg r io)
  | refused (c₂ : Conn) (read : Read c c₂) (alive : c.dead = false) (state : c.state = .Auth) (r : Reader)
      (message : c.messageIn cr = some (RD_C_AUTH, r)) (verdict : (s.authVerdict cr c r io).1 ≠ .ok) (guard : Guard)
      (lines : List Line) (why : Bytes) : Round cr plat s c io
        ({ s with guard := guard, out := s.out ++ lines }.modify c.uid fun _ => c₂.refuse cr why (io.mask 0 c.uid))
  | login (c₂ : Conn) (read : Read c c₂) (alive : c.dead = false) (state : c.state = .Auth) (r : Reader)
      (message : c.messageIn cr = some (RD_C_AUTH, r)) (verdict : (s.authVerdict cr c r io).1 = .ok)
        (guard : Guard) :
      Round cr plat s c io ({ s.modify c.uid (fun _ => c₂) with guard := guard }.onAuthenticated cr plat c₂ io)
  | session (c₂ : Conn) (read : Read c c₂) (alive : c.dead = false) (state : c.state = .Active) (type : Nat)
      (r : Reader)
      (message : c.messageIn cr = some (type, r)) :
      Round cr plat s c io ((s.modify c.uid fun _ => c₂).handleSessionMessage cr plat c₂ r io type)

theorem handleAuth_cases (hread : Read c c₁) (hrow : ∀ d ∈ s.conns, d.uid = c.uid → d = c)
    (hstate : c.state = .Auth)
    (halive : c.dead = false) {r : Reader} (hmsg : c.messageIn cr = some (RD_C_AUTH, r)) :
    Round cr plat s c io ((s.modify c.uid fun _ => c₁).handleAuth cr plat c₁ r io) := by
  obtain ⟨huid, -, -, hlive, haddr, htranscript⟩ := hread.eqs
  have hverdict : (s.modify c.uid fun _ => c₁).authVerdict cr c₁ r io = s.authVerdict cr c r io := by
    unfold Server.authVerdict authMacOk
    rw [activeCount_put s c hrow hlive, haddr, htranscript]
    rfl
  have hrefused : ∀ guard lines why, (s.authVerdict cr c r io).1 ≠ .ok → Round cr plat s c io
      ({ s.modify c.uid (fun _ => c₁) with guard := guard, out := s.out ++ lines }.modify c.uid
        fun d => d.refuse cr why (io.mask 0 d.uid)) := by
    intro guard lines why hne
    have h := put_modify (c := c) { s with guard := guard, out := s.out ++ lines } huid
      fun d => d.refuse cr why (io.mask 0 d.uid)
    have hround : Round cr plat s c io _ := .refused c₁ hread halive hstate r hmsg hne guard lines why
    rw [← huid] at hround h ⊢
    exact h ▸ hround
  unfold Server.handleAuth
  rw [hverdict, huid]
  generalize hv : s.authVerdict cr c r io = v at hrefused
  obtain ⟨verdict, guard⟩ := v
  cases verdict with
  | locked secondsLeft => exact hrefused guard [_] _ (by simp)
  | wrong => exact hrefused guard [_] _ (by simp)
  | full =>
      have h := hrefused guard [] (ascii "Host is full (" ++ decimal s.cfg.maxViewers ++ ascii " viewers)")
          (by simp)
      rw [List.append_nil] at h
      exact h
  | ok => exact .login c₁ hread halive hstate r hmsg (by rw [hv]) guard

theorem handleMessage_cases (ws : WsReader) (inn : Bytes) (hlimit : ws.maxMessage = c.ws.maxMessage)
    (hrow : ∀ d ∈ s.conns, d.uid = c.uid → d = c)
    (halive : c.dead = false) (m : WsMsg) (hframe : c.frameIn = some m) (hopcode : m.opcode = RD_WS_BINARY) :
    Round cr plat s c io ((s.modify c.uid fun _ => { c with ws := ws, inn := inn }).handleMessage cr plat
      { c with ws := ws, inn := inn } m.data io) := by
  have hread : Read c { c with ws := ws, inn := inn } := ⟨ws, inn, c.ch.recvCtr, rfl, hlimit⟩
  have hin := messageIn_read cr m hframe hopcode
  have hopen := openMessage_read cr (c := c) ws inn m.data
  obtain ⟨recvCtr, hafter⟩ := openMessage_eq cr { c with ws := ws, inn := inn } m.data
  unfold Server.handleMessage
  generalize ({ c with ws := ws, inn := inn } : Conn) = c₁ at hread hopen hafter ⊢
  generalize c₁.openMessage cr m.data = o at hopen hafter ⊢
  obtain ⟨p, c₂⟩ := o
  have hread₂ : Read c c₂ := hread.trans ⟨c₁.ws, c₁.inn, recvCtr, hafter, rfl⟩
  obtain ⟨huid₂, -, hstate₂, -⟩ := hread₂.eqs
  have hput : (s.modify c.uid fun _ => c₁).modify c₂.uid (fun _ => c₂) = s.modify c.uid fun _ => c₂ := by
    rw [huid₂, put_modify s hread.eqs.1]
  cases p with
  | none =>
      dsimp only at hopen ⊢
      -- handle_message closes it before the channel's state is stored
      have hclosed : Round cr plat s c io ((s.modify c.uid fun _ => c₁).closeConn c₁
          (ascii "decryption failed (tampered or corrupted data)")) := by
        refine .closed c₁ hread halive ?_ _
        rintro ⟨-, r, -, -, -, hmsg, -⟩
        rw [hin, ← hopen] at hmsg
        cases hmsg
      have hsame : (s.modify c.uid fun _ => c₁).closeConn c₂
          (ascii "decryption failed (tampered or corrupted data)") =
          (s.modify c.uid fun _ => c₁).closeConn c₁ (ascii "decryption failed (tampered or corrupted data)") := by
        rw [show c₂ = _ from hafter]
        rfl
      exact hsame ▸ hclosed
  | some p =>
      dsimp only at hopen ⊢
      rw [← hopen] at hin
      dsimp only [Option.map_some] at hin
      generalize rdGetU8 (rdReaderInit p) = tr at hin ⊢
      obtain ⟨type, r⟩ := tr
      dsimp only
      rw [hput]
      by_cases hhello : c₂.state = .Hello
      · rw [if_pos hhello]
        have hstate : c.state = .Hello := hstate₂ ▸ hhello
        by_cases htype : type ≠ RD_C_HELLO
        · rw [if_pos htype]
          exact .closed c₂ hread₂ halive (not_logsIn_message cr hin (.inl (by rw [hstate]; decide))) _
        · rw [if_neg htype, huid₂, put_modify s huid₂]
          rw [not_not.mp htype] at hin
          exact .hello c₂ hread₂ halive hstate r hin
      rw [if_neg hhello]
      by_cases hauth : c₂.state = .Auth
      · rw [if_pos hauth]
        by_cases htype : type ≠ RD_C_AUTH
        · rw [if_pos htype]
          exact .closed c₂ hread₂ halive (not_logsIn_message cr hin (.inr htype)) _
        · rw [if_neg htype]
          rw [not_not.mp htype] at hin
          exact handleAuth_cases cr plat hread₂ hrow (hstate₂ ▸ hauth) halive hin
      rw [if_neg hauth]
      by_cases hactive : c₂.state = .Active
      · rw [if_pos hactive]
        exact .session c₂ hread₂ halive (hstate₂ ▸ hactive) type r hin
      · rw [if_neg hactive]
        exact .read c₂ hread₂ (not_logsIn_message cr hin (.inl (hstate₂ ▸ hauth)))

theorem wsRound_cases (io : Io) (hrow : ∀ d ∈ s.conns, d.uid = c.uid → d = c) :
    Round cr plat s c io (s.wsRound cr plat c io).1 := by
  unfold Server.wsRound
  by_cases hstop : c.dead = true ∨ c.state = .Closing
  · rw [if_pos hstop]
    exact .stopped hstop
  rw [if_neg hstop]
  have halive : c.dead = false := by simpa using fun h => hstop (.inl h)
  have hlogin : LogsIn cr s (.message c.uid io) c → ∃ m, c.frameIn = some m ∧ m.opcode = RD_WS_BINARY := by
    rintro ⟨-, r, -, -, -, hmsg, -⟩
    exact messageIn_frame cr hmsg
  have hlimit : (rdWsNext c.ws c.inn).2.1.maxMessage = c.ws.maxMessage := (wsNextLoop_limit _ c.ws c.inn).1
  generalize hnext : rdWsNext c.ws c.inn = next at hlimit ⊢
  obtain ⟨next, ws, inn⟩ := next
  dsimp only
  have hread : Read c { c with ws := ws, inn := inn } := ⟨ws, inn, c.ch.recvCtr, rfl, hlimit⟩
  have hthen := fun f => put_modify s (show Conn.uid { c with ws := ws, inn := inn } = c.uid from rfl) f
  cases next with
  | more =>
      have hframe : c.frameIn = none := by rw [Conn.frameIn, hnext]
      refine .read _ hread fun h => ?_
      obtain ⟨m, hm, -⟩ := hlogin h
      rw [hframe] at hm
      cases hm
  | error =>
      have hframe : c.frameIn = none := by rw [Conn.frameIn, hnext]
      refine .closed _ hread halive (fun h => ?_) _
      obtain ⟨m, hm, -⟩ := hlogin h
      rw [hframe] at hm
      cases hm
  | got m =>
      have hframe : c.frameIn = some m := by rw [Conn.frameIn, hnext]
      dsimp only
      by_cases hbinary : m.opcode = RD_WS_BINARY
      · rw [if_pos hbinary]
        exact handleMessage_cases cr plat ws inn hlimit hrow halive m hframe hbinary
      rw [if_neg hbinary]
      have hno : ¬ LogsIn cr s (.message c.uid io) c := by
        intro h
        obtain ⟨m', hm', hopcode⟩ := hlogin h
        rw [hframe, Option.some.injEq] at hm'
        exact hbinary (hm' ▸ hopcode)
      by_cases hping : m.opcode = RD_WS_PING
      · rw [if_pos hping]
        dsimp only
        rw [hthen]
        exact .pong { c with ws := ws, inn := inn } hread hno m.data
      rw [if_neg hping]
      by_cases hclose : m.opcode = RD_WS_CLOSE
      · rw [if_pos hclose]
        have hround := fun lines =>
          @Round.left _ cr plat _ _ _ _ hread halive hno (fun h => hstop (.inr h)) m hframe
          hclose lines
        dsimp only
        split
        · next hactive =>
            have h := hround [.log (c.name ++ ascii " left")]
            rw [← put_modify _ (show Conn.uid { c with ws := ws, inn := inn } = c.uid from rfl) fun c =>
              c.closing m.data (io.mask 0 c.uid)] at h
            exact h
        · have h := hround []
          rw [List.append_nil, ← put_modify _ (show Conn.uid { c with ws := ws, inn := inn } =
            c.uid from rfl) fun c =>
            c.closing m.data (io.mask 0 c.uid)] at h
          exact h
      rw [if_neg hclose]
      by_cases htext : m.opcode = RD_WS_TEXT
      · rw [if_pos htext]
        exact .opened _ hread hno m.data
      · rw [if_neg htext]
        exact .read _ hread hno

end Message

end TetherDesk.Host
