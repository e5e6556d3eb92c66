import TetherDesk.Host.Server.Speech

namespace TetherDesk.Host

open TetherDesk.Net TetherDesk.Secure TetherDesk.Lib.Table

section Basics

variable {σ : Type} {cr : Crypto} {s s' s'' : Server σ} {c : Conn}

theorem Speaks.tells (h : Speaks cr s s') : Evolves (Says cr) s.conns s'.conns := h.imp fun _ _ hrow => .goes hrow

theorem Utters.tells_trans {a b d : Conn} (h₁ : Utters cr a b) (h₂ : Says cr b d) : Says cr a d := by
  cases h₂ with
  | goes h => exact .goes (h₁.trans h)
  | ends h speaking => exact .ends (h₁.trans h) speaking
  | closes h speaking payload mask short => exact .closes (h₁.trans h) speaking payload mask short

theorem Says.uid {c c' : Conn} (h : Says cr c c') : c'.uid = c.uid := by
  cases h with
  | goes h => exact h.kept.1
  | ends h _ => exact h.kept.1
  | closes h _ payload mask _ => exact (wsFrame_aside _ RD_WS_CLOSE payload mask).1.trans h.kept.1

theorem Says.reader {c c' : Conn} (h : Says cr c c') : c.ws.Kept c'.ws := by
  cases h with
  | goes h => exact h.kept.2.2
  | ends h _ => exact h.kept.2.2
  | @closes d h _ payload mask _ =>
      refine h.kept.2.2.trans ?_
      dsimp only
      rw [(wsFrame_aside d RD_WS_CLOSE payload mask).2.2]
      exact .refl _

theorem Speaks.tells_trans (h₁ : Speaks cr s s') (h₂ : Evolves (Says cr) s'.conns s''.conns) :
    Evolves (Says cr) s.conns s''.conns := h₁.comp (fun _ _ _ h h' => h.tells_trans h') h₂

theorem modify_tells (s : Server σ) (uid : Nat) (f : Conn → Conn)
    (h : ∀ c ∈ s.conns, c.uid = uid → Says cr c (f c)) :
    Evolves (Says cr) s.conns (s.modify uid f).conns :=
  Evolves.map fun c hc => by
    split
    · next huid => exact h c hc huid
    · exact .goes (.refl cr c)

-- The one connection is replaced.
theorem put_speaks {c₁ : Conn} (hrow : ∀ d ∈ s.conns, d.uid = c.uid → d = c) (h : Utters cr c c₁) :
    Speaks cr s (s.modify c.uid fun _ => c₁) :=
  modify_speaks s c.uid _ fun d hd huid => by
    rw [hrow d hd huid]
    exact h

theorem put_past {c₁ : Conn} (h : c₁.Speaking) : Past c.uid (s.modify c.uid fun _ => c₁) := by
  intro d hd hduid
  unfold Server.modify at hd
  obtain ⟨e, -, rfl⟩ := List.mem_map.mp hd
  by_cases he : e.uid = c.uid
  · rwa [if_pos he]
  · rw [if_neg he] at hduid
    exact absurd hduid he

end Basics

section Messages

variable {σ : Type} {cr : Crypto} (plat : Platform σ) (s : Server σ) {c : Conn}

theorem onAuthenticated_speaks (io : Io) (h : Past c.uid s) : Speaks cr s (s.onAuthenticated cr plat c io) := by
  unfold Server.onAuthenticated
  dsimp only
  have hauth : Speaks cr s ({ s with nextId := (s.nextId + 1) % 2 ^ 32, logins := s.logins + 1 }.modify
      c.uid fun c =>
      c.authenticated cr s.cfg s.nextId (io.now 4) (io.mask 0 c.uid)) :=
    modify_speaks _ c.uid _ fun d hd huid => authenticated_utters _ _ _ _ (h d hd huid)
  generalize ({ s with nextId := (s.nextId + 1) % 2 ^ 32, logins := s.logins + 1 }.modify c.uid fun c =>
    c.authenticated cr s.cfg s.nextId (io.now 4) (io.mask 0 c.uid)) = s₁ at hauth ⊢
  have hinfo := hauth.trans (sendDisplayInfo_speaks plat s₁ (io.mask 1 c.uid) (h.speaks hauth))
  generalize s₁.sendDisplayInfo cr plat c.uid (io.mask 1 c.uid) = s₂ at hinfo ⊢
  have hlog : ∀ text, Speaks cr s (s₂.log text) := fun _ => hinfo
  exact ((hlog _).trans (broadcast_speaks _ _ none false _)).trans (broadcast_speaks _ _ _ false _)

theorem handleAuth_tells (r : Reader) (io : Io) (h : Past c.uid s) :
    Evolves (Says cr) s.conns (s.handleAuth cr plat c r io).conns := by
  unfold Server.handleAuth
  generalize s.authVerdict cr c r io = v
  obtain ⟨verdict, guard⟩ := v
  dsimp only
  have hrefuse : ∀ (t : Server σ) (why : Bytes), t.conns = s.conns →
      Evolves (Says cr) s.conns (t.modify c.uid fun c => c.refuse cr why (io.mask 0 c.uid)).conns := by
    intro t why ht
    rw [← ht]
    exact modify_tells t c.uid _ fun d hd huid => refuse_tells why _ (h d (ht ▸ hd) huid)
  cases verdict with
  | locked n => exact hrefuse _ _ rfl
  | wrong => exact hrefuse _ _ rfl
  | full => exact hrefuse _ _ rfl
  | ok =>
      have hguard : Past c.uid { s with guard := guard } := h
      exact (onAuthenticated_speaks plat { s with guard := guard } io hguard).tells

-- A message that has arrived, c being its connection behind the frame.
theorem handleMessage_tells {c₁ : Conn} (hrow : ∀ d ∈ s.conns, d.uid = c.uid → d = c) (hread : Utters cr c c₁)
    (hspeaking : c₁.Speaking) (m : Bytes) (io : Io) :
    Evolves (Says cr) s.conns ((s.modify c.uid fun _ => c₁).handleMessage cr plat c₁ m io).conns := by
  have huid := hread.kept.1
  have hput : Speaks cr s (s.modify c.uid fun _ => c₁) := put_speaks hrow hread
  obtain ⟨recvCtr, hafter⟩ := openMessage_eq cr c₁ m
  unfold Server.handleMessage
  generalize c₁.openMessage cr m = o at hafter ⊢
  obtain ⟨p, c₂⟩ := o
  dsimp only at hafter
  have hopened : Utters cr c₁ c₂ := by
    rw [hafter]
    exact .aside rfl (fun h => h) rfl rfl (.refl _) (.inl rfl)
  have huid₂ : c₂.uid = c.uid := hopened.kept.1.trans huid
  have hspeaking₂ : c₂.Speaking := hopened.kept.2.1 hspeaking
  cases p with
  | none => exact (hput.trans (closeConn_speaks _ _ _)).tells
  | some p =>
      dsimp only
      have hput₂ : (s.modify c.uid fun _ => c₁).modify c₂.uid (fun _ => c₂) = s.modify c.uid fun _ => c₂ := by
        rw [huid₂, put_modify s huid]
      rw [hput₂]
      have hput := put_speaks (s := s) hrow (hread.trans hopened)
      have hpast : Past c₂.uid (s.modify c.uid fun _ => c₂) := huid₂.symm ▸ put_past hspeaking₂
      generalize rdGetU8 (rdReaderInit p) = tr
      obtain ⟨type, r⟩ := tr
      dsimp only
      by_cases hhello : c₂.state = .Hello
      · rw [if_pos hhello]
        split
        · exact (hput.trans (closeConn_speaks _ _ _)).tells
        · rw [huid₂, put_modify s huid₂]
          exact (put_speaks hrow ((hread.trans hopened).trans (hello_utters plat _ r io hhello))).tells
      rw [if_neg hhello]
      by_cases hauth : c₂.state = .Auth
      · rw [if_pos hauth]
        split
        · exact (hput.trans (closeConn_speaks _ _ _)).tells
        · exact hput.tells_trans (handleAuth_tells plat _ r io hpast)
      rw [if_neg hauth]
      split
      · exact (hput.trans (handleSessionMessage_speaks plat _ r io type hpast)).tells
      · exact hput.tells

-- A link to the relay as it is opened.
def Conn.Dialled (c : Conn) : Prop := c.clientWs = true ∧ c.ws = rdWsReaderInit RD_MAX_CLIENT_MSG false

theorem openRelayConn_conns (cr : Crypto) (s : Server σ) (control : Bool) (ticket ip : Bytes) (io : Io) :
    ∃ new, (s.openRelayConn cr control ticket ip io).conns = s.conns ++ new ∧ ∀ d ∈ new, d.Dialled := by
  unfold Server.openRelayConn
  split
  · split
    · exact ⟨[], (List.append_nil _).symm, fun _ h => absurd h List.not_mem_nil⟩
    · exact ⟨[], (List.append_nil _).symm, fun _ h => absurd h List.not_mem_nil⟩
  · have hpush : ∀ d ∈ [Conn.relay cr s.cfg s.nextUid control ticket ip io], d.Dialled := fun d hd => by
      rw [List.mem_singleton.mp hd]
      exact ⟨rfl, rfl⟩
    dsimp only
    split
    · exact ⟨_, rfl, hpush⟩
    · exact ⟨_, rfl, hpush⟩

theorem relayOpen_conns (cr : Crypto) (s : Server σ) (c : Conn) (m : Bytes) (io : Io) :
    ∃ new, (s.relayOpen cr c m io).conns = s.conns ++ new ∧ ∀ d ∈ new, d.Dialled := by
  have hsame : ∃ new, s.conns = s.conns ++ new ∧ ∀ d ∈ new, d.Dialled :=
    ⟨[], (List.append_nil _).symm, fun _ h => absurd h List.not_mem_nil⟩
  unfold Server.relayOpen
  split
  · cases openCommand m with
    | none => exact hsame
    | some t =>
        dsimp only
        split
        · exact openRelayConn_conns cr s false t.1 t.2 io
        · exact hsame
  · exact hsame

-- The rows after a step: each comes from one before it, or is new.
def Continues (cr : Crypto) (l l' : List Conn) : Prop :=
  ∀ c' ∈ l', (∃ c ∈ l, Says cr c c') ∨ c'.Dialled ∨
    c'.toOutgoing = (Conn.fresh 0).toOutgoing ∧ c'.state = .Http ∧ c'.ch = Channel.zero ∧ c'.ws.Plain

theorem Continues.of_tells {l l' : List Conn} (h : Evolves (Says cr) l l') : Continues cr l l' := fun _ hc' =>
  .inl (h.new_row hc')

theorem Speaks.continues {s s' : Server σ} (h : Speaks cr s s') : Continues cr s.conns s'.conns := .of_tells h.tells

theorem Continues.with_new {l l' new : List Conn} (h : Evolves (Says cr) l l') (hnew : ∀ d ∈ new, d.Dialled) :
    Continues cr l (l' ++ new) := by
  intro c' hc'
  rcases List.mem_append.mp hc' with h' | h'
  · exact .inl (h.new_row h')
  · exact .inr (.inl (hnew c' h'))

theorem wsFrame_read (c : Conn) (ws : WsReader) (inn : Bytes) (opcode : Nat) (p mask : Bytes) :
    { c with ws := ws, inn := inn }.wsFrame opcode p mask =
      { c.wsFrame opcode p mask with ws := ws, inn := inn } := by
  unfold Conn.wsFrame
  by_cases hdead : c.dead = true
  · rw [if_pos hdead, if_pos hdead]
  · rw [if_neg hdead, if_neg hdead]

-- One round of handle_ws_messages.
theorem wsRound_continues (hup : c.upgraded = true) (hrow : ∀ d ∈ s.conns, d.uid = c.uid → d = c) (io : Io) :
    Continues cr s.conns (s.wsRound cr plat c io).1.conns := by
  unfold Server.wsRound
  by_cases hstop : c.dead = true ∨ c.state = .Closing
  · rw [if_pos hstop]
    exact (Speaks.refl s).continues
  rw [if_neg hstop]
  have hspeaking : c.Speaking := by
    unfold Conn.upgraded at hup
    exact ⟨(show _ ∧ _ by simpa using hup).1, fun h => hstop (.inr h)⟩
  have hplain := fun h => (wsNextLoop_plain (c.inn.length + 1) (r := c.ws) h c.inn).2
  have hkept := wsNextLoop_kept (c.inn.length + 1) c.ws c.inn
  unfold rdWsNext
  generalize wsNextLoop (c.inn.length + 1) c.ws c.inn = next at hplain hkept ⊢
  obtain ⟨next, ws, inn⟩ := next
  dsimp only at hplain hkept ⊢
  have hread : Utters cr c { c with ws := ws, inn := inn } := .aside rfl (fun h => h) rfl rfl hkept (.inl rfl)
  have hput := put_speaks (s := s) hrow hread
  have hspeaking₁ := hread.kept.2.1 hspeaking
  have hthen := fun f => put_modify s (show Conn.uid { c with ws := ws, inn := inn } = c.uid from rfl) f
  cases next with
  | more => exact hput.continues
  | error => exact (hput.trans (closeConn_speaks _ _ _)).continues
  | got m =>
      dsimp only
      by_cases hbinary : m.opcode = RD_WS_BINARY
      · rw [if_pos hbinary]
        exact .of_tells (handleMessage_tells plat s hrow hread hspeaking₁ m.data io)
      rw [if_neg hbinary]
      by_cases hping : m.opcode = RD_WS_PING
      · rw [if_pos hping]
        dsimp only
        rw [hthen]
        have hshort : c.ws.Plain → m.data.length ≤ 125 := fun h => hplain h m rfl (by rw [hping]; decide)
        have hframe : Utters cr c (c.wsFrame RD_WS_PONG m.data (io.mask 0 c.uid)) :=
          .control RD_WS_PONG m.data _ hspeaking (.inr rfl) hshort
        refine (put_speaks hrow (hframe.trans ?_)).continues
        change Utters cr _ ({ c with ws := ws, inn := inn }.wsFrame RD_WS_PONG m.data (io.mask 0 c.uid))
        rw [wsFrame_read c ws inn]
        refine .aside rfl (fun h => h) rfl rfl ?_ (.inl rfl)
        rw [(wsFrame_aside c RD_WS_PONG m.data _).2.2]
        exact hkept
      rw [if_neg hping]
      by_cases hclose : m.opcode = RD_WS_CLOSE
      · rw [if_pos hclose]
        have hleft : ∀ t : Server σ, t.conns = s.conns →
            Continues cr s.conns (t.modify c.uid fun _ =>
              { c with ws := ws, inn := inn }.closing m.data (io.mask 0 c.uid)).conns := by
          intro t ht
          rw [← ht]
          refine .of_tells (modify_tells t c.uid _ fun d hd huid => ?_)
          rw [hrow d (ht ▸ hd) huid]
          exact hread.tells_trans (closing_tells m.data _ hspeaking₁)
        dsimp only
        split
        · have h := hleft (s.log (c.name ++ ascii " left")) rfl
          rw [← put_modify _ (show Conn.uid { c with ws := ws, inn := inn } = c.uid from rfl) fun c =>
            c.closing m.data (io.mask 0 c.uid)] at h
          exact h
        · have h := hleft s rfl
          rw [← put_modify _ (show Conn.uid { c with ws := ws, inn := inn } = c.uid from rfl) fun c =>
            c.closing m.data (io.mask 0 c.uid)] at h
          exact h
      rw [if_neg hclose]
      split
      · obtain ⟨new, hconns, hnew⟩ := relayOpen_conns cr (s.modify c.uid fun _ => { c with ws := ws, inn := inn })
          { c with ws := ws, inn := inn } m.data io
        dsimp only
        rw [hconns]
        exact .with_new hput.tells hnew
      · exact hput.continues

end Messages

section Rounds

variable {σ : Type} {cr : Crypto} (plat : Platform σ) {s s' : Server σ} {c : Conn}

theorem flush_speaks (s : Server σ) (c : Conn) (answers : List SockAnswer) : Speaks cr s (s.flush c answers) := by
  have hflush : ∀ t : Server σ, t.conns = s.conns → Speaks cr s (t.modify c.uid fun c => c.flush answers) :=
    fun t ht =>
    (Speaks.of_conns ht).trans (modify_speaks t c.uid _ fun d _ _ => .flushed answers)
  unfold Server.flush
  dsimp only
  split
  · exact hflush (s.log _) rfl
  · exact hflush s rfl

theorem tcpReady_speaks (hrow : ∀ d ∈ s.conns, d.uid = c.uid → d = c) (hpending : c.tcpPending = true) (ok : Bool)
    (tls : Option TlsOut) (answers : List SockAnswer) : Speaks cr s (s.tcpReady c ok tls answers) := by
  have hready : ∀ d : Conn, d.uid = c.uid → d.clientWs = c.clientWs → d.ws = c.ws → d.state = c.state →
      Utters cr c d :=
    fun d huid hclient hws hstate =>
      .linked (.inl hpending) huid hclient (hws ▸ .refl _) (fun h => by rwa [Conn.Speaking, hstate])
  unfold Server.tcpReady
  split
  · exact closeConn_speaks s c _
  dsimp only
  have hput := put_speaks (s := s) hrow (hready { c with tcpPending := false } rfl rfl rfl rfl)
  split
  · cases tls with
    | none => exact hput.trans (closeConn_speaks _ _ _)
    | some t =>
        dsimp only
        rw [put_modify s (show Conn.uid { c with tcpPending := false } = c.uid from rfl)]
        exact put_speaks hrow (hready _ rfl rfl rfl rfl)
  · exact hput.trans (flush_speaks _ _ answers)

theorem handshake_speaks (hrow : ∀ d ∈ s.conns, d.uid = c.uid → d = c) (hshaking : c.tlsHandshaking = true)
    (rc : Int)
    (err : Bytes) (answers : List SockAnswer) : Speaks cr s (s.handshake c rc err answers) := by
  unfold Server.handshake
  split
  · dsimp only
    split
    · exact closeConn_speaks (s.log _) c _
    · exact closeConn_speaks s c _
  split
  · exact .refl s
  · dsimp only
    have hready : Utters cr c { c with tlsHandshaking := false } :=
      .linked (.inr (.inl hshaking)) rfl rfl (.refl _) (fun h => h)
    exact (put_speaks hrow hready).trans (flush_speaks _ _ answers)

theorem received_speaks (data : Bytes) (now : Nat) : Speaks cr s (s.received c data now) := by
  unfold Server.received
  split
  · exact .refl s
  · exact modify_speaks s c.uid _ fun d _ _ => .aside rfl (fun h => h) rfl rfl (.refl _) (.inl rfl)

theorem recvFailed_speaks (data : Bytes) : Speaks cr s (s.recvFailed c data) := by
  unfold Server.recvFailed
  have hread : Speaks cr s (s.modify c.uid fun c => { c with inn := c.inn ++ data }) :=
    modify_speaks s c.uid _ fun d _ _ => .aside rfl (fun h => h) rfl rfl (.refl _) (.inl rfl)
  exact hread.trans (closeConn_speaks _ _ _)

theorem expire_speaks (hrow : ∀ d ∈ s.conns, d.uid = c.uid → d = c) (now : Nat) (io : Io) :
    Speaks cr s (s.expire c now io) := by
  unfold Server.expire
  split
  · exact .refl s
  split
  · next hctl =>
      split
      · exact closeConn_speaks s c _
      · split
        · refine modify_speaks s c.uid _ fun d hd huid => ?_
          obtain rfl := hrow d hd huid
          have hping : Utters cr d { d with lastPingUs := now } :=
            .aside rfl (fun h => h) rfl rfl (.refl _) (.inl rfl)
          have hspeaking : Conn.Speaking { d with lastPingUs := now } := by
            rw [Conn.Speaking, hctl]
            exact ⟨by decide, by decide⟩
          exact hping.trans (.control RD_WS_PING (ascii "td") _ hspeaking (.inl rfl) fun _ => by decide)
        · exact .refl s
  · split
    · exact closeConn_speaks s c _
    · split
      · exact closeConn_speaks s c _
      · exact .refl s

theorem finishRelayUpgrade_speaks (hstate : c.state = .RelayUpgrade) (hrow : ∀ d ∈ s.conns, d.uid = c.uid → d = c) :
    Speaks cr s (s.finishRelayUpgrade c) := by
  unfold Server.finishRelayUpgrade
  cases (findSub headerEnd c.inn).filter (· ≠ 0) with
  | none =>
      dsimp only
      split
      · exact closeConn_speaks s c _
      · exact .refl s
  | some k =>
      dsimp only
      have hread : Speaks cr s (s.modify c.uid fun c => { c with inn := rdBufConsume c.inn (k + 4) }) :=
        modify_speaks s c.uid _ fun d _ _ => .aside rfl (fun h => h) rfl rfl (.refl _) (.inl rfl)
      have hup : ∀ state, state ≠ .Http ∧ state ≠ .Closing →
          Speaks cr s ((s.modify c.uid fun c => { c with inn := rdBufConsume c.inn (k + 4) }).modify c.uid
            fun c => { c with state := state }) := by
        intro state hspeaking
        rw [modify_modify s c.uid _ _ fun _ => by rfl]
        refine modify_speaks s c.uid _ fun d hd huid => ?_
        rw [hrow d hd huid]
        exact .linked (.inr (.inr hstate)) rfl rfl (.refl _) fun _ => hspeaking
      generalize (s.modify c.uid fun c => { c with inn := rdBufConsume c.inn (k + 4) }) = s₁ at hread hup ⊢
      split
      · split
        · exact hread
        · split
          · exact hread.trans (closeConn_speaks (s₁.log _) c _)
          · exact hread.trans (closeConn_speaks s₁ c _)
      · split
        · exact hup .RelayCtl ⟨by decide, by decide⟩
        · exact hup .Hello ⟨by decide, by decide⟩

theorem pump_speaks (hrow : ∀ d ∈ s.conns, d.uid = c.uid → d = c) (f : Option Frame) (now : Nat)
    (schedule : List Nat)
    (io : Io) (h : s.pump cr plat c f now schedule io = some s') : Speaks cr s s' := by
  unfold Server.pump at h
  by_cases hidle : c.dead = true ∨ c.state ≠ .Active
  · rw [if_pos hidle, Option.some.injEq] at h
    exact h ▸ .refl s
  have hspeaking : c.Speaking := by
    rw [Conn.Speaking, not_not.mp fun h => hidle (.inr h)]
    exact ⟨by decide, by decide⟩
  rw [if_neg hidle] at h
  generalize s.screenInfo plat = r at h
  obtain ⟨info, os⟩ := r
  generalize (f.any fun f => f.width ≠ c.shadowW ∨ f.height ≠ c.shadowH) = resized at h
  obtain ⟨c', hc', rfl⟩ := Option.map_eq_some_iff.mp h
  have hrow' : ∀ d ∈ ({ s with os := if resized then os else s.os } : Server σ).conns, d.uid = c.uid → d = c := hrow
  exact put_speaks hrow'
    ((maybeSendFrame_utters f now info s.pool schedule (fun k => io.mask k c.uid) hc' hspeaking).trans
    (adaptQuality_utters now))

theorem pollClipboard_speaks (s : Server σ) (now : Nat) (io : Io) :
    Speaks cr s (s.pollClipboard cr plat now io) := by
  unfold Server.pollClipboard
  split
  · exact .refl s
  extract_lets s₁
  generalize plat.clipboard.changeCount s₁.os = r
  obtain ⟨cc, os⟩ := r
  dsimp only
  split
  · exact .of_conns rfl
  generalize plat.clipboard.getText os = r
  obtain ⟨text, os'⟩ := r
  cases text with
  | none => exact .of_conns rfl
  | some text =>
      dsimp only
      split
      · exact .of_conns rfl
      · refine Speaks.trans ?_ (broadcast_speaks _ _ none true _)
        exact .of_conns rfl

theorem announceLeft_speaks (s : Server σ) (left : List Bytes) (io : Io) :
    Speaks cr s (s.announceLeft cr left io) := by
  have hnotices : ∀ (names : List (Bytes × Nat)) (t : Server σ), Speaks cr s t → Speaks cr s
      (names.foldl (fun s n => s.notice cr (n.1 ++ ascii " disconnected") none (io.mask (n.2 + 1))) t) := by
    intro names
    induction names with
    | nil => exact fun t ht => ht
    | cons n names ih => exact fun t ht => ih _ (ht.trans (broadcast_speaks t _ none false _))
  unfold Server.announceLeft
  split
  · exact .refl s
  · exact hnotices _ _ (broadcast_speaks s _ none false _)

theorem reap_continues (s : Server σ) (io : Io) : Continues cr s.conns (s.reap cr plat io).conns := by
  unfold Server.reap
  dsimp only
  obtain ⟨hconns, -⟩ := dismantle_all plat io (s.conns.filter fun c => c.dead) s
  generalize (s.conns.filter fun c => c.dead).foldl (fun s c => s.dismantle plat c io) s = t at hconns ⊢
  have h : Speaks cr { t with conns := t.conns.filter fun c => !c.dead }
      ({ t with conns := t.conns.filter fun c => !c.dead }.announceLeft cr (leftNames s.conns) io) :=
    announceLeft_speaks _ _ io
  intro c' hc'
  obtain ⟨c, hc, hrow⟩ := h.new_row hc'
  refine .inl ⟨c, ?_, .goes hrow⟩
  rw [← hconns]
  exact (List.mem_filter.mp hc).1

theorem toggleViewOnly_speaks (s : Server σ) (c : Conn) (io : Io) (h : Past c.uid s) :
    Speaks cr s (s.toggleViewOnly cr plat c io) := by
  unfold Server.toggleViewOnly
  dsimp only
  have htoggle : Speaks cr s (s.modify c.uid fun d => { d with viewOnly := !c.viewOnly }) :=
    modify_speaks s c.uid _ fun d _ _ => .aside rfl (fun h => h) rfl rfl (.refl _) (.inl rfl)
  generalize (s.modify c.uid fun d => { d with viewOnly := !c.viewOnly }) = s₁ at htoggle ⊢
  have hrelease : Speaks cr s (if (!c.viewOnly) = true ∧ c.sentInput = true then
      { s₁ with os := plat.input.releaseAll s₁.os } else s₁) := by
    split
    · exact htoggle
    · exact htoggle
  generalize (if (!c.viewOnly) = true ∧ c.sentInput = true then
    { s₁ with os := plat.input.releaseAll s₁.os } else s₁) = s₂ at hrelease ⊢
  have htold := hrelease.trans
      (sendTo_speaks s₂ (authResultMsg true (!c.viewOnly) (ascii (if (!c.viewOnly) = true then
    "The host made you view-only" else "The host gave you control"))) (io.mask 0 c.uid) (h.speaks hrelease))
  generalize s₂.sendTo cr c.uid (authResultMsg true (!c.viewOnly) (ascii (if (!c.viewOnly) = true then
    "The host made you view-only" else "The host gave you control"))) (io.mask 0 c.uid) = s₃ at htold ⊢
  exact htold.trans (broadcast_speaks s₃ _ none false _)

theorem handleConsoleLine_tells (hrow : ∀ c ∈ s.conns, ∀ d ∈ s.conns, d.uid = c.uid → d = c)
    (raw : Bytes) (io : Io) :
    Evolves (Says cr) s.conns (s.handleConsoleLine cr plat raw io).conns := by
  unfold Server.handleConsoleLine
  dsimp only
  generalize cleanText raw 1000 = line
  generalize splitCommand line = words
  obtain ⟨cmd, arg⟩ := words
  dsimp only
  have hsame : Evolves (Says cr) s.conns s.conns := (Speaks.refl s).tells
  split
  · exact hsame
  split
  · exact hsame
  split
  · unfold Server.list
    dsimp only
    split
    · exact hsame
    · exact hsame
  split
  · cases hc : s.findViewer arg with
    | none => exact hsame
    | some c =>
        obtain ⟨hmem, hlive⟩ := findViewer_mem hc
        have hpast : Past c.uid s := fun d hd huid => by
          rw [hrow c hmem d hd huid]
          exact live_speaking hlive
        dsimp only
        split
        · exact modify_tells s c.uid _ fun d hd huid => kicked_tells _ (hpast d hd huid)
        · exact (toggleViewOnly_speaks plat s c io hpast).tells
  split
  · split
    · exact hsame
    · exact hsame
  split
  · exact hsame
  split
  · exact hsame
  · exact (broadcast_speaks s _ none false _).tells

theorem consoleLine_tells (hrow : ∀ c ∈ s.conns, ∀ d ∈ s.conns, d.uid = c.uid → d = c) (io : Io) :
    Evolves (Says cr) s.conns (s.consoleLine cr plat io).conns := by
  unfold Server.consoleLine
  split
  · have hline : ∀ buf raw,
        Evolves (Says cr) s.conns ({ s with consoleBuf := buf }.handleConsoleLine cr plat raw io).conns :=
      fun buf raw => handleConsoleLine_tells (s := { s with consoleBuf := buf }) plat hrow raw io
    exact hline _ _
  · exact Speaks.tells (Speaks.refl s)

-- Every step but the answer to a request.
theorem apply_continues {e : ServerEvent σ} (htidy : s.Tidy) (he : ∀ uid, e ≠ .http uid)
    (h : e.apply cr plat s = some s') :
    Continues cr s.conns s'.conns := by
  have hskip : Continues cr s.conns s.conns := (Speaks.refl s).continues
  have honConn : ∀ {uid : Nat} {f : Conn → Server σ}, (∀ c ∈ s.conns, c.uid = uid →
      Continues cr s.conns (f c).conns) →
      Continues cr s.conns (s.onConn uid f).conns := by
    intro uid f hf
    unfold Server.onConn
    cases hfind : s.find uid with
    | none => exact hskip
    | some c => exact hf c (find_spec hfind).1 (find_spec hfind).2
  unfold ServerEvent.apply at h
  by_cases hthrown : s.thrown = true
  · rw [if_pos hthrown] at h
    cases h
  rw [if_neg hthrown] at h
  cases e with
  | world os => exact Option.some.inj h ▸ hskip
  | consoleRead chunk => exact Option.some.inj h ▸ hskip
  | consoleLine io => exact Option.some.inj h ▸ .of_tells (consoleLine_tells plat (fun c hc => htidy.row hc) io)
  | tcpReady uid ok tls answers =>
      refine Option.some.inj h ▸ honConn fun c hc _ => ?_
      split
      · next hpending => exact (tcpReady_speaks (htidy.row hc) hpending ok tls answers).continues
      · exact hskip
  | handshake uid rc err answers =>
      refine Option.some.inj h ▸ honConn fun c hc _ => ?_
      split
      · next hshaking => exact (handshake_speaks (htidy.row hc) hshaking rc err answers).continues
      · exact hskip
  | received uid data now => exact Option.some.inj h ▸ honConn fun c _ _ => (received_speaks data now).continues
  | recvFailed uid data => exact Option.some.inj h ▸ honConn fun c _ _ => (recvFailed_speaks data).continues
  | http uid => exact absurd rfl (he uid)
  | relayUpgrade uid =>
      refine Option.some.inj h ▸ honConn fun c hc _ => ?_
      split
      · next hstate => exact (finishRelayUpgrade_speaks hstate (htidy.row hc)).continues
      · exact hskip
  | message uid io =>
      refine Option.some.inj h ▸ honConn fun c hc _ => ?_
      split
      · next hup => exact wsRound_continues plat s hup (htidy.row hc) io
      · exact hskip
  | staleRc uid =>
      refine Option.some.inj h ▸ honConn fun c hc _ => ?_
      split
      · exact (closeConn_speaks s c _).continues
      · exact hskip
  | flush uid answers => exact Option.some.inj h ▸ honConn fun c _ _ => (flush_speaks s c answers).continues
  | accept addr now =>
      rw [← Option.some.inj h]
      unfold Server.acceptNew
      split
      · exact hskip
      · intro c' hc'
        rcases List.mem_append.mp hc' with h' | h'
        · exact .inl ⟨c', h', .goes (.refl cr c')⟩
        · rw [List.mem_singleton.mp h']
          exact .inr (.inr ⟨rfl, rfl, rfl, fun _ ho => by cases ho⟩)
  | expire uid now io => exact Option.some.inj h ▸ honConn fun c hc _ =>
      (expire_speaks (htidy.row hc) now io).continues
  | pump uid f now schedule io =>
      dsimp only at h
      cases hfind : s.find uid with
      | none =>
          rw [hfind] at h
          exact Option.some.inj h ▸ hskip
      | some c =>
          rw [hfind] at h
          exact (pump_speaks plat (htidy.row (find_spec hfind).1) f now schedule io h).continues
  | pollClipboard now io => exact Option.some.inj h ▸ (pollClipboard_speaks plat s now io).continues
  | reap io => exact Option.some.inj h ▸ reap_continues plat s io
  | maintainRelay now io =>
      rw [← Option.some.inj h]
      unfold Server.maintainRelay
      split
      · exact hskip
      · obtain ⟨new, hconns, hnew⟩ := openRelayConn_conns cr s true [] [] io
        rw [hconns]
        exact .with_new (Speaks.refl s).tells hnew

-- The answer to a request.
theorem apply_http {uid : Nat} (htidy : s.Tidy) (h : (ServerEvent.http uid).apply cr plat s = some s') :
    ∀ c' ∈ s'.conns, c' ∈ s.conns ∨ ∃ c ∈ s.conns, c.uid = uid ∧ c.state = .Http ∧
      c' = (c.handleHttp cr s.cfg.webRoot (plat.files.readFile s.os)).2 := by
  unfold ServerEvent.apply at h
  by_cases hthrown : s.thrown = true
  · rw [if_pos hthrown] at h
    cases h
  rw [if_neg hthrown] at h
  rw [← Option.some.inj h]
  unfold Server.onConn
  cases hfind : s.find uid with
  | none => exact fun c' hc' => .inl hc'
  | some c =>
      obtain ⟨hmem, huid⟩ := find_spec hfind
      dsimp only
      split
      · next hstate =>
          intro c' hc'
          obtain ⟨d, hd, rfl⟩ := List.mem_map.mp hc'
          split
          · next hduid =>
              obtain rfl := htidy.row hmem d hd hduid
              exact .inr ⟨d, hd, huid, hstate, rfl⟩
          · exact .inl hd
      · exact fun c' hc' => .inl hc'

end Rounds

end TetherDesk.Host
