import TetherDesk.Host.Server.Transfers

namespace TetherDesk.Host

open TetherDesk.Net TetherDesk.Secure TetherDesk.Lib.Stdio TetherDesk.Lib.Table TetherDesk.Lib.Transition

section Steps

variable {σ : Type} {cr : Crypto} {plat : Platform σ} (fs : HostFiles plat) {s t : Server σ} {c : Conn}
  {e : ServerEvent σ}
  {io : Io}

-- A message to a viewer that is logged in is served.
theorem wsRound_session (hlive : c.live = true) {type : Nat} {r : Reader} (hmsg : c.messageIn cr = some (type, r)) :
    ∃ c₂, Read c c₂ ∧
      (s.wsRound cr plat c io).1 = (s.modify c.uid fun _ => c₂).handleSessionMessage cr plat c₂ r io type := by
  unfold Conn.live at hlive
  obtain ⟨hactive, halive⟩ := of_decide_eq_true hlive
  obtain ⟨m, hframe, hbinary⟩ := messageIn_frame cr hmsg
  rw [messageIn_read cr m hframe hbinary] at hmsg
  have hlimit : (rdWsNext c.ws c.inn).2.1.maxMessage = c.ws.maxMessage := (wsNextLoop_limit _ c.ws c.inn).1
  unfold Conn.frameIn at hframe
  unfold Server.wsRound
  rw [if_neg (by simpa [hactive] using halive)]
  generalize rdWsNext c.ws c.inn = next at hframe hlimit ⊢
  obtain ⟨next, ws, inn⟩ := next
  cases next with
  | more => cases hframe
  | error => cases hframe
  | got m' =>
      obtain rfl := Option.some.inj hframe
      dsimp only at hlimit ⊢
      rw [if_pos hbinary]
      have hread : Read c { c with ws := ws, inn := inn } := ⟨ws, inn, c.ch.recvCtr, rfl, hlimit⟩
      have hopen := openMessage_read cr (c := c) ws inn m'.data
      obtain ⟨recvCtr, hafter⟩ := openMessage_eq cr { c with ws := ws, inn := inn } m'.data
      unfold Server.handleMessage
      generalize ({ c with ws := ws, inn := inn } : Conn) = c₁ at hread hopen hafter ⊢
      generalize c₁.openMessage cr m'.data = o at hopen hafter ⊢
      obtain ⟨p, c₂⟩ := o
      have hread₂ : Read c c₂ := hread.trans ⟨c₁.ws, c₁.inn, recvCtr, hafter, rfl⟩
      obtain ⟨huid₂, -, hstate₂, -⟩ := hread₂.eqs
      dsimp only at hopen ⊢
      rw [← hopen] at hmsg
      cases p with
      | none => cases hmsg
      | some p =>
          have htype : rdGetU8 (rdReaderInit p) = (type, r) := Option.some.inj hmsg
          dsimp only
          rw [htype]
          dsimp only
          rw [hstate₂, hactive, if_neg (by decide), if_neg (by decide), if_pos rfl, huid₂, put_modify s hread.eqs.1]
          exact ⟨c₂, hread₂, rfl⟩

-- What a row may hold.
structure Holding.Bounded (h : Holding) : Prop where
  limit : h.limit ≤ RD_MAX_CLIENT_MSG
  few : h.uploads.length ≤ 4
  ids : (h.uploads.map Prod.fst).Nodup
  fits : ∀ x ∈ h.uploads, x.2.received ≤ x.2.size ∧ x.2.size ≤ RD_MAX_FILE_SIZE

-- The streams and files of some connections.
def transfersOf (conns : List Conn) : List (Nat × Bytes) :=
    conns.flatMap fun c => c.uploads.map fun u => (u.2.file, u.2.path)

-- Everything a step can do to the transfers and the files.
inductive Outcome (fs : HostFiles plat) (cr : Crypto) (s : Server σ) (e : ServerEvent σ) (t : Server σ) : Prop
  | kept (quiet : s.fileMessageIn cr e = none) (kept : Kept fs s t)
  | moved (os : σ) (event : e = .world os) (rows : t.holdings = s.holdings) (view : fs.view t.os = fs.view os)
  | limited (uid : Nat) (quiet : s.fileMessageIn cr e = none)
      (rows : t.holdings = s.holdings.map fun h => if h.uid = uid then { h with limit := RD_MAX_CLIENT_MSG } else h)
      (view : fs.view t.os = fs.view s.os)
  | joined (limit : Nat) (quiet : s.fileMessageIn cr e = none) (small : limit ≤ RD_MAX_CLIENT_MSG)
      (rows : t.holdings = s.holdings ++ [⟨s.nextUid, [], [], limit⟩]) (view : fs.view t.os = fs.view s.os)
  | reaped (io : Io) (event : e = .reap io) (rows : t.holdings = (s.conns.filter fun c => !c.dead).map Conn.holding)
      (dropped : Dropped (fs.view s.os) (transfersOf (s.conns.filter fun c => c.dead)) (fs.view t.os))
  | filed (io : Io) (c : Conn) (m : FileMessage) (event : e = .message c.uid io) (mem : c ∈ s.conns)
      (live : c.live = true)
      (message : s.fileMessageIn cr e = some (c, m)) (filed : Filed fs s c m t)

theorem openRelayConn_outcome {s₁ : Server σ} (hkept : Kept fs s s₁) (huid : s₁.nextUid = s.nextUid)
    (control : Bool)
    (ticket viewerIp : Bytes) (hquiet : s.fileMessageIn cr e = none) :
    Outcome fs cr s e (s₁.openRelayConn cr control ticket viewerIp io) := by
  unfold Server.openRelayConn
  split
  · split
    · exact .kept hquiet (hkept.trans (.of_conns fs s₁ rfl rfl))
    · exact .kept hquiet hkept
  · have hjoined : ∀ t : Server σ, t.conns =
        s₁.conns ++ [Conn.relay cr s₁.cfg s₁.nextUid control ticket viewerIp io] →
        t.os = s₁.os → Outcome fs cr s e t := by
      intro t hconns hos
      refine .joined RD_MAX_CLIENT_MSG hquiet (Nat.le_refl _) ?_ ((congrArg fs.view hos).trans hkept.view)
      rw [← hkept.rows, ← huid]
      unfold Server.holdings
      rw [hconns, List.map_append]
      rfl
    cases control with
    | true => exact hjoined _ rfl rfl
    | false => exact hjoined _ rfl rfl

theorem handleHttp_holding (webRoot : Bytes) (readFile : Bytes → FileRead) :
    (c.handleHttp cr webRoot readFile).2.holding = c.holding ∨
      (c.handleHttp cr webRoot readFile).2.holding = { c.holding with limit := RD_MAX_CLIENT_MSG } := by
  have hfile : ∀ (d : Conn) target, (d.serveFile webRoot readFile target).2.holding = d.holding := by
    intro d target
    rcases d.serveFile_cases webRoot readFile target with ⟨out, h⟩ | h
    · rw [h]
      rfl
    · rw [h]
  have hbody : ∀ d : Conn, d.dropBody.holding = d.holding := by
    intro d
    unfold Conn.dropBody
    split <;> rfl
  unfold Conn.handleHttp
  cases findSub headerEnd c.inn with
  | none =>
      dsimp only
      split
      · exact .inl rfl
      · exact .inl rfl
  | some k =>
      dsimp only
      split
      · cases rdHttpHeader
          ((c.inn.take (k + 2)).drop ((findSub crlf (c.inn.take (k + 2))).getD (c.inn.take (k + 2)).length + 2))
            "Sec-WebSocket-Key" 128 with
        | none => exact .inl rfl
        | some key =>
            dsimp only
            split
            · exact .inl rfl
            · exact .inr rfl
      split
      · exact .inl rfl
      refine .inl ?_
      generalize (firstWords ((c.inn.take (k + 2)).take ((findSub crlf (c.inn.take (k + 2))).getD
        (c.inn.take (k + 2)).length))).2 = target
      have hserved : ({ c with inn := rdBufConsume c.inn (k + 4) }.serveFile webRoot readFile
          target).2.holding = c.holding :=
        hfile { c with inn := rdBufConsume c.inn (k + 4) } target
      generalize { c with inn := rdBufConsume c.inn (k + 4) }.serveFile webRoot readFile target = r at hserved ⊢
      obtain ⟨threw, d⟩ := r
      dsimp only at hserved ⊢
      split
      · exact (hbody d).trans hserved
      · exact hserved

theorem transfersOf_cons (d : Conn) (conns : List Conn) :
    transfersOf (d :: conns) = (d.uploads.map fun u => (u.2.file, u.2.path)) ++ transfersOf conns := rfl

-- Taking a connection apart closes and removes its uploads one after the other.
theorem dismantle_dropped (s : Server σ) (c : Conn) (io : Io) :
    Dropped (fs.view s.os) (c.uploads.map fun u => (u.2.file, u.2.path)) (fs.view (s.dismantle plat c io).os) := by
  have hfold : ∀ (uploads : List (Nat × Upload)) (os : σ),
      Dropped (fs.view os) (uploads.map fun u => (u.2.file, u.2.path))
      (fs.view (uploads.foldl (fun os u => plat.files.remove (plat.files.fclose os u.2.file) u.2.path) os)) := by
    intro uploads
    induction uploads with
    | nil => exact fun os => .nil _
    | cons u uploads ih => exact fun os => .cons _ (fs.fclose os u.2.file) (fs.remove _ u.2.path) (ih _)
  have hrelease : ∀ os : σ, fs.view (if c.sentInput then plat.input.releaseAll os else os) = fs.view os := by
    intro os
    split
    · exact fs.releaseAll os
    · rfl
  have hos : fs.view (s.dismantle plat c io).os = fs.view (if c.sentInput then plat.input.releaseAll
      (c.uploads.foldl (fun os u => plat.files.remove (plat.files.fclose os u.2.file) u.2.path) s.os)
      else c.uploads.foldl (fun os u => plat.files.remove (plat.files.fclose os u.2.file) u.2.path) s.os) := by
    unfold Server.dismantle
    dsimp only
    split
    · split <;> rfl
    · rfl
  rw [hos, hrelease]
  exact hfold c.uploads s.os

theorem dismantle_all_dropped (io : Io) (dead : List Conn) (s : Server σ) :
    Dropped (fs.view s.os) (transfersOf dead) (fs.view (dead.foldl (fun s c => s.dismantle plat c io) s).os) := by
  induction dead generalizing s with
  | nil => exact .nil _
  | cons c dead ih =>
      rw [transfersOf_cons]
      exact (dismantle_dropped fs s c io).append (ih (s.dismantle plat c io))

theorem reap_outcome (io : Io) : Outcome fs cr s (.reap io) (s.reap cr plat io) := by
  have hdropped := dismantle_all_dropped fs io (s.conns.filter fun c => c.dead) s
  obtain ⟨hconns, -⟩ := dismantle_all plat io (s.conns.filter fun c => c.dead) s
  unfold Server.reap
  dsimp only
  generalize (s.conns.filter fun c => c.dead).foldl (fun s c => s.dismantle plat c io) s = t at hdropped hconns ⊢
  have hkept := announceLeft_kept cr fs (s := { t with conns := t.conns.filter fun c => !c.dead }) io
      (leftNames s.conns)
  refine .reaped io rfl (hkept.rows.trans ?_) (hkept.view ▸ hdropped)
  unfold Server.holdings
  dsimp only
  rw [hconns]

theorem fileMessageIn_message (htidy : s.Tidy) (hc : c ∈ s.conns) (hlive : c.live = true) {type : Nat} {r : Reader}
    (hmsg : c.messageIn cr = some (type, r)) :
    s.fileMessageIn cr (.message c.uid io) = (fileMessage type r).map fun m => (c, m) := by
  unfold Server.fileMessageIn
  dsimp only
  rw [show s.find c.uid = some c from find_row Conn.uid htidy.distinct hc]
  dsimp only
  rw [if_pos hlive, hmsg]
  rfl

theorem fileMessageIn_some {m : FileMessage} (h : s.fileMessageIn cr e = some (c, m)) :
    ∃ io type r, e = .message c.uid io ∧ c ∈ s.conns ∧ c.live = true ∧ c.messageIn cr = some (type, r) ∧
      fileMessage type r = some m := by
  unfold Server.fileMessageIn at h
  split at h
  · next uid io =>
      split at h
      · cases h
      · next d hfind =>
          obtain ⟨hd, rfl⟩ := find_spec hfind
          split at h
          · next hlive =>
              obtain ⟨m', hm', heq⟩ := Option.map_eq_some_iff.mp h
              obtain ⟨⟨type, r⟩, hmsg, hfile⟩ := Option.bind_eq_some_iff.mp hm'
              rw [Prod.mk.injEq] at heq
              obtain ⟨rfl, rfl⟩ := heq
              exact ⟨io, type, r, rfl, hd, hlive, hmsg, hfile⟩
          · cases h
  · cases h

-- A message that is none of a transfer.
theorem wsRound_outcome (htidy : s.Tidy) (hc : c ∈ s.conns)
    (hquiet : s.fileMessageIn cr (.message c.uid io) = none) :
    Outcome fs cr s (.message c.uid io) (s.wsRound cr plat c io).1 := by
  have hrow := htidy.row hc
  have hround := wsRound_cases cr plat io hrow
  have hput : ∀ c₂, Read c c₂ → c₂.holding = c.holding := by
    rintro _ ⟨ws, inn, recvCtr, rfl, hlimit⟩
    unfold Conn.holding
    dsimp only
    rw [hlimit]
  have hkept : ∀ c₂ c₃ (t : Server σ), Read c c₂ → c₃.holding = c₂.holding → t.conns = s.conns → t.os = s.os →
      Kept fs s (t.modify c.uid fun _ => c₃) := by
    intro c₂ c₃ t hread h hconns hos
    refine (Kept.of_conns fs s hconns (congrArg fs.view hos)).trans ?_
    exact put_kept fs (hconns ▸ hrow) (h.trans (hput c₂ hread))
  generalize (s.wsRound cr plat c io).1 = t at hround ⊢
  cases hround with
  | stopped => exact .kept hquiet (.refl fs s)
  | read c₂ read => exact .kept hquiet (hkept c₂ c₂ s read rfl rfl rfl)
  | closed c₂ read _ _ reason =>
      exact .kept hquiet ((hkept c₂ c₂ s read rfl rfl rfl).trans (closeConn_kept fs _ c₂ reason))
  | pong c₂ read _ payload => exact .kept hquiet (hkept c₂ _ s read (wsFrame_holding c₂ _ _ _) rfl rfl)
  | left c₂ read _ _ _ m _ _ lines =>
      exact .kept hquiet (hkept c₂ _ { s with out := s.out ++ lines } read (closing_holding c₂ _ _) rfl rfl)
  | opened c₂ read _ m =>
      have hkept₂ := hkept c₂ c₂ s read rfl rfl rfl
      unfold Server.relayOpen
      split
      · cases openCommand m with
        | none => exact .kept hquiet hkept₂
        | some ticket =>
            dsimp only
            split
            · exact openRelayConn_outcome fs hkept₂ rfl false _ _ hquiet
            · exact .kept hquiet hkept₂
      · exact .kept hquiet hkept₂
  | hello c₂ read _ _ r => exact .kept hquiet (hkept c₂ _ s read (hello_holding cr c₂ plat s.cfg r io) rfl rfl)
  | refused c₂ read _ _ r _ _ guard lines why =>
      exact .kept hquiet
        (hkept c₂ _ { s with guard := guard, out := s.out ++ lines } read (refuse_holding cr c₂ _ _) rfl rfl)
  | login c₂ read _ _ r _ _ guard =>
      refine .kept hquiet (Kept.trans ?_ (onAuthenticated_kept cr fs io))
      exact (hkept c₂ c₂ s read rfl rfl rfl).trans (.of_conns fs _ rfl rfl)
  | session c₂ read alive state type r message =>
      have hlive : c.live = true := by simp [Conn.live, state, alive]
      rw [fileMessageIn_message htidy hc hlive message, Option.map_eq_none_iff] at hquiet
      refine .kept ?_ ((hkept c₂ c₂ s read rfl rfl rfl).trans (handleSessionMessage_kept cr fs r io type hquiet))
      rw [fileMessageIn_message htidy hc hlive message, hquiet]
      rfl

theorem apply_outcome (htidy : s.Tidy) (hbounded : ∀ h ∈ s.holdings, h.Bounded) (h : e.apply cr plat s = some t) :
    Outcome fs cr s e t := by
  -- a message of a transfer is served, whatever else the event could be
  cases hmessage : s.fileMessageIn cr e with
  | some cm =>
      obtain ⟨c, m⟩ := cm
      obtain ⟨io, type, r, rfl, hc, hlive, hmsg, hfile⟩ := fileMessageIn_some hmessage
      have hrow := htidy.row hc
      unfold ServerEvent.apply at h
      split at h
      · cases h
      have hfind : s.find c.uid = some c := find_row Conn.uid htidy.distinct hc
      obtain rfl := Option.some.inj h
      unfold Server.onConn
      rw [hfind]
      dsimp only
      rw [if_pos (by unfold Conn.live at hlive; simp [Conn.upgraded, (of_decide_eq_true hlive).1])]
      obtain ⟨c₂, hread, hround⟩ : ∃ c₂, Read c c₂ ∧ (s.wsRound cr plat c io).1 = _ := wsRound_session hlive hmsg
      rw [hround]
      refine .filed io c m rfl hc hlive hmessage (.of_read fs hrow hread ?_)
      obtain ⟨huid₂, hdead₂, -⟩ := hread.eqs
      have hrow₂ := put_row (s := s) (c := c) huid₂
      have hbound := hbounded c.holding (List.mem_map_of_mem hc)
      have hlength := messageIn_length hmsg
      have halive : c₂.dead = false := by
        unfold Conn.live at hlive
        rw [hdead₂]
        simpa using (of_decide_eq_true hlive).2
      have hsmall : ∀ id u, c₂.upload id = some u → u.received + r.rest.length < 2 ^ 64 := by
        intro id u hu
        obtain ⟨ws, inn, recvCtr, rfl, -⟩ := hread
        obtain ⟨hreceived, hsize⟩ := hbound.fits (id, u) (upload_mem (c := c) hu)
        have hlimit : c.ws.maxMessage ≤ RD_MAX_CLIENT_MSG := hbound.limit
        unfold RD_MAX_CLIENT_MSG at hlimit
        unfold RD_MAX_FILE_SIZE at hsize
        dsimp only at hreceived hsize
        omega
      exact handleSessionMessage_filed cr fs hrow₂ halive r io type hfile hsmall
  | none =>
  unfold ServerEvent.apply at h
  by_cases hthrown : s.thrown = true
  · rw [if_pos hthrown] at h
    cases h
  rw [if_neg hthrown] at h
  have hsame := Outcome.kept (t := s) hmessage (.refl fs s)
  have honConn : ∀ uid (f : Conn → Server σ), (∀ c ∈ s.conns, c.uid = uid → Outcome fs cr s e (f c)) →
      Outcome fs cr s e (s.onConn uid f) := by
    intro uid f hf
    unfold Server.onConn
    cases hfind : s.find uid with
    | none => exact hsame
    | some c => exact hf c (find_spec hfind).1 (find_spec hfind).2
  cases e with
  | world os =>
      obtain rfl := Option.some.inj h
      exact .moved os rfl rfl rfl
  | consoleRead chunk =>
      obtain rfl := Option.some.inj h
      exact .kept hmessage (.of_conns fs s rfl rfl)
  | consoleLine io =>
      obtain rfl := Option.some.inj h
      exact .kept hmessage (consoleLine_kept cr fs io)
  | tcpReady uid ok tls answers =>
      obtain rfl := Option.some.inj h
      refine honConn uid _ fun c hc _ => ?_
      split
      · exact .kept hmessage (tcpReady_kept fs (htidy.row hc) ok tls answers)
      · exact hsame
  | handshake uid rc err answers =>
      obtain rfl := Option.some.inj h
      refine honConn uid _ fun c hc _ => ?_
      split
      · exact .kept hmessage (handshake_kept fs (htidy.row hc) rc err answers)
      · exact hsame
  | received uid data now =>
      obtain rfl := Option.some.inj h
      exact honConn uid _ fun c _ _ => .kept hmessage (received_kept fs data now)
  | recvFailed uid data =>
      obtain rfl := Option.some.inj h
      exact honConn uid _ fun c _ _ => .kept hmessage (recvFailed_kept fs data)
  | http uid =>
      obtain rfl := Option.some.inj h
      refine honConn uid _ fun c hc _ => ?_
      split
      · have hrow := htidy.row hc
        have hholding : (c.handleHttp cr s.cfg.webRoot (plat.files.readFile s.os)).2.holding = c.holding ∨ _ :=
          handleHttp_holding s.cfg.webRoot (plat.files.readFile s.os)
        rcases hholding with heq | heq
        · have hkept : Kept fs s
              (s.modify c.uid fun c => (c.handleHttp cr s.cfg.webRoot (plat.files.readFile s.os)).2) :=
            modify_kept fs s c.uid _ fun d hd huid => by rw [hrow d hd huid, heq]
          exact .kept hmessage ⟨hkept.rows, hkept.view⟩
        · refine .limited c.uid hmessage ?_ rfl
          unfold Server.holdings Server.handleHttp Server.modify
          rw [List.map_map, List.map_map]
          refine List.map_congr_left fun d hd => ?_
          dsimp only [Function.comp]
          by_cases huid : d.uid = c.uid
          · rw [if_pos huid, if_pos (show d.holding.uid = c.uid from huid), hrow d hd huid, heq]
          · rw [if_neg huid, if_neg (show d.holding.uid ≠ c.uid from huid)]
      · exact hsame
  | relayUpgrade uid =>
      obtain rfl := Option.some.inj h
      refine honConn uid _ fun c _ _ => ?_
      split
      · exact .kept hmessage (finishRelayUpgrade_kept fs)
      · exact hsame
  | message uid io =>
      obtain rfl := Option.some.inj h
      refine honConn uid _ fun c hc huid => ?_
      subst huid
      split
      · exact wsRound_outcome fs htidy hc hmessage
      · exact hsame
  | staleRc uid =>
      obtain rfl := Option.some.inj h
      refine honConn uid _ fun c _ _ => ?_
      split
      · exact .kept hmessage (closeConn_kept fs s c _)
      · exact hsame
  | flush uid answers =>
      obtain rfl := Option.some.inj h
      exact honConn uid _ fun c _ _ => .kept hmessage (flush_kept fs answers)
  | accept addr now =>
      obtain rfl := Option.some.inj h
      unfold Server.acceptNew
      split
      · exact hsame
      · refine .joined 0 hmessage (Nat.zero_le _) ?_ rfl
        unfold Server.holdings Server.push
        rw [List.map_append]
        rfl
  | expire uid now io =>
      obtain rfl := Option.some.inj h
      exact honConn uid _ fun c _ _ => .kept hmessage (expire_kept fs io now)
  | pump uid f now schedule io =>
      dsimp only at h
      cases hfind : s.find uid with
      | none =>
          rw [hfind] at h
          obtain rfl := Option.some.inj h
          exact hsame
      | some c =>
          rw [hfind] at h
          exact .kept hmessage (pump_kept cr fs io (htidy.row (find_spec hfind).1) f now schedule h)
  | pollClipboard now io =>
      obtain rfl := Option.some.inj h
      exact .kept hmessage (pollClipboard_kept cr fs io now)
  | reap io =>
      obtain rfl := Option.some.inj h
      exact reap_outcome fs io
  | maintainRelay now io =>
      obtain rfl := Option.some.inj h
      unfold Server.maintainRelay
      split
      · exact hsame
      · exact openRelayConn_outcome fs (.refl fs s) rfl true [] [] hmessage

-- What one step keeps of the bounds on a row.
theorem Filed.bounded {m : FileMessage} (h : Filed fs s c m t) (hc : c ∈ s.conns)
    (hold : ∀ h ∈ s.holdings, h.Bounded) :
    ∀ h ∈ t.holdings, h.Bounded := by
  have hbound := hold c.holding (List.mem_map_of_mem hc)
  have hrows : ∀ {uploads : List (Nat × Upload)} {saved : List Bytes}, Rows s t c.uid uploads saved →
      uploads.length ≤ 4 →
      (uploads.map Prod.fst).Nodup → (∀ x ∈ uploads, x.2.received ≤ x.2.size ∧ x.2.size ≤ RD_MAX_FILE_SIZE) →
      ∀ h ∈ t.holdings, h.Bounded := by
    intro uploads saved rows few ids fits h hmem
    rw [show t.holdings = _ from rows] at hmem
    obtain ⟨h₀, hh₀, rfl⟩ := List.mem_map.mp hmem
    split
    · exact ⟨(hold h₀ hh₀).limit, few, ids, fits⟩
    · exact hold h₀ hh₀
  have herase : ∀ id, (c.eraseUpload id).uploads.length ≤ 4 ∧ ((c.eraseUpload id).uploads.map Prod.fst).Nodup ∧
      ∀ x ∈ (c.eraseUpload id).uploads, x.2.received ≤ x.2.size ∧ x.2.size ≤ RD_MAX_FILE_SIZE := fun id =>
    ⟨(List.length_filter_le _ _).trans hbound.few, hbound.ids.sublist (List.filter_sublist.map _),
      fun x hx => hbound.fits x (List.mem_filter.mp hx).1⟩
  cases h with
  | rejected _ kept => exact kept.rows ▸ hold
  | unknown _ _ kept => exact kept.rows ▸ hold
  | began path f opens free few small rows opened =>
      refine hrows rows ?_ (insertUpload_nodup _ _ hbound.ids (upload_eq_none.mp free)) fun x hx => ?_
      · rw [insertUpload_length]
        omega
      · rcases (mem_insertUpload _ _).mp hx with rfl | hx
        · exact ⟨Nat.zero_le _, small⟩
        · exact hbound.fits x hx
  | @wrote id data _ u held fits rows stored =>
      have hfst : ((c.received id (u.received + data.length)).uploads.map Prod.fst) = c.uploads.map Prod.fst := by
        unfold Conn.received Conn.setUploads
        rw [List.map_map]
        refine List.map_congr_left fun x _ => ?_
        dsimp only [Function.comp]
        split <;> rfl
      refine hrows rows ?_ (hfst ▸ hbound.ids) fun x hx => ?_
      · unfold Conn.received Conn.setUploads
        rw [List.length_map]
        exact hbound.few
      · obtain ⟨x₀, hx₀, rfl⟩ := List.mem_map.mp hx
        split
        · next hid =>
            have hsame : c.upload x₀.1 = some x₀.2 := upload_of_mem hbound.ids hx₀
            rw [hid, held] at hsame
            rw [← Option.some.inj hsame]
            exact ⟨fits, (hbound.fits (id, u) (upload_mem held)).2⟩
        · exact hbound.fits x₀ hx₀
  | @failed _ _ id u v v' ok names held before rows closed removed =>
      exact hrows rows (herase id).1 (herase id).2.1 (herase id).2.2
  | @saved id _ u held complete rows closed => exact hrows rows (herase id).1 (herase id).2.1 (herase id).2.2

theorem Outcome.bounded (h : Outcome fs cr s e t) (hold : ∀ h ∈ s.holdings, h.Bounded) : ∀ h ∈ t.holdings,
    h.Bounded := by
  cases h with
  | kept _ kept => exact kept.rows ▸ hold
  | moved os _ rows view => exact rows ▸ hold
  | limited uid _ rows view =>
      intro h hmem
      rw [rows] at hmem
      obtain ⟨h₀, hh₀, rfl⟩ := List.mem_map.mp hmem
      obtain ⟨limit, few, ids, fits⟩ := hold h₀ hh₀
      split
      · exact ⟨Nat.le_refl _, few, ids, fits⟩
      · exact hold h₀ hh₀
  | joined limit _ small rows view =>
      intro h hmem
      rw [rows, List.mem_append, List.mem_singleton] at hmem
      rcases hmem with hmem | rfl
      · exact hold h hmem
      · exact ⟨small, by simp, by simp, by simp⟩
  | reaped io _ rows dropped =>
      intro h hmem
      rw [rows] at hmem
      obtain ⟨c, hc, rfl⟩ := List.mem_map.mp hmem
      exact hold c.holding (List.mem_map_of_mem (List.mem_filter.mp hc).1)
  | filed io c m _ mem _ _ filed => exact filed.bounded fs mem hold

include fs in
-- The bounds hold in every run.
theorem bounded_run {past : List (Server σ × ServerEvent σ)} (run : Run (serverRuns cr plat) past s) :
    ∀ h ∈ s.holdings, h.Bounded := by
  refine run.invariant (fun _ s => s.Tidy ∧ ∀ h ∈ s.holdings, h.Bounded) (fun s hinit => ⟨?_, ?_⟩) ?_ |>.2
  · exact tidy_run cr plat (.start hinit)
  · unfold Server.holdings
    rw [started_conns plat hinit]
    simp
  · rintro past s e t ⟨htidy, hold⟩ hstep
    exact ⟨(apply_steps cr plat htidy hstep).tidy cr htidy, (apply_outcome fs htidy hold hstep).bounded fs hold⟩

end Steps

end TetherDesk.Host
