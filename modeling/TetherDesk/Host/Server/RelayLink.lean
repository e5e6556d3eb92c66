import TetherDesk.Host.Server.Authentication
import TetherDesk.Host.Server.Rehearsal
import TetherDesk.Host.Server.RelayReply
import TetherDesk.Host.Server.Speech.Steps

namespace TetherDesk.Host

open TetherDesk.Net TetherDesk.Secure TetherDesk.Lib.Table TetherDesk.Lib.Transition

-- What the host remembers of its link to the relay.
structure Link where
  ctl : Option Nat
  nextUs : Nat
  backoffUs : Nat
  online : Bool
  deriving DecidableEq, Repr

def Server.link {σ : Type} (s : Server σ) : Link := ⟨s.relayCtl, s.relayNextUs, s.relayBackoffUs, s.relayOnline⟩

section Kept

variable {σ : Type} (cr : Crypto) (plat : Platform σ) (s : Server σ) {c : Conn} (r : Reader) (io : Io)

theorem ite_link {p : Prop} [Decidable p] {a b : Server σ} {link : Link} (ha : a.link = link) (hb : b.link = link) :
    (if p then a else b).link = link := by
  split <;> assumption

theorem switchDisplay_link (index : Int) (mask : Nat → Bytes) : (s.switchDisplay cr plat index mask).link =
    s.link := by
  unfold Server.switchDisplay
  refine ite_link rfl ?_
  dsimp only
  split <;> rfl

theorem settings_link : (s.settings cr plat c r io).link = s.link := by
  unfold Server.settings
  dsimp only
  refine ite_link rfl ?_
  have hselect : ∀ t : Server σ, t.link = s.link → (if (rdGetU8 (rdGetU8 (rdGetU8 r).2).2).1 ≠
      plat.capturer.currentDisplay t.os then
      if (!c.viewOnly) = true then t.switchDisplay cr plat (rdGetU8 (rdGetU8 (rdGetU8 r).2).2).1 (io.mask 2)
      else t.sendTo cr c.uid (noticeMsg (ascii "View-only viewers can't switch displays")) (io.mask 3 c.uid)
      else t).link = s.link := fun t ht =>
    ite_link (ite_link ((switchDisplay_link cr plat t _ _).trans ht) ht) ht
  exact hselect _ (ite_link (switchDisplay_link cr plat _ _ _) rfl)

theorem clipboard_link : (s.clipboard cr plat c r io).link = s.link := by
  unfold Server.clipboard
  split
  · rfl
  · exact ite_link rfl (ite_link rfl rfl)

theorem fileBegin_link : (s.fileBegin cr plat c r io).link = s.link := by
  unfold Server.fileBegin Server.beginUpload
  dsimp only
  refine ite_link (ite_link rfl (ite_link rfl (ite_link rfl (ite_link rfl ?_)))) rfl
  split <;> rfl

theorem finishUpload_link (id : Nat) (ok : Bool) (text mask : Bytes) :
    (s.finishUpload cr plat c id ok text mask).link = s.link := by
  unfold Server.finishUpload
  split <;> rfl

theorem uploadChunk_link (mask : Bytes) : (s.uploadChunk cr plat c r mask).link = s.link := by
  unfold Server.uploadChunk
  refine ite_link rfl ?_
  split
  · rfl
  · exact ite_link (finishUpload_link cr plat s _ _ _ _)
      (ite_link (finishUpload_link (c := c) cr plat { s with os := _ } _ _ _ _) rfl)

theorem uploadEnd_link (mask : Bytes) : (s.uploadEnd cr plat c r mask).link = s.link := by
  unfold Server.uploadEnd
  refine ite_link rfl ?_
  split
  · rfl
  · exact ite_link (finishUpload_link cr plat s _ _ _ _) (finishUpload_link cr plat s _ _ _ _)

-- No message of a viewer touches the link to the relay.
theorem handleSessionMessage_link (type : Nat) : (s.handleSessionMessage cr plat c r io type).link = s.link :=
  handleSessionMessage_cases (P := fun t : Server σ => t.link = s.link) cr plat s c r io type (fun _ => rfl)
    (fun _ => rfl)
    (fun _ => settings_link cr plat s r io) (fun _ => ite_link rfl rfl) (fun _ => ite_link rfl rfl)
    (fun _ => clipboard_link cr plat s r io) (fun _ => ite_link rfl rfl) (fun _ => rfl)
    (fun _ => fileBegin_link cr plat s r io) (fun _ => uploadChunk_link cr plat s r _)
    (fun _ => uploadEnd_link cr plat s r _) rfl

theorem closeConn_link (reason : Bytes) : (s.closeConn c reason).link = s.link := by
  unfold Server.closeConn
  refine ite_link rfl ?_
  dsimp only
  split <;> rfl

theorem toggleViewOnly_link : (s.toggleViewOnly cr plat c io).link = s.link := by
  unfold Server.toggleViewOnly
  dsimp only
  by_cases h : (!c.viewOnly) = true ∧ c.sentInput = true
  · rw [if_pos h]
    rfl
  · rw [if_neg h]
    rfl

theorem consoleLine_link : (s.consoleLine cr plat io).link = s.link := by
  unfold Server.consoleLine Server.handleConsoleLine
  dsimp only
  refine ite_link (ite_link rfl (ite_link rfl (ite_link (ite_link rfl rfl) (ite_link ?_ (ite_link (ite_link rfl rfl)
    (ite_link rfl (ite_link rfl rfl))))))) rfl
  split
  · rfl
  · exact ite_link rfl (toggleViewOnly_link cr plat _ io)

theorem consoleLine_nextUid : (s.consoleLine cr plat io).nextUid = s.nextUid := by
  have hif : ∀ (p : Prop) [Decidable p] (a b : Server σ), a.nextUid = s.nextUid → b.nextUid = s.nextUid →
      (if p then a else b).nextUid = s.nextUid := by
    intro p _ a b ha hb
    split <;> assumption
  unfold Server.consoleLine Server.handleConsoleLine
  dsimp only
  refine hif _ _ _ (hif _ _ _ rfl
    (hif _ _ _ rfl (hif _ _ _ (hif _ _ _ rfl rfl) (hif _ _ _ ?_ (hif _ _ _ (hif _ _ _ rfl rfl)
    (hif _ _ _ rfl (hif _ _ _ rfl rfl))))))) rfl
  split
  · rfl
  · next c _ =>
    refine hif _ _ _ rfl ?_
    unfold Server.toggleViewOnly
    dsimp only
    by_cases h : (!c.viewOnly) = true ∧ c.sentInput = true
    · rw [if_pos h]
      rfl
    · rw [if_neg h]
      rfl

theorem flush_link (answers : List SockAnswer) : (s.flush c answers).link = s.link := by
  unfold Server.flush
  dsimp only
  split <;> rfl

theorem tcpReady_link (ok : Bool) (tls : Option TlsOut) (answers : List SockAnswer) :
    (s.tcpReady c ok tls answers).link = s.link := by
  unfold Server.tcpReady
  refine ite_link (closeConn_link s _) (ite_link ?_ (flush_link (s.modify c.uid _) _))
  split
  · exact closeConn_link (s.modify c.uid _) _
  · rfl

theorem handshake_link (rc : Int) (err : Bytes) (answers : List SockAnswer) :
    (s.handshake c rc err answers).link = s.link := by
  unfold Server.handshake
  refine ite_link ((closeConn_link _ _).trans (ite_link rfl rfl)) (ite_link rfl ?_)
  exact flush_link (s.modify c.uid _) answers

theorem expire_link (now : Nat) : (s.expire c now io).link = s.link := by
  unfold Server.expire
  exact ite_link rfl (ite_link (ite_link (closeConn_link s _) (ite_link rfl rfl))
    (ite_link (closeConn_link s _) (ite_link (closeConn_link s _) rfl)))

theorem pollClipboard_link (now : Nat) : (s.pollClipboard cr plat now io).link = s.link := by
  unfold Server.pollClipboard
  refine ite_link rfl ?_
  dsimp only
  refine ite_link rfl ?_
  split
  · rfl
  · exact ite_link rfl rfl

theorem pump_link {t : Server σ} (f : Option Frame) (now : Nat) (schedule : List Nat)
    (h : s.pump cr plat c f now schedule io = some t) : t.link = s.link := by
  unfold Server.pump at h
  split at h
  · rw [← Option.some.inj h]
  · obtain ⟨c', -, rfl⟩ := Option.map_eq_some_iff.mp h
    rfl

theorem announceLeft_link (left : List Bytes) : (s.announceLeft cr left io).link = s.link := by
  have hnotices : ∀ (names : List (Bytes × Nat)) (t : Server σ),
      (names.foldl (fun s n => s.notice cr (n.1 ++ ascii " disconnected") none (io.mask (n.2 + 1))) t).link =
        t.link := by
    intro names
    induction names with
    | nil => exact fun t => rfl
    | cons n names ih => exact fun t => (ih _).trans rfl
  unfold Server.announceLeft
  exact ite_link rfl (hnotices _ _)

end Kept

-- What one step does to the link to the relay, and the connection it makes.
inductive LinkStep {σ : Type} (s : Server σ) (e : ServerEvent σ) (t : Server σ) : Prop
  | kept (link : t.link = s.link) (nextUid : t.nextUid = s.nextUid) (event : ∀ io, e ≠ .reap io)
  | online (c c' : Conn) (row : c ∈ s.conns) (control : c.relayCtl = true) (after : c' ∈ t.conns)
      (uid : c'.uid = c.uid)
      (state : c'.state = .RelayCtl) (link : t.link = { s.link with backoffUs := 2 * kSecond, online := true })
      (nextUid : t.nextUid = s.nextUid) (event : ∀ io, e ≠ .reap io)
  | accepted (c : Conn) (after : c ∈ t.conns) (uid : c.uid = s.nextUid)
      (kind : c.clientWs = false ∧ c.relayCtl = false)
      (room : s.conns.length < s.cfg.maxViewers * 2 + 16) (link : t.link = s.link) (event : ∀ io, e ≠ .reap io)
  | viewer (c : Conn) (after : c ∈ t.conns) (uid : c.uid = s.nextUid)
      (kind : c.clientWs = true ∧ c.relayCtl = false)
      (room : s.relayed < s.cfg.maxViewers * 2) (link : t.link = s.link) (event : ∀ io, e ≠ .reap io)
  | dialed (c : Conn) (after : c ∈ t.conns) (uid : c.uid = s.nextUid) (kind : c.clientWs = true ∧ c.relayCtl = true)
      (state : c.state = .RelayUpgrade) (free : s.relayCtl = none) (link : t.link =
        { s.link with ctl := some s.nextUid })
      (event : ∀ io, e ≠ .reap io)
  | failed (now : Nat) (link : t.link = (s.backOff now).link) (nextUid : t.nextUid = s.nextUid)
      (event : ∀ io, e ≠ .reap io)
  | reaped (io : Io) (event : e = .reap io) (nextUid : t.nextUid = s.nextUid)
      (lost : (∃ c ∈ s.conns, c.dead = true ∧ s.relayCtl = some c.uid) →
        t.link = { (s.backOff (io.now 0)).link with ctl := none, online := false })
      (kept : (¬ ∃ c ∈ s.conns, c.dead = true ∧ s.relayCtl = some c.uid) → t.link = s.link)

section Steps

variable {σ : Type} (cr : Crypto) (plat : Platform σ) {s t : Server σ} {e : ServerEvent σ} {c : Conn} {io : Io}

theorem relayed_put {c₂ : Conn} (hrow : ∀ d ∈ s.conns, d.uid = c.uid → d = c) (hread : Read c c₂) :
    (s.modify c.uid fun _ => c₂).relayed = s.relayed := by
  obtain ⟨ws, inn, recvCtr, rfl, -⟩ := hread
  unfold Server.relayed Server.modify
  rw [List.countP_map]
  refine List.countP_congr fun d hd => ?_
  rw [Function.comp_apply]
  by_cases huid : d.uid = c.uid
  · rw [if_pos huid, hrow d hd huid]
  · rw [if_neg huid]

-- A viewer's link is made on command, as long as there is room for it.
theorem relayOpen_linkStep {c₂ : Conn} (hrow : ∀ d ∈ s.conns, d.uid = c.uid → d = c) (hread : Read c c₂)
    (hreap : ∀ io, e ≠ .reap io) (m : Bytes) :
    LinkStep s e ((s.modify c.uid fun _ => c₂).relayOpen cr c₂ m io) := by
  have hsame : LinkStep s e (s.modify c.uid fun _ => c₂) := .kept rfl rfl hreap
  unfold Server.relayOpen
  split
  · split
    · exact hsame
    · split
      · next hroom =>
          rw [relayed_put hrow hread] at hroom
          unfold Server.openRelayConn
          split
          · exact hsame
          · exact .viewer _ (List.mem_append_right _ List.mem_cons_self) rfl ⟨rfl, rfl⟩ hroom rfl hreap
      · exact hsame
  · exact hsame

theorem finishRelayUpgrade_linkStep (hc : c ∈ s.conns) (hreap : ∀ io, e ≠ .reap io) :
    LinkStep s e (s.finishRelayUpgrade c) := by
  have hkept : ∀ t : Server σ, t.link = s.link → t.nextUid = s.nextUid → LinkStep s e t := fun t hlink huid =>
    .kept hlink huid hreap
  have hclose : ∀ (t : Server σ) (reason : Bytes), t.link = s.link → t.nextUid = s.nextUid →
      LinkStep s e (t.closeConn c reason) := fun t reason hlink huid =>
    hkept _ ((closeConn_link t reason).trans hlink)
      ((congrArg Books.nextUid (closeConn_books t c reason)).trans huid)
  unfold Server.finishRelayUpgrade
  split
  · split
    · exact hclose s _ rfl rfl
    · exact hkept s rfl rfl
  · next k hk =>
      dsimp only
      generalize hread : s.modify c.uid (fun d => { d with inn := rdBufConsume d.inn (k + 4) }) = s₁
      have hlink : s₁.link = s.link := hread ▸ rfl
      have huid : s₁.nextUid = s.nextUid := hread ▸ rfl
      split
      · split
        · exact hkept _ hlink huid
        · split
          · exact hclose (s₁.log _) _ hlink huid
          · exact hclose s₁ _ hlink huid
      · split
        · next hctl =>
            have hrow : { c with inn := rdBufConsume c.inn (k + 4) } ∈ s₁.conns := by
              rw [← hread]
              exact List.mem_map.mpr ⟨c, hc, if_pos rfl⟩
            refine .online c { c with inn := rdBufConsume c.inn (k + 4), state := .RelayCtl } hc hctl ?_ rfl
              rfl ?_ huid hreap
            · exact List.mem_map.mpr ⟨_, hrow, if_pos rfl⟩
            · rw [← hlink]
              rfl
        · exact hkept _ hlink huid

theorem wsRound_linkStep (hrow : ∀ d ∈ s.conns, d.uid = c.uid → d = c) (hreap : ∀ io, e ≠ .reap io) :
    LinkStep s e (s.wsRound cr plat c io).1 := by
  have hround := wsRound_cases cr plat io hrow
  generalize (s.wsRound cr plat c io).1 = t at hround ⊢
  cases hround with
  | closed c₂ _ _ _ reason =>
      exact .kept (closeConn_link _ _)
        (congrArg Books.nextUid (closeConn_books (s.modify c.uid fun _ => c₂) c₂ reason)) hreap
  | opened c₂ read _ m => exact relayOpen_linkStep cr hrow read hreap m
  | session c₂ read _ _ type r _ =>
      have hbooks := (handleSessionMessage_serves cr plat (s.modify c.uid fun _ => c₂) c₂ r io type
          (put_row read.eqs.1)).books
      exact .kept (handleSessionMessage_link cr plat _ r io type) (congrArg Books.nextUid hbooks) hreap
  | login c₂ _ _ _ r _ _ guard =>
      exact .kept rfl ((congrArg Books.nextUid (onAuthenticated_books cr plat _ c₂ io)).trans rfl) hreap
  | _ => exact .kept rfl rfl hreap

-- Taking the closed connections apart forgets the control connection if it is one of them.
theorem dismantle_link (s : Server σ) (c : Conn) (io : Io) :
    (s.dismantle plat c io).link =
      if s.relayCtl = some c.uid then { (s.backOff (io.now 0)).link with
        ctl := none, online := false } else s.link := by
  unfold Server.dismantle
  dsimp only
  split
  · split <;> rfl
  · rfl

theorem dismantle_all_link (io : Io) (dead : List Conn) (s : Server σ) :
    (dead.foldl (fun s c => s.dismantle plat c io) s).link =
      if ∃ c ∈ dead, s.relayCtl = some c.uid then { (s.backOff (io.now 0)).link with ctl := none, online := false }
      else s.link := by
  induction dead generalizing s with
  | nil => exact (if_neg (by simp)).symm
  | cons c dead ih =>
      rw [List.foldl_cons, ih (s.dismantle plat c io)]
      have hlink := dismantle_link plat s c io
      have hctl : (s.dismantle plat c io).relayCtl = if s.relayCtl = some c.uid then none else s.relayCtl := by
        refine (congrArg Link.ctl hlink).trans ?_
        split <;> rfl
      by_cases hc : s.relayCtl = some c.uid
      · rw [if_pos hc] at hlink hctl
        rw [hctl, if_neg (by simp), hlink, if_pos ⟨c, List.mem_cons_self, hc⟩]
      · rw [if_neg hc] at hlink hctl
        have hsame : ((s.dismantle plat c io).backOff (io.now 0)).link = (s.backOff (io.now 0)).link := by
          have hnext : (s.dismantle plat c io).relayBackoffUs = s.relayBackoffUs := congrArg Link.backoffUs hlink
          have honline : (s.dismantle plat c io).relayOnline = s.relayOnline := congrArg Link.online hlink
          unfold Server.link Server.backOff
          rw [hctl, hnext, honline]
        have hany : (∃ d ∈ dead, s.relayCtl = some d.uid) ↔ ∃ d ∈ c :: dead, s.relayCtl = some d.uid := by
          simp [hc]
        rw [hctl, hsame, hlink, if_congr hany rfl rfl]

theorem reap_linkStep : LinkStep s (.reap io) (s.reap cr plat io) := by
  have hlink : (s.reap cr plat io).link =
      ((s.conns.filter fun c => c.dead).foldl (fun s c => s.dismantle plat c io) s).link :=
    (announceLeft_link cr _ io _).trans rfl
  have hany : (∃ c ∈ s.conns.filter fun c => c.dead, s.relayCtl = some c.uid) ↔
      ∃ c ∈ s.conns, c.dead = true ∧ s.relayCtl = some c.uid := by simp [and_assoc]
  rw [dismantle_all_link, if_congr hany rfl rfl] at hlink
  exact .reaped io rfl (congrArg Books.nextUid (reap_serves cr plat s io).2) (fun h => hlink.trans (if_pos h))
    fun h =>
    hlink.trans (if_neg h)

theorem apply_linkStep (htidy : s.Tidy) (h : e.apply cr plat s = some t) : LinkStep s e t := by
  have hon : ∀ uid (f : Conn → Server σ), (∀ c ∈ s.conns, LinkStep s e (f c)) → (∀ io, e ≠ .reap io) →
      LinkStep s e (s.onConn uid f) := by
    intro uid f hf hreap
    unfold Server.onConn
    cases hfind : s.find uid with
    | none => exact .kept rfl rfl hreap
    | some c => exact hf c (find_spec hfind).1
  have hkept : ∀ t : Server σ, t.link = s.link → t.toBooks = s.toBooks → (∀ io, e ≠ .reap io) → LinkStep s e t :=
    fun t hlink hbooks hreap => .kept hlink (congrArg Books.nextUid hbooks) hreap
  have hif : ∀ (p : Prop) [Decidable p] (t : Server σ), t.link = s.link → t.toBooks = s.toBooks →
      (∀ io, e ≠ .reap io) →
      LinkStep s e (if p then t else s) := by
    intro p _ t hlink hbooks hreap
    split
    · exact hkept t hlink hbooks hreap
    · exact .kept rfl rfl hreap
  unfold ServerEvent.apply at h
  split at h
  · cases h
  cases e with
  | reap io => rw [← Option.some.inj h]; exact reap_linkStep cr plat
  | message uid io =>
      rw [← Option.some.inj h]
      refine hon uid _ (fun c hc => ?_) (by simp)
      split
      · exact wsRound_linkStep cr plat (htidy.row hc) (by simp)
      · exact .kept rfl rfl (by simp)
  | relayUpgrade uid =>
      rw [← Option.some.inj h]
      refine hon uid _ (fun c hc => ?_) (by simp)
      split
      · exact finishRelayUpgrade_linkStep hc (by simp)
      · exact .kept rfl rfl (by simp)
  | accept addr now =>
      rw [← Option.some.inj h]
      unfold Server.acceptNew
      split
      · exact .kept rfl rfl (by simp)
      · next hroom =>
          exact .accepted _ (List.mem_append_right _ List.mem_cons_self) rfl ⟨rfl, rfl⟩ (not_le.mp hroom)
            rfl (by simp)
  | maintainRelay now io =>
      rw [← Option.some.inj h]
      unfold Server.maintainRelay
      split
      · exact .kept rfl rfl (by simp)
      · next hdial =>
          have hfree : s.relayCtl = none := by simpa using fun h => hdial (.inr (.inl h))
          unfold Server.openRelayConn
          split
          · exact .failed _ rfl rfl (by simp)
          · exact .dialed _ (List.mem_append_right _ List.mem_cons_self) rfl ⟨rfl, rfl⟩ rfl hfree rfl (by simp)
  | consoleLine io =>
      rw [← Option.some.inj h]
      exact .kept (consoleLine_link cr plat s io) (consoleLine_nextUid cr plat s io) (by simp)
  | pump uid f now schedule io =>
      dsimp only at h
      cases hfind : s.find uid with
      | none =>
          rw [hfind] at h
          rw [← Option.some.inj h]
          exact .kept rfl rfl (by simp)
      | some c =>
          rw [hfind] at h
          have hsteps := pump_steps (e := .pump c.uid f now schedule io) cr plat
              (htidy.row (find_spec hfind).1) f now schedule
            rfl h
          exact hkept t (pump_link cr plat s io f now schedule h) hsteps.2 (by simp)
  | world os => rw [← Option.some.inj h]; exact .kept rfl rfl (by simp)
  | consoleRead chunk => rw [← Option.some.inj h]; exact .kept rfl rfl (by simp)
  | pollClipboard now io =>
      rw [← Option.some.inj h]
      exact hkept _ (pollClipboard_link cr plat s io now) (pollClipboard_serves cr plat now).books (by simp)
  | tcpReady uid ok tls answers =>
      rw [← Option.some.inj h]
      exact hon uid _ (fun c hc => hif _ _ (tcpReady_link s ok tls answers)
        (tcpReady_serves (htidy.row hc) ok tls answers rfl).books (by simp)) (by simp)
  | handshake uid rc err answers =>
      rw [← Option.some.inj h]
      exact hon uid _ (fun c hc => hif _ _ (handshake_link s rc err answers)
        (handshake_serves (htidy.row hc) rc err answers rfl).books (by simp)) (by simp)
  | received uid data now =>
      rw [← Option.some.inj h]
      exact hon uid _ (fun c hc => hkept _ (ite_link rfl rfl)
        (received_serves (e := .received uid data now) data now).books (by simp)) (by simp)
  | recvFailed uid data =>
      rw [← Option.some.inj h]
      exact hon uid _ (fun c hc => hkept _ (closeConn_link (s.modify c.uid _) _)
        (recvFailed_serves data rfl).books (by simp)) (by simp)
  | http uid =>
      rw [← Option.some.inj h]
      refine hon uid _ (fun c hc => ?_) (by simp)
      split
      · exact .kept rfl rfl (by simp)
      · exact .kept rfl rfl (by simp)
  | staleRc uid =>
      rw [← Option.some.inj h]
      exact hon uid _ (fun c hc => hif _ _ (closeConn_link s _) (closeConn_books s c _) (by simp)) (by simp)
  | flush uid answers =>
      rw [← Option.some.inj h]
      exact hon uid _ (fun c hc =>
        hkept _ (flush_link s answers) (flush_serves c answers rfl (htidy.row hc)).books (by simp))
        (by simp)
  | expire uid now io =>
      rw [← Option.some.inj h]
      exact hon uid _ (fun c hc =>
        hkept _ (expire_link s io now) (expire_serves (htidy.row hc) now io rfl).books (by simp))
        (by simp)

end Steps

-- The control connections there are, and how the host stands with the relay: its
-- pointer is the one there is, it is online only once that has been accepted, and
-- the pauses double up to half a minute. Neither the sockets it accepts nor the links
-- it makes for viewers grow without bound.
structure Server.Linked {σ : Type} (s : Server σ) : Prop where
  control : (s.conns.filter Conn.relayCtl).map Conn.uid = s.relayCtl.toList
  dialled : ∀ c ∈ s.conns, c.relayCtl = true → c.clientWs = true ∧
    (c.state = .RelayUpgrade ∨ c.state = .RelayCtl ∨ c.state = .Closing)
  online : s.relayOnline = true → ∃ c ∈ s.conns, c.relayCtl = true ∧ (c.state = .RelayCtl ∨ c.state = .Closing)
  backoff : s.relayBackoffUs ∈ [2, 4, 8, 16, 30].map (· * kSecond)
  accepted : (s.conns.countP fun c => !c.clientWs) ≤ s.cfg.maxViewers * 2 + 16
  relayed : s.relayed ≤ s.cfg.maxViewers * 2

section Rows

variable {σ : Type} (cr : Crypto) {s t : Server σ} {e : ServerEvent σ} {c c' : Conn} {l l' : List Conn} {io : Io}

def controls (conns : List Conn) : List Nat := (conns.filter Conn.relayCtl).map Conn.uid

theorem controls_identity (conns : List Conn) :
    controls conns = ((conns.map Conn.identity).filter fun i => i.2.2.2.1).map Prod.fst := by
  unfold controls
  rw [List.filter_map, List.map_map]
  rfl

theorem controls_rows (h : Evolves (Step cr s e) l l') : controls l' = controls l := by
  rw [controls_identity, controls_identity, h.column Conn.identity fun _ _ hstep => hstep.identity]

theorem accepted_rows (h : Evolves (Step cr s e) l l') :
    (l'.countP fun c => !c.clientWs) ≤ l.countP fun c => !c.clientWs := by
  refine h.countP_le fun c c' hstep => ?_
  have hsame : c'.clientWs = c.clientWs := congrArg (fun i => i.2.2.2.2) hstep.identity
  rw [hsame]
  exact id

theorem Changed.alive (h : Changed cr s e c c') (halive : c'.dead = false) : c.dead = false := by
  have hsame : c'.dead = c.dead → c.dead = false := fun h => h.symm.trans halive
  cases h with
  | quiet _ _ dead _ => exact Bool.eq_false_iff.mpr fun h => by simp [dead h] at halive
  | keyFailed _ _ _ _ dead _ => exact absurd (dead.symm.trans halive) (by decide)
  | incompatible _ _ _ _ _ _ dead => exact hsame dead
  | greeted _ _ _ _ _ _ _ _ _ _ _ _ _ _ dead => exact hsame dead
  | refused _ _ _ _ _ _ _ _ _ dead => exact hsame dead
  | authenticated _ _ _ _ _ _ _ _ _ dead => exact hsame dead
  | left _ _ _ _ _ _ _ _ _ dead => exact hsame dead
  | upgraded _ _ _ dead => exact hsame dead
  | answered _ _ _ _ dead => exact hsame dead
  | kicked _ _ _ dead => exact hsame dead
  | served _ _ _ _ _ _ dead => exact hsame dead
  | toggled _ _ _ _ _ _ dead => exact hsame dead

theorem relayed_rows (h : Evolves (Step cr s e) l l') :
    (l'.countP fun c => c.clientWs ∧ !c.relayCtl ∧ !c.dead) ≤ l.countP fun c => c.clientWs ∧ !c.relayCtl ∧
      !c.dead := by
  refine h.countP_le fun c c' hstep => ?_
  have hclient : c'.clientWs = c.clientWs := congrArg (fun i => i.2.2.2.2) hstep.identity
  have hctl : c'.relayCtl = c.relayCtl := congrArg (fun i => i.2.2.2.1) hstep.identity
  have halive := hstep.changed.alive cr
  rw [hclient, hctl]
  simp only [Bool.not_eq_eq_eq_not, Bool.not_true, decide_eq_true_eq]
  exact fun ⟨h₁, h₂, h₃⟩ => ⟨h₁, h₂, halive h₃⟩

-- A control connection waits for the relay's reply, is accepted, or closes.
theorem Changed.control (h : Changed cr s e c c') (hctl : c.relayCtl = true)
    (hstate : c.state = .RelayUpgrade ∨ c.state = .RelayCtl ∨ c.state = .Closing) :
    c'.state = c.state ∨ c.state = .RelayUpgrade ∧ c'.state = .RelayCtl ∨ c'.state = .Closing := by
  have hno : ∀ state, c.state = state → ¬ (state = .RelayUpgrade ∨ state = .RelayCtl ∨ state = .Closing) → False :=
    fun _ h hne => hne (h ▸ hstate)
  cases h with
  | quiet session _ _ _ => exact .inl session.eqs.1
  | upgraded before _ _ _ =>
      rcases before with ⟨h, -⟩ | ⟨h, h'⟩
      · exact (hno _ h (by decide)).elim
      · rw [if_pos hctl] at h'
        exact .inr (.inl ⟨h, h'⟩)
  | answered before _ _ _ _ => exact (hno _ before (by decide)).elim
  | incompatible before _ _ _ _ _ _ => exact (hno _ before (by decide)).elim
  | keyFailed before _ _ _ _ _ => exact (hno _ before (by decide)).elim
  | greeted _ _ _ _ _ before _ _ _ _ _ _ _ _ _ => exact (hno _ before (by decide)).elim
  | refused _ _ before _ _ _ _ _ _ _ => exact (hno _ before (by decide)).elim
  | authenticated _ _ before _ _ _ _ _ _ _ => exact (hno _ before (by decide)).elim
  | left _ _ _ _ _ _ _ session _ _ => exact .inr (.inr session.eqs.1)
  | kicked _ session _ _ => exact .inr (.inr session.eqs.1)
  | served before _ _ _ _ _ _ => exact (hno _ before (by decide)).elim
  | toggled _ before _ _ _ _ _ => exact (hno _ (live_active before).1 (by decide)).elim

-- No row of a step is new, or the one that is.
theorem Steps.stays (h : Steps cr s e t) (huid : t.nextUid = s.nextUid) : Evolves (Step cr s e)
    (s.remaining e) t.conns := by
  obtain ⟨rows, new, hconns, hrows, hjoins⟩ := h.rows
  cases hjoins with
  | nobody _ =>
      rw [List.append_nil] at hconns
      exact hconns ▸ hrows
  | one _ _ _ hnext => omega

theorem Steps.joined (htidy : s.Tidy) (h : Steps cr s e t) (hc : c ∈ t.conns) (huid : c.uid = s.nextUid) :
    ∃ rows, t.conns = rows ++ [c] ∧ Evolves (Step cr s e) (s.remaining e) rows := by
  obtain ⟨rows, new, hconns, hrows, hjoins⟩ := h.rows
  have hold : c ∉ rows := by
    intro hmem
    obtain ⟨d, hd, hstep⟩ := hrows.new_row hmem
    have hsame : c.uid = d.uid := congrArg Prod.fst hstep.identity
    have hused := htidy.used d (remaining_subset s e d hd)
    omega
  have hnew : c ∈ new := (List.mem_append.mp (hconns ▸ hc)).resolve_left hold
  cases hjoins with
  | nobody _ => cases hnew
  | one d _ _ _ =>
      rw [List.mem_singleton.mp hnew]
      exact ⟨rows, hconns, hrows⟩

-- A control connection that was accepted stays so until it is reaped.
theorem online_rows (hrows : Evolves (Step cr s e) l l')
    (h : ∃ c ∈ l, c.relayCtl = true ∧ (c.state = .RelayCtl ∨ c.state = .Closing)) :
    ∃ c ∈ l', c.relayCtl = true ∧ (c.state = .RelayCtl ∨ c.state = .Closing) := by
  obtain ⟨c, hc, hctl, hstate⟩ := h
  obtain ⟨c', hc', hstep⟩ := hrows.old_row hc
  have hctl' : c'.relayCtl = c.relayCtl := congrArg (fun i => i.2.2.2.1) hstep.identity
  refine ⟨c', hc', hctl'.trans hctl, ?_⟩
  rcases hstep.changed.control cr hctl (.inr hstate) with h | ⟨-, h⟩ | h
  · rwa [h]
  · exact .inl h
  · exact .inr h

theorem backoff_next {us : Nat} (h : us ∈ [2, 4, 8, 16, 30].map (· * kSecond)) :
    min (us * 2) (30 * kSecond) ∈ [2, 4, 8, 16, 30].map (· * kSecond) := by
  have hall : ∀ us ∈ [2, 4, 8, 16, 30].map (· * kSecond), min (us * 2) (30 * kSecond) ∈
      [2, 4, 8, 16, 30].map (· * kSecond) := by
    decide
  exact hall us h

theorem Steps.maxViewers (h : Steps cr s e t) : t.cfg.maxViewers = s.cfg.maxViewers :=
  (congrArg ServerConfig.maxViewers h.cfg).trans rfl

theorem Linked.of_rows {new : List Conn} (hold : s.Linked) (hconns : t.conns = l' ++ new)
    (hrows : Evolves (Step cr s e) (s.remaining e) l') (hcfg : t.cfg.maxViewers = s.cfg.maxViewers)
    (hctl : controls (s.remaining e) ++ controls new = t.relayCtl.toList)
    (hdialled : ∀ c ∈ new, c.relayCtl = true → c.clientWs = true ∧ c.state = .RelayUpgrade)
    (honline : t.relayOnline = true → ∃ c ∈ t.conns, c.relayCtl = true ∧ (c.state = .RelayCtl ∨ c.state = .Closing))
    (hbackoff : t.relayBackoffUs ∈ [2, 4, 8, 16, 30].map (· * kSecond))
    (haccepted : (∀ c ∈ new, c.clientWs = true) ∨ s.conns.length + new.length ≤ s.cfg.maxViewers * 2 + 16)
    (hrelayed : (∀ c ∈ new, c.clientWs = true → c.relayCtl = true) ∨ s.relayed + new.length ≤
      s.cfg.maxViewers * 2) :
    t.Linked := by
  have hsub := remaining_sublist s e
  refine ⟨?_, fun c' hc' hc'ctl => ?_, honline, hbackoff, ?_, ?_⟩
  · change controls t.conns = _
    rw [hconns, ← hctl, ← controls_rows cr hrows]
    unfold controls
    rw [List.filter_append, List.map_append]
  · rw [hconns, List.mem_append] at hc'
    rcases hc' with hc' | hc'
    · obtain ⟨c, hc, hstep⟩ := hrows.new_row hc'
      have hctl' : c'.relayCtl = c.relayCtl := congrArg (fun i => i.2.2.2.1) hstep.identity
      have hclient : c'.clientWs = c.clientWs := congrArg (fun i => i.2.2.2.2) hstep.identity
      obtain ⟨hws, hstate⟩ := hold.dialled c (hsub.subset hc) (hctl'.symm.trans hc'ctl)
      refine ⟨hclient.trans hws, ?_⟩
      rcases hstep.changed.control cr (hctl'.symm.trans hc'ctl) hstate with h | ⟨-, h⟩ | h
      · rwa [h]
      · exact .inr (.inl h)
      · exact .inr (.inr h)
    · exact ⟨(hdialled c' hc' hc'ctl).1, .inl (hdialled c' hc' hc'ctl).2⟩
  · have hle := (accepted_rows cr hrows).trans (hsub.countP_le)
    have hlen : (s.conns.countP fun c => !c.clientWs) ≤ s.conns.length := List.countP_le_length
    have hnew : (new.countP fun c => !c.clientWs) ≤ new.length := List.countP_le_length
    have hacc := hold.accepted
    rw [hconns, List.countP_append, hcfg]
    rcases haccepted with h | h
    · have hnone : (new.countP fun c => !c.clientWs) = 0 := by
        rw [List.countP_eq_zero]
        intro c hc
        simp [h c hc]
      omega
    · omega
  · have hle := (relayed_rows cr hrows).trans (hsub.countP_le)
    have hrel := hold.relayed
    unfold Server.relayed at hrel hrelayed ⊢
    rw [hconns, List.countP_append, hcfg]
    have hnew : (new.countP fun c => c.clientWs ∧ !c.relayCtl ∧ !c.dead) ≤ new.length := List.countP_le_length
    rcases hrelayed with h | h
    · have hnone : (new.countP fun c => c.clientWs ∧ !c.relayCtl ∧ !c.dead) = 0 := by
        rw [List.countP_eq_zero]
        intro c hc
        simp only [decide_eq_true_eq]
        rintro ⟨hws, hctl, -⟩
        simp [h c hc hws] at hctl
      omega
    · omega

theorem remaining_all (hreap : ∀ io, e ≠ .reap io) : s.remaining e = s.conns := by
  cases e with
  | reap io => exact absurd rfl (hreap io)
  | _ => rfl

theorem remaining_reap (event : e = .reap io) : s.remaining e = s.conns.filter fun c => !c.dead := by
  rw [event]
  rfl

-- A step that makes no connection and is no reap.
theorem Linked.stays (hsteps : Steps cr s e t) (hold : s.Linked) (huid : t.nextUid = s.nextUid)
    (hreap : ∀ io, e ≠ .reap io) (hctl : t.relayCtl = s.relayCtl)
    (honline : t.relayOnline = true → s.relayOnline = true ∨
      ∃ c ∈ t.conns, c.relayCtl = true ∧ (c.state = .RelayCtl ∨ c.state = .Closing))
    (hbackoff : t.relayBackoffUs ∈ [2, 4, 8, 16, 30].map (· * kSecond)) : t.Linked := by
  have hrows := hsteps.stays cr huid
  have hremain := remaining_all (s := s) hreap
  refine Linked.of_rows cr hold (List.append_nil _).symm hrows (hsteps.maxViewers cr) ?_
    (by simp) (fun h => ?_) hbackoff (.inl (by simp)) (.inl (by simp))
  · rw [hremain, hctl]
    exact (List.append_nil _).trans hold.control
  · exact (honline h).elim (fun h => online_rows cr (hremain ▸ hrows) (hold.online h)) id

-- One that makes a connection.
theorem Linked.joins (htidy : s.Tidy) (hsteps : Steps cr s e t) (hold : s.Linked) (hc : c ∈ t.conns)
    (huid : c.uid = s.nextUid) (hreap : ∀ io, e ≠ .reap io)
    (hctl : controls s.conns ++ controls [c] = t.relayCtl.toList)
    (hdialled : c.relayCtl = true → c.clientWs = true ∧ c.state = .RelayUpgrade)
    (honline : t.relayOnline = s.relayOnline) (hbackoff : t.relayBackoffUs = s.relayBackoffUs)
    (haccepted : c.clientWs = true ∨ s.conns.length < s.cfg.maxViewers * 2 + 16)
    (hrelayed : (c.clientWs = true → c.relayCtl = true) ∨ s.relayed < s.cfg.maxViewers * 2) : t.Linked := by
  obtain ⟨rows, hconns, hrows⟩ := hsteps.joined cr htidy hc huid
  have hremain := remaining_all (s := s) hreap
  refine Linked.of_rows cr hold hconns hrows (hsteps.maxViewers cr) ?_
    (by simpa using hdialled) (fun h => ?_) (hbackoff ▸ hold.backoff) ?_ ?_
  · rw [hremain]
    exact hctl
  · obtain ⟨d, hd, hstate⟩ := online_rows cr (hremain ▸ hrows) (hold.online (honline ▸ h))
    exact ⟨d, hconns ▸ List.mem_append_left _ hd, hstate⟩
  · exact haccepted.imp (by simp) fun h => h
  · exact hrelayed.imp (by simp) fun h => h

theorem Linked.pointer (hold : s.Linked) (hc : c ∈ s.conns) (hctl : c.relayCtl = true) : s.relayCtl = some c.uid := by
  have hmem : c.uid ∈ controls s.conns := List.mem_map_of_mem (List.mem_filter.mpr ⟨hc, hctl⟩)
  rw [controls, hold.control] at hmem
  simpa using hmem

-- The reap that takes the control connection, and one that does not.
theorem Linked.loses (htidy : s.Tidy) (hsteps : Steps cr s e t) (hold : s.Linked) (event : e = .reap io)
    (nextUid : t.nextUid = s.nextUid) {d : Conn} (hd : d ∈ s.conns) (hdead : d.dead = true)
    (hptr : s.relayCtl = some d.uid) {now : Nat}
    (hlink : t.link = { (s.backOff now).link with ctl := none, online := false }) : t.Linked := by
  have hctl : t.relayCtl = none := congrArg Link.ctl hlink
  have honline : t.relayOnline = false := congrArg Link.online hlink
  have hbackoff : t.relayBackoffUs = min (s.relayBackoffUs * 2) (30 * kSecond) := congrArg Link.backoffUs hlink
  have hgone : controls (s.remaining e) = [] := by
    unfold controls
    rw [List.map_eq_nil_iff, List.filter_eq_nil_iff, remaining_reap event]
    intro c hc hcctl
    obtain ⟨hc, hcalive⟩ := List.mem_filter.mp hc
    have huid : c.uid = d.uid := Option.some.inj ((Linked.pointer hold hc hcctl).symm.trans hptr)
    rw [htidy.row hd c hc huid, hdead] at hcalive
    cases hcalive
  refine Linked.of_rows cr hold (List.append_nil _).symm (hsteps.stays cr nextUid)
    (hsteps.maxViewers cr) ?_ (by simp) (fun h => ?_)
    (hbackoff ▸ backoff_next hold.backoff) (.inl (by simp)) (.inl (by simp))
  · rw [hctl, hgone]
    rfl
  · rw [honline] at h
    cases h

theorem Linked.outlives (hsteps : Steps cr s e t) (hold : s.Linked) (event : e = .reap io)
    (nextUid : t.nextUid = s.nextUid) (hlost : ¬ ∃ c ∈ s.conns, c.dead = true ∧ s.relayCtl = some c.uid)
    (hlink : t.link = s.link) : t.Linked := by
  have hctl : t.relayCtl = s.relayCtl := congrArg Link.ctl hlink
  have honline : t.relayOnline = s.relayOnline := congrArg Link.online hlink
  have hbackoff : t.relayBackoffUs = s.relayBackoffUs := congrArg Link.backoffUs hlink
  have hrows := hsteps.stays cr nextUid
  have hremoved := remaining_reap (s := s) event
  have halive : ∀ c ∈ s.conns, c.relayCtl = true → c.dead = false := by
    intro c hc hcctl
    exact Bool.eq_false_iff.mpr fun hdead => hlost ⟨c, hc, hdead, Linked.pointer hold hc hcctl⟩
  have hall : controls (s.remaining e) = controls s.conns := by
    unfold controls
    rw [hremoved, List.filter_filter]
    congr 1
    refine List.filter_congr fun c hc => ?_
    cases hcctl : c.relayCtl with
    | false => rfl
    | true => rw [halive c hc hcctl]; rfl
  refine Linked.of_rows cr hold (List.append_nil _).symm hrows (hsteps.maxViewers cr) ?_
    (by simp) (fun h => ?_) (hbackoff ▸ hold.backoff) (.inl (by simp)) (.inl (by simp))
  · rw [hctl, hall, ← hold.control]
    exact List.append_nil _
  · obtain ⟨c, hc, hcctl, hstate⟩ := hold.online (honline.symm.trans h)
    refine online_rows cr hrows ⟨c, ?_, hcctl, hstate⟩
    rw [hremoved]
    exact List.mem_filter.mpr ⟨hc, by simp [halive c hc hcctl]⟩

theorem Linked.step (htidy : s.Tidy) (hsteps : Steps cr s e t) (hlink : LinkStep s e t) (hold : s.Linked) :
    t.Linked := by
  cases hlink with
  | kept link nextUid event =>
      have hbackoff : t.relayBackoffUs = s.relayBackoffUs := congrArg Link.backoffUs link
      refine Linked.stays cr hsteps hold nextUid event (congrArg Link.ctl link) (fun h => .inl ?_) (hbackoff ▸ hold.backoff)
      exact (congrArg Link.online link).symm.trans h
  | online c c' row control after uid state link nextUid event =>
      have hbackoff : t.relayBackoffUs = 2 * kSecond := congrArg Link.backoffUs link
      have hctl : c'.relayCtl = true := by
        obtain ⟨d, hd, hstep⟩ := (hsteps.stays cr nextUid).new_row after
        have hsame : d = c :=
          htidy.row row d (remaining_subset s e d hd) ((congrArg Prod.fst hstep.identity).symm.trans uid)
        exact (congrArg (fun i => i.2.2.2.1) hstep.identity).trans (hsame ▸ control)
      refine Linked.stays cr hsteps hold nextUid event (congrArg Link.ctl link) (fun _ => .inr ⟨c', after, hctl, .inl state⟩) ?_
      rw [hbackoff]
      decide
  | accepted c after uid kind room link event =>
      refine Linked.joins cr htidy hsteps hold after uid event ?_ (fun h => absurd (kind.2.symm.trans h) (by decide))
        (congrArg Link.online link)
        (congrArg Link.backoffUs link) (.inr room) (.inl fun h => absurd (kind.1.symm.trans h) (by decide))
      have hctl : t.relayCtl = s.relayCtl := congrArg Link.ctl link
      rw [hctl, controls, controls, List.filter_cons_of_neg (by simp [kind.2]), ← hold.control]
      exact List.append_nil _
  | viewer c after uid kind room link event =>
      refine Linked.joins cr htidy hsteps hold after uid event ?_ (fun h => absurd (kind.2.symm.trans h) (by decide))
        (congrArg Link.online link)
        (congrArg Link.backoffUs link) (.inl kind.1) (.inr room)
      have hctl : t.relayCtl = s.relayCtl := congrArg Link.ctl link
      rw [hctl, controls, controls, List.filter_cons_of_neg (by simp [kind.2]), ← hold.control]
      exact List.append_nil _
  | dialed c after uid kind state free link event =>
      refine Linked.joins cr htidy hsteps hold after uid event ?_ (fun _ => ⟨kind.1, state⟩) (congrArg Link.online link)
        (congrArg Link.backoffUs link) (.inl kind.1) (.inl fun _ => kind.2)
      have hctl : t.relayCtl = some s.nextUid := congrArg Link.ctl link
      have hnone : controls s.conns = [] := by rw [controls, hold.control, free, Option.toList_none]
      rw [hctl, hnone, controls, List.filter_cons_of_pos kind.2, List.map_cons, uid]
      rfl
  | failed now link nextUid event =>
      have hbackoff : t.relayBackoffUs = min (s.relayBackoffUs * 2) (30 * kSecond) := congrArg Link.backoffUs link
      refine Linked.stays cr hsteps hold nextUid event (congrArg Link.ctl link) (fun h => .inl ?_) (hbackoff ▸ backoff_next hold.backoff)
      exact (congrArg Link.online link).symm.trans h
  | reaped io event nextUid lost kept =>
      by_cases hlost : ∃ c ∈ s.conns, c.dead = true ∧ s.relayCtl = some c.uid
      · obtain ⟨c, hc, hdead, hptr⟩ := hlost
        exact Linked.loses cr htidy hsteps hold event nextUid hc hdead hptr (lost ⟨c, hc, hdead, hptr⟩)
      · exact Linked.outlives cr hsteps hold event nextUid hlost (kept hlost)

end Rows

section Runs

variable {σ : Type} (cr : Crypto) (plat : Platform σ) {past : List (Server σ × ServerEvent σ)} {s : Server σ}

theorem linked_run (run : Run (serverRuns cr plat) past s) : s.Linked := by
  refine (run.invariant (fun _ s => s.Tidy ∧ s.Linked) (fun s h => ⟨tidy_run cr plat (.start h), ?_⟩) ?_).2
  · obtain ⟨cfg, pool, os, h⟩ := h
    unfold Server.started at h
    split at h
    · cases h
    · rw [← Option.some.inj h]
      exact ⟨rfl, by simp, by simp, by dsimp only; decide, Nat.zero_le _, Nat.zero_le _⟩
  · rintro past s e t ⟨htidy, hold⟩ happly
    have hsteps := apply_steps cr plat htidy happly
    exact ⟨hsteps.tidy cr htidy, Linked.step cr htidy hsteps (apply_linkStep cr plat htidy happly) hold⟩

-- A control connection reads the relay's frames as it was set up to.
theorem control_reader (run : Run (serverRuns cr plat) past s) :
    ∀ c ∈ s.conns, c.relayCtl = true → c.ws.maxMessage = RD_MAX_CLIENT_MSG ∧ c.ws.expectMasked = false := by
  refine (run.invariant (fun _ s => s.Tidy ∧ s.Linked ∧
    ∀ c ∈ s.conns, c.relayCtl = true → c.ws.maxMessage = RD_MAX_CLIENT_MSG ∧ c.ws.expectMasked = false) ?_ ?_).2.2
  · intro s h
    refine ⟨tidy_run cr plat (.start h), linked_run cr plat (.start h), ?_⟩
    rw [started_conns plat h]
    exact fun c hc => by cases hc
  · rintro past s e t ⟨htidy, hlinked, hold⟩ happly
    have hsteps := apply_steps cr plat htidy happly
    have hlinked' : t.Linked := Linked.step cr htidy hsteps (apply_linkStep cr plat htidy happly) hlinked
    refine ⟨hsteps.tidy cr htidy, hlinked', fun c' hc' hctl' => ?_⟩
    have hctl : ∀ c ∈ s.conns, c'.uid = c.uid → c.relayCtl = true := fun c hc huid =>
      (congrArg (fun i => i.2.2.2.1) (hsteps.row cr htidy hc hc' huid).identity).symm.trans hctl'
    have hpast : ∀ (u : Server σ) (c : Conn), u.Linked → c ∈ u.conns → c.relayCtl = true → c.state ≠ .Http := by
      intro u c hu hc hctl hstate
      obtain ⟨-, h⟩ := hu.dialled c hc hctl
      rw [hstate] at h
      rcases h with h | h | h <;> cases h
    by_cases he : ∃ uid, e = .http uid
    · obtain ⟨uid, rfl⟩ := he
      rcases apply_http plat htidy happly c' hc' with hsame | ⟨c, hc, huid, hstate, rfl⟩
      · exact hold c' hsame hctl'
      · have hid := (handleHttp_step cr (s := s) (e := .http c.uid) hstate rfl s.cfg.webRoot
            (plat.files.readFile s.os)).identity
        exact absurd hstate (hpast s c hlinked hc (hctl c hc (congrArg Prod.fst hid)))
    · rcases apply_continues plat htidy (fun uid heq => he ⟨uid, heq⟩) happly c' hc' with
        ⟨c, hc, hrow⟩ | hdialled | ⟨-, hstate, -⟩
      · obtain ⟨hlimit, hrole⟩ := hold c hc (hctl c hc hrow.uid)
        have hkept := hrow.reader
        exact ⟨hkept.limit.trans hlimit, hkept.role.trans hrole⟩
      · rw [hdialled.2]
        exact ⟨rfl, rfl⟩
      · exact absurd hstate (hpast t c' hlinked' hc' hctl')

end Runs

end TetherDesk.Host
