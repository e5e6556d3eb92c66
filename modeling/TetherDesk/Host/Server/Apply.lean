import TetherDesk.Host.Server.Events

namespace TetherDesk.Host

open TetherDesk.Net TetherDesk.Secure TetherDesk.Lib.Table

section OneConn

variable {σ : Type} (cr : Crypto) (plat : Platform σ) {s s' : Server σ} {e : ServerEvent σ} {c : Conn} {io : Io}

theorem Serves.alone_steps {uid : Nat} (h : Serves (Alone uid (QuietStep e)) s s') :
    Evolves (Alone uid (Step cr s e)) s.conns s'.conns :=
  h.conns.imp fun _ _ ha => ha.imp fun hq _ => hq.1.step hq.2

theorem alone_steps {uid : Nat} {l l' : List Conn} (h : Evolves (Alone uid (Step cr s e)) l l') :
    Evolves (Step cr s e) l l' := by
  refine h.imp fun c c' ha => ?_
  unfold Alone at ha
  by_cases huid : c.uid = uid
  · rw [if_pos huid] at ha
    exact ha
  · rw [if_neg huid] at ha
    subst ha
    exact (Bystander.refl _).step

theorem modify_modify (s : Server σ) (uid : Nat) (f g : Conn → Conn) (hf : ∀ d, (f d).uid = d.uid) :
    (s.modify uid f).modify uid g = s.modify uid fun d => g (f d) := by
  unfold Server.modify
  rw [List.map_map]
  congr 1
  refine List.map_congr_left fun d _ => ?_
  by_cases hd : d.uid = uid
  · simp [hd, hf]
  · simp [hd]

-- The books but for thrown, which finish_relay_upgrade and handle_http set.
def SameBooks (s s' : Server σ) : Prop := s'.toBooks = { s.toBooks with thrown := s'.thrown }

theorem SameBooks.of_eq (h : s'.toBooks = s.toBooks) : SameBooks s s' := by
  unfold SameBooks
  rw [h]

theorem SameBooks.eqs (h : SameBooks s s') :
    s'.cfg = s.cfg ∧ s'.nextUid = s.nextUid ∧ s'.logins = s.logins ∧ s'.nextId = s.nextId := by
  unfold SameBooks at h
  exact ⟨(congrArg Books.cfg h).trans rfl, (congrArg Books.nextUid h).trans rfl,
    (congrArg Books.logins h).trans rfl,
    (congrArg Books.nextId h).trans rfl⟩

theorem Steps.of_same (hreap : s.remaining e = s.conns) (h : Evolves (Step cr s e) s.conns s'.conns)
    (hbooks : SameBooks s s') (hno : ∀ c ∈ s.conns, ¬ LogsIn cr s e c) : Steps cr s e s' := by
  obtain ⟨hcfg, huid, hlogins, hid⟩ := hbooks.eqs
  exact .of_evolves cr hreap h (by rw [hcfg]) huid ⟨hlogins, hid⟩ hno

theorem finishRelayUpgrade_steps (hstate : c.state = .RelayUpgrade) (he : e = .relayUpgrade c.uid)
    (hrow : ∀ d ∈ s.conns, d.uid = c.uid → d = c) :
    Evolves (Alone c.uid (Step cr s e)) s.conns (s.finishRelayUpgrade c).conns ∧
      SameBooks s (s.finishRelayUpgrade c) := by
  have hdies : ∀ d ∈ s.conns, d.uid = c.uid → ∀ d', Dies e d d' := fun d _ huid _ => by
    rw [he, ← huid]
    exact .rejected (.inr (.inl rfl))
  unfold Server.finishRelayUpgrade
  cases (findSub headerEnd c.inn).filter (· ≠ 0) with
  | none =>
      dsimp only
      split
      · have h := (closeConn_quiet s c (ascii "bad relay response")).dies hdies
        exact ⟨h.alone_steps cr, .of_eq h.books⟩
      · have h : Serves (Alone c.uid (QuietStep e)) s s := same_alone rfl rfl fun d => ⟨.refl d, fun h => .inl h⟩
        exact ⟨h.alone_steps cr, .of_eq h.books⟩
  | some k =>
      dsimp only
      have hread : Serves (Alone c.uid Quiet) s (s.modify c.uid fun c =>
          { c with inn := rdBufConsume c.inn (k + 4) }) :=
        modify_alone s c.uid _ _ fun d _ _ => ⟨rfl, .refl d, rfl, fun h => h, rfl, rfl⟩
      have hup : ∀ state, state = (if c.relayCtl then State.RelayCtl else State.Hello) →
          Evolves (Alone c.uid (Step cr s e)) s.conns
            ((s.modify c.uid fun c => { c with inn := rdBufConsume c.inn (k + 4) }).modify
            c.uid fun c => { c with state := state }).conns := by
        intro state hstate'
        rw [modify_modify s c.uid _ _ fun _ => by rfl]
        refine (modify_alone s c.uid _ _ fun d hd huid => ?_).conns
        rw [hrow d hd huid]
        exact ⟨rfl, .upgraded (.inr ⟨hstate, hstate'⟩) rfl rfl rfl, .same rfl rfl⟩
      generalize hs₁ : (s.modify c.uid fun c => { c with inn := rdBufConsume c.inn (k + 4) }) = s₁ at hread hup ⊢
      have hclose : ∀ t : Server σ, t.conns = s₁.conns → t.toBooks = s₁.toBooks →
          Evolves (Alone c.uid (Step cr s e)) s.conns (t.closeConn c (ascii "relay refused")).conns ∧
            SameBooks s (t.closeConn c (ascii "relay refused")) := by
        intro t hconns hbooks
        have ht : Serves (Alone c.uid Quiet) s t := ⟨hconns ▸ hread.conns, hbooks.trans hread.books⟩
        have h := (ht.quiet_trans (closeConn_quiet t c (ascii "relay refused"))).dies hdies
        exact ⟨h.alone_steps cr, .of_eq h.books⟩
      split
      · split
        · have h := hread.dies hdies
          refine ⟨h.alone_steps cr, ?_⟩
          unfold SameBooks
          rw [← h.books]
        · split
          · exact hclose (s₁.log _) rfl rfl
          · exact hclose s₁ rfl rfl
      · by_cases hctl : c.relayCtl = true
        · rw [if_pos hctl]
          exact ⟨hup .RelayCtl (by rw [if_pos hctl]), .of_eq hread.books⟩
        · rw [if_neg hctl]
          exact ⟨hup .Hello (by rw [if_neg hctl]), .of_eq hread.books⟩

-- A message logs in at most the connection it came on.
theorem not_logsIn_other (he : e = .message c.uid io) (hrow : ∀ d ∈ s.conns, d.uid = c.uid → d = c)
    (h : ¬ LogsIn cr s e c) : ∀ d ∈ s.conns, ¬ LogsIn cr s e d := by
  intro d hd hin
  obtain ⟨io', r, he', -⟩ := id hin
  rw [he, ServerEvent.message.injEq] at he'
  exact h (hrow d hd he'.1.symm ▸ hin)

theorem relayOpen_joins (m : Bytes) :
    ∃ new, (s.relayOpen cr c m io).conns = s.conns ++ new ∧ Joins s (s.relayOpen cr c m io) new ∧
      (s.relayOpen cr c m io).cfg = s.cfg ∧ (s.relayOpen cr c m io).logins = s.logins ∧
      (s.relayOpen cr c m io).nextId = s.nextId := by
  have hsame : ∃ new, s.conns = s.conns ++ new ∧ Joins s s new ∧ s.cfg = s.cfg ∧ s.logins = s.logins ∧
      s.nextId = s.nextId :=
    ⟨[], (List.append_nil _).symm, .nobody rfl, rfl, rfl, rfl⟩
  unfold Server.relayOpen
  split
  · cases openCommand m with
    | none => exact hsame
    | some ticket =>
        dsimp only
        split
        · exact openRelayConn_joins cr false _ _ io
        · exact hsame
  · exact hsame

theorem Joins.of_uid {t : Server σ} {new : List Conn} (h : Joins s s' new) (huid : s.nextUid = t.nextUid) :
    Joins t s' new := by
  cases h with
  | nobody nextUid => exact .nobody (nextUid.trans huid)
  | one c uid newcomer nextUid => exact .one c (uid.trans huid) newcomer (by rw [nextUid, huid])

theorem login_steps {c₂ : Conn} (hread : Read c c₂) (hrow : ∀ d ∈ s.conns, d.uid = c.uid → d = c)
    (hmem : c ∈ s.conns)
    (hstate : c.state = .Auth) (halive : c.dead = false) (he : e = .message c.uid io) {r : Reader}
    (hmsg : c.messageIn cr = some (RD_C_AUTH, r)) (hverdict : (s.authVerdict cr c r io).1 = .ok) (guard : Guard) :
    Steps cr s e ({ s.modify c.uid (fun _ => c₂) with guard := guard }.onAuthenticated cr plat c₂ io) := by
  have hreap : s.remaining e = s.conns := by
    rw [he]
    rfl
  have huid := hread.eqs.1
  have hauth := onAuthenticated_evolves cr plat { s.modify c.uid fun _ => c₂ with guard := guard } c₂ io
  have hbooks := onAuthenticated_books cr plat { s.modify c.uid fun _ => c₂ with guard := guard } c₂ io
  rw [huid] at hauth
  have hrows : Evolves (Step cr s e) s.conns _ := step_of_row hrow huid hauth fun d' hd' =>
    authenticated_step cr hread hstate halive he hmsg hverdict _ _ hd'
  have hcfg : ({ s.modify c.uid (fun _ => c₂) with guard := guard }.onAuthenticated cr plat c₂ io).cfg = s.cfg :=
    (congrArg Books.cfg hbooks).trans rfl
  exact ⟨⟨_, [], (List.append_nil _).symm, hreap.symm ▸ hrows, .nobody ((congrArg Books.nextUid hbooks).trans rfl)⟩,
    by rw [hcfg], fun _ => ⟨(congrArg Books.logins hbooks).trans rfl, (congrArg Books.nextId hbooks).trans rfl⟩,
    fun hno => absurd ⟨c, hmem, io, r, he, hstate, halive, hmsg, hverdict⟩ hno⟩

theorem wsRound_steps (he : e = .message c.uid io) (hup : c.upgraded = true) (hmem : c ∈ s.conns)
    (hrow : ∀ d ∈ s.conns, d.uid = c.uid → d = c) : Steps cr s e (s.wsRound cr plat c io).1 := by
  have hreap : s.remaining e = s.conns := by
    rw [he]
    rfl
  have hquiet : ¬ LogsIn cr s (.message c.uid io) c → ∀ d ∈ s.conns, ¬ LogsIn cr s e d := fun h =>
    not_logsIn_other cr he hrow (he ▸ h)
  have hround := wsRound_cases cr plat io hrow
  generalize (s.wsRound cr plat c io).1 = s' at hround ⊢
  cases hround with
  | stopped h =>
      refine .of_books cr hreap (Evolves.rfl fun d _ => (Bystander.refl d).step) rfl (hquiet ?_)
      rintro ⟨-, -, -, hauth, halive, -⟩
      rcases h with hdead | hclosing
      · exact absurd hdead (by simp [halive])
      · exact absurd (hauth.symm.trans hclosing) (by decide)
  | read c₂ hread hno => exact .of_books cr hreap (put_steps cr hrow (read_step cr hread)) rfl (hquiet hno)
  | closed c₂ hread halive hno reason =>
      exact .of_books cr hreap (put_close_steps cr hread he halive hrow reason) (closeConn_books _ _ _) (hquiet hno)
  | pong c₂ hread hno payload =>
      refine .of_books cr hreap (put_steps cr hrow ?_) rfl (hquiet hno)
      obtain ⟨more, hmore⟩ := c₂.wsFrame_eq RD_WS_PONG payload (io.mask 0 c.uid)
      have hquiet : Quiet c₂ { c₂ with out := c₂.out ++ more } := ⟨rfl, .refl c₂, rfl, fun h => h, rfl, rfl⟩
      rw [hmore]
      exact (hread.quiet.trans hquiet).step fun h => .inl (hread.eqs.2.1.symm.trans h)
  | left c₂ hread halive hno hopen m hframe hopcode lines =>
      refine .of_books cr hreap (put_steps (s := s) cr hrow ?_) rfl (hquiet hno)
      unfold Conn.closing
      obtain ⟨more, hmore⟩ := c₂.wsFrame_eq RD_WS_CLOSE (m.data.take 2) (io.mask 0 c.uid)
      rw [hmore]
      obtain ⟨ws, inn, recvCtr, rfl, -⟩ := hread
      exact ⟨rfl, .left m io ⟨hup, hopen⟩ halive he hframe hopcode ⟨c.ch.sendCtr, recvCtr, rfl⟩ rfl rfl,
        .same rfl rfl⟩
  | opened c₂ hread hno m =>
      obtain ⟨new, hconns, hjoins, hcfg, hlogins, hid⟩ := relayOpen_joins cr (s := s.modify c.uid fun _ => c₂)
        (c := c₂) m
      refine ⟨⟨_, new, hconns, hreap.symm ▸ put_steps cr hrow (read_step cr hread),
        hjoins.of_uid rfl⟩, by rw [hcfg]; rfl,
        fun ⟨d, hd, h⟩ => absurd h (hquiet hno d hd), fun _ => ⟨hlogins, hid⟩⟩
  | hello c₂ hread halive hstate r hmsg =>
      exact .of_books cr hreap (put_steps cr hrow (hello_step cr plat hread hstate halive he hmsg)) rfl
        (hquiet (not_logsIn_message cr hmsg (.inl (by rw [hstate]; decide))))
  | refused c₂ hread halive hstate r hmsg hverdict guard lines why =>
      have hno : ¬ LogsIn cr s (.message c.uid io) c := by
        rintro ⟨io', r', he', -, -, hmsg', hok⟩
        rw [ServerEvent.message.injEq] at he'
        rw [hmsg, Option.some.injEq, Prod.mk.injEq] at hmsg'
        rw [he'.2, hmsg'.2] at hverdict
        exact hverdict hok
      exact .of_evolves cr hreap
        (put_steps (s := s) cr hrow (refuse_step cr hread hstate halive he hmsg hverdict why _)) rfl
        rfl ⟨rfl, rfl⟩ (hquiet hno)
  | login c₂ hread halive hstate r hmsg hverdict guard =>
      exact login_steps cr plat hread hrow hmem hstate halive he hmsg hverdict guard
  | session c₂ hread halive hactive type r hmsg =>
      obtain ⟨huid₂, -⟩ := hread.eqs
      have hserves := handleSessionMessage_serves cr plat (s.modify c.uid fun _ => c₂) c₂ r io type (put_row huid₂)
      have hconns := hserves.conns
      rw [huid₂] at hconns
      refine .of_books cr hreap (step_of_row hrow huid₂ hconns fun d' hd' => ?_) hserves.books
        (hquiet (not_logsIn_message cr hmsg (.inl (by rw [hactive]; decide))))
      obtain ⟨ws', inn', recvCtr', rfl, -⟩ := hread
      obtain ⟨out, sent, sendCtr, screen, sentInput, uploads, rfl, hsent, hup'⟩ := hd'
      exact ⟨rfl, .served hactive halive ⟨io, he⟩ ⟨sendCtr, recvCtr', rfl⟩ hup' rfl rfl, .plain sent rfl hsent⟩

end OneConn

section Frames

variable (cr : Crypto) (c : Conn)

theorem sendMsg_unmoved (msg mask : Bytes) : Unmoved c (c.sendMsg cr msg mask) := by
  cases hdead : c.dead with
  | true =>
      rw [Conn.sendMsg_dead cr c msg mask hdead]
      exact Unmoved.screened c c.toScreen
  | false =>
      obtain ⟨out, sendCtr, h⟩ := Conn.sendMsg_alive cr c msg mask hdead
      rw [h]
      exact ⟨rfl, ⟨sendCtr, c.ch.recvCtr, rfl⟩, rfl, rfl⟩

theorem fitShadow_unmoved (f : Frame) (info : ScreenInfo) (mask : Bytes) :
    Unmoved c (c.fitShadow cr f info mask) := by
  unfold Conn.fitShadow
  split
  · refine Unmoved.trans ?_ (sendMsg_unmoved cr _ _ mask)
    exact Unmoved.screened c
      { c.toScreen with
        shadow := List.replicate (f.width * f.height * 4) 0
        shadowW := f.width
        shadowH := f.height
        tileQ := []
        lossyTiles := 0
        needFull := true }
  · exact Unmoved.screened c c.toScreen

theorem encodeFrame_unmoved {c' : Conn} (f : Frame) (now : Nat) (changed : Bool) (budget : Int) (threads : Nat)
    (schedule : List Nat) (mask : Bytes)
    (h : c.encodeFrame cr f now changed budget threads schedule mask = some c') :
    Unmoved c c' := by
  unfold Conn.encodeFrame at h
  obtain ⟨st, -, rfl⟩ := Option.map_eq_some_iff.mp h
  dsimp only
  split
  · exact Unmoved.screened c _
  · refine Unmoved.trans ?_ (sendMsg_unmoved cr _ _ mask)
    exact Unmoved.screened c _

theorem maybeSendFrame_unmoved {c' : Conn} (f : Option Frame) (now : Nat) (info : ScreenInfo) (threads : Nat)
    (schedule : List Nat) (masks : Nat → Bytes)
    (h : c.maybeSendFrame cr f now info threads schedule masks = some c') :
    Unmoved c c' := by
  cases f with
  | none =>
      obtain rfl := Option.some.inj h
      exact Unmoved.screened c c.toScreen
  | some f =>
      refine (fitShadow_unmoved cr c f info (masks 0)).trans ?_
      obtain ⟨lastChangeUs, stalls, rfl⟩ | ⟨lastChangeUs, changed, budget, -, h⟩ :=
        Conn.offerFrame_cases cr _ c' f now threads
        schedule (masks 1) h
      · exact Unmoved.screened _ { (c.fitShadow cr f info (masks 0)).toScreen with
          lastChangeUs := lastChangeUs, stalls := stalls }
      · refine Unmoved.trans ?_ (encodeFrame_unmoved cr _ f now changed budget threads schedule (masks 1) h)
        exact Unmoved.screened _ { (c.fitShadow cr f info (masks 0)).toScreen with lastChangeUs := lastChangeUs }

theorem adaptQuality_unmoved (now : Nat) : Unmoved c (c.adaptQuality now) := by
  obtain ⟨cleanWindows, effFps, quality, stalls, sends, adaptWindowUs, h, -⟩ := c.adaptQuality_eq now
  rw [h]
  exact Unmoved.screened c _

end Frames

section Server

variable {σ : Type} (cr : Crypto) (plat : Platform σ) {s s' : Server σ} {e : ServerEvent σ} {c : Conn} {io : Io}

theorem pump_steps (hrow : ∀ d ∈ s.conns, d.uid = c.uid → d = c) (f : Option Frame) (now : Nat)
    (schedule : List Nat)
    (he : e = .pump c.uid f now schedule io) (h : s.pump cr plat c f now schedule io = some s') :
    Evolves (Alone c.uid (Step cr s e)) s.conns s'.conns ∧ s'.toBooks = s.toBooks := by
  unfold Server.pump at h
  by_cases hidle : c.dead = true ∨ c.state ≠ .Active
  · rw [if_pos hidle, Option.some.injEq] at h
    subst h
    refine ⟨(same_alone rfl rfl fun d => ?_ : Serves (Alone c.uid (Step cr s e)) s s).conns, rfl⟩
    exact (Bystander.refl d).step
  have halive : c.dead = false := by simpa using fun h => hidle (.inl h)
  have hactive : c.state = .Active := not_not.mp fun h => hidle (.inr h)
  rw [if_neg hidle] at h
  generalize s.screenInfo plat = r at h
  obtain ⟨info, os⟩ := r
  generalize (f.any fun f => f.width ≠ c.shadowW ∨ f.height ≠ c.shadowH) = resized at h
  obtain ⟨c', hc', rfl⟩ := Option.map_eq_some_iff.mp h
  refine ⟨(modify_alone (s := { s with os := if resized then os else s.os }) c.uid _ _ fun d hd huid =>
    ?_).conns, rfl⟩
  rw [hrow d hd huid]
  have hmoved := (maybeSendFrame_unmoved cr c f now info s.pool schedule (fun k => io.mask k c.uid) hc').trans
    (adaptQuality_unmoved c' now)
  exact hmoved.step (.pumped f now schedule io he halive hactive cr info s.pool c' hc' rfl)

theorem pollClipboard_serves (now : Nat) : Serves Bystander s (s.pollClipboard cr plat now io) := by
  have hsame : ∀ t : Server σ, t.conns = s.conns → t.toBooks = s.toBooks → Serves Bystander s t :=
    fun t hconns hbooks =>
    same_books_serves s hconns hbooks
  unfold Server.pollClipboard
  by_cases hearly : now < s.nextClipPollUs
  · rw [if_pos hearly]
    exact hsame s rfl rfl
  rw [if_neg hearly]
  extract_lets s₁
  generalize plat.clipboard.changeCount s₁.os = r
  obtain ⟨cc, os⟩ := r
  dsimp only
  split
  · exact hsame _ rfl rfl
  generalize plat.clipboard.getText os = r
  obtain ⟨text, os'⟩ := r
  cases text with
  | none => exact hsame _ rfl rfl
  | some text =>
      dsimp only
      split
      · exact hsame _ rfl rfl
      · refine Serves.bystander_trans ?_
          (broadcast_serves cr _ _ none true _ (.of_type RD_S_CLIPBOARD rfl (by decide)))
        exact hsame _ rfl rfl

theorem modify_then_serves (uid : Nat) (f : Conn → Conn) {s₁ : Server σ}
    (h : Serves Bystander (s.modify uid f) s₁) :
    Serves (Acts uid fun d d' => Bystander (f d) d') s s₁ := by
  refine Serves.comp ?_ (modify_serves s uid f (fun d d' => d' = f d) fun d _ _ => rfl) h
  intro d d₁ d' hacts hb
  unfold Acts at *
  by_cases hd : d.uid = uid
  · rw [if_pos hd] at hacts ⊢
    subst hacts
    exact hb
  · rw [if_neg hd] at hacts ⊢
    exact hacts.trans hb

theorem findViewer_mem {name : Bytes} (h : s.findViewer name = some c) : c ∈ s.conns ∧ c.live = true := by
  unfold Server.findViewer at h
  refine ⟨List.mem_of_find?_eq_some h, ?_⟩
  have := List.find?_some h
  rw [Bool.and_eq_true] at this
  exact this.1

theorem kick_steps {t : Server σ} (hlive : c.live = true) (hrow : ∀ d ∈ s.conns, d.uid = c.uid → d = c) :
    Evolves (Step cr t e) s.conns (s.kick cr c io).conns ∧ (s.kick cr c io).toBooks = s.toBooks := by
  refine ⟨Evolves.map fun d hd => ?_, rfl⟩
  by_cases huid : d.uid = c.uid
  case neg =>
    rw [if_neg huid]
    exact (Bystander.refl d).step
  rw [if_pos huid, hrow d hd huid]
  unfold Conn.kicked
  dsimp only
  obtain ⟨out, sent, sendCtr, screen, h, hsent⟩ := sendMsg_bystander cr c
    (noticeMsg (ascii "The host disconnected you")) (io.mask 0 c.uid) (noticeMsg_plain _)
  rw [h]
  exact ⟨rfl, .kicked hlive ⟨sendCtr, c.ch.recvCtr, rfl⟩ rfl rfl, .plain sent rfl hsent⟩

theorem toggleViewOnly_steps (hlive : c.live = true) (hrow : ∀ d ∈ s.conns, d.uid = c.uid → d = c)
    (he : e = .consoleLine io) {t : Server σ} (htarget : t.toggleTarget = some c) :
    Evolves (Step cr t e) s.conns (s.toggleViewOnly cr plat c io).conns ∧
      (s.toggleViewOnly cr plat c io).toBooks = s.toBooks := by
  have hserves : Serves (Acts c.uid fun d d' => Bystander { d with viewOnly := !c.viewOnly } d') s
      (s.toggleViewOnly cr plat c io) := by
    refine modify_then_serves c.uid (fun d => { d with viewOnly := !c.viewOnly }) ?_
    unfold Server.toggleViewOnly
    dsimp only
    generalize s.modify c.uid (fun d => { d with viewOnly := !c.viewOnly }) = s₁
    have hrelease : Serves Bystander s₁ (if (!c.viewOnly) = true ∧ c.sentInput = true then
        { s₁ with os := plat.input.releaseAll s₁.os } else s₁) := by
      split
      · exact os_serves s₁ _
      · exact same_books_serves s₁ rfl rfl
    generalize (if (!c.viewOnly) = true ∧ c.sentInput = true then
      { s₁ with os := plat.input.releaseAll s₁.os } else s₁) = s₂ at hrelease ⊢
    have hsend := sendTo_serves cr s₂ c.uid (authResultMsg true (!c.viewOnly) (ascii (if (!c.viewOnly) = true then
      "The host made you view-only" else "The host gave you control"))) (io.mask 0 c.uid)
        (authResultMsg_plain _ _ _)
    generalize s₂.sendTo cr c.uid (authResultMsg true (!c.viewOnly) (ascii (if (!c.viewOnly) = true then
      "The host made you view-only" else "The host gave you control"))) (io.mask 0 c.uid) = s₃ at hsend ⊢
    refine (hrelease.bystander_trans hsend).bystander_trans ?_
    exact (broadcastViewers_serves cr s₃ (io.mask 1)).bystander_trans (same_books_serves _ rfl rfl)
  refine ⟨?_, hserves.books⟩
  refine hserves.conns.with_mem.imp fun d d' hd => ?_
  obtain ⟨hmem, hacts⟩ := hd
  unfold Acts at hacts
  by_cases huid : d.uid = c.uid
  · rw [if_pos huid] at hacts
    rw [hrow d hmem huid] at hacts ⊢
    obtain ⟨out, sent, sendCtr, screen, rfl, hsent⟩ := hacts
    exact ⟨rfl, .toggled io hlive he htarget ⟨sendCtr, c.ch.recvCtr, rfl⟩ rfl rfl, .plain sent rfl hsent⟩
  · rw [if_neg huid] at hacts
    exact hacts.step

theorem handleConsoleLine_steps {t : Server σ} (hconns : t.conns = s.conns) (hbooks : t.toBooks = s.toBooks)
    (raw : Bytes)
    (htoggle : ∀ c, (splitCommand (cleanText raw 1000)).1 = ascii "/viewonly" →
      s.findViewer (splitCommand (cleanText raw 1000)).2 = some c → s.toggleTarget = some c)
    (hrow : ∀ c ∈ s.conns, ∀ d ∈ s.conns, d.uid = c.uid → d = c) :
    Steps cr s (.consoleLine io) (t.handleConsoleLine cr plat raw io) := by
  have hno : ∀ c ∈ s.conns, ¬ LogsIn cr s (.consoleLine io) c := not_logsIn cr (by simp)
  have hsame : ∀ t' : Server σ, Serves Bystander t t' → Steps cr s (.consoleLine io) t' := by
    intro t' ht
    exact .of_serves cr rfl ⟨hconns ▸ ht.conns, ht.books.trans hbooks⟩ hno
  have hkeep : ∀ t' : Server σ, t'.conns = t.conns → t'.toBooks = t.toBooks → Steps cr s (.consoleLine io) t' :=
    fun t' hconns' hbooks' => hsame t' (same_books_serves t hconns' hbooks')
  unfold Server.handleConsoleLine
  dsimp only
  generalize cleanText raw 1000 = line at htoggle ⊢
  generalize splitCommand line = words at htoggle ⊢
  obtain ⟨cmd, arg⟩ := words
  dsimp only at htoggle ⊢
  by_cases hempty : line = []
  · rw [if_pos hempty]
    exact hkeep _ rfl rfl
  rw [if_neg hempty]
  by_cases hhelp : cmd = ascii "/help"
  · rw [if_pos hhelp]
    exact hkeep _ rfl rfl
  rw [if_neg hhelp]
  by_cases hlist : cmd = ascii "/list"
  · rw [if_pos hlist]
    unfold Server.list
    dsimp only
    split
    · exact hkeep _ rfl rfl
    · exact hkeep _ rfl rfl
  rw [if_neg hlist]
  by_cases hviewer : cmd = ascii "/kick" ∨ cmd = ascii "/viewonly"
  · rw [if_pos hviewer]
    have hfind : t.findViewer arg = s.findViewer arg := by
      unfold Server.findViewer
      rw [hconns]
    rw [hfind]
    cases hc : s.findViewer arg with
    | none => exact hkeep _ rfl rfl
    | some c =>
        obtain ⟨hmem, hlive⟩ := findViewer_mem hc
        have hrow' : ∀ d ∈ t.conns, d.uid = c.uid → d = c := hconns ▸ hrow c hmem
        dsimp only
        by_cases hkick : cmd = ascii "/kick"
        · rw [if_pos hkick]
          obtain ⟨hrows, hbooks'⟩ := kick_steps (t := s) (e := .consoleLine io) cr hlive hrow'
          exact .of_books cr rfl (hconns ▸ hrows) (hbooks'.trans hbooks) hno
        · rw [if_neg hkick]
          obtain ⟨hrows, hbooks'⟩ := toggleViewOnly_steps cr plat hlive hrow' rfl
            (htoggle c (hviewer.resolve_left hkick) hc)
          exact .of_books cr rfl (hconns ▸ hrows) (hbooks'.trans hbooks) hno
  rw [if_neg hviewer]
  by_cases hpassword : cmd = ascii "/password"
  · rw [if_pos hpassword]
    split
    · exact hkeep _ rfl rfl
    · have hbooks' : ∀ books : Books, books = s.toBooks → { { books.cfg with password := arg } with
          password := s.cfg.password } = s.cfg ∧ books.nextUid = s.nextUid ∧ books.logins = s.logins ∧
          books.nextId = s.nextId := by
        rintro _ rfl
        exact ⟨rfl, rfl, rfl, rfl⟩
      obtain ⟨hcfg, huid, hlogins⟩ := hbooks' t.toBooks hbooks
      have hrows : Evolves (Step cr s (.consoleLine io)) s.conns t.conns :=
        hconns ▸ Evolves.rfl fun d _ => (Bystander.refl d).step
      exact .of_evolves cr rfl hrows hcfg huid hlogins hno
  rw [if_neg hpassword]
  split
  · exact hkeep _ rfl rfl
  split
  · exact hkeep _ rfl rfl
  · exact hsame _ (broadcast_serves cr _ _ none false _ (.of_type RD_S_CHAT rfl (by decide)))

theorem consoleLine_steps (hrow : ∀ c ∈ s.conns, ∀ d ∈ s.conns, d.uid = c.uid → d = c) :
    Steps cr s (.consoleLine io) (s.consoleLine cr plat io) := by
  unfold Server.consoleLine
  by_cases hline : s.consoleBuf.contains 10 = true
  · rw [if_pos hline]
    refine handleConsoleLine_steps cr plat (by rfl) (by rfl) _ (fun c hcmd hfind => ?_) hrow
    unfold Server.toggleTarget
    dsimp only
    rw [if_pos ⟨hline, hcmd⟩, hfind]
  · rw [if_neg hline]
    exact .of_serves cr rfl (same_books_serves s rfl rfl) (not_logsIn cr (by simp))

theorem dismantle_keeps (s : Server σ) (c : Conn) (io : Io) :
    (s.dismantle plat c io).conns = s.conns ∧ (s.dismantle plat c io).toBooks = s.toBooks := by
  unfold Server.dismantle
  dsimp only
  split
  · split
    · exact ⟨rfl, rfl⟩
    · exact ⟨rfl, rfl⟩
  · exact ⟨rfl, rfl⟩

theorem dismantle_all (io : Io) (dead : List Conn) (s : Server σ) :
    (dead.foldl (fun s c => s.dismantle plat c io) s).conns = s.conns ∧
      (dead.foldl (fun s c => s.dismantle plat c io) s).toBooks = s.toBooks := by
  induction dead generalizing s with
  | nil => exact ⟨rfl, rfl⟩
  | cons c dead ih =>
      obtain ⟨hconns, hbooks⟩ := ih (s.dismantle plat c io)
      obtain ⟨hconns', hbooks'⟩ := dismantle_keeps plat s c io
      exact ⟨hconns.trans hconns', hbooks.trans hbooks'⟩

theorem announceLeft_serves (s : Server σ) (left : List Bytes) (io : Io) :
    Serves Bystander s (s.announceLeft cr left io) := by
  have hnotices : ∀ (names : List (Bytes × Nat)) (t : Server σ), Serves Bystander s t → Serves Bystander s
      (names.foldl (fun s n => s.notice cr (n.1 ++ ascii " disconnected") none (io.mask (n.2 + 1))) t) := by
    intro names
    induction names with
    | nil => exact fun t ht => ht
    | cons n names ih => exact fun t ht => ih _ (ht.bystander_trans (notice_serves cr t _ none _))
  unfold Server.announceLeft
  split
  · exact same_books_serves s rfl rfl
  · exact hnotices _ _ (broadcastViewers_serves cr s (io.mask 0))

-- A reap takes the closed connections out; the others only hear of it.
theorem reap_serves (s : Server σ) (io : Io) :
    Evolves Bystander (s.conns.filter fun c => !c.dead) (s.reap cr plat io).conns ∧
      (s.reap cr plat io).toBooks = s.toBooks := by
  unfold Server.reap
  dsimp only
  obtain ⟨hconns, hbooks⟩ := dismantle_all plat io (s.conns.filter fun c => c.dead) s
  generalize (s.conns.filter fun c => c.dead).foldl (fun s c => s.dismantle plat c io) s = t at hconns hbooks ⊢
  have h := announceLeft_serves cr { t with conns := t.conns.filter fun c => !c.dead } (leftNames s.conns) io
  have hfilter : (s.conns.filter fun c => !c.dead) = t.conns.filter fun c => !c.dead := by rw [hconns]
  refine ⟨?_, h.books.trans hbooks⟩
  rw [hfilter]
  exact h.conns

-- Connections are told apart.
structure Server.Tidy (s : Server σ) : Prop where
  distinct : (s.conns.map Conn.uid).Nodup
  used : ∀ c ∈ s.conns, c.uid < s.nextUid

theorem Server.Tidy.row (h : s.Tidy) (hmem : c ∈ s.conns) : ∀ d ∈ s.conns, d.uid = c.uid → d = c :=
  fun _ hd huid => row_unique Conn.uid h.distinct hd hmem huid

theorem find_spec {uid : Nat} (h : s.find uid = some c) : c ∈ s.conns ∧ c.uid = uid :=
  ⟨List.mem_of_find?_eq_some h, by simpa using List.find?_some h⟩

-- The events of one connection.
theorem onConn_steps {uid : Nat} {f : Conn → Server σ} (h : ∀ c ∈ s.conns, c.uid = uid → Steps cr s e (f c))
    (hskip : Steps cr s e s) : Steps cr s e (s.onConn uid f) := by
  unfold Server.onConn
  cases hfind : s.find uid with
  | none => exact hskip
  | some c => exact h c (find_spec hfind).1 (find_spec hfind).2

theorem Steps.of_alone {uid : Nat} (hreap : s.remaining e = s.conns) (hno : ∀ c ∈ s.conns, ¬ LogsIn cr s e c)
    (h : Serves (Alone uid (QuietStep e)) s s') : Steps cr s e s' := .of_books cr hreap (h.steps cr) h.books hno

theorem Steps.skip (hreap : s.remaining e = s.conns) (hno : ∀ c ∈ s.conns, ¬ LogsIn cr s e c) : Steps cr s e s :=
  .of_serves cr hreap (same_books_serves s rfl rfl) hno

-- Every step, row by row.
theorem apply_steps (htidy : s.Tidy) (h : e.apply cr plat s = some s') : Steps cr s e s' := by
  unfold ServerEvent.apply at h
  by_cases hthrown : s.thrown = true
  · rw [if_pos hthrown] at h
    cases h
  rw [if_neg hthrown] at h
  cases e with
  | world os =>
      obtain rfl := Option.some.inj h
      exact .of_serves cr rfl (os_serves s os) (not_logsIn cr (by simp))
  | consoleRead chunk =>
      obtain rfl := Option.some.inj h
      exact .of_serves cr rfl (same_books_serves s rfl rfl) (not_logsIn cr (by simp))
  | consoleLine io =>
      obtain rfl := Option.some.inj h
      exact consoleLine_steps cr plat fun c hc => htidy.row hc
  | tcpReady uid ok tls answers =>
      obtain rfl := Option.some.inj h
      have hskip := Steps.skip (s := s) (e := .tcpReady uid ok tls answers) cr rfl (not_logsIn cr (by simp))
      refine onConn_steps cr (fun c hc huid => ?_) hskip
      subst huid
      split
      · exact .of_alone cr rfl (not_logsIn cr (by simp)) (tcpReady_serves (htidy.row hc) ok tls answers rfl)
      · exact hskip
  | handshake uid rc err answers =>
      obtain rfl := Option.some.inj h
      have hskip := Steps.skip (s := s) (e := .handshake uid rc err answers) cr rfl (not_logsIn cr (by simp))
      refine onConn_steps cr (fun c hc huid => ?_) hskip
      subst huid
      split
      · exact .of_alone cr rfl (not_logsIn cr (by simp)) (handshake_serves (htidy.row hc) rc err answers rfl)
      · exact hskip
  | received uid data now =>
      obtain rfl := Option.some.inj h
      exact onConn_steps cr (fun c hc huid => .of_alone cr rfl (not_logsIn cr (by simp)) (received_serves data now))
        (.skip cr rfl (not_logsIn cr (by simp)))
  | recvFailed uid data =>
      obtain rfl := Option.some.inj h
      refine onConn_steps cr (fun c hc huid => ?_) (.skip cr rfl (not_logsIn cr (by simp)))
      subst huid
      exact .of_alone cr rfl (not_logsIn cr (by simp)) (recvFailed_serves data rfl)
  | http uid =>
      obtain rfl := Option.some.inj h
      have hskip := Steps.skip (s := s) (e := .http uid) cr rfl (not_logsIn cr (by simp))
      refine onConn_steps cr (fun c hc huid => ?_) hskip
      subst huid
      split
      · next hstate =>
          refine .of_same cr rfl (modify_steps cr c.uid _ fun d hd hduid => ?_) rfl (not_logsIn cr (by simp))
          rw [htidy.row hc d hd hduid]
          exact handleHttp_step cr hstate rfl _ _
      · exact hskip
  | relayUpgrade uid =>
      obtain rfl := Option.some.inj h
      have hskip := Steps.skip (s := s) (e := .relayUpgrade uid) cr rfl (not_logsIn cr (by simp))
      refine onConn_steps cr (fun c hc huid => ?_) hskip
      subst huid
      split
      · next hstate =>
          obtain ⟨hrows, hbooks⟩ := finishRelayUpgrade_steps cr hstate rfl (htidy.row hc)
          exact .of_same cr rfl (alone_steps cr hrows) hbooks (not_logsIn cr (by simp))
      · exact hskip
  | message uid io =>
      obtain rfl := Option.some.inj h
      unfold Server.onConn
      cases hfind : s.find uid with
      | none =>
          refine .skip cr rfl ?_
          rintro d hd ⟨io', r, he, -⟩
          rw [ServerEvent.message.injEq] at he
          have hfound := find_row Conn.uid htidy.distinct hd
          rw [← he.1] at hfound
          exact absurd (hfind.symm.trans hfound) (by simp)
      | some c =>
          obtain ⟨hc, rfl⟩ := find_spec hfind
          dsimp only
          by_cases hup : c.upgraded = true
          · rw [if_pos hup]
            exact wsRound_steps cr plat rfl hup hc (htidy.row hc)
          · rw [if_neg hup]
            refine .skip cr rfl (not_logsIn_other cr rfl (htidy.row hc) ?_)
            rintro ⟨-, -, -, hauth, -⟩
            refine hup ?_
            unfold Conn.upgraded
            rw [hauth]
            rfl
  | staleRc uid =>
      obtain rfl := Option.some.inj h
      have hskip := Steps.skip (s := s) (e := .staleRc uid) cr rfl (not_logsIn cr (by simp))
      refine onConn_steps cr (fun c hc huid => ?_) hskip
      subst huid
      split
      · exact .of_alone cr rfl (not_logsIn cr (by simp)) (staleRc_serves rfl _)
      · exact hskip
  | flush uid answers =>
      obtain rfl := Option.some.inj h
      refine onConn_steps cr (fun c hc huid => ?_) (.skip cr rfl (not_logsIn cr (by simp)))
      subst huid
      exact .of_alone cr rfl (not_logsIn cr (by simp)) (flush_serves c answers rfl (htidy.row hc))
  | accept addr now =>
      obtain rfl := Option.some.inj h
      unfold Server.acceptNew
      split
      · exact .skip cr rfl (not_logsIn cr (by simp))
      · refine ⟨⟨s.conns, _, rfl, Evolves.rfl fun d _ => (Bystander.refl d).step, .one _ rfl ?_ rfl⟩, rfl,
          fun ⟨d, hd, hin⟩ => absurd hin (not_logsIn cr (by simp) d hd), fun _ => ⟨rfl, rfl⟩⟩
        exact ⟨rfl, .inl rfl, rfl, rfl, rfl, rfl⟩
  | expire uid now io =>
      obtain rfl := Option.some.inj h
      refine onConn_steps cr (fun c hc huid => ?_) (.skip cr rfl (not_logsIn cr (by simp)))
      subst huid
      exact .of_alone cr rfl (not_logsIn cr (by simp)) (expire_serves (htidy.row hc) now io rfl)
  | pump uid f now schedule io =>
      dsimp only at h
      cases hfind : s.find uid with
      | none =>
          rw [hfind] at h
          obtain rfl := Option.some.inj h
          exact .skip cr rfl (not_logsIn cr (by simp))
      | some c =>
          rw [hfind] at h
          obtain ⟨hc, rfl⟩ := find_spec hfind
          obtain ⟨hrows, hbooks⟩ := pump_steps cr plat (htidy.row hc) f now schedule rfl h
          exact .of_books cr rfl (alone_steps cr hrows) hbooks (not_logsIn cr (by simp))
  | pollClipboard now io =>
      obtain rfl := Option.some.inj h
      exact .of_serves cr rfl (pollClipboard_serves cr plat now) (not_logsIn cr (by simp))
  | reap io =>
      obtain rfl := Option.some.inj h
      obtain ⟨hrows, hbooks⟩ := reap_serves cr plat s io
      have hcfg : (s.reap cr plat io).cfg = s.cfg := congrArg Books.cfg hbooks
      exact ⟨⟨_, [], (List.append_nil _).symm, hrows.imp fun _ _ => Bystander.step,
        .nobody (congrArg Books.nextUid hbooks)⟩,
        by rw [hcfg], fun ⟨d, hd, hin⟩ => absurd hin (not_logsIn cr (by simp) d hd),
        fun _ => ⟨congrArg Books.logins hbooks, congrArg Books.nextId hbooks⟩⟩
  | maintainRelay now io =>
      obtain rfl := Option.some.inj h
      unfold Server.maintainRelay
      split
      · exact .skip cr rfl (not_logsIn cr (by simp))
      · obtain ⟨new, hconns, hjoins, hcfg, hlogins, hid⟩ := openRelayConn_joins (s := s) cr true [] [] io
        exact ⟨⟨s.conns, new, hconns, Evolves.rfl fun d _ => (Bystander.refl d).step, hjoins⟩, by rw [hcfg],
          fun ⟨d, hd, hin⟩ => absurd hin (not_logsIn cr (by simp) d hd), fun _ => ⟨hlogins, hid⟩⟩

-- Uids stay distinct.
theorem Steps.tidy (htidy : s.Tidy) (h : Steps cr s e s') : s'.Tidy := by
  obtain ⟨rows, new, hconns, hrows, hjoins⟩ := h.rows
  have hcolumn : rows.map Conn.uid = (s.remaining e).map Conn.uid :=
    hrows.column Conn.uid fun a b hab => congrArg Prod.fst hab.identity
  have hsub : ((s.remaining e).map Conn.uid).Sublist (s.conns.map Conn.uid) := by
    refine List.Sublist.map _ ?_
    cases e with
    | reap io => exact List.filter_sublist
    | _ => exact List.Sublist.refl _
  have hused : ∀ uid ∈ rows.map Conn.uid, uid < s.nextUid := by
    intro uid huid
    rw [hcolumn] at huid
    obtain ⟨c, hc, rfl⟩ := List.mem_map.mp (hsub.subset huid)
    exact htidy.used c hc
  have hdistinct : (rows.map Conn.uid).Nodup := hcolumn ▸ htidy.distinct.sublist hsub
  cases hjoins with
  | nobody huid =>
      rw [List.append_nil] at hconns
      refine ⟨hconns ▸ hdistinct, fun c hc => ?_⟩
      rw [huid]
      exact hused _ (List.mem_map_of_mem (hconns ▸ hc))
  | one c huid hnew hnext =>
      constructor
      · rw [hconns, List.map_append, List.map_cons, List.map_nil, List.nodup_append]
        refine ⟨hdistinct, by simp, fun a ha b hb hab => ?_⟩
        rw [List.mem_singleton] at hb
        have := hused a ha
        omega
      · intro d hd
        rw [hconns, List.mem_append, List.mem_singleton] at hd
        rcases hd with hd | rfl
        · have := hused _ (List.mem_map_of_mem hd)
          omega
        · omega

end Server

end TetherDesk.Host
