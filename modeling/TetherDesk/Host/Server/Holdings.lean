import TetherDesk.Host.Server.Apply
import TetherDesk.Host.Server.Files

namespace TetherDesk.Host

open TetherDesk.Net TetherDesk.Secure TetherDesk.Lib.Table

section Rows

variable (cr : Crypto) (c : Conn)

theorem fileSaved_of_type {msg : Bytes} (type : Nat) (hmsg : byteAt msg 0 = UInt8.ofNat type)
    (htype : UInt8.ofNat type ≠ UInt8.ofNat RD_S_FILE_RESULT) : fileSaved msg = false := by
  unfold fileSaved
  rw [hmsg]
  simp [htype]

theorem fileSaved_refused (id : Nat) (text : Bytes) : fileSaved (fileResultMsg id false text) = false := by
  have hfive : byteAt (fileResultMsg id false text) 5 = 0 := rfl
  unfold fileSaved
  rw [hfive]
  simp

theorem fileSaved_saved (id : Nat) (text : Bytes) : fileSaved (fileResultMsg id true text) = true := by
  have hfive : byteAt (fileResultMsg id true text) 5 = 1 := rfl
  have hfirst : byteAt (fileResultMsg id true text) 0 = UInt8.ofNat RD_S_FILE_RESULT := rfl
  unfold fileSaved
  rw [hfive, hfirst]
  simp

theorem screened_holding (screen : Screen) : ({ c with toScreen := screen } : Conn).holding = c.holding := rfl

theorem wsFrame_holding (opcode : Nat) (p mask : Bytes) : (c.wsFrame opcode p mask).holding = c.holding := by
  unfold Conn.wsFrame
  split <;> rfl

theorem sendMsg_holding (msg mask : Bytes) (h : fileSaved msg = false) : (c.sendMsg cr msg mask).holding =
    c.holding := by
  cases hdead : c.dead with
  | true => rw [Conn.sendMsg_dead cr c msg mask hdead]
  | false =>
      obtain ⟨out, sendCtr, hsent⟩ := Conn.sendMsg_alive cr c msg mask hdead
      rw [hsent]
      unfold Conn.holding
      dsimp only
      rw [List.filter_append, List.filter_cons_of_neg (by simp [h]), List.filter_nil, List.append_nil]

theorem sendMsg_saved (msg mask : Bytes) (h : fileSaved msg = true) (halive : c.dead = false) :
    (c.sendMsg cr msg mask).holding = { c.holding with saved := c.holding.saved ++ [msg] } := by
  obtain ⟨out, sendCtr, hsent⟩ := Conn.sendMsg_alive cr c msg mask halive
  rw [hsent]
  unfold Conn.holding
  dsimp only
  rw [List.filter_append, List.filter_cons_of_pos h, List.filter_nil]

theorem noticeMsg_unsaved (text : Bytes) : fileSaved (noticeMsg text) = false :=
  fileSaved_of_type RD_S_NOTICE rfl (by decide)

theorem authResultMsg_unsaved (ok vo : Bool) (text : Bytes) : fileSaved (authResultMsg ok vo text) = false :=
  fileSaved_of_type RD_S_AUTH_RESULT rfl (by decide)

theorem displayInfoMsg_unsaved (info : ScreenInfo) : fileSaved (displayInfoMsg info) = false :=
  fileSaved_of_type RD_S_DISPLAY_INFO rfl (by decide)

theorem chatMsg_unsaved (sender text : Bytes) : fileSaved (chatMsg sender text) = false :=
  fileSaved_of_type RD_S_CHAT rfl (by decide)

theorem clipboardMsg_unsaved (text : Bytes) : fileSaved (clipboardMsg text) = false :=
  fileSaved_of_type RD_S_CLIPBOARD rfl (by decide)

theorem frameMessage_unsaved (id : Nat) (full : Bool) (tiles : Nat) (records : Bytes) :
    fileSaved (frameMessage id full tiles records) = false :=
  fileSaved_of_type RD_S_FRAME (by simp [frameMessage_eq, putU8, byteAt]) (by decide)

theorem helloMsg_unsaved (cfg : ServerConfig) (osName nonce se : Bytes) :
    fileSaved (helloMsg cfg osName nonce se) = false :=
  fileSaved_of_type RD_S_HELLO (by simp [helloMsg, putU8, byteAt]) (by decide)

theorem incompatible_holding (mask : Bytes) : (c.incompatible cr mask).holding = c.holding :=
  sendMsg_holding cr c _ mask (authResultMsg_unsaved _ _ _)

theorem refuse_holding (why mask : Bytes) : (c.refuse cr why mask).holding = c.holding :=
  sendMsg_holding cr c _ mask (authResultMsg_unsaved _ _ _)

theorem kicked_holding (mask : Bytes) : (c.kicked cr mask).holding = c.holding :=
  sendMsg_holding cr c _ mask (noticeMsg_unsaved _)

theorem authenticated_holding (cfg : ServerConfig) (id now : Nat) (mask : Bytes) :
    (c.authenticated cr cfg id now mask).holding = c.holding := by
  unfold Conn.authenticated
  exact sendMsg_holding cr _ _ mask (authResultMsg_unsaved _ _ _)

theorem closing_holding (data mask : Bytes) : (c.closing data mask).holding = c.holding :=
  wsFrame_holding c RD_WS_CLOSE (data.take 2) mask

theorem hello_holding {σ : Type} (plat : Platform σ) (cfg : ServerConfig) (r : Reader) (io : Io) :
    (c.hello cr plat cfg r io).holding = c.holding := by
  unfold Conn.hello
  generalize readClientHello r = h
  dsimp only
  cases h.ce with
  | none => exact incompatible_holding cr _ _
  | some ce =>
      dsimp only
      split
      · exact incompatible_holding cr _ _
      · cases keyAgreement cr cfg ce io with
        | none => rfl
        | some dh => exact sendMsg_holding cr _ _ _ (helloMsg_unsaved _ _ _ _)

theorem flush_holding (answers : List SockAnswer) : (c.flush answers).holding = c.holding := by
  obtain ⟨o, h, hsent⟩ := c.flush_eq answers
  rw [h]
  unfold Conn.holding
  dsimp only
  rw [hsent]

theorem frameAck_holding (id : Nat) : (c.frameAck id).holding = c.holding := by
  rw [frameAck_eq]
  exact screened_holding c _

theorem fitShadow_holding (f : Frame) (info : ScreenInfo) (mask : Bytes) :
    (c.fitShadow cr f info mask).holding = c.holding := by
  unfold Conn.fitShadow
  split
  · exact (sendMsg_holding cr _ _ mask (displayInfoMsg_unsaved info)).trans (screened_holding c _)
  · rfl

theorem encodeFrame_holding {c' : Conn} (f : Frame) (now : Nat) (changed : Bool) (budget : Int) (threads : Nat)
    (schedule : List Nat) (mask : Bytes)
    (h : c.encodeFrame cr f now changed budget threads schedule mask = some c') :
    c'.holding = c.holding := by
  unfold Conn.encodeFrame at h
  obtain ⟨st, -, rfl⟩ := Option.map_eq_some_iff.mp h
  dsimp only
  split
  · exact screened_holding c _
  · exact (sendMsg_holding cr _ _ mask (frameMessage_unsaved _ _ _ _)).trans (screened_holding c _)

theorem maybeSendFrame_holding {c' : Conn} (f : Option Frame) (now : Nat) (info : ScreenInfo) (threads : Nat)
    (schedule : List Nat) (masks : Nat → Bytes)
    (h : c.maybeSendFrame cr f now info threads schedule masks = some c') :
    c'.holding = c.holding := by
  cases f with
  | none => rw [← Option.some.inj h]
  | some f =>
      refine Eq.trans ?_ (fitShadow_holding cr c f info (masks 0))
      obtain ⟨lastChangeUs, stalls, rfl⟩ | ⟨lastChangeUs, changed, budget, -, h⟩ :=
        Conn.offerFrame_cases cr _ c' f now threads
        schedule (masks 1) h
      · exact screened_holding _ _
      · exact (encodeFrame_holding cr _ f now changed budget threads schedule (masks 1) h).trans
          (screened_holding _ _)

theorem adaptQuality_holding (now : Nat) : (c.adaptQuality now).holding = c.holding := by
  obtain ⟨cleanWindows, effFps, quality, stalls, sends, adaptWindowUs, h, -⟩ := c.adaptQuality_eq now
  rw [h]
  exact screened_holding c _

end Rows

section Basics

variable {σ : Type} (cr : Crypto) {plat : Platform σ} (fs : HostFiles plat) (s : Server σ) {s' s'' : Server σ}

theorem Kept.refl (s : Server σ) : Kept fs s s := ⟨rfl, rfl⟩

theorem Kept.trans {fs : HostFiles plat} {s : Server σ} (h₁ : Kept fs s s') (h₂ : Kept fs s' s'') : Kept fs s s'' :=
  ⟨h₂.rows.trans h₁.rows, h₂.view.trans h₁.view⟩

-- A step that leaves the connections alone.
theorem Kept.of_conns (hconns : s'.conns = s.conns) (hview : fs.view s'.os = fs.view s.os) : Kept fs s s' :=
  ⟨congrArg (List.map Conn.holding) hconns, hview⟩

theorem os_kept (os : σ) (h : fs.view os = fs.view s.os) : Kept fs s { s with os := os } := .of_conns fs s rfl h

theorem modify_kept (uid : Nat) (f : Conn → Conn) (h : ∀ c ∈ s.conns, c.uid = uid → (f c).holding = c.holding) :
    Kept fs s (s.modify uid f) := by
  refine ⟨?_, rfl⟩
  unfold Server.holdings Server.modify
  rw [List.map_map]
  refine List.map_congr_left fun c hc => ?_
  by_cases huid : c.uid = uid
  · simpa [huid] using h c hc huid
  · simp [huid]

theorem sendTo_kept (uid : Nat) (msg mask : Bytes) (h : fileSaved msg = false) :
    Kept fs s (s.sendTo cr uid msg mask) :=
  modify_kept fs s uid _ fun c _ _ => sendMsg_holding cr c msg mask h

theorem broadcast_kept (msg : Bytes) (skip : Option Nat) (controlOnly : Bool) (mask : Nat → Bytes)
    (h : fileSaved msg = false) :
    Kept fs s (s.broadcast cr msg skip controlOnly mask) := by
  refine ⟨?_, rfl⟩
  unfold Server.holdings Server.broadcast
  rw [List.map_map]
  refine List.map_congr_left fun c _ => ?_
  dsimp only [Function.comp]
  split
  · exact sendMsg_holding cr c msg _ h
  · rfl

theorem notice_kept (text : Bytes) (skip : Option Nat) (mask : Nat → Bytes) :
    Kept fs s (s.notice cr text skip mask) :=
  broadcast_kept cr fs s _ skip false mask (noticeMsg_unsaved text)

theorem broadcastViewers_kept (mask : Nat → Bytes) : Kept fs s (s.broadcastViewers cr mask) :=
  broadcast_kept cr fs s _ none false mask (fileSaved_of_type RD_S_VIEWERS rfl (by decide))

theorem closeConn_kept (c : Conn) (reason : Bytes) : Kept fs s (s.closeConn c reason) := by
  unfold Server.closeConn
  split
  · exact .refl fs s
  · split
    · exact (Kept.of_conns fs s rfl rfl : Kept fs s (s.log _)).trans
        (modify_kept fs _ c.uid Conn.close fun _ _ _ => rfl)
    · exact modify_kept fs s c.uid Conn.close fun _ _ _ => rfl

theorem screenInfo_view : fs.view (s.screenInfo plat).2 = fs.view s.os := fs.latest s.os

theorem sendDisplayInfo_kept (uid : Nat) (mask : Bytes) : Kept fs s (s.sendDisplayInfo cr plat uid mask) := by
  exact (os_kept fs s _ (screenInfo_view fs s)).trans (modify_kept fs _ uid _ fun c _ _ =>
    sendMsg_holding cr c _ mask (displayInfoMsg_unsaved _))

theorem switchDisplay_kept (index : Int) (mask : Nat → Bytes) : Kept fs s (s.switchDisplay cr plat index mask) := by
  have hstart := fs.start s.os index s.cfg.maxFps
  unfold Server.switchDisplay
  split
  · exact .refl fs s
  generalize plat.capturer.start s.os index s.cfg.maxFps = r at hstart ⊢
  obtain ⟨err, os⟩ := r
  cases err with
  | some err =>
      exact ((os_kept fs s os hstart).trans (notice_kept cr fs _ _ none mask)).trans
        (.of_conns fs _ rfl (fs.start _ _ _))
  | none =>
      have hview : fs.view (plat.capturer.displays os).2 = fs.view s.os := (fs.displays os).trans hstart
      refine Kept.trans (Kept.mk ?_ hview) (notice_kept cr fs _ _ none mask)
      unfold Server.holdings
      dsimp only
      rw [List.map_map]
      refine List.map_congr_left fun c _ => ?_
      dsimp only [Function.comp]
      split <;> rfl

end Basics

section SessionMessages

variable {σ : Type} (cr : Crypto) {plat : Platform σ} (fs : HostFiles plat) (s : Server σ) (c : Conn)
  (r : Reader) (io : Io)

theorem settings_kept : Kept fs s (s.settings cr plat c r io) := by
  unfold Server.settings
  generalize rdGetU8 r = b₁
  obtain ⟨q, r₁⟩ := b₁
  dsimp only
  generalize rdGetU8 r₁ = b₂
  obtain ⟨fps, r₂⟩ := b₂
  dsimp only
  generalize rdGetU8 r₂ = b₃
  obtain ⟨disp, r₃⟩ := b₃
  dsimp only
  split
  · exact .refl fs s
  generalize (if rdRemaining r₃ ≠ 0 then (rdGetU8 r₃).1 else 255) = res
  have hfirst : Kept fs s (s.modify c.uid fun c => c.applySettings s.cfg.maxFps q fps) :=
    modify_kept fs s c.uid _ fun _ _ _ => rfl
  have hswitched : ∀ t : Server σ, Kept fs s t → Kept fs s
      (if (disp : Int) ≠ plat.capturer.currentDisplay t.os then
        if !c.viewOnly then t.switchDisplay cr plat disp (io.mask 2)
        else t.sendTo cr c.uid (noticeMsg (ascii "View-only viewers can't switch displays")) (io.mask 3 c.uid)
      else t) := by
    intro t ht
    split
    · split
      · exact ht.trans (switchDisplay_kept cr fs t _ _)
      · exact ht.trans (sendTo_kept cr fs t _ _ _ (noticeMsg_unsaved _))
    · exact ht
  refine hswitched _ ?_
  split
  · refine Kept.trans ?_ (notice_kept cr fs _ _ none _)
    refine Kept.trans ?_ (switchDisplay_kept cr fs _ _ _)
    exact hfirst.trans (.of_conns fs _ rfl (fs.setHighResolution _ _))
  · exact hfirst

theorem pointer_kept : Kept fs s (s.pointer plat c r) := by
  unfold Server.pointer
  dsimp only
  split
  · exact .refl fs s
  · exact (os_kept fs s _ (fs.pointer _ _ _ _ _ _)).trans (modify_kept fs _ c.uid _ fun _ _ _ => rfl)

theorem key_kept : Kept fs s (s.key plat c r) := by
  unfold Server.key
  dsimp only
  split
  · exact .refl fs s
  · exact (os_kept fs s _ (fs.key _ _ _)).trans (modify_kept fs _ c.uid _ fun _ _ _ => rfl)

theorem clipboard_kept : Kept fs s (s.clipboard cr plat c r io) := by
  unfold Server.clipboard
  generalize rdGetBlob r = b
  obtain ⟨text, r⟩ := b
  cases text with
  | none => exact .refl fs s
  | some text =>
      dsimp only
      split
      · exact .refl fs s
      split
      · exact .refl fs s
      · refine Kept.trans ?_ (broadcast_kept cr fs _ _ _ true _ (clipboardMsg_unsaved text))
        exact .of_conns fs s rfl ((fs.changeCount _).trans (fs.setText _ _))

theorem chat_kept : Kept fs s (s.chat cr c r io) := by
  unfold Server.chat
  dsimp only
  split
  · exact .refl fs s
  · refine Kept.trans ?_ (broadcast_kept cr fs _ _ _ false _ (chatMsg_unsaved _ _))
    exact .of_conns fs s rfl rfl

end SessionMessages

section Events

variable {σ : Type} (cr : Crypto) {plat : Platform σ} (fs : HostFiles plat) {s : Server σ} {c c₂ : Conn} (io : Io)

theorem put_kept (hrow : ∀ d ∈ s.conns, d.uid = c.uid → d = c) (h : c₂.holding = c.holding) :
    Kept fs s (s.modify c.uid fun _ => c₂) :=
  modify_kept fs s c.uid _ fun d hd huid => by rw [hrow d hd huid, h]

theorem log_kept (text : Bytes) : Kept fs s (s.log text) := .of_conns fs s rfl rfl

theorem flush_kept (answers : List SockAnswer) : Kept fs s (s.flush c answers) := by
  have hflush : ∀ t : Server σ, Kept fs s t → Kept fs s (t.modify c.uid fun c => c.flush answers) := fun t ht =>
    ht.trans (modify_kept fs t c.uid _ fun d _ _ => flush_holding d answers)
  unfold Server.flush
  split
  · exact hflush _ (log_kept fs _)
  · exact hflush s (.refl fs s)

theorem tcpReady_kept (hrow : ∀ d ∈ s.conns, d.uid = c.uid → d = c) (ok : Bool) (tls : Option TlsOut)
    (answers : List SockAnswer) : Kept fs s (s.tcpReady c ok tls answers) := by
  have hput : Kept fs s (s.modify c.uid fun _ => { c with tcpPending := false }) := put_kept fs hrow rfl
  unfold Server.tcpReady
  split
  · exact closeConn_kept fs s c _
  dsimp only
  split
  · cases tls with
    | none => exact hput.trans (closeConn_kept fs _ _ _)
    | some t => exact hput.trans (modify_kept fs _ c.uid _ fun _ _ _ => rfl)
  · exact hput.trans (flush_kept fs answers)

theorem handshake_kept (hrow : ∀ d ∈ s.conns, d.uid = c.uid → d = c) (rc : Int) (err : Bytes)
    (answers : List SockAnswer) :
    Kept fs s (s.handshake c rc err answers) := by
  unfold Server.handshake
  split
  · split
    · exact (log_kept fs _).trans (closeConn_kept fs _ c _)
    · exact closeConn_kept fs s c _
  split
  · exact .refl fs s
  · have hput : Kept fs s (s.modify c.uid fun _ => { c with tlsHandshaking := false }) := put_kept fs hrow rfl
    exact hput.trans (flush_kept fs answers)

theorem received_kept (data : Bytes) (now : Nat) : Kept fs s (s.received c data now) := by
  unfold Server.received
  split
  · exact .refl fs s
  · exact modify_kept fs s c.uid _ fun _ _ _ => rfl

theorem recvFailed_kept (data : Bytes) : Kept fs s (s.recvFailed c data) :=
  (modify_kept fs s c.uid (fun c => { c with inn := c.inn ++ data }) fun _ _ _ => rfl).trans
    (closeConn_kept fs _ c _)

theorem finishRelayUpgrade_kept : Kept fs s (s.finishRelayUpgrade c) := by
  unfold Server.finishRelayUpgrade
  cases (findSub headerEnd c.inn).filter (· ≠ 0) with
  | none =>
      dsimp only
      split
      · exact closeConn_kept fs s c _
      · exact .refl fs s
  | some k =>
      have hconsumed : Kept fs s (s.modify c.uid fun c => { c with inn := rdBufConsume c.inn (k + 4) }) :=
        modify_kept fs s c.uid _ fun _ _ _ => rfl
      dsimp only
      split
      · split
        · exact hconsumed.trans (.of_conns fs _ rfl rfl)
        · split
          · exact hconsumed.trans ((log_kept fs _).trans (closeConn_kept fs _ c _))
          · exact hconsumed.trans (closeConn_kept fs _ c _)
      split
      · refine hconsumed.trans (Kept.trans ?_ (log_kept fs _))
        refine Kept.trans ?_ (modify_kept fs _ c.uid (fun c => { c with state := .RelayCtl }) fun _ _ _ => rfl)
        exact .of_conns fs _ rfl rfl
      · exact hconsumed.trans (modify_kept fs _ c.uid (fun c => { c with state := .Hello }) fun _ _ _ => rfl)

theorem expire_kept (now : Nat) : Kept fs s (s.expire c now io) := by
  unfold Server.expire
  split
  · exact .refl fs s
  split
  · split
    · exact closeConn_kept fs s c _
    split
    · exact modify_kept fs s c.uid _ fun _ _ _ => (wsFrame_holding _ _ _ _).trans rfl
    · exact .refl fs s
  split
  · exact closeConn_kept fs s c _
  split
  · exact closeConn_kept fs s c _
  · exact .refl fs s

theorem pump_kept {s' : Server σ} (hrow : ∀ d ∈ s.conns, d.uid = c.uid → d = c) (f : Option Frame) (now : Nat)
    (schedule : List Nat) (h : s.pump cr plat c f now schedule io = some s') : Kept fs s s' := by
  unfold Server.pump at h
  split at h
  · rw [← Option.some.inj h]
    exact .refl fs s
  have hview := screenInfo_view fs s
  generalize s.screenInfo plat = r at h hview
  obtain ⟨info, os⟩ := r
  dsimp only at h hview
  generalize (f.any fun f => f.width ≠ c.shadowW ∨ f.height ≠ c.shadowH) = resized at h
  obtain ⟨c', hc', rfl⟩ := Option.map_eq_some_iff.mp h
  have hos : fs.view (if resized = true then os else s.os) = fs.view s.os := by
    split
    · exact hview
    · rfl
  refine (os_kept fs s _ hos).trans (put_kept fs hrow ?_)
  exact (adaptQuality_holding c' now).trans (maybeSendFrame_holding cr c f now info s.pool schedule _ hc')

theorem pollClipboard_kept (now : Nat) : Kept fs s (s.pollClipboard cr plat now io) := by
  unfold Server.pollClipboard
  split
  · exact .refl fs s
  extract_lets s₁
  have hcount : fs.view (plat.clipboard.changeCount s₁.os).2 = fs.view s.os := fs.changeCount s.os
  generalize plat.clipboard.changeCount s₁.os = r at hcount ⊢
  obtain ⟨cc, os⟩ := r
  dsimp only at hcount ⊢
  split
  · exact .of_conns fs s rfl hcount
  have htext := fs.getText os
  generalize plat.clipboard.getText os = r at htext ⊢
  obtain ⟨text, os'⟩ := r
  have hview : fs.view os' = fs.view s.os := htext.trans hcount
  cases text with
  | none => exact .of_conns fs s rfl hview
  | some text =>
      dsimp only
      split
      · exact .of_conns fs s rfl hview
      · refine Kept.trans ?_ (broadcast_kept cr fs _ _ none true _ (clipboardMsg_unsaved text))
        exact .of_conns fs s rfl hview

theorem onAuthenticated_kept : Kept fs s (s.onAuthenticated cr plat c io) := by
  unfold Server.onAuthenticated
  refine Kept.trans ?_ (notice_kept cr fs _ _ _ _)
  refine Kept.trans ?_ (broadcastViewers_kept cr fs _ _)
  refine Kept.trans ?_ (log_kept fs _)
  refine Kept.trans ?_ (sendDisplayInfo_kept cr fs _ _ _)
  refine Kept.trans ?_ (modify_kept fs _ c.uid _ fun d _ _ => authenticated_holding cr d _ _ _ _)
  exact .of_conns fs s rfl rfl

theorem kick_kept : Kept fs s (s.kick cr c io) :=
  (modify_kept fs s c.uid _ fun d _ _ => kicked_holding cr d _).trans (log_kept fs _)

theorem toggleViewOnly_kept : Kept fs s (s.toggleViewOnly cr plat c io) := by
  have htoggled : Kept fs s (s.modify c.uid fun d => { d with viewOnly := !c.viewOnly }) :=
    modify_kept fs s c.uid _ fun _ _ _ => rfl
  unfold Server.toggleViewOnly
  refine Kept.trans ?_ (log_kept fs _)
  refine Kept.trans ?_ (broadcastViewers_kept cr fs _ _)
  refine Kept.trans ?_ (sendTo_kept cr fs _ c.uid _ _ (authResultMsg_unsaved _ _ _))
  split
  · exact htoggled.trans (os_kept fs _ _ (fs.releaseAll _))
  · exact htoggled

theorem handleConsoleLine_kept (raw : Bytes) : Kept fs s (s.handleConsoleLine cr plat raw io) := by
  unfold Server.handleConsoleLine
  dsimp only
  split
  · exact .refl fs s
  split
  · exact .of_conns fs s rfl rfl
  split
  · unfold Server.list
    dsimp only
    split
    · exact .of_conns fs s rfl rfl
    · exact .of_conns fs s rfl rfl
  split
  · split
    · exact .of_conns fs s rfl rfl
    · split
      · exact kick_kept cr fs io
      · exact toggleViewOnly_kept cr fs io
  split
  · split
    · exact .of_conns fs s rfl rfl
    · exact .of_conns fs s rfl rfl
  split
  · exact .of_conns fs s rfl rfl
  split
  · exact .of_conns fs s rfl rfl
  · exact broadcast_kept cr fs s _ none false _ (chatMsg_unsaved _ _)

theorem consoleLine_kept : Kept fs s (s.consoleLine cr plat io) := by
  unfold Server.consoleLine
  split
  · refine Kept.trans ?_ (handleConsoleLine_kept cr fs io _)
    exact .of_conns fs s rfl rfl
  · exact .refl fs s

theorem announceLeft_kept (left : List Bytes) : Kept fs s (s.announceLeft cr left io) := by
  have hnotices : ∀ (names : List (Bytes × Nat)) (t : Server σ), Kept fs s t → Kept fs s
      (names.foldl (fun s n => s.notice cr (n.1 ++ ascii " disconnected") none (io.mask (n.2 + 1))) t) := by
    intro names
    induction names with
    | nil => exact fun t ht => ht
    | cons n names ih => exact fun t ht => ih _ (ht.trans (notice_kept cr fs t _ none _))
  unfold Server.announceLeft
  split
  · exact .refl fs s
  · exact hnotices _ _ (broadcastViewers_kept cr fs s (io.mask 0))

end Events

end TetherDesk.Host
