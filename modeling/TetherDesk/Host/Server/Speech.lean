import TetherDesk.Host.Server.Apply

namespace TetherDesk.Net

-- What is under assembly is a message with data.
def WsReader.Plain (r : WsReader) : Prop := ∀ opcode, r.assemblyOpcode = some opcode → opcode < 8

theorem wsAssemble_plain {r r' : WsReader} {f : WsFrame} (hplain : r.Plain) (hdata : f.opcode < 8)
    (h : wsAssemble r f = some r') : r'.Plain := by
  have happended : ∀ r₁ : WsReader, r₁.Plain →
      (if r₁.assembly.length + f.payload.length > r₁.maxMessage then none
        else some { r₁ with assembly := r₁.assembly ++ f.payload }) = some r' → r'.Plain := by
    intro r₁ h₁ h
    split at h
    · cases h
    · obtain rfl := Option.some.inj h
      exact h₁
  unfold wsAssemble at h
  dsimp only at h
  split at h
  · cases h
  · next r₁ hstarted =>
      refine happended r₁ ?_ h
      split at hstarted
      · split at hstarted
        · cases hstarted
        · exact Option.some.inj hstarted ▸ hplain
      · split at hstarted
        · cases hstarted
        · split at hstarted
          · cases hstarted
          · rw [← Option.some.inj hstarted]
            exact fun _ ho => Option.some.inj ho ▸ hdata

-- A control frame is handed out only when it is short.
theorem wsNextLoop_plain (fuel : Nat) {r : WsReader} (hplain : r.Plain) (inn : Bytes) :
    (wsNextLoop fuel r inn).2.1.Plain ∧
      ∀ m, (wsNextLoop fuel r inn).1 = .got m → 8 ≤ m.opcode → m.data.length ≤ 125 := by
  induction fuel generalizing r inn with
  | zero => exact ⟨hplain, fun m h => by cases h⟩
  | succ fuel ih =>
      unfold wsNextLoop
      generalize wsParse r inn = parse
      cases parse with
      | more => exact ⟨hplain, fun m h => by cases h⟩
      | error => exact ⟨hplain, fun m h => by cases h⟩
      | frame f =>
          dsimp only
          by_cases hcontrol : f.opcode ≥ 0x8
          · rw [if_pos hcontrol]
            split
            · exact ⟨hplain, fun m h => by cases h⟩
            · next hshort =>
                refine ⟨hplain, fun m h _ => ?_⟩
                rw [← WsNext.got.inj h]
                exact Nat.le_of_not_lt fun hlong => hshort (.inr hlong)
          rw [if_neg hcontrol]
          cases hassembled : wsAssemble r f with
          | none => exact ⟨hplain, fun m h => by cases h⟩
          | some r' =>
              have hplain' := wsAssemble_plain hplain (by omega) hassembled
              dsimp only
              split
              · refine ⟨fun _ ho => (by cases ho), fun m h hlarge => ?_⟩
                rw [← WsNext.got.inj h] at hlarge
                dsimp only at hlarge
                cases ho : r'.assemblyOpcode with
                | none =>
                    rw [ho] at hlarge
                    cases hlarge
                | some opcode =>
                    have := hplain' opcode ho
                    rw [ho, Option.getD_some] at hlarge
                    omega
              · exact ih hplain' (rdBufConsume inn f.size)

-- A reader later on: its limit and its role stay.
structure WsReader.Kept (r r' : WsReader) : Prop where
  plain : r.Plain → r'.Plain
  limit : r'.maxMessage = r.maxMessage
  role : r'.expectMasked = r.expectMasked

theorem WsReader.Kept.refl (r : WsReader) : r.Kept r := ⟨fun h => h, rfl, rfl⟩

theorem WsReader.Kept.trans {a b c : WsReader} (h₁ : a.Kept b) (h₂ : b.Kept c) : a.Kept c :=
  ⟨fun h => h₂.plain (h₁.plain h), h₂.limit.trans h₁.limit, h₂.role.trans h₁.role⟩

theorem wsNextLoop_kept (fuel : Nat) (r : WsReader) (inn : Bytes) : r.Kept (wsNextLoop fuel r inn).2.1 :=
  ⟨fun h => (wsNextLoop_plain fuel h inn).1, (wsNextLoop_limit fuel r inn).1, wsNextLoop_role fuel r inn⟩

end TetherDesk.Net

namespace TetherDesk.Host

open TetherDesk.Net TetherDesk.Secure TetherDesk.Lib.Table

-- Past its request, and not about to be closed.
def Conn.Speaking (c : Conn) : Prop := c.state ≠ .Http ∧ c.state ≠ .Closing

-- What can happen to the sending side of a connection that goes on: something else
-- changes, a message is given to send_msg, a PING or PONG is queued, the queue is
-- sent, the link to the relay comes up, the keys are agreed on.
inductive Utters (cr : Crypto) : Conn → Conn → Prop
  | aside {c c' : Conn}
      (out : c'.toOutgoing = { c.toOutgoing with closeAfterFlush := c'.closeAfterFlush, dead := c'.dead })
      (closing : c.closeAfterFlush = true → c'.closeAfterFlush = true) (ch : c'.ch =
        { c.ch with recvCtr := c'.ch.recvCtr })
      (uid : c'.uid = c.uid) (reader : c.ws.Kept c'.ws)
      (later : c'.state = c.state ∨ c.Speaking ∧ c'.state = .Active) : Utters cr c c'
  | told {c : Conn} (msg mask : Bytes) (speaking : c.Speaking) : Utters cr c (c.sendMsg cr msg mask)
  | control {c : Conn} (opcode : Nat) (payload mask : Bytes) (speaking : c.Speaking)
      (kind : opcode = RD_WS_PING ∨ opcode = RD_WS_PONG) (short : c.ws.Plain → payload.length ≤ 125) :
      Utters cr c (c.wsFrame opcode payload mask)
  | flushed {c : Conn} (answers : List SockAnswer) : Utters cr c (c.flush answers)
  | linked {c c' : Conn} (relay : c.tcpPending = true ∨ c.tlsHandshaking = true ∨ c.state = .RelayUpgrade)
      (uid : c'.uid = c.uid) (client : c'.clientWs = c.clientWs) (reader : c.ws.Kept c'.ws)
      (speaking : c.Speaking → c'.Speaking) : Utters cr c c'
  | keyed {c : Conn} (t dh1 dh2 : Bytes) (state : c.state = .Hello) :
      Utters cr c { c with ch := rdHsKeys cr dh1 dh2 t true, state := .Auth }
  | trans {a b c : Conn} (first : Utters cr a b) (then_ : Utters cr b c) : Utters cr a c

-- The end of a connection: the host stops talking to it, or answers its CLOSE.
inductive Says (cr : Crypto) : Conn → Conn → Prop
  | goes {c c' : Conn} (h : Utters cr c c') : Says cr c c'
  | ends {c c' : Conn} (h : Utters cr c c') (speaking : c'.Speaking) :
      Says cr c { c' with state := .Closing, closeAfterFlush := true }
  | closes {c c' : Conn} (h : Utters cr c c') (speaking : c'.Speaking) (payload mask : Bytes)
      (short : payload.length ≤ 125) :
      Says cr c { c'.wsFrame RD_WS_CLOSE payload mask with state := .Closing, closeAfterFlush := true }

section Rows

variable (cr : Crypto) (c : Conn)

theorem Utters.refl (c : Conn) : Utters cr c c := .aside rfl (fun h => h) rfl rfl (.refl _) (.inl rfl)

variable {cr c}

theorem flush_aside (c : Conn) (answers : List SockAnswer) :
    (c.flush answers).uid = c.uid ∧ (c.flush answers).state = c.state ∧ (c.flush answers).ws = c.ws := by
  obtain ⟨o, h, -⟩ := c.flush_eq answers
  rw [h]
  exact ⟨rfl, rfl, rfl⟩

theorem wsFrame_aside (c : Conn) (opcode : Nat) (p mask : Bytes) :
    (c.wsFrame opcode p mask).uid = c.uid ∧ (c.wsFrame opcode p mask).state = c.state ∧
      (c.wsFrame opcode p mask).ws = c.ws := by
  obtain ⟨more, h⟩ := c.wsFrame_eq opcode p mask
  rw [h]
  exact ⟨rfl, rfl, rfl⟩

theorem sendMsg_aside (cr : Crypto) (c : Conn) (msg mask : Bytes) :
    (c.sendMsg cr msg mask).uid = c.uid ∧ (c.sendMsg cr msg mask).state = c.state ∧
      (c.sendMsg cr msg mask).ws = c.ws := by
  unfold Conn.sendMsg
  split
  · exact ⟨rfl, rfl, rfl⟩
  · dsimp only
    split
    · exact wsFrame_aside _ _ _ _
    · split
      · exact wsFrame_aside _ _ _ _
      · exact ⟨rfl, rfl, rfl⟩

-- A connection keeps its name and goes on talking.
theorem Utters.kept {c' : Conn} (h : Utters cr c c') :
    c'.uid = c.uid ∧ (c.Speaking → c'.Speaking) ∧ c.ws.Kept c'.ws := by
  induction h with
  | aside _ _ _ uid reader later =>
      refine ⟨uid, fun hspeaking => ?_, reader⟩
      unfold Conn.Speaking
      rcases later with h | ⟨-, h⟩ <;> rw [h]
      · exact hspeaking
      · exact ⟨by decide, by decide⟩
  | @told c msg mask _ =>
      obtain ⟨hid, hstate, hws⟩ := sendMsg_aside cr c msg mask
      exact ⟨hid, fun h => by rwa [Conn.Speaking, hstate], hws ▸ .refl _⟩
  | @control c opcode payload mask =>
      obtain ⟨hid, hstate, hws⟩ := wsFrame_aside c opcode payload mask
      exact ⟨hid, fun h => by rwa [Conn.Speaking, hstate], hws ▸ .refl _⟩
  | @flushed c answers =>
      obtain ⟨hid, hstate, hws⟩ := flush_aside c answers
      exact ⟨hid, fun h => by rwa [Conn.Speaking, hstate], hws ▸ .refl _⟩
  | linked _ uid _ reader speaking => exact ⟨uid, speaking, reader⟩
  | keyed => exact ⟨rfl, fun _ => ⟨by simp, by simp⟩, .refl _⟩
  | trans _ _ ih₁ ih₂ =>
      exact ⟨ih₂.1.trans ih₁.1, fun h => ih₂.2.1 (ih₁.2.1 h), ih₁.2.2.trans ih₂.2.2⟩

theorem Utters.screened (screen : Screen) : Utters cr c { c with toScreen := screen } :=
  .aside rfl (fun h => h) rfl rfl (.refl _) (.inl rfl)

-- Messages with what is set beside them.
theorem refuse_tells (why mask : Bytes) (h : c.Speaking) : Says cr c (c.refuse cr why mask) := by
  have htold : Utters cr c (c.sendMsg cr (authResultMsg false false why) mask) := .told _ mask h
  exact .ends htold (htold.kept.2.1 h)

theorem kicked_tells (mask : Bytes) (h : c.Speaking) : Says cr c (c.kicked cr mask) := by
  have htold : Utters cr c (c.sendMsg cr (noticeMsg (ascii "The host disconnected you")) mask) := .told _ mask h
  exact .ends htold (htold.kept.2.1 h)

theorem closing_tells (data mask : Bytes) (h : c.Speaking) : Says cr c (c.closing data mask) := by
  refine .closes (.refl cr c) h (data.take 2) mask ?_
  rw [List.length_take]
  omega

theorem incompatible_utters (mask : Bytes) (h : c.Speaking) : Utters cr c (c.incompatible cr mask) :=
  (Utters.told _ mask h).trans (.aside rfl (fun _ => rfl) rfl rfl (.refl _) (.inl rfl))

theorem authenticated_utters (cfg : ServerConfig) (id now : Nat) (mask : Bytes) (h : c.Speaking) :
    Utters cr c (c.authenticated cr cfg id now mask) := by
  have hactive : Utters cr c { c with
      state := .Active
      id := id
      viewOnly := cfg.viewOnly
      fps := cfg.maxFps
      effFps := cfg.maxFps
      needFull := true
      adaptWindowUs := now
      everAuthed := true } := .aside rfl (fun h => h) rfl rfl (.refl _) (.inr ⟨h, rfl⟩)
  refine hactive.trans (.told _ mask ?_)
  exact ⟨by simp, by simp⟩

theorem hello_utters {σ : Type} (plat : Platform σ) (cfg : ServerConfig) (r : Reader) (io : Io)
    (h : c.state = .Hello) :
    Utters cr c (c.hello cr plat cfg r io) := by
  have hspeaking : c.Speaking := by
    rw [Conn.Speaking, h]
    exact ⟨by decide, by decide⟩
  have hnamed : ∀ name nonce transcript,
      Utters cr c { c with name := name, nonce := nonce, transcript := transcript } :=
    fun _ _ _ => .aside rfl (fun h => h) rfl rfl (.refl _) (.inl rfl)
  unfold Conn.hello
  generalize readClientHello r = m
  dsimp only
  cases m.ce with
  | none => exact (hnamed m.name c.nonce c.transcript).trans (incompatible_utters _ hspeaking)
  | some ce =>
      dsimp only
      split
      · exact (hnamed m.name c.nonce c.transcript).trans (incompatible_utters _ hspeaking)
      · cases keyAgreement cr cfg ce io with
        | none => exact .aside rfl (fun h => h) rfl rfl (.refl _) (.inl rfl)
        | some dh =>
            refine (hnamed m.name (io.random 0)
              (rdHsTranscript cr ce cfg.staticPub (rdX25519Base cr (io.random 1)) (io.random 0))).trans ?_
            refine Utters.trans (.told (helloMsg cfg plat.osName (io.random 0) (rdX25519Base cr (io.random 1)))
              (io.mask 0 c.uid) ?_) (.keyed _ dh.1 dh.2 ?_)
            · exact hspeaking
            · exact (sendMsg_aside cr _ _ _).2.1.trans h

theorem fitShadow_utters (f : Frame) (info : ScreenInfo) (mask : Bytes) (h : c.Speaking) :
    Utters cr c (c.fitShadow cr f info mask) := by
  unfold Conn.fitShadow
  split
  · refine Utters.trans (.screened { c.toScreen with
      shadow := List.replicate (f.width * f.height * 4) 0
      shadowW := f.width
      shadowH := f.height
      tileQ := []
      lossyTiles := 0
      needFull := true }) (.told _ mask h)
  · exact .refl cr c

theorem encodeFrame_utters {c' : Conn} (f : Frame) (now : Nat) (changed : Bool) (budget : Int) (threads : Nat)
    (schedule : List Nat) (mask : Bytes) (h : c.encodeFrame cr f now changed budget threads schedule mask = some c')
    (hstate : c.Speaking) : Utters cr c c' := by
  unfold Conn.encodeFrame at h
  obtain ⟨st, -, rfl⟩ := Option.map_eq_some_iff.mp h
  dsimp only
  split
  · exact .screened _
  · exact Utters.trans (.screened _) (.told _ mask hstate)

theorem maybeSendFrame_utters {c' : Conn} (f : Option Frame) (now : Nat) (info : ScreenInfo) (threads : Nat)
    (schedule : List Nat) (masks : Nat → Bytes)
    (h : c.maybeSendFrame cr f now info threads schedule masks = some c')
    (hstate : c.Speaking) : Utters cr c c' := by
  cases f with
  | none =>
      rw [← Option.some.inj h]
      exact .refl cr c
  | some f =>
      have hfit : Utters cr c (c.fitShadow cr f info (masks 0)) := fitShadow_utters f info (masks 0) hstate
      refine hfit.trans ?_
      obtain ⟨lastChangeUs, stalls, rfl⟩ | ⟨lastChangeUs, changed, budget, -, h⟩ :=
        Conn.offerFrame_cases cr _ c' f now threads
        schedule (masks 1) h
      · exact .screened _
      · have hchange : Utters cr (c.fitShadow cr f info (masks 0))
            { c.fitShadow cr f info (masks 0) with lastChangeUs := lastChangeUs } := .screened _
        exact hchange.trans
          (encodeFrame_utters f now changed budget threads schedule (masks 1) h (hfit.kept.2.1 hstate))

theorem adaptQuality_utters (now : Nat) : Utters cr c (c.adaptQuality now) := by
  obtain ⟨cleanWindows, effFps, quality, stalls, sends, adaptWindowUs, h, -⟩ := c.adaptQuality_eq now
  rw [h]
  exact .screened _

end Rows

-- Every connection only says something.
abbrev Speaks {σ : Type} (cr : Crypto) (s s' : Server σ) : Prop := Evolves (Utters cr) s.conns s'.conns

-- The connection of this name may be talked to.
def Past {σ : Type} (uid : Nat) (s : Server σ) : Prop := ∀ d ∈ s.conns, d.uid = uid → d.Speaking

section Basics

variable {σ : Type} {cr : Crypto} (plat : Platform σ) {s s' s'' : Server σ} {uid : Nat}

theorem Speaks.refl (s : Server σ) : Speaks cr s s := Evolves.rfl fun c _ => .refl cr c

theorem Speaks.trans (h₁ : Speaks cr s s') (h₂ : Speaks cr s' s'') : Speaks cr s s'' :=
  h₁.comp (fun _ _ _ h h' => h.trans h') h₂

theorem Speaks.of_conns (h : s'.conns = s.conns) : Speaks cr s s' := by
  unfold Speaks
  rw [h]
  exact Speaks.refl s

theorem Past.speaks (h : Past uid s) (hs : Speaks cr s s') : Past uid s' := by
  intro d hd huid
  obtain ⟨c, hc, hrow⟩ := hs.new_row hd
  exact hrow.kept.2.1 (h c hc (hrow.kept.1.symm.trans huid))

theorem modify_speaks (s : Server σ) (uid : Nat) (f : Conn → Conn)
    (h : ∀ c ∈ s.conns, c.uid = uid → Utters cr c (f c)) :
    Speaks cr s (s.modify uid f) :=
  Evolves.map fun c hc => by
    split
    · next huid => exact h c hc huid
    · exact .refl cr c

theorem sendTo_speaks (s : Server σ) (msg mask : Bytes) (h : Past uid s) : Speaks cr s (s.sendTo cr uid msg mask) :=
  modify_speaks s uid _ fun c hc huid => .told msg mask (h c hc huid)

theorem live_speaking {c : Conn} (h : c.live = true) : c.Speaking := by
  unfold Conn.live at h
  have hactive : c.state = .Active := (show c.state = .Active ∧ _ by simpa using h).1
  rw [Conn.Speaking, hactive]
  exact ⟨by decide, by decide⟩

theorem broadcast_speaks (s : Server σ) (msg : Bytes) (skip : Option Nat) (controlOnly : Bool)
    (mask : Nat → Bytes) :
    Speaks cr s (s.broadcast cr msg skip controlOnly mask) :=
  Evolves.map fun c _ => by
    split
    · next h => exact .told msg _ (live_speaking h.2.1)
    · exact .refl cr c

theorem closeConn_speaks (s : Server σ) (c : Conn) (reason : Bytes) : Speaks cr s (s.closeConn c reason) := by
  have hclose : ∀ t : Server σ, t.conns = s.conns → Speaks cr s (t.modify c.uid Conn.close) := fun t ht =>
    (Speaks.of_conns ht).trans (modify_speaks t c.uid _ fun d _ _ =>
      .aside rfl (fun h => h) rfl rfl (.refl _) (.inl rfl))
  unfold Server.closeConn
  split
  · exact .refl s
  · split
    · exact hclose (s.log _) rfl
    · exact hclose s rfl

theorem sendDisplayInfo_speaks (s : Server σ) (mask : Bytes) (h : Past uid s) :
    Speaks cr s (s.sendDisplayInfo cr plat uid mask) := by
  unfold Server.sendDisplayInfo
  generalize s.screenInfo plat = r
  obtain ⟨info, os⟩ := r
  have hos : Past uid { s with os := os } := h
  exact modify_speaks { s with os := os } uid _ fun c hc huid => .told _ mask (hos c hc huid)

theorem switchDisplay_speaks (s : Server σ) (index : Int) (mask : Nat → Bytes) :
    Speaks cr s (s.switchDisplay cr plat index mask) := by
  unfold Server.switchDisplay
  split
  · exact .refl s
  generalize plat.capturer.start s.os index s.cfg.maxFps = r
  obtain ⟨err, os⟩ := r
  cases err with
  | some err => exact broadcast_speaks { s with os := os } _ none false mask
  | none =>
      dsimp only
      refine Speaks.trans ?_ (broadcast_speaks _ _ none false mask)
      refine Evolves.map fun c _ => ?_
      split
      · exact .screened { c.toScreen with needFull := true, shadowW := 0, shadowH := 0 }
      · exact .refl cr c

end Basics

section SessionMessages

variable {σ : Type} {cr : Crypto} (plat : Platform σ) (s : Server σ) {c : Conn} (r : Reader) (io : Io)

theorem settings_speaks (h : Past c.uid s) : Speaks cr s (s.settings cr plat c r io) := by
  unfold Server.settings
  generalize rdGetU8 r = b₁
  obtain ⟨q, r₁⟩ := b₁
  dsimp only
  generalize rdGetU8 r₁ = b₂
  obtain ⟨fps, r₂⟩ := b₂
  dsimp only
  generalize rdGetU8 r₂ = b₃
  obtain ⟨disp, r₃⟩ := b₃
  dsimp only
  split
  · exact .refl s
  generalize (if rdRemaining r₃ ≠ 0 then (rdGetU8 r₃).1 else 255) = res
  have hfirst : Speaks cr s (s.modify c.uid fun c => c.applySettings s.cfg.maxFps q fps) :=
    modify_speaks s c.uid _ fun _ _ _ => .screened _
  have hswitched : ∀ t : Server σ, Speaks cr s t → Speaks cr s
      (if (disp : Int) ≠ plat.capturer.currentDisplay t.os then
        if !c.viewOnly then t.switchDisplay cr plat disp (io.mask 2)
        else t.sendTo cr c.uid (noticeMsg (ascii "View-only viewers can't switch displays")) (io.mask 3 c.uid)
      else t) := by
    intro t ht
    split
    · split
      · exact ht.trans (switchDisplay_speaks plat t _ _)
      · exact ht.trans (sendTo_speaks t _ _ (h.speaks ht))
    · exact ht
  refine hswitched _ ?_
  split
  · refine Speaks.trans ?_ (broadcast_speaks _ _ none false _)
    refine Speaks.trans ?_ (switchDisplay_speaks plat _ _ _)
    exact hfirst
  · exact hfirst

theorem clipboard_speaks : Speaks cr s (s.clipboard cr plat c r io) := by
  unfold Server.clipboard
  generalize rdGetBlob r = b
  obtain ⟨text, r⟩ := b
  cases text with
  | none => exact .refl s
  | some text =>
      dsimp only
      split
      · exact .refl s
      split
      · exact .refl s
      · exact broadcast_speaks { s with os := _, lastClip := text, clipCount := _ } _ _ true _

theorem chat_speaks : Speaks cr s (s.chat cr c r io) := by
  unfold Server.chat
  dsimp only
  split
  · exact .refl s
  · exact broadcast_speaks (s.print _) _ _ false _

theorem finishUpload_speaks (id : Nat) (ok : Bool) (text mask : Bytes) (h : Past c.uid s) :
    Speaks cr s (s.finishUpload cr plat c id ok text mask) := by
  unfold Server.finishUpload
  cases c.upload id with
  | none => exact .refl s
  | some u =>
      dsimp only
      generalize (if (!ok) = true then _ else _) = os
      have herase : Speaks cr s (({ s with os := os }.log (ascii "upload from " ++ c.name ++ ascii " " ++
          ascii (if ok then "finished" else "failed") ++ ascii ": " ++ text)).modify c.uid fun c =>
            c.eraseUpload id) :=
        modify_speaks _ c.uid _ fun _ _ _ => .aside rfl (fun h => h) rfl rfl (.refl _) (.inl rfl)
      exact herase.trans (sendTo_speaks _ _ _ (h.speaks herase))

theorem uploadChunk_speaks (mask : Bytes) (h : Past c.uid s) : Speaks cr s (s.uploadChunk cr plat c r mask) := by
  unfold Server.uploadChunk
  dsimp only
  split
  · exact .refl s
  cases c.upload (rdGetU32 r).1 with
  | none => exact .refl s
  | some u =>
      dsimp only
      split
      · exact finishUpload_speaks plat s _ _ _ _ h
      generalize (if rdRemaining (rdGetU32 r).2 ≠ 0 then plat.files.fwrite s.os u.file _ else _) = w
      obtain ⟨written, os⟩ := w
      dsimp only
      split
      · exact finishUpload_speaks plat { s with os := os } _ _ _ _ h
      · exact modify_speaks { s with os := os } c.uid _ fun _ _ _ =>
          .aside rfl (fun h => h) rfl rfl (.refl _) (.inl rfl)

theorem uploadEnd_speaks (mask : Bytes) (h : Past c.uid s) : Speaks cr s (s.uploadEnd cr plat c r mask) := by
  unfold Server.uploadEnd
  dsimp only
  split
  · exact .refl s
  cases c.upload (rdGetU32 r).1 with
  | none => exact .refl s
  | some u =>
      dsimp only
      split
      · exact finishUpload_speaks plat s _ _ _ _ h
      · exact finishUpload_speaks plat s _ _ _ _ h

theorem beginUpload_speaks (id size : Nat) (rawName mask : Bytes) (h : Past c.uid s) :
    Speaks cr s (s.beginUpload cr plat c id size rawName mask) := by
  have hreject : ∀ (os : σ) (why : Bytes),
      Speaks cr s (({ s with os := os } : Server σ).sendTo cr c.uid (fileResultMsg id false why) mask) :=
        fun os why =>
    sendTo_speaks { s with os := os } _ mask h
  unfold Server.beginUpload
  dsimp only
  split
  · exact hreject s.os _
  split
  · exact hreject s.os _
  split
  · exact hreject s.os _
  split
  · exact hreject s.os _
  generalize uploadPath _ s.cfg.downloadsDir (safeName rawName) = path
  generalize plat.files.fopen _ path = r
  obtain ⟨file, os⟩ := r
  cases file with
  | none => exact hreject os _
  | some file =>
      exact modify_speaks { s with os := os } c.uid _ fun d _ _ =>
        .aside rfl (fun h => h) rfl rfl (.refl _) (.inl rfl)

theorem fileBegin_speaks (h : Past c.uid s) : Speaks cr s (s.fileBegin cr plat c r io) := by
  unfold Server.fileBegin
  dsimp only
  split
  · exact beginUpload_speaks plat s _ _ _ _ h
  · exact .refl s

theorem handleSessionMessage_speaks (type : Nat) (h : Past c.uid s) :
    Speaks cr s (s.handleSessionMessage cr plat c r io type) := by
  have hquiet : ∀ f : Conn → Conn, (∀ d, Utters cr d (f d)) → Speaks cr s (s.modify c.uid f) := fun f hf =>
    modify_speaks s c.uid f fun d _ _ => hf d
  refine handleSessionMessage_cases cr plat s c r io type
    (fun _ => hquiet _ fun d => by rw [frameAck_eq]; exact .screened _) (fun _ => hquiet _ fun d => .screened _)
    (fun _ => settings_speaks plat s r io h) (fun _ => ?_) (fun _ => ?_) (fun _ => clipboard_speaks plat s r io)
    (fun _ => chat_speaks s r io) (fun _ => sendTo_speaks s _ _ h) (fun _ => fileBegin_speaks plat s r io h)
    (fun _ => uploadChunk_speaks plat s r _ h) (fun _ => uploadEnd_speaks plat s r _ h) (.refl s)
  · unfold Server.pointer
    dsimp only
    split
    · exact .refl s
    · exact modify_speaks { s with os := _ } c.uid _ fun d _ _ =>
        .aside rfl (fun h => h) rfl rfl (.refl _) (.inl rfl)
  · unfold Server.key
    dsimp only
    split
    · exact .refl s
    · exact modify_speaks { s with os := _ } c.uid _ fun d _ _ =>
        .aside rfl (fun h => h) rfl rfl (.refl _) (.inl rfl)

end SessionMessages

end TetherDesk.Host
