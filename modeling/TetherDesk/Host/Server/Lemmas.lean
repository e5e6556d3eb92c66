import TetherDesk.Host.Loop
import TetherDesk.Host.Screen.Lemmas
import TetherDesk.Lib.Table

namespace TetherDesk.Host

open TetherDesk.Net TetherDesk.Secure TetherDesk.Lib.Table

-- Messages that are no frame, and those that announce no size either.
def Frameless (msg : Bytes) : Prop := byteAt msg 0 ≠ UInt8.ofNat RD_S_FRAME

def Plain (msg : Bytes) : Prop := Frameless msg ∧ byteAt msg 0 ≠ UInt8.ofNat RD_S_DISPLAY_INFO

theorem Plain.of_type {msg : Bytes} (type : Nat) (hmsg : byteAt msg 0 = UInt8.ofNat type)
    (htype : UInt8.ofNat type ≠ UInt8.ofNat RD_S_FRAME ∧ UInt8.ofNat type ≠ UInt8.ofNat RD_S_DISPLAY_INFO) :
    Plain msg := by
  unfold Plain Frameless
  rw [hmsg]
  exact htype

-- The last acknowledged id after FRAME_ACK.
def ackedAfter (frameId acked id : Nat) : Nat :=
  if toInt32 (sub32 id acked) > 0 ∧ toInt32 (sub32 id frameId) ≤ 0 then id else acked

-- What messages and timers do to the screen of a viewer: the announced size stays or
-- is forgotten, frames are acknowledged, and what was encoded stays.
structure Tended (screen screen' : Screen) : Prop where
  size : screen'.shadowW = screen.shadowW ∧ screen'.shadowH = screen.shadowH ∨
    screen'.shadowW = 0 ∧ screen'.shadowH = 0 ∧ screen'.needFull = true
  needFull : screen.needFull = true → screen'.needFull = true
  tileQ : screen'.tileQ = screen.tileQ ∧ screen'.lossyTiles = screen.lossyTiles
  shadow : screen'.shadow = screen.shadow
  encoded : screen'.encoded = screen.encoded ∧ screen'.lastSeq = screen.lastSeq
  frameId : screen'.frameId = screen.frameId
  acked : ∃ ids : List Nat, (∀ id ∈ ids, id < 2 ^ 32) ∧
    screen'.acked = ids.foldl (ackedAfter screen.frameId) screen.acked

theorem Tended.refl (screen : Screen) : Tended screen screen :=
  ⟨.inl ⟨rfl, rfl⟩, fun h => h, ⟨rfl, rfl⟩, rfl, ⟨rfl, rfl⟩, rfl, [], by simp, rfl⟩

theorem Tended.trans {screen screen' screen'' : Screen} (h₁ : Tended screen screen')
    (h₂ : Tended screen' screen'') :
    Tended screen screen'' := by
  obtain ⟨ids, hids, hacked⟩ := h₁.acked
  obtain ⟨ids', hids', hacked'⟩ := h₂.acked
  refine ⟨?_, fun h => h₂.needFull (h₁.needFull h), ⟨h₂.tileQ.1.trans h₁.tileQ.1, h₂.tileQ.2.trans h₁.tileQ.2⟩,
    h₂.shadow.trans h₁.shadow, ⟨h₂.encoded.1.trans h₁.encoded.1, h₂.encoded.2.trans h₁.encoded.2⟩,
    h₂.frameId.trans h₁.frameId, ids ++ ids', ?_, ?_⟩
  · rcases h₂.size with ⟨hw, hh⟩ | hzero
    · rcases h₁.size with hsame | ⟨hw', hh', hfull⟩
      · exact .inl ⟨hw.trans hsame.1, hh.trans hsame.2⟩
      · exact .inr ⟨hw.trans hw', hh.trans hh', h₂.needFull hfull⟩
    · exact .inr hzero
  · exact fun id hid => (List.mem_append.mp hid).elim (hids id) (hids' id)
  · rw [hacked', h₁.frameId, hacked, List.foldl_append]

-- The same after messages that say nothing about it.
def Unannounced (screen : Screen) (sent : List Bytes) (screen' : Screen) : Prop :=
  (∀ m ∈ sent, Plain m) ∧ Tended screen screen'

theorem Unannounced.refl (screen : Screen) : Unannounced screen [] screen := ⟨by simp, .refl screen⟩

theorem Unannounced.trans {screen screen' screen'' : Screen} {sent sent' : List Bytes}
    (h₁ : Unannounced screen sent screen')
    (h₂ : Unannounced screen' sent' screen'') : Unannounced screen (sent ++ sent') screen'' :=
  ⟨fun m hm => (List.mem_append.mp hm).elim (h₁.1 m) (h₂.1 m), h₁.2.trans h₂.2⟩

-- What sending to a connection does to it.
def Addressed (c c' : Conn) : Prop :=
  ∃ out sent sendCtr screen, c' =
    { c with
      out := c.out ++ out
      sent := c.sent ++ sent
      ch := { c.ch with sendCtr := sendCtr }
      toScreen := screen } ∧
    (∀ m ∈ sent, Frameless m) ∧ Tended c.toScreen screen

-- What happens to a connection when another one is served: messages and a change of
-- the display.
def Bystander (c c' : Conn) : Prop :=
  ∃ out sent sendCtr screen, c' =
    { c with
      out := c.out ++ out
      sent := c.sent ++ sent
      ch := { c.ch with sendCtr := sendCtr }
      toScreen := screen } ∧
    Unannounced c.toScreen sent screen

theorem Addressed.trans {a b c : Conn} (h₁ : Addressed a b) (h₂ : Addressed b c) : Addressed a c := by
  obtain ⟨out, sent, sendCtr, screen, rfl, hsent, hsize⟩ := h₁
  obtain ⟨out', sent', sendCtr', screen', rfl, hsent', hsize'⟩ := h₂
  refine ⟨out ++ out', sent ++ sent', sendCtr', screen', ?_,
    fun m hm => (List.mem_append.mp hm).elim (hsent m) (hsent' m), hsize.trans hsize'⟩
  rw [← List.append_assoc, ← List.append_assoc]

theorem Addressed.uid {c c' : Conn} (h : Addressed c c') : c'.uid = c.uid := by
  obtain ⟨out, sent, sendCtr, screen, rfl, -⟩ := h
  rfl

theorem Bystander.addressed {c c' : Conn} (h : Bystander c c') : Addressed c c' := by
  obtain ⟨out, sent, sendCtr, screen, hc, hsent⟩ := h
  exact ⟨out, sent, sendCtr, screen, hc, fun m hm => (hsent.1 m hm).1, hsent.2⟩

theorem Bystander.refl (c : Conn) : Bystander c c :=
  ⟨[], [], c.ch.sendCtr, c.toScreen, by rw [List.append_nil, List.append_nil], .refl _⟩

theorem Bystander.trans {a b c : Conn} (h₁ : Bystander a b) (h₂ : Bystander b c) : Bystander a c := by
  obtain ⟨out, sent, sendCtr, screen, rfl, hsent⟩ := h₁
  obtain ⟨out', sent', sendCtr', screen', rfl, hsent'⟩ := h₂
  refine ⟨out ++ out', sent ++ sent', sendCtr', screen', ?_, hsent.trans hsent'⟩
  rw [← List.append_assoc, ← List.append_assoc]

theorem Bystander.uid {c c' : Conn} (h : Bystander c c') : c'.uid = c.uid := by
  obtain ⟨out, sent, sendCtr, screen, rfl, -⟩ := h
  rfl

theorem Bystander.screened (c : Conn) (screen : Screen) (h : Tended c.toScreen screen) :
    Bystander c { c with toScreen := screen } :=
  ⟨[], [], c.ch.sendCtr, screen, by rw [List.append_nil, List.append_nil], by simp, h⟩

theorem sendMsg_addressed (cr : Crypto) (c : Conn) (msg mask : Bytes) (hmsg : Frameless msg) :
    Addressed c (c.sendMsg cr msg mask) := by
  cases hdead : c.dead with
  | true =>
      rw [Conn.sendMsg_dead cr c msg mask hdead]
      exact (Bystander.refl c).addressed
  | false =>
      obtain ⟨out, sendCtr, h⟩ := Conn.sendMsg_alive cr c msg mask hdead
      rw [h]
      exact ⟨out, [msg], sendCtr, c.toScreen, rfl, by simpa using hmsg, .refl _⟩

theorem sendMsg_bystander (cr : Crypto) (c : Conn) (msg mask : Bytes) (hmsg : Plain msg) :
    Bystander c (c.sendMsg cr msg mask) := by
  cases hdead : c.dead with
  | true =>
      rw [Conn.sendMsg_dead cr c msg mask hdead]
      exact Bystander.refl c
  | false =>
      obtain ⟨out, sendCtr, h⟩ := Conn.sendMsg_alive cr c msg mask hdead
      rw [h]
      exact ⟨out, [msg], sendCtr, c.toScreen, rfl, by simpa using hmsg, .refl _⟩

-- What serving a session message may also do to its sender: input was sent, and
-- uploads come and go, but none comes to a view-only viewer.
def Served (c c' : Conn) : Prop :=
  ∃ out sent sendCtr screen sentInput uploads, c' =
    { c with
      out := c.out ++ out
      sent := c.sent ++ sent
      ch := { c.ch with sendCtr := sendCtr }
      toScreen := screen
      sentInput := sentInput
      uploads := uploads } ∧
    Unannounced c.toScreen sent screen ∧
    (c.viewOnly = true → c.uploads = [] → uploads = [])

theorem Bystander.served {c c' : Conn} (h : Bystander c c') : Served c c' := by
  obtain ⟨out, sent, sendCtr, screen, rfl, hsent⟩ := h
  exact ⟨out, sent, sendCtr, screen, c.sentInput, c.uploads, rfl, hsent, fun _ h => h⟩

theorem Served.trans {a b c : Conn} (h₁ : Served a b) (h₂ : Served b c) : Served a c := by
  obtain ⟨out, sent, sendCtr, screen, sentInput, uploads, rfl, hsent, hup⟩ := h₁
  obtain ⟨out', sent', sendCtr', screen', sentInput', uploads', rfl, hsent', hup'⟩ := h₂
  refine ⟨out ++ out', sent ++ sent', sendCtr', screen', sentInput', uploads', ?_, hsent.trans hsent',
    fun hvo h => hup' hvo (hup hvo h)⟩
  rw [← List.append_assoc, ← List.append_assoc]

-- The own relation for one connection, bystanders otherwise.
def Acts (uid : Nat) (own : Conn → Conn → Prop) (c c' : Conn) : Prop :=
  if c.uid = uid then own c c' else Bystander c c'

theorem Acts.of_bystander {uid : Nat} {own : Conn → Conn → Prop} (h : ∀ c c', Bystander c c' → own c c')
    {c c' : Conn} (hb : Bystander c c') : Acts uid own c c' := by
  unfold Acts
  split
  · exact h c c' hb
  · exact hb

-- A step that keeps the books and relates the connections row by row.
structure Serves {σ : Type} (R : Conn → Conn → Prop) (s s' : Server σ) : Prop where
  conns : Evolves R s.conns s'.conns
  books : s'.toBooks = s.toBooks

section

variable {σ : Type} {R S T : Conn → Conn → Prop} {s s' s'' : Server σ}

theorem Serves.comp (h : ∀ a b c, R a b → S b c → T a c) (h₁ : Serves R s s') (h₂ : Serves S s' s'') :
    Serves T s s'' :=
  ⟨h₁.conns.comp h h₂.conns, h₂.books.trans h₁.books⟩

theorem Serves.imp (h : ∀ a b, R a b → S a b) (h₁ : Serves R s s') : Serves S s s' :=
  ⟨h₁.conns.imp fun _ _ => h _ _, h₁.books⟩

theorem Serves.bystander_trans (h₁ : Serves Bystander s s') (h₂ : Serves Bystander s' s'') :
    Serves Bystander s s'' :=
  Serves.comp (fun _ _ _ h h' => h.trans h') h₁ h₂

theorem Acts.trans {uid : Nat} {own : Conn → Conn → Prop} {a b c : Conn} (h₁ : Acts uid own a b)
    (h₂ : Acts uid own b c)
    (htrans : ∀ a b c, own a b → own b c → own a c) (huid : ∀ a b, own a b → b.uid = a.uid) : Acts uid own a c := by
  unfold Acts at *
  by_cases ha : a.uid = uid
  · rw [if_pos ha] at h₁ ⊢
    rw [if_pos ((huid a b h₁).trans ha)] at h₂
    exact htrans a b c h₁ h₂
  · rw [if_neg ha] at h₁ ⊢
    rw [if_neg (h₁.uid ▸ ha)] at h₂
    exact h₁.trans h₂

end

section Sending

variable {σ : Type} (cr : Crypto) (plat : Platform σ) (s : Server σ)

theorem same_books_serves {s' : Server σ} (hconns : s'.conns = s.conns) (hbooks : s'.toBooks = s.toBooks) :
    Serves Bystander s s' :=
  ⟨hconns ▸ Evolves.rfl fun c _ => Bystander.refl c, hbooks⟩

theorem modify_serves (uid : Nat) (f : Conn → Conn) (own : Conn → Conn → Prop)
    (h : ∀ c ∈ s.conns, c.uid = uid → own c (f c)) : Serves (Acts uid own) s (s.modify uid f) := by
  refine ⟨Evolves.map fun c hc => ?_, rfl⟩
  unfold Acts
  by_cases huid : c.uid = uid
  · rw [if_pos huid, if_pos huid]
    exact h c hc huid
  · rw [if_neg huid, if_neg huid]
    exact Bystander.refl c

-- The same for a server that has other things changed before.
theorem changed_modify_serves {t : Server σ} (hconns : t.conns = s.conns)
    (hbooks : t.toBooks = s.toBooks) (uid : Nat)
    (f : Conn → Conn) (own : Conn → Conn → Prop) (h : ∀ c ∈ s.conns, c.uid = uid → own c (f c)) :
    Serves (Acts uid own) s (t.modify uid f) := by
  have ht := modify_serves t uid f own (hconns ▸ h)
  exact ⟨hconns ▸ ht.conns, ht.books.trans hbooks⟩

theorem modify_bystander (uid : Nat) (f : Conn → Conn) (h : ∀ c, Bystander c (f c)) :
    Serves Bystander s (s.modify uid f) := by
  refine ⟨Evolves.map fun c _ => ?_, rfl⟩
  by_cases huid : c.uid = uid
  · rw [if_pos huid]
    exact h c
  · rw [if_neg huid]
    exact Bystander.refl c

theorem sendTo_serves (uid : Nat) (msg mask : Bytes) (hmsg : Plain msg) :
    Serves Bystander s (s.sendTo cr uid msg mask) :=
  modify_bystander s uid _ fun c => sendMsg_bystander cr c msg mask hmsg

theorem broadcast_serves (msg : Bytes) (skip : Option Nat) (controlOnly : Bool) (mask : Nat → Bytes)
    (hmsg : Plain msg) :
    Serves Bystander s (s.broadcast cr msg skip controlOnly mask) := by
  refine ⟨Evolves.map fun c _ => ?_, rfl⟩
  split
  · exact sendMsg_bystander cr c msg _ hmsg
  · exact Bystander.refl c

theorem noticeMsg_plain (text : Bytes) : Plain (noticeMsg text) := .of_type RD_S_NOTICE rfl (by decide)

theorem notice_serves (text : Bytes) (skip : Option Nat) (mask : Nat → Bytes) :
    Serves Bystander s (s.notice cr text skip mask) :=
      broadcast_serves cr s _ skip false mask (noticeMsg_plain text)

theorem broadcastViewers_serves (mask : Nat → Bytes) : Serves Bystander s (s.broadcastViewers cr mask) :=
  broadcast_serves cr s _ none false mask (.of_type RD_S_VIEWERS rfl (by decide))

theorem switchDisplay_serves (index : Int) (mask : Nat → Bytes) :
    Serves Bystander s (s.switchDisplay cr plat index mask) := by
  unfold Server.switchDisplay
  by_cases hout : index < 0 ∨ index ≥ s.displays.length
  · rw [if_pos hout]
    exact same_books_serves s rfl rfl
  · rw [if_neg hout]
    generalize plat.capturer.start s.os index s.cfg.maxFps = r
    obtain ⟨err, os⟩ := r
    cases err with
    | some err =>
        have h := (same_books_serves s (show ({ s with os := os } : Server σ).conns =
            s.conns from rfl) rfl).bystander_trans
          (notice_serves cr { s with os := os } (ascii "Could not switch display: " ++ err) none mask)
        exact h.bystander_trans (same_books_serves _ rfl rfl)
    | none =>
        dsimp only
        generalize plat.capturer.displays os = r
        obtain ⟨displays, os⟩ := r
        refine Serves.bystander_trans ?_ (notice_serves cr _ _ none mask)
        refine ⟨Evolves.map fun c _ => ?_, rfl⟩
        by_cases hlive : c.live = true
        · rw [if_pos hlive]
          exact Bystander.screened c { c.toScreen with needFull := true, shadowW := 0, shadowH := 0 }
            ⟨.inr ⟨rfl, rfl, rfl⟩, fun _ => rfl, ⟨rfl, rfl⟩, rfl, ⟨rfl, rfl⟩, rfl, [], by simp, rfl⟩
        · rw [if_neg hlive]
          exact Bystander.refl c

theorem displayInfoMsg_frameless (info : ScreenInfo) : Frameless (displayInfoMsg info) := by
  change UInt8.ofNat RD_S_DISPLAY_INFO ≠ UInt8.ofNat RD_S_FRAME
  decide

-- Only the new viewer is told the size.
theorem sendDisplayInfo_serves (uid : Nat) (mask : Bytes) :
    Serves (Acts uid Addressed) s (s.sendDisplayInfo cr plat uid mask) := by
  unfold Server.sendDisplayInfo
  generalize s.screenInfo plat = r
  obtain ⟨info, os⟩ := r
  exact changed_modify_serves s (by rfl) (by rfl) uid _ Addressed fun c _ _ =>
    sendMsg_addressed cr c _ _ (displayInfoMsg_frameless info)

end Sending

end TetherDesk.Host
