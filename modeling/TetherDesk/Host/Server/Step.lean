import TetherDesk.Host.Server.Session

namespace TetherDesk.Host

open TetherDesk.Net TetherDesk.Secure TetherDesk.Lib.Table

-- What no step changes about a connection.
def Conn.identity (c : Conn) : Nat × Bytes × Nat × Bool × Bool :=
    (c.uid, c.addr, c.createdUs, c.relayCtl, c.clientWs)

-- The frame rd_ws_next finds, and the message behind the channel when it is a binary
-- one: its type and the reader behind that.
def Conn.frameIn (c : Conn) : Option WsMsg :=
  match (rdWsNext c.ws c.inn).1 with
  | .got m => some m
  | _ => none

def Conn.messageIn (cr : Crypto) (c : Conn) : Option (Nat × Reader) :=
  match c.frameIn with
  | none => none
  | some m =>
      if m.opcode = RD_WS_BINARY then (c.openMessage cr m.data).1.map fun p => rdGetU8 (rdReaderInit p) else none

-- The viewer whose control rights the console's next line toggles.
def Server.toggleTarget {σ : Type} (s : Server σ) : Option Conn :=
  let (cmd, arg) := splitCommand (cleanText (s.consoleBuf.takeWhile (· ≠ 10)) 1000)
  if s.consoleBuf.contains 10 ∧ cmd = ascii "/viewonly" then s.findViewer arg else none

-- The same session but for the channel's counters.
def SameSession (c c' : Conn) : Prop :=
  ∃ sendCtr recvCtr, c'.toSession = { c.toSession with ch := { c.ch with sendCtr := sendCtr, recvCtr := recvCtr } }

-- The connection's link reports an error.
def ServerEvent.linkFails {σ : Type} (c : Conn) : ServerEvent σ → Prop
  | .tcpReady uid ok tls answers =>
      uid = c.uid ∧ (ok = false ∨ tls = none ∨ { c with tcpPending := false }.sendFailed answers = true)
  | .handshake uid rc _ answers =>
      uid = c.uid ∧ (rc < 0 ∨ { c with tlsHandshaking := false }.sendFailed answers = true)
  | .recvFailed uid _ => uid = c.uid
  | .flush uid answers => uid = c.uid ∧ c.sendFailed answers = true
  | _ => False

-- Why a step marks a connection dead.
inductive Dies {σ : Type} (e : ServerEvent σ) (c c' : Conn) : Prop
  | failed (h : e.linkFails c)
  | flushed (closing : c.closeAfterFlush = true) (handed : c.bytesSent + c.pending ≤ c'.bytesSent)
      (rest : c'.pending = 0)
  | expired (now : Nat) (io : Io) (event : e = .expire c.uid now io)
      (late : c.state ≠ .Active → c.state ≠ .RelayCtl → sub64 now c.createdUs > 120 * kSecond)
  | rejected (event : (∃ io, e = .message c.uid io) ∨ e = .relayUpgrade c.uid ∨ e = .staleRc c.uid)

-- Everything a step can do to one connection.
inductive Changed {σ : Type} (cr : Crypto) (s : Server σ) (e : ServerEvent σ) (c c' : Conn) : Prop
  | quiet (session : SameSession c c') (closing : c'.closeAfterFlush = c.closeAfterFlush)
      (dead : c.dead = true → c'.dead = true) (dies : c'.dead = true → c.dead = true ∨ Dies e c c')
  | upgraded (before : c.state = .Http ∧ c'.state = .Hello ∧ e = .http c.uid ∨
        c.state = .RelayUpgrade ∧ c'.state = (if c.relayCtl then State.RelayCtl else State.Hello))
      (session : c'.toSession = { c.toSession with state := c'.state })
      (closing : c'.closeAfterFlush = c.closeAfterFlush) (dead : c'.dead = c.dead)
  | answered (before : c.state = .Http) (event : e = .http c.uid) (session : c'.toSession = c.toSession)
      (closing : c'.closeAfterFlush = true) (dead : c'.dead = c.dead)
  | incompatible (before : c.state = .Hello) (alive : c.dead = false)
      (event : ∃ io, e = .message c.uid io) (name : c'.name ≠ [])
      (session : SameSession { c with name := c'.name } c') (closing : c'.closeAfterFlush = true)
      (dead : c'.dead = c.dead)
  | keyFailed (before : c.state = .Hello) (name : c'.name ≠ []) (event : ∃ io, e = .message c.uid io)
      (session : SameSession { c with name := c'.name, nonce := c'.nonce } c') (dead : c'.dead = true)
      (closing : c'.closeAfterFlush = c.closeAfterFlush)
  | greeted (io : Io) (r : Reader) (ce dh1 dh2 : Bytes) (before : c.state = .Hello) (alive : c.dead = false)
      (event : e = .message c.uid io)
      (message : c.messageIn cr = some (RD_C_HELLO, r)) (version : (readClientHello r).version = RD_PROTO_VERSION)
      (key : (readClientHello r).ce = some ce) (agreed : keyAgreement cr s.cfg ce io = some (dh1, dh2))
      (session : c'.toSession =
        { c.toSession with
          state := .Auth
          name := (readClientHello r).name
          nonce := io.random 0
          transcript := rdHsTranscript cr ce s.cfg.staticPub (rdX25519Base cr (io.random 1)) (io.random 0)
          ch := rdHsKeys cr dh1 dh2
            (rdHsTranscript cr ce s.cfg.staticPub (rdX25519Base cr (io.random 1)) (io.random 0)) true })
      (closing : c'.closeAfterFlush = c.closeAfterFlush) (dead : c'.dead = c.dead)
  | refused (io : Io) (r : Reader) (before : c.state = .Auth) (alive : c.dead = false)
      (event : e = .message c.uid io)
      (message : c.messageIn cr = some (RD_C_AUTH, r)) (verdict : (s.authVerdict cr c r io).1 ≠ .ok)
      (session : SameSession { c with state := .Closing } c') (closing : c'.closeAfterFlush = true)
      (dead : c'.dead = c.dead)
  | authenticated (io : Io) (r : Reader) (before : c.state = .Auth) (alive : c.dead = false)
      (event : e = .message c.uid io)
      (message : c.messageIn cr = some (RD_C_AUTH, r)) (verdict : (s.authVerdict cr c r io).1 = .ok)
      (session : SameSession
        { c with state := .Active, id := s.nextId, viewOnly := s.cfg.viewOnly, everAuthed := true } c')
      (closing : c'.closeAfterFlush = c.closeAfterFlush) (dead : c'.dead = c.dead)
  | left (m : WsMsg) (io : Io) (before : c.upgraded = true ∧ c.state ≠ .Closing) (alive : c.dead = false)
      (event : e = .message c.uid io) (frame : c.frameIn = some m) (opcode : m.opcode = RD_WS_CLOSE)
      (session : SameSession { c with state := .Closing } c') (closing : c'.closeAfterFlush = true)
      (dead : c'.dead = c.dead)
  | kicked (before : c.live = true) (session : SameSession { c with state := .Closing } c')
      (closing : c'.closeAfterFlush = true) (dead : c'.dead = c.dead)
  | served (before : c.state = .Active) (alive : c.dead = false) (event : ∃ io, e = .message c.uid io)
      (session : SameSession { c with sentInput := c'.sentInput, uploads := c'.uploads } c')
      (uploads : c.viewOnly = true → c.uploads = [] → c'.uploads = [])
      (closing : c'.closeAfterFlush = c.closeAfterFlush) (dead : c'.dead = c.dead)
  | toggled (io : Io) (before : c.live = true) (event : e = .consoleLine io)
      (target : s.toggleTarget = some c)
      (session : SameSession { c with viewOnly := !c.viewOnly } c')
      (closing : c'.closeAfterFlush = c.closeAfterFlush) (dead : c'.dead = c.dead)

-- What a step queues on one connection.
inductive Told {σ : Type} (e : ServerEvent σ) (c c' : Conn) : Prop
  | plain (new : List Bytes) (sent : c'.sent = c.sent ++ new) (screen : Unannounced c.toScreen new c'.toScreen)
  | pumped (f : Option Frame) (now : Nat) (schedule : List Nat) (io : Io)
      (event : e = .pump c.uid f now schedule io)
      (alive : c.dead = false) (before : c.state = .Active) (cr : Crypto) (info : ScreenInfo)
        (threads : Nat) (c₁ : Conn)
      (offered : c.maybeSendFrame cr f now info threads schedule (fun k => io.mask k c.uid) = some c₁)
      (after : c' = c₁.adaptQuality now)
  | authenticated (before : c.state = .Auth) (new : List Bytes) (sent : c'.sent = c.sent ++ new)
      (frameless : ∀ m ∈ new, Frameless m) (screen : Tended c.toScreen c'.toScreen)

-- One row of a step.
structure Step {σ : Type} (cr : Crypto) (s : Server σ) (e : ServerEvent σ) (c c' : Conn) : Prop where
  identity : c'.identity = c.identity
  changed : Changed cr s e c c'
  told : Told e c c'

-- A row that changes only in what is queued and received.
structure Quiet (c c' : Conn) : Prop where
  identity : c'.identity = c.identity
  session : SameSession c c'
  closing : c'.closeAfterFlush = c.closeAfterFlush
  dead : c.dead = true → c'.dead = true
  sent : c'.sent = c.sent
  screen : c'.toScreen = c.toScreen

-- A row that may change in what is queued and on the screen.
structure Unmoved (c c' : Conn) : Prop where
  identity : c'.identity = c.identity
  session : SameSession c c'
  closing : c'.closeAfterFlush = c.closeAfterFlush
  dead : c'.dead = c.dead

section Rows

variable {σ : Type} {s s' : Server σ} {e : ServerEvent σ} {c c₂ : Conn} {own : Conn → Conn → Prop}

theorem SameSession.refl (c : Conn) : SameSession c c := ⟨c.ch.sendCtr, c.ch.recvCtr, rfl⟩

theorem SameSession.of_eq {c c' : Conn} (h : c'.toSession = c.toSession) : SameSession c c' :=
  ⟨c.ch.sendCtr, c.ch.recvCtr, h⟩

theorem SameSession.trans {a b c : Conn} (h₁ : SameSession a b) (h₂ : SameSession b c) : SameSession a c := by
  obtain ⟨sendCtr, recvCtr, h₁⟩ := h₁
  obtain ⟨sendCtr', recvCtr', h₂⟩ := h₂
  refine ⟨sendCtr', recvCtr', ?_⟩
  have hch : b.ch = { a.ch with sendCtr := sendCtr, recvCtr := recvCtr } := congrArg Session.ch h₁
  rw [h₂, hch, h₁]

theorem Quiet.refl (c : Conn) : Quiet c c := ⟨rfl, .refl c, rfl, fun h => h, rfl, rfl⟩

theorem Quiet.uid {c c' : Conn} (h : Quiet c c') : c'.uid = c.uid := congrArg Prod.fst h.identity

theorem Quiet.trans {a b c : Conn} (h₁ : Quiet a b) (h₂ : Quiet b c) : Quiet a c :=
  ⟨h₂.identity.trans h₁.identity, h₁.session.trans h₂.session, h₂.closing.trans h₁.closing,
    fun h => h₂.dead (h₁.dead h),
    h₂.sent.trans h₁.sent, h₂.screen.trans h₁.screen⟩

theorem Told.same {c c' : Conn} (hsent : c'.sent = c.sent) (hscreen : c'.toScreen = c.toScreen) : Told e c c' := by
  refine .plain [] (by rw [hsent, List.append_nil]) ⟨by simp, ?_⟩
  rw [hscreen]
  exact .refl _

theorem Quiet.step {cr : Crypto} {c c' : Conn} (h : Quiet c c')
    (hdies : c'.dead = true → c.dead = true ∨ Dies e c c') :
    Step cr s e c c' :=
  ⟨h.identity, .quiet h.session h.closing h.dead hdies, .same h.sent h.screen⟩

theorem Unmoved.trans {a b c : Conn} (h₁ : Unmoved a b) (h₂ : Unmoved b c) : Unmoved a c :=
  ⟨h₂.identity.trans h₁.identity, h₁.session.trans h₂.session, h₂.closing.trans h₁.closing, h₂.dead.trans h₁.dead⟩

theorem Unmoved.screened (c : Conn) (screen : Screen) : Unmoved c { c with toScreen := screen } :=
  ⟨rfl, .refl c, rfl, rfl⟩

theorem Unmoved.step {cr : Crypto} {c c' : Conn} (h : Unmoved c c') (htold : Told e c c') : Step cr s e c c' :=
  ⟨h.identity, .quiet h.session h.closing (fun hdead => h.dead.trans hdead) fun hdead =>
    .inl (h.dead.symm.trans hdead), htold⟩

theorem Addressed.unmoved {c c' : Conn} (h : Addressed c c') : Unmoved c c' := by
  obtain ⟨out, sent, sendCtr, screen, rfl, -⟩ := h
  exact ⟨rfl, ⟨sendCtr, c.ch.recvCtr, rfl⟩, rfl, rfl⟩

theorem Bystander.told {c c' : Conn} (h : Bystander c c') : Told e c c' := by
  obtain ⟨out, sent, sendCtr, screen, rfl, hsent⟩ := h
  exact .plain sent rfl hsent

theorem Bystander.step {cr : Crypto} {c c' : Conn} (h : Bystander c c') : Step cr s e c c' :=
  h.addressed.unmoved.step h.told

-- A step that first replaces the row of one connection.
theorem step_of_row {cr : Crypto} (hrow : ∀ d ∈ s.conns, d.uid = c.uid → d = c)
    (huid : c₂.uid = c.uid) (h : Evolves (Acts c.uid own) (s.modify c.uid fun _ => c₂).conns s'.conns)
    (hown : ∀ d', own c₂ d' → Step cr s e c d') : Evolves (Step cr s e) s.conns s'.conns := by
  have hput : Evolves (fun d d₁ => d ∈ s.conns ∧ d₁ = if d.uid = c.uid then c₂ else d) s.conns
      (s.modify c.uid fun _ => c₂).conns := Evolves.map fun d hd => ⟨hd, rfl⟩
  refine hput.comp ?_ h
  rintro d d₁ d' ⟨hmem, rfl⟩ hacts
  unfold Acts at hacts
  by_cases hd : d.uid = c.uid
  · rw [if_pos hd, if_pos huid] at hacts
    obtain rfl := hrow d hmem hd
    exact hown d' hacts
  · rw [if_neg hd, if_neg hd] at hacts
    exact hacts.step

theorem put_row (huid : c₂.uid = c.uid) : ∀ d ∈ (s.modify c.uid fun _ => c₂).conns, d.uid = c₂.uid → d = c₂ := by
  intro d hd hduid
  obtain ⟨a, -, rfl⟩ := List.mem_map.mp hd
  by_cases ha : a.uid = c.uid
  · exact if_pos ha
  · rw [if_neg ha] at hduid
    exact absurd (hduid.trans huid) ha

end Rows

end TetherDesk.Host
