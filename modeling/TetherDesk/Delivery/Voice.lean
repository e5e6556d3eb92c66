import TetherDesk.Client.Upgrade
import TetherDesk.Host.Server.Speech.Steps
import TetherDesk.Host.Upgrade
import TetherDesk.Login.Host
import TetherDesk.Pipeline
import TetherDesk.SendQueue

namespace TetherDesk

open TetherDesk.Client TetherDesk.Host TetherDesk.Net TetherDesk.Secure TetherDesk.Lib.Transition

-- What a connection has put out so far, whether sent or still queued.
def Host.Conn.outgoing (c : Conn) : Bytes := c.wire ++ c.out.drop c.outOff

-- Unmasked frames, one for each message.
def framesOf (said : List WsMsg) : Bytes := said.flatMap fun m => rdWsWriteFrame m.opcode m.data none

-- The messages the host frames.
def HostFrame (m : WsMsg) : Prop :=
  m.opcode = RD_WS_BINARY ∨ (m.opcode = RD_WS_CLOSE ∨ m.opcode = RD_WS_PING ∨ m.opcode = RD_WS_PONG) ∧
    m.data.length ≤ 125

-- A viewer's own connection, with no TLS and no relay in between.
structure Direct (c : Conn) : Prop where
  tls : c.tls = none
  ready : c.tcpPending = false ∧ c.tlsHandshaking = false ∧ c.state ≠ .RelayUpgrade
  off : c.outOff ≤ c.out.length

-- Everything that follows the acceptance of the request: each message of send_msg in
-- one frame, the later ones sealed one after another, and control frames in between.
structure Said (cr : Crypto) (c : Conn) (key : Bytes) (said : List WsMsg) (plain secret : List Bytes)
    (ch : Channel) : Prop where
  bytes : c.outgoing = upgradeResponse (rdWsAcceptKey cr key) ++ framesOf said
  sent : c.sent = plain ++ secret
  binary : binaryOf said = plain ++ sealAll cr ch secret
  shape : ∀ m ∈ said, HostFrame m
  going : c.state ≠ .Closing → ∀ m ∈ said, m.opcode ≠ RD_WS_CLOSE
  closed : binaryOf (untilClose said) = binaryOf said
  start : ch.sendCtr = 0
  channel : c.ch.active = true → c.ch = { sealedChannel cr ch secret with recvCtr := c.ch.recvCtr }
  idle : c.ch.active = false → secret = []

structure Voice (cr : Crypto) (c : Conn) : Prop where
  direct : Direct c
  reader : c.ws.Plain
  keyed : Keyed c.ch
  http : c.state = .Http → c.sent = [] ∧ c.ch.active = false ∧
    (c.closeAfterFlush = false → c.outgoing = [] ∧ c.outOff = 0)
  hello : c.state = .Hello → c.ch.active = false
  said : c.state ≠ .Http → ∃ key said plain secret ch, Said cr c key said plain secret ch

section Frames

variable {cr : Crypto} {c : Conn}

theorem framesOf_append (a b : List WsMsg) : framesOf (a ++ b) = framesOf a ++ framesOf b := List.flatMap_append

theorem framesOf_one (opcode : Nat) (p : Bytes) : framesOf [⟨opcode, p⟩] = rdWsWriteFrame opcode p none :=
    List.flatMap_singleton _ _

theorem binaryOf_append (a b : List WsMsg) : binaryOf (a ++ b) = binaryOf a ++ binaryOf b := by
  unfold binaryOf
  rw [List.filter_append, List.map_append]

theorem binaryOf_control {opcode : Nat} (h : opcode ≠ RD_WS_BINARY) (p : Bytes) : binaryOf [⟨opcode, p⟩] = [] := by
  unfold binaryOf
  rw [List.filter_cons_of_neg (by simpa using h)]
  rfl

theorem untilClose_eq {msgs : List WsMsg} (h : ∀ m ∈ msgs, m.opcode ≠ RD_WS_CLOSE) : untilClose msgs = msgs :=
  List.takeWhile_eq_self_iff.mpr fun m hm => by simpa using h m hm

theorem sealAll_append (cr : Crypto) (ch : Channel) (a b : List Bytes) :
    sealAll cr ch (a ++ b) = sealAll cr ch a ++ sealAll cr (sealedChannel cr ch a) b := by
  induction a generalizing ch with
  | nil => rfl
  | cons m ms ih =>
      rw [List.cons_append, sealAll, ih]
      rfl

theorem outgoing_append (hoff : c.outOff ≤ c.out.length) (x : Bytes) :
    ({ c with out := c.out ++ x } : Conn).outgoing = c.outgoing ++ x := by
  unfold Host.Conn.outgoing
  dsimp only
  rw [List.drop_append_of_le_length hoff, List.append_assoc]

theorem wsFrame_direct (hdirect : c.clientWs = false) (halive : c.dead = false) (opcode : Nat) (p mask : Bytes) :
    c.wsFrame opcode p mask = { c with out := c.out ++ rdWsWriteFrame opcode p none } := by
  unfold Host.Conn.wsFrame
  rw [if_neg (by simp [halive]), if_neg (by simp [hdirect])]

theorem sendMsg_plain (hdirect : c.clientWs = false) (halive : c.dead = false) (hidle : c.ch.active = false)
    (m mask : Bytes) :
    c.sendMsg cr m mask =
      { c with sent := c.sent ++ [m], out := c.out ++ rdWsWriteFrame RD_WS_BINARY m none } := by
  unfold Host.Conn.sendMsg
  rw [if_neg (by simp [halive])]
  dsimp only
  rw [if_pos (by simp [hidle])]
  exact wsFrame_direct (c := { c with sent := c.sent ++ [m] }) hdirect halive _ _ _

end Frames

section Steps

variable {cr : Crypto} {c c' : Conn} {key : Bytes} {said : List WsMsg}
  {plain secret plain' secret' : List Bytes} {ch : Channel}

-- One more frame.
theorem Said.frame (h : Said cr c key said plain secret ch) (hspeaking : c.Speaking) {m : WsMsg}
    (hshape : HostFrame m) (hopen : m.opcode ≠ RD_WS_CLOSE)
    (hbytes : c'.outgoing = c.outgoing ++ rdWsWriteFrame m.opcode m.data none) (hsent : c'.sent = plain' ++ secret')
    (hbinary : plain ++ sealAll cr ch secret ++ binaryOf [m] = plain' ++ sealAll cr ch secret')
    (hch : c'.ch.active = true → c'.ch = { sealedChannel cr ch secret' with recvCtr := c'.ch.recvCtr })
    (hidle : c'.ch.active = false → secret' = []) :
    Said cr c' key (said ++ [m]) plain' secret' ch := by
  have hgoing : ∀ w ∈ said ++ [m], w.opcode ≠ RD_WS_CLOSE := by
    intro w hw
    rcases List.mem_append.mp hw with hw | hw
    · exact h.going hspeaking.2 w hw
    · rwa [List.mem_singleton.mp hw]
  refine ⟨?_, hsent, ?_, ?_, fun _ => hgoing, ?_, h.start, hch, hidle⟩
  · rw [hbytes, h.bytes, framesOf_append, framesOf_one, List.append_assoc]
  · rw [binaryOf_append, h.binary, hbinary]
  · intro w hw
    rcases List.mem_append.mp hw with hw | hw
    · exact h.shape w hw
    · rwa [List.mem_singleton.mp hw]
  · rw [untilClose_eq hgoing]

theorem Said.control (h : Said cr c key said plain secret ch) (hdirect : c.clientWs = false)
    (hoff : c.outOff ≤ c.out.length)
    (hspeaking : c.Speaking) {opcode : Nat} (hkind : opcode = RD_WS_PING ∨ opcode = RD_WS_PONG) {p : Bytes}
    (hshort : p.length ≤ 125) (mask : Bytes) :
    ∃ said, Said cr (c.wsFrame opcode p mask) key said plain secret ch := by
  cases halive : c.dead with
  | true =>
      have hsame : c.wsFrame opcode p mask = c := if_pos halive
      exact ⟨said, hsame.symm ▸ h⟩
  | false =>
      have hopcode : opcode ≠ RD_WS_BINARY ∧ opcode ≠ RD_WS_CLOSE := by
        rcases hkind with rfl | rfl <;> decide
      rw [wsFrame_direct hdirect halive]
      refine ⟨_, h.frame hspeaking (m := ⟨opcode, p⟩) (.inr ⟨.inr hkind, hshort⟩) hopcode.2
        (outgoing_append hoff _) h.sent ?_ h.channel h.idle⟩
      rw [binaryOf_control hopcode.1, List.append_nil]

theorem Said.told (hcr : cr.Lengths) (h : Said cr c key said plain secret ch) (hdirect : c.clientWs = false)
    (hoff : c.outOff ≤ c.out.length) (hspeaking : c.Speaking) (hkeyed : Keyed c.ch) (m mask : Bytes) :
    ∃ said plain secret, Said cr (c.sendMsg cr m mask) key said plain secret ch := by
  cases halive : c.dead with
  | true => exact ⟨said, plain, secret, (c.sendMsg_dead cr m mask halive).symm ▸ h⟩
  | false =>
      cases hactive : c.ch.active with
      | false =>
          rw [sendMsg_plain hdirect halive hactive]
          have hnone := h.idle hactive
          subst hnone
          refine ⟨_, plain ++ [m], [], h.frame hspeaking (m := ⟨RD_WS_BINARY, m⟩) (.inl rfl)
            (show RD_WS_BINARY ≠ RD_WS_CLOSE by decide)
            (outgoing_append (c := { c with sent := c.sent ++ [m] }) hoff _) ?_ ?_ h.channel fun _ => rfl⟩
          · dsimp only
            rw [h.sent, List.append_nil, List.append_nil]
          · simp [binaryOf, sealAll]
      | true =>
          rw [sendMsg_frame hcr halive hactive (hkeyed hactive).1, hdirect, if_neg Bool.false_ne_true]
          have hsealed : (rdChannelSeal cr c.ch m).1 = (rdChannelSeal cr (sealedChannel cr ch secret) m).1 := by
            rw [h.channel hactive]
            rfl
          have hnext : (rdChannelSeal cr c.ch m).2 = { (rdChannelSeal cr (sealedChannel cr ch secret) m).2 with
              recvCtr := c.ch.recvCtr } := by
            rw [h.channel hactive]
            rfl
          have hlast : sealedChannel cr ch (secret ++ [m]) = (rdChannelSeal cr (sealedChannel cr ch secret) m).2 :=
            List.foldl_append
          refine ⟨_, plain, secret ++ [m],
            h.frame hspeaking (m := ⟨RD_WS_BINARY, (rdChannelSeal cr c.ch m).1⟩) (.inl rfl)
            (show RD_WS_BINARY ≠ RD_WS_CLOSE by decide)
            (outgoing_append (c := { c with sent := c.sent ++ [m], ch := (rdChannelSeal cr c.ch m).2 }) hoff _)
            ?_ ?_ (fun _ => ?_) fun hidle => ?_⟩
          · dsimp only
            rw [h.sent, List.append_assoc]
          · rw [hsealed, sealAll_append]
            simp [binaryOf, sealAll]
          · dsimp only
            rw [hlast, hnext]
          · exact absurd (hactive.symm.trans hidle) (by decide)

-- Nothing follows the end of a connection.
theorem Said.ends (h : Said cr c key said plain secret ch) :
    Said cr { c with state := .Closing, closeAfterFlush := true } key said plain secret ch :=
  ⟨h.bytes, h.sent, h.binary, h.shape, fun hne => absurd rfl hne, h.closed, h.start, h.channel, h.idle⟩

theorem Said.closes (h : Said cr c key said plain secret ch) (hdirect : c.clientWs = false)
    (hoff : c.outOff ≤ c.out.length)
    (hspeaking : c.Speaking) {p : Bytes} (hshort : p.length ≤ 125) (mask : Bytes) :
    ∃ said, Said cr { c.wsFrame RD_WS_CLOSE p mask with state := .Closing, closeAfterFlush := true } key said
        plain secret ch := by
  cases halive : c.dead with
  | true =>
      have hsame : c.wsFrame RD_WS_CLOSE p mask = c := if_pos halive
      rw [hsame]
      exact ⟨said, h.ends⟩
  | false =>
      rw [wsFrame_direct hdirect halive]
      have hgoing := h.going hspeaking.2
      refine ⟨said ++ [⟨RD_WS_CLOSE, p⟩], ?_, h.sent, ?_, ?_, fun hne => absurd rfl hne, ?_, h.start,
        h.channel, h.idle⟩
      · refine (outgoing_append hoff _).trans ?_
        rw [h.bytes, framesOf_append, framesOf_one, List.append_assoc]
      · rw [binaryOf_append, h.binary, binaryOf_control (by decide), List.append_nil]
      · intro w hw
        rcases List.mem_append.mp hw with hw | hw
        · exact h.shape w hw
        · rw [List.mem_singleton.mp hw]
          exact .inr ⟨.inl rfl, hshort⟩
      · rw [binaryOf_append, binaryOf_control (by decide), List.append_nil, untilClose, List.takeWhile_append_of_pos
          fun w hw => by simpa using hgoing w hw, List.takeWhile_cons_of_neg (by simp), List.append_nil]

theorem drain_plain (answers : List SockAnswer) (buf : Bytes) : (link.drain answers none buf).writer = none := by
  induction answers generalizing buf with
  | nil => rfl
  | cons answer answers ih =>
      unfold Lib.Writer.drain
      split
      · rfl
      · rcases hsend : link.send none buf answer with ⟨taken, tls, got⟩
        have htls : tls = none := by
          cases answer with
          | fails => exact (congrArg (fun r => r.2.1) hsend).symm
          | accepts n => exact (congrArg (fun r => r.2.1) hsend).symm
        subst htls
        cases taken with
        | none => rfl
        | some n =>
            cases n with
            | zero => rfl
            | succ n => exact ih _

-- Sending moves bytes from the queue to the wire.
theorem flush_outgoing (hdirect : Direct c) (answers : List SockAnswer) :
    (c.flush answers).tls = none ∧ (c.flush answers).outOff ≤ (c.flush answers).out.length ∧
      (c.flush answers).outgoing = c.outgoing := by
  have hstep : HostInStep c c.outgoing := ⟨hdirect.off, rfl, hdirect.tls ▸ owes_none _⟩
  have hsent := hstep.sendPending answers
  have hsettled := hsent.settle
  have hplain : (c.sendPending answers).2.tls = none := by
    unfold Host.Conn.sendPending
    dsimp only
    rw [hdirect.tls]
    exact drain_plain answers _
  have hsettle : ∀ d : Conn, d.settle.tls = d.tls := fun d => by
    unfold Host.Conn.settle
    split_ifs <;> rfl
  unfold Host.Conn.flush
  split
  · exact ⟨hdirect.tls, hdirect.off, rfl⟩
  generalize c.sendPending answers = r at hsent hsettled hplain ⊢
  obtain ⟨failed, d⟩ := r
  dsimp only at hsent hsettled hplain ⊢
  split
  · exact ⟨hplain, hsent.off_le, hsent.inStep.whole⟩
  · exact ⟨(hsettle d).trans hplain, hsettled.off_le, hsettled.inStep.whole⟩

theorem flush_idle (hempty : c.out = []) (hzero : c.outOff = 0) (answers : List SockAnswer) :
    (c.flush answers).outOff = 0 := by
  have hdrain : link.drain answers c.tls (c.out.drop c.outOff) = ⟨0, false, c.tls, []⟩ := by
    rw [hempty, List.drop_nil]
    cases answers with
    | nil => rfl
    | cons answer answers => rfl
  unfold Host.Conn.flush Host.Conn.sendPending
  dsimp only
  rw [hdrain]
  split
  · exact hzero
  dsimp only
  rw [if_neg Bool.false_ne_true]
  unfold Host.Conn.settle
  split
  · rfl
  split
  · rfl
  · exact hzero

theorem sendMsg_client (cr : Crypto) (c : Conn) (m mask : Bytes) : (c.sendMsg cr m mask).clientWs = c.clientWs := by
  cases halive : c.dead with
  | true => rw [c.sendMsg_dead cr m mask halive]
  | false =>
      obtain ⟨more, sendCtr, h⟩ := c.sendMsg_alive cr m mask halive
      rw [h]

theorem flush_client (c : Conn) (answers : List SockAnswer) : (c.flush answers).clientWs = c.clientWs ∧
    (c.flush answers).tcpPending = c.tcpPending ∧ (c.flush answers).tlsHandshaking = c.tlsHandshaking ∧
    (c.flush answers).sent = c.sent ∧ (c.flush answers).ch = c.ch ∧ (c.flush answers).closeAfterFlush =
      c.closeAfterFlush := by
  unfold Host.Conn.flush Host.Conn.sendPending Host.Conn.settle
  dsimp only
  split_ifs <;> exact ⟨rfl, rfl, rfl, rfl, rfl, rfl⟩

-- The voice of a connection for its peer depends on this only.
theorem Voice.same (h : Voice cr c) (hdirect : Direct c') (hreader : c'.ws.Plain) (hout : c'.outgoing = c.outgoing)
    (hsent : c'.sent = c.sent) (hch : c'.ch = { c.ch with recvCtr := c'.ch.recvCtr })
    (hstate : c'.state = c.state ∨ c.Speaking ∧ c'.state = .Active)
    (hclosing : c.closeAfterFlush = true → c'.closeAfterFlush = true)
    (hoff : c.out = [] → c.outOff = 0 → c'.outOff = 0) :
    Voice cr c' := by
  have hactive : c'.ch.active = c.ch.active := by rw [hch]
  have hback : c'.state ≠ .Active → c'.state = c.state := fun hne => hstate.resolve_right fun h => hne h.2
  have hpast : c'.state ≠ .Http → c.state ≠ .Http := fun hne => hstate.elim (fun h => h ▸ hne) fun h => h.1.1
  refine ⟨hdirect, hreader, fun ha => ?_, fun hs => ?_, fun hs => ?_, fun hs => ?_⟩
  · rw [hactive] at ha
    rw [hch]
    exact h.keyed ha
  · have hold := h.http ((hback (by rw [hs]; decide)).symm.trans hs)
    refine ⟨hsent.trans hold.1, hactive.trans hold.2.1, fun hopen => ?_⟩
    cases hc : c.closeAfterFlush with
    | false =>
        obtain ⟨hempty, hzero⟩ := hold.2.2 hc
        refine ⟨hout.trans hempty, hoff ?_ hzero⟩
        unfold Host.Conn.outgoing at hempty
        rw [hzero, List.drop_zero] at hempty
        exact (List.append_eq_nil_iff.mp hempty).2
    | true => exact absurd (hclosing hc) (by simp [hopen])
  · exact hactive.trans (h.hello ((hback (by rw [hs]; decide)).symm.trans hs))
  · obtain ⟨key, said, plain, secret, ch, hsaid⟩ := h.said (hpast hs)
    refine ⟨key, said, plain, secret, ch, hout.trans hsaid.bytes, hsent.trans hsaid.sent, hsaid.binary,
      hsaid.shape, ?_,
      hsaid.closed, hsaid.start, ?_, fun hidle => hsaid.idle (hactive.symm.trans hidle)⟩
    · intro hne
      exact hsaid.going (hstate.elim (fun h => h ▸ hne) fun h => h.1.2)
    · intro ha
      rw [hch, hsaid.channel (hactive.symm.trans ha)]

theorem Voice.utters (hcr : cr.Sound) (h : Utters cr c c') (hvoice : c.clientWs = false → Voice cr c) :
    c'.clientWs = false → Voice cr c' := by
  induction h with
  | @aside c c' out closing ch uid reader later =>
      intro hclient
      have h := hvoice ((congrArg Outgoing.clientWs out).symm.trans hclient)
      have hqueue : c'.out = c.out := (congrArg Outgoing.out out).trans rfl
      have hoff : c'.outOff = c.outOff := (congrArg Outgoing.outOff out).trans rfl
      have houtgoing : c'.outgoing = c.outgoing := by
        unfold Host.Conn.outgoing
        rw [show c'.wire = c.wire from (congrArg Outgoing.wire out).trans rfl, hqueue, hoff]
      refine h.same ⟨(congrArg Outgoing.tls out).trans h.direct.tls,
        ⟨(congrArg Outgoing.tcpPending out).trans h.direct.ready.1,
        (congrArg Outgoing.tlsHandshaking out).trans h.direct.ready.2.1, ?_⟩, ?_⟩ (reader.plain h.reader) houtgoing
        ((congrArg Outgoing.sent out).trans rfl) ch later closing fun _ h => hoff.trans h
      · rcases later with h' | ⟨-, h'⟩ <;> rw [h']
        · exact h.direct.ready.2.2
        · decide
      · rw [hqueue, hoff]
        exact h.direct.off
  | @told c msg mask speaking =>
      intro hclient
      have hdirect : c.clientWs = false := (sendMsg_client cr c msg mask).symm.trans hclient
      have h := hvoice hdirect
      obtain ⟨key, said, plain, secret, ch, hsaid⟩ := h.said speaking.1
      obtain ⟨said', plain', secret', hsaid'⟩ :=
        hsaid.told hcr.toLengths hdirect h.direct.off speaking h.keyed msg mask
      cases halive : c.dead with
      | true => rwa [c.sendMsg_dead cr msg mask halive]
      | false =>
          obtain ⟨more, sendCtr, heq⟩ := c.sendMsg_alive cr msg mask halive
          rw [heq] at hsaid' ⊢
          refine ⟨⟨h.direct.tls, h.direct.ready, ?_⟩, h.reader, h.keyed, fun hs => absurd hs speaking.1, h.hello,
            fun _ => ⟨key, said', plain', secret', ch, hsaid'⟩⟩
          have hoff := h.direct.off
          dsimp only
          rw [List.length_append]
          omega
  | @control c opcode payload mask speaking kind short =>
      intro hclient
      obtain ⟨more, heq⟩ := c.wsFrame_eq opcode payload mask
      have hdirect : c.clientWs = false := by
        rw [heq] at hclient
        exact hclient
      have h := hvoice hdirect
      obtain ⟨key, said, plain, secret, ch, hsaid⟩ := h.said speaking.1
      obtain ⟨said', hsaid'⟩ := hsaid.control hdirect h.direct.off speaking kind (short h.reader) mask
      rw [heq] at hsaid' ⊢
      refine ⟨⟨h.direct.tls, h.direct.ready, ?_⟩, h.reader, h.keyed, fun hs => absurd hs speaking.1, h.hello,
        fun _ => ⟨key, said', plain, secret, ch, hsaid'⟩⟩
      have hoff := h.direct.off
      dsimp only
      rw [List.length_append]
      omega
  | @flushed c answers =>
      intro hclient
      obtain ⟨hclient', hpending, hshaking, hsent, hch, hclosing⟩ := flush_client c answers
      have h := hvoice (hclient'.symm.trans hclient)
      obtain ⟨htls, hoff, hout⟩ := flush_outgoing h.direct answers
      obtain ⟨-, hstate, hws⟩ := flush_aside c answers
      refine h.same ⟨htls, ⟨hpending.trans h.direct.ready.1, hshaking.trans h.direct.ready.2.1, ?_⟩, hoff⟩
        (hws ▸ h.reader) hout
        hsent (by rw [hch]) (.inl hstate) (fun hc => hclosing.trans hc)
        fun hempty hzero => flush_idle hempty hzero answers
      rw [hstate]
      exact h.direct.ready.2.2
  | @linked c c' relay uid client reader speaking =>
      intro hclient
      have h := hvoice (client.symm.trans hclient)
      rcases relay with hpending | hshaking | hstate
      · exact absurd (h.direct.ready.1.symm.trans hpending) (by decide)
      · exact absurd (h.direct.ready.2.1.symm.trans hshaking) (by decide)
      · exact absurd hstate h.direct.ready.2.2
  | @keyed c t dh1 dh2 state =>
      intro hclient
      have h := hvoice hclient
      obtain ⟨key, said, plain, secret, ch, hsaid⟩ := h.said (by rw [state]; decide)
      have hsecret := hsaid.idle (h.hello state)
      subst hsecret
      refine ⟨⟨h.direct.tls, ⟨h.direct.ready.1, h.direct.ready.2.1, by simp⟩, h.direct.off⟩, h.reader, fun _ => ?_,
        fun hs => (by cases hs), fun hs => (by cases hs), fun _ =>
          ⟨key, said, plain, [], rdHsKeys cr dh1 dh2 t true, hsaid.bytes,
          hsaid.sent, hsaid.binary, hsaid.shape, fun _ => hsaid.going (by rw [state]; decide), hsaid.closed, rfl,
          fun _ => rfl, fun _ => rfl⟩⟩
      simp [rdHsKeys, hsOkm_length hcr]
  | trans _ _ ih₁ ih₂ => exact ih₂ (ih₁ hvoice)

theorem Voice.tells (hcr : cr.Sound) (h : Says cr c c') (hvoice : c.clientWs = false → Voice cr c) :
    c'.clientWs = false → Voice cr c' := by
  cases h with
  | goes h => exact Voice.utters hcr h hvoice
  | @ends c₁ h speaking =>
      intro hclient
      have h₁ : Voice cr c₁ := Voice.utters hcr h hvoice hclient
      obtain ⟨key, said, plain, secret, ch, hsaid⟩ := h₁.said speaking.1
      exact ⟨⟨h₁.direct.tls, ⟨h₁.direct.ready.1, h₁.direct.ready.2.1, by simp⟩, h₁.direct.off⟩, h₁.reader, h₁.keyed,
        fun hs => (by cases hs), fun hs => (by cases hs), fun _ => ⟨key, said, plain, secret, ch, hsaid.ends⟩⟩
  | @closes c₁ h speaking payload mask short =>
      intro hclient
      obtain ⟨more, heq⟩ := c₁.wsFrame_eq RD_WS_CLOSE payload mask
      have hdirect : c₁.clientWs = false := by
        rw [heq] at hclient
        exact hclient
      have h₁ : Voice cr c₁ := Voice.utters hcr h hvoice hdirect
      obtain ⟨key, said, plain, secret, ch, hsaid⟩ := h₁.said speaking.1
      obtain ⟨said', hsaid'⟩ := hsaid.closes hdirect h₁.direct.off speaking short mask
      have hoff := h₁.direct.off
      rw [heq] at hsaid' ⊢
      refine ⟨⟨h₁.direct.tls, ⟨h₁.direct.ready.1, h₁.direct.ready.2.1, by simp⟩, ?_⟩, h₁.reader, h₁.keyed,
        fun hs => (by cases hs), fun hs => (by cases hs), fun _ => ⟨key, said', plain, secret, ch, hsaid'⟩⟩
      dsimp only
      rw [List.length_append]
      omega

-- A request is waited for, turned away, or accepted.
theorem handleHttp_cases (cr : Crypto) (c : Conn) (webRoot : Bytes) (readFile : Bytes → FileRead) :
    (∃ inn, (c.handleHttp cr webRoot readFile).2 = { c with inn := inn }) ∨
      (∃ inn out, (c.handleHttp cr webRoot readFile).2 =
        { c with inn := inn, out := out, closeAfterFlush := true }) ∨
      ∃ key inn, (c.handleHttp cr webRoot readFile).2 = c.welcomed cr key inn := by
  have hrespond : ∀ (inn : Bytes) (code : Nat) (status text : String), ∃ inn' out,
      ({ c with inn := inn } : Conn).respondText code status text =
        { c with inn := inn', out := out, closeAfterFlush := true } :=
    fun inn _ _ _ => ⟨inn, _, rfl⟩
  unfold Host.Conn.handleHttp
  cases findSub headerEnd c.inn with
  | none =>
      dsimp only
      split
      · exact .inr (.inl (hrespond c.inn _ _ _))
      · exact .inl ⟨c.inn, rfl⟩
  | some k =>
      dsimp only
      split
      · cases rdHttpHeader ((c.inn.take (k + 2)).drop ((findSub crlf (c.inn.take (k + 2))).getD
            (c.inn.take (k + 2)).length + 2)) "Sec-WebSocket-Key" 128 with
        | none => exact .inr (.inl (hrespond _ _ _ _))
        | some key =>
            dsimp only
            split
            · exact .inr (.inl (hrespond _ _ _ _))
            · exact .inr (.inr ⟨key, _, rfl⟩)
      split
      · exact .inr (.inl (hrespond _ _ _ _))
      · generalize (firstWords ((c.inn.take (k + 2)).take ((findSub crlf (c.inn.take (k + 2))).getD
          (c.inn.take (k + 2)).length))).2 = target
        rcases Host.Conn.serveFile_cases { c with inn := rdBufConsume c.inn (k + 4) } webRoot readFile target with
          ⟨out, hserve⟩ | hthrows
        · rw [hserve]
          refine .inr (.inl ?_)
          dsimp only
          split
          · unfold Host.Conn.dropBody
            split
            · exact ⟨_, out, rfl⟩
            · exact ⟨_, _, rfl⟩
          · exact ⟨_, out, rfl⟩
        · rw [hthrows]
          dsimp only
          rw [if_neg (by simp)]
          exact .inl ⟨_, rfl⟩

theorem Voice.asked (h : Voice cr c) (hstate : c.state = .Http) (hfirst : c.closeAfterFlush = false)
    (webRoot : Bytes)
    (readFile : Bytes → FileRead) : Voice cr (c.handleHttp cr webRoot readFile).2 := by
  obtain ⟨hsent, hidle, hnew⟩ := h.http hstate
  obtain ⟨hempty, hzero⟩ := hnew hfirst
  rcases handleHttp_cases cr c webRoot readFile with ⟨inn, heq⟩ | ⟨inn, out, heq⟩ | ⟨key, inn, heq⟩
  · rw [heq]
    exact ⟨⟨h.direct.tls, h.direct.ready, h.direct.off⟩, h.reader, h.keyed, h.http, h.hello,
      fun hne => absurd hstate hne⟩
  · rw [heq]
    refine ⟨⟨h.direct.tls, h.direct.ready, ?_⟩, h.reader, h.keyed,
      fun _ => ⟨hsent, hidle, fun hf => (by cases hf)⟩, h.hello,
      fun hne => absurd hstate hne⟩
    dsimp only
    rw [hzero]
    exact Nat.zero_le _
  · rw [heq]
    unfold Host.Conn.welcomed
    have hoff := h.direct.off
    refine ⟨⟨h.direct.tls, ⟨h.direct.ready.1, h.direct.ready.2.1, by simp⟩, ?_⟩, h.reader, h.keyed,
      fun hs => (by cases hs),
      fun _ => hidle, fun _ =>
        ⟨key, [], [], [], Channel.zero, ?_, hsent, rfl, fun _ hm => absurd hm List.not_mem_nil,
        fun _ _ hm => absurd hm List.not_mem_nil, rfl, rfl, fun ha =>
          absurd (hidle.symm.trans ha) (by decide), fun _ => rfl⟩⟩
    · dsimp only
      rw [List.length_append]
      omega
    · refine (outgoing_append hoff _).trans ?_
      rw [hempty]
      exact (List.append_nil _).symm

end Steps

section Runs

variable {σ : Type} {cr : Crypto} (plat : Platform σ) {past : List (Server σ × ServerEvent σ)} {s : Server σ}

-- No request came on the connection behind one that had been answered.
def AskedOnce (uid : Nat) (past : List (Server σ × ServerEvent σ)) : Prop :=
  ∀ p ∈ past, p.2 = .http uid → ∀ d ∈ p.1.conns, d.uid = uid → d.closeAfterFlush = false

theorem AskedOnce.before {uid : Nat} {p : Server σ × ServerEvent σ} (h : AskedOnce uid (past ++ [p])) :
    AskedOnce uid past :=
  fun q hq => h q (List.mem_append_left _ hq)

end Runs

end TetherDesk
