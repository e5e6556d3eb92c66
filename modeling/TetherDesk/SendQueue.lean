import TetherDesk.Host.Conn
import TetherDesk.Client.Transport
import TetherDesk.Net.Link.Theorems
import TetherDesk.Lib.Transition

namespace TetherDesk

open TetherDesk.Lib TetherDesk.Net

-- What happens to a send queue. `connected` carries the parameters of the TLS
-- layer set up on the new link, if any; `dropped` is the end of the link.
inductive QueueEvent
  | append (bytes : Bytes)
  | flush (answers : List SockAnswer)
  | connected (tls : Option (Nat × Nat))
  | handshaken
  | dropped
  deriving DecidableEq, Repr

def QueueEvent.appended : QueueEvent → Bytes
  | .append bytes => bytes
  | _ => []

def newTls (tls : Option (Nat × Nat)) : Option TlsOut :=
  tls.map fun (maxRecord, overhead) => ⟨maxRecord, overhead, [], 0⟩

def hostQueueStep (c : Host.Conn) : QueueEvent → Host.Conn
  | .append bytes => { c with out := c.out ++ bytes }
  | .flush answers => if c.dead then c else c.flush answers
  | .connected tls =>
      if c.tcpPending then
        { c with tcpPending := false, tls := newTls tls, tlsHandshaking := tls.isSome }
      else c
  | .handshaken => { c with tlsHandshaking := false }
  | .dropped => { c with dead := true }

def clientQueueStep (t : Client.NativeTransport) : QueueEvent → Client.NativeTransport
  | .append bytes => { t with out := t.out ++ bytes }
  | .flush answers => t.flush answers
  | .connected tls => if t.tcpUp then t else { t with tcpUp := true, tls := newTls tls, tlsReady := false }
  | .handshaken => { t with tlsReady := true }
  | .dropped => t.fail

-- A connection with nothing queued, on a link that has carried nothing.
def idleConn (c : Host.Conn) : Prop := c.out = [] ∧ c.outOff = 0 ∧ c.wire = [] ∧ c.tls = none

instance : DecidablePred idleConn := fun _ => inferInstanceAs (Decidable (_ ∧ _ ∧ _ ∧ _))

def hostQueue : Transition.System Host.Conn QueueEvent :=
  Transition.ofFunction idleConn hostQueueStep

def clientQueue : Transition.System Client.NativeTransport QueueEvent :=
  Transition.ofFunction (· = Client.NativeTransport.connecting) clientQueueStep

-- Everything appended in a run, in order.
def appended {σ : Type} (past : List (σ × QueueEvent)) : Bytes := past.flatMap fun p => p.2.appended

@[simp] theorem appended_nil {σ : Type} : appended ([] : List (σ × QueueEvent)) = [] := rfl

@[simp] theorem appended_concat {σ : Type} (past : List (σ × QueueEvent)) (s : σ) (e : QueueEvent) :
    appended (past ++ [(s, e)]) = appended past ++ e.appended := by
  simp [appended]

-- Nothing is appended behind an unsent TLS record that more bytes would have
-- filled.
def appendSafe (tls : Option TlsOut) : QueueEvent → Prop
  | .append bytes => bytes = [] ∨ shortRecord tls = false
  | _ => True

instance (tls : Option TlsOut) : DecidablePred (appendSafe tls)
  | .append _ => inferInstanceAs (Decidable (_ ∨ _))
  | .flush _ | .connected _ | .handshaken | .dropped => .isTrue trivial

-- Sent and unsent bytes together are the bytes appended.
structure QueueInStep (tls : Option TlsOut) (wire unsent appended : Bytes) : Prop where
  whole : wire ++ unsent = appended
  owes : Owes tls unsent

theorem QueueInStep.wire_prefix {tls : Option TlsOut} {wire unsent all : Bytes}
    (h : QueueInStep tls wire unsent all) : wire <+: all := ⟨unsent, h.whole⟩

theorem QueueInStep.append {tls : Option TlsOut} {wire unsent all : Bytes} (h : QueueInStep tls wire unsent all)
    (more : Bytes) (hsafe : appendSafe tls (.append more)) :
    QueueInStep tls wire (unsent ++ more) (all ++ more) :=
  ⟨by rw [← List.append_assoc, h.whole], h.owes.append more hsafe⟩

theorem QueueInStep.newTls {tls : Option TlsOut} {wire unsent all : Bytes} (h : QueueInStep tls wire unsent all)
    (params : Option (Nat × Nat)) : QueueInStep (newTls params) wire unsent all := by
  refine ⟨h.whole, ?_⟩
  cases params with
  | none => exact owes_none unsent
  | some p => exact owes_idle rfl unsent

-- A round of sending moves bytes from unsent to wire.
theorem QueueInStep.drain {W : Writer (Option TlsOut) UInt8 SockAnswer} (hW : W.InOrder Owes)
    {tls : Option TlsOut} {wire unsent all : Bytes} (h : QueueInStep tls wire unsent all)
    (answers : List SockAnswer) :
    let r := W.drain answers tls unsent
    r.count ≤ unsent.length ∧ QueueInStep r.writer (wire ++ r.delivered) (unsent.drop r.count) all := by
  obtain ⟨hgot, hle, howes⟩ := W.drain_spec hW answers tls unsent h.owes
  refine ⟨hle, ?_, howes⟩
  rw [hgot, List.append_assoc, List.take_append_drop, h.whole]

structure HostInStep (c : Host.Conn) (all : Bytes) : Prop where
  off_le : c.outOff ≤ c.out.length
  inStep : QueueInStep c.tls c.wire (c.out.drop c.outOff) all

theorem HostInStep.sendPending {c : Host.Conn} {all : Bytes} (h : HostInStep c all)
    (answers : List SockAnswer) : HostInStep (c.sendPending answers).2 all := by
  obtain ⟨hle, hsent⟩ := h.inStep.drain link_inOrder answers
  rw [List.length_drop] at hle
  have := h.off_le
  refine ⟨?_, ?_⟩
  · dsimp only [Host.Conn.sendPending]
    omega
  · rwa [List.drop_drop] at hsent

theorem HostInStep.settle {c : Host.Conn} {all : Bytes} (h : HostInStep c all) :
    HostInStep c.settle all := by
  have hoff := h.off_le
  unfold Host.Conn.settle
  rw [Host.Conn.pending_of_le hoff]
  by_cases hpending : c.out.length - c.outOff = 0
  · have hdrop : c.out.drop c.outOff = [] := List.drop_of_length_le (by omega)
    rw [if_pos hpending]
    exact ⟨Nat.le_refl _, by simpa [hdrop] using h.inStep⟩
  · rw [if_neg hpending]
    split_ifs with hfar
    · refine ⟨Nat.zero_le _, ?_⟩
      have hconsume : rdBufConsume c.out c.outOff = c.out.drop c.outOff := if_neg (by omega)
      simpa [hconsume] using h.inStep
    · exact h

theorem HostInStep.step {c : Host.Conn} {all : Bytes} (h : HostInStep c all) (e : QueueEvent)
    (hsafe : appendSafe c.tls e) : HostInStep (hostQueueStep c e) (all ++ e.appended) := by
  cases e with
  | append bytes =>
      have hoff := h.off_le
      refine ⟨by simp only [hostQueueStep, List.length_append]; omega, ?_⟩
      simpa [hostQueueStep, QueueEvent.appended, List.drop_append_of_le_length hoff] using
        h.inStep.append bytes hsafe
  | flush answers =>
      simp only [hostQueueStep, QueueEvent.appended, List.append_nil, Host.Conn.flush]
      split_ifs
      · exact h
      · exact h
      · exact ⟨(h.sendPending answers).off_le, (h.sendPending answers).inStep⟩
      · exact (h.sendPending answers).settle
  | connected tls =>
      simp only [hostQueueStep, QueueEvent.appended, List.append_nil]
      split_ifs
      · exact ⟨h.off_le, h.inStep.newTls tls⟩
      · exact h
  | handshaken => exact ⟨h.off_le, by simpa [hostQueueStep, QueueEvent.appended] using h.inStep⟩
  | dropped => exact ⟨h.off_le, by simpa [hostQueueStep, QueueEvent.appended] using h.inStep⟩

-- Once the socket is closed nothing more reaches the peer.
structure ClientInStep (t : Client.NativeTransport) (all : Bytes) : Prop where
  wire_prefix : t.wire <+: all
  inStep : t.sockOpen = true → QueueInStep t.tls t.wire t.out all

theorem ioWriter_inOrder (t : Client.NativeTransport) : t.ioWriter.InOrder Owes where
  sent := by
    intro tls buf answer n tls' got howes hsend
    unfold Client.NativeTransport.ioWriter at hsend
    cases hopen : t.sockOpen with
    | false => simp [hopen] at hsend
    | true =>
        simp only [hopen, if_true] at hsend
        exact link_inOrder.sent _ _ _ _ _ _ howes hsend
  failed := by
    intro tls buf answer tls' got howes hsend
    unfold Client.NativeTransport.ioWriter at hsend
    cases hopen : t.sockOpen with
    | false =>
        simp only [hopen, Bool.false_eq_true, if_false, Prod.mk.injEq, true_and] at hsend
        obtain ⟨rfl, rfl⟩ := hsend
        exact ⟨rfl, howes⟩
    | true =>
        simp only [hopen, if_true] at hsend
        exact link_inOrder.failed _ _ _ _ _ howes hsend

theorem drain_closed (t : Client.NativeTransport) (hclosed : t.sockOpen = false)
    (answers : List SockAnswer) (tls : Option TlsOut) (buf : Bytes) :
    (t.ioWriter.drain answers tls buf).delivered = [] := by
  cases answers with
  | nil => rfl
  | cons answer answers =>
      unfold Writer.drain
      split_ifs
      · rfl
      · simp [Client.NativeTransport.ioWriter, hclosed]

theorem ClientInStep.flush {t : Client.NativeTransport} {all : Bytes} (h : ClientInStep t all)
    (answers : List SockAnswer) : ClientInStep (t.flush answers) all := by
  unfold Client.NativeTransport.flush
  split_ifs with hblocked
  · exact h
  dsimp only
  cases hopen : t.sockOpen with
  | false =>
      have hnone := drain_closed t hopen answers t.tls t.out
      rw [hnone, List.append_nil]
      split_ifs
      · exact ⟨h.wire_prefix, by simp [Client.NativeTransport.fail]⟩
      · exact ⟨h.wire_prefix, by simp⟩
  | true =>
      obtain ⟨hle, hsent⟩ := (h.inStep hopen).drain (ioWriter_inOrder t) answers
      split_ifs
      · exact ⟨hsent.wire_prefix, by simp [Client.NativeTransport.fail]⟩
      · refine ⟨hsent.wire_prefix, fun _ => ?_⟩
        have hconsume : ∀ n ≤ t.out.length, rdBufConsume t.out n = t.out.drop n := by
          intro n hn
          unfold rdBufConsume
          split_ifs with hall
          · rw [List.drop_of_length_le hall]
          · rfl
        dsimp only
        rwa [hconsume _ hle]

theorem ClientInStep.step {t : Client.NativeTransport} {all : Bytes} (h : ClientInStep t all)
    (e : QueueEvent) (hsafe : appendSafe t.tls e) :
    ClientInStep (clientQueueStep t e) (all ++ e.appended) := by
  cases e with
  | append bytes =>
      exact ⟨h.wire_prefix.trans (List.prefix_append _ _), fun hopen => (h.inStep hopen).append bytes hsafe⟩
  | flush answers => simpa [clientQueueStep, QueueEvent.appended] using h.flush answers
  | connected tls =>
      simp only [clientQueueStep, QueueEvent.appended, List.append_nil]
      split_ifs
      · exact h
      · exact ⟨h.wire_prefix, fun hopen => (h.inStep hopen).newTls tls⟩
  | handshaken =>
      simp only [clientQueueStep, QueueEvent.appended, List.append_nil]
      exact ⟨h.wire_prefix, h.inStep⟩
  | dropped =>
      simp only [clientQueueStep, QueueEvent.appended, List.append_nil]
      exact ⟨h.wire_prefix, by simp [Client.NativeTransport.fail]⟩

-- The peer of either side has been handed a prefix of what was appended, in every
-- run that appends nothing behind a short pending record.
theorem send_queues_in_order (hostPast : List (Host.Conn × QueueEvent))
    (clientPast : List (Client.NativeTransport × QueueEvent)) :
    (∀ c, Transition.Run hostQueue hostPast c → (∀ p ∈ hostPast, appendSafe p.1.tls p.2) →
      c.wire <+: appended hostPast) ∧
    (∀ t, Transition.Run clientQueue clientPast t → (∀ p ∈ clientPast, appendSafe p.1.tls p.2) →
      t.wire <+: appended clientPast) := by
  constructor
  · intro c run hsafe
    have h : HostInStep c (appended hostPast) := by
      refine run.guarded (fun c e => appendSafe c.tls e)
        (fun past c => HostInStep c (appended past)) ?_ ?_ hsafe
      · rintro c ⟨hout, hoff, hwire, htls⟩
        refine ⟨by rw [hoff]; exact Nat.zero_le _, ?_⟩
        rw [hout, hoff, hwire, htls]
        exact ⟨rfl, owes_none _⟩
      · rintro past c e _ h hsafe rfl
        rw [appended_concat]
        exact h.step e hsafe
    exact h.inStep.wire_prefix
  · intro t run hsafe
    have h : ClientInStep t (appended clientPast) := by
      refine run.guarded (fun t e => appendSafe t.tls e)
        (fun past t => ClientInStep t (appended past)) ?_ ?_ hsafe
      · rintro t rfl
        exact ⟨List.prefix_rfl, fun _ => ⟨rfl, owes_none _⟩⟩
      · rintro past t e _ h hsafe rfl
        rw [appended_concat]
        exact h.step e hsafe
    exact h.wire_prefix

-- A frame split over two flushes of a plain link, and one sent after a whole TLS
-- record went out.
theorem send_queues_in_order_two_flushes :
    [1, 2, 3, 4, 5] <+: appended (Transition.history hostQueueStep (Host.Conn.fresh 0)
      [.append [1, 2, 3], .flush [.accepts 2, .accepts 0], .append [4, 5], .flush [.accepts 9]]) ∧
    [1, 2, 3, 4] <+: appended (Transition.history clientQueueStep Client.NativeTransport.connecting
      [.connected (some (16384, 22)), .handshaken, .append [1, 2, 3], .flush [.accepts 25],
        .append [4], .flush [.accepts 23]]) := by
  constructor
  · have run := Transition.run_events idleConn hostQueueStep (s := Host.Conn.fresh 0) (by decide)
      [.append [1, 2, 3], .flush [.accepts 2, .accepts 0], .append [4, 5], .flush [.accepts 9]]
    exact (send_queues_in_order _ []).1 _ run (by decide)
  · have run := Transition.run_events (· = Client.NativeTransport.connecting) clientQueueStep rfl
      [.connected (some (16384, 22)), .handshaken, .append [1, 2, 3], .flush [.accepts 25],
        .append [4], .flush [.accepts 23]]
    exact (send_queues_in_order [] _).2 _ run (by decide)

-- A pong queued between a blocked TLS write and its retry: mbedTLS finishes the
-- record of the first pong and reports the length of both.
def pongBetween : List QueueEvent :=
  [.connected (some (16384, 22)), .handshaken, .append [0x8A, 0x80, 1, 2, 3, 4], .flush [.accepts 10],
    .append [0x8A, 0x81, 5, 6, 7, 8, 0x64], .flush [.accepts 18],
    .append [0x8A, 0x80, 9, 10, 11, 12], .flush [.accepts 28]]

def relayConn : Host.Conn := { Host.Conn.fresh 0 with clientWs := true, tcpPending := true }

theorem send_queues_lose_bytes :
    (∃ past c, Transition.Run hostQueue past c ∧ ¬ c.wire <+: appended past) ∧
    (∃ past t, Transition.Run clientQueue past t ∧ ¬ t.wire <+: appended past) := by
  constructor
  · exact ⟨_, _, Transition.run_events idleConn hostQueueStep (s := relayConn) (by decide) pongBetween,
      by decide⟩
  · exact ⟨_, _, Transition.run_events (· = Client.NativeTransport.connecting) clientQueueStep rfl
      pongBetween, by decide⟩

end TetherDesk
