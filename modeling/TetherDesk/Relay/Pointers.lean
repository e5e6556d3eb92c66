import TetherDesk.Relay.Steps
import TetherDesk.Relay.Wire
import TetherDesk.Secure.Reference

namespace TetherDesk.Relay

open TetherDesk.Net TetherDesk.Secure TetherDesk.Lib.Transition

section Runs

variable {cr : Crypto} {s : Globals} {past : List (Globals × Event)}

-- What holds of the relay between events.
structure Globals.Sane (s : Globals) : Prop where
  tidy : Tidy s
  sound : s.view.Sound
  ledger : s.view.Ledger
  wire : s.view.Wire

theorem sane_started (webRoot : Bytes) : (Globals.started webRoot).Sane where
  tidy := ⟨List.nodup_nil, fun _ hu => by cases hu⟩
  sound := ⟨fun _ _ _ hn => (by cases hn), fun _ _ ht => (by cases ht), fun _ _ _ hh => (by cases hh)⟩
  ledger :=
    { born := fun _ _ hn => (by cases hn)
      quiet := fun u _ => ⟨rfl, rfl, fun e he => (by cases he), fun w hl => (by obtain ⟨p, hp, -⟩ := hl; cases hp)⟩
      fresh := fun _ _ hn => (by cases hn)
      origin := fun _ _ he => (by cases he)
      kinds := fun _ hp => (by cases hp)
      distinct := List.nodup_nil
      linked := fun _ _ _ hn => (by cases hn)
      granted := fun _ hp => (by cases hp)
      asked := fun _ _ hn => (by cases hn)
      kept := fun _ => List.prefix_refl _
      held := fun _ _ hn => (by cases hn)
      ordered := fun _ _ _ => List.prefix_refl _
      exact := fun _ _ _ hn => (by cases hn) }
  wire := ⟨fun _ _ hn => (by cases hn), fun _ _ hn => (by cases hn), fun _ => List.nil_prefix⟩

-- One event is the work on one connection, or opens or erases connections.
inductive Stepped (presented : Option Bytes) (kept : WsMsg → Prop) (s s' : Globals) : Prop
  | served (a : Nat) (h : Serves a presented kept s s')
  | opened (h : s'.view = s.view.accept)
  | erased (h : s'.view = s.view.reap)

theorem read_serves (h : s.Sane) (uid : Nat) (data : Bytes) (closed : Bool) (io : Io) (kept : WsMsg → Prop)
    (hkept : ∀ m ∈ s.heldBy (.read uid data closed io), kept m) :
    Serves uid (s.presented (.read uid data closed io)) kept s (Event.apply cr s (.read uid data closed io)) := by
  unfold Event.apply
  dsimp only
  by_cases hlive : s.live uid = true
  · rw [if_pos hlive]
    obtain ⟨c, hc, halive⟩ : ∃ c, s.find uid = some c ∧ c.dead = false := by
      unfold Globals.live at hlive
      cases hc : s.find uid with
      | none =>
          rw [hc] at hlive
          cases hlive
      | some c =>
          rw [hc] at hlive
          exact ⟨c, rfl, by simpa using hlive⟩
    refine readConn_serves h.sound hc halive (fun hviewer => ?_) data closed io hkept
    cases hpeer : c.peer with
    | none => rfl
    | some w =>
        have hlinked := h.ledger.linked uid c.node w (view_node hc) hpeer
        exact absurd hlinked (h.ledger.viewer_unlinked (view_node hc) hviewer.1 hviewer.2 w)
  · rw [if_neg hlive]
    exact ⟨rfl, .refl⟩

theorem Event.apply_steps (h : s.Sane) (e : Event) (kept : WsMsg → Prop) (hkept : ∀ m ∈ s.heldBy e, kept m) :
    Stepped (s.presented e) kept s (e.apply cr s) ∧ Tidy (e.apply cr s) := by
  have hserved : ∀ a s', Serves a (s.presented e) kept s s' →
      Stepped (s.presented e) kept s s' ∧ Tidy s' := by
    intro a s' hserves
    have hnext : s'.nextUid = s.nextUid := View.Ledger.acts_nextUid hserves.acts
    exact ⟨.served a hserves, hserves.uids ▸ h.tidy.distinct, fun u hu => hnext ▸ h.tidy.used u (hserves.uids ▸ hu)⟩
  cases e with
  | accept addr now =>
      obtain ⟨hsame | hview, htidy⟩ := accept_view h.tidy addr now
      · have hstep : Event.apply cr s (.accept addr now) = s := hsame
        rw [hstep]
        exact hserved s.nextUid s ⟨rfl, .refl⟩
      · exact ⟨.opened hview, htidy⟩
  | read uid data closed io =>
      exact hserved uid _ (read_serves h uid data closed io kept hkept)
  | flush uid answers =>
      unfold Event.apply
      dsimp only
      split
      · exact hserved uid _ (flush_serves answers)
      · exact hserved uid s ⟨rfl, .refl⟩
  | sweep uid now answers => exact hserved uid _ (sweep_serves now answers)
  | reap =>
      obtain ⟨hview, htidy⟩ := reap_view h.tidy
      exact ⟨.erased hview, htidy⟩

theorem Globals.Sane.next (h : s.Sane) (e : Event) : (e.apply cr s).Sane := by
  obtain ⟨hstep, htidy⟩ := e.apply_steps h (fun _ => True) fun _ _ => trivial
  generalize e.apply cr s = s' at hstep htidy ⊢
  cases hstep with
  | served a hserves =>
      exact ⟨htidy, h.sound.acts hserves.acts, h.ledger.acts h.sound hserves.acts,
        h.wire.acts h.sound h.ledger hserves.acts⟩
  | opened hview =>
      have hunused : s.view.node s.view.nextUid = none := congrArg (Option.map Conn.node) (find_unused h.tidy)
      exact ⟨htidy, hview ▸ h.sound.accept hunused, hview ▸ h.ledger.accept, hview ▸ h.wire.accept⟩
  | erased hview => exact ⟨htidy, hview ▸ h.sound.reap, hview ▸ h.ledger.reap, hview ▸ h.wire.reap⟩

theorem relay_sane (run : Run (relayRuns cr) past s) : s.Sane := by
  refine run.invariant (fun _ s => s.Sane) ?_ fun _ s e t h ht => ?_
  · rintro _ ⟨webRoot, rfl⟩
    exact sane_started webRoot
  · obtain ⟨-, rfl⟩ := ht
    exact h.next e

end Runs

section Pointers

-- The pointers of the relay as the source keeps them: in peer, g_tickets and g_hosts.
structure Globals.PointersSound (s : Globals) : Prop where
  distinct : (s.conns.map Conn.uid).Nodup
  peers : ∀ c ∈ s.conns, ∀ p, c.peer = some p → c.dead = false ∧ ∃ d ∈ s.conns, d.uid = p ∧ d.peer = some c.uid ∧
    d.dead = false ∧ (c.kind = .Viewer ∧ d.kind = .HostData ∨ c.kind = .HostData ∧ d.kind = .Viewer)
  tickets : ∀ t u, s.tickets t = some u →
    ∃ c ∈ s.conns, c.uid = u ∧ c.dead = false ∧ c.kind = .Viewer ∧ c.peer = none ∧ c.ticket = t
  hosts : ∀ id h u, s.hosts id = some h → h.ctl = some u →
    ∃ c ∈ s.conns, c.uid = u ∧ c.dead = false ∧ c.kind = .HostCtl ∧ c.id = id
  unreachable : ∀ c ∈ s.conns, c.dead = true → (∀ d ∈ s.conns, d.peer ≠ some c.uid) ∧
    (∀ t, s.tickets t ≠ some c.uid) ∧
    ∀ id h, s.hosts id = some h → h.ctl ≠ some c.uid

variable {cr : Crypto} {s : Globals} {past : List (Globals × Event)}

theorem relay_pointers (run : Run (relayRuns cr) past s) : s.PointersSound := by
  obtain ⟨htidy, hsound, -, -⟩ := relay_sane run
  have hrow : ∀ u n, s.view.node u = some n → ∃ c ∈ s.conns, c.uid = u ∧ c.node = n := by
    intro u n hn
    obtain ⟨c, hc, rfl⟩ := find_of_node hn
    exact ⟨c, List.mem_of_find?_eq_some hc, find_uid hc, rfl⟩
  have hpeers : ∀ c ∈ s.conns, ∀ p, c.peer = some p → c.dead = false ∧ ∃ d ∈ s.conns, d.uid = p ∧
      d.peer = some c.uid ∧
      d.dead = false ∧ (c.kind = .Viewer ∧ d.kind = .HostData ∨ c.kind = .HostData ∧ d.kind = .Viewer) := by
    intro c hc p hp
    obtain ⟨halive, n, hn, hnalive, hnpeer, hkinds⟩ :=
      hsound.peers c.uid c.node p (view_node (find_mem htidy hc)) hp
    obtain ⟨d, hd, hduid, rfl⟩ := hrow p n hn
    exact ⟨halive, d, hd, hduid, hnpeer, hnalive, hkinds⟩
  have htickets : ∀ t u, s.tickets t = some u →
      ∃ c ∈ s.conns, c.uid = u ∧ c.dead = false ∧ c.kind = .Viewer ∧ c.peer = none ∧ c.ticket = t := by
    intro t u ht
    obtain ⟨-, n, hn, halive, hkind, hpeer, hticket⟩ := hsound.tickets t u ht
    obtain ⟨c, hc, huid, rfl⟩ := hrow u n hn
    exact ⟨c, hc, huid, halive, hkind, hpeer, hticket⟩
  have hhosts : ∀ id h u, s.hosts id = some h → h.ctl = some u →
      ∃ c ∈ s.conns, c.uid = u ∧ c.dead = false ∧ c.kind = .HostCtl ∧ c.id = id := by
    intro id h u hh hctl
    obtain ⟨n, hn, halive, hkind, hid⟩ := hsound.hosts id h u hh hctl
    obtain ⟨c, hc, huid, rfl⟩ := hrow u n hn
    exact ⟨c, hc, huid, halive, hkind, hid⟩
  have hsame : ∀ c ∈ s.conns, ∀ d ∈ s.conns, c.uid = d.uid → c = d :=
    fun c hc d hd huid => Lib.Table.row_unique Conn.uid htidy.distinct hc hd huid
  refine ⟨htidy.distinct, hpeers, htickets, hhosts, fun c hc hdead => ⟨?_, ?_, ?_⟩⟩
  · intro d hd hp
    obtain ⟨-, c', hc', huid, -, halive, -⟩ := hpeers d hd c.uid hp
    rw [hsame c' hc' c hc huid, hdead] at halive
    cases halive
  · intro t ht
    obtain ⟨c', hc', huid, halive, -⟩ := htickets t c.uid ht
    rw [hsame c' hc' c hc huid, hdead] at halive
    cases halive
  · intro id h hh hctl
    obtain ⟨c', hc', huid, halive, -⟩ := hhosts id h c.uid hh hctl
    rw [hsame c' hc' c hc huid, hdead] at halive
    cases halive

def upgradeRequest (target : String) : Bytes :=
  ascii "GET " ++ ascii target ++ ascii " HTTP/1.1" ++ crlf ++ ascii "Upgrade: websocket" ++ crlf ++
    ascii "Sec-WebSocket-Key: dGhlIHNhbXBsZSBub25jZQ==" ++ crlf ++ crlf

def quietIo : Io := ⟨0, fun _ => .absent, fun _ => 0, fun _ => 0⟩

-- A host registers, a viewer asks for it with some frames behind its request, and the
-- host redeems the ticket.
def pairingEvents (frames : Bytes) : List Event :=
  [.accept (ascii "192.0.2.1") 0,
    .read 0 (upgradeRequest "/host?id=123456789&key=0123456789abcdef0123456789abcdef") false quietIo,
    .accept (ascii "192.0.2.2") 0,
    .read 1 (upgradeRequest "/v/123456789" ++ frames) false quietIo,
    .accept (ascii "192.0.2.1") 0,
    .read 2 (upgradeRequest
      "/data?id=123456789&key=0123456789abcdef0123456789abcdef&ticket=00000000000000000000000000000000")
        false quietIo]

def paired (frames : Bytes) : Globals :=
  (pairingEvents frames).foldl (fun s e => e.apply reference s) (Globals.started [])

def historyOf (events : List Event) : List (Globals × Event) :=
  history (fun s e => Event.apply reference s e) (Globals.started []) events

-- The run of these events when no file throws.
theorem events_run (events : List Event) (h : ∀ p ∈ historyOf events, p.1.thrown = false) :
    Run (relayRuns reference) (historyOf events)
      (events.foldl (fun s e => e.apply reference s) (Globals.started [])) :=
  have hstart : Run (relayRuns reference) [] (Globals.started []) := .start ⟨[], rfl⟩
  run_history (fun s e => Event.apply reference s e) hstart events fun p hp => ⟨h p hp, rfl⟩

theorem paired_run (frames : Bytes) (h : ∀ p ∈ historyOf (pairingEvents frames), p.1.thrown = false) :
    Run (relayRuns reference) (historyOf (pairingEvents frames)) (paired frames) := events_run _ h

theorem relay_pointers_paired : (paired []).PointersSound ∧ ((paired []).find 2).bind Conn.peer = some 1 :=
  ⟨relay_pointers (paired_run [] (by decide +kernel)), by decide +kernel⟩

end Pointers

end TetherDesk.Relay
