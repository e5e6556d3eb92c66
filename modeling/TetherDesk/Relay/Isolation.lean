import TetherDesk.Relay.Pointers

namespace TetherDesk.Relay

open TetherDesk.Net TetherDesk.Secure TetherDesk.Lib.Transition

section Entries

namespace View

variable {v v' : View} {a w : Nat} {presented : Option Bytes} {keeps : WsMsg → Prop} {id : Bytes} {e : HostEntry}

-- What an action of a can do to an entry.
inductive EntryMove (a : Nat) (presented : Option Bytes) (v v' : View) (id : Bytes) : Prop
  | stays (h : v'.hosts id = v.hosts id)
  | cleared (e : HostEntry) (before : v.hosts id = some e) (own : e.ctl = some a)
      (after : v'.hosts id = some { e with ctl := none })
  | taken (key : Bytes) (request : presented = some key) (owned : ∀ e, v.hosts id = some e → e.ctl ≠ none →
      e.key = key)
      (after : v'.hosts id = some ⟨key, some a⟩) (http : ∃ n, v.node a = some n ∧ n.kind = .Http ∧ n.dead = false)

theorem kill_entry (presented : Option Bytes) (id : Bytes) : EntryMove a presented v (v.kill a) id := by
  by_cases hgone : v.node a = none ∨ ∃ n, v.node a = some n ∧ n.dead = true
  · rw [kill_none hgone]
    exact .stays rfl
  obtain ⟨n, hn⟩ : ∃ n, v.node a = some n := Option.ne_none_iff_exists'.mp fun hnone => hgone (.inl hnone)
  have halive : n.dead = false := by simpa using fun hdead => hgone (.inr ⟨n, hn, hdead⟩)
  have hhosts := kill_hosts hn halive id
  cases he : v.hosts id with
  | none =>
      rw [he] at hhosts
      exact .stays (hhosts.trans he.symm)
  | some e =>
      rw [he, Option.map_some] at hhosts
      by_cases hown : n.kind = .HostCtl ∧ id = n.id ∧ e.ctl = some a
      · rw [if_pos hown] at hhosts
        exact .cleared e he hown.2.2 hhosts
      · rw [if_neg hown] at hhosts
        exact .stays (hhosts.trans he.symm)

theorem action_entry (hsound : v.Sound) (hact : Action a presented keeps v v') (id : Bytes) :
    EntryMove a presented v v' id := by
  cases hact with
  | kill => exact kill_entry presented id
  | overflow n m r inn hn halive hnext hwaiting =>
      cases kill_entry (a := a) (v := v.hear a r inn m) presented id with
      | stays h => exact .stays h
      | cleared e hbefore hown hafter => exact .cleared e hbefore hown hafter
      | taken key hrequest howned hafter hhttp =>
          obtain ⟨m', hm', hkind, -⟩ := hhttp
          have hrow : (v.hear a r inn m).node a = some { n with ws := r, inn := inn } := Ledger.take_self hn r inn
          obtain rfl := Option.some.inj (hrow.symm.trans hm')
          have hviewer := hwaiting.1
          rw [show n.kind = .Http from hkind] at hviewer
          cases hviewer
  | register n id' key hn hkind halive hrequest howned =>
      by_cases hid : id = id'
      · subst hid
        exact .taken key hrequest howned (Function.update_self _ _ _) ⟨n, hn, hkind, halive⟩
      · refine .stays ((Function.update_of_ne hid _ _).trans ?_)
        show (v.retire ((v.hosts id').bind HostEntry.ctl)).hosts id = v.hosts id
        cases hctl : (v.hosts id').bind HostEntry.ctl with
        | none => rfl
        | some old =>
            -- the stale channel belongs to the other id
            obtain ⟨e', he', hold⟩ := Option.bind_eq_some_iff.mp hctl
            obtain ⟨m, hm, hmalive, -, hmid⟩ := hsound.hosts id' e' old he' hold
            have hhosts := kill_hosts hm hmalive id
            show (v.kill old).hosts id = v.hosts id
            rw [hhosts]
            cases v.hosts id with
            | none => rfl
            | some e => rw [Option.map_some, if_neg fun h => hid (h.2.1.trans hmid)]
  | _ => exact .stays rfl

-- A connection that is served never becomes one that has yet to ask.
theorem action_http (hact : Action a presented keeps v v') {n' : Node} (hn' : v'.node a = some n')
    (hkind : n'.kind = .Http)
    (halive : n'.dead = false) : ∃ n, v.node a = some n ∧ n.kind = .Http ∧ n.dead = false := by
  have hset : ∀ (f : Node → Node), (v.set a f).node a = some n' → ∃ n, v.node a = some n ∧ f n = n' := by
    intro f h
    rw [set_node, if_pos rfl] at h
    exact Option.map_eq_some_iff.mp h
  cases hact with
  | queue u m _ => exact ⟨n', hn', hkind, halive⟩
  | request n inn hn hhttp =>
      obtain ⟨m, hm, rfl⟩ := hset _ hn'
      exact ⟨m, hm, hkind, halive⟩
  | receive n data hn _ =>
      obtain ⟨m, hm, rfl⟩ := hset _ hn'
      exact ⟨m, hm, hkind, halive⟩
  | stall n hn _ _ =>
      obtain ⟨m, hm, rfl⟩ := hset _ hn'
      exact ⟨m, hm, hkind, halive⟩
  | drop n m r inn hn _ _ _ =>
      obtain ⟨m', hm', rfl⟩ := hset _ hn'
      exact ⟨m', hm', hkind, halive⟩
  | forward n p m r inn hn _ _ _ =>
      obtain ⟨m', hm', rfl⟩ := hset _ hn'
      exact ⟨m', hm', hkind, halive⟩
  | hold n m r inn hn _ _ _ hwaiting _ =>
      have hrow : (View.set _ a _).node a = some n' := hn'
      rw [set_node, if_pos rfl, show (v.hear a r inn m).node a = _ from Ledger.take_self hn r inn] at hrow
      obtain rfl := Option.some.inj hrow
      have hviewer := hwaiting.1
      rw [show n.kind = .Http from hkind] at hviewer
      cases hviewer
  | overflow n m r inn hn _ _ hwaiting =>
      obtain ⟨m', hm', hcut⟩ := kill_cut hn'
      have hrow : (v.hear a r inn m).node a = some { n with ws := r, inn := inn } := Ledger.take_self hn r inn
      obtain rfl := Option.some.inj (hrow.symm.trans hm')
      have hviewer := hwaiting.1
      rw [show n.kind = .Http from hcut.less.kind.symm.trans hkind] at hviewer
      cases hviewer
  | unpair n p hn hp =>
      obtain ⟨m, hm, hcut⟩ := unpair_cut hn'
      exact ⟨m, hm, hcut.less.kind ▸ hkind, hcut.less.alive halive⟩
  | kill =>
      obtain ⟨m, hm, hcut⟩ := kill_cut hn'
      exact ⟨m, hm, hcut.less.kind ▸ hkind, hcut.less.alive halive⟩
  | register n id key hn _ _ _ _ =>
      have hrow : (View.set _ a _).node a = some n' := hn'
      rw [set_node, if_pos rfl] at hrow
      obtain ⟨m, -, rfl⟩ := Option.map_eq_some_iff.mp hrow
      cases hkind
  | redeem n w p e hhost hn _ _ _ _ _ _ _ _ =>
      have hrow : (View.set _ p.host _).node a = some n' := hn'
      rw [hhost, set_node, if_pos rfl] at hrow
      obtain ⟨m, -, rfl⟩ := Option.map_eq_some_iff.mp hrow
      cases hkind
  | await n id t hn _ _ _ =>
      obtain ⟨m, -, rfl⟩ := hset _ hn'
      cases hkind
  | refuse n id hn _ =>
      obtain ⟨m, -, rfl⟩ := hset _ hn'
      cases hkind

-- The key of an entry stays while its host is connected.
theorem acts_key (hsound : v.Sound) (hacts : Acts a presented keeps v v') (he : v.hosts id = some e)
    (hctl : e.ctl = some w) :
    ∃ e', v'.hosts id = some e' ∧ e'.key = e.key ∧
      (e'.ctl = none → ∀ n, v'.node a = some n → n.kind = .Http → n.dead = true) := by
  induction hacts with
  | refl => exact ⟨e, he, rfl, fun hnone => by rw [hctl] at hnone; cases hnone⟩
  | @tail v₁ v₂ hacts hact ih =>
      obtain ⟨e', he', hkey, hidle⟩ := ih
      have hsound₁ := hsound.acts hacts
      have hstays : e'.ctl = none → ∀ n, v₂.node a = some n → n.kind = .Http → n.dead = true := by
        intro hnone n hn hkind
        by_contra hlive
        rw [Bool.not_eq_true] at hlive
        obtain ⟨m, hm, hmkind, hmalive⟩ := action_http hact hn hkind hlive
        rw [hidle hnone m hm hmkind] at hmalive
        cases hmalive
      cases action_entry hsound₁ hact id with
      | stays h => exact ⟨e', h.trans he', hkey, hstays⟩
      | cleared e₁ hbefore hown hafter =>
          obtain rfl := Option.some.inj (he'.symm.trans hbefore)
          refine ⟨_, hafter, hkey, fun _ n hn hkind => ?_⟩
          by_contra hlive
          rw [Bool.not_eq_true] at hlive
          -- the control connection itself has been upgraded
          obtain ⟨m, hm, hmkind, -⟩ := action_http hact hn hkind hlive
          obtain ⟨m', hm', -, hctlKind, -⟩ := hsound₁.hosts id e' a he' hown
          obtain rfl := Option.some.inj (hm.symm.trans hm')
          rw [hmkind] at hctlKind
          cases hctlKind
      | taken key hrequest howned hafter hhttp =>
          obtain ⟨n, hn, hkind, halive⟩ := hhttp
          have hlive : e'.ctl ≠ none := by
            intro hnone
            rw [hidle hnone n hn hkind] at halive
            cases halive
          exact ⟨_, hafter, (howned e' he' hlive).symm.trans hkey, fun hnone => by cases hnone⟩

-- A request with another key changes nothing about it.
theorem acts_other_key (hsound : v.Sound) (hacts : Acts a presented keeps v v') (he : v.hosts id = some e)
    (hctl : e.ctl = some w) (hne : w ≠ a) (hkey : presented ≠ some e.key) : v'.hosts id = some e := by
  induction hacts with
  | refl => exact he
  | tail hacts hact ih =>
      cases action_entry (hsound.acts hacts) hact id with
      | stays h => exact h.trans ih
      | cleared e₁ hbefore hown _ =>
          obtain rfl := Option.some.inj (ih.symm.trans hbefore)
          exact absurd (Option.some.inj (hctl.symm.trans hown)) hne
      | taken key hrequest howned _ _ =>
          have hsame := howned e ih (by rw [hctl]; simp)
          exact absurd (hsame ▸ hrequest) hkey

end View

end Entries

section Isolation

-- The binary messages queued on a connection, and those that it has sent since its upgrade.
def Globals.binaryOn (s : Globals) (u : Nat) : List WsMsg :=
    ((s.past.sent u).map Prod.snd).filter fun m => m.opcode = RD_WS_BINARY

def Globals.binaryFrom (s : Globals) (u : Nat) : List WsMsg :=
  (wsSpoken kMaxMessage true (s.past.received u)).filter fun m => m.opcode = RD_WS_BINARY

structure Globals.Isolated (s : Globals) : Prop where
  paired : ∀ c ∈ s.conns, ∀ w, c.kind = .HostData → c.peer = some w → ∃ p ∈ s.past.pairs, p.host = c.uid ∧
    p.viewer = w
  presented : ∀ p ∈ s.past.pairs, (p.ticket, p.viewer, p.id) ∈ s.past.issued ∧ p.key = p.registered
  once : (s.past.pairs.flatMap fun p => [p.host, p.viewer]).Nodup
  tickets : (s.past.issued.map Prod.fst).Nodup → (s.past.pairs.map Pairing.ticket).Nodup
  toHost : ∀ p ∈ s.past.pairs, s.binaryOn p.host <+: s.binaryFrom p.viewer
  toViewer : ∀ p ∈ s.past.pairs, s.binaryOn p.viewer <+: s.binaryFrom p.host
  elsewhere : ∀ u w m, (some w, m) ∈ s.past.sent u →
    ∃ p ∈ s.past.pairs, p.viewer = w ∧ p.host = u ∨ p.host = w ∧ p.viewer = u

-- An event leaves the entry of an id whose host is connected with its owner.
def Globals.OwnerKept (cr : Crypto) (s : Globals) (e : Event) : Prop :=
  ∀ id h u, s.hosts id = some h → h.ctl = some u →
    (∃ h', (e.apply cr s).hosts id = some h' ∧ h'.key = h.key) ∧
    ∀ uid data closed io c, e = .read uid data closed io → s.find uid = some c → c.kind = .Http →
      s.presented e ≠ some h.key → (e.apply cr s).hosts id = some h

variable {cr : Crypto} {s : Globals} {past : List (Globals × Event)}

theorem binary_ordered (h : s.Sane) (hbinary : ∀ u, ∀ m ∈ s.past.waited u, m.opcode = RD_WS_BINARY) {w u : Nat}
    (hl : s.view.Linked w u) : s.binaryOn u <+: s.binaryFrom w := by
  have hall : s.binaryOn u = (s.view.forwarded w u).filter fun m => m.opcode = RD_WS_BINARY := by
    unfold Globals.binaryOn View.forwarded
    rw [List.filter_map, List.filter_map, List.filter_filter]
    refine congrArg (List.map Prod.snd) (List.filter_congr fun e he => ?_)
    obtain ⟨hown, horigin⟩ := h.ledger.origin u e he
    by_cases hbin : e.2.opcode = RD_WS_BINARY
    · cases he1 : e.1 with
      | none => exact absurd hbin (hown he1)
      | some x =>
          obtain rfl := View.linked_unique h.ledger.distinct (horigin x he1).symm hl.symm
          simp
    · simp [hbin]
  have hkeptBinary : (s.view.waited w).map asBinary = s.view.waited w := by
    refine (List.map_congr_left fun m hm => ?_).trans (List.map_id _)
    have hopcode := hbinary w m hm
    unfold asBinary
    rw [← hopcode]
    rfl
  have howed : s.view.owed w = s.view.said w := by
    unfold View.owed
    rw [hkeptBinary]
    exact List.prefix_iff_eq_append.mp (h.ledger.kept w)
  have hdata : s.binaryFrom w = (((wsSpoken kMaxMessage true (s.past.received w)).filter isData).filter
      fun m => m.opcode = RD_WS_BINARY) := by
    unfold Globals.binaryFrom
    rw [List.filter_filter]
    refine List.filter_congr fun m _ => ?_
    by_cases hbin : m.opcode = RD_WS_BINARY
    · simp [isData, hbin, RD_WS_BINARY, RD_WS_PING, RD_WS_PONG, RD_WS_CLOSE]
    · simp [hbin]
  rw [hall, hdata]
  have hordered := h.ledger.ordered w u hl
  rw [howed] at hordered
  exact (hordered.trans ((h.wire.heard w).filter isData)).filter _

theorem isolated_of_sane (h : s.Sane) (hbinary : ∀ u, ∀ m ∈ s.past.waited u, m.opcode = RD_WS_BINARY) :
    s.Isolated where
  paired := by
    intro c hc w hkind hpeer
    obtain ⟨p, hp, ⟨hviewer, -⟩ | hhost⟩ := h.ledger.linked c.uid c.node w (view_node (find_mem h.tidy hc)) hpeer
    · have hnot := ((h.ledger.kinds p hp).2 c.node (hviewer ▸ view_node (find_mem h.tidy hc))).1
      rw [show c.node.kind = .HostData from hkind] at hnot
      cases hnot
    · exact ⟨p, hp, hhost⟩
  presented := h.ledger.granted
  once := h.ledger.distinct
  tickets := by
    intro hissued
    have hmem : ∀ p ∈ s.past.pairs, ∀ q ∈ s.past.pairs, p.ticket = q.ticket → p.viewer = q.viewer := by
      intro p hp q hq hticket
      have hsame := List.inj_on_of_nodup_map hissued (h.ledger.granted p hp).1 (h.ledger.granted q hq).1 hticket
      exact congrArg (fun t => t.2.1) hsame
    have hpairs : s.past.pairs.Pairwise fun p q => p.viewer ≠ q.viewer := by
      refine (List.nodup_flatMap.mp h.ledger.distinct).2.imp fun {p q} hdisjoint heq => ?_
      exact hdisjoint (List.mem_cons_of_mem _ List.mem_cons_self) (heq ▸ List.mem_cons_of_mem _ List.mem_cons_self)
    rw [List.Nodup, List.pairwise_map]
    exact hpairs.imp_of_mem fun hp hq hne hticket => hne (hmem _ hp _ hq hticket)
  toHost := fun p hp => binary_ordered h hbinary ⟨p, hp, .inl ⟨rfl, rfl⟩⟩
  toViewer := fun p hp => binary_ordered h hbinary ⟨p, hp, .inr ⟨rfl, rfl⟩⟩
  elsewhere := fun u w m hm => (h.ledger.origin u (some w, m) hm).2 w rfl

theorem owner_kept (h : s.Sane) (e : Event) : s.OwnerKept cr e := by
  intro id entry u hentry hctl
  obtain ⟨hstep, -⟩ := e.apply_steps h (fun _ => True) fun _ _ => trivial
  refine ⟨?_, fun uid data closed io c he hc hkind hkey => ?_⟩
  · cases hstep with
    | served a hserves =>
        obtain ⟨e', he', hsame, -⟩ := View.acts_key h.sound hserves.acts hentry hctl
        exact ⟨e', he', hsame⟩
    | opened hview => exact ⟨entry, (congrArg (fun v => v.hosts id) hview).trans hentry, rfl⟩
    | erased hview => exact ⟨entry, (congrArg (fun v => v.hosts id) hview).trans hentry, rfl⟩
  · subst he
    have hserves := @read_serves cr s h uid data closed io (fun _ => True) fun _ _ => trivial
    -- the host's connection is not the one that asks
    have hne : u ≠ uid := by
      rintro rfl
      obtain ⟨n, hn, -, hnkind, -⟩ := h.sound.hosts id entry u hentry hctl
      obtain rfl := Option.some.inj ((view_node hc).symm.trans hn)
      rw [show c.node.kind = .Http from hkind] at hnkind
      cases hnkind
    exact View.acts_other_key h.sound hserves.acts hentry hctl hne hkey

theorem waited_binary (run : Run (relayRuns cr) past s)
    (hbinary : ∀ q ∈ past, ∀ m ∈ q.1.heldBy q.2, m.opcode = RD_WS_BINARY) :
    s.Sane ∧ ∀ u, ∀ m ∈ s.past.waited u, m.opcode = RD_WS_BINARY := by
  refine run.guarded (fun s e => ∀ m ∈ s.heldBy e, m.opcode = RD_WS_BINARY)
    (fun _ s => s.Sane ∧ ∀ u, ∀ m ∈ s.past.waited u, m.opcode = RD_WS_BINARY) ?_ ?_ hbinary
  · rintro _ ⟨webRoot, rfl⟩
    exact ⟨sane_started webRoot, fun u m hm => by cases hm⟩
  · rintro _ s e t ⟨h, hwaited⟩ hguard ⟨-, rfl⟩
    refine ⟨h.next e, ?_⟩
    obtain ⟨hstep, -⟩ := e.apply_steps h (fun m => m.opcode = RD_WS_BINARY) hguard
    show ∀ u, ∀ m ∈ (e.apply cr s).view.waited u, m.opcode = RD_WS_BINARY
    generalize e.apply cr s = s' at hstep ⊢
    cases hstep with
    | served a hserves => exact View.Ledger.acts_waited hserves.acts hwaited
    | opened hview =>
        rw [hview]
        exact hwaited
    | erased hview =>
        rw [hview]
        exact hwaited

-- While no viewer sends anything but binary messages before its host has come.
theorem relay_isolation (run : Run (relayRuns cr) past s)
    (hbinary : ∀ q ∈ past, ∀ m ∈ q.1.heldBy q.2, m.opcode = RD_WS_BINARY) : s.Isolated ∧ ∀ e, s.OwnerKept cr e := by
  obtain ⟨h, hwaited⟩ := waited_binary run hbinary
  exact ⟨isolated_of_sane h hwaited, owner_kept h⟩

theorem relay_isolation_pipelined :
    (paired (rdWsWriteFrame RD_WS_BINARY (ascii "hi") (some [1, 2, 3, 4]))).Isolated ∧
    (paired (rdWsWriteFrame RD_WS_BINARY (ascii "hi") (some [1, 2, 3, 4]))).binaryOn 2 =
      [⟨RD_WS_BINARY, ascii "hi"⟩] := by
  refine ⟨?_, by decide +kernel⟩
  have run := paired_run (rdWsWriteFrame RD_WS_BINARY (ascii "hi") (some [1, 2, 3, 4])) (by decide +kernel)
  exact (relay_isolation run (by decide +kernel)).1

-- A text that waits is passed on as a binary message, which the viewer has not sent.
theorem relay_text_becomes_binary :
    ¬ ∀ past s, Run (relayRuns reference) past s → s.Isolated ∧ ∀ e, s.OwnerKept reference e := by
  intro halways
  have run := paired_run (rdWsWriteFrame RD_WS_TEXT (ascii "hi") (some [1, 2, 3, 4])) (by decide +kernel)
  have hpair : ∃ p ∈ (paired (rdWsWriteFrame RD_WS_TEXT (ascii "hi") (some [1, 2, 3, 4]))).past.pairs,
      p.host = 2 ∧ p.viewer = 1 := by
    decide +kernel
  obtain ⟨p, hp, hhost, hviewer⟩ := hpair
  have hprefix := (halways _ _ run).1.toHost p hp
  rw [hhost, hviewer] at hprefix
  revert hprefix
  decide +kernel

end Isolation

end TetherDesk.Relay
