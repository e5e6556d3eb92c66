import TetherDesk.Relay.View

namespace TetherDesk.Relay.View

open TetherDesk.Net

-- Every pointer leads to a live connection of the right kind that agrees with it.
structure Sound (v : View) : Prop where
  peers : ∀ u n p, v.node u = some n → n.peer = some p → n.dead = false ∧
    ∃ m, v.node p = some m ∧ m.dead = false ∧ m.peer = some u ∧
      (n.kind = .Viewer ∧ m.kind = .HostData ∨ n.kind = .HostData ∧ m.kind = .Viewer)
  tickets : ∀ t u, v.tickets t = some u → t ≠ [] ∧
    ∃ n, v.node u = some n ∧ n.dead = false ∧ n.kind = .Viewer ∧ n.peer = none ∧ n.ticket = t
  hosts : ∀ id h u, v.hosts id = some h → h.ctl = some u →
    ∃ n, v.node u = some n ∧ n.dead = false ∧ n.kind = .HostCtl ∧ n.id = id

variable {v v' : View} {a u w : Nat} {n : Node} {presented : Option Bytes} {kept : WsMsg → Prop}

namespace Sound

-- Only the links matter.
theorem of_links (h : Sound v) (hnode : ∀ u, (v'.node u).map Node.links = (v.node u).map Node.links)
    (hhosts : v'.hosts = v.hosts) (htickets : v'.tickets = v.tickets) : Sound v' := by
  have hold : ∀ u n', v'.node u = some n' → ∃ n, v.node u = some n ∧ n'.kind = n.kind ∧ n'.dead = n.dead ∧
      n'.id = n.id ∧
      n'.ticket = n.ticket ∧ n'.peer = n.peer := by
    intro u n' hn'
    have hsame := hnode u
    rw [hn', Option.map_some] at hsame
    obtain ⟨n, hn, heq⟩ := Option.map_eq_some_iff.mp hsame.symm
    simp only [Node.links, Prod.mk.injEq] at heq
    exact ⟨n, hn, heq.1.symm, heq.2.1.symm, heq.2.2.1.symm, heq.2.2.2.1.symm, heq.2.2.2.2.symm⟩
  have hnew : ∀ u n, v.node u = some n → ∃ n', v'.node u = some n' ∧ n'.kind = n.kind ∧ n'.dead = n.dead ∧
      n'.id = n.id ∧
      n'.ticket = n.ticket ∧ n'.peer = n.peer := by
    intro u n hn
    have hsame := hnode u
    rw [hn, Option.map_some] at hsame
    obtain ⟨n', hn', -⟩ := Option.map_eq_some_iff.mp hsame
    obtain ⟨n₁, hn₁, hfields⟩ := hold u n' hn'
    obtain rfl := Option.some.inj (hn.symm.trans hn₁)
    exact ⟨n', hn', hfields⟩
  refine ⟨?_, ?_, ?_⟩
  · intro u n' p hn' hp
    obtain ⟨n, hn, hkind, hdead, -, -, hpeer⟩ := hold u n' hn'
    obtain ⟨halive, m, hm, hmalive, hmpeer, hkinds⟩ := h.peers u n p hn (hpeer ▸ hp)
    obtain ⟨m', hm', hkind', hdead', -, -, hpeer'⟩ := hnew p m hm
    exact ⟨hdead.trans halive, m', hm', hdead'.trans hmalive,
      hpeer'.trans hmpeer, by rw [hkind, hkind']; exact hkinds⟩
  · intro t u ht
    rw [htickets] at ht
    obtain ⟨hne, n, hn, halive, hkind, hpeer, hticket⟩ := h.tickets t u ht
    obtain ⟨n', hn', hkind', hdead', -, hticket', hpeer'⟩ := hnew u n hn
    exact ⟨hne, n', hn', hdead'.trans halive, hkind'.trans hkind, hpeer'.trans hpeer, hticket'.trans hticket⟩
  · intro id e u he hctl
    rw [hhosts] at he
    obtain ⟨n, hn, halive, hkind, hid⟩ := h.hosts id e u he hctl
    obtain ⟨n', hn', hkind', hdead', hid', -, -⟩ := hnew u n hn
    exact ⟨n', hn', hdead'.trans halive, hkind'.trans hkind, hid'.trans hid⟩

-- A connection that has not been upgraded is pointed to by nothing.
theorem unknown (h : Sound v) (hn : v.node a = some n) (hkind : n.kind = .Http) :
    n.peer = none ∧ (∀ u m, v.node u = some m → m.peer ≠ some a) ∧ (∀ t, v.tickets t ≠ some a) ∧
      ∀ id e, v.hosts id = some e → e.ctl ≠ some a := by
  refine ⟨?_, ?_, ?_, ?_⟩
  · cases hp : n.peer with
    | none => rfl
    | some p =>
        obtain ⟨-, m, -, -, -, hkinds⟩ := h.peers a n p hn hp
        rw [hkind] at hkinds
        simp at hkinds
  · intro u m hm hp
    obtain ⟨-, m', hm', -, -, hkinds⟩ := h.peers u m a hm hp
    obtain rfl := Option.some.inj (hn.symm.trans hm')
    rw [hkind] at hkinds
    simp at hkinds
  · intro t ht
    obtain ⟨-, m', hm', -, hviewer, -⟩ := h.tickets t a ht
    obtain rfl := Option.some.inj (hn.symm.trans hm')
    rw [hkind] at hviewer
    cases hviewer
  · intro id e he hctl
    obtain ⟨m', hm', -, hctl', -⟩ := h.hosts id e a he hctl
    obtain rfl := Option.some.inj (hn.symm.trans hm')
    rw [hkind] at hctl'
    cases hctl'

theorem kill (h : Sound v) (u : Nat) : Sound (v.kill u) := by
  by_cases hgone : v.node u = none ∨ ∃ n, v.node u = some n ∧ n.dead = true
  · rw [kill_none hgone]
    exact h
  obtain ⟨n, hn⟩ : ∃ n, v.node u = some n := Option.ne_none_iff_exists'.mp fun hnone => hgone (.inl hnone)
  have halive : n.dead = false := by simpa using fun hdead => hgone (.inr ⟨n, hn, hdead⟩)
  -- a connection that is neither the killed one nor its peer stays as it is
  have hstays : ∀ w m, v.node w = some m → w ≠ u → n.peer ≠ some w → (v.kill u).node w = some m := by
    intro w m hm hne hpeer
    rw [kill_node hn halive, if_neg hne, if_neg hpeer, hm]
  refine ⟨?_, ?_, ?_⟩
  · intro w m q hm hq
    rw [kill_node hn halive] at hm
    by_cases hw : w = u
    · rw [if_pos hw] at hm
      obtain rfl := Option.some.inj hm
      cases hq
    by_cases hp : n.peer = some w
    · rw [if_neg hw, if_pos hp] at hm
      obtain ⟨m', -, rfl⟩ := Option.map_eq_some_iff.mp hm
      cases hq
    rw [if_neg hw, if_neg hp] at hm
    obtain ⟨hmalive, d, hd, hdalive, hdpeer, hkinds⟩ := h.peers w m q hm hq
    refine ⟨hmalive, d, hstays q d hd ?_ ?_, hdalive, hdpeer, hkinds⟩
    · rintro rfl
      obtain rfl := Option.some.inj (hn.symm.trans hd)
      exact hp hdpeer
    · intro hnq
      obtain ⟨-, d', hd', -, hd'peer, -⟩ := h.peers u n q hn hnq
      obtain rfl := Option.some.inj (hd.symm.trans hd')
      exact hw (Option.some.inj (hdpeer.symm.trans hd'peer))
  · intro t w ht
    rw [kill_tickets hn halive] at ht
    by_cases hown : n.kind = .Viewer ∧ n.ticket ≠ [] ∧ t = n.ticket
    · rw [if_pos hown] at ht
      cases ht
    rw [if_neg hown] at ht
    obtain ⟨hne, m, hm, hmalive, hkind, hpeer, hticket⟩ := h.tickets t w ht
    refine ⟨hne, m, hstays w m hm ?_ ?_, hmalive, hkind, hpeer, hticket⟩
    · rintro rfl
      obtain rfl := Option.some.inj (hn.symm.trans hm)
      exact hown ⟨hkind, hticket ▸ hne, hticket.symm⟩
    · intro hnw
      obtain ⟨-, m', hm', -, hm'peer, -⟩ := h.peers u n w hn hnw
      obtain rfl := Option.some.inj (hm.symm.trans hm')
      rw [hpeer] at hm'peer
      cases hm'peer
  · intro id e w he hctl
    rw [kill_hosts hn halive _] at he
    obtain ⟨e', he', rfl⟩ := Option.map_eq_some_iff.mp he
    by_cases hown : n.kind = .HostCtl ∧ id = n.id ∧ e'.ctl = some u
    · rw [if_pos hown] at hctl
      cases hctl
    rw [if_neg hown] at hctl
    obtain ⟨m, hm, hmalive, hkind, hid⟩ := h.hosts id e' w he' hctl
    refine ⟨m, hstays w m hm ?_ ?_, hmalive, hkind, hid⟩
    · rintro rfl
      obtain rfl := Option.some.inj (hn.symm.trans hm)
      exact hown ⟨hkind, hid.symm, hctl⟩
    · intro hnw
      obtain ⟨-, m', hm', -, -, hkinds⟩ := h.peers u n w hn hnw
      obtain rfl := Option.some.inj (hm.symm.trans hm')
      rw [hkind] at hkinds
      simp at hkinds

theorem unpair (h : Sound v) {p : Nat} (hn : v.node u = some n) (hp : n.peer = some p) : Sound (v.unpair u p) := by
  obtain ⟨-, m, hm, -, hmpeer, hpairkinds⟩ := h.peers u n p hn hp
  have hstays : ∀ w d, v.node w = some d → w ≠ u → w ≠ p → (v.unpair u p).node w = some d := by
    intro w d hd hu hp
    rw [unpair_node, if_neg (by simp [hu, hp]), hd]
  refine ⟨?_, ?_, ?_⟩
  · intro w d q hd hq
    rw [unpair_node] at hd
    by_cases hpair : w = u ∨ w = p
    · rw [if_pos hpair] at hd
      obtain ⟨d', -, rfl⟩ := Option.map_eq_some_iff.mp hd
      cases hq
    rw [if_neg hpair] at hd
    obtain ⟨hdalive, f, hf, hfalive, hfpeer, hkinds⟩ := h.peers w d q hd hq
    refine ⟨hdalive, f, hstays q f hf ?_ ?_, hfalive, hfpeer, hkinds⟩
    · rintro rfl
      obtain rfl := Option.some.inj (hn.symm.trans hf)
      exact hpair (.inr (Option.some.inj (hfpeer.symm.trans hp)))
    · rintro rfl
      obtain rfl := Option.some.inj (hm.symm.trans hf)
      exact hpair (.inl (Option.some.inj (hfpeer.symm.trans hmpeer)))
  · intro t w ht
    obtain ⟨hne, d, hd, hdalive, hkind, hpeer, hticket⟩ := h.tickets t w ht
    refine ⟨hne, d, hstays w d hd ?_ ?_, hdalive, hkind, hpeer, hticket⟩
    · rintro rfl
      obtain rfl := Option.some.inj (hn.symm.trans hd)
      rw [hpeer] at hp
      cases hp
    · rintro rfl
      obtain rfl := Option.some.inj (hm.symm.trans hd)
      rw [hpeer] at hmpeer
      cases hmpeer
  · intro id e w he hctl
    obtain ⟨d, hd, hdalive, hkind, hid⟩ := h.hosts id e w he hctl
    refine ⟨d, hstays w d hd ?_ ?_, hdalive, hkind, hid⟩
    · rintro rfl
      obtain rfl := Option.some.inj (hn.symm.trans hd)
      rw [hkind] at hpairkinds
      simp at hpairkinds
    · rintro rfl
      obtain rfl := Option.some.inj (hm.symm.trans hd)
      rw [hkind] at hpairkinds
      simp at hpairkinds

-- Killing another connection leaves one that has not been upgraded alone.
theorem kill_other (h : Sound v) (hn : v.node a = some n) (hkind : n.kind = .Http) (hne : u ≠ a) :
    (v.kill u).node a = some n := by
  by_cases hgone : v.node u = none ∨ ∃ m, v.node u = some m ∧ m.dead = true
  · rw [kill_none hgone, hn]
  obtain ⟨m, hm⟩ : ∃ m, v.node u = some m := Option.ne_none_iff_exists'.mp fun hnone => hgone (.inl hnone)
  have halive : m.dead = false := by simpa using fun hdead => hgone (.inr ⟨m, hm, hdead⟩)
  rw [kill_node hm halive, if_neg (Ne.symm hne), if_neg ((h.unknown hn hkind).2.1 u m hm), hn]

theorem retire (h : Sound v) (ctl : Option Nat) : Sound (v.retire ctl) := by
  cases ctl with
  | none => exact h
  | some old => exact h.kill old

-- A connection that nothing points to may become anything.
theorem promote (h : Sound v) (hn : v.node a = some n) (hkind : n.kind = .Http) (f : Node → Node)
    (hf : (f n).peer = n.peer) :
    Sound (v.set a f) := by
  obtain ⟨hpeer, hpeers, htickets, hhosts⟩ := h.unknown hn hkind
  have hstays : ∀ w m, v.node w = some m → w ≠ a → (v.set a f).node w = some m := by
    intro w m hm hne
    rw [set_node, if_neg hne, hm]
  refine ⟨?_, ?_, ?_⟩
  · intro w m q hm hq
    rw [set_node] at hm
    by_cases hw : w = a
    · rw [if_pos hw, hw, hn, Option.map_some, Option.some.injEq] at hm
      rw [← hm, hf, hpeer] at hq
      cases hq
    rw [if_neg hw] at hm
    obtain ⟨hmalive, d, hd, hdalive, hdpeer, hkinds⟩ := h.peers w m q hm hq
    exact ⟨hmalive, d, hstays q d hd fun hqa => hpeers w m hm (hqa ▸ hq), hdalive, hdpeer, hkinds⟩
  · intro t w ht
    obtain ⟨hne, m, hm, hrest⟩ := h.tickets t w ht
    exact ⟨hne, m, hstays w m hm fun hwa => htickets t (hwa ▸ ht), hrest⟩
  · intro id e w he hctl
    obtain ⟨m, hm, hrest⟩ := h.hosts id e w he hctl
    exact ⟨m, hstays w m hm fun hwa => hhosts id e he (hwa ▸ hctl), hrest⟩

theorem setHost (h : Sound v) (id key : Bytes) (hn : v.node a = some n) (halive : n.dead = false)
    (hkind : n.kind = .HostCtl)
    (hid : n.id = id) : Sound (v.setHost id ⟨key, some a⟩) := by
  refine ⟨h.peers, h.tickets, fun id' e w he hctl => ?_⟩
  unfold View.setHost at he
  dsimp only at he
  by_cases hid' : id' = id
  · rw [hid', Function.update_self, Option.some.injEq] at he
    rw [← he] at hctl
    exact ⟨n, Option.some.inj hctl ▸ hn, halive, hkind, hid.trans hid'.symm⟩
  · rw [Function.update_of_ne hid'] at he
    exact h.hosts id' e w he hctl

theorem setTicket (h : Sound v) (t : Bytes) (dest : Option Nat)
    (hdest : ∀ a, dest = some a → t ≠ [] ∧ ∃ n, v.node a = some n ∧
    n.dead = false ∧ n.kind = .Viewer ∧ n.peer = none ∧ n.ticket = t) : Sound (v.setTicket t dest) := by
  refine ⟨h.peers, fun t' w ht => ?_, h.hosts⟩
  unfold View.setTicket at ht
  dsimp only at ht
  by_cases ht' : t' = t
  · rw [ht', Function.update_self] at ht
    rw [ht']
    exact hdest w ht
  · rw [Function.update_of_ne ht'] at ht
    exact h.tickets t' w ht

theorem register (h : Sound v) (hn : v.node a = some n) (hkind : n.kind = .Http) (halive : n.dead = false)
    (id key : Bytes) :
    Sound (((v.retire ((v.hosts id).bind HostEntry.ctl)).set a fun n =>
      { n with kind := .HostCtl, id := id }).setHost id
      ⟨key, some a⟩) := by
  have hretired : (v.retire ((v.hosts id).bind HostEntry.ctl)).node a = some n := by
    cases hctl : (v.hosts id).bind HostEntry.ctl with
    | none => exact hn
    | some old =>
        obtain ⟨e, he, hold⟩ := Option.bind_eq_some_iff.mp hctl
        exact h.kill_other hn hkind fun heq => (h.unknown hn hkind).2.2.2 id e he (heq ▸ hold)
  have hpromoted := (h.retire ((v.hosts id).bind HostEntry.ctl)).promote hretired hkind (fun n =>
      { n with kind := .HostCtl, id := id }) rfl
  refine hpromoted.setHost id key (a := a) (n := { n with kind := .HostCtl, id := id }) ?_ halive rfl rfl
  rw [set_node, if_pos rfl, hretired]
  rfl

theorem await (h : Sound v) (hn : v.node a = some n) (hkind : n.kind = .Http) (halive : n.dead = false)
    (id : Bytes) {t : Bytes}
    (ht : t ≠ []) : Sound (v.await a id t) := by
  have hpromoted := h.promote hn hkind (fun n => { n with kind := .Viewer, id := id, ticket := t }) rfl
  have hticket := hpromoted.setTicket t (some a) fun a' ha' => by
    obtain rfl := Option.some.inj ha'
    refine ⟨ht, { n with kind := .Viewer, id := id, ticket := t }, ?_, halive, rfl, (h.unknown hn hkind).1, rfl⟩
    rw [set_node, if_pos rfl, hn]
    rfl
  exact ⟨hticket.peers, hticket.tickets, hticket.hosts⟩

theorem redeem (h : Sound v) (hn : v.node a = some n) (hkind : n.kind = .Http) (halive : n.dead = false)
    {p : Pairing}
    (hhost : p.host = a) (hticket : v.tickets p.ticket = some p.viewer) (pending : List Bytes) :
    Sound (v.redeem p pending) := by
  obtain ⟨-, m, hm, hmalive, hmkind, hmpeer, hmticket⟩ := h.tickets _ _ hticket
  obtain ⟨-, hpeers, htickets, hhosts⟩ := h.unknown hn hkind
  have hne : p.viewer ≠ a := fun heq => htickets _ (heq ▸ hticket)
  have hnode : ∀ w, (v.redeem p pending).node w =
      if w = a then some { n with kind := .HostData, id := p.id, peer := some p.viewer }
      else if w = p.viewer then some { m with ticket := [], peer := some a, pending := [] } else v.node w := by
    intro w
    unfold View.redeem
    dsimp only
    rw [hhost, set_node, set_node]
    by_cases hw : w = a
    · rw [if_pos hw, if_pos hw, hw, if_neg (Ne.symm hne)]
      exact congrArg _ hn
    · rw [if_neg hw, if_neg hw]
      by_cases hwv : w = p.viewer
      · rw [if_pos hwv, if_pos hwv, hwv]
        exact congrArg _ hm
      · rw [if_neg hwv, if_neg hwv]
        rfl
  have hstays : ∀ w d, v.node w = some d → w ≠ a → w ≠ p.viewer → (v.redeem p pending).node w = some d := by
    intro w d hd ha hv
    rw [hnode, if_neg ha, if_neg hv, hd]
  have hviewer : (v.redeem p pending).node p.viewer =
      some { m with ticket := [], peer := some a, pending := [] } := by
    rw [hnode, if_neg hne, if_pos rfl]
  have hself : (v.redeem p pending).node a =
      some { n with kind := .HostData, id := p.id, peer := some p.viewer } := by
    rw [hnode, if_pos rfl]
  refine ⟨?_, ?_, ?_⟩
  · intro w d q hd hq
    by_cases ha : w = a
    · rw [ha, hself, Option.some.injEq] at hd
      subst hd
      obtain rfl := Option.some.inj hq
      exact ⟨halive, _, hviewer, hmalive, ha ▸ rfl, .inr ⟨rfl, hmkind⟩⟩
    by_cases hv : w = p.viewer
    · rw [hv, hviewer, Option.some.injEq] at hd
      subst hd
      obtain rfl := Option.some.inj hq
      exact ⟨hmalive, _, hself, halive, hv ▸ rfl, .inl ⟨hmkind, rfl⟩⟩
    rw [hnode, if_neg ha, if_neg hv] at hd
    obtain ⟨hdalive, f, hf, hfalive, hfpeer, hkinds⟩ := h.peers w d q hd hq
    refine ⟨hdalive, f, hstays q f hf (fun heq => hpeers w d hd (heq ▸ hq)) ?_, hfalive, hfpeer, hkinds⟩
    rintro rfl
    obtain rfl := Option.some.inj (hm.symm.trans hf)
    rw [hmpeer] at hfpeer
    cases hfpeer
  · intro t w ht
    have ht' : t ≠ p.ticket ∧ v.tickets t = some w := by
      unfold View.redeem View.setTicket View.set at ht
      dsimp only at ht
      by_cases heq : t = p.ticket
      · rw [heq, Function.update_self] at ht
        cases ht
      · rw [Function.update_of_ne heq] at ht
        exact ⟨heq, ht⟩
    obtain ⟨hne', d, hd, hdalive, hdkind, hdpeer, hdticket⟩ := h.tickets t w ht'.2
    refine ⟨hne', d, hstays w d hd (fun heq => htickets t (heq ▸ ht'.2)) ?_, hdalive, hdkind, hdpeer, hdticket⟩
    rintro rfl
    obtain rfl := Option.some.inj (hm.symm.trans hd)
    exact ht'.1 (hdticket.symm.trans hmticket)
  · intro id e w he hctl
    obtain ⟨d, hd, hdalive, hdkind, hdid⟩ := h.hosts id e w he hctl
    refine ⟨d, hstays w d hd (fun heq => hhosts id e he (heq ▸ hctl)) ?_, hdalive, hdkind, hdid⟩
    rintro rfl
    obtain rfl := Option.some.inj (hm.symm.trans hd)
    rw [hmkind] at hdkind
    cases hdkind

theorem accept (h : Sound v) (hfree : v.node v.nextUid = none) : Sound v.accept := by
  have hstays : ∀ w m, v.node w = some m → v.accept.node w = some m := by
    intro w m hm
    unfold View.accept
    dsimp only
    rw [Function.update_of_ne, hm]
    rintro rfl
    rw [hfree] at hm
    cases hm
  have hold : ∀ w m q, v.accept.node w = some m → m.peer = some q → v.node w = some m := by
    intro w m q hm hq
    unfold View.accept at hm
    dsimp only at hm
    by_cases hw : w = v.nextUid
    · rw [hw, Function.update_self, Option.some.injEq] at hm
      rw [← hm] at hq
      cases hq
    · rwa [Function.update_of_ne hw] at hm
  refine ⟨?_, ?_, ?_⟩
  · intro w m q hm hq
    obtain ⟨halive, d, hd, hrest⟩ := h.peers w m q (hold w m q hm hq) hq
    exact ⟨halive, d, hstays q d hd, hrest⟩
  · intro t w ht
    obtain ⟨hne, m, hm, hrest⟩ := h.tickets t w ht
    exact ⟨hne, m, hstays w m hm, hrest⟩
  · intro id e w he hctl
    obtain ⟨m, hm, hrest⟩ := h.hosts id e w he hctl
    exact ⟨m, hstays w m hm, hrest⟩

theorem reap (h : Sound v) : Sound v.reap := by
  have hstays : ∀ w m, v.node w = some m → m.dead = false → v.reap.node w = some m := by
    intro w m hm halive
    unfold View.reap
    dsimp only
    rw [hm, Option.filter_some_pos (by simp [halive])]
  refine ⟨?_, ?_, ?_⟩
  · intro w m q hm hq
    obtain ⟨hm, -⟩ := Option.filter_eq_some_iff.mp hm
    obtain ⟨halive, d, hd, hdalive, hrest⟩ := h.peers w m q hm hq
    exact ⟨halive, d, hstays q d hd hdalive, hdalive, hrest⟩
  · intro t w ht
    obtain ⟨hne, m, hm, halive, hrest⟩ := h.tickets t w ht
    exact ⟨hne, m, hstays w m hm halive, halive, hrest⟩
  · intro id e w he hctl
    obtain ⟨m, hm, halive, hrest⟩ := h.hosts id e w he hctl
    exact ⟨m, hstays w m hm halive, halive, hrest⟩

theorem set (h : Sound v) (u : Nat) (f : Node → Node) (hf : ∀ n, (f n).links = n.links) : Sound (v.set u f) := by
  refine h.of_links (fun w => ?_) rfl rfl
  rw [set_node]
  split
  · rw [Option.map_map]
    exact congrArg (Option.map · _) (funext hf)
  · rfl

theorem hear (h : Sound v) (u : Nat) (r : WsReader) (inn : Bytes) (m : WsMsg) : Sound (v.hear u r inn m) :=
  (h.set u (fun n => { n with ws := r, inn := inn }) fun _ => rfl).of_links (fun _ => rfl) rfl rfl

-- One action keeps the pointers sound.
theorem action (h : Sound v) (hact : Action a presented kept v v') : Sound v' := by
  cases hact with
  | queue u m _ => exact h.of_links (fun _ => rfl) rfl rfl
  | request n inn _ _ => exact h.set a _ fun _ => rfl
  | receive n data _ _ =>
      exact (h.set a (fun n => { n with inn := n.inn ++ data }) fun _ => rfl).of_links (fun _ => rfl) rfl rfl
  | stall n _ _ _ => exact h.set a _ fun _ => rfl
  | drop n m r inn _ _ _ _ => exact h.hear a r inn m
  | forward n p m r inn _ _ _ _ => exact (h.hear a r inn m).of_links (fun _ => rfl) rfl rfl
  | hold n m r inn _ _ _ _ _ _ =>
      exact ((h.hear a r inn m).set a (fun n => { n with pending := n.pending ++ [m.data] }) fun _ => rfl).of_links
        (fun _ => rfl) rfl rfl
  | overflow n m r inn _ _ _ _ => exact (h.hear a r inn m).kill a
  | unpair n p hn hp => exact h.unpair hn hp
  | kill => exact h.kill a
  | register n id key hn hkind halive _ _ =>
      exact (h.register hn hkind halive id key).of_links (fun _ => rfl) rfl rfl
  | redeem n w p e hhost hn hkind halive _ _ _ hticket _ _ =>
      exact (h.redeem hn hkind halive hhost hticket w.pending).of_links (fun _ => rfl) rfl rfl
  | await n id t hn hkind halive hdrawn => exact (h.await hn hkind halive id hdrawn).of_links (fun _ => rfl) rfl rfl
  | refuse n id hn hkind =>
      exact (h.promote hn hkind (fun n => { n with kind := .Viewer, id := id }) rfl).of_links (fun _ => rfl) rfl rfl

theorem acts (h : Sound v) (hacts : Acts a presented kept v v') : Sound v' := by
  induction hacts with
  | refl => exact h
  | tail _ hact ih => exact ih.action hact

end Sound

end TetherDesk.Relay.View
