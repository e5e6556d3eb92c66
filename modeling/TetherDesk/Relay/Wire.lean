import TetherDesk.Relay.Ledger

namespace TetherDesk.Relay.View

open TetherDesk.Net TetherDesk.Lib

-- The messages in the bytes that a connection has sent since its upgrade.
def messages (v : View) (u : Nat) : List WsMsg := wsSpoken kMaxMessage true (v.received u)

-- What rd_ws_next has reported and what it will report make up what was received.
structure Wire (v : View) : Prop where
  fresh : ∀ u n, v.node u = some n → n.kind = .Http → n.ws = rdWsReaderInit kMaxMessage true
  told : ∀ u n, v.node u = some n → n.kind ≠ .Http → ∀ x,
    v.heard u ++ wsDecoder.spoken n.ws (n.inn ++ x) = wsSpoken kMaxMessage true (v.received u ++ x)
  heard : ∀ u, v.heard u <+: v.messages u

variable {v v' : View} {a u w : Nat} {n : Node} {presented : Option Bytes} {keeps : WsMsg → Prop}

namespace Wire

-- One connection moves on and the others keep their readers.
theorem of_row (h : Wire v) (hnode : ∀ w n', w ≠ a → v'.node w = some n' →
      ∃ n, v.node w = some n ∧ n'.kind = n.kind ∧ n'.ws = n.ws ∧ n'.inn = n.inn)
    (hreceived : ∀ w, w ≠ a → v'.received w = v.received w) (hheard : ∀ w, w ≠ a → v'.heard w = v.heard w)
    {n' : Node} (hself : v'.node a = some n') (hkind : n'.kind ≠ .Http)
    (htold : ∀ x, v'.heard a ++ wsDecoder.spoken n'.ws (n'.inn ++ x) =
      wsSpoken kMaxMessage true (v'.received a ++ x)) :
    Wire v' := by
  refine ⟨?_, ?_, ?_⟩
  · intro u m' hm' hhttp
    by_cases hu : u = a
    · rw [hu, hself] at hm'
      obtain rfl := Option.some.inj hm'
      exact absurd hhttp hkind
    · obtain ⟨m, hm, hsame, hws, -⟩ := hnode u m' hu hm'
      rw [hws]
      exact h.fresh u m hm (hsame ▸ hhttp)
  · intro u m' hm' hup x
    by_cases hu : u = a
    · rw [hu] at hm' ⊢
      obtain rfl := Option.some.inj (hself.symm.trans hm')
      exact htold x
    · obtain ⟨m, hm, hsame, hws, hinn⟩ := hnode u m' hu hm'
      rw [hws, hinn, hheard u hu, hreceived u hu]
      exact h.told u m hm (hsame ▸ hup) x
  · intro u
    by_cases hu : u = a
    · have hnow := htold []
      rw [List.append_nil (v'.received a)] at hnow
      exact hu ▸ ⟨_, hnow⟩
    · unfold messages
      rw [hheard u hu, hreceived u hu]
      exact h.heard u

theorem of_same (h : Wire v) (hnode : ∀ w n', v'.node w = some n' →
      ∃ n, v.node w = some n ∧ n'.kind = n.kind ∧ n'.ws = n.ws ∧ (n.kind ≠ .Http → n'.inn = n.inn))
    (hreceived : v'.received = v.received) (hheard : v'.heard = v.heard) : Wire v' := by
  refine ⟨?_, ?_, ?_⟩
  · intro u n' hn' hkind
    obtain ⟨n, hn, hsame, hws, -⟩ := hnode u n' hn'
    rw [hws]
    exact h.fresh u n hn (hsame ▸ hkind)
  · intro u n' hn' hkind x
    obtain ⟨n, hn, hsame, hws, hinn⟩ := hnode u n' hn'
    rw [hws, hinn (hsame ▸ hkind), hheard, hreceived]
    exact h.told u n hn (hsame ▸ hkind) x
  · intro u
    unfold messages
    rw [hheard, hreceived]
    exact h.heard u

theorem kill (h : Wire v) (u : Nat) : Wire (v.kill u) := by
  refine h.of_same (fun w n' hn' => ?_) (congrArg Past.received kill_past) (congrArg Past.heard kill_past)
  obtain ⟨n, hn, hcut⟩ := kill_cut hn'
  exact ⟨n, hn, hcut.less.kind, hcut.ws, fun _ => hcut.inn⟩

-- rd_ws_next is called on the input of a.
theorem next (h : Wire v) (hn : v.node a = some n) (hkind : n.kind ≠ .Http) {r : WsReader} {inn : Bytes}
    {w : WsNext}
    (hnext : rdWsNext n.ws n.inn = (w, r, inn)) :
    Wire { v.take a r inn with heard := Function.update v.heard a (v.heard a ++ w.outcome.message.toList) } := by
  refine h.of_row (a := a) ?_ (fun _ _ => rfl)
    (fun u hu => Function.update_of_ne hu _ _) (Ledger.take_self hn r inn) hkind ?_
  · intro u n' hu hn'
    have hrow : (v.take a r inn).node u = some n' := hn'
    unfold View.take at hrow
    rw [set_node, if_neg hu] at hrow
    exact ⟨n', hrow, rfl, rfl, rfl⟩
  · intro x
    dsimp only
    have hspoken := Decoder.spoken_next wsDecoder_incremental wsDecoder_draining n.ws n.inn x
    rw [wsDecoder_next _ _ hnext] at hspoken
    rw [Function.update_self, List.append_assoc]
    have htold := h.told a n hn hkind x
    rw [hspoken] at htold
    exact htold

-- A connection is upgraded: the bytes behind its request are the first of its frames.
theorem begin (h : Wire v) (hn : v.node a = some n) (hhttp : n.kind = .Http) (n' : Node) (hquiet : v.heard a = [])
    (hnode : ∀ w n', w ≠ a → v'.node w = some n' →
      ∃ n, v.node w = some n ∧ n'.kind = n.kind ∧ n'.ws = n.ws ∧ n'.inn = n.inn)
    (hreceived : v'.received = Function.update v.received a n.inn) (hheard : v'.heard = v.heard)
    (hself : v'.node a = some n') (hkind : n'.kind ≠ .Http) (hws : n'.ws = n.ws) (hinn : n'.inn = n.inn) :
    Wire v' := by
  refine h.of_row (a := a) hnode (fun u hu => ?_) (fun u _ => by rw [hheard]) hself hkind fun x => ?_
  · rw [hreceived, Function.update_of_ne hu]
  · rw [hheard, hquiet, hreceived, Function.update_self, hws, hinn, h.fresh a n hn hhttp]
    rfl

theorem action (h : Wire v) (hsound : v.Sound) (hledger : v.Ledger) (hact : Action a presented keeps v v') :
    Wire v' := by
  have hother : ∀ (f : Node → Node) w n', w ≠ a → (v.set a f).node w = some n' →
      ∃ n, v.node w = some n ∧ n'.kind = n.kind ∧ n'.ws = n.ws ∧ n'.inn = n.inn := by
    intro f w n' hw hn'
    rw [set_node, if_neg hw] at hn'
    exact ⟨n', hn', rfl, rfl, rfl⟩
  have hquiet : ∀ n, v.node a = some n → n.kind = .Http → v.heard a = [] :=
    fun n hn hkind => (hledger.quiet a (.inr ⟨n, hn, hkind⟩)).1
  cases hact with
  | queue u m _ => exact h.of_same (fun w n' hn' => ⟨n', hn', rfl, rfl, fun _ => rfl⟩) rfl rfl
  | request n inn hn hkind =>
      refine h.of_same (fun w n' hn' => ?_) rfl rfl
      by_cases hw : w = a
      · rw [set_node, if_pos hw, hw, hn] at hn'
        obtain rfl := Option.some.inj hn'
        exact ⟨n, hw ▸ hn, rfl, rfl, fun hup => absurd hkind hup⟩
      · obtain ⟨n, hn, hsame, hws, hinn⟩ := hother _ w n' hw hn'
        exact ⟨n, hn, hsame, hws, fun _ => hinn⟩
  | receive n data hn hkind =>
      have hself : (v.receive a data).node a = some { n with inn := n.inn ++ data } := by
        show (View.set _ a _).node a = _
        rw [set_node, if_pos rfl, hn]
        rfl
      refine h.of_row (hother _) (fun u hu => Function.update_of_ne hu _ _) (fun _ _ => rfl) hself hkind fun x => ?_
      show v.heard a ++ wsDecoder.spoken n.ws ((n.inn ++ data) ++ x) =
        wsSpoken kMaxMessage true (Function.update v.received a (v.received a ++ data) a ++ x)
      rw [Function.update_self, List.append_assoc, List.append_assoc]
      exact h.told a n hn hkind (data ++ x)
  | stall n hn hkind hsilent =>
      have hnext : rdWsNext n.ws n.inn = ((rdWsNext n.ws n.inn).1, (rdWsNext n.ws n.inn).2.1,
          (rdWsNext n.ws n.inn).2.2) := rfl
      have hmoved := h.next hn hkind hnext
      rw [show (rdWsNext n.ws n.inn).1.outcome.message = none from hsilent, Option.toList_none, List.append_nil,
        Function.update_eq_self] at hmoved
      exact hmoved
  | drop n m r inn hn hkind hnext _ => exact h.next hn hkind hnext
  | forward n p m r inn hn hdata hnext hpeer =>
      have hkind : n.kind ≠ .Http := by
        intro hhttp
        rw [(hsound.unknown hn hhttp).1] at hpeer
        cases hpeer
      exact (h.next hn hkind hnext).of_same (fun w n' hn' => ⟨n', hn', rfl, rfl, fun _ => rfl⟩) rfl rfl
  | hold n m r inn hn halive hdata hnext hwaiting _ =>
      have hkind : n.kind ≠ .Http := by
        rw [hwaiting.1]
        decide
      refine (h.next hn hkind hnext).of_same (fun w n' hn' => ?_) rfl rfl
      have hrow : (View.set _ a _).node w = some n' := hn'
      rw [set_node] at hrow
      by_cases hw : w = a
      · rw [if_pos hw] at hrow
        obtain ⟨m', hm', rfl⟩ := Option.map_eq_some_iff.mp hrow
        exact ⟨m', hm', rfl, rfl, fun _ => rfl⟩
      · rw [if_neg hw] at hrow
        exact ⟨n', hrow, rfl, rfl, fun _ => rfl⟩
  | overflow n m r inn hn halive hnext hwaiting =>
      have hkind : n.kind ≠ .Http := by
        rw [hwaiting.1]
        decide
      exact Wire.kill (h.next hn hkind hnext) a
  | unpair n p hn hp =>
      refine h.of_same (fun w n' hn' => ?_) rfl rfl
      obtain ⟨n, hn, hcut⟩ := unpair_cut hn'
      exact ⟨n, hn, hcut.less.kind, hcut.ws, fun _ => hcut.inn⟩
  | kill => exact h.kill a
  | register n id key hn hkind halive hrequest howned =>
      have hretired : (v.retire ((v.hosts id).bind HostEntry.ctl)).node a = some n := by
        cases hctl : (v.hosts id).bind HostEntry.ctl with
        | none => exact hn
        | some old =>
            obtain ⟨e, he, hold⟩ := Option.bind_eq_some_iff.mp hctl
            exact hsound.kill_other hn hkind fun heq => (hsound.unknown hn hkind).2.2.2 id e he (heq ▸ hold)
      refine h.begin hn hkind { n with kind := .HostCtl, id := id } (hquiet n hn hkind) (fun w n' hw hn' => ?_) ?_
        (congrArg Past.heard (retire_past _)) ?_ (by simp) rfl rfl
      · have hrow : (View.set _ a _).node w = some n' := hn'
        rw [set_node, if_neg hw] at hrow
        obtain ⟨m, hm, hcut⟩ := retire_cut hrow
        exact ⟨m, hm, hcut.less.kind, hcut.ws, hcut.inn⟩
      · have hpast := congrArg Past.received (retire_past (v := v) ((v.hosts id).bind HostEntry.ctl))
        exact congrArg (Function.update · a n.inn) hpast
      · show (View.set _ a _).node a = _
        rw [set_node, if_pos rfl, hretired]
        rfl
  | redeem n m p e hhost hn hkind halive hentry hkey hregistered hticket hviewer hasked =>
      have hne : p.viewer ≠ a := fun heq => (hsound.unknown hn hkind).2.2.1 _ (heq ▸ hticket)
      refine h.begin hn hkind { n with kind := .HostData, id := p.id, peer := some p.viewer } (hquiet n hn hkind)
        (fun w n' hw hn' => ?_) rfl rfl ?_ (by simp) rfl rfl
      · have hrow : (View.set _ p.host _).node w = some n' := hn'
        rw [hhost, set_node, if_neg hw, set_node] at hrow
        by_cases hv : w = p.viewer
        · rw [if_pos hv] at hrow
          obtain ⟨m', hm', rfl⟩ := Option.map_eq_some_iff.mp hrow
          exact ⟨m', hm', rfl, rfl, rfl⟩
        · rw [if_neg hv] at hrow
          exact ⟨n', hrow, rfl, rfl, rfl⟩
      · show (View.set _ p.host _).node a = _
        rw [hhost, set_node, if_pos rfl, set_node, if_neg (Ne.symm hne)]
        exact congrArg (Option.map _) hn
  | await n id t hn hkind halive hdrawn =>
      refine h.begin hn hkind { n with kind := .Viewer, id := id, ticket := t } (hquiet n hn hkind)
        (hother _) rfl rfl ?_
        (by simp) rfl rfl
      show (View.set _ a _).node a = _
      rw [set_node, if_pos rfl, hn]
      rfl
  | refuse n id hn hkind =>
      refine h.begin hn hkind { n with kind := .Viewer, id := id } (hquiet n hn hkind) (hother _) rfl rfl ?_
        (by simp) rfl rfl
      show (View.set _ a _).node a = _
      rw [set_node, if_pos rfl, hn]
      rfl

theorem acts (h : Wire v) (hsound : v.Sound) (hledger : v.Ledger) (hacts : Acts a presented keeps v v') :
    Wire v' := by
  induction hacts with
  | refl => exact h
  | tail hacts hact ih => exact ih.action (hsound.acts hacts) (hledger.acts hsound hacts) hact

theorem accept (h : Wire v) : Wire v.accept := by
  have hnode : ∀ w, w ≠ v.nextUid → v.accept.node w = v.node w := fun w hw => Function.update_of_ne hw _ _
  have hself : v.accept.node v.nextUid = some .fresh := Function.update_self _ _ _
  refine ⟨?_, ?_, h.heard⟩
  · intro u n hn hkind
    by_cases hu : u = v.nextUid
    · rw [hu, hself] at hn
      obtain rfl := Option.some.inj hn
      rfl
    · exact h.fresh u n (hnode u hu ▸ hn) hkind
  · intro u n hn hkind x
    by_cases hu : u = v.nextUid
    · rw [hu, hself] at hn
      obtain rfl := Option.some.inj hn
      exact absurd rfl hkind
    · exact h.told u n (hnode u hu ▸ hn) hkind x

theorem reap (h : Wire v) : Wire v.reap :=
  h.of_same (fun _ n hn => ⟨n, (Option.filter_eq_some_iff.mp hn).1, rfl, rfl, fun _ => rfl⟩) rfl rfl

end Wire

end TetherDesk.Relay.View
