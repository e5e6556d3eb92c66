import TetherDesk.Relay.Sound

namespace TetherDesk.Relay

open TetherDesk.Net

-- A message as the relay sends it once it has been kept.
def asBinary (m : WsMsg) : WsMsg := ⟨RD_WS_BINARY, m.data⟩

-- What killing and unlinking leave of a connection.
structure Node.Less (n n' : Node) : Prop where
  kind : n'.kind = n.kind
  id : n'.id = n.id
  ticket : n'.ticket = n.ticket
  pending : n'.pending = n.pending
  alive : n'.dead = false → n.dead = false
  peer : ∀ p, n'.peer = some p → n.peer = some p

-- The same, with what there is to read.
structure Node.Cut (n n' : Node) : Prop where
  less : n.Less n'
  ws : n'.ws = n.ws
  inn : n'.inn = n.inn

theorem Node.Less.refl (n : Node) : n.Less n := ⟨rfl, rfl, rfl, rfl, fun h => h, fun _ h => h⟩

namespace View

-- Two connections that a ticket has brought together.
def Linked (v : View) (w u : Nat) : Prop := ∃ p ∈ v.pairs, p.viewer = w ∧ p.host = u ∨ p.host = w ∧ p.viewer = u

-- What a connection has said, and what is due of it to its peer.
def said (v : View) (w : Nat) : List WsMsg := (v.heard w).filter isData

def owed (v : View) (w : Nat) : List WsMsg := (v.waited w).map asBinary ++ (v.said w).drop (v.waited w).length

-- The frames on connection u that carry messages of w.
def forwarded (v : View) (w u : Nat) : List WsMsg := ((v.sent u).filter fun e => e.1 = some w).map Prod.snd

structure Ledger (v : View) : Prop where
  born : ∀ u n, v.node u = some n → u < v.nextUid
  quiet : ∀ u, (v.nextUid ≤ u ∨ ∃ n, v.node u = some n ∧ n.kind = .Http) →
    v.heard u = [] ∧ v.waited u = [] ∧ (∀ e ∈ v.sent u, e.1 = none) ∧ ∀ w, ¬ v.Linked w u
  fresh : ∀ u n, v.node u = some n → n.kind = .Http → n.pending = [] ∧ n.ticket = []
  origin : ∀ u e, e ∈ v.sent u → (e.1 = none → e.2.opcode ≠ RD_WS_BINARY) ∧ ∀ w, e.1 = some w → v.Linked w u
  kinds : ∀ p ∈ v.pairs, (∀ n, v.node p.host = some n → n.kind = .HostData) ∧
    ∀ n, v.node p.viewer = some n → n.kind = .Viewer ∧ n.ticket = []
  distinct : (v.pairs.flatMap fun p => [p.host, p.viewer]).Nodup
  linked : ∀ u n w, v.node u = some n → n.peer = some w → v.Linked u w
  granted : ∀ p ∈ v.pairs, (p.ticket, p.viewer, p.id) ∈ v.issued ∧ p.key = p.registered
  asked : ∀ u n, v.node u = some n → n.kind = .Viewer → n.ticket ≠ [] → (n.ticket, u, n.id) ∈ v.issued
  kept : ∀ u, v.waited u <+: v.said u
  held : ∀ u n, v.node u = some n → n.dead = false → n.waiting →
    n.pending = (v.waited u).map WsMsg.data ∧ v.waited u = v.said u
  ordered : ∀ w u, v.Linked w u → v.forwarded w u <+: v.owed w
  exact : ∀ w u n, v.node w = some n → n.peer = some u → v.forwarded w u = v.owed w

variable {v v' : View} {a u w : Nat} {n : Node}

theorem Linked.symm (h : v.Linked w u) : v.Linked u w := by
  obtain ⟨p, hp, h⟩ := h
  exact ⟨p, hp, h.symm.imp And.symm And.symm⟩

-- A connection is linked to one other at most, ever.
theorem linked_unique (h : (v.pairs.flatMap fun p => [p.host, p.viewer]).Nodup) {u' : Nat} (hu : v.Linked w u)
    (hu' : v.Linked w u') : u = u' := by
  obtain ⟨p, hp, hpu⟩ := hu
  obtain ⟨q, hq, hqu⟩ := hu'
  rw [List.nodup_flatMap] at h
  obtain ⟨hinner, hpairs⟩ := h
  have hmem : ∀ r : Pairing, ∀ x, (r.viewer = w ∧ r.host = x ∨ r.host = w ∧ r.viewer = x) →
      w ∈ [r.host, r.viewer] := by
    intro r x hr
    rcases hr with ⟨rfl, -⟩ | ⟨rfl, -⟩ <;> simp
  have hsame : p = q := by
    by_contra hne
    have hsymm : Std.Symm (Function.onFun List.Disjoint fun p : Pairing => [p.host, p.viewer]) :=
      ⟨fun _ _ h => h.symm⟩
    exact hpairs.forall hp hq hne (hmem p u hpu) (hmem q u' hqu)
  subst hsame
  have hne : p.host ≠ p.viewer := by simpa using hinner p hp
  rcases hpu with ⟨rfl, rfl⟩ | ⟨rfl, rfl⟩
  · rcases hqu with ⟨-, rfl⟩ | ⟨h, -⟩
    · rfl
    · exact absurd h hne
  · rcases hqu with ⟨h, -⟩ | ⟨-, rfl⟩
    · exact absurd h.symm hne
    · rfl

theorem kill_cut {n' : Node} (h : (v.kill u).node w = some n') : ∃ n, v.node w = some n ∧ n.Cut n' := by
  by_cases hgone : v.node u = none ∨ ∃ n, v.node u = some n ∧ n.dead = true
  · rw [kill_none hgone] at h
    exact ⟨n', h, .refl n', rfl, rfl⟩
  obtain ⟨m, hm⟩ : ∃ m, v.node u = some m := Option.ne_none_iff_exists'.mp fun hnone => hgone (.inl hnone)
  have halive : m.dead = false := by simpa using fun hdead => hgone (.inr ⟨m, hm, hdead⟩)
  rw [kill_node hm halive] at h
  by_cases hw : w = u
  · rw [if_pos hw, Option.some.injEq] at h
    subst h
    refine ⟨m, hw ▸ hm, ⟨rfl, rfl, rfl, rfl, ?_, ?_⟩, rfl, rfl⟩
    · intro hdead
      cases hdead
    · intro _ hpeer
      cases hpeer
  rw [if_neg hw] at h
  by_cases hp : m.peer = some w
  · rw [if_pos hp] at h
    obtain ⟨n, hn, rfl⟩ := Option.map_eq_some_iff.mp h
    exact ⟨n, hn, ⟨rfl, rfl, rfl, rfl, fun h => h, fun _ hpeer => by cases hpeer⟩, rfl, rfl⟩
  · rw [if_neg hp] at h
    exact ⟨n', h, .refl n', rfl, rfl⟩

theorem unpair_cut {p : Nat} {n' : Node} (h : (v.unpair u p).node w = some n') : ∃ n, v.node w = some n ∧
    n.Cut n' := by
  rw [unpair_node] at h
  by_cases hw : w = u ∨ w = p
  · rw [if_pos hw] at h
    obtain ⟨n, hn, rfl⟩ := Option.map_eq_some_iff.mp h
    exact ⟨n, hn, ⟨rfl, rfl, rfl, rfl, fun h => h, fun _ hpeer => by cases hpeer⟩, rfl, rfl⟩
  · rw [if_neg hw] at h
    exact ⟨n', h, .refl n', rfl, rfl⟩

theorem retire_cut {ctl : Option Nat} {n' : Node} (h : (v.retire ctl).node w = some n') : ∃ n, v.node w =
    some n ∧ n.Cut n' := by
  cases ctl with
  | none => exact ⟨n', h, .refl n', rfl, rfl⟩
  | some old => exact kill_cut h

theorem retire_past (ctl : Option Nat) : (v.retire ctl).past = v.past := by
  cases ctl with
  | none => rfl
  | some old => exact kill_past

theorem set_less {f : Node → Node} (hf : ∀ n : Node, n.Less (f n)) {n' : Node} (h : (v.set u f).node w = some n') :
    ∃ n, v.node w = some n ∧ n.Less n' := by
  rw [set_node] at h
  by_cases hw : w = u
  · rw [if_pos hw] at h
    obtain ⟨n, hn, rfl⟩ := Option.map_eq_some_iff.mp h
    exact ⟨n, hn, hf n⟩
  · rw [if_neg hw] at h
    exact ⟨n', h, .refl n'⟩

namespace Ledger

-- Losing links and connections costs nothing.
theorem of_less (h : Ledger v) (hnode : ∀ w n', v'.node w = some n' → ∃ n, v.node w = some n ∧ n.Less n')
    (hheard : v'.heard = v.heard) (hwaited : v'.waited = v.waited) (hsent : v'.sent = v.sent)
    (hissued : v'.issued = v.issued)
    (hpairs : v'.pairs = v.pairs) (huid : v'.nextUid = v.nextUid) : Ledger v' := by
  have hlinked : ∀ w u, v'.Linked w u ↔ v.Linked w u := by
    intro w u
    unfold Linked
    rw [hpairs]
  have hsaid : ∀ w, v'.said w = v.said w := fun w => by unfold said; rw [hheard]
  have howed : ∀ w, v'.owed w = v.owed w := fun w => by unfold owed; rw [hsaid, hwaited]
  have hforwarded : ∀ w u, v'.forwarded w u = v.forwarded w u := fun w u => by unfold forwarded; rw [hsent]
  refine ⟨?_, ?_, ?_, ?_, ?_, hpairs ▸ h.distinct, ?_, ?_, ?_, ?_, ?_, ?_, ?_⟩
  · intro u n' hn'
    obtain ⟨n, hn, -⟩ := hnode u n' hn'
    exact huid ▸ h.born u n hn
  · intro u hu
    have hbefore : v.nextUid ≤ u ∨ ∃ n, v.node u = some n ∧ n.kind = .Http := by
      rcases hu with hu | ⟨n', hn', hkind⟩
      · exact .inl (huid ▸ hu)
      · obtain ⟨n, hn, hless⟩ := hnode u n' hn'
        exact .inr ⟨n, hn, hless.kind ▸ hkind⟩
    obtain ⟨hh, hw, hs, hl⟩ := h.quiet u hbefore
    exact ⟨hheard ▸ hh, hwaited ▸ hw, hsent ▸ hs, fun w => by rw [hlinked]; exact hl w⟩
  · intro u n' hn' hkind
    obtain ⟨n, hn, hless⟩ := hnode u n' hn'
    rw [hless.pending, hless.ticket]
    exact h.fresh u n hn (hless.kind ▸ hkind)
  · intro u e he
    rw [hsent] at he
    obtain ⟨hown, horigin⟩ := h.origin u e he
    exact ⟨hown, fun w hw => (hlinked w u).mpr (horigin w hw)⟩
  · intro p hp
    rw [hpairs] at hp
    obtain ⟨hhost, hviewer⟩ := h.kinds p hp
    refine ⟨fun n' hn' => ?_, fun n' hn' => ?_⟩
    · obtain ⟨n, hn, hless⟩ := hnode _ n' hn'
      rw [hless.kind]
      exact hhost n hn
    · obtain ⟨n, hn, hless⟩ := hnode _ n' hn'
      rw [hless.kind, hless.ticket]
      exact hviewer n hn
  · intro u n' w hn' hpeer
    obtain ⟨n, hn, hless⟩ := hnode u n' hn'
    exact (hlinked u w).mpr (h.linked u n w hn (hless.peer w hpeer))
  · intro p hp
    rw [hpairs] at hp
    rw [hissued]
    exact h.granted p hp
  · intro u n' hn' hkind hticket
    obtain ⟨n, hn, hless⟩ := hnode u n' hn'
    rw [hissued, hless.ticket, hless.id]
    exact h.asked u n hn (hless.kind ▸ hkind) (hless.ticket ▸ hticket)
  · intro u
    rw [hwaited, hsaid]
    exact h.kept u
  · intro u n' hn' halive hwaiting
    obtain ⟨n, hn, hless⟩ := hnode u n' hn'
    rw [hwaited, hsaid, hless.pending]
    refine h.held u n hn (hless.alive halive) ⟨hless.kind ▸ hwaiting.1, hless.ticket ▸ hwaiting.2.1, ?_⟩
    -- a viewer with a ticket has never had a peer
    cases hpeer : n.peer with
    | none => rfl
    | some w =>
        obtain ⟨p, hp, ⟨rfl, -⟩ | ⟨rfl, -⟩⟩ := h.linked u n w hn hpeer
        · exact absurd ((h.kinds p hp).2 n hn).2 (hless.ticket ▸ hwaiting.2.1)
        · have hdata := (h.kinds p hp).1 n hn
          rw [← hless.kind, hwaiting.1] at hdata
          cases hdata
  · intro w u hl
    rw [hforwarded, howed]
    exact h.ordered w u ((hlinked w u).mp hl)
  · intro w u n' hn' hpeer
    obtain ⟨n, hn, hless⟩ := hnode w n' hn'
    rw [hforwarded, howed]
    exact h.exact w u n hn (hless.peer u hpeer)

theorem viewer_unlinked (h : Ledger v) (hn : v.node u = some n) (hkind : n.kind = .Viewer)
    (hticket : n.ticket ≠ []) (w : Nat) :
    ¬ v.Linked u w := by
  rintro ⟨p, hp, ⟨rfl, -⟩ | ⟨rfl, -⟩⟩
  · exact hticket ((h.kinds p hp).2 n hn).2
  · have hdata := (h.kinds p hp).1 n hn
    rw [hkind] at hdata
    cases hdata

-- A frame of the relay itself.
theorem queue (h : Ledger v) (u : Nat) {m : WsMsg} (hown : m.opcode ≠ RD_WS_BINARY) :
    Ledger (v.queue u none m) := by
  have hsent : ∀ w, (v.queue u none m).sent w = v.sent w ∨ (v.queue u none m).sent w = v.sent w ++ [(none, m)] := by
    intro w
    unfold View.queue
    dsimp only
    by_cases hw : w = u
    · rw [hw, Function.update_self]
      exact .inr rfl
    · rw [Function.update_of_ne hw]
      exact .inl rfl
  have hforwarded : ∀ w x, (v.queue u none m).forwarded w x = v.forwarded w x := by
    intro w x
    unfold forwarded
    rcases hsent x with hx | hx
    · rw [hx]
    · rw [hx, List.filter_append]
      simp
  have hnew : ∀ w e, e ∈ (v.queue u none m).sent w → e ∈ v.sent w ∨ e = (none, m) := by
    intro w e he
    rcases hsent w with hw | hw
    · exact .inl (hw ▸ he)
    · rw [hw, List.mem_append, List.mem_singleton] at he
      exact he
  refine ⟨h.born, ?_, h.fresh, ?_, h.kinds, h.distinct, h.linked, h.granted, h.asked, h.kept, h.held, ?_, ?_⟩
  · intro w hw
    obtain ⟨hh, hwaited, hs, hl⟩ := h.quiet w hw
    refine ⟨hh, hwaited, fun e he => ?_, hl⟩
    rcases hnew w e he with he | rfl
    · exact hs e he
    · rfl
  · intro w e he
    rcases hnew w e he with he | rfl
    · exact h.origin w e he
    · exact ⟨fun _ => hown, fun _ hw => by cases hw⟩
  · intro w x hl
    rw [hforwarded]
    exact h.ordered w x hl
  · intro w x n hn hpeer
    rw [hforwarded]
    exact h.exact w x n hn hpeer

theorem not_quiet (h : Ledger v) (hn : v.node a = some n) (hkind : n.kind ≠ .Http) :
    ¬ (v.nextUid ≤ a ∨ ∃ n, v.node a = some n ∧ n.kind = .Http) := by
  rintro (hhigh | ⟨m, hm, hhttp⟩)
  · exact absurd (h.born a n hn) (Nat.not_lt.mpr hhigh)
  · obtain rfl := Option.some.inj (hn.symm.trans hm)
    exact hkind hhttp

-- A message that goes nowhere.
theorem tell (h : Ledger v) {m : WsMsg} (hbusy : ¬ (v.nextUid ≤ a ∨ ∃ n, v.node a = some n ∧ n.kind = .Http))
    (hidle : isData m = true → ∀ n, v.node a = some n → n.peer = none ∧ (n.dead = false → ¬ n.waiting)) :
    Ledger { v with heard := Function.update v.heard a (v.heard a ++ [m]) } := by
  generalize hv' : ({ v with heard := Function.update v.heard a (v.heard a ++ [m]) } : View) = v'
  have hother : ∀ w, w ≠ a → v'.heard w = v.heard w := fun w hw => by
    rw [← hv']
    exact Function.update_of_ne hw _ _
  have hself : v'.said a = v.said a ++ [m].filter isData := by
    unfold said
    rw [← hv']
    dsimp only
    rw [Function.update_self, List.filter_append]
  have hsaid : ∀ w, w ≠ a → v'.said w = v.said w := fun w hw => by unfold said; rw [hother w hw]
  have howed : ∀ w, w ≠ a → v'.owed w = v.owed w := fun w hw => by
    unfold owed
    rw [hsaid w hw, ← hv']
  have hlonger : v.owed a <+: v'.owed a := by
    have hwaited : v'.waited = v.waited := by rw [← hv']
    unfold owed
    rw [hself, hwaited, List.drop_append_of_le_length (h.kept a).length_le, ← List.append_assoc]
    exact List.prefix_append _ _
  refine ⟨?_, ?_, ?_, ?_, ?_, ?_, ?_, ?_, ?_, ?_, ?_, ?_, ?_⟩
  · rw [← hv']
    exact h.born
  · intro u hu
    have hu' : v.nextUid ≤ u ∨ ∃ n, v.node u = some n ∧ n.kind = .Http := by rw [← hv'] at hu; exact hu
    have hua : u ≠ a := fun heq => hbusy (heq ▸ hu')
    rw [hother u hua, ← hv']
    exact h.quiet u hu'
  · rw [← hv']
    exact h.fresh
  · rw [← hv']
    exact h.origin
  · rw [← hv']
    exact h.kinds
  · rw [← hv']
    exact h.distinct
  · rw [← hv']
    exact h.linked
  · rw [← hv']
    exact h.granted
  · rw [← hv']
    exact h.asked
  · intro u
    by_cases hu : u = a
    · rw [hu, hself, ← hv']
      exact (h.kept a).trans (List.prefix_append _ _)
    · rw [hsaid u hu, ← hv']
      exact h.kept u
  · intro u n hn halive hwaiting
    have hn' : v.node u = some n := by rw [← hv'] at hn; exact hn
    obtain ⟨hpending, hwaited⟩ := h.held u n hn' halive hwaiting
    by_cases hu : u = a
    · have hcontrol : isData m = false := by
        by_contra hdata
        rw [Bool.not_eq_false] at hdata
        exact (hidle hdata n (hu ▸ hn')).2 halive hwaiting
      rw [hu, hself, List.filter_cons_of_neg (by simp [hcontrol]), List.filter_nil, List.append_nil, ← hv', ← hu]
      exact ⟨hpending, hwaited⟩
    · rw [hsaid u hu, ← hv']
      exact ⟨hpending, hwaited⟩
  · intro w u hl
    have hbefore : v.forwarded w u <+: v.owed w := h.ordered w u (by rw [← hv'] at hl; exact hl)
    have hsame : v'.forwarded w u = v.forwarded w u := by rw [← hv']; rfl
    rw [hsame]
    by_cases hw : w = a
    · rw [hw] at hbefore ⊢
      exact hbefore.trans hlonger
    · rw [howed w hw]
      exact hbefore
  · intro w u n hn hpeer
    have hn' : v.node w = some n := by rw [← hv'] at hn; exact hn
    have hbefore := h.exact w u n hn' hpeer
    have hsame : v'.forwarded w u = v.forwarded w u := by rw [← hv']; rfl
    rw [hsame, hbefore]
    by_cases hw : w = a
    · have hcontrol : isData m = false := by
        by_contra hdata
        rw [Bool.not_eq_false] at hdata
        have hnone := (hidle hdata n (hw ▸ hn')).1
        rw [hpeer] at hnone
        cases hnone
      unfold owed
      rw [hw, hself, List.filter_cons_of_neg (by simp [hcontrol]), List.filter_nil, List.append_nil, ← hv']
    · exact (howed w hw).symm

-- A message for the peer.
theorem pass (h : Ledger v) {m : WsMsg} {p : Nat} (hn : v.node a = some n) (hkind : n.kind ≠ .Http)
    (hpeer : n.peer = some p)
    (hdata : isData m = true) :
    Ledger (({ v with heard := Function.update v.heard a (v.heard a ++ [m]) } : View).queue p (some a) m) := by
  generalize hv' : ({ v with heard := Function.update v.heard a (v.heard a ++ [m]) } : View).queue p (some a) m = v'
  have hnode : v'.node = v.node := by rw [← hv']; rfl
  have hwaited : v'.waited = v.waited := by rw [← hv']; rfl
  have hpairs : v'.pairs = v.pairs := by rw [← hv']; rfl
  have hissued : v'.issued = v.issued := by rw [← hv']; rfl
  have huid : v'.nextUid = v.nextUid := by rw [← hv']; rfl
  have hheard : v'.heard = Function.update v.heard a (v.heard a ++ [m]) := by rw [← hv']; rfl
  have hsent : v'.sent = Function.update v.sent p (v.sent p ++ [(some a, m)]) := by rw [← hv']; rfl
  have hlinked : ∀ w u, v'.Linked w u ↔ v.Linked w u := fun w u => by unfold Linked; rw [hpairs]
  have hap : v.Linked a p := h.linked a n p hn hpeer
  have hself : v'.said a = v.said a ++ [m] := by
    unfold said
    rw [hheard, Function.update_self, List.filter_append, List.filter_cons_of_pos hdata, List.filter_nil]
  have hsaid : ∀ w, w ≠ a → v'.said w = v.said w := fun w hw => by
    unfold said
    rw [hheard, Function.update_of_ne hw]
  have hsentTo : ∀ u, u ≠ p → v'.sent u = v.sent u := fun u hu => by rw [hsent, Function.update_of_ne hu]
  have hbusy := h.not_quiet hn hkind
  -- the link of a is the one to p
  have hforwarded : ∀ w u, ¬ (w = a ∧ u = p) → v'.forwarded w u = v.forwarded w u := by
    intro w u hne
    unfold forwarded
    by_cases hu : u = p
    · have hw : w ≠ a := fun hw => hne ⟨hw, hu⟩
      rw [hu, hsent, Function.update_self, List.filter_append, List.filter_cons_of_neg (by simpa using Ne.symm hw),
        List.filter_nil, List.append_nil]
    · rw [hsentTo u hu]
  have hpassed : v'.forwarded a p = v.forwarded a p ++ [m] := by
    unfold forwarded
    rw [hsent, Function.update_self, List.filter_append, List.filter_cons_of_pos (by simp), List.map_append]
    rfl
  have hexact : v'.forwarded a p = v'.owed a := by
    rw [hpassed, h.exact a p n hn hpeer]
    unfold owed
    rw [hwaited, hself, List.drop_append_of_le_length (h.kept a).length_le, List.append_assoc]
  have howed : ∀ w, w ≠ a → v'.owed w = v.owed w := fun w hw => by
    unfold owed
    rw [hsaid w hw, hwaited]
  refine ⟨?_, ?_, ?_, ?_, ?_, ?_, ?_, ?_, ?_, ?_, ?_, ?_, ?_⟩
  · rw [hnode, huid]
    exact h.born
  · intro u hu
    rw [hnode, huid] at hu
    obtain ⟨hh, hw, hs, hl⟩ := h.quiet u hu
    have hua : u ≠ a := fun heq => hbusy (heq ▸ hu)
    have hup : u ≠ p := fun heq => hl a (heq ▸ hap)
    rw [hheard, Function.update_of_ne hua, hwaited, hsentTo u hup]
    exact ⟨hh, hw, hs, fun w => by rw [hlinked]; exact hl w⟩
  · rw [hnode]
    exact h.fresh
  · intro u e he
    by_cases hu : u = p
    · rw [hu, hsent, Function.update_self, List.mem_append, List.mem_singleton] at he
      rcases he with he | rfl
      · obtain ⟨hown, horigin⟩ := h.origin p e he
        exact ⟨hown, fun w hw => (hlinked w u).mpr (hu ▸ horigin w hw)⟩
      · refine ⟨fun hnone => absurd hnone (by simp), fun w hw => (hlinked w u).mpr ?_⟩
        rw [← Option.some.inj hw, hu]
        exact hap
    · rw [hsentTo u hu] at he
      obtain ⟨hown, horigin⟩ := h.origin u e he
      exact ⟨hown, fun w hw => (hlinked w u).mpr (horigin w hw)⟩
  · rw [hnode, hpairs]
    exact h.kinds
  · rw [hpairs]
    exact h.distinct
  · intro u n w hn hw
    rw [hnode] at hn
    exact (hlinked u w).mpr (h.linked u n w hn hw)
  · rw [hpairs, hissued]
    exact h.granted
  · rw [hnode, hissued]
    exact h.asked
  · intro u
    rw [hwaited]
    by_cases hu : u = a
    · rw [hu, hself]
      exact (h.kept a).trans (List.prefix_append _ _)
    · rw [hsaid u hu]
      exact h.kept u
  · intro u n' hn' halive hwaiting
    rw [hnode] at hn'
    have hu : u ≠ a := by
      rintro rfl
      obtain rfl := Option.some.inj (hn.symm.trans hn')
      rw [hwaiting.2.2] at hpeer
      cases hpeer
    rw [hwaited, hsaid u hu]
    exact h.held u n' hn' halive hwaiting
  · intro w u hl
    have hbefore := (hlinked w u).mp hl
    by_cases hw : w = a
    · subst hw
      obtain rfl := linked_unique h.distinct hbefore hap
      rw [hexact]
    · rw [hforwarded w u fun hwu => hw hwu.1, howed w hw]
      exact h.ordered w u hbefore
  · intro w u n' hn' hpeer'
    rw [hnode] at hn'
    by_cases hw : w = a
    · subst hw
      obtain rfl := Option.some.inj (hn.symm.trans hn')
      obtain rfl := Option.some.inj (hpeer.symm.trans hpeer')
      exact hexact
    · rw [hforwarded w u fun hwu => hw hwu.1, howed w hw]
      exact h.exact w u n' hn' hpeer'

-- A message of a viewer whose host has not come yet.
theorem keep (h : Ledger v) {m : WsMsg} (hn : v.node a = some n) (halive : n.dead = false) (hwaiting : n.waiting)
    (hdata : isData m = true) :
    Ledger (({ v with heard := Function.update v.heard a (v.heard a ++ [m]) } : View).hold a m) := by
  generalize hv' : ({ v with heard := Function.update v.heard a (v.heard a ++ [m]) } : View).hold a m = v'
  have hpairs : v'.pairs = v.pairs := by rw [← hv']; rfl
  have hissued : v'.issued = v.issued := by rw [← hv']; rfl
  have huid : v'.nextUid = v.nextUid := by rw [← hv']; rfl
  have hsent : v'.sent = v.sent := by rw [← hv']; rfl
  have hheard : v'.heard = Function.update v.heard a (v.heard a ++ [m]) := by rw [← hv']; rfl
  have hwaited : v'.waited = Function.update v.waited a (v.waited a ++ [m]) := by rw [← hv']; rfl
  have hself : v'.node a = some { n with pending := n.pending ++ [m.data] } := by
    rw [← hv']
    show (View.set _ a _).node a = _
    rw [set_node, if_pos rfl]
    exact congrArg (Option.map _) hn
  have hnode : ∀ w, w ≠ a → v'.node w = v.node w := by
    intro w hw
    rw [← hv']
    show (View.set _ a _).node w = _
    rw [set_node, if_neg hw]
  have hlinked : ∀ w u, v'.Linked w u ↔ v.Linked w u := fun w u => by unfold Linked; rw [hpairs]
  have hforwarded : ∀ w u, v'.forwarded w u = v.forwarded w u := fun w u => by unfold forwarded; rw [hsent]
  have hsaid : ∀ w, w ≠ a → v'.said w = v.said w := fun w hw => by
    unfold said
    rw [hheard, Function.update_of_ne hw]
  have hsaidSelf : v'.said a = v.said a ++ [m] := by
    unfold said
    rw [hheard, Function.update_self, List.filter_append, List.filter_cons_of_pos hdata, List.filter_nil]
  have howed : ∀ w, w ≠ a → v'.owed w = v.owed w := fun w hw => by
    unfold owed
    rw [hsaid w hw, hwaited, Function.update_of_ne hw]
  have hkind : n.kind ≠ .Http := by rw [hwaiting.1]; decide
  have hbusy := h.not_quiet hn hkind
  have hfree := h.viewer_unlinked hn hwaiting.1 hwaiting.2.1
  obtain ⟨hpending, hall⟩ := h.held a n hn halive hwaiting
  refine ⟨?_, ?_, ?_, ?_, ?_, ?_, ?_, ?_, ?_, ?_, ?_, ?_, ?_⟩
  · intro u n' hn'
    rw [huid]
    by_cases hu : u = a
    · exact hu ▸ h.born a n hn
    · exact h.born u n' (hnode u hu ▸ hn')
  · intro u hu
    have hua : u ≠ a := by
      rintro rfl
      rw [huid, hself] at hu
      rcases hu with hu | ⟨n', hn', hhttp⟩
      · exact hbusy (.inl hu)
      · obtain rfl := Option.some.inj hn'
        exact hkind hhttp
    rw [huid, hnode u hua] at hu
    rw [hheard, hwaited, hsent, Function.update_of_ne hua, Function.update_of_ne hua]
    obtain ⟨hh, hw, hs, hl⟩ := h.quiet u hu
    exact ⟨hh, hw, hs, fun w => by rw [hlinked]; exact hl w⟩
  · intro u n' hn' hhttp
    by_cases hu : u = a
    · rw [hu, hself] at hn'
      obtain rfl := Option.some.inj hn'
      exact absurd hhttp hkind
    · exact h.fresh u n' (hnode u hu ▸ hn') hhttp
  · intro u e he
    rw [hsent] at he
    obtain ⟨hown, horigin⟩ := h.origin u e he
    exact ⟨hown, fun w hw => (hlinked w u).mpr (horigin w hw)⟩
  · intro p hp
    rw [hpairs] at hp
    have hhost : p.host ≠ a := fun heq => hfree p.viewer ⟨p, hp, .inr ⟨heq, rfl⟩⟩
    have hviewer : p.viewer ≠ a := fun heq => hfree p.host ⟨p, hp, .inl ⟨heq, rfl⟩⟩
    rw [hnode _ hhost, hnode _ hviewer]
    exact h.kinds p hp
  · rw [hpairs]
    exact h.distinct
  · intro u n' w hn' hw
    rw [hlinked]
    by_cases hu : u = a
    · rw [hu, hself] at hn'
      obtain rfl := Option.some.inj hn'
      exact hu ▸ h.linked a n w hn hw
    · exact h.linked u n' w (hnode u hu ▸ hn') hw
  · rw [hpairs, hissued]
    exact h.granted
  · intro u n' hn' hviewer hticket
    rw [hissued]
    by_cases hu : u = a
    · rw [hu, hself] at hn'
      obtain rfl := Option.some.inj hn'
      exact hu ▸ h.asked a n hn hviewer hticket
    · exact h.asked u n' (hnode u hu ▸ hn') hviewer hticket
  · intro u
    by_cases hu : u = a
    · rw [hu, hsaidSelf, hwaited, Function.update_self, hall]
    · rw [hsaid u hu, hwaited, Function.update_of_ne hu]
      exact h.kept u
  · intro u n' hn' halive' hwaiting'
    by_cases hu : u = a
    · rw [hu, hself] at hn'
      obtain rfl := Option.some.inj hn'
      rw [hu, hsaidSelf, hwaited, Function.update_self, List.map_append, ← hpending, hall]
      exact ⟨rfl, rfl⟩
    · rw [hsaid u hu, hwaited, Function.update_of_ne hu]
      exact h.held u n' (hnode u hu ▸ hn') halive' hwaiting'
  · intro w u hl
    have hbefore := (hlinked w u).mp hl
    have hw : w ≠ a := fun hw => hfree u (hw ▸ hbefore)
    rw [hforwarded, howed w hw]
    exact h.ordered w u hbefore
  · intro w u n' hn' hpeer
    by_cases hw : w = a
    · rw [hw, hself] at hn'
      obtain rfl := Option.some.inj hn'
      exact absurd (h.linked a n u hn hpeer) (hfree u)
    · rw [hforwarded, howed w hw]
      exact h.exact w u n' (hnode w hw ▸ hn') hpeer

-- A connection that becomes an upgraded one.
theorem promote (h : Ledger v) (hn : v.node a = some n) (hhttp : n.kind = .Http) (n' : Node)
    (hself : v'.node a = some n')
    (hkind : n'.kind ≠ .Http) (hpeer : n'.peer = n.peer) (hpending : n'.pending = n.pending)
    (hasked : n'.kind = .Viewer → n'.ticket ≠ [] → (n'.ticket, a, n'.id) ∈ v'.issued)
    (hnode : ∀ w n', w ≠ a → v'.node w = some n' → ∃ n, v.node w = some n ∧ n.Less n')
    (hheard : v'.heard = v.heard) (hwaited : v'.waited = v.waited) (hsent : v'.sent = v.sent)
    (hissued : v.issued ⊆ v'.issued)
    (hpairs : v'.pairs = v.pairs) (huid : v'.nextUid = v.nextUid) : Ledger v' := by
  obtain ⟨hquietHeard, hquietWaited, hquietSent, hfree⟩ := h.quiet a (.inr ⟨n, hn, hhttp⟩)
  have hnopeer : n'.peer = none := by
    rw [hpeer]
    cases hp : n.peer with
    | none => rfl
    | some w => exact absurd (h.linked a n w hn hp).symm (hfree w)
  -- all the others are as they were
  have hothers : Ledger { v with node := Function.update v'.node a none } := by
    refine h.of_less (fun w m' hm' => ?_) rfl rfl rfl rfl rfl rfl
    by_cases hw : w = a
    · dsimp only at hm'
      rw [hw, Function.update_self] at hm'
      cases hm'
    · dsimp only at hm'
      rw [Function.update_of_ne hw] at hm'
      exact hnode w m' hw hm'
  have hrow : ∀ w m', w ≠ a → v'.node w = some m' → Function.update v'.node a none w = some m' := by
    intro w m' hw hm'
    rw [Function.update_of_ne hw, hm']
  have hlinked : ∀ w u, v'.Linked w u ↔ v.Linked w u := fun w u => by unfold Linked; rw [hpairs]
  have hforwarded : ∀ w u, v'.forwarded w u = v.forwarded w u := fun w u => by unfold forwarded; rw [hsent]
  have hsaid : ∀ w, v'.said w = v.said w := fun w => by unfold said; rw [hheard]
  have howed : ∀ w, v'.owed w = v.owed w := fun w => by unfold owed; rw [hsaid, hwaited]
  refine ⟨?_, ?_, ?_, ?_, ?_, hpairs ▸ h.distinct, ?_, ?_, ?_, ?_, ?_, ?_, ?_⟩
  · intro u m' hm'
    rw [huid]
    by_cases hu : u = a
    · exact hu ▸ h.born a n hn
    · exact hothers.born u m' (hrow u m' hu hm')
  · intro u hu
    have hu' : v.nextUid ≤ u ∨ ∃ m, Function.update v'.node a none u = some m ∧ m.kind = .Http := by
      rcases hu with hu | ⟨m', hm', hkind'⟩
      · exact .inl (huid ▸ hu)
      · refine .inr ⟨m', hrow u m' ?_ hm', hkind'⟩
        rintro rfl
        obtain rfl := Option.some.inj (hself.symm.trans hm')
        exact hkind hkind'
    obtain ⟨hh, hw, hs, hl⟩ := hothers.quiet u hu'
    rw [hheard, hwaited, hsent]
    exact ⟨hh, hw, hs, fun w => by rw [hlinked]; exact hl w⟩
  · intro u m' hm' hkind'
    have hu : u ≠ a := by
      rintro rfl
      obtain rfl := Option.some.inj (hself.symm.trans hm')
      exact hkind hkind'
    exact hothers.fresh u m' (hrow u m' hu hm') hkind'
  · intro u e he
    rw [hsent] at he
    obtain ⟨hown, horigin⟩ := h.origin u e he
    exact ⟨hown, fun w hw => (hlinked w u).mpr (horigin w hw)⟩
  · intro p hp
    rw [hpairs] at hp
    have hhost : p.host ≠ a := fun heq => hfree p.viewer ⟨p, hp, .inl ⟨rfl, heq⟩⟩
    have hviewer : p.viewer ≠ a := fun heq => hfree p.host ⟨p, hp, .inr ⟨rfl, heq⟩⟩
    obtain ⟨hh, hv⟩ := hothers.kinds p hp
    exact ⟨fun m hm => hh m (hrow _ m hhost hm), fun m hm => hv m (hrow _ m hviewer hm)⟩
  · intro u m' w hm' hw
    rw [hlinked]
    by_cases hu : u = a
    · rw [hu, hself] at hm'
      obtain rfl := Option.some.inj hm'
      rw [hnopeer] at hw
      cases hw
    · exact hothers.linked u m' w (hrow u m' hu hm') hw
  · intro p hp
    rw [hpairs] at hp
    obtain ⟨hp, hkey⟩ := h.granted p hp
    exact ⟨hissued hp, hkey⟩
  · intro u m' hm' hviewer hticket
    by_cases hu : u = a
    · rw [hu, hself] at hm'
      obtain rfl := Option.some.inj hm'
      exact hu ▸ hasked hviewer hticket
    · exact hissued (hothers.asked u m' (hrow u m' hu hm') hviewer hticket)
  · intro u
    rw [hwaited, hsaid]
    exact h.kept u
  · intro u m' hm' halive hwaiting
    rw [hwaited, hsaid]
    by_cases hu : u = a
    · rw [hu, hself] at hm'
      obtain rfl := Option.some.inj hm'
      unfold said
      rw [hu, hpending, (h.fresh a n hn hhttp).1, hquietHeard, hquietWaited]
      exact ⟨rfl, rfl⟩
    · exact hothers.held u m' (hrow u m' hu hm') halive hwaiting
  · intro w u hl
    rw [hforwarded, howed]
    exact h.ordered w u ((hlinked w u).mp hl)
  · intro w u m' hm' hp
    rw [hforwarded, howed]
    by_cases hw : w = a
    · rw [hw, hself] at hm'
      obtain rfl := Option.some.inj hm'
      rw [hnopeer] at hp
      cases hp
    · exact hothers.exact w u m' (hrow w m' hw hm') hp

-- A ticket is redeemed: what has waited is on its way at once.
theorem redeem (h : Ledger v) (hn : v.node a = some n) (hhttp : n.kind = .Http) {p : Pairing} {m : Node}
    (hhost : p.host = a)
    (hm : v.node p.viewer = some m) (halive : m.dead = false) (hwaiting : m.waiting) (hticket : m.ticket = p.ticket)
    (hid : m.id = p.id) (hkey : p.key = p.registered) : Ledger ((v.redeem p m.pending).begin a n.inn) := by
  obtain ⟨hquietHeard, hquietWaited, hquietSent, hfree⟩ := h.quiet a (.inr ⟨n, hn, hhttp⟩)
  have hfreeViewer := h.viewer_unlinked hm hwaiting.1 hwaiting.2.1
  obtain ⟨hpending, hall⟩ := h.held p.viewer m hm halive hwaiting
  have hne : p.viewer ≠ a := by
    intro heq
    obtain rfl := Option.some.inj (hn.symm.trans (heq ▸ hm))
    rw [hwaiting.1] at hhttp
    cases hhttp
  generalize hv' : (v.redeem p m.pending).begin a n.inn = v'
  have hissued : v'.issued = v.issued := by rw [← hv']; rfl
  have huid : v'.nextUid = v.nextUid := by rw [← hv']; rfl
  have hheard : v'.heard = v.heard := by rw [← hv']; rfl
  have hwaited : v'.waited = v.waited := by rw [← hv']; rfl
  have hpairs : v'.pairs = v.pairs ++ [p] := by rw [← hv']; rfl
  have hsent : v'.sent = Function.update v.sent a
      (v.sent a ++ m.pending.map fun data => (some p.viewer, ⟨RD_WS_BINARY, data⟩)) := by rw [← hv', ← hhost]; rfl
  have hself : v'.node a = some { n with kind := .HostData, id := p.id, peer := some p.viewer } := by
    rw [← hv']
    show (View.set _ p.host _).node a = _
    rw [hhost, set_node, if_pos rfl, set_node, if_neg (Ne.symm hne)]
    exact congrArg (Option.map _) hn
  have hviewer : v'.node p.viewer = some { m with ticket := [], peer := some a, pending := [] } := by
    rw [← hv']
    show (View.set _ p.host _).node p.viewer = _
    rw [hhost, set_node, if_neg hne, set_node, if_pos rfl]
    exact congrArg (Option.map _) hm
  have hnode : ∀ w, w ≠ a → w ≠ p.viewer → v'.node w = v.node w := by
    intro w ha hw
    rw [← hv']
    show (View.set _ p.host _).node w = _
    rw [hhost, set_node, if_neg ha, set_node, if_neg hw]
    rfl
  have hlinked : ∀ w u, v'.Linked w u ↔ v.Linked w u ∨ p.viewer = w ∧ a = u ∨ a = w ∧ p.viewer = u := by
    intro w u
    unfold Linked
    rw [hpairs, ← hhost]
    simp only [List.mem_append, List.mem_singleton, or_and_right, exists_or, exists_eq_left]
  have hpair : v'.Linked p.viewer a := (hlinked _ _).mpr (.inr (.inl ⟨rfl, rfl⟩))
  have hsaid : ∀ w, v'.said w = v.said w := fun w => by unfold said; rw [hheard]
  have howed : ∀ w, v'.owed w = v.owed w := fun w => by unfold owed; rw [hsaid, hwaited]
  have hforwarded : ∀ w u, u ≠ a → v'.forwarded w u = v.forwarded w u := fun w u hu => by
    unfold forwarded
    rw [hsent, Function.update_of_ne hu]
  have hsilent : ∀ u, v.forwarded a u = [] := by
    intro u
    unfold forwarded
    rw [List.map_eq_nil_iff, List.filter_eq_nil_iff]
    intro e he horigin
    exact hfree u ((h.origin u e he).2 a (of_decide_eq_true horigin)).symm
  have hnothing : v.owed a = [] := by
    unfold owed said
    rw [hquietHeard, hquietWaited]
    rfl
  have hdelivered : v'.forwarded p.viewer a = v'.owed p.viewer := by
    have hbefore : (v.sent a).filter (fun e => decide (e.1 = some p.viewer)) = [] := by
      rw [List.filter_eq_nil_iff]
      intro e he horigin
      rw [hquietSent e he] at horigin
      cases of_decide_eq_true horigin
    rw [howed]
    unfold forwarded owed
    rw [hsent, Function.update_self, List.filter_append, hbefore, List.nil_append, hall, List.drop_length,
      List.append_nil,
      List.filter_eq_self.mpr (by simp), List.map_map, hpending, List.map_map, ← hall]
    rfl
  have hpairExact : ∀ w u, (p.viewer = w ∧ a = u ∨ a = w ∧ p.viewer = u) → v'.forwarded w u = v'.owed w := by
    rintro w u (⟨rfl, rfl⟩ | ⟨rfl, rfl⟩)
    · exact hdelivered
    · rw [hforwarded _ _ hne, hsilent, howed, hnothing]
  refine ⟨?_, ?_, ?_, ?_, ?_, ?_, ?_, ?_, ?_, ?_, ?_, ?_, ?_⟩
  · intro u m' hm'
    rw [huid]
    by_cases ha : u = a
    · exact ha ▸ h.born a n hn
    by_cases hw : u = p.viewer
    · exact hw ▸ h.born p.viewer m hm
    · exact h.born u m' (hnode u ha hw ▸ hm')
  · intro u hu
    have ha : u ≠ a := by
      rintro rfl
      rw [huid, hself] at hu
      rcases hu with hu | ⟨m', hm', hkind⟩
      · exact absurd (h.born u n hn) (Nat.not_lt.mpr hu)
      · obtain rfl := Option.some.inj hm'
        cases hkind
    have hw : u ≠ p.viewer := by
      rintro rfl
      rw [huid, hviewer] at hu
      rcases hu with hu | ⟨m', hm', hkind⟩
      · exact absurd (h.born _ m hm) (Nat.not_lt.mpr hu)
      · obtain rfl := Option.some.inj hm'
        have hviewerKind := hwaiting.1
        rw [show m.kind = .Http from hkind] at hviewerKind
        cases hviewerKind
    rw [huid, hnode u ha hw] at hu
    obtain ⟨hh, hwt, hs, hl⟩ := h.quiet u hu
    rw [hheard, hwaited, hsent, Function.update_of_ne ha]
    refine ⟨hh, hwt, hs, fun w hl' => ?_⟩
    rcases (hlinked w u).mp hl' with hl' | ⟨-, rfl⟩ | ⟨-, rfl⟩
    · exact hl w hl'
    · exact ha rfl
    · exact hw rfl
  · intro u m' hm' hkind
    by_cases ha : u = a
    · rw [ha, hself] at hm'
      obtain rfl := Option.some.inj hm'
      cases hkind
    by_cases hw : u = p.viewer
    · rw [hw, hviewer] at hm'
      obtain rfl := Option.some.inj hm'
      exact ⟨rfl, rfl⟩
    · exact h.fresh u m' (hnode u ha hw ▸ hm') hkind
  · intro u e he
    by_cases ha : u = a
    · rw [ha, hsent, Function.update_self, List.mem_append] at he
      rcases he with he | he
      · obtain ⟨hown, -⟩ := h.origin a e he
        refine ⟨hown, fun w hw => ?_⟩
        rw [hquietSent e he] at hw
        cases hw
      · obtain ⟨data, -, rfl⟩ := List.mem_map.mp he
        refine ⟨fun hnone => absurd hnone (by simp), fun w hw => ?_⟩
        obtain rfl := Option.some.inj hw
        exact ha ▸ hpair
    · rw [hsent, Function.update_of_ne ha] at he
      obtain ⟨hown, horigin⟩ := h.origin u e he
      exact ⟨hown, fun w hw => (hlinked w u).mpr (.inl (horigin w hw))⟩
  · intro q hq
    rw [hpairs, List.mem_append, List.mem_singleton] at hq
    rcases hq with hq | rfl
    · have hh : q.host ≠ a := fun heq => hfree q.viewer ⟨q, hq, .inl ⟨rfl, heq⟩⟩
      have hv : q.viewer ≠ a := fun heq => hfree q.host ⟨q, hq, .inr ⟨rfl, heq⟩⟩
      have hh' : q.host ≠ p.viewer := fun heq => hfreeViewer q.viewer ⟨q, hq, .inr ⟨heq, rfl⟩⟩
      have hv' : q.viewer ≠ p.viewer := fun heq => hfreeViewer q.host ⟨q, hq, .inl ⟨heq, rfl⟩⟩
      rw [hnode _ hh hh', hnode _ hv hv']
      exact h.kinds q hq
    · rw [hhost, hself, hviewer]
      refine ⟨fun m' hm' => ?_, fun m' hm' => ?_⟩
      · obtain rfl := Option.some.inj hm'
        rfl
      · obtain rfl := Option.some.inj hm'
        exact ⟨hwaiting.1, rfl⟩
  · rw [hpairs, List.flatMap_append, List.nodup_append]
    refine ⟨h.distinct, by simpa [hhost] using Ne.symm hne, ?_⟩
    intro x hx y hy
    obtain ⟨q, hq, hx⟩ := List.mem_flatMap.mp hx
    have hy : y = a ∨ y = p.viewer := by simpa [hhost] using hy
    rintro rfl
    have hx : x = q.host ∨ x = q.viewer := by simpa using hx
    rcases hx with rfl | rfl
    · rcases hy with heq | heq
      · exact hfree q.viewer ⟨q, hq, .inl ⟨rfl, heq⟩⟩
      · exact hfreeViewer q.viewer ⟨q, hq, .inr ⟨heq, rfl⟩⟩
    · rcases hy with heq | heq
      · exact hfree q.host ⟨q, hq, .inr ⟨rfl, heq⟩⟩
      · exact hfreeViewer q.host ⟨q, hq, .inl ⟨heq, rfl⟩⟩
  · intro u m' w hm' hp
    rw [hlinked]
    by_cases ha : u = a
    · rw [ha, hself] at hm'
      obtain rfl := Option.some.inj hm'
      exact .inr (.inr ⟨ha.symm, Option.some.inj hp⟩)
    by_cases hw : u = p.viewer
    · rw [hw, hviewer] at hm'
      obtain rfl := Option.some.inj hm'
      exact .inr (.inl ⟨hw.symm, Option.some.inj hp⟩)
    · exact .inl (h.linked u m' w (hnode u ha hw ▸ hm') hp)
  · intro q hq
    rw [hpairs, List.mem_append, List.mem_singleton] at hq
    rw [hissued]
    rcases hq with hq | rfl
    · exact h.granted q hq
    · refine ⟨?_, hkey⟩
      rw [← hticket, ← hid]
      exact h.asked _ m hm hwaiting.1 hwaiting.2.1
  · intro u m' hm' hkind hne'
    rw [hissued]
    by_cases ha : u = a
    · rw [ha, hself] at hm'
      obtain rfl := Option.some.inj hm'
      cases hkind
    by_cases hw : u = p.viewer
    · rw [hw, hviewer] at hm'
      obtain rfl := Option.some.inj hm'
      exact absurd rfl hne'
    · exact h.asked u m' (hnode u ha hw ▸ hm') hkind hne'
  · intro u
    rw [hwaited, hsaid]
    exact h.kept u
  · intro u m' hm' halive' hwaiting'
    rw [hwaited, hsaid]
    by_cases ha : u = a
    · rw [ha, hself] at hm'
      obtain rfl := Option.some.inj hm'
      cases hwaiting'.1
    by_cases hw : u = p.viewer
    · rw [hw, hviewer] at hm'
      obtain rfl := Option.some.inj hm'
      exact absurd rfl hwaiting'.2.1
    · exact h.held u m' (hnode u ha hw ▸ hm') halive' hwaiting'
  · intro w u hl
    rcases (hlinked w u).mp hl with hl | hl
    · have ha : u ≠ a := fun heq => hfree w (heq ▸ hl)
      rw [hforwarded w u ha, howed]
      exact h.ordered w u hl
    · rw [hpairExact w u hl]
  · intro w u m' hm' hp
    by_cases ha : w = a
    · rw [ha, hself] at hm'
      obtain rfl := Option.some.inj hm'
      exact hpairExact w u (.inr ⟨ha.symm, Option.some.inj hp⟩)
    by_cases hw : w = p.viewer
    · rw [hw, hviewer] at hm'
      obtain rfl := Option.some.inj hm'
      exact hpairExact w u (.inl ⟨hw.symm, Option.some.inj hp⟩)
    · rw [hnode w ha hw] at hm'
      have hua : u ≠ a := fun heq => hfree w (heq ▸ h.linked w m' u hm' hp)
      rw [hforwarded w u hua, howed]
      exact h.exact w u m' hm' hp

theorem accept (h : Ledger v) : Ledger v.accept := by
  have hnode : ∀ w, w ≠ v.nextUid → v.accept.node w = v.node w := fun w hw => Function.update_of_ne hw _ _
  have hself : v.accept.node v.nextUid = some .fresh := Function.update_self _ _ _
  have hquiet := h.quiet v.nextUid (.inl (Nat.le_refl _))
  refine ⟨?_, ?_, ?_, h.origin, ?_, h.distinct, ?_, h.granted, ?_, h.kept, ?_, h.ordered, ?_⟩
  · intro u n hn
    by_cases hu : u = v.nextUid
    · exact hu ▸ Nat.lt_succ_self _
    · exact Nat.lt_succ_of_lt (h.born u n (hnode u hu ▸ hn))
  · intro u hu
    by_cases hnew : u = v.nextUid
    · exact hnew ▸ hquiet
    · refine h.quiet u ?_
      rw [hnode u hnew] at hu
      exact hu.imp Nat.le_of_succ_le id
  · intro u n hn hkind
    by_cases hu : u = v.nextUid
    · rw [hu, hself] at hn
      obtain rfl := Option.some.inj hn
      exact ⟨rfl, rfl⟩
    · exact h.fresh u n (hnode u hu ▸ hn) hkind
  · intro p hp
    have hh : p.host ≠ v.nextUid := fun heq => hquiet.2.2.2 p.viewer ⟨p, hp, .inl ⟨rfl, heq⟩⟩
    have hv : p.viewer ≠ v.nextUid := fun heq => hquiet.2.2.2 p.host ⟨p, hp, .inr ⟨rfl, heq⟩⟩
    rw [hnode _ hh, hnode _ hv]
    exact h.kinds p hp
  · intro u n w hn hp
    by_cases hu : u = v.nextUid
    · rw [hu, hself] at hn
      obtain rfl := Option.some.inj hn
      cases hp
    · exact h.linked u n w (hnode u hu ▸ hn) hp
  · intro u n hn hkind hticket
    by_cases hu : u = v.nextUid
    · rw [hu, hself] at hn
      obtain rfl := Option.some.inj hn
      cases hkind
    · exact h.asked u n (hnode u hu ▸ hn) hkind hticket
  · intro u n hn halive hwaiting
    by_cases hu : u = v.nextUid
    · rw [hu, hself] at hn
      obtain rfl := Option.some.inj hn
      cases hwaiting.1
    · exact h.held u n (hnode u hu ▸ hn) halive hwaiting
  · intro w u n hn hp
    by_cases hw : w = v.nextUid
    · rw [hw, hself] at hn
      obtain rfl := Option.some.inj hn
      cases hp
    · exact h.exact w u n (hnode w hw ▸ hn) hp

theorem reap (h : Ledger v) : Ledger v.reap := by
  refine h.of_less (fun w n hn => ?_) rfl rfl rfl rfl rfl rfl
  exact ⟨n, (Option.filter_eq_some_iff.mp hn).1, .refl n⟩

section Actions

variable {presented : Option Bytes} {keeps : WsMsg → Prop}

-- Killing a connection does not look at what it has said.
theorem kill_heard (heard : Nat → List WsMsg) :
    ({ v with heard := heard } : View).kill u = { v.kill u with heard := heard } := by
  by_cases hgone : v.node u = none ∨ ∃ n, v.node u = some n ∧ n.dead = true
  · rw [kill_none hgone, kill_none (v := { v with heard := heard }) hgone]
  obtain ⟨n, hn⟩ : ∃ n, v.node u = some n := Option.ne_none_iff_exists'.mp fun hnone => hgone (.inl hnone)
  have halive : n.dead = false := by simpa using fun hdead => hgone (.inr ⟨n, hn, hdead⟩)
  have hn' : ({ v with heard := heard } : View).node u = some n := hn
  have hpast : (({ v with heard := heard } : View).kill u).past = ({ v.kill u with heard := heard } : View).past :=
    (kill_past (v := { v with heard := heard }) (u := u)).trans
      (congrArg (fun p : Past => { p with heard := heard }) (kill_past (v := v) (u := u))).symm
  simp only [View.past, Past.mk.injEq] at hpast
  obtain ⟨huid, hreceived, hheard, hwaited, hsent, hissued, hpairs⟩ := hpast
  refine View.ext (funext fun w => ?_) (funext fun id => ?_) (funext fun t => ?_) huid hreceived hheard
    hwaited hsent hissued hpairs
  · exact (kill_node hn' halive).trans (kill_node hn halive).symm
  · exact (kill_hosts hn' halive _).trans (kill_hosts hn halive _).symm
  · exact (kill_tickets hn' halive).trans (kill_tickets hn halive).symm

theorem kill (h : Ledger v) (u : Nat) : Ledger (v.kill u) := by
  have hpast := kill_past (v := v) (u := u)
  refine h.of_less (fun w n' hn' => ?_) (congrArg Past.heard hpast) (congrArg Past.waited hpast)
    (congrArg Past.sent hpast)
    (congrArg Past.issued hpast) (congrArg Past.pairs hpast) (congrArg Past.nextUid hpast)
  obtain ⟨n, hn, hcut⟩ := kill_cut hn'
  exact ⟨n, hn, hcut.less⟩

theorem set (h : Ledger v) (u : Nat) {f : Node → Node} (hf : ∀ n : Node, n.Less (f n)) : Ledger (v.set u f) :=
  h.of_less (fun _ _ hn => set_less hf hn) rfl rfl rfl rfl rfl rfl

theorem take (h : Ledger v) (u : Nat) (r : WsReader) (inn : Bytes) : Ledger (v.take u r inn) :=
  h.set u fun _ => ⟨rfl, rfl, rfl, rfl, fun h => h, fun _ h => h⟩

theorem take_self (hn : v.node a = some n) (r : WsReader) (inn : Bytes) :
    (v.take a r inn).node a = some { n with ws := r, inn := inn } := by
  unfold View.take
  rw [set_node, if_pos rfl, hn]
  rfl

-- One action keeps the books.
theorem action (h : Ledger v) (hsound : v.Sound) (hact : Action a presented keeps v v') : Ledger v' := by
  cases hact with
  | queue u m hown => exact h.queue u hown
  | request n inn hn hkind => exact h.set a fun _ => ⟨rfl, rfl, rfl, rfl, fun h => h, fun _ h => h⟩
  | receive n data hn hkind =>
      have hset := h.set a (f := fun n => { n with inn := n.inn ++ data }) fun _ =>
        ⟨rfl, rfl, rfl, rfl, fun h => h, fun _ h => h⟩
      exact hset.of_less (fun w n hn => ⟨n, hn, .refl n⟩) rfl rfl rfl rfl rfl rfl
  | stall n hn hkind hsilent => exact h.take a _ _
  | drop n m r inn hn hkind hnext hdropped =>
      refine (h.take a r inn).tell ((h.take a r inn).not_quiet (take_self hn r inn) hkind) fun hdata n' hn' => ?_
      obtain rfl := Option.some.inj ((take_self hn r inn).symm.trans hn')
      rcases hdropped with hcontrol | hctl | ⟨hpeer, hwaiting⟩
      · rw [hdata] at hcontrol
        cases hcontrol
      · refine ⟨?_, fun _ hwaiting => ?_⟩
        · cases hp : n.peer with
          | none => rfl
          | some w =>
              obtain ⟨q, hq, ⟨rfl, -⟩ | ⟨rfl, -⟩⟩ := h.linked a n w hn hp
              · have hviewer := ((h.kinds q hq).2 n hn).1
                rw [hctl] at hviewer
                cases hviewer
              · have hhost := (h.kinds q hq).1 n hn
                rw [hctl] at hhost
                cases hhost
        · have hviewer := hwaiting.1
          rw [show n.kind = .HostCtl from hctl] at hviewer
          cases hviewer
      · exact ⟨hpeer, fun _ h => hwaiting h⟩
  | forward n p m r inn hn hdata hnext hpeer =>
      have hkind : n.kind ≠ .Http := by
        intro hhttp
        rw [(hsound.unknown hn hhttp).1] at hpeer
        cases hpeer
      exact (h.take a r inn).pass (take_self hn r inn) hkind hpeer hdata
  | hold n m r inn hn halive hdata hnext hwaiting hkeeps =>
      exact (h.take a r inn).keep (take_self hn r inn) halive hwaiting hdata
  | overflow n m r inn hn halive hnext hwaiting =>
      have hkilled := (h.take a r inn).kill a
      have hself : ((v.take a r inn).kill a).node a =
          some { n with ws := r, inn := inn, dead := true, peer := none } := by
        rw [kill_node (take_self hn r inn) halive, if_pos rfl]
      have hcommutes := kill_heard (v := v.take a r inn) (u := a) (Function.update v.heard a (v.heard a ++ [m]))
      have hheard : ((v.take a r inn).kill a).heard = v.heard := congrArg Past.heard kill_past
      have htold := hkilled.tell (m := m) (hkilled.not_quiet hself (by rw [hwaiting.1]; decide)) fun _ n' hn' => by
        obtain rfl := Option.some.inj (hself.symm.trans hn')
        exact ⟨rfl, fun hdead => by cases hdead⟩
      rw [hheard, ← hcommutes] at htold
      exact htold
  | unpair n p hn hp =>
      refine h.of_less (fun w n' hn' => ?_) rfl rfl rfl rfl rfl rfl
      obtain ⟨n, hn, hcut⟩ := unpair_cut hn'
      exact ⟨n, hn, hcut.less⟩
  | kill => exact h.kill a
  | register n id key hn hkind halive hrequest howned =>
      have hretired : (v.retire ((v.hosts id).bind HostEntry.ctl)).node a = some n := by
        cases hctl : (v.hosts id).bind HostEntry.ctl with
        | none => exact hn
        | some old =>
            obtain ⟨e, he, hold⟩ := Option.bind_eq_some_iff.mp hctl
            exact hsound.kill_other hn hkind fun heq => (hsound.unknown hn hkind).2.2.2 id e he (heq ▸ hold)
      have hretire : Ledger (v.retire ((v.hosts id).bind HostEntry.ctl)) := by
        cases (v.hosts id).bind HostEntry.ctl with
        | none => exact h
        | some old => exact h.kill old
      refine hretire.promote hretired hkind { n with kind := .HostCtl, id := id } ?_ (by simp) rfl rfl
        (fun hviewer => by cases hviewer) ?_ rfl rfl rfl (fun _ h => h) rfl rfl
      · show (View.set _ a _).node a = _
        rw [set_node, if_pos rfl, hretired]
        rfl
      · intro w n' hw hn'
        refine ⟨n', ?_, .refl n'⟩
        have hrow : (View.set _ a _).node w = some n' := hn'
        rwa [set_node, if_neg hw] at hrow
  | redeem n w p e hhost hn hkind halive hentry hkey hregistered hticket hviewer hasked =>
      obtain ⟨hne, m, hm, hmalive, hmkind, hmpeer, hmticket⟩ := hsound.tickets _ _ hticket
      obtain rfl := Option.some.inj (hviewer.symm.trans hm)
      exact h.redeem hn hkind hhost hviewer hmalive ⟨hmkind, hmticket ▸ hne, hmpeer⟩ hmticket hasked
        (hkey.symm.trans hregistered.symm)
  | await n id t hn hkind halive hdrawn =>
      refine h.promote hn hkind { n with kind := .Viewer, id := id, ticket := t } ?_ (by simp) rfl rfl
        (fun _ _ => List.mem_append_right _ List.mem_cons_self) ?_ rfl rfl rfl (List.subset_append_left _ _) rfl rfl
      · show (View.set _ a _).node a = _
        rw [set_node, if_pos rfl, hn]
        rfl
      · intro w n' hw hn'
        refine ⟨n', ?_, .refl n'⟩
        have hrow : (View.set _ a _).node w = some n' := hn'
        rwa [set_node, if_neg hw] at hrow
  | refuse n id hn hkind =>
      refine h.promote hn hkind { n with kind := .Viewer, id := id } ?_ (by simp) rfl rfl
        (fun _ hticket => absurd (h.fresh a n hn hkind).2 hticket) ?_ rfl rfl rfl (fun _ h => h) rfl rfl
      · show (View.set _ a _).node a = _
        rw [set_node, if_pos rfl, hn]
        rfl
      · intro w n' hw hn'
        refine ⟨n', ?_, .refl n'⟩
        have hrow : (View.set _ a _).node w = some n' := hn'
        rwa [set_node, if_neg hw] at hrow

theorem action_nextUid (hact : Action a presented keeps v v') : v'.nextUid = v.nextUid := by
  cases hact with
  | overflow n m r inn _ _ _ _ => exact congrArg Past.nextUid kill_past
  | kill => exact congrArg Past.nextUid kill_past
  | register n id key _ _ _ _ _ => exact congrArg Past.nextUid (retire_past _)
  | _ => rfl

theorem acts_nextUid (hacts : Acts a presented keeps v v') : v'.nextUid = v.nextUid := by
  induction hacts with
  | refl => rfl
  | tail _ hact ih => exact (action_nextUid hact).trans ih

-- What is kept.
theorem waited_keeps (h : ∀ w, ∀ m ∈ v.waited w, keeps m) (hact : Action a presented keeps v v') :
    ∀ w, ∀ m ∈ v'.waited w, keeps m := by
  have hkill : ∀ (v : View) u, (v.kill u).waited = v.waited := fun v u => congrArg Past.waited kill_past
  cases hact with
  | hold n m r inn _ _ _ _ _ hkeeps =>
      intro w m' hm'
      unfold View.hold at hm'
      dsimp only at hm'
      by_cases hw : w = a
      · rw [hw, Function.update_self, List.mem_append, List.mem_singleton] at hm'
        rcases hm' with hm' | rfl
        · exact h a m' hm'
        · exact hkeeps
      · rw [Function.update_of_ne hw] at hm'
        exact h w m' hm'
  | overflow n m r inn _ _ _ _ =>
      rw [hkill]
      exact h
  | kill =>
      rw [hkill]
      exact h
  | register n id key _ _ _ _ _ =>
      have hretire : (v.retire ((v.hosts id).bind HostEntry.ctl)).waited = v.waited :=
        congrArg Past.waited (retire_past _)
      exact fun w m hm => h w m (hretire ▸ hm)
  | _ => exact h

theorem acts_waited (hacts : Acts a presented keeps v v') (h : ∀ w, ∀ m ∈ v.waited w, keeps m) :
    ∀ w, ∀ m ∈ v'.waited w, keeps m := by
  induction hacts with
  | refl => exact h
  | tail _ hact ih => exact waited_keeps ih hact

theorem acts (h : Ledger v) (hsound : v.Sound) (hacts : Acts a presented keeps v v') : Ledger v' := by
  induction hacts with
  | refl => exact h
  | tail hacts hact ih => exact ih.action (hsound.acts hacts) hact

end Actions

end Ledger

end View

end TetherDesk.Relay
