import TetherDesk.Net.Ws.Spoken
import TetherDesk.Relay.Conn
import Mathlib.Logic.Relation
import Mathlib.Tactic

namespace TetherDesk.Relay

open TetherDesk.Net

-- The relay without its outgoing bytes and clocks: what a connection is to others, what
-- it has yet to read, and the three places that hold pointers to it.
structure Node where
  kind : Kind
  dead : Bool
  id : Bytes
  ticket : Bytes
  peer : Option Nat
  pending : List Bytes
  ws : WsReader
  inn : Bytes

@[ext] structure View where
  node : Nat → Option Node
  hosts : Bytes → Option HostEntry
  tickets : Bytes → Option Nat
  nextUid : Nat
  received : Nat → Bytes
  heard : Nat → List WsMsg
  waited : Nat → List WsMsg
  sent : Nat → List (Option Nat × WsMsg)
  issued : List (Bytes × Nat × Bytes)
  pairs : List Pairing

-- A message that is not answered or dropped by the relay itself.
def isData (m : WsMsg) : Bool := m.opcode ≠ RD_WS_PING ∧ m.opcode ≠ RD_WS_PONG ∧ m.opcode ≠ RD_WS_CLOSE

def Node.fresh : Node := ⟨.Http, false, [], [], none, [], rdWsReaderInit kMaxMessage true, []⟩

def Node.links (n : Node) : Kind × Bool × Bytes × Bytes × Option Nat := (n.kind, n.dead, n.id, n.ticket, n.peer)

-- A viewer whose host has not come yet.
def Node.waiting (n : Node) : Prop := n.kind = .Viewer ∧ n.ticket ≠ [] ∧ n.peer = none

namespace View

variable (v : View)

def set (u : Nat) (f : Node → Node) : View := { v with node := Function.update v.node u ((v.node u).map f) }

def queue (u : Nat) (origin : Option Nat) (m : WsMsg) : View :=
  { v with sent := Function.update v.sent u (v.sent u ++ [(origin, m)]) }

def take (u : Nat) (r : WsReader) (inn : Bytes) : View := v.set u fun n => { n with ws := r, inn := inn }

def receive (u : Nat) (data : Bytes) : View :=
  { v.set u fun n => { n with inn := n.inn ++ data } with
    received := Function.update v.received u (v.received u ++ data) }

-- rd_ws_next has made a message.
def hear (u : Nat) (r : WsReader) (inn : Bytes) (m : WsMsg) : View :=
  { v.take u r inn with heard := Function.update v.heard u (v.heard u ++ [m]) }

def hold (u : Nat) (m : WsMsg) : View :=
  { v.set u fun n => { n with pending := n.pending ++ [m.data] } with
    waited := Function.update v.waited u (v.waited u ++ [m]) }

-- From here on what comes in are frames.
def begin (u : Nat) (inn : Bytes) : View := { v with received := Function.update v.received u inn }

def setHost (id : Bytes) (h : HostEntry) : View := { v with hosts := Function.update v.hosts id (some h) }

def setTicket (t : Bytes) (u : Option Nat) : View := { v with tickets := Function.update v.tickets t u }

def unpair (u p : Nat) : View := (v.set p fun n => { n with peer := none }).set u fun n => { n with peer := none }

def dropControl (u : Nat) (id : Bytes) : View :=
  match v.hosts id with
  | none => v
  | some h => if h.ctl = some u then v.setHost id { h with ctl := none } else v

def kill (u : Nat) : View :=
  match v.node u with
  | none => v
  | some n =>
      if n.dead then v
      else
        let v := v.set u fun n => { n with dead := true }
        let v :=
          match n.peer with
          | none => v
          | some p => v.unpair u p
        let v := if n.kind = .Viewer ∧ n.ticket ≠ [] then v.setTicket n.ticket none else v
        if n.kind = .HostCtl then v.dropControl u n.id else v

def retire (ctl : Option Nat) : View :=
  match ctl with
  | none => v
  | some old => v.kill old

-- The paired connections get each other and what the viewer has said so far.
def redeem (p : Pairing) (pending : List Bytes) : View :=
  let v := (v.setTicket p.ticket none).set p.viewer fun n =>
    { n with ticket := [], peer := some p.host, pending := [] }
  let v := v.set p.host fun n => { n with kind := .HostData, id := p.id, peer := some p.viewer }
  { v with
    pairs := v.pairs ++ [p]
    sent := Function.update v.sent p.host
      (v.sent p.host ++ pending.map fun data => (some p.viewer, ⟨RD_WS_BINARY, data⟩)) }

def await (u : Nat) (id t : Bytes) : View :=
  { (v.set u fun n => { n with kind := .Viewer, id := id, ticket := t }).setTicket t (some u) with
    issued := v.issued ++ [(t, u, id)] }

def reap : View := { v with node := fun u => (v.node u).filter fun n => !n.dead }

def accept : View := { v with node := Function.update v.node v.nextUid (some .fresh), nextUid := v.nextUid + 1 }

-- What can happen while connection a is served; presented is the key of its request, and
-- kept holds of every message that is kept for a host.
inductive Action (a : Nat) (presented : Option Bytes) (kept : WsMsg → Prop) (v : View) : View → Prop
  | queue (u : Nat) (m : WsMsg) (own : m.opcode ≠ RD_WS_BINARY) : Action a presented kept v (v.queue u none m)
  | request (n : Node) (inn : Bytes) (node : v.node a = some n) (kind : n.kind = .Http) :
      Action a presented kept v (v.set a fun n => { n with inn := inn })
  | receive (n : Node) (data : Bytes) (node : v.node a = some n) (upgraded : n.kind ≠ .Http) :
      Action a presented kept v (v.receive a data)
  | stall (n : Node) (node : v.node a = some n) (upgraded : n.kind ≠ .Http)
      (silent : (wsDecoder.next n.ws n.inn).1.message = none) :
      Action a presented kept v (v.take a (rdWsNext n.ws n.inn).2.1 (rdWsNext n.ws n.inn).2.2)
  | drop (n : Node) (m : WsMsg) (r : WsReader) (inn : Bytes) (node : v.node a = some n) (upgraded : n.kind ≠ .Http)
      (next : rdWsNext n.ws n.inn = (.got m, r, inn))
      (dropped : isData m = false ∨ n.kind = .HostCtl ∨ n.peer = none ∧ ¬ n.waiting) :
      Action a presented kept v (v.hear a r inn m)
  | forward (n : Node) (p : Nat) (m : WsMsg) (r : WsReader) (inn : Bytes) (node : v.node a = some n)
      (data : isData m = true)
      (next : rdWsNext n.ws n.inn = (.got m, r, inn)) (peer : n.peer = some p) :
      Action a presented kept v ((v.hear a r inn m).queue p (some a) m)
  | hold (n : Node) (m : WsMsg) (r : WsReader) (inn : Bytes) (node : v.node a = some n) (alive : n.dead = false)
      (data : isData m = true) (next : rdWsNext n.ws n.inn = (.got m, r, inn)) (waiting : n.waiting)
        (keeps : kept m) :
      Action a presented kept v ((v.hear a r inn m).hold a m)
  | overflow (n : Node) (m : WsMsg) (r : WsReader) (inn : Bytes) (node : v.node a = some n) (alive : n.dead = false)
      (next : rdWsNext n.ws n.inn = (.got m, r, inn)) (waiting : n.waiting) :
      Action a presented kept v ((v.hear a r inn m).kill a)
  | unpair (n : Node) (p : Nat) (node : v.node a = some n)
      (peer : n.peer = some p) : Action a presented kept v (v.unpair a p)
  | kill : Action a presented kept v (v.kill a)
  | register (n : Node) (id key : Bytes) (node : v.node a = some n) (kind : n.kind = .Http) (alive : n.dead = false)
      (request : presented = some key) (owned : ∀ h, v.hosts id = some h → h.ctl ≠ none → h.key = key) :
      Action a presented kept v
        ((((v.retire ((v.hosts id).bind HostEntry.ctl)).set a fun n =>
          { n with kind := .HostCtl, id := id }).setHost id
          ⟨key, some a⟩).begin a n.inn)
  | redeem (n w : Node) (p : Pairing) (h : HostEntry) (host : p.host = a) (node : v.node a = some n)
      (kind : n.kind = .Http)
      (alive : n.dead = false) (entry : v.hosts p.id = some h) (key : h.key = p.key)
        (registered : p.registered = h.key)
      (ticket : v.tickets p.ticket = some p.viewer) (viewer : v.node p.viewer = some w) (asked : w.id = p.id) :
      Action a presented kept v ((v.redeem p w.pending).begin a n.inn)
  | await (n : Node) (id t : Bytes) (node : v.node a = some n) (kind : n.kind = .Http) (alive : n.dead = false)
      (drawn : t ≠ []) : Action a presented kept v ((v.await a id t).begin a n.inn)
  | refuse (n : Node) (id : Bytes) (node : v.node a = some n) (kind : n.kind = .Http) :
      Action a presented kept v ((v.set a fun n => { n with kind := .Viewer, id := id }).begin a n.inn)

abbrev Acts (a : Nat) (presented : Option Bytes) (kept : WsMsg → Prop) : View → View → Prop :=
  Relation.ReflTransGen (Action a presented kept)

-- What has happened so far.
structure Past where
  nextUid : Nat
  received : Nat → Bytes
  heard : Nat → List WsMsg
  waited : Nat → List WsMsg
  sent : Nat → List (Option Nat × WsMsg)
  issued : List (Bytes × Nat × Bytes)
  pairs : List Pairing

def past : Past := ⟨v.nextUid, v.received, v.heard, v.waited, v.sent, v.issued, v.pairs⟩

section Spec

variable {v : View} {u w : Nat} {f : Node → Node} {n : Node}

theorem set_node : (v.set u f).node w = if w = u then (v.node w).map f else v.node w := by
  unfold set
  dsimp only
  by_cases h : w = u
  · rw [if_pos h, h, Function.update_self]
  · rw [if_neg h, Function.update_of_ne h]

theorem unpair_node {p : Nat} : (v.unpair u p).node w =
    if w = u ∨ w = p then (v.node w).map fun n => { n with peer := none } else v.node w := by
  unfold unpair
  rw [set_node, set_node]
  by_cases hu : w = u
  · rw [if_pos hu, if_pos (show w = u ∨ w = p from .inl hu)]
    by_cases hp : w = p
    · rw [if_pos hp, Option.map_map]
      rfl
    · rw [if_neg hp]
  · rw [if_neg hu]
    by_cases hp : w = p
    · rw [if_pos hp, if_pos (show w = u ∨ w = p from .inr hp)]
    · rw [if_neg hp, if_neg (show ¬ (w = u ∨ w = p) by simp [hu, hp])]

theorem dropControl_hosts {id id' : Bytes} : (v.dropControl u id).hosts id' =
    (v.hosts id').map fun h => if id' = id ∧ h.ctl = some u then { h with ctl := none } else h := by
  unfold dropControl setHost
  cases hh : v.hosts id with
  | none =>
      dsimp only
      by_cases hid : id' = id
      · rw [hid, hh]
        rfl
      · simp [hid]
  | some h =>
      dsimp only
      by_cases hctl : h.ctl = some u
      · rw [if_pos hctl]
        dsimp only
        by_cases hid : id' = id
        · rw [hid, Function.update_self, hh]
          simp [hctl]
        · rw [Function.update_of_ne hid]
          simp [hid]
      · rw [if_neg hctl]
        by_cases hid : id' = id
        · rw [hid, hh]
          simp [hctl]
        · simp [hid]

theorem dropControl_node {id : Bytes} : (v.dropControl u id).node = v.node := by
  unfold dropControl setHost
  cases v.hosts id with
  | none => rfl
  | some h => dsimp only; split <;> rfl

theorem dropControl_tickets {id : Bytes} : (v.dropControl u id).tickets = v.tickets := by
  unfold dropControl setHost
  cases v.hosts id with
  | none => rfl
  | some h => dsimp only; split <;> rfl

-- What kill_conn does, field by field.
theorem kill_node (hn : v.node u = some n) (halive : n.dead = false) : (v.kill u).node w =
    if w = u then some { n with dead := true, peer := none }
    else if n.peer = some w then (v.node w).map fun n => { n with peer := none }
    else v.node w := by
  unfold kill
  rw [hn]
  dsimp only
  rw [if_neg (by simp [halive])]
  have hrest : ∀ v' : View, (if n.kind = .HostCtl then
      (if n.kind = .Viewer ∧ n.ticket ≠ [] then v'.setTicket n.ticket none else v').dropControl u n.id
      else if n.kind = .Viewer ∧ n.ticket ≠ [] then v'.setTicket n.ticket none else v').node = v'.node := by
    intro v'
    split
    · rw [dropControl_node]
      split <;> rfl
    · split <;> rfl
  rw [hrest]
  cases hp : n.peer with
  | none =>
      dsimp only
      rw [set_node]
      by_cases hw : w = u
      · rw [if_pos hw, if_pos hw, hw, hn, ← hp]
        rfl
      · rw [if_neg hw, if_neg hw, if_neg (show none ≠ some w by simp)]
  | some p =>
      dsimp only
      rw [unpair_node, set_node]
      by_cases hw : w = u
      · rw [if_pos (show w = u ∨ w = p from .inl hw), if_pos hw, if_pos hw, hw, hn]
        rfl
      · rw [if_neg hw, if_neg hw]
        by_cases hwp : w = p
        · rw [if_pos (show w = u ∨ w = p from .inr hwp), if_pos (show some p = some w by rw [hwp])]
        · rw [if_neg (show ¬ (w = u ∨ w = p) by simp [hw, hwp]),
            if_neg (show ¬ some p = some w by simpa using Ne.symm hwp)]

theorem kill_tickets (hn : v.node u = some n) (halive : n.dead = false) {t : Bytes} : (v.kill u).tickets t =
    if n.kind = .Viewer ∧ n.ticket ≠ [] ∧ t = n.ticket then none else v.tickets t := by
  unfold kill
  rw [hn]
  dsimp only
  rw [if_neg (by simp [halive])]
  have hpaired : ∀ v' : View, (match n.peer with | none => v' | some p => v'.unpair u p).tickets = v'.tickets := by
    intro v'
    cases n.peer <;> rfl
  have hdrop : ∀ v' : View, (if n.kind = .HostCtl then v'.dropControl u n.id else v').tickets = v'.tickets := by
    intro v'
    split
    · exact dropControl_tickets
    · rfl
  rw [hdrop]
  by_cases hviewer : n.kind = .Viewer ∧ n.ticket ≠ []
  · rw [if_pos hviewer]
    unfold setTicket
    dsimp only
    by_cases ht : t = n.ticket
    · rw [ht, Function.update_self, if_pos ⟨hviewer.1, hviewer.2, rfl⟩]
    · rw [Function.update_of_ne ht, if_neg (by simp [ht]), hpaired]
      rfl
  · rw [if_neg hviewer, if_neg (by tauto), hpaired]
    rfl

theorem kill_hosts (hn : v.node u = some n) (halive : n.dead = false) (id : Bytes) : (v.kill u).hosts id =
    (v.hosts id).map fun h => if n.kind = .HostCtl ∧ id = n.id ∧
      h.ctl = some u then { h with ctl := none } else h := by
  unfold kill
  rw [hn]
  dsimp only
  rw [if_neg (by simp [halive])]
  have hbefore : ∀ v' : View, (if n.kind = Kind.Viewer ∧ n.ticket ≠ [] then
      (match n.peer with | none => v' | some p => v'.unpair u p).setTicket n.ticket none
      else match n.peer with | none => v' | some p => v'.unpair u p).hosts = v'.hosts := by
    intro v'
    cases n.peer with
    | none => dsimp only; split <;> rfl
    | some p => dsimp only; split <;> rfl
  by_cases hctl : n.kind = .HostCtl
  · rw [if_pos hctl, dropControl_hosts, hbefore]
    simp [hctl, set]
  · rw [if_neg hctl, hbefore]
    simp [hctl, set]

-- What it does not touch.
theorem kill_past : (v.kill u).past = v.past := by
  have hdrop : ∀ (v' : View) id, (v'.dropControl u id).past = v'.past := by
    intro v' id
    unfold dropControl
    cases v'.hosts id with
    | none => rfl
    | some h =>
        dsimp only
        split <;> rfl
  unfold kill
  cases v.node u with
  | none => rfl
  | some n =>
      dsimp only
      by_cases hdead : n.dead = true
      · rw [if_pos hdead]
      rw [if_neg hdead]
      by_cases hctl : n.kind = .HostCtl
      · rw [if_pos hctl, hdrop]
        cases n.peer <;> dsimp only <;> split <;> rfl
      · rw [if_neg hctl]
        cases n.peer <;> dsimp only <;> split <;> rfl

theorem kill_none (hn : v.node u = none ∨ ∃ n, v.node u = some n ∧ n.dead = true) : v.kill u = v := by
  unfold kill
  rcases hn with hn | ⟨n, hn, hdead⟩
  · rw [hn]
  · rw [hn]
    simp [hdead]

end Spec

end View

end TetherDesk.Relay
