import TetherDesk.Relay.Loop
import TetherDesk.Relay.Sound

namespace TetherDesk.Relay

open TetherDesk.Net TetherDesk.Secure TetherDesk.Lib

def Conn.node (c : Conn) : Node := ⟨c.kind, c.dead, c.id, c.ticket, c.peer, c.pending, c.ws, c.inn⟩

def Globals.view (s : Globals) : View :=
  ⟨fun uid => (s.find uid).map Conn.node, s.hosts, s.tickets, s.nextUid, s.past.received, s.past.heard,
    s.past.waited,
    s.past.sent, s.past.issued, s.past.pairs⟩

def Globals.uids (s : Globals) : List Nat := s.conns.map Conn.uid

-- Frames of the relay itself.
def View.queues (v : View) (l : List (Nat × WsMsg)) : View := l.foldl (fun v e => v.queue e.1 none e.2) v

def View.Chatter (v v' : View) : Prop := ∃ l : List (Nat × WsMsg), (∀ e ∈ l, e.2.opcode ≠ RD_WS_BINARY) ∧
    v' = v.queues l

-- Everything connection a can cause.
structure Serves (a : Nat) (presented : Option Bytes) (kept : WsMsg → Prop) (s s' : Globals) : Prop where
  uids : s'.uids = s.uids
  acts : View.Acts a presented kept s.view s'.view

namespace View.Chatter

variable {v v' v'' : View} {a : Nat} {presented : Option Bytes} {kept : WsMsg → Prop}

theorem refl : Chatter v v := ⟨[], by simp, rfl⟩

theorem of_eq (h : v' = v) : Chatter v v' := h ▸ refl

theorem queue (u : Nat) {m : WsMsg} (h : m.opcode ≠ RD_WS_BINARY) : Chatter v (v.queue u none m) :=
  ⟨[(u, m)], by simpa using h, rfl⟩

theorem trans (h : Chatter v v') (h' : Chatter v' v'') : Chatter v v'' := by
  obtain ⟨l, hl, hv⟩ := h
  obtain ⟨l', hl', hv'⟩ := h'
  refine ⟨l ++ l', List.forall_mem_append.mpr ⟨hl, hl'⟩, ?_⟩
  unfold queues
  rw [List.foldl_append, hv', hv]
  exact rfl

theorem acts (h : Chatter v v') : Acts a presented kept v v' := by
  obtain ⟨l, hl, rfl⟩ := h
  induction l generalizing v with
  | nil => exact .refl
  | cons e l ih =>
      obtain ⟨hown, hl⟩ := List.forall_mem_cons.mp hl
      exact .head (.queue e.1 e.2 hown) (ih hl)

-- An update that does not look at the frames.
theorem map (f : View → View) (hf : ∀ v u m, f (v.queue u none m) = (f v).queue u none m) (h : Chatter v v') :
    Chatter (f v) (f v') := by
  obtain ⟨l, hl, rfl⟩ := h
  refine ⟨l, hl, ?_⟩
  induction l generalizing v with
  | nil => exact rfl
  | cons e l ih =>
      refine (ih (List.forall_mem_cons.mp hl).2).trans ?_
      rw [hf]
      exact rfl

theorem kill (h : Chatter v v') (u : Nat) : Chatter (v.kill u) (v'.kill u) := by
  refine h.map (View.kill · u) (fun v w m => ?_)
  unfold View.kill View.queue
  dsimp only
  cases v.node u with
  | none => exact rfl
  | some n =>
      dsimp only
      by_cases hdead : n.dead = true
      · rw [if_pos hdead, if_pos hdead]
      rw [if_neg hdead, if_neg hdead]
      unfold View.dropControl
      by_cases hctl : n.kind = .HostCtl
      · rw [if_pos hctl, if_pos hctl]
        have hviewer : ¬ (n.kind = .Viewer ∧ n.ticket ≠ []) := by simp [hctl]
        rw [if_neg hviewer, if_neg hviewer]
        cases n.peer with
        | none =>
            dsimp only [set]
            cases v.hosts n.id with
            | none => exact rfl
            | some h =>
                dsimp only
                split <;> exact rfl
        | some p =>
            dsimp only [set, View.unpair]
            cases v.hosts n.id with
            | none => exact rfl
            | some h =>
                dsimp only
                split <;> exact rfl
      · rw [if_neg hctl, if_neg hctl]
        by_cases hviewer : n.kind = .Viewer ∧ n.ticket ≠ []
        · rw [if_pos hviewer, if_pos hviewer]
          cases n.peer <;> exact rfl
        · rw [if_neg hviewer, if_neg hviewer]
          cases n.peer <;> exact rfl

theorem node (h : Chatter v v') : v'.node = v.node := by
  obtain ⟨l, -, rfl⟩ := h
  induction l generalizing v with
  | nil => exact rfl
  | cons e l ih => exact ih

end View.Chatter

section Rows

variable {s s' : Globals} {u w : Nat} {c : Conn} {f : Conn → Conn}

theorem find_uid (h : s.find u = some c) : c.uid = u := by simpa using List.find?_some h

theorem find_modify (hf : ∀ c, c.uid = u → (f c).uid = u) :
    (s.modify u f).find w = if w = u then (s.find u).map f else s.find w := by
  unfold Globals.modify Globals.find
  dsimp only
  by_cases hw : w = u
  · rw [if_pos hw, hw]
    induction s.conns with
    | nil => rfl
    | cons c l ih =>
        by_cases hc : c.uid = u
        · rw [List.map_cons, List.find?_cons_of_pos (by simpa [hc] using hf c hc),
            List.find?_cons_of_pos (by simpa using hc),
            if_pos hc]
          rfl
        · rw [List.map_cons, List.find?_cons_of_neg (by simp [hc]), List.find?_cons_of_neg (by simpa using hc)]
          exact ih
  · rw [if_neg hw]
    induction s.conns with
    | nil => rfl
    | cons c l ih =>
        rw [List.map_cons]
        by_cases hc : c.uid = u
        · have hne : (f c).uid ≠ w := by rw [hf c hc]; exact Ne.symm hw
          rw [List.find?_cons_of_neg (by simpa [hc] using hne),
            List.find?_cons_of_neg (by rw [hc]; simpa using Ne.symm hw)]
          exact ih
        · rw [if_neg hc]
          by_cases hcw : c.uid = w
          · rw [List.find?_cons_of_pos (by simpa using hcw), List.find?_cons_of_pos (by simpa using hcw)]
          · rw [List.find?_cons_of_neg (by simpa using hcw), List.find?_cons_of_neg (by simpa using hcw)]
            exact ih

theorem uids_modify (hf : ∀ c, c.uid = u → (f c).uid = u) : (s.modify u f).uids = s.uids := by
  unfold Globals.uids Globals.modify
  rw [List.map_map]
  refine List.map_congr_left fun c _ => ?_
  rw [Function.comp_apply]
  split
  · next h => rw [hf c h, h]
  · rfl

theorem view_modify (g : Node → Node) (hf : ∀ c, c.uid = u → (f c).uid = u)
    (hg : ∀ c, s.find u = some c → (f c).node = g c.node) : (s.modify u f).view = s.view.set u g := by
  refine View.ext (funext fun w => ?_) rfl rfl rfl rfl rfl rfl rfl rfl rfl
  rw [View.set_node]
  unfold Globals.view
  dsimp only
  rw [find_modify hf]
  by_cases hw : w = u
  · rw [if_pos hw, if_pos hw, hw]
    cases hc : s.find u with
    | none => rfl
    | some c => exact congrArg some (hg c hc)
  · rw [if_neg hw, if_neg hw]

theorem view_modify_same (hf : ∀ c, c.uid = u → (f c).uid = u)
    (hsame : ∀ c, s.find u = some c → (f c).node = c.node) :
    (s.modify u f).view = s.view := by
  rw [view_modify id hf hsame]
  refine View.ext (funext fun w => ?_) rfl rfl rfl rfl rfl rfl rfl rfl rfl
  rw [View.set_node, Option.map_id_fun, id]
  split <;> rfl

theorem view_node (h : s.find u = some c) : s.view.node u = some c.node := by
  unfold Globals.view
  dsimp only
  rw [h]
  rfl

theorem find_of_node {n : Node} (h : s.view.node u = some n) : ∃ c, s.find u = some c ∧ c.node = n :=
  Option.map_eq_some_iff.mp h

end Rows

section Operations

variable {s : Globals} {u : Nat} {a : Nat} {presented : Option Bytes} {kept : WsMsg → Prop}

theorem wsSend_uids (origin : Option Nat) (opcode : Nat) (p : Bytes) : (s.wsSend origin u opcode p).uids =
    s.uids := by
  unfold Globals.wsSend
  cases s.find u with
  | none => rfl
  | some c =>
      dsimp only
      split
      · rfl
      · exact uids_modify fun _ h => h

theorem wsSend_queues (c : Conn) (h : s.find u = some c) (halive : c.dead = false) (origin : Option Nat)
    (opcode : Nat) (p : Bytes) :
    (s.wsSend origin u opcode p).view = s.view.queue u origin ⟨opcode, p⟩ := by
  unfold Globals.wsSend
  rw [h]
  dsimp only
  rw [if_neg (by simp [halive])]
  have hsame := view_modify_same (s := s) (u := u) (f := fun c =>
      { c with out := c.out ++ rdWsWriteFrame opcode p none })
    (fun _ h => h) fun _ _ => rfl
  exact congrArg (View.queue · u origin ⟨opcode, p⟩) hsame

theorem wsSend_chatter {opcode : Nat} (hown : opcode ≠ RD_WS_BINARY) (p : Bytes) :
    View.Chatter s.view (s.wsSend none u opcode p).view := by
  by_cases h : ∃ c, s.find u = some c ∧ c.dead = false
  · obtain ⟨c, hc, halive⟩ := h
    rw [wsSend_queues c hc halive]
    exact .queue u hown
  · refine .of_eq ?_
    unfold Globals.wsSend
    cases hc : s.find u with
    | none => rfl
    | some c =>
        dsimp only
        rw [if_pos (by simpa using fun halive => h ⟨c, hc, halive⟩)]

theorem wsClose_uids (code : Nat) (reason : String) : (s.wsClose u code reason).uids = s.uids := by
  unfold Globals.wsClose
  rw [uids_modify, wsSend_uids]
  exact fun _ h => h

theorem wsClose_chatter (code : Nat) (reason : String) : View.Chatter s.view (s.wsClose u code reason).view := by
  unfold Globals.wsClose
  rw [view_modify_same]
  · exact wsSend_chatter (by decide) _
  · exact fun _ h => h
  · exact fun _ _ => rfl

theorem unpair_uids (p : Nat) : (s.unpair u p).uids = s.uids := by
  unfold Globals.unpair
  rw [uids_modify, uids_modify]
  · exact fun _ h => h
  · exact fun _ h => h

theorem unpair_view (p : Nat) : (s.unpair u p).view = s.view.unpair u p := by
  unfold Globals.unpair View.unpair
  rw [view_modify fun n => { n with peer := none }, view_modify fun n => { n with peer := none }]
  · exact fun _ h => h
  · exact fun _ _ => rfl
  · exact fun _ h => h
  · exact fun _ _ => rfl

theorem dropControl_uids (c : Conn) : (s.dropControl c).uids = s.uids := by
  unfold Globals.dropControl
  cases s.hosts c.id with
  | none => rfl
  | some h =>
      dsimp only
      split <;> rfl

theorem dropControl_view (c : Conn) : (s.dropControl c).view = s.view.dropControl c.uid c.id := by
  unfold Globals.dropControl View.dropControl
  have hhosts : s.view.hosts c.id = s.hosts c.id := rfl
  rw [hhosts]
  cases s.hosts c.id with
  | none => rfl
  | some h =>
      dsimp only
      split <;> rfl

theorem killConn_uids : (s.killConn u).uids = s.uids := by
  unfold Globals.killConn
  cases hc : s.find u with
  | none => rfl
  | some c =>
      dsimp only
      split
      · rfl
      have hdead : (s.modify u fun c => { c with dead := true }).uids = s.uids := uids_modify fun _ h => h
      have hticket : ∀ t : Globals, t.uids = s.uids →
          (if c.kind = .Viewer ∧ c.ticket ≠ [] then t.dropTicket c.ticket else t).uids = s.uids := by
        intro t ht
        split <;> exact ht
      have hcontrol : ∀ t : Globals, t.uids = s.uids →
          (if c.kind = .HostCtl then t.dropControl c else t).uids = s.uids := by
        intro t ht
        split
        · rw [dropControl_uids, ht]
        · exact ht
      refine hcontrol _ (hticket _ ?_)
      cases c.peer with
      | none => exact hdead
      | some p =>
          dsimp only
          rw [wsClose_uids, unpair_uids, hdead]

-- The end of kill_conn.
theorem unlink_chatter (c : Conn) (huid : c.uid = u) {s : Globals} {v : View} (h : View.Chatter v s.view) :
    View.Chatter
      (if c.kind = .HostCtl then
        (if c.kind = .Viewer ∧ c.ticket ≠ [] then v.setTicket c.ticket none else v).dropControl u c.id
      else if c.kind = .Viewer ∧ c.ticket ≠ [] then v.setTicket c.ticket none else v)
      (if c.kind = .HostCtl then (if c.kind = .Viewer ∧
        c.ticket ≠ [] then s.dropTicket c.ticket else s).dropControl c
      else if c.kind = .Viewer ∧ c.ticket ≠ [] then s.dropTicket c.ticket else s).view := by
  have hticket : View.Chatter (if c.kind = .Viewer ∧ c.ticket ≠ [] then v.setTicket c.ticket none else v)
      (if c.kind = .Viewer ∧ c.ticket ≠ [] then s.dropTicket c.ticket else s).view := by
    split
    · exact h.map (View.setTicket · c.ticket none) fun _ _ _ => rfl
    · exact h
  by_cases hctl : c.kind = .HostCtl
  · rw [if_pos hctl, if_pos hctl, dropControl_view, huid]
    refine hticket.map (View.dropControl · u c.id) fun v w m => ?_
    unfold View.dropControl View.queue
    dsimp only
    cases v.hosts c.id with
    | none => rfl
    | some h =>
        dsimp only
        split <;> rfl
  · rw [if_neg hctl, if_neg hctl]
    exact hticket

-- The close frame to the peer is all that kill_conn adds.
theorem killConn_chatter : View.Chatter (s.view.kill u) (s.killConn u).view := by
  unfold Globals.killConn
  cases hc : s.find u with
  | none =>
      dsimp only
      rw [View.kill_none (.inl (by unfold Globals.view; dsimp only; rw [hc]; rfl))]
      exact .refl
  | some c =>
      have hnode := view_node hc
      have huid := find_uid hc
      dsimp only
      by_cases hdead : c.dead = true
      · rw [if_pos hdead, View.kill_none (.inr ⟨c.node, hnode, hdead⟩)]
        exact .refl
      rw [if_neg hdead]
      have hset : (s.modify u fun c => { c with dead := true }).view = s.view.set u fun n =>
        { n with dead := true } :=
        view_modify _ (fun _ h => h) fun _ _ => rfl
      unfold View.kill
      rw [hnode]
      dsimp only [Conn.node]
      rw [if_neg hdead]
      refine unlink_chatter c huid ?_
      cases c.peer with
      | none => exact .of_eq hset
      | some p =>
          dsimp only
          rw [← hset, ← unpair_view]
          exact wsClose_chatter _ _

end Operations

section Steady

-- What sending and unlinking leave of a connection.
structure Conn.Same (c c' : Conn) : Prop where
  kind : c'.kind = c.kind
  ticket : c'.ticket = c.ticket
  ws : c'.ws = c.ws
  inn : c'.inn = c.inn
  pendingBytes : c'.pendingBytes = c.pendingBytes
  peer : c.peer = none → c'.peer = none
  closing : c.closeAfterFlush = true → c'.closeAfterFlush = true

def Steady (s s' : Globals) : Prop := ∀ u c, s.find u = some c → ∃ c', s'.find u = some c' ∧ Conn.Same c c'

variable {s s' s'' : Globals} {u : Nat}

theorem Steady.refl : Steady s s := fun _ c hc => ⟨c, hc, rfl, rfl, rfl, rfl, rfl, id, id⟩

theorem Steady.trans (h : Steady s s') (h' : Steady s' s'') : Steady s s'' := by
  intro u c hc
  obtain ⟨d, hd, hcd⟩ := h u c hc
  obtain ⟨e, he, hde⟩ := h' u d hd
  exact ⟨e, he, hde.kind.trans hcd.kind, hde.ticket.trans hcd.ticket, hde.ws.trans hcd.ws, hde.inn.trans hcd.inn,
    hde.pendingBytes.trans hcd.pendingBytes, fun hnone => hde.peer (hcd.peer hnone),
    fun hclose => hde.closing (hcd.closing hclose)⟩

theorem modify_steady {f : Conn → Conn} (hf : ∀ c, (f c).uid = c.uid) (hsame : ∀ c, Conn.Same c (f c)) :
    Steady s (s.modify u f) := by
  intro w c hc
  rw [find_modify fun c hu => (hf c).trans hu]
  by_cases hw : w = u
  · rw [if_pos hw, ← hw, hc]
    exact ⟨f c, rfl, hsame c⟩
  · rw [if_neg hw]
    exact ⟨c, hc, rfl, rfl, rfl, rfl, rfl, id, id⟩

theorem wsSend_steady (origin : Option Nat) (opcode : Nat) (p : Bytes) : Steady s (s.wsSend origin u opcode p) := by
  unfold Globals.wsSend
  cases s.find u with
  | none => exact .refl
  | some c =>
      dsimp only
      split
      · exact .refl
      · exact modify_steady (f := fun c => { c with out := c.out ++ rdWsWriteFrame opcode p none }) (fun _ => rfl)
          fun _ => ⟨rfl, rfl, rfl, rfl, rfl, id, id⟩

theorem wsClose_steady (code : Nat) (reason : String) : Steady s (s.wsClose u code reason) :=
  (wsSend_steady _ _ _).trans (modify_steady (fun _ => rfl) fun _ => ⟨rfl, rfl, rfl, rfl, rfl, id, fun _ => rfl⟩)

theorem unpair_steady (p : Nat) : Steady s (s.unpair u p) :=
  (modify_steady (f := fun c => { c with peer := none }) (fun _ => rfl) fun _ =>
    ⟨rfl, rfl, rfl, rfl, rfl, fun _ => rfl, id⟩).trans
    (modify_steady (f := fun c => { c with peer := none }) (fun _ => rfl) fun _ => ⟨rfl, rfl, rfl, rfl, rfl,
      fun _ => rfl, id⟩)

end Steady

section Messages

variable {s s' s'' : Globals} {a : Nat} {presented : Option Bytes} {kept : WsMsg → Prop} {c : Conn}

theorem Serves.trans (h : Serves a presented kept s s') (h' : Serves a presented kept s' s'') :
    Serves a presented kept s s'' := ⟨h'.uids.trans h.uids, h.acts.trans h'.acts⟩

theorem Serves.of_chatter (huids : s'.uids = s.uids) (h : View.Chatter s.view s'.view) :
    Serves a presented kept s s' :=
  ⟨huids, h.acts⟩

theorem Serves.modify {f : Conn → Conn} (hf : ∀ c, (f c).uid = c.uid) (hsame : ∀ c, (f c).node = c.node) (u : Nat) :
    Serves a presented kept s (s.modify u f) :=
  .of_chatter (uids_modify fun c hu => (hf c).trans hu)
    (.of_eq (view_modify_same (fun c hu => (hf c).trans hu) fun c _ => hsame c))

theorem killConn_serves : Serves a presented kept s (s.killConn a) :=
    ⟨killConn_uids, .head .kill killConn_chatter.acts⟩

-- One message, of which rd_ws_next has just been told.
theorem handleWsMessage_serves (hsound : s.view.Sound) (hc : s.find a = some c) (halive : c.dead = false)
    (hkind : c.kind ≠ .Http)
    {m : WsMsg} {r : WsReader} {inn : Bytes} (hnext : rdWsNext c.ws c.inn = (.got m, r, inn))
    (hkept : c.kind = .Viewer ∧ c.ticket ≠ [] → isData m = true → ¬ c.pendingBytes + m.data.length >
      4 <<< 20 → kept m) :
    Serves a presented kept s ((s.modify a fun c => { c with ws := r, inn := inn }).handleWsMessage a m) := by
  have hnode := view_node hc
  have hview : ((s.modify a fun c => { c with ws := r, inn := inn }).hear a m).view = s.view.hear a r inn m := by
    have htake := view_modify (s := s) (u := a) (f := fun c => { c with ws := r, inn := inn })
      (fun n => { n with ws := r, inn := inn }) (fun _ h => h) fun _ _ => rfl
    exact congrArg (fun v : View => { v with heard := Function.update v.heard a (v.heard a ++ [m]) }) htake
  have hfind : ((s.modify a fun c => { c with ws := r, inn := inn }).hear a m).find a =
      some { c with ws := r, inn := inn } := by
    have hmodify := find_modify (s := s) (u := a) (w := a) (f := fun c => { c with ws := r, inn := inn })
        fun _ h => h
    rw [if_pos rfl, hc] at hmodify
    exact hmodify
  have huids : ((s.modify a fun c => { c with ws := r, inn := inn }).hear a m).uids = s.uids :=
    uids_modify fun _ h => h
  unfold Globals.handleWsMessage
  dsimp only
  generalize (s.modify a fun c => { c with ws := r, inn := inn }).hear a m = s₁ at hview hfind huids ⊢
  rw [hfind]
  dsimp only
  have hdrop : isData m = false ∨ c.kind = .HostCtl ∨ c.peer = none ∧ ¬ c.node.waiting →
      Serves a presented kept s s₁ :=
    fun h => ⟨huids, by rw [hview]; exact .single (.drop c.node m r inn hnode hkind hnext h)⟩
  by_cases hping : m.opcode = RD_WS_PING
  · rw [if_pos hping]
    exact (hdrop (.inl (by simp [isData, hping]))).trans
      (.of_chatter (wsSend_uids _ _ _) (wsSend_chatter (by decide) _))
  rw [if_neg hping]
  by_cases hpong : m.opcode = RD_WS_PONG
  · rw [if_pos hpong]
    exact hdrop (.inl (by simp [isData, hpong]))
  rw [if_neg hpong]
  by_cases hclose : m.opcode = RD_WS_CLOSE
  · rw [if_pos hclose]
    have hsent : View.Chatter s₁.view ((s₁.wsSend none a RD_WS_CLOSE (m.data.take 2)).modify a fun c =>
        { c with closeAfterFlush := true }).view := by
      rw [view_modify_same]
      · exact wsSend_chatter (by decide) _
      · exact fun _ h => h
      · exact fun _ _ => rfl
    have hsentUids : ((s₁.wsSend none a RD_WS_CLOSE (m.data.take 2)).modify a fun c =>
        { c with closeAfterFlush := true }).uids = s₁.uids := by
      rw [uids_modify, wsSend_uids]
      exact fun _ h => h
    have hclosing := (hdrop (.inl (by simp [isData, hclose]))).trans (.of_chatter hsentUids hsent)
    generalize (s₁.wsSend none a RD_WS_CLOSE (m.data.take 2)).modify a (fun c =>
      { c with closeAfterFlush := true }) = s₂
      at hsent hclosing ⊢
    cases hp : c.peer with
    | none => exact hclosing
    | some p =>
        dsimp only
        have hpeerClose := wsClose_chatter (s := s₂) (u := p) 1000 "peer closed"
        refine (hclosing.trans (.of_chatter (wsClose_uids _ _) hpeerClose)).trans ⟨unpair_uids p, ?_⟩
        rw [unpair_view]
        refine .single (.unpair { c.node with ws := r, inn := inn } p ?_ hp)
        rw [hpeerClose.node, hsent.node]
        exact view_node hfind
  rw [if_neg hclose]
  have hdata : isData m = true := by simp [isData, hping, hpong, hclose]
  by_cases hctl : c.kind = .HostCtl
  · rw [if_pos hctl]
    exact hdrop (.inr (.inl hctl))
  rw [if_neg hctl]
  cases hp : c.peer with
  | some p =>
      dsimp only
      -- the peer is alive, so the frame is queued
      obtain ⟨-, d, hd, hdalive, -⟩ := (hview ▸ hsound.hear a r inn m).peers a _ p (view_node hfind) hp
      obtain ⟨d, hfound, rfl⟩ := find_of_node hd
      refine ⟨(wsSend_uids _ _ _).trans huids, ?_⟩
      rw [wsSend_queues d hfound hdalive, hview]
      exact .single (.forward c.node p m r inn hnode hdata hnext hp)
  | none =>
      dsimp only
      by_cases hviewer : c.kind = .Viewer ∧ c.ticket ≠ []
      · rw [if_pos hviewer]
        have hwaiting : c.node.waiting := ⟨hviewer.1, hviewer.2, hp⟩
        have huid : c.uid = a := find_uid hc
        unfold Globals.holdBack
        dsimp only
        rw [huid]
        by_cases hover : c.pendingBytes + m.data.length > 4 <<< 20
        · rw [if_pos hover]
          refine ⟨killConn_uids.trans huids, .head (.overflow c.node m r inn hnode halive hnext hwaiting) ?_⟩
          rw [← hview]
          exact killConn_chatter.acts
        · rw [if_neg hover]
          have huidsHeld := uids_modify (s := s₁) (u := a)
            (f := fun c => { c with
              pending := c.pending ++ [m.data], pendingBytes := c.pendingBytes + m.data.length }) fun _ h => h
          refine ⟨huidsHeld.trans huids, ?_⟩
          have hpending := view_modify (s := s₁) (u := a)
            (f := fun c => { c with
              pending := c.pending ++ [m.data], pendingBytes := c.pendingBytes + m.data.length })
            (fun n => { n with pending := n.pending ++ [m.data] }) (fun _ h => h) fun _ _ => rfl
          have hheld : Globals.view { s₁.modify a fun c =>
              { c with pending := c.pending ++ [m.data], pendingBytes := c.pendingBytes + m.data.length } with
              past := { s₁.past with waited := Function.update s₁.past.waited a (s₁.past.waited a ++ [m]) } } =
              s₁.view.hold a m :=
            congrArg (fun v : View => { v with waited := Function.update v.waited a (v.waited a ++ [m]) }) hpending
          rw [hheld, hview]
          exact .single (.hold c.node m r inn hnode halive hdata hnext hwaiting (hkept hviewer hdata hover))
      · rw [if_neg hviewer]
        exact hdrop (.inr (.inr ⟨hp, fun h => hviewer ⟨h.1, h.2.1⟩⟩))

theorem killConn_row (hc : s.find a = some c) : ∃ c', (s.killConn a).find a = some c' ∧ c'.kind = c.kind ∧
    c'.dead = true := by
  have hnode := view_node hc
  have hkilled := killConn_chatter (s := s) (u := a)
  have hdead : ∃ n, (s.view.kill a).node a = some n ∧ n.kind = c.kind ∧ n.dead = true := by
    by_cases halive : c.dead = true
    · rw [View.kill_none (.inr ⟨c.node, hnode, halive⟩)]
      exact ⟨c.node, hnode, rfl, halive⟩
    · have hlive : c.node.dead = false := by
        rw [Bool.not_eq_true] at halive
        exact halive
      exact ⟨_, (View.kill_node hnode hlive).trans (if_pos rfl), rfl, rfl⟩
  obtain ⟨n, hn, hkind, hdead⟩ := hdead
  rw [← hkilled.node] at hn
  obtain ⟨c', hc', rfl⟩ := find_of_node hn
  exact ⟨c', hc', hkind, hdead⟩

-- A connection after one of its messages.
structure Conn.After (c : Conn) (m : WsMsg) (r : WsReader) (inn : Bytes) (c' : Conn) : Prop where
  ws : c'.ws = r
  inn : c'.inn = inn
  ticket : c'.ticket = c.ticket
  peer : c.peer = none → c'.peer = none
  closing : m.opcode = RD_WS_CLOSE → c'.closeAfterFlush = true
  same : ¬ (isData m = true ∧ c.node.waiting) → c'.pendingBytes = c.pendingBytes
  held : isData m = true ∧ c.node.waiting →
    ¬ c.pendingBytes + m.data.length > 4 <<< 20 ∧ c'.pendingBytes = c.pendingBytes + m.data.length

theorem handleWsMessage_row (hc : s.find a = some c) (m : WsMsg) (r : WsReader) (inn : Bytes) :
    ∃ c', ((s.modify a fun c => { c with ws := r, inn := inn }).handleWsMessage a m).find a = some c' ∧
      c'.kind = c.kind ∧
      (c'.dead = true ∨ c.After m r inn c') := by
  have hfind : ((s.modify a fun c => { c with ws := r, inn := inn }).hear a m).find a =
      some { c with ws := r, inn := inn } := by
    have hmodify := find_modify (s := s) (u := a) (w := a) (f := fun c => { c with ws := r, inn := inn })
        fun _ h => h
    rw [if_pos rfl, hc] at hmodify
    exact hmodify
  unfold Globals.handleWsMessage
  dsimp only
  generalize (s.modify a fun c => { c with ws := r, inn := inn }).hear a m = s₁ at hfind ⊢
  rw [hfind]
  dsimp only
  have hsteady : ∀ s₂, Steady s₁ s₂ → m.opcode ≠ RD_WS_CLOSE → ¬ (isData m = true ∧ c.node.waiting) →
      ∃ c', s₂.find a = some c' ∧ c'.kind = c.kind ∧ (c'.dead = true ∨ c.After m r inn c') := by
    intro s₂ h hclose hfree
    obtain ⟨c', hc', hsame⟩ := h a _ hfind
    exact ⟨c', hc', hsame.kind, .inr ⟨hsame.ws, hsame.inn, hsame.ticket, hsame.peer, fun h => absurd h hclose,
      fun _ => hsame.pendingBytes, fun h => absurd h hfree⟩⟩
  by_cases hping : m.opcode = RD_WS_PING
  · rw [if_pos hping]
    exact hsteady _ (wsSend_steady _ _ _) (by rw [hping]; decide) (by simp [isData, hping])
  rw [if_neg hping]
  by_cases hpong : m.opcode = RD_WS_PONG
  · rw [if_pos hpong]
    exact hsteady _ .refl (by rw [hpong]; decide) (by simp [isData, hpong])
  rw [if_neg hpong]
  by_cases hclose : m.opcode = RD_WS_CLOSE
  · rw [if_pos hclose]
    obtain ⟨d, hd, hsame⟩ := wsSend_steady (s := s₁) (u := a) none RD_WS_CLOSE (m.data.take 2) a _ hfind
    have hclosing : ((s₁.wsSend none a RD_WS_CLOSE (m.data.take 2)).modify a fun c =>
        { c with closeAfterFlush := true }).find a =
        some { d with closeAfterFlush := true } := by
      have hmodify := find_modify (s := s₁.wsSend none a RD_WS_CLOSE (m.data.take 2)) (u := a) (w := a)
        (f := fun c => { c with closeAfterFlush := true }) fun _ h => h
      rw [if_pos rfl, hd] at hmodify
      exact hmodify
    generalize (s₁.wsSend none a RD_WS_CLOSE (m.data.take 2)).modify a (fun c =>
      { c with closeAfterFlush := true }) = s₂
      at hclosing ⊢
    have hrest : ∀ s₃, Steady s₂ s₃ → ∃ c', s₃.find a = some c' ∧ c'.kind = c.kind ∧
        (c'.dead = true ∨ c.After m r inn c') := by
      intro s₃ h
      obtain ⟨c', hc', hlast⟩ := h a _ hclosing
      exact ⟨c', hc', hlast.kind.trans hsame.kind, .inr ⟨hlast.ws.trans hsame.ws, hlast.inn.trans hsame.inn,
        hlast.ticket.trans hsame.ticket, fun hnone => hlast.peer (hsame.peer hnone), fun _ => hlast.closing rfl,
        fun _ => hlast.pendingBytes.trans hsame.pendingBytes, fun h => by simp [isData, hclose] at h⟩⟩
    cases c.peer with
    | none => exact hrest _ .refl
    | some p => exact hrest _ ((wsClose_steady _ _).trans (unpair_steady p))
  rw [if_neg hclose]
  by_cases hctl : c.kind = .HostCtl
  · rw [if_pos hctl]
    exact hsteady _ .refl hclose fun h => by simp [Node.waiting, Conn.node, hctl] at h
  rw [if_neg hctl]
  cases hp : c.peer with
  | some p =>
      exact hsteady _ (wsSend_steady (u := p) (some a) m.opcode m.data) hclose
        fun h => by simp [Node.waiting, Conn.node, hp] at h
  | none =>
      dsimp only
      by_cases hviewer : c.kind = .Viewer ∧ c.ticket ≠ []
      · rw [if_pos hviewer]
        unfold Globals.holdBack
        dsimp only
        rw [find_uid hc]
        by_cases hover : c.pendingBytes + m.data.length > 4 <<< 20
        · rw [if_pos hover]
          obtain ⟨c', hc', hkind, hdead⟩ := killConn_row hfind
          exact ⟨c', hc', hkind, .inl hdead⟩
        · rw [if_neg hover]
          have hmodify := find_modify (s := s₁) (u := a) (w := a)
            (f := fun c => { c with
              pending := c.pending ++ [m.data], pendingBytes := c.pendingBytes + m.data.length }) fun _ h => h
          rw [if_pos rfl, hfind] at hmodify
          exact ⟨_, hmodify, rfl, .inr ⟨rfl, rfl, rfl, fun _ => hp, fun h => absurd h hclose,
            fun h => absurd ⟨by simp [isData, hping, hpong, hclose], hviewer.1, hviewer.2, hp⟩ h, fun _ =>
              ⟨hover, rfl⟩⟩⟩
      · rw [if_neg hviewer]
        exact hsteady s₁ .refl hclose fun h => hviewer ⟨h.2.1, h.2.2.1⟩

-- Of the messages behind each other in the input of a waiting viewer, those that are kept;
-- held is what is kept already.
def heldBack (stopsAtClose : Bool) : Nat → List WsMsg → List WsMsg
  | _, [] => []
  | held, m :: ms =>
      if m.opcode = RD_WS_CLOSE then if stopsAtClose then [] else heldBack stopsAtClose held ms
      else if isData m then
        if held + m.data.length > 4 <<< 20 then [] else m :: heldBack stopsAtClose (held + m.data.length) ms
      else heldBack stopsAtClose held ms

def Conn.keeps (c : Conn) (stopsAtClose : Bool) : List WsMsg :=
  if c.kind = .Viewer ∧
    c.ticket ≠ [] then heldBack stopsAtClose c.pendingBytes (wsDecoder.spoken c.ws c.inn) else []

-- Where the loop over rd_ws_next begins.
structure Conn.Ready (kept : WsMsg → Prop) (stopsAtClose : Bool) (c : Conn) : Prop where
  upgraded : c.kind ≠ .Http
  single : c.dead = false → c.kind = .Viewer ∧ c.ticket ≠ [] → c.peer = none
  keeps : c.dead = false → ¬ (stopsAtClose = true ∧ c.closeAfterFlush = true) → ∀ m ∈ c.keeps stopsAtClose, kept m

theorem Conn.Ready.after {stopsAtClose : Bool} {m : WsMsg} {r : WsReader} {inn : Bytes} {c' : Conn}
    (h : c.Ready kept stopsAtClose)
    (halive : c.dead = false) (hopen : ¬ (stopsAtClose = true ∧ c.closeAfterFlush = true))
    (hnext : rdWsNext c.ws c.inn = (.got m, r, inn)) (hkind : c'.kind = c.kind)
    (hafter : c'.dead = true ∨ c.After m r inn c') :
    c'.Ready kept stopsAtClose := by
  have hspoken : wsDecoder.spoken c.ws c.inn = m :: wsDecoder.spoken r inn :=
    Decoder.spoken_got wsDecoder_draining (wsDecoder_next c.ws c.inn hnext)
  refine ⟨hkind ▸ h.upgraded, fun hlive hviewer => ?_, fun hlive hstill m' hm' => ?_⟩
  · rcases hafter with hdead | hafter
    · rw [hdead] at hlive
      cases hlive
    · exact hafter.peer (h.single halive (by rwa [← hkind, ← hafter.ticket]))
  · rcases hafter with hdead | hafter
    · rw [hdead] at hlive
      cases hlive
    unfold Conn.keeps at hm'
    rw [hkind, hafter.ticket, hafter.ws, hafter.inn] at hm'
    by_cases hviewer : c.kind = .Viewer ∧ c.ticket ≠ []
    swap
    · rw [if_neg hviewer] at hm'
      cases hm'
    rw [if_pos hviewer] at hm'
    refine h.keeps halive hopen m' ?_
    unfold Conn.keeps
    rw [if_pos hviewer, hspoken, heldBack]
    by_cases hclose : m.opcode = RD_WS_CLOSE
    · have hfree : ¬ (isData m = true ∧ c.node.waiting) := by simp [isData, hclose]
      rw [if_pos hclose, if_neg fun hstops => hstill ⟨hstops, hafter.closing hclose⟩, ← hafter.same hfree]
      exact hm'
    rw [if_neg hclose]
    by_cases hdata : isData m = true
    · obtain ⟨hfits, hbytes⟩ := hafter.held ⟨hdata, hviewer.1, hviewer.2, h.single halive hviewer⟩
      rw [if_pos hdata, if_neg hfits, ← hbytes]
      exact List.mem_cons_of_mem _ hm'
    · rw [if_neg hdata, ← hafter.same fun hheld => hdata hheld.1]
      exact hm'

-- The first message, if it is kept, is one of those.
theorem Conn.Ready.first {stopsAtClose : Bool} {m : WsMsg} {r : WsReader} {inn : Bytes}
    (h : c.Ready kept stopsAtClose)
    (halive : c.dead = false) (hopen : ¬ (stopsAtClose = true ∧ c.closeAfterFlush = true))
    (hnext : rdWsNext c.ws c.inn = (.got m, r, inn)) (hviewer : c.kind = .Viewer ∧ c.ticket ≠ [])
    (hdata : isData m = true)
    (hfits : ¬ c.pendingBytes + m.data.length > 4 <<< 20) : kept m := by
  refine h.keeps halive hopen m ?_
  have hclose : m.opcode ≠ RD_WS_CLOSE := by
    intro hclose
    simp [isData, hclose] at hdata
  unfold Conn.keeps
  rw [if_pos hviewer, Decoder.spoken_got wsDecoder_draining (wsDecoder_next c.ws c.inn hnext), heldBack,
    if_neg hclose,
    if_pos hdata, if_neg hfits]
  exact List.mem_cons_self

theorem wsLoop_serves (stopsAtClose : Bool) (fuel : Nat) (hsound : s.view.Sound)
    (hready : ∀ c, s.find a = some c → c.Ready kept stopsAtClose) :
    Serves a presented kept s (Globals.wsLoop stopsAtClose fuel s a).2 := by
  induction fuel generalizing s with
  | zero => exact ⟨rfl, .refl⟩
  | succ fuel ih =>
      rw [Globals.wsLoop]
      cases hc : s.find a with
      | none => exact ⟨rfl, .refl⟩
      | some c =>
          dsimp only
          have h := hready c hc
          by_cases hstop : c.dead = true ∨ stopsAtClose = true ∧ c.closeAfterFlush = true
          · rw [if_pos hstop]
            exact ⟨rfl, .refl⟩
          rw [if_neg hstop]
          rw [not_or, Bool.not_eq_true] at hstop
          have hstall : ∀ w r inn, rdWsNext c.ws c.inn = (w, r, inn) → w.outcome.message = none →
              Serves a presented kept s (s.modify a fun c => { c with ws := r, inn := inn }) := by
            intro w r inn hnext hsilent
            refine ⟨uids_modify fun _ h => h, ?_⟩
            have htake := view_modify (s := s) (u := a) (f := fun c => { c with ws := r, inn := inn })
              (fun n => { n with ws := r, inn := inn }) (fun _ h => h) fun _ _ => rfl
            have haction : View.Action a presented kept s.view _ := .stall c.node (view_node hc)
              h.upgraded (by rw [wsDecoder_next _ _ (show rdWsNext c.node.ws c.node.inn =
                (w, r, inn) from hnext)]; exact hsilent)
            rw [show rdWsNext c.node.ws c.node.inn = (w, r, inn) from hnext] at haction
            rw [htake]
            exact .single haction
          rcases hnext : rdWsNext c.ws c.inn with ⟨w, r, inn⟩
          dsimp only
          cases w with
          | got m =>
              dsimp only
              have hserves : Serves a presented kept s _ :=
                handleWsMessage_serves hsound hc hstop.1 h.upgraded hnext
                (h.first hstop.1 hstop.2 hnext)
              refine hserves.trans (ih (hsound.acts hserves.acts) fun c' hc' => ?_)
              obtain ⟨d, hd, hkind, hafter⟩ := handleWsMessage_row hc m r inn
              obtain rfl := Option.some.inj (hd.symm.trans hc')
              exact h.after hstop.1 hstop.2 hnext hkind hafter
          | more => exact hstall _ r inn hnext rfl
          | error => exact hstall _ r inn hnext rfl

end Messages

end TetherDesk.Relay
