import TetherDesk.Lib.Table
import TetherDesk.Relay.Refine

namespace TetherDesk.Relay

open TetherDesk.Net TetherDesk.Secure

section Requests

variable {cr : Crypto} {s : Globals} {a : Nat} {presented : Option Bytes} {kept : WsMsg → Prop} {c : Conn}

theorem respond_serves (r : Response) (io : Io) : Serves a presented kept s (s.respond a r io) :=
  .modify (f := fun c => { c with out := c.out ++ r.bytes io.beyond, closeAfterFlush := true })
    (fun _ => rfl) (fun _ => rfl) a

theorem respondText_serves (code : Nat) (status text : String) (io : Io) :
    Serves a presented kept s (s.respondText a code status text io) :=
  respond_serves _ _

theorem serveStatic_serves (target : Bytes) (io : Io) : Serves a presented kept s (s.serveStatic a target io) := by
  unfold Globals.serveStatic
  split
  · exact respond_serves _ _
  · exact .of_chatter rfl (.of_eq rfl)

theorem upgrade_view (cr : Crypto) (hc : s.find a = some c) (kind : Kind) (id key : Bytes) :
    (s.upgrade cr a kind id key).view = (s.view.set a fun n => { n with kind := kind, id := id }).begin
      a c.inn := by
  unfold Globals.upgrade
  dsimp only
  have hset : (s.modify a fun c => Conn.acceptUpgrade cr { c with kind := kind, id := id } key).view =
      s.view.set a fun n => { n with kind := kind, id := id } :=
    view_modify _ (fun _ h => h) fun _ _ => rfl
  have hinn : ((s.modify a fun c => Conn.acceptUpgrade cr { c with kind := kind, id := id } key).find a).map
      Conn.inn =
      some c.inn := by
    rw [find_modify, if_pos rfl, hc]
    · rfl
    · exact fun _ h => h
  rw [hinn]
  exact congrArg (View.begin · a c.inn) hset

theorem upgrade_uids (cr : Crypto) (kind : Kind) (id key : Bytes) : (s.upgrade cr a kind id key).uids = s.uids :=
  uids_modify (f := fun c => Conn.acceptUpgrade cr { c with kind := kind, id := id } key) fun _ h => h

end Requests

section Host

variable {cr : Crypto} {s : Globals} {a : Nat} {presented : Option Bytes} {kept : WsMsg → Prop} {c : Conn}

-- A kill sees the entry only to clear it.
theorem View.kill_setHost (v : View) (u : Nat) (id : Bytes) (e e' : HostEntry) :
    ((v.setHost id e).kill u).setHost id e' = (v.kill u).setHost id e' := by
  by_cases hgone : v.node u = none ∨ ∃ n, v.node u = some n ∧ n.dead = true
  · have hgone' : (v.setHost id e).node u = none ∨ ∃ n, (v.setHost id e).node u = some n ∧ n.dead = true := hgone
    rw [View.kill_none hgone, View.kill_none hgone']
    unfold View.setHost
    dsimp only
    rw [Function.update_idem]
  obtain ⟨n, hn⟩ : ∃ n, v.node u = some n := Option.ne_none_iff_exists'.mp fun hnone => hgone (.inl hnone)
  have halive : n.dead = false := by simpa using fun hdead => hgone (.inr ⟨n, hn, hdead⟩)
  have hn' : (v.setHost id e).node u = some n := hn
  have hpast := (View.kill_past (v := v.setHost id e) (u := u)).trans (View.kill_past (v := v) (u := u)).symm
  simp only [View.past, View.Past.mk.injEq] at hpast
  obtain ⟨huid, hreceived, hheard, hwaited, hsent, hissued, hpairs⟩ := hpast
  refine View.ext (funext fun w => ?_) (funext fun id' => ?_) (funext fun t => ?_) huid hreceived hheard
    hwaited hsent hissued hpairs
  · exact (View.kill_node hn' halive).trans (View.kill_node hn halive).symm
  · unfold View.setHost
    dsimp only
    by_cases hid : id' = id
    · rw [hid, Function.update_self, Function.update_self]
    · rw [Function.update_of_ne hid, Function.update_of_ne hid]
      refine (View.kill_hosts hn' halive _).trans (Eq.trans ?_ (View.kill_hosts hn halive _).symm)
      unfold View.setHost
      dsimp only
      rw [Function.update_of_ne hid]
  · exact (View.kill_tickets hn' halive).trans (View.kill_tickets hn halive).symm

-- The stale channel of a host that reconnects.
theorem retireStale_chatter (id : Bytes) (h e : HostEntry) : (s.retireStale id h).uids = s.uids ∧
    View.Chatter ((s.view.retire h.ctl).setHost id e) ((s.retireStale id h).view.setHost id e) := by
  unfold Globals.retireStale
  cases h.ctl with
  | none => exact ⟨rfl, .refl⟩
  | some old =>
      dsimp only
      refine ⟨?_, ?_⟩
      · rw [killConn_uids, wsClose_uids]
        rfl
      · have hclose := wsClose_chatter
            (s := { s with hosts := Function.update s.hosts id (some { h with ctl := none }) })
          (u := old) 1001 "replaced"
        have hreplaced := ((hclose.kill old).trans killConn_chatter).map (View.setHost · id e) fun _ _ _ => rfl
        have hforget := View.kill_setHost s.view old id { h with ctl := none } e
        exact hforget ▸ hreplaced

theorem hostRequest_serves (hsound : s.view.Sound) (hc : s.find a = some c) (hkind : c.kind = .Http)
    (halive : c.dead = false)
    (target key : Bytes) (io : Io) (hpresented : presented = some (queryParam target "key")) :
    Serves a presented kept s (s.hostRequest cr c target key io).2 ∧
      ((s.hostRequest cr c target key io).1 = true →
        ∃ n, (s.hostRequest cr c target key io).2.view.node a = some n ∧ n.kind = .HostCtl) := by
  have huid := find_uid hc
  have hnode := view_node hc
  unfold Globals.hostRequest
  dsimp only
  rw [huid]
  generalize queryParam target "id" = id
  generalize queryParam target "key" = hkey at hpresented ⊢
  by_cases hbad : (!validId id) = true ∨ (!validHex hkey 32) = true
  · rw [if_pos hbad]
    exact ⟨respondText_serves _ _ _ _, fun h => by cases h⟩
  rw [if_neg hbad]
  generalize hentry : (s.hosts id).getD ⟨[], none⟩ = h
  by_cases hconflict : h.ctl ≠ none ∧ h.key ≠ hkey
  · rw [if_pos hconflict]
    exact ⟨respondText_serves _ _ _ _, fun h => by cases h⟩
  rw [if_neg hconflict]
  have hctl : (s.view.hosts id).bind HostEntry.ctl = h.ctl := by
    rw [← hentry]
    have hview : s.view.hosts id = s.hosts id := rfl
    rw [hview]
    cases s.hosts id <;> rfl
  have howned : ∀ h', s.view.hosts id = some h' → h'.ctl ≠ none → h'.key = hkey := by
    intro h' hh' hlive
    have hsame : h = h' := by
      have hview : s.hosts id = some h' := hh'
      rw [← hentry, hview]
      rfl
    by_contra hne
    exact hconflict (hsame ▸ ⟨hlive, hne⟩)
  obtain ⟨huids, hretired⟩ := retireStale_chatter (s := s) id h ⟨hkey, some a⟩
  generalize s.retireStale id h = sr at huids hretired ⊢
  have haction : View.Action a presented kept s.view _ :=
    .register c.node id hkey hnode hkind halive hpresented howned
  rw [hctl] at haction
  have hrow : (sr.view.setHost id ⟨hkey, some a⟩).node a = some c.node := by
    rw [hretired.node]
    show (s.view.retire h.ctl).node a = some c.node
    cases hold : h.ctl with
    | none => exact hnode
    | some old =>
        obtain ⟨e, he, heold⟩ := Option.bind_eq_some_iff.mp (hctl.trans hold)
        exact hsound.kill_other hnode hkind fun heq => (hsound.unknown hnode hkind).2.2.2 id e he (heq ▸ heold)
  obtain ⟨d, hd, hdnode⟩ :=
    find_of_node (s := { sr with hosts := Function.update sr.hosts id (some ⟨hkey, some a⟩) }) hrow
  have hview : (({ sr with hosts := Function.update sr.hosts id (some ⟨hkey, some a⟩) } : Globals).upgrade cr
      a .HostCtl id key).view =
      ((sr.view.setHost id ⟨hkey, some a⟩).set a fun n => { n with kind := .HostCtl, id := id }).begin a c.inn := by
    have hupgrade := upgrade_view cr hd .HostCtl id key
    rw [show d.inn = c.inn from congrArg Node.inn hdnode] at hupgrade
    exact hupgrade
  have hchatter := hretired.map (fun v => (v.set a fun n => { n with kind := .HostCtl, id := id }).begin a
      c.inn) fun _ _ _ => rfl
  refine ⟨⟨(upgrade_uids cr .HostCtl id key).trans huids, ?_⟩,
    fun _ => ⟨{ c.node with kind := .HostCtl, id := id }, ?_, rfl⟩⟩
  · refine .head haction ?_
    have hacts : View.Acts a presented kept _ _ := hchatter.acts
    rw [← hview] at hacts
    exact hacts
  · show (Globals.view _).node a = _
    rw [show ∀ s line, Globals.view (Globals.log s line) = s.view from fun _ _ => rfl, hview]
    show (View.set _ a _).node a = _
    rw [View.set_node, if_pos rfl, hrow]
    rfl

end Host

section Data

variable {cr : Crypto} {s : Globals} {a : Nat} {presented : Option Bytes} {kept : WsMsg → Prop} {c : Conn}

-- The messages that waited, sent one after another.
theorem wsSend_foldl (origin : Option Nat) (opcode : Nat) (l : List Bytes)
    (hlive : ∃ c, s.find a = some c ∧ c.dead = false) :
    (l.foldl (fun s m => s.wsSend origin a opcode m) s).uids = s.uids ∧
      (l.foldl (fun s m => s.wsSend origin a opcode m) s).view =
        { s.view with sent := Function.update s.view.sent a (s.view.sent a ++
          l.map fun data => (origin, ⟨opcode, data⟩)) } := by
  induction l generalizing s with
  | nil =>
      refine ⟨rfl, ?_⟩
      rw [List.map_nil, List.append_nil, Function.update_eq_self]
      rfl
  | cons m l ih =>
      obtain ⟨c, hc, halive⟩ := hlive
      have hqueues := wsSend_queues c hc halive origin opcode m
      have hstill : ∃ c, (s.wsSend origin a opcode m).find a = some c ∧ c.dead = false := by
        have hnode : (s.wsSend origin a opcode m).view.node a = some c.node := by
          rw [hqueues]
          exact view_node hc
        obtain ⟨d, hd, hdnode⟩ := find_of_node hnode
        exact ⟨d, hd, (congrArg Node.dead hdnode).trans halive⟩
      obtain ⟨huids, hview⟩ := ih hstill
      refine ⟨huids.trans (wsSend_uids _ _ _), ?_⟩
      rw [List.foldl_cons, hview, hqueues]
      unfold View.queue
      dsimp only
      rw [Function.update_self, Function.update_idem, List.append_assoc]
      rfl

theorem dataRequest_serves (hsound : s.view.Sound) (hc : s.find a = some c) (hkind : c.kind = .Http)
    (halive : c.dead = false)
    (target key : Bytes) (io : Io) :
    Serves a presented kept s (s.dataRequest cr c target key io).2 ∧
      ((s.dataRequest cr c target key io).1 = true →
        ∃ n, (s.dataRequest cr c target key io).2.view.node a = some n ∧ n.kind = .HostData) := by
  have huid := find_uid hc
  have hnode := view_node hc
  unfold Globals.dataRequest
  dsimp only
  rw [huid]
  generalize queryParam target "id" = id
  generalize queryParam target "key" = hkey
  generalize queryParam target "ticket" = t
  cases hentry : s.hosts id with
  | none => exact ⟨respondText_serves _ _ _ _, fun h => by cases h⟩
  | some h =>
      cases hfound : (s.tickets t).bind s.find with
      | none => exact ⟨respondText_serves _ _ _ _, fun h => by cases h⟩
      | some viewer =>
          dsimp only
          by_cases hrefused : h.key ≠ hkey ∨ viewer.id ≠ id
          · rw [if_pos hrefused]
            exact ⟨respondText_serves _ _ _ _, fun h => by cases h⟩
          rw [if_neg hrefused]
          rw [not_or, not_not, not_not] at hrefused
          obtain ⟨u, ht, hu⟩ := Option.bind_eq_some_iff.mp hfound
          have huv : viewer.uid = u := find_uid hu
          have hne : u ≠ a :=
            fun heq => (hsound.unknown hnode hkind).2.2.1 t (show s.view.tickets t = some a from heq ▸ ht)
          rw [huv]
          have hview1 : ((s.dropTicket t).modify u fun v => { v with ticket := [] }).view =
              (s.view.setTicket t none).set u fun n => { n with ticket := [] } :=
                view_modify _ (fun _ h => h) fun _ _ => rfl
          have hfind1 : ((s.dropTicket t).modify u fun v => { v with ticket := [] }).find a = some c := by
            rw [find_modify, if_neg (Ne.symm hne)]
            · exact hc
            · exact fun _ h => h
          have huids1 : ((s.dropTicket t).modify u fun v => { v with ticket := [] }).uids = s.uids :=
            uids_modify fun _ h => h
          generalize (s.dropTicket t).modify u (fun v => { v with ticket := [] }) = s1 at hview1 hfind1 huids1 ⊢
          have hview2 := upgrade_view cr hfind1 .HostData id key
          have huids2 := (@upgrade_uids s1 a cr .HostData id key).trans huids1
          generalize s1.upgrade cr a .HostData id key = s2 at hview2 huids2 ⊢
          have hview3 : (s2.modify a fun c => { c with peer := some u }).view = s2.view.set a fun n =>
            { n with peer := some u } :=
            view_modify _ (fun _ h => h) fun _ _ => rfl
          have huids3 : (s2.modify a fun c => { c with peer := some u }).uids = s.uids := by
            rw [uids_modify, huids2]
            exact fun _ h => h
          generalize s2.modify a (fun c => { c with peer := some u }) = s3 at hview3 huids3 ⊢
          have hview4 : (s3.modify u fun v => { v with peer := some a }).view = s3.view.set u fun n =>
            { n with peer := some a } :=
            view_modify _ (fun _ h => h) fun _ _ => rfl
          have huids4 : (s3.modify u fun v => { v with peer := some a }).uids = s.uids := by
            rw [uids_modify, huids3]
            exact fun _ h => h
          generalize s3.modify u (fun v => { v with peer := some a }) = s4 at hview4 huids4 ⊢
          have hself : s4.view.node a = some { c.node with kind := .HostData, id := id, peer := some u } := by
            rw [hview4, View.set_node, if_neg (Ne.symm hne), hview3, View.set_node, if_pos rfl, hview2]
            show (((s1.view.set a _).node a).map _) = _
            rw [View.set_node, if_pos rfl, hview1, View.set_node, if_neg (Ne.symm hne)]
            show ((s.view.node a).map _).map _ = _
            rw [hnode]
            rfl
          obtain ⟨d, hd, hdnode⟩ := find_of_node hself
          obtain ⟨huids6, hview6⟩ := wsSend_foldl (a := a) (some u) RD_WS_BINARY viewer.pending
            (s := { s4 with past := { s4.past with pairs := s4.past.pairs ++ [Pairing.mk a u t id hkey h.key] } })
            ⟨d, hd, (congrArg Node.dead hdnode).trans halive⟩
          generalize viewer.pending.foldl (fun s m => s.wsSend (some u) a RD_WS_BINARY m)
            { s4 with past := { s4.past with pairs := s4.past.pairs ++ [Pairing.mk a u t id hkey h.key] } } =
              s6 at huids6 hview6 ⊢
          have hview7 : (s6.modify u fun v => { v with pending := [], pendingBytes := 0 }).view =
              s6.view.set u fun n => { n with pending := [] } := view_modify _ (fun _ h => h) fun _ _ => rfl
          have huids7 : (s6.modify u fun v => { v with pending := [], pendingBytes := 0 }).uids = s.uids := by
            rw [uids_modify, huids6]
            · exact huids4
            · exact fun _ h => h
          generalize s6.modify u (fun v => { v with pending := [], pendingBytes := 0 }) = s7 at hview7 huids7 ⊢
          have hviewer : s.view.node u = some viewer.node := view_node hu
          have hpairs : Globals.view { s4 with
              past := { s4.past with pairs := s4.past.pairs ++ [Pairing.mk a u t id hkey h.key] } } =
              { s4.view with pairs := s4.view.pairs ++ [Pairing.mk a u t id hkey h.key] } := rfl
          have hview : s7.view = (s.view.redeem ⟨a, u, t, id, hkey, h.key⟩ viewer.pending).begin a c.inn := by
            rw [hview7, hview6, hpairs, hview4, hview3, hview2, hview1]
            refine View.ext (funext fun w => ?_) rfl rfl rfl rfl rfl rfl rfl rfl rfl
            unfold View.redeem View.begin View.set View.setTicket
            dsimp only
            by_cases hwu : w = u
            · subst hwu
              simp only [Function.update_self, Function.update_of_ne hne, Option.map_map]
              rfl
            by_cases hwa : w = a
            · subst hwa
              simp only [Function.update_self, Function.update_of_ne hwu, Option.map_map]
              rfl
            · simp only [Function.update_of_ne hwu, Function.update_of_ne hwa]
          refine ⟨⟨huids7, ?_⟩, fun _ => ?_⟩
          · rw [hview]
            exact .single (.redeem c.node viewer.node ⟨a, u, t, id, hkey, h.key⟩ h rfl hnode hkind halive
              hentry hrefused.1 rfl ht
              hviewer hrefused.2)
          · refine ⟨{ c.node with kind := .HostData, id := id, peer := some u }, ?_, rfl⟩
            rw [hview7, View.set_node, if_neg (Ne.symm hne), hview6]
            exact hself

end Data

section Viewer

variable {cr : Crypto} {s : Globals} {a : Nat} {presented : Option Bytes} {kept : WsMsg → Prop} {c : Conn}

theorem ticket_ne_nil (io : Io) : io.ticket ≠ [] := by
  unfold Io.ticket randomHex
  rw [List.ofFn_succ, List.flatMap_cons]
  exact List.append_ne_nil_of_left_ne_nil (by simp [hexByte]) _

-- The host that a viewer asks for.
def Globals.online (s : Globals) (id : Bytes) : Option Nat :=
    if validId id then (s.hosts id).bind HostEntry.ctl else none

theorem viewerRequest_serves (hsound : s.view.Sound) (hc : s.find a = some c) (hkind : c.kind = .Http)
    (halive : c.dead = false)
    (path key : Bytes) (io : Io) :
    Serves a presented kept s (s.viewerRequest cr c path key io).2 ∧
      ((s.viewerRequest cr c path key io).1 = true → (s.online (path.drop 3)).isSome = true ∧
        ∃ c', (s.viewerRequest cr c path key io).2.find a = some c' ∧ c'.kind = .Viewer ∧ c'.peer = none ∧
          c'.ws = c.ws ∧
          c'.inn = c.inn ∧ c'.pendingBytes = c.pendingBytes) := by
  have huid := find_uid hc
  have hnode := view_node hc
  unfold Globals.viewerRequest
  dsimp only
  rw [huid]
  generalize path.drop 3 = id
  have hhosts : (if validId id then ((s.upgrade cr a .Viewer id key).hosts id).bind HostEntry.ctl else none) =
      s.online id := rfl
  rw [hhosts]
  have hview := upgrade_view cr hc .Viewer id key
  have huids := @upgrade_uids s a cr .Viewer id key
  have hfind : (s.upgrade cr a .Viewer id key).find a =
      some (Conn.acceptUpgrade cr { c with kind := .Viewer, id := id } key) := by
    have hmodify := find_modify (s := s) (u := a) (w := a)
      (f := fun c => Conn.acceptUpgrade cr { c with kind := .Viewer, id := id } key) fun _ h => h
    rw [if_pos rfl, hc] at hmodify
    exact hmodify
  generalize s.upgrade cr a .Viewer id key = s1 at hview huids hfind ⊢
  cases s.online id with
  | none =>
      refine ⟨⟨(wsClose_uids _ _).trans huids, ?_⟩, fun h => by cases h⟩
      refine .head (.refuse c.node id hnode hkind) ?_
      have hacts : View.Acts a presented kept _ _ := (wsClose_chatter (s := s1) (u := a) 4404 "offline").acts
      rw [hview] at hacts
      exact hacts
  | some ctl =>
      dsimp only
      have hview2 : (s1.modify a fun c => { c with ticket := io.ticket }).view = s1.view.set a fun n =>
        { n with ticket := io.ticket } :=
        view_modify _ (fun _ h => h) fun _ _ => rfl
      have huids2 : (s1.modify a fun c => { c with ticket := io.ticket }).uids = s.uids := by
        rw [uids_modify, huids]
        exact fun _ h => h
      have hfind2 : (s1.modify a fun c => { c with ticket := io.ticket }).find a =
          some { Conn.acceptUpgrade cr { c with kind := .Viewer, id := id } key with ticket := io.ticket } := by
        rw [find_modify, if_pos rfl, hfind]
        · rfl
        · exact fun _ h => h
      generalize s1.modify a (fun c => { c with ticket := io.ticket }) = s2 at hview2 huids2 hfind2 ⊢
      have hview3 : Globals.view { s2 with
          tickets := Function.update s2.tickets io.ticket (some a)
          past := { s2.past with issued := s2.past.issued ++ [(io.ticket, a, id)] } } =
          (s.view.await a id io.ticket).begin a c.inn := by
        have hticket : Globals.view { s2 with
            tickets := Function.update s2.tickets io.ticket (some a)
            past := { s2.past with issued := s2.past.issued ++ [(io.ticket, a, id)] } } =
            { s2.view.setTicket io.ticket (some a) with issued := s2.view.issued ++ [(io.ticket, a, id)] } := rfl
        rw [hticket, hview2, hview]
        refine View.ext (funext fun w => ?_) rfl rfl rfl rfl rfl rfl rfl rfl rfl
        unfold View.await View.begin View.set View.setTicket
        dsimp only
        by_cases hwa : w = a
        · subst hwa
          simp only [Function.update_self, Option.map_map]
          rfl
        · simp only [Function.update_of_ne hwa]
      have hsend := wsSend_chatter (u := ctl) (s := { s2 with
          tickets := Function.update s2.tickets io.ticket (some a)
          past := { s2.past with issued := s2.past.issued ++ [(io.ticket, a, id)] } }) (show RD_WS_TEXT ≠
            RD_WS_BINARY by decide)
        (ascii "open " ++ io.ticket ++ ascii " " ++ c.ip)
      obtain ⟨c', hc', hsame⟩ := wsSend_steady (u := ctl) (s := { s2 with
          tickets := Function.update s2.tickets io.ticket (some a)
          past := { s2.past with issued := s2.past.issued ++ [(io.ticket, a, id)] } }) none RD_WS_TEXT
        (ascii "open " ++ io.ticket ++ ascii " " ++ c.ip) a _ hfind2
      refine ⟨⟨(wsSend_uids _ _ _).trans huids2, ?_⟩, fun _ => ⟨rfl, c', hc', hsame.kind, hsame.peer ?_,
        hsame.ws, hsame.inn,
        hsame.pendingBytes⟩⟩
      · rw [hview3] at hsend
        exact .head (.await c.node id io.ticket hnode hkind halive (ticket_ne_nil io)) hsend.acts
      · exact (hsound.unknown hnode hkind).1

-- The messages behind a viewer's upgrade that are kept for its host.
def Globals.keepsBehind (s : Globals) (c : Conn) (r : Request) : List WsMsg :=
  if r.key.isSome ∧ (ascii "/v/").isPrefixOf r.path ∧ (s.online (r.path.drop 3)).isSome then
    heldBack false c.pendingBytes (wsDecoder.spoken c.ws c.inn)
  else []

theorem handleRequest_serves (hsound : s.view.Sound) (hc : s.find a = some c) (hkind : c.kind = .Http)
    (halive : c.dead = false)
    (r : Request) (io : Io) (hpresented : presented = some (queryParam r.target "key"))
    (hkept : ∀ m ∈ s.keepsBehind c r, kept m) :
    Serves a presented kept s (s.handleRequest cr c r io).2 ∧
      ((s.handleRequest cr c r io).1 = true → ∀ c', (s.handleRequest cr c r io).2.find a = some c' →
        c'.Ready kept false) := by
  have hother : ∀ s' : Globals, (∃ n, s'.view.node a = some n ∧ (n.kind = .HostCtl ∨ n.kind = .HostData)) →
      ∀ c', s'.find a = some c' → c'.Ready kept false := by
    intro s' ⟨n, hn, hnkind⟩ c' hc'
    obtain rfl := Option.some.inj ((view_node hc').symm.trans hn)
    have hviewer : c'.kind ≠ .Viewer := by
      rcases hnkind with h | h <;> exact fun heq => by rw [show c'.kind = _ from h] at heq; cases heq
    refine ⟨fun hhttp => ?_, fun _ h => absurd h.1 hviewer, fun _ _ m hm => ?_⟩
    · rcases hnkind with h | h <;> rw [show c'.kind = _ from h] at hhttp <;> cases hhttp
    · unfold Conn.keeps at hm
      rw [if_neg fun h => hviewer h.1] at hm
      cases hm
  unfold Globals.handleRequest
  rw [find_uid hc]
  cases hkey : r.key with
  | none =>
      refine ⟨?_, fun h => by cases h⟩
      dsimp only
      split
      · exact respondText_serves _ _ _ _
      split
      · exact respondText_serves _ _ _ _
      · exact serveStatic_serves _ _
  | some key =>
      dsimp only
      by_cases hhost : r.path = ascii "/host"
      · rw [if_pos hhost]
        obtain ⟨hserves, hrow⟩ := hostRequest_serves hsound hc hkind halive r.target key io hpresented
        refine ⟨hserves, fun hgoes => hother _ ?_⟩
        obtain ⟨n, hn, hnkind⟩ := hrow hgoes
        exact ⟨n, hn, .inl hnkind⟩
      rw [if_neg hhost]
      by_cases hdata : r.path = ascii "/data"
      · rw [if_pos hdata]
        obtain ⟨hserves, hrow⟩ := dataRequest_serves hsound hc hkind halive r.target key io
        refine ⟨hserves, fun hgoes => hother _ ?_⟩
        obtain ⟨n, hn, hnkind⟩ := hrow hgoes
        exact ⟨n, hn, .inr hnkind⟩
      rw [if_neg hdata]
      by_cases hviewer : (ascii "/v/").isPrefixOf r.path = true
      · rw [if_pos hviewer]
        obtain ⟨hserves, hrow⟩ := viewerRequest_serves hsound hc hkind halive
          r.path key io
        refine ⟨hserves, fun hgoes c' hc' => ?_⟩
        obtain ⟨honline, d, hd, hdkind, hdpeer, hdws, hdinn, hdbytes⟩ := hrow hgoes
        obtain rfl := Option.some.inj (hd.symm.trans hc')
        refine ⟨by rw [hdkind]; decide, fun _ _ => hdpeer, fun _ _ m hm => hkept m ?_⟩
        unfold Conn.keeps at hm
        unfold Globals.keepsBehind
        rw [if_pos ⟨by rw [hkey]; rfl, hviewer, honline⟩, ← hdbytes, ← hdws, ← hdinn]
        split at hm
        · exact hm
        · cases hm
      · rw [if_neg hviewer]
        exact ⟨respondText_serves _ _ _ _, fun h => by cases h⟩

end Viewer

section Events

variable {cr : Crypto} {s : Globals} {a : Nat} {kept : WsMsg → Prop} {c : Conn}

-- The key that the request completed by an event presents.
def Globals.presented (s : Globals) : Event → Option Bytes
  | .read uid data _ _ =>
      (s.find uid).bind fun c => (Conn.request { c with inn := c.inn ++ data }).map fun r =>
        queryParam r.1.target "key"
  | _ => none

-- The messages that an event keeps for a host that has not come yet.
def Globals.heldBy (s : Globals) : Event → List WsMsg
  | .read uid data closed _ =>
      match s.find uid with
      | none => []
      | some c =>
          let c := { c with inn := c.inn ++ data }
          if c.kind = .Http then
            match c.request with
            | none => []
            | some (r, rest) => if closed then [] else s.keepsBehind { c with inn := rest, ip := r.ip.getD c.ip } r
          else if c.closeAfterFlush then []
          else c.keeps true
  | _ => []

theorem handleHttp_serves (hsound : s.view.Sound) (hc : s.find a = some c) (hkind : c.kind = .Http)
    (halive : c.dead = false)
    (io : Io) {presented : Option Bytes} (hpresented : ∀ r rest, c.request = some (r, rest) →
      presented = some (queryParam r.target "key"))
    (hkept : ∀ r rest, c.request = some (r, rest) →
      ∀ m ∈ s.keepsBehind { c with inn := rest, ip := r.ip.getD c.ip } r, kept m) :
    Serves a presented kept s (s.handleHttp cr a io) := by
  unfold Globals.handleHttp
  rw [hc]
  dsimp only
  cases hrequest : c.request with
  | none =>
      dsimp only
      split
      · exact respondText_serves _ _ _ _
      · exact ⟨rfl, .refl⟩
  | some request =>
      obtain ⟨r, rest⟩ := request
      dsimp only
      have huid : c.uid = a := find_uid hc
      have hview : (s.modify a fun _ => { c with inn := rest, ip := r.ip.getD c.ip }).view =
          s.view.set a fun n => { n with inn := rest } := by
        refine view_modify _ (fun _ _ => huid) fun d hd => ?_
        obtain rfl := Option.some.inj (hc.symm.trans hd)
        rfl
      have hfind : (s.modify a fun _ => { c with inn := rest, ip := r.ip.getD c.ip }).find a =
          some { c with inn := rest, ip := r.ip.getD c.ip } := by
        rw [find_modify, if_pos rfl, hc]
        · rfl
        · exact fun _ _ => huid
      have hfirst : Serves a presented kept s (s.modify a fun _ =>
          { c with inn := rest, ip := r.ip.getD c.ip }) := by
        refine ⟨uids_modify fun _ _ => huid, ?_⟩
        rw [hview]
        exact .single (.request c.node rest (view_node hc) hkind)
      have hbehind : ∀ m ∈ (s.modify a fun _ => { c with inn := rest, ip := r.ip.getD c.ip }).keepsBehind
          { c with inn := rest, ip := r.ip.getD c.ip } r, kept m := hkept r rest hrequest
      generalize s.modify a (fun _ => { c with inn := rest, ip := r.ip.getD c.ip }) = s1 at hfind hfirst hbehind ⊢
      have hsound1 := hsound.acts hfirst.acts
      obtain ⟨hserves, hready⟩ := handleRequest_serves hsound1 hfind hkind halive r io
        (hpresented r rest hrequest) hbehind
      have hboth := hfirst.trans hserves
      rcases hresult : s1.handleRequest cr { c with inn := rest, ip := r.ip.getD c.ip } r io with ⟨goesOn, s2⟩
      rw [hresult] at hready hboth
      dsimp only at hready hboth ⊢
      by_cases hgoes : goesOn = true
      · rw [if_pos hgoes]
        exact hboth.trans (wsLoop_serves false _ (hsound.acts hboth.acts) (hready hgoes))
      · rw [if_neg hgoes]
        exact hboth

theorem readConn_serves (hsound : s.view.Sound) (hc : s.find a = some c) (halive : c.dead = false)
    (hsingle : c.kind = .Viewer ∧ c.ticket ≠ [] → c.peer = none) (data : Bytes) (closed : Bool) (io : Io)
    (hkept : ∀ m ∈ s.heldBy (.read a data closed io), kept m) :
    Serves a (s.presented (.read a data closed io)) kept s (s.readConn cr a data closed io) := by
  have hnode := view_node hc
  unfold Globals.readConn
  rw [hc]
  dsimp only
  generalize hpresented : s.presented (.read a data closed io) = presented
  unfold Globals.presented at hpresented
  unfold Globals.heldBy at hkept
  dsimp only at hpresented hkept
  rw [hc] at hpresented hkept
  rw [Option.bind_some] at hpresented
  dsimp only at hkept
  have hview : (s.modify a fun c =>
      { c with inn := c.inn ++ data, lastRxUs := if data = [] then c.lastRxUs else io.now }).view =
      s.view.set a fun n => { n with inn := n.inn ++ data } := view_modify _ (fun _ h => h) fun _ _ => rfl
  have huids : (s.modify a fun c =>
      { c with inn := c.inn ++ data, lastRxUs := if data = [] then c.lastRxUs else io.now }).uids = s.uids :=
        uids_modify fun _ h => h
  have hfind : (s.modify a fun c =>
      { c with inn := c.inn ++ data, lastRxUs := if data = [] then c.lastRxUs else io.now }).find a =
      some { c with inn := c.inn ++ data, lastRxUs := if data = [] then c.lastRxUs else io.now } := by
    rw [find_modify, if_pos rfl, hc]
    · rfl
    · exact fun _ h => h
  have hbehind : ∀ d r, (s.modify a fun c =>
      { c with inn := c.inn ++ data, lastRxUs := if data = [] then c.lastRxUs else io.now }).keepsBehind d r =
        s.keepsBehind d r :=
    fun _ _ => rfl
  by_cases hkind : c.kind = .Http
  · rw [if_pos hkind]
    rw [if_pos hkind] at hkept
    have hfirst : Serves a presented kept s (s.modify a fun c =>
        { c with inn := c.inn ++ data, lastRxUs := if data = [] then c.lastRxUs else io.now }) := by
      refine ⟨huids, ?_⟩
      have hset : (s.view.set a fun n => { n with inn := n.inn ++ data }) = s.view.set a fun n =>
        { n with inn := c.inn ++ data } := by
        unfold View.set
        rw [hnode]
        rfl
      rw [hview, hset]
      exact .single (.request c.node _ hnode hkind)
    generalize s.modify a (fun c =>
      { c with inn := c.inn ++ data, lastRxUs := if data = [] then c.lastRxUs else io.now }) =
        s1 at hfind hfirst hbehind ⊢
    by_cases hclosed : closed = true
    · rw [if_pos hclosed]
      exact hfirst.trans killConn_serves
    · rw [if_neg hclosed]
      refine hfirst.trans (handleHttp_serves (hsound.acts hfirst.acts) hfind hkind halive io ?_ ?_)
      · intro r rest hrequest
        rw [← hpresented, show Conn.request { c with inn := c.inn ++ data } = some (r, rest) from hrequest]
        rfl
      · intro r rest hrequest m hm
        rw [hbehind] at hm
        rw [show Conn.request { c with inn := c.inn ++ data } = some (r, rest) from hrequest] at hkept
        dsimp only at hkept
        rw [if_neg hclosed] at hkept
        exact hkept m hm
  · rw [if_neg hkind]
    rw [if_neg hkind] at hkept
    generalize s.modify a (fun c =>
      { c with inn := c.inn ++ data, lastRxUs := if data = [] then c.lastRxUs else io.now }) =
        s1 at hfind hview huids ⊢
    have hreceived : Globals.view { s1 with past := { s1.past with
        received := Function.update s1.past.received a (s1.past.received a ++ data) } } = s.view.receive a data :=
      congrArg (fun v : View => { v with received := Function.update v.received a (v.received a ++ data) }) hview
    have hreceive : Serves a presented kept s { s1 with past := { s1.past with
        received := Function.update s1.past.received a (s1.past.received a ++ data) } } := by
      refine ⟨huids, ?_⟩
      rw [hreceived]
      exact .single (.receive c.node data hnode hkind)
    have hfind' : Globals.find { s1 with past := { s1.past with
        received := Function.update s1.past.received a (s1.past.received a ++ data) } } a =
        some { c with inn := c.inn ++ data, lastRxUs := if data = [] then c.lastRxUs else io.now } := hfind
    generalize { s1 with past := { s1.past with
        received := Function.update s1.past.received a (s1.past.received a ++ data) } } = s2 at hreceive hfind' ⊢
    have hloop : Serves a presented kept s2 (Globals.wsLoop true ((c.inn ++ data).length + 1) s2 a).2 := by
      refine wsLoop_serves true _ (hsound.acts hreceive.acts) fun d hd => ?_
      obtain rfl := Option.some.inj (hfind'.symm.trans hd)
      refine ⟨hkind, fun _ => hsingle, fun _ hopen m hm => hkept m ?_⟩
      rw [if_neg fun hclosing => hopen ⟨rfl, hclosing⟩]
      exact hm
    have hboth := hreceive.trans hloop
    generalize Globals.wsLoop true ((c.inn ++ data).length + 1) s2 a = result at hboth ⊢
    obtain ⟨bad, s3⟩ := result
    dsimp only at hboth ⊢
    split
    · exact hboth.trans killConn_serves
    · exact hboth

theorem flush_serves {presented : Option Bytes} (answers : List SockAnswer) :
    Serves a presented kept s (s.flush a answers) := by
  unfold Globals.flush
  cases hc : s.find a with
  | none => exact ⟨rfl, .refl⟩
  | some c =>
      dsimp only
      have huid : c.uid = a := find_uid hc
      generalize link.drain answers none (c.out.drop c.outOff) = r
      have hsent : Serves a presented kept s (s.modify a fun _ => { c with outOff := c.outOff + r.count }) := by
        refine ⟨uids_modify fun _ _ => huid, ?_⟩
        rw [view_modify_same]
        · exact fun _ _ => huid
        · intro d hd
          obtain rfl := Option.some.inj (hc.symm.trans hd)
          rfl
      split
      · exact hsent.trans killConn_serves
      split
      · have hcleared := hsent.trans (Serves.modify (a := a)
          (f := fun c => { c with out := [], outOff := 0 }) (fun _ => rfl) (fun _ => rfl) a)
        split
        · exact hcleared.trans killConn_serves
        · exact hcleared
      split
      · refine ⟨(uids_modify ?_).trans hsent.uids, ?_⟩
        · exact fun _ h => h
        · rw [view_modify_same]
          · exact hsent.acts
          · exact fun _ h => h
          · exact fun _ _ => rfl
      · exact hsent

theorem expire_serves {presented : Option Bytes} (c : Conn) (now : Nat) :
    Serves c.uid presented kept s (s.expire c now) := by
  unfold Globals.expire
  split
  · exact killConn_serves
  split
  · exact .of_chatter (wsClose_uids _ _) (wsClose_chatter _ _)
  split
  · exact killConn_serves
  split
  · refine Serves.trans
      (.modify (f := fun c => { c with lastPingUs := now }) (fun _ => rfl) (fun _ => rfl) c.uid) ?_
    exact .of_chatter (wsSend_uids _ _ _) (wsSend_chatter (by decide) _)
  · exact ⟨rfl, .refl⟩

theorem sweep_serves {presented : Option Bytes} (now : Nat) (answers : List SockAnswer) :
    Serves a presented kept s (s.sweep a now answers) := by
  unfold Globals.sweep
  cases hc : s.find a with
  | none => exact ⟨rfl, .refl⟩
  | some c =>
      dsimp only
      obtain rfl := find_uid hc
      split
      · exact ⟨rfl, .refl⟩
      split
      · exact (expire_serves c now).trans (flush_serves answers)
      · exact expire_serves c now

-- A uid names one connection.
structure Tidy (s : Globals) : Prop where
  distinct : s.uids.Nodup
  used : ∀ u ∈ s.uids, u < s.nextUid

theorem find_unused (htidy : Tidy s) : s.find s.nextUid = none := by
  unfold Globals.find
  rw [List.find?_eq_none]
  intro c hc huid
  have hlow := htidy.used c.uid (List.mem_map_of_mem hc)
  rw [of_decide_eq_true huid] at hlow
  exact Nat.lt_irrefl _ hlow

theorem find_mem (htidy : Tidy s) (hc : c ∈ s.conns) : s.find c.uid = some c :=
    Lib.Table.find_row Conn.uid htidy.distinct hc

theorem accept_view (htidy : Tidy s) (addr : Bytes) (now : Nat) :
    (s.accept addr now = s ∨ (s.accept addr now).view = s.view.accept) ∧ Tidy (s.accept addr now) := by
  unfold Globals.accept
  split
  · exact ⟨.inl rfl, htidy⟩
  refine ⟨.inr (View.ext (funext fun w => ?_) rfl rfl rfl rfl rfl rfl rfl rfl rfl), ?_, ?_⟩
  · have hunused := find_unused htidy
    unfold View.accept Globals.view Globals.find at *
    dsimp only at hunused ⊢
    rw [List.find?_append]
    by_cases hw : w = s.nextUid
    · rw [hw, Function.update_self, hunused, Option.none_or, List.find?_cons_of_pos (by simp [Conn.fresh])]
      rfl
    · rw [Function.update_of_ne hw, List.find?_cons_of_neg (by simp [Conn.fresh, Ne.symm hw]), List.find?_nil,
        Option.or_none]
  · unfold Globals.uids
    dsimp only
    rw [List.map_append, List.nodup_append]
    refine ⟨htidy.distinct, by simp, ?_⟩
    intro u hu w hw
    have hlow := htidy.used u hu
    obtain rfl : w = s.nextUid := by simpa [Conn.fresh] using hw
    exact Nat.ne_of_lt hlow
  · intro u hu
    unfold Globals.uids at hu
    rw [List.map_append, List.mem_append] at hu
    rcases hu with hu | hu
    · exact Nat.lt_succ_of_lt (htidy.used u hu)
    · obtain rfl : u = s.nextUid := by simpa [Conn.fresh] using hu
      exact Nat.lt_succ_self _

theorem reap_view (htidy : Tidy s) : s.reap.view = s.view.reap ∧ Tidy s.reap := by
  have hsub : s.reap.uids.Sublist s.uids := List.Sublist.map Conn.uid List.filter_sublist
  have htidy' : Tidy s.reap := ⟨htidy.distinct.sublist hsub, fun u hu => htidy.used u (hsub.subset hu)⟩
  refine ⟨View.ext (funext fun w => ?_) rfl rfl rfl rfl rfl rfl rfl rfl rfl, htidy'⟩
  show (s.reap.find w).map Conn.node = ((s.find w).map Conn.node).filter fun n => !n.dead
  cases hc : s.find w with
  | none =>
      have hgone : s.reap.find w = none := by
        unfold Globals.find at hc ⊢
        rw [List.find?_eq_none] at hc ⊢
        exact fun c hmem => hc c (List.mem_of_mem_filter hmem)
      rw [hgone]
      rfl
  | some c =>
      obtain rfl := find_uid hc
      have hmem : c ∈ s.conns := List.mem_of_find?_eq_some hc
      rw [Option.map_some, Option.filter_some]
      by_cases hdead : c.dead = true
      · rw [if_neg (by simp [Conn.node, hdead])]
        cases hc' : s.reap.find c.uid with
        | none => rfl
        | some d =>
            have hd : d ∈ s.reap.conns := List.mem_of_find?_eq_some hc'
            obtain ⟨hd, halive⟩ := List.mem_filter.mp hd
            obtain rfl := Lib.Table.row_unique Conn.uid htidy.distinct hd hmem (find_uid hc')
            rw [hdead] at halive
            cases halive
      · have halive : c ∈ s.reap.conns := List.mem_filter.mpr ⟨hmem, by simpa using hdead⟩
        rw [find_mem htidy' halive, if_pos (by simpa [Conn.node] using hdead)]
        rfl

end Events

end TetherDesk.Relay
