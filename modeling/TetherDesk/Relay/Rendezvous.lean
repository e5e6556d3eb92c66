import TetherDesk.Relay.Upgrade

namespace TetherDesk.Relay

open TetherDesk.Net TetherDesk.Secure

section Rows

variable {s : Globals} {u w : Nat} {c : Conn} {f : Conn → Conn}

theorem modify_self (hdistinct : s.uids.Nodup) (hc : s.find u = some c) (hf : f c = c) : s.modify u f = s := by
  have hrows : s.conns.map (fun d => if d.uid = u then f d else d) = s.conns := by
    refine (List.map_congr_left fun d hd => ?_).trans (List.map_id _)
    rw [id]
    by_cases hu : d.uid = u
    · obtain rfl := Lib.Table.row_unique Conn.uid hdistinct hd (List.mem_of_find?_eq_some hc)
          (hu.trans (find_uid hc).symm)
      rw [if_pos hu, hf]
    · rw [if_neg hu]
  unfold Globals.modify
  rw [hrows]

theorem modify_const {d : Conn} (hf : ∀ c, c.uid = u → (f c).uid = u) :
    (s.modify u f).modify u (fun _ => d) = s.modify u fun _ => d := by
  unfold Globals.modify
  dsimp only
  rw [List.map_map]
  refine congrArg (fun conns => { s with conns := conns }) (List.map_congr_left fun c _ => ?_)
  rw [Function.comp_apply]
  by_cases hu : c.uid = u
  · rw [if_pos hu, if_pos (hf c hu), if_pos hu]
  · rw [if_neg hu, if_neg hu]

theorem find_modify_self (hf : ∀ c, c.uid = u → (f c).uid = u) (hc : s.find u = some c) :
    (s.modify u f).find u = some (f c) := by
  rw [find_modify hf, if_pos rfl, hc, Option.map_some]

theorem find_modify_ne (hf : ∀ c, c.uid = u → (f c).uid = u) (hne : w ≠ u) : (s.modify u f).find w = s.find w := by
  rw [find_modify hf, if_neg hne]

theorem wsSend_find_ne {origin : Option Nat} {opcode : Nat} {p : Bytes} (hne : w ≠ u) :
    (s.wsSend origin u opcode p).find w = s.find w := by
  unfold Globals.wsSend
  cases s.find u with
  | none => rfl
  | some d =>
      dsimp only
      split
      · rfl
      · exact find_modify_ne (fun _ h => h) hne

theorem wsSend_find_self {origin : Option Nat} {opcode : Nat} {p : Bytes} (hc : s.find u = some c)
    (halive : c.dead = false) :
    (s.wsSend origin u opcode p).find u = some { c with out := c.out ++ rdWsWriteFrame opcode p none } := by
  unfold Globals.wsSend
  rw [hc]
  dsimp only
  rw [if_neg (by simp [halive])]
  exact find_modify_self (fun _ h => h) hc

theorem wsSend_tables (origin : Option Nat) (opcode : Nat) (p : Bytes) :
    (s.wsSend origin u opcode p).hosts = s.hosts ∧ (s.wsSend origin u opcode p).tickets = s.tickets := by
  unfold Globals.wsSend
  cases s.find u with
  | none => exact ⟨rfl, rfl⟩
  | some d =>
      dsimp only
      split <;> exact ⟨rfl, rfl⟩

theorem wsClose_find_ne {code : Nat} {reason : String} (hne : w ≠ u) : (s.wsClose u code reason).find w =
    s.find w := by
  unfold Globals.wsClose
  rw [find_modify_ne ?_ hne, wsSend_find_ne hne]
  exact fun _ h => h

theorem wsClose_find_self {code : Nat} {reason : String} (hc : s.find u = some c) (halive : c.dead = false) :
    (s.wsClose u code reason).find u = some { c with
      out := c.out ++ rdWsWriteFrame RD_WS_CLOSE (be16 code ++ (ascii reason).take 126) none
      closeAfterFlush := true } := by
  unfold Globals.wsClose
  refine find_modify_self ?_ (wsSend_find_self hc halive)
  exact fun _ h => h

theorem wsClose_tables (code : Nat) (reason : String) :
    (s.wsClose u code reason).hosts = s.hosts ∧ (s.wsClose u code reason).tickets = s.tickets :=
  wsSend_tables _ _ _

-- No message is made of nothing.
theorem wsLoop_nil (stopsAtClose : Bool) (fuel : Nat) (hdistinct : s.uids.Nodup) (hc : s.find u = some c)
    (hinn : c.inn = []) :
    (Globals.wsLoop stopsAtClose fuel s u).2 = s := by
  cases fuel with
  | zero => rfl
  | succ fuel =>
      have hnext : rdWsNext c.ws c.inn = (.more, c.ws, c.inn) := by
        rw [hinn]
        rfl
      unfold Globals.wsLoop
      rw [hc]
      dsimp only
      by_cases hstop : c.dead = true ∨ stopsAtClose = true ∧ c.closeAfterFlush = true
      · rw [if_pos hstop]
      · rw [if_neg hstop, hnext]
        exact modify_self hdistinct hc rfl

end Rows

section Retire

variable {s : Globals} {u : Nat} {c : Conn} {id : Bytes}

-- A control connection that its id no longer leads to is closed, and that is all.
theorem killConn_control (hc : s.find u = some c) (halive : c.dead = false) (hkind : c.kind = .HostCtl)
    (hpeer : c.peer = none)
    (hleft : ∀ h, s.hosts c.id = some h → h.ctl ≠ some c.uid) : s.killConn u = s.modify u fun c =>
      { c with dead := true } := by
  unfold Globals.killConn
  rw [hc]
  dsimp only
  have hviewer : ¬ (c.kind = .Viewer ∧ c.ticket ≠ []) := by simp [hkind]
  rw [if_neg (by simp [halive]), hpeer, if_pos hkind, if_neg hviewer]
  unfold Globals.dropControl
  cases hh : s.hosts c.id with
  | none =>
      have hhosts : (s.modify u fun c => { c with dead := true }).hosts c.id = none := hh
      rw [hhosts]
  | some h =>
      have hhosts : (s.modify u fun c => { c with dead := true }).hosts c.id = some h := hh
      rw [hhosts]
      exact if_neg (hleft h hh)

-- Nobody else notices that the stale channel of a host goes.
structure Retired (s t : Globals) (id : Bytes) (h : HostEntry) : Prop where
  rows : ∀ w, h.ctl ≠ some w → t.find w = s.find w
  uids : t.uids = s.uids
  hosts : ∀ e, Function.update t.hosts id e = Function.update s.hosts id e
  tickets : t.tickets = s.tickets

theorem retireStale_retired (hsound : s.view.Sound) {h : HostEntry}
    (hentry : ∀ old, h.ctl = some old → s.hosts id = some h) :
    Retired s (s.retireStale id h) id h := by
  unfold Globals.retireStale
  cases hctl : h.ctl with
  | none => exact ⟨fun _ _ => rfl, rfl, fun _ => rfl, rfl⟩
  | some old =>
      obtain ⟨n, hn, halive, hkind, hid⟩ := hsound.hosts id h old (hentry old hctl) hctl
      obtain ⟨d, hd, rfl⟩ := find_of_node hn
      have hpeer : d.peer = none := by
        by_contra hne
        obtain ⟨p, hp⟩ := Option.ne_none_iff_exists'.mp hne
        obtain ⟨-, m, -, -, -, hkinds⟩ := hsound.peers old d.node p hn hp
        rcases hkinds with ⟨hviewer, -⟩ | ⟨hdata, -⟩
        · rw [hkind] at hviewer
          cases hviewer
        · rw [hkind] at hdata
          cases hdata
      dsimp only
      generalize hs₁ : ({ s with hosts := Function.update s.hosts id (some { h with ctl := none }) } : Globals) = s₁
      have hd₁ : s₁.find old = some d := by
        rw [← hs₁]
        exact hd
      have htables := wsClose_tables (s := s₁) (u := old) 1001 "replaced"
      have hrows : ∀ w, w ≠ old → (s₁.wsClose old 1001 "replaced").find w = s.find w := by
        intro w hw
        rw [wsClose_find_ne hw, ← hs₁]
        rfl
      have hclosed : (s₁.wsClose old 1001 "replaced").find old = some { d with
          out := d.out ++ rdWsWriteFrame RD_WS_CLOSE (be16 1001 ++ (ascii "replaced").take 126) none
          closeAfterFlush := true } := wsClose_find_self hd₁ halive
      have huids : (s₁.wsClose old 1001 "replaced").uids = s.uids := by
        rw [wsClose_uids, ← hs₁]
        rfl
      have hhosts : (s₁.wsClose old 1001 "replaced").hosts =
          Function.update s.hosts id (some { h with ctl := none }) := by
        rw [htables.1, ← hs₁]
      have htickets : (s₁.wsClose old 1001 "replaced").tickets = s.tickets := by
        rw [htables.2, ← hs₁]
      generalize s₁.wsClose old 1001 "replaced" = s₂ at hrows hclosed huids hhosts htickets ⊢
      have hkilled := killConn_control hclosed halive hkind hpeer fun e he => by
        rw [hhosts, show d.id = id from hid, Function.update_self] at he
        obtain rfl := Option.some.inj he
        simp
      rw [hkilled]
      refine ⟨fun w hw => ?_, ?_, fun e => ?_, htickets⟩
      · have hne : w ≠ old := fun heq => hw (heq ▸ hctl)
        rw [find_modify_ne ?_ hne, hrows w hne]
        exact fun _ h => h
      · rw [uids_modify ?_, huids]
        exact fun _ h => h
      · show Function.update s₂.hosts id e = _
        rw [hhosts, Function.update_idem]

end Retire

section Requests

variable {cr : Crypto} {s : Globals} {c : Conn} {id key target : Bytes} {io : Io}

theorem upgrade_find_self {kind : Kind} (hc : s.find c.uid = some c) :
    (s.upgrade cr c.uid kind id key).find c.uid =
      some (Conn.acceptUpgrade cr { c with kind := kind, id := id } key) := by
  unfold Globals.upgrade
  dsimp only
  refine (find_modify_self ?_ hc).trans rfl
  exact fun _ h => h

theorem upgrade_find_ne {kind : Kind} {w : Nat} (hne : w ≠ c.uid) : (s.upgrade cr c.uid kind id key).find w =
    s.find w := by
  unfold Globals.upgrade
  dsimp only
  refine (find_modify_ne ?_ hne).trans rfl
  exact fun _ h => h

theorem http_not_control (hsound : s.view.Sound) (hc : s.find c.uid = some c) (hkind : c.kind = .Http)
    {h : HostEntry}
    (hh : s.hosts id = some h) : h.ctl ≠ some c.uid := by
  intro hctl
  obtain ⟨n, hn, -, hnkind, -⟩ := hsound.hosts id h c.uid hh hctl
  obtain rfl := Option.some.inj ((view_node hc).symm.trans hn)
  exact absurd (hkind.symm.trans hnkind) (by decide)

-- A host with a free id, or with the key its id is registered under, is registered.
structure Registered (cr : Crypto) (s t : Globals) (c : Conn) (id hkey key : Bytes) : Prop where
  hosts : t.hosts = Function.update s.hosts id (some ⟨hkey, some c.uid⟩)
  tickets : t.tickets = s.tickets
  row : t.find c.uid = some (Conn.acceptUpgrade cr { c with kind := .HostCtl, id := id } key)
  uids : t.uids = s.uids

theorem hostRequest_registers (hsound : s.view.Sound) (hc : s.find c.uid = some c) (hkind : c.kind = .Http)
    {hkey : Bytes}
    (hid : queryParam target "id" = id) (hpresented : queryParam target "key" = hkey) (hvalid : validId id = true)
    (hhex : validHex hkey 32 = true) (hfree : ∀ h, s.hosts id = some h → h.ctl ≠ none → h.key = hkey) :
    (s.hostRequest cr c target key io).1 = true ∧
      Registered cr s (s.hostRequest cr c target key io).2 c id hkey key := by
  have hgood : ¬ ((!validId id) = true ∨ (!validHex hkey 32) = true) := by simp [hvalid, hhex]
  unfold Globals.hostRequest
  dsimp only
  rw [hid, hpresented, if_neg hgood]
  generalize hentry : (s.hosts id).getD ⟨[], none⟩ = h
  have hold : ∀ old, h.ctl = some old → s.hosts id = some h := by
    intro old hctl
    cases hh : s.hosts id with
    | none =>
        rw [hh] at hentry
        obtain rfl : HostEntry.mk [] none = h := hentry
        cases hctl
    | some e =>
        rw [hh] at hentry
        exact congrArg some hentry
  have hsame : ¬ (h.ctl ≠ none ∧ h.key ≠ hkey) := by
    rintro ⟨hlive, hother⟩
    obtain ⟨old, hctl⟩ := Option.ne_none_iff_exists'.mp hlive
    exact hother (hfree h (hold old hctl) hlive)
  rw [if_neg hsame]
  have hretired : Retired s (s.retireStale id h) id h := retireStale_retired hsound hold
  have hself : h.ctl ≠ some c.uid := fun hctl => http_not_control hsound hc hkind (hold c.uid hctl) hctl
  generalize s.retireStale id h = t at hretired ⊢
  have hrow : t.find c.uid = some c := (hretired.rows c.uid hself).trans hc
  generalize ht : ({ t with hosts := Function.update t.hosts id (some ⟨hkey, some c.uid⟩) } : Globals) = t'
  have hrow' : t'.find c.uid = some c := by
    rw [← ht]
    exact hrow
  refine ⟨rfl, ?_, ?_, ?_, ?_⟩
  · rw [← hretired.hosts, ← ht]
    rfl
  · rw [← hretired.tickets, ← ht]
    rfl
  · exact (upgrade_find_self hrow').trans rfl
  · refine (upgrade_uids cr .HostCtl id key).trans ?_
    rw [← hretired.uids, ← ht]
    rfl

-- A viewer of a host that is online waits under its ticket, and the host is told.
structure Announced (cr : Crypto) (s t : Globals) (c d : Conn) (id key ticket : Bytes) : Prop where
  hosts : t.hosts = s.hosts
  tickets : t.tickets = Function.update s.tickets ticket (some c.uid)
  row : t.find c.uid = some { Conn.acceptUpgrade cr { c with kind := .Viewer, id := id } key with ticket := ticket }
  control : t.find d.uid = some { d with
    out := d.out ++ rdWsWriteFrame RD_WS_TEXT (ascii "open " ++ ticket ++ ascii " " ++ c.ip) none }
  uids : t.uids = s.uids

theorem viewerRequest_announces (hsound : s.view.Sound) (hc : s.find c.uid = some c) (hkind : c.kind = .Http)
    {d : Conn} {h : HostEntry}
    (hvalid : validId id = true) (hh : s.hosts id = some h) (hctl : h.ctl = some d.uid)
    (hd : s.find d.uid = some d) :
    (s.viewerRequest cr c (ascii "/v/" ++ id) key io).1 = true ∧
      Announced cr s (s.viewerRequest cr c (ascii "/v/" ++ id) key io).2 c d id key io.ticket := by
  obtain ⟨n, hn, halive, -, -⟩ := hsound.hosts id h d.uid hh hctl
  obtain rfl := Option.some.inj ((view_node hd).symm.trans hn)
  have hne : d.uid ≠ c.uid := fun heq => http_not_control hsound hc hkind hh (heq ▸ hctl)
  have hid : (ascii "/v/" ++ id).drop 3 = id := rfl
  have hrow : (s.upgrade cr c.uid .Viewer id key).find c.uid =
      some (Conn.acceptUpgrade cr { c with kind := .Viewer, id := id } key) :=
    upgrade_find_self hc
  have hcontrol : (s.upgrade cr c.uid .Viewer id key).find d.uid = some d := (upgrade_find_ne hne).trans hd
  have hhosts : (s.upgrade cr c.uid .Viewer id key).hosts = s.hosts := rfl
  have htickets : (s.upgrade cr c.uid .Viewer id key).tickets = s.tickets := rfl
  have huids := upgrade_uids (s := s) (a := c.uid) cr .Viewer id key
  unfold Globals.viewerRequest
  dsimp only
  rw [hid]
  generalize s.upgrade cr c.uid .Viewer id key = t at hrow hcontrol hhosts htickets huids ⊢
  rw [if_pos hvalid, hhosts, hh, Option.bind_some, hctl]
  dsimp only
  have hticket : (t.modify c.uid fun c => { c with ticket := io.ticket }).find c.uid =
      some { Conn.acceptUpgrade cr { c with kind := .Viewer, id := id } key with ticket := io.ticket } := by
    refine find_modify_self ?_ hrow
    exact fun _ h => h
  have hstill : (t.modify c.uid fun c => { c with ticket := io.ticket }).find d.uid = some d := by
    refine (find_modify_ne ?_ hne).trans hcontrol
    exact fun _ h => h
  have huids' : (t.modify c.uid fun c => { c with ticket := io.ticket }).uids = t.uids := by
    refine uids_modify ?_
    exact fun _ h => h
  refine ⟨rfl, ?_, ?_, ?_, ?_, ?_⟩
  · rw [(wsSend_tables _ _ _).1]
    exact hhosts
  · rw [(wsSend_tables _ _ _).2, ← htickets]
    rfl
  · rw [wsSend_find_ne (Ne.symm hne)]
    exact hticket
  · exact wsSend_find_self hstill halive
  · rw [wsSend_uids, ← huids]
    exact huids'

theorem wsSends_find {t : Globals} {u w : Nat} {d : Conn} (origin : Option Nat) (opcode : Nat) (l : List Bytes)
    (hd : t.find u = some d) (halive : d.dead = false) (hne : w ≠ u) :
    (l.foldl (fun s m => s.wsSend origin u opcode m) t).find u =
        some { d with out := d.out ++ l.flatMap fun m => rdWsWriteFrame opcode m none } ∧
      (l.foldl (fun s m => s.wsSend origin u opcode m) t).find w = t.find w ∧
      (l.foldl (fun s m => s.wsSend origin u opcode m) t).hosts = t.hosts ∧
      (l.foldl (fun s m => s.wsSend origin u opcode m) t).tickets = t.tickets := by
  induction l generalizing t d with
  | nil => exact ⟨by simpa using hd, rfl, rfl, rfl⟩
  | cons m l ih =>
      have hsent : (t.wsSend origin u opcode m).find u =
          some { d with out := d.out ++ rdWsWriteFrame opcode m none } :=
        wsSend_find_self hd halive
      obtain ⟨hself, hother, hhosts, htickets⟩ := ih hsent halive
      have htables := wsSend_tables (s := t) (u := u) origin opcode m
      rw [List.foldl_cons, List.flatMap_cons]
      refine ⟨?_, hother.trans (wsSend_find_ne hne), hhosts.trans htables.1, htickets.trans htables.2⟩
      rw [hself, ← List.append_assoc]

-- A host with the ticket of a viewer is joined to it, and gets what the viewer has said.
structure Joined (cr : Crypto) (s t : Globals) (c v : Conn) (id key ticket : Bytes) : Prop where
  hosts : t.hosts = s.hosts
  tickets : t.tickets = Function.update s.tickets ticket none
  row : t.find c.uid = some { Conn.acceptUpgrade cr { c with kind := .HostData, id := id } key with
    peer := some v.uid
    out := (Conn.acceptUpgrade cr c key).out ++ v.pending.flatMap fun m => rdWsWriteFrame RD_WS_BINARY m none }
  viewer : t.find v.uid = some { v with ticket := [], peer := some c.uid, pending := [], pendingBytes := 0 }
  uids : t.uids = s.uids

theorem dataRequest_joins (hsound : s.view.Sound) (hc : s.find c.uid = some c) (hkind : c.kind = .Http)
    (halive : c.dead = false)
    {v : Conn} {h : HostEntry} {ticket : Bytes} (hid : queryParam target "id" = id)
    (hpresented : queryParam target "key" = h.key)
    (hticket : queryParam target "ticket" = ticket) (hh : s.hosts id = some h)
    (hwaits : s.tickets ticket = some v.uid)
    (hv : s.find v.uid = some v) (hasked : v.id = id) :
    (s.dataRequest cr c target key io).1 = true ∧
      Joined cr s (s.dataRequest cr c target key io).2 c v id key ticket := by
  obtain ⟨-, n, hn, -, hviewer, -, -⟩ := hsound.tickets ticket v.uid hwaits
  obtain rfl := Option.some.inj ((view_node hv).symm.trans hn)
  have hne : v.uid ≠ c.uid := by
    intro heq
    obtain rfl := Option.some.inj (hv.symm.trans (heq ▸ hc))
    exact absurd (hkind.symm.trans hviewer) (by decide)
  have hgood : ¬ (h.key ≠ h.key ∨ v.id ≠ id) := by simp [hasked]
  unfold Globals.dataRequest
  dsimp only
  rw [hid, hpresented, hticket, hh, hwaits, Option.bind_some, hv]
  dsimp only
  rw [if_neg hgood]
  have hfirst : ((s.dropTicket ticket).modify v.uid fun v => { v with ticket := [] }).find v.uid =
      some { v with ticket := [] } := by
    refine find_modify_self ?_ hv
    exact fun _ h => h
  have hself : ((s.dropTicket ticket).modify v.uid fun v => { v with ticket := [] }).find c.uid = some c := by
    refine (find_modify_ne ?_ (Ne.symm hne)).trans hc
    exact fun _ h => h
  have huids : ((s.dropTicket ticket).modify v.uid fun v => { v with ticket := [] }).uids = s.uids := by
    refine (uids_modify ?_).trans rfl
    exact fun _ h => h
  have hhosts : ((s.dropTicket ticket).modify v.uid fun v => { v with ticket := [] }).hosts = s.hosts := rfl
  have htickets : ((s.dropTicket ticket).modify v.uid fun v => { v with ticket := [] }).tickets =
      Function.update s.tickets ticket none := rfl
  generalize (s.dropTicket ticket).modify v.uid (fun v => { v with ticket := [] }) =
    t at hfirst hself huids hhosts htickets ⊢
  have hrow : (t.upgrade cr c.uid .HostData id key).find c.uid =
      some (Conn.acceptUpgrade cr { c with kind := .HostData, id := id } key) :=
    upgrade_find_self hself
  have hother : (t.upgrade cr c.uid .HostData id key).find v.uid = some { v with ticket := [] } :=
    (upgrade_find_ne hne).trans hfirst
  have huids' := (upgrade_uids (s := t) (a := c.uid) cr .HostData id key).trans huids
  have hhosts' : (t.upgrade cr c.uid .HostData id key).hosts = s.hosts := hhosts
  have htickets' : (t.upgrade cr c.uid .HostData id key).tickets = Function.update s.tickets ticket none := htickets
  generalize t.upgrade cr c.uid .HostData id key = t' at hrow hother huids' hhosts' htickets' ⊢
  -- the two ends are linked
  have hlinked : ((t'.modify c.uid fun c => { c with peer := some v.uid }).modify v.uid fun v =>
      { v with peer := some c.uid }).find
      c.uid = some { Conn.acceptUpgrade cr { c with kind := .HostData, id := id } key with
        peer := some v.uid } := by
    refine (find_modify_ne ?_ (Ne.symm hne)).trans (find_modify_self ?_ hrow)
    · exact fun _ h => h
    · exact fun _ h => h
  have hback : ((t'.modify c.uid fun c => { c with peer := some v.uid }).modify v.uid fun v =>
      { v with peer := some c.uid }).find
      v.uid = some { v with ticket := [], peer := some c.uid } := by
    have hbefore : (t'.modify c.uid fun c => { c with peer := some v.uid }).find v.uid =
        some { v with ticket := [] } := by
      refine (find_modify_ne ?_ hne).trans hother
      exact fun _ h => h
    refine (find_modify_self ?_ hbefore).trans rfl
    exact fun _ h => h
  have hlinkedUids : ((t'.modify c.uid fun c => { c with peer := some v.uid }).modify v.uid fun v =>
      { v with peer := some c.uid }).uids =
      s.uids := by
    rw [uids_modify ?_, uids_modify ?_, huids']
    · exact fun _ h => h
    · exact fun _ h => h
  have hlinkedHosts : ((t'.modify c.uid fun c => { c with peer := some v.uid }).modify v.uid fun v =>
      { v with peer := some c.uid }).hosts =
      s.hosts := hhosts'
  have hlinkedTickets : ((t'.modify c.uid fun c => { c with peer := some v.uid }).modify v.uid fun v =>
      { v with peer := some c.uid }).tickets = Function.update s.tickets ticket none := htickets'
  generalize (t'.modify c.uid fun c => { c with peer := some v.uid }).modify v.uid (fun v =>
    { v with peer := some c.uid }) = t''
    at hlinked hback hlinkedUids hlinkedHosts hlinkedTickets ⊢
  generalize ht : ({ t'' with
    past := { t''.past with pairs := t''.past.pairs ++ [Pairing.mk c.uid v.uid ticket id h.key h.key] } } :
    Globals) = t₃
  have hlinked₃ : t₃.find c.uid = some { Conn.acceptUpgrade cr { c with kind := .HostData, id := id } key with
      peer := some v.uid } := by
    rw [← ht]
    exact hlinked
  have hback₃ : t₃.find v.uid = some { v with ticket := [], peer := some c.uid } := by
    rw [← ht]
    exact hback
  -- what the viewer has said is handed on
  obtain ⟨hsent, hkept, hsentHosts, hsentTickets⟩ :=
    wsSends_find (some v.uid) RD_WS_BINARY v.pending hlinked₃ halive hne
  have hsentUids := (wsSend_foldl (s := t₃) (some v.uid) RD_WS_BINARY v.pending ⟨_, hlinked₃, halive⟩).1
  generalize v.pending.foldl (fun s m => s.wsSend (some v.uid) c.uid RD_WS_BINARY m) t₃ = t₄
    at hsent hkept hsentHosts hsentTickets hsentUids ⊢
  refine ⟨rfl, ?_, ?_, ?_, ?_, ?_⟩
  · refine Eq.trans (hsentHosts.trans ?_) hlinkedHosts
    rw [← ht]
  · refine Eq.trans (hsentTickets.trans ?_) hlinkedTickets
    rw [← ht]
  · refine (find_modify_ne ?_ (Ne.symm hne)).trans hsent
    exact fun _ h => h
  · refine (find_modify_self ?_ (hkept.trans hback₃)).trans rfl
    exact fun _ h => h
  · rw [uids_modify ?_, hsentUids, ← ht]
    · exact hlinkedUids
    · exact fun _ h => h

end Requests

section Words

-- Digits and the letters a to f.
def isHexDigit (b : UInt8) : Bool := (48 ≤ b ∧ b ≤ 57) ∨ (97 ≤ b ∧ b ≤ 102)

theorem isHexDigit_graphic {b : UInt8} (h : isHexDigit b = true) : Graphic b ∧ b ≠ 38 ∧ b ≠ 61 ∧ b ≠ 63 := by
  have hrange : (48 ≤ b.toNat ∧ b.toNat ≤ 57) ∨ (97 ≤ b.toNat ∧ b.toNat ≤ 102) := of_decide_eq_true h
  have hnot : ∀ d : UInt8, b.toNat ≠ d.toNat → b ≠ d := fun d hd heq => hd (congrArg UInt8.toNat heq)
  have hlow : (32 : UInt8).toNat = 32 := rfl
  have hhigh : (127 : UInt8).toNat = 127 := rfl
  have hand : (38 : UInt8).toNat = 38 := rfl
  have hequal : (61 : UInt8).toNat = 61 := rfl
  have hquestion : (63 : UInt8).toNat = 63 := rfl
  refine ⟨⟨?_, ?_⟩, hnot 38 (by omega), hnot 61 (by omega), hnot 63 (by omega)⟩
  · show (32 : UInt8).toNat < b.toNat
    omega
  · show b.toNat < (127 : UInt8).toNat
    omega

theorem validId_digits {id : Bytes} (h : validId id = true) : ∀ b ∈ id, isHexDigit b = true := by
  intro b hb
  have hall := (of_decide_eq_true h).2
  have hdigit := of_decide_eq_true (List.all_eq_true.mp hall b hb)
  exact decide_eq_true (.inl hdigit)

theorem validHex_digits {s : Bytes} {n : Nat} (h : validHex s n = true) : ∀ b ∈ s, isHexDigit b = true := by
  intro b hb
  exact List.all_eq_true.mp (of_decide_eq_true h).2 b hb

theorem hexDigit_digit (v : Nat) : isHexDigit (hexDigit (v % 16)) = true := by
  have hall : ∀ k : Fin 16, isHexDigit (hexDigit k) = true := by decide
  exact hall ⟨v % 16, Nat.mod_lt v (by decide)⟩

theorem ticket_digits (io : Io) : ∀ b ∈ io.ticket, isHexDigit b = true := by
  intro b hb
  obtain ⟨r, -, hr⟩ := List.mem_flatMap.mp hb
  have hlow : r.toNat / 16 % 16 = r.toNat / 16 := by
    have := r.toNat_lt
    omega
  rcases List.mem_cons.mp hr with rfl | hr
  · rw [← hlow]
    exact hexDigit_digit _
  · obtain rfl := List.mem_singleton.mp hr
    exact hexDigit_digit _

end Words

section Events

variable {cr : Crypto} {s : Globals} {c : Conn} {data : Bytes} {io : Io}

-- The connection once its request has been taken from its input.
def Conn.asked (c : Conn) (data : Bytes) (io : Io) : Conn :=
  { c with inn := [], lastRxUs := if data = [] then c.lastRxUs else io.now }

def Globals.asked (s : Globals) (c : Conn) (data : Bytes) (io : Io) : Globals :=
    s.modify c.uid fun _ => c.asked data io

theorem asked_find_self (hc : s.find c.uid = some c) : (s.asked c data io).find c.uid = some (c.asked data io) := by
  refine (find_modify_self ?_ hc).trans rfl
  exact fun _ _ => rfl

theorem asked_find_ne {w : Nat} (hne : w ≠ c.uid) : (s.asked c data io).find w = s.find w := by
  refine find_modify_ne ?_ hne
  exact fun _ _ => rfl

theorem asked_uids : (s.asked c data io).uids = s.uids := by
  refine uids_modify ?_
  exact fun _ _ => rfl

theorem asked_sound (hsound : s.view.Sound) (hc : s.find c.uid = some c) : (s.asked c data io).view.Sound := by
  have hview : (s.asked c data io).view = s.view.set c.uid fun n => { n with inn := [] } := by
    refine view_modify _ (fun _ _ => rfl) fun d hd => ?_
    obtain rfl := Option.some.inj (hc.symm.trans hd)
    rfl
  rw [hview]
  exact hsound.set c.uid _ fun _ => rfl

-- The request of a connection is complete with data.
theorem read_request (hc : s.find c.uid = some c) (hkind : c.kind = .Http) (halive : c.dead = false) {r : Request}
    (hip : r.ip = none) (hrequest : Conn.request { c with inn := c.inn ++ data } = some (r, [])) :
    Event.apply cr s (.read c.uid data false io) =
      if ((s.asked c data io).handleRequest cr (c.asked data io) r io).1 then
        (Globals.wsLoop false 1 ((s.asked c data io).handleRequest cr (c.asked data io) r io).2 c.uid).2
      else ((s.asked c data io).handleRequest cr (c.asked data io) r io).2 := by
  have hlive : s.live c.uid = true := by
    unfold Globals.live
    rw [hc]
    simpa using halive
  have hread : (s.modify c.uid fun c => { c with
      inn := c.inn ++ data, lastRxUs := if data = [] then c.lastRxUs else io.now }).find c.uid =
      some { c with inn := c.inn ++ data, lastRxUs := if data = [] then c.lastRxUs else io.now } := by
    refine find_modify_self ?_ hc
    exact fun _ h => h
  have hconst := modify_const (s := s) (u := c.uid) (d := c.asked data io)
    (f := fun c => { c with inn := c.inn ++ data, lastRxUs := if data = [] then c.lastRxUs else io.now })
      fun _ h => h
  have hrequest' : Conn.request { c with
      inn := c.inn ++ data, lastRxUs := if data = [] then c.lastRxUs else io.now } = some (r, []) :=
    hrequest
  unfold Event.apply
  dsimp only
  rw [if_pos hlive]
  unfold Globals.readConn
  rw [hc]
  dsimp only
  rw [if_pos hkind, if_neg Bool.false_ne_true]
  unfold Globals.handleHttp
  rw [hread]
  dsimp only
  rw [hrequest']
  dsimp only
  rw [hip, Option.getD_none]
  unfold Globals.asked
  rw [← hconst]
  rfl

section Asked

variable {host key agent : Bytes} (hhost : Inline host) (hword : ∀ b ∈ key, Graphic b) (hlen : key.length <
  128) (hagent : Inline agent)
include hhost hword hlen hagent

-- The request names path, and nothing is behind it.
theorem read_ask (hc : s.find c.uid = some c) (hkind : c.kind = .Http) (halive : c.dead = false) {path : Bytes}
    (hpath : path ≠ [] ∧ ∀ b ∈ path, Graphic b) (hasked : c.inn ++ data = (askHead path host key agent).bytes)
    {t : Globals} {d : Conn}
    (ht : (s.asked c data io).handleRequest cr (c.asked data io) ⟨ascii "GET", path, none, some key⟩ io = (true, t))
    (hdistinct : t.uids.Nodup) (hd : t.find c.uid = some d) (hinn : d.inn = []) :
    Event.apply cr s (.read c.uid data false io) = t := by
  have hrequest : Conn.request { c with inn := c.inn ++ data } =
      some (⟨ascii "GET", path, none, some key⟩, []) := by
    refine request_ask hpath hhost hword hlen hagent ?_
    rw [List.append_nil]
    exact hasked
  rw [read_request hc hkind halive rfl hrequest, ht, if_pos rfl]
  exact wsLoop_nil false 1 hdistinct hd hinn

theorem read_host (h : s.Sane) (hc : s.find c.uid = some c) (hkind : c.kind = .Http) (halive : c.dead = false)
    {id hkey : Bytes}
    (hvalid : validId id = true) (hhex : validHex hkey 32 = true)
    (hfree : ∀ e, s.hosts id = some e → e.ctl ≠ none → e.key = hkey)
    (hasked : c.inn ++ data =
      (askHead (ascii "/host" ++ 63 :: query [(ascii "id", id), (ascii "key", hkey)]) host key agent).bytes) :
    Registered cr s (Event.apply cr s (.read c.uid data false io)) (c.asked data io) id hkey key := by
  have hidWord := fun b hb => isHexDigit_graphic (validId_digits hvalid b hb)
  have hkeyWord := fun b hb => isHexDigit_graphic (validHex_digits hhex b hb)
  have hparams : ∀ p ∈ [(ascii "id", id), (ascii "key", hkey)], 38 ∉ p.1 ∧ 61 ∉ p.1 ∧ 38 ∉ p.2 := by
    simp only [List.forall_mem_cons]
    exact ⟨⟨by decide, by decide, fun h => (hidWord _ h).2.1 rfl⟩,
      ⟨by decide, by decide, fun h => (hkeyWord _ h).2.1 rfl⟩,
      by simp⟩
  have hplain : (63 : UInt8) ∉ ascii "/host" := by decide
  have hname : (ascii "/host" ++ 63 :: query [(ascii "id", id), (ascii "key", hkey)]).takeWhile (· ≠ 63) =
      ascii "/host" :=
    (split_at hplain _).1
  have hid : queryParam (ascii "/host" ++ 63 :: query [(ascii "id", id), (ascii "key", hkey)]) "id" = id :=
    (queryParam_query hplain (by simp) hparams "id").trans rfl
  have hpresented : queryParam (ascii "/host" ++ 63 :: query [(ascii "id", id), (ascii "key", hkey)]) "key" =
      hkey :=
    (queryParam_query hplain (by simp) hparams "key").trans rfl
  have hpath : ascii "/host" ++ 63 :: query [(ascii "id", id), (ascii "key", hkey)] ≠ [] ∧
      ∀ b ∈ ascii "/host" ++ 63 :: query [(ascii "id", id), (ascii "key", hkey)], Graphic b := by
    refine ⟨by simp, List.forall_mem_append.mpr ⟨Graphic.of_all (by decide),
      List.forall_mem_cons.mpr ⟨by decide, query_graphic ?_⟩⟩⟩
    simp only [List.forall_mem_cons]
    exact ⟨⟨Graphic.of_all (by decide), fun b hb => (hidWord b hb).1⟩,
      ⟨Graphic.of_all (by decide), fun b hb => (hkeyWord b hb).1⟩,
      by simp⟩
  generalize ascii "/host" ++ 63 :: query [(ascii "id", id), (ascii "key", hkey)] =
    path at hname hid hpresented hpath hasked
  have hrow : (s.asked c data io).find (c.asked data io).uid = some (c.asked data io) := asked_find_self hc
  have hhttp : (c.asked data io).kind = .Http := hkind
  obtain ⟨hgoes, hreg⟩ : ((s.asked c data io).hostRequest cr (c.asked data io) path key io).1 = true ∧
      Registered cr (s.asked c data io) ((s.asked c data io).hostRequest cr (c.asked data io) path key io).2
        (c.asked data io) id
        hkey key :=
    hostRequest_registers (asked_sound h.sound hc) hrow hhttp hid hpresented hvalid hhex hfree
  have ht : (s.asked c data io).handleRequest cr (c.asked data io) ⟨ascii "GET", path, none, some key⟩ io =
      (true, ((s.asked c data io).hostRequest cr (c.asked data io) path key io).2) := by
    unfold Globals.handleRequest
    dsimp only
    rw [show Request.path ⟨ascii "GET", path, none, some key⟩ = ascii "/host" from hname, if_pos rfl]
    exact Prod.ext hgoes rfl
  rw [read_ask hhost hword hlen hagent hc hkind halive hpath hasked ht
    (hreg.uids ▸ asked_uids.symm ▸ h.tidy.distinct) hreg.row rfl]
  exact ⟨hreg.hosts, hreg.tickets, hreg.row, hreg.uids.trans asked_uids⟩

theorem read_viewer (h : s.Sane) (hc : s.find c.uid = some c) (hkind : c.kind = .Http)
    (halive : c.dead = false) {id : Bytes} {d : Conn}
    {e : HostEntry} (hvalid : validId id = true) (he : s.hosts id = some e) (hctl : e.ctl = some d.uid)
    (hd : s.find d.uid = some d)
    (hasked : c.inn ++ data = (askHead (ascii "/v/" ++ id) host key agent).bytes) :
    Announced cr s (Event.apply cr s (.read c.uid data false io)) (c.asked data io) d id key io.ticket := by
  have hidWord := fun b hb => isHexDigit_graphic (validId_digits hvalid b hb)
  have hpath : ascii "/v/" ++ id ≠ [] ∧ ∀ b ∈ ascii "/v/" ++ id, Graphic b :=
    ⟨by simp [ascii], List.forall_mem_append.mpr ⟨Graphic.of_all (by decide), fun b hb => (hidWord b hb).1⟩⟩
  have hname : (ascii "/v/" ++ id).takeWhile (· ≠ 63) = ascii "/v/" ++ id := by
    refine List.takeWhile_eq_self_iff.mpr (List.forall_mem_append.mpr ⟨List.all_eq_true.mp (by decide),
      fun b hb => ?_⟩)
    exact decide_eq_true (hidWord b hb).2.2.2
  have hnotHost : ascii "/v/" ++ id ≠ ascii "/host" := by
    intro heq
    have hsecond := congrArg (fun p => byteAt p 1) heq
    revert hsecond
    simp [ascii, byteAt]
  have hnotData : ascii "/v/" ++ id ≠ ascii "/data" := by
    intro heq
    have hsecond := congrArg (fun p => byteAt p 1) heq
    revert hsecond
    simp [ascii, byteAt]
  have hprefix : (ascii "/v/").isPrefixOf (ascii "/v/" ++ id) = true := List.isPrefixOf_iff_prefix.mpr ⟨id, rfl⟩
  have hrow : (s.asked c data io).find (c.asked data io).uid = some (c.asked data io) := asked_find_self hc
  have hhttp : (c.asked data io).kind = .Http := hkind
  have hne : d.uid ≠ c.uid := fun heq => http_not_control h.sound hc hkind he (heq ▸ hctl)
  obtain ⟨hgoes, hann⟩ : ((s.asked c data io).viewerRequest cr (c.asked data io) (ascii "/v/" ++ id) key
      io).1 = true ∧
      Announced cr (s.asked c data io) ((s.asked c data io).viewerRequest cr (c.asked data io) (ascii "/v/" ++
        id) key io).2
        (c.asked data io) d id key io.ticket :=
    viewerRequest_announces (asked_sound h.sound hc) hrow hhttp hvalid he hctl ((asked_find_ne hne).trans hd)
  have ht : (s.asked c data io).handleRequest cr (c.asked data io) ⟨ascii "GET", ascii "/v/" ++ id, none,
      some key⟩ io =
      (true, ((s.asked c data io).viewerRequest cr (c.asked data io) (ascii "/v/" ++ id) key io).2) := by
    unfold Globals.handleRequest
    dsimp only
    rw [show Request.path ⟨ascii "GET", ascii "/v/" ++ id, none, some key⟩ = ascii "/v/" ++ id from hname,
      if_neg hnotHost,
      if_neg hnotData, if_pos hprefix]
    exact Prod.ext hgoes rfl
  rw [read_ask hhost hword hlen hagent hc hkind halive hpath hasked ht
    (hann.uids ▸ asked_uids.symm ▸ h.tidy.distinct) hann.row rfl]
  exact ⟨hann.hosts, hann.tickets, hann.row, hann.control, hann.uids.trans asked_uids⟩

theorem read_data (h : s.Sane) (hc : s.find c.uid = some c) (hkind : c.kind = .Http) (halive : c.dead = false)
    {ticket : Bytes} {v : Conn}
    {e : HostEntry} (hvalid : validId v.id = true) (hhex : validHex e.key 32 = true)
    (hdigits : ∀ b ∈ ticket, isHexDigit b = true)
    (he : s.hosts v.id = some e) (hwaits : s.tickets ticket = some v.uid) (hv : s.find v.uid = some v)
    (hasked : c.inn ++ data = (askHead (ascii "/data" ++ 63 ::
      query [(ascii "id", v.id), (ascii "key", e.key), (ascii "ticket", ticket)]) host key agent).bytes) :
    Joined cr s (Event.apply cr s (.read c.uid data false io)) (c.asked data io) v v.id key ticket := by
  have hidWord := fun b hb => isHexDigit_graphic (validId_digits hvalid b hb)
  have hkeyWord := fun b hb => isHexDigit_graphic (validHex_digits hhex b hb)
  have hticketWord := fun b hb => isHexDigit_graphic (hdigits b hb)
  have hparams : ∀ p ∈ [(ascii "id", v.id), (ascii "key", e.key), (ascii "ticket", ticket)], 38 ∉ p.1 ∧
      61 ∉ p.1 ∧ 38 ∉ p.2 := by
    simp only [List.forall_mem_cons]
    exact ⟨⟨by decide, by decide, fun h => (hidWord _ h).2.1 rfl⟩,
      ⟨by decide, by decide, fun h => (hkeyWord _ h).2.1 rfl⟩,
      ⟨by decide, by decide, fun h => (hticketWord _ h).2.1 rfl⟩, by simp⟩
  have hplain : (63 : UInt8) ∉ ascii "/data" := by decide
  have hgraphic : ∀ b ∈ query [(ascii "id", v.id), (ascii "key", e.key), (ascii "ticket", ticket)], Graphic b := by
    refine query_graphic ?_
    simp only [List.forall_mem_cons]
    exact ⟨⟨Graphic.of_all (by decide), fun b hb => (hidWord b hb).1⟩,
      ⟨Graphic.of_all (by decide), fun b hb => (hkeyWord b hb).1⟩,
      ⟨Graphic.of_all (by decide), fun b hb => (hticketWord b hb).1⟩, by simp⟩
  have hid := (queryParam_query hplain (List.cons_ne_nil _ _) hparams "id").trans rfl
  have hpresented := (queryParam_query hplain (List.cons_ne_nil _ _) hparams "key").trans rfl
  have hticket := (queryParam_query hplain (List.cons_ne_nil _ _) hparams "ticket").trans rfl
  generalize query [(ascii "id", v.id), (ascii "key", e.key), (ascii "ticket", ticket)] = params
    at hgraphic hid hpresented hticket hasked
  have hpath : ascii "/data" ++ 63 :: params ≠ [] ∧ ∀ b ∈ ascii "/data" ++ 63 :: params, Graphic b :=
    ⟨by simp, List.forall_mem_append.mpr ⟨Graphic.of_all (by decide),
      List.forall_mem_cons.mpr ⟨by decide, hgraphic⟩⟩⟩
  have hname : (ascii "/data" ++ 63 :: params).takeWhile (· ≠ 63) = ascii "/data" := (split_at hplain _).1
  generalize ascii "/data" ++ 63 :: params = path at hname hid hpresented hticket hpath hasked
  have hrow : (s.asked c data io).find (c.asked data io).uid = some (c.asked data io) := asked_find_self hc
  have hhttp : (c.asked data io).kind = .Http := hkind
  have hne : v.uid ≠ c.uid := by
    intro heq
    obtain ⟨-, n, hn, -, hviewer, -, -⟩ := h.sound.tickets ticket v.uid hwaits
    obtain rfl := Option.some.inj ((view_node hv).symm.trans hn)
    obtain rfl := Option.some.inj (hv.symm.trans (heq ▸ hc))
    exact absurd (hkind.symm.trans hviewer) (by decide)
  obtain ⟨hgoes, hjoined⟩ : ((s.asked c data io).dataRequest cr (c.asked data io) path key io).1 = true ∧
      Joined cr (s.asked c data io) ((s.asked c data io).dataRequest cr (c.asked data io) path key io).2
        (c.asked data io) v v.id
        key ticket :=
    dataRequest_joins (asked_sound h.sound hc) hrow hhttp halive hid hpresented hticket he hwaits
      ((asked_find_ne hne).trans hv) rfl
  have ht : (s.asked c data io).handleRequest cr (c.asked data io) ⟨ascii "GET", path, none, some key⟩ io =
      (true, ((s.asked c data io).dataRequest cr (c.asked data io) path key io).2) := by
    have hnotHost : ascii "/data" ≠ ascii "/host" := by decide
    unfold Globals.handleRequest
    dsimp only
    rw [show Request.path ⟨ascii "GET", path, none, some key⟩ = ascii "/data" from hname,
      if_neg hnotHost, if_pos rfl]
    exact Prod.ext hgoes rfl
  rw [read_ask hhost hword hlen hagent hc hkind halive hpath hasked ht
    (hjoined.uids ▸ asked_uids.symm ▸ h.tidy.distinct)
    hjoined.row rfl]
  exact ⟨hjoined.hosts, hjoined.tickets, hjoined.row, hjoined.viewer, hjoined.uids.trans asked_uids⟩

end Asked

end Events

end TetherDesk.Relay
