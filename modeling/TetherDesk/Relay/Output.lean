import TetherDesk.Lib.Table
import TetherDesk.Net.Link.Theorems
import TetherDesk.Relay.Pointers

namespace TetherDesk.Relay

open TetherDesk.Net TetherDesk.Secure TetherDesk.Lib.Transition TetherDesk.Lib.Table

-- What the relay appends to the output of a connection at once.
inductive Piece
  | response (r : Response) (beyond : Nat → UInt8)
  | accepted (key : Bytes)
  | frame (origin : Option Nat) (m : WsMsg)

namespace Piece

def bytes (cr : Crypto) : Piece → Bytes
  | response r beyond => r.bytes beyond
  | accepted key => (Conn.acceptUpgrade cr (Conn.fresh 0) key).out
  | frame _ m => rdWsWriteFrame m.opcode m.data none

def frame? : Piece → Option (Option Nat × WsMsg)
  | frame origin m => some (origin, m)
  | _ => none

end Piece

def written (cr : Crypto) (pieces : List Piece) : Bytes := pieces.flatMap (Piece.bytes cr)

def framesOf (pieces : List Piece) : List (Option Nat × WsMsg) := pieces.filterMap Piece.frame?

-- The bytes that have not been handed to the socket.
def Conn.unsent (c : Conn) : Bytes := c.out.drop c.outOff

-- The output of a connection loses bytes at its front, to the socket, and gains whole
-- pieces at its end. The frames among them are those that its history gains, and only
-- the connection that asks is answered in HTTP.
structure Conn.Wrote (cr : Crypto) (asks : Option Nat) (before after : List (Option Nat × WsMsg))
    (c c' : Conn) : Prop where
  uid : c'.uid = c.uid
  room : c.outOff ≤ c.out.length → c'.outOff ≤ c'.out.length
  out : c.outOff ≤ c.out.length → ∃ flushed pieces, flushed ++ c'.unsent = c.unsent ++ written cr pieces ∧
    after = before ++ framesOf pieces ∧ (asks ≠ some c.uid → ∀ p ∈ pieces, p.frame?.isSome)

-- What everything but a forwarding header leaves of a connection.
structure Conn.Kept (cr : Crypto) (asks : Option Nat) (before after : List (Option Nat × WsMsg))
    (c c' : Conn) : Prop where
  wrote : Conn.Wrote cr asks before after c c'
  ip : c'.ip = c.ip
  dead : c.dead = true → c'.dead = true

-- R relates what was sent on a connection so far and the connection itself to the two
-- afterwards; on no other uid is anything sent.
structure Along (R : List (Option Nat × WsMsg) → List (Option Nat × WsMsg) → Conn → Conn → Prop)
    (s s' : Globals) : Prop where
  rows : Evolves (fun c c' => R (s.past.sent c.uid) (s'.past.sent c.uid) c c') s.conns s'.conns
  strangers : ∀ u, u ∉ s.uids → s'.past.sent u = s.past.sent u
  nextUid : s'.nextUid = s.nextUid

abbrev Writes (cr : Crypto) (asks : Option Nat) : Globals → Globals → Prop := Along (Conn.Wrote cr asks)

abbrev Keeps (cr : Crypto) (asks : Option Nat) : Globals → Globals → Prop := Along (Conn.Kept cr asks)

section Output

variable {cr : Crypto} {asks : Option Nat} {before between after : List (Option Nat × WsMsg)} {c c' c'' : Conn}

theorem Conn.Wrote.of_out (huid : c'.uid = c.uid) (hout : c'.out = c.out) (hoff : c'.outOff = c.outOff) :
    Conn.Wrote cr asks before before c c' where
  uid := huid
  room h := by rwa [hout, hoff]
  out _ := by
    refine ⟨[], [], ?_, (List.append_nil _).symm, fun _ _ hp => by cases hp⟩
    rw [Conn.unsent, hout, hoff]
    exact (List.append_nil _).symm

theorem Conn.Wrote.append (p : Piece) (huid : c'.uid = c.uid) (hout : c'.out = c.out ++ p.bytes cr)
    (hoff : c'.outOff = c.outOff) (hafter : after = before ++ framesOf [p])
    (hasks : asks = some c.uid ∨ p.frame?.isSome) :
    Conn.Wrote cr asks before after c c' where
  uid := huid
  room h := by
    rw [hout, hoff, List.length_append]
    omega
  out h := by
    refine ⟨[], [p], ?_, hafter, fun hne q hq => ?_⟩
    · rw [Conn.unsent, Conn.unsent, hout, hoff, List.drop_append_of_le_length h, written, List.flatMap_singleton]
      rfl
    · rw [List.mem_singleton.mp hq]
      exact hasks.resolve_left hne

theorem Conn.Wrote.handed (huid : c'.uid = c.uid) (hroom : c.outOff ≤ c.out.length → c'.outOff ≤ c'.out.length)
    (n : Nat) (hout : c'.unsent = c.unsent.drop n) : Conn.Wrote cr asks before before c c' where
  uid := huid
  room := hroom
  out _ := by
    refine ⟨c.unsent.take n, [], ?_, (List.append_nil _).symm, fun _ _ hp => by cases hp⟩
    rw [hout, List.take_append_drop]
    exact (List.append_nil _).symm

theorem Conn.Wrote.trans (h : Conn.Wrote cr asks before between c c')
    (h' : Conn.Wrote cr asks between after c' c'') :
    Conn.Wrote cr asks before after c c'' where
  uid := h'.uid.trans h.uid
  room hroom := h'.room (h.room hroom)
  out hroom := by
    obtain ⟨flushed, pieces, hout, hframes, hanswers⟩ := h.out hroom
    obtain ⟨flushed', pieces', hout', hframes', hanswers'⟩ := h'.out (h.room hroom)
    refine ⟨flushed ++ flushed', pieces ++ pieces', ?_, ?_, fun hne => ?_⟩
    · rw [List.append_assoc, hout', ← List.append_assoc, hout, List.append_assoc, written, written, written,
        List.flatMap_append]
    · rw [hframes', hframes, List.append_assoc, framesOf, framesOf, framesOf, List.filterMap_append]
    · exact List.forall_mem_append.mpr ⟨hanswers hne, hanswers' (h.uid ▸ hne)⟩

theorem Conn.Kept.rfl : Conn.Kept cr asks before before c c :=
    ⟨.of_out (.refl _) (.refl _) (.refl _), .refl _, fun h => h⟩

end Output

section Along

variable {R S T : List (Option Nat × WsMsg) → List (Option Nat × WsMsg) → Conn → Conn → Prop}
  {s s' s'' : Globals} {u : Nat}

theorem Along.imp (h : Along R s s') (hRS : ∀ b a c c', R b a c c' → S b a c c') : Along S s s' :=
  ⟨h.rows.imp fun _ _ hr => hRS _ _ _ _ hr, h.strangers, h.nextUid⟩

theorem Along.comp (huid : ∀ b a c c', R b a c c' → c'.uid = c.uid)
    (hcomp : ∀ a b d c c' c'', R a b c c' → S b d c' c'' → T a d c c'') (h : Along R s s') (h' : Along S s' s'') :
    Along T s s'' where
  rows := by
    refine Evolves.comp (fun a b d h₁ h₂ => ?_) h.rows h'.rows
    rw [huid _ _ _ _ h₁] at h₂
    exact hcomp _ _ _ _ _ _ h₁ h₂
  strangers u hu := by
    have huids : s'.uids = s.uids := h.rows.column Conn.uid fun _ _ => huid _ _ _ _
    exact (h'.strangers u (huids ▸ hu)).trans (h.strangers u hu)
  nextUid := h'.nextUid.trans h.nextUid

theorem modify_along {f : Conn → Conn} (hrefl : ∀ b c, R b b c c)
    (hf : ∀ c ∈ s.conns, c.uid = u → R (s.past.sent u) (s.past.sent u) c (f c)) : Along R s (s.modify u f) := by
  refine ⟨Evolves.map fun c hc => ?_, fun _ _ => rfl, rfl⟩
  by_cases hu : c.uid = u
  · rw [if_pos hu, hu]
    exact hf c hc hu
  · rw [if_neg hu]
    exact hrefl _ c

end Along

section Keeps

variable {cr : Crypto} {asks : Option Nat} {s s' s'' : Globals} {u : Nat}

theorem Keeps.uids (h : Keeps cr asks s s') : s'.uids = s.uids :=
    h.rows.column Conn.uid fun _ _ hkept => hkept.wrote.uid

theorem Keeps.refl : Keeps cr asks s s := ⟨Evolves.rfl fun _ _ => .rfl, fun _ _ => rfl, rfl⟩

theorem Keeps.of_conns (hconns : s'.conns = s.conns) (hsent : s'.past.sent = s.past.sent)
    (hnext : s'.nextUid = s.nextUid) :
    Keeps cr asks s s' := by
  refine ⟨?_, fun u _ => by rw [hsent], hnext⟩
  rw [hconns, hsent]
  exact Keeps.refl.rows

theorem Keeps.trans (h : Keeps cr asks s s') (h' : Keeps cr asks s' s'') : Keeps cr asks s s'' :=
  Along.comp (fun _ _ _ _ hkept => hkept.wrote.uid)
    (fun _ _ _ _ _ _ h₁ h₂ => ⟨h₁.wrote.trans h₂.wrote, h₂.ip.trans h₁.ip,
      fun hdead => h₂.dead (h₁.dead hdead)⟩) h h'

theorem Keeps.writes (h : Keeps cr asks s s') : Writes cr asks s s' := h.imp fun _ _ _ _ hkept => hkept.wrote

theorem Writes.trans (h : Writes cr asks s s') (h' : Writes cr asks s' s'') : Writes cr asks s s'' :=
  Along.comp (fun _ _ _ _ hwrote => hwrote.uid) (fun _ _ _ _ _ _ h₁ h₂ => h₁.trans h₂) h h'

-- An update that leaves the output of its connection alone.
theorem touch_keeps {f : Conn → Conn} (huid : ∀ c, (f c).uid = c.uid) (hip : ∀ c, (f c).ip = c.ip)
    (hdead : ∀ c, c.dead = true → (f c).dead = true) (hout : ∀ c, (f c).out = c.out)
    (hoff : ∀ c, (f c).outOff = c.outOff) :
    Keeps cr asks s (s.modify u f) :=
  modify_along (fun _ _ => .rfl) fun c _ _ => ⟨.of_out (huid c) (hout c) (hoff c), hip c, hdead c⟩

theorem wsSend_keeps (origin : Option Nat) (opcode : Nat) (p : Bytes) :
    Keeps cr asks s (s.wsSend origin u opcode p) := by
  unfold Globals.wsSend
  cases hfind : s.find u with
  | none => exact .refl
  | some d =>
      dsimp only
      split
      · exact .refl
      have hmem : u ∈ s.uids := find_uid hfind ▸ List.mem_map_of_mem (List.mem_of_find?_eq_some hfind)
      refine ⟨Evolves.map fun c hc => ?_,
        fun w hw => Function.update_of_ne (ne_of_mem_of_not_mem hmem hw).symm _ _, rfl⟩
      by_cases hu : c.uid = u
      · rw [if_pos hu, hu]
        rw [show (s.past.queue u origin ⟨opcode, p⟩).sent u = s.past.sent u ++
          framesOf [.frame origin ⟨opcode, p⟩] from
          Function.update_self _ _ _]
        exact ⟨.append (.frame origin ⟨opcode, p⟩) rfl rfl rfl rfl (.inr rfl), rfl, id⟩
      · rw [if_neg hu, show (s.past.queue u origin ⟨opcode, p⟩).sent c.uid =
          s.past.sent c.uid from Function.update_of_ne hu _ _]
        exact .rfl

theorem wsClose_keeps (code : Nat) (reason : String) : Keeps cr asks s (s.wsClose u code reason) :=
  .trans (wsSend_keeps _ _ _) (touch_keeps (fun _ => rfl) (fun _ => rfl) (fun _ => id) (fun _ => rfl) fun _ => rfl)

theorem unpair_keeps (p : Nat) : Keeps cr asks s (s.unpair u p) :=
  .trans (touch_keeps (f := fun c => { c with peer := none }) (fun _ => rfl) (fun _ => rfl) (fun _ => id)
    (fun _ => rfl) fun _ => rfl)
    (touch_keeps (f := fun c => { c with peer := none }) (fun _ => rfl) (fun _ => rfl) (fun _ => id)
      (fun _ => rfl) fun _ => rfl)

theorem dropControl_keeps (c : Conn) : Keeps cr asks s (s.dropControl c) := by
  unfold Globals.dropControl
  cases s.hosts c.id with
  | none => exact .refl
  | some h =>
      dsimp only
      split
      · exact .of_conns rfl rfl rfl
      · exact .refl

theorem killConn_keeps : Keeps cr asks s (s.killConn u) := by
  unfold Globals.killConn
  cases s.find u with
  | none => exact .refl
  | some c =>
      dsimp only
      split
      · exact .refl
      have hdead : Keeps cr asks s (s.modify u fun c => { c with dead := true }) :=
        touch_keeps (fun _ => rfl) (fun _ => rfl) (fun _ _ => rfl) (fun _ => rfl) fun _ => rfl
      have hticket : ∀ t : Globals, Keeps cr asks t (if c.kind = .Viewer ∧
          c.ticket ≠ [] then t.dropTicket c.ticket else t) := by
        intro t
        split
        · exact .of_conns rfl rfl rfl
        · exact .refl
      have hcontrol : ∀ t : Globals, Keeps cr asks t (if c.kind = .HostCtl then t.dropControl c else t) := by
        intro t
        split
        · exact dropControl_keeps c
        · exact .refl
      refine hdead.trans (Keeps.trans ?_ ((hticket _).trans (hcontrol _)))
      cases c.peer with
      | none => exact .refl
      | some p => exact (unpair_keeps p).trans (wsClose_keeps _ _)

theorem handleWsMessage_keeps (m : WsMsg) : Keeps cr asks s (s.handleWsMessage u m) := by
  have hhear : Keeps cr asks s (s.hear u m) := .of_conns rfl rfl rfl
  refine hhear.trans ?_
  unfold Globals.handleWsMessage
  dsimp only
  generalize s.hear u m = s₁
  cases s₁.find u with
  | none => exact .refl
  | some c =>
      dsimp only
      split
      · exact wsSend_keeps _ _ _
      split
      · exact .refl
      split
      · have hecho : Keeps cr asks s₁ (s₁.wsSend none u RD_WS_CLOSE (m.data.take 2)) := wsSend_keeps _ _ _
        have hclosing := hecho.trans (touch_keeps (u := u) (f := fun c => { c with closeAfterFlush := true })
          (fun _ => rfl) (fun _ => rfl) (fun _ => id) (fun _ => rfl) fun _ => rfl)
        cases c.peer with
        | none => exact hclosing
        | some p => exact hclosing.trans ((wsClose_keeps _ _).trans (unpair_keeps p))
      split
      · exact .refl
      cases c.peer with
      | some p => exact wsSend_keeps _ _ _
      | none =>
          dsimp only
          split
          · unfold Globals.holdBack
            split
            · exact killConn_keeps
            · have hheld : Keeps cr asks s₁ (s₁.modify c.uid fun c =>
                  { c with pending := c.pending ++ [m.data], pendingBytes := c.pendingBytes + m.data.length }) :=
                touch_keeps (fun _ => rfl) (fun _ => rfl) (fun _ => id) (fun _ => rfl) fun _ => rfl
              exact hheld.trans (.of_conns rfl rfl rfl)
          · exact .refl

theorem wsLoop_keeps (stopsAtClose : Bool) (fuel : Nat) :
    Keeps cr asks s (Globals.wsLoop stopsAtClose fuel s u).2 := by
  induction fuel generalizing s with
  | zero => exact .refl
  | succ fuel ih =>
      unfold Globals.wsLoop
      cases s.find u with
      | none => exact .refl
      | some c =>
          dsimp only
          split
          · exact .refl
          generalize rdWsNext c.ws c.inn = x
          obtain ⟨w, ws, inn⟩ := x
          have hread : Keeps cr asks s (s.modify u fun c => { c with ws := ws, inn := inn }) :=
            touch_keeps (fun _ => rfl) (fun _ => rfl) (fun _ => id) (fun _ => rfl) fun _ => rfl
          cases w with
          | got m => exact hread.trans ((handleWsMessage_keeps m).trans ih)
          | more => exact hread
          | error => exact hread

end Keeps

section Requests

variable {cr : Crypto} {s : Globals} {u : Nat} {c : Conn}

theorem respond_keeps (x : Response) (io : Io) : Keeps cr (some u) s (s.respond u x io) :=
  modify_along (fun _ _ => .rfl) fun _ _ hu =>
    ⟨.append (.response x io.beyond) rfl rfl rfl (List.append_nil _).symm (.inl (congrArg some hu).symm), rfl, id⟩

theorem acceptUpgrade_out (key : Bytes) : (c.acceptUpgrade cr key).out =
    c.out ++ (Piece.accepted key).bytes cr := by
  unfold Piece.bytes Conn.acceptUpgrade
  simp only [show (Conn.fresh 0).out = [] from rfl, List.nil_append, List.append_assoc]

theorem upgrade_keeps (kind : Kind) (id key : Bytes) : Keeps cr (some u) s (s.upgrade cr u kind id key) := by
  have hmodify : Keeps cr (some u) s (s.modify u fun c => Conn.acceptUpgrade cr { c with
      kind := kind, id := id } key) :=
    modify_along (fun _ _ => .rfl) fun c _ hu =>
      ⟨.append (.accepted key) rfl (acceptUpgrade_out key) rfl (List.append_nil _).symm
        (.inl (congrArg some hu).symm), rfl, fun h => h⟩
  exact hmodify.trans (.of_conns rfl rfl rfl)

theorem retireStale_keeps (id : Bytes) (h : HostEntry) : Keeps cr asks s (s.retireStale id h) := by
  unfold Globals.retireStale
  cases h.ctl with
  | none => exact .refl
  | some old =>
      have hforget : Keeps cr asks s { s with
          hosts := Function.update s.hosts id (some { h with ctl := none }) } := .of_conns rfl rfl rfl
      exact hforget.trans ((wsClose_keeps _ _).trans killConn_keeps)

theorem hostRequest_keeps (target key : Bytes) (io : Io) :
    Keeps cr (some c.uid) s (s.hostRequest cr c target key io).2 := by
  unfold Globals.hostRequest
  dsimp only
  split
  · exact respond_keeps _ _
  split
  · exact respond_keeps _ _
  · generalize (s.hosts (queryParam target "id")).getD ⟨[], none⟩ = h
    have hretired : Keeps cr (some c.uid) s (s.retireStale (queryParam target "id") h) := retireStale_keeps _ _
    generalize s.retireStale (queryParam target "id") h = t at hretired ⊢
    have hentry : ∀ hosts, Keeps cr (some c.uid) t { t with hosts := hosts } := fun _ => .of_conns rfl rfl rfl
    have hlog : ∀ (t : Globals) line, Keeps cr (some c.uid) t (t.log line) := fun _ _ => .of_conns rfl rfl rfl
    exact hretired.trans ((hentry _).trans ((upgrade_keeps _ _ _).trans (hlog _ _)))

theorem wsSends_keeps (origin : Option Nat) (opcode : Nat) (l : List Bytes) :
    Keeps cr asks s (l.foldl (fun s m => s.wsSend origin u opcode m) s) := by
  induction l generalizing s with
  | nil => exact .refl
  | cons m l ih => exact (wsSend_keeps _ _ _).trans ih

theorem dataRequest_keeps (target key : Bytes) (io : Io) :
    Keeps cr (some c.uid) s (s.dataRequest cr c target key io).2 := by
  unfold Globals.dataRequest
  dsimp only
  split
  · next h viewer _ _ =>
      split
      · exact respond_keeps _ _
      · have hdropped : Keeps cr (some c.uid) s (s.dropTicket (queryParam target "ticket")) := .of_conns rfl rfl rfl
        have hticket : ∀ t : Globals, Keeps cr (some c.uid) t (t.modify viewer.uid fun v =>
            { v with ticket := [] }) := fun t =>
          touch_keeps (fun _ => rfl) (fun _ => rfl) (fun _ => id) (fun _ => rfl) fun _ => rfl
        have hupgrade : ∀ t : Globals,
            Keeps cr (some c.uid) t (t.upgrade cr c.uid .HostData (queryParam target "id") key) := fun t =>
          upgrade_keeps _ _ _
        have hpast : ∀ (t : Globals) pairs,
            Keeps cr (some c.uid) t { t with past := { t.past with pairs := pairs } } := fun _ _ =>
          .of_conns rfl rfl rfl
        have hhost : ∀ t : Globals,
            Keeps cr (some c.uid) t (t.modify c.uid fun c => { c with peer := some viewer.uid }) := fun t =>
          touch_keeps (fun _ => rfl) (fun _ => rfl) (fun _ => id) (fun _ => rfl) fun _ => rfl
        have hviewer : ∀ t : Globals, Keeps cr (some c.uid) t (t.modify viewer.uid fun v =>
            { v with peer := some c.uid }) := fun t =>
          touch_keeps (fun _ => rfl) (fun _ => rfl) (fun _ => id) (fun _ => rfl) fun _ => rfl
        have hsent : ∀ t : Globals, Keeps cr (some c.uid) t (t.modify viewer.uid fun v =>
            { v with pending := [], pendingBytes := 0 }) := fun t =>
          touch_keeps (fun _ => rfl) (fun _ => rfl) (fun _ => id) (fun _ => rfl) fun _ => rfl
        exact hdropped.trans ((hticket _).trans ((hupgrade _).trans ((hhost _).trans ((hviewer _).trans
          ((hpast _ _).trans ((wsSends_keeps _ _ _).trans (hsent _)))))))
  · exact respond_keeps _ _

theorem viewerRequest_keeps (path key : Bytes) (io : Io) :
    Keeps cr (some c.uid) s (s.viewerRequest cr c path key io).2 := by
  unfold Globals.viewerRequest
  dsimp only
  have hupgrade : Keeps cr (some c.uid) s (s.upgrade cr c.uid .Viewer (path.drop 3) key) := upgrade_keeps _ _ _
  generalize s.upgrade cr c.uid .Viewer (path.drop 3) key = t at hupgrade ⊢
  split
  · exact hupgrade.trans (wsClose_keeps _ _)
  · have hticket : Keeps cr (some c.uid) t (t.modify c.uid fun c => { c with ticket := io.ticket }) :=
      touch_keeps (fun _ => rfl) (fun _ => rfl) (fun _ => id) (fun _ => rfl) fun _ => rfl
    have hissued : ∀ (t : Globals) tickets issued,
        Keeps cr (some c.uid) t { t with tickets := tickets, past := { t.past with issued := issued } } :=
          fun _ _ _ =>
      .of_conns rfl rfl rfl
    exact hupgrade.trans (hticket.trans ((hissued _ _ _).trans (wsSend_keeps _ _ _)))

theorem handleRequest_keeps (cr : Crypto) (r : Request) (io : Io) :
    Keeps cr (some c.uid) s (s.handleRequest cr c r io).2 := by
  unfold Globals.handleRequest
  cases r.key with
  | none =>
      dsimp only
      split
      · exact respond_keeps _ _
      split
      · exact respond_keeps _ _
      · unfold Globals.serveStatic
        split
        · exact respond_keeps _ _
        · exact .of_conns rfl rfl rfl
  | some key =>
      dsimp only
      split
      · exact hostRequest_keeps _ _ _
      split
      · exact dataRequest_keeps _ _ _
      split
      · exact viewerRequest_keeps _ _ _
      · exact respond_keeps _ _

-- Only the request itself moves the connection.
theorem handleHttp_keeps (cr : Crypto) (io : Io) (hc : s.find u = some c) :
    Keeps cr (some u) s (s.handleHttp cr u io) ∨
    ∃ r rest, c.request = some (r, rest) ∧
      Keeps cr (some u) (s.modify u fun _ => { c with inn := rest, ip := r.ip.getD c.ip })
        (s.handleHttp cr u io) := by
  obtain rfl := find_uid hc
  unfold Globals.handleHttp
  rw [hc]
  dsimp only
  cases hr : c.request with
  | none =>
      refine .inl ?_
      dsimp only
      split
      · exact respond_keeps _ _
      · exact .refl
  | some q =>
      obtain ⟨r, rest⟩ := q
      refine .inr ⟨r, rest, rfl, ?_⟩
      dsimp only
      have hserved := handleRequest_keeps cr (s := s.modify c.uid fun _ =>
          { c with inn := rest, ip := r.ip.getD c.ip })
        (c := { c with inn := rest, ip := r.ip.getD c.ip }) r io
      split
      · exact hserved.trans (wsLoop_keeps _ _)
      · exact hserved

end Requests

-- The connection that handle_http may answer: its input is still HTTP.
def Globals.answered (s : Globals) (u : Nat) : Option Nat :=
    if (s.find u).any (·.kind = .Http) then some u else none

section Steps

variable {cr : Crypto} {asks : Option Nat} {s s' : Globals} {u : Nat} {c : Conn}

theorem unsent_clear (h : c.pendingOut = 0) : c.unsent = [] := List.drop_of_length_le (Nat.sub_eq_zero_iff_le.mp h)

theorem flush_keeps (cr : Crypto) (hdistinct : s.uids.Nodup) (answers : List SockAnswer) :
    Keeps cr none s (s.flush u answers) := by
  unfold Globals.flush
  cases hc : s.find u with
  | none => exact .refl
  | some c =>
      obtain rfl := find_uid hc
      obtain ⟨-, hle, -⟩ := Lib.Writer.drain_spec link_inOrder answers none (c.out.drop c.outOff) (owes_none _)
      rw [List.length_drop] at hle
      dsimp only
      generalize (link.drain answers none (c.out.drop c.outOff)).count = n at hle ⊢
      have hdrained : Keeps cr none s (s.modify c.uid fun _ => { c with outOff := c.outOff + n }) :=
        modify_along (fun _ _ => .rfl) fun d hd huid => by
          obtain rfl := row_unique Conn.uid hdistinct hd (List.mem_of_find?_eq_some hc) huid
          refine ⟨.handed rfl (fun hroom => ?_) n List.drop_drop.symm, rfl, id⟩
          dsimp only
          omega
      have hrow : ∀ d ∈ (s.modify c.uid fun _ => { c with outOff := c.outOff + n }).conns, d.uid = c.uid →
          d = { c with outOff := c.outOff + n } := by
        intro d hd huid
        obtain ⟨d₀, -, rfl⟩ := List.mem_map.mp hd
        by_cases h : d₀.uid = c.uid
        · rw [if_pos h]
        · rw [if_neg h] at huid
          exact absurd huid h
      generalize (s.modify c.uid fun _ => { c with outOff := c.outOff + n }) = t at hdrained hrow ⊢
      split
      · exact hdrained.trans killConn_keeps
      split
      · next hempty =>
          have hcleared : Keeps cr none t (t.modify c.uid fun c => { c with out := [], outOff := 0 }) :=
            modify_along (fun _ _ => .rfl) fun d hd huid => by
              rw [hrow d hd huid]
              exact ⟨.handed rfl (fun _ => Nat.le_refl 0) 0 (unsent_clear hempty).symm, rfl, id⟩
          split
          · exact hdrained.trans (hcleared.trans killConn_keeps)
          · exact hdrained.trans hcleared
      split
      · next hfull _ =>
          refine hdrained.trans (modify_along (fun _ _ => .rfl) fun d hd huid => ?_)
          rw [hrow d hd huid]
          refine ⟨.handed rfl (fun _ => Nat.zero_le _) 0 ?_, rfl, id⟩
          have hleft : ¬ c.outOff + n ≥ c.out.length := fun h => hfull (Nat.sub_eq_zero_of_le h)
          unfold Conn.unsent rdBufConsume
          dsimp only
          rw [if_neg hleft]
      · exact hdrained

theorem expire_keeps (now : Nat) : Keeps cr asks s (s.expire c now) := by
  unfold Globals.expire
  split
  · exact killConn_keeps
  split
  · exact wsClose_keeps _ _
  split
  · exact killConn_keeps
  split
  · have hpinged : Keeps cr asks s (s.modify c.uid fun c => { c with lastPingUs := now }) :=
      touch_keeps (fun _ => rfl) (fun _ => rfl) (fun _ => id) (fun _ => rfl) fun _ => rfl
    exact hpinged.trans (wsSend_keeps _ _ _)
  · exact .refl

theorem sweep_keeps (cr : Crypto) (hdistinct : s.uids.Nodup) (now : Nat) (answers : List SockAnswer) :
    Keeps cr none s (s.sweep u now answers) := by
  unfold Globals.sweep
  cases s.find u with
  | none => exact .refl
  | some c =>
      dsimp only
      have hexpired : Keeps cr none s (s.expire c now) := expire_keeps now
      split
      · exact .refl
      split
      · exact hexpired.trans (flush_keeps cr (hexpired.uids ▸ hdistinct) answers)
      · exact hexpired

-- A connection that reads a request goes to the address that its headers name.
theorem readConn_keeps (cr : Crypto) (data : Bytes) (closed : Bool) (io : Io) :
    Keeps cr (s.answered u) s (s.readConn cr u data closed io) ∨
    ∃ c c₁ c' t r rest, s.find u = some c ∧ c.kind = .Http ∧ closed = false ∧
      { c with inn := c.inn ++ data }.request = some (r, rest) ∧
      t.find u = some c₁ ∧ c₁.ip = c.ip ∧ c₁.dead = c.dead ∧ c'.ip = r.ip.getD c.ip ∧
      (c'.uid = c₁.uid ∧ c'.out = c₁.out ∧ c'.outOff = c₁.outOff) ∧
      Keeps cr (s.answered u) s t ∧
        Keeps cr (s.answered u) (t.modify u fun _ => c') (s.readConn cr u data closed io) := by
  unfold Globals.readConn Globals.answered
  cases hc : s.find u with
  | none => exact .inl .refl
  | some c =>
      simp only [Option.any_some, decide_eq_true_eq]
      have hread : ∀ asks, Keeps cr asks s (s.modify u fun c =>
          { c with inn := c.inn ++ data, lastRxUs := if data = [] then c.lastRxUs else io.now }) := fun _ =>
        touch_keeps (fun _ => rfl) (fun _ => rfl) (fun _ => id) (fun _ => rfl) fun _ => rfl
      have hfind : (s.modify u fun c =>
          { c with inn := c.inn ++ data, lastRxUs := if data = [] then c.lastRxUs else io.now }).find u =
          some { c with inn := c.inn ++ data, lastRxUs := if data = [] then c.lastRxUs else io.now } := by
        rw [find_modify, if_pos rfl, hc]
        · rfl
        · exact fun _ h => h
      generalize s.modify u (fun c =>
        { c with inn := c.inn ++ data, lastRxUs := if data = [] then c.lastRxUs else io.now }) = t at hread hfind ⊢
      by_cases hkind : c.kind = .Http
      · rw [if_pos hkind, if_pos hkind]
        cases hclosed : closed with
        | true => exact .inl ((hread _).trans killConn_keeps)
        | false =>
            obtain hkeeps | ⟨r, rest, hr, hkeeps⟩ := handleHttp_keeps cr io hfind
            · exact .inl ((hread _).trans hkeeps)
            · refine .inr ⟨c, _, _, t, r, rest, rfl, hkind, rfl, hr, hfind, rfl, rfl, ?_, ?_, hread _, hkeeps⟩
              · rfl
              · exact ⟨rfl, rfl, rfl⟩
      · rw [if_neg hkind, if_neg hkind]
        refine .inl ((hread _).trans ?_)
        have hreceived : ∀ asks, Keeps cr asks t { t with
            past := { t.past with received := Function.update t.past.received u (t.past.received u ++ data) }
              } := fun _ =>
          .of_conns rfl rfl rfl
        split
        · exact (hreceived _).trans ((wsLoop_keeps _ _).trans killConn_keeps)
        · exact (hreceived _).trans (wsLoop_keeps _ _)

theorem readConn_writes (cr : Crypto) (hdistinct : s.uids.Nodup) (data : Bytes) (closed : Bool) (io : Io) :
    Writes cr (s.answered u) s (s.readConn cr u data closed io) := by
  obtain hkeeps | ⟨c, c₁, c', t, r, rest, -, -, -, -, hc₁, -, -, -, ⟨huid, hout, hoff⟩, hread, hserved⟩ :=
    readConn_keeps (s := s) (u := u) cr data closed io
  · exact hkeeps.writes
  · have hmoved : Writes cr (s.answered u) t (t.modify u fun _ => c') :=
      modify_along (fun _ _ => .of_out rfl rfl rfl) fun d hd hduid => by
        obtain rfl := row_unique Conn.uid (show t.uids.Nodup from hread.uids ▸ hdistinct) hd
            (List.mem_of_find?_eq_some hc₁)
          (hduid.trans (find_uid hc₁).symm)
        exact .of_out huid hout hoff
    exact hread.writes.trans (hmoved.trans hserved.writes)

end Steps

section Runs

variable {cr : Crypto} {s : Globals} {past : List (Globals × Event)}

-- What has been written to a connection: the bytes handed to the socket and those that
-- are not are one sequence of HTTP answers and frames, and the frames are those that
-- its history lists.
def Globals.Framed (cr : Crypto) (s : Globals) (c : Conn) : Prop :=
  c.outOff ≤ c.out.length ∧ ∃ flushed pieces, flushed ++ c.unsent = written cr pieces ∧
    s.past.sent c.uid = framesOf pieces

theorem Writes.framed {asks : Option Nat} {s' : Globals} (h : Writes cr asks s s')
    (hframed : ∀ c ∈ s.conns, s.Framed cr c) :
    ∀ c' ∈ s'.conns, s'.Framed cr c' := by
  intro c' hc'
  obtain ⟨c, hc, hwrote⟩ := h.rows.new_row hc'
  obtain ⟨hroom, flushed, pieces, hout, hsent⟩ := hframed c hc
  obtain ⟨flushed', pieces', hout', hsent', -⟩ := hwrote.out hroom
  refine ⟨hwrote.room hroom, flushed ++ flushed', pieces ++ pieces', ?_, ?_⟩
  · rw [List.append_assoc, hout', ← List.append_assoc, hout, written, written, written, List.flatMap_append]
  · rw [hwrote.uid, hsent', hsent, framesOf, framesOf, framesOf, List.filterMap_append]

-- A uid that no connection has had yet.
def Globals.Unused (s : Globals) : Prop := ∀ u, s.nextUid ≤ u → s.past.sent u = []

theorem Writes.unused {asks : Option Nat} {s' : Globals} (h : Writes cr asks s s') (htidy : Tidy s)
    (hunused : s.Unused) :
    s'.Unused := by
  intro u hu
  rw [h.nextUid] at hu
  exact (h.strangers u fun hmem => absurd (htidy.used u hmem) (Nat.not_lt.mpr hu)).trans (hunused u hu)

-- A new connection has nothing to send.
theorem accept_framed (addr : Bytes) (now : Nat) (hunused : s.Unused) (hframed : ∀ c ∈ s.conns, s.Framed cr c) :
    (s.accept addr now).Unused ∧ ∀ c ∈ (s.accept addr now).conns, (s.accept addr now).Framed cr c := by
  unfold Globals.accept
  split
  · exact ⟨hunused, hframed⟩
  · refine ⟨fun u hu => hunused u (Nat.le_of_succ_le hu), fun c hc => ?_⟩
    rcases List.mem_append.mp hc with hc | hc
    · exact hframed c hc
    · rw [List.mem_singleton.mp hc]
      exact ⟨Nat.le_refl 0, [], [], rfl, hunused s.nextUid (Nat.le_refl _)⟩

-- The connection that an event may answer in HTTP.
def Event.answered (s : Globals) : Event → Option Nat
  | .read uid _ _ _ => s.answered uid
  | _ => none

theorem apply_writes (cr : Crypto) (h : s.Sane) (e : Event) :
    (∃ addr now, e = .accept addr now) ∨ e = .reap ∨ Writes cr (e.answered s) s (e.apply cr s) := by
  cases e with
  | accept addr now => exact .inl ⟨addr, now, rfl⟩
  | reap => exact .inr (.inl rfl)
  | read uid data closed io =>
      refine .inr (.inr ?_)
      unfold Event.apply
      dsimp only
      split
      · exact readConn_writes cr h.tidy.distinct data closed io
      · exact Keeps.refl.writes
  | flush uid answers =>
      refine .inr (.inr ?_)
      unfold Event.apply
      dsimp only
      split
      · exact (flush_keeps cr h.tidy.distinct answers).writes
      · exact Keeps.refl.writes
  | sweep uid now answers => exact .inr (.inr (sweep_keeps cr h.tidy.distinct now answers).writes)

theorem apply_framed (h : s.Sane) (e : Event) (hunused : s.Unused) (hframed : ∀ c ∈ s.conns, s.Framed cr c) :
    (e.apply cr s).Unused ∧ ∀ c ∈ (e.apply cr s).conns, (e.apply cr s).Framed cr c := by
  obtain ⟨addr, now, rfl⟩ | rfl | hwrites := apply_writes cr h e
  · exact accept_framed addr now hunused hframed
  · exact ⟨hunused, fun c hc => hframed c (List.mem_of_mem_filter hc)⟩
  · exact ⟨hwrites.unused h.tidy hunused, hwrites.framed hframed⟩

theorem relay_output (run : Run (relayRuns cr) past s) : ∀ c ∈ s.conns, s.Framed cr c := by
  refine (run.invariant (fun _ s => s.Sane ∧ s.Unused ∧ ∀ c ∈ s.conns, s.Framed cr c) ?_ ?_).2.2
  · rintro _ ⟨webRoot, rfl⟩
    exact ⟨sane_started webRoot, fun _ _ => rfl, fun c hc => by cases hc⟩
  · rintro _ s e _ ⟨hsane, hunused, hframed⟩ ⟨-, rfl⟩
    exact ⟨hsane.next e, apply_framed hsane e hunused hframed⟩

theorem written_frames {pieces : List Piece} (h : ∀ p ∈ pieces, p.frame?.isSome) :
    written cr pieces = (framesOf pieces).flatMap fun e => rdWsWriteFrame e.2.opcode e.2.data none := by
  induction pieces with
  | nil => rfl
  | cons p pieces ih =>
      obtain ⟨hp, hpieces⟩ := List.forall_mem_cons.mp h
      cases p with
      | frame origin m =>
          rw [written, List.flatMap_cons, ← written, ih hpieces]
          rfl
      | response r beyond => cases hp
      | accepted key => cases hp

theorem answered_ne (htidy : Tidy s) (e : Event) {c : Conn} (hc : c ∈ s.conns) (hkind : c.kind ≠ .Http) :
    e.answered s ≠ some c.uid := by
  unfold Event.answered Globals.answered
  cases e with
  | read uid data closed io =>
      intro h
      dsimp only at h
      split at h
      · next hhttp =>
          rw [Option.some.inj h, find_mem htidy hc, Option.any_some, decide_eq_true_eq] at hhttp
          exact hkind hhttp
      · cases h
  | _ => simp

-- From its upgrade on, the output of a connection gains frames only: those that its
-- history gains in the same event.
theorem upgraded_output (run : Run (relayRuns cr) past s) (e : Event) {c c' : Conn} (hc : c ∈ s.conns)
    (hkind : c.kind ≠ .Http)
    (hc' : c' ∈ (e.apply cr s).conns) (huid : c'.uid = c.uid) :
    ∃ flushed new, (e.apply cr s).past.sent c.uid = s.past.sent c.uid ++ new ∧
      flushed ++ c'.unsent = c.unsent ++ new.flatMap fun e => rdWsWriteFrame e.2.opcode e.2.data none := by
  have hsane : s.Sane := relay_sane run
  have hroom := (relay_output run c hc).1
  have hstays : c' ∈ s.conns → (e.apply cr s).past.sent = s.past.sent →
      ∃ flushed new, (e.apply cr s).past.sent c.uid = s.past.sent c.uid ++ new ∧
        flushed ++ c'.unsent = c.unsent ++ new.flatMap fun e => rdWsWriteFrame e.2.opcode e.2.data none := by
    intro hmem hsent
    obtain rfl := row_unique Conn.uid hsane.tidy.distinct hmem hc huid
    exact ⟨[], [], by rw [hsent, List.append_nil], (List.append_nil _).symm⟩
  obtain ⟨addr, now, rfl⟩ | rfl | hwrites := apply_writes cr hsane e
  · have hnew : (s.accept addr now).conns = s.conns ∨ ∃ d : Conn, d.uid = s.nextUid ∧
        (s.accept addr now).conns = s.conns ++ [d] := by
      unfold Globals.accept
      split
      · exact .inl rfl
      · exact .inr ⟨_, rfl, rfl⟩
    have hsent : (s.accept addr now).past.sent = s.past.sent := by
      unfold Globals.accept
      split <;> rfl
    refine hstays ?_ hsent
    obtain hsame | ⟨d, hd, hconns⟩ := hnew
    · exact hsame ▸ hc'
    · rcases List.mem_append.mp (show c' ∈ s.conns ++ [d] from hconns ▸ hc') with hmem | hmem
      · exact hmem
      · have hused := hsane.tidy.used c.uid (List.mem_map_of_mem hc)
        rw [List.mem_singleton.mp hmem, hd] at huid
        exact absurd huid.symm (Nat.ne_of_lt hused)
  · exact hstays (List.mem_of_mem_filter hc') rfl
  · obtain ⟨d, hd, hwrote⟩ := hwrites.rows.new_row hc'
    obtain rfl := row_unique Conn.uid hsane.tidy.distinct hd hc (hwrote.uid.symm.trans huid)
    obtain ⟨flushed, pieces, hout, hsent, hframes⟩ := hwrote.out hroom
    refine ⟨flushed, framesOf pieces, hsent, ?_⟩
    rw [hout, written_frames (hframes (answered_ne hsane.tidy e hc hkind))]

end Runs

end TetherDesk.Relay
