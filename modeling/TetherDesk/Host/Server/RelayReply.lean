import TetherDesk.Host.Server.Runs
import TetherDesk.Net.Http.Theorems
import TetherDesk.Net.Ws.RoundTrip

namespace TetherDesk.Host

open TetherDesk.Net TetherDesk.Secure TetherDesk.Lib.Transition

-- substr(pos), and compare(pos, n, text) == 0; none when std::out_of_range is thrown.
def substrAt (s : Bytes) (pos : Nat) : Option Bytes := if pos ≤ s.length then some (s.drop pos) else none

def compareAt (s : Bytes) (pos n : Nat) (text : Bytes) : Option Bool :=
    (substrAt s pos).map fun rest => rest.take n = text

-- The test of the reply; npos + 2 wraps around to 1.
def replyAcceptedAt (resp wsAccept : Bytes) : Option Bool := do
  let switching ← compareAt resp 0 12 (ascii "HTTP/1.1 101")
  if switching then do
    let headers ← substrAt resp (((findSub crlf resp).map (· + 2)).getD 1)
    some (decide (rdHttpHeader headers "Sec-WebSocket-Accept" 64 = some wsAccept))
  else some false

section Reply

variable {σ : Type} (s : Server σ) (c : Conn)

def Server.refuseRelayAt (resp : Bytes) : Option (Server σ) := do
  let inUse ← if c.relayCtl then compareAt resp 9 3 (ascii "409") else some false
  let s := if inUse then s.log (ascii "relay: ID " ++ s.cfg.relayId ++
    ascii " is in use by another computer") else s
  some (s.closeConn c (ascii "relay refused"))

-- finish_relay_upgrade with its accesses to resp.
def Server.finishRelayUpgradeAt : Option (Server σ) :=
  match (findSub headerEnd c.inn).filter (· ≠ 0) with
  | none => some (if c.inn.length > 16384 then s.closeConn c (ascii "bad relay response") else s)
  | some k => do
      let resp := c.inn.take (k + 2)
      let s := s.modify c.uid fun c => { c with inn := rdBufConsume c.inn (k + 4) }
      let accepted ← replyAcceptedAt resp c.wsAccept
      if !accepted then s.refuseRelayAt c resp
      else if c.relayCtl then
        some (({ s with relayOnline := true, relayBackoffUs := 2 * kSecond }.modify c.uid fun c =>
          { c with state := .RelayCtl }).log
          (ascii "relay: online as " ++ s.cfg.relayId ++ ascii " (" ++ s.cfg.relayHost ++
            ascii ") - connect from anywhere with this ID"))
      else some (s.modify c.uid fun c => { c with state := .Hello })

inductive ReplyEnd
  | waiting
  | upgraded
  | closed
  deriving DecidableEq, Repr

-- What t has made of the reply: nothing yet, a link whose input starts behind the header
-- block, or a dead connection.
def Server.Ends (t : Server σ) : ReplyEnd → Prop
  | .waiting => t = s
  | .upgraded => ∃ k c', findSub headerEnd c.inn = some k ∧ (c.inn.take (k + 2)).take 12 = ascii "HTTP/1.1 101" ∧
      (∃ line, findSub crlf (c.inn.take (k + 2)) = some line ∧
        rdHttpHeader ((c.inn.take (k + 2)).drop (line + 2)) "Sec-WebSocket-Accept" 64 = some c.wsAccept) ∧
      t.find c.uid = some c' ∧ c'.dead = false ∧ c'.state = (if c.relayCtl then .RelayCtl else .Hello) ∧
      c'.inn = c.inn.drop (k + 4)
  | .closed => ∃ c', t.find c.uid = some c' ∧ c'.dead = true

-- The header block of a control connection has room for a status code's position.
def Conn.ReplyLong (c : Conn) : Prop := c.relayCtl = true → ∀ k, findSub headerEnd c.inn = some k → k = 0 ∨ 7 ≤ k

end Reply

section Header

variable {inn : Bytes} {k : Nat}

-- The header block ends with the first half of its blank line.
theorem headerBlock_found (h : findSub headerEnd inn = some k) :
    k + 4 ≤ inn.length ∧ (inn.take (k + 2)).length = k + 2 ∧
      ∃ line, findSub crlf (inn.take (k + 2)) = some line ∧ line + 2 ≤ (inn.take (k + 2)).length := by
  obtain ⟨⟨rest, hrest⟩, -⟩ := findSub_some h
  have hlength : k + 4 ≤ inn.length := by
    have := congrArg List.length hrest
    rw [List.length_append, List.length_drop] at this
    have hfour : headerEnd.length = 4 := rfl
    omega
  have hblock : inn.take (k + 2) = inn.take k ++ crlf := by
    rw [List.take_add, ← hrest]
    rfl
  have hfound : (findSub crlf (inn.take (k + 2))).isSome = true := by
    rw [findSub_isSome, hblock]
    exact List.infix_append_right
  obtain ⟨line, hline⟩ := Option.isSome_iff_exists.mp hfound
  refine ⟨hlength, by rw [List.length_take]; omega, line, hline, ?_⟩
  have hat := (findSub_some hline).1.length_le
  rw [List.length_drop] at hat
  have htwo : crlf.length = 2 := rfl
  omega

theorem compareAt_start (s : Bytes) (n : Nat) (text : Bytes) : compareAt s 0 n text =
    some (decide (s.take n = text)) := by
  unfold compareAt substrAt
  rw [if_pos (Nat.zero_le _)]
  rfl

theorem compareAt_inside {s : Bytes} {pos : Nat} (h : pos ≤ s.length) (n : Nat) (text : Bytes) :
    compareAt s pos n text = some (decide ((s.drop pos).take n = text)) := by
  unfold compareAt substrAt
  rw [if_pos h]
  rfl

theorem compareAt_outside {s : Bytes} {pos : Nat} (h : s.length < pos) (n : Nat) (text : Bytes) :
    compareAt s pos n text = none := by
  unfold compareAt substrAt
  rw [if_neg (by omega)]
  rfl

end Header

section Accesses

variable {σ : Type} {s : Server σ} {c : Conn}

theorem replyAcceptedAt_eq {resp wsAccept : Bytes} {line : Nat} (hline : findSub crlf resp = some line)
    (hinside : line + 2 ≤ resp.length) :
    replyAcceptedAt resp wsAccept = some (decide (resp.take 12 = ascii "HTTP/1.1 101" ∧
      rdHttpHeader (resp.drop (line + 2)) "Sec-WebSocket-Accept" 64 = some wsAccept)) := by
  unfold replyAcceptedAt substrAt
  rw [compareAt_start, hline, Option.map_some, Option.getD_some, if_pos hinside]
  by_cases hstatus : resp.take 12 = ascii "HTTP/1.1 101"
  · simp [hstatus]
  · simp [hstatus]

-- The refusal looks for a status code at position 9 of a control connection's reply.
theorem refuseRelayAt_eq (resp : Bytes) : s.refuseRelayAt c resp =
    if c.relayCtl = true ∧ resp.length < 9 then none
    else some ((if c.relayCtl = true ∧ (resp.drop 9).take 3 = ascii "409" then
      s.log (ascii "relay: ID " ++ s.cfg.relayId ++ ascii " is in use by another computer") else s).closeConn c
      (ascii "relay refused")) := by
  unfold Server.refuseRelayAt
  cases c.relayCtl with
  | false => rfl
  | true =>
      rw [if_pos rfl]
      by_cases hshort : resp.length < 9
      · rw [compareAt_outside hshort, if_pos ⟨rfl, hshort⟩]
        rfl
      · rw [compareAt_inside (by omega), if_neg fun h => hshort h.2]
        by_cases hcode : (resp.drop 9).take 3 = ascii "409"
        · simp [hcode]
        · simp [hcode]

-- No access but that one can be outside.
theorem finishRelayUpgradeAt_eq :
    (c.ReplyLong → s.finishRelayUpgradeAt c = some (s.finishRelayUpgrade c)) ∧
    (¬ c.ReplyLong → s.finishRelayUpgradeAt c = none) := by
  unfold Server.finishRelayUpgradeAt Server.finishRelayUpgrade Conn.ReplyLong
  cases hfound : findSub headerEnd c.inn with
  | none =>
      refine ⟨fun _ => rfl, fun h => absurd (fun _ k hk => ?_) h⟩
      cases hk
  | some k =>
      cases k with
      | zero =>
          refine ⟨fun _ => rfl, fun h => absurd (fun _ k hk => ?_) h⟩
          exact .inl (Option.some.inj hk).symm
      | succ k =>
          obtain ⟨-, hlength, line, hline, hinside⟩ := headerBlock_found hfound
          have hfilter : (some (k + 1)).filter (fun k => decide (k ≠ 0)) = some (k + 1) := rfl
          rw [hfilter]
          dsimp only
          rw [replyAcceptedAt_eq hline hinside, hline, Option.getD_some]
          generalize c.inn.take (k + 1 + 2) = resp at hlength hinside ⊢
          generalize (s.modify c.uid fun c => { c with inn := rdBufConsume c.inn (k + 1 + 4) }) = t
          have hlong : (c.relayCtl = true → ∀ j, some (k + 1) = some j → j = 0 ∨ 7 ≤ j) ↔
              ¬ (c.relayCtl = true ∧ resp.length < 9) := by
            rw [hlength]
            refine ⟨fun h hshort => ?_, fun h hctl j hj => ?_⟩
            · have := h hshort.1 _ rfl
              omega
            · obtain rfl := Option.some.inj hj
              by_contra hno
              exact h ⟨hctl, by omega⟩
          rw [hlong]
          by_cases haccepted : resp.take 12 = ascii "HTTP/1.1 101" ∧
              rdHttpHeader (resp.drop (line + 2)) "Sec-WebSocket-Accept" 64 = some c.wsAccept
          · -- an accepted reply is long enough
            have htwelve := congrArg List.length haccepted.1
            rw [List.length_take, show (ascii "HTTP/1.1 101").length = 12 from rfl] at htwelve
            refine ⟨fun _ => ?_, fun h => absurd (fun hshort => by omega) h⟩
            have hok : ¬ (resp.take 12 ≠ ascii "HTTP/1.1 101" ∨
                rdHttpHeader (resp.drop (line + 2)) "Sec-WebSocket-Accept" 64 ≠ some c.wsAccept) := by
              rw [not_or, not_not, not_not]
              exact haccepted
            rw [if_neg hok, decide_eq_true haccepted]
            cases c.relayCtl <;> rfl
          · have hno : resp.take 12 ≠ ascii "HTTP/1.1 101" ∨
                rdHttpHeader (resp.drop (line + 2)) "Sec-WebSocket-Accept" 64 ≠ some c.wsAccept :=
              not_and_or.mp haccepted
            rw [if_pos hno, decide_eq_false haccepted]
            by_cases hshort : c.relayCtl = true ∧ resp.length < 9
            · refine ⟨fun h => absurd hshort h, fun _ => ?_⟩
              exact (refuseRelayAt_eq resp).trans (if_pos hshort)
            · refine ⟨fun _ => ?_, fun h => absurd hshort h⟩
              rw [if_neg hshort]
              exact (refuseRelayAt_eq resp).trans (if_neg hshort)

end Accesses

section Outcome

variable {σ : Type} {s t : Server σ} {c : Conn} {u : Nat}

theorem find_closeConn (reason : Bytes) (halive : c.dead = false) {d : Conn} (hd : s.find c.uid = some d) :
    (s.closeConn c reason).find c.uid = some d.close := by
  have hconns := closeConn_conns s c reason halive
  have hfind : (s.closeConn c reason).find c.uid = (s.modify c.uid Conn.close).find c.uid := by
    unfold Server.find
    rw [hconns]
  rw [hfind]
  exact find_modify (fun _ h => h) hd

-- The three ends exclude each other.
theorem Ends.unique (hc : s.find c.uid = some c) (hstate : c.state = .RelayUpgrade) (halive : c.dead = false)
    {e e' : ReplyEnd} (h : s.Ends c t e) (h' : s.Ends c t e') : e = e' := by
  have hnotClosed : t = s → ¬ s.Ends c t .closed := by
    rintro rfl ⟨c', hc', hdead⟩
    rw [hc, Option.some.injEq] at hc'
    rw [← hc', halive] at hdead
    cases hdead
  have hnotUpgraded : t = s → ¬ s.Ends c t .upgraded := by
    rintro rfl ⟨k, c', -, -, -, hc', -, hnew, -⟩
    rw [hc, Option.some.injEq] at hc'
    rw [← hc', hstate] at hnew
    split at hnew <;> cases hnew
  have hnotBoth : s.Ends c t .closed → ¬ s.Ends c t .upgraded := by
    rintro ⟨d, hd, hdead⟩ ⟨k, c', -, -, -, hc', hlive, -⟩
    rw [hd, Option.some.injEq] at hc'
    rw [← hc', hdead] at hlive
    cases hlive
  cases e with
  | waiting =>
      cases e' with
      | waiting => rfl
      | upgraded => exact absurd h' (hnotUpgraded h)
      | closed => exact absurd h' (hnotClosed h)
  | upgraded =>
      cases e' with
      | waiting => exact absurd h (hnotUpgraded h')
      | upgraded => rfl
      | closed => exact absurd h (hnotBoth h')
  | closed =>
      cases e' with
      | waiting => exact absurd h (hnotClosed h')
      | upgraded => exact absurd h' (hnotBoth h)
      | closed => rfl

theorem finishRelayUpgrade_ends (hc : s.find c.uid = some c) (halive : c.dead = false)
    (hlong : c.ReplyLong) : ∃ e, s.Ends c (s.finishRelayUpgrade c) e := by
  unfold Server.finishRelayUpgrade
  have hclosed : ∀ reason, s.Ends c (s.closeConn c reason) .closed := fun reason =>
    ⟨c.close, find_closeConn reason halive hc, rfl⟩
  cases hfound : findSub headerEnd c.inn with
  | none =>
      have hfilter : (none : Option Nat).filter (fun k => decide (k ≠ 0)) = none := rfl
      rw [hfilter]
      dsimp only
      split
      · exact ⟨.closed, hclosed _⟩
      · exact ⟨.waiting, rfl⟩
  | some k =>
      cases k with
      | zero =>
          have hfilter : (some 0).filter (fun k => decide (k ≠ 0)) = none := rfl
          rw [hfilter]
          dsimp only
          split
          · exact ⟨.closed, hclosed _⟩
          · exact ⟨.waiting, rfl⟩
      | succ k =>
          obtain ⟨-, hlength, line, hline, -⟩ := headerBlock_found hfound
          have hfilter : (some (k + 1)).filter (fun k => decide (k ≠ 0)) = some (k + 1) := rfl
          rw [hfilter]
          dsimp only
          rw [hline, Option.getD_some]
          have hread : (s.modify c.uid fun c => { c with inn := rdBufConsume c.inn (k + 1 + 4) }).find c.uid =
              some { c with inn := rdBufConsume c.inn (k + 1 + 4) } :=
            find_modify (f := fun c => { c with inn := rdBufConsume c.inn (k + 1 + 4) }) (fun _ h => h) hc
          generalize s.modify c.uid (fun c => { c with inn := rdBufConsume c.inn (k + 1 + 4) }) = t at hread ⊢
          by_cases hrefused : (c.inn.take (k + 1 + 2)).take 12 ≠ ascii "HTTP/1.1 101" ∨
              rdHttpHeader ((c.inn.take (k + 1 + 2)).drop (line + 2)) "Sec-WebSocket-Accept" 64 ≠ some c.wsAccept
          · rw [if_pos hrefused]
            have hinside : ¬ (c.relayCtl = true ∧ (c.inn.take (k + 1 + 2)).length < 9) := by
              rintro ⟨hctl, hshort⟩
              have := hlong hctl (k + 1) hfound
              omega
            rw [if_neg hinside]
            refine ⟨.closed, _, find_closeConn (d := { c with inn := rdBufConsume c.inn (k + 1 + 4) }) _
              halive ?_, rfl⟩
            split
            · exact hread
            · exact hread
          · rw [if_neg hrefused]
            rw [not_or, not_not, not_not] at hrefused
            have hrest : rdBufConsume c.inn (k + 1 + 4) = c.inn.drop (k + 1 + 4) := rdBufConsume_eq _ _
            refine ⟨.upgraded, k + 1, { c with inn := rdBufConsume c.inn (k + 1 + 4)
                                               state := if c.relayCtl = true then .RelayCtl else .Hello },
              hfound, hrefused.1, ⟨line, hline, hrefused.2⟩, ?_, halive, rfl, hrest⟩
            by_cases hctl : c.relayCtl = true
            · rw [if_pos hctl, if_pos hctl]
              exact find_modify (s := { t with relayOnline := true, relayBackoffUs := 2 * kSecond })
                (f := fun c => { c with state := .RelayCtl }) (fun _ h => h) hread
            · rw [if_neg hctl, if_neg hctl]
              exact find_modify (f := fun c => { c with state := .Hello }) (fun _ h => h) hread

end Outcome

section Runs

variable {σ : Type} (cr : Crypto) (plat : Platform σ) {past : List (Server σ × ServerEvent σ)}
  {s : Server σ} {c : Conn}

-- Whatever has been received in whatever pieces, the reply is handled in one of three
-- ways exactly when its header block is not too short for the access at position 9.
theorem relay_reply_handled (run : Run (serverRuns cr plat) past s) (hc : c ∈ s.conns)
    (hstate : c.state = .RelayUpgrade)
    (halive : c.dead = false) :
    (∃ t, s.finishRelayUpgradeAt c = some t ∧ t = s.finishRelayUpgrade c ∧ ∃! e, s.Ends c t e) ↔ c.ReplyLong := by
  have hfind : s.find c.uid = some c := Lib.Table.find_row Conn.uid (tidy_run cr plat run).distinct hc
  obtain ⟨hlong, hshort⟩ := finishRelayUpgradeAt_eq (s := s) (c := c)
  refine ⟨?_, fun h => ?_⟩
  · rintro ⟨t, ht, -⟩
    by_contra h
    rw [hshort h] at ht
    cases ht
  · obtain ⟨e, he⟩ := finishRelayUpgrade_ends hfind halive h
    exact ⟨_, hlong h, rfl, e, he, fun e' he' => Ends.unique hfind hstate halive he' he⟩

end Runs

section Replies

def relayDesk : ServerConfig :=
  { deskConfig false with relayHost := ascii "relay.test", relayPort := 80, relayId := ascii "123456789" }

-- The host dials the relay and gets these pieces of a reply.
def replyEvents (pieces : List Bytes) : List (ServerEvent Desk) :=
  [.maintainRelay 0 { deskIo with socket := true }, .tcpReady 0 true none []] ++ pieces.map fun data =>
    .received 0 data 0

def repliedHost (pieces : List Bytes) : Option (Server Desk) :=
  (Server.started deskPlatform relayDesk 0 ⟨none, []⟩).bind fun s => deskRun s (replyEvents pieces)

theorem repliedHost_run {pieces : List Bytes} {s : Server Desk} (h : repliedHost pieces = some s) :
    ∃ past, Run (serverRuns reference deskPlatform) past s := by
  obtain ⟨s₀, h₀, h⟩ := Option.bind_eq_some_iff.mp h
  obtain ⟨past, hrun, -⟩ := deskRun_run (.start ⟨relayDesk, 0, ⟨none, []⟩, h₀⟩) h
  exact ⟨past, hrun⟩

def refusal : List Bytes := [ascii "HTTP/1.1 409 Con", ascii "flict" ++ crlf ++ crlf]

theorem relay_reply_handled_refusal : ∃ past s c t, Run (serverRuns reference deskPlatform) past s ∧ c ∈ s.conns ∧
    c.inn = refusal.flatten ∧ s.finishRelayUpgradeAt c = some t ∧ ∃! e, s.Ends c t e := by
  have hrows : ((repliedHost refusal).map fun s => s.conns.map fun c => (c.state, c.dead, c.inn)) =
      some [(.RelayUpgrade, false, refusal.flatten)] := by decide +kernel
  obtain ⟨s, hs, hrows⟩ := Option.map_eq_some_iff.mp hrows
  obtain ⟨past, hrun⟩ := repliedHost_run hs
  obtain ⟨c, hconns, hrow⟩ := List.map_eq_singleton_iff.mp hrows
  rw [Prod.mk.injEq, Prod.mk.injEq] at hrow
  have hmem : c ∈ s.conns := hconns ▸ List.mem_singleton_self c
  have hlong : c.ReplyLong := fun _ k hk => by
    rw [hrow.2.2, show findSub headerEnd refusal.flatten = some 21 by decide] at hk
    have := Option.some.inj hk
    omega
  obtain ⟨t, ht, -, hends⟩ := (relay_reply_handled reference deskPlatform hrun hmem hrow.1 hrow.2.1).mpr hlong
  exact ⟨past, s, c, t, hrun, hmem, hrow.2.2, ht, hends⟩

-- A reply of two bytes and a blank line: compare(9, 3, ..) throws.
theorem short_reply_throws : ¬ ∀ past s c, Run (serverRuns reference deskPlatform) past s → c ∈ s.conns →
    c.state = .RelayUpgrade → c.dead = false → (s.finishRelayUpgradeAt c).isSome = true := by
  intro h
  have hrows : ((repliedHost [ascii "OK" ++ crlf ++ crlf]).map fun s => s.conns.map fun c =>
      (c.state, c.dead, (s.finishRelayUpgradeAt c).isSome)) =
        some [(.RelayUpgrade, false, false)] := by decide +kernel
  obtain ⟨s, hs, hrows⟩ := Option.map_eq_some_iff.mp hrows
  obtain ⟨past, hrun⟩ := repliedHost_run hs
  obtain ⟨c, hconns, hrow⟩ := List.map_eq_singleton_iff.mp hrows
  rw [Prod.mk.injEq, Prod.mk.injEq] at hrow
  have hsome := h past s c hrun (hconns ▸ List.mem_singleton_self c) hrow.1 hrow.2.1
  rw [hrow.2.2] at hsome
  cases hsome

end Replies

end TetherDesk.Host
