import TetherDesk.Digits
import TetherDesk.Host.Server.Authentication
import TetherDesk.Host.Server.Rehearsal

namespace TetherDesk.Host

open TetherDesk.Net TetherDesk.Secure TetherDesk.Lib.Table TetherDesk.Lib.Transition

-- The two commands that name a viewer.
inductive Order
  | kick
  | viewonly
deriving DecidableEq

def Order.command : Order → Bytes
  | kick => ascii "/kick"
  | viewonly => ascii "/viewonly"

def Order.line (o : Order) (name : Bytes) : Bytes := o.command ++ 32 :: name

-- What an order can change about a connection, and what it makes of it.
def Conn.standing (c : Conn) : Nat × State × Bool × Bool := (c.uid, c.state, c.closeAfterFlush, c.viewOnly)

def Order.applied (o : Order) (c : Conn) : Nat × State × Bool × Bool :=
  match o with
  | kick => (c.uid, .Closing, true, c.viewOnly)
  | viewonly => (c.uid, c.state, c.closeAfterFlush, !c.viewOnly)

variable {σ : Type} (cr : Crypto) (plat : Platform σ) (s t : Server σ) {c v : Conn} {io : Io}

def Server.standings (s : Server σ) : List (Nat × State × Bool × Bool) := s.conns.map Conn.standing

-- The order changes this viewer and nobody else.
def Order.Hits (o : Order) (s t : Server σ) (v : Conn) : Prop :=
  t.standings = s.conns.map fun c => if c.uid = v.uid then o.applied c else c.standing

-- The connections that find_viewer comes to first.
def Server.before (s : Server σ) (v : Conn) : List Conn := s.conns.takeWhile (·.uid ≠ v.uid)

section Words

theorem decimal_digits (n : Nat) : ∀ ch ∈ decimal n, isDigitByte ch := repr_digits n

theorem decimal_injective {m n : Nat} (h : decimal m = decimal n) : m = n := by
  have hvalue := congrArg (List.foldl (fun (acc : Int) (c : UInt8) => acc * 10 + (c.toNat - 48 : Nat)) 0) h
  unfold decimal at hvalue
  rwa [Nat.toString_eq_repr, Nat.toString_eq_repr, digits_repr, digits_repr, Nat.cast_inj] at hvalue

theorem decimal_length {n : Nat} (h : n < 2 ^ 32) : (decimal n).length ≤ 10 := by
  unfold decimal ascii
  rw [List.length_map, String.length_toList]
  exact Nat.repr_length _ _ (by decide) (h.trans (by decide))

theorem cleanText_clean {text : Bytes} {n : Nat} (hclean : ∀ ch ∈ text, 32 ≤ ch ∧ ch ≠ 127)
    (hlen : text.length ≤ n) :
    cleanText text n = text := by
  unfold cleanText
  rw [List.filter_eq_self.mpr (fun ch hch => decide_eq_true (hclean ch hch)), List.take_of_length_le hlen]

set_option maxRecDepth 2000 in
theorem Order.line_clean (o : Order) {n : Nat} (h : n < 2 ^ 32) : cleanText (o.line (decimal n)) 1000 =
    o.line (decimal n) := by
  have hword : ∀ ch ∈ o.command, 32 ≤ ch ∧ ch ≠ 127 := by cases o <;> decide
  refine cleanText_clean (fun ch hch => ?_) ?_
  · rcases List.mem_append.mp hch with hch | hch
    · exact hword ch hch
    · rcases List.mem_cons.mp hch with rfl | hch
      · decide
      · obtain ⟨hlow, hhigh⟩ := decimal_digits n ch hch
        refine ⟨UInt8.le_trans (by decide) hlow, fun he => ?_⟩
        rw [he] at hhigh
        exact absurd hhigh (by decide)
  · have hlen := decimal_length h
    have hcommand : o.command.length ≤ 9 := by cases o <;> decide
    unfold Order.line
    rw [List.length_append, List.length_cons]
    omega

set_option maxRecDepth 2000 in
theorem Order.line_split (o : Order) (name : Bytes) : splitCommand (o.line name) = (o.command, name) := by
  have hword : ∀ ch ∈ o.command, decide (ch ≠ 32) = true := by cases o <;> decide
  have htake : (o.line name).takeWhile (· ≠ 32) = o.command := by
    unfold Order.line
    rw [List.takeWhile_append_of_pos hword, List.takeWhile_cons_of_neg (by simp), List.append_nil]
  unfold splitCommand
  rw [htake, Order.line]
  simp

end Words

section Standing

theorem sendMsg_standing (c : Conn) (msg mask : Bytes) : (c.sendMsg cr msg mask).standing = c.standing := by
  cases hdead : c.dead with
  | true => rw [Conn.sendMsg_dead cr c msg mask hdead]
  | false =>
      obtain ⟨out, sendCtr, hsent⟩ := Conn.sendMsg_alive cr c msg mask hdead
      rw [hsent]
      rfl

theorem broadcast_standings (msg : Bytes) (skip : Option Nat) (controlOnly : Bool) (mask : Nat → Bytes) :
    (s.broadcast cr msg skip controlOnly mask).standings = s.standings := by
  unfold Server.standings Server.broadcast
  rw [List.map_map]
  refine List.map_congr_left fun c _ => ?_
  dsimp only [Function.comp_apply]
  split
  · exact sendMsg_standing cr c msg (mask c.uid)
  · rfl

theorem sendTo_standings (uid : Nat) (msg mask : Bytes) : (s.sendTo cr uid msg mask).standings = s.standings := by
  unfold Server.standings Server.sendTo Server.modify
  rw [List.map_map]
  refine List.map_congr_left fun c _ => ?_
  dsimp only [Function.comp_apply]
  split
  · exact sendMsg_standing cr c msg mask
  · rfl

theorem kick_hits (c : Conn) (io : Io) : Order.kick.Hits s (s.kick cr c io) c := by
  unfold Order.Hits Server.standings Server.kick Server.log Server.modify
  rw [List.map_map]
  refine List.map_congr_left fun d _ => ?_
  dsimp only [Function.comp_apply]
  split
  · have hsent := sendMsg_standing cr d (noticeMsg (ascii "The host disconnected you")) (io.mask 0 d.uid)
    exact congrArg (fun p : Nat × State × Bool × Bool => (p.1, State.Closing, true, p.2.2.2)) hsent
  · rfl

theorem toggle_hits (hrow : ∀ d ∈ s.conns, d.uid = c.uid → d = c) (io : Io) :
    Order.viewonly.Hits s (s.toggleViewOnly cr plat c io) c := by
  have hturned : (s.modify c.uid fun d => { d with viewOnly := !c.viewOnly }).standings =
      s.conns.map fun d => if d.uid = c.uid then Order.viewonly.applied d else d.standing := by
    unfold Server.standings Server.modify
    rw [List.map_map]
    refine List.map_congr_left fun d hd => ?_
    dsimp only [Function.comp_apply]
    split
    · next huid => rw [hrow d hd huid]; rfl
    · rfl
  rw [Order.Hits, ← hturned]
  unfold Server.toggleViewOnly
  dsimp only
  generalize s.modify c.uid (fun d => { d with viewOnly := !c.viewOnly }) = s₁
  have hrelease : (if (!c.viewOnly) = true ∧ c.sentInput = true then
      { s₁ with os := plat.input.releaseAll s₁.os } else s₁).standings = s₁.standings := by
    split <;> rfl
  exact (broadcast_standings cr _ _ _ _ _).trans ((sendTo_standings cr _ _ _ _).trans hrelease)

end Standing

section Find

-- The first of the viewers that answer to an id: the one with the id, unless a name in
-- front of it reads the same.
theorem findViewer_by_id (htidy : s.Tidy) (hids : ∀ c ∈ s.conns, c.live = true → c.id = v.id → c = v)
    (hv : v ∈ s.conns)
    (hlive : v.live = true) :
    ∃ w ∈ s.conns, s.findViewer (decimal v.id) = some w ∧
      (w = v ↔ ∀ c ∈ s.before v, c.live = true → c.name ≠ decimal v.id) := by
  obtain ⟨pre, post, hsplit⟩ := List.append_of_mem hv
  have hother : ∀ c ∈ pre, c.uid ≠ v.uid := by
    have hdistinct := htidy.distinct
    rw [hsplit, List.map_append, List.map_cons, List.nodup_append] at hdistinct
    exact fun c hc huid => hdistinct.2.2 _ (List.mem_map_of_mem hc) _ List.mem_cons_self huid
  have hbefore : s.before v = pre := by
    unfold Server.before
    rw [hsplit, List.takeWhile_append_of_pos fun c hc => decide_eq_true (hother c hc),
      List.takeWhile_cons_of_neg (by simp), List.append_nil]
  have hanswers : ∀ c ∈ pre, (c.live && (c.name == decimal v.id || decimal c.id == decimal v.id)) = true ↔
      c.live = true ∧ c.name = decimal v.id := by
    intro c hc
    have hmem : c ∈ s.conns := hsplit ▸ List.mem_append_left _ hc
    have hid : c.live = true → decimal c.id ≠ decimal v.id := fun hclive he =>
      hother c hc (congrArg Conn.uid (hids c hmem hclive (decimal_injective he)))
    simp only [Bool.and_eq_true, Bool.or_eq_true, beq_iff_eq]
    exact and_congr_right fun hclive => or_iff_left (hid hclive)
  unfold Server.findViewer
  rw [hbefore, hsplit, List.find?_append]
  cases hfound : pre.find? fun c => c.live && (c.name == decimal v.id || decimal c.id == decimal v.id) with
  | none =>
      refine ⟨v, List.mem_append_right _ List.mem_cons_self, ?_, iff_of_true rfl fun c hc hclive hname => ?_⟩
      · rw [Option.none_or, List.find?_cons_of_pos (by simp [hlive])]
      · exact List.find?_eq_none.mp hfound c hc ((hanswers c hc).mpr ⟨hclive, hname⟩)
  | some w =>
      have hw := List.mem_of_find?_eq_some hfound
      refine ⟨w, List.mem_append_left _ hw, rfl,
        iff_of_false (fun he => hother w hw (congrArg Conn.uid he)) fun hnone => ?_⟩
      have hyes := List.find?_some hfound
      obtain ⟨hwlive, hname⟩ := (hanswers w hw).mp hyes
      exact hnone w hw hwlive hname

theorem order_handled (o : Order) {n : Nat} (hn : n < 2 ^ 32) {w : Conn} (hfind : s.findViewer (decimal n) = some w)
    (hrow : ∀ d ∈ s.conns, d.uid = w.uid → d = w) (io : Io) :
    o.Hits s (s.handleConsoleLine cr plat (o.line (decimal n)) io) w := by
  unfold Server.handleConsoleLine
  dsimp only
  have hne : o.line (decimal n) ≠ [] := by simp [Order.line]
  rw [o.line_clean hn, o.line_split, if_neg hne]
  dsimp only
  cases o with
  | kick =>
      rw [if_neg (by decide), if_neg (by decide), if_pos (.inl rfl), hfind]
      dsimp only
      rw [if_pos (show Order.kick.command = ascii "/kick" from rfl)]
      exact kick_hits cr s w io
  | viewonly =>
      rw [if_neg (by decide), if_neg (by decide), if_pos (.inr rfl), hfind]
      dsimp only
      rw [if_neg (by decide)]
      exact toggle_hits cr plat s hrow io

-- An order changes whom it hits.
theorem Order.Hits.unique {o : Order} {v w : Conn} {s t : Server σ} (hw : o.Hits s t w) (hv : o.Hits s t v)
    (hmem : v ∈ s.conns)
    (hlive : v.live = true) : w.uid = v.uid := by
  by_contra hne
  have hsame := List.map_inj_left.mp (hw.symm.trans hv) v hmem
  rw [if_neg (Ne.symm hne), if_pos rfl] at hsame
  cases o with
  | kick =>
      have hstate : v.state = .Closing := congrArg (fun p : Nat × State × Bool × Bool => p.2.1) hsame
      rw [(live_active hlive).1] at hstate
      cases hstate
  | viewonly =>
      have hrights : v.viewOnly = !v.viewOnly := congrArg (fun p : Nat × State × Bool × Bool => p.2.2.2) hsame
      simp at hrights

end Find

section Runs

variable {s} {past : List (Server σ × ServerEvent σ)}

theorem order_run (run : Run (serverRuns cr plat) past s) (hlogins : s.logins < 2 ^ 32) (hv : v ∈ s.conns)
    (hlive : v.live = true) (o : Order) (io : Io) :
    o.Hits s (s.handleConsoleLine cr plat (o.line (decimal v.id)) io) v ↔
      ∀ c ∈ s.before v, c.live = true → c.name ≠ decimal v.id := by
  have htidy := tidy_run cr plat run
  have hids := ids_distinct cr plat run hlogins.le
  have hactive := (live_active hlive).1
  obtain ⟨w, hw, hfind, hsame⟩ := findViewer_by_id s htidy
    (fun c hc hclive => hids c hc v hv (live_active hclive).1 hactive) hv hlive
  have hhits := order_handled cr plat s o (id_lt cr plat run v hv hactive) hfind (htidy.row hw) io
  rw [← hsame]
  constructor
  · exact fun hthere => row_unique Conn.uid htidy.distinct hw hv (hhits.unique hthere hv hlive)
  · rintro rfl
    exact hhits

-- An order by id reaches the viewer with that id unless a viewer that is found before it
-- bears the number as its name.
theorem order_by_id (run : Run (serverRuns cr plat) past s) (hlogins : s.logins < 2 ^ 32) :
    ∀ v ∈ s.conns, v.live = true → ∀ o io,
      (Order.Hits o s (s.handleConsoleLine cr plat (o.line (decimal v.id)) io) v ↔
        ∀ c ∈ s.before v, c.live = true → c.name ≠ decimal v.id) :=
  fun _ hv hlive o io => order_run cr plat run hlogins hv hlive o io

end Runs

-- A viewer calls itself 2 and another one gets that number.
theorem two_and_bob : ∃ past s, Run (serverRuns reference deskPlatform) past s ∧ s.logins < 2 ^ 32 ∧
    ∃ c v, s.conns = [c, v] ∧ c.live = true ∧ v.live = true ∧ c.uid ≠ v.uid ∧ c.id = 1 ∧ v.id = 2 ∧
        c.name = ascii "2" := by
  have hrows : ((deskHost false (loginEvents 0 "2" ++ loginEvents 1 "Bob")).map fun s =>
      (decide (s.logins < 2 ^ 32), s.conns.map fun c => (c.live, c.id, c.name))) =
      some (true, [(true, 1, ascii "2"), (true, 2, ascii "Bob")]) := by
    unfold deskHost deskRun loginEvents sealedEvents
    rw [← rehearsed_eq]
    decide +kernel
  obtain ⟨s, hs, hrows⟩ := Option.map_eq_some_iff.mp hrows
  obtain ⟨past, hrun, -⟩ := deskHost_run hs
  simp only [Prod.mk.injEq] at hrows
  obtain ⟨hlogins, hconns⟩ := hrows
  obtain ⟨c, rest, hc, hcrow, hrest⟩ := List.map_eq_cons_iff.mp hconns
  obtain ⟨v, hv, hvrow⟩ := List.map_eq_singleton_iff.mp hrest
  simp only [Prod.mk.injEq] at hcrow hvrow
  have huid : c.uid ≠ v.uid := by
    have hdistinct := (tidy_run reference deskPlatform hrun).distinct
    rw [hc, hv] at hdistinct
    simpa using hdistinct
  exact ⟨past, s, hrun, of_decide_eq_true hlogins, c, v, hv ▸ hc, hcrow.1, hvrow.1, huid, hcrow.2.1,
    hvrow.2.1, hcrow.2.2⟩

theorem order_by_id_first : ∃ (past : List (Server Desk × ServerEvent Desk)) (s : Server Desk) (v : Conn),
    Run (serverRuns reference deskPlatform) past s ∧ v ∈ s.conns ∧ v.live = true ∧ v.id = 1 ∧
      Order.kick.Hits s (s.handleConsoleLine reference deskPlatform (Order.kick.line (decimal 1)) deskIo) v := by
  obtain ⟨past, s, hrun, hlogins, c, v, hconns, hclive, -, -, hid, -, -⟩ := two_and_bob
  have hmem : c ∈ s.conns := hconns ▸ List.mem_cons_self
  have hnone : s.before c = [] := by simp [Server.before, hconns]
  have hhits := (order_by_id reference deskPlatform hrun hlogins c hmem hclive .kick deskIo).mpr (by simp [hnone])
  exact ⟨past, s, c, hrun, hmem, hclive, hid, hid ▸ hhits⟩

theorem order_misses_namesake : ¬ ∀ (past : List (Server Desk × ServerEvent Desk)) (s : Server Desk),
    Run (serverRuns reference deskPlatform) past s → s.logins < 2 ^ 32 → ∀ v ∈ s.conns, v.live = true → ∀ o io,
      Order.Hits o s (s.handleConsoleLine reference deskPlatform (o.line (decimal v.id)) io) v := by
  intro halways
  obtain ⟨past, s, hrun, hlogins, c, v, hconns, hclive, hvlive, huid, -, hid, hname⟩ := two_and_bob
  have hmem : v ∈ s.conns := by simp [hconns]
  have hbefore : c ∈ s.before v := by simp [Server.before, hconns, huid]
  have hhits := halways past s hrun hlogins v hmem hvlive .kick deskIo
  refine (order_run reference deskPlatform hrun hlogins hmem hvlive .kick deskIo).mp hhits c hbefore hclive ?_
  rw [hname, hid]
  rfl

end TetherDesk.Host
