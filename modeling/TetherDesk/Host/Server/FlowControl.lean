import TetherDesk.Host.Server.Picture
import TetherDesk.Host.Server.Rehearsal

namespace TetherDesk.Host

open TetherDesk.Net TetherDesk.Secure TetherDesk.Lib.Table TetherDesk.Lib.Transition

-- The ids of the frames among some messages.
def frameIds (sent : List Bytes) : List Nat :=
  (sent.filter fun m => byteAt m 0 = UInt8.ofNat RD_S_FRAME).map fun m => rd32 (m.drop 1)

-- The frames not yet acknowledged, oldest first: the last frame_id - acked ones.
def Conn.unacked (c : Conn) : List Nat :=
  (frameIds c.sent).drop ((frameIds c.sent).length - sub32 c.frameId c.acked)

theorem frameIds_append (sent new : List Bytes) : frameIds (sent ++ new) = frameIds sent ++ frameIds new := by
  unfold frameIds
  rw [List.filter_append, List.map_append]

theorem frameIds_frameless {new : List Bytes} (h : ∀ m ∈ new, Frameless m) : frameIds new = [] := by
  unfold frameIds
  rw [List.filter_eq_nil_iff.mpr fun m hm => by simpa using show byteAt m 0 ≠ _ from h m hm, List.map_nil]

theorem frameIds_frame (id : Nat) (full : Bool) (tiles : Nat) (records : Bytes) (hid : id < 2 ^ 32) :
    frameIds [frameMessage id full tiles records] = [id] := by
  have hread := rd32_le32 id (putU8 (if full then RD_FRAME_FULL else 0) ++ putU16 tiles ++ records)
  rw [Nat.mod_eq_of_lt hid] at hread
  unfold frameIds
  rw [List.filter_cons_of_pos (by simp [frameMessage_eq, putU8, byteAt]), List.filter_nil, List.map_singleton]
  simpa [frameMessage_eq, putU8, putU32] using hread

-- Ids count frames modulo 2^32: n frames were sent and the first k are acknowledged,
-- of which at most two are behind.
structure Window (p : Picture) (n k : Nat) : Prop where
  ids : frameIds p.sent = (List.range' 1 n).map (· % 2 ^ 32)
  frameId : p.frameId = n % 2 ^ 32
  acked : p.acked = k % 2 ^ 32
  order : k ≤ n
  flight : n ≤ k + 2

theorem sub32_window {n k : Nat} (horder : k ≤ n) (hflight : n ≤ k + 2) : sub32 (n % 2 ^ 32)
    (k % 2 ^ 32) = n - k := by
  unfold sub32
  omega

theorem toInt32_sub32 {a b : Nat} (ha : a < 2 ^ 32) (hb : b < 2 ^ 32) :
    toInt32 (sub32 a b) = if a ≤ b then (if b - a ≤ 2 ^ 31 then (a : Int) - b else a - b + 2 ^ 32)
      else if a - b < 2 ^ 31 then (a : Int) - b else a - b - 2 ^ 32 := by
  unfold toInt32 sub32
  split_ifs <;> omega

-- An id passes the two comparisons exactly if it is that of a frame in flight.
theorem in_window {n k id : Nat} (horder : k ≤ n) (hflight : n ≤ k + 2) (hid : id < 2 ^ 32) :
    toInt32 (sub32 id (k % 2 ^ 32)) > 0 ∧ toInt32 (sub32 id (n % 2 ^ 32)) ≤ 0 ↔
      ∃ j, k < j ∧ j ≤ n ∧ id = j % 2 ^ 32 := by
  have hk : k % 2 ^ 32 < 2 ^ 32 := Nat.mod_lt _ (Nat.two_pow_pos 32)
  have hn : n % 2 ^ 32 < 2 ^ 32 := Nat.mod_lt _ (Nat.two_pow_pos 32)
  rw [toInt32_sub32 hid hk, toInt32_sub32 hid hn]
  constructor
  · rintro ⟨hbehind, hsent⟩
    by_cases hone : id = (k + 1) % 2 ^ 32
    · refine ⟨k + 1, by omega, ?_, hone⟩
      split_ifs at hbehind hsent <;> omega
    · refine ⟨k + 2, by omega, ?_, ?_⟩
      · split_ifs at hbehind hsent <;> omega
      · split_ifs at hbehind hsent <;> omega
  · rintro ⟨j, hj, hjn, rfl⟩
    constructor
    · split_ifs <;> omega
    · split_ifs <;> omega

-- Acknowledgements move the lower end of the window only.
theorem acks_window {n : Nat} (ids : List Nat) (hids : ∀ id ∈ ids, id < 2 ^ 32) {k : Nat} (horder : k ≤ n)
    (hflight : n ≤ k + 2) :
    ∃ k', k ≤ k' ∧ k' ≤ n ∧ ids.foldl (ackedAfter (n % 2 ^ 32)) (k % 2 ^ 32) = k' % 2 ^ 32 := by
  induction ids generalizing k with
  | nil => exact ⟨k, Nat.le_refl _, horder, rfl⟩
  | cons id ids ih =>
      rw [List.forall_mem_cons] at hids
      rw [List.foldl_cons]
      have hwindow := in_window horder hflight hids.1
      by_cases hin : toInt32 (sub32 id (k % 2 ^ 32)) > 0 ∧ toInt32 (sub32 id (n % 2 ^ 32)) ≤ 0
      · obtain ⟨j, hj, hjn, rfl⟩ := hwindow.mp hin
        obtain ⟨k', hk', hkn, h⟩ := ih hids.2 (k := j) hjn (by omega)
        refine ⟨k', by omega, hkn, ?_⟩
        rw [ackedAfter, if_pos hin, h]
      · obtain ⟨k', hk', hkn, h⟩ := ih hids.2 horder hflight
        refine ⟨k', hk', hkn, ?_⟩
        rw [ackedAfter, if_neg hin, h]

theorem Window.fitted {p : Picture} {n k : Nat} (h : Window p n k) (f : Frame) (info : ScreenInfo) :
    Window (p.fitted f info) n k := by
  unfold Picture.fitted
  split
  · refine ⟨?_, h.frameId, h.acked, h.order, h.flight⟩
    rw [frameIds_append, h.ids, frameIds_frameless (by simpa using displayInfoMsg_frameless info), List.append_nil]
  · exact h

-- A frame is sent only with fewer than two in flight.
theorem Window.drawn {p : Picture} {n k : Nat} (h : Window p n k)
    (hroom : sub32 p.frameId p.acked < kMaxFramesInFlight)
    (f : Frame) (st : Encoded) :
    Window (p.drawn f st) (if st.tiles = 0 then n else n + 1) k := by
  unfold Picture.drawn
  by_cases hnone : st.tiles = 0
  · rw [if_pos hnone, if_pos hnone]
    exact ⟨h.ids, h.frameId, h.acked, h.order, h.flight⟩
  · rw [h.frameId, h.acked, sub32_window h.order h.flight] at hroom
    have hnext : (p.frameId + 1) % 2 ^ 32 = (n + 1) % 2 ^ 32 := by
      rw [h.frameId]
      omega
    have horder := h.order
    rw [if_neg hnone]
    dsimp only
    rw [if_neg hnone]
    unfold kMaxFramesInFlight at hroom
    refine ⟨?_, hnext, h.acked, by omega, by omega⟩
    rw [frameIds_append, h.ids, frameIds_frame _ _ _ _ (Nat.mod_lt _ (Nat.two_pow_pos 32)), hnext,
      List.range'_1_concat,
      List.map_append, List.map_singleton, Nat.add_comm 1 n]

theorem Window.unacked {c : Conn} {n k : Nat} (h : Window c.picture n k) :
    c.unacked = (List.range' (k + 1) (n - k)).map (· % 2 ^ 32) := by
  have hids : frameIds c.sent = _ := h.ids
  have hbehind : sub32 c.frameId c.acked = n - k := by
    have := sub32_window h.order h.flight
    rwa [← h.frameId, ← h.acked] at this
  have horder := h.order
  unfold Conn.unacked
  rw [hbehind, hids, List.length_map, List.length_range', ← List.map_drop, List.drop_range']
  congr 2 <;> omega

-- A step from one window to another: the oldest frames are acknowledged up to the one
-- acked names, and new frames follow the others.
def Advances (c c' : Conn) : Prop :=
  ∃ done new, done ≤ c.unacked.length ∧ c'.acked = (c.unacked.take done).getLastD c.acked ∧
    c'.unacked = c.unacked.drop done ++ new ∧ frameIds c'.sent = frameIds c.sent ++ new

theorem Window.advances {c c' : Conn} {n k n' k' : Nat} (h : Window c.picture n k) (h' : Window c'.picture n' k')
    (hk : k ≤ k') (hkn : k' ≤ n) (hn : n ≤ n') : Advances c c' := by
  have hids : frameIds c.sent = _ := h.ids
  have hids' : frameIds c'.sent = _ := h'.ids
  have hacked : c.acked = _ := h.acked
  have hacked' : c'.acked = _ := h'.acked
  refine ⟨k' - k, (List.range' (n + 1) (n' - n)).map (· % 2 ^ 32), ?_, ?_, ?_, ?_⟩
  · rw [h.unacked, List.length_map, List.length_range']
    omega
  · rw [h.unacked, ← List.map_take, List.take_range'_of_length_ge (by omega), hacked, hacked']
    rcases Nat.eq_zero_or_pos (k' - k) with hzero | hpos
    · rw [hzero, List.range'_zero, List.map_nil, List.getLastD_nil, show k' = k by omega]
    · obtain ⟨j, hj⟩ := Nat.exists_eq_add_one_of_ne_zero hpos.ne'
      rw [hj, List.range'_1_concat, List.map_append, List.map_singleton, List.getLastD_concat]
      congr 1
      omega
  · rw [h.unacked, h'.unacked, ← List.map_drop, List.drop_range', ← List.map_append]
    have hmore := @List.range'_append_1 (k' + 1) (n - k') (n' - n)
    rw [show k' + 1 + (n - k') = n + 1 by omega, show n - k' + (n' - n) = n' - k' by omega] at hmore
    rw [show k + 1 + (k' - k) * 1 = k' + 1 by omega, show n - k - (k' - k) = n - k' by omega, hmore]
  · have hmore := @List.range'_append_1 1 n (n' - n)
    rw [Nat.add_comm 1 n, show n + (n' - n) = n' by omega] at hmore
    rw [hids, hids', ← List.map_append, hmore]

-- What one step preserves.
theorem Told.window {σ : Type} {e : ServerEvent σ} {c c' : Conn} {n k : Nat} (h : Window c.picture n k)
    (htold : Told e c c') :
    ∃ n' k', k ≤ k' ∧ k' ≤ n ∧ n ≤ n' ∧ Window c'.picture n' k' := by
  cases htold.repainted with
  | tended new sent frameless plain screen =>
      obtain ⟨ids, hids, hacked⟩ := screen.acked
      obtain ⟨k', hk, hkn, hfold⟩ := acks_window ids hids h.order h.flight
      have hflight := h.flight
      refine ⟨n, k', hk, hkn, Nat.le_refl n, ⟨?_, screen.frameId.trans h.frameId, ?_, hkn, by omega⟩⟩
      · have hids : frameIds c.sent = _ := h.ids
        change frameIds c'.sent = _
        rw [sent, frameIds_append, frameIds_frameless frameless, List.append_nil, hids]
      · have hfrom : c.frameId = _ := h.frameId
        have hbase : c.acked = _ := h.acked
        rw [hfrom, hbase] at hacked
        exact hacked.trans hfold
  | pumped f now schedule io event alive before info after =>
      cases after with
      | skipped frame after => exact ⟨n, k, Nat.le_refl k, h.order, Nat.le_refl n, after ▸ h⟩
      | fitted g frame after => exact ⟨n, k, Nat.le_refl k, h.order, Nat.le_refl n, after ▸ h.fitted g info⟩
      | drawn g frame window quality budget threads schedule st encoded after =>
          have hfit := h.fitted g info
          have hroom := window
          rw [h.frameId, h.acked, ← hfit.frameId, ← hfit.acked] at hroom
          refine ⟨_, k, Nat.le_refl k, h.order, ?_, after ▸ hfit.drawn hroom g st⟩
          split <;> omega

section

variable {σ : Type} (cr : Crypto) (plat : Platform σ) {past : List (Server σ × ServerEvent σ)} {s : Server σ}

theorem run_window (run : Run (serverRuns cr plat) past s) : ∀ c ∈ s.conns, ∃ n k, Window c.picture n k := by
  refine rows_run cr plat run (fun _ _ => True) (fun _ c => ∃ n k, Window c.picture n k) ?_ ?_ fun _ _ => trivial
  · rintro past s e c - c' hrow ⟨n, k, h⟩ -
    obtain ⟨n', k', -, -, -, h'⟩ := hrow.told.window h
    exact ⟨n', k', h'⟩
  · intro past c hnew
    have hscreen := hnew.screen
    have hsent : c.picture.sent = [] := hnew.queued
    refine ⟨0, 0, ⟨?_, ?_, ?_, Nat.le_refl 0, Nat.zero_le 2⟩⟩
    · rw [hsent]
      rfl
    · exact congrArg Screen.frameId hscreen
    · exact congrArg Screen.acked hscreen

-- Frame flow control.
theorem frame_flow_control (run : Run (serverRuns cr plat) past s) (c : Conn) (hc : c ∈ s.conns) :
    (sub32 c.frameId c.acked ≤ 2 ∧ c.unacked.length = sub32 c.frameId c.acked) ∧
    (∀ id < 2 ^ 32, id ∉ c.unacked → c.frameAck id = c) ∧
    (∀ id ∈ c.unacked, c.frameAck id = { c with acked := id }) ∧
    ∀ (e : ServerEvent σ) (t : Server σ), e.apply cr plat s = some t → ∀ c' ∈ t.conns, c'.uid = c.uid →
        Advances c c' := by
  obtain ⟨n, k, h⟩ := run_window cr plat run c hc
  have hfrom : c.frameId = _ := h.frameId
  have hbase : c.acked = _ := h.acked
  have hflight := h.flight
  have hmem : ∀ id, id ∈ c.unacked ↔ ∃ j, k < j ∧ j ≤ n ∧ id = j % 2 ^ 32 := by
    intro id
    rw [h.unacked, List.mem_map]
    constructor
    · rintro ⟨j, hj, rfl⟩
      rw [List.mem_range'_1] at hj
      exact ⟨j, by omega, by omega, rfl⟩
    · rintro ⟨j, hj, hjn, rfl⟩
      exact ⟨j, List.mem_range'_1.mpr (by omega), rfl⟩
  refine ⟨?_, fun id hid hout => ?_, fun id hin => ?_, fun e t happly c' hc' huid => ?_⟩
  · rw [hfrom, hbase, sub32_window h.order h.flight, h.unacked, List.length_map, List.length_range']
    exact ⟨by omega, rfl⟩
  · unfold Conn.frameAck
    rw [hfrom, hbase, if_neg fun hwindow => hout ((hmem id).mpr ((in_window h.order h.flight hid).mp hwindow))]
  · obtain ⟨j, hj, hjn, rfl⟩ := (hmem id).mp hin
    have hid : j % 2 ^ 32 < 2 ^ 32 := Nat.mod_lt _ (Nat.two_pow_pos 32)
    unfold Conn.frameAck
    rw [hfrom, hbase, if_pos ((in_window h.order h.flight hid).mpr ⟨j, hj, hjn, rfl⟩)]
  · have htidy := tidy_run cr plat run
    have hrow := (apply_steps cr plat htidy happly).row cr htidy hc hc' huid
    obtain ⟨n', k', hk, hkn, hn, h'⟩ := hrow.told.window h
    exact h.advances h' hk hkn hn

end

-- Two frames are in flight; the newer one is acknowledged first.
theorem frame_flow_control_two_frames :
    ∃ (past : List (Server Desk × ServerEvent Desk)) (s : Server Desk) (c : Conn),
      Run (serverRuns reference deskPlatform) past s ∧ c ∈ s.conns ∧ c.unacked = [1, 2] ∧
      c.frameAck 2 = { c with acked := 2 } ∧ c.frameAck 3 = c := by
  have hrows : ((deskHost false (loginEvents 0 "Ann" ++
      [.pump 0 (some ⟨1, 1, 4, 1, [1, 2, 3, 255]⟩) 100000 [0, 0, 0] deskIo,
        .pump 0 (some ⟨1, 1, 4, 2, [4, 5, 6, 255]⟩) 200000 [0, 0, 0] deskIo])).map fun s =>
      s.conns.map fun c => c.unacked) = some [[1, 2]] := by
    unfold deskHost deskRun loginEvents sealedEvents
    rw [← rehearsed_eq]
    decide +kernel
  obtain ⟨s, hs, hrows⟩ := Option.map_eq_some_iff.mp hrows
  obtain ⟨c, hc, hunacked⟩ := List.map_eq_singleton_iff.mp hrows
  obtain ⟨past, hrun, -⟩ := deskHost_run hs
  have hmem : c ∈ s.conns := by simp [hc]
  obtain ⟨-, hout, hin, -⟩ := frame_flow_control reference deskPlatform hrun c hmem
  exact ⟨past, s, c, hrun, hmem, hunacked, hin 2 (by simp [hunacked]), hout 3 (by decide) (by simp [hunacked])⟩

end TetherDesk.Host
