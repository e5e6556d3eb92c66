import TetherDesk.Host.Server.Picture
import TetherDesk.Host.Encoder.Theorems
import TetherDesk.Host.Server.Rehearsal

namespace TetherDesk.Host

open TetherDesk.Net TetherDesk.Secure TetherDesk.Lib TetherDesk.Lib.Table TetherDesk.Lib.Transition

-- The tiles the viewer does not have in full quality.
def Conn.lossy (c : Conn) : Nat := c.tileQ.countP (· ≠ 0)

section Count

theorem range_getD (tq : List UInt8) : (List.range tq.length).map (fun k => tq.getD k 0) = tq := by
  apply List.ext_getElem
  · simp
  · intro i h₁ h₂
    simp [List.getD_eq_getElem?_getD, h₂]

theorem countP_range (tq : List UInt8) :
    tq.countP (· ≠ 0) = (List.range tq.length).countP fun k => tq.getD k 0 ≠ 0 := by
  conv_lhs => rw [← range_getD tq]
  rw [List.countP_map]
  rfl

-- Clearing some entries that are not 0 takes that many off the count.
theorem countP_cleared {tq tq' : List UInt8} (tiles : List Nat) (hlength : tq'.length = tq.length)
    (hnodup : tiles.Nodup)
    (hbound : ∀ k ∈ tiles, k < tq.length ∧ tq.getD k 0 ≠ 0) (hsent : ∀ k ∈ tiles, tq'.getD k 0 = 0)
    (hkept : ∀ k, k ∉ tiles → tq'.getD k 0 = tq.getD k 0) :
    tq'.countP (· ≠ 0) + tiles.length = tq.countP (· ≠ 0) := by
  have hperm : ((List.range tq.length).filter (· ∈ tiles)).Perm tiles := by
    refine (List.perm_ext_iff_of_nodup (List.nodup_range.filter _) hnodup).mpr fun k => ?_
    rw [List.mem_filter, List.mem_range, decide_eq_true_eq]
    exact ⟨fun h => h.2, fun h => ⟨(hbound k h).1, h⟩⟩
  rw [countP_range tq, countP_range tq', hlength]
  have hsplit := List.countP_eq_countP_filter_add (List.range tq.length) (fun k => decide (tq.getD k 0 ≠ 0))
    (fun k => decide (k ∈ tiles))
  have hsplit' := List.countP_eq_countP_filter_add (List.range tq.length) (fun k => decide (tq'.getD k 0 ≠ 0))
    (fun k => decide (k ∈ tiles))
  have hin : ((List.range tq.length).filter fun k => decide (k ∈ tiles)).countP
      (fun k => decide (tq.getD k 0 ≠ 0)) =
      tiles.length := by
    rw [← hperm.length_eq, List.countP_eq_length]
    intro k hk
    exact decide_eq_true (hbound k (by simpa using (List.mem_filter.mp hk).2)).2
  have hin' : ((List.range tq.length).filter fun k => decide (k ∈ tiles)).countP
      (fun k => decide (tq'.getD k 0 ≠ 0)) =
      0 := by
    rw [List.countP_eq_zero]
    intro k hk
    simpa using hsent k (by simpa using (List.mem_filter.mp hk).2)
  have hout : ((List.range tq.length).filter fun k => !decide (k ∈ tiles)).countP
      (fun k => decide (tq'.getD k 0 ≠ 0)) =
      ((List.range tq.length).filter fun k => !decide (k ∈ tiles)).countP (fun k => decide (tq.getD k 0 ≠ 0)) := by
    refine List.countP_congr fun k hk => ?_
    rw [hkept k (by simpa using (List.mem_filter.mp hk).2)]
  omega

end Count

-- The last frame encoded, its tiles' qualities and the shadow belong together until
-- a full frame is asked for.
structure Faithful (p : Picture) : Prop where
  sized : p.shadowW = 0 ∧ p.shadowH = 0 ∨ p.shadow.length = p.shadowW * 4 * p.shadowH
  lossy : p.lossyTiles = p.tileQ.countP (· ≠ 0)
  encoded : p.needFull = false → ∃ f, p.encoded = some f ∧ p.lastSeq = f.seq ∧ p.shadowW = f.width ∧
    p.shadowH = f.height ∧ p.tileQ.length = tileTotal f.width f.height ∧
    (tileTotal f.width f.height ≠ 0 →
      ∀ X < f.width, ∀ Y < f.height, ∀ b < 4, shadowByte f p.shadow X Y b = frameByte f X Y b)

theorem tileTotal_pos {width height : Nat} (h : tileTotal width height ≠ 0) : 0 < width ∧ 0 < height := by
  unfold tileTotal tilesX tilesY at h
  constructor
  · rcases Nat.eq_zero_or_pos width with rfl | hpos
    · exact absurd (by rw [rd_tile]; simp) h
    · exact hpos
  · rcases Nat.eq_zero_or_pos height with rfl | hpos
    · exact absurd (by rw [rd_tile]; simp) h
    · exact hpos

theorem Faithful.tended {c c' : Conn} (h : Faithful c.picture) (hscreen : Tended c.toScreen c'.toScreen) :
    Faithful c'.picture := by
  have htileQ : c'.tileQ = c.tileQ := hscreen.tileQ.1
  have hlossy : c'.lossyTiles = c.lossyTiles := hscreen.tileQ.2
  have hshadow : c'.shadow = c.shadow := hscreen.shadow
  refine ⟨?_, ?_, fun hfull => ?_⟩
  · rcases hscreen.size with ⟨hw, hh⟩ | ⟨hw, hh, -⟩
    · have hw : c'.shadowW = c.shadowW := hw
      have hh : c'.shadowH = c.shadowH := hh
      change c'.shadowW = 0 ∧ c'.shadowH = 0 ∨ c'.shadow.length = c'.shadowW * 4 * c'.shadowH
      rw [hw, hh, hshadow]
      exact h.sized
    · exact .inl ⟨hw, hh⟩
  · change c'.lossyTiles = c'.tileQ.countP (· ≠ 0)
    rw [hlossy, htileQ]
    exact h.lossy
  · have hbefore : c.needFull = false := by
      cases hb : c.needFull with
      | false => rfl
      | true => exact absurd (hscreen.needFull hb) (by rw [show c'.toScreen.needFull = false from hfull]; decide)
    obtain ⟨f, hf, hseq, hw, hh, hlen, hsame⟩ := h.encoded hbefore
    rcases hscreen.size with ⟨hw', hh'⟩ | ⟨-, -, hfull'⟩
    · refine ⟨f, hscreen.encoded.1.trans hf, hscreen.encoded.2.trans hseq, hw'.trans hw, hh'.trans hh, ?_, ?_⟩
      · change c'.tileQ.length = _
        rw [htileQ]
        exact hlen
      · change _ → ∀ X < f.width, ∀ Y < f.height, ∀ b < 4, shadowByte f c'.shadow X Y b = frameByte f X Y b
        rw [hshadow]
        exact hsame
    · exact absurd hfull' (by rw [show c'.toScreen.needFull = false from hfull]; decide)

theorem Faithful.fitted {p : Picture} (h : Faithful p) (f : Frame) (info : ScreenInfo) :
    Faithful (p.fitted f info) := by
  unfold Picture.fitted
  split
  · refine ⟨.inr ?_, rfl, fun hfull => absurd hfull (by simp)⟩
    dsimp only
    rw [List.length_replicate]
    ring
  · exact h

theorem Faithful.shadow_length {p : Picture} (h : Faithful p) {f : Frame} (hw : p.shadowW = f.width)
    (hh : p.shadowH = f.height) (hsome : tileTotal f.width f.height ≠ 0) :
    p.shadow.length = f.width * 4 * f.height := by
  have hpos := tileTotal_pos hsome
  rcases h.sized with ⟨hzero, -⟩ | hlen
  · omega
  · rw [hlen, hw, hh]

theorem Faithful.drawn {p : Picture} (h : Faithful p) {f : Frame} {st : Encoded} (hw : p.shadowW = f.width)
    (hh : p.shadowH = f.height) {quality : Nat} {budget : Int} {threads : Nat} {schedule : List Nat}
    (hst : encode f p.shadow p.needFull quality (some p.tileQ) budget (threads + 1) schedule = some st) :
    Faithful (p.drawn f st) := by
  have hkept : ∀ tileQ, st.tileQ = some tileQ → tileQ.length = tileTotal f.width f.height →
      (p.shadowW = 0 ∧ p.shadowH = 0 ∨ st.shadow.length = p.shadowW * 4 * p.shadowH) →
      (tileTotal f.width f.height ≠ 0 →
        ∀ X < f.width, ∀ Y < f.height, ∀ b < 4, shadowByte f st.shadow X Y b = frameByte f X Y b) →
      Faithful (p.drawn f st) := by
    intro tileQ htileQ hlen hsized hsame
    unfold Picture.drawn
    rw [htileQ, Option.getD_some]
    split
    · exact ⟨hsized, rfl, fun _ => ⟨f, rfl, rfl, hw, hh, hlen, hsame⟩⟩
    · exact ⟨hsized, rfl, fun _ => ⟨f, rfl, rfl, hw, hh, hlen, hsame⟩⟩
  by_cases hnone : tileTotal f.width f.height = 0
  · obtain ⟨htileQ, hshadow, -⟩ :=
      encode_empty f p.shadow p.needFull quality p.tileQ budget (threads + 1) schedule st
      (by omega) hnone hst
    exact hkept [] htileQ (by rw [hnone, List.length_nil]) (hshadow ▸ h.sized) fun hne => absurd hnone hne
  · obtain ⟨recs, hrecs⟩ :=
      encode_spec f p.shadow p.needFull quality p.tileQ budget (threads + 1) schedule st (by omega)
      (h.shadow_length hw hh hnone) hst
    obtain ⟨tileQ, htileQ, hcount, -⟩ := hrecs.tileQ
    refine hkept tileQ htileQ hcount (.inr ?_) fun _ => hrecs.shadow
    rw [hrecs.shadow_length, hw, hh]

theorem Told.faithful {σ : Type} {e : ServerEvent σ} {c c' : Conn} (h : Faithful c.picture) (htold : Told e c c') :
    Faithful c'.picture := by
  cases htold.repainted with
  | tended new sent frameless plain screen => exact h.tended screen
  | pumped f now schedule io event alive before info after =>
      cases after with
      | skipped frame after => exact after ▸ h
      | fitted g frame after => exact after ▸ h.fitted g info
      | drawn g frame window quality budget threads schedule st encoded after =>
          obtain ⟨hw, hh⟩ := c.picture.fitted_size g info
          exact after ▸ (h.fitted g info).drawn hw hh encoded

section

variable {σ : Type} (cr : Crypto) (plat : Platform σ) {past : List (Server σ × ServerEvent σ)}
  {s : Server σ} {c : Conn}

theorem run_faithful (run : Run (serverRuns cr plat) past s) : ∀ c ∈ s.conns, Faithful c.picture := by
  refine rows_run cr plat run (fun _ _ => True) (fun _ c => Faithful c.picture) ?_ ?_ fun _ _ => trivial
  · rintro past s e c - c' hrow h -
    exact hrow.told.faithful h
  · intro past c hnew
    have hscreen := hnew.screen
    have hfull : c.picture.needFull = true := congrArg Screen.needFull hscreen
    have htileQ : c.picture.tileQ = [] := congrArg Screen.tileQ hscreen
    have hlossy : c.picture.lossyTiles = 0 := congrArg Screen.lossyTiles hscreen
    refine ⟨.inl ⟨congrArg Screen.shadowW hscreen, congrArg Screen.shadowH hscreen⟩, ?_, fun h => ?_⟩
    · rw [htileQ, hlossy]
      rfl
    · rw [hfull] at h
      cases h

-- A call of maybe_send_frame while the screen stands still: the viewer wants full
-- quality, some of its tiles are lossy, and nothing is in the way of a frame.
structure StillScreen (c : Conn) (f : Frame) (now : Nat) : Prop where
  active : c.live = true
  wanted : c.qualitySetting = 255 ∨ c.qualitySetting = 0
  frame : c.encoded = some f
  part : c.needFull = false
  settled : sub64 now c.lastChangeUs > 250000
  interval : ¬ sub64 now c.lastFrameUs < kSecond / max 1 (min c.fps c.effFps)
  room : sub32 c.frameId c.acked < kMaxFramesInFlight
  idle : c.pending ≤ kMaxPendingOut
  lossy : ∃ q ∈ c.tileQ, q ≠ 0

-- The call sends a frame and makes up to 400 tiles lossless.
def Refines (cr : Crypto) (c : Conn) (f : Frame) (now : Nat) (info : ScreenInfo) (threads : Nat)
    (masks : Nat → Bytes) : Prop :=
  (∃ schedule c', c.maybeSendFrame cr (some f) now info threads schedule masks = some c') ∧
  ∀ schedule c', c.maybeSendFrame cr (some f) now info threads schedule masks = some c' →
    (∃ tiles records, c'.sent = c.sent ++ [frameMessage c'.frameId false tiles records]) ∧
      c'.lossy = c.lossy - min 400 c.lossy

theorem StillScreen.live {f : Frame} {now : Nat} (h : StillScreen c f now) : c.dead = false := by
  have hlive := h.active
  unfold Conn.live at hlive
  simpa using (of_decide_eq_true hlive).2

theorem StillScreen.lossy_pos {f : Frame} {now : Nat} (h : StillScreen c f now) : 0 < c.lossy := by
  obtain ⟨q, hq, hne⟩ := h.lossy
  exact List.countP_pos_iff.mpr ⟨q, hq, by simpa using hne⟩

-- What the state after the last frame says about the frame that is still on screen.
theorem Faithful.still {f : Frame} {now : Nat} (hfaithful : Faithful c.picture) (h : StillScreen c f now) :
    c.lastSeq = f.seq ∧ c.shadowW = f.width ∧ c.shadowH = f.height ∧ c.tileQ.length = tileTotal f.width f.height ∧
      ∀ k < tileTotal f.width f.height, tileDirty f c.shadow false k = false := by
  obtain ⟨g, hg, hseq, hw, hh, hlen, hsame⟩ := hfaithful.encoded h.part
  obtain rfl := Option.some.inj (h.frame.symm.trans hg)
  exact ⟨hseq, hw, hh, hlen, fun k hk => tileDirty_same f c.shadow k hk (hsame (by omega))⟩

-- With fixed quality the call returns before it comes to the encoder; with automatic
-- quality it encodes with room for 400 refinements.
theorem still_call {f : Frame} {now : Nat} (hfaithful : Faithful c.picture) (h : StillScreen c f now)
    (info : ScreenInfo)
    (threads : Nat) (schedule : List Nat) (masks : Nat → Bytes) :
    c.maybeSendFrame cr (some f) now info threads schedule masks =
      if c.qualitySetting = 255 then c.encodeFrame cr f now false 400 threads schedule (masks 1) else some c := by
  obtain ⟨hseq, hw, hh, -⟩ := hfaithful.still h
  have hlossy : c.lossyTiles = c.lossy := hfaithful.lossy
  have hpos := h.lossy_pos
  have hroom := h.room
  have hidle := h.idle
  unfold Conn.maybeSendFrame
  dsimp only
  unfold Conn.fitShadow
  rw [if_neg (by simp [hw, hh])]
  unfold Conn.offerFrame
  dsimp only
  have hsame : decide (f.seq ≠ c.lastSeq) = false := by simp [hseq]
  have hsettled : decide (sub64 now c.lastChangeUs > 250000) = true := decide_eq_true h.settled
  simp only [hsame, Bool.false_eq_true, if_false]
  rw [h.part, hsettled, hlossy]
  by_cases hauto : c.qualitySetting = 255
  · rw [if_pos hauto, if_neg (by simp [hauto, hpos]), if_neg h.interval, if_neg (by omega),
      if_neg (by simp [hauto, hpos]), if_pos rfl]
  · rw [if_neg hauto, if_pos (by simp [hauto])]

-- The encoder sends only refinements.
theorem still_encoded {f : Frame} {now : Nat} (hfaithful : Faithful c.picture) (h : StillScreen c f now)
    {threads : Nat}
    {schedule : List Nat} {st : Encoded}
    (hst : encode f c.shadow c.needFull c.quality (some c.tileQ) 400 (threads + 1) schedule = some st) :
    st.tiles = min 400 c.lossy ∧ (st.tileQ.getD []).countP (· ≠ 0) = c.lossy - min 400 c.lossy := by
  obtain ⟨-, hw, hh, hlen, hclean⟩ := hfaithful.still h
  obtain ⟨q, hq, -⟩ := h.lossy
  have hsome : tileTotal f.width f.height ≠ 0 := hlen ▸ (List.length_pos_of_mem hq).ne'
  have hshadow : c.shadow.length = f.width * 4 * f.height := hfaithful.shadow_length hw hh hsome
  obtain ⟨recs, hrecs⟩ :=
    encode_spec f c.shadow c.needFull c.quality c.tileQ 400 (threads + 1) schedule st (by omega)
    hshadow hst
  have hsized : sizedTileQ (tileTotal f.width f.height) c.tileQ = c.tileQ := by
    rw [sizedTileQ, if_neg (by simpa using hlen)]
  rw [hsized, h.part] at hrecs
  have hdirty : (List.range (tileTotal f.width f.height)).countP (tileDirty f c.shadow false) = 0 := by
    rw [List.countP_eq_zero]
    intro k hk
    simpa using hclean k (List.mem_range.mp hk)
  have hrefinable : (List.range (tileTotal f.width f.height)).countP (refinable f c.shadow false c.tileQ) =
      c.lossy := by
    unfold Conn.lossy
    rw [countP_range, hlen]
    refine List.countP_congr fun k hk => ?_
    rw [refinable_iff]
    simp [hclean k (List.mem_range.mp hk)]
  have hcount := hrecs.count
  rw [hdirty, hrefinable, Nat.zero_add] at hcount
  have hcount : recs.length = min 400 c.lossy := hcount
  refine ⟨hrecs.tiles.trans hcount, ?_⟩
  obtain ⟨tileQ, htileQ, hlen', hsent, hkept⟩ := hrecs.tileQ
  have hrefined : ∀ p ∈ recs, refinable f c.shadow false c.tileQ p.tile = true ∧ p.q = 0 := by
    intro p hp
    rcases hrecs.kinds p hp with ⟨hd, -, -⟩ | ⟨href, hq, -⟩
    · rw [hclean p.tile (hrecs.bound p hp)] at hd
      cases hd
    · exact ⟨href, hq⟩
  have hcleared : tileQ.countP (· ≠ 0) + (recs.map (·.tile)).length = c.tileQ.countP (· ≠ 0) :=
    countP_cleared (recs.map (·.tile)) (hlen'.trans hlen.symm) hrecs.nodup (fun k hk => by
      obtain ⟨p, hp, rfl⟩ := List.mem_map.mp hk
      exact ⟨hlen ▸ hrecs.bound p hp, (refinable_iff.mp (hrefined p hp).1).2⟩)
    (fun k hk => by
      obtain ⟨p, hp, rfl⟩ := List.mem_map.mp hk
      rw [hsent p hp, (hrefined p hp).2]
      rfl)
    hkept
  rw [List.length_map, hcount] at hcleared
  rw [htileQ, Option.getD_some]
  unfold Conn.lossy at hcleared ⊢
  omega

-- Lossy tiles of a still screen are refined exactly if the quality is automatic.
theorem still_screen_refined (run : Run (serverRuns cr plat) past s) (hc : c ∈ s.conns) {f : Frame} {now : Nat}
    (h : StillScreen c f now) (info : ScreenInfo) (threads : Nat) (masks : Nat → Bytes) :
    Refines cr c f now info threads masks ↔ c.qualitySetting = 255 := by
  have hfaithful := run_faithful cr plat run c hc
  have hcall := fun schedule => still_call cr hfaithful h info threads schedule masks
  constructor
  · rintro ⟨⟨schedule, c', hc'⟩, hrefines⟩
    by_contra hfixed
    obtain ⟨⟨tiles, records, hsent⟩, -⟩ := hrefines schedule c' hc'
    rw [hcall, if_neg hfixed, Option.some.injEq] at hc'
    rw [← hc'] at hsent
    simp at hsent
  · intro hauto
    have hcall : ∀ schedule, c.maybeSendFrame cr (some f) now info threads schedule masks =
        c.encodeFrame cr f now false 400 threads schedule (masks 1) := fun schedule => by rw [hcall, if_pos hauto]
    constructor
    · obtain ⟨schedule, st, hst⟩ := encode_exists f c.shadow c.needFull c.quality (some c.tileQ) 400 (threads + 1)
      refine ⟨schedule, ?_⟩
      rw [hcall]
      unfold Conn.encodeFrame
      rw [hst]
      exact ⟨_, rfl⟩
    · intro schedule c' hc'
      rw [hcall] at hc'
      obtain ⟨st, hst, hpicture⟩ := encodeFrame_picture cr f now false 400 threads schedule (masks 1) h.live hc'
      obtain ⟨htiles, hlossy⟩ := still_encoded hfaithful h hst
      have hpos := h.lossy_pos
      unfold Picture.drawn at hpicture
      rw [if_neg (by omega)] at hpicture
      have hid : c'.frameId = _ := congrArg Picture.frameId hpicture
      have hsent : c'.sent = _ := congrArg Picture.sent hpicture
      have htileQ : c'.tileQ = _ := congrArg Picture.tileQ hpicture
      refine ⟨⟨st.tiles, st.out, ?_⟩, ?_⟩
      · rw [hsent, hid]
        have hpart : c.picture.needFull = false := h.part
        rw [hpart]
        rfl
      · unfold Conn.lossy
        rw [htileQ]
        exact hlossy

end

-- Ann asks for the lowest quality, gets a frame, and then asks for quality q.
def lossyFrame : Frame := ⟨1, 1, 4, 1, [1, 2, 3, 255]⟩

def settingsEvents (n q : Nat) : List (ServerEvent Desk) :=
  sealedEvents 0 n (putU8 RD_C_SETTINGS ++ putU8 q ++ putU8 30 ++ putU8 0)

def lossyEvents : List (ServerEvent Desk) :=
  loginEvents 0 "Ann" ++ settingsEvents 1 3 ++ [.pump 0 (some lossyFrame) 100000 [0, 0, 0] deskIo]

def Conn.still (c : Conn) : Bool :=
  c.live ∧ c.encoded = some lossyFrame ∧ c.needFull = false ∧ sub64 1000000 c.lastChangeUs > 250000 ∧
    ¬ sub64 1000000 c.lastFrameUs < kSecond / max 1 (min c.fps c.effFps) ∧ sub32 c.frameId c.acked <
      kMaxFramesInFlight ∧
    c.pending ≤ kMaxPendingOut ∧ ∃ q ∈ c.tileQ, q ≠ 0

theorem lossyEvents_rows :
    ((deskHost false lossyEvents).map fun s =>
      ((deskRun s (settingsEvents 2 0)).map fun t => t.conns.map fun c => (c.qualitySetting, c.still),
        (deskRun s (settingsEvents 2 255)).map fun t => t.conns.map fun c => (c.qualitySetting, c.still))) =
      some (some [(0, true)], some [(255, true)]) := by
  unfold deskHost deskRun lossyEvents settingsEvents loginEvents sealedEvents
  rw [← rehearsed_eq]
  decide +kernel

-- The run up to the second request, and what it leaves.
theorem lossyEvents_run (q : Nat) (hq : q = 0 ∨ q = 255) :
    ∃ (past : List (Server Desk × ServerEvent Desk)) (s : Server Desk) (c : Conn),
      Run (serverRuns reference deskPlatform) past s ∧ c ∈ s.conns ∧ c.qualitySetting = q ∧
        StillScreen c lossyFrame 1000000 := by
  obtain ⟨s, hs, hrows⟩ := Option.map_eq_some_iff.mp lossyEvents_rows
  rw [Prod.mk.injEq] at hrows
  obtain ⟨past, hrun, -⟩ := deskHost_run hs
  have hrow : (deskRun s (settingsEvents 2 q)).map (fun t => t.conns.map fun c => (c.qualitySetting, c.still)) =
      some [(q, true)] := by
    rcases hq with rfl | rfl
    · exact hrows.1
    · exact hrows.2
  obtain ⟨t, ht, hrow⟩ := Option.map_eq_some_iff.mp hrow
  obtain ⟨c, hc, hfields⟩ := List.map_eq_singleton_iff.mp hrow
  rw [Prod.mk.injEq] at hfields
  obtain ⟨more, hrun, -⟩ := deskRun_run hrun ht
  obtain ⟨hlive, hencoded, hpart, hsettled, hinterval, hroom, hidle, hlossy⟩ := of_decide_eq_true hfields.2
  refine ⟨_, t, c, hrun, by simp [hc], hfields.1, hlive, ?_, hencoded, hpart, hsettled, hinterval, hroom,
    hidle, hlossy⟩
  rw [hfields.1]
  exact hq.symm

theorem still_screen_refined_automatic :
    ∃ (past : List (Server Desk × ServerEvent Desk)) (s : Server Desk) (c : Conn),
      Run (serverRuns reference deskPlatform) past s ∧ c ∈ s.conns ∧
      Refines reference c lossyFrame 1000000 ⟨some lossyFrame, 0, [], false, false⟩ 0 fun _ => [] := by
  obtain ⟨past, s, c, hrun, hc, hauto, hstill⟩ := lossyEvents_run 255 (.inr rfl)
  exact ⟨past, s, c, hrun, hc, (still_screen_refined reference deskPlatform hrun hc hstill _ _ _).mpr hauto⟩

-- With fixed quality 0 the call sends nothing.
theorem lossy_tiles_stay :
    ¬ ∀ (past : List (Server Desk × ServerEvent Desk)) (s : Server Desk),
      Run (serverRuns reference deskPlatform) past s →
      ∀ c ∈ s.conns, ∀ f now, StillScreen c f now →
          ∀ info threads masks, Refines reference c f now info threads masks := by
  intro halways
  obtain ⟨past, s, c, hrun, hc, hfixed, hstill⟩ := lossyEvents_run 0 (.inl rfl)
  obtain ⟨⟨schedule, c', hc'⟩, hrefines⟩ :=
    halways past s hrun c hc lossyFrame 1000000 hstill ⟨none, 0, [], false, false⟩ 0
    fun _ => []
  obtain ⟨⟨tiles, records, hsent⟩, -⟩ := hrefines schedule c' hc'
  rw [still_call reference (run_faithful reference deskPlatform hrun c hc) hstill, hfixed,
    if_neg (by decide)] at hc'
  rw [← Option.some.inj hc'] at hsent
  simp at hsent

end TetherDesk.Host
