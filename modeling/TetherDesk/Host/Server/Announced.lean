import TetherDesk.Host.Server.LossyTiles
import TetherDesk.Host.Server.Rehearsal

namespace TetherDesk.Host

open TetherDesk.Net TetherDesk.Secure TetherDesk.Lib.Table TetherDesk.Lib.Transition

-- The size in the last DISPLAY_INFO among some messages.
def lastSize (sent : List Bytes) : Option (Nat × Nat) :=
  ((sent.filter fun m => byteAt m 0 = UInt8.ofNat RD_S_DISPLAY_INFO).getLast?).map fun m =>
    (rd16 (m.drop 1), rd16 (m.drop 3))

theorem lastSize_plain (sent : List Bytes) {new : List Bytes} (h : ∀ m ∈ new, Plain m) :
    lastSize (sent ++ new) = lastSize sent := by
  have hnone : new.filter (fun m => byteAt m 0 = UInt8.ofNat RD_S_DISPLAY_INFO) = [] :=
    List.filter_eq_nil_iff.mpr fun m hm => by simpa using (h m hm).2
  unfold lastSize
  rw [List.filter_append, hnone, List.append_nil]

theorem lastSize_frame (sent : List Bytes) (id : Nat) (full : Bool) (tiles : Nat) (records : Bytes) :
    lastSize (sent ++ [frameMessage id full tiles records]) = lastSize sent := by
  have hother : UInt8.ofNat RD_S_FRAME ≠ UInt8.ofNat RD_S_DISPLAY_INFO := by decide
  unfold lastSize
  rw [List.filter_append, List.filter_cons_of_neg (by simpa [frameMessage_eq, putU8, byteAt] using hother),
    List.filter_nil,
    List.append_nil]

theorem lastSize_info (sent : List Bytes) (info : ScreenInfo) {w h : Nat} (hsize : info.size = (w, h))
    (hw : w ≤ 65535)
    (hh : h ≤ 65535) : lastSize (sent ++ [displayInfoMsg info]) = some (w, h) := by
  obtain ⟨rest, hmsg⟩ : ∃ rest, displayInfoMsg info = UInt8.ofNat RD_S_DISPLAY_INFO ::
      (le16 w ++ (le16 h ++ rest)) := by
    unfold displayInfoMsg
    rw [hsize]
    simp only [List.append_assoc]
    exact ⟨_, rfl⟩
  have hwidth : rd16 ((displayInfoMsg info).drop 1) = w := by
    rw [hmsg, List.drop_succ_cons, List.drop_zero, rd16_le16, Nat.mod_eq_of_lt (by omega)]
  have hheight : rd16 ((displayInfoMsg info).drop 3) = h := by
    rw [hmsg, List.drop_succ_cons, List.drop_left' (le16_length w), rd16_le16, Nat.mod_eq_of_lt (by omega)]
  have htype : byteAt (displayInfoMsg info) 0 = UInt8.ofNat RD_S_DISPLAY_INFO := by
    rw [hmsg]
    rfl
  unfold lastSize
  rw [List.filter_append, List.filter_cons_of_pos (by simpa using htype), List.filter_nil, List.getLast?_append,
    List.getLast?_singleton, Option.some_or, Option.map_some, hwidth, hheight]

-- The second read of the screen, for the announcement, finds the size of the frame
-- that pump_frames has read.
def ReadsAgree {σ : Type} (plat : Platform σ) (s : Server σ) (e : ServerEvent σ) : Prop :=
  ∀ uid f now schedule io, e = .pump uid (some f) now schedule io → ∀ c ∈ s.conns, c.uid = uid → c.live = true →
    (f.width ≠ c.shadowW ∨ f.height ≠ c.shadowH) → (s.screenInfo plat).1.size = (f.width, f.height)

-- Frames have sizes that DISPLAY_INFO can carry.
def SmallFrames {σ : Type} (e : ServerEvent σ) : Prop :=
  ∀ uid f now schedule io, e = .pump uid (some f) now schedule io → f.width ≤ 65535 ∧ f.height ≤ 65535

-- What holds of a row: before the login there is no size, and afterwards the size is
-- the one announced last.
structure SizeKnown (c : Conn) : Prop where
  young : c.state ≠ .Active → c.state ≠ .Closing → c.shadowW = 0
  announced : c.shadowW ≠ 0 → lastSize c.sent = some (c.shadowW, c.shadowH)

section

variable {σ : Type} (cr : Crypto) (plat : Platform σ) {past : List (Server σ × ServerEvent σ)} {s t : Server σ}
  {e : ServerEvent σ} {c c' : Conn}

-- The row of the viewer a pump is for.
theorem pump_row (htidy : s.Tidy) {f : Option Frame} {now : Nat} {schedule : List Nat} {io : Io}
    (h : (ServerEvent.pump c.uid f now schedule io).apply cr plat s = some t) (hc : c ∈ s.conns)
    (hc' : c' ∈ t.conns)
    (huid : c'.uid = c.uid) (hlive : c.live = true) :
    ∃ c₁, c.maybeSendFrame cr f now (s.screenInfo plat).1 s.pool schedule (fun k => io.mask k c.uid) = some c₁ ∧
      c' = c₁.adaptQuality now := by
  unfold Conn.live at hlive
  obtain ⟨hactive, halive⟩ := of_decide_eq_true hlive
  unfold ServerEvent.apply at h
  split at h
  · cases h
  dsimp only at h
  rw [show s.find c.uid = some c from find_row Conn.uid htidy.distinct hc] at h
  dsimp only at h
  unfold Server.pump at h
  rw [if_neg (by simpa [hactive] using halive)] at h
  dsimp only at h
  obtain ⟨c₁, hc₁, rfl⟩ := Option.map_eq_some_iff.mp h
  refine ⟨c₁, hc₁, ?_⟩
  obtain ⟨d, hd, rfl⟩ := List.mem_map.mp hc'
  by_cases hmine : d.uid = c.uid
  · rw [if_pos hmine]
  · rw [if_neg hmine] at huid
    exact absurd huid hmine

theorem Changed.young (h : Changed cr s e c c') (hactive : c'.state ≠ .Active) (hclosing : c'.state ≠ .Closing) :
    c.state ≠ .Active ∧ c.state ≠ .Closing := by
  cases h with
  | quiet session => exact ⟨session.eqs.1 ▸ hactive, session.eqs.1 ▸ hclosing⟩
  | upgraded before =>
      rcases before with ⟨hbefore, -⟩ | ⟨hbefore, -⟩
      · exact ⟨by rw [hbefore]; decide, by rw [hbefore]; decide⟩
      · exact ⟨by rw [hbefore]; decide, by rw [hbefore]; decide⟩
  | answered before => exact ⟨by rw [before]; decide, by rw [before]; decide⟩
  | incompatible before => exact ⟨by rw [before]; decide, by rw [before]; decide⟩
  | keyFailed before => exact ⟨by rw [before]; decide, by rw [before]; decide⟩
  | greeted io r ce dh1 dh2 before => exact ⟨by rw [before]; decide, by rw [before]; decide⟩
  | refused io r before => exact ⟨by rw [before]; decide, by rw [before]; decide⟩
  | authenticated io r before => exact ⟨by rw [before]; decide, by rw [before]; decide⟩
  | left m io before alive event frame opcode session => exact absurd session.eqs.1 hclosing
  | kicked before session => exact absurd session.eqs.1 hclosing
  | served before alive event session => exact absurd (session.eqs.1.trans before) hactive
  | toggled io before event target session =>
      unfold Conn.live at before
      exact absurd (session.eqs.1.trans (of_decide_eq_true before).1) hactive

theorem fitted_announced {p : Picture} (h : p.shadowW ≠ 0 → lastSize p.sent = some (p.shadowW, p.shadowH))
    (f : Frame)
    (info : ScreenInfo) (hagree : f.width ≠ p.shadowW ∨ f.height ≠ p.shadowH → info.size = (f.width, f.height))
    (hsmall : f.width ≤ 65535 ∧ f.height ≤ 65535) (hwidth : f.width ≠ 0) :
    lastSize (p.fitted f info).sent = some (f.width, f.height) := by
  unfold Picture.fitted
  by_cases hsize : f.width ≠ p.shadowW ∨ f.height ≠ p.shadowH
  · rw [if_pos hsize]
    exact lastSize_info p.sent info (hagree hsize) hsmall.1 hsmall.2
  · rw [if_neg hsize]
    rw [not_or, not_not, not_not] at hsize
    rw [h (hsize.1 ▸ hwidth), hsize.1, hsize.2]

theorem drawn_lastSize (p : Picture) (f : Frame) (st : Encoded) : lastSize (p.drawn f st).sent =
    lastSize p.sent := by
  unfold Picture.drawn
  by_cases hnone : st.tiles = 0
  · rw [if_pos hnone]
  · rw [if_neg hnone]
    exact lastSize_frame p.sent _ _ _ _

theorem drawn_size (p : Picture) (f : Frame) (st : Encoded) :
    (p.drawn f st).shadowW = p.shadowW ∧ (p.drawn f st).shadowH = p.shadowH := by
  unfold Picture.drawn
  split <;> exact ⟨rfl, rfl⟩

theorem fitted_sent (p : Picture) (f : Frame) (info : ScreenInfo) :
    ∃ fit, (p.fitted f info).sent = p.sent ++ fit ∧ ∀ m ∈ fit, Frameless m := by
  unfold Picture.fitted
  split
  · exact ⟨[displayInfoMsg info], rfl, by simpa using displayInfoMsg_frameless info⟩
  · exact ⟨[], (List.append_nil _).symm, by simp⟩

theorem drawn_sent (p : Picture) (f : Frame) (st : Encoded) :
    (p.drawn f st).sent = p.sent ∨
      st.tiles ≠ 0 ∧ ∃ id full, (p.drawn f st).sent = p.sent ++ [frameMessage id full st.tiles st.out] := by
  unfold Picture.drawn
  by_cases hnone : st.tiles = 0
  · rw [if_pos hnone]
    exact .inl rfl
  · rw [if_neg hnone]
    exact .inr ⟨hnone, _, _, rfl⟩

-- What pumping keeps, when the two reads agree.
theorem pumped_announced {p p' : Picture} {f : Option Frame} {info : ScreenInfo} (hpumped : Pumped p f info p')
    (h : p.shadowW ≠ 0 → lastSize p.sent = some (p.shadowW, p.shadowH))
    (hagree : ∀ g, f = some g → (g.width ≠ p.shadowW ∨ g.height ≠ p.shadowH → info.size = (g.width, g.height)) ∧
      g.width ≤ 65535 ∧ g.height ≤ 65535) :
    p'.shadowW ≠ 0 → lastSize p'.sent = some (p'.shadowW, p'.shadowH) := by
  cases hpumped with
  | skipped frame after => exact after ▸ h
  | fitted g frame after =>
      obtain ⟨hsize, hsmall⟩ := hagree g frame
      obtain ⟨hw, hh⟩ := p.fitted_size g info
      rw [after, hw, hh]
      exact fitted_announced h g info hsize hsmall
  | drawn g frame window quality budget threads schedule st encoded after =>
      obtain ⟨hsize, hsmall⟩ := hagree g frame
      obtain ⟨hw, hh⟩ := p.fitted_size g info
      obtain ⟨hw', hh'⟩ := drawn_size (p.fitted g info) g st
      rw [after, hw', hh', hw, hh, drawn_lastSize]
      exact fitted_announced h g info hsize hsmall

-- What one step keeps about a row.
theorem Step.sizeKnown (htidy : s.Tidy) (happly : e.apply cr plat s = some t) (hc : c ∈ s.conns)
    (hc' : c' ∈ t.conns)
    (hrow : Step cr s e c c') (h : SizeKnown c) (hagree : ReadsAgree plat s e) (hsmall : SmallFrames e) :
    SizeKnown c' := by
  have hyoung : c'.state ≠ .Active → c'.state ≠ .Closing → c.shadowW = 0 := fun hactive hclosing => by
    obtain ⟨hactive, hclosing⟩ := hrow.changed.young cr hactive hclosing
    exact h.young hactive hclosing
  cases hrow.told.repainted with
  | tended new sent frameless plain screen =>
      refine ⟨fun hactive hclosing => ?_, fun hne => ?_⟩
      · rcases screen.size with ⟨hw, -⟩ | ⟨hw, -⟩
        · exact hw.trans (hyoung hactive hclosing)
        · exact hw
      · rcases screen.size with ⟨hw, hh⟩ | ⟨hw, -⟩
        · have hbefore : c.shadowW ≠ 0 := fun hzero => hne (hw.trans hzero)
          have hauth : c.state ≠ .Auth :=
            fun hauth => hbefore (h.young (by rw [hauth]; decide) (by rw [hauth]; decide))
          rw [sent, lastSize_plain c.sent (plain hauth), h.announced hbefore]
          exact congrArg some (Prod.ext hw.symm hh.symm)
        · exact absurd hw hne
  | pumped f now schedule io event alive before info after =>
      subst event
      have hlive : c.live = true := by simp [Conn.live, before, alive]
      have huid : c'.uid = c.uid := congrArg Prod.fst hrow.identity
      obtain ⟨c₁, hc₁, hafter⟩ := pump_row cr plat htidy happly hc hc' huid hlive
      have hpumped := maybeSendFrame_picture cr f now (s.screenInfo plat).1 s.pool schedule _ alive hc₁
      rw [← adaptQuality_picture c₁ now, ← hafter] at hpumped
      refine ⟨fun hactive hclosing => ?_, pumped_announced hpumped h.announced fun g hg => ?_⟩
      · exact absurd before (hrow.changed.young cr hactive hclosing).1
      · subst hg
        exact ⟨hagree c.uid g now schedule io rfl c hc rfl hlive, hsmall c.uid g now schedule io rfl⟩

theorem run_sizeKnown (run : Run (serverRuns cr plat) past s) (hagree : ∀ p ∈ past, ReadsAgree plat p.1 p.2)
    (hsmall : ∀ p ∈ past, SmallFrames p.2) : ∀ c ∈ s.conns, SizeKnown c := by
  refine rows_apply cr plat run (fun s e => ReadsAgree plat s e ∧ SmallFrames e) (fun _ => SizeKnown) ?_ ?_
    fun p hp => ⟨hagree p hp, hsmall p hp⟩
  · intro past s e t htidy happly c hc c' hc' hrow h hguard
    exact hrow.sizeKnown cr plat htidy happly hc hc' h hguard.1 hguard.2
  · intro past c hnew
    have hzero : c.shadowW = 0 := congrArg Screen.shadowW hnew.screen
    exact ⟨fun _ _ => hzero, fun hne => absurd hzero hne⟩

-- A FRAME message made of tiles of f, each inside a screen of f's size.
def FrameOf (f : Frame) (msg : Bytes) : Prop :=
  ∃ id full, ∃ recs : List SentTile, msg =
    frameMessage id full recs.length (recs.flatMap fun p => tileRecord f p.tile p.q) ∧
    ∀ p ∈ recs, (f.rect p.tile).x + (f.rect p.tile).w ≤ f.width ∧ (f.rect p.tile).y + (f.rect p.tile).h ≤ f.height

-- The frame that pumping sends is its last message.
theorem pumped_frame {p p' : Picture} {f : Option Frame} {info : ScreenInfo} (hpumped : Pumped p f info p')
    (hfaithful : Faithful p) :
    ∃ fit, (∀ m ∈ fit, Frameless m) ∧ (p'.sent = p.sent ++ fit ∨
      ∃ g msg, f = some g ∧ g.width ≠ 0 ∧ FrameOf g msg ∧ (p.fitted g info).sent = p.sent ++ fit ∧
        p'.sent = p.sent ++ (fit ++ [msg])) := by
  cases hpumped with
  | skipped frame after => exact ⟨[], by simp, .inl (by rw [after, List.append_nil])⟩
  | fitted g frame after =>
      obtain ⟨fit, hfit, hframeless⟩ := fitted_sent p g info
      exact ⟨fit, hframeless, .inl (after ▸ hfit)⟩
  | drawn g frame window quality budget threads schedule st encoded after =>
      obtain ⟨fit, hfit, hframeless⟩ := fitted_sent p g info
      refine ⟨fit, hframeless, ?_⟩
      rcases drawn_sent (p.fitted g info) g st with hsent | ⟨htiles, id, full, hsent⟩
      · exact .inl (by rw [after, hsent, hfit])
      · refine .inr ⟨g, _, frame, ?_, ?_, hfit, by rw [after, hsent, hfit, List.append_assoc]⟩
        all_goals
          have hsome : tileTotal g.width g.height ≠ 0 := fun hnone => htiles
            (encode_empty g _ _ quality _ budget (threads + 1) schedule st (by omega) hnone encoded).2.2
        · exact (tileTotal_pos hsome).1.ne'
        · obtain ⟨hw, hh⟩ := p.fitted_size g info
          obtain ⟨recs, hrecs⟩ := encode_spec g _ _ quality _ budget (threads + 1) schedule st (by omega)
            ((hfaithful.fitted g info).shadow_length hw hh hsome) encoded
          refine ⟨id, full, recs, by rw [hrecs.tiles, hrecs.out], fun r hr => ?_⟩
          obtain ⟨-, -, -, -, hright, hbottom⟩ := g.rect_in (hrecs.bound r hr)
          exact ⟨hright, hbottom⟩

-- Every frame is queued behind the announcement of its size.
theorem frames_match_announced_size (run : Run (serverRuns cr plat) past s) (happly : e.apply cr plat s = some t)
    (hagree : ∀ p ∈ past ++ [(s, e)], ReadsAgree plat p.1 p.2) (hsmall : ∀ p ∈ past ++ [(s, e)], SmallFrames p.2)
    (hc : c ∈ s.conns) (hc' : c' ∈ t.conns) (huid : c'.uid = c.uid) :
    ∃ new, c'.sent = c.sent ++ new ∧ ∀ before msg after, new = before ++ msg :: after → ¬ Frameless msg →
      ∃ f now schedule io, e = .pump c.uid (some f) now schedule io ∧ FrameOf f msg ∧
        lastSize (c.sent ++ before) = some (f.width, f.height) := by
  have htidy := tidy_run cr plat run
  have hknown := run_sizeKnown cr plat run (fun p hp => hagree p (by simp [hp]))
      (fun p hp => hsmall p (by simp [hp])) c hc
  have hrow := (apply_steps cr plat htidy happly).row cr htidy hc hc' huid
  have hno : ∀ new : List Bytes, (∀ m ∈ new, Frameless m) → ∀ before msg after, new = before ++ msg :: after →
      Frameless msg := by
    rintro _ hnew before msg after rfl
    exact hnew msg (by simp)
  cases hrow.told.repainted with
  | tended new sent frameless plain screen =>
      exact ⟨new, sent, fun before msg after hnew hmsg => absurd (hno new frameless before msg after hnew) hmsg⟩
  | pumped f now schedule io event alive before info after =>
      subst event
      have hlive : c.live = true := by simp [Conn.live, before, alive]
      obtain ⟨c₁, hc₁, hafter⟩ := pump_row cr plat htidy happly hc hc' huid hlive
      have hpumped := maybeSendFrame_picture cr f now (s.screenInfo plat).1 s.pool schedule _ alive hc₁
      rw [← adaptQuality_picture c₁ now, ← hafter] at hpumped
      obtain ⟨fit, hframeless, hsent⟩ := pumped_frame hpumped (run_faithful cr plat run c hc)
      rcases hsent with hsent | ⟨g, frame, rfl, hwidth, hframe, hfit, hsent⟩
      · exact ⟨fit, hsent, fun before msg after hnew hmsg => absurd (hno fit hframeless before msg after hnew) hmsg⟩
      · refine ⟨fit ++ [frame], hsent, fun before msg after hnew hmsg => ?_⟩
        rcases List.eq_nil_or_concat after with rfl | ⟨after, last, rfl⟩
        · obtain ⟨rfl, hlast⟩ := List.append_inj' hnew rfl
          obtain rfl := List.singleton_inj.mp hlast
          have hsizes := hagree (s, _) (by simp) c.uid g now schedule io rfl c hc rfl hlive
          have hannounced := fitted_announced (p := c.picture) hknown.announced g (s.screenInfo plat).1 hsizes
            (hsmall (s, _) (by simp) c.uid g now schedule io rfl) hwidth
          rw [hfit] at hannounced
          exact ⟨g, now, schedule, io, rfl, hframe, hannounced⟩
        · rw [List.concat_eq_append, ← List.cons_append, ← List.append_assoc] at hnew
          exact absurd (hno fit hframeless before msg after (List.append_inj' hnew rfl).1) hmsg

end

-- Ann is logged in; pump_frames reads the 1x1 frame, and by the time of the
-- announcement the capturer holds a frame of width w.
def announcedEvent : ServerEvent Desk := .pump 0 (some ⟨1, 1, 4, 1, [1, 2, 3, 255]⟩) 100000 [0, 0, 0] deskIo

def publishEvent (w : Nat) : ServerEvent Desk := .world ⟨some ⟨w, 1, 4 * w, 2, List.replicate (4 * w) 0⟩, []⟩

-- What the pump leaves: two more messages, of which the first announces width w.
def announcesWidth (w : Nat) (s t : Server Desk) : Bool :=
  (s.screenInfo deskPlatform).1.size = (w, 1) ∧ s.conns.map (fun c => (c.uid, c.sent.length)) = [(0, 4)] ∧
    t.conns.map (fun c => (c.uid, c.sent.length)) = [(0, 6)] ∧
    t.conns.all fun c => lastSize c.sent.dropLast = some (w, 1) ∧ c.sent.getLast?.any fun m => byteAt m 0 =
      UInt8.ofNat RD_S_FRAME

theorem announced_rows :
    ((deskHost false (loginEvents 0 "Ann")).map fun s => [1, 2].map fun w =>
      (deskRun s [publishEvent w]).bind fun s => (announcedEvent.apply reference deskPlatform s).map fun t =>
        announcesWidth w s t) = some [some true, some true] := by
  unfold deskHost deskRun loginEvents sealedEvents
  rw [← rehearsed_eq]
  decide +kernel

-- The frame every pump of such a run has read.
theorem announced_pump {past : List (Server Desk × ServerEvent Desk)} {s : Server Desk}
    (hquiet : ∀ p ∈ past, ∀ uid f now schedule io, p.2 ≠ .pump uid f now schedule io)
    {p : Server Desk × ServerEvent Desk}
    (hp : p ∈ past ++ [(s, announcedEvent)]) {uid : Nat} {f : Frame} {now : Nat} {schedule : List Nat} {io : Io}
    (hevent : p.2 = .pump uid (some f) now schedule io) : p.1 = s ∧ f = ⟨1, 1, 4, 1, [1, 2, 3, 255]⟩ := by
  rcases List.mem_append.mp hp with hp | hp
  · exact absurd hevent (hquiet p hp uid (some f) now schedule io)
  · obtain rfl := List.mem_singleton.mp hp
    unfold announcedEvent at hevent
    rw [ServerEvent.pump.injEq, Option.some.injEq] at hevent
    exact ⟨rfl, hevent.2.1.symm⟩

theorem announcedSize_run (w : Nat) (hw : w = 1 ∨ w = 2) :
    ∃ (past : List (Server Desk × ServerEvent Desk)) (s t : Server Desk) (c c' : Conn) (fit frame : Bytes),
      Run (serverRuns reference deskPlatform) past s ∧
        (∀ p ∈ past, ∀ uid f now schedule io, p.2 ≠ .pump uid f now schedule io) ∧
      announcedEvent.apply reference deskPlatform s = some t ∧ (s.screenInfo deskPlatform).1.size = (w, 1) ∧
        c ∈ s.conns ∧
      c' ∈ t.conns ∧ c'.uid = c.uid ∧ c'.sent = c.sent ++ [fit, frame] ∧ ¬ Frameless frame ∧
      lastSize (c.sent ++ [fit]) = some (w, 1) := by
  obtain ⟨s₀, hs₀, hrows⟩ := Option.map_eq_some_iff.mp announced_rows
  obtain ⟨past, hrun, hevents⟩ := deskHost_run hs₀
  have hrow : ((deskRun s₀ [publishEvent w]).bind fun s =>
      (announcedEvent.apply reference deskPlatform s).map fun t =>
      announcesWidth w s t) = some true := by
    simp only [List.map_cons, List.map_nil, List.cons.injEq, and_true] at hrows
    rcases hw with rfl | rfl
    · exact hrows.1
    · exact hrows.2
  obtain ⟨s, hs, hrow⟩ := Option.bind_eq_some_iff.mp hrow
  obtain ⟨t, ht, hrow⟩ := Option.map_eq_some_iff.mp hrow
  obtain ⟨more, hrun, hmore⟩ := deskRun_run hrun hs
  obtain ⟨hsize, hold, hnew, hall⟩ := of_decide_eq_true hrow
  obtain ⟨c, hc, hfields⟩ := List.map_eq_singleton_iff.mp hold
  obtain ⟨c', hc', hfields'⟩ := List.map_eq_singleton_iff.mp hnew
  rw [Prod.mk.injEq] at hfields hfields'
  have hmem : c ∈ s.conns := by simp [hc]
  have hmem' : c' ∈ t.conns := by simp [hc']
  have huid : c'.uid = c.uid := hfields'.1.trans hfields.1.symm
  have htidy := tidy_run reference deskPlatform hrun
  have hrow := (apply_steps reference deskPlatform htidy ht).row reference htidy hmem hmem' huid
  obtain ⟨new, hsent⟩ : ∃ new, c'.sent = c.sent ++ new := by
    cases hrow.told.repainted with
    | tended new sent => exact ⟨new, sent⟩
    | pumped f now schedule io event alive before info after =>
        obtain ⟨fit, -, hsent | ⟨g, frame, -, -, -, -, hsent⟩⟩ :=
          pumped_frame after (run_faithful reference deskPlatform hrun c hmem)
        · exact ⟨_, hsent⟩
        · exact ⟨_, hsent⟩
  have hlength := hfields'.2
  rw [hsent, List.length_append, hfields.2] at hlength
  obtain ⟨fit, frame, rfl⟩ := List.length_eq_two.mp (show new.length = 2 by omega)
  rw [hc', List.all_cons, List.all_nil, Bool.and_true, hsent] at hall
  obtain ⟨hlast, hframe⟩ := of_decide_eq_true hall
  refine ⟨_, s, t, c, c', fit, frame, hrun, ?_, ht, hsize, hmem, hmem', huid, hsent, ?_, ?_⟩
  · intro p hp uid f now schedule io hevent
    have hin := List.mem_map_of_mem (f := Prod.snd) hp
    rw [List.map_append, hevents, hmore, hevent] at hin
    simp [loginEvents, helloEvents, sealedEvents, publishEvent] at hin
  · simpa [Frameless] using hframe
  · simpa using hlast

theorem frames_match_announced_size_same_size :
    ∃ (past : List (Server Desk × ServerEvent Desk)) (s t : Server Desk) (c c' : Conn),
      Run (serverRuns reference deskPlatform) past s ∧ announcedEvent.apply reference deskPlatform s =
        some t ∧ c ∈ s.conns ∧
      c' ∈ t.conns ∧ ∃ new, c'.sent = c.sent ++ new ∧ ∀ before msg after, new = before ++ msg :: after →
        ¬ Frameless msg →
        ∃ f now schedule io, announcedEvent = .pump c.uid (some f) now schedule io ∧ FrameOf f msg ∧
          lastSize (c.sent ++ before) = some (f.width, f.height) := by
  obtain ⟨past, s, t, c, c', -, -, hrun, hquiet, ht, hsize, hc, hc', huid, -⟩ := announcedSize_run 1 (.inl rfl)
  refine ⟨past, s, t, c, c', hrun, ht, hc, hc',
    frames_match_announced_size reference deskPlatform hrun ht ?_ ?_ hc hc' huid⟩
  · intro p hp uid f now schedule io hevent d hd hduid hlive hdiffers
    obtain ⟨hat, rfl⟩ := announced_pump hquiet hp hevent
    rw [hat, hsize]
  · intro p hp uid f now schedule io hevent
    obtain ⟨-, rfl⟩ := announced_pump hquiet hp hevent
    decide

-- A frame published between the two reads is announced in place of the one sent.
theorem frame_behind_other_size :
    ¬ ∀ (past : List (Server Desk × ServerEvent Desk)) (s t : Server Desk) (e : ServerEvent Desk),
      Run (serverRuns reference deskPlatform) past s → e.apply reference deskPlatform s = some t →
      (∀ p ∈ past ++ [(s, e)], SmallFrames p.2) → ∀ c ∈ s.conns, ∀ c' ∈ t.conns, c'.uid = c.uid →
      ∃ new, c'.sent = c.sent ++ new ∧ ∀ before msg after, new = before ++ msg :: after → ¬ Frameless msg →
        ∃ f now schedule io, e = .pump c.uid (some f) now schedule io ∧ FrameOf f msg ∧
          lastSize (c.sent ++ before) = some (f.width, f.height) := by
  intro halways
  obtain ⟨past, s, t, c, c', fit, frame, hrun, hquiet, ht, -, hc, hc', huid, hsent, hframe, hlast⟩ :=
    announcedSize_run 2 (.inr rfl)
  have hsmall : ∀ p ∈ past ++ [(s, announcedEvent)], SmallFrames p.2 := by
    intro p hp uid f now schedule io hevent
    obtain ⟨-, rfl⟩ := announced_pump hquiet hp hevent
    decide
  obtain ⟨new, hnew, hframes⟩ := halways past s t announcedEvent hrun ht hsmall c hc c' hc' huid
  obtain rfl := List.append_cancel_left (hnew.symm.trans hsent)
  obtain ⟨f, now, schedule, io, hevent, -, hsize⟩ := hframes [fit] frame [] rfl hframe
  unfold announcedEvent at hevent
  rw [ServerEvent.pump.injEq, Option.some.injEq] at hevent
  rw [hlast, ← hevent.2.1] at hsize
  simp at hsize

end TetherDesk.Host
