import TetherDesk.Host.Server.Runs
import TetherDesk.Host.Server.Rehearsal

namespace TetherDesk.Host

open TetherDesk.Net TetherDesk.Secure TetherDesk.Lib.Transition

section Displays

variable {σ : Type} (cr : Crypto) (plat : Platform σ) (s : Server σ)

-- switch_display with its two reads of displays_[index]; none is a read outside the
-- list.
def Server.switchDisplayAt (index : Int) (mask : Nat → Bytes) : Option (Server σ) :=
  if index < 0 ∨ index ≥ s.displays.length then some s
  else
    let old := plat.capturer.currentDisplay s.os
    match plat.capturer.start s.os index s.cfg.maxFps with
    | (some err, os) =>
        let s := { s with os := os }.notice cr (ascii "Could not switch display: " ++ err) none mask
        some { s with os := (plat.capturer.start s.os old s.cfg.maxFps).2 }
    | (none, os) => do
        let (displays, os) := plat.capturer.displays os
        let s := { s with os := os, displays := displays }
        let logged ← s.displays[index.toNat]?
        let s := s.log (ascii "switched to display " ++ ascii (toString index) ++ ascii " (" ++
          logged.name ++ ascii ")")
        let s := { s with conns := s.conns.map fun (c : Conn) => if c.live then c.displaySwitched else c }
        let shown ← s.displays[index.toNat]?
        some (s.notice cr (ascii "Now showing " ++ shown.name) none mask)

-- Once start() has succeeded for it, the display is in the next list as well.
def DisplayStays (index : Int) : Prop :=
  ∀ os, 0 ≤ index → index < s.displays.length → plat.capturer.start s.os index s.cfg.maxFps = (none, os) →
    index < (plat.capturer.displays os).1.length

variable (c : Conn) (r : Reader) (io : Io)

-- SETTINGS, whose two calls of switch_display may read outside the list.
def Server.settingsAt : Option (Server σ) :=
  let (q, r) := rdGetU8 r
  let (fps, r) := rdGetU8 r
  let (disp, r) := rdGetU8 r
  if r.err then some s
  else do
    let res := if rdRemaining r ≠ 0 then (rdGetU8 r).1 else 255
    let s := s.modify c.uid fun c => c.applySettings s.cfg.maxFps q fps
    let s ←
      if res ≠ 255 ∧ !c.viewOnly ∧ plat.capturer.supportsHighResolution s.os ∧
          decide (res = 0) ≠ plat.capturer.highResolution s.os then do
        let s := { s with os := plat.capturer.setHighResolution s.os (res = 0) }
        let s ← s.switchDisplayAt cr plat (plat.capturer.currentDisplay s.os) (io.mask 0)
        some (s.notice cr (ascii (if res =
          0 then "Sharp (full resolution) screen" else "Fast (half resolution) screen"))
          none (io.mask 1))
      else some s
    if (disp : Int) ≠ plat.capturer.currentDisplay s.os then
      if !c.viewOnly then s.switchDisplayAt cr plat disp (io.mask 2)
      else some (s.sendTo cr c.uid (noticeMsg (ascii "View-only viewers can't switch displays")) (io.mask 3 c.uid))
    else some s

-- The calls of switch_display that SETTINGS makes, each with the state it finds.
def Server.settingsSwitches : List (Server σ × Int) :=
  let (q, r) := rdGetU8 r
  let (fps, r) := rdGetU8 r
  let (disp, r) := rdGetU8 r
  if r.err then []
  else
    let res := if rdRemaining r ≠ 0 then (rdGetU8 r).1 else 255
    let s := s.modify c.uid fun c => c.applySettings s.cfg.maxFps q fps
    let (first, s) :=
      if res ≠ 255 ∧ !c.viewOnly ∧ plat.capturer.supportsHighResolution s.os ∧
          decide (res = 0) ≠ plat.capturer.highResolution s.os then
        let s := { s with os := plat.capturer.setHighResolution s.os (res = 0) }
        let current := plat.capturer.currentDisplay s.os
        ([(s, current)], (s.switchDisplay cr plat current (io.mask 0)).notice cr
          (ascii (if res = 0 then "Sharp (full resolution) screen" else "Fast (half resolution) screen")) none
            (io.mask 1))
      else ([], s)
    if (disp : Int) ≠ plat.capturer.currentDisplay s.os ∧ !c.viewOnly then first ++ [(s, (disp : Int))] else first

end Displays

section Switch

variable {σ : Type} (cr : Crypto) {plat : Platform σ} {s : Server σ} {index : Int} (mask : Nat → Bytes)

theorem switchDisplayAt_stays (h : DisplayStays plat s index) :
    s.switchDisplayAt cr plat index mask = some (s.switchDisplay cr plat index mask) := by
  unfold Server.switchDisplayAt Server.switchDisplay
  by_cases hin : index < 0 ∨ index ≥ s.displays.length
  · rw [if_pos hin, if_pos hin]
  rw [if_neg hin, if_neg hin]
  cases hstart : plat.capturer.start s.os index s.cfg.maxFps with
  | mk err os =>
      cases err with
      | some err => rfl
      | none =>
          have hlength := h os (by omega) (by omega) hstart
          obtain ⟨d, hd⟩ : ∃ d, (plat.capturer.displays os).1[index.toNat]? = some d :=
            ⟨_, List.getElem?_eq_getElem (by omega)⟩
          simp only [Server.log, hd, Option.map_some, Option.getD_some, Option.bind_eq_bind, Option.bind_some]

theorem switchDisplayAt_gone (h : ¬ DisplayStays plat s index) : s.switchDisplayAt cr plat index mask = none := by
  unfold DisplayStays at h
  push Not at h
  obtain ⟨os, hlow, hhigh, hstart, hlength⟩ := h
  unfold Server.switchDisplayAt
  rw [if_neg (by omega), hstart]
  dsimp only
  have hnone : (plat.capturer.displays os).1[index.toNat]? = none := List.getElem?_eq_none (by omega)
  rw [hnone]
  rfl

-- Messages leave a viewer's shadow and need_full alone.
def Conn.fitting (c : Conn) : Nat × Nat × Nat × Bool := (c.uid, c.shadowW, c.shadowH, c.needFull)

theorem sendMsg_fitting (c : Conn) (msg m : Bytes) : (c.sendMsg cr msg m).fitting = c.fitting := by
  unfold Conn.sendMsg Conn.wsFrame
  dsimp only
  split_ifs <;> rfl

theorem notice_fitting (text : Bytes) (skip : Option Nat) :
    (s.notice cr text skip mask).conns.map Conn.fitting = s.conns.map Conn.fitting := by
  unfold Server.notice Server.broadcast
  dsimp only
  rw [List.map_map]
  refine List.map_congr_left fun c _ => ?_
  rw [Function.comp_apply]
  split
  · exact sendMsg_fitting cr c _ _
  · rfl

end Switch

section Settings

variable {σ : Type} (cr : Crypto) (plat : Platform σ) (s : Server σ) (c : Conn) (r : Reader) (io : Io)

-- The second half of SETTINGS.
theorem selectAt_eq (t : Server σ) (disp : Int) (viewOnly : Bool) (mask mask' : Nat → Bytes) (uid : Nat)
    (msg : Bytes) :
    ((disp ≠ plat.capturer.currentDisplay t.os ∧ (!viewOnly) = true → DisplayStays plat t disp) →
      (if disp ≠ plat.capturer.currentDisplay t.os then
        if (!viewOnly) = true then t.switchDisplayAt cr plat disp mask else some (t.sendTo cr uid msg (mask' uid))
      else some t) =
      some (if disp ≠ plat.capturer.currentDisplay t.os then
        if (!viewOnly) = true then t.switchDisplay cr plat disp mask else t.sendTo cr uid msg (mask' uid)
      else t)) ∧
    (¬ (disp ≠ plat.capturer.currentDisplay t.os ∧ (!viewOnly) = true → DisplayStays plat t disp) →
      (if disp ≠ plat.capturer.currentDisplay t.os then
        if (!viewOnly) = true then t.switchDisplayAt cr plat disp mask else some (t.sendTo cr uid msg (mask' uid))
      else some t) = none) := by
  by_cases hdisp : disp ≠ plat.capturer.currentDisplay t.os
  · rw [if_pos hdisp, if_pos hdisp]
    by_cases hcontrol : (!viewOnly) = true
    · rw [if_pos hcontrol, if_pos hcontrol]
      exact ⟨fun h => switchDisplayAt_stays cr mask (h ⟨hdisp, hcontrol⟩),
        fun h => switchDisplayAt_gone cr mask fun hstays => h fun _ => hstays⟩
    · rw [if_neg hcontrol, if_neg hcontrol]
      exact ⟨fun _ => rfl, fun h => absurd (fun hboth => absurd hboth.2 hcontrol) h⟩
  · rw [if_neg hdisp, if_neg hdisp]
    exact ⟨fun _ => rfl, fun h => absurd (fun hboth => absurd hboth.1 hdisp) h⟩

theorem forall_mem_extra {α : Type} {P : α → Prop} {A : Prop} [Decidable A] {first : List α} {x : α} :
    (∀ q ∈ if A then first ++ [x] else first, P q) ↔ (∀ q ∈ first, P q) ∧ (A → P x) := by
  by_cases h : A
  · rw [if_pos h, List.forall_mem_append, List.forall_mem_singleton]
    exact and_congr_right fun _ => ⟨fun hx _ => hx, fun hx => hx h⟩
  · rw [if_neg h]
    exact ⟨fun hfirst => ⟨hfirst, fun hA => absurd hA h⟩, And.left⟩

theorem settingsAt_eq :
    ((∀ q ∈ s.settingsSwitches cr plat c r io, DisplayStays plat q.1 q.2) →
      s.settingsAt cr plat c r io = some (s.settings cr plat c r io)) ∧
    (¬ (∀ q ∈ s.settingsSwitches cr plat c r io, DisplayStays plat q.1 q.2) →
      s.settingsAt cr plat c r io = none) := by
  unfold Server.settingsAt Server.settingsSwitches Server.settings
  dsimp only
  generalize (rdGetU8 r).1 = q
  generalize (rdGetU8 (rdGetU8 r).2).1 = fps
  generalize (rdGetU8 (rdGetU8 (rdGetU8 r).2).2).1 = disp
  generalize (rdGetU8 (rdGetU8 (rdGetU8 r).2).2).2 = r'
  by_cases herr : r'.err = true
  · rw [if_pos herr, if_pos herr, if_pos herr]
    exact ⟨fun _ => rfl, fun h => absurd (by simp) h⟩
  rw [if_neg herr, if_neg herr, if_neg herr]
  generalize (if rdRemaining r' ≠ 0 then (rdGetU8 r').1 else 255) = res
  generalize s.modify c.uid (fun c => c.applySettings s.cfg.maxFps q fps) = t
  rw [forall_mem_extra]
  by_cases hres : res ≠ 255 ∧ (!c.viewOnly) = true ∧ plat.capturer.supportsHighResolution t.os = true ∧
      decide (res = 0) ≠ plat.capturer.highResolution t.os
  · rw [if_pos hres, if_pos hres, if_pos hres]
    generalize plat.capturer.setHighResolution t.os (decide (res = 0)) = os
    generalize hu : ({ t with os := os } : Server σ) = u
    have hos : plat.capturer.currentDisplay os = plat.capturer.currentDisplay u.os := by rw [← hu]
    rw [hos]
    dsimp only
    rw [List.forall_mem_singleton]
    dsimp only
    by_cases hfirst : DisplayStays plat u (plat.capturer.currentDisplay u.os)
    · rw [switchDisplayAt_stays cr _ hfirst, and_iff_right hfirst]
      exact selectAt_eq cr plat _ _ _ _ _ _ _
    · rw [switchDisplayAt_gone cr _ hfirst]
      exact ⟨fun h => absurd h.1 hfirst, fun _ => rfl⟩
  · rw [if_neg hres, if_neg hres, if_neg hres]
    have hnone : ∀ q ∈ ([] : List (Server σ × Int)), DisplayStays plat q.1 q.2 := fun _ hq => by cases hq
    rw [and_iff_right hnone]
    exact selectAt_eq cr plat _ _ _ _ _ _ _

end Settings

section Switching

variable {σ : Type} (cr : Crypto) (plat : Platform σ)

-- SETTINGS reads displays_ inside its length exactly when a display whose capture
-- starts is in the list that is fetched next; a start that fails changes no picture.
theorem display_switch_safe (s : Server σ) :
    (∀ c r io, ((s.settingsAt cr plat c r io).isSome = true ↔
        ∀ q ∈ s.settingsSwitches cr plat c r io, DisplayStays plat q.1 q.2) ∧
      ∀ t, s.settingsAt cr plat c r io = some t → t = s.settings cr plat c r io) ∧
    ∀ (index : Int) mask err os, 0 ≤ index → index < s.displays.length →
      plat.capturer.start s.os index s.cfg.maxFps = (some err, os) →
      (s.switchDisplay cr plat index mask).displays = s.displays ∧
      (s.switchDisplay cr plat index mask).conns.map Conn.fitting = s.conns.map Conn.fitting ∧
      (s.switchDisplay cr plat index mask).os =
        (plat.capturer.start os (plat.capturer.currentDisplay s.os) s.cfg.maxFps).2 := by
  refine ⟨fun c r io => ?_, fun index mask err os hlow hhigh hstart => ?_⟩
  · obtain ⟨hstays, hgone⟩ := settingsAt_eq cr plat s c r io
    by_cases h : ∀ q ∈ s.settingsSwitches cr plat c r io, DisplayStays plat q.1 q.2
    · rw [hstays h]
      exact ⟨iff_of_true rfl h, fun t ht => (Option.some.inj ht).symm⟩
    · rw [hgone h]
      exact ⟨iff_of_false Bool.false_ne_true h, fun t ht => by cases ht⟩
  · unfold Server.switchDisplay
    rw [if_neg (by omega), hstart]
    exact ⟨rfl, notice_fitting (s := { s with os := os }) cr mask _ _, rfl⟩

end Switching

-- A host that cannot capture its second monitor.
def busy : Platform Desk :=
  { deskPlatform with
    capturer :=
      { deskPlatform.capturer with
        displays := fun d => ([⟨ascii "Main", 2, 1⟩, ⟨ascii "Side", 2, 1⟩], d)
        start := fun d index _ => (if index = 1 then some (ascii "busy") else none, d.note (.start index)) } }

def busyHost : Option (Server Desk) :=
  (Server.started busy (deskConfig false) 0 ⟨none, []⟩).bind fun s =>
    (loginEvents 0 "Ann").foldlM (fun s e => ServerEvent.apply reference busy s e) s

-- It goes back to the first, and the viewer's picture stays.
theorem display_switch_safe_busy : ∃ s, busyHost = some s ∧ s.conns.map (·.state) = [State.Active] ∧
    (s.switchDisplay reference busy 1 fun _ => []).displays = s.displays ∧
    (s.switchDisplay reference busy 1 fun _ => []).conns.map Conn.fitting = s.conns.map Conn.fitting ∧
    (s.switchDisplay reference busy 1 fun _ => []).os.calls = s.os.calls ++ [.start 1, .start 0] := by
  have hfacts : (busyHost.map fun s => (s.conns.map (·.state), s.displays.length)) = some ([State.Active], 2) := by
    unfold busyHost loginEvents sealedEvents
    rw [← rehearsed_eq]
    decide +kernel
  obtain ⟨s, hs, hrow⟩ := Option.map_eq_some_iff.mp hfacts
  obtain ⟨hstates, hlength⟩ := Prod.mk.inj hrow
  have hhigh : (1 : Int) < s.displays.length := by
    rw [hlength]
    decide
  obtain ⟨hdisplays, hfitting, hos⟩ := (display_switch_safe reference busy s).2 1 (fun _ => []) (ascii "busy")
    (s.os.note (.start 1)) (by decide) hhigh rfl
  refine ⟨s, hs, hstates, hdisplays, hfitting, ?_⟩
  rw [hos]
  exact List.append_assoc _ _ _

-- A host whose second monitor is gone when its list is fetched again.
def unplugged : Platform (List (List DisplayInfo)) where
  capturer :=
    { displays := fun lists => (lists.headD [], lists.tail)
      start := fun lists _ _ => (none, lists)
      latest := fun lists => (none, lists)
      currentDisplay := fun _ => 0
      supportsHighResolution := fun _ => false
      highResolution := fun _ => false
      setHighResolution := fun lists _ => lists }
  input := ⟨fun lists _ _ _ _ _ => lists, fun lists _ _ => lists, id⟩
  clipboard := ⟨fun lists => (0, lists), fun lists => (none, lists), fun lists _ => lists⟩
  files :=
    { fileExists := fun _ _ => false
      makeDirs := fun lists _ => lists
      readFile := fun _ _ => .absent
      fopen := fun lists _ => (none, lists)
      fwrite := fun lists _ _ => (0, lists)
      fclose := fun lists _ => lists
      remove := fun lists _ => lists }
  osName := ascii "Linux"

def monitors : List (List DisplayInfo) := [[⟨ascii "Main", 2, 1⟩, ⟨ascii "Side", 2, 1⟩], [⟨ascii "Main", 2, 1⟩]]

def secondDisplay : Reader := rdReaderInit (putU8 255 ++ putU8 60 ++ putU8 1)

def unpluggedHost : Option (Server (List (List DisplayInfo))) :=
  (Server.started unplugged (deskConfig false) 0 monitors).bind fun s =>
    (loginEvents 0 "Ann").foldlM (fun s e => ServerEvent.apply reference unplugged s e) s

-- A viewer that has logged in asks for the second display.
theorem switch_reads_missing_display : ¬ ∀ past s c r io, Run (serverRuns reference unplugged) past s →
    c ∈ s.conns →
    c.state = .Active → (s.settingsAt reference unplugged c r io).isSome = true := by
  intro h
  have hfacts : (unpluggedHost.map fun s => s.conns.map fun c =>
      (c.state, (s.settingsAt reference unplugged c secondDisplay deskIo).isSome)) =
        some [(State.Active, false)] := by
    unfold unpluggedHost loginEvents sealedEvents
    rw [← rehearsed_eq]
    decide +kernel
  obtain ⟨s, hs, hfacts⟩ := Option.map_eq_some_iff.mp hfacts
  obtain ⟨s₀, h₀, hs⟩ := Option.bind_eq_some_iff.mp hs
  have hstart : Run (serverRuns reference unplugged) [] s₀ := .start ⟨deskConfig false, 0, monitors, h₀⟩
  obtain ⟨past, hrun, -⟩ := run_foldlM _ (fun _ _ => True) (fun _ _ _ h => ⟨h, trivial⟩) _ hstart hs
  obtain ⟨c, hconns, hrow⟩ := List.map_eq_singleton_iff.mp hfacts
  rw [Prod.mk.injEq] at hrow
  have hsome := h _ s c secondDisplay deskIo hrun (hconns ▸ List.mem_singleton_self c) hrow.1
  rw [hrow.2] at hsome
  cases hsome

end TetherDesk.Host
