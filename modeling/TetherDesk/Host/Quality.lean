import TetherDesk.Host.Server.Runs
import Mathlib.Analysis.SpecialFunctions.Log.Base

namespace TetherDesk.Host

open TetherDesk.Net TetherDesk.Secure TetherDesk.Lib.Transition

-- The fields adapt_quality steers by, and what it steers.
structure Rate where
  setting : Nat
  quality : Nat
  fps : Nat
  effFps : Nat
  cleanWindows : Nat
  deriving DecidableEq, Repr

-- How a window went.
inductive Load
  | congested
  | mixed
  | clean
  deriving DecidableEq, Repr

def Load.of (stalls sends : Nat) : Load :=
  if stalls > 2 ∧ stalls * 2 > sends then .congested
  else if stalls = 0 then .clean
  else .mixed

namespace Rate

-- The frame rate gives way first, then the colours of an automatic viewer.
def lowered (r : Rate) : Rate :=
  if r.effFps > 10 then { r with effFps := max 10 (r.effFps / 2) }
  else if r.setting = 255 ∧ r.quality < 2 then { r with quality := r.quality + 1 }
  else r

-- They come back in the opposite order.
def raised (r : Rate) : Rate :=
  if r.setting = 255 ∧ r.quality > 0 then { r with quality := r.quality - 1 }
  else if r.effFps < r.fps then { r with effFps := min r.fps (r.effFps * 2) }
  else r

def window (r : Rate) : Load → Rate
  | .congested => { r with cleanWindows := 0 }.lowered
  | .mixed => { r with cleanWindows := 0 }
  | .clean =>
      if r.cleanWindows + 1 ≥ 2 then { r with cleanWindows := 0 }.raised
      else { r with cleanWindows := r.cleanWindows + 1 }

def settings (r : Rate) (maxFps q fps : Nat) : Rate :=
  let setting := if q ≤ 3 ∨ q = 255 then q else 255
  let fps := max 1 (min maxFps fps)
  { r with
    setting := setting
    quality := if setting ≠ 255 then setting else r.quality
    fps := fps
    effFps := fps }

-- What holds of every viewer: the limits, and that a quality the viewer chose is kept.
structure Sound (maxFps : Nat) (r : Rate) : Prop where
  pace : 1 ≤ r.effFps ∧ r.effFps ≤ r.fps ∧ r.fps ≤ maxFps
  quality : r.quality ≤ 3
  chosen : r.setting = 255 ∨ r.setting ≤ 3 ∧ r.quality = r.setting
  waiting : r.cleanWindows ≤ 1

section

variable {maxFps : Nat} {r : Rate}

theorem Sound.reset (h : r.Sound maxFps) : { r with cleanWindows := 0 }.Sound maxFps :=
  ⟨h.pace, h.quality, h.chosen, Nat.zero_le 1⟩

theorem Sound.lowered (h : r.Sound maxFps) : r.lowered.Sound maxFps := by
  obtain ⟨⟨hlow, heff, hfps⟩, hquality, hchosen, hwaiting⟩ := h
  unfold Rate.lowered
  split_ifs with hfast hauto
  · exact ⟨⟨by dsimp only; omega, by dsimp only; omega, hfps⟩, hquality, hchosen, hwaiting⟩
  · exact ⟨⟨hlow, heff, hfps⟩, by dsimp only; omega, .inl hauto.1, hwaiting⟩
  · exact ⟨⟨hlow, heff, hfps⟩, hquality, hchosen, hwaiting⟩

theorem Sound.raised (h : r.Sound maxFps) : r.raised.Sound maxFps := by
  obtain ⟨⟨hlow, heff, hfps⟩, hquality, hchosen, hwaiting⟩ := h
  unfold Rate.raised
  split_ifs with hauto hslow
  · exact ⟨⟨hlow, heff, hfps⟩, by dsimp only; omega, .inl hauto.1, hwaiting⟩
  · exact ⟨⟨by dsimp only; omega, by dsimp only; omega, hfps⟩, hquality, hchosen, hwaiting⟩
  · exact ⟨⟨hlow, heff, hfps⟩, hquality, hchosen, hwaiting⟩

theorem Sound.window (h : r.Sound maxFps) (load : Load) : (r.window load).Sound maxFps := by
  cases load with
  | congested => exact h.reset.lowered
  | mixed => exact h.reset
  | clean =>
      unfold Rate.window
      dsimp only
      split_ifs with hsecond
      · exact h.reset.raised
      · exact ⟨h.pace, h.quality, h.chosen, by dsimp only; omega⟩

theorem Sound.settings (h : r.Sound maxFps) (hmax : 1 ≤ maxFps) (q fps : Nat) :
    (r.settings maxFps q fps).Sound maxFps := by
  have hquality := h.quality
  unfold Rate.settings
  refine ⟨⟨by dsimp only; omega, Nat.le_refl _, by dsimp only; omega⟩, ?_, ?_, h.waiting⟩
  · dsimp only
    split_ifs <;> omega
  · dsimp only
    split_ifs <;> omega

theorem Sound.joined (hmax : 1 ≤ maxFps) : Sound maxFps ⟨255, 0, maxFps, maxFps, 0⟩ :=
  ⟨⟨hmax, Nat.le_refl _, Nat.le_refl _⟩, Nat.zero_le 3, .inl rfl, Nat.zero_le 1⟩

theorem quality_lowered (h : r.quality < r.lowered.quality) : r.setting = 255 ∧ r.effFps ≤ 10 := by
  unfold Rate.lowered at h
  split_ifs at h with hfast hauto
  · exact absurd h (Nat.lt_irrefl _)
  · exact ⟨hauto.1, Nat.not_lt.mp hfast⟩
  · exact absurd h (Nat.lt_irrefl _)

theorem quality_raised : r.raised.quality ≤ r.quality := by
  unfold Rate.raised
  split_ifs
  · exact Nat.sub_le _ _
  · exact Nat.le_refl _
  · exact Nat.le_refl _

theorem effFps_lowered : r.lowered.effFps ≤ r.effFps := by
  unfold Rate.lowered
  split_ifs with hfast
  · dsimp only
    omega
  · exact Nat.le_refl _
  · exact Nat.le_refl _

theorem effFps_raised (h : r.effFps < r.raised.effFps) : r.quality = 0 ∨ r.setting ≠ 255 := by
  unfold Rate.raised at h
  split_ifs at h with hauto hslow
  · exact absurd h (Nat.lt_irrefl _)
  · omega
  · exact absurd h (Nat.lt_irrefl _)

-- Colours are given up only under congestion, when the rate has already come down.
theorem quality_window {load : Load} (h : r.quality < (r.window load).quality) :
    load = .congested ∧ r.setting = 255 ∧ r.effFps ≤ 10 := by
  cases load with
  | congested => exact ⟨rfl, quality_lowered (r := { r with cleanWindows := 0 }) h⟩
  | mixed => exact absurd h (Nat.lt_irrefl _)
  | clean =>
      unfold Rate.window at h
      dsimp only at h
      split_ifs at h with hsecond
      · exact absurd h (Nat.not_lt.mpr (quality_raised (r := { r with cleanWindows := 0 })))
      · exact absurd h (Nat.lt_irrefl _)

-- The rate comes back only once there are no colours to give back.
theorem effFps_window {load : Load} (h : r.effFps < (r.window load).effFps) : r.quality = 0 ∨ r.setting ≠ 255 := by
  cases load with
  | congested => exact absurd h (Nat.not_lt.mpr (effFps_lowered (r := { r with cleanWindows := 0 })))
  | mixed => exact absurd h (Nat.lt_irrefl _)
  | clean =>
      unfold Rate.window at h
      dsimp only at h
      split_ifs at h with hsecond
      · exact effFps_raised (r := { r with cleanWindows := 0 }) h
      · exact absurd h (Nat.lt_irrefl _)

end

-- An automatic viewer is back at its full quality after n more clean windows: k
-- doublings bring effFps to fps, and every step up takes two windows.
structure Owes (n : Nat) (r : Rate) : Prop where
  automatic : r.setting = 255
  windows : ∃ k, r.fps ≤ r.effFps * 2 ^ k ∧ 2 * (r.quality + k) ≤ n + r.cleanWindows

section

variable {n : Nat} {r : Rate}

-- A step up pays for two windows.
theorem Owes.raised (h : r.Owes (n + 2)) (hcount : r.cleanWindows = 0) : r.raised.Owes n := by
  obtain ⟨hauto, k, hreach, hwindows⟩ := h
  unfold Rate.raised
  split_ifs with hcolour hslow
  · exact ⟨hauto, k, hreach, by dsimp only; omega⟩
  · have hquality : r.quality = 0 := by omega
    obtain ⟨j, rfl⟩ : ∃ j, k = j + 1 := by
      refine Nat.exists_eq_add_one_of_ne_zero fun hzero => ?_
      rw [hzero, Nat.pow_zero, Nat.mul_one] at hreach
      omega
    refine ⟨hauto, j, ?_, by dsimp only; omega⟩
    dsimp only
    rw [Nat.min_def]
    split
    · exact Nat.le_mul_of_pos_right _ (Nat.two_pow_pos j)
    · rw [Nat.mul_assoc, ← Nat.pow_succ']
      exact hreach
  · have hquality : r.quality = 0 := by omega
    exact ⟨hauto, 0, by omega, by omega⟩

theorem Owes.clean (h : r.Owes n) (hwaiting : r.cleanWindows ≤ 1) : (r.window .clean).Owes (n - 1) := by
  unfold Rate.window
  dsimp only
  split_ifs with hsecond
  · obtain ⟨hauto, k, hreach, hwindows⟩ := h
    have hnext : { r with cleanWindows := 0 }.Owes (n - 1 + 2) := ⟨hauto, k, hreach, by dsimp only; omega⟩
    exact hnext.raised rfl
  · obtain ⟨hauto, k, hreach, hwindows⟩ := h
    exact ⟨hauto, k, hreach, by dsimp only; omega⟩

theorem Owes.recovered {maxFps : Nat} (h : r.Owes 0) (hsound : r.Sound maxFps) : r.quality = 0 ∧
    r.effFps = r.fps := by
  obtain ⟨-, k, hreach, hwindows⟩ := h
  have hwaiting := hsound.waiting
  have hpace := hsound.pace.2.1
  obtain rfl : k = 0 := by omega
  rw [Nat.pow_zero, Nat.mul_one] at hreach
  exact ⟨by omega, Nat.le_antisymm hpace hreach⟩

-- ⌈log2(fps / effFps)⌉ doublings are enough.
theorem doublings_reach {fps effFps : Nat} (h : 1 ≤ effFps) (hle : effFps ≤ fps) :
    fps ≤ effFps * 2 ^ ⌈Real.logb 2 (fps / effFps)⌉₊ := by
  have hpos : (0 : ℝ) < effFps := by exact_mod_cast h
  have hfps : (0 : ℝ) < fps := by exact_mod_cast Nat.lt_of_lt_of_le h hle
  have hlog : Real.logb 2 (fps / effFps) ≤ (⌈Real.logb 2 (fps / effFps)⌉₊ : ℝ) := Nat.le_ceil _
  have hquot : (fps : ℝ) / effFps ≤ 2 ^ ⌈Real.logb 2 (fps / effFps)⌉₊ := by
    rw [Real.logb_le_iff_le_rpow (by norm_num) (div_pos hfps hpos), Real.rpow_natCast] at hlog
    exact hlog
  rw [div_le_iff₀ hpos, mul_comm] at hquot
  exact_mod_cast hquot

theorem Sound.owes {maxFps : Nat} (h : r.Sound maxFps) (hauto : r.setting = 255) :
    r.Owes (2 * (r.quality + ⌈Real.logb 2 (r.fps / r.effFps)⌉₊)) :=
  ⟨hauto, _, doublings_reach h.pace.1 h.pace.2.1, by omega⟩

end

end Rate

def Conn.rate (c : Conn) : Rate := ⟨c.qualitySetting, c.quality, c.fps, c.effFps, c.cleanWindows⟩

-- The rate on_authenticated gives a viewer.
def Joined (maxFps : Nat) (c : Conn) : Prop := c.rate = ⟨255, 0, maxFps, maxFps, 0⟩

section

variable (c : Conn)

theorem rate_quality : c.rate.quality = c.quality := rfl

theorem rate_effFps : c.rate.effFps = c.effFps := rfl

theorem adaptQuality_rate (now : Nat) :
    (c.adaptQuality now).rate =
      if sub64 now c.adaptWindowUs < kSecond then c.rate else c.rate.window (.of c.stalls c.sends) := by
  unfold Conn.adaptQuality
  by_cases hearly : sub64 now c.adaptWindowUs < kSecond
  · rw [if_pos hearly, if_pos hearly]
  · rw [if_neg hearly, if_neg hearly]
    unfold Load.of
    by_cases hcongested : c.stalls > 2 ∧ c.stalls * 2 > c.sends
    · by_cases hfast : c.effFps > 10
      · simp [hcongested, Rate.window, Rate.lowered, Conn.rate, hfast]
      · by_cases hauto : c.qualitySetting = 255 ∧ c.quality < 2
        · simp [hcongested, Rate.window, Rate.lowered, Conn.rate, hfast, hauto]
        · simp only [hcongested, Rate.window, Rate.lowered, Conn.rate, hfast, hauto, and_self, if_true, if_false]
    · by_cases hclean : c.stalls = 0
      · by_cases hsecond : c.cleanWindows + 1 ≥ 2
        · by_cases hauto : c.qualitySetting = 255 ∧ c.quality > 0
          · simp [hclean, Rate.window, Rate.raised, Conn.rate, hsecond, hauto]
          · by_cases hslow : c.effFps < c.fps
            · simp only [hcongested, if_pos hclean, Rate.window, Rate.raised, Conn.rate, hsecond, hauto,
                hslow, if_true, if_false]
            · simp only [hcongested, if_pos hclean, Rate.window, Rate.raised, Conn.rate, hsecond, hauto,
                hslow, if_true, if_false]
        · simp only [hcongested, if_pos hclean, Rate.window, Conn.rate, hsecond, if_false]
      · simp only [hcongested, hclean, Rate.window, Conn.rate, if_false]

theorem sendMsg_rate (cr : Crypto) (msg mask : Bytes) :
    (c.sendMsg cr msg mask).rate = c.rate ∧ (c.sendMsg cr msg mask).adaptWindowUs = c.adaptWindowUs := by
  cases hdead : c.dead with
  | true =>
      rw [c.sendMsg_dead cr msg mask hdead]
      exact ⟨rfl, rfl⟩
  | false =>
      obtain ⟨more, sendCtr, h⟩ := c.sendMsg_alive cr msg mask hdead
      rw [h]
      exact ⟨rfl, rfl⟩

-- on_authenticated, on a connection whose rate nothing has touched.
theorem authenticated_joined (cr : Crypto) (cfg : ServerConfig) (id now : Nat) (mask : Bytes)
    (h : c.toScreen = (Conn.fresh 0).toScreen) :
    Joined cfg.maxFps (c.authenticated cr cfg id now mask) := by
  have hsetting := congrArg Screen.qualitySetting h
  have hquality := congrArg Screen.quality h
  have hwaiting := congrArg Screen.cleanWindows h
  unfold Joined Conn.authenticated
  rw [(sendMsg_rate _ cr _ _).1]
  unfold Conn.rate
  dsimp only
  rw [hsetting, hquality, hwaiting]
  rfl

end

-- What moves the rate of a viewer: SETTINGS, and adapt_quality with the counts it finds.
inductive QualityEvent
  | settings (q fps : UInt8)
  | window (stalls sends now : Nat)

namespace QualityEvent

def apply (maxFps : Nat) (c : Conn) : QualityEvent → Conn
  | settings q fps => c.applySettings maxFps q.toNat fps.toNat
  | window stalls sends now => { c with stalls := stalls, sends := sends }.adaptQuality now

-- A second has passed since the last window.
def Full (c : Conn) : QualityEvent → Prop
  | settings _ _ => False
  | window _ _ now => kSecond ≤ sub64 now c.adaptWindowUs

instance (c : Conn) (e : QualityEvent) : Decidable (e.Full c) := by
  cases e <;> unfold Full <;> infer_instance

def StallFree : QualityEvent → Prop
  | settings _ _ => False
  | window stalls _ _ => stalls = 0

end QualityEvent

def viewerRuns (maxFps : Nat) : System Conn QualityEvent := ofFunction (Joined maxFps) (QualityEvent.apply maxFps)

-- The full windows among some events.
def fullWindows (maxFps : Nat) (c : Conn) (es : List QualityEvent) : Nat :=
  (history (QualityEvent.apply maxFps) c es).countP fun p => decide (p.2.Full p.1)

section

variable {maxFps : Nat} {c : Conn}

theorem window_rate (stalls sends now : Nat) :
    (QualityEvent.apply maxFps c (.window stalls sends now)).rate =
      if sub64 now c.adaptWindowUs < kSecond then c.rate else c.rate.window (.of stalls sends) :=
  adaptQuality_rate { c with stalls := stalls, sends := sends } now

theorem apply_sound (hmax : 1 ≤ maxFps) (h : c.rate.Sound maxFps) (e : QualityEvent) :
    (e.apply maxFps c).rate.Sound maxFps := by
  cases e with
  | settings q fps => exact h.settings hmax q.toNat fps.toNat
  | window stalls sends now =>
      rw [window_rate]
      split_ifs
      · exact h
      · exact h.window _

theorem viewer_sound {past : List (Conn × QualityEvent)} (run : Run (viewerRuns maxFps) past c)
    (hmax : 1 ≤ maxFps) :
    c.rate.Sound maxFps := by
  refine run.invariant (fun _ c => c.rate.Sound maxFps) (fun c h => ?_) fun past c e c' h hstep => ?_
  · rw [show c.rate = _ from h]
    exact .joined hmax
  · rw [show c' = e.apply maxFps c from hstep]
    exact apply_sound hmax h e

theorem congested_of {stalls sends : Nat} (h : Load.of stalls sends = .congested) : stalls > 2 ∧
    stalls * 2 > sends := by
  unfold Load.of at h
  split_ifs at h with hcongested
  exact hcongested

theorem window_lowers {stalls sends now : Nat}
    (h : c.quality < (QualityEvent.apply maxFps c (.window stalls sends now)).quality) :
    (stalls > 2 ∧ stalls * 2 > sends) ∧ c.qualitySetting = 255 ∧ c.effFps ≤ 10 := by
  rw [← rate_quality, ← rate_quality, window_rate] at h
  split_ifs at h with hearly
  · exact absurd h (Nat.lt_irrefl _)
  · obtain ⟨hload, hauto, hslow⟩ := Rate.quality_window h
    exact ⟨congested_of hload, hauto, hslow⟩

theorem window_raises {stalls sends now : Nat}
    (h : c.effFps < (QualityEvent.apply maxFps c (.window stalls sends now)).effFps) :
    c.quality = 0 ∨ c.qualitySetting ≠ 255 := by
  rw [← rate_effFps, ← rate_effFps, window_rate] at h
  split_ifs at h with hearly
  · exact absurd h (Nat.lt_irrefl _)
  · exact Rate.effFps_window h

-- A window without stalls, and a call before the second is over.
theorem stallFree_owes (hsound : c.rate.Sound maxFps) {n : Nat} (h : c.rate.Owes n) {e : QualityEvent}
    (hfree : e.StallFree) :
    (e.apply maxFps c).rate.Owes (if e.Full c then n - 1 else n) ∧ (e.apply maxFps c).fps = c.fps := by
  cases e with
  | settings q fps => exact absurd hfree id
  | window stalls sends now =>
      obtain rfl : stalls = 0 := hfree
      have hfps : (QualityEvent.apply maxFps c (.window 0 sends now)).fps = c.fps := by
        obtain ⟨_, _, _, _, _, _, hsame, -⟩ := { c with stalls := 0, sends := sends }.adaptQuality_eq now
        rw [QualityEvent.apply, hsame]
      refine ⟨?_, hfps⟩
      rw [window_rate]
      by_cases hearly : sub64 now c.adaptWindowUs < kSecond
      · rw [if_pos hearly, if_neg (show ¬ QualityEvent.Full c (.window 0 sends now) from Nat.not_le.mpr hearly)]
        exact h
      · rw [if_neg hearly, if_pos (show QualityEvent.Full c (.window 0 sends now) from Nat.not_lt.mp hearly)]
        exact h.clean hsound.waiting

theorem stallFree_recovers (hmax : 1 ≤ maxFps) (hsound : c.rate.Sound maxFps) {n : Nat} (h : c.rate.Owes n)
    {es : List QualityEvent} (hfree : ∀ e ∈ es, e.StallFree) (hwindows : n ≤ fullWindows maxFps c es) :
    let c' := es.foldl (QualityEvent.apply maxFps) c
    c'.quality = 0 ∧ c'.effFps = c'.fps ∧ c'.fps = c.fps := by
  have hleft := history_countdown (QualityEvent.apply maxFps) (fun p => decide (p.2.Full p.1))
    (fun n d => (d.rate.Sound maxFps ∧ d.fps = c.fps) ∧ d.rate.Owes n)
    (fun n d e he hd hearly => by
      obtain ⟨howes, hfps⟩ := stallFree_owes hd.1.1 hd.2 (hfree e he)
      rw [if_neg (of_decide_eq_false hearly)] at howes
      exact ⟨⟨apply_sound hmax hd.1.1 e, hfps.trans hd.1.2⟩, howes⟩)
    (fun n d e he hd hfull => by
      obtain ⟨howes, hfps⟩ := stallFree_owes hd.1.1 hd.2 (hfree e he)
      rw [if_pos (of_decide_eq_true hfull)] at howes
      exact ⟨⟨apply_sound hmax hd.1.1 e, hfps.trans hd.1.2⟩, howes⟩)
    ⟨⟨hsound, rfl⟩, h⟩
  rw [show (history _ c es).countP _ = fullWindows maxFps c es from rfl, Nat.sub_eq_zero_of_le hwindows] at hleft
  obtain ⟨⟨hend, hfps⟩, howes⟩ := hleft
  obtain ⟨hquality, hpace⟩ := howes.recovered hend
  exact ⟨hquality, hpace, hfps⟩

theorem adaptive_quality {past : List (Conn × QualityEvent)} (hmax : 1 ≤ maxFps) (_ : maxFps ≤ 60)
    (run : Run (viewerRuns maxFps) past c) :
    (1 ≤ c.effFps ∧ c.effFps ≤ c.fps ∧ c.fps ≤ maxFps ∧ c.quality ≤ 3) ∧
    (∀ q ≤ 3, c.qualitySetting = q → c.quality = q) ∧
    (∀ stalls sends now,
      let c' := QualityEvent.apply maxFps c (.window stalls sends now)
      (c.quality < c'.quality → (stalls > 2 ∧ stalls * 2 > sends) ∧ c.qualitySetting = 255 ∧ c.effFps ≤ 10) ∧
      (c.effFps < c'.effFps → c.quality = 0 ∨ c.qualitySetting ≤ 3)) ∧
    (c.qualitySetting = 255 → ∀ es : List QualityEvent, (∀ e ∈ es, e.StallFree) →
      2 * (c.quality + ⌈Real.logb 2 (c.fps / c.effFps)⌉₊) ≤ fullWindows maxFps c es →
      let c' := es.foldl (QualityEvent.apply maxFps) c
      c'.quality = 0 ∧ c'.effFps = c'.fps ∧ c'.fps = c.fps) := by
  have hsound := viewer_sound run hmax
  have hchosen : c.qualitySetting = 255 ∨ c.qualitySetting ≤ 3 ∧ c.quality = c.qualitySetting := hsound.chosen
  refine ⟨⟨hsound.pace.1, hsound.pace.2.1, hsound.pace.2.2, hsound.quality⟩, fun q hq hset => ?_,
    fun stalls sends now => ⟨fun hlower => ?_, fun hfaster => ?_⟩, fun hauto es hfree hwindows => ?_⟩
  · omega
  · exact window_lowers hlower
  · exact (window_raises hfaster).imp_right fun hfixed => (hchosen.resolve_left hfixed).1
  · exact stallFree_recovers hmax hsound (hsound.owes hauto) hfree hwindows

-- Three congested windows bring a new viewer at 30 down to 10 frames a second and one
-- step in colour. Six clean ones bring it back.
theorem adaptive_quality_recovers :
    let viewer := (Conn.fresh 1).authenticated reference (deskConfig false) 1 0 []
    let busy := (List.range 3).map fun k => QualityEvent.window 5 4 ((k + 1) * kSecond)
    let worn := busy.foldl (QualityEvent.apply 30) viewer
    let calm := (List.range 6).map fun k => QualityEvent.window 0 30 ((k + 4) * kSecond)
    (worn.effFps = 10 ∧ worn.quality = 1) ∧
      (calm.foldl (QualityEvent.apply 30) worn).quality = 0 ∧
        (calm.foldl (QualityEvent.apply 30) worn).effFps = 30 := by
  intro viewer busy worn calm
  have hrun : Run (viewerRuns 30) (history (QualityEvent.apply 30) viewer busy) worn :=
    run_events (Joined 30) (QualityEvent.apply 30)
      (authenticated_joined (Conn.fresh 1) reference (deskConfig false) 1 0 [] rfl) busy
  have hworn : (worn.fps = 30 ∧ worn.effFps = 10) ∧ worn.quality = 1 ∧ worn.qualitySetting = 255 := by decide
  obtain ⟨⟨hfps, heff⟩, hquality, hauto⟩ := hworn
  have hceil : ⌈Real.logb 2 ((worn.fps : ℝ) / worn.effFps)⌉₊ ≤ 2 := by
    rw [hfps, heff, Nat.ceil_le, Real.logb_le_iff_le_rpow (by norm_num) (by norm_num)]
    norm_num
  have hwindows : 2 * (worn.quality + ⌈Real.logb 2 ((worn.fps : ℝ) / worn.effFps)⌉₊) ≤
      fullWindows 30 worn calm := by
    have hsix : fullWindows 30 worn calm = 6 := by decide
    rw [hquality, hsix]
    omega
  have hfree : ∀ e ∈ calm, e.StallFree := by
    intro e he
    obtain ⟨k, -, rfl⟩ := List.mem_map.mp he
    rfl
  obtain ⟨hsharp, hfast, hsame⟩ :=
    (adaptive_quality (by decide) (by decide) hrun).2.2.2 hauto calm hfree hwindows
  exact ⟨⟨heff, hquality⟩, hsharp, hfast.trans (hsame.trans hfps)⟩

end

end TetherDesk.Host
