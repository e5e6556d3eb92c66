import TetherDesk.Lib.Transition
import Mathlib.Data.BitVec

namespace TetherDesk.Host

open Lib.Transition

def kMac : List (Nat × Int) :=
  [(4, 0x00), (5, 0x0B), (6, 0x08), (7, 0x02), (8, 0x0E), (9, 0x03), (10, 0x05),
   (11, 0x04), (12, 0x22), (13, 0x26), (14, 0x28), (15, 0x25), (16, 0x2E), (17, 0x2D),
   (18, 0x1F), (19, 0x23), (20, 0x0C), (21, 0x0F), (22, 0x01), (23, 0x11), (24, 0x20),
   (25, 0x09), (26, 0x0D), (27, 0x07), (28, 0x10), (29, 0x06), (30, 0x12), (31, 0x13),
   (32, 0x14), (33, 0x15), (34, 0x17), (35, 0x16), (36, 0x1A), (37, 0x1C), (38, 0x19),
   (39, 0x1D), (40, 0x24), (41, 0x35), (42, 0x33), (43, 0x30), (44, 0x31), (45, 0x1B),
   (46, 0x18), (47, 0x21), (48, 0x1E), (49, 0x2A), (50, 0x2A), (51, 0x29), (52, 0x27),
   (53, 0x32), (54, 0x2B), (55, 0x2F), (56, 0x2C), (57, 0x39), (58, 0x7A), (59, 0x78),
   (60, 0x63), (61, 0x76), (62, 0x60), (63, 0x61), (64, 0x62), (65, 0x64), (66, 0x65),
   (67, 0x6D), (68, 0x67), (69, 0x6F), (70, 0x69), (71, 0x6B), (72, 0x71), (73, 0x72),
   (74, 0x73), (75, 0x74), (76, 0x75), (77, 0x77), (78, 0x79), (79, 0x7C), (80, 0x7B),
   (81, 0x7D), (82, 0x7E), (83, 0x47), (84, 0x4B), (85, 0x43), (86, 0x4E), (87, 0x45),
   (88, 0x4C), (89, 0x53), (90, 0x54), (91, 0x55), (92, 0x56), (93, 0x57), (94, 0x58),
   (95, 0x59), (96, 0x5B), (97, 0x5C), (98, 0x52), (99, 0x41), (100, 0x0A), (101, 0x6E),
   (103, 0x51), (104, 0x69), (105, 0x6B), (106, 0x71), (107, 0x6A), (108, 0x40), (109, 0x4F),
   (110, 0x50), (111, 0x5A), (127, 0x4A), (128, 0x48), (129, 0x49), (224, 0x3B), (225, 0x38),
   (226, 0x3A), (227, 0x37), (228, 0x3E), (229, 0x3C), (230, 0x3D), (231, 0x36)]

def lookup (table : List (Nat × Int)) (hid : Nat) : Int := (table.lookup hid).getD (-1)

def hidToMacKeycode (hid : Nat) : Int := lookup kMac hid

-- The event flags of CoreGraphics.
def kCGEventFlagMaskShift : BitVec 64 := BitVec.twoPow 64 17
def kCGEventFlagMaskControl : BitVec 64 := BitVec.twoPow 64 18
def kCGEventFlagMaskAlternate : BitVec 64 := BitVec.twoPow 64 19
def kCGEventFlagMaskCommand : BitVec 64 := BitVec.twoPow 64 20

inductive CGMouseButton
  | left
  | right
  | center
deriving DecidableEq

inductive CGEventType
  | mouseMoved
  | mouseDown (num : CGMouseButton)
  | mouseUp (num : CGMouseButton)
  | mouseDragged (num : CGMouseButton)
deriving DecidableEq

inductive CGEvent (P : Type)
  | keyboard (code : Int) (down flagsChanged : Bool) (flags : BitVec 64)
  | mouse (type : CGEventType) (point : P) (num : CGMouseButton) (clicks : Nat) (flags : BitVec 64)
  | scrollWheel (wheelY wheelX : Int) (flags : BitVec 64)

-- Points and times are floating point: P and T with what the class asks of them.
structure Quartz (P T : Type) where
  offscreen : P
  zero : P
  epoch : T
  differ : P → P → Bool
  near : P → P → Bool
  soon : T → T → Bool

-- The captured display at the time of a call.
structure Geometry (P : Type) where
  toPoint : Int → Int → P
  toPixel : P → Int × Int

structure MacInput (P T : Type) where
  last : P
  buttons : UInt8
  flags : BitVec 64
  held : List Nat
  clickBtn : UInt8
  clickCount : Nat
  clickTime : T
  clickPos : P

variable {P T : Type}

def MacInput.new (q : Quartz P T) : MacInput P T where
  last := q.offscreen
  buttons := 0
  flags := 0
  held := []
  clickBtn := 0
  clickCount := 1
  clickTime := q.epoch
  clickPos := q.zero

def RD_BTN_LEFT : UInt8 := 1
def RD_BTN_MIDDLE : UInt8 := 2
def RD_BTN_RIGHT : UInt8 := 4

def RD_HID_LCTRL : Nat := 224
def RD_HID_LSHIFT : Nat := 225
def RD_HID_LALT : Nat := 226
def RD_HID_LGUI : Nat := 227
def RD_HID_RCTRL : Nat := 228
def RD_HID_RSHIFT : Nat := 229
def RD_HID_RALT : Nat := 230
def RD_HID_RGUI : Nat := 231

structure Btn where
  bit : UInt8
  num : CGMouseButton

def kBtns : List Btn := [⟨RD_BTN_LEFT, .left⟩, ⟨RD_BTN_RIGHT, .right⟩, ⟨RD_BTN_MIDDLE, .center⟩]

def modifierBit (hid : Nat) : BitVec 64 :=
  if hid = RD_HID_LSHIFT ∨ hid = RD_HID_RSHIFT then kCGEventFlagMaskShift
  else if hid = RD_HID_LCTRL ∨ hid = RD_HID_RCTRL then kCGEventFlagMaskControl
  else if hid = RD_HID_LALT ∨ hid = RD_HID_RALT then kCGEventFlagMaskAlternate
  else if hid = RD_HID_LGUI ∨ hid = RD_HID_RGUI then kCGEventFlagMaskCommand
  else 0

namespace MacInput

-- A loop whose body posts events.
def forEach {α : Type} (body : MacInput P T → α → MacInput P T × List (CGEvent P)) (s : MacInput P T)
    (xs : List α) :
    MacInput P T × List (CGEvent P) :=
  xs.foldl (fun r x => ((body r.1 x).1, r.2 ++ (body r.1 x).2)) (s, [])

def postMouse (s : MacInput P T) (t : CGEventType) (p : P) (num : CGMouseButton) (clicks : Nat) : CGEvent P :=
  .mouse t p num clicks s.flags

-- One button of the loop in pointer; `now` is the time read when it goes down.
def pointerButton (q : Quartz P T) (p : P) (now : T) (buttons : UInt8) (s : MacInput P T) (bt : Btn) :
    MacInput P T × List (CGEvent P) :=
  let was := s.buttons &&& bt.bit ≠ 0
  let isNow := buttons &&& bt.bit ≠ 0
  if was = isNow then (s, [])
  else if isNow then
    let again := bt.bit = s.clickBtn ∧ q.soon now s.clickTime ∧ q.near p s.clickPos
    let s := { s with
      clickCount := if again then s.clickCount + 1 else 1, clickBtn := bt.bit, clickTime := now, clickPos := p }
    (s, [s.postMouse (.mouseDown bt.num) p bt.num s.clickCount])
  else (s, [s.postMouse (.mouseUp bt.num) p bt.num s.clickCount])

def pointer (q : Quartz P T) (g : Geometry P) (clock : UInt8 → T) (s : MacInput P T) (x y : Int) (buttons : UInt8)
    (wheelX wheelY : Int) : MacInput P T × List (CGEvent P) :=
  let p := g.toPoint x y
  let moved := q.differ p s.last
  let drag := kBtns.find? fun bt => s.buttons &&& bt.bit ≠ 0
  let t := match drag with | some bt => .mouseDragged bt.num | none => .mouseMoved
  let num := match drag with | some bt => bt.num | none => .left
  let moves := if moved then [s.postMouse t p num 0] else []
  let s := if moved then { s with last := p } else s
  let (s, clicks) := s.forEach (fun s bt => pointerButton q p (clock bt.bit) buttons s bt) kBtns
  let s := { s with buttons := buttons }
  let wheel := if wheelX ≠ 0 ∨ wheelY ≠ 0 then [.scrollWheel wheelY wheelX s.flags] else []
  (s, moves ++ clicks ++ wheel)

def key (s : MacInput P T) (hid : Nat) (down : Bool) : MacInput P T × List (CGEvent P) :=
  let code := hidToMacKeycode hid
  if code < 0 then (s, [])
  else
    let bit := modifierBit hid
    let flags := if bit ≠ 0 then (if down then s.flags ||| bit else s.flags &&& ~~~bit) else s.flags
    let held := if down then s.held ++ [hid] else s.held.filter (· ≠ hid)
    ({ s with flags := flags, held := held }, [.keyboard code down (bit ≠ 0) flags])

def releaseAll (q : Quartz P T) (g : Geometry P) (clock : UInt8 → T) (s : MacInput P T) :
    MacInput P T × List (CGEvent P) :=
  let keys := s.held
  let (s, ups) := s.forEach (fun s k => s.key k false) keys
  let s : MacInput P T := { s with held := [] }
  let (s, clicks) :=
    if s.buttons ≠ 0 then
      let (x, y) := g.toPixel s.last
      s.pointer q g clock x y 0 0 0
    else (s, [])
  ({ s with flags := 0 }, ups ++ clicks)

section Modifiers

inductive Modifier
  | shift
  | control
  | option
  | command
deriving DecidableEq

namespace Modifier

def bit : Modifier → BitVec 64
  | shift => kCGEventFlagMaskShift
  | control => kCGEventFlagMaskControl
  | option => kCGEventFlagMaskAlternate
  | command => kCGEventFlagMaskCommand

def left : Modifier → Nat
  | shift => RD_HID_LSHIFT
  | control => RD_HID_LCTRL
  | option => RD_HID_LALT
  | command => RD_HID_LGUI

def right : Modifier → Nat
  | shift => RD_HID_RSHIFT
  | control => RD_HID_RCTRL
  | option => RD_HID_RALT
  | command => RD_HID_RGUI

def flagIndex : Modifier → Nat
  | shift => 17
  | control => 18
  | option => 19
  | command => 20

theorem bit_eq (m : Modifier) : m.bit = BitVec.twoPow 64 m.flagIndex := by cases m <;> rfl

theorem flagIndex_inj {m n : Modifier} (h : m.flagIndex = n.flagIndex) : m = n := by
  cases m <;> cases n <;> first | rfl | cases h

theorem flagIndex_lt (m : Modifier) : m.flagIndex < 64 := by cases m <;> decide

def Keys (m : Modifier) (hid : Nat) : Prop := hid = m.left ∨ hid = m.right

instance (m : Modifier) (hid : Nat) : Decidable (m.Keys hid) := inferInstanceAs (Decidable (_ ∨ _))

theorem Keys.unique {m n : Modifier} {hid : Nat} (hm : m.Keys hid) (hn : n.Keys hid) : m = n := by
  rcases hm with rfl | rfl <;> rcases hn with h | h <;> cases m <;> cases n <;> first | rfl | cases h

theorem Keys.keycode {m : Modifier} {hid : Nat} (h : m.Keys hid) : ¬ hidToMacKeycode hid < 0 := by
  rcases h with rfl | rfl <;> cases m <;> decide

end Modifier

theorem modifierBit_cases (hid : Nat) :
    (∃ m : Modifier, m.Keys hid ∧ modifierBit hid = m.bit) ∨
      (modifierBit hid = 0 ∧ ∀ m : Modifier, ¬ m.Keys hid) := by
  unfold modifierBit
  split_ifs with h₁ h₂ h₃ h₄
  · exact .inl ⟨.shift, h₁, rfl⟩
  · exact .inl ⟨.control, h₂, rfl⟩
  · exact .inl ⟨.option, h₃, rfl⟩
  · exact .inl ⟨.command, h₄, rfl⟩
  · refine .inr ⟨rfl, fun m => ?_⟩
    cases m <;> assumption

theorem and_bit_ne_zero (flags : BitVec 64) (m : Modifier) : flags &&& m.bit ≠ 0 ↔ flags.getLsbD m.flagIndex := by
  rw [m.bit_eq, BitVec.and_twoPow]
  split_ifs with h
  · have hne : BitVec.twoPow 64 m.flagIndex ≠ 0 := by cases m <;> decide
    exact ⟨fun _ => h, fun _ => hne⟩
  · simp [h]

end Modifiers

section Calls

inductive Call (P T : Type)
  | key (hid : Nat) (down : Bool)
  | pointer (g : Geometry P) (clock : UInt8 → T) (x y : Int) (buttons : UInt8) (wheelX wheelY : Int)
  | releaseAll (g : Geometry P) (clock : UInt8 → T)

def call (q : Quartz P T) (s : MacInput P T) : Call P T → MacInput P T
  | .key hid down => (s.key hid down).1
  | .pointer g clock x y buttons wheelX wheelY => (s.pointer q g clock x y buttons wheelX wheelY).1
  | .releaseAll g clock => (s.releaseAll q g clock).1

-- The flag of a modifier stands for its two keys.
def Summed (s : MacInput P T) : Prop := ∀ m : Modifier, s.flags &&& m.bit ≠ 0 ↔ ∃ hid ∈ s.held, m.Keys hid

def Released (s : MacInput P T) : Prop := s.held = [] ∧ s.flags = 0 ∧ s.buttons = 0

-- No modifier goes up while its twin on the other side is held.
def Sole (s : MacInput P T) : Call P T → Prop
  | .key hid false => ∀ m : Modifier, m.Keys hid → ∀ twin ∈ s.held, m.Keys twin → twin = hid
  | _ => True

end Calls

theorem forEach_keeps {α : Type} (K : MacInput P T → Prop)
    (body : MacInput P T → α → MacInput P T × List (CGEvent P)) (hbody : ∀ s x, K s → K (body s x).1)
    {s : MacInput P T} (h : K s) (xs : List α) : K (s.forEach body xs).1 :=
  List.foldlRecOn (motive := fun (r : MacInput P T × List (CGEvent P)) => K r.1) xs _ h fun r hr x _ =>
    hbody r.1 x hr

section Pointer

variable (q : Quartz P T) (g : Geometry P) (clock : UInt8 → T) (s : MacInput P T)

theorem pointerButton_keeps (p : P) (now : T) (buttons : UInt8) (bt : Btn) :
    (pointerButton q p now buttons s bt).1.flags = s.flags ∧
      (pointerButton q p now buttons s bt).1.held = s.held := by
  simp only [pointerButton]
  split_ifs <;> exact ⟨rfl, rfl⟩

theorem pointer_keeps (x y : Int) (buttons : UInt8) (wheelX wheelY : Int) :
    (s.pointer q g clock x y buttons wheelX wheelY).1.flags = s.flags ∧
      (s.pointer q g clock x y buttons wheelX wheelY).1.held = s.held ∧
      (s.pointer q g clock x y buttons wheelX wheelY).1.buttons = buttons := by
  have hmoved (moved : Bool) (p : P) :
      (if moved then { s with last := p } else s).flags = s.flags ∧
        (if moved then { s with last := p } else s).held = s.held := by
    split_ifs <;> exact ⟨rfl, rfl⟩
  obtain ⟨hflags, hheld⟩ := forEach_keeps (fun t => t.flags = s.flags ∧ t.held = s.held)
    (fun t bt => pointerButton q (g.toPoint x y) (clock bt.bit) buttons t bt)
    (fun t bt ht => by
      obtain ⟨hflags, hheld⟩ := pointerButton_keeps q t (g.toPoint x y) (clock bt.bit) buttons bt
      exact ⟨hflags.trans ht.1, hheld.trans ht.2⟩)
    (hmoved (q.differ (g.toPoint x y) s.last) (g.toPoint x y)) kBtns
  exact ⟨hflags, hheld, rfl⟩

-- Its loop runs over a copy of the keys, and what key() leaves is overwritten.
theorem releaseAll_released : Released (s.releaseAll q g clock).1 := by
  simp only [releaseAll]
  split_ifs with hbuttons
  · obtain ⟨-, hheld, hoff⟩ := pointer_keeps q g clock
      { (s.forEach (fun s k => s.key k false) s.held).1 with held := [] }
      (g.toPixel (s.forEach (fun s k => s.key k false) s.held).1.last).1
      (g.toPixel (s.forEach (fun s k => s.key k false) s.held).1.last).2 0 0 0
    exact ⟨hheld, rfl, hoff⟩
  · exact ⟨rfl, rfl, not_not.mp hbuttons⟩

theorem Released.summed {s : MacInput P T} (h : Released s) : Summed s := by
  intro m
  rw [h.1, h.2.1]
  simp

end Pointer

section Key

variable (q : Quartz P T) (s : MacInput P T) {hid : Nat}

theorem modifierBit_eq {m : Modifier} (h : m.Keys hid) : modifierBit hid = m.bit := by
  rcases modifierBit_cases hid with ⟨n, hn, hbit⟩ | ⟨-, hnone⟩
  · rw [hbit, hn.unique h]
  · exact absurd h (hnone m)

theorem bit_ne_zero (m : Modifier) : m.bit ≠ 0 := by cases m <;> decide

theorem key_modifier {m : Modifier} (h : m.Keys hid) (down : Bool) :
    (s.key hid down).1 =
      { s with
        flags := if down then s.flags ||| m.bit else s.flags &&& ~~~m.bit
        held := if down then s.held ++ [hid] else s.held.filter (· ≠ hid) } := by
  simp only [key, if_neg h.keycode, modifierBit_eq h, if_pos (bit_ne_zero m)]

theorem key_other (h : ∀ m : Modifier, ¬ m.Keys hid) (down : Bool) :
    (s.key hid down).1.flags = s.flags ∧
      ∀ m : Modifier, (∃ k ∈ (s.key hid down).1.held, m.Keys k) ↔ ∃ k ∈ s.held, m.Keys k := by
  have hbit : modifierBit hid = 0 := by
    rcases modifierBit_cases hid with ⟨m, hm, -⟩ | ⟨hbit, -⟩
    · exact absurd hm (h m)
    · exact hbit
  simp only [key, hbit, ne_eq, not_true_eq_false, if_false]
  split_ifs with hcode hdown
  · exact ⟨rfl, fun m => Iff.rfl⟩
  · refine ⟨rfl, fun m => ⟨fun ⟨k, hk, hm⟩ => ?_, fun ⟨k, hk, hm⟩ => ⟨k, List.mem_append_left _ hk, hm⟩⟩⟩
    rcases List.mem_append.mp hk with hk | hk
    · exact ⟨k, hk, hm⟩
    · exact absurd (List.mem_singleton.mp hk ▸ hm) (h m)
  · refine ⟨rfl, fun m => ⟨fun ⟨k, hk, hm⟩ => ⟨k, (List.mem_filter.mp hk).1, hm⟩, fun ⟨k, hk, hm⟩ => ?_⟩⟩
    have hne : k ≠ hid := fun he => h m (he ▸ hm)
    exact ⟨k, List.mem_filter.mpr ⟨hk, by simpa using hne⟩, hm⟩

theorem getLsbD_or_bit (flags : BitVec 64) (m n : Modifier) :
    (flags ||| m.bit).getLsbD n.flagIndex = true ↔ flags.getLsbD n.flagIndex ∨ m = n := by
  rw [m.bit_eq, BitVec.getLsbD_or, BitVec.getLsbD_twoPow]
  have hinj : m.flagIndex = n.flagIndex ↔ m = n := ⟨Modifier.flagIndex_inj, congrArg _⟩
  simp [m.flagIndex_lt, hinj]

theorem getLsbD_and_not_bit (flags : BitVec 64) (m n : Modifier) :
    (flags &&& ~~~m.bit).getLsbD n.flagIndex = true ↔ flags.getLsbD n.flagIndex ∧ m ≠ n := by
  rw [m.bit_eq, BitVec.getLsbD_and, BitVec.getLsbD_not, BitVec.getLsbD_twoPow]
  have hinj : m.flagIndex = n.flagIndex ↔ m = n := ⟨Modifier.flagIndex_inj, congrArg _⟩
  simp [m.flagIndex_lt, n.flagIndex_lt, hinj]

theorem key_down_summed (h : Summed s) : Summed (s.key hid true).1 := by
  intro n
  rw [and_bit_ne_zero]
  have hn := (and_bit_ne_zero _ _).symm.trans (h n)
  rcases modifierBit_cases hid with ⟨m, hm, -⟩ | ⟨-, hnone⟩
  · rw [key_modifier s hm]
    simp only [if_true, getLsbD_or_bit, hn, List.mem_append, List.mem_singleton, or_and_right, exists_or,
      exists_eq_left]
    exact or_congr_right ⟨fun hmn => hmn ▸ hm, hm.unique⟩
  · obtain ⟨hflags, hheld⟩ := key_other s hnone true
    rw [hflags, hheld, hn]

-- The flag goes whatever the twin does; only a held twin needed it.
theorem key_up_summed (h : Summed s) : Summed (s.key hid false).1 ↔ Sole s (.key hid false : Call P T) := by
  have hs (n) := (and_bit_ne_zero _ _).symm.trans (h n)
  rcases modifierBit_cases hid with ⟨m, hm, -⟩ | ⟨-, hnone⟩
  · have hstep (n : Modifier) : (s.key hid false).1.flags.getLsbD n.flagIndex = true ↔
        (∃ k ∈ s.held, n.Keys k) ∧ m ≠ n := by
      rw [key_modifier s hm, ← hs]
      exact getLsbD_and_not_bit _ _ _
    have hheld (n : Modifier) : (∃ k ∈ (s.key hid false).1.held, n.Keys k) ↔
        ∃ k ∈ s.held, n.Keys k ∧ k ≠ hid := by
      rw [key_modifier s hm]
      simp [List.mem_filter, and_assoc, and_left_comm, and_comm]
    constructor
    · intro hsum n hn twin htwin hkeys
      by_contra hne
      have hnot := mt (hstep n).mp fun ⟨_, hmn⟩ => hmn (hm.unique hn)
      exact hnot ((and_bit_ne_zero _ _).mp ((hsum n).mpr ((hheld n).mpr ⟨twin, htwin, hkeys, hne⟩)))
    · intro hsole n
      rw [and_bit_ne_zero, hstep, hheld]
      constructor
      · rintro ⟨⟨k, hk, hkeys⟩, hmn⟩
        exact ⟨k, hk, hkeys, fun he => hmn (hm.unique (he ▸ hkeys))⟩
      · rintro ⟨k, hk, hkeys, hne⟩
        exact ⟨⟨k, hk, hkeys⟩, fun hmn => hne (hsole n (hmn ▸ hm) k hk hkeys)⟩
  · obtain ⟨hflags, hheld⟩ := key_other s hnone false
    refine ⟨fun _ n hn => absurd hn (hnone n), fun _ n => ?_⟩
    rw [hflags, hheld]
    exact h n

theorem call_summed (h : Summed s) (c : Call P T) : Summed (s.call q c) ↔ Sole s c := by
  cases c with
  | key hid down =>
      cases down with
      | false => exact key_up_summed s h
      | true => exact iff_of_true (key_down_summed s h) trivial
  | pointer g clock x y buttons wheelX wheelY =>
      obtain ⟨hflags, hheld, -⟩ := pointer_keeps q g clock s x y buttons wheelX wheelY
      refine iff_of_true (fun m => ?_) trivial
      rw [call, hflags, hheld]
      exact h m
  | releaseAll g clock => exact iff_of_true (releaseAll_released q g clock s).summed trivial

end Key

section Runs

variable (q : Quartz P T)

theorem new_summed : Summed (MacInput.new q) := by simp [Summed, MacInput.new]

theorem states_summed {s : MacInput P T} (h : Summed s) (calls : List (Call P T)) :
    (∀ t ∈ statesOf (history (call q) s calls) (calls.foldl (call q) s), Summed t) ↔
      ∀ p ∈ history (call q) s calls, Sole p.1 p.2 := by
  induction calls generalizing s with
  | nil => simpa [history, statesOf] using h
  | cons c calls ih =>
      have hstep := call_summed q s h c
      by_cases hsole : Sole s c
      · have hrest := ih (hstep.mpr hsole)
        simp only [history, statesOf, List.map_cons, List.cons_append, List.forall_mem_cons,
          List.foldl_cons] at hrest ⊢
        rw [hrest]
        simp [h, hsole]
      · refine iff_of_false (fun hall => hsole (hstep.mp (hall _ ?_))) fun hall => hsole (hall _ List.mem_cons_self)
        cases calls <;> simp [history, statesOf]

-- After every call the flags are those of the held keys, as long as no modifier goes up
-- while its twin is down.
theorem flags_follow_held (calls : List (Call P T)) :
    ((∀ s ∈ statesOf (history (call q) (MacInput.new q) calls) (calls.foldl (call q) (MacInput.new q)), Summed s) ↔
        ∀ p ∈ history (call q) (MacInput.new q) calls, Sole p.1 p.2) ∧
      ∀ g clock, Released (calls.foldl (call q) (MacInput.new q) |>.call q (.releaseAll g clock)) :=
  ⟨states_summed q (new_summed q) calls, fun g clock => releaseAll_released q g clock _⟩

-- Both Shift keys go down and one of them up.
def bothShifts : List (Call Unit Unit) :=
    [.key RD_HID_LSHIFT true, .key RD_HID_RSHIFT true, .key RD_HID_RSHIFT false]

def stillQuartz : Quartz Unit Unit := ⟨(), (), (), fun _ _ => false, fun _ _ => false, fun _ _ => false⟩

theorem flags_lose_held : ¬ ∀ (P T : Type) (q : Quartz P T) (calls : List (Call P T)),
    ∀ s ∈ statesOf (history (call q) (MacInput.new q) calls) (calls.foldl (call q) (MacInput.new q)), Summed s := by
  intro hall
  have hend := hall Unit Unit stillQuartz bothShifts
      (bothShifts.foldl (call stillQuartz) (MacInput.new stillQuartz))
    (by simp [statesOf]) .shift
  revert hend
  decide

end Runs

end MacInput

end TetherDesk.Host
