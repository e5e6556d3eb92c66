import TetherDesk.Host.Server.Runs

namespace TetherDesk.Host

open TetherDesk.Net TetherDesk.Secure TetherDesk.Lib.Table TetherDesk.Lib.Transition

-- What the frames for a viewer are made from, and the messages queued to it.
structure Picture where
  shadowW : Nat
  shadowH : Nat
  shadow : Bytes
  tileQ : List UInt8
  lossyTiles : Nat
  lastSeq : Nat
  needFull : Bool
  encoded : Option Frame
  frameId : Nat
  acked : Nat
  sent : List Bytes

def Conn.picture (c : Conn) : Picture :=
  ⟨c.shadowW, c.shadowH, c.shadow, c.tileQ, c.lossyTiles, c.lastSeq, c.needFull, c.encoded, c.frameId,
    c.acked, c.sent⟩

-- The first branch of maybe_send_frame.
def Picture.fitted (p : Picture) (f : Frame) (info : ScreenInfo) : Picture :=
  if f.width ≠ p.shadowW ∨ f.height ≠ p.shadowH then
    { p with
      shadow := List.replicate (f.width * f.height * 4) 0
      shadowW := f.width
      shadowH := f.height
      tileQ := []
      lossyTiles := 0
      needFull := true
      sent := p.sent ++ [displayInfoMsg info] }
  else p

-- Its end, after the encoder has returned.
def Picture.drawn (p : Picture) (f : Frame) (st : Encoded) : Picture :=
  let tileQ := st.tileQ.getD []
  let p' := { p with
    shadow := st.shadow
    tileQ := tileQ
    lossyTiles := tileQ.countP (· ≠ 0)
    lastSeq := f.seq
    needFull := false
    encoded := some f }
  if st.tiles = 0 then p'
  else
    { p' with
      frameId := (p.frameId + 1) % 2 ^ 32
      sent := p.sent ++ [frameMessage ((p.frameId + 1) % 2 ^ 32) p.needFull st.tiles st.out] }

-- What pumping a viewer does to its picture when f is the frame found.
inductive Pumped (p : Picture) (f : Option Frame) (info : ScreenInfo) (p' : Picture) : Prop
  | skipped (frame : f = none) (after : p' = p)
  | fitted (g : Frame) (frame : f = some g) (after : p' = p.fitted g info)
  | drawn (g : Frame) (frame : f = some g) (window : sub32 p.frameId p.acked < kMaxFramesInFlight)
      (quality : Nat) (budget : Int) (threads : Nat) (schedule : List Nat) (st : Encoded)
      (encoded : encode g (p.fitted g info).shadow (p.fitted g info).needFull quality
        (some (p.fitted g info).tileQ) budget
        (threads + 1) schedule = some st)
      (after : p' = (p.fitted g info).drawn g st)

theorem Picture.fitted_size (p : Picture) (f : Frame) (info : ScreenInfo) :
    (p.fitted f info).shadowW = f.width ∧ (p.fitted f info).shadowH = f.height := by
  unfold Picture.fitted
  by_cases hsize : f.width ≠ p.shadowW ∨ f.height ≠ p.shadowH
  · rw [if_pos hsize]
    exact ⟨rfl, rfl⟩
  · rw [if_neg hsize]
    rw [not_or, not_not, not_not] at hsize
    exact ⟨hsize.1.symm, hsize.2.symm⟩

section

variable (cr : Crypto) {c c' : Conn}

theorem sendMsg_picture (c : Conn) (msg mask : Bytes) (halive : c.dead = false) :
    (c.sendMsg cr msg mask).picture = { c.picture with sent := c.sent ++ [msg] } := by
  obtain ⟨out, sendCtr, h⟩ := Conn.sendMsg_alive cr c msg mask halive
  rw [h]
  rfl

theorem fitShadow_picture (c : Conn) (f : Frame) (info : ScreenInfo) (mask : Bytes) (halive : c.dead = false) :
    (c.fitShadow cr f info mask).picture = c.picture.fitted f info := by
  unfold Conn.fitShadow Picture.fitted
  by_cases hsize : f.width ≠ c.shadowW ∨ f.height ≠ c.shadowH
  · rw [if_pos hsize, if_pos (show f.width ≠ c.picture.shadowW ∨ f.height ≠ c.picture.shadowH from hsize),
      Conn.sendDisplayInfo]
    refine (sendMsg_picture cr _ _ mask ?_).trans rfl
    exact halive
  · rw [if_neg hsize, if_neg (show ¬ (f.width ≠ c.picture.shadowW ∨ f.height ≠ c.picture.shadowH) from hsize)]

theorem encodeFrame_picture (f : Frame) (now : Nat) (changed : Bool) (budget : Int) (threads : Nat)
    (schedule : List Nat)
    (mask : Bytes) (halive : c.dead = false)
    (h : c.encodeFrame cr f now changed budget threads schedule mask = some c') :
    ∃ st, encode f c.shadow c.needFull c.quality (some c.tileQ) budget (threads + 1) schedule = some st ∧
      c'.picture = c.picture.drawn f st := by
  unfold Conn.encodeFrame at h
  obtain ⟨st, hst, rfl⟩ := Option.map_eq_some_iff.mp h
  refine ⟨st, hst, ?_⟩
  unfold Picture.drawn
  dsimp only
  by_cases hnone : st.tiles = 0
  · rw [if_pos hnone, if_pos hnone]
    rfl
  · rw [if_neg hnone, if_neg hnone]
    refine (sendMsg_picture cr _ _ mask ?_).trans rfl
    exact halive

theorem adaptQuality_picture (c : Conn) (now : Nat) : (c.adaptQuality now).picture = c.picture := by
  obtain ⟨cleanWindows, effFps, quality, stalls, sends, adaptWindowUs, h, -⟩ := c.adaptQuality_eq now
  rw [h]
  rfl

theorem maybeSendFrame_picture (f : Option Frame) (now : Nat) (info : ScreenInfo) (threads : Nat)
    (schedule : List Nat)
    (masks : Nat → Bytes) (halive : c.dead = false)
    (h : c.maybeSendFrame cr f now info threads schedule masks = some c') :
    Pumped c.picture f info c'.picture := by
  cases f with
  | none =>
      obtain rfl := Option.some.inj h
      exact .skipped rfl rfl
  | some f =>
      have hfit := fitShadow_picture cr c f info (masks 0) halive
      have halive' := (fitShadow_unmoved cr c f info (masks 0)).dead.trans halive
      obtain ⟨lastChangeUs, stalls, rfl⟩ | ⟨lastChangeUs, changed, budget, hwindow, h⟩ :=
        Conn.offerFrame_cases cr _ c' f now
        threads schedule (masks 1) h
      · exact .fitted f rfl hfit
      · obtain ⟨st, hst, hdrawn⟩ := encodeFrame_picture cr (c := { c.fitShadow cr f info (masks 0) with
          lastChangeUs := lastChangeUs }) f now changed budget threads schedule (masks 1) halive' h
        have hshadow := congrArg Picture.shadow hfit
        have hfull := congrArg Picture.needFull hfit
        have htileQ := congrArg Picture.tileQ hfit
        have hids : sub32 (c.picture.fitted f info).frameId (c.picture.fitted f info).acked <
            kMaxFramesInFlight := by
          rw [← hfit]
          exact hwindow
        have hsame : (c.picture.fitted f info).frameId = c.picture.frameId ∧
            (c.picture.fitted f info).acked = c.picture.acked := by
          unfold Picture.fitted
          split <;> exact ⟨rfl, rfl⟩
        rw [hsame.1, hsame.2] at hids
        refine .drawn f rfl hids (c.fitShadow cr f info (masks 0)).quality budget threads schedule st ?_
          (hdrawn.trans (congrArg (Picture.drawn · f st) hfit))
        rw [← hshadow, ← hfull, ← htileQ]
        exact hst

end

-- What a step does to the picture of one row.
inductive Repainted {σ : Type} (e : ServerEvent σ) (c c' : Conn) : Prop
  | tended (new : List Bytes) (sent : c'.sent = c.sent ++ new) (frameless : ∀ m ∈ new, Frameless m)
      (plain : c.state ≠ .Auth → ∀ m ∈ new, Plain m) (screen : Tended c.toScreen c'.toScreen)
  | pumped (f : Option Frame) (now : Nat) (schedule : List Nat) (io : Io)
      (event : e = .pump c.uid f now schedule io)
      (alive : c.dead = false) (before : c.state = .Active) (info : ScreenInfo)
        (after : Pumped c.picture f info c'.picture)

theorem Told.repainted {σ : Type} {e : ServerEvent σ} {c c' : Conn} (h : Told e c c') : Repainted e c c' := by
  cases h with
  | plain new sent screen => exact .tended new sent (fun m hm => (screen.1 m hm).1) (fun _ => screen.1) screen.2
  | pumped f now schedule io event alive before cr info threads c₁ offered after =>
      have hpumped := maybeSendFrame_picture cr f now info threads schedule _ alive offered
      rw [← adaptQuality_picture c₁ now, ← after] at hpumped
      exact .pumped f now schedule io event alive before info hpumped
  | authenticated before new sent frameless screen =>
      exact .tended new sent frameless (fun hne => absurd before hne) screen

end TetherDesk.Host
