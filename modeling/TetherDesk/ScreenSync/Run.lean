import TetherDesk.Host.Screen.Lemmas
import TetherDesk.ScreenSync
import TetherDesk.Secure.Reference

namespace TetherDesk

open TetherDesk.Codec TetherDesk.Host TetherDesk.Client TetherDesk.Lib TetherDesk.Lib.Transition
open TetherDesk.Net TetherDesk.Secure

section ReadBack

end ReadBack

-- What can happen to the screen fields of a viewer's connection: a frame pumped,
-- the messages and timers that change them, any other message sent, a flush.
inductive ScreenEvent
  | pump (f : Frame) (now : Nat) (s : ScreenInfo) (threads : Nat) (schedule : List Nat) (masks : Nat → Bytes)
  | adapt (now : Nat)
  | settings (maxFps q fps : Nat)
  | refresh
  | ack (id : Nat)
  | switched
  | message (msg mask : Bytes)
  | flush (answers : List SockAnswer)

def ScreenEvent.apply (cr : Crypto) (c : Conn) : ScreenEvent → Option Conn
  | .pump f now s threads schedule masks =>
      if c.dead then some c else c.maybeSendFrame cr (some f) now s threads schedule masks
  | .adapt now => some (c.adaptQuality now)
  | .settings maxFps q fps => some (c.applySettings maxFps q fps)
  | .refresh => some { c with needFull := true }
  | .ack id => some (c.frameAck id)
  | .switched => some c.displaySwitched
  | .message msg mask => some (c.sendMsg cr msg mask)
  | .flush answers => some (c.flush answers)

-- The frames are ones that the protocol can carry, and the other messages are not
-- about the screen.
def ScreenEvent.Possible : ScreenEvent → Prop
  | .pump f _ _ _ _ _ => FrameFits f
  | .message msg _ =>
      (rdGetU8 (rdReaderInit msg)).1 ≠ RD_S_DISPLAY_INFO ∧ (rdGetU8 (rdReaderInit msg)).1 ≠ RD_S_FRAME
  | _ => True

-- Where the size of the frame is new, latest() still gives it when send_display_info
-- asks again.
def ScreenEvent.ReadsAgree (c : Conn) : ScreenEvent → Prop
  | .pump f _ s _ _ _ => f.width ≠ c.shadowW ∨ f.height ≠ c.shadowH → s.size = (f.width, f.height)
  | _ => True

-- The viewer's screen after the messages sent, v₀ being the one it had before.
def Host.Conn.viewer (v₀ : Remote) (c : Conn) : Remote := c.sent.foldl Remote.receive v₀

-- The viewer, the shadow and tile_q agree on the last frame encoded.
structure Synced (f : Frame) (c : Conn) (viewer : Remote) : Prop where
  encoded : c.encoded = some f
  fits : FrameFits f
  tileQ : c.tileQ.length = tileTotal f.width f.height
  shows : Shows f.width f.height f.pixels f.stride c.tileQ viewer
  shadow : ∀ X < f.width, ∀ Y < f.height, ∀ b < 4, shadowByte f c.shadow X Y b = frameByte f X Y b

-- What holds of a connection and its viewer in every run.
structure InStep (c : Conn) (viewer : Remote) : Prop where
  quality : c.quality ≤ 3
  synced : c.tileQ ≠ [] → ∃ f, Synced f c viewer ∧ (c.shadowW ≠ 0 → c.shadowW = f.width ∧ c.shadowH = f.height)
  blank : c.tileQ = [] ∨ c.shadowW = 0 → c.needFull = true
  sized : c.shadowW ≠ 0 →
    viewer.w = c.shadowW ∧ viewer.h = c.shadowH ∧ viewer.tex = true ∧
      c.shadow.length = c.shadowW * 4 * c.shadowH

-- Steps that leave the picture alone.
theorem InStep.keep {c c' : Conn} {viewer : Remote} (h : InStep c viewer) (hquality : c'.quality ≤ 3)
    (htileQ : c'.tileQ = c.tileQ) (hencoded : c'.encoded = c.encoded) (hshadow : c'.shadow = c.shadow)
    (hw : c'.shadowW = c.shadowW) (hh : c'.shadowH = c.shadowH) (hfull : c.needFull = true → c'.needFull = true) :
    InStep c' viewer := by
  refine ⟨hquality, fun hq => ?_, fun hb => ?_, fun hne => ?_⟩
  · rw [htileQ] at hq
    obtain ⟨f, hsync, hsize⟩ := h.synced hq
    refine ⟨f, ⟨hencoded.trans hsync.encoded, hsync.fits, ?_, ?_, ?_⟩, ?_⟩
    · rw [htileQ]
      exact hsync.tileQ
    · rw [htileQ]
      exact hsync.shows
    · rw [hshadow]
      exact hsync.shadow
    · rw [hw, hh]
      exact hsize
  · rw [htileQ, hw] at hb
    exact hfull (h.blank hb)
  · rw [hw, hh, hshadow]
    exact h.sized (hw ▸ hne)

section Pump

variable (cr : Crypto) (v₀ : Remote) {c c' : Conn} (f : Frame) (hf : FrameFits f)
include hf

end Pump

-- What one encoded frame does to host and viewer.
structure Exchange.Outcome (x : Exchange) (r : Encoded) : Prop where
  shadow_length : r.shadow.length = x.f.width * 4 * x.f.height
  shadow : ∀ X < x.f.width, ∀ Y < x.f.height, ∀ b < 4, shadowByte x.f r.shadow X Y b = frameByte x.f X Y b
  shown : ∃ tq, r.tileQ = some tq ∧ Shows x.f.width x.f.height x.f.pixels x.f.stride tq (x.after r)
  sent : ∃ sent : List Nat, sent.Nodup ∧ sent.length = r.tiles ∧
    (∀ k ∈ sent, k < x.total ∧
      (tileDirty x.f x.shadow x.full k = true ∨ refinable x.f x.shadow x.full x.tq₀ k = true)) ∧
    (∀ k < x.total, tileDirty x.f x.shadow x.full k = true → k ∈ sent) ∧
    ∃ remote, onFrame x.viewer (rdGetU8 (rdReaderInit (x.message r))).2 =
      some ⟨x.frameId, false, sent.map (drawnRect x.f), remote⟩ ∧ (sent.map (drawnRect x.f)).Nodup
  tiles : r.tiles = (List.range x.total).countP (tileDirty x.f x.shadow x.full) +
    min x.budget.toNat ((List.range x.total).countP (refinable x.f x.shadow x.full x.tq₀))
  refined : r.refined = min x.budget.toNat ((List.range x.total).countP (refinable x.f x.shadow x.full x.tq₀))

theorem Exchange.outcome (x : Exchange) {schedule : List Nat} {r : Encoded} (h : x.encode schedule = some r) :
    x.Outcome r := by
  obtain ⟨recs, hrecs⟩ := encode_spec x.f x.shadow x.full x.quality x.tileQ x.budget (x.threads + 1) schedule r
    (by omega) x.shadow_length h
  obtain ⟨tq, htq, -, hshows⟩ := Exchange.after_shows (x := x) hrecs
  refine ⟨hrecs.shadow_length, hrecs.shadow, ⟨tq, htq, hshows⟩, ?_, hrecs.tiles.trans hrecs.count,
    Exchange.count_refined (x := x) hrecs⟩
  refine ⟨recs.map SentTile.tile, hrecs.nodup, by rw [List.length_map, hrecs.tiles], ?_, hrecs.dirty, ?_⟩
  · intro k hk
    obtain ⟨p, hp, rfl⟩ := List.mem_map.mp hk
    exact ⟨hrecs.bound p hp, (hrecs.kinds p hp).imp And.left And.left⟩
  · refine ⟨_, (Exchange.onFrame_message (x := x) hrecs).2, drawnRect_nodup x.f _ ?_ hrecs.nodup⟩
    intro k hk
    obtain ⟨p, hp, rfl⟩ := List.mem_map.mp hk
    exact hrecs.bound p hp

end TetherDesk
