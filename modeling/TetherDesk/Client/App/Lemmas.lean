import TetherDesk.Client.App.Run

namespace TetherDesk.Client

open TetherDesk.Secure

-- Two states that differ only in what has been sent and in the input and drawing
-- state.
structure Quiet (a a' : App) : Prop where
  view : a'.toSessionView = a.toSessionView
  phase : a'.phase = a.phase
  active : a'.ch.active = a.ch.active
  authSent : a'.authSent = a.authSent
  authCalls : a'.authCalls = a.authCalls
  store : a'.store = a.store
  opened : a'.transport.state = a.transport.state

theorem Quiet.refl (a : App) : Quiet a a := ⟨rfl, rfl, rfl, rfl, rfl, rfl, rfl⟩

theorem Quiet.trans {a b c : App} (h₁ : Quiet a b) (h₂ : Quiet b c) : Quiet a c :=
  ⟨h₂.view.trans h₁.view, h₂.phase.trans h₁.phase, h₂.active.trans h₁.active, h₂.authSent.trans h₁.authSent,
    h₂.authCalls.trans h₁.authCalls, h₂.store.trans h₁.store, h₂.opened.trans h₁.opened⟩

section Frame

variable (cr : Crypto) (a : App)

theorem send_eq (msg : Bytes) : ∃ sendCtr transport, a.send cr msg =
    { a with ch := { a.ch with sendCtr := sendCtr }, transport := transport } := by
  unfold App.send
  by_cases hactive : a.ch.active = true
  · rw [if_neg (by simp [hactive])]
    exact ⟨_, _, rfl⟩
  · rw [if_pos (by simp [hactive])]
    exact ⟨a.ch.sendCtr, _, rfl⟩

theorem transportSend_state (t : AppTransport) (data : Bytes) : (t.send data).state = t.state := by
  unfold AppTransport.send
  split_ifs <;> rfl

theorem send_state (msg : Bytes) : (a.send cr msg).transport.state = a.transport.state := by
  unfold App.send
  split_ifs <;> exact transportSend_state _ _

theorem send_quiet (msg : Bytes) : Quiet a (a.send cr msg) := by
  have hstate := send_state cr a msg
  obtain ⟨sendCtr, transport, h⟩ := send_eq cr a msg
  rw [h] at hstate ⊢
  exact ⟨rfl, rfl, rfl, rfl, rfl, rfl, hstate⟩

theorem Quiet.sent {a b : App} (h : Quiet a b) (msg : Bytes) : Quiet a (b.send cr msg) :=
  h.trans (send_quiet cr b msg)

theorem sendPointer_quiet (wheelX wheelY : Nat) : Quiet a (a.sendPointer cr wheelX wheelY) := by
  unfold App.sendPointer
  dsimp only
  have hstart : Quiet a { a with ptrDirty := false } := ⟨rfl, rfl, rfl, rfl, rfl, rfl, rfl⟩
  split_ifs
  · exact hstart
  · exact hstart.sent cr _

theorem sendKey_quiet (hid : Nat) (down : Bool) : Quiet a (a.sendKey cr hid down) := by
  unfold App.sendKey
  dsimp only
  split_ifs
  · exact Quiet.refl a
  all_goals
    refine Quiet.sent cr ?_ _
    exact ⟨rfl, rfl, rfl, rfl, rfl, rfl, rfl⟩

theorem releaseInput_quiet : Quiet a (a.releaseInput cr) := by
  have hkeys : ∀ keys : List Nat,
      Quiet a (keys.foldl (fun a k => if a.held.contains k then a.sendKey cr k false else a) a) := by
    intro keys
    induction keys using List.reverseRecOn with
    | nil => exact Quiet.refl a
    | append_singleton keys k ih =>
        rw [List.foldl_append, List.foldl_cons, List.foldl_nil]
        split_ifs
        · exact ih.trans (sendKey_quiet cr _ _ _)
        · exact ih
  have h := hkeys (List.range 256)
  unfold App.releaseInput
  generalize (List.range 256).foldl (fun a k => if a.held.contains k then a.sendKey cr k false else a) a = b
    at h ⊢
  dsimp only
  split_ifs
  · refine Quiet.trans ?_ (sendPointer_quiet cr _ 0 0)
    exact ⟨h.view, h.phase, h.active, h.authSent, h.authCalls, h.store, h.opened⟩
  · exact h

theorem setFullscreen_quiet (on : Bool) : Quiet a (a.setFullscreen on) := by
  unfold App.setFullscreen
  split_ifs
  · exact Quiet.refl a
  · exact ⟨rfl, rfl, rfl, rfl, rfl, rfl, rfl⟩

theorem leaveSession_quiet : Quiet a a.leaveSession := by
  unfold App.leaveSession
  split_ifs
  · refine Quiet.trans ?_ (setFullscreen_quiet _ false)
    exact ⟨rfl, rfl, rfl, rfl, rfl, rfl, rfl⟩
  · exact Quiet.refl a

-- Giving up a connection touches nothing a session shows.
structure GivenUp (a a' : App) : Prop where
  view : a'.toSessionView = a.toSessionView
  phase : a'.phase = .None
  authCalls : a'.authCalls = a.authCalls
  known : a'.store.known = a.store.known

theorem failConnect_givenUp (why : Bytes) : GivenUp a (a.failConnect why) := by
  unfold App.failConnect
  dsimp only
  split_ifs <;> exact ⟨rfl, rfl, rfl, rfl⟩

structure Authed (a a' : App) : Prop where
  view : a'.toSessionView = a.toSessionView
  phase : a'.phase = .Auth
  active : a'.ch.active = a.ch.active
  authSent : a'.authSent = true
  authCalls : a'.authCalls = a.authCalls + 1
  store : a'.store = a.store

theorem sendAuth_authed : Authed a (a.sendAuth cr) := by
  have h := send_quiet cr a (putU8 RD_C_AUTH ++ rdHsAuthMac cr a.target.password a.transcript)
  exact ⟨h.view, rfl, h.active, rfl, congrArg (· + 1) h.authCalls, h.store⟩

end Frame

end TetherDesk.Client
