import TetherDesk.Host.Server.Apply

namespace TetherDesk.Host

open TetherDesk.Net TetherDesk.Secure TetherDesk.Lib.Table

-- The platform, and what the host remembers of its clipboard and displays.
def Server.outer {σ : Type} (s : Server σ) : σ × Nat × Bytes × List DisplayInfo :=
    (s.os, s.clipCount, s.lastClip, s.displays)

section Basics

variable {σ : Type} (cr : Crypto) (plat : Platform σ) (s : Server σ)

@[simp] theorem modify_outer (uid : Nat) (f : Conn → Conn) : (s.modify uid f).outer = s.outer := rfl
@[simp] theorem log_outer (text : Bytes) : (s.log text).outer = s.outer := rfl
@[simp] theorem print_outer (text : Bytes) : (s.print text).outer = s.outer := rfl
@[simp] theorem sendTo_outer (uid : Nat) (msg mask : Bytes) : (s.sendTo cr uid msg mask).outer = s.outer := rfl

@[simp] theorem broadcast_outer (msg : Bytes) (skip : Option Nat) (controlOnly : Bool) (mask : Nat → Bytes) :
    (s.broadcast cr msg skip controlOnly mask).outer = s.outer := rfl

@[simp] theorem closeConn_outer (c : Conn) (reason : Bytes) : (s.closeConn c reason).outer = s.outer := by
  unfold Server.closeConn
  split
  · rfl
  · split <;> rfl

@[simp] theorem openRelayConn_outer (control : Bool) (ticket viewerIp : Bytes) (io : Io) :
    (s.openRelayConn cr control ticket viewerIp io).outer = s.outer := by
  unfold Server.openRelayConn
  split
  · split <;> rfl
  · cases control <;> rfl

end Basics

section ViewOnly

variable {σ : Type} (cr : Crypto) (plat : Platform σ) (s : Server σ) {c : Conn} (r : Reader) (io : Io)

theorem settings_outer (hvo : c.viewOnly = true) : (s.settings cr plat c r io).outer = s.outer := by
  unfold Server.settings
  dsimp only
  split
  · rfl
  rw [if_neg (fun h : _ ∧ (!c.viewOnly) = true ∧ _ => by simp [hvo] at h)]
  split
  · rw [if_neg (show ¬ (!c.viewOnly) = true by simp [hvo])]
    rfl
  · rfl

theorem pointer_outer (hvo : c.viewOnly = true) : (s.pointer plat c r).outer = s.outer := by
  unfold Server.pointer
  dsimp only
  rw [if_pos (.inr (.inl hvo))]

theorem key_outer (hvo : c.viewOnly = true) : (s.key plat c r).outer = s.outer := by
  unfold Server.key
  dsimp only
  rw [if_pos (.inr (.inl hvo))]

theorem clipboard_outer (hvo : c.viewOnly = true) : (s.clipboard cr plat c r io).outer = s.outer := by
  unfold Server.clipboard
  generalize rdGetBlob r = b
  obtain ⟨text, r⟩ := b
  cases text with
  | none => rfl
  | some text =>
      dsimp only
      rw [if_pos (.inl hvo)]

theorem chat_outer (c : Conn) : (s.chat cr c r io).outer = s.outer := by
  unfold Server.chat
  dsimp only
  split <;> rfl

theorem fileBegin_outer (hvo : c.viewOnly = true) : (s.fileBegin cr plat c r io).outer = s.outer := by
  unfold Server.fileBegin Server.beginUpload
  dsimp only
  split
  · split
    · rfl
    · rfl
  · rfl

theorem upload_none (hup : c.uploads = []) (id : Nat) : c.upload id = none := by
  unfold Conn.upload
  rw [hup]
  rfl

theorem uploadChunk_outer (hup : c.uploads = []) (mask : Bytes) : (s.uploadChunk cr plat c r mask).outer =
    s.outer := by
  unfold Server.uploadChunk
  dsimp only
  rw [upload_none hup]
  split <;> rfl

theorem uploadEnd_outer (hup : c.uploads = []) (mask : Bytes) : (s.uploadEnd cr plat c r mask).outer = s.outer := by
  unfold Server.uploadEnd
  dsimp only
  rw [upload_none hup]
  split <;> rfl

-- No message of a view-only viewer without open uploads reaches the platform.
theorem handleSessionMessage_outer (hvo : c.viewOnly = true) (hup : c.uploads = []) (type : Nat) :
    (s.handleSessionMessage cr plat c r io type).outer = s.outer :=
  handleSessionMessage_cases (P := fun t : Server σ => t.outer = s.outer) cr plat s c r io type (fun _ => rfl)
    (fun _ => rfl) (fun _ => settings_outer cr plat s r io hvo) (fun _ => pointer_outer plat s r hvo)
    (fun _ => key_outer plat s r hvo) (fun _ => clipboard_outer cr plat s r io hvo)
      (fun _ => chat_outer cr s r io c)
    (fun _ => rfl) (fun _ => fileBegin_outer cr plat s r io hvo) (fun _ => uploadChunk_outer cr plat s r hup _)
    (fun _ => uploadEnd_outer cr plat s r hup _) rfl

end ViewOnly

section Messages

variable {σ : Type} (cr : Crypto) (plat : Platform σ) {s : Server σ} {c : Conn} {io : Io}

-- A message changes nothing outside before the login, and nothing for a view-only
-- viewer without open uploads.
theorem wsRound_outer (hrow : ∀ d ∈ s.conns, d.uid = c.uid → d = c)
    (hidle : c.state = .Active → c.viewOnly = true ∧ c.uploads = []) (hno : ¬ LogsIn cr s (.message c.uid io) c) :
    (s.wsRound cr plat c io).1.outer = s.outer := by
  have hround := wsRound_cases cr plat io hrow
  generalize (s.wsRound cr plat c io).1 = s' at hround ⊢
  cases hround with
  | opened c₂ _ _ m =>
      unfold Server.relayOpen
      split
      · cases openCommand m with
        | none => rfl
        | some ticket =>
            dsimp only
            split
            · exact openRelayConn_outer cr _ _ _ _ _
            · rfl
      · rfl
  | login c₂ _ halive hstate r hmsg hverdict _ => exact absurd ⟨io, r, rfl, hstate, halive, hmsg, hverdict⟩ hno
  | session c₂ hread _ hactive type r _ =>
      obtain ⟨hvo, hup⟩ := hidle hactive
      obtain ⟨ws', inn', recvCtr', rfl, -⟩ := hread
      exact (handleSessionMessage_outer cr plat _ r io hvo hup type).trans rfl
  | closed c₂ _ _ _ reason => exact closeConn_outer _ _ _
  | _ => rfl

end Messages

end TetherDesk.Host
