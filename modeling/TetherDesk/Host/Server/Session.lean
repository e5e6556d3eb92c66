import TetherDesk.Host.Server.Lemmas
import TetherDesk.Reader.Theorems

namespace TetherDesk.Host

open TetherDesk.Net TetherDesk.Secure TetherDesk.Lib.Table

theorem Served.uid {c c' : Conn} (h : Served c c') : c'.uid = c.uid := by
  obtain ⟨out, sent, sendCtr, screen, sentInput, uploads, rfl, -⟩ := h
  rfl

theorem Served.uploads (c : Conn) (uploads : List (Nat × Upload))
    (h : c.viewOnly = true → c.uploads = [] → uploads = []) :
    Served c (c.setUploads uploads) :=
  ⟨[], [], c.ch.sendCtr, c.toScreen, c.sentInput, uploads, by simp only [List.append_nil]; rfl, .refl _, h⟩

theorem Served.input (c : Conn) : Served c { c with sentInput := true } :=
  ⟨[], [], c.ch.sendCtr, c.toScreen, true, c.uploads, by simp only [List.append_nil], .refl _, fun _ h => h⟩

section

variable {σ : Type} {s s' s'' : Server σ} {uid : Nat}

theorem Serves.served (h : Serves Bystander s s') : Serves (Acts uid Served) s s' :=
  h.imp fun _ _ => Acts.of_bystander fun _ _ => Bystander.served

theorem Serves.served_trans (h₁ : Serves (Acts uid Served) s s') (h₂ : Serves (Acts uid Served) s' s'') :
    Serves (Acts uid Served) s s'' := by
  refine Serves.comp ?_ h₁ h₂
  intro a b c hab hbc
  exact hab.trans hbc (fun _ _ _ h h' => h.trans h') (fun _ _ h => h.uid)

end

section Uploads

variable {σ : Type} (cr : Crypto) (plat : Platform σ) (s : Server σ) (c : Conn)

theorem fileResultMsg_plain (id : Nat) (ok : Bool) (text : Bytes) : Plain (fileResultMsg id ok text) :=
  .of_type RD_S_FILE_RESULT rfl (by decide)

theorem os_serves (os : σ) : Serves Bystander s { s with os := os } := same_books_serves s rfl rfl

theorem beginUpload_serves (id size : Nat) (rawName mask : Bytes) (hrow : ∀ d ∈ s.conns, d.uid = c.uid → d = c) :
    Serves (Acts c.uid Served) s (s.beginUpload cr plat c id size rawName mask) := by
  unfold Server.beginUpload
  dsimp only
  by_cases hfiles : (!s.cfg.allowFiles) = true
  · rw [if_pos hfiles]
    exact (sendTo_serves cr s c.uid _ mask (fileResultMsg_plain _ _ _)).served
  rw [if_neg hfiles]
  by_cases hvo : c.viewOnly = true
  · rw [if_pos hvo]
    exact (sendTo_serves cr s c.uid _ mask (fileResultMsg_plain _ _ _)).served
  rw [if_neg hvo]
  by_cases hsize : size > RD_MAX_FILE_SIZE
  · rw [if_pos hsize]
    exact (sendTo_serves cr s c.uid _ mask (fileResultMsg_plain _ _ _)).served
  rw [if_neg hsize]
  by_cases hmany : c.uploads.length ≥ 4 ∨ (c.upload id).isSome = true
  · rw [if_pos hmany]
    exact (sendTo_serves cr s c.uid _ mask (fileResultMsg_plain _ _ _)).served
  rw [if_neg hmany]
  generalize plat.files.makeDirs s.os s.cfg.downloadsDir = os
  generalize uploadPath (plat.files.fileExists os) s.cfg.downloadsDir (safeName rawName) = path
  generalize plat.files.fopen os path = r
  obtain ⟨file, os'⟩ := r
  cases file with
  | none =>
      exact ((os_serves s os').bystander_trans (sendTo_serves cr _ c.uid _ mask (fileResultMsg_plain _ _ _))).served
  | some file =>
      have hopen : Serves (Acts c.uid Served) s ({ s with os := os' }.modify c.uid fun c =>
          c.setUploads (insertUpload id ⟨file, size, 0, path⟩ c.uploads)) := by
        refine changed_modify_serves s (by rfl) (by rfl) c.uid _ Served fun d hd huid => ?_
        rw [hrow d hd huid]
        exact Served.uploads c _ fun h => absurd h hvo
      exact ⟨hopen.conns, hopen.books⟩

theorem finishUpload_serves (id : Nat) (ok : Bool) (text mask : Bytes) :
    Serves (Acts c.uid Served) s (s.finishUpload cr plat c id ok text mask) := by
  unfold Server.finishUpload
  cases c.upload id with
  | none => exact (same_books_serves s rfl rfl).served
  | some u =>
      dsimp only
      generalize (if (!ok) = true then plat.files.remove (plat.files.fclose s.os u.file) u.path
        else plat.files.fclose s.os u.file) = os
      refine Serves.served_trans ?_ (sendTo_serves cr _ c.uid _ mask (fileResultMsg_plain _ _ _)).served
      refine changed_modify_serves s (by rfl) (by rfl) c.uid _ Served fun d _ _ => Served.uploads d _ fun _ h => ?_
      rw [h]
      rfl

theorem uploadChunk_serves (r : Reader) (mask : Bytes) :
    Serves (Acts c.uid Served) s (s.uploadChunk cr plat c r mask) := by
  have hsame : Serves (Acts c.uid Served) s s := (same_books_serves s rfl rfl).served
  unfold Server.uploadChunk
  dsimp only
  by_cases herr : (rdGetU32 r).2.err = true
  · rw [if_pos herr]
    exact hsame
  rw [if_neg herr]
  cases c.upload (rdGetU32 r).1 with
  | none => exact hsame
  | some u =>
      dsimp only
      generalize (if rdRemaining (rdGetU32 r).2 ≠ 0 then
        plat.files.fwrite s.os u.file
          ((rdGetBytes (rdGetU32 r).2 (rdRemaining (rdGetU32 r).2)).1.getD []) else (0, s.os)) = w
      obtain ⟨written, os⟩ := w
      dsimp only
      by_cases hlarge : add64 u.received (rdRemaining (rdGetU32 r).2) > u.size
      · rw [if_pos hlarge]
        exact finishUpload_serves cr plat s c _ false _ mask
      rw [if_neg hlarge]
      by_cases hfull : written ≠ rdRemaining (rdGetU32 r).2
      · rw [if_pos hfull]
        exact (os_serves s os).served.served_trans (finishUpload_serves cr plat _ c _ false _ mask)
      · rw [if_neg hfull]
        refine changed_modify_serves s (by rfl) (by rfl) c.uid _ Served fun d _ _ =>
          Served.uploads d _ fun _ h => ?_
        rw [h]
        rfl

theorem uploadEnd_serves (r : Reader) (mask : Bytes) :
    Serves (Acts c.uid Served) s (s.uploadEnd cr plat c r mask) := by
  have hsame : Serves (Acts c.uid Served) s s := (same_books_serves s rfl rfl).served
  unfold Server.uploadEnd
  dsimp only
  by_cases herr : (rdGetU32 r).2.err = true
  · rw [if_pos herr]
    exact hsame
  rw [if_neg herr]
  cases c.upload (rdGetU32 r).1 with
  | none => exact hsame
  | some u =>
      dsimp only
      split
      · exact finishUpload_serves cr plat s c _ false _ mask
      · exact finishUpload_serves cr plat s c _ true _ mask

end Uploads

section SessionMessages

variable {σ : Type} (cr : Crypto) (plat : Platform σ) (s : Server σ) (c : Conn) (r : Reader) (io : Io)

theorem settings_serves : Serves Bystander s (s.settings cr plat c r io) := by
  unfold Server.settings
  dsimp only
  by_cases herr : (rdGetU8 (rdGetU8 (rdGetU8 r).2).2).2.err = true
  · rw [if_pos herr]
    exact same_books_serves s rfl rfl
  rw [if_neg herr]
  generalize (if rdRemaining (rdGetU8 (rdGetU8 (rdGetU8 r).2).2).2 ≠ 0 then
    (rdGetU8 (rdGetU8 (rdGetU8 (rdGetU8 r).2).2).2).1 else 255) = res
  have happly : Serves Bystander s
      (s.modify c.uid fun c => c.applySettings s.cfg.maxFps (rdGetU8 r).1 (rdGetU8 (rdGetU8 r).2).1) :=
    modify_bystander s c.uid _ fun d => Bystander.screened d _
      ⟨.inl ⟨rfl, rfl⟩, fun h => h, ⟨rfl, rfl⟩, rfl, ⟨rfl, rfl⟩, rfl, [], by simp, rfl⟩
  generalize s.modify c.uid (fun c => c.applySettings s.cfg.maxFps (rdGetU8 r).1 (rdGetU8 (rdGetU8 r).2).1) =
    s₁ at happly ⊢
  have hscale : Serves Bystander s
      (if res ≠ 255 ∧ (!c.viewOnly) = true ∧ plat.capturer.supportsHighResolution s₁.os = true ∧
          decide (res = 0) ≠ plat.capturer.highResolution s₁.os then
        ({ s₁ with os := plat.capturer.setHighResolution s₁.os (res = 0) }.switchDisplay cr plat
          (plat.capturer.currentDisplay (plat.capturer.setHighResolution s₁.os (res = 0))) (io.mask 0)).notice cr
          (ascii (if res = 0 then "Sharp (full resolution) screen" else "Fast (half resolution) screen"))
            none (io.mask 1)
      else s₁) := by
    split
    · refine happly.bystander_trans (Serves.bystander_trans ?_ (notice_serves cr _ _ none (io.mask 1)))
      exact (os_serves s₁ _).bystander_trans (switchDisplay_serves cr plat _ _ _)
    · exact happly
  generalize (if res ≠ 255 ∧ (!c.viewOnly) = true ∧ plat.capturer.supportsHighResolution s₁.os = true ∧
      decide (res = 0) ≠ plat.capturer.highResolution s₁.os then
    ({ s₁ with os := plat.capturer.setHighResolution s₁.os (res = 0) }.switchDisplay cr plat
      (plat.capturer.currentDisplay (plat.capturer.setHighResolution s₁.os (res = 0))) (io.mask 0)).notice cr
      (ascii (if res = 0 then "Sharp (full resolution) screen" else "Fast (half resolution) screen"))
        none (io.mask 1)
    else s₁) = s₂ at hscale ⊢
  split
  · split
    · exact hscale.bystander_trans (switchDisplay_serves cr plat s₂ _ _)
    · exact hscale.bystander_trans (sendTo_serves cr s₂ c.uid _ _ (noticeMsg_plain _))
  · exact hscale

theorem pointer_serves : Serves (Acts c.uid Served) s (s.pointer plat c r) := by
  unfold Server.pointer
  dsimp only
  split
  · exact (same_books_serves s rfl rfl).served
  · exact changed_modify_serves s (by rfl) (by rfl) c.uid _ Served fun d _ _ => Served.input d

theorem key_serves : Serves (Acts c.uid Served) s (s.key plat c r) := by
  unfold Server.key
  dsimp only
  split
  · exact (same_books_serves s rfl rfl).served
  · exact changed_modify_serves s (by rfl) (by rfl) c.uid _ Served fun d _ _ => Served.input d

theorem clipboard_serves : Serves Bystander s (s.clipboard cr plat c r io) := by
  have hsame : Serves Bystander s s := same_books_serves s rfl rfl
  unfold Server.clipboard
  generalize rdGetBlob r = b
  obtain ⟨text, r⟩ := b
  cases text with
  | none => exact hsame
  | some text =>
      dsimp only
      split_ifs
      · exact hsame
      · exact hsame
      · refine Serves.bystander_trans ?_
          (broadcast_serves cr _ _ _ true _ (.of_type RD_S_CLIPBOARD rfl (by decide)))
        exact same_books_serves s rfl rfl

theorem chat_serves : Serves Bystander s (s.chat cr c r io) := by
  unfold Server.chat
  dsimp only
  split_ifs
  · exact same_books_serves s rfl rfl
  · refine Serves.bystander_trans ?_ (broadcast_serves cr _ _ _ false _ (.of_type RD_S_CHAT rfl (by decide)))
    exact same_books_serves s rfl rfl

theorem fileBegin_serves (hrow : ∀ d ∈ s.conns, d.uid = c.uid → d = c) :
    Serves (Acts c.uid Served) s (s.fileBegin cr plat c r io) := by
  unfold Server.fileBegin
  dsimp only
  split_ifs
  · exact beginUpload_serves cr plat s c _ _ _ _ hrow
  · exact (same_books_serves s rfl rfl).served

theorem frameAck_eq (id : Nat) : c.frameAck id = { c with acked := ackedAfter c.frameId c.acked id } := by
  unfold Conn.frameAck ackedAfter
  by_cases hwindow : toInt32 (sub32 id c.acked) > 0 ∧ toInt32 (sub32 id c.frameId) ≤ 0
  · rw [if_pos hwindow, if_pos hwindow]
  · rw [if_neg hwindow, if_neg hwindow]

theorem frameAck_bystander (id : Nat) (hid : id < 2 ^ 32) : Bystander c (c.frameAck id) := by
  have hids : ∃ ids : List Nat, (∀ i ∈ ids, i < 2 ^ 32) ∧
      ackedAfter c.frameId c.acked id = ids.foldl (ackedAfter c.frameId) c.acked := by
    refine ⟨[id], fun i hi => ?_, by rw [List.foldl_cons, List.foldl_nil]⟩
    rw [List.mem_singleton] at hi
    exact hi ▸ hid
  rw [frameAck_eq]
  generalize ackedAfter c.frameId c.acked id = acked at hids
  exact Bystander.screened c { c.toScreen with acked := acked }
    ⟨.inl ⟨rfl, rfl⟩, fun h => h, ⟨rfl, rfl⟩, rfl, ⟨rfl, rfl⟩, rfl, hids⟩

-- The branches of handle_session_message.
theorem handleSessionMessage_cases {P : Server σ → Prop} (type : Nat)
    (ack : type = RD_C_FRAME_ACK → P (s.modify c.uid fun c => c.frameAck (rdGetU32 r).1))
    (refresh : type = RD_C_REFRESH → P (s.modify c.uid fun c => { c with needFull := true }))
    (settings : type = RD_C_SETTINGS → P (s.settings cr plat c r io))
    (pointer : type = RD_C_POINTER → P (s.pointer plat c r))
    (key : type = RD_C_KEY → P (s.key plat c r))
    (clipboard : type = RD_C_CLIPBOARD → P (s.clipboard cr plat c r io))
    (chat : type = RD_C_CHAT → P (s.chat cr c r io))
    (ping : type = RD_C_PING → P (s.sendTo cr c.uid (putU8 RD_S_PONG ++ putU64 (rdGetU64 r).1) (io.mask 0 c.uid)))
    (fileBegin : type = RD_C_FILE_BEGIN → P (s.fileBegin cr plat c r io))
    (fileChunk : type = RD_C_FILE_CHUNK → P (s.uploadChunk cr plat c r (io.mask 0 c.uid)))
    (fileEnd : type = RD_C_FILE_END → P (s.uploadEnd cr plat c r (io.mask 0 c.uid)))
    (other : P s) : P (s.handleSessionMessage cr plat c r io type) := by
  unfold Server.handleSessionMessage
  by_cases hack : type = RD_C_FRAME_ACK
  · rw [if_pos hack]
    exact ack hack
  rw [if_neg hack]
  by_cases hrefresh : type = RD_C_REFRESH
  · rw [if_pos hrefresh]
    exact refresh hrefresh
  rw [if_neg hrefresh]
  by_cases hsettings : type = RD_C_SETTINGS
  · rw [if_pos hsettings]
    exact settings hsettings
  rw [if_neg hsettings]
  by_cases hpointer : type = RD_C_POINTER
  · rw [if_pos hpointer]
    exact pointer hpointer
  rw [if_neg hpointer]
  by_cases hkey : type = RD_C_KEY
  · rw [if_pos hkey]
    exact key hkey
  rw [if_neg hkey]
  by_cases hclipboard : type = RD_C_CLIPBOARD
  · rw [if_pos hclipboard]
    exact clipboard hclipboard
  rw [if_neg hclipboard]
  by_cases hchat : type = RD_C_CHAT
  · rw [if_pos hchat]
    exact chat hchat
  rw [if_neg hchat]
  by_cases hping : type = RD_C_PING
  · rw [if_pos hping]
    exact ping hping
  rw [if_neg hping]
  by_cases hbegin : type = RD_C_FILE_BEGIN
  · rw [if_pos hbegin]
    exact fileBegin hbegin
  rw [if_neg hbegin]
  by_cases hchunk : type = RD_C_FILE_CHUNK
  · rw [if_pos hchunk]
    exact fileChunk hchunk
  rw [if_neg hchunk]
  by_cases hend : type = RD_C_FILE_END
  · rw [if_pos hend]
    exact fileEnd hend
  rw [if_neg hend]
  exact other

-- Serving a session message acts on its sender alone, apart from messages and the
-- display.
theorem handleSessionMessage_serves (type : Nat) (hrow : ∀ d ∈ s.conns, d.uid = c.uid → d = c) :
    Serves (Acts c.uid Served) s (s.handleSessionMessage cr plat c r io type) := by
  have hack : Serves Bystander s (s.modify c.uid fun c => c.frameAck (rdGetU32 r).1) :=
    modify_bystander s c.uid _ fun d => frameAck_bystander d _ (rdGetU32_lt r)
  have hrefresh : Serves Bystander s (s.modify c.uid fun c => { c with needFull := true }) :=
    modify_bystander s c.uid _ fun d => Bystander.screened d { d.toScreen with needFull := true }
      ⟨.inl ⟨rfl, rfl⟩, fun _ => rfl, ⟨rfl, rfl⟩, rfl, ⟨rfl, rfl⟩, rfl, [], by simp, rfl⟩
  refine handleSessionMessage_cases cr plat s c r io type
    (fun _ => hack.served) (fun _ => hrefresh.served) (fun _ => (settings_serves cr plat s c r io).served)
    (fun _ => pointer_serves plat s c r) (fun _ => key_serves plat s c r)
    (fun _ => (clipboard_serves cr plat s c r io).served) (fun _ => (chat_serves cr s c r io).served)
    (fun _ => (sendTo_serves cr s c.uid _ _ ?_).served) (fun _ => fileBegin_serves cr plat s c r io hrow)
    (fun _ => uploadChunk_serves cr plat s c r _) (fun _ => uploadEnd_serves cr plat s c r _)
    (same_books_serves s rfl rfl).served
  exact .of_type RD_S_PONG rfl (by decide)

end SessionMessages

end TetherDesk.Host
