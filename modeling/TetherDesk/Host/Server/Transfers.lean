import TetherDesk.Host.Server.Holdings
import TetherDesk.Host.Server.Runs

namespace TetherDesk.Host

open TetherDesk.Net TetherDesk.Secure TetherDesk.Lib.Stdio TetherDesk.Lib.Table TetherDesk.Lib.Transition

section Uploads

variable (c : Conn) (id : Nat) (u : Upload)

theorem mem_insertUpload {l : List (Nat × Upload)} {x : Nat × Upload} : x ∈ insertUpload id u l ↔
    x = (id, u) ∨ x ∈ l := by
  induction l with
  | nil => simp [insertUpload]
  | cons v rest ih =>
      unfold insertUpload
      split
      · rw [List.mem_cons]
      · rw [List.mem_cons, ih, List.mem_cons]
        exact or_left_comm

theorem insertUpload_length (l : List (Nat × Upload)) : (insertUpload id u l).length = l.length + 1 := by
  induction l with
  | nil => rfl
  | cons v rest ih =>
      unfold insertUpload
      split
      · rfl
      · rw [List.length_cons, ih, List.length_cons]

theorem insertUpload_nodup {l : List (Nat × Upload)} (h : (l.map Prod.fst).Nodup) (hnew : ∀ x ∈ l, x.1 ≠ id) :
    ((insertUpload id u l).map Prod.fst).Nodup := by
  induction l with
  | nil => simp [insertUpload]
  | cons v rest ih =>
      rw [List.map_cons, List.nodup_cons] at h
      unfold insertUpload
      split
      · rw [List.map_cons, List.nodup_cons]
        refine ⟨fun hid => ?_, List.nodup_cons.mpr h⟩
        obtain ⟨x, hx, hxid⟩ := List.mem_map.mp hid
        exact hnew x hx hxid
      · rw [List.map_cons, List.nodup_cons]
        refine ⟨fun hv => ?_, ih h.2 fun x hx => hnew x (List.mem_cons_of_mem _ hx)⟩
        obtain ⟨x, hx, hxv⟩ := List.mem_map.mp hv
        rcases (mem_insertUpload id u).mp hx with rfl | hx
        · exact hnew v List.mem_cons_self hxv.symm
        · exact h.1 (List.mem_map.mpr ⟨x, hx, hxv⟩)

-- Looking an id up finds the entry with it.
theorem upload_mem {c : Conn} {id : Nat} {u : Upload} (h : c.upload id = some u) : (id, u) ∈ c.uploads := by
  unfold Conn.upload at h
  obtain ⟨x, hx, rfl⟩ := Option.map_eq_some_iff.mp h
  have hid : x.1 = id := by simpa using List.find?_some hx
  rw [← hid]
  exact List.mem_of_find?_eq_some hx

theorem upload_of_mem {c : Conn} {id : Nat} {u : Upload} (hids : (c.uploads.map Prod.fst).Nodup)
    (h : (id, u) ∈ c.uploads) :
    c.upload id = some u := by
  have hfind := find_row Prod.fst hids h
  unfold Conn.upload
  rw [hfind]
  rfl

theorem upload_eq_none {c : Conn} {id : Nat} : c.upload id = none ↔ ∀ x ∈ c.uploads, x.1 ≠ id := by
  unfold Conn.upload
  rw [Option.map_eq_none_iff, List.find?_eq_none]
  simp

end Uploads

section Handlers

-- The row with a uid has new uploads, and was sent reports of success.
def Rows {σ : Type} (s s' : Server σ) (uid : Nat) (uploads : List (Nat × Upload)) (saved : List Bytes) : Prop :=
  s'.holdings = s.holdings.map fun h =>
    if h.uid = uid then { h with uploads := uploads, saved := h.saved ++ saved } else h

variable {σ : Type} (cr : Crypto) {plat : Platform σ} (fs : HostFiles plat) {s : Server σ} {c : Conn}

-- What a message of a transfer does for its sender.
inductive Filed (fs : HostFiles plat) (s : Server σ) (c : Conn) : FileMessage → Server σ → Prop
  | rejected {id size : Nat} {name : Bytes} {t : Server σ} (refused : s.opensAt plat c id size name = none)
      (kept : Kept fs s t) : Filed fs s c (.start id size name) t
  | began {id size : Nat} {name : Bytes} {t : Server σ} (path : Bytes) (f : Nat)
      (opens : s.opensAt plat c id size name = some path) (free : c.upload id = none) (few : c.uploads.length < 4)
      (small : size ≤ RD_MAX_FILE_SIZE) (rows : Rows s t c.uid (insertUpload id ⟨f, size, 0, path⟩ c.uploads) [])
      (opened : Opened (fs.view s.os) f path (fs.view t.os)) : Filed fs s c (.start id size name) t
  | unknown {m : FileMessage} {t : Server σ} {id : Nat} (names : m = .finish id ∨ ∃ data, m = .chunk id data)
      (free : c.upload id = none) (kept : Kept fs s t) : Filed fs s c m t
  | wrote {id : Nat} {data : Bytes} {t : Server σ} (u : Upload) (held : c.upload id = some u)
      (fits : u.received + data.length ≤ u.size)
        (rows : Rows s t c.uid (c.received id (u.received + data.length)).uploads [])
      (stored : data = [] ∧ fs.view t.os = fs.view s.os ∨
        Wrote (fs.view s.os) u.file data data.length (fs.view t.os)) : Filed fs s c (.chunk id data) t
  | failed {m : FileMessage} {t : Server σ} {id : Nat} (u : Upload) (v v' : Storage Bytes UInt8) (ok : Bool)
      (names : m = .finish id ∨ ∃ data, m = .chunk id data) (held : c.upload id = some u)
      (before : v = fs.view s.os ∨ ∃ data n, Wrote (fs.view s.os) u.file data n v)
      (rows : Rows s t c.uid (c.eraseUpload id).uploads []) (closed : Closed v u.file ok v')
      (removed : Removed v' u.path (fs.view t.os)) : Filed fs s c m t
  | saved {id : Nat} {t : Server σ} (u : Upload) (held : c.upload id = some u) (complete : u.received = u.size)
      (rows : Rows s t c.uid (c.eraseUpload id).uploads [fileResultMsg id true (ascii "Saved to " ++ u.path)])
      (closed : Closed (fs.view s.os) u.file (fs.closes s.os u.file) (fs.view t.os)) : Filed fs s c (.finish id) t

theorem modify_rows {t : Server σ} (hconns : t.conns = s.conns) (hrow : ∀ d ∈ s.conns, d.uid = c.uid → d = c)
    (f : Conn → Conn) {uploads : List (Nat × Upload)} {saved : List Bytes}
    (h : (f c).holding = { c.holding with uploads := uploads, saved := c.holding.saved ++ saved }) :
    Rows s (t.modify c.uid f) c.uid uploads saved := by
  unfold Rows Server.holdings Server.modify
  rw [List.map_map, List.map_map, hconns]
  refine List.map_congr_left fun d hd => ?_
  dsimp only [Function.comp]
  by_cases huid : d.uid = c.uid
  · rw [if_pos huid, if_pos (show d.holding.uid = c.uid from huid), hrow d hd huid, h]
  · rw [if_neg huid, if_neg (show d.holding.uid ≠ c.uid from huid)]

theorem finishUpload_rows (hrow : ∀ d ∈ s.conns, d.uid = c.uid → d = c) (halive : c.dead = false) {id : Nat}
    {u : Upload}
    (held : c.upload id = some u) (ok : Bool) (text mask : Bytes) :
    Rows s (s.finishUpload cr plat c id ok text mask) c.uid (c.eraseUpload id).uploads
        (if ok then [fileResultMsg id true text] else []) ∧
      ∃ v, Closed (fs.view s.os) u.file (fs.closes s.os u.file) v ∧
        (if ok then fs.view (s.finishUpload cr plat c id ok text mask).os = v
          else Removed v u.path (fs.view (s.finishUpload cr plat c id ok text mask).os)) := by
  unfold Server.finishUpload
  rw [held]
  dsimp only
  unfold Server.sendTo
  rw [modify_modify _ c.uid (fun c => c.eraseUpload id) _ fun _ => rfl]
  refine ⟨?_, fs.view (plat.files.fclose s.os u.file), fs.fclose s.os u.file, ?_⟩
  · refine modify_rows rfl hrow _ ?_
    cases ok with
    | true => exact sendMsg_saved cr (c.eraseUpload id) _ mask (fileSaved_saved id text) halive
    | false =>
        refine (sendMsg_holding cr (c.eraseUpload id) _ mask (fileSaved_refused id text)).trans ?_
        rw [if_neg (by decide), List.append_nil]
        rfl
  · cases ok with
    | true => rfl
    | false => exact fs.remove _ u.path

theorem beginUpload_filed (hrow : ∀ d ∈ s.conns, d.uid = c.uid → d = c) (id size : Nat) (name mask : Bytes) :
    Filed fs s c (.start id size name) (s.beginUpload cr plat c id size name mask) := by
  have hreject : ∀ t : Server σ, Kept fs s t → ∀ why, s.opensAt plat c id size name = none →
      Filed fs s c (.start id size name) (t.sendTo cr c.uid (fileResultMsg id false why) mask) :=
        fun t ht why hnone =>
    .rejected hnone (ht.trans (sendTo_kept cr fs t c.uid _ mask (fileSaved_refused id why)))
  unfold Server.beginUpload
  unfold Server.opensAt at hreject
  dsimp only at hreject ⊢
  by_cases hallow : (!s.cfg.allowFiles) = true
  · rw [if_pos hallow]
    exact hreject s (.refl fs s) _ (if_pos (.inl hallow))
  rw [if_neg hallow]
  by_cases hvo : c.viewOnly = true
  · rw [if_pos hvo]
    exact hreject s (.refl fs s) _ (if_pos (.inr (.inl hvo)))
  rw [if_neg hvo]
  by_cases hsize : size > RD_MAX_FILE_SIZE
  · rw [if_pos hsize]
    exact hreject s (.refl fs s) _ (if_pos (.inr (.inr (.inl hsize))))
  rw [if_neg hsize]
  by_cases hmany : c.uploads.length ≥ 4 ∨ (c.upload id).isSome = true
  · rw [if_pos hmany]
    exact hreject s (.refl fs s) _ (if_pos (.inr (.inr (.inr hmany))))
  rw [if_neg hmany]
  have hpass : ¬ ((!s.cfg.allowFiles) = true ∨ c.viewOnly = true ∨ size > RD_MAX_FILE_SIZE ∨ c.uploads.length ≥ 4 ∨
      (c.upload id).isSome = true) := by
    rintro (h | h | h | h)
    exacts [hallow h, hvo h, hsize h, hmany h]
  have hopens : s.opensAt plat c id size name = _ := if_neg hpass
  rw [if_neg hpass] at hreject
  dsimp only at hopens
  rw [not_or] at hmany
  have hdirs := fs.makeDirs s.os s.cfg.downloadsDir
  generalize plat.files.makeDirs s.os s.cfg.downloadsDir = os at hopens hreject hdirs ⊢
  generalize uploadPath (plat.files.fileExists os) s.cfg.downloadsDir (safeName name) = path at hopens hreject ⊢
  have hopened := fs.fopen os path
  have hfailed := fs.fopen_none os path
  generalize plat.files.fopen os path = r at hopens hreject hopened hfailed ⊢
  obtain ⟨file, os'⟩ := r
  cases file with
  | none =>
      refine hreject { s with os := os' } (os_kept fs s os' ?_) _ rfl
      exact (hfailed rfl).trans hdirs
  | some f =>
      refine .began path f hopens (by simpa using hmany.2) (by omega) (by omega) (modify_rows rfl hrow _ ?_) ?_
      · unfold Conn.holding
        dsimp only [Conn.setUploads]
        rw [List.append_nil]
      · exact hdirs ▸ hopened f rfl

theorem uploadEnd_filed (hrow : ∀ d ∈ s.conns, d.uid = c.uid → d = c) (halive : c.dead = false) (r : Reader)
    (mask : Bytes)
    {m : FileMessage} (hm : fileMessage RD_C_FILE_END r = some m) :
    Filed fs s c m (s.uploadEnd cr plat c r mask) := by
  have hread : (if (rdGetU32 r).2.err = true then none else some (FileMessage.finish (rdGetU32 r).1)) = some m := hm
  unfold Server.uploadEnd
  generalize rdGetU32 r = b at hread ⊢
  obtain ⟨id, r'⟩ := b
  dsimp only at hread ⊢
  by_cases herr : r'.err = true
  · rw [if_pos herr] at hread
    cases hread
  rw [if_neg herr] at hread ⊢
  obtain rfl := Option.some.inj hread
  cases held : c.upload id with
  | none => exact .unknown (.inl rfl) held (.refl fs s)
  | some u =>
      dsimp only
      by_cases hshort : u.received ≠ u.size
      · rw [if_pos hshort]
        obtain ⟨rows, v, closed, removed⟩ :=
          finishUpload_rows cr fs hrow halive held false (ascii "Transfer incomplete") mask
        exact .failed u _ v _ (.inl rfl) held (.inl rfl) rows closed removed
      · rw [if_neg hshort]
        obtain ⟨rows, v, closed, hview⟩ :=
          finishUpload_rows cr fs hrow halive held true (ascii "Saved to " ++ u.path) mask
        rw [if_pos rfl] at hview
        exact .saved u held (not_not.mp hshort) rows (hview ▸ closed)

theorem rdGetU32_rest (r : Reader) : (rdGetU32 r).2.rest.length ≤ r.rest.length := by
  unfold rdGetU32 rdGetBytes
  by_cases hshort : r.err = true ∨ r.rest.length < 4
  · rw [if_pos hshort]
  · rw [if_neg hshort]
    simp

theorem rdRemaining_data {r : Reader} (h : r.err = false) : (rdGetBytes r (rdRemaining r)).1.getD [] =
    r.rest ∧ rdRemaining r = r.rest.length := by
  have hlen : rdRemaining r = r.rest.length := by simp [rdRemaining, h]
  rw [hlen]
  simp [rdGetBytes, h]

theorem uploadChunk_filed (hrow : ∀ d ∈ s.conns, d.uid = c.uid → d = c) (halive : c.dead = false) (r : Reader)
    (mask : Bytes)
    {m : FileMessage} (hm : fileMessage RD_C_FILE_CHUNK r = some m)
    (hsmall : ∀ id u, c.upload id = some u → u.received + r.rest.length < 2 ^ 64) :
    Filed fs s c m (s.uploadChunk cr plat c r mask) := by
  have hread : (if (rdGetU32 r).2.err = true then none else some (FileMessage.chunk (rdGetU32 r).1
      ((rdGetBytes (rdGetU32 r).2 (rdRemaining (rdGetU32 r).2)).1.getD []))) = some m := hm
  have hshorter := rdGetU32_rest r
  unfold Server.uploadChunk
  generalize rdGetU32 r = b at hread hshorter ⊢
  obtain ⟨id, r'⟩ := b
  dsimp only at hread hshorter ⊢
  by_cases herr : r'.err = true
  · rw [if_pos herr] at hread
    cases hread
  rw [if_neg herr] at hread ⊢
  obtain ⟨hdata, hlen⟩ := rdRemaining_data (by simpa using herr)
  rw [hdata] at hread ⊢
  rw [hlen]
  obtain rfl := Option.some.inj hread
  cases held : c.upload id with
  | none => exact .unknown (.inr ⟨_, rfl⟩) held (.refl fs s)
  | some u =>
      have hsum : add64 u.received r'.rest.length = u.received + r'.rest.length := by
        have := hsmall id u held
        exact Nat.mod_eq_of_lt (by omega)
      dsimp only
      rw [hsum]
      by_cases hlarge : u.received + r'.rest.length > u.size
      · rw [if_pos hlarge]
        obtain ⟨rows, v, closed, removed⟩ := finishUpload_rows cr fs hrow halive held false
          (ascii "File is larger than announced") mask
        exact .failed u _ v _ (.inr ⟨_, rfl⟩) held (.inl rfl) rows closed removed
      rw [if_neg hlarge]
      have hreceived : ∀ t : Server σ, t.conns = s.conns →
          Rows s (t.modify c.uid fun c => c.received id (u.received + r'.rest.length)) c.uid
            (c.received id (u.received + r'.rest.length)).uploads [] := fun t ht => by
        refine modify_rows ht hrow _ ?_
        rw [List.append_nil]
        rfl
      by_cases hempty : r'.rest = []
      · have hnone : (if r'.rest.length ≠ 0 then plat.files.fwrite s.os u.file r'.rest else (0, s.os)) =
            (0, s.os) :=
          if_neg (by simp [hempty])
        rw [hnone]
        dsimp only
        rw [if_neg (by simp [hempty])]
        exact .wrote u held (by omega) (hreceived _ rfl) (.inl ⟨hempty, rfl⟩)
      · have hwrote := fs.fwrite s.os u.file r'.rest
        have hsome : (if r'.rest.length ≠ 0 then plat.files.fwrite s.os u.file r'.rest else (0, s.os)) =
            plat.files.fwrite s.os u.file r'.rest := if_pos (by simpa using hempty)
        rw [hsome]
        generalize plat.files.fwrite s.os u.file r'.rest = w at hwrote ⊢
        obtain ⟨written, os⟩ := w
        dsimp only at hwrote ⊢
        by_cases hfew : written ≠ r'.rest.length
        · rw [if_pos hfew]
          obtain ⟨rows, v, closed, removed⟩ :=
            finishUpload_rows (s := { s with os := os }) cr fs hrow halive held false
            (ascii "Host disk write failed") mask
          exact .failed u _ v _ (.inr ⟨_, rfl⟩) held (.inr ⟨_, _, hwrote⟩) rows closed removed
        · rw [if_neg hfew]
          exact .wrote u held (by omega) (hreceived _ rfl) (.inr (not_not.mp hfew ▸ hwrote))

theorem fileBegin_filed (hrow : ∀ d ∈ s.conns, d.uid = c.uid → d = c) (r : Reader) (io : Io) {m : FileMessage}
    (hm : fileMessage RD_C_FILE_BEGIN r = some m) : Filed fs s c m (s.fileBegin cr plat c r io) := by
  unfold fileMessage at hm
  rw [if_pos rfl] at hm
  unfold Server.fileBegin
  generalize rdGetU32 r = b at hm ⊢
  obtain ⟨id, r₁⟩ := b
  dsimp only at hm ⊢
  generalize rdGetU64 r₁ = b at hm ⊢
  obtain ⟨size, r₂⟩ := b
  dsimp only at hm ⊢
  generalize rdGetStr r₂ 1024 = b at hm ⊢
  obtain ⟨name, r₃⟩ := b
  dsimp only at hm ⊢
  by_cases herr : r₃.err = true
  · rw [if_pos herr] at hm
    cases hm
  · rw [if_neg herr] at hm
    obtain rfl := Option.some.inj hm
    rw [if_pos (by simpa using herr)]
    exact beginUpload_filed cr fs hrow id size (cStr name) _

theorem fileMessage_other {type : Nat} {r : Reader} (hbegin : type ≠ RD_C_FILE_BEGIN)
    (hchunk : type ≠ RD_C_FILE_CHUNK)
    (hend : type ≠ RD_C_FILE_END) : fileMessage type r = none := by
  unfold fileMessage
  rw [if_neg hbegin, if_neg hchunk, if_neg hend]

-- Serving a message of a transfer, and any other.
theorem handleSessionMessage_filed (hrow : ∀ d ∈ s.conns, d.uid = c.uid → d = c) (halive : c.dead = false)
    (r : Reader)
    (io : Io) (type : Nat) {m : FileMessage} (hm : fileMessage type r = some m)
    (hsmall : ∀ id u, c.upload id = some u → u.received + r.rest.length < 2 ^ 64) :
    Filed fs s c m (s.handleSessionMessage cr plat c r io type) := by
  by_cases hbegin : type = RD_C_FILE_BEGIN
  · subst hbegin
    exact fileBegin_filed cr fs hrow r io hm
  by_cases hchunk : type = RD_C_FILE_CHUNK
  · subst hchunk
    exact uploadChunk_filed cr fs hrow halive r _ hm hsmall
  by_cases hend : type = RD_C_FILE_END
  · subst hend
    exact uploadEnd_filed cr fs hrow halive r _ hm
  · rw [fileMessage_other hbegin hchunk hend] at hm
    cases hm

theorem handleSessionMessage_kept (r : Reader) (io : Io) (type : Nat) (hm : fileMessage type r = none) :
    Kept fs s (s.handleSessionMessage cr plat c r io type) := by
  refine handleSessionMessage_cases cr plat s c r io type
    (fun _ => modify_kept fs s c.uid _ fun d _ _ => frameAck_holding d _)
    (fun _ => modify_kept fs s c.uid _ fun d _ _ => screened_holding d _)
    (fun _ => settings_kept cr fs s c r io) (fun _ => pointer_kept fs s c r) (fun _ => key_kept fs s c r)
    (fun _ => clipboard_kept cr fs s c r io) (fun _ => chat_kept cr fs s c r io)
    (fun _ => sendTo_kept cr fs s c.uid _ _ (fileSaved_of_type RD_S_PONG rfl (by decide)))
    (fun htype => ?_) (fun htype => ?_) (fun htype => ?_) (.refl fs s)
  -- the message cannot be read to its end
  · subst htype
    unfold fileMessage at hm
    rw [if_pos rfl] at hm
    unfold Server.fileBegin
    dsimp only at hm ⊢
    split at hm
    · next herr =>
        rw [if_neg (by simp [herr])]
        exact .refl fs s
    · cases hm
  · subst htype
    have hread : (if (rdGetU32 r).2.err = true then none else some (FileMessage.chunk (rdGetU32 r).1
        ((rdGetBytes (rdGetU32 r).2 (rdRemaining (rdGetU32 r).2)).1.getD []))) = none := hm
    unfold Server.uploadChunk
    dsimp only
    split at hread
    · next herr =>
        rw [if_pos herr]
        exact .refl fs s
    · cases hread
  · subst htype
    have hread : (if (rdGetU32 r).2.err = true then none else some (FileMessage.finish (rdGetU32 r).1)) = none := hm
    unfold Server.uploadEnd
    dsimp only
    split at hread
    · next herr =>
        rw [if_pos herr]
        exact .refl fs s
    · cases hread

-- Reading the message first makes no difference.
theorem Filed.of_read {c₂ : Conn} (hrow : ∀ d ∈ s.conns, d.uid = c.uid → d = c) (hread : Read c c₂)
    {m : FileMessage}
    {t : Server σ} (h : Filed fs (s.modify c.uid fun _ => c₂) c₂ m t) : Filed fs s c m t := by
  obtain ⟨ws, inn, recvCtr, rfl, hlimit⟩ := hread
  have hkept : Kept fs s (s.modify c.uid fun _ =>
      { c with ws := ws, inn := inn, ch := { c.ch with recvCtr := recvCtr } }) := by
    refine put_kept fs hrow ?_
    unfold Conn.holding
    dsimp only
    rw [hlimit]
  have hrows : ∀ {t : Server σ} {uploads : List (Nat × Upload)} {saved : List Bytes},
      Rows (s.modify c.uid fun _ => { c with ws := ws, inn := inn, ch := { c.ch with recvCtr := recvCtr } }) t c.uid
        uploads saved → Rows s t c.uid uploads saved := fun hrows => Eq.trans hrows (by rw [hkept.rows])
  cases h with
  | rejected refused kept => exact .rejected refused (hkept.trans kept)
  | began path f opens free few small rows opened => exact .began path f opens free few small (hrows rows) opened
  | unknown names free kept => exact .unknown names free (hkept.trans kept)
  | wrote u held fits rows stored => exact .wrote u held fits (hrows rows) stored
  | failed u v v' ok names held before rows closed removed =>
      exact .failed u v v' ok names held before (hrows rows) closed removed
  | saved u held complete rows closed => exact .saved u held complete (hrows rows) closed

end Handlers

section Messages

variable {cr : Crypto} {c : Conn}

theorem openMessage_length {m p : Bytes} (h : (c.openMessage cr m).1 = some p) : p.length ≤ m.length := by
  unfold Conn.openMessage at h
  by_cases hactive : c.ch.active = true
  · rw [if_neg (by simp [hactive])] at h
    dsimp only at h
    split at h
    · cases h
    · rw [← Option.some.inj h]
      refine (List.length_take_le _ _).trans ?_
      unfold rdChannelOpen
      split
      · simp
      · dsimp only
        split
        · simp
        · dsimp only
          omega
  · rw [if_pos (by simp [hactive])] at h
    rw [← Option.some.inj h]

-- No message is longer than the reader lets through.
theorem messageIn_length {type : Nat} {r : Reader} (h : c.messageIn cr = some (type, r)) : r.rest.length ≤
    c.ws.maxMessage := by
  obtain ⟨m, hframe, hbinary⟩ := messageIn_frame cr h
  rw [messageIn_read cr m hframe hbinary] at h
  obtain ⟨p, hp, hread⟩ := Option.map_eq_some_iff.mp h
  have hgot : (rdWsNext c.ws c.inn).1 = .got m := by
    unfold Conn.frameIn at hframe
    split at hframe
    · next m' hm' => rw [hm', ← Option.some.inj hframe]
    · cases hframe
  have hlen : r.rest.length ≤ p.length := by
    have hrest : (rdGetU8 (rdReaderInit p)).2.rest.length ≤ p.length := by
      unfold rdGetU8 rdGetBytes rdReaderInit
      by_cases hshort : false = true ∨ p.length < 1
      · rw [if_pos hshort]
      · rw [if_neg hshort]
        simp
    rw [hread] at hrest
    exact hrest
  exact hlen.trans ((openMessage_length hp).trans ((wsNextLoop_limit _ c.ws c.inn).2 m hgot hbinary))

end Messages

end TetherDesk.Host
