import TetherDesk.Client.App.Clipboard
import TetherDesk.Client.Upload
import TetherDesk.Host.Server.Uploads
import TetherDesk.Reader.Fields

namespace TetherDesk

open TetherDesk.Client TetherDesk.Host TetherDesk.Lib TetherDesk.Lib.Stdio TetherDesk.Lib.Transition
  TetherDesk.Secure

section Encoding

-- A message as the host reads it, if it belongs to a transfer.
def fileSaid (m : Bytes) : Option FileMessage :=
  let (type, r) := rdGetU8 (rdReaderInit m)
  fileMessage type r

theorem fileSaid_type (type : Nat) (h : type < 2 ^ 8) (m : Bytes) :
    fileSaid (putU8 type ++ m) = fileMessage type ⟨m, false⟩ := by
  unfold fileSaid rdReaderInit
  rw [rdGetU8_putU8 type h]

theorem fileSaid_begin {u : Client.Upload} (hid : u.id < 2 ^ 32) (hsize : u.size < 2 ^ 64) :
    fileSaid (fileBegin u) = some (.start u.id u.size (cStr (((cStr u.name).take 0xFFFF).take (1024 - 1)))) := by
  have hread := rdGetU64_put (putStr u.name) (UInt64.ofNat u.size)
  rw [UInt64.toNat_ofNat_of_lt' hsize] at hread
  have hname := rdGetStr_putStr u.name [] 1024
  rw [List.append_nil] at hname
  unfold fileBegin
  rw [List.append_assoc, List.append_assoc, fileSaid_type _ (by decide)]
  unfold fileMessage
  rw [if_pos rfl, rdGetU32_putU32 _ hid]
  dsimp only
  rw [hread]
  dsimp only
  rw [hname]
  exact if_neg Bool.false_ne_true

theorem fileSaid_chunk {id : Nat} (hid : id < 2 ^ 32) (data : Bytes) :
    fileSaid (fileChunk id data) = some (.chunk id data) := by
  unfold fileChunk
  rw [List.append_assoc, fileSaid_type _ (by decide)]
  unfold fileMessage
  rw [if_neg (by decide), if_pos rfl, rdGetU32_putU32 _ hid]
  dsimp only
  have hall := rdGetBytes_append data [] (rdRemaining ⟨data, false⟩) rfl
  rw [List.append_nil] at hall
  rw [if_neg Bool.false_ne_true, hall]
  rfl

theorem fileSaid_end {id : Nat} (hid : id < 2 ^ 32) : fileSaid (fileEnd id) = some (.finish id) := by
  have hread := rdGetU32_putU32 id hid []
  rw [List.append_nil] at hread
  unfold fileEnd
  rw [fileSaid_type _ (by decide)]
  unfold fileMessage
  rw [if_neg (by decide), if_neg (by decide), if_pos rfl, hread]
  rfl

end Encoding

section Viewer

-- What the viewer has said about its transfers, and about one of them.
def Client.UploadSession.said (s : UploadSession) : List FileMessage := s.told.filterMap fileSaid

def Client.UploadSession.about (s : UploadSession) (id : Nat) : List FileMessage := s.said.filter fun m => m.id = id

-- A transfer whose chunks are these.
def transferTalk (id size : Nat) (name : Bytes) (chunks : List Bytes) : List FileMessage :=
  .start id size name :: chunks.map (.chunk id)

-- What has been said about a transfer: nothing, its beginning, or all of it.
inductive Talk (id : Nat) (read : Bytes) : List FileMessage → Prop
  | silent (empty : read = []) : Talk id read []
  | going (size : Nat) (name : Bytes) (chunks : List Bytes) (all : chunks.flatten = read) :
      Talk id read (transferTalk id size name chunks)
  | whole (size : Nat) (name : Bytes) (chunks : List Bytes) (all : chunks.flatten = read) :
      Talk id read (transferTalk id size name chunks ++ [.finish id])

-- How far an upload of the queue is.
structure InHand (u : Client.Upload) (read : Bytes) (talk : List FileMessage) : Prop where
  waiting : u.begun = false → u.doneSending = false ∧ u.sent = 0 ∧ read = [] ∧ talk = []
  going : u.begun = true → u.doneSending = false → u.sent = read.length ∧
    ∃ name chunks, talk = transferTalk u.id u.size name chunks ∧ chunks.flatten = read

structure Orderly (s : UploadSession) : Prop where
  ids : (s.app.uploads.map Client.Upload.id).Nodup
  known : ∀ u ∈ s.app.uploads, u.id < s.nextUploadId ∧ u.size < 2 ^ 64 ∧ InHand u (s.read u.id) (s.about u.id)
  fresh : ∀ id, s.nextUploadId ≤ id → s.about id = [] ∧ s.read id = []
  talk : ∀ id, Talk id (s.read id) (s.about id)
  next : s.nextUploadId < 2 ^ 32

-- Work on one upload leaves the others alone.
structure Turned (s : UploadSession) (u : Client.Upload) (s' : UploadSession) (u' : Client.Upload) : Prop where
  queue : s'.app.uploads = s.app.uploads
  next : s'.nextUploadId = s.nextUploadId
  id : u'.id = u.id
  size : u'.size = u.size
  others : ∀ id, id ≠ u.id → s'.about id = s.about id ∧ s'.read id = s.read id

theorem Turned.refl (s : UploadSession) (u : Client.Upload) : Turned s u s u :=
    ⟨rfl, rfl, rfl, rfl, fun _ _ => ⟨rfl, rfl⟩⟩

theorem Turned.trans {s s' s'' : UploadSession} {u u' u'' : Client.Upload} (h₁ : Turned s u s' u')
    (h₂ : Turned s' u' s'' u'') :
    Turned s u s'' u'' := by
  refine ⟨h₂.queue.trans h₁.queue, h₂.next.trans h₁.next, h₂.id.trans h₁.id, h₂.size.trans h₁.size,
    fun id hid => ?_⟩
  obtain ⟨habout, hread⟩ := h₂.others id (h₁.id ▸ hid)
  obtain ⟨habout', hread'⟩ := h₁.others id hid
  exact ⟨habout.trans habout', hread.trans hread'⟩

section Pump

variable (cr : Crypto) {s : UploadSession} {u : Client.Upload}

theorem tell_about {msg : Bytes} {m : FileMessage} (h : fileSaid msg = some m) (id : Nat) :
    (s.tell cr msg).about id = s.about id ++ if m.id = id then [m] else [] := by
  unfold UploadSession.about UploadSession.said UploadSession.tell
  dsimp only
  rw [List.filterMap_append, List.filter_append, List.filterMap_cons, h, List.filterMap_nil, List.filter_singleton]
  congr 1
  split <;> simp_all

theorem tell_turned {msg : Bytes} {m : FileMessage} (h : fileSaid msg = some m) (hid : m.id = u.id)
    (read : Nat → Bytes)
    (hread : ∀ id, id ≠ u.id → read id = s.read id) (u' : Client.Upload) (hu : u'.id = u.id)
    (hsize : u'.size = u.size) :
    Turned s u { s.tell cr msg with read := read } u' := by
  refine ⟨congrArg SessionView.uploads (send_quiet cr s.app msg).view, rfl, hu, hsize,
    fun id hne => ⟨?_, hread id hne⟩⟩
  have habout := tell_about (s := s) cr h id
  rw [if_neg (by rw [hid]; exact hne.symm), List.append_nil] at habout
  exact habout

theorem sendBegin_going (hid : u.id < 2 ^ 32) (hsize : u.size < 2 ^ 64) (hdone : u.doneSending = false)
    (h : InHand u (s.read u.id) (s.about u.id)) :
    Turned s u (s.sendBegin cr u).1 (s.sendBegin cr u).2 ∧ (s.sendBegin cr u).2.begun = true ∧
      (s.sendBegin cr u).2.doneSending = false ∧
      InHand (s.sendBegin cr u).2 ((s.sendBegin cr u).1.read u.id) ((s.sendBegin cr u).1.about u.id) := by
  unfold UploadSession.sendBegin
  by_cases hbegun : u.begun = true
  · rw [if_pos hbegun]
    exact ⟨.refl s u, hbegun, hdone, h⟩
  · rw [if_neg hbegun]
    obtain ⟨-, hsent, hread, htalk⟩ := h.waiting (by simpa using hbegun)
    have hsaid := fileSaid_begin hid hsize
    generalize cStr (((cStr u.name).take 0xFFFF).take (1024 - 1)) = name at hsaid
    refine ⟨tell_turned cr hsaid rfl s.read (fun _ _ => rfl) _ rfl rfl, rfl, hdone, ⟨fun hno => ?_, fun _ _ => ?_⟩⟩
    · cases hno
    · refine ⟨?_, name, [], ?_, ?_⟩
      · rw [show (s.tell cr (fileBegin u)).read u.id = [] from hread]
        exact hsent
      · rw [tell_about cr hsaid, htalk, if_pos (show (FileMessage.start u.id u.size name).id = u.id from rfl)]
        rfl
      · exact hread.symm

-- One turn of the loop.
theorem pumpTurn_going (chunk : Bytes) (hid : u.id < 2 ^ 32) (hbegun : u.begun = true)
    (hdone : u.doneSending = false)
    (h : InHand u (s.read u.id) (s.about u.id)) {s' : UploadSession} {u' : Client.Upload}
    (hs : s' = { s.tell cr (fileChunk u.id chunk) with read := Function.update s.read u.id (s.read u.id ++ chunk) })
    (hu : u' = { u with sent := u.sent + chunk.length }) :
    Turned s u s' u' ∧ InHand u' (s'.read u.id) (s'.about u.id) := by
  obtain ⟨hsent, name, chunks, htalk, hall⟩ := h.going hbegun hdone
  have hsaid := fileSaid_chunk hid chunk
  have habout := tell_about (s := s) cr hsaid u.id
  rw [if_pos (show (FileMessage.chunk u.id chunk).id = u.id from rfl)] at habout
  have hread : s'.read u.id = s.read u.id ++ chunk := by
    rw [hs]
    exact Function.update_self _ _ _
  refine ⟨?_, fun hno => ?_, fun _ _ => ⟨?_, name, chunks ++ [chunk], ?_, ?_⟩⟩
  · rw [hs]
    exact tell_turned cr hsaid rfl _ (fun id hne => Function.update_of_ne hne _ _) u' (by rw [hu]) (by rw [hu])
  · rw [hu] at hno
    exact absurd hbegun (by simpa using hno)
  · rw [hread, hu, List.length_append, ← hsent]
  · have hmore : s'.about u.id = s.about u.id ++ [.chunk u.id chunk] := by
      rw [hs]
      exact habout
    rw [hmore, htalk, hu]
    simp [transferTalk]
  · rw [hread, ← hall]
    simp

theorem pumpChunks_going (io : PumpIo) (fuel k : Nat) (hid : u.id < 2 ^ 32) (hbegun : u.begun = true)
    (hdone : u.doneSending = false) (h : InHand u (s.read u.id) (s.about u.id)) :
    Turned s u (s.pumpChunks cr io fuel k u).1 (s.pumpChunks cr io fuel k u).2 ∧
      (s.pumpChunks cr io fuel k u).2.begun = true ∧ (s.pumpChunks cr io fuel k u).2.doneSending = false ∧
      InHand (s.pumpChunks cr io fuel k u).2 ((s.pumpChunks cr io fuel k u).1.read u.id)
        ((s.pumpChunks cr io fuel k u).1.about u.id) := by
  induction fuel generalizing k s u with
  | zero => exact ⟨.refl s u, hbegun, hdone, h⟩
  | succ fuel ih =>
      unfold UploadSession.pumpChunks
      dsimp only
      split_ifs
      · exact ⟨.refl s u, hbegun, hdone, h⟩
      · generalize (io.fread k).take RD_FILE_CHUNK = chunk
        generalize hs : ({ s.tell cr (fileChunk u.id chunk) with
          read := Function.update s.read u.id (s.read u.id ++ chunk) } : UploadSession) = s'
        generalize hu : ({ u with sent := u.sent + chunk.length } : Client.Upload) = u'
        obtain ⟨hturned, hhand⟩ := pumpTurn_going cr chunk hid hbegun hdone h hs.symm hu.symm
        rw [← hturned.id] at hid hhand ⊢
        obtain ⟨hrest, hbegun', hdone', hhand'⟩ := ih (k + 1) hid (hu ▸ hbegun) (hu ▸ hdone) hhand
        exact ⟨hturned.trans hrest, hbegun', hdone', hhand'⟩
      · exact ⟨.refl s u, hbegun, hdone, h⟩

-- What an upload leaves behind a pump.
theorem sendEnd_talk (io : PumpIo) (hid : u.id < 2 ^ 32) (hbegun : u.begun = true) (hdone : u.doneSending = false)
    (h : InHand u (s.read u.id) (s.about u.id)) :
    Turned s u (s.sendEnd cr io u).1 (s.sendEnd cr io u).2 ∧
      InHand (s.sendEnd cr io u).2 ((s.sendEnd cr io u).1.read u.id) ((s.sendEnd cr io u).1.about u.id) ∧
      Talk u.id ((s.sendEnd cr io u).1.read u.id) ((s.sendEnd cr io u).1.about u.id) := by
  obtain ⟨-, name, chunks, htalk, hall⟩ := h.going hbegun hdone
  unfold UploadSession.sendEnd
  split_ifs
  · have hsaid := fileSaid_end hid
    have habout := tell_about (s := s) cr hsaid u.id
    rw [if_pos (show (FileMessage.finish u.id).id = u.id from rfl), htalk] at habout
    refine ⟨tell_turned cr hsaid rfl s.read (fun _ _ => rfl) _ rfl rfl, ⟨fun hno => ?_, fun _ hno => ?_⟩, ?_⟩
    · exact absurd hbegun (by simpa using hno)
    · cases hno
    · rw [habout]
      exact .whole u.size name chunks hall
  · refine ⟨.refl s u, h, ?_⟩
    rw [htalk]
    exact .going u.size name chunks hall

end Pump

section Orderly

variable (cr : Crypto) {s : UploadSession}

theorem Orderly.shrunk (h : Orderly s) {a : App} (hqueue : a.uploads.Sublist s.app.uploads) :
    Orderly { s with app := a } :=
  ⟨h.ids.sublist (hqueue.map _), fun u hu => h.known u (hqueue.subset hu), h.fresh, h.talk, h.next⟩

theorem Orderly.drop (h : Orderly s) (hnext : s.nextUploadId + 1 < 2 ^ 32) (windows : Bool) (path : Bytes)
    (size : Option Int)
    (now : Nat) : Orderly (s.queueUpload windows path size now) := by
  unfold UploadSession.queueUpload
  dsimp only
  split_ifs
  · exact h
  · exact h.shrunk (List.Sublist.refl _)
  · cases size with
    | none => exact h.shrunk (List.Sublist.refl _)
    | some size =>
        dsimp only
        split_ifs
        · exact h.shrunk (List.Sublist.refl _)
        · obtain ⟨htalk, hread⟩ := h.fresh s.nextUploadId (le_refl _)
          have hnew : (s.nextUploadId + 1) % 2 ^ 32 = s.nextUploadId + 1 := Nat.mod_eq_of_lt hnext
          constructor
          · refine (List.map_append ▸ List.nodup_append.mpr ⟨h.ids, List.nodup_singleton _, ?_⟩)
            rintro id hid _ hlast rfl
            obtain ⟨u, hu, rfl⟩ := List.mem_map.mp hid
            have hsame : u.id = s.nextUploadId := List.mem_singleton.mp hlast
            have hbelow := (h.known u hu).1
            omega
          · intro u hu
            dsimp only
            rw [hnew]
            rcases List.mem_append.mp hu with hold | hu
            · obtain ⟨hid, hsize, hhand⟩ := h.known u hold
              exact ⟨by omega, hsize, hhand⟩
            · obtain rfl := List.mem_singleton.mp hu
              refine ⟨Nat.lt_succ_self _, Nat.mod_lt _ (by decide), fun _ => ⟨rfl, rfl, hread, htalk⟩,
                fun hno => ?_⟩
              cases hno
          · intro id hid
            dsimp only at hid
            rw [hnew] at hid
            exact h.fresh id (by omega)
          · exact h.talk
          · dsimp only
            rw [hnew]
            exact hnext

-- The upload in hand takes its new place in the queue.
theorem Orderly.turned (h : Orderly s) {i : Nat} {u : Client.Upload} (hu : s.app.uploads[i]? = some u)
    {s' : UploadSession}
    {u' : Client.Upload} (hturned : Turned s u s' u') (hhand : InHand u' (s'.read u.id) (s'.about u.id))
    (htalk : Talk u.id (s'.read u.id) (s'.about u.id)) :
    Orderly { s' with app.uploads := s'.app.uploads.set i u' } := by
  obtain ⟨hi, hget⟩ := List.getElem?_eq_some_iff.mp hu
  have hids : (s'.app.uploads.set i u').map Client.Upload.id = s.app.uploads.map Client.Upload.id := by
    rw [hturned.queue, List.map_set, hturned.id, ← hget]
    refine List.ext_getElem? fun k => ?_
    by_cases hk : i = k
    · subst hk
      rw [List.getElem?_set_self (by simpa using hi), List.getElem?_map, List.getElem?_eq_getElem hi]
      rfl
    · rw [List.getElem?_set_ne hk]
  have hnodup : ((s'.app.uploads.set i u').map Client.Upload.id).Nodup := hids ▸ h.ids
  have hmem : u' ∈ s'.app.uploads.set i u' := List.mem_set (hturned.queue ▸ hi) u'
  obtain ⟨hid, hsize, -⟩ := h.known u (hget ▸ List.getElem_mem hi)
  refine ⟨hnodup, fun v hv => ?_, fun id hfresh => ?_, fun id => ?_, hturned.next ▸ h.next⟩
  · by_cases hmine : v.id = u.id
    · obtain rfl := List.inj_on_of_nodup_map hnodup hv hmem (hmine.trans hturned.id.symm)
      rw [hturned.id]
      exact ⟨hturned.next ▸ hid, hturned.size ▸ hsize, hhand⟩
    · have hold : v ∈ s.app.uploads := by
        rcases List.mem_or_eq_of_mem_set hv with hold | rfl
        · exact hturned.queue ▸ hold
        · exact absurd hturned.id hmine
      obtain ⟨habout, hread⟩ := hturned.others v.id hmine
      obtain ⟨hid', hsize', hhand'⟩ := h.known v hold
      exact ⟨hturned.next ▸ hid', hsize', by
        show InHand v (s'.read v.id) (s'.about v.id)
        rwa [habout, hread]⟩
  · have hne : id ≠ u.id := fun heq => absurd (hturned.next ▸ hfresh : s.nextUploadId ≤ id) (by omega)
    obtain ⟨habout, hread⟩ := hturned.others id hne
    obtain ⟨hsilent, hempty⟩ := h.fresh id (hturned.next ▸ hfresh)
    exact ⟨habout.trans hsilent, hread.trans hempty⟩
  · by_cases hmine : id = u.id
    · rw [hmine]
      exact htalk
    · obtain ⟨habout, hread⟩ := hturned.others id hmine
      show Talk id (s'.read id) (s'.about id)
      rw [habout, hread]
      exact h.talk id

theorem Orderly.pump (h : Orderly s) (io : PumpIo) : Orderly (s.pumpUploads cr io) := by
  unfold UploadSession.pumpUploads
  cases hfind : s.app.uploads.findIdx? fun u => !u.doneSending with
  | none => exact h
  | some i =>
      dsimp only
      cases hu : s.app.uploads[i]? with
      | none => exact h
      | some u =>
          obtain ⟨hi, hopen, -⟩ := List.findIdx?_eq_some_iff_getElem.mp hfind
          obtain ⟨hi', hget⟩ := List.getElem?_eq_some_iff.mp hu
          have hdone : u.doneSending = false := by
            rw [hget] at hopen
            simpa using hopen
          obtain ⟨hid, hsize, hhand⟩ := h.known u (hget ▸ List.getElem_mem hi')
          have hid : u.id < 2 ^ 32 := hid.trans h.next
          obtain ⟨hbegin, hbegun, hdone, hhand⟩ := sendBegin_going cr hid hsize hdone hhand
          dsimp only
          generalize s.sendBegin cr u = b at hbegin hbegun hdone hhand ⊢
          rw [← hbegin.id] at hid hhand
          obtain ⟨hchunks, hbegun, hdone, hhand⟩ :=
            pumpChunks_going cr io (b.2.size - b.2.sent) 0 hid hbegun hdone hhand
          generalize b.1.pumpChunks cr io (b.2.size - b.2.sent) 0 b.2 = c at hchunks hbegun hdone hhand ⊢
          rw [← hchunks.id] at hid hhand
          obtain ⟨hend, hhand, htalk⟩ := sendEnd_talk cr io hid hbegun hdone hhand
          have hturned := hbegin.trans (hchunks.trans hend)
          rw [hchunks.id, hbegin.id] at hhand htalk
          exact h.turned hu hturned hhand htalk

theorem orderly_run {past : List (UploadSession × UploadEvent)} (run : Run (uploadRuns cr) past s)
    (hids : ∀ p ∈ past, p.1.nextUploadId + 1 < 2 ^ 32) : Orderly s := by
  refine run.guarded (fun s _ => s.nextUploadId + 1 < 2 ^ 32) (fun _ s => Orderly s) ?_ ?_ hids
  · rintro _ ⟨web, opts, store, rfl⟩
    refine ⟨List.nodup_nil, fun u hu => ?_, fun _ _ => ⟨rfl, rfl⟩, fun _ => .silent rfl,
      Nat.one_lt_two_pow (by decide)⟩
    cases hu
  · rintro past s e _ h hnext ⟨hpossible, rfl⟩
    cases e with
    | app e => exact h.shrunk (apply_shrinks cr s.app e hpossible)
    | drop windows path size now => exact h.drop hnext windows path size now
    | pump io =>
        unfold UploadEvent.apply
        dsimp only
        split_ifs
        · exact h.pump cr io
        · exact h

end Orderly

end Viewer

section Talk

variable {id size : Nat} {name : Bytes} {chunks : List Bytes}

theorem transferTalk_kinds {m : FileMessage} (h : m ∈ transferTalk id size name chunks) :
    m = .start id size name ∨ ∃ data, m = .chunk id data := by
  rcases List.mem_cons.mp h with rfl | h
  · exact .inl rfl
  · obtain ⟨data, -, rfl⟩ := List.mem_map.mp h
    exact .inr ⟨data, rfl⟩

-- A part of what was said that has both the beginning and the end is all of it.
theorem Talk.complete {read : Bytes} {talk l : List FileMessage} (h : Talk id read talk) {size₀ : Nat}
    {name₀ : Bytes}
    (hstart : .start id size₀ name₀ ∈ l) (hpart : l ++ [.finish id] <:+: talk) :
    ∃ size name chunks, l = transferTalk id size name chunks ∧ chunks.flatten = read ∧
        talk = l ++ [.finish id] := by
  have hfinish : FileMessage.finish id ∈ talk := hpart.subset (by simp)
  cases h with
  | silent => cases hfinish
  | going size name chunks all =>
      rcases transferTalk_kinds hfinish with h | ⟨data, h⟩ <;> cases h
  | whole size name chunks all =>
      obtain ⟨before, after, hall⟩ := hpart
      -- the beginning is said first
      have hbefore : before = [] := by
        cases before with
        | nil => rfl
        | cons m before =>
            have htail : before ++ (l ++ [.finish id]) ++ after = chunks.map (.chunk id) ++ [.finish id] :=
              (List.cons.inj hall).2
            have hmem : FileMessage.start id size₀ name₀ ∈ chunks.map (.chunk id) ++ [.finish id] := by
              rw [← htail]
              simp [hstart]
            simp at hmem
      have hafter : after = [] := by
        rcases List.eq_nil_or_concat after with rfl | ⟨more, m, rfl⟩
        · rfl
        · rw [hbefore, List.nil_append, List.concat_eq_append, ← List.append_assoc] at hall
          have hsaid := (List.append_inj' hall rfl).1
          have hmem : FileMessage.finish id ∈ transferTalk id size name chunks := by
            rw [← hsaid]
            simp
          rcases transferTalk_kinds hmem with h | ⟨data, h⟩ <;> cases h
      rw [hbefore, hafter, List.nil_append, List.append_nil] at hall
      exact ⟨size, name, chunks, (List.append_inj' hall rfl).1, all, hall.symm⟩

end Talk

section Host

variable {σ : Type} (cr : Crypto) {plat : Platform σ} (fs : HostFiles plat)

-- The messages of transfers that the host has taken from a connection.
def heard (uid : Nat) (past : List (Server σ × ServerEvent σ)) : List FileMessage :=
  past.filterMap fun p => (p.1.fileMessageIn cr p.2).bind fun m => if m.1.uid = uid then some m.2 else none

variable {past : List (Server σ × ServerEvent σ)} {s t : Server σ} {e : ServerEvent σ} {c : Conn} {m : FileMessage}

theorem heard_append (uid : Nat) (more : List (Server σ × ServerEvent σ)) :
    heard cr uid (past ++ more) = heard cr uid past ++ heard cr uid more := List.filterMap_append

theorem heard_mine (h : s.fileMessageIn cr e = some (c, m)) : heard cr c.uid [(s, e)] = [m] := by
  unfold heard
  rw [List.filterMap_cons, h]
  simp

theorem heard_mine_filter (h : s.fileMessageIn cr e = some (c, m)) :
    (heard cr c.uid [(s, e)]).filter (fun m' => m'.id = m.id) = [m] := by
  rw [heard_mine cr h]
  simp

theorem heard_filter (h : s.fileMessageIn cr e = some (c, m)) {uid id : Nat} (hother : ¬(c.uid = uid ∧ m.id = id)) :
    (heard cr uid [(s, e)]).filter (fun m => m.id = id) = [] := by
  unfold heard
  rw [List.filterMap_cons, h]
  by_cases huid : c.uid = uid
  · simp [huid, show m.id ≠ id from fun hid => hother ⟨huid, hid⟩]
  · simp [huid]

theorem heard_quiet (h : s.fileMessageIn cr e = none) (uid : Nat) : heard cr uid [(s, e)] = [] := by
  unfold heard
  rw [List.filterMap_cons, h]
  rfl

-- What the host knows of a transfer is what it has heard.
structure Heeded (past : List (Server σ × ServerEvent σ)) (s : Server σ) : Prop where
  begun : ∀ uid id u, s.Held uid id u → ∃ size name, .start id size name ∈ heard cr uid past
  counted : ∀ uid id size name chunks,
    (heard cr uid past).filter (fun m => m.id = id) = transferTalk id size name chunks →
    ledger cr past (uid, id) = (size, chunks.flatten)

variable {cr fs}

theorem Heeded.next (h : Heeded cr past s) (htidy : s.Tidy) (hbounded : ∀ h ∈ s.holdings, h.Bounded) (hrow : ∀ c m,
    s.fileMessageIn cr e = some (c, m) → c ∈ s.conns)
    (hsince : ∀ uid id u, t.Held uid id u → Since cr fs s e t uid id u) : Heeded cr (past ++ [(s, e)]) t := by
  refine ⟨fun uid id u hheld => ?_, fun uid id size name chunks htalk => ?_⟩
  · rw [heard_append]
    cases hsince uid id u hheld with
    | same held same ledger =>
        obtain ⟨size, name, hstart⟩ := h.begun uid id u held
        exact ⟨size, name, List.mem_append_left _ hstart⟩
    | began c name mem mine message opens free empty opened =>
        subst mine
        rw [heard_mine cr message]
        exact ⟨u.size, name, List.mem_append_right _ List.mem_cons_self⟩
    | wrote c data u₀ mine message held grown stored =>
        obtain ⟨size, name, hstart⟩ := h.begun uid id u₀ held
        exact ⟨size, name, List.mem_append_left _ hstart⟩
  · rw [heard_append, List.filter_append] at htalk
    rw [ledger_next]
    cases hmessage : s.fileMessageIn cr e with
    | none =>
        rw [heard_quiet cr hmessage, List.filter_nil, List.append_nil] at htalk
        rw [ledgerAfter_quiet hmessage]
        exact h.counted uid id size name chunks htalk
    | some p =>
        obtain ⟨c, m⟩ := p
        by_cases hmine : c.uid = uid ∧ m.id = id
        · obtain ⟨rfl, rfl⟩ := hmine
          rw [heard_mine_filter cr hmessage] at htalk
          unfold Server.ledgerAfter
          rw [hmessage]
          rcases List.eq_nil_or_concat chunks with rfl | ⟨before, data, rfl⟩
          · obtain ⟨hsilent, hstart⟩ :=
              List.append_inj' (show _ = [] ++ [FileMessage.start m.id size name] from htalk) rfl
            rw [List.cons.injEq] at hstart
            have hfree : c.upload m.id = none := by
              by_contra hopen
              obtain ⟨u, hu⟩ := Option.ne_none_iff_exists'.mp hopen
              obtain ⟨size, name, hsaid⟩ :=
                h.begun c.uid m.id u ((held_ids htidy hbounded (hrow c m hmessage)).mp hu)
              have hmem : FileMessage.start m.id size name ∈ (heard cr c.uid past).filter fun m' => m'.id = m.id :=
                List.mem_filter.mpr ⟨hsaid, by simp [FileMessage.id]⟩
              rw [hsilent] at hmem
              cases hmem
            generalize m.id = id at hstart hfree
            obtain rfl := hstart.1
            dsimp only
            rw [hfree]
            exact Function.update_self _ _ _
          · have hmore : transferTalk m.id size name (before.concat data) =
                transferTalk m.id size name before ++ [.chunk m.id data] := by simp [transferTalk]
            obtain ⟨hsaid, hchunk⟩ := List.append_inj' (htalk.trans hmore) rfl
            rw [List.cons.injEq] at hchunk
            have hcounted := h.counted c.uid m.id size name before hsaid
            generalize m.id = id at hchunk hcounted
            obtain rfl := hchunk.1
            refine (Function.update_self _ _ _).trans ?_
            rw [hcounted]
            simp
        · rw [heard_filter cr hmessage hmine, List.append_nil] at htalk
          rw [ledgerAfter_other hmessage fun heq => hmine ?_]
          · exact h.counted uid id size name chunks htalk
          · rw [Prod.mk.injEq] at heq
            exact ⟨heq.1.symm, heq.2.symm⟩

theorem heeded_run (run : Run (serverRuns cr plat) past s)
    (hguard : ∀ p ∈ past, TransferSafe fs cr p.1 p.2 = true ∧ FilesLeftAlone fs p.1 p.2) : Heeded cr past s := by
  induction run with
  | start hinit =>
      refine ⟨?_, fun uid id size name chunks htalk => by cases htalk⟩
      rintro uid id u ⟨h, hh, -⟩
      unfold Server.holdings at hh
      rw [started_conns plat hinit] at hh
      cases hh
  | @next past s t e run hstep ih =>
      have hbefore := fun p hp => hguard p (List.mem_append_left _ hp)
      obtain ⟨hsafe, hworld⟩ := hguard (s, e) (by simp)
      have htidy := tidy_run cr plat run
      have hbounded := bounded_run fs run
      refine (ih hbefore).next htidy hbounded (fun c m hmessage => ?_) fun uid id u ht =>
        (apply_outcome fs htidy hbounded hstep).since htidy hbounded hworld (transferSafe_opens hsafe)
          (intact_run cr fs run hbefore).apart ht
      obtain ⟨io, type, r, -, hc, -⟩ := fileMessageIn_some hmessage
      exact hc

end Host

-- Where the messages of transfers that the host takes from a connection are, without a
-- gap, a part of what a viewer has said, a report of success tells that the file on the
-- disk holds the bytes the viewer has read, as many as it announced.
theorem uploads_arrive (cr : Crypto) {told : List (UploadSession × UploadEvent)} {v : UploadSession}
    (viewer : Run (uploadRuns cr) told v) (hids : ∀ p ∈ told, p.1.nextUploadId + 1 < 2 ^ 32) {σ : Type}
    {plat : Platform σ}
    (fs : HostFiles plat) {past : List (Server σ × ServerEvent σ)} {s t : Server σ} {e : ServerEvent σ}
    (host : Run (serverRuns cr plat) past s) (happly : e.apply cr plat s = some t)
    (hsafe : ∀ p ∈ past ++ [(s, e)], TransferSafe fs cr p.1 p.2 = true ∧ FilesLeftAlone fs p.1 p.2) {c c' : Conn}
    (hc : c ∈ s.conns) (hc' : c' ∈ t.conns) (huid : c'.uid = c.uid)
    (hchannel : heard cr c.uid (past ++ [(s, e)]) <:+: v.said) :
    c'.sent.filter fileSaved = c.sent.filter fileSaved ∨ ∃ id path name,
      c'.sent.filter fileSaved = c.sent.filter fileSaved ++ [fileResultMsg id true (ascii "Saved to " ++ path)] ∧
      .start id (v.read id).length name ∈ v.said ∧ (fs.view t.os).disk path = some (v.read id) := by
  have hbefore := fun p hp => hsafe p (List.mem_append_left _ hp)
  have hlast := (hsafe (s, e) (by simp)).1
  have htidy := tidy_run cr plat host
  have hbounded := bounded_run fs host
  have hintact := intact_run cr fs host hbefore
  rcases (apply_outcome fs htidy hbounded happly).saved cr fs htidy hc hc' huid with h | ⟨id, u, hmessage,
      held, hcomplete,
    hsaved, hclosed⟩
  · exact .inl h
  · have hheld := (held_ids htidy hbounded hc).mp held
    have hheeded := heeded_run host hbefore
    obtain ⟨size₀, name₀, hbegun⟩ := hheeded.begun c.uid id u hheld
    have hstart : FileMessage.start id size₀ name₀ ∈ (heard cr c.uid past).filter fun m => m.id = id :=
      List.mem_filter.mpr ⟨hbegun, by simp [FileMessage.id]⟩
    have hpart : (heard cr c.uid past).filter (fun m => m.id = id) ++ [.finish id] <:+: v.about id := by
      have hfilter := hchannel.filter fun m => m.id = id
      have hlast : (heard cr c.uid [(s, e)]).filter (fun m => m.id = id) = [.finish id] :=
        heard_mine_filter cr hmessage
      rw [heard_append, List.filter_append, hlast] at hfilter
      exact hfilter
    obtain ⟨size, name, chunks, htalk, hall, habout⟩ := ((orderly_run cr viewer hids).talk id).complete hstart hpart
    have hledger := hheeded.counted c.uid id size name chunks htalk
    rw [hall] at hledger
    obtain ⟨hsize, hreceived⟩ := hintact.told c.uid id u hheld
    have hcloses : fs.closes s.os u.file = true := by
      unfold TransferSafe at hlast
      rw [hmessage] at hlast
      dsimp only at hlast
      rw [held] at hlast
      simpa [hcomplete] using hlast
    rw [hcloses] at hclosed
    have hdisk := hclosed.content (hintact.stream c.uid id u hheld)
    rw [hledger] at hsize hreceived hdisk
    dsimp only at hsize hreceived hdisk
    have hlength : (v.read id).length = size := by
      rw [← hsize, ← hcomplete]
      exact hreceived.symm
    refine .inr ⟨id, u.path, name, hsaved, ?_, hdisk⟩
    have hmem : FileMessage.start id size name ∈ v.about id := by
      rw [habout, htalk]
      exact List.mem_append_left _ List.mem_cons_self
    rw [hlength]
    exact List.mem_of_mem_filter hmem

-- The steps of a list of events where each has at most one outcome.
def stepsOf {σ ε : Type} (f : σ → ε → Option σ) : σ → List ε → Option (List (σ × ε) × σ)
  | s, [] => some ([], s)
  | s, e :: es => (f s e).bind fun t => (stepsOf f t es).map fun r => ((s, e) :: r.1, r.2)

theorem run_stepsOf {σ ε : Type} {S : System σ ε} (f : σ → ε → Option σ) (guard : σ → ε → Prop) {es : List ε}
    (hf : ∀ e ∈ es, ∀ s t, f s e = some t → S.step s e t ∧ guard s e) {past more : List (σ × ε)} {s t : σ}
    (run : Run S past s) (h : stepsOf f s es = some (more, t)) :
    Run S (past ++ more) t ∧ ∀ p ∈ more, p.2 ∈ es ∧ guard p.1 p.2 := by
  induction es generalizing past more s with
  | nil =>
      obtain ⟨rfl, rfl⟩ := Prod.mk.inj (Option.some.inj h)
      exact ⟨by simpa using run, by simp⟩
  | cons e es ih =>
      obtain ⟨u, hu, h⟩ := Option.bind_eq_some_iff.mp h
      obtain ⟨⟨rest, t'⟩, hrest, heq⟩ := Option.map_eq_some_iff.mp h
      obtain ⟨rfl, rfl⟩ := Prod.mk.inj heq
      obtain ⟨hstep, hguard⟩ := hf e List.mem_cons_self s u hu
      obtain ⟨hrun, hguards⟩ := ih (fun e he => hf e (List.mem_cons_of_mem _ he)) (.next run hstep) hrest
      refine ⟨by simpa using hrun, List.forall_mem_cons.mpr ⟨⟨List.mem_cons_self, hguard⟩, fun p hp => ?_⟩⟩
      exact ⟨List.mem_cons_of_mem _ (hguards p hp).1, (hguards p hp).2⟩

-- The five bytes of that file leave the viewer in two chunks.
def dropEvents (cr : Crypto) : List UploadEvent :=
  connectEvents.map .app ++
    [.app (.message ⟨0, 0, [], true⟩ deskHello),
      .app (.message ⟨0, 0, [], true⟩ (rdAeadSeal cr loginResult [] hostKey (ctrNonce 0))),
      .drop false (ascii "/home/ann/a.txt") (some 5) 1000,
      .pump ⟨fun _ => 0, fun k => if k = 0 then ascii "hel" else ascii "lo", true⟩]

def dropStep (cr : Crypto) (s : UploadSession) (e : UploadEvent) : Option UploadSession :=
  if s.nextUploadId + 1 < 2 ^ 32 then some (e.apply cr s) else none

def dropStart : UploadSession := ⟨App.new false trustingOptions (pinning []), 1, [], fun _ => []⟩

def driveStep (cr : Crypto) (s : Server Drive) (e : ServerEvent Drive) : Option (Server Drive) :=
  if TransferSafe (driveFiles true) cr s e then e.apply cr (drivePlatform true) s else none

def helloTransfer : List FileMessage := transferTalk 1 5 (ascii "a.txt") [ascii "hel", ascii "lo"] ++ [.finish 1]

def viewerSaid (cr : Crypto) : Option (List FileMessage) :=
  (stepsOf (dropStep cr) dropStart (dropEvents cr)).map fun r => r.2.said

-- What the host has heard with the end of the transfer, whether that is safe, and the
-- reports before and after it.
structure HostFacts where
  heard : List FileMessage
  safe : Bool
  before : List (Nat × Nat)
  after : List (Nat × Nat)
  deriving DecidableEq

def hostFacts (cr : Crypto) : Option HostFacts :=
  (Server.started (drivePlatform true) (deskConfig false) 0 Drive.empty).bind fun s₀ =>
    (stepsOf (driveStep cr) s₀ uploadEvents).bind fun r =>
      ((ServerEvent.message 0 deskIo).apply cr (drivePlatform true) r.2).map fun t =>
        { heard := TetherDesk.heard cr 0 (r.1 ++ [(r.2, .message 0 deskIo)])
          safe := TransferSafe (driveFiles true) cr r.2 (.message 0 deskIo)
          before := reports r.2
          after := reports t }

theorem viewerSaid_eq : viewerSaid reference = some helloTransfer := by
  rw [← Client.rehearsed_eq]
  decide +kernel

theorem hostFacts_eq : hostFacts reference = some ⟨helloTransfer, true, [(0, 0)], [(0, 1)]⟩ := by
  unfold hostFacts uploadEvents loginEvents sealedEvents
  rw [← Host.rehearsed_eq]
  decide +kernel

theorem dropEvents_possible {e : UploadEvent} (h : e ∈ dropEvents reference) : e.Possible := by
  simp only [dropEvents, connectEvents, List.map_cons, List.map_nil, List.cons_append, List.nil_append,
    List.mem_cons,
    List.not_mem_nil, or_false] at h
  rcases h with rfl | rfl | rfl | rfl | rfl | rfl | rfl <;> trivial

theorem uploads_arrive_hello : ∃ told v past s t id path name, Run (uploadRuns reference) told v ∧
    Run (serverRuns reference (drivePlatform true)) past s ∧
    (ServerEvent.message 0 deskIo).apply reference (drivePlatform true) s = some t ∧
    .start id (v.read id).length name ∈ v.said ∧ t.os.storage.disk path = some (v.read id) := by
  obtain ⟨⟨told, v⟩, hsteps, hsaid⟩ := Option.map_eq_some_iff.mp viewerSaid_eq
  obtain ⟨s₀, hstarted, h⟩ := Option.bind_eq_some_iff.mp hostFacts_eq
  obtain ⟨⟨past, s⟩, hpast, h⟩ := Option.bind_eq_some_iff.mp h
  obtain ⟨t, ht, hfacts⟩ := Option.map_eq_some_iff.mp h
  rw [HostFacts.mk.injEq] at hfacts
  obtain ⟨hheard, hlast, hbefore, hafter⟩ := hfacts
  dsimp only at hheard hlast hbefore ht hsaid
  obtain ⟨hviewer, hids⟩ := run_stepsOf (dropStep reference) (fun s _ => s.nextUploadId + 1 < 2 ^ 32)
    (fun e he s t hstep => by
      unfold dropStep at hstep
      split_ifs at hstep with hnext
      exact ⟨⟨dropEvents_possible he, (Option.some.inj hstep).symm⟩, hnext⟩)
    (.start (show (uploadRuns reference).init dropStart from ⟨false, trustingOptions, pinning [], rfl⟩)) hsteps
  obtain ⟨hhost, hsafe⟩ :=
    run_stepsOf (driveStep reference) (fun s e => TransferSafe (driveFiles true) reference s e = true)
    (fun e _ s t hstep => by
      unfold driveStep at hstep
      split_ifs at hstep with hguard
      exact ⟨hstep, hguard⟩)
    (.start (show (serverRuns reference (drivePlatform true)).init s₀ from ⟨deskConfig false, 0, Drive.empty,
      hstarted⟩)) hpast
  obtain ⟨c, c', hc, hc', hzero, huid, hreport⟩ := reports_rows hbefore hafter
  have hworld : ∀ os, ServerEvent.world os ∉ uploadEvents ++ [.message 0 deskIo] := fun os => by
    simp [uploadEvents, loginEvents, helloEvents, sealedEvents]
  have hall : ∀ p ∈ past ++ [(s, .message 0 deskIo)], TransferSafe (driveFiles true) reference p.1 p.2 = true ∧
      FilesLeftAlone (driveFiles true) p.1 p.2 := by
    intro p hp
    have hmem : p.2 ∈ uploadEvents ++ [.message 0 deskIo] ∧
        TransferSafe (driveFiles true) reference p.1 p.2 = true := by
      rcases List.mem_append.mp hp with hp | hp
      · exact ⟨List.mem_append_left _ (hsafe p hp).1, (hsafe p hp).2⟩
      · obtain rfl := List.mem_singleton.mp hp
        exact ⟨List.mem_append_right _ List.mem_cons_self, hlast⟩
    exact ⟨hmem.2, fun os hos => absurd (hos ▸ hmem.1) (hworld os)⟩
  rcases uploads_arrive reference hviewer (fun p hp => (hids p hp).2) (driveFiles true) hhost ht hall
    (show c ∈ s.conns by simp [hc]) (show c' ∈ t.conns by simp [hc']) huid (by
      rw [hzero, List.nil_append, hheard, hsaid]) with hsame | ⟨id, path, name, -, hstart, hdisk⟩
  · exact absurd hsame hreport
  · exact ⟨told, v, past, s, t, id, path, name, hviewer, hhost, ht, hstart, hdisk⟩

end TetherDesk
