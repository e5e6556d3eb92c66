import TetherDesk.Host.Server.Uploads
import TetherDesk.Host.Upload.Names
import TetherDesk.Host.Server.Rehearsal

namespace TetherDesk.Host

open TetherDesk.Net TetherDesk.Secure TetherDesk.Lib.Stdio TetherDesk.Lib.Table TetherDesk.Lib.Transition

section Names

variable {σ : Type} (cr : Crypto) (plat : Platform σ) (s : Server σ)

-- Whether begin_upload finds no file under one of the names it tries.
def Server.nameFree (name : Bytes) : Bool :=
  (List.range 1000).any fun i =>
    !plat.files.fileExists (plat.files.makeDirs s.os s.cfg.downloadsDir)
      (candidate s.cfg.downloadsDir (safeName name) i)

-- A FILE_BEGIN that opens a file has such a name.
def FreshName (e : ServerEvent σ) : Bool :=
  match s.fileMessageIn cr e with
  | some (c, .start id size name) => (s.opensAt plat c id size name).isNone || s.nameFree plat name
  | _ => true

variable {cr plat s} {e : ServerEvent σ} {c : Conn} {id size : Nat} {name path : Bytes}

theorem message_os (cr : Crypto) (s : Server σ) (os : σ) (uid : Nat) (io : Io) :
    Server.fileMessageIn cr { s with os := os } (.message uid io) = s.fileMessageIn cr (.message uid io) := rfl

-- The file that begin_upload opens is new exactly if one of the names is free.
theorem opensAt_fresh (h : s.opensAt plat c id size name = some path) :
    plat.files.fileExists (plat.files.makeDirs s.os s.cfg.downloadsDir) path = false ↔
      s.nameFree plat name = true := by
  unfold Server.opensAt at h
  split at h
  · cases h
  · obtain ⟨-, -, rfl⟩ := Option.map_eq_some_iff.mp h
    rw [← Bool.not_eq_true, uploadPath_exists]
    unfold Server.nameFree
    simp

end Names

section Steps

-- Each open transfer has its own file, which is there.
structure OnDisk (v : Storage Bytes UInt8) (held : Nat → Nat → Upload → Prop) : Prop extends Apart v held where
  disk : ∀ uid id u, held uid id u → v.disk u.path ≠ none

variable {σ : Type} {cr : Crypto} {plat : Platform σ} {fs : HostFiles plat} {s t : Server σ} {c : Conn}
  {e : ServerEvent σ}
  {uid id size : Nat} {u : Upload} {name path q : Bytes}

theorem fresh_disk (hfresh : FreshName cr plat s e = true)
    (hmessage : s.fileMessageIn cr e = some (c, .start id size name))
    (hopens : s.opensAt plat c id size name = some path) : (fs.view s.os).disk path = none := by
  unfold FreshName at hfresh
  rw [hmessage] at hfresh
  dsimp only at hfresh
  rw [hopens, Option.isNone_some, Bool.false_or, ← opensAt_fresh hopens] at hfresh
  by_contra hdisk
  rw [← fs.makeDirs s.os s.cfg.downloadsDir] at hdisk
  rw [fs.fileExists _ path hdisk] at hfresh
  cases hfresh

theorem OnDisk.opens (hold : OnDisk (fs.view s.os) s.Held) (hfresh : FreshName cr plat s e = true) :
    OpensApart cr s plat e := by
  rintro c id size name path hmessage hopens uid id' u hheld rfl
  exact hold.disk uid id' u hheld (fresh_disk hfresh hmessage hopens)

theorem OnDisk.next (hold : OnDisk (fs.view s.os) s.Held) (hopens : OpensApart cr s plat e)
    (hsince : ∀ uid id u, t.Held uid id u → Since cr fs s e t uid id u) : OnDisk (fs.view t.os) t.Held := by
  refine ⟨hold.toApart.next hopens hsince, fun uid id u ht => ?_⟩
  cases hsince uid id u ht with
  | same held same ledger =>
      rw [same.disk]
      exact hold.disk uid id u held
  | began c name mem mine message opens free empty opened =>
      rw [opened.disk]
      exact Option.some_ne_none _
  | wrote c data u₀ mine message held grown stored =>
      have hdisk := hold.disk uid id u₀ held
      rw [grown]
      rcases stored with ⟨-, hview⟩ | hwrote
      · exact hview ▸ hdisk
      · obtain ⟨w, hw⟩ := hold.stream uid id u₀ held
        exact hwrote.disk hw hdisk

-- What a step may do to the file at q: the message it serves belongs to the transfer
-- that writes q, or the connection of that transfer is reaped.
inductive Touches (cr : Crypto) (s : Server σ) (e : ServerEvent σ) (q : Bytes) : Prop
  | message (c : Conn) (m : FileMessage) (u : Upload) (message : s.fileMessageIn cr e = some (c, m))
      (held : s.Held c.uid m.id u) (path : u.path = q)
  | reap (io : Io) (c : Conn) (id : Nat) (u : Upload) (event : e = .reap io) (mem : c ∈ s.conns)
      (dead : c.dead = true)
      (held : s.Held c.uid id u) (path : u.path = q)

-- An existing file changes in no other way.
theorem Filed.spares {m : FileMessage} (h : Filed fs s c m t) (htidy : s.Tidy)
    (hbounded : ∀ h ∈ s.holdings, h.Bounded)
    (hc : c ∈ s.conns) (hmessage : s.fileMessageIn cr e = some (c, m)) (hfresh : FreshName cr plat s e = true)
    (hold : OnDisk (fs.view s.os) s.Held) (hdisk : (fs.view s.os).disk q ≠ none) :
    (fs.view t.os).disk q = (fs.view s.os).disk q ∨ Touches cr s e q := by
  have htouches : ∀ {id u}, c.upload id = some u → m.id = id →
      (q ≠ u.path → (fs.view t.os).disk q = (fs.view s.os).disk q) →
      (fs.view t.os).disk q = (fs.view s.os).disk q ∨ Touches cr s e q := by
    intro id u held hid hsame
    by_cases hq : q = u.path
    · exact .inr (.message c m u hmessage (hid ▸ (held_ids htidy hbounded hc).mp held) hq.symm)
    · exact .inl (hsame hq)
  have hstream : ∀ {id u}, c.upload id = some u → ∃ w, (fs.view s.os).stream u.file = some ⟨u.path, w⟩ :=
    fun held =>
    hold.stream _ _ _ ((held_ids htidy hbounded hc).mp held)
  cases h with
  | rejected refused kept => exact .inl (by rw [kept.view])
  | unknown names free kept => exact .inl (by rw [kept.view])
  | began path f opens free few small rows opened =>
      refine .inl (opened.sameAt fun hq => hdisk ?_).disk
      rw [hq]
      exact fresh_disk hfresh hmessage opens
  | wrote u held fits rows stored =>
      obtain ⟨w, hw⟩ := hstream held
      refine htouches held rfl fun hq => ?_
      rcases stored with ⟨-, hview⟩ | hwrote
      · rw [hview]
      · exact (hwrote.sameAt hw hq).disk
  | failed u v v' ok names held before rows closed removed =>
      obtain ⟨w, hw⟩ := hstream held
      refine htouches held (by rcases names with rfl | ⟨data, rfl⟩ <;> rfl) fun hq => ?_
      rcases before with rfl | ⟨data, n, hwrote⟩
      · exact ((closed.sameAt hw hq).trans (removed.sameAt hq)).disk
      · obtain ⟨w', hw'⟩ := hwrote.path hw
        exact ((hwrote.sameAt hw hq).trans ((closed.sameAt hw' hq).trans (removed.sameAt hq))).disk
  | saved u held complete rows closed =>
      obtain ⟨w, hw⟩ := hstream held
      exact htouches held rfl fun hq => (closed.sameAt hw hq).disk

theorem Outcome.spares (h : Outcome fs cr s e t) (htidy : s.Tidy) (hbounded : ∀ h ∈ s.holdings, h.Bounded)
    (hfresh : FreshName cr plat s e = true) (hworld : ∀ os, e ≠ .world os) (hold : OnDisk (fs.view s.os) s.Held)
    (hdisk : (fs.view s.os).disk q ≠ none) : (fs.view t.os).disk q = (fs.view s.os).disk q ∨ Touches cr s e q := by
  cases h with
  | kept quiet kept => exact .inl (by rw [kept.view])
  | moved os event rows view => exact absurd event (hworld os)
  | limited mine quiet rows view => exact .inl (by rw [view])
  | joined limit quiet small rows view => exact .inl (by rw [view])
  | reaped io event rows dropped =>
      obtain ⟨hsame, -, -⟩ :=
        dropped.spec (transfers_streams htidy hold.stream _) (transfersOf_nodup htidy hbounded hold.alone _)
      by_cases hq : q ∈ (transfersOf (s.conns.filter fun c => c.dead)).map Prod.snd
      · obtain ⟨⟨f, p⟩, hx, rfl⟩ := List.mem_map.mp hq
        obtain ⟨d, hd, x, hopen, rfl, rfl⟩ := mem_transfersOf.mp hx
        obtain ⟨hd, hdead⟩ := List.mem_filter.mp hd
        exact .inr (.reap io d x.1 x.2 event hd hdead ((held_conn htidy hd).mpr hopen) rfl)
      · exact .inl (hsame q hq).disk
  | filed io c m event mem live message filed => exact filed.spares htidy hbounded mem message hfresh hold hdisk

end Steps

section Runs

variable {σ : Type} (cr : Crypto) {plat : Platform σ} (fs : HostFiles plat) {past : List (Server σ × ServerEvent σ)}
  {s t : Server σ} {e : ServerEvent σ}

-- The FILE_BEGIN that opened a transfer found no file under its name.
def BegunFresh (past : List (Server σ × ServerEvent σ)) (uid id : Nat) (u : Upload) : Prop :=
  ∃ p ∈ past, (fs.view p.1.os).disk u.path = none ∧ ∃ c size name, p.1.fileMessageIn cr p.2 =
    some (c, .start id size name) ∧
    uid = c.uid ∧ p.1.opensAt plat c id size name = some u.path

theorem onDisk_run (run : Run (serverRuns cr plat) past s)
    (hguard : ∀ p ∈ past, FreshName cr plat p.1 p.2 = true ∧ FilesLeftAlone fs p.1 p.2) :
    OnDisk (fs.view s.os) s.Held ∧ ∀ uid id u, s.Held uid id u → BegunFresh cr fs past uid id u := by
  refine (run.guarded (fun s e => FreshName cr plat s e = true ∧ FilesLeftAlone fs s e)
    (fun past s => (s.Tidy ∧ ∀ h ∈ s.holdings, h.Bounded) ∧
      OnDisk (fs.view s.os) s.Held ∧ ∀ uid id u, s.Held uid id u → BegunFresh cr fs past uid id u)
        (fun s hinit => ?_) ?_ hguard).2
  · have hrun : Run (serverRuns cr plat) [] s := .start hinit
    have hnone : ∀ uid id u, ¬ s.Held uid id u := by
      rintro uid id u ⟨h, hh, -⟩
      unfold Server.holdings at hh
      rw [started_conns plat hinit] at hh
      cases hh
    exact ⟨⟨tidy_run cr plat hrun, bounded_run fs hrun⟩, ⟨⟨fun uid id u h => absurd h (hnone uid id u),
      fun uid id u _ _ _ h => absurd h (hnone uid id u)⟩, fun uid id u h => absurd h (hnone uid id u)⟩,
      fun uid id u h => absurd h (hnone uid id u)⟩
  · rintro past s e t ⟨⟨htidy, hbounded⟩, hold, hbegun⟩ ⟨hfresh, hworld⟩ hstep
    have houtcome := apply_outcome fs htidy hbounded hstep
    have hopens := hold.opens hfresh
    have hsince : ∀ uid id u, t.Held uid id u → Since cr fs s e t uid id u := fun uid id u ht =>
      houtcome.since htidy hbounded hworld hopens hold.toApart ht
    refine ⟨⟨(apply_steps cr plat htidy hstep).tidy cr htidy, houtcome.bounded fs hbounded⟩,
      hold.next hopens hsince,
      fun uid id u ht => ?_⟩
    rcases (hsince uid id u ht).origin with ⟨u₀, hs, hpath, -⟩ | ⟨c, size, name, hmessage, huid, hat⟩
    · obtain ⟨p, hp, hnone, hbegan⟩ := hbegun uid id u₀ hs
      rw [hpath] at hnone hbegan
      exact ⟨p, List.mem_append_left _ hp, hnone, hbegan⟩
    · exact ⟨(s, e), by simp, fresh_disk hfresh hmessage hat, c, size, name, hmessage, huid, hat⟩

-- The file that a FILE_BEGIN opens is new exactly if one of the names tried is free;
-- in runs where it always is, an upload touches no file but its own.
theorem uploads_spare_files (run : Run (serverRuns cr plat) past s) :
    (∀ c id size name path, s.opensAt plat c id size name = some path →
      (plat.files.fileExists (plat.files.makeDirs s.os s.cfg.downloadsDir) path = false ↔
        s.nameFree plat name = true)) ∧
    ((∀ p ∈ past, FreshName cr plat p.1 p.2 = true ∧ FilesLeftAlone fs p.1 p.2) →
      (∀ uid id u, s.Held uid id u → BegunFresh cr fs past uid id u) ∧
      ∀ e t, e.apply cr plat s = some t → FreshName cr plat s e = true → (∀ os, e ≠ .world os) →
        ∀ q, (fs.view s.os).disk q ≠ none → (fs.view t.os).disk q = (fs.view s.os).disk q ∨ Touches cr s e q) := by
  refine ⟨fun c id size name path => opensAt_fresh, fun hguard => ?_⟩
  obtain ⟨hold, hbegun⟩ := onDisk_run cr fs run hguard
  refine ⟨hbegun, fun e t happly hfresh hworld q hdisk => ?_⟩
  have htidy := tidy_run cr plat run
  have hbounded := bounded_run fs run
  exact (apply_outcome fs htidy hbounded happly).spares htidy hbounded hfresh hworld hold hdisk

end Runs

-- A viewer announces a file; the link fails, and the connection is reaped.
def announceEvents : List (ServerEvent Drive) :=
  loginEvents 0 "Ann" ++
    [.received 0 (clientFrame RD_WS_BINARY
      (rdAeadSeal reference (putU8 RD_C_FILE_BEGIN ++ putU32 1 ++ putU64 5 ++ putStr (ascii "a.txt")) []
        deskKey (ctrNonce 1))) 0]

-- What a host has when the message arrives, when it is served, and at the end.
structure AnnounceFacts where
  allowed : Bool
  dir : Bytes
  message : Option (Nat × Bool × List (Nat × Upload) × FileMessage)
  fresh : Bool
  uploads : List (Nat × List (Nat × Upload))
  left : Nat
  deriving DecidableEq

def announceFacts : Option AnnounceFacts :=
  (driveHost true (FreshName reference (drivePlatform true)) announceEvents).bind fun s =>
    ((ServerEvent.message 0 deskIo).apply reference (drivePlatform true) s).bind fun t =>
      ((ServerEvent.recvFailed 0 []).apply reference (drivePlatform true) t).bind fun u =>
        ((ServerEvent.reap deskIo).apply reference (drivePlatform true) u).map fun v =>
          { allowed := s.cfg.allowFiles
            dir := s.cfg.downloadsDir
            message := (s.fileMessageIn reference (.message 0 deskIo)).map fun x =>
              (x.1.uid, x.1.viewOnly, x.1.uploads, x.2)
            fresh := FreshName reference (drivePlatform true) s (.message 0 deskIo)
            uploads := t.conns.map fun c => (c.uid, c.uploads)
            left := v.conns.length }

theorem announceEvents_facts : announceFacts = some
    { allowed := true
      dir := ascii "down"
      message := some (0, false, [], .start 1 5 (ascii "a.txt"))
      fresh := true
      uploads := [(0, [(1, ⟨0, 5, 0, ascii "down/a.txt"⟩)])]
      left := 0 } := by
  unfold announceFacts driveHost announceEvents loginEvents sealedEvents
  rw [← rehearsed_eq]
  decide +kernel

-- The steps of that run.
structure Begins (past : List (Server Drive × ServerEvent Drive)) (s t u v : Server Drive) (c : Conn) : Prop where
  run : Run (serverRuns reference (drivePlatform true)) past s
  start : ∀ s₀, (statesOf past s)[0]? = some s₀ → s₀.os = Drive.empty
  worldless : ∀ p ∈ past, ∀ os, p.2 ≠ .world os
  guard : ∀ p ∈ past, FreshName reference (drivePlatform true) p.1 p.2 = true ∧
    FilesLeftAlone (driveFiles true) p.1 p.2
  fresh : FreshName reference (drivePlatform true) s (.message 0 deskIo) = true
  served : (ServerEvent.message 0 deskIo).apply reference (drivePlatform true) s = some t
  failed : (ServerEvent.recvFailed 0 []).apply reference (drivePlatform true) t = some u
  reaped : (ServerEvent.reap deskIo).apply reference (drivePlatform true) u = some v
  allowed : s.cfg.allowFiles = true
  dir : s.cfg.downloadsDir = ascii "down"
  message : s.fileMessageIn reference (.message 0 deskIo) = some (c, .start 1 5 (ascii "a.txt"))
  control : c.viewOnly = false
  idle : c.uploads = []
  held : t.Held 0 1 ⟨0, 5, 0, ascii "down/a.txt"⟩
  left : v.conns = []

theorem announceEvents_run : ∃ past s t u v c, Begins past s t u v c := by
  obtain ⟨s, hs, h⟩ := Option.bind_eq_some_iff.mp announceEvents_facts
  obtain ⟨t, ht, h⟩ := Option.bind_eq_some_iff.mp h
  obtain ⟨u, hu, h⟩ := Option.bind_eq_some_iff.mp h
  obtain ⟨v, hv, hfacts⟩ := Option.map_eq_some_iff.mp h
  rw [AnnounceFacts.mk.injEq] at hfacts
  obtain ⟨hallowed, hdir, hmessage, hfresh, huploads, hleft⟩ := hfacts
  obtain ⟨past, hrun, hevents, hfirst, hguard⟩ := driveHost_run hs
  obtain ⟨⟨c, m⟩, hmessage, hc⟩ := Option.map_eq_some_iff.mp hmessage
  simp only [Prod.mk.injEq] at hc
  obtain ⟨-, hcontrol, hidle, rfl⟩ := hc
  obtain ⟨d, hd, hrow⟩ := List.map_eq_singleton_iff.mp huploads
  rw [Prod.mk.injEq] at hrow
  have hworld : ∀ p ∈ past, ∀ os, p.2 ≠ .world os := worldless_of_events hevents fun os => by
    simp [announceEvents, loginEvents, helloEvents, sealedEvents]
  refine ⟨past, s, t, u, v, c, hrun, hfirst, hworld,
    fun p hp => ⟨hguard p hp, fun os hos => absurd hos (hworld p hp os)⟩, hfresh, ht, hu, hv, hallowed, hdir,
      hmessage, hcontrol,
    hidle, ⟨d.holding, ?_, hrow.1, ?_⟩, List.length_eq_zero_iff.mp hleft⟩
  · unfold Server.holdings
    rw [hd]
    exact List.mem_cons_self
  · change _ ∈ d.uploads
    rw [hrow.2]
    exact List.mem_cons_self

theorem uploads_spare_files_announced :
    ∃ (past : List (Server Drive × ServerEvent Drive)) (s : Server Drive) (u : Upload),
      Run (serverRuns reference (drivePlatform true)) past s ∧ s.Held 0 1 u ∧
        BegunFresh reference (driveFiles true) past 0 1 u := by
  obtain ⟨past, s, t, _, _, _, h⟩ := announceEvents_run
  have hnext : Run (serverRuns reference (drivePlatform true)) (past ++ [(s, .message 0 deskIo)]) t :=
    .next h.run h.served
  have hguard : ∀ p ∈ past ++ [(s, .message 0 deskIo)], FreshName reference (drivePlatform true) p.1 p.2 = true ∧
      FilesLeftAlone (driveFiles true) p.1 p.2 := by
    intro p hp
    rcases List.mem_append.mp hp with hp | hp
    · exact h.guard p hp
    · obtain rfl := List.mem_singleton.mp hp
      exact ⟨h.fresh, fun os hos => by cases hos⟩
  exact ⟨_, t, _, hnext, h.held, ((uploads_spare_files reference (driveFiles true) hnext).2 hguard).1 0 1 _ h.held⟩

-- A drive on which every name that begin_upload tries for a file is taken.
def nameTaken (dir name p : Bytes) : Bool := (List.range 1000).any fun i => p = candidate dir (safeName name) i

def fullDrive (dir name : Bytes) : Drive :=
  ⟨⟨fun p => if nameTaken dir name p then some (ascii "old") else none, fun _ => none⟩, 0⟩

theorem fullDrive_taken (dir name : Bytes) (i : Nat) (hi : i < 1000) :
    (drivePlatform true).files.fileExists (fullDrive dir name) (candidate dir (safeName name) i) = true := by
  have htaken : nameTaken dir name (candidate dir (safeName name) i) = true :=
    List.any_eq_true.mpr ⟨i, List.mem_range.mpr hi, decide_eq_true rfl⟩
  unfold drivePlatform fullDrive
  dsimp only
  rw [if_pos htaken]
  rfl

-- The file under the last of them is opened.
theorem upload_opens_existing_file :
    ¬ ∀ (past : List (Server Drive × ServerEvent Drive)) (s : Server Drive) (e : ServerEvent Drive) (c : Conn)
      (id size : Nat) (name path : Bytes), Run (serverRuns reference (drivePlatform true)) past s →
      s.fileMessageIn reference e = some (c, .start id size name) →
        s.opensAt (drivePlatform true) c id size name = some path →
      (drivePlatform true).files.fileExists ((drivePlatform true).files.makeDirs s.os s.cfg.downloadsDir)
        path = false := by
  intro halways
  obtain ⟨past, s, _, _, _, c, h⟩ := announceEvents_run
  let full := fullDrive (ascii "down") (ascii "a.txt")
  have hthrown : s.thrown = false := by
    by_contra hthrown
    have hserved := h.served
    unfold ServerEvent.apply at hserved
    rw [if_pos (by simpa using hthrown)] at hserved
    cases hserved
  have hworld : (ServerEvent.world full).apply reference (drivePlatform true) s = some { s with os := full } := by
    unfold ServerEvent.apply
    rw [hthrown]
    rfl
  have hrun : Run (serverRuns reference (drivePlatform true)) (past ++ [(s, .world full)]) { s with os := full } :=
    .next h.run hworld
  have hopens : Server.opensAt (drivePlatform true) { s with os := full } c 1 5 (ascii "a.txt") =
      some (uploadPath ((drivePlatform true).files.fileExists full) s.cfg.downloadsDir
        (safeName (ascii "a.txt"))) := by
    unfold Server.opensAt Conn.upload
    rw [h.allowed, h.control, h.idle]
    rfl
  have hmessage : Server.fileMessageIn reference { s with os := full } (.message 0 deskIo) =
      some (c, .start 1 5 (ascii "a.txt")) := (message_os reference s full 0 deskIo).trans h.message
  have hfree := halways _ _ (.message 0 deskIo) c 1 5 (ascii "a.txt") _ hrun hmessage hopens
  have htaken : ∀ i < 1000,
      (drivePlatform true).files.fileExists full (candidate (ascii "down") (safeName (ascii "a.txt")) i) = true :=
    fullDrive_taken (ascii "down") (ascii "a.txt")
  rw [← uploadPath_exists, ← h.dir, show (drivePlatform true).files.fileExists full _ = false from hfree] at htaken
  cases htaken

end TetherDesk.Host
