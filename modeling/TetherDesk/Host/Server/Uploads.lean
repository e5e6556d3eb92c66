import TetherDesk.Host.Server.Since
import TetherDesk.Host.Server.Rehearsal

namespace TetherDesk.Host

open TetherDesk.Net TetherDesk.Secure TetherDesk.Lib.Stdio TetherDesk.Lib.Table TetherDesk.Lib.Transition

section Intact

-- No two transfers share a file, and each stream holds what its viewer has sent.
structure Intact (v : Storage Bytes UInt8) (held : Nat → Nat → Upload → Prop)
    (l : Nat × Nat → Nat × Bytes) : Prop where
  stream : ∀ uid id u, held uid id u → v.stream u.file = some ⟨u.path, some (l (uid, id)).2⟩
  told : ∀ uid id u, held uid id u → u.size = (l (uid, id)).1 ∧ u.received = (l (uid, id)).2.length
  alone : ∀ uid id u uid' id' u', held uid id u → held uid' id' u' → u.path = u'.path → uid = uid' ∧ id = id'

theorem Intact.apart {v : Storage Bytes UInt8} {held : Nat → Nat → Upload → Prop} {l : Nat × Nat → Nat × Bytes}
    (h : Intact v held l) : Apart v held := ⟨fun uid id u hheld => ⟨_, h.stream uid id u hheld⟩, h.alone⟩

variable {σ : Type} {plat : Platform σ} (fs : HostFiles plat) (cr : Crypto) (s : Server σ)

-- A FILE_BEGIN that opens a file opens none of an open transfer, and where a
-- FILE_END finds all bytes received, fclose reports success.
def TransferSafe (e : ServerEvent σ) : Bool :=
  match s.fileMessageIn cr e with
  | some (c, .start id size name) =>
      match s.opensAt plat c id size name with
      | none => true
      | some path => s.conns.all fun d => d.uploads.all fun x => x.2.path ≠ path
  | some (c, .finish id) =>
      match c.upload id with
      | none => true
      | some u => u.received ≠ u.size || fs.closes s.os u.file
  | _ => true

variable {fs cr s} {t : Server σ} {e : ServerEvent σ} {l : Nat × Nat → Nat × Bytes}

theorem transferSafe_opens (h : TransferSafe fs cr s e = true) : OpensApart cr s plat e := by
  rintro c id size name path hmessage hopens uid id' u ⟨h₀, hh, rfl, hmem⟩
  obtain ⟨d, hd, rfl⟩ := List.mem_map.mp hh
  unfold TransferSafe at h
  rw [hmessage] at h
  dsimp only at h
  rw [hopens] at h
  simpa using List.all_eq_true.mp (List.all_eq_true.mp h d hd) (id', u) hmem

theorem Outcome.intact (h : Outcome fs cr s e t) (htidy : s.Tidy) (hbounded : ∀ h ∈ s.holdings, h.Bounded)
    (hsafe : TransferSafe fs cr s e = true) (hworld : FilesLeftAlone fs s e)
    (hold : Intact (fs.view s.os) s.Held l) :
    Intact (fs.view t.os) t.Held (s.ledgerAfter cr e l) := by
  have hsince : ∀ uid id u, t.Held uid id u → Since cr fs s e t uid id u := fun uid id u ht =>
    h.since htidy hbounded hworld (transferSafe_opens hsafe) hold.apart ht
  have hbegan : ∀ {c : Conn} {id size : Nat} {name : Bytes}, s.fileMessageIn cr e = some (c, .start id size name) →
      c.upload id = none → s.ledgerAfter cr e l (c.uid, id) = (size, []) := by
    intro c id size name hmessage hfree
    unfold Server.ledgerAfter
    rw [hmessage]
    dsimp only
    rw [hfree]
    exact Function.update_self _ _ _
  have hwrote : ∀ {c : Conn} {id : Nat} {data : Bytes}, s.fileMessageIn cr e = some (c, .chunk id data) →
      s.ledgerAfter cr e l (c.uid, id) = ((l (c.uid, id)).1, (l (c.uid, id)).2 ++ data) := by
    intro c id data hmessage
    unfold Server.ledgerAfter
    rw [hmessage]
    exact Function.update_self _ _ _
  refine ⟨fun uid id u ht => ?_, fun uid id u ht => ?_, (hold.apart.next (transferSafe_opens hsafe) hsince).alone⟩
  · cases hsince uid id u ht with
    | same held same ledger =>
        rw [ledger l]
        exact (same.stream u.file _ rfl).mpr (hold.stream uid id u held)
    | began c name mem mine message opens free empty opened =>
        rw [mine, hbegan message free]
        exact opened.stream
    | wrote c data u₀ mine message held grown stored =>
        have hstream := hold.stream uid id u₀ held
        rw [grown, mine, hwrote message]
        rw [mine] at hstream
        rcases stored with ⟨rfl, hview⟩ | hstored
        · rw [hview, List.append_nil]
          exact hstream
        · exact hstored.stream hstream rfl
  · cases hsince uid id u ht with
    | same held same ledger =>
        rw [ledger l]
        exact hold.told uid id u held
    | began c name mem mine message opens free empty opened =>
        rw [mine, hbegan message free]
        exact ⟨rfl, empty⟩
    | wrote c data u₀ mine message held grown stored =>
        obtain ⟨hsize, hreceived⟩ := hold.told uid id u₀ held
        rw [grown, mine, hwrote message, List.length_append, ← mine, ← hreceived]
        exact ⟨hsize, rfl⟩

end Intact

section Runs

variable {σ : Type} (cr : Crypto) {plat : Platform σ} (fs : HostFiles plat) {past : List (Server σ × ServerEvent σ)}
  {s t : Server σ} {e : ServerEvent σ} {c c' : Conn}

theorem intact_run (run : Run (serverRuns cr plat) past s)
    (hguard : ∀ p ∈ past, TransferSafe fs cr p.1 p.2 = true ∧ FilesLeftAlone fs p.1 p.2) :
    Intact (fs.view s.os) s.Held (ledger cr past) := by
  refine (run.guarded (fun s e => TransferSafe fs cr s e = true ∧ FilesLeftAlone fs s e)
    (fun past s => s.Tidy ∧ (∀ h ∈ s.holdings, h.Bounded) ∧ Intact (fs.view s.os) s.Held (ledger cr past))
      (fun s hinit => ?_) ?_
    hguard).2.2
  · have hrun : Run (serverRuns cr plat) [] s := .start hinit
    have hnone : ∀ uid id u, ¬ s.Held uid id u := by
      rintro uid id u ⟨h, hh, -⟩
      unfold Server.holdings at hh
      rw [started_conns plat hinit] at hh
      cases hh
    exact ⟨tidy_run cr plat hrun, bounded_run fs hrun, fun uid id u h => absurd h (hnone uid id u),
      fun uid id u h => absurd h (hnone uid id u), fun uid id u _ _ _ h => absurd h (hnone uid id u)⟩
  · rintro past s e t ⟨htidy, hbounded, hold⟩ ⟨hsafe, hworld⟩ hstep
    have houtcome := apply_outcome fs htidy hbounded hstep
    rw [ledger_next]
    exact ⟨(apply_steps cr plat htidy hstep).tidy cr htidy, houtcome.bounded fs hbounded,
      houtcome.intact htidy hbounded hsafe hworld hold⟩

-- A FILE_CHUNK or FILE_END whose id names no open transfer is read and nothing else.
theorem unknown_transfer (htidy : s.Tidy) (happly : e.apply cr plat s = some t) {m : FileMessage}
    (hmessage : s.fileMessageIn cr e = some (c, m)) (hkind : ∀ size name, m ≠ .start m.id size name)
    (hfree : c.upload m.id = none) : ∃ c₂, Read c c₂ ∧ t = s.modify c.uid fun _ => c₂ := by
  obtain ⟨io, type, r, rfl, hc, hlive, hmsg, hfile⟩ := fileMessageIn_some hmessage
  unfold ServerEvent.apply at happly
  split at happly
  · cases happly
  have hfind : s.find c.uid = some c := find_row Conn.uid htidy.distinct hc
  obtain rfl := Option.some.inj happly
  obtain ⟨c₂, hread, hround⟩ : ∃ c₂, Read c c₂ ∧ (s.wsRound cr plat c io).1 = _ := wsRound_session hlive hmsg
  refine ⟨c₂, hread, ?_⟩
  unfold Server.onConn
  rw [hfind]
  dsimp only
  rw [if_pos (by unfold Conn.live at hlive; simp [Conn.upgraded, (of_decide_eq_true hlive).1]), hround]
  have hnone : c₂.upload m.id = none := by
    obtain ⟨ws, inn, recvCtr, rfl, -⟩ := hread
    exact hfree
  unfold fileMessage at hfile
  by_cases hbegin : type = RD_C_FILE_BEGIN
  · rw [if_pos hbegin] at hfile
    dsimp only at hfile
    split at hfile
    · cases hfile
    · exact absurd (Option.some.inj hfile).symm (by
        rw [← Option.some.inj hfile] at hkind
        exact fun _ => hkind _ _ rfl)
  rw [if_neg hbegin] at hfile
  by_cases hchunk : type = RD_C_FILE_CHUNK
  · rw [if_pos hchunk] at hfile
    subst hchunk
    change (s.modify c.uid fun _ => c₂).uploadChunk cr plat c₂ r _ = _
    unfold Server.uploadChunk
    dsimp only at hfile ⊢
    split at hfile
    · cases hfile
    · next herr =>
        rw [← Option.some.inj hfile] at hnone
        rw [if_neg herr, show c₂.upload (rdGetU32 r).1 = none from hnone]
  rw [if_neg hchunk] at hfile
  by_cases hend : type = RD_C_FILE_END
  · rw [if_pos hend] at hfile
    subst hend
    change (s.modify c.uid fun _ => c₂).uploadEnd cr plat c₂ r _ = _
    unfold Server.uploadEnd
    dsimp only at hfile ⊢
    split at hfile
    · cases hfile
    · next herr =>
        rw [← Option.some.inj hfile] at hnone
        rw [if_neg herr, show c₂.upload (rdGetU32 r).1 = none from hnone]
  · rw [if_neg hend] at hfile
    cases hfile

-- What a report of success to a viewer comes from: the FILE_END of a transfer whose
-- file on the disk is what the viewer sent, of the size it announced.
structure SavedWhole (past : List (Server σ × ServerEvent σ)) (s : Server σ) (e : ServerEvent σ)
    (t : Server σ) (c : Conn)
    (id : Nat) (u : Upload) : Prop where
  message : s.fileMessageIn cr e = some (c, .finish id)
  opened : (id, u) ∈ c.uploads
  onDisk : (fs.view t.os).disk u.path = some (ledger cr past (c.uid, id)).2
  size : (ledger cr past (c.uid, id)).2.length = (ledger cr past (c.uid, id)).1

-- The reports of success a viewer gets in one step.
theorem Outcome.saved (h : Outcome fs cr s e t) (htidy : s.Tidy) (hc : c ∈ s.conns) (hc' : c' ∈ t.conns)
    (huid : c'.uid = c.uid) : c'.holding.saved = c.holding.saved ∨ ∃ id u, s.fileMessageIn cr e =
      some (c, .finish id) ∧
      c.upload id = some u ∧ u.received = u.size ∧
      c'.holding.saved = c.holding.saved ++ [fileResultMsg id true (ascii "Saved to " ++ u.path)] ∧
      Closed (fs.view s.os) u.file (fs.closes s.os u.file) (fs.view t.os) := by
  have hmem : c'.holding ∈ t.holdings := List.mem_map_of_mem hc'
  have hrow : ∀ h ∈ s.holdings, h.uid = c.uid → h = c.holding := by
    intro h hh hhuid
    obtain ⟨d, hd, rfl⟩ := List.mem_map.mp hh
    rw [htidy.row hc d hd hhuid]
  have hsame : ∀ h ∈ s.holdings, h.uid = c'.holding.uid → c'.holding.saved = h.saved →
      c'.holding.saved = c.holding.saved :=
    fun h hh hhuid hsaved => by rw [hsaved, hrow h hh (hhuid.trans huid)]
  have hkept : t.holdings = s.holdings → c'.holding.saved = c.holding.saved := fun rows =>
    hsame c'.holding (rows ▸ hmem) rfl rfl
  have hfiled : ∀ {d : Conn} {uploads : List (Nat × Upload)} {saved : List Bytes}, d ∈ s.conns →
      Rows s t d.uid uploads saved →
      (d = c ∧ c'.holding.saved = c.holding.saved ++ saved) ∨ c'.holding.saved = c.holding.saved := by
    intro d uploads saved hd rows
    rw [show t.holdings = _ from rows] at hmem
    obtain ⟨h, hh, heq⟩ := List.mem_map.mp hmem
    by_cases hmine : h.uid = d.uid
    · rw [if_pos hmine] at heq
      have hhuid : h.uid = c.uid := (congrArg Holding.uid heq).trans huid
      refine .inl ⟨htidy.row hc d hd (hmine.symm.trans hhuid), ?_⟩
      rw [← heq, hrow h hh hhuid]
    · rw [if_neg hmine] at heq
      exact .inr (hsame h hh (congrArg Holding.uid heq) (congrArg Holding.saved heq).symm)
  have hnothing : ∀ {d : Conn} {uploads : List (Nat × Upload)}, d ∈ s.conns → Rows s t d.uid uploads [] →
      c'.holding.saved = c.holding.saved := fun hd rows => by
    rcases hfiled hd rows with ⟨-, h⟩ | h
    · rwa [List.append_nil] at h
    · exact h
  cases h with
  | kept _ kept => exact .inl (hkept kept.rows)
  | moved os _ rows view => exact .inl (hkept rows)
  | limited mine _ rows view =>
      rw [rows] at hmem
      obtain ⟨h, hh, heq⟩ := List.mem_map.mp hmem
      refine .inl (hsame h hh ?_ ?_)
      · rw [← heq]
        split <;> rfl
      · rw [← heq]
        split <;> rfl
  | joined limit _ small rows view =>
      rw [rows, List.mem_append, List.mem_singleton] at hmem
      rcases hmem with hmem | heq
      · exact .inl (hsame c'.holding hmem rfl rfl)
      · have hnew : c'.uid = s.nextUid := congrArg Holding.uid heq
        have := htidy.used c hc
        omega
  | reaped io _ rows dropped =>
      rw [rows] at hmem
      obtain ⟨d, hd, heq⟩ := List.mem_map.mp hmem
      exact .inl (hsame d.holding (List.mem_map_of_mem (List.mem_filter.mp hd).1) (congrArg Holding.uid heq)
        (congrArg Holding.saved heq).symm)
  | filed io d m _ mem _ message filed =>
      cases filed with
      | rejected _ kept => exact .inl (hkept kept.rows)
      | unknown _ _ kept => exact .inl (hkept kept.rows)
      | began path f opens free few small rows opened => exact .inl (hnothing mem rows)
      | wrote u held fits rows stored => exact .inl (hnothing mem rows)
      | failed u v v' ok names held before rows closed removed => exact .inl (hnothing mem rows)
      | saved u held complete rows closed =>
          rcases hfiled mem rows with ⟨rfl, h⟩ | h
          · exact .inr ⟨_, u, message, held, complete, h, closed⟩
          · exact .inl h

-- Transfers keep their bounds in every run, and messages for unknown ones change
-- nothing; in runs whose steps are safe for transfers a report of success tells that
-- the file is whole.
theorem uploads_saved_whole (run : Run (serverRuns cr plat) past s) :
    (∀ c ∈ s.conns, c.uploads.length ≤ 4 ∧ ∀ x ∈ c.uploads, x.2.received ≤ x.2.size) ∧
    ∀ e t, e.apply cr plat s = some t →
      (∀ c m, s.fileMessageIn cr e = some (c, m) → (∀ size name, m ≠ .start m.id size name) → c.upload m.id = none →
        ∃ c₂, Read c c₂ ∧ t = s.modify c.uid fun _ => c₂) ∧
      ((∀ p ∈ past ++ [(s, e)], TransferSafe fs cr p.1 p.2 = true ∧ FilesLeftAlone fs p.1 p.2) →
        ∀ c ∈ s.conns, ∀ c' ∈ t.conns, c'.uid = c.uid → c'.sent.filter fileSaved = c.sent.filter fileSaved ∨
          ∃ id u, SavedWhole cr fs past s e t c id u ∧
            c'.sent.filter fileSaved = c.sent.filter fileSaved ++
              [fileResultMsg id true (ascii "Saved to " ++ u.path)]) := by
  have htidy := tidy_run cr plat run
  have hbounded := bounded_run fs run
  refine ⟨fun c hc => ?_, fun e t happly => ⟨fun c m hmessage hkind hfree => ?_, fun hguard c hc c' hc' huid => ?_⟩⟩
  · obtain ⟨-, few, -, fits⟩ := hbounded c.holding (List.mem_map_of_mem hc)
    exact ⟨few, fun x hx => (fits x hx).1⟩
  · exact unknown_transfer cr htidy happly hmessage hkind hfree
  · have hintact := intact_run cr fs run fun p hp => hguard p (List.mem_append_left _ hp)
    have hsafe := (hguard (s, e) (by simp)).1
    rcases (apply_outcome fs htidy hbounded happly).saved cr fs htidy hc hc' huid with h | ⟨id, u, hmessage,
        held, hcomplete,
      hsaved, hclosed⟩
    · exact .inl h
    · have hheld := (held_ids htidy hbounded hc).mp held
      obtain ⟨hsize, hreceived⟩ := hintact.told c.uid id u hheld
      have hcloses : fs.closes s.os u.file = true := by
        unfold TransferSafe at hsafe
        rw [hmessage] at hsafe
        dsimp only at hsafe
        rw [held] at hsafe
        simpa [hcomplete] using hsafe
      rw [hcloses] at hclosed
      refine .inr ⟨id, u, ⟨hmessage, upload_mem held, hclosed.content (hintact.stream c.uid id u hheld), ?_⟩,
        hsaved⟩
      rw [← hreceived, hcomplete, hsize]

end Runs

-- A platform with nothing but files. The streams keep everything in their buffers
-- until they are closed; keeps tells whether the last flush succeeds.
structure Drive where
  storage : Storage Bytes UInt8
  next : Nat

def Drive.empty : Drive := ⟨⟨fun _ => none, fun _ => none⟩, 0⟩

def Drive.fopen (d : Drive) (p : Bytes) : Option Nat × Drive :=
  match d.storage.stream d.next with
  | some _ => (none, d)
  | none => (some d.next, ⟨(d.storage.set p (some [])).put d.next (some ⟨p, some []⟩), d.next + 1⟩)

def Drive.fwrite (d : Drive) (f : Nat) (data : Bytes) : Nat × Drive :=
  match d.storage.stream f with
  | none => (0, d)
  | some s =>
      (data.length, { d with
        storage := (d.storage.set s.path (d.storage.disk s.path)).put f
          (some ⟨s.path, s.written.map (· ++ data)⟩) })

def Drive.fclose (keeps : Bool) (d : Drive) (f : Nat) : Drive :=
  match d.storage.stream f with
  | none => d
  | some s =>
      let old := d.storage.disk s.path
      { d with storage := (d.storage.set s.path (if keeps then s.written <|> old else old)).put f none }

def drivePlatform (keeps : Bool) : Platform Drive where
  capturer :=
    { displays := fun d => ([], d)
      start := fun d _ _ => (none, d)
      latest := fun d => (none, d)
      currentDisplay := fun _ => 0
      supportsHighResolution := fun _ => false
      highResolution := fun _ => false
      setHighResolution := fun d _ => d }
  input :=
    { pointer := fun d _ _ _ _ _ => d
      key := fun d _ _ => d
      releaseAll := fun d => d }
  clipboard :=
    { changeCount := fun d => (0, d)
      getText := fun d => (none, d)
      setText := fun d _ => d }
  files :=
    { fileExists := fun d p => (d.storage.disk p).isSome
      makeDirs := fun d _ => d
      readFile := fun d p => (d.storage.disk p).elim .absent .body
      fopen := Drive.fopen
      fwrite := Drive.fwrite
      fclose := Drive.fclose keeps
      remove := fun d p => { d with storage := d.storage.set p none } }
  osName := ascii "Linux"

theorem Drive.fopen_opened (d : Drive) (p : Bytes) (f : Nat) (h : (d.fopen p).1 = some f) :
    Opened d.storage f p (d.fopen p).2.storage := by
  unfold Drive.fopen at h ⊢
  cases hs : d.storage.stream d.next with
  | some s =>
      rw [hs] at h
      cases h
  | none =>
      rw [hs] at h
      obtain rfl := Option.some.inj h
      exact ⟨hs, rfl⟩

theorem Drive.fopen_failed (d : Drive) (p : Bytes) (h : (d.fopen p).1 = none) : (d.fopen p).2.storage =
    d.storage := by
  unfold Drive.fopen at h ⊢
  cases hs : d.storage.stream d.next with
  | some s => rfl
  | none =>
      rw [hs] at h
      cases h

theorem Drive.fwrite_wrote (d : Drive) (f : Nat) (data : Bytes) :
    Wrote d.storage f data (d.fwrite f data).1 (d.fwrite f data).2.storage := by
  intro s hs
  unfold Drive.fwrite
  rw [hs]
  exact ⟨_, _, rfl, fun h => h, fun _ => rfl⟩

theorem Drive.fclose_closed (keeps : Bool) (d : Drive) (f : Nat) :
    Closed d.storage f keeps (d.fclose keeps f).storage := by
  intro s hs
  unfold Drive.fclose
  rw [hs]
  refine ⟨_, rfl, fun h => ?_, fun hkeeps w hw => ?_⟩
  · cases keeps with
    | true =>
        cases hw : s.written with
        | none => exact h
        | some w => simp
    | false => exact h
  · rw [if_pos hkeeps, hw]
    rfl

def driveFiles (keeps : Bool) : HostFiles (drivePlatform keeps) where
  view := Drive.storage
  closes := fun _ _ => keeps
  fileExists := fun _ _ h => Option.isSome_iff_ne_none.mpr h
  makeDirs := fun _ _ => rfl
  fopen := Drive.fopen_opened
  fopen_none := Drive.fopen_failed
  fwrite := Drive.fwrite_wrote
  fclose := Drive.fclose_closed keeps
  remove := fun _ _ => ⟨none, rfl, .inl rfl, fun _ => rfl⟩
  displays := fun _ => rfl
  start := fun _ _ _ => rfl
  latest := fun _ => rfl
  setHighResolution := fun _ _ => rfl
  pointer := fun _ _ _ _ _ _ => rfl
  key := fun _ _ _ => rfl
  releaseAll := fun _ => rfl
  changeCount := fun _ => rfl
  getText := fun _ => rfl
  setText := fun _ _ => rfl

-- A host on such a drive, as long as the steps meet a guard.
def driveHost (keeps : Bool) (guard : Server Drive → ServerEvent Drive → Bool) (es : List (ServerEvent Drive)) :
    Option (Server Drive) :=
  (Server.started (drivePlatform keeps) (deskConfig false) 0 Drive.empty).bind fun s =>
    es.foldlM (fun s e => if guard s e then e.apply reference (drivePlatform keeps) s else none) s

theorem driveHost_run {keeps : Bool} {guard : Server Drive → ServerEvent Drive → Bool}
    {es : List (ServerEvent Drive)}
    {s : Server Drive} (h : driveHost keeps guard es = some s) :
    ∃ past, Run (serverRuns reference (drivePlatform keeps)) past s ∧ past.map Prod.snd = es ∧
      (∀ s₀, (statesOf past s)[0]? = some s₀ → s₀.os = Drive.empty) ∧ ∀ p ∈ past, guard p.1 p.2 = true := by
  obtain ⟨s₀, h₀, h⟩ := Option.bind_eq_some_iff.mp h
  have hrun : Run (serverRuns reference (drivePlatform keeps)) [] s₀ :=
    .start ⟨deskConfig false, 0, Drive.empty, h₀⟩
  have hstep : ∀ s e t, (if guard s e then e.apply reference (drivePlatform keeps) s else none) = some t →
      (serverRuns reference (drivePlatform keeps)).step s e t ∧ guard s e = true := by
    intro s e t ht
    by_cases hg : guard s e = true
    · rw [if_pos hg] at ht
      exact ⟨ht, hg⟩
    · rw [if_neg hg] at ht
      cases ht
  obtain ⟨past, hpast, hevents, hfirst, hguard⟩ := run_foldlM _ (fun s e => guard s e = true) hstep es hrun h
  refine ⟨past, hpast, hevents, fun s hs => ?_, hguard⟩
  rw [hfirst, Option.some.injEq] at hs
  rw [← hs, ← Option.some.inj h₀]

theorem worldless_of_events {past : List (Server Drive × ServerEvent Drive)} {es : List (ServerEvent Drive)}
    (hevents : past.map Prod.snd = es) (hworld : ∀ os, ServerEvent.world os ∉ es) :
    ∀ p ∈ past, ∀ os, p.2 ≠ .world os := by
  intro p hp os hos
  have hmem : p.2 ∈ past.map Prod.snd := List.mem_map_of_mem hp
  rw [hevents, hos] at hmem
  exact hworld os hmem

-- A viewer sends the five bytes of a file, up to the message that ends the transfer.
def uploadEvents : List (ServerEvent Drive) :=
  loginEvents 0 "Ann" ++
    sealedEvents 0 1 (putU8 RD_C_FILE_BEGIN ++ putU32 1 ++ putU64 5 ++ putStr (ascii "a.txt")) ++
    sealedEvents 0 2 (putU8 RD_C_FILE_CHUNK ++ putU32 1 ++ ascii "hel") ++
    sealedEvents 0 3 (putU8 RD_C_FILE_CHUNK ++ putU32 1 ++ ascii "lo") ++
    [.received 0 (clientFrame RD_WS_BINARY (rdAeadSeal reference (putU8 RD_C_FILE_END ++ putU32 1) [] deskKey
      (ctrNonce 4))) 0]

theorem uploadEvents_guard {keeps : Bool} {past : List (Server Drive × ServerEvent Drive)}
    (hevents : past.map Prod.snd = uploadEvents)
    (hsafe : ∀ p ∈ past, TransferSafe (driveFiles keeps) reference p.1 p.2 = true) :
    ∀ p ∈ past, TransferSafe (driveFiles keeps) reference p.1 p.2 = true ∧
        FilesLeftAlone (driveFiles keeps) p.1 p.2 := by
  have hworld : ∀ p ∈ past, ∀ os, p.2 ≠ .world os := worldless_of_events hevents fun os => by
    simp [uploadEvents, loginEvents, helloEvents, sealedEvents]
  exact fun p hp => ⟨hsafe p hp, fun os hos => absurd hos (hworld p hp os)⟩

-- What a host on a drive has before and after the end of that transfer: the open
-- transfers, the numbers of reports of success, and the file.
structure UploadFacts where
  uploads : List (Nat × List (Nat × Upload))
  before : List (Nat × Nat)
  safe : Bool
  after : List (Nat × Nat)
  file : Option Bytes
  deriving DecidableEq

def reports {σ : Type} (s : Server σ) : List (Nat × Nat) :=
    s.conns.map fun c => (c.uid, (c.sent.filter fileSaved).length)

def uploadFacts (keeps : Bool) : Option UploadFacts :=
  (driveHost keeps (TransferSafe (driveFiles keeps) reference) uploadEvents).bind fun s =>
    ((ServerEvent.message 0 deskIo).apply reference (drivePlatform keeps) s).map fun t =>
      { uploads := s.conns.map fun c => (c.uid, c.uploads)
        before := reports s
        safe := TransferSafe (driveFiles keeps) reference s (.message 0 deskIo)
        after := reports t
        file := t.os.storage.disk (ascii "down/a.txt") }

theorem uploadEvents_facts :
    uploadFacts true = some ⟨[(0, [(1, ⟨0, 5, 5, ascii "down/a.txt"⟩)])], [(0, 0)], true, [(0, 1)],
      some (ascii "hello")⟩ ∧
      uploadFacts false = some ⟨[(0, [(1, ⟨0, 5, 5, ascii "down/a.txt"⟩)])], [(0, 0)], false, [(0, 1)],
        some []⟩ := by
  unfold uploadFacts driveHost uploadEvents loginEvents sealedEvents
  rw [← rehearsed_eq]
  decide +kernel

-- The run up to that message, and the step.
theorem uploadFacts_run {keeps : Bool} {facts : UploadFacts} (h : uploadFacts keeps = some facts) :
    ∃ past s t, Run (serverRuns reference (drivePlatform keeps)) past s ∧
      (ServerEvent.message 0 deskIo).apply reference (drivePlatform keeps) s = some t ∧
      (∀ p ∈ past, TransferSafe (driveFiles keeps) reference p.1 p.2 = true ∧
        FilesLeftAlone (driveFiles keeps) p.1 p.2) ∧
      facts = { uploads := s.conns.map fun c => (c.uid, c.uploads)
                before := reports s
                safe := TransferSafe (driveFiles keeps) reference s (.message 0 deskIo)
                after := reports t
                file := t.os.storage.disk (ascii "down/a.txt") } := by
  obtain ⟨s, hs, h⟩ := Option.bind_eq_some_iff.mp h
  obtain ⟨t, ht, rfl⟩ := Option.map_eq_some_iff.mp h
  obtain ⟨past, hrun, hevents, -, hsafe⟩ := driveHost_run hs
  exact ⟨past, s, t, hrun, ht, uploadEvents_guard hevents hsafe, rfl⟩

-- The viewer's row before and after, which the report of success tells apart.
theorem reports_rows {s t : Server Drive} (hbefore : reports s = [(0, 0)]) (hafter : reports t = [(0, 1)]) :
    ∃ c c', s.conns = [c] ∧ t.conns = [c'] ∧ c.uid = 0 ∧ c'.uid = c.uid ∧
      c'.sent.filter fileSaved ≠ c.sent.filter fileSaved := by
  obtain ⟨c, hc, hzero⟩ := List.map_eq_singleton_iff.mp hbefore
  obtain ⟨c', hc', hone⟩ := List.map_eq_singleton_iff.mp hafter
  rw [Prod.mk.injEq] at hzero hone
  refine ⟨c, c', hc, hc', hzero.1, hone.1.trans hzero.1.symm, fun heq => ?_⟩
  rw [heq, hzero.2] at hone
  cases hone.2

theorem uploads_saved_whole_hello :
    ∃ (past : List (Server Drive × ServerEvent Drive)) (s t : Server Drive) (c : Conn) (id : Nat) (u : Upload),
      Run (serverRuns reference (drivePlatform true)) past s ∧
      SavedWhole reference (driveFiles true) past s (.message 0 deskIo) t c id u := by
  obtain ⟨past, s, t, hrun, ht, hguard, hfacts⟩ := uploadFacts_run uploadEvents_facts.1
  rw [UploadFacts.mk.injEq] at hfacts
  obtain ⟨-, hbefore, hsafe, hafter, -⟩ := hfacts
  obtain ⟨c, c', hc, hc', -, huid, hreport⟩ := reports_rows hbefore.symm hafter.symm
  obtain ⟨-, hstep⟩ := uploads_saved_whole reference (driveFiles true) hrun
  obtain ⟨-, hsaved⟩ := hstep (.message 0 deskIo) t ht
  have hall : ∀ p ∈ past ++ [(s, .message 0 deskIo)], TransferSafe (driveFiles true) reference p.1 p.2 = true ∧
      FilesLeftAlone (driveFiles true) p.1 p.2 := by
    intro p hp
    rcases List.mem_append.mp hp with hp | hp
    · exact hguard p hp
    · obtain rfl := List.mem_singleton.mp hp
      exact ⟨hsafe.symm, fun os hos => by cases hos⟩
  rcases hsaved hall c (by simp [hc]) c' (by simp [hc']) huid with hsame | ⟨id, u, hwhole, -⟩
  · exact absurd hsame hreport
  · exact ⟨past, s, t, c, id, u, hrun, hwhole⟩

-- On a disk that takes nothing when the stream is flushed, the report comes and the
-- file is empty.
theorem unflushed_upload_reported :
    ¬ ∀ (past : List (Server Drive × ServerEvent Drive)) (s t : Server Drive) (e : ServerEvent Drive),
      Run (serverRuns reference (drivePlatform false)) past s → e.apply reference (drivePlatform false) s = some t →
      ∀ c ∈ s.conns, ∀ c' ∈ t.conns, c'.uid = c.uid → c'.sent.filter fileSaved = c.sent.filter fileSaved ∨
        ∃ id u, SavedWhole reference (driveFiles false) past s e t c id u := by
  intro halways
  obtain ⟨past, s, t, hrun, ht, hguard, hfacts⟩ := uploadFacts_run uploadEvents_facts.2
  rw [UploadFacts.mk.injEq] at hfacts
  obtain ⟨huploads, hbefore, -, hafter, hfile⟩ := hfacts
  obtain ⟨c, c', hc, hc', -, huid, hreport⟩ := reports_rows hbefore.symm hafter.symm
  rw [hc, List.map_singleton, List.cons.injEq, Prod.mk.injEq] at huploads
  rcases halways past s t (.message 0 deskIo) hrun ht c (by simp [hc]) c' (by simp [hc']) huid with hsame |
    ⟨id, u, hwhole⟩
  · exact hreport hsame
  · have hopened := hwhole.opened
    rw [← huploads.1.2, List.mem_singleton, Prod.mk.injEq] at hopened
    obtain ⟨rfl, rfl⟩ := hopened
    have htold := (intact_run reference (driveFiles false) hrun hguard).told c.uid 1 _
      ⟨c.holding, List.mem_map_of_mem (by simp [hc]), rfl, hwhole.opened⟩
    have hdisk : some [] = some (ledger reference past (c.uid, 1)).2 := hfile.trans hwhole.onDisk
    rw [← Option.some.inj hdisk] at htold
    cases htold.2

end TetherDesk.Host
