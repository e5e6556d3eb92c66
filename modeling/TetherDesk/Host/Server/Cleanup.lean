import TetherDesk.Host.Server.Leftovers

namespace TetherDesk.Host

open TetherDesk.Net TetherDesk.Secure TetherDesk.Lib.Stdio TetherDesk.Lib.Table TetherDesk.Lib.Transition

-- The destructor of the server and those of its connections: sockets are closed and
-- buffers freed, and nothing is done about files.
def Server.destroyed {σ : Type} (s : Server σ) : Server σ := { s with conns := [] }

section Ends

variable {σ : Type} (cr : Crypto) {plat : Platform σ} (fs : HostFiles plat) (s t : Server σ)

-- Every open stream belongs to a transfer.
def Owned (v : Storage Bytes UInt8) (held : Nat → Nat → Upload → Prop) : Prop :=
  ∀ g x, v.stream g = some x → ∃ uid id u, held uid id u ∧ u.file = g ∧ u.path = x.path

-- The world outside opens no stream of the host.
def StreamsLeftAlone (e : ServerEvent σ) : Prop :=
  ∀ os, e = .world os → ∀ g x, (fs.view os).stream g = some x → ∃ y, (fs.view s.os).stream g = some y ∧
      y.path = x.path

-- A file that is there and that no open transfer writes.
structure Settled (q : Bytes) : Prop where
  disk : (fs.view s.os).disk q ≠ none
  idle : ∀ uid id u, s.Held uid id u → u.path ≠ q

-- A step from s to t has reported success for a transfer.
def Reported (uid id : Nat) (u : Upload) : Prop :=
  ∃ h ∈ s.holdings, ∃ h' ∈ t.holdings, h.uid = uid ∧ h'.uid = uid ∧
    h'.saved = h.saved ++ [fileResultMsg id true (ascii "Saved to " ++ u.path)]

-- A step ends a transfer: its stream is closed, and its file is gone unless success
-- was reported.
structure CleanEnd (uid id : Nat) (u : Upload) : Prop where
  closed : (fs.view t.os).stream u.file = none
  file : (fs.view t.os).disk u.path = none ∨ Reported s t uid id u ∧ Settled fs t u.path

variable {cr fs s t} {c : Conn} {e : ServerEvent σ} {m : FileMessage} {uid id : Nat} {u : Upload}

theorem held_unique (htidy : s.Tidy) (hbounded : ∀ h ∈ s.holdings, h.Bounded) {u' : Upload} (h : s.Held uid id u)
    (h' : s.Held uid id u') : u = u' := by
  obtain ⟨h₀, hh, rfl, hmem⟩ := h
  obtain ⟨c, hc, rfl⟩ := List.mem_map.mp hh
  have hu : c.upload id = some u := (held_ids htidy hbounded hc).mpr ⟨c.holding, hh, rfl, hmem⟩
  have hu' : c.upload id = some u' := (held_ids htidy hbounded hc).mpr h'
  exact Option.some.inj (hu.symm.trans hu')

theorem Owned.sole (h : Owned (fs.view s.os) s.Held) (htidy : s.Tidy) (hbounded : ∀ h ∈ s.holdings, h.Bounded)
    (hold : Apart (fs.view s.os) s.Held) (hheld : s.Held uid id u) : Sole (fs.view s.os) u.file u.path := by
  intro g x hx hpath
  obtain ⟨uid', id', u', hheld', rfl, hpath'⟩ := h g x hx
  obtain ⟨rfl, rfl⟩ := hold.alone _ _ _ _ _ _ hheld' hheld (hpath'.trans hpath)
  rw [held_unique htidy hbounded hheld' hheld]

-- The row of the sender gets the report.
theorem Rows.reported {uploads : List (Nat × Upload)}
    (rows : Rows s t c.uid uploads [fileResultMsg id true (ascii "Saved to " ++ u.path)])
    (hc : c ∈ s.conns) : Reported s t c.uid id u := by
  let h' : Holding := { c.holding with
    uploads := uploads, saved := c.holding.saved ++ [fileResultMsg id true (ascii "Saved to " ++ u.path)] }
  refine ⟨c.holding, List.mem_map_of_mem hc, h', ?_, rfl, rfl, rfl⟩
  rw [show t.holdings = _ from rows]
  exact List.mem_map.mpr ⟨c.holding, List.mem_map_of_mem hc, if_pos rfl⟩

theorem Filed.ends (h : Filed fs s c m t) (htidy : s.Tidy) (hbounded : ∀ h ∈ s.holdings, h.Bounded)
    (hc : c ∈ s.conns)
    (hold : OnDisk (fs.view s.os) s.Held) (hsole : Sole (fs.view s.os) u.file u.path) (hheld : s.Held uid id u) :
    (∃ u', t.Held uid id u' ∧ u'.file = u.file ∧ u'.path = u.path) ∨ CleanEnd fs s t uid id u := by
  have hlookup : ∀ {id u}, c.upload id = some u ↔ s.Held c.uid id u := held_ids htidy hbounded hc
  -- the transfers that are not the one of the message stay
  have hstays : ∀ {uploads saved}, Rows s t c.uid uploads saved → (uid = c.uid → (id, u) ∈ uploads) →
      ∃ u', t.Held uid id u' ∧ u'.file = u.file ∧ u'.path = u.path := by
    intro uploads saved rows hin
    refine ⟨u, (rows.held hc).mpr ?_, rfl, rfl⟩
    by_cases huid : uid = c.uid
    · rw [if_pos huid]
      exact hin huid
    · rw [if_neg huid]
      exact hheld
  have hmem : uid = c.uid → (id, u) ∈ c.uploads := fun huid => (held_conn htidy hc).mp (huid ▸ hheld)
  obtain ⟨w, hstream⟩ := hold.stream uid id u hheld
  cases h with
  | rejected refused kept => exact .inl ⟨u, (held_rows kept.rows).mpr hheld, rfl, rfl⟩
  | unknown names free kept => exact .inl ⟨u, (held_rows kept.rows).mpr hheld, rfl, rfl⟩
  | began path f opens free few small rows opened =>
      exact .inl (hstays rows fun huid => (mem_insertUpload _ _).mpr (.inr (hmem huid)))
  | @wrote id' data _ u₀ held fits rows stored =>
      refine .inl ?_
      by_cases hmine : uid = c.uid
      · have hin : (id, _) ∈ (c.received id' (u₀.received + data.length)).uploads :=
          mem_received.mpr ⟨u, hmem hmine, rfl⟩
        refine ⟨_, (rows.held hc).mpr (by rw [if_pos hmine]; exact hin), ?_, ?_⟩
        · split <;> rfl
        · split <;> rfl
      · exact hstays rows fun huid => absurd huid hmine
  | @failed _ _ id' u₀ v v' ok names held before rows closed removed =>
      by_cases hmine : uid = c.uid ∧ id = id'
      · obtain ⟨rfl, rfl⟩ := hmine
        obtain rfl := held_unique htidy hbounded hheld (hlookup.mp held)
        obtain ⟨w', hw', hsole'⟩ : ∃ w', v.stream u.file = some ⟨u.path, w'⟩ ∧ Sole v u.file u.path := by
          rcases before with rfl | ⟨data, n, hwrote⟩
          · exact ⟨w, hstream, hsole⟩
          · obtain ⟨w', hw'⟩ := hwrote.path hstream
            exact ⟨w', hw', hwrote.sole hstream hsole⟩
        refine .inr ⟨?_, .inl (removed.gone (closed.nobody hw' hsole'))⟩
        by_contra hopen
        obtain ⟨x, hx⟩ := Option.ne_none_iff_exists'.mp hopen
        obtain ⟨y, hy, -⟩ := removed.stream_some hx
        rw [closed.stream hw'] at hy
        cases hy
      · refine .inl (hstays rows fun huid => mem_eraseUpload.mpr ⟨hmem huid, fun hid => hmine ⟨huid, hid⟩⟩)
  | @saved id' _ u₀ held complete rows closed =>
      by_cases hmine : uid = c.uid ∧ id = id'
      · obtain ⟨rfl, rfl⟩ := hmine
        obtain rfl := held_unique htidy hbounded hheld (hlookup.mp held)
        refine .inr ⟨closed.stream hstream,
          .inr ⟨rows.reported hc, closed.disk hstream (hold.disk _ _ _ hheld), ?_⟩⟩
        intro uid' id' u' ht hpath
        have hs : s.Held uid' id' u' ∧ (uid' ≠ c.uid ∨ id' ≠ id) := by
          rw [rows.held hc] at ht
          by_cases huid : uid' = c.uid
          · rw [if_pos huid, mem_eraseUpload] at ht
            rw [huid, held_conn htidy hc]
            exact ⟨ht.1, .inr ht.2⟩
          · rw [if_neg huid] at ht
            exact ⟨ht, .inl huid⟩
        obtain ⟨rfl, rfl⟩ := hold.alone _ _ _ _ _ _ hs.1 hheld hpath
        exact hs.2.elim (fun h => h rfl) fun h => h rfl
      · refine .inl (hstays rows fun huid => mem_eraseUpload.mpr ⟨hmem huid, fun hid => hmine ⟨huid, hid⟩⟩)

-- A transfer stays open or ends cleanly.
theorem Outcome.ends (h : Outcome fs cr s e t) (htidy : s.Tidy) (hbounded : ∀ h ∈ s.holdings, h.Bounded)
    (hold : OnDisk (fs.view s.os) s.Held) (howned : Owned (fs.view s.os) s.Held) (hheld : s.Held uid id u) :
    (∃ u', t.Held uid id u' ∧ u'.file = u.file ∧ u'.path = u.path) ∨ CleanEnd fs s t uid id u := by
  have hsole := howned.sole htidy hbounded hold.toApart hheld
  cases h with
  | kept quiet kept => exact .inl ⟨u, (held_rows kept.rows).mpr hheld, rfl, rfl⟩
  | moved os event rows view => exact .inl ⟨u, (held_rows rows).mpr hheld, rfl, rfl⟩
  | limited mine quiet rows view =>
      obtain ⟨h, hh, huid, hmem⟩ := hheld
      refine .inl ⟨u, ⟨_, rows ▸ List.mem_map_of_mem hh, ?_, ?_⟩, rfl, rfl⟩
      · split <;> exact huid
      · split <;> exact hmem
  | joined limit quiet small rows view =>
      obtain ⟨h, hh, huid, hmem⟩ := hheld
      exact .inl ⟨u, ⟨h, rows ▸ List.mem_append_left _ hh, huid, hmem⟩, rfl, rfl⟩
  | reaped io event rows dropped =>
      obtain ⟨h, hh, huid, hmem⟩ := hheld
      obtain ⟨c, hc, rfl⟩ := List.mem_map.mp hh
      by_cases hdead : c.dead = true
      · obtain ⟨-, -, hdropped⟩ :=
          dropped.spec (transfers_streams htidy hold.stream _) (transfersOf_nodup htidy hbounded hold.alone _)
        obtain ⟨hclosed, hgone⟩ := hdropped (u.file, u.path)
          (mem_transfersOf.mpr ⟨c, List.mem_filter.mpr ⟨hc, hdead⟩, (id, u), hmem, rfl, rfl⟩)
        exact .inr ⟨hclosed, .inl (hgone hsole)⟩
      · refine .inl ⟨u, ⟨c.holding, ?_, huid, hmem⟩, rfl, rfl⟩
        rw [rows]
        exact List.mem_map_of_mem (List.mem_filter.mpr ⟨hc, by simpa using hdead⟩)
  | filed io c m event mem live message filed => exact filed.ends htidy hbounded mem hold hsole hheld

-- The streams of a state come from the state before it or from a FILE_BEGIN.
theorem Outcome.streams (h : Outcome fs cr s e t) (htidy : s.Tidy) (hbounded : ∀ h ∈ s.holdings, h.Bounded)
    (hworld : StreamsLeftAlone fs s e) (hold : OnDisk (fs.view s.os) s.Held) {g : Nat}
    {x : Lib.Stdio.Stream Bytes UInt8}
    (hx : (fs.view t.os).stream g = some x) : (∃ y, (fs.view s.os).stream g = some y ∧ y.path = x.path) ∨
      ∃ uid id u, t.Held uid id u ∧ u.file = g ∧ u.path = x.path := by
  cases h with
  | kept quiet kept => exact .inl ⟨x, kept.view ▸ hx, rfl⟩
  | moved os event rows view => exact .inl (hworld os event g x (view ▸ hx))
  | limited mine quiet rows view => exact .inl ⟨x, view ▸ hx, rfl⟩
  | joined limit quiet small rows view => exact .inl ⟨x, view ▸ hx, rfl⟩
  | reaped io event rows dropped =>
      obtain ⟨-, hsome, -⟩ :=
        dropped.spec (transfers_streams htidy hold.stream _) (transfersOf_nodup htidy hbounded hold.alone _)
      exact .inl (hsome g x hx)
  | filed io c m event mem live message filed =>
      have hstream : ∀ {id u}, c.upload id = some u → ∃ w, (fs.view s.os).stream u.file = some ⟨u.path, w⟩ :=
        fun held =>
        hold.stream _ _ _ ((held_ids htidy hbounded mem).mp held)
      cases filed with
      | rejected refused kept => exact .inl ⟨x, kept.view ▸ hx, rfl⟩
      | unknown names free kept => exact .inl ⟨x, kept.view ▸ hx, rfl⟩
      | @began id size name _ path f opens free few small rows opened =>
          rcases opened.stream_some hx with ⟨rfl, rfl⟩ | hbefore
          · refine .inr ⟨c.uid, id, ⟨g, size, 0, x.path⟩, (rows.held mem).mpr ?_, rfl, rfl⟩
            rw [if_pos rfl]
            exact (mem_insertUpload _ _).mpr (.inl rfl)
          · exact .inl hbefore
      | wrote u held fits rows stored =>
          obtain ⟨w, hw⟩ := hstream held
          rcases stored with ⟨-, hview⟩ | hwrote
          · exact .inl ⟨x, hview ▸ hx, rfl⟩
          · exact .inl (hwrote.stream_some hw hx)
      | failed u v v' ok names held before rows closed removed =>
          obtain ⟨w, hw⟩ := hstream held
          obtain ⟨x₁, hx₁, hpath₁⟩ := removed.stream_some hx
          rcases before with rfl | ⟨data, n, hwrote⟩
          · obtain ⟨-, y, hy, hpath⟩ := closed.stream_some hw hx₁
            exact .inl ⟨y, hy, hpath.trans hpath₁⟩
          · obtain ⟨w', hw'⟩ := hwrote.path hw
            obtain ⟨-, x₂, hx₂, hpath₂⟩ := closed.stream_some hw' hx₁
            obtain ⟨y, hy, hpath⟩ := hwrote.stream_some hw hx₂
            exact .inl ⟨y, hy, hpath.trans (hpath₂.trans hpath₁)⟩
      | saved u held complete rows closed =>
          obtain ⟨w, hw⟩ := hstream held
          exact .inl (closed.stream_some hw hx).2

theorem Owned.next (h : Owned (fs.view s.os) s.Held) (houtcome : Outcome fs cr s e t) (htidy : s.Tidy)
    (hbounded : ∀ h ∈ s.holdings, h.Bounded) (hworld : StreamsLeftAlone fs s e)
    (hold : OnDisk (fs.view s.os) s.Held) :
    Owned (fs.view t.os) t.Held := by
  intro g x hx
  rcases houtcome.streams htidy hbounded hworld hold hx with ⟨y, hy, hpath⟩ | hnew
  · obtain ⟨uid, id, u, hheld, rfl, hpath'⟩ := h g y hy
    rcases houtcome.ends htidy hbounded hold h hheld with ⟨u', ht, hfile, hpath''⟩ | hended
    · exact ⟨uid, id, u', ht, hfile, hpath''.trans (hpath'.trans hpath)⟩
    · rw [hended.closed] at hx
      cases hx
  · exact hnew

-- A file that is there and that no open transfer writes stays as it is.
theorem Settled.next {q : Bytes} (h : Settled fs s q) (houtcome : Outcome fs cr s e t) (htidy : s.Tidy)
    (hbounded : ∀ h ∈ s.holdings, h.Bounded) (hfresh : FreshName cr plat s e = true) (hworld : ∀ os, e ≠ .world os)
    (hold : OnDisk (fs.view s.os) s.Held) : Settled fs t q ∧ (fs.view t.os).disk q = (fs.view s.os).disk q := by
  have hsame : (fs.view t.os).disk q = (fs.view s.os).disk q := by
    rcases houtcome.spares htidy hbounded hfresh hworld hold h.disk with hsame | htouches
    · exact hsame
    · cases htouches with
      | message c m u message held path => exact absurd path (h.idle _ _ _ held)
      | reap io c id u event mem dead held path => exact absurd path (h.idle _ _ _ held)
  refine ⟨⟨hsame ▸ h.disk, fun uid id u ht hpath => ?_⟩, hsame⟩
  have hsince := houtcome.since htidy hbounded (fun os hos => absurd hos (hworld os)) (hold.opens hfresh)
      hold.toApart ht
  rcases hsince.origin with ⟨u₀, hs, hpath₀, -⟩ | ⟨c, size, name, hmessage, -, hopens⟩
  · exact h.idle uid id u₀ hs (hpath₀.trans hpath)
  · exact h.disk (hpath ▸ fresh_disk hfresh hmessage hopens)

end Ends

section Runs

variable {σ : Type} (cr : Crypto) {plat : Platform σ} (fs : HostFiles plat) {past : List (Server σ × ServerEvent σ)}
  {s t fin : Server σ} {e : ServerEvent σ}

-- After the k-th state a step has ended the transfer cleanly.
def EndedSince (past : List (Server σ × ServerEvent σ)) (s : Server σ) (k uid id : Nat) (u : Upload) : Prop :=
  ∃ j s₁ t₁, k ≤ j ∧ (statesOf past s)[j]? = some s₁ ∧ (statesOf past s)[j + 1]? = some t₁ ∧
      CleanEnd fs s₁ t₁ uid id u

-- Every transfer that was ever open has ended cleanly if its connection is gone.
def LeavesNothing (past : List (Server σ × ServerEvent σ)) (s fin : Server σ) : Prop :=
  ∀ (k : Nat) (s₀ : Server σ) (uid id : Nat) (u : Upload), (statesOf past s)[k]? = some s₀ → s₀.Held uid id u →
    (∀ c ∈ fin.conns, c.uid ≠ uid) → EndedSince fs past s k uid id u

theorem EndedSince.next {k uid id : Nat} {u : Upload} (h : EndedSince fs past s k uid id u) :
    EndedSince fs (past ++ [(s, e)]) t k uid id u := by
  obtain ⟨j, s₁, t₁, hk, hs₁, ht₁, hended⟩ := h
  exact ⟨j, s₁, t₁, hk, statesOf_some hs₁, statesOf_some ht₁, hended⟩

-- The host starts with no stream open, its FILE_BEGINs find a free name, and nothing
-- outside touches the files of open transfers or the host's streams.
structure Careful (past : List (Server σ × ServerEvent σ)) (s : Server σ) : Prop where
  start : ∀ s₀, (statesOf past s)[0]? = some s₀ → ∀ g, (fs.view s₀.os).stream g = none
  steps : ∀ p ∈ past, FreshName cr plat p.1 p.2 = true ∧ FilesLeftAlone fs p.1 p.2 ∧ StreamsLeftAlone fs p.1 p.2

theorem cleanup_run (run : Run (serverRuns cr plat) past s) (hcareful : Careful cr fs past s) :
    Owned (fs.view s.os) s.Held ∧ ∀ k s₀ uid id u, (statesOf past s)[k]? = some s₀ → s₀.Held uid id u →
      (∃ u', s.Held uid id u' ∧ u'.file = u.file ∧ u'.path = u.path) ∨ EndedSince fs past s k uid id u := by
  induction run with
  | @start s hinit =>
      refine ⟨fun g x hx => ?_, fun k s₀ uid id u hk hheld => ?_⟩
      · rw [hcareful.start s rfl g] at hx
        cases hx
      · obtain ⟨h, hh, -⟩ := hheld
        have hs₀ : s₀ = s := by
          cases k with
          | zero => exact (Option.some.inj hk).symm
          | succ k => simp [statesOf] at hk
        unfold Server.holdings at hh
        rw [hs₀, started_conns plat hinit] at hh
        cases hh
  | @next past s t e run hstep ih =>
      have hbefore : Careful cr fs past s := by
        exact ⟨fun s₀ hs₀ => hcareful.start s₀ (statesOf_some hs₀),
          fun p hp => hcareful.steps p (List.mem_append_left _ hp)⟩
      obtain ⟨howned, hkept⟩ := ih hbefore
      obtain ⟨-, -, hworld⟩ := hcareful.steps (s, e) (by simp)
      have htidy := tidy_run cr plat run
      have hbounded := bounded_run fs run
      have hold := (onDisk_run cr fs run fun p hp => ⟨(hbefore.steps p hp).1, (hbefore.steps p hp).2.1⟩).1
      have houtcome := apply_outcome fs htidy hbounded hstep
      refine ⟨howned.next houtcome htidy hbounded hworld hold, fun k s₀ uid id u hk hheld => ?_⟩
      rw [statesOf_next, List.getElem?_append] at hk
      split at hk
      · next hlt =>
          rcases hkept k s₀ uid id u hk hheld with ⟨u₁, hs, hfile, hpath⟩ | hended
          · rcases houtcome.ends htidy hbounded hold howned hs with ⟨u₂, ht, hfile', hpath'⟩ | hended
            · exact .inl ⟨u₂, ht, hfile'.trans hfile, hpath'.trans hpath⟩
            · refine .inr ⟨past.length, s, t, ?_, statesOf_some statesOf_last, ?_, ?_⟩
              · rw [statesOf_length] at hlt
                omega
              · rw [statesOf_next, ← statesOf_length, List.getElem?_append_right (Nat.le_refl _)]
                simp
              · constructor
                · rw [← hfile]
                  exact hended.closed
                · have hfile := hended.file
                  unfold Reported at hfile ⊢
                  rw [hpath] at hfile
                  exact hfile
          · exact .inr hended.next
      · next hge =>
          obtain rfl : s₀ = t := by
            rw [List.getElem?_singleton] at hk
            split at hk
            · exact (Option.some.inj hk).symm
            · cases hk
          exact .inl ⟨u, hheld, rfl, rfl⟩

-- In careful runs that end with no transfer open, every file of an upload that was not
-- completed is gone once its connection is, and completed files stay.
theorem incomplete_uploads_removed (run : Run (serverRuns cr plat) past s) (hcareful : Careful cr fs past s)
    (hfin : fin = s ∨ fin = s.destroyed ∧ ∀ uid id u, ¬ s.Held uid id u) :
    LeavesNothing fs past s fin ∧ (∀ q, Settled fs s q → Settled fs s.destroyed q) ∧
      ∀ e t, e.apply cr plat s = some t → FreshName cr plat s e = true → (∀ os, e ≠ .world os) →
        ∀ q, Settled fs s q → Settled fs t q ∧ (fs.view t.os).disk q = (fs.view s.os).disk q := by
  have htidy := tidy_run cr plat run
  have hbounded := bounded_run fs run
  have hold := (onDisk_run cr fs run fun p hp => ⟨(hcareful.steps p hp).1, (hcareful.steps p hp).2.1⟩).1
  refine ⟨fun k s₀ uid id u hk hheld hgone => ?_, fun q hq => ⟨hq.disk, fun uid id u hheld => ?_⟩,
    fun e t happly hfresh hworld q hq =>
      hq.next (apply_outcome fs htidy hbounded happly) htidy hbounded hfresh hworld hold⟩
  · rcases (cleanup_run cr fs run hcareful).2 k s₀ uid id u hk hheld with ⟨u', hs, -⟩ | hended
    · rcases hfin with rfl | ⟨-, hnone⟩
      · obtain ⟨h, hh, huid, -⟩ := hs
        obtain ⟨c, hc, rfl⟩ := List.mem_map.mp hh
        exact absurd huid (hgone c hc)
      · exact absurd hs (hnone uid id u')
    · exact hended
  · obtain ⟨h, hh, -⟩ := hheld
    cases hh

end Runs

section Drives

variable {past : List (Server Drive × ServerEvent Drive)} {s t u v : Server Drive}
  {e : ServerEvent Drive} {c : Conn}

theorem Careful.next (h : Careful reference (driveFiles true) past s)
    (hfresh : FreshName reference (drivePlatform true) s e = true)
    (hworld : ∀ os, e ≠ .world os) : Careful reference (driveFiles true) (past ++ [(s, e)]) t := by
  refine ⟨fun s₀ hs₀ => h.start s₀ ?_, fun p hp => ?_⟩
  · have hpos : 0 < (statesOf past s).length := by simp [statesOf]
    rw [statesOf_next, List.getElem?_append_left hpos] at hs₀
    exact hs₀
  · rcases List.mem_append.mp hp with hp | hp
    · exact h.steps p hp
    · obtain rfl := List.mem_singleton.mp hp
      exact ⟨hfresh, fun os hos => absurd hos (hworld os), fun os hos => absurd hos (hworld os)⟩

theorem Begins.careful (h : Begins past s t u v c) : Careful reference (driveFiles true) past s := by
  refine ⟨fun s₀ hs₀ g => ?_, fun p hp => ⟨(h.guard p hp).1, (h.guard p hp).2,
    fun os hos => absurd hos (h.worldless p hp os)⟩⟩
  rw [h.start s₀ hs₀]
  rfl

-- The link fails before the file has been sent, and the connection is reaped.
theorem incomplete_uploads_removed_link_lost :
    ∃ (past : List (Server Drive × ServerEvent Drive)) (v t : Server Drive) (k : Nat) (x : Upload),
      Run (serverRuns reference (drivePlatform true)) past v ∧ (statesOf past v)[k]? = some t ∧ t.Held 0 1 x ∧
        v.conns = [] ∧
      EndedSince (driveFiles true) past v k 0 1 x := by
  obtain ⟨past, s, t, u, v, c, h⟩ := announceEvents_run
  have hrun : Run (serverRuns reference (drivePlatform true))
      (((past ++ [(s, .message 0 deskIo)]) ++ [(t, .recvFailed 0 [])]) ++ [(u, .reap deskIo)]) v :=
    .next (.next (.next h.run h.served) h.failed) h.reaped
  have hcareful : Careful reference (driveFiles true)
      (((past ++ [(s, .message 0 deskIo)]) ++ [(t, .recvFailed 0 [])]) ++ [(u, .reap deskIo)]) v := by
    refine Careful.next (Careful.next (Careful.next h.careful h.fresh fun os hos => ?_) rfl fun os hos => ?_)
      rfl fun os hos => ?_
    all_goals cases hos
  have hstate : (statesOf (((past ++ [(s, .message 0 deskIo)]) ++ [(t, .recvFailed 0 [])]) ++
      [(u, .reap deskIo)]) v)[
      (past ++ [(s, ServerEvent.message 0 deskIo)]).length]? = some t := statesOf_some (statesOf_some statesOf_last)
  obtain ⟨hleft, -⟩ := incomplete_uploads_removed reference (driveFiles true) hrun hcareful (.inl rfl)
  exact ⟨_, v, t, _, _, hrun, hstate, h.held, h.left, hleft _ t 0 1 _ hstate h.held (by simp [h.left])⟩

-- The host stops while the transfer is open.
theorem stop_leaves_partial_file :
    ¬ ∀ (past : List (Server Drive × ServerEvent Drive)) (s : Server Drive),
      Run (serverRuns reference (drivePlatform true)) past s →
        LeavesNothing (driveFiles true) past s s.destroyed := by
  intro halways
  obtain ⟨past, s, t, u, v, c, h⟩ := announceEvents_run
  have hrun : Run (serverRuns reference (drivePlatform true)) (past ++ [(s, .message 0 deskIo)]) t :=
    .next h.run h.served
  obtain ⟨j, s₁, t₁, hj, -, ht₁, -⟩ := halways _ t hrun _ t 0 1 _ statesOf_last h.held fun c hc => by cases hc
  obtain ⟨hlt, -⟩ := List.getElem?_eq_some_iff.mp ht₁
  rw [statesOf_length] at hlt
  omega

end Drives

end TetherDesk.Host
