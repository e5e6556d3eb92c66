import TetherDesk.Host.Server.Outcomes

namespace TetherDesk.Host

open TetherDesk.Net TetherDesk.Secure TetherDesk.Lib.Stdio TetherDesk.Lib.Table TetherDesk.Lib.Transition

section Held

variable {σ : Type} {cr : Crypto} {plat : Platform σ} {fs : HostFiles plat} {s t : Server σ} {c : Conn}
  {e : ServerEvent σ}
  {uid id n : Nat} {u : Upload}

theorem held_conn (htidy : s.Tidy) (hc : c ∈ s.conns) : s.Held c.uid id u ↔ (id, u) ∈ c.uploads := by
  constructor
  · rintro ⟨h, hh, huid, hmem⟩
    obtain ⟨d, hd, rfl⟩ := List.mem_map.mp hh
    rw [← htidy.row hc d hd huid]
    exact hmem
  · exact fun hmem => ⟨c.holding, List.mem_map_of_mem hc, rfl, hmem⟩

theorem held_rows (hrows : t.holdings = s.holdings) : t.Held uid id u ↔ s.Held uid id u := by
  unfold Server.Held
  rw [hrows]

theorem Rows.held {uploads : List (Nat × Upload)} {saved : List Bytes} (rows : Rows s t c.uid uploads saved)
    (hc : c ∈ s.conns) : t.Held uid id u ↔ if uid = c.uid then (id, u) ∈ uploads else s.Held uid id u := by
  unfold Server.Held
  rw [show t.holdings = _ from rows]
  constructor
  · rintro ⟨h, hh, huid, hmem⟩
    obtain ⟨h₀, hh₀, rfl⟩ := List.mem_map.mp hh
    by_cases hmine : h₀.uid = c.uid
    · rw [if_pos hmine] at huid hmem
      rw [if_pos (huid.symm.trans hmine)]
      exact hmem
    · rw [if_neg hmine] at huid hmem
      rw [if_neg (huid ▸ hmine)]
      exact ⟨h₀, hh₀, huid, hmem⟩
  · by_cases hmine : uid = c.uid
    · rw [if_pos hmine]
      intro hmem
      refine ⟨_, List.mem_map_of_mem (List.mem_map_of_mem hc), ?_⟩
      rw [if_pos (show c.holding.uid = c.uid from rfl)]
      exact ⟨hmine.symm, hmem⟩
    · rw [if_neg hmine]
      rintro ⟨h, hh, huid, hmem⟩
      refine ⟨_, List.mem_map_of_mem hh, ?_⟩
      rw [if_neg (huid ▸ hmine)]
      exact ⟨huid, hmem⟩

theorem mem_received {c : Conn} {id n id' : Nat} {u' : Upload} : (id', u') ∈ (c.received id n).uploads ↔
    ∃ u₀, (id', u₀) ∈ c.uploads ∧ u' = if id' = id then { u₀ with received := n } else u₀ := by
  unfold Conn.received Conn.setUploads
  rw [List.mem_map]
  constructor
  · rintro ⟨⟨i, u₀⟩, hmem, heq⟩
    dsimp only at heq
    by_cases hi : i = id
    · rw [if_pos hi, Prod.mk.injEq] at heq
      obtain ⟨rfl, rfl⟩ := heq
      exact ⟨u₀, hmem, (if_pos hi).symm⟩
    · rw [if_neg hi, Prod.mk.injEq] at heq
      obtain ⟨rfl, rfl⟩ := heq
      exact ⟨u₀, hmem, (if_neg hi).symm⟩
  · rintro ⟨u₀, hmem, rfl⟩
    refine ⟨(id', u₀), hmem, ?_⟩
    dsimp only
    split <;> rfl

theorem mem_eraseUpload {c : Conn} {id id' : Nat} {u' : Upload} :
    (id', u') ∈ (c.eraseUpload id).uploads ↔ (id', u') ∈ c.uploads ∧ id' ≠ id := by
  unfold Conn.eraseUpload Conn.setUploads
  rw [List.mem_filter]
  simp

theorem held_ids (htidy : s.Tidy) (hbounded : ∀ h ∈ s.holdings, h.Bounded) (hc : c ∈ s.conns) :
    c.upload id = some u ↔ s.Held c.uid id u := by
  rw [held_conn htidy hc]
  exact ⟨upload_mem, upload_of_mem (hbounded c.holding (List.mem_map_of_mem hc)).ids⟩

-- The files of connections are distinct where transfers never share one.
theorem transfersOf_nodup (htidy : s.Tidy) (hbounded : ∀ h ∈ s.holdings, h.Bounded)
    (halone : ∀ uid id u uid' id' u', s.Held uid id u → s.Held uid' id' u' → u.path = u'.path →
      uid = uid' ∧ id = id')
    (p : Conn → Bool) : ((transfersOf (s.conns.filter p)).map Prod.snd).Nodup := by
  have hpaths : (transfersOf (s.conns.filter p)).map Prod.snd =
      (s.conns.filter p).flatMap fun c => c.uploads.map fun x => x.2.path := by
    unfold transfersOf
    rw [List.map_flatMap]
    simp only [List.map_map]
    rfl
  have hheld : ∀ c ∈ s.conns.filter p, ∀ x ∈ c.uploads, s.Held c.uid x.1 x.2 := fun c hc x hx =>
    (held_conn htidy (List.mem_filter.mp hc).1).mpr hx
  rw [hpaths, List.nodup_flatMap]
  constructor
  · intro c hc
    have hids := (hbounded c.holding (List.mem_map_of_mem (List.mem_filter.mp hc).1)).ids
    refine List.Nodup.map_on (fun x hx y hy hxy => ?_) hids.of_map
    exact row_unique Prod.fst hids hx hy (halone _ _ _ _ _ _ (hheld c hc x hx) (hheld c hc y hy) hxy).2
  · have hdistinct : ((s.conns.filter p).map Conn.uid).Nodup := htidy.distinct.sublist (List.filter_sublist.map _)
    refine (List.pairwise_map.mp hdistinct).imp_of_mem fun {c d} hc hd hne => ?_
    intro path hcpath hdpath
    obtain ⟨x, hx, rfl⟩ := List.mem_map.mp hcpath
    obtain ⟨y, hy, hxy⟩ := List.mem_map.mp hdpath
    exact hne (halone _ _ _ _ _ _ (hheld c hc x hx) (hheld d hd y hy) hxy.symm).1

-- What is still held after a reap belongs to a connection that is still there.
theorem held_reaped (rows : t.holdings = (s.conns.filter fun c => !c.dead).map Conn.holding)
    (h : t.Held uid id u) : ∃ c ∈ s.conns, c.dead = false ∧ c.uid = uid ∧ (id, u) ∈ c.uploads := by
  obtain ⟨h, hh, huid, hmem⟩ := h
  rw [rows] at hh
  obtain ⟨c, hc, rfl⟩ := List.mem_map.mp hh
  obtain ⟨hc, halive⟩ := List.mem_filter.mp hc
  exact ⟨c, hc, by simpa using halive, huid, hmem⟩

theorem mem_transfersOf {conns : List Conn} {f : Nat} {p : Bytes} :
    (f, p) ∈ transfersOf conns ↔ ∃ c ∈ conns, ∃ x ∈ c.uploads, x.2.file = f ∧ x.2.path = p := by
  simp [transfersOf]

theorem transfers_streams (htidy : s.Tidy)
    (hstream : ∀ uid id u, s.Held uid id u → ∃ w, (fs.view s.os).stream u.file =
    some ⟨u.path, w⟩) (p : Conn → Bool) : ∀ x ∈ transfersOf (s.conns.filter p), ∃ w,
      (fs.view s.os).stream x.1 = some ⟨x.2, w⟩ := by
  rintro ⟨f, p⟩ hx
  obtain ⟨c, hc, x, hopen, rfl, rfl⟩ := mem_transfersOf.mp hx
  exact hstream c.uid x.1 x.2 ((held_conn htidy (List.mem_filter.mp hc).1).mpr hopen)

end Held

section Since

-- Every open transfer has its stream, and no two share a file.
structure Apart (v : Storage Bytes UInt8) (held : Nat → Nat → Upload → Prop) : Prop where
  stream : ∀ uid id u, held uid id u → ∃ w, v.stream u.file = some ⟨u.path, w⟩
  alone : ∀ uid id u uid' id' u', held uid id u → held uid' id' u' → u.path = u'.path → uid = uid' ∧ id = id'

variable {σ : Type} (cr : Crypto) {plat : Platform σ} (fs : HostFiles plat) (s : Server σ)

-- The world outside does not touch the files of open transfers.
def FilesLeftAlone (e : ServerEvent σ) : Prop :=
  ∀ os, e = .world os → ∀ c ∈ s.conns, ∀ x ∈ c.uploads, SameAt (fs.view s.os) (fs.view os) x.2.path

-- A FILE_BEGIN that opens a file opens none of an open transfer.
def OpensApart (plat : Platform σ) (e : ServerEvent σ) : Prop :=
  ∀ c id size name path, s.fileMessageIn cr e = some (c, .start id size name) →
    s.opensAt plat c id size name = some path →
    ∀ uid id' u, s.Held uid id' u → u.path ≠ path

-- Where a transfer that is open after a step comes from.
inductive Since (e : ServerEvent σ) (t : Server σ) (uid id : Nat) (u : Upload) : Prop
  | same (held : s.Held uid id u) (same : SameAt (fs.view s.os) (fs.view t.os) u.path)
      (ledger : ∀ l, s.ledgerAfter cr e l (uid, id) = l (uid, id))
  | began (c : Conn) (name : Bytes) (mem : c ∈ s.conns) (mine : uid = c.uid)
      (message : s.fileMessageIn cr e = some (c, .start id u.size name))
      (opens : s.opensAt plat c id u.size name = some u.path) (free : c.upload id = none) (empty : u.received = 0)
      (opened : Opened (fs.view s.os) u.file u.path (fs.view t.os))
  | wrote (c : Conn) (data : Bytes) (u₀ : Upload) (mine : uid = c.uid)
      (message : s.fileMessageIn cr e = some (c, .chunk id data)) (held : s.Held uid id u₀)
      (grown : u = { u₀ with received := u₀.received + data.length })
      (stored : data = [] ∧ fs.view t.os = fs.view s.os ∨
        Wrote (fs.view s.os) u₀.file data data.length (fs.view t.os))

variable {cr fs s} {t : Server σ} {c : Conn} {e : ServerEvent σ} {l : Nat × Nat → Nat × Bytes}
  {m : FileMessage} {uid id : Nat}
  {u : Upload}

theorem ledgerAfter_quiet (h : s.fileMessageIn cr e = none) : s.ledgerAfter cr e l = l := by
  unfold Server.ledgerAfter
  rw [h]

theorem ledgerAfter_other (h : s.fileMessageIn cr e = some (c, m)) {k : Nat × Nat} (hk : k ≠ (c.uid, m.id)) :
    s.ledgerAfter cr e l k = l k := by
  unfold Server.ledgerAfter
  rw [h]
  cases m with
  | start id size name =>
      dsimp only
      split
      · rfl
      · exact Function.update_of_ne hk _ _
  | chunk id data => exact Function.update_of_ne hk _ _
  | finish id => rfl

theorem Filed.since (h : Filed fs s c m t) (htidy : s.Tidy) (hbounded : ∀ h ∈ s.holdings, h.Bounded)
    (hc : c ∈ s.conns)
    (hmessage : s.fileMessageIn cr e = some (c, m)) (hopens : OpensApart cr s plat e)
    (hold : Apart (fs.view s.os) s.Held)
    (ht : t.Held uid id u) : Since cr fs s e t uid id u := by
  have hlookup : ∀ {id u}, c.upload id = some u ↔ s.Held c.uid id u := held_ids htidy hbounded hc
  have hledger : uid ≠ c.uid ∨ id ≠ m.id → ∀ l, s.ledgerAfter cr e l (uid, id) = l (uid, id) := fun hne l =>
    ledgerAfter_other hmessage fun heq => by
      rw [Prod.mk.injEq] at heq
      exact hne.elim (fun h => h heq.1) fun h => h heq.2
  -- what is not held is not in the ledger either
  have hfree : c.upload m.id = none → s.Held uid id u → ∀ l, s.ledgerAfter cr e l (uid, id) = l (uid, id) := by
    intro hnone hheld
    refine hledger ?_
    by_contra hboth
    rw [not_or, not_not, not_not] at hboth
    obtain ⟨rfl, rfl⟩ := hboth
    rw [← hlookup, hnone] at hheld
    cases hheld
  -- the other transfers, where one on the path p is gone
  have herased : ∀ {u₀ : Upload} {saved : List Bytes}, c.upload m.id = some u₀ →
      Rows s t c.uid (c.eraseUpload m.id).uploads saved →
      (∀ q, q ≠ u₀.path → SameAt (fs.view s.os) (fs.view t.os) q) → Since cr fs s e t uid id u := by
    intro u₀ saved held rows hsame
    have hs : s.Held uid id u ∧ (uid ≠ c.uid ∨ id ≠ m.id) := by
      rw [rows.held hc] at ht
      by_cases huid : uid = c.uid
      · rw [if_pos huid, mem_eraseUpload] at ht
        rw [huid, held_conn htidy hc]
        exact ⟨ht.1, .inr ht.2⟩
      · rw [if_neg huid] at ht
        exact ⟨ht, .inl huid⟩
    refine .same hs.1 (hsame _ fun hpath => ?_) (hledger hs.2)
    obtain ⟨rfl, rfl⟩ := hold.alone _ _ _ _ _ _ hs.1 (hlookup.mp held) hpath
    exact hs.2.elim (fun h => h rfl) fun h => h rfl
  cases h with
  | @rejected id' size name _ refused kept =>
      have hheld := (held_rows kept.rows).mp ht
      refine .same hheld (kept.view ▸ .refl _ _) ?_
      cases hopen : c.upload id' with
      | none => exact hfree hopen hheld
      | some u =>
          intro l
          unfold Server.ledgerAfter
          rw [hmessage]
          dsimp only
          rw [hopen]
          rfl
  | @unknown _ _ id' names free kept =>
      have hheld := (held_rows kept.rows).mp ht
      refine .same hheld (kept.view ▸ .refl _ _) (hfree ?_ hheld)
      rcases names with rfl | ⟨data, rfl⟩ <;> exact free
  | @began id' size name _ path f opens free few small rows opened =>
      rw [rows.held hc] at ht
      have hsame : s.Held uid id u → Since cr fs s e t uid id u := fun hs =>
        .same hs (opened.sameAt (hopens c id' size name path hmessage opens uid id u hs)) (hfree free hs)
      by_cases huid : uid = c.uid
      · rw [if_pos huid, mem_insertUpload, Prod.mk.injEq] at ht
        rcases ht with ⟨rfl, rfl⟩ | hmem
        · exact .began c name hc huid hmessage opens free rfl opened
        · rw [← held_conn htidy hc, ← huid] at hmem
          exact hsame hmem
      · rw [if_neg huid] at ht
        exact hsame ht
  | @wrote id' data _ u₀ held fits rows stored =>
      obtain ⟨w, hstream⟩ := hold.stream c.uid id' u₀ (hlookup.mp held)
      have hsame : ∀ q, q ≠ u₀.path → SameAt (fs.view s.os) (fs.view t.os) q := by
        intro q hq
        rcases stored with ⟨-, hview⟩ | hwrote
        · rw [hview]
          exact .refl _ _
        · exact hwrote.sameAt hstream hq
      have hother : s.Held uid id u → uid ≠ c.uid ∨ id ≠ id' → Since cr fs s e t uid id u := fun hs hne =>
        .same hs (hsame u.path fun hpath => by
          obtain ⟨rfl, rfl⟩ := hold.alone _ _ _ _ _ _ hs (hlookup.mp held) hpath
          exact hne.elim (fun h => h rfl) fun h => h rfl) (hledger hne)
      rw [rows.held hc] at ht
      by_cases huid : uid = c.uid
      · rw [if_pos huid, mem_received] at ht
        obtain ⟨u₁, hmem, heq⟩ := ht
        by_cases hid : id = id'
        · rw [if_pos hid] at heq
          subst hid
          rw [← held_conn htidy hc, ← hlookup, held, Option.some.injEq] at hmem
          subst hmem
          exact .wrote c data u₀ huid hmessage (huid ▸ hlookup.mp held) heq stored
        · rw [if_neg hid] at heq
          subst heq
          exact hother (huid ▸ (held_conn htidy hc).mpr hmem) (.inr hid)
      · rw [if_neg huid] at ht
        exact hother ht (.inl huid)
  | @failed _ _ id' u₀ v v' ok names held before rows closed removed =>
      obtain ⟨w, hstream⟩ := hold.stream c.uid id' u₀ (hlookup.mp held)
      have hid : m.id = id' := by rcases names with rfl | ⟨data, rfl⟩ <;> rfl
      subst hid
      refine herased held rows fun q hq => ?_
      rcases before with rfl | ⟨data, n, hwrote⟩
      · exact (closed.sameAt hstream hq).trans (removed.sameAt hq)
      · obtain ⟨w', hw'⟩ := hwrote.path hstream
        exact (hwrote.sameAt hstream hq).trans ((closed.sameAt hw' hq).trans (removed.sameAt hq))
  | @saved id' _ u₀ held complete rows closed =>
      obtain ⟨w, hstream⟩ := hold.stream c.uid id' u₀ (hlookup.mp held)
      exact herased held rows fun q hq => closed.sameAt hstream hq

theorem Outcome.since (h : Outcome fs cr s e t) (htidy : s.Tidy) (hbounded : ∀ h ∈ s.holdings, h.Bounded)
    (hworld : FilesLeftAlone fs s e) (hopens : OpensApart cr s plat e) (hold : Apart (fs.view s.os) s.Held)
    (ht : t.Held uid id u) : Since cr fs s e t uid id u := by
  have hquiet : s.fileMessageIn cr e = none → ∀ l, s.ledgerAfter cr e l (uid, id) = l (uid, id) := fun hnone l => by
    rw [ledgerAfter_quiet hnone]
  cases h with
  | kept quiet kept => exact .same ((held_rows kept.rows).mp ht) (kept.view ▸ .refl _ _) (hquiet quiet)
  | moved os event rows view =>
      subst event
      have hheld := (held_rows rows).mp ht
      refine .same hheld ?_ (hquiet rfl)
      obtain ⟨h, hh, rfl, hmem⟩ := hheld
      obtain ⟨c, hc, rfl⟩ := List.mem_map.mp hh
      rw [view]
      exact hworld os rfl c hc (id, u) hmem
  | limited mine quiet rows view =>
      refine .same ?_ (view ▸ .refl _ _) (hquiet quiet)
      obtain ⟨h, hh, huid, hmem⟩ := ht
      rw [rows] at hh
      obtain ⟨h₀, hh₀, rfl⟩ := List.mem_map.mp hh
      refine ⟨h₀, hh₀, ?_⟩
      split at huid
      · next hmine =>
          rw [if_pos hmine] at hmem
          exact ⟨huid, hmem⟩
      · next hmine =>
          rw [if_neg hmine] at hmem
          exact ⟨huid, hmem⟩
  | joined limit quiet small rows view =>
      refine .same ?_ (view ▸ .refl _ _) (hquiet quiet)
      obtain ⟨h, hh, huid, hmem⟩ := ht
      rw [rows, List.mem_append, List.mem_singleton] at hh
      rcases hh with hh | rfl
      · exact ⟨h, hh, huid, hmem⟩
      · cases hmem
  | reaped io event rows dropped =>
      subst event
      obtain ⟨c, hc, halive, rfl, hmem⟩ := held_reaped rows ht
      refine .same ((held_conn htidy hc).mpr hmem) ?_ (hquiet rfl)
      obtain ⟨hsame, -, -⟩ :=
        dropped.spec (transfers_streams htidy hold.stream _) (transfersOf_nodup htidy hbounded hold.alone _)
      refine hsame u.path fun hpath => ?_
      obtain ⟨⟨f, p⟩, hx, heq⟩ := List.mem_map.mp hpath
      obtain ⟨d, hd, x, hopen, rfl, rfl⟩ := mem_transfersOf.mp hx
      obtain ⟨hd, hdead⟩ := List.mem_filter.mp hd
      obtain ⟨huid, -⟩ :=
        hold.alone _ _ _ _ _ _ ((held_conn htidy hd).mpr hopen) ((held_conn htidy hc).mpr hmem) heq
      rw [htidy.row hc d hd huid, halive] at hdead
      cases hdead
  | filed io c m event mem live message filed => exact filed.since htidy hbounded mem message hopens hold ht

-- A transfer was open before, on the same file, or a FILE_BEGIN opened it.
theorem Since.origin (h : Since cr fs s e t uid id u) :
    (∃ u₀, s.Held uid id u₀ ∧ u₀.path = u.path ∧ u₀.file = u.file) ∨
      ∃ c size name, s.fileMessageIn cr e = some (c, .start id size name) ∧ uid = c.uid ∧
        s.opensAt plat c id size name = some u.path := by
  cases h with
  | same held same ledger => exact .inl ⟨u, held, rfl, rfl⟩
  | began c name mem mine message opens free empty opened => exact .inr ⟨c, u.size, name, message, mine, opens⟩
  | wrote c data u₀ mine message held grown stored => exact .inl ⟨u₀, held, by rw [grown], by rw [grown]⟩

theorem Apart.next (hold : Apart (fs.view s.os) s.Held) (hopens : OpensApart cr s plat e)
    (hsince : ∀ uid id u, t.Held uid id u → Since cr fs s e t uid id u) : Apart (fs.view t.os) t.Held := by
  constructor
  · intro uid id u ht
    cases hsince uid id u ht with
    | same held same ledger =>
        obtain ⟨w, hw⟩ := hold.stream uid id u held
        exact ⟨w, (same.stream u.file _ rfl).mpr hw⟩
    | began c name mem mine message opens free empty opened => exact ⟨_, opened.stream⟩
    | wrote c data u₀ mine message held grown stored =>
        obtain ⟨w, hw⟩ := hold.stream uid id u₀ held
        rw [grown]
        rcases stored with ⟨-, hview⟩ | hwrote
        · exact ⟨w, hview ▸ hw⟩
        · exact hwrote.path hw
  · intro uid id u uid' id' u' ht ht' hpath
    rcases (hsince uid id u ht).origin with ⟨u₀, hs, heq, -⟩ | ⟨c, size, name, message, rfl, opens⟩
    · rcases (hsince uid' id' u' ht').origin with ⟨u₀', hs', heq', -⟩ | ⟨c, size, name, message, rfl, opens⟩
      · exact hold.alone _ _ _ _ _ _ hs hs' (heq.trans (hpath.trans heq'.symm))
      · exact absurd (heq.trans hpath) (hopens c id' size name u'.path message opens uid id u₀ hs)
    · rcases (hsince uid' id' u' ht').origin with ⟨u₀', hs', heq', -⟩ | ⟨c', size', name', message', rfl, opens'⟩
      · exact absurd (heq'.trans hpath.symm) (hopens c id size name u.path message opens uid' id' u₀' hs')
      · rw [message, Option.some.injEq, Prod.mk.injEq, FileMessage.start.injEq] at message'
        exact ⟨congrArg Conn.uid message'.1, message'.2.1⟩

end Since

end TetherDesk.Host
