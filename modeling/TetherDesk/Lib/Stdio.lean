import Mathlib.Data.List.Nodup
import Mathlib.Logic.Function.Basic

namespace TetherDesk.Lib.Stdio

-- A stream open for writing, and what full writes have put into it, buffered or not:
-- none once a write fell short or the file was changed in another way.
structure Stream (Path Byte : Type) where
  path : Path
  written : Option (List Byte)

-- The contents of the files, and the open streams.
structure Storage (Path Byte : Type) where
  disk : Path → Option (List Byte)
  stream : Nat → Option (Stream Path Byte)

section

variable {Path Byte : Type} {v v₁ v₂ : Storage Path Byte} {p : Path} {f g : Nat}

def Storage.put (v : Storage Path Byte) (f : Nat) (s : Option (Stream Path Byte)) : Storage Path Byte :=
  { v with stream := Function.update v.stream f s }

-- Nothing has happened to the file at p or to a stream on it.
structure SameAt (v v' : Storage Path Byte) (p : Path) : Prop where
  disk : v'.disk p = v.disk p
  stream : ∀ g s, s.path = p → (v'.stream g = some s ↔ v.stream g = some s)

-- The only stream on the file at p is f.
def Sole (v : Storage Path Byte) (f : Nat) (p : Path) : Prop := ∀ g s, v.stream g = some s → s.path = p → g = f

@[simp] theorem put_disk (s : Option (Stream Path Byte)) : (v.put f s).disk = v.disk := rfl

@[simp] theorem put_stream_self (s : Option (Stream Path Byte)) : (v.put f s).stream f = s := by
  unfold Storage.put
  exact Function.update_self f s v.stream

theorem put_stream_of_ne (s : Option (Stream Path Byte)) (h : g ≠ f) : (v.put f s).stream g = v.stream g := by
  unfold Storage.put
  exact Function.update_of_ne h s v.stream

theorem SameAt.refl (v : Storage Path Byte) (p : Path) : SameAt v v p := ⟨rfl, fun _ _ _ => Iff.rfl⟩

theorem SameAt.trans (h₁ : SameAt v v₁ p) (h₂ : SameAt v₁ v₂ p) : SameAt v v₂ p :=
  ⟨h₂.disk.trans h₁.disk, fun g s hs => (h₂.stream g s hs).trans (h₁.stream g s hs)⟩

theorem SameAt.sole (h : SameAt v v₁ p) (hsole : Sole v f p) : Sole v₁ f p := fun g s hs hp =>
  hsole g s ((h.stream g s hp).mp hs) hp

end

section

variable {Path Byte : Type} [DecidableEq Path]

def Stream.spoiled (s : Stream Path Byte) (p : Path) : Stream Path Byte :=
  if s.path = p then { s with written := none } else s

-- The file at p changes behind the streams on it.
def Storage.set (v : Storage Path Byte) (p : Path) (d : Option (List Byte)) : Storage Path Byte :=
  ⟨Function.update v.disk p d, fun g => (v.stream g).map fun s => s.spoiled p⟩

-- fopen(p, "wb") has returned f.
def Opened (v : Storage Path Byte) (f : Nat) (p : Path) (v' : Storage Path Byte) : Prop :=
  v.stream f = none ∧ v' = (v.set p (some [])).put f (some ⟨p, some []⟩)

-- fwrite has taken n bytes; how many of them are on the disk is open.
def Wrote (v : Storage Path Byte) (f : Nat) (data : List Byte) (n : Nat) (v' : Storage Path Byte) : Prop :=
  ∀ s, v.stream f = some s → ∃ d w, v' = (v.set s.path d).put f (some ⟨s.path, w⟩) ∧
    (v.disk s.path ≠ none → d ≠ none) ∧ (n = data.length → w = s.written.map (· ++ data))

-- fclose; ok tells that it reported success.
def Closed (v : Storage Path Byte) (f : Nat) (ok : Bool) (v' : Storage Path Byte) : Prop :=
  ∀ s, v.stream f = some s → ∃ d, v' = (v.set s.path d).put f none ∧
    (v.disk s.path ≠ none → d ≠ none) ∧ (ok = true → ∀ w, s.written = some w → d = some w)

-- remove; it may fail while a stream is open on the file.
def Removed (v : Storage Path Byte) (p : Path) (v' : Storage Path Byte) : Prop :=
  ∃ d, v' = v.set p d ∧ (d = none ∨ d = v.disk p) ∧ ((∀ f s, v.stream f = some s → s.path ≠ p) → d = none)

-- Closing and removing one after the other.
inductive Dropped : Storage Path Byte → List (Nat × Path) → Storage Path Byte → Prop
  | nil (v : Storage Path Byte) : Dropped v [] v
  | cons {v v₁ v₂ v₃ : Storage Path Byte} {f : Nat} {p : Path} {rest : List (Nat × Path)} (ok : Bool)
      (closed : Closed v f ok v₁) (removed : Removed v₁ p v₂) (next : Dropped v₂ rest v₃) : Dropped v
        ((f, p) :: rest) v₃

end

section

variable {Path Byte : Type} [DecidableEq Path] {v v₁ v₂ v' : Storage Path Byte} {f g n : Nat}
  {p q : Path} {ok : Bool}
  {data : List Byte} {s : Stream Path Byte} {d : Option (List Byte)} {l l' : List (Nat × Path)}

@[simp] theorem set_disk_self : (v.set p d).disk p = d := by
  unfold Storage.set
  exact Function.update_self p d v.disk

theorem set_disk_of_ne (h : q ≠ p) : (v.set p d).disk q = v.disk q := by
  unfold Storage.set
  exact Function.update_of_ne h d v.disk

theorem set_stream : (v.set p d).stream g = (v.stream g).map fun s => s.spoiled p := rfl

@[simp] theorem spoiled_path (s : Stream Path Byte) : (s.spoiled p).path = s.path := by
  unfold Stream.spoiled
  split <;> rfl

-- The streams that are there after a change were there before, on the same files.
theorem set_stream_some (h : (v.set p d).stream g = some s) : ∃ s₀, v.stream g = some s₀ ∧ s₀.path = s.path := by
  rw [set_stream] at h
  obtain ⟨s₀, hs₀, rfl⟩ := Option.map_eq_some_iff.mp h
  exact ⟨s₀, hs₀, (spoiled_path s₀).symm⟩

theorem set_sameAt (h : q ≠ p) : SameAt v (v.set p d) q := by
  refine ⟨set_disk_of_ne h, fun g s hs => ?_⟩
  have hkeep : ∀ s : Stream Path Byte, s.path = q → s.spoiled p = s := fun s hs => if_neg (hs ▸ h)
  constructor
  · intro hset
    obtain ⟨s₀, hs₀, hpath⟩ := set_stream_some hset
    rw [set_stream, hs₀, Option.map_some, hkeep s₀ (hpath.trans hs), Option.some.injEq] at hset
    rw [hs₀, hset]
  · intro hv
    rw [set_stream, hv, Option.map_some, hkeep s hs]

-- A change of the file at p with a new stream on it, or an old one closed.
theorem set_put_sameAt (t : Option (Stream Path Byte)) (hold : ∀ s, v.stream f = some s → s.path = p)
    (hnew : ∀ s, t = some s → s.path = p) (h : q ≠ p) : SameAt v ((v.set p d).put f t) q := by
  refine (set_sameAt h).trans ⟨rfl, fun g s hs => ?_⟩
  by_cases hg : g = f
  · subst hg
    rw [put_stream_self]
    constructor
    · intro ht
      exact absurd ((hs.symm.trans (hnew s ht))) h
    · intro hset
      obtain ⟨s₀, hs₀, hpath⟩ := set_stream_some hset
      exact absurd (hs.symm.trans (hpath.symm.trans (hold s₀ hs₀))) h
  · rw [put_stream_of_ne t hg]

theorem Opened.sameAt (h : Opened v f p v') (hq : q ≠ p) : SameAt v v' q := by
  obtain ⟨hfree, rfl⟩ := h
  refine set_put_sameAt _ (fun s hs => ?_) (fun s hs => ?_) hq
  · rw [hfree] at hs
    cases hs
  · rw [← Option.some.inj hs]

theorem Wrote.sameAt (h : Wrote v f data n v') (hs : v.stream f = some s) (hq : q ≠ s.path) : SameAt v v' q := by
  obtain ⟨d, w, rfl, -⟩ := h s hs
  refine set_put_sameAt _ (fun t ht => ?_) (fun t ht => ?_) hq
  · rw [hs] at ht
    rw [← Option.some.inj ht]
  · rw [← Option.some.inj ht]

theorem Closed.sameAt (h : Closed v f ok v') (hs : v.stream f = some s) (hq : q ≠ s.path) : SameAt v v' q := by
  obtain ⟨d, rfl, -⟩ := h s hs
  refine set_put_sameAt _ (fun t ht => ?_) (fun t ht => by cases ht) hq
  rw [hs] at ht
  rw [← Option.some.inj ht]

theorem Removed.sameAt (h : Removed v p v') (hq : q ≠ p) : SameAt v v' q := by
  obtain ⟨d, rfl, -⟩ := h
  exact set_sameAt hq

theorem Opened.stream (h : Opened v f p v') : v'.stream f = some ⟨p, some []⟩ := by
  obtain ⟨-, rfl⟩ := h
  exact put_stream_self _

theorem Opened.disk (h : Opened v f p v') : v'.disk p = some [] := by
  obtain ⟨-, rfl⟩ := h
  exact set_disk_self

-- A full write to a stream that nobody else has disturbed.
theorem Wrote.stream (h : Wrote v f data n v') {w : List Byte} (hs : v.stream f = some ⟨p, some w⟩)
    (hn : n = data.length) :
    v'.stream f = some ⟨p, some (w ++ data)⟩ := by
  obtain ⟨d, w', rfl, -, hw⟩ := h _ hs
  rw [put_stream_self, hw hn]
  rfl

theorem Wrote.path (h : Wrote v f data n v') (hs : v.stream f = some s) : ∃ w, v'.stream f = some ⟨s.path, w⟩ := by
  obtain ⟨d, w, rfl, -⟩ := h s hs
  exact ⟨w, put_stream_self _⟩

theorem Wrote.disk (h : Wrote v f data n v') (hs : v.stream f = some s) (hd : v.disk s.path ≠ none) :
    v'.disk s.path ≠ none := by
  obtain ⟨d, w, rfl, hkeep, -⟩ := h s hs
  rw [put_disk, set_disk_self]
  exact hkeep hd

theorem Wrote.sole (h : Wrote v f data n v') (hs : v.stream f = some s)
    (hsole : Sole v f s.path) : Sole v' f s.path := by
  intro g t ht hp
  obtain ⟨d, w, rfl, -⟩ := h s hs
  by_contra hg
  rw [put_stream_of_ne _ hg] at ht
  obtain ⟨t₀, ht₀, hpath⟩ := set_stream_some ht
  exact hg (hsole g t₀ ht₀ (hpath.trans hp))

theorem Closed.stream (h : Closed v f ok v') (hs : v.stream f = some s) : v'.stream f = none := by
  obtain ⟨d, rfl, -⟩ := h s hs
  exact put_stream_self _

theorem Closed.disk (h : Closed v f ok v') (hs : v.stream f = some s) (hd : v.disk s.path ≠ none) :
    v'.disk s.path ≠ none := by
  obtain ⟨d, rfl, hkeep, -⟩ := h s hs
  rw [put_disk, set_disk_self]
  exact hkeep hd

-- A close that reports success leaves on the disk what was written.
theorem Closed.content (h : Closed v f true v') {w : List Byte} (hs : v.stream f = some ⟨p, some w⟩) :
    v'.disk p = some w := by
  obtain ⟨d, rfl, -, hcontent⟩ := h _ hs
  rw [put_disk, set_disk_self]
  exact hcontent rfl w rfl

theorem Closed.nobody (h : Closed v f ok v') (hs : v.stream f = some s)
    (hsole : Sole v f s.path) : ∀ g t, v'.stream g = some t → t.path ≠ s.path := by
  intro g t ht hp
  obtain ⟨d, rfl, -⟩ := h s hs
  by_cases hg : g = f
  · rw [hg, put_stream_self] at ht
    cases ht
  · rw [put_stream_of_ne _ hg] at ht
    obtain ⟨t₀, ht₀, hpath⟩ := set_stream_some ht
    exact hg (hsole g t₀ ht₀ (hpath.trans hp))

theorem Removed.gone (h : Removed v p v') (hnone : ∀ g s, v.stream g = some s → s.path ≠ p) : v'.disk p = none := by
  obtain ⟨d, rfl, -, hgone⟩ := h
  rw [set_disk_self]
  exact hgone hnone

-- A stream that is open afterwards was open before on the same file, or has just been
-- opened.
theorem Opened.stream_some (h : Opened v f p v') (hs : v'.stream g = some s) :
    g = f ∧ s.path = p ∨ ∃ s₀, v.stream g = some s₀ ∧ s₀.path = s.path := by
  obtain ⟨-, rfl⟩ := h
  by_cases hg : g = f
  · rw [hg, put_stream_self, Option.some.injEq] at hs
    exact .inl ⟨hg, by rw [← hs]⟩
  · rw [put_stream_of_ne _ hg] at hs
    exact .inr (set_stream_some hs)

theorem Wrote.stream_some (h : Wrote v f data n v') {t : Stream Path Byte} (ht : v.stream f = some t)
    (hs : v'.stream g = some s) :
    ∃ s₀, v.stream g = some s₀ ∧ s₀.path = s.path := by
  obtain ⟨d, w, rfl, -⟩ := h t ht
  by_cases hg : g = f
  · rw [hg, put_stream_self, Option.some.injEq] at hs
    exact ⟨t, hg ▸ ht, by rw [← hs]⟩
  · rw [put_stream_of_ne _ hg] at hs
    exact set_stream_some hs

theorem Closed.stream_some (h : Closed v f ok v') {t : Stream Path Byte} (ht : v.stream f = some t)
    (hs : v'.stream g = some s) :
    g ≠ f ∧ ∃ s₀, v.stream g = some s₀ ∧ s₀.path = s.path := by
  obtain ⟨d, rfl, -⟩ := h t ht
  have hg : g ≠ f := fun hg => by
    rw [hg, put_stream_self] at hs
    cases hs
  rw [put_stream_of_ne _ hg] at hs
  exact ⟨hg, set_stream_some hs⟩

theorem Removed.stream_some (h : Removed v p v') (hs : v'.stream g = some s) :
    ∃ s₀, v.stream g = some s₀ ∧ s₀.path = s.path := by
  obtain ⟨d, rfl, -⟩ := h
  exact set_stream_some hs

theorem Dropped.append (h : Dropped v l v') (h' : Dropped v' l' v₂) : Dropped v (l ++ l') v₂ := by
  induction h with
  | nil v => exact h'
  | cons ok closed removed _ ih => exact .cons ok closed removed (ih h')

-- What dropping some files with their streams leaves.
theorem Dropped.spec (h : Dropped v l v') (hstream : ∀ x ∈ l, ∃ w, v.stream x.1 = some ⟨x.2, w⟩)
    (hpaths : (l.map Prod.snd).Nodup) :
    (∀ q ∉ l.map Prod.snd, SameAt v v' q) ∧
      (∀ g s, v'.stream g = some s → ∃ s₀, v.stream g = some s₀ ∧ s₀.path = s.path) ∧
      ∀ x ∈ l, v'.stream x.1 = none ∧ (Sole v x.1 x.2 → v'.disk x.2 = none) := by
  induction h with
  | nil v => exact ⟨fun q _ => .refl v q, fun g s hs => ⟨s, hs, rfl⟩, by simp⟩
  | @cons v v₁ v₂ v₃ f p rest ok closed removed next ih =>
      obtain ⟨w, hs⟩ := hstream (f, p) List.mem_cons_self
      rw [List.map_cons, List.nodup_cons] at hpaths
      have hsame : ∀ q, q ≠ p → SameAt v v₂ q := fun q hq => (closed.sameAt hs hq).trans (removed.sameAt hq)
      obtain ⟨hrest, hsome, hdropped⟩ := ih (fun x hx => by
        obtain ⟨w', hw'⟩ := hstream x (List.mem_cons_of_mem _ hx)
        have hne : x.2 ≠ p := fun heq => hpaths.1 (List.mem_map.mpr ⟨x, hx, heq⟩)
        exact ⟨w', ((hsame x.2 hne).stream x.1 _ rfl).mpr hw'⟩) hpaths.2
      have hbefore : ∀ g t, v₃.stream g = some t → g ≠ f ∧ ∃ s₀, v.stream g = some s₀ ∧ s₀.path = t.path := by
        intro g t ht
        obtain ⟨t₂, ht₂, hpath₂⟩ := hsome g t ht
        obtain ⟨t₁, ht₁, hpath₁⟩ := removed.stream_some ht₂
        obtain ⟨hg, t₀, ht₀, hpath₀⟩ := closed.stream_some hs ht₁
        exact ⟨hg, t₀, ht₀, hpath₀.trans (hpath₁.trans hpath₂)⟩
      refine ⟨fun q hq => ?_, fun g t ht => (hbefore g t ht).2,
        List.forall_mem_cons.mpr ⟨⟨?_, fun hsole => ?_⟩, fun x hx => ?_⟩⟩
      · rw [List.map_cons, List.mem_cons, not_or] at hq
        exact (hsame q hq.1).trans (hrest q hq.2)
      · by_contra hopen
        obtain ⟨t, ht⟩ := Option.ne_none_iff_exists'.mp hopen
        exact (hbefore f t ht).1 rfl
      · rw [(hrest p hpaths.1).disk]
        exact removed.gone (closed.nobody hs hsole)
      · have hne : x.2 ≠ p := fun heq => hpaths.1 (List.mem_map.mpr ⟨x, hx, heq⟩)
        exact ⟨(hdropped x hx).1, fun hsole => (hdropped x hx).2 ((hsame x.2 hne).sole hsole)⟩

end

end TetherDesk.Lib.Stdio
