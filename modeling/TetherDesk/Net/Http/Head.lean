import TetherDesk.Net.Http.Header

namespace TetherDesk.Net

-- The head of a request or a response: its first line, and the name and the value of each field.
structure Head where
  start : Bytes
  fields : List (Bytes × Bytes)

def fieldLine (f : Bytes × Bytes) : Bytes := f.1 ++ 58 :: 32 :: f.2

def Head.lines (h : Head) : List Bytes := h.start :: h.fields.map fieldLine

def Head.bytes (h : Head) : Bytes := headerBlock h.lines ++ (crlf ++ crlf)

-- Bytes that stay within one line of a C string.
def Inline (s : Bytes) : Prop := 13 ∉ s ∧ 10 ∉ s ∧ 0 ∉ s

instance (s : Bytes) : Decidable (Inline s) := inferInstanceAs (Decidable (_ ∧ _))

structure Head.Plain (h : Head) : Prop where
  start : h.start ≠ [] ∧ Inline h.start
  names : ∀ f ∈ h.fields, Inline f.1 ∧ 58 ∉ f.1
  values : ∀ f ∈ h.fields, Inline f.2

section Search

variable {pat s : Bytes} {b : UInt8}

theorem findSub_cons (h : pat.head? ≠ some b) (hpat : pat ≠ []) : findSub pat (b :: s) =
    (findSub pat s).map (· + 1) := by
  obtain ⟨a, rest, rfl⟩ := List.exists_cons_of_ne_nil hpat
  rw [findSub, if_neg]
  intro hprefix
  rw [List.isPrefixOf_iff_prefix, List.cons_prefix_cons] at hprefix
  exact h (congrArg some hprefix.1)

-- The pattern is not looked for in a text without its first byte.
theorem findSub_skip {pre : Bytes} (hpat : pat ≠ []) (h : ∀ b ∈ pre, pat.head? ≠ some b) :
    findSub pat (pre ++ s) = (findSub pat s).map (· + pre.length) := by
  induction pre with
  | nil => simp
  | cons b pre ih =>
      obtain ⟨hb, hpre⟩ := List.forall_mem_cons.mp h
      rw [List.cons_append, findSub_cons hb hpat, ih hpre, Option.map_map]
      congr 1

theorem findSub_start (rest : Bytes) (hpat : pat ≠ []) : findSub pat (pat ++ rest) = some 0 := by
  obtain ⟨a, tail, rfl⟩ := List.exists_cons_of_ne_nil hpat
  exact if_pos (List.isPrefixOf_iff_prefix.mpr ⟨rest, rfl⟩)

-- What is found in a part is found at the same place of the whole.
theorem findSub_prefix {part whole : Bytes} {k : Nat} (h : findSub pat part = some k) (hpart : part <+: whole) :
    findSub pat whole = some k := by
  induction part generalizing whole k with
  | nil =>
      unfold findSub at h
      split_ifs at h with hpat
      subst hpat
      cases whole with
      | nil => exact h
      | cons b whole => exact h
  | cons b part ih =>
      obtain ⟨rest, rfl⟩ := hpart
      rw [List.cons_append]
      unfold findSub at h ⊢
      by_cases hstart : pat.isPrefixOf (b :: part) = true
      · have hmore : pat.isPrefixOf (b :: (part ++ rest)) = true := by
          rw [List.isPrefixOf_iff_prefix] at hstart ⊢
          exact hstart.trans (List.prefix_append (b :: part) rest)
        rw [if_pos hstart] at h
        rwa [if_pos hmore]
      · rw [if_neg hstart] at h
        obtain ⟨j, hj, rfl⟩ := Option.map_eq_some_iff.mp h
        have hrest := ih hj (List.prefix_append part rest)
        obtain ⟨hat, hle⟩ := findSub_some hj
        by_cases hmore : pat.isPrefixOf (b :: (part ++ rest)) = true
        · -- the pattern would lie within the part
          exfalso
          have hlong : pat.length ≤ (b :: part).length := by
            have := hat.length_le
            rw [List.length_drop] at this
            rw [List.length_cons]
            omega
          rw [List.isPrefixOf_iff_prefix] at hmore hstart
          exact hstart (List.prefix_of_prefix_length_le hmore (List.prefix_append (b :: part) rest) hlong)
        · rw [if_neg hmore, hrest]
          rfl

end Search

section Lines

theorem headerBlock_append (l : Bytes) (lines : List Bytes) :
    headerBlock (l :: (lines ++ [[]])) = headerBlock (l :: lines) ++ crlf := by
  induction lines generalizing l with
  | nil => rfl
  | cons l' lines ih =>
      rw [List.cons_append, headerBlock_cons, headerBlock_cons, ih, List.append_assoc, List.append_assoc]

theorem headerBlock_split (l : Bytes) (lines : List Bytes) :
    headerBlock (l :: (lines ++ [[]])) = l ++ (crlf ++ headerBlock (lines ++ [[]])) := by
  cases lines with
  | nil => rfl
  | cons l' lines => rfl

theorem not_cr {l : Bytes} (h : 13 ∉ l) : ∀ b ∈ l, (crlf ++ crlf).head? ≠ some b := by
  rintro b hb heq
  exact h (Option.some.inj heq ▸ hb)

-- The first blank line is the one behind the lines.
theorem findSub_blank {l : Bytes} {lines : List Bytes} (h : ∀ m ∈ l :: lines, m ≠ [] ∧ 13 ∉ m) (rest : Bytes) :
    findSub (crlf ++ crlf) (headerBlock (l :: lines) ++ (crlf ++ (crlf ++ rest))) =
      some (headerBlock (l :: lines)).length := by
  induction lines generalizing l with
  | nil =>
      have hl := h l List.mem_cons_self
      have hhere : findSub (crlf ++ crlf) (crlf ++ crlf ++ rest) = some 0 := findSub_start rest (by decide)
      rw [← List.append_assoc crlf, headerBlock, findSub_skip (by decide) (not_cr hl.2), hhere]
      exact congrArg some (Nat.zero_add _)
  | cons l' lines ih =>
      obtain ⟨hl, hlines⟩ := List.forall_mem_cons.mp h
      obtain ⟨b, tail, hb⟩ := List.exists_cons_of_ne_nil (hlines l' List.mem_cons_self).1
      have hcr : b ≠ 13 := by
        rintro rfl
        exact (hlines l' List.mem_cons_self).2 (hb ▸ List.mem_cons_self)
      have hbreak : ∀ s : Bytes, findSub (crlf ++ crlf) (crlf ++ (b :: s)) =
          (findSub (crlf ++ crlf) (b :: s)).map (· + 2) := by
        intro s
        have hfirst : ¬ (crlf ++ crlf).isPrefixOf (13 :: 10 :: b :: s) = true := by
          simp [crlf, List.isPrefixOf, Ne.symm hcr]
        rw [show crlf ++ (b :: s) = 13 :: 10 :: b :: s from rfl, findSub, if_neg hfirst,
          findSub_cons (by decide) (by decide),
          Option.map_map]
        congr 1
      have hnext := ih hlines
      have hstarts : ∃ s, headerBlock (l' :: lines) ++ (crlf ++ (crlf ++ rest)) = b :: s := by
        cases lines with
        | nil => exact ⟨_, by rw [headerBlock, hb, List.cons_append]⟩
        | cons l'' lines => exact ⟨_, by rw [headerBlock_cons, hb, List.cons_append, List.cons_append]⟩
      obtain ⟨s, hs⟩ := hstarts
      rw [headerBlock_cons, List.append_assoc, List.append_assoc, findSub_skip (by decide) (not_cr hl.2), hs,
        hbreak, ← hs, hnext]
      simp only [Option.map_some, List.length_append, show crlf.length = 2 from rfl]
      congr 1
      omega

end Lines

theorem trimBlanks_self {v : Bytes} (h : ∀ b ∈ v, isBlank b = false) : trimBlanks v = v := by
  have hdrop : ∀ u : Bytes, (∀ b ∈ u, isBlank b = false) → u.dropWhile isBlank = u := by
    intro u hu
    cases u with
    | nil => rfl
    | cons b u => rw [List.dropWhile_cons_of_neg (by simp [hu b List.mem_cons_self])]
  unfold trimBlanks
  rw [hdrop v h, hdrop _ fun b hb => h b (List.mem_reverse.mp hb), List.reverse_reverse]

theorem hasField_line {name : Bytes} {f : Bytes × Bytes} (hf : 58 ∉ f.1) :
    HasField name (fieldLine f) ↔ f.1.map toLower = name.map toLower := hasField_split hf

theorem fieldValue_line {f : Bytes × Bytes} (hf : 58 ∉ f.1) : fieldValue (fieldLine f) = trimBlanks f.2 := by
  unfold fieldValue fieldLine
  rw [(split_colon hf).2]
  rfl

-- A part of the input ends within the head or behind it.
theorem part_or_whole {head behind part tail : Bytes} (h : part ++ tail = head ++ behind) :
    part <+: head ∧ part ≠ head ∨ ∃ rest, part = head ++ rest ∧ rest ++ tail = behind := by
  rcases List.prefix_or_prefix_of_prefix (List.prefix_append part tail)
      (h ▸ List.prefix_append head behind) with hpart | ⟨rest, hrest⟩
  · by_cases heq : part = head
    · subst heq
      exact .inr ⟨[], (List.append_nil _).symm, List.append_cancel_left h⟩
    · exact .inl ⟨hpart, heq⟩
  · refine .inr ⟨rest, hrest.symm, ?_⟩
    rw [← hrest, List.append_assoc] at h
    exact List.append_cancel_left h

namespace Head

variable {h : Head}

def field (h : Head) (name : Bytes) : Option Bytes :=
  (h.fields.find? fun f => f.1.map toLower = name.map toLower).map Prod.snd

-- What a parser takes for the head: all but the second half of the blank line.
def front (h : Head) : Bytes := headerBlock h.lines ++ crlf

theorem front_eq (h : Head) : h.front = h.start ++ (crlf ++ headerBlock (h.fields.map fieldLine ++ [[]])) := by
  rw [front, lines, ← headerBlock_append, headerBlock_split]

theorem Plain.line (hplain : h.Plain) : ∀ l ∈ h.lines, l ≠ [] ∧ Inline l := by
  refine List.forall_mem_cons.mpr ⟨hplain.start, fun l hl => ?_⟩
  obtain ⟨f, hf, rfl⟩ := List.mem_map.mp hl
  obtain ⟨hname, -⟩ := hplain.names f hf
  have hvalue := hplain.values f hf
  refine ⟨by simp [fieldLine], ?_, ?_, ?_⟩
  · simp [fieldLine, hname.1, hvalue.1]
  · simp [fieldLine, hname.2.1, hvalue.2.1]
  · simp [fieldLine, hname.2.2, hvalue.2.2]

-- The head ends where it does.
theorem Plain.found (hplain : h.Plain) (rest : Bytes) :
    findSub (crlf ++ crlf) (h.bytes ++ rest) = some (headerBlock h.lines).length := by
  have hblank := findSub_blank (fun l hl => ⟨(hplain.line l hl).1, (hplain.line l hl).2.1⟩) rest
  rw [bytes, List.append_assoc, List.append_assoc]
  exact hblank

theorem take_front (h : Head) (rest : Bytes) : (h.bytes ++ rest).take ((headerBlock h.lines).length + 2) =
    h.front := by
  have hlen : h.front.length = (headerBlock h.lines).length + 2 := List.length_append
  rw [← hlen, bytes, ← List.append_assoc (headerBlock h.lines), List.append_assoc]
  exact List.take_left

theorem drop_bytes (h : Head) (rest : Bytes) : (h.bytes ++ rest).drop ((headerBlock h.lines).length + 4) =
    rest := by
  have hlen : h.bytes.length = (headerBlock h.lines).length + 4 := List.length_append
  rw [← hlen, List.drop_left]

-- No part of it is taken for the whole.
theorem Plain.unfinished (hplain : h.Plain) {part : Bytes} (hpart : part <+: h.bytes) (hproper : part ≠ h.bytes) :
    findSub (crlf ++ crlf) part = none := by
  by_contra hfound
  obtain ⟨k, hk⟩ := Option.ne_none_iff_exists'.mp hfound
  have hwhole := hplain.found []
  rw [List.append_nil, findSub_prefix hk hpart] at hwhole
  obtain rfl := Option.some.inj hwhole
  obtain ⟨hat, hle⟩ := findSub_some hk
  have hlen : h.bytes.length = (headerBlock h.lines).length + 4 := List.length_append
  have hfour := hat.length_le
  rw [List.length_drop, show (crlf ++ crlf).length = 4 from rfl] at hfour
  refine hproper (hpart.eq_of_length_le ?_)
  omega

theorem Plain.eol (hplain : h.Plain) : findSub crlf h.front = some h.start.length := by
  have hhere : findSub crlf (crlf ++ headerBlock (h.fields.map fieldLine ++ [[]])) = some 0 :=
    findSub_start _ (by decide)
  have hskip : ∀ b ∈ h.start, crlf.head? ≠ some b := not_cr hplain.start.2.1
  rw [front_eq, findSub_skip (by decide) hskip, hhere]
  exact congrArg some (Nat.zero_add _)

theorem take_start (h : Head) : h.front.take h.start.length = h.start := by rw [front_eq, List.take_left]

theorem drop_start (h : Head) : h.front.drop (h.start.length + 2) =
    headerBlock (h.fields.map fieldLine ++ [[]]) := by
  rw [front_eq, ← List.drop_drop, List.drop_left]
  rfl

-- A field is looked up by its name, and its value is what was written.
theorem Plain.header (hplain : h.Plain) (name : String) (hname : 58 ∉ ascii name) (cap : Nat) :
    rdHttpHeader (headerBlock (h.fields.map fieldLine ++ [[]])) name cap =
      (h.field (ascii name)).map fun v => (trimBlanks v).take (cap - 1) := by
  have hfree : (0 : UInt8) ∉ headerBlock (h.fields.map fieldLine ++ [[]]) := by
    have hall : 0 ∉ h.front := by
      have hbreaks : ∀ lines : List Bytes, (∀ l ∈ lines, Inline l) → 0 ∉ headerBlock lines := by
        intro lines
        induction lines with
        | nil => simp [headerBlock]
        | cons l rest ih =>
            intro hlines
            obtain ⟨hl, hrest⟩ := List.forall_mem_cons.mp hlines
            cases rest with
            | nil => exact hl.2.2
            | cons l' rest => simpa [headerBlock, crlf, hl.2.2] using ih hrest
      rw [front, List.mem_append]
      exact not_or.mpr ⟨hbreaks _ fun l hl => (hplain.line l hl).2, by decide⟩
    rw [← drop_start]
    exact fun hin => hall (List.mem_of_mem_drop hin)
  have hlines : ∀ l ∈ h.fields.map fieldLine ++ [[]], 13 ∉ l ∧ 10 ∉ l := by
    intro l hl
    rcases List.mem_append.mp hl with hl | hl
    · have := (hplain.line l (List.mem_cons_of_mem _ hl)).2
      exact ⟨this.1, this.2.1⟩
    · obtain rfl := List.mem_singleton.mp hl
      exact ⟨List.not_mem_nil, List.not_mem_nil⟩
  have hfind : ∀ fields : List (Bytes × Bytes), (∀ f ∈ fields, 58 ∉ f.1) →
      ((fields.map fieldLine ++ [[]]).find? (HasField (ascii name) ·)).map
        (fun l => (fieldValue l).take (cap - 1)) =
        ((fields.find? fun f => f.1.map toLower = (ascii name).map toLower).map Prod.snd).map fun v =>
          (trimBlanks v).take (cap - 1) := by
    intro fields hcolon
    induction fields with
    | nil => simp [HasField, fieldName]
    | cons f fields ih =>
        obtain ⟨hf, hrest⟩ := List.forall_mem_cons.mp hcolon
        rw [List.map_cons, List.cons_append]
        by_cases heq : f.1.map toLower = (ascii name).map toLower
        · rw [List.find?_cons_of_pos (by simpa using (hasField_line hf).mpr heq),
            List.find?_cons_of_pos (by simpa using heq)]
          simp only [Option.map_some, fieldValue_line hf]
        · rw [List.find?_cons_of_neg (by simpa using fun hhas => heq ((hasField_line hf).mp hhas)),
            List.find?_cons_of_neg (by simpa using heq)]
          exact ih hrest
  rw [rdHttpHeader, cStr_of_notMem hfree, httpHeaderLoop_lines hname cap _ hlines (Nat.lt_succ_self _), field]
  exact hfind h.fields fun f hf => (hplain.names f hf).2

end Head

end TetherDesk.Net
