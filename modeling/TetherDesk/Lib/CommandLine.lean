import Mathlib.Algebra.BigOperators.Group.List.Basic
import Mathlib.Algebra.GroupWithZero.Nat
import Mathlib.Data.List.Infix
import Mathlib.Tactic.SplitIfs

namespace TetherDesk.Lib.CommandLine

-- How a C runtime on Windows splits a command line into arguments.

abbrev Wide := List UInt16

-- Blanks separate arguments outside quotes.
def isBlank (c : UInt16) : Bool := c = 32 ∨ c = 9

def slashes (n : Nat) : Wide := List.replicate n 92

-- Between two arguments, or within one: its text up to the last n backslashes.
inductive Scan
  | between (done : List Wide)
  | within (done : List Wide) (text : Wide) (quoted : Bool) (n : Nat)

-- One more character of an argument.
def word (done : List Wide) (text : Wide) (quoted : Bool) (n : Nat) (c : UInt16) : Scan :=
  if c = 92 then .within done text quoted (n + 1)
  else if c = 34 then
    if n % 2 = 0 then .within done (text ++ slashes (n / 2)) (!quoted) 0
    else .within done (text ++ slashes (n / 2) ++ [34]) quoted 0
  else if isBlank c ∧ quoted = false then .between (done ++ [text ++ slashes n])
  else .within done (text ++ slashes n ++ [c]) quoted 0

def Scan.step : Scan → UInt16 → Scan
  | .between done, c => if isBlank c then .between done else word done [] false 0 c
  | .within done text quoted n, c => word done text quoted n c

def Scan.args : Scan → List Wide
  | .between done => done
  | .within done text _ n => done ++ [text ++ slashes n]

def splitArgs (w : Wide) : List Wide := (w.foldl Scan.step (.between [])).args

-- q is an argument of a command line that is read as a.
def Spells (q a : Wide) : Prop :=
  ∀ done, ∃ text n, q.foldl Scan.step (.between done) = .within done text false n ∧ text ++ slashes n = a

-- Arguments with a blank between each two.
def joinArgs : List Wide → Wide
  | [] => []
  | [q] => q
  | q :: rest => q ++ 32 :: joinArgs rest

theorem joinArgs_cons (q : Wide) (rest : List Wide) : joinArgs (q :: rest) = q ++ rest.flatMap (32 :: ·) := by
  induction rest generalizing q with
  | nil => exact (List.append_nil q).symm
  | cons q' rest ih =>
      have hstep : joinArgs (q :: q' :: rest) = q ++ 32 :: joinArgs (q' :: rest) := rfl
      rw [hstep, ih q', List.flatMap_cons]
      rfl

@[simp] theorem slashes_zero : slashes 0 = [] := rfl

theorem slashes_add (m n : Nat) : slashes (m + n) = slashes m ++ slashes n := List.replicate_add m n 92

theorem slashes_succ (n : Nat) (w : Wide) : slashes (n + 1) ++ w = slashes n ++ 92 :: w := by
  rw [slashes_add, List.append_assoc]
  rfl

section Split

variable {done : List Wide} {text : Wide} {quoted : Bool} {n : Nat} {c : UInt16}

theorem word_slash : word done text quoted n 92 = .within done text quoted (n + 1) := rfl

-- A quote after an even number of backslashes opens or closes.
theorem word_toggle (n : Nat) : word done text quoted (n * 2) 34 = .within done (text ++ slashes n)
    (!quoted) 0 := by
  rw [word, if_neg (by decide), if_pos rfl, if_pos (by omega), Nat.mul_div_cancel n (by omega)]

-- After an odd number it is a character.
theorem word_literal (n : Nat) :
    word done text quoted (n * 2 + 1) 34 = .within done (text ++ slashes n ++ [34]) quoted 0 := by
  rw [word, if_neg (by decide), if_pos rfl, if_neg (by omega), show (n * 2 + 1) / 2 = n by omega]

theorem word_blank (hblank : isBlank c = true) (n : Nat) :
    word done text false n c = .between (done ++ [text ++ slashes n]) := by
  have hslash : c ≠ 92 := by rintro rfl; cases hblank
  have hquote : c ≠ 34 := by rintro rfl; cases hblank
  rw [word, if_neg hslash, if_neg hquote, if_pos ⟨hblank, rfl⟩]

theorem word_other (hslash : c ≠ 92) (hquote : c ≠ 34) (hblank : isBlank c = false ∨ quoted = true) (n : Nat) :
    word done text quoted n c = .within done (text ++ slashes n ++ [c]) quoted 0 := by
  have hstays : ¬ (isBlank c = true ∧ quoted = false) := by
    rintro ⟨hb, hq⟩
    rcases hblank with h | h
    · rw [h] at hb; cases hb
    · rw [h] at hq; cases hq
  rw [word, if_neg hslash, if_neg hquote, if_neg hstays]

-- Backslashes wait for what follows them.
theorem foldl_slashes (k : Nat) (w : Wide) :
    (slashes k ++ w).foldl Scan.step (.within done text quoted n) =
      w.foldl Scan.step (.within done text quoted (n + k)) := by
  induction k generalizing n with
  | zero => rfl
  | succ k ih =>
      have hcons : slashes (k + 1) ++ w = 92 :: (slashes k ++ w) := rfl
      rw [hcons, List.foldl_cons, Scan.step, word_slash, ih]
      congr 2
      omega

-- Characters that are neither quotes nor blanks stand for themselves.
theorem foldl_plain {w : Wide} (hw : ∀ c ∈ w, c ≠ 34 ∧ isBlank c = false) :
    ∃ text' n', w.foldl Scan.step (.within done text false n) = .within done text' false n' ∧
      text' ++ slashes n' = text ++ slashes n ++ w := by
  induction w generalizing text n with
  | nil => exact ⟨text, n, rfl, by rw [List.append_nil]⟩
  | cons c w ih =>
      obtain ⟨⟨hquote, hblank⟩, hrest⟩ := List.forall_mem_cons.mp hw
      rw [List.foldl_cons, Scan.step]
      by_cases hslash : c = 92
      · subst hslash
        obtain ⟨text', n', hscan, htext⟩ := @ih text (n + 1) hrest
        refine ⟨text', n', by rw [word_slash, hscan], ?_⟩
        rw [htext, slashes_add, List.append_assoc, List.append_assoc, List.append_assoc]
        rfl
      · obtain ⟨text', n', hscan, htext⟩ := @ih (text ++ slashes n ++ [c]) 0 hrest
        refine ⟨text', n', by rw [word_other hslash hquote (.inl hblank), hscan], ?_⟩
        rw [htext, slashes_zero, List.append_nil, List.append_assoc _ [c]]
        rfl

-- The first character of an argument.
theorem step_between (hblank : isBlank c = false) : (Scan.between done).step c =
    (Scan.within done [] false 0).step c := by
  rw [Scan.step, if_neg (by rw [hblank]; decide), Scan.step]

theorem spells_plain {a : Wide} (hne : a ≠ []) (ha : ∀ c ∈ a, c ≠ 34 ∧ isBlank c = false) : Spells a a := by
  intro done
  obtain ⟨text, n, hscan, htext⟩ := @foldl_plain done [] 0 a ha
  cases a with
  | nil => exact absurd rfl hne
  | cons c a =>
      rw [List.foldl_cons] at hscan
      exact ⟨text, n, by rw [List.foldl_cons, step_between (ha c List.mem_cons_self).2, hscan], htext⟩

theorem foldl_join {quote : Wide → Wide} {args : List Wide} (h : ∀ a ∈ args, Spells (quote a) a)
    (done : List Wide) :
    ((joinArgs (args.map quote)).foldl Scan.step (.between done)).args = done ++ args := by
  induction args generalizing done with
  | nil => exact (List.append_nil done).symm
  | cons a rest ih =>
      obtain ⟨ha, hrest⟩ := List.forall_mem_cons.mp h
      obtain ⟨text, n, hscan, rfl⟩ := ha done
      cases rest with
      | nil =>
          change ((quote _).foldl Scan.step _).args = _
          rw [hscan]
          rfl
      | cons b rest =>
          have hnext := ih hrest (done ++ [text ++ slashes n])
          have hstep : joinArgs (((text ++ slashes n) :: b :: rest).map quote) =
              quote (text ++ slashes n) ++ 32 :: joinArgs ((b :: rest).map quote) := rfl
          rw [hstep, List.foldl_append, hscan, List.foldl_cons, Scan.step, word_blank (by decide), hnext,
            List.append_assoc]
          rfl

-- Arguments that are spelled one by one are split apart again.
theorem splitArgs_join {quote : Wide → Wide} {args : List Wide} (h : ∀ a ∈ args, Spells (quote a) a) :
    splitArgs (joinArgs (args.map quote)) = args := foldl_join h []

end Split

-- The sum of f over the runs of backslashes before quotes; the first run has n before w.
def runs (f : Nat → Nat) : Nat → Wide → Nat
  | _, [] => 0
  | n, c :: w => if c = 92 then runs f (n + 1) w else if c = 34 then f n + runs f 0 w else runs f 0 w

def Scan.run : Scan → Nat
  | .between _ => 0
  | .within _ _ _ n => n

def Scan.finished : Scan → Nat
  | .between done => done.length
  | .within done _ _ _ => done.length

def total (args : List Wide) : Nat := (args.map List.length).sum

def quotes (args : List Wide) : Nat := (args.map (List.count 34)).sum

section Count

variable {f : Nat → Nat} {n : Nat} {w : Wide}

theorem runs_slash : runs f n (92 :: w) = runs f (n + 1) w := rfl

theorem runs_quote : runs f n (34 :: w) = f n + runs f 0 w := rfl

theorem runs_other {c : UInt16} (hslash : c ≠ 92) (hquote : c ≠ 34) : runs f n (c :: w) = runs f 0 w := by
  rw [runs, if_neg hslash, if_neg hquote]

-- A blank ends a run.
theorem runs_append (u w : Wide) : runs f n (u ++ 32 :: w) = runs f n u + runs f 0 w := by
  induction u generalizing n with
  | nil => rw [List.nil_append, runs_other (by decide) (by decide), runs, Nat.zero_add]
  | cons c u ih =>
      rw [List.cons_append]
      by_cases hslash : c = 92
      · rw [hslash, runs_slash, runs_slash, ih]
      · by_cases hquote : c = 34
        · rw [hquote, runs_quote, runs_quote, ih, Nat.add_assoc]
        · rw [runs_other hslash hquote, runs_other hslash hquote, ih]

theorem runs_join (qs : List Wide) : runs f 0 (joinArgs qs) = (qs.map (runs f 0)).sum := by
  induction qs with
  | nil => rfl
  | cons q rest ih =>
      cases rest with
      | nil => exact (Nat.add_zero _).symm
      | cons q' rest =>
          have hstep : joinArgs (q :: q' :: rest) = q ++ 32 :: joinArgs (q' :: rest) := rfl
          rw [hstep, runs_append, ih]
          rfl

theorem total_append (args : List Wide) (a : Wide) : total (args ++ [a]) = total args + a.length := by
  simp [total]

theorem quotes_append (args : List Wide) (a : Wide) : quotes (args ++ [a]) = quotes args + a.count 34 := by
  simp [quotes]

@[simp] theorem slashes_length (n : Nat) : (slashes n).length = n := List.length_replicate

@[simp] theorem slashes_count (n : Nat) : (slashes n).count 34 = 0 := by
  rw [slashes, List.count_replicate]
  rfl

-- What one character adds to an argument, and what a quote takes.
theorem word_cost (done : List Wide) (text : Wide) (quoted : Bool) (n : Nat) (c : UInt16) :
    (word done text quoted n c).run = (if c = 92 then n + 1 else 0) ∧
      total (word done text quoted n c).args + (if c = 34 then n / 2 + 1 else 0) +
        (word done text quoted n c).finished ≤
        total done + text.length + n + 1 + done.length ∧
      quotes (word done text quoted n c).args = quotes done + text.count 34 + if c = 34 then n % 2 else 0 := by
  by_cases hslash : c = 92
  · subst hslash
    rw [word_slash]
    refine ⟨rfl, ?_, ?_⟩
    · simp only [Scan.args, Scan.finished, total_append, List.length_append, slashes_length]
      rw [if_neg (by decide)]
      omega
    · simp [Scan.args, quotes_append]
  by_cases hquote : c = 34
  · subst hquote
    obtain ⟨k, rfl | rfl⟩ : ∃ k, n = k * 2 ∨ n = k * 2 + 1 := ⟨n / 2, by omega⟩
    · rw [word_toggle]
      refine ⟨rfl, ?_, ?_⟩
      · simp only [Scan.args, Scan.finished, total_append, List.length_append, slashes_length]
        rw [if_pos trivial]
        omega
      · simp [Scan.args, quotes_append]
    · rw [word_literal]
      refine ⟨rfl, ?_, ?_⟩
      · simp only [Scan.args, Scan.finished, total_append, List.length_append, slashes_length,
          List.length_singleton]
        rw [if_pos trivial]
        omega
      · simp [Scan.args, quotes_append]
        omega
  by_cases hsplit : isBlank c = true ∧ quoted = false
  · obtain ⟨hblank, rfl⟩ := hsplit
    rw [word_blank hblank]
    refine ⟨by simp [Scan.run, hslash], ?_, ?_⟩
    · simp only [Scan.args, Scan.finished, total_append, List.length_append, slashes_length, List.length_singleton]
      split_ifs
      omega
    · simp [Scan.args, quotes_append, hquote]
  · have hstays : isBlank c = false ∨ quoted = true := by
      by_contra hnot
      rw [not_or, Bool.not_eq_false, Bool.not_eq_true] at hnot
      exact hsplit hnot
    rw [word_other hslash hquote hstays]
    refine ⟨by simp [Scan.run, hslash], ?_, ?_⟩
    · simp only [Scan.args, Scan.finished, total_append, List.length_append, slashes_length, List.length_singleton]
      split_ifs
      omega
    · simp [Scan.args, quotes_append, hquote]

theorem step_cost (s : Scan) (c : UInt16) :
    (s.step c).run = (if c = 92 then s.run + 1 else 0) ∧
      total (s.step c).args + (if c = 34 then s.run / 2 + 1 else 0) + (s.step c).finished ≤ total s.args + 1 +
        s.finished ∧
      quotes (s.step c).args = quotes s.args + if c = 34 then s.run % 2 else 0 := by
  cases s with
  | between done =>
      by_cases hblank : isBlank c = true
      · have hslash : c ≠ 92 := by rintro rfl; cases hblank
        have hquote : c ≠ 34 := by rintro rfl; cases hblank
        rw [Scan.step, if_pos hblank, if_neg hslash, if_neg hquote, if_neg hquote]
        exact ⟨rfl, by omega, rfl⟩
      · rw [Scan.step, if_neg hblank]
        exact word_cost done [] false 0 c
  | within done text quoted n =>
      have hcost := word_cost done text quoted n c
      simp only [Scan.args, total_append, quotes_append, List.length_append, List.count_append,
        slashes_length, slashes_count]
      refine ⟨hcost.1, ?_, hcost.2.2⟩
      have hroom := hcost.2.1
      simp only [Scan.step, Scan.run, Scan.finished, Scan.args] at hroom ⊢
      omega

theorem foldl_cost (s : Scan) (w : Wide) :
    total (w.foldl Scan.step s).args + runs (· / 2) s.run w + w.count 34 + (w.foldl Scan.step s).finished ≤
        total s.args + w.length + s.finished ∧
      quotes (w.foldl Scan.step s).args = quotes s.args + runs (· % 2) s.run w := by
  induction w generalizing s with
  | nil => exact ⟨Nat.le_refl _, rfl⟩
  | cons c w ih =>
      obtain ⟨hrun, hroom, hquotes⟩ := step_cost s c
      obtain ⟨hroom', hquotes'⟩ := ih (s.step c)
      rw [hrun] at hroom' hquotes'
      rw [List.foldl_cons, List.length_cons]
      by_cases hslash : c = 92
      · subst hslash
        rw [if_pos rfl] at hroom' hquotes'
        rw [if_neg (by decide)] at hroom hquotes
        rw [runs_slash, runs_slash, List.count_cons_of_ne (by decide)]
        exact ⟨by omega, by omega⟩
      rw [if_neg hslash] at hroom' hquotes'
      by_cases hquote : c = 34
      · subst hquote
        rw [if_pos rfl] at hroom hquotes
        rw [runs_quote, runs_quote, List.count_cons_self]
        exact ⟨by omega, by omega⟩
      · rw [if_neg hquote] at hroom hquotes
        rw [runs_other hslash hquote, runs_other hslash hquote, List.count_cons_of_ne hquote]
        exact ⟨by omega, by omega⟩

-- The characters of the arguments, the quotes with the backslashes they take, and the
-- blanks between the arguments are all in the command line.
theorem split_cost (w : Wide) :
    total (splitArgs w) + runs (· / 2) 0 w + w.count 34 + (splitArgs w).length ≤ w.length + 1 ∧
      quotes (splitArgs w) = runs (· % 2) 0 w := by
  have hfinished : ∀ s : Scan, s.args.length ≤ s.finished + 1 := by
    intro s
    cases s with
    | between done => exact Nat.le_succ _
    | within done text quoted n => simp [Scan.args, Scan.finished]
  obtain ⟨hroom, hquotes⟩ := foldl_cost (.between []) w
  have hlast := hfinished (w.foldl Scan.step (.between []))
  rw [show quotes (Scan.between []).args = 0 from rfl, Nat.zero_add] at hquotes
  rw [show total (Scan.between []).args = 0 from rfl, Nat.zero_add, show (Scan.between []).finished =
    0 from rfl] at hroom
  unfold splitArgs
  change _ ≤ _ ∧ _ = runs (· % 2) (Scan.between []).run w
  rw [hquotes]
  exact ⟨by change _ + runs (· / 2) (Scan.between []).run w + _ + _ ≤ _; omega, rfl⟩

end Count

end TetherDesk.Lib.CommandLine
