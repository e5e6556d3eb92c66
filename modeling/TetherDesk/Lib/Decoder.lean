import Mathlib.Data.List.Basic

namespace TetherDesk.Lib

-- What one call of a decoder reports.
inductive Outcome (μ : Type*)
  | got (m : μ)
  | more
  | error
  deriving DecidableEq

def Outcome.message {μ : Type*} : Outcome μ → Option μ
  | .got m => some m
  | _ => none

-- A decoder that is called on a buffer others append to: it takes what it has
-- understood off the front.
structure Decoder (σ α μ : Type*) where
  next : σ → List α → Outcome μ × σ × List α

namespace Decoder

inductive Op (α : Type*)
  | append (chunk : List α)
  | call

def Op.chunk {α : Type*} : Op α → List α
  | .append chunk => chunk
  | .call => []

variable {σ α μ : Type*} (D : Decoder σ α μ)

-- Appends and calls in any order, with what the calls report.
def run : List (Op α) → σ → List α → List (Outcome μ) × σ × List α
  | [], s, buf => ([], s, buf)
  | .append chunk :: ops, s, buf => run ops s (buf ++ chunk)
  | .call :: ops, s, buf =>
      let (o, s, buf) := D.next s buf
      let (os, s, buf) := run ops s buf
      (o :: os, s, buf)

-- What has been reported does not depend on what comes behind it.
structure Incremental : Prop where
  got : ∀ s buf m s' buf' x, D.next s buf = (.got m, s', buf') → D.next s (buf ++ x) = (.got m, s', buf' ++ x)
  more : ∀ s buf s' buf' x, D.next s buf = (.more, s', buf') → D.next s (buf ++ x) = D.next s' (buf' ++ x)
  error : ∀ s buf s' buf' x, D.next s buf = (.error, s', buf') → ∃ s'' buf'', D.next s (buf ++ x) =
    (.error, s'', buf'')

-- The calls on this buffer report these messages and then ask for more.
inductive Yields : σ → List α → List μ → σ → List α → Prop
  | stop {s buf s' buf'} (h : D.next s buf = (.more, s', buf')) : Yields s buf [] s' buf'
  | step {s buf m s₁ buf₁ ms s' buf'} (h : D.next s buf = (.got m, s₁, buf₁)) (rest : Yields s₁ buf₁ ms s' buf') :
      Yields s buf (m :: ms) s' buf'

variable {D} {s s' s'' : σ} {buf buf' buf'' : List α} {ms ms' : List μ}

theorem Yields.stopped (hD : Incremental D) (h : Yields D s buf ms s' buf') : D.next s' buf' =
    (.more, s', buf') := by
  induction h with
  | stop h =>
      have hsame := hD.more _ _ _ _ [] h
      rw [List.append_nil, List.append_nil] at hsame
      rw [← hsame, h]
  | step _ _ ih => exact ih

theorem Yields.of_next {s₁ : σ} {buf₁ : List α} (h : D.next s buf = D.next s₁ buf₁)
    (hy : Yields D s₁ buf₁ ms s' buf') :
    Yields D s buf ms s' buf' := by
  cases hy with
  | stop hy => exact .stop (h.trans hy)
  | step hy rest => exact .step (h.trans hy) rest

-- However a buffer is cut into chunks and whenever the decoder is called, it reports
-- the messages of the whole in their order and never an error.
theorem run_yields (hD : Incremental D) (ops : List (Op α))
    (h : Yields D s (buf ++ ops.flatMap Op.chunk) ms s' buf') :
    ∃ left, (∀ o ∈ (D.run ops s buf).1, o ≠ .error) ∧ (D.run ops s buf).1.filterMap Outcome.message ++ left = ms ∧
      Yields D (D.run ops s buf).2.1 (D.run ops s buf).2.2 left s' buf' := by
  induction ops generalizing s buf ms with
  | nil => exact ⟨ms, by simp [run], by simp [run], by simpa [run] using h⟩
  | cons op ops ih =>
      cases op with
      | append chunk =>
          rw [List.flatMap_cons, ← List.append_assoc] at h
          exact ih h
      | call =>
          rw [List.flatMap_cons, Op.chunk, List.nil_append] at h
          have hrun : D.run (.call :: ops) s buf =
              ((D.next s buf).1 :: (D.run ops (D.next s buf).2.1 (D.next s buf).2.2).1,
            (D.run ops (D.next s buf).2.1 (D.next s buf).2.2).2) := rfl
          rw [hrun]
          generalize hnext : D.next s buf = r
          obtain ⟨o, s₁, buf₁⟩ := r
          dsimp only
          cases o with
          | error =>
              obtain ⟨s₂, buf₂, herror⟩ := hD.error _ _ _ _ (ops.flatMap Op.chunk) hnext
              cases h with
              | stop h =>
                  rw [herror] at h
                  cases h
              | step h _ =>
                  rw [herror] at h
                  cases h
          | more =>
              obtain ⟨left, hok, hms, hleft⟩ := ih (h.of_next (hD.more _ _ _ _ (ops.flatMap Op.chunk) hnext).symm)
              refine ⟨left, List.forall_mem_cons.mpr ⟨by simp, hok⟩, ?_, hleft⟩
              rw [List.filterMap_cons_none rfl]
              exact hms
          | got m =>
              have hgot := hD.got _ _ _ _ _ (ops.flatMap Op.chunk) hnext
              cases h with
              | stop h =>
                  rw [hgot] at h
                  cases h
              | step h rest =>
                  rw [hgot, Prod.mk.injEq, Prod.mk.injEq, Outcome.got.injEq] at h
                  obtain ⟨rfl, rfl, rfl⟩ := h
                  obtain ⟨left, hok, hms, hleft⟩ := ih rest
                  refine ⟨left, List.forall_mem_cons.mpr ⟨by simp, hok⟩, ?_, hleft⟩
                  exact congrArg (m :: ·) hms

-- Calls alone, one more than there are messages.
theorem run_calls (hD : Incremental D) (h : Yields D s buf ms s' buf') (n : Nat) :
    D.run (List.replicate (ms.length + n + 1) .call) s buf =
      (ms.map Outcome.got ++ List.replicate (n + 1) .more, s', buf') := by
  have hmore : ∀ n, D.run (List.replicate n .call) s' buf' = (List.replicate n .more, s', buf') := by
    intro n
    induction n with
    | zero => rfl
    | succ n ih =>
        rw [List.replicate_succ, List.replicate_succ, run, h.stopped hD]
        dsimp only
        rw [ih]
  induction h with
  | stop h =>
      rw [List.length_nil, Nat.zero_add, List.replicate_succ, run, h]
      dsimp only
      rw [hmore n]
      rfl
  | step h _ ih =>
      rw [List.length_cons, Nat.add_right_comm _ 1 n, List.replicate_succ, run, h]
      dsimp only
      rw [ih hmore]
      rfl

theorem run_append (ops ops' : List (Op α)) (s : σ) (buf : List α) :
    D.run (ops ++ ops') s buf =
      ((D.run ops s buf).1 ++ (D.run ops' (D.run ops s buf).2.1 (D.run ops s buf).2.2).1,
        (D.run ops' (D.run ops s buf).2.1 (D.run ops s buf).2.2).2) := by
  induction ops generalizing s buf with
  | nil => rfl
  | cons op ops ih =>
      cases op with
      | append chunk => exact ih s (buf ++ chunk)
      | call =>
          rw [List.cons_append, run, run]
          dsimp only
          rw [ih]
          rfl

-- With enough calls at the end everything is reported, and the last call asks for more.
theorem run_all (hD : Incremental D) (ops : List (Op α)) (h : Yields D s (buf ++ ops.flatMap Op.chunk) ms s' buf') :
    ∃ os, D.run (ops ++ List.replicate (ms.length + 1) .call) s buf = (os ++ [.more], s', buf') ∧
      (∀ o ∈ os, o ≠ .error) ∧ os.filterMap Outcome.message = ms := by
  obtain ⟨left, hok, hms, hleft⟩ := run_yields hD ops h
  obtain ⟨n, hn⟩ : ∃ n, ms.length = left.length + n := by
    refine Nat.exists_eq_add_of_le ?_
    rw [← hms, List.length_append]
    omega
  have hcalls := run_calls hD hleft n
  have hgot : (left.map Outcome.got).filterMap Outcome.message = left := by
    rw [List.filterMap_map]
    exact List.filterMap_some
  have hmore : (List.replicate n (Outcome.more : Outcome μ)).filterMap Outcome.message = [] := by
    rw [List.filterMap_eq_nil_iff]
    intro o ho
    rw [List.eq_of_mem_replicate ho]
    rfl
  refine ⟨(D.run ops s buf).1 ++ (left.map Outcome.got ++ List.replicate n .more), ?_, ?_, ?_⟩
  · rw [run_append, hn, hcalls, List.replicate_succ', List.append_assoc, List.append_assoc]
  · intro o ho
    simp only [List.mem_append, List.mem_map] at ho
    rcases ho with ho | ⟨m, -, rfl⟩ | ho
    · exact hok o ho
    · simp
    · rw [List.eq_of_mem_replicate ho]
      simp
  · rw [List.filterMap_append, List.filterMap_append, hgot, hmore, List.append_nil, hms]

section Messages

variable (D)

-- The messages in a buffer, up to the first call that reports none.
def messages : Nat → σ → List α → List μ
  | 0, _, _ => []
  | n + 1, s, buf =>
      match D.next s buf with
      | (.got m, s, buf) => m :: messages n s buf
      | (.more, _, _) => []
      | (.error, _, _) => []

def spoken (s : σ) (buf : List α) : List μ := D.messages (buf.length + 1) s buf

-- Every message takes some of the buffer, and a decoder that has failed fails again.
structure Draining : Prop where
  shrinks : ∀ s buf m s' buf', D.next s buf = (.got m, s', buf') → buf'.length < buf.length
  fails : ∀ s buf s' buf', D.next s buf = (.error, s', buf') → D.next s' buf' = (.error, s', buf')

variable {D}

theorem messages_fuel (hD : Draining D) (n k : Nat) (s : σ) (buf : List α) (hn : buf.length < n)
    (hk : buf.length < k) :
    D.messages n s buf = D.messages k s buf := by
  induction n generalizing s buf k with
  | zero => omega
  | succ n ih =>
      obtain ⟨k, rfl⟩ : ∃ j, k = j + 1 := ⟨k - 1, by omega⟩
      unfold messages
      rcases hnext : D.next s buf with ⟨o, s', buf'⟩
      cases o with
      | got m =>
          have hshort := hD.shrinks _ _ _ _ _ hnext
          exact congrArg (m :: ·) (ih k s' buf' (by omega) (by omega))
      | more => rfl
      | error => rfl

theorem spoken_got (hD : Draining D) {m : μ} (h : D.next s buf = (.got m, s', buf')) :
    D.spoken s buf = m :: D.spoken s' buf' := by
  have hshort := hD.shrinks _ _ _ _ _ h
  unfold spoken
  rw [messages, h]
  exact congrArg (m :: ·) (messages_fuel hD _ _ _ _ hshort (Nat.lt_succ_self _))

theorem spoken_silent {o : Outcome μ} (h : D.next s buf = (o, s', buf')) (ho : o.message = none) :
    D.spoken s buf = [] := by
  unfold spoken
  rw [messages, h]
  cases o with
  | got m => cases ho
  | more => rfl
  | error => rfl

theorem spoken_of_next (hD : Draining D) (h : D.next s buf = D.next s' buf') : D.spoken s buf =
    D.spoken s' buf' := by
  rcases hnext : D.next s' buf' with ⟨o, s₁, buf₁⟩
  cases o with
  | got m => rw [spoken_got hD hnext, spoken_got hD (h.trans hnext)]
  | more => rw [spoken_silent hnext rfl, spoken_silent (h.trans hnext) rfl]
  | error => rw [spoken_silent hnext rfl, spoken_silent (h.trans hnext) rfl]

-- What one call leaves of what the buffer says, whatever comes behind it.
theorem spoken_next (hI : Incremental D) (hD : Draining D) (s : σ) (buf x : List α) :
    D.spoken s (buf ++ x) = (D.next s buf).1.message.toList ++
      D.spoken (D.next s buf).2.1 ((D.next s buf).2.2 ++ x) := by
  rcases hnext : D.next s buf with ⟨o, s', buf'⟩
  cases o with
  | got m => exact spoken_got hD (hI.got _ _ _ _ _ x hnext)
  | more => exact spoken_of_next hD (hI.more _ _ _ _ x hnext)
  | error =>
      obtain ⟨s₁, buf₁, hfirst⟩ := hI.error _ _ _ _ x hnext
      obtain ⟨s₂, buf₂, hagain⟩ := hI.error _ _ _ _ x (hD.fails _ _ _ _ hnext)
      rw [spoken_silent hfirst rfl]
      exact (spoken_silent hagain rfl).symm

theorem Yields.spoken (hD : Draining D) (h : Yields D s buf ms s' buf') : D.spoken s buf = ms := by
  induction h with
  | stop h => exact spoken_silent h rfl
  | step h _ ih => rw [spoken_got hD h, ih]

end Messages

section Feeding

variable (D)

-- The messages in a buffer, whether an error ended them, and what the calls leave.
def drained : Nat → σ → List α → List μ × Bool × σ × List α
  | 0, s, buf => ([], false, s, buf)
  | n + 1, s, buf =>
      match D.next s buf with
      | (.got m, s, buf) =>
          let (ms, rest) := drained n s buf
          (m :: ms, rest)
      | (.more, s, buf) => ([], false, s, buf)
      | (.error, s, buf) => ([], true, s, buf)

def drain (s : σ) (buf : List α) : List μ × Bool × σ × List α := D.drained (buf.length + 1) s buf

-- Chunk after chunk, with calls after each until none reports a message; an error ends
-- it all.
def feed : σ → List α → List (List α) → List μ × Bool
  | _, _, [] => ([], false)
  | s, buf, chunk :: chunks =>
      match D.drain s (buf ++ chunk) with
      | (ms, true, _, _) => (ms, true)
      | (ms, false, s, buf) =>
          let (more, failed) := feed s buf chunks
          (ms ++ more, failed)

variable {D}

theorem drained_fuel (hD : Draining D) (n k : Nat) (s : σ) (buf : List α) (hn : buf.length < n)
    (hk : buf.length < k) :
    D.drained n s buf = D.drained k s buf := by
  induction n generalizing s buf k with
  | zero => omega
  | succ n ih =>
      obtain ⟨k, rfl⟩ : ∃ j, k = j + 1 := ⟨k - 1, by omega⟩
      unfold drained
      rcases hnext : D.next s buf with ⟨o, s', buf'⟩
      cases o with
      | got m =>
          have hshort := hD.shrinks _ _ _ _ _ hnext
          dsimp only
          rw [ih k s' buf' (by omega) (by omega)]
      | more => rfl
      | error => rfl

theorem drain_got (hD : Draining D) {m : μ} (h : D.next s buf = (.got m, s', buf')) :
    D.drain s buf = (m :: (D.drain s' buf').1, (D.drain s' buf').2) := by
  have hshort := hD.shrinks _ _ _ _ _ h
  unfold drain
  rw [drained, h]
  dsimp only
  rw [drained_fuel hD _ (buf'.length + 1) s' buf' hshort (Nat.lt_succ_self _)]

theorem drain_more (h : D.next s buf = (.more, s', buf')) : D.drain s buf = ([], false, s', buf') := by
  unfold drain
  rw [drained, h]

theorem drain_error (h : D.next s buf = (.error, s', buf')) : D.drain s buf = ([], true, s', buf') := by
  unfold drain
  rw [drained, h]

theorem drain_of_next (hD : Draining D) (h : D.next s buf = D.next s' buf') : D.drain s buf = D.drain s' buf' := by
  rcases hnext : D.next s' buf' with ⟨o, s₁, buf₁⟩
  cases o with
  | got m => rw [drain_got hD hnext, drain_got hD (h.trans hnext)]
  | more => rw [drain_more hnext, drain_more (h.trans hnext)]
  | error => rw [drain_error hnext, drain_error (h.trans hnext)]

-- What a buffer is drained to, it stays.
theorem drain_stopped (hI : Incremental D) (hD : Draining D) (s : σ) (buf : List α)
    (hok : (D.drain s buf).2.1 = false) :
    D.next (D.drain s buf).2.2.1 (D.drain s buf).2.2.2 = (.more, (D.drain s buf).2.2) := by
  induction hn : buf.length using Nat.strongRecOn generalizing s buf with
  | _ n ih =>
      rcases hnext : D.next s buf with ⟨o, s', buf'⟩
      cases o with
      | got m =>
          rw [drain_got hD hnext] at hok ⊢
          exact ih _ (hn ▸ hD.shrinks _ _ _ _ _ hnext) s' buf' hok rfl
      | more =>
          rw [drain_more hnext]
          have hsame := hI.more _ _ _ _ [] hnext
          rw [List.append_nil, List.append_nil] at hsame
          exact hsame.symm.trans hnext
      | error =>
          rw [drain_error hnext] at hok
          cases hok

-- Draining a longer buffer begins with draining the shorter one.
theorem drain_append (hI : Incremental D) (hD : Draining D) (s : σ) (buf x : List α) :
    ((D.drain s buf).2.1 = true →
      (D.drain s (buf ++ x)).1 = (D.drain s buf).1 ∧ (D.drain s (buf ++ x)).2.1 = true) ∧
    ((D.drain s buf).2.1 = false →
      D.drain s (buf ++ x) =
        ((D.drain s buf).1 ++ (D.drain (D.drain s buf).2.2.1 ((D.drain s buf).2.2.2 ++ x)).1,
          (D.drain (D.drain s buf).2.2.1 ((D.drain s buf).2.2.2 ++ x)).2)) := by
  induction hn : buf.length using Nat.strongRecOn generalizing s buf with
  | _ n ih =>
      rcases hnext : D.next s buf with ⟨o, s', buf'⟩
      cases o with
      | got m =>
          obtain ⟨hfailed, hok⟩ := ih _ (hn ▸ hD.shrinks _ _ _ _ _ hnext) s' buf' rfl
          rw [drain_got hD hnext, drain_got hD (hI.got _ _ _ _ _ x hnext)]
          refine ⟨fun h => ?_, fun h => ?_⟩
          · exact ⟨congrArg (m :: ·) (hfailed h).1, (hfailed h).2⟩
          · dsimp only
            rw [hok h]
            rfl
      | more =>
          rw [drain_more hnext, drain_of_next hD (hI.more _ _ _ _ x hnext)]
          exact ⟨nofun, fun _ => rfl⟩
      | error =>
          obtain ⟨s₁, buf₁, hlong⟩ := hI.error _ _ _ _ x hnext
          rw [drain_error hnext, drain_error hlong]
          exact ⟨fun _ => ⟨rfl, rfl⟩, nofun⟩

-- The messages and the verdict are those of the whole stream, however it is cut.
theorem feed_eq (hI : Incremental D) (hD : Draining D) (s : σ) (buf : List α) (chunks : List (List α))
    (hstopped : D.next s buf = (.more, s, buf)) :
    D.feed s buf chunks = ((D.drain s (buf ++ chunks.flatten)).1, (D.drain s (buf ++ chunks.flatten)).2.1) := by
  induction chunks generalizing s buf with
  | nil => rw [List.flatten_nil, List.append_nil, drain_more hstopped, feed]
  | cons chunk chunks ih =>
      obtain ⟨hfailed, hok⟩ := drain_append hI hD s (buf ++ chunk) chunks.flatten
      have hstop := drain_stopped hI hD s (buf ++ chunk)
      rw [List.flatten_cons, ← List.append_assoc, feed]
      rcases hdrain : D.drain s (buf ++ chunk) with ⟨ms, failed, s', buf'⟩
      rw [hdrain] at hfailed hok hstop
      cases failed with
      | true =>
          dsimp only
          rw [(hfailed rfl).1, (hfailed rfl).2]
      | false =>
          dsimp only
          rw [hok rfl, ih s' buf' (hstop rfl)]

end Feeding

end Decoder

end TetherDesk.Lib
