import Mathlib.Data.List.Basic

namespace TetherDesk.Lib.Transition

structure System (σ ε : Type*) where
  init : σ → Prop
  step : σ → ε → σ → Prop

-- A run with the steps taken so far: each event with the state it found.
inductive Run {σ ε : Type*} (S : System σ ε) : List (σ × ε) → σ → Prop
  | start {s : σ} (h : S.init s) : Run S [] s
  | next {past : List (σ × ε)} {s t : σ} {e : ε} (run : Run S past s) (h : S.step s e t) :
      Run S (past ++ [(s, e)]) t

section Functions

variable {σ ε : Type*} (init : σ → Prop) (f : σ → ε → σ)

-- A system in which every event has exactly one outcome.
def ofFunction : System σ ε := ⟨init, fun s e t => t = f s e⟩

def history (s : σ) : List ε → List (σ × ε)
  | [] => []
  | e :: es => (s, e) :: history (f s e) es

theorem run_append {past : List (σ × ε)} {s : σ} (run : Run (ofFunction init f) past s) (es : List ε) :
    Run (ofFunction init f) (past ++ history f s es) (es.foldl f s) := by
  induction es generalizing past s with
  | nil => simpa [history] using run
  | cons e es ih =>
      have hnext : Run (ofFunction init f) (past ++ [(s, e)]) (f s e) := .next run rfl
      simpa [history] using ih hnext

theorem run_events {s : σ} (h : init s) (es : List ε) :
    Run (ofFunction init f) (history f s es) (es.foldl f s) := by
  simpa using run_append init f (.start h) es

-- The same events in a system that takes these steps.
theorem run_history {S : System σ ε} {past : List (σ × ε)} {s : σ} (run : Run S past s) (es : List ε)
    (h : ∀ p ∈ history f s es, S.step p.1 p.2 (f p.1 p.2)) : Run S (past ++ history f s es) (es.foldl f s) := by
  induction es generalizing past s with
  | nil => simpa [history] using run
  | cons e es ih =>
      rw [history, List.forall_mem_cons] at h
      simpa [history] using ih (.next run h.1) h.2

-- A countdown: events that count take one off what is left.
theorem history_countdown (counts : σ × ε → Bool) (P : Nat → σ → Prop) {es : List ε}
    (hkeep : ∀ n s, ∀ e ∈ es, P n s → counts (s, e) = false → P n (f s e))
    (hcount : ∀ n s, ∀ e ∈ es, P n s → counts (s, e) = true → P (n - 1) (f s e)) {n : Nat} {s : σ} (h : P n s) :
    P (n - (history f s es).countP counts) (es.foldl f s) := by
  induction es generalizing n s with
  | nil => exact h
  | cons e es ih =>
      have hrest := fun {n s} => ih (n := n) (s := s) (fun n s e he => hkeep n s e (List.mem_cons_of_mem _ he))
        fun n s e he => hcount n s e (List.mem_cons_of_mem _ he)
      rw [history, List.countP_cons, List.foldl_cons]
      cases hcounts : counts (s, e) with
      | false => simpa using hrest (hkeep n s e List.mem_cons_self h hcounts)
      | true =>
          have hnext := hrest (hcount n s e List.mem_cons_self h hcounts)
          rwa [Nat.sub_sub, Nat.add_comm 1] at hnext

end Functions

section States

variable {σ ε : Type*} {past : List (σ × ε)} {s t : σ} {e : ε}

-- The states of a run, the last one included.
def statesOf (past : List (σ × ε)) (s : σ) : List σ := past.map Prod.fst ++ [s]

theorem statesOf_next : statesOf (past ++ [(s, e)]) t = statesOf past s ++ [t] := by
  unfold statesOf
  rw [List.map_append]
  rfl

theorem statesOf_some {k : Nat} {s₀ : σ} (h : (statesOf past s)[k]? = some s₀) :
    (statesOf (past ++ [(s, e)]) t)[k]? = some s₀ := by
  rw [statesOf_next, List.getElem?_append_left (List.getElem?_eq_some_iff.mp h).1]
  exact h

theorem statesOf_length : (statesOf past s).length = past.length + 1 := by simp [statesOf]

theorem statesOf_last : (statesOf past s)[past.length]? = some s := by simp [statesOf]

end States

-- The run of a list of events where each has at most one outcome, and the guard that
-- its steps meet.
theorem run_foldlM {σ ε : Type} {S : System σ ε} (f : σ → ε → Option σ) (guard : σ → ε → Prop)
    (hf : ∀ s e t, f s e = some t → S.step s e t ∧ guard s e)
    (es : List ε) {past : List (σ × ε)} {s t : σ} (run : Run S past s) (h : es.foldlM f s = some t) :
    ∃ more, Run S (past ++ more) t ∧ more.map Prod.snd = es ∧ (statesOf more t)[0]? = some s ∧
        ∀ p ∈ more, guard p.1 p.2 := by
  induction es generalizing past s with
  | nil =>
      obtain rfl := Option.some.inj h
      exact ⟨[], by simpa using run, rfl, rfl, by simp⟩
  | cons e es ih =>
      rw [List.foldlM_cons] at h
      obtain ⟨u, hu, h⟩ := Option.bind_eq_some_iff.mp h
      obtain ⟨hstep, hguard⟩ := hf s e u hu
      obtain ⟨more, hrun, hmore, -, hguards⟩ := ih (.next run hstep) h
      exact ⟨(s, e) :: more, by simpa using hrun, by simp [hmore], rfl, List.forall_mem_cons.mpr ⟨hguard, hguards⟩⟩

section

variable {σ ε : Type*} {S : System σ ε} {past : List (σ × ε)} {s : σ}

-- A property of history and state that every step meeting the guard keeps.
theorem Run.guarded (run : Run S past s) (guard : σ → ε → Prop) (P : List (σ × ε) → σ → Prop)
    (hinit : ∀ s, S.init s → P [] s)
    (hstep : ∀ past s e t, P past s → guard s e → S.step s e t → P (past ++ [(s, e)]) t)
    (hguard : ∀ p ∈ past, guard p.1 p.2) : P past s := by
  induction run with
  | start h => exact hinit _ h
  | next _ h ih =>
      have hlast := hguard _ (List.mem_append_right _ List.mem_cons_self)
      exact hstep _ _ _ _ (ih fun p hp => hguard p (List.mem_append_left _ hp)) hlast h

theorem Run.invariant (run : Run S past s) (P : List (σ × ε) → σ → Prop)
    (hinit : ∀ s, S.init s → P [] s)
    (hstep : ∀ past s e t, P past s → S.step s e t → P (past ++ [(s, e)]) t) : P past s :=
  run.guarded (fun _ _ => True) P hinit (fun past s e t h _ => hstep past s e t h)
    fun _ _ => trivial

-- The part of a run before one of its steps is a run up to that step.
theorem Run.before {past more : List (σ × ε)} {t : σ} {e : ε}
    (run : Run S (past ++ (t, e) :: more) s) : Run S past t := by
  generalize hall : past ++ (t, e) :: more = all at run
  induction run generalizing more with
  | start h => simp at hall
  | @next past' t' u e' run h ih =>
      rcases List.eq_nil_or_concat more with rfl | ⟨more', last, rfl⟩
      · obtain ⟨rfl, hlast⟩ := List.append_inj' hall rfl
        rw [List.cons.injEq, Prod.mk.injEq] at hlast
        rwa [hlast.1.1]
      · rw [List.concat_eq_append, ← List.cons_append, ← List.append_assoc] at hall
        exact ih (List.append_inj' hall rfl).1

end

end TetherDesk.Lib.Transition
