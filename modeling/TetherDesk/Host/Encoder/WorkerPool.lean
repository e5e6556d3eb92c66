import Mathlib.Algebra.Order.BigOperators.Group.Finset
import Mathlib.Data.Fintype.Card
import TetherDesk.Lib.Transition

namespace TetherDesk.Host

open TetherDesk.Lib.Transition

-- Where a worker stands in worker_main: in front of the predicate of cv_start_, in its
-- wait, in front of the call of its job, or in front of the count. A job is the number of
-- the run_all that published it, none the null pointer.
inductive Phase
  | ready
  | asleep
  | running (job : Option Nat)
  | finishing
  | exited
  deriving DecidableEq

structure Worker where
  phase : Phase
  seen : UInt64

-- Where the thread that owns the pool stands: in run_all after its first section, after
-- notify_all, in front of the predicate of cv_done_ or in its wait; in the destructor
-- the same way.
inductive Caller
  | idle
  | published
  | notified
  | ran
  | waiting
  | stopping
  | stopped
  | joined
  deriving DecidableEq

def Caller.inCall : Caller → Bool
  | .published | .notified | .ran | .waiting => true
  | _ => false

-- The caller's own call of the job is still to come.
def Caller.owes : Caller → Bool
  | .published | .notified => true
  | _ => false

def Caller.quits : Caller → Bool
  | .stopping | .stopped | .joined => true
  | _ => false

-- calls counts the calls of run_all; log holds the invocations of their jobs, by the
-- caller or by a worker.
structure WorkerPool (threads : UInt32) where
  job : Option Nat
  generation : UInt64
  pending : UInt32
  quit : Bool
  worker : Fin threads.toNat → Worker
  caller : Caller
  calls : Nat
  log : List (Option Nat × Option (Fin threads.toNat))

-- Each section under the mutex, each notify_all behind one, each invocation; a wait ends
-- at any time.
inductive PoolEvent (threads : UInt32)
  | publish
  | notifyAll
  | runCaller
  | await
  | wakeCaller
  | quit
  | notifyQuit
  | join
  | check (i : Fin threads.toNat)
  | wake (i : Fin threads.toNat)
  | run (i : Fin threads.toNat)
  | finish (i : Fin threads.toNat)

def Worker.woken (w : Worker) : Worker :=
  match w.phase with
  | .asleep => { w with phase := .ready }
  | _ => w

-- It has yet to count itself off for this generation.
def Worker.Owes (generation : UInt64) (w : Worker) : Prop :=
  match w.phase with
  | .running _ | .finishing => True
  | _ => w.seen ≠ generation

-- It has invoked the job of this generation.
def Worker.Invoked (generation : UInt64) (w : Worker) : Prop :=
  match w.phase with
  | .running _ => False
  | _ => w.seen = generation

instance (generation : UInt64) : DecidablePred (Worker.Owes generation) := fun w => by
  unfold Worker.Owes
  split <;> infer_instance

instance (generation : UInt64) : DecidablePred (Worker.Invoked generation) := fun w => by
  unfold Worker.Invoked
  split <;> infer_instance

-- What is left of a call: the caller's steps up to its wait, and each worker's steps up
-- to its count.
def Caller.left : Caller → Nat
  | .published => 2
  | .notified => 1
  | _ => 0

def Worker.left (generation : UInt64) (w : Worker) : Nat :=
  match w.phase with
  | .running _ => 2
  | .finishing => 1
  | _ => if w.seen = generation then 0 else 3

namespace WorkerPool

variable {threads : UInt32}

def start (threads : UInt32) : WorkerPool threads where
  job := none
  generation := 0
  pending := 0
  quit := false
  worker _ := ⟨.ready, 0⟩
  caller := .idle
  calls := 0
  log := []

def setWorker (s : WorkerPool threads) (i : Fin threads.toNat) (w : Worker) : WorkerPool threads :=
  { s with worker := Function.update s.worker i w }

theorem setWorker_worker (s : WorkerPool threads) (i j : Fin threads.toNat) (w : Worker) :
    (s.setWorker i w).worker j = if j = i then w else s.worker j := Function.update_apply ..

@[simp] theorem setWorker_generation (s : WorkerPool threads) (i : Fin threads.toNat) (w : Worker) :
    (s.setWorker i w).generation = s.generation := rfl

-- The section that waits for cv_start_.
def check (s : WorkerPool threads) (w : Worker) : Worker :=
  if s.quit ∨ s.generation ≠ w.seen then
    if s.quit then { w with phase := .exited } else ⟨.running s.job, s.generation⟩
  else { w with phase := .asleep }

-- The section that counts a worker off.
def countOff (s : WorkerPool threads) : WorkerPool threads :=
  let s := { s with pending := s.pending - 1 }
  if s.pending = 0 ∧ s.caller = .waiting then { s with caller := .ran } else s

def step (s : WorkerPool threads) : PoolEvent threads → Option (WorkerPool threads)
  | .publish => if s.caller = .idle then
      some { s with job := some (s.calls + 1), pending := threads, generation := s.generation + 1,
                    caller := .published, calls := s.calls + 1 }
    else none
  | .notifyAll => if s.caller = .published then
      some { s with worker := fun i => (s.worker i).woken, caller := .notified }
    else none
  | .runCaller => if s.caller = .notified then
      some { s with caller := .ran, log := (some s.calls, none) :: s.log }
    else none
  | .await => if s.caller = .ran then some { s with caller := if s.pending = 0 then .idle else .waiting } else none
  | .wakeCaller => if s.caller = .waiting then some { s with caller := .ran } else none
  | .quit => if s.caller = .idle then some { s with quit := true, caller := .stopping } else none
  | .notifyQuit => if s.caller = .stopping then
      some { s with worker := fun i => (s.worker i).woken, caller := .stopped }
    else none
  | .join => if s.caller = .stopped ∧ ∀ i, (s.worker i).phase = .exited then
      some { s with caller := .joined }
    else none
  | .check i => match (s.worker i).phase with
      | .ready => some (s.setWorker i (s.check (s.worker i)))
      | _ => none
  | .wake i => match (s.worker i).phase with
      | .asleep => some (s.setWorker i (s.worker i).woken)
      | _ => none
  | .run i => match (s.worker i).phase with
      | .running job =>
          some { s.setWorker i { s.worker i with phase := .finishing } with log := (job, some i) :: s.log }
      | _ => none
  | .finish i => match (s.worker i).phase with
      | .finishing => some (s.countOff.setWorker i { s.worker i with phase := .ready })
      | _ => none

def system (threads : UInt32) : System (WorkerPool threads) (PoolEvent threads) where
  init s := s = start threads
  step s e t := s.step e = some t

def owing (s : WorkerPool threads) : Finset (Fin threads.toNat) :=
  Finset.univ.filter fun i => (s.worker i).Owes s.generation

-- How often the caller or a worker has invoked the job of the last call, and any job.
def current (s : WorkerPool threads) : Option (Fin threads.toNat) → Nat
  | none => if s.caller.owes then 0 else 1
  | some i => if (s.worker i).Invoked s.generation then 1 else 0

def invocations (s : WorkerPool threads) (p : Option (Fin threads.toNat)) : Option Nat → Nat
  | none => 0
  | some k => if k = 0 ∨ s.calls < k then 0 else if k < s.calls then 1 else s.current p

-- What a phase says: a worker that has not seen the generation yet is not in its wait
-- once notify_all is done.
def PhaseOk (s : WorkerPool threads) (w : Worker) : Prop :=
  match w.phase with
  | .ready => w.seen = s.generation ∨ w.seen + 1 = s.generation ∧ s.caller.inCall = true
  | .asleep => w.seen = s.generation ∨ w.seen + 1 = s.generation ∧ s.caller = .published
  | .running job => w.seen = s.generation ∧ s.caller.inCall = true ∧ job = s.job
  | .finishing => w.seen = s.generation ∧ s.caller.inCall = true
  | .exited => w.seen = s.generation ∧ s.quit = true

structure Sound (s : WorkerPool threads) : Prop where
  quit : s.quit = s.caller.quits
  job : s.caller.inCall = true → s.job = some s.calls ∧ s.calls ≠ 0
  worker : ∀ i, s.PhaseOk (s.worker i)
  pending : s.pending.toNat = s.owing.card
  waiting : s.caller = .waiting → s.pending ≠ 0
  log : ∀ job p, s.log.count (job, p) = s.invocations p job

theorem start_sound (threads : UInt32) : (start threads).Sound where
  quit := rfl
  job := nofun
  worker _ := .inl rfl
  pending := by
    have hnone : (start threads).owing = ∅ := Finset.filter_eq_empty_iff.mpr fun i _ howes => howes rfl
    rw [hnone]
    rfl
  waiting := nofun
  log job p := by
    cases job with
    | none => rfl
    | some k =>
        have hzero : k = 0 ∨ (start threads).calls < k := by
          have hcalls : (start threads).calls = 0 := rfl
          omega
        rw [invocations, if_pos hzero]
        rfl

theorem woken_owes (g : UInt64) (w : Worker) : w.woken.Owes g ↔ w.Owes g := by
  obtain ⟨phase, seen⟩ := w
  cases phase <;> exact Iff.rfl

theorem woken_invoked (g : UInt64) (w : Worker) : w.woken.Invoked g ↔ w.Invoked g := by
  obtain ⟨phase, seen⟩ := w
  cases phase <;> exact Iff.rfl

theorem succ_ne (x : UInt64) : x ≠ x + 1 := by
  intro h
  have hnat := congrArg UInt64.toNat h
  have hlt := x.toNat_lt
  rw [UInt64.toNat_add] at hnat
  change x.toNat = (x.toNat + 1) % 2 ^ 64 at hnat
  omega

section Facts

variable {s : WorkerPool threads} (h : s.Sound)
include h

-- Outside run_all every worker has counted itself off.
theorem Sound.seen (hidle : s.caller.inCall = false) (i : Fin threads.toNat) :
    (s.worker i).seen = s.generation ∧ ¬ (s.worker i).Owes s.generation ∧ (s.worker i).Invoked s.generation := by
  have hw := h.worker i
  have hpub : s.caller ≠ .published := by
    intro hc
    rw [hc] at hidle
    cases hidle
  unfold PhaseOk at hw
  unfold Worker.Owes Worker.Invoked
  cases hphase : (s.worker i).phase <;> rw [hphase] at hw <;> simp_all

theorem Sound.not_owes (hzero : s.pending = 0) (i : Fin threads.toNat) : ¬ (s.worker i).Owes s.generation := by
  have hcard := h.pending
  rw [hzero] at hcard
  have hempty : s.owing = ∅ := Finset.card_eq_zero.mp hcard.symm
  exact Finset.filter_eq_empty_iff.mp hempty (Finset.mem_univ i)

theorem Sound.pending_ne {i : Fin threads.toNat} (howes : (s.worker i).Owes s.generation) : s.pending ≠ 0 :=
  fun hzero => h.not_owes hzero i howes

end Facts

section Steps

variable {s : WorkerPool threads}

-- The caller goes on within run_all, or within the destructor.
theorem Sound.goOn (h : s.Sound) (c : Caller) (hcall : c.inCall = s.caller.inCall) (howes : c.owes = s.caller.owes)
    (hquits : c.quits = s.caller.quits) (hpub : s.caller ≠ .published) (hwait : c = .waiting → s.pending ≠ 0) :
    ({ s with caller := c } : WorkerPool threads).Sound where
  quit := h.quit.trans hquits.symm
  job hc := h.job (hcall ▸ hc)
  worker i := by
    have hw := h.worker i
    unfold PhaseOk at hw ⊢
    cases hphase : (s.worker i).phase <;> rw [hphase] at hw <;> simp_all
  pending := h.pending
  waiting := hwait
  log job p := by
    rw [h.log]
    have hcurrent : s.current p = ({ s with caller := c } : WorkerPool threads).current p := by
      cases p with
      | none => rw [current, current, howes]
      | some i => rfl
    unfold invocations
    rw [hcurrent]

theorem owing_set {i : Fin threads.toNat} {w : Worker}
    (hsame : w.Owes s.generation ↔ (s.worker i).Owes s.generation) :
    (s.setWorker i w).owing = s.owing := by
  refine Finset.filter_congr fun j _ => ?_
  rw [setWorker_worker, setWorker_generation]
  split_ifs with hj
  · rw [hj, hsame]
  · rfl

theorem current_set {i : Fin threads.toNat} {w : Worker}
    (hsame : w.Invoked s.generation ↔ (s.worker i).Invoked s.generation)
    (p : Option (Fin threads.toNat)) : (s.setWorker i w).current p = s.current p := by
  cases p with
  | none => rfl
  | some j =>
      unfold current
      dsimp only
      rw [setWorker_worker, setWorker_generation]
      by_cases hj : j = i
      · rw [if_pos hj, hj]
        exact if_congr hsame rfl rfl
      · rw [if_neg hj]

-- A worker goes on without invoking its job or counting itself off.
theorem Sound.set (h : s.Sound) {i : Fin threads.toNat} {w : Worker} (hok : s.PhaseOk w)
    (howes : w.Owes s.generation ↔ (s.worker i).Owes s.generation)
    (hinvoked : w.Invoked s.generation ↔ (s.worker i).Invoked s.generation) : (s.setWorker i w).Sound where
  quit := h.quit
  job := h.job
  worker j := by
    rw [setWorker_worker]
    split_ifs
    · exact hok
    · exact h.worker j
  pending := by
    rw [owing_set howes]
    exact h.pending
  waiting := h.waiting
  log job p := by
    have hcurrent := current_set hinvoked p
    rw [show (s.setWorker i w).log = s.log from rfl, h.log]
    unfold invocations
    rw [hcurrent]
    rfl

-- notify_all wakes the workers that are in their wait.
theorem Sound.wakeAll (h : s.Sound) (c : Caller) (hcall : c.inCall = s.caller.inCall)
    (howes : c.owes = s.caller.owes)
    (hquits : c.quits = s.caller.quits) (hwait : c ≠ .waiting) :
    ({ s with worker := fun i => (s.worker i).woken, caller := c } : WorkerPool threads).Sound where
  quit := h.quit.trans hquits.symm
  job hc := h.job (hcall ▸ hc)
  worker i := by
    have hw := h.worker i
    have hpub : s.caller = .published → c.inCall = true := fun hc => by rw [hcall, hc]; rfl
    dsimp only
    generalize s.worker i = w at hw ⊢
    obtain ⟨phase, seen⟩ := w
    cases phase with
    | ready => exact hw.imp_right fun hlate => ⟨hlate.1, hcall.trans hlate.2⟩
    | asleep => exact hw.imp_right fun hlate => ⟨hlate.1, hpub hlate.2⟩
    | running job => exact ⟨hw.1, hcall.trans hw.2.1, hw.2.2⟩
    | finishing => exact ⟨hw.1, hcall.trans hw.2⟩
    | exited => exact hw
  pending := by
    have hsame : ({ s with worker := fun i => (s.worker i).woken, caller := c } : WorkerPool threads).owing =
        s.owing :=
      Finset.filter_congr fun i _ => woken_owes s.generation (s.worker i)
    rw [hsame]
    exact h.pending
  waiting hc := absurd hc hwait
  log job p := by
    rw [h.log]
    have hcurrent : s.current p =
        ({ s with worker := fun i => (s.worker i).woken, caller := c } : WorkerPool threads).current p := by
      cases p with
      | none => rw [current, current, howes]
      | some i => simp [current, woken_invoked]
    unfold invocations
    rw [hcurrent]

-- run_all publishes its job to workers that have all finished the one before.
theorem Sound.publish (h : s.Sound) (hidle : s.caller = .idle) :
    ({ s with job := some (s.calls + 1), pending := threads, generation := s.generation + 1, caller := .published,
              calls := s.calls + 1 } : WorkerPool threads).Sound where
  quit := by
    have hquit := h.quit
    rw [hidle] at hquit
    exact hquit
  job _ := ⟨rfl, Nat.succ_ne_zero _⟩
  worker i := by
    have hin : s.caller.inCall = false := by rw [hidle]; rfl
    have hquits : s.quit = false := by rw [h.quit, hidle]; rfl
    have hw := h.worker i
    unfold PhaseOk at hw ⊢
    cases hphase : (s.worker i).phase <;> rw [hphase] at hw <;> simp_all [Caller.inCall]
  pending := by
    have hin : s.caller.inCall = false := by rw [hidle]; rfl
    have hall : ({ s with job := some (s.calls + 1), pending := threads, generation := s.generation + 1,
                          caller := .published, calls := s.calls + 1 } : WorkerPool threads).owing =
                            Finset.univ := by
      refine Finset.filter_true_of_mem fun i _ => ?_
      obtain ⟨hseen, hnot, -⟩ := h.seen hin i
      have hne : (s.worker i).seen ≠ s.generation + 1 := hseen ▸ succ_ne _
      unfold Worker.Owes at hnot ⊢
      cases hphase : (s.worker i).phase <;> rw [hphase] at hnot <;> simp_all
    rw [hall, Finset.card_univ, Fintype.card_fin]
  waiting := nofun
  log job p := by
    have hin : s.caller.inCall = false := by rw [hidle]; rfl
    rw [h.log]
    cases job with
    | none => rfl
    | some k =>
        have hbefore : s.current p = 1 := by
          cases p with
          | none => simp [current, hidle, Caller.owes]
          | some i => simp [current, (h.seen hin i).2.2]
        have hafter : ({ s with job := some (s.calls + 1), pending := threads, generation := s.generation + 1,
                                caller := .published, calls := s.calls + 1 } : WorkerPool threads).current p =
                                  0 := by
          cases p with
          | none => rfl
          | some i =>
              obtain ⟨hseen, -, -⟩ := h.seen hin i
              have hne : (s.worker i).seen ≠ s.generation + 1 := hseen ▸ succ_ne _
              have hnot : ¬ (s.worker i).Invoked (s.generation + 1) := by
                unfold Worker.Invoked
                split
                · exact id
                · exact hne
              simp [current, hnot]
        unfold invocations
        rw [hbefore, hafter]
        dsimp only
        split_ifs <;> omega

theorem Sound.runCaller (h : s.Sound) (hc : s.caller = .notified) :
    ({ s with caller := .ran, log := (some s.calls, none) :: s.log } : WorkerPool threads).Sound where
  quit := by
    have hquit := h.quit
    rw [hc] at hquit
    exact hquit
  job _ := h.job (by rw [hc]; rfl)
  worker i := by
    have hw := h.worker i
    unfold PhaseOk at hw ⊢
    cases hphase : (s.worker i).phase <;> rw [hphase] at hw <;> simp_all [Caller.inCall]
  pending := h.pending
  waiting := nofun
  log job p := by
    have hcalls := (h.job (by rw [hc]; rfl)).2
    rw [List.count_cons, h.log]
    cases job with
    | none => rfl
    | some k =>
        have hcurrent : ({ s with caller := .ran, log := (some s.calls, none) :: s.log } : WorkerPool
            threads).current p =
            s.current p + if p = none then 1 else 0 := by
          cases p with
          | none => simp [current, hc, Caller.owes]
          | some i => rfl
        unfold invocations
        rw [hcurrent]
        by_cases hk : k = s.calls
        · cases p <;> simp_all
        · have hother : ((some s.calls, (none : Option (Fin threads.toNat))) == (some k, p)) = false := by
            simp [Ne.symm hk]
          rw [hother, if_neg Bool.false_ne_true, Nat.add_zero]
          dsimp only
          split_ifs
          · rfl
          · rfl
          · omega
          · omega

-- The end of a run_all: no worker is left with its job.
theorem Sound.return (h : s.Sound) (hc : s.caller = .ran) (hzero : s.pending = 0) :
    ({ s with caller := .idle } : WorkerPool threads).Sound where
  quit := by
    have hquit := h.quit
    rw [hc] at hquit
    exact hquit
  job := nofun
  worker i := by
    have hw := h.worker i
    have hnot := h.not_owes hzero i
    unfold Worker.Owes at hnot
    unfold PhaseOk at hw ⊢
    cases hphase : (s.worker i).phase <;> rw [hphase] at hw hnot <;> simp_all
  pending := h.pending
  waiting := nofun
  log job p := by
    rw [h.log]
    have hcurrent : s.current p = ({ s with caller := .idle } : WorkerPool threads).current p := by
      cases p with
      | none => simp [current, hc, Caller.owes]
      | some i => rfl
    unfold invocations
    rw [hcurrent]

theorem Sound.stop (h : s.Sound) (hidle : s.caller = .idle) :
    ({ s with quit := true, caller := .stopping } : WorkerPool threads).Sound where
  quit := rfl
  job := nofun
  worker i := by
    have hw := h.worker i
    unfold PhaseOk at hw ⊢
    cases hphase : (s.worker i).phase <;> rw [hphase] at hw <;> simp_all [Caller.inCall]
  pending := h.pending
  waiting := nofun
  log job p := by
    rw [h.log]
    have hcurrent : s.current p =
        ({ s with quit := true, caller := .stopping } : WorkerPool threads).current p := by
      cases p with
      | none => simp [current, hidle, Caller.owes]
      | some i => rfl
    unfold invocations
    rw [hcurrent]

-- A worker in front of the predicate leaves, takes the job of a new generation, or goes
-- to its wait.
theorem Sound.check (h : s.Sound) {i : Fin threads.toNat} (hphase : (s.worker i).phase = .ready) :
    (s.setWorker i (s.check (s.worker i))).Sound := by
  have hw := h.worker i
  have hquit := h.quit
  generalize hworker : s.worker i = w at hw hphase ⊢
  obtain ⟨phase, seen⟩ := w
  dsimp only at hphase
  subst hphase
  change seen = s.generation ∨ seen + 1 = s.generation ∧ s.caller.inCall = true at hw
  have hcall : s.quit = true → s.caller.inCall = false := by
    rw [hquit]
    cases s.caller <;> simp [Caller.inCall, Caller.quits]
  unfold WorkerPool.check
  split_ifs with hgo hleave
  · have hseen : seen = s.generation := by
      rcases hw with hseen | ⟨-, hin⟩
      · exact hseen
      · rw [hcall hleave] at hin; cases hin
    exact h.set ⟨hseen, hleave⟩ (by rw [hworker]; exact Iff.rfl) (by rw [hworker]; exact Iff.rfl)
  · have hnew : seen ≠ s.generation := by
      rcases hgo with hq | hne
      · exact absurd hq hleave
      · exact Ne.symm hne
    have hin : s.caller.inCall = true := (hw.resolve_left hnew).2
    refine h.set ⟨rfl, hin, rfl⟩ ?_ ?_
    · rw [hworker]
      exact iff_of_true trivial hnew
    · rw [hworker]
      exact iff_of_false id hnew
  · have hseen : seen = s.generation := by
      by_contra hne
      exact hgo (.inr (Ne.symm hne))
    exact h.set (.inl hseen) (by rw [hworker]; exact Iff.rfl) (by rw [hworker]; exact Iff.rfl)

theorem Sound.wake (h : s.Sound) {i : Fin threads.toNat} : (s.setWorker i (s.worker i).woken).Sound := by
  refine h.set ?_ (woken_owes _ _) (woken_invoked _ _)
  have hw := h.worker i
  generalize s.worker i = w at hw ⊢
  obtain ⟨phase, seen⟩ := w
  cases phase with
  | asleep => exact hw.imp_right fun hlate => ⟨hlate.1, by rw [hlate.2]; rfl⟩
  | ready => exact hw
  | running job => exact hw
  | finishing => exact hw
  | exited => exact hw

theorem Sound.runJob (h : s.Sound) {i : Fin threads.toNat} {job : Option Nat}
    (hphase : (s.worker i).phase = .running job) :
    ({ s.setWorker i { s.worker i with phase := .finishing } with log := (job, some i) :: s.log } :
      WorkerPool threads).Sound := by
  have hw := h.worker i
  unfold PhaseOk at hw
  rw [hphase] at hw
  obtain ⟨hseen, hin, hjob⟩ := hw
  obtain ⟨hpublished, hcalls⟩ := h.job hin
  rw [hpublished] at hjob
  subst hjob
  have hset := fun j => s.setWorker_worker i j { s.worker i with phase := .finishing }
  refine ⟨h.quit, h.job, ?_, ?_, h.waiting, ?_⟩
  · intro j
    dsimp only
    rw [hset]
    split_ifs
    · exact ⟨hseen, hin⟩
    · exact h.worker j
  · have howes : ({ s.worker i with phase := .finishing } : Worker).Owes s.generation ↔
        (s.worker i).Owes s.generation := by
      unfold Worker.Owes
      rw [hphase]
    exact h.pending.trans (congrArg Finset.card (owing_set howes).symm)
  · intro job p
    rw [List.count_cons, h.log]
    cases job with
    | none => rfl
    | some k =>
        have hcurrent : ({ s.setWorker i { s.worker i with phase := .finishing } with
            log := (some s.calls, some i) :: s.log } :
            WorkerPool threads).current p = s.current p + if p = some i then 1 else 0 := by
          cases p with
          | none => rfl
          | some j =>
              unfold current
              dsimp only
              rw [hset, setWorker_generation]
              by_cases hj : j = i
              · subst hj
                have hnot : ¬ (s.worker j).Invoked s.generation := by
                  unfold Worker.Invoked
                  rw [hphase]
                  exact id
                have hdone : ({ s.worker j with phase := .finishing } : Worker).Invoked s.generation := hseen
                rw [if_pos rfl, if_neg hnot, if_pos hdone, if_pos rfl]
              · have hp : some j ≠ some i := fun heq => hj (Option.some.inj heq)
                rw [if_neg hj, if_neg hp, Nat.add_zero]
        unfold invocations
        rw [hcurrent]
        by_cases hk : k = s.calls
        · subst hk
          by_cases hp : p = some i
          · simp [hp, hcalls, setWorker]
          · simp [hp, Ne.symm hp, hcalls, setWorker]
        · have hother : ((some s.calls, some i) == (some k, p)) = false := by
            simp [Ne.symm hk]
          rw [hother, if_neg Bool.false_ne_true, Nat.add_zero]
          change (if k = 0 ∨ s.calls < k then 0 else if k < s.calls then 1 else _) =
            if k = 0 ∨ s.calls < k then 0 else if k < s.calls then 1 else _
          split_ifs
          · rfl
          · rfl
          · omega
          · omega

theorem mem_owing {i : Fin threads.toNat} : i ∈ s.owing ↔ (s.worker i).Owes s.generation := by
  rw [owing, Finset.mem_filter, and_iff_right (Finset.mem_univ i)]

theorem owing_erase {i : Fin threads.toNat} {w : Worker} (hdone : ¬ w.Owes s.generation) :
    (s.setWorker i w).owing = s.owing.erase i := by
  ext j
  rw [Finset.mem_erase, mem_owing, mem_owing, setWorker_worker, setWorker_generation]
  by_cases hj : j = i
  · rw [if_pos hj]
    exact iff_of_false hdone fun h => h.1 hj
  · rw [if_neg hj, and_iff_right hj]

-- The caller after a worker has counted itself off: the last one wakes it.
def counted (s : WorkerPool threads) : Caller := if s.pending - 1 = 0 ∧ s.caller = .waiting then .ran else s.caller

theorem countOff_eq (s : WorkerPool threads) :
    s.countOff = { s with pending := s.pending - 1, caller := s.counted } := by
  unfold countOff counted
  dsimp only
  split_ifs <;> rfl

theorem counted_same (s : WorkerPool threads) : s.counted.inCall = s.caller.inCall ∧
    s.counted.owes = s.caller.owes ∧
    s.counted.quits = s.caller.quits ∧ (s.counted = .published ↔ s.caller = .published) ∧
    (s.counted = .waiting → s.pending - 1 ≠ 0) := by
  unfold counted
  split_ifs with hlast
  · obtain ⟨-, hc⟩ := hlast
    rw [hc]
    exact ⟨rfl, rfl, rfl, iff_of_false nofun nofun, nofun⟩
  · exact ⟨rfl, rfl, rfl, Iff.rfl, fun hc hzero => hlast ⟨hzero, hc⟩⟩

theorem Sound.finish (h : s.Sound) {i : Fin threads.toNat} (hphase : (s.worker i).phase = .finishing) :
    (s.countOff.setWorker i { s.worker i with phase := .ready }).Sound := by
  have hw := h.worker i
  unfold PhaseOk at hw
  rw [hphase] at hw
  obtain ⟨hseen, hin⟩ := hw
  have howes : (s.worker i).Owes s.generation := by
    unfold Worker.Owes
    rw [hphase]
    trivial
  have hdone : ¬ ({ s.worker i with phase := .ready } : Worker).Owes s.generation := fun hne => hne hseen
  have hinvoked : ({ s.worker i with phase := .ready } : Worker).Invoked s.generation ↔
      (s.worker i).Invoked s.generation := by
    unfold Worker.Invoked
    rw [hphase]
  obtain ⟨hcall, hcaller, hquits, hpub, hwaiting⟩ := s.counted_same
  rw [countOff_eq]
  refine ⟨h.quit.trans hquits.symm, fun hc => h.job (hcall ▸ hc), ?_, ?_, hwaiting, ?_⟩
  · intro j
    have hkeep : ∀ w : Worker, s.PhaseOk w →
        PhaseOk ({ s with pending := s.pending - 1, caller := s.counted } : WorkerPool threads) w := by
      intro w hok
      unfold PhaseOk at hok ⊢
      dsimp only
      rwa [hcall, hpub]
    rw [setWorker_worker]
    split_ifs
    · exact hkeep { s.worker i with phase := .ready } (Or.inl hseen)
    · exact hkeep _ (h.worker j)
  · have hcard := Finset.card_erase_add_one (mem_owing.mpr howes)
    have hpos : 1 ≤ s.pending := by
      rw [UInt32.le_iff_toNat_le, h.pending, ← hcard]
      exact Nat.succ_pos _
    have hless : (s.pending - 1).toNat = s.pending.toNat - 1 := UInt32.toNat_sub_of_le _ _ hpos
    have howing := @owing_erase _ s i { s.worker i with phase := .ready } hdone
    change (s.pending - 1).toNat = (s.setWorker i { s.worker i with phase := .ready }).owing.card
    rw [hless, howing, h.pending]
    omega
  · intro job p
    have hcurrent : ((({ s with pending := s.pending - 1, caller := s.counted } : WorkerPool threads)).setWorker i
        { s.worker i with phase := .ready }).current p = s.current p := by
      have hset := current_set hinvoked p
      cases p with
      | none => rw [current, current]; exact if_congr (by rw [← hcaller]; rfl) rfl rfl
      | some j => exact hset
    refine (h.log job p).trans ?_
    unfold invocations
    rw [hcurrent]
    rfl

theorem Sound.step {t : WorkerPool threads} {e : PoolEvent threads} (h : s.Sound)
    (hstep : s.step e = some t) : t.Sound := by
  cases e with
  | publish =>
      obtain ⟨hc, ⟨⟩⟩ := Option.ite_none_right_eq_some.mp hstep
      exact h.publish hc
  | notifyAll =>
      obtain ⟨hc, ⟨⟩⟩ := Option.ite_none_right_eq_some.mp hstep
      exact h.wakeAll .notified (by rw [hc]; rfl) (by rw [hc]; rfl) (by rw [hc]; rfl) nofun
  | runCaller =>
      obtain ⟨hc, ⟨⟩⟩ := Option.ite_none_right_eq_some.mp hstep
      exact h.runCaller hc
  | await =>
      obtain ⟨hc, ⟨⟩⟩ := Option.ite_none_right_eq_some.mp hstep
      by_cases hzero : s.pending = 0
      · rw [if_pos hzero]
        exact h.return hc hzero
      · rw [if_neg hzero]
        exact h.goOn .waiting (by rw [hc]; rfl) (by rw [hc]; rfl) (by rw [hc]; rfl) (by rw [hc]; nofun)
          fun _ => hzero
  | wakeCaller =>
      obtain ⟨hc, ⟨⟩⟩ := Option.ite_none_right_eq_some.mp hstep
      exact h.goOn .ran (by rw [hc]; rfl) (by rw [hc]; rfl) (by rw [hc]; rfl) (by rw [hc]; nofun) nofun
  | quit =>
      obtain ⟨hc, ⟨⟩⟩ := Option.ite_none_right_eq_some.mp hstep
      exact h.stop hc
  | notifyQuit =>
      obtain ⟨hc, ⟨⟩⟩ := Option.ite_none_right_eq_some.mp hstep
      exact h.wakeAll .stopped (by rw [hc]; rfl) (by rw [hc]; rfl) (by rw [hc]; rfl) nofun
  | join =>
      obtain ⟨⟨hc, -⟩, ⟨⟩⟩ := Option.ite_none_right_eq_some.mp hstep
      exact h.goOn .joined (by rw [hc]; rfl) (by rw [hc]; rfl) (by rw [hc]; rfl) (by rw [hc]; nofun) nofun
  | check i =>
      cases hphase : (s.worker i).phase <;> simp only [WorkerPool.step, hphase, reduceCtorEq,
        Option.some.injEq] at hstep
      exact hstep ▸ h.check hphase
  | wake i =>
      cases hphase : (s.worker i).phase <;> simp only [WorkerPool.step, hphase, reduceCtorEq,
        Option.some.injEq] at hstep
      exact hstep ▸ h.wake
  | run i =>
      cases hphase : (s.worker i).phase <;> simp only [WorkerPool.step, hphase, reduceCtorEq,
        Option.some.injEq] at hstep
      exact hstep ▸ h.runJob hphase
  | finish i =>
      cases hphase : (s.worker i).phase <;> simp only [WorkerPool.step, hphase, reduceCtorEq,
        Option.some.injEq] at hstep
      exact hstep ▸ h.finish hphase

end Steps

section Runs

variable {s : WorkerPool threads} {past : List (WorkerPool threads × PoolEvent threads)}

theorem run_sound (run : Run (system threads) past s) : s.Sound := by
  refine run.invariant (fun _ s => s.Sound) ?_ fun _ s e t h hstep => h.step hstep
  rintro s rfl
  exact start_sound threads

-- Each step of a run is one of a sound pool.
theorem run_steps (run : Run (system threads) past s) :
    ∀ p ∈ past, p.1.Sound ∧ ∃ t, p.1.step p.2 = some t := by
  induction run with
  | start => exact nofun
  | next run hstep ih =>
      intro p hp
      rcases List.mem_append.mp hp with h | h
      · exact ih p h
      · rw [List.mem_singleton.mp h]
        exact ⟨run_sound run, _, hstep⟩

end Runs

def left (s : WorkerPool threads) : Nat := s.caller.left + ∑ i, (s.worker i).left s.generation

section Progress

variable {s : WorkerPool threads}

theorem woken_left (g : UInt64) (w : Worker) : w.woken.left g = w.left g := by
  obtain ⟨phase, seen⟩ := w
  cases phase <;> rfl

-- One worker goes on by itself.
theorem sum_left_set (i : Fin threads.toNat) (w : Worker) :
    ∑ j, ((s.setWorker i w).worker j).left s.generation + (s.worker i).left s.generation =
      ∑ j, (s.worker j).left s.generation + w.left s.generation := by
  have hother : ∑ j ∈ Finset.univ.erase i, ((s.setWorker i w).worker j).left s.generation =
      ∑ j ∈ Finset.univ.erase i, (s.worker j).left s.generation := by
    refine Finset.sum_congr rfl fun j hj => ?_
    rw [setWorker_worker, if_neg (Finset.ne_of_mem_erase hj)]
  rw [← Finset.sum_erase_add _ _ (Finset.mem_univ i), ← Finset.sum_erase_add _ _ (Finset.mem_univ i), hother,
    setWorker_worker, if_pos rfl]
  omega

-- In front of the wait for cv_done_ some worker can go on until all have counted
-- themselves off.
theorem Sound.worker_goesOn (h : s.Sound) (hc : s.caller = .ran ∨ s.caller = .waiting) (hpending : s.pending ≠ 0) :
    ∃ e t, s.step e = some t ∧ t.calls = s.calls ∧ t.caller.inCall = true ∧ t.left < s.left := by
  have hne : s.owing.Nonempty := by
    rw [Finset.nonempty_iff_ne_empty]
    intro hempty
    have hcard := h.pending
    rw [hempty, Finset.card_empty] at hcard
    exact hpending (UInt32.toNat_inj.mp hcard)
  obtain ⟨i, hi⟩ := hne
  have howes := mem_owing.mp hi
  have hw := h.worker i
  have hin : s.caller.inCall = true := by
    rcases hc with hc | hc
    · rw [hc]; rfl
    · rw [hc]; rfl
  have hquit : s.quit = false := by
    rw [h.quit]
    rcases hc with hc | hc
    · rw [hc]; rfl
    · rw [hc]; rfl
  unfold PhaseOk at hw
  unfold Worker.Owes at howes
  cases hphase : (s.worker i).phase with
  | ready =>
      rw [hphase] at howes
      dsimp only at howes
      have hcheck : s.check (s.worker i) = ⟨.running s.job, s.generation⟩ := by
        rw [WorkerPool.check, if_pos (.inr (Ne.symm howes)), hquit]
        rfl
      refine ⟨.check i, s.setWorker i ⟨.running s.job, s.generation⟩, ?_, rfl, hin, ?_⟩
      · simp only [WorkerPool.step, hphase, hcheck]
      · have hsum := @sum_left_set _ s i ⟨.running s.job, s.generation⟩
        have hbefore : (s.worker i).left s.generation = 3 := by
          unfold Worker.left
          rw [hphase]
          exact if_neg howes
        have hafter : (⟨.running s.job, s.generation⟩ : Worker).left s.generation = 2 := rfl
        change s.caller.left + ∑ j, ((s.setWorker i _).worker j).left s.generation < s.caller.left + _
        omega
  | asleep =>
      rw [hphase] at howes hw
      dsimp only at howes hw
      rcases hw with hseen | ⟨-, hpub⟩
      · exact absurd hseen howes
      · rcases hc with hc | hc <;> rw [hc] at hpub <;> cases hpub
  | running job =>
      refine ⟨.run i, { s.setWorker i { s.worker i with phase := .finishing } with
        log := (job, some i) :: s.log }, ?_, rfl, hin, ?_⟩
      · simp only [WorkerPool.step, hphase]
      · have hsum := @sum_left_set _ s i { s.worker i with phase := .finishing }
        have hbefore : (s.worker i).left s.generation = 2 := by
          unfold Worker.left
          rw [hphase]
        have hafter : ({ s.worker i with phase := .finishing } : Worker).left s.generation = 1 := rfl
        change s.caller.left + ∑ j, ((s.setWorker i _).worker j).left s.generation < s.caller.left + _
        omega
  | finishing =>
      rw [hphase] at hw
      have hseen : (s.worker i).seen = s.generation := hw.1
      refine ⟨.finish i, s.countOff.setWorker i { s.worker i with phase := .ready }, ?_, ?_, ?_, ?_⟩
      · simp only [WorkerPool.step, hphase]
      · rw [countOff_eq]
        rfl
      · rw [countOff_eq]
        exact s.counted_same.1.trans hin
      · have hsum := @sum_left_set _ s i { s.worker i with phase := .ready }
        have hbefore : (s.worker i).left s.generation = 1 := by
          unfold Worker.left
          rw [hphase]
        have hafter : ({ s.worker i with phase := .ready } : Worker).left s.generation = 0 := if_pos hseen
        have hcaller : s.counted.left = s.caller.left := by
          unfold counted
          split_ifs with hlast
          · rw [hlast.2]; rfl
          · rfl
        rw [countOff_eq]
        change s.counted.left + ∑ j, ((s.setWorker i _).worker j).left s.generation < s.caller.left + _
        omega
  | exited =>
      rw [hphase] at howes hw
      exact absurd hw.1 howes

-- A call of run_all is never stuck.
theorem Sound.goesOn (h : s.Sound) (hin : s.caller.inCall = true) :
    ∃ e t, s.step e = some t ∧ t.calls = s.calls ∧
        (t.caller = .idle ∨ t.caller.inCall = true ∧ t.left < s.left) := by
  cases hc : s.caller with
  | published =>
      refine ⟨.notifyAll, { s with worker := fun i => (s.worker i).woken, caller := .notified }, if_pos hc, rfl,
        .inr ⟨rfl, ?_⟩⟩
      have hsum : ∑ i, (s.worker i).woken.left s.generation = ∑ i, (s.worker i).left s.generation :=
        Finset.sum_congr rfl fun i _ => woken_left s.generation (s.worker i)
      change 1 + ∑ i, (s.worker i).woken.left s.generation < s.caller.left + ∑ i, (s.worker i).left s.generation
      rw [hsum, hc]
      exact Nat.add_lt_add_right (Nat.lt_succ_self 1) _
  | notified =>
      refine ⟨.runCaller, { s with caller := .ran, log := (some s.calls, none) :: s.log }, if_pos hc, rfl,
        .inr ⟨rfl, ?_⟩⟩
      change 0 + ∑ i, (s.worker i).left s.generation < s.caller.left + ∑ i, (s.worker i).left s.generation
      rw [hc]
      exact Nat.add_lt_add_right (Nat.lt_succ_self 0) _
  | ran =>
      by_cases hzero : s.pending = 0
      · exact ⟨.await, { s with caller := if s.pending = 0 then .idle else .waiting }, if_pos hc, rfl,
          .inl (if_pos hzero)⟩
      · obtain ⟨e, t, hstep, hcalls, hstay⟩ := h.worker_goesOn (.inl hc) hzero
        exact ⟨e, t, hstep, hcalls, .inr hstay⟩
  | waiting =>
      obtain ⟨e, t, hstep, hcalls, hstay⟩ := h.worker_goesOn (.inr hc) (h.waiting hc)
      exact ⟨e, t, hstep, hcalls, .inr hstay⟩
  | idle => rw [hc] at hin; cases hin
  | stopping => rw [hc] at hin; cases hin
  | stopped => rw [hc] at hin; cases hin
  | joined => rw [hc] at hin; cases hin

theorem Sound.returns (h : s.Sound) (hin : s.caller.inCall = true) :
    ∃ (es : List (PoolEvent threads)) (t : WorkerPool threads), es.foldlM WorkerPool.step s = some t ∧
        t.calls = s.calls ∧ t.caller = .idle := by
  generalize hn : s.left = n
  induction n using Nat.strongRecOn generalizing s with
  | _ n ih =>
      obtain ⟨e, u, hstep, hcalls, hidle | ⟨hstay, hless⟩⟩ := h.goesOn hin
      · exact ⟨[e], u, by rw [List.foldlM_cons, hstep]; rfl, hcalls, hidle⟩
      · obtain ⟨es, t, hrun, hcalls', hidle⟩ := ih u.left (hn ▸ hless) (h.step hstep) hstay rfl
        exact ⟨e :: es, t, by rw [List.foldlM_cons, hstep]; exact hrun, hcalls'.trans hcalls, hidle⟩

end Progress

-- The call k of run_all has returned.
def Returned (s : WorkerPool threads) (k : Nat) : Prop :=
    1 ≤ k ∧ k ≤ s.calls ∧ (k = s.calls → s.caller.inCall = false)

-- A call has run its job once on the caller and on each worker when it returns, never
-- twice; no count goes below zero, no job is invoked behind the return of its call, and a
-- call can always go on to its return.
theorem run_all_barrier {threads : UInt32} {past : List (WorkerPool threads × PoolEvent threads)}
    {s : WorkerPool threads}
    (run : Run (system threads) past s) :
    (∀ k, s.Returned k → ∀ p, s.log.count (some k, p) = 1) ∧
      (∀ job p, s.log.count (job, p) ≤ 1) ∧
      (∀ u i, (u, .finish i) ∈ past → u.pending ≠ 0) ∧
      (∀ u i job, (u, .run i) ∈ past → (u.worker i).phase = .running job →
        job = some u.calls ∧ u.caller.inCall = true) ∧
      (s.caller.inCall = true → ∃ more t, Run (system threads) (past ++ more) t ∧ t.calls = s.calls ∧
        t.caller = .idle) := by
  have hsound := run_sound run
  have hsteps := run_steps run
  refine ⟨?_, ?_, ?_, ?_, ?_⟩
  · rintro k ⟨hone, hle, hreturned⟩ p
    rw [hsound.log]
    unfold invocations
    dsimp only
    rw [if_neg (by omega)]
    by_cases hk : k < s.calls
    · exact if_pos hk
    · rw [if_neg hk]
      have hidle := hreturned (by omega)
      cases p with
      | none =>
          have hdone : s.caller.owes = false := by
            cases hc : s.caller <;> rw [hc] at hidle <;> first | rfl | cases hidle
          rw [current, hdone]
          rfl
      | some i => exact if_pos (hsound.seen hidle i).2.2
  · intro job p
    rw [hsound.log]
    cases job with
    | none => exact Nat.zero_le _
    | some k =>
        have hcurrent : s.current p ≤ 1 := by
          cases p with
          | none => rw [current]; split <;> omega
          | some i => rw [current]; split <;> omega
        unfold invocations
        dsimp only
        split_ifs <;> omega
  · intro u i hmem
    obtain ⟨hu, t, hstep⟩ := hsteps _ hmem
    refine hu.pending_ne (i := i) ?_
    unfold Worker.Owes
    cases hphase : (u.worker i).phase <;> simp [WorkerPool.step, hphase] at hstep ⊢
  · intro u i job hmem hphase
    obtain ⟨hu, -⟩ := hsteps _ hmem
    have hw := hu.worker i
    unfold PhaseOk at hw
    rw [hphase] at hw
    obtain ⟨-, hin, hjob⟩ := hw
    exact ⟨hjob.trans (hu.job hin).1, hin⟩
  · intro hin
    obtain ⟨es, t, hrun, hcalls, hidle⟩ := hsound.returns hin
    obtain ⟨more, hmore, -⟩ :=
      run_foldlM WorkerPool.step (fun _ _ => True) (fun _ _ _ hstep => ⟨hstep, trivial⟩) es run hrun
    exact ⟨more, t, hmore, hcalls, hidle⟩

theorem run_all_barrier_one : ∃ (past : List (WorkerPool 1 × PoolEvent 1)) (s : WorkerPool 1),
    Run (system 1) past s ∧
    s.Returned 1 ∧ ∀ p, s.log.count (some 1, p) = 1 := by
  have hevents : ∃ s, [PoolEvent.publish, .notifyAll, .runCaller, .check ⟨0, by decide⟩, .run ⟨0, by decide⟩,
      .finish ⟨0, by decide⟩, .await].foldlM step (start 1) = some s ∧ s.calls = 1 ∧ s.caller = .idle :=
    ⟨_, rfl, rfl, rfl⟩
  obtain ⟨s, hs, hcalls, hidle⟩ := hevents
  obtain ⟨past, hrun, -⟩ := run_foldlM step (fun _ _ => True) (fun _ _ _ hstep => ⟨hstep, trivial⟩) _
    (Run.start (S := system 1) (s := start 1) rfl) hs
  have hreturned : s.Returned 1 := ⟨Nat.le_refl 1, hcalls.ge, fun _ => by rw [hidle]; rfl⟩
  exact ⟨_, s, hrun, hreturned, (run_all_barrier hrun).1 1 hreturned⟩

end WorkerPool

end TetherDesk.Host
