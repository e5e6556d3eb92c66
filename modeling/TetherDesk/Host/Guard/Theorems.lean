import TetherDesk.Host.Guard
import TetherDesk.Lib.SlidingWindow
import TetherDesk.Lib.Transition
import Mathlib.Tactic

namespace TetherDesk.Host

open TetherDesk.Lib TetherDesk.Lib.SlidingWindow

structure Attempt where
  addr : Bytes
  macOk : Bool
  full : Bool
  times : AuthTimes

def verdict (g : Guard) (a : Attempt) : AuthVerdict := (authAttempt g a.addr a.macOk a.full a.times).1

def attemptStep (g : Guard) (a : Attempt) : Guard := (authAttempt g a.addr a.macOk a.full a.times).2

def AuthVerdict.comparesMac : AuthVerdict → Bool
  | .locked _ => false
  | _ => true

-- Login attempts in the order the server handles them.
def logins : Transition.System Guard Attempt := Transition.ofFunction (· = Guard.empty) attemptStep

def readings (past : List (Guard × Attempt)) : List Nat := past.flatMap fun p => p.2.times.toList

-- The monotonic clock: readings never decrease, and stay 15 minutes below the
-- range of uint64_t.
structure ClockOk (times : List Nat) : Prop where
  ordered : times.Pairwise (· ≤ ·)
  room : ∀ t ∈ times, t + 900 * kSecond < 2 ^ 64

-- The times pushed to recent_failures_ in a run.
def recorded (past : List (Guard × Attempt)) : List Nat :=
  past.flatMap fun p => if verdict p.1 p.2 = .wrong then [p.2.times.push] else []

-- The failures of an address since its last success.
def failuresSince (addr : Bytes) (past : List (Guard × Attempt)) : List AuthTimes :=
  past.foldl (fun acc p =>
    if p.2.addr = addr then
      match verdict p.1 p.2 with
      | .wrong => acc ++ [p.2.times]
      | .ok => []
      | _ => acc
    else acc) []

-- The entry of failures_ that those failures leave.
def lockEntry (fs : List AuthTimes) : Option Failures :=
  fs.getLast?.map fun last =>
    ⟨fs.length, if fs.length ≥ 5 then last.lock + lockSeconds fs.length * kSecond else 0⟩

structure GuardInv (past : List (Guard × Attempt)) (g : Guard) : Prop where
  recent : ∃ horizon ∈ 0 :: readings past, g.recentFailures = live kRecentWindow horizon (recorded past)
  locks : ∀ addr, g.failures addr = lockEntry (failuresSince addr past)

theorem readings_concat (past : List (Guard × Attempt)) (g : Guard) (a : Attempt) :
    readings (past ++ [(g, a)]) = readings past ++ a.times.toList := by
  simp [readings]

theorem recorded_concat (past : List (Guard × Attempt)) (g : Guard) (a : Attempt) :
    recorded (past ++ [(g, a)]) = recorded past ++ if verdict g a = .wrong then [a.times.push] else [] := by
  simp [recorded]

theorem failuresSince_concat (addr : Bytes) (past : List (Guard × Attempt)) (g : Guard) (a : Attempt) :
    failuresSince addr (past ++ [(g, a)]) =
      if a.addr = addr then
        match verdict g a with
        | .wrong => failuresSince addr past ++ [a.times]
        | .ok => []
        | _ => failuresSince addr past
      else failuresSince addr past := by
  simp [failuresSince]

theorem recorded_sublist (past : List (Guard × Attempt)) : (recorded past).Sublist (readings past) := by
  induction past with
  | nil => exact .slnil
  | cons p past ih =>
      simp only [recorded, readings, List.flatMap_cons]
      refine List.Sublist.append ?_ ih
      split_ifs
      · simp [AuthTimes.toList]
      · exact List.nil_sublist _

theorem failuresSince_mem {addr : Bytes} (past : List (Guard × Attempt)) {t : AuthTimes}
    (h : t ∈ failuresSince addr past) : t.lock ∈ readings past := by
  induction past using List.reverseRecOn with
  | nil => simp [failuresSince] at h
  | append_singleton past p ih =>
      obtain ⟨g, a⟩ := p
      rw [failuresSince_concat] at h
      rw [readings_concat, List.mem_append]
      split_ifs at h
      · cases hv : verdict g a with
        | wrong =>
            simp only [hv, List.mem_append, List.mem_singleton] at h
            rcases h with h | rfl
            · exact Or.inl (ih h)
            · exact Or.inr (by simp [AuthTimes.toList])
        | ok => simp [hv] at h
        | full => simp only [hv] at h; exact Or.inl (ih h)
        | locked s => simp only [hv] at h; exact Or.inl (ih h)
      · exact Or.inl (ih h)

theorem ClockOk.sublist {times times' : List Nat} (h : ClockOk times) (hsub : times'.Sublist times) :
    ClockOk times' :=
  ⟨h.ordered.sublist hsub, fun t ht => h.room t (hsub.subset ht)⟩

theorem ClockOk.last {past : List (Guard × Attempt)} {g : Guard} {a : Attempt}
    (h : ClockOk (readings (past ++ [(g, a)]))) :
    (∀ t ∈ readings past, t ≤ a.times.prune) ∧ a.times.prune ≤ a.times.check ∧
      a.times.check ≤ a.times.push ∧ a.times.push ≤ a.times.lock ∧ a.times.lock + 900 * kSecond < 2 ^ 64 := by
  rw [readings_concat] at h
  have hord := List.pairwise_append.mp h.ordered
  have hin := hord.2.1
  simp only [AuthTimes.toList, List.pairwise_cons, List.mem_cons, List.not_mem_nil, or_false,
    forall_eq_or_imp, forall_eq] at hin
  refine ⟨fun t ht => hord.2.2 t ht _ (by simp [AuthTimes.toList]), hin.1.1, hin.2.1.1, hin.2.2.1, ?_⟩
  exact h.room _ (by simp [AuthTimes.toList])

theorem sub64_of_le {a b : Nat} (ha : a < 2 ^ 64) (h : b ≤ a) : sub64 a b = a - b := by
  unfold sub64
  omega

theorem add64_of_lt {a b : Nat} (h : a + b < 2 ^ 64) : add64 a b = a + b := Nat.mod_eq_of_lt h

theorem toInt32_of_lt {v : Nat} (h : v < 2 ^ 31) : toInt32 v = v := by
  unfold toInt32
  rw [Nat.mod_eq_of_lt (by omega), if_pos h]

theorem seconds_lt {v : Nat} (h : v ≤ 900 * kSecond) : v / kSecond < 2 ^ 31 := by
  have : v / kSecond ≤ 900 * kSecond / kSecond := Nat.div_le_div_right h
  simp only [kSecond] at this ⊢
  omega

theorem lockSeconds_le (count : Nat) : lockSeconds count ≤ 900 := Nat.min_le_left _ _

theorem prune_recent (g : Guard) (now : Nat) (hnow : now < 2 ^ 64) (hle : ∀ t ∈ g.recentFailures, t ≤ now) :
    (g.prune now).recentFailures = live kRecentWindow now g.recentFailures := by
  unfold Guard.prune live
  apply List.filter_congr
  intro t ht
  rw [sub64_of_le hnow (hle t ht)]
  have := hle t ht
  exact decide_eq_decide.mpr (by omega)

@[simp] theorem prune_failures (g : Guard) (now : Nat) : (g.prune now).failures = g.failures := rfl

theorem lockedOut_snd (g : Guard) (addr : Bytes) (nowUs now : Nat) :
    (lockedOut g addr nowUs now).2 = g.prune nowUs := by
  unfold lockedOut
  dsimp only
  split_ifs
  · rfl
  · split
    · rfl
    · split_ifs <;> rfl

-- What each verdict does to the tables.
theorem attemptStep_cases (g : Guard) (a : Attempt) :
    (∃ s, verdict g a = .locked s ∧ (lockedOut g a.addr a.times.prune a.times.check).1 = some s ∧
      attemptStep g a = g.prune a.times.prune) ∨
    ((lockedOut g a.addr a.times.prune a.times.check).1 = none ∧
      ((verdict g a = .wrong ∧
          attemptStep g a = recordAuthFailure (g.prune a.times.prune) a.addr a.times.push a.times.lock) ∨
        (verdict g a = .full ∧ attemptStep g a = g.prune a.times.prune) ∨
        (verdict g a = .ok ∧ attemptStep g a =
          { g.prune a.times.prune with failures := Function.update g.failures a.addr none }))) := by
  have hsnd := lockedOut_snd g a.addr a.times.prune a.times.check
  unfold verdict attemptStep authAttempt
  generalize lockedOut g a.addr a.times.prune a.times.check = res at hsnd
  obtain ⟨rc, g'⟩ := res
  dsimp only at hsnd
  subst hsnd
  cases rc with
  | some s => exact Or.inl ⟨s, rfl, rfl, rfl⟩
  | none =>
      refine Or.inr ⟨rfl, ?_⟩
      cases hm : a.macOk with
      | false => exact Or.inl ⟨rfl, rfl⟩
      | true =>
          cases hf : a.full with
          | true => exact Or.inr (Or.inl ⟨rfl, rfl⟩)
          | false => exact Or.inr (Or.inr ⟨rfl, rfl⟩)

theorem lockEntry_concat (fs : List AuthTimes) (t : AuthTimes) (ht : t.lock + 900 * kSecond < 2 ^ 64) :
    (let f := (lockEntry fs).getD ⟨0, 0⟩
     let f : Failures := { f with count := f.count + 1 }
     some (if f.count ≥ 5 then { f with untilUs := add64 t.lock (lockSeconds f.count * kSecond) } else f)) =
      lockEntry (fs ++ [t]) := by
  have hcount : ((lockEntry fs).getD ⟨0, 0⟩).count = fs.length := by
    cases fs using List.reverseRecOn with
    | nil => rfl
    | append_singleton fs last => simp [lockEntry]
  have huntil : fs.length + 1 < 5 → ((lockEntry fs).getD ⟨0, 0⟩).untilUs = 0 := by
    intro hlt
    cases fs using List.reverseRecOn with
    | nil => rfl
    | append_singleton fs last =>
        rw [List.length_append, List.length_singleton] at hlt
        have : ¬ (4 ≤ fs.length) := by omega
        simp [lockEntry, this]
  have hroom : t.lock + lockSeconds (fs.length + 1) * kSecond < 2 ^ 64 := by
    have := Nat.mul_le_mul_right kSecond (lockSeconds_le (fs.length + 1))
    omega
  simp only [hcount]
  by_cases hfive : fs.length + 1 ≥ 5
  · rw [if_pos hfive, add64_of_lt hroom]
    simp [lockEntry, hfive]
  · rw [if_neg hfive, huntil (by omega)]
    have : ¬ (4 ≤ fs.length) := by omega
    simp [lockEntry, this]

theorem GuardInv.step {past : List (Guard × Attempt)} {g : Guard} (inv : GuardInv past g) (a : Attempt)
    (hclock : ClockOk (readings (past ++ [(g, a)]))) : GuardInv (past ++ [(g, a)]) (attemptStep g a) := by
  obtain ⟨hpast, hcheck, hpush, hlock, hroom⟩ := hclock.last
  obtain ⟨horizon, hmem, hrecent⟩ := inv.recent
  have hhorizon : horizon ≤ a.times.prune := by
    rcases List.mem_cons.mp hmem with rfl | h
    · exact Nat.zero_le _
    · exact hpast _ h
  have hpruned : (g.prune a.times.prune).recentFailures = live kRecentWindow a.times.prune (recorded past) := by
    rw [prune_recent g _ (by omega), hrecent, live_live _ _ _ hhorizon]
    intro t ht
    rw [hrecent] at ht
    exact hpast t ((recorded_sublist past).subset (mem_of_mem_live ht))
  have hin : a.times.prune ∈ 0 :: readings (past ++ [(g, a)]) := by
    rw [readings_concat]
    simp [AuthTimes.toList]
  rcases attemptStep_cases g a with ⟨s, hv, -, hstep⟩ | ⟨-, ⟨hv, hstep⟩ | ⟨hv, hstep⟩ | ⟨hv, hstep⟩⟩
  · refine ⟨⟨_, hin, ?_⟩, fun addr => ?_⟩
    · simpa [hstep, recorded_concat, hv] using hpruned
    · rw [hstep, failuresSince_concat, hv]
      simpa using inv.locks addr
  · refine ⟨⟨_, hin, ?_⟩, fun addr => ?_⟩
    · rw [hstep, recorded_concat, if_pos hv, live_concat _ _ _ (by unfold kRecentWindow; omega), ← hpruned]
      rfl
    · rw [hstep, failuresSince_concat, hv]
      by_cases haddr : a.addr = addr
      · subst haddr
        rw [if_pos rfl, ← lockEntry_concat _ _ hroom, ← inv.locks a.addr]
        simp [recordAuthFailure, Guard.prune]
      · rw [if_neg haddr, ← inv.locks addr]
        simp [recordAuthFailure, Guard.prune, Function.update_of_ne (Ne.symm haddr)]
  · refine ⟨⟨_, hin, ?_⟩, fun addr => ?_⟩
    · simpa [hstep, recorded_concat, hv] using hpruned
    · rw [hstep, failuresSince_concat, hv]
      simpa using inv.locks addr
  · refine ⟨⟨_, hin, ?_⟩, fun addr => ?_⟩
    · simpa [hstep, recorded_concat, hv] using hpruned
    · rw [hstep, failuresSince_concat, hv]
      by_cases haddr : a.addr = addr
      · subst haddr
        simp [lockEntry]
      · rw [if_neg haddr, ← inv.locks addr]
        simp [Function.update_of_ne (Ne.symm haddr)]

theorem lockedOut_none {g : Guard} {addr : Bytes} {nowUs now : Nat}
    (h : (lockedOut g addr nowUs now).1 = none) :
    (g.prune nowUs).recentFailures.length < kRecentMax ∧ ∀ f, g.failures addr = some f → f.untilUs ≤ now := by
  unfold lockedOut at h
  dsimp only at h
  split_ifs at h with hmany
  refine ⟨by omega, fun f hf => ?_⟩
  rw [prune_failures, hf] at h
  dsimp only at h
  split_ifs at h with huntil
  exact huntil

theorem lockedOut_some {g : Guard} {addr : Bytes} {nowUs now : Nat} {s : Int}
    (h : (lockedOut g addr nowUs now).1 = some s) :
    (kRecentMax ≤ (g.prune nowUs).recentFailures.length ∧
      s = toInt32 (sub64 (add64 ((g.prune nowUs).recentFailures.headD 0) kRecentWindow) nowUs / kSecond) + 1) ∨
    ∃ f, g.failures addr = some f ∧ now < f.untilUs ∧ s = toInt32 (sub64 f.untilUs now / kSecond) + 1 := by
  unfold lockedOut at h
  dsimp only at h
  split_ifs at h with hmany
  · exact Or.inl ⟨hmany, (Option.some.inj h).symm⟩
  · rw [prune_failures] at h
    cases hf : g.failures addr with
    | none => simp [hf] at h
    | some f =>
        simp only [hf] at h
        split_ifs at h with huntil
        exact Or.inr ⟨f, rfl, by omega, (Option.some.inj h).symm⟩

theorem guardInv_of_run {past : List (Guard × Attempt)} {g : Guard} (run : Transition.Run logins past g)
    (hclock : ClockOk (readings past)) : GuardInv past g := by
  refine run.invariant (fun past g => ClockOk (readings past) → GuardInv past g) ?_ ?_ hclock
  · rintro g rfl _
    exact ⟨⟨0, List.mem_cons_self, rfl⟩, fun addr => rfl⟩
  · rintro past g a _ ih rfl hclock
    have hbefore : ClockOk (readings past) :=
      hclock.sublist (by rw [readings_concat]; exact List.sublist_append_left _ _)
    exact (ih hbefore).step a hclock

section Attempts

variable {past : List (Guard × Attempt)} {g : Guard} (inv : GuardInv past g) {a : Attempt}
  (hclock : ClockOk (readings (past ++ [(g, a)])))
include inv hclock

theorem recent_le : ∀ t ∈ g.recentFailures, t ≤ a.times.prune := by
  obtain ⟨horizon, _, hrecent⟩ := inv.recent
  intro t ht
  rw [hrecent] at ht
  exact hclock.last.1 t ((recorded_sublist past).subset (mem_of_mem_live ht))

theorem pruned_recorded :
    (g.prune a.times.prune).recentFailures = live kRecentWindow a.times.prune (recorded past) := by
  obtain ⟨hpast, hcheck, hpush, hlock, hroom⟩ := hclock.last
  obtain ⟨horizon, hmem, hrecent⟩ := inv.recent
  have hhorizon : horizon ≤ a.times.prune := by
    rcases List.mem_cons.mp hmem with rfl | h
    · exact Nat.zero_le _
    · exact hpast _ h
  rw [prune_recent g _ (by omega) (recent_le inv hclock), hrecent, live_live _ _ _ hhorizon]

-- A failure that is recorded comes over a minute after the one thirty before it.
theorem push_spaced (hv : verdict g a = .wrong) (i : Nat) (hi : i < (recorded past).length)
    (hn : i + kRecentMax ≤ (recorded past).length) :
    (recorded past)[i] + kRecentWindow < a.times.push := by
  obtain ⟨hpast, hcheck, hpush, -, -⟩ := hclock.last
  have hnone : (lockedOut g a.addr a.times.prune a.times.check).1 = none := by
    rcases attemptStep_cases g a with ⟨s, hs, -⟩ | ⟨h, -⟩
    · rw [hs] at hv
      cases hv
    · exact h
  have hfew := (lockedOut_none hnone).1
  rw [pruned_recorded inv hclock] at hfew
  have hsorted : (recorded past).Pairwise (· ≤ ·) :=
    (hclock.sublist (by rw [readings_concat]; exact List.sublist_append_left _ _)).ordered.sublist
      (recorded_sublist past)
  have := expired_of_few _ _ _ _ hsorted hfew i hi hn
  omega

omit hclock in
theorem attempt_after_lock (hcompares : (verdict g a).comparesMac = true) {last : AuthTimes}
    (hlast : (failuresSince a.addr past).getLast? = some last)
    (hfive : 5 ≤ (failuresSince a.addr past).length) :
    last.lock + lockSeconds (failuresSince a.addr past).length * kSecond ≤ a.times.check := by
  have hnone : (lockedOut g a.addr a.times.prune a.times.check).1 = none := by
    rcases attemptStep_cases g a with ⟨s, hs, -⟩ | ⟨h, -⟩
    · simp [hs, AuthVerdict.comparesMac] at hcompares
    · exact h
  have hentry := inv.locks a.addr
  simp only [lockEntry, hlast, Option.map_some] at hentry
  have := (lockedOut_none hnone).2 _ hentry
  simpa [hfive] using this

theorem locked_seconds {s : Int} (hv : verdict g a = .locked s) :
    0 < s ∧
    ((∃ front ∈ (g.prune a.times.prune).recentFailures,
        a.times.prune ≤ front + kRecentWindow ∧ front + kRecentWindow < 2 ^ 64 ∧
        s = ((front + kRecentWindow - a.times.prune) / kSecond : Nat) + 1) ∨
      ∃ f, g.failures a.addr = some f ∧ a.times.check < f.untilUs ∧ f.untilUs < 2 ^ 64 ∧
        s = ((f.untilUs - a.times.check) / kSecond : Nat) + 1) := by
  obtain ⟨hpast, hcheck, hpush, hlock, hroom⟩ := hclock.last
  have hsome : (lockedOut g a.addr a.times.prune a.times.check).1 = some s := by
    rcases attemptStep_cases g a with ⟨s', hs, hl, -⟩ | ⟨-, ⟨hs, -⟩ | ⟨hs, -⟩ | ⟨hs, -⟩⟩ <;>
      rw [hs] at hv <;> cases hv
    exact hl
  have hsec : kSecond = 1000000 := rfl
  rcases lockedOut_some hsome with ⟨hmany, hs⟩ | ⟨f, hf, hlt, hs⟩
  · -- the oldest failure still counted is at most a minute old
    cases hlist : (g.prune a.times.prune).recentFailures with
    | nil => rw [hlist] at hmany; simp [kRecentMax] at hmany
    | cons front rest =>
        have hmem : front ∈ (g.prune a.times.prune).recentFailures := by rw [hlist]; exact List.mem_cons_self
        have hlive := hmem
        rw [pruned_recorded inv hclock] at hlive
        have hle := le_of_mem_live hlive
        have hpushed := hpast front ((recorded_sublist past).subset (mem_of_mem_live hlive))
        have hw : kRecentWindow = 60 * 1000000 := rfl
        rw [hlist, List.headD_cons, add64_of_lt (by omega), sub64_of_le (by omega) hle,
          toInt32_of_lt (seconds_lt (by omega))] at hs
        exact ⟨hs ▸ Int.lt_add_one_of_le (Int.natCast_nonneg _),
          Or.inl ⟨front, List.mem_cons_self, hle, by omega, hs⟩⟩
  · have hentry := inv.locks a.addr
    rw [hf] at hentry
    unfold lockEntry at hentry
    obtain ⟨last, hlast, rfl⟩ := Option.map_eq_some_iff.mp hentry.symm
    have hmem : last.lock ∈ readings past := failuresSince_mem past (List.mem_of_getLast? hlast)
    have hle := hpast _ hmem
    have hcap := Nat.mul_le_mul_right kSecond (lockSeconds_le (failuresSince a.addr past).length)
    dsimp only at hlt hs
    split_ifs at hlt hs with hfive
    · rw [sub64_of_le (by omega) (by omega), toInt32_of_lt (seconds_lt (by omega))] at hs
      refine ⟨hs ▸ Int.lt_add_one_of_le (Int.natCast_nonneg _), Or.inr ⟨_, hf, ?_⟩⟩
      simp only [hfive, if_true]
      exact ⟨hlt, by omega, hs⟩
    · omega

theorem nobody_locked (hcount : ∀ addr, (failuresSince addr past).length < 5)
    (hfew : (live kRecentWindow a.times.prune (recorded past)).length < kRecentMax) :
    (verdict g a).comparesMac = true := by
  rcases attemptStep_cases g a with ⟨s, hs, hl, -⟩ | ⟨-, ⟨hs, -⟩ | ⟨hs, -⟩ | ⟨hs, -⟩⟩
  · rcases lockedOut_some hl with ⟨hmany, -⟩ | ⟨f, hf, hlt, -⟩
    · rw [pruned_recorded inv hclock] at hmany
      omega
    · have hentry := inv.locks a.addr
      rw [hf] at hentry
      obtain ⟨last, -, rfl⟩ := Option.map_eq_some_iff.mp hentry.symm
      have := hcount a.addr
      simp only [show ¬ (failuresSince a.addr past).length ≥ 5 by omega, if_false] at hlt
      omega
  · rw [hs]; rfl
  · rw [hs]; rfl
  · rw [hs]; rfl

end Attempts

-- Any 31 failures recorded in a run span more than a minute.
theorem recorded_spaced {past : List (Guard × Attempt)} {g : Guard} (run : Transition.Run logins past g)
    (hclock : ClockOk (readings past)) (i j : Nat) (hj : j < (recorded past).length) (hij : i + kRecentMax ≤ j) :
    (recorded past)[i] + kRecentWindow < (recorded past)[j] := by
  have hmax : kRecentMax = 30 := rfl
  induction run with
  | start h => simp [recorded] at hj
  | @next past g _ a run hstep ih =>
      have hbefore : ClockOk (readings past) :=
        hclock.sublist (by rw [readings_concat]; exact List.sublist_append_left _ _)
      have hall := recorded_concat past g a
      by_cases hv : verdict g a = .wrong
      · rw [if_pos hv] at hall
        have hlen := congrArg List.length hall
        rw [List.length_append, List.length_singleton] at hlen
        rw [List.getElem_of_eq hall, List.getElem_of_eq hall, List.getElem_append_left (by omega)]
        by_cases hlast : j < (recorded past).length
        · rw [List.getElem_append_left hlast]
          exact ih hbefore hlast
        · rw [List.getElem_append_right (by omega)]
          simp only [show j - (recorded past).length = 0 by omega, List.getElem_cons_zero]
          exact push_spaced (guardInv_of_run run hbefore) hclock hv i (by omega) (by omega)
      · rw [if_neg hv, List.append_nil] at hall
        rw [List.getElem_of_eq hall, List.getElem_of_eq hall]
        exact ih hbefore (hall ▸ hj)

-- The limits on password guessing, for the attempt `a` made after any run.
theorem guessing_protection {past : List (Guard × Attempt)} {g : Guard} (run : Transition.Run logins past g)
    (a : Attempt) (hclock : ClockOk (readings (past ++ [(g, a)]))) :
    (∀ i j, (hj : j < (recorded past).length) → (hij : i + 30 ≤ j) →
      (recorded past)[i] + 60 * kSecond < (recorded past)[j]) ∧
    (∀ last, (verdict g a).comparesMac = true → (failuresSince a.addr past).getLast? = some last →
      5 ≤ (failuresSince a.addr past).length →
      last.lock + min 900 (30 * 2 ^ min ((failuresSince a.addr past).length - 5) 5) * kSecond ≤ a.times.check) ∧
    ((verdict g a).comparesMac = false →
      (∀ macOk full, authAttempt g a.addr macOk full a.times = authAttempt g a.addr a.macOk a.full a.times) ∧
      (attemptStep g a).failures = g.failures ∧
      (attemptStep g a).recentFailures =
        g.recentFailures.filter fun t => a.times.prune ≤ t + 60 * kSecond) ∧
    (∀ s, verdict g a = .locked s →
      0 < s ∧ (∀ t ∈ g.recentFailures, t ≤ a.times.prune) ∧
      ((∃ front ∈ (attemptStep g a).recentFailures,
          a.times.prune ≤ front + kRecentWindow ∧ front + kRecentWindow < 2 ^ 64 ∧
          s = ((front + kRecentWindow - a.times.prune) / kSecond : Nat) + 1) ∨
        ∃ f, g.failures a.addr = some f ∧ a.times.check < f.untilUs ∧ f.untilUs < 2 ^ 64 ∧
          s = ((f.untilUs - a.times.check) / kSecond : Nat) + 1)) ∧
    ((∀ addr, (failuresSince addr past).length < 5) →
      (live kRecentWindow a.times.prune (recorded past)).length < 30 →
      (verdict g a).comparesMac = true) := by
  have hbefore : ClockOk (readings past) :=
    hclock.sublist (by rw [readings_concat]; exact List.sublist_append_left _ _)
  have inv := guardInv_of_run run hbefore
  refine ⟨recorded_spaced run hbefore, ?_, ?_, ?_, nobody_locked inv hclock⟩
  · intro last hcompares hlast hfive
    have := attempt_after_lock inv hcompares hlast hfive
    rwa [lockSeconds, Nat.shiftLeft_eq] at this
  · intro hrefused
    rcases attemptStep_cases g a with ⟨s, hs, hl, hstep⟩ | ⟨-, ⟨hs, -⟩ | ⟨hs, -⟩ | ⟨hs, -⟩⟩ <;>
      simp [hs, AuthVerdict.comparesMac] at hrefused
    refine ⟨fun macOk full => ?_, by rw [hstep]; rfl, ?_⟩
    · have hres : lockedOut g a.addr a.times.prune a.times.check = (some s, g.prune a.times.prune) :=
        Prod.ext hl (lockedOut_snd _ _ _ _)
      simp only [authAttempt, hres]
    · rw [hstep, prune_recent g _ (by have := hclock.last; omega) (recent_le inv hclock)]
      rfl
  · intro s hs
    obtain ⟨hpos, hexact⟩ := locked_seconds inv hclock hs
    have hstep : attemptStep g a = g.prune a.times.prune := by
      rcases attemptStep_cases g a with ⟨_, _, _, h⟩ | ⟨-, ⟨hs', -⟩ | ⟨hs', -⟩ | ⟨hs', -⟩⟩
      · exact h
      · rw [hs] at hs'; cases hs'
      · rw [hs] at hs'; cases hs'
      · rw [hs] at hs'; cases hs'
    rw [hstep]
    exact ⟨hpos, recent_le inv hclock, hexact⟩

-- Five wrong passwords from one address, a second apart, and a right one 36 s
-- after the last.
def fiveWrong : List Attempt :=
  [1, 2, 3, 4, 5].map fun s => ⟨ascii "10.0.0.7", false, false,
    ⟨s * kSecond, s * kSecond + 1, s * kSecond + 2, s * kSecond + 3⟩⟩

def rightLater : Attempt :=
  ⟨ascii "10.0.0.7", true, false, ⟨41 * kSecond, 41 * kSecond, 41 * kSecond, 41 * kSecond⟩⟩

theorem guessing_protection_five_wrong :
    let past := Transition.history attemptStep Guard.empty fiveWrong
    verdict (fiveWrong.foldl attemptStep Guard.empty) rightLater = .ok ∧
    (failuresSince (ascii "10.0.0.7") past).length = 5 ∧
    5 * kSecond + 3 + 30 * kSecond ≤ rightLater.times.check := by
  have run : Transition.Run logins _ _ :=
    Transition.run_events (· = Guard.empty) attemptStep rfl fiveWrong
  have hok : verdict (fiveWrong.foldl attemptStep Guard.empty) rightLater = .ok := by decide
  have hlen : (failuresSince (ascii "10.0.0.7")
      (Transition.history attemptStep Guard.empty fiveWrong)).length = 5 := by decide
  refine ⟨hok, hlen, ?_⟩
  have h := (guessing_protection run rightLater ⟨by decide, by decide⟩).2.1
    ⟨5 * kSecond, 5 * kSecond + 1, 5 * kSecond + 2, 5 * kSecond + 3⟩ (by rw [hok]; rfl)
    (by decide) hlen.ge
  rwa [show rightLater.addr = ascii "10.0.0.7" from rfl, hlen] at h

end TetherDesk.Host
