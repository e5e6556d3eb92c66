import Mathlib.Data.List.Range
import Mathlib.Data.List.Perm.Basic
import Mathlib.Algebra.BigOperators.Group.List.Basic
import Mathlib.Tactic

namespace TetherDesk.Lib

-- Workers that take the numbers below a total in chunks from one shared counter
-- and run them one by one.
structure Puller where
  todo : List Nat
  left : Bool

structure WorkQueue where
  next : Nat
  pullers : List Puller

namespace WorkQueue

def start (workers : Nat) : WorkQueue := ⟨0, List.replicate workers ⟨[], false⟩⟩

def chunkAt (chunk total t : Nat) : List Nat := List.range' t (min chunk (total - t))

-- The next action of worker i: run one of its numbers, fetch a chunk, or leave.
def pull (chunk total : Nat) (q : WorkQueue) (i : Nat) : Option Nat × WorkQueue :=
  match q.pullers[i]? with
  | none => (none, q)
  | some p =>
      if p.left then (none, q)
      else
        match p.todo with
        | k :: rest => (some k, { q with pullers := q.pullers.set i { p with todo := rest } })
        | [] =>
            let p :=
              if q.next < total then { p with todo := chunkAt chunk total q.next } else { p with left := true }
            (none, ⟨q.next + chunk, q.pullers.set i p⟩)

def finished (q : WorkQueue) : Bool := q.pullers.all (·.left)

-- The numbers in the order they are run, each with its worker.
def order (chunk total : Nat) : List Nat → WorkQueue → List (Nat × Nat) × WorkQueue
  | [], q => ([], q)
  | i :: schedule, q =>
      let (k, q) := pull chunk total q i
      let (rest, q) := order chunk total schedule q
      ((k.map (i, ·)).toList ++ rest, q)

-- A run in which worker i does `work i k` for each number k it takes.
def runWith {α : Type*} (work : α → Nat → Nat → α) (chunk total : Nat) :
    List Nat → WorkQueue × α → WorkQueue × α
  | [], s => s
  | i :: schedule, (q, a) =>
      let (k, q) := pull chunk total q i
      runWith work chunk total schedule (q, match k with | some k => work a i k | none => a)

theorem runWith_eq {α : Type*} (work : α → Nat → Nat → α) (chunk total : Nat) (schedule : List Nat)
    (q : WorkQueue) (a : α) :
    runWith work chunk total schedule (q, a) =
      ((order chunk total schedule q).2,
        (order chunk total schedule q).1.foldl (fun a p => work a p.1 p.2) a) := by
  induction schedule generalizing q a with
  | nil => rfl
  | cons i schedule ih =>
      simp only [runWith, order]
      rw [ih]
      cases (pull chunk total q i).1 with
      | none => rfl
      | some k => rfl

def todos (q : WorkQueue) : List Nat := (q.pullers.map (·.todo)).flatten

theorem flatten_set_perm {α : Type*} (l : List (List α)) (i : Nat) (a b : List α) (h : l[i]? = some a) :
    ((l.set i b).flatten ++ a).Perm (b ++ l.flatten) := by
  induction l generalizing i with
  | nil => simp at h
  | cons x l ih =>
      cases i with
      | zero =>
          simp only [List.getElem?_cons_zero, Option.some.injEq] at h
          subst h
          simp only [List.set_cons_zero, List.flatten_cons, List.append_assoc]
          exact List.perm_append_comm.append_left b
      | succ i =>
          simp only [List.getElem?_cons_succ] at h
          simp only [List.set_cons_succ, List.flatten_cons, List.append_assoc]
          calc (x ++ ((l.set i b).flatten ++ a)).Perm (x ++ (b ++ l.flatten)) := (ih i h).append_left x
            _ = (x ++ b) ++ l.flatten := (List.append_assoc _ _ _).symm
            _ |>.Perm ((b ++ x) ++ l.flatten) := List.perm_append_comm.append_right _
            _ = b ++ (x ++ l.flatten) := List.append_assoc _ _ _

-- Every number below the counter is either taken or waiting, exactly once.
structure Shared (total : Nat) (taken : List Nat) (q : WorkQueue) : Prop where
  split : (taken ++ q.todos).Perm (List.range (min q.next total))
  left_last : ∀ p ∈ q.pullers, p.left = true → p.todo = [] ∧ total ≤ q.next

theorem range_append_chunk (chunk total t : Nat) (h : t < total) :
    List.range (min t total) ++ chunkAt chunk total t = List.range (min (t + chunk) total) := by
  unfold chunkAt
  rw [List.range_eq_range', List.range_eq_range']
  have := @List.range'_append 0 (min t total) (min chunk (total - t)) 1
  rw [show 0 + 1 * min t total = t by omega] at this
  rw [this]
  congr 1
  omega

theorem Shared.pull {total : Nat} {taken : List Nat} {q : WorkQueue} (h : Shared total taken q)
    (chunk i : Nat) :
    Shared total (taken ++ (pull chunk total q i).1.toList) (pull chunk total q i).2 := by
  unfold WorkQueue.pull
  cases hp : q.pullers[i]? with
  | none => simpa using h
  | some p =>
      have hmem : p ∈ q.pullers := List.mem_of_getElem? hp
      have hget : (q.pullers.map (·.todo))[i]? = some p.todo := by rw [List.getElem?_map, hp]; rfl
      dsimp only
      by_cases hleft : p.left
      · simpa [hleft] using h
      · rw [if_neg hleft]
        cases htodo : p.todo with
        | cons k rest =>
            have hset := flatten_set_perm _ i _ rest hget
            rw [htodo] at hset
            refine ⟨?_, ?_⟩
            · refine List.Perm.trans ?_ h.split
              simp only [todos, List.map_set, Option.toList_some, List.append_assoc]
              refine List.Perm.append_left taken ?_
              -- k moves from the worker's list to the numbers taken
              have : (rest ++ ([k] ++ ((q.pullers.map (·.todo)).set i rest).flatten)).Perm
                  (rest ++ (q.pullers.map (·.todo)).flatten) := by
                refine List.Perm.trans ?_ hset
                rw [← List.append_assoc]
                refine (List.Perm.append_right _ List.perm_append_comm).trans ?_
                exact List.perm_append_comm
              exact (List.perm_append_left_iff rest).mp this
            · intro p' hp' hl
              rcases List.mem_or_eq_of_mem_set hp' with hin | rfl
              · exact h.left_last p' hin hl
              · exact absurd hl hleft
        | nil =>
            rw [htodo] at hget
            dsimp only
            by_cases hmore : q.next < total
            · rw [if_pos hmore]
              have hset := flatten_set_perm _ i _ (chunkAt chunk total q.next) hget
              rw [List.append_nil] at hset
              refine ⟨?_, ?_⟩
              · simp only [todos, List.map_set, Option.toList_none, List.append_nil]
                rw [← range_append_chunk chunk total q.next hmore]
                refine (hset.append_left taken).trans ?_
                refine List.Perm.trans ?_ (h.split.append_right _)
                rw [List.append_assoc]
                exact List.perm_append_comm.append_left taken
              · intro p' hp' hl
                rcases List.mem_or_eq_of_mem_set hp' with hin | rfl
                · have := (h.left_last p' hin hl).2
                  omega
                · exact absurd hl hleft
            · rw [if_neg hmore]
              have hset := flatten_set_perm _ i _ [] hget
              rw [List.append_nil, List.nil_append] at hset
              refine ⟨?_, ?_⟩
              · simp only [todos, List.map_set, Option.toList_none, List.append_nil]
                rw [show min (q.next + chunk) total = min q.next total by omega]
                exact (hset.append_left taken).trans h.split
              · intro p' hp' hl
                rcases List.mem_or_eq_of_mem_set hp' with hin | rfl
                · have := h.left_last p' hin hl
                  exact ⟨this.1, by dsimp only; omega⟩
                · exact ⟨rfl, by dsimp only; omega⟩

theorem Shared.order {total : Nat} {taken : List Nat} {q : WorkQueue} (h : Shared total taken q)
    (chunk : Nat) (schedule : List Nat) :
    Shared total (taken ++ (order chunk total schedule q).1.map Prod.snd) (order chunk total schedule q).2 := by
  induction schedule generalizing taken q with
  | nil => simpa [WorkQueue.order] using h
  | cons i schedule ih =>
      have := ih (h.pull chunk i)
      simp only [WorkQueue.order]
      cases hk : (WorkQueue.pull chunk total q i).1 with
      | none => simpa [hk] using this
      | some k => simpa [hk, List.append_assoc] using this

theorem shared_start (total workers : Nat) : Shared total [] (start workers) := by
  refine ⟨?_, ?_⟩
  · simp [start, todos]
  · intro p hp hl
    rw [(List.mem_replicate.mp hp).2] at hl
    cases hl

theorem pull_length (chunk total : Nat) (q : WorkQueue) (i : Nat) :
    (pull chunk total q i).2.pullers.length = q.pullers.length := by
  unfold pull
  cases q.pullers[i]? with
  | none => rfl
  | some p =>
      cases hleft : p.left with
      | true => simp [hleft]
      | false => cases htodo : p.todo <;> simp [hleft, htodo]

theorem order_length (chunk total : Nat) (schedule : List Nat) (q : WorkQueue) :
    (order chunk total schedule q).2.pullers.length = q.pullers.length := by
  induction schedule generalizing q with
  | nil => rfl
  | cons i schedule ih => exact (ih _).trans (pull_length chunk total q i)

-- Whatever the schedule, once all workers have left every number has been run
-- exactly once.
theorem order_perm (chunk total workers : Nat) (hworkers : 0 < workers) (schedule : List Nat)
    (hdone : (order chunk total schedule (start workers)).2.finished = true) :
    ((order chunk total schedule (start workers)).1.map Prod.snd).Perm (List.range total) := by
  have h := (shared_start total workers).order chunk schedule
  have hn := order_length chunk total schedule (start workers)
  generalize (order chunk total schedule (start workers)) = r at *
  simp only [start, List.length_replicate] at hn
  have hall : ∀ p ∈ r.2.pullers, p.left = true := by simpa [finished] using hdone
  have hnone : r.2.todos = [] := by
    rw [todos, List.flatten_eq_nil_iff]
    intro l hl
    obtain ⟨p, hp, rfl⟩ := List.mem_map.mp hl
    exact (h.left_last p hp (hall p hp)).1
  obtain ⟨p, hp⟩ := List.exists_mem_of_length_pos (by omega : 0 < r.2.pullers.length)
  have hnext := (h.left_last p hp (hall p hp)).2
  simpa [hnone, Nat.min_eq_right hnext] using h.split

theorem pull_lt (chunk total : Nat) (q : WorkQueue) (i k : Nat) (h : (pull chunk total q i).1 = some k) :
    i < q.pullers.length := by
  by_contra hge
  have hnone : q.pullers[i]? = none := List.getElem?_eq_none (by omega)
  simp [pull, hnone] at h

theorem order_worker_lt (chunk total : Nat) (schedule : List Nat) (q : WorkQueue) :
    ∀ p ∈ (order chunk total schedule q).1, p.1 < q.pullers.length := by
  induction schedule generalizing q with
  | nil => simp [order]
  | cons i schedule ih =>
      intro p hp
      rcases List.mem_append.mp hp with hp | hp
      · simp only [Option.mem_toList, Option.map_eq_some_iff] at hp
        obtain ⟨k, hk, rfl⟩ := hp
        exact pull_lt chunk total q i k hk
      · rw [← pull_length chunk total q i]
        exact ih _ p hp

-- Results kept apart by worker and then joined are the results in another order.
theorem collect_perm {α : Type*} (worker : α → Nat) (n : Nat) (l : List α) (h : ∀ x ∈ l, worker x < n) :
    ((List.range n).flatMap fun i => l.filter fun x => worker x = i).Perm l := by
  have hbelow : ∀ n, ((List.range n).flatMap fun i => l.filter fun x => worker x = i).Perm
      (l.filter fun x => worker x < n) := by
    intro n
    induction n with
    | zero => simp
    | succ n ih =>
        rw [List.range_succ, List.flatMap_append, List.flatMap_singleton]
        refine (ih.append_right _).trans ?_
        have hsplit := List.filter_append_perm (fun x => decide (worker x < n))
          (l.filter fun x => worker x < n + 1)
        rw [List.filter_filter, List.filter_filter] at hsplit
        refine List.Perm.trans (List.Perm.of_eq ?_) hsplit
        congr 1
        · refine List.filter_congr fun x _ => ?_
          rw [Bool.eq_iff_iff]
          simp only [Bool.and_eq_true, decide_eq_true_eq]
          omega
        · refine List.filter_congr fun x _ => ?_
          rw [Bool.eq_iff_iff]
          simp only [Bool.and_eq_true, Bool.not_eq_true', decide_eq_true_eq, decide_eq_false_iff_not]
          omega
  have hall : l.filter (fun x => worker x < n) = l := List.filter_eq_self.mpr fun x hx => by simpa using h x hx
  exact (hbelow n).trans (List.Perm.of_eq hall)

-- What is left to do; every action of a worker that has not left takes some.
def fuel (total : Nat) (q : WorkQueue) : Nat :=
  2 * (total - q.next) + (q.pullers.map fun p => p.todo.length + if p.left then 0 else 1).sum

theorem sum_set_add (l : List Puller) (f : Puller → Nat) (i : Nat) (p p' : Puller) (h : l[i]? = some p) :
    ((l.set i p').map f).sum + f p = (l.map f).sum + f p' := by
  induction l generalizing i with
  | nil => simp at h
  | cons x l ih =>
      cases i with
      | zero =>
          simp only [List.getElem?_cons_zero, Option.some.injEq] at h
          subst h
          simp only [List.set_cons_zero, List.map_cons, List.sum_cons]
          omega
      | succ i =>
          simp only [List.getElem?_cons_succ] at h
          have := ih i h
          simp only [List.set_cons_succ, List.map_cons, List.sum_cons]
          omega

theorem pull_fuel (chunk total : Nat) (hchunk : 0 < chunk) (q : WorkQueue) (i : Nat) (p : Puller)
    (hp : q.pullers[i]? = some p) (hleft : p.left = false) :
    fuel total (pull chunk total q i).2 < fuel total q := by
  have hsum := fun p' => sum_set_add q.pullers (fun p => p.todo.length + if p.left then 0 else 1) i p p' hp
  unfold pull fuel
  simp only [hp, hleft, Bool.false_eq_true, if_false]
  cases htodo : p.todo with
  | cons k rest =>
      have := hsum { p with todo := rest }
      simp only [htodo, hleft, List.length_cons, Bool.false_eq_true, if_false] at this ⊢
      omega
  | nil =>
      dsimp only
      by_cases hmore : q.next < total
      · have := hsum { p with todo := chunkAt chunk total q.next }
        simp only [htodo, hleft, hmore, if_true, List.length_nil, chunkAt, List.length_range',
          Bool.false_eq_true, if_false] at this ⊢
        omega
      · have := hsum { p with left := true }
        simp only [htodo, hleft, hmore, if_false, if_true, List.length_nil, Bool.false_eq_true] at this ⊢
        omega

-- The workers can always run to the end.
theorem exists_finish (chunk total : Nat) (hchunk : 0 < chunk) (q : WorkQueue) :
    ∃ schedule, (order chunk total schedule q).2.finished = true := by
  induction hn : fuel total q using Nat.strong_induction_on generalizing q with
  | _ n ih =>
      by_cases hdone : q.finished = true
      · exact ⟨[], hdone⟩
      · simp only [finished, List.all_eq_true, not_forall] at hdone
        obtain ⟨p, hp, hleft⟩ := hdone
        obtain ⟨i, hi⟩ := List.mem_iff_getElem?.mp hp
        have hless := pull_fuel chunk total hchunk q i p hi (by simpa using hleft)
        obtain ⟨schedule, hfin⟩ := ih _ (hn ▸ hless) _ rfl
        exact ⟨i :: schedule, hfin⟩

end WorkQueue

end TetherDesk.Lib
