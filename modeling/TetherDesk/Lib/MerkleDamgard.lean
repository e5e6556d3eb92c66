import Mathlib.Data.List.Basic
import Mathlib.Tactic.SplitIfs

namespace TetherDesk.Lib.MerkleDamgard

variable {σ α : Type*} {n : Nat}

-- The complete blocks of a list.
def blocks (n : Nat) (xs : List α) : List (List α) :=
  (List.range (xs.length / n)).map fun i => (xs.drop (i * n)).take n

-- The state after a list of blocks.
def iterate (f : σ → List α → σ) (n : Nat) (h : σ) (xs : List α) : σ := (blocks n xs).foldl f h

theorem blocks_short {xs : List α} (h : xs.length < n) : blocks n xs = [] := by
  unfold blocks
  rw [Nat.div_eq_of_lt h]
  rfl

theorem blocks_cons {xs : List α} (hn : 0 < n) (h : n ≤ xs.length) :
    blocks n xs = xs.take n :: blocks n (xs.drop n) := by
  have hcount : xs.length / n = (xs.drop n).length / n + 1 := by
    rw [List.length_drop, ← Nat.add_div_right _ hn, Nat.sub_add_cancel h]
  unfold blocks
  rw [hcount, List.range_succ_eq_map, List.map_cons, List.map_map, Nat.zero_mul, List.drop_zero]
  congr 1
  refine List.map_congr_left fun i _ => ?_
  rw [Function.comp_apply, List.drop_drop, Nat.succ_mul, Nat.add_comm n]

theorem iterate_step (f : σ → List α → σ) (h : σ) {xs : List α} (hn : 0 < n) (hlong : n ≤ xs.length) :
    iterate f n h xs = iterate f n (f h (xs.take n)) (xs.drop n) := by
  unfold iterate
  rw [blocks_cons hn hlong, List.foldl_cons]

theorem iterate_short (f : σ → List α → σ) (h : σ) {xs : List α} (hshort : xs.length < n) :
    iterate f n h xs = h := by
  unfold iterate
  rw [blocks_short hshort]
  rfl

theorem iterate_one (f : σ → List α → σ) (h : σ) {xs : List α} (hn : 0 < n) (hlength : xs.length = n) :
    iterate f n h xs = f h xs := by
  rw [iterate_step f h hn (Nat.le_of_eq hlength.symm), List.take_of_length_le (Nat.le_of_eq hlength),
    List.drop_eq_nil_of_le (Nat.le_of_eq hlength),
    iterate_short f _ (by simpa using hn)]

-- A hash fed element by element: the state, and what has come since the last
-- complete block.
structure Stream (σ α : Type*) (n : Nat) where
  h : σ
  rest : List α
  short : rest.length < n

theorem Stream.ext' {s t : Stream σ α n} (hh : s.h = t.h) (hrest : s.rest = t.rest) : s = t := by
  cases s
  cases t
  subst hh hrest
  rfl

section Absorb

variable (f : σ → List α → σ)

def Stream.push (s : Stream σ α n) (a : α) : Stream σ α n :=
  if hfull : s.rest.length + 1 = n then ⟨f s.h (s.rest ++ [a]), [], by simp; omega⟩
  else ⟨s.h, s.rest ++ [a], by have := s.short; simp; omega⟩

def Stream.absorb (s : Stream σ α n) (xs : List α) : Stream σ α n := xs.foldl (Stream.push f) s

@[simp] theorem absorb_nil (s : Stream σ α n) : s.absorb f [] = s := rfl

-- How the input is cut does not matter.
theorem absorb_append (s : Stream σ α n) (xs ys : List α) : s.absorb f (xs ++ ys) = (s.absorb f xs).absorb f ys :=
  List.foldl_append

theorem push_short (s : Stream σ α n) (a : α) (h : s.rest.length + 1 < n) :
    (s.push f a).h = s.h ∧ (s.push f a).rest = s.rest ++ [a] := by
  unfold Stream.push
  rw [dif_neg (by omega)]
  exact ⟨rfl, rfl⟩

theorem push_full (s : Stream σ α n) (a : α) (h : s.rest.length + 1 = n) :
    (s.push f a).h = f s.h (s.rest ++ [a]) ∧ (s.push f a).rest = [] := by
  unfold Stream.push
  rw [dif_pos h]
  exact ⟨rfl, rfl⟩

theorem absorb_short (s : Stream σ α n) (xs : List α) (h : s.rest.length + xs.length < n) :
    (s.absorb f xs).h = s.h ∧ (s.absorb f xs).rest = s.rest ++ xs := by
  induction xs generalizing s with
  | nil => exact ⟨rfl, (List.append_nil _).symm⟩
  | cons a xs ih =>
      rw [List.length_cons] at h
      obtain ⟨hpush, hrest⟩ := push_short f s a (by omega)
      obtain ⟨hh, hall⟩ := ih (s.push f a) (by rw [hrest, List.length_append, List.length_singleton]; omega)
      refine ⟨hh.trans hpush, hall.trans ?_⟩
      rw [hrest, List.append_assoc, List.singleton_append]

-- The last element of a block runs the block function.
theorem absorb_full (s : Stream σ α n) (xs : List α) (h : s.rest.length + xs.length = n) :
    (s.absorb f xs).h = f s.h (s.rest ++ xs) ∧ (s.absorb f xs).rest = [] := by
  have hshort := s.short
  rcases List.eq_nil_or_concat xs with rfl | ⟨xs, a, rfl⟩
  · rw [List.length_nil] at h
    omega
  · rw [List.concat_eq_append, List.length_append, List.length_singleton] at h
    obtain ⟨hh, hrest⟩ := absorb_short f s xs (by omega)
    obtain ⟨hlast, hnil⟩ := push_full f (s.absorb f xs) a (by rw [hrest, List.length_append]; omega)
    rw [List.concat_eq_append, absorb_append]
    refine ⟨hlast.trans ?_, hnil⟩
    rw [hh, hrest, List.append_assoc]

-- What is left is the remainder of the length.
theorem absorb_rest_length (s : Stream σ α n) (xs : List α) :
    (s.absorb f xs).rest.length = (s.rest.length + xs.length) % n := by
  induction xs generalizing s with
  | nil => exact (Nat.mod_eq_of_lt s.short).symm
  | cons a xs ih =>
      refine (ih (s.push f a)).trans ?_
      have hshort := s.short
      rw [List.length_cons, Nat.add_comm xs.length, ← Nat.add_assoc]
      by_cases hfull : s.rest.length + 1 = n
      · rw [(push_full f s a hfull).2, List.length_nil, Nat.zero_add, hfull, Nat.add_mod_left]
      · rw [(push_short f s a (by omega)).2, List.length_append, List.length_singleton]

def Stream.start (hn : 0 < n) (h : σ) : Stream σ α n := ⟨h, [], hn⟩

-- Feeding the elements of a list is running the block function over its blocks.
theorem absorb_start (hn : 0 < n) (h : σ) (xs : List α) :
    ((Stream.start hn h).absorb f xs).h = iterate f n h xs := by
  induction hl : xs.length using Nat.strongRecOn generalizing h xs with
  | ind l ih =>
    by_cases hlong : n ≤ xs.length
    · obtain ⟨hh, hrest⟩ := absorb_full f (Stream.start hn h) (xs.take n) (by simp [Stream.start, hlong])
      have hblock : (Stream.start hn h).absorb f (xs.take n) = Stream.start hn (f h (xs.take n)) :=
        Stream.ext' hh hrest
      have htail := ih (xs.drop n).length (by rw [List.length_drop]; omega) (f h (xs.take n)) (xs.drop n) rfl
      rw [iterate_step f h hn hlong, ← htail, ← hblock, ← absorb_append, List.take_append_drop]
    · rw [iterate_short f h (by omega)]
      exact (absorb_short f (Stream.start hn h) xs (by simp [Stream.start]; omega)).1

end Absorb

end TetherDesk.Lib.MerkleDamgard
