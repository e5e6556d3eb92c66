import Mathlib.Data.List.Basic

namespace TetherDesk.Lib.SlidingWindow

-- The times no more than `width` before `now`.
def live (width now : Nat) (times : List Nat) : List Nat := times.filter fun t => now ≤ t + width

theorem live_live (width now now' : Nat) (h : now ≤ now') (times : List Nat) :
    live width now' (live width now times) = live width now' times := by
  unfold live
  rw [List.filter_filter]
  apply List.filter_congr
  intro t _
  by_cases ht : now' ≤ t + width
  · simp [ht, Nat.le_trans h ht]
  · simp [ht]

theorem live_concat (width now t : Nat) (h : now ≤ t + width) (times : List Nat) :
    live width now (times ++ [t]) = live width now times ++ [t] := by
  simp [live, h]

theorem mem_of_mem_live {width now t : Nat} {times : List Nat} (h : t ∈ live width now times) : t ∈ times :=
  List.mem_of_mem_filter h

theorem le_of_mem_live {width now t : Nat} {times : List Nat} (h : t ∈ live width now times) :
    now ≤ t + width := by
  simpa using (List.mem_filter.mp h).2

-- Times in order: when fewer than n are live, the one n places from the end has
-- expired.
theorem expired_of_few (width now n : Nat) (times : List Nat) (hsorted : times.Pairwise (· ≤ ·))
    (hfew : (live width now times).length < n) (i : Nat) (hi : i < times.length)
    (hn : i + n ≤ times.length) : times[i] + width < now := by
  by_contra hlive
  have hall : live width now (times.drop i) = times.drop i := by
    unfold live
    rw [List.filter_eq_self]
    intro t ht
    obtain ⟨j, hj, rfl⟩ := List.mem_iff_getElem.mp ht
    rw [List.getElem_drop]
    rw [List.length_drop] at hj
    have hle : times[i] ≤ times[i + j] := by
      rcases Nat.eq_zero_or_pos j with rfl | hpos
      · exact Nat.le_refl _
      · exact List.pairwise_iff_getElem.mp hsorted i (i + j) hi (by omega) (by omega)
    simp only [decide_eq_true_eq]
    omega
  have hsplit : live width now times = live width now (times.take i) ++ live width now (times.drop i) := by
    unfold live
    rw [← List.filter_append, List.take_append_drop]
  rw [hsplit, hall, List.length_append, List.length_drop] at hfew
  omega

end TetherDesk.Lib.SlidingWindow
