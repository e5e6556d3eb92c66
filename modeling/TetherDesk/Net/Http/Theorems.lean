import Mathlib.Data.List.Infix
import TetherDesk.Net.Http

namespace TetherDesk.Net

theorem findSub_isSome {pat s : Bytes} : (findSub pat s).isSome = true ↔ pat <:+: s := by
  induction s with
  | nil =>
      unfold findSub
      rw [List.infix_nil]
      split_ifs with h <;> simp [h]
  | cons b s ih =>
      unfold findSub
      rw [List.infix_cons_iff, ← ih, ← List.isPrefixOf_iff_prefix]
      by_cases hstart : pat.isPrefixOf (b :: s) = true
      · simp [hstart]
      · rw [if_neg hstart, Option.isSome_map]
        simp [hstart]

-- The position found is that of the pattern.
theorem findSub_some {pat s : Bytes} {k : Nat} (h : findSub pat s = some k) : pat <+: s.drop k ∧ k ≤ s.length := by
  induction s generalizing k with
  | nil =>
      unfold findSub at h
      split_ifs at h with hpat
      obtain rfl := Option.some.inj h
      exact ⟨hpat ▸ List.nil_prefix, Nat.le_refl 0⟩
  | cons b s ih =>
      unfold findSub at h
      split_ifs at h with hstart
      · obtain rfl := Option.some.inj h
        exact ⟨List.isPrefixOf_iff_prefix.mp hstart, Nat.zero_le _⟩
      · obtain ⟨j, hj, rfl⟩ := Option.map_eq_some_iff.mp h
        obtain ⟨hat, hle⟩ := ih hj
        exact ⟨hat, Nat.succ_le_succ hle⟩

theorem findSub_none {pat s : Bytes} (h : ¬ pat <:+: s) : findSub pat s = none := by
  rw [← Option.not_isSome_iff_eq_none, findSub_isSome]
  exact h

-- The pattern is found behind a text in which it does not start.
theorem findSub_append {pat pre : Bytes} (hpat : pat ≠ []) (post : Bytes) (h : ¬ pat <:+: pre ++ pat.dropLast) :
    findSub pat (pre ++ (pat ++ post)) = some pre.length := by
  induction pre with
  | nil =>
      cases pat with
      | nil => exact absurd rfl hpat
      | cons b pat =>
          rw [List.nil_append, List.cons_append, findSub, if_pos]
          · rfl
          · exact List.isPrefixOf_iff_prefix.mpr ⟨post, rfl⟩
  | cons b pre ih =>
      have hrest : ¬ pat <:+: pre ++ pat.dropLast := fun hin => h (hin.trans ⟨[b], [], by simp⟩)
      have hstart : ¬ pat <+: b :: (pre ++ (pat ++ post)) := by
        intro hprefix
        have hlong : pat.length ≤ (b :: pre ++ pat.dropLast).length := by
          rw [List.length_append, List.length_cons, List.length_dropLast]
          omega
        have hwhole : b :: pre ++ pat.dropLast <+: b :: (pre ++ (pat ++ post)) := by
          refine ⟨[pat.getLast hpat] ++ post, ?_⟩
          rw [List.append_assoc, ← List.append_assoc pat.dropLast, List.dropLast_append_getLast, List.cons_append]
        exact h (List.prefix_of_prefix_length_le hprefix hwhole hlong).isInfix
      rw [List.cons_append, findSub, if_neg (by rwa [List.isPrefixOf_iff_prefix]), ih hrest]
      rfl

end TetherDesk.Net
