import TetherDesk.Secure.Reference

namespace TetherDesk.Secure

theorem pieces_nil (n : Nat) : pieces n [] = [] := by
  have hnone : (0 + n - 1) / n = 0 := by
    cases n with
    | zero => rfl
    | succ n => exact Nat.div_eq_of_lt (by omega)
  rw [pieces, List.length_nil, hnone]
  rfl

theorem pieces_cons {n : Nat} (hn : 0 < n) {p : Bytes} (h : p ≠ []) :
    pieces n p = p.take n :: pieces n (p.drop n) := by
  have hpos := List.length_pos_iff.mpr h
  have hcount : (p.length + n - 1) / n = ((p.drop n).length + n - 1) / n + 1 := by
    rw [List.length_drop]
    rcases Nat.le_total p.length n with hle | hle
    · rw [Nat.sub_eq_zero_of_le hle, Nat.zero_add, Nat.div_eq_of_lt (by omega : n - 1 < n),
        show p.length + n - 1 = p.length - 1 + n by omega, Nat.add_div_right _ hn,
        Nat.div_eq_of_lt (by omega : p.length - 1 < n)]
    · rw [show p.length + n - 1 = p.length - n + n - 1 + n by omega, Nat.add_div_right _ hn]
  unfold pieces
  rw [hcount, List.range_succ_eq_map, List.map_cons, List.map_map, Nat.zero_mul, List.drop_zero]
  congr 1
  refine List.map_congr_left fun i _ => ?_
  rw [Function.comp_apply, List.drop_drop, Nat.succ_mul, Nat.add_comm n]

end TetherDesk.Secure
