import Mathlib.Data.List.GetD

namespace TetherDesk.Lib.BackReference

variable {α : Type*} [Inhabited α]

-- Append `count` symbols one by one, each read `offset` places before the
-- current end. A count above the offset repeats symbols it has just written.
def copyBack (offset : Nat) : Nat → List α → List α
  | 0, out => out
  | count + 1, out => copyBack offset count (out ++ [out.getD (out.length - offset) default])

theorem copyBack_length (offset count : Nat) (out : List α) :
    (copyBack offset count out).length = out.length + count := by
  induction count generalizing out with
  | zero => rfl
  | succ count ih =>
      rw [copyBack, ih, List.length_append, List.length_singleton]
      omega

-- A back-reference whose symbols agree with the input extends a prefix of the
-- input to a longer prefix.
theorem copyBack_take (input : List α) (pos offset count : Nat)
    (hpos : 1 ≤ offset) (hback : offset ≤ pos) (hlen : pos + count ≤ input.length)
    (hsame : ∀ k < count, input.getD (pos - offset + k) default = input.getD (pos + k) default) :
    copyBack offset count (input.take pos) = input.take (pos + count) := by
  induction count generalizing pos with
  | zero => rfl
  | succ count ih =>
      have hlt : pos < input.length := by omega
      have hl : (input.take pos).length = pos := by simp; omega
      have hread : (input.take pos).getD (pos - offset) default = input[pos] := by
        have hs := hsame 0 (by omega)
        simp only [Nat.add_zero] at hs
        rw [List.getD_eq_getElem?_getD, List.getElem?_take_of_lt (by omega),
          ← List.getD_eq_getElem?_getD, hs, List.getD_eq_getElem _ _ hlt]
      rw [copyBack, hl, hread, List.take_append_getElem hlt]
      rw [ih (pos + 1) (by omega) (by omega)]
      · congr 1
        omega
      · intro k hk
        have hs := hsame (k + 1) (by omega)
        rwa [show pos - offset + (k + 1) = pos + 1 - offset + k by omega,
          show pos + (k + 1) = pos + 1 + k by omega] at hs

-- Without overlap the copy is one block move.
theorem copyBack_eq_block (offset count : Nat) (out : List α)
    (hcount : count ≤ offset) (hback : offset ≤ out.length) :
    copyBack offset count out = out ++ (out.drop (out.length - offset)).take count := by
  induction count generalizing out offset with
  | zero => simp [copyBack]
  | succ count ih =>
      have hlt : out.length - offset < out.length := by omega
      have hl : (out ++ [out.getD (out.length - offset) default]).length - offset =
          out.length - offset + 1 := by
        simp only [List.length_append, List.length_singleton]
        omega
      rw [copyBack, ih offset _ (by omega) (by simp; omega), hl, List.drop_append_of_le_length (by omega),
        List.drop_eq_getElem_cons hlt, List.take_succ_cons, List.getD_eq_getElem _ _ hlt,
        List.take_append_of_le_length (by simp only [List.length_drop]; omega), List.append_assoc]
      rfl

end TetherDesk.Lib.BackReference
