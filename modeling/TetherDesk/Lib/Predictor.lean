import Mathlib.Data.List.GetD
import Mathlib.Data.List.Basic

namespace TetherDesk.Lib.Predictor

section

variable {α β : Type*} [Inhabited α] (predict : List α → Nat → β)
  (code restore : α → β → α)

-- Each sample coded against the prediction made from the samples.
def residuals (samples : List α) : List α :=
  (List.range samples.length).map fun i => code (samples.getD i default) (predict samples i)

-- Undo position i in place; the samples before i are already restored.
def restoreAt (samples : List α) (i : Nat) : List α :=
  samples.set i (restore (samples.getD i default) (predict samples i))

def restoreAll (count : Nat) (samples : List α) : List α :=
  (List.range count).foldl (restoreAt predict restore) samples

-- The prediction at i reads earlier positions only.
def Causal : Prop :=
  ∀ (s t : List α) (i : Nat), (∀ j < i, s.getD j default = t.getD j default) → predict s i = predict t i

variable {predict code restore}

theorem residuals_length (samples : List α) :
    (residuals predict code samples).length = samples.length := by
  simp [residuals]

theorem residuals_getD (samples : List α) (i : Nat) (hi : i < samples.length) :
    (residuals predict code samples).getD i default =
      code (samples.getD i default) (predict samples i) := by
  simp [residuals, hi]

-- After k steps the first k samples are restored and the rest still residuals.
theorem restoreAll_upTo (hcausal : Causal predict) (hinv : ∀ x p, restore (code x p) p = x)
    (samples : List α) (k : Nat) (hk : k ≤ samples.length) :
    restoreAll predict restore k (residuals predict code samples) =
      samples.take k ++ (residuals predict code samples).drop k := by
  induction k with
  | zero => simp [restoreAll]
  | succ k ih =>
      have hlt : k < samples.length := hk
      have hr : k < (residuals predict code samples).length := by rwa [residuals_length]
      have hl : (samples.take k).length = k := by simp; omega
      unfold restoreAll at ih ⊢
      rw [List.range_succ, List.foldl_append, ih (Nat.le_of_lt hlt), List.foldl_cons, List.foldl_nil]
      have hp : predict (samples.take k ++ (residuals predict code samples).drop k) k =
          predict samples k := by
        apply hcausal
        intro j hj
        rw [List.getD_eq_getElem?_getD, List.getElem?_append_left (by omega),
          List.getElem?_take_of_lt hj, ← List.getD_eq_getElem?_getD]
      have hx : (samples.take k ++ (residuals predict code samples).drop k).getD k default =
          code (samples.getD k default) (predict samples k) := by
        rw [← @residuals_getD _ _ _ predict code samples k hlt, List.getD_eq_getElem?_getD,
          List.getElem?_append_right (by omega), hl, List.getElem?_drop,
          ← List.getD_eq_getElem?_getD]
        congr 1
        omega
      rw [restoreAt, hp, hx, hinv, List.set_append_right _ _ (by omega), hl, Nat.sub_self,
        List.drop_eq_getElem_cons hr, List.set_cons_zero, List.getD_eq_getElem _ _ hlt,
        ← List.take_append_getElem hlt, List.append_assoc]
      rfl

theorem restoreAll_residuals (hcausal : Causal predict) (hinv : ∀ x p, restore (code x p) p = x)
    (samples : List α) :
    restoreAll predict restore samples.length (residuals predict code samples) = samples := by
  rw [restoreAll_upTo hcausal hinv samples _ (Nat.le_refl _), List.take_length,
    List.drop_of_length_le (Nat.le_of_eq (residuals_length samples)), List.append_nil]

end

end TetherDesk.Lib.Predictor
