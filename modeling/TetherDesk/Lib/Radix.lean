import Mathlib.Algebra.BigOperators.Fin
import Mathlib.Algebra.BigOperators.Intervals
import Mathlib.Algebra.Order.Ring.Int
import Mathlib.Tactic.Ring
import Mathlib.Tactic.LinearCombination

namespace TetherDesk.Lib.Radix

-- A loop over all indices, as a fold that may fail: the invariant of i steps.
theorem finRange_foldlM {σ : Type} {n : Nat} {f : σ → Fin n → Option σ} (P : Nat → σ → Prop) {s : σ} (hs : P 0 s)
    (hstep : ∀ (i : Fin n) (s : σ), P i s → ∃ s', f s i = some s' ∧ P (i + 1) s') :
    ∃ s', (List.finRange n).foldlM f s = some s' ∧ P n s' := by
  induction n generalizing P s with
  | zero => exact ⟨s, rfl, hs⟩
  | succ n ih =>
      obtain ⟨s₁, hf, hs₁⟩ := hstep 0 s hs
      obtain ⟨s', hfold, hs'⟩ := ih (f := fun s i => f s i.succ) (fun i => P (i + 1)) hs₁ fun i => hstep i.succ
      refine ⟨s', ?_, hs'⟩
      rw [List.finRange_succ, List.foldlM_cons, hf, Option.bind_eq_bind, Option.bind_some, List.foldlM_map]
      exact hfold

-- The number with these limbs in base b, the lowest first. A limb is any integer.
def value {n : Nat} (b : Int) (v : Vector Int n) : Int := ∑ i : Fin n, v[i] * b ^ i.val

-- No limb is further from 0 than a bound.
def Bounded {n : Nat} (v : Vector Int n) (bound : Int) : Prop := ∀ i : Fin n, -bound ≤ v[i] ∧ v[i] ≤ bound

-- Every limb is a digit.
def Digits {n : Nat} (b : Int) (v : Vector Int n) : Prop := ∀ i : Fin n, 0 ≤ v[i] ∧ v[i] < b

section Limbs

variable {n : Nat} {b : Int}

theorem getElem_set (v : Vector Int n) (i j : Fin n) (x : Int) : (v.set i x)[j] = if i = j then x else v[j] := by
  rw [Fin.getElem_fin, Vector.getElem_set]
  simp only [Fin.ext_iff, Fin.getElem_fin]

theorem ext_getElem {v w : Vector Int n} (h : ∀ i : Fin n, v[i] = w[i]) : v = w := Vector.ext fun i hi => h ⟨i, hi⟩

theorem getElem_ofFn (f : Fin n → Int) (i : Fin n) : (Vector.ofFn f)[i] = f i := by
  rw [Fin.getElem_fin, Vector.getElem_ofFn]

theorem value_set (v : Vector Int n) (i : Fin n) (x : Int) :
    value b (v.set i x) = value b v + (x - v[i]) * b ^ i.val := by
  have hterm : ∀ j : Fin n, (v.set i x)[j] * b ^ j.val = v[j] * b ^ j.val + if i = j then (x - v[i]) * b ^
      i.val else 0 := by
    intro j
    rw [getElem_set]
    split
    · next h =>
        subst h
        ring
    · rw [add_zero]
  unfold value
  rw [Finset.sum_congr rfl fun j _ => hterm j, Finset.sum_add_distrib, Finset.sum_ite_eq,
    if_pos (Finset.mem_univ i)]

-- A limb with something added.
def raise (v : Vector Int n) (i : Fin n) (x : Int) : Vector Int n := v.set i (v[i] + x)

theorem getElem_raise (v : Vector Int n) (i j : Fin n) (x : Int) : (raise v i x)[j] = v[j] + if i =
    j then x else 0 := by
  unfold raise
  rw [getElem_set]
  split
  · next h => rw [h]
  · rw [add_zero]

theorem value_raise (v : Vector Int n) (i : Fin n) (x : Int) : value b (raise v i x) = value b v + x *
    b ^ i.val := by
  unfold raise
  rw [value_set, add_sub_cancel_left]

-- A limb with what it takes becomes a digit, and the next limb takes the rest.
theorem value_digit (v : Vector Int n) (i : Fin n) {x k : Int} (hx : x = v[i] + k) :
    value b (v.set i (x % b)) + x / b * b ^ (i.val + 1) = value b v + k * b ^ i.val := by
  have hdiv := Int.emod_add_mul_ediv x b
  rw [value_set, pow_succ]
  linear_combination b ^ i.val * (hdiv + hx)

theorem value_ofFn (f : Fin n → Int) : value b (Vector.ofFn f) = ∑ i : Fin n, f i * b ^ i.val :=
  Finset.sum_congr rfl fun i _ => by rw [getElem_ofFn]

theorem Bounded.mono {v : Vector Int n} {x y : Int} (h : Bounded v x) (hxy : x ≤ y) : Bounded v y :=
  fun i => ⟨by have := (h i).1; omega, by have := (h i).2; omega⟩

theorem Digits.bounded {v : Vector Int n} (h : Digits b v) : Bounded v b :=
  fun i => ⟨by have := h i; omega, by have := h i; omega⟩

theorem Bounded.raise {v : Vector Int n} {x y c : Int} (h : Bounded v x) (i : Fin n) (hc : -y ≤ c ∧ c ≤ y) :
    Bounded (raise v i c) (x + y) := by
  intro j
  have := h j
  rw [getElem_raise]
  split
  · omega
  · omega

theorem value_replicate : value b (Vector.replicate n 0) = 0 := by
  refine Finset.sum_eq_zero fun i _ => ?_
  rw [Fin.getElem_fin, Vector.getElem_replicate, zero_mul]

-- The lower limbs, and the upper ones as a number of their own.
theorem value_split {m : Nat} (v : Vector Int (m + n)) :
    value b v = ∑ i : Fin m, v[Fin.castAdd n i] * b ^ i.val + b ^ m * ∑ i : Fin n, v[Fin.natAdd m i] *
      b ^ i.val := by
  unfold value
  rw [Fin.sum_univ_add, Finset.mul_sum]
  congr 1
  refine Finset.sum_congr rfl fun i _ => ?_
  have hpow : b ^ (Fin.natAdd m i).val = b ^ m * b ^ i.val := pow_add b m i
  rw [hpow]
  ring

theorem digits_sum_lt (hb : 0 < b) (f : Fin n → Int) (hf : ∀ i, 0 ≤ f i ∧ f i < b) :
    0 ≤ ∑ i : Fin n, f i * b ^ i.val ∧ ∑ i : Fin n, f i * b ^ i.val < b ^ n := by
  induction n with
  | zero => simp
  | succ n ih =>
      obtain ⟨hlow, hhigh⟩ := ih (fun i => f i.castSucc) fun i => hf i.castSucc
      have hpow : 0 < b ^ n := pow_pos hb n
      obtain ⟨hlast, hlast'⟩ := hf (Fin.last n)
      have hprod : 0 ≤ f (Fin.last n) * b ^ n := mul_nonneg hlast hpow.le
      have hprod' : f (Fin.last n) * b ^ n ≤ (b - 1) * b ^ n := mul_le_mul_of_nonneg_right (by omega) hpow.le
      rw [Fin.sum_univ_castSucc, Fin.val_last, pow_succ]
      simp only [Fin.val_castSucc]
      refine ⟨by omega, ?_⟩
      rw [sub_mul, one_mul, mul_comm b] at hprod'
      omega

theorem Digits.value_lt {v : Vector Int n} (hb : 0 < b) (h : Digits b v) : 0 ≤ value b v ∧ value b v < b ^ n :=
  digits_sum_lt hb _ h

theorem sum_first (f : Fin (n + 1) → Int) :
    ∑ i : Fin (n + 1), f i * b ^ i.val = f 0 + b * ∑ i : Fin n, f i.succ * b ^ i.val := by
  rw [Fin.sum_univ_succ, Finset.mul_sum, Fin.val_zero, pow_zero, mul_one]
  congr 1
  refine Finset.sum_congr rfl fun i _ => ?_
  rw [Fin.val_succ, pow_succ]
  ring

-- The first digit is the remainder.
theorem Digits.first {v : Vector Int (n + 1)} (h : Digits b v) : value b v % b = v[(0 : Fin (n + 1))] := by
  have hfirst := h 0
  have hrest : value b v = v[(0 : Fin (n + 1))] + b * ∑ i : Fin n, v[i.succ] * b ^ i.val := sum_first fun i => v[i]
  rw [hrest, Int.add_mul_emod_self_left, Int.emod_eq_of_lt hfirst.1 hfirst.2]

-- A number's digits give its lower part.
theorem sum_digits (N b : Nat) : ∑ i : Fin n, N / b ^ i.val % b * b ^ i.val = N % b ^ n := by
  induction n with
  | zero => simp [Nat.mod_one]
  | succ n ih =>
      rw [Fin.sum_univ_castSucc]
      simp only [Fin.val_castSucc, Fin.val_last]
      rw [ih, pow_succ, Nat.mod_mul, Nat.mul_comm (b ^ n)]

theorem value_toList (v : Vector Int n) : value b v = v.toList.foldr (fun x acc => x + b * acc) 0 := by
  have hlist : ∀ {k : Nat} (f : Fin k → Int),
      (List.ofFn f).foldr (fun x acc => x + b * acc) 0 = ∑ i : Fin k, f i * b ^ i.val := by
    intro k f
    induction k with
    | zero => simp
    | succ k ih =>
        rw [List.ofFn_succ, List.foldr_cons, ih, sum_first]
  have hv : v.toList = List.ofFn fun i : Fin n => v[i] := by
    refine List.ext_getElem (by simp) fun i _ _ => ?_
    simp
  rw [hv, hlist]
  rfl

end Limbs

-- A loop whose steps each add to the number and let no limb grow by more than a bound.
theorem foldlM_value {ι : Type} {n : Nat} {b step most : Int} {f : Vector Int n → ι → Option (Vector Int n)}
    (y : ι → Int)
    (hf : ∀ v j bound, Bounded v bound → bound + step ≤ most →
      ∃ v', f v j = some v' ∧ Bounded v' (bound + step) ∧ value b v' = value b v + y j)
    (hstep : 0 ≤ step) (l : List ι) {v : Vector Int n} {bound : Int} (hv : Bounded v bound)
    (hmost : bound + l.length * step ≤ most) :
    ∃ v', l.foldlM f v = some v' ∧ Bounded v' (bound + l.length * step) ∧
        value b v' = value b v + (l.map y).sum := by
  induction l generalizing v bound with
  | nil => exact ⟨v, rfl, by simpa using hv, by simp⟩
  | cons j l ih =>
      have hlen : ((j :: l).length : Int) * step = step + l.length * step := by
        rw [List.length_cons]
        push_cast
        ring
      have hpos : 0 ≤ (l.length : Int) * step := mul_nonneg (Int.natCast_nonneg _) hstep
      rw [hlen] at hmost ⊢
      obtain ⟨v₁, hf₁, hv₁, hvalue₁⟩ := hf v j bound hv (by omega)
      obtain ⟨v', hfold, hv', hvalue'⟩ := ih hv₁ (by omega)
      refine ⟨v', ?_, by rwa [← add_assoc], ?_⟩
      · rw [List.foldlM_cons, hf₁, Option.bind_eq_bind, Option.bind_some, hfold]
      · rw [hvalue', hvalue₁, List.map_cons, List.sum_cons, add_assoc]

end TetherDesk.Lib.Radix
