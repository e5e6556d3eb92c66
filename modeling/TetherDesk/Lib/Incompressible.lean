import Mathlib.Algebra.BigOperators.Fin
import Mathlib.Algebra.Order.Ring.GeomSum
import Mathlib.Data.Fintype.BigOperators
import Mathlib.Data.Fintype.Card
import Mathlib.Data.Vector.Basic
import Mathlib.Tactic

namespace TetherDesk.Lib.Incompressible

variable {α : Type*}

-- The words shorter than n, each with one of t tags.
abbrev Short (α : Type*) (t n : Nat) : Type _ := Fin t × (Σ k : Fin n, List.Vector α k)

def Short.word {t n : Nat} (s : Short α t n) : Fin t × List α := (s.1, s.2.2.toList)

theorem exists_short {t n : Nat} (tag : Fin t) {w : List α} (h : w.length < n) : ∃ s : Short α t n,
    s.word = (tag, w) :=
  ⟨(tag, ⟨⟨w.length, h⟩, ⟨w, rfl⟩⟩), rfl⟩

variable [Fintype α]

-- Fewer tags than letters: there are less tagged words shorter than n than words of n
-- letters.
theorem card_short {t : Nat} (ht : t < Fintype.card α) (n : Nat) :
    Fintype.card (Short α t n) < Fintype.card α ^ n := by
  obtain ⟨b, hb⟩ : ∃ b, Fintype.card α = b + 1 := Nat.exists_eq_add_one_of_ne_zero (by omega)
  have hsum : (∑ k ∈ Finset.range n, (b + 1) ^ k) * b + 1 = (b + 1) ^ n := geom_sum_mul_add b n
  calc Fintype.card (Short α t n)
      = t * ∑ k ∈ Finset.range n, (b + 1) ^ k := by
        rw [Fintype.card_prod, Fintype.card_fin, Fintype.card_sigma]
        simp only [card_vector, hb]
        rw [Fin.sum_univ_eq_sum_range fun k => (b + 1) ^ k]
    _ ≤ (∑ k ∈ Finset.range n, (b + 1) ^ k) * b := by
        rw [Nat.mul_comm]
        exact Nat.mul_le_mul_left _ (by omega)
    _ < Fintype.card α ^ n := by
        rw [hb]
        omega

-- A code of the words of n letters that can be decoded makes some word no shorter.
theorem exists_incompressible {t : Nat} (ht : t < Fintype.card α) (n : Nat) (code : (Fin n → α) → Fin t × List α)
    (h : Function.Injective code) : ∃ v, n ≤ (code v).2.length := by
  by_contra hall
  simp only [not_exists, Nat.not_le] at hall
  choose f hf using fun v => exists_short (code v).1 (hall v)
  have hinjective : Function.Injective f :=
    fun v v' hv => h (by rw [← Prod.mk.eta (p := code v), ← hf v, hv, hf v'])
  have hle := Fintype.card_le_of_injective f hinjective
  have hlt : Fintype.card (Short α t n) < Fintype.card α ^ n := card_short ht n
  rw [Fintype.card_fun, Fintype.card_fin] at hle
  omega

end TetherDesk.Lib.Incompressible
