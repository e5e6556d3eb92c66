import Mathlib.Data.Finset.Card
import Mathlib.Logic.Function.Basic
import Mathlib.Data.Finset.Range

namespace TetherDesk.Lib.LinearProbe

section

variable {κ ν : Type*} [DecidableEq κ]

abbrev Slots (κ ν : Type*) := Nat → Option (ν × κ)

-- Step from a slot to the next while it holds another key.
def probe (size : Nat) (slots : Slots κ ν) (key : κ) : Nat → Nat → Nat
  | 0, s => s
  | fuel + 1, s =>
      match slots s with
      | some (_, other) => if other ≠ key then probe size slots key fuel ((s + 1) % size) else s
      | none => s

-- A slot where the search may stop.
def Settled (slots : Slots κ ν) (key : κ) (s : Nat) : Prop :=
  slots s = none ∨ ∃ value, slots s = some (value, key)

def filled (size : Nat) (slots : Slots κ ν) : Nat :=
  ((Finset.range size).filter fun s => (slots s).isSome).card

-- Either the search settles, or every slot it passed is in use.
theorem probe_settled_or_full (size : Nat) (slots : Slots κ ν) (key : κ) (fuel s : Nat)
    (hs : s < size) :
    Settled slots key (probe size slots key fuel s) ∨
      ∀ k < fuel, (slots ((s + k) % size)).isSome := by
  induction fuel generalizing s with
  | zero => exact Or.inr fun k hk => absurd hk (Nat.not_lt_zero k)
  | succ fuel ih =>
      unfold probe
      cases hslot : slots s with
      | none => exact Or.inl (Or.inl hslot)
      | some entry =>
          obtain ⟨value, other⟩ := entry
          by_cases hkey : other = key
          · subst hkey
            simp only [ne_eq, not_true_eq_false, if_false]
            exact Or.inl (Or.inr ⟨value, hslot⟩)
          · simp only [ne_eq, hkey, not_false_eq_true, if_true]
            rcases ih ((s + 1) % size) (Nat.mod_lt _ (by omega)) with h | h
            · exact Or.inl h
            · refine Or.inr fun k hk => ?_
              cases k with
              | zero => simp [Nat.mod_eq_of_lt hs, hslot]
              | succ k =>
                  have hk' := h k (by omega)
                  rw [Nat.mod_add_mod] at hk'
                  rwa [show s + (k + 1) = s + 1 + k by omega]

-- A table with a free slot settles every search.
theorem probe_settled (size : Nat) (slots : Slots κ ν) (key : κ) (s : Nat) (hs : s < size)
    (hfree : filled size slots < size) :
    Settled slots key (probe size slots key size s) := by
  rcases probe_settled_or_full size slots key size s hs with h | h
  · exact h
  · exfalso
    have hall : (Finset.range size).filter (fun t => (slots t).isSome) = Finset.range size := by
      apply Finset.filter_true_of_mem
      intro t ht
      rw [Finset.mem_range] at ht
      have := h ((t + size - s) % size) (Nat.mod_lt _ (by omega))
      rwa [Nat.add_mod_mod, show s + (t + size - s) = t + size by omega, Nat.add_mod_right,
        Nat.mod_eq_of_lt ht] at this
    rw [filled, hall, Finset.card_range] at hfree
    omega

-- The first k slots of a search hold other keys.
def Passed (size : Nat) (slots : Slots κ ν) (key : κ) (s k : Nat) : Prop :=
  ∀ j < k, ∃ value other, slots ((s + j) % size) = some (value, other) ∧ other ≠ key

theorem probe_passes (size : Nat) (slots : Slots κ ν) (key : κ) (fuel s : Nat) (hs : s < size) :
    ∃ k ≤ fuel, probe size slots key fuel s = (s + k) % size ∧ Passed size slots key s k := by
  induction fuel generalizing s with
  | zero => exact ⟨0, le_rfl, (Nat.mod_eq_of_lt hs).symm, fun j hj => absurd hj (Nat.not_lt_zero j)⟩
  | succ fuel ih =>
      have hstop : ∃ k ≤ fuel + 1, s = (s + k) % size ∧ Passed size slots key s k :=
        ⟨0, Nat.zero_le _, (Nat.mod_eq_of_lt hs).symm, fun j hj => absurd hj (Nat.not_lt_zero j)⟩
      unfold probe
      cases hslot : slots s with
      | none => exact hstop
      | some entry =>
          obtain ⟨value, other⟩ := entry
          by_cases hkey : other = key
          · simpa only [ne_eq, hkey, not_true_eq_false, if_false] using hstop
          · simp only [ne_eq, hkey, not_false_eq_true, if_true]
            obtain ⟨k, hk, hprobe, hpassed⟩ := ih ((s + 1) % size) (Nat.mod_lt _ (by omega))
            refine ⟨k + 1, by omega, ?_, fun j hj => ?_⟩
            · rw [hprobe, Nat.mod_add_mod, Nat.add_assoc, Nat.add_comm 1]
            · cases j with
              | zero => exact ⟨value, other, by rw [Nat.add_zero, Nat.mod_eq_of_lt hs, hslot], hkey⟩
              | succ j =>
                  have hj' := hpassed j (by omega)
                  rwa [Nat.mod_add_mod, Nat.add_assoc, Nat.add_comm 1] at hj'

theorem probe_of_passed {size : Nat} {slots : Slots κ ν} {key : κ} {s k fuel : Nat} (hs : s < size)
    (h : Passed size slots key s k) : probe size slots key (k + fuel) s =
      probe size slots key fuel ((s + k) % size) := by
  induction k generalizing s with
  | zero => rw [Nat.zero_add, Nat.add_zero, Nat.mod_eq_of_lt hs]
  | succ k ih =>
      obtain ⟨value, other, hslot, hne⟩ := h 0 (Nat.succ_pos k)
      rw [Nat.add_zero, Nat.mod_eq_of_lt hs] at hslot
      have hrest : Passed size slots key ((s + 1) % size) k := by
        intro j hj
        have hj' := h (j + 1) (by omega)
        rwa [Nat.mod_add_mod, Nat.add_assoc, Nat.add_comm 1]
      rw [Nat.add_right_comm, probe, hslot]
      simp only [ne_eq, hne, not_false_eq_true, if_true]
      rw [ih (Nat.mod_lt _ (by omega)) hrest, Nat.mod_add_mod, Nat.add_assoc, Nat.add_comm 1]

-- Every key lies where its search comes to.
def Placed (size : Nat) (hash : κ → Nat) (slots : Slots κ ν) : Prop :=
  ∀ t value key, slots t = some (value, key) →
    ∃ k < size, t = (hash key + k) % size ∧ Passed size slots key (hash key) k

variable {size : Nat} {hash : κ → Nat} {slots : Slots κ ν} {key : κ}

theorem Placed.found (h : Placed size hash slots) (hhash : hash key < size) {t : Nat} {value : ν}
    (ht : slots t = some (value, key)) : probe size slots key size (hash key) = t := by
  obtain ⟨k, hk, rfl, hpassed⟩ := h t value key ht
  obtain ⟨fuel, hfuel⟩ : ∃ fuel, size = k + (fuel + 1) := ⟨size - k - 1, by omega⟩
  have hprobe : probe size slots key (k + (fuel + 1)) (hash key) =
      probe size slots key (fuel + 1) ((hash key + k) % size) := probe_of_passed hhash hpassed
  rw [← hfuel] at hprobe
  rw [hprobe, probe, ht]
  simp

-- A search that comes to a free slot is for a key that is nowhere.
theorem Placed.absent (h : Placed size hash slots) (hhash : hash key < size)
    (hnone : slots (probe size slots key size (hash key)) = none) (t : Nat) (value : ν) :
    slots t ≠ some (value, key) := by
  intro ht
  rw [h.found hhash ht, ht] at hnone
  exact Option.some_ne_none _ hnone

theorem Placed.insert (h : Placed size hash slots) (hhash : hash key < size)
    (hnone : slots (probe size slots key size (hash key)) = none) (value : ν) :
    Placed size hash (Function.update slots (probe size slots key size (hash key)) (some (value, key))) := by
  have hkept : ∀ other s k, Passed size slots other s k →
      Passed size (Function.update slots (probe size slots key size (hash key)) (some (value, key))) other s k := by
    intro other s k hpassed j hj
    obtain ⟨v, o, hslot, hne⟩ := hpassed j hj
    refine ⟨v, o, ?_, hne⟩
    rw [Function.update_of_ne, hslot]
    intro heq
    rw [heq, hnone] at hslot
    exact Option.some_ne_none _ hslot.symm
  intro t v other ht
  by_cases hts : t = probe size slots key size (hash key)
  · rw [hts, Function.update_self, Option.some.injEq, Prod.mk.injEq] at ht
    obtain ⟨-, rfl⟩ := ht
    obtain ⟨k, hk, hprobe, hpassed⟩ := probe_passes size slots key size (hash key) hhash
    refine ⟨k, Nat.lt_of_le_of_ne hk ?_, hts.trans hprobe, hkept _ _ _ hpassed⟩
    -- a search through all slots would be back at the first one
    rintro rfl
    obtain ⟨v', o, hslot, -⟩ := hpassed 0 (by omega)
    rw [hprobe, Nat.add_mod_right] at hnone
    rw [Nat.add_zero, hnone] at hslot
    exact Option.some_ne_none _ hslot.symm
  · rw [Function.update_of_ne hts] at ht
    obtain ⟨k, hk, hat, hpassed⟩ := h t v other ht
    exact ⟨k, hk, hat, hkept _ _ _ hpassed⟩

omit [DecidableEq κ] in
theorem filled_update_le (size : Nat) (slots : Slots κ ν) (s : Nat) (entry : ν × κ) :
    filled size (Function.update slots s (some entry)) ≤ filled size slots + 1 := by
  unfold filled
  have hsub : (Finset.range size).filter (fun t => (Function.update slots s (some entry) t).isSome) ⊆
      insert s ((Finset.range size).filter fun t => (slots t).isSome) := by
    intro t ht
    rw [Finset.mem_filter] at ht
    by_cases h : t = s
    · exact Finset.mem_insert.mpr (Or.inl h)
    · rw [Function.update_of_ne h] at ht
      exact Finset.mem_insert_of_mem (Finset.mem_filter.mpr ht)
  exact (Finset.card_le_card hsub).trans (Finset.card_insert_le _ _)

end

end TetherDesk.Lib.LinearProbe
