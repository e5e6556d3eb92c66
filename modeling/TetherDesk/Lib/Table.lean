import Mathlib.Data.List.Forall2
import Mathlib.Data.List.Nodup

namespace TetherDesk.Lib.Table

-- A table of records that is updated in place: row by row the new rows are related
-- to the old ones.
abbrev Evolves {α : Type*} (R : α → α → Prop) (old new : List α) : Prop := List.Forall₂ R old new

section

variable {α : Type*} {R S T : α → α → Prop} {l l' l'' : List α}

theorem Evolves.rfl (h : ∀ a ∈ l, R a a) : Evolves R l l := List.forall₂_same.mpr h

theorem Evolves.map {f : α → α} (h : ∀ a ∈ l, R a (f a)) : Evolves R l (l.map f) := by
  rw [Evolves, List.forall₂_map_right_iff, List.forall₂_same]
  exact h

theorem Evolves.comp (h : ∀ a b c, R a b → S b c → T a c) (h₁ : Evolves R l l') (h₂ : Evolves S l' l'') :
    Evolves T l l'' := by
  induction h₁ generalizing l'' with
  | nil =>
      cases h₂
      exact .nil
  | cons hab _ ih =>
      cases h₂ with
      | cons hbc htail => exact .cons (h _ _ _ hab hbc) (ih htail)

theorem Evolves.with_mem (h : Evolves R l l') : Evolves (fun a b => a ∈ l ∧ R a b) l l' := by
  induction h with
  | nil => exact .nil
  | cons hab _ ih =>
      refine .cons ⟨List.mem_cons_self, hab⟩ (ih.imp fun _ _ hcd => ?_)
      exact ⟨List.mem_cons_of_mem _ hcd.1, hcd.2⟩

theorem Evolves.new_row (h : Evolves R l l') {b : α} (hb : b ∈ l') : ∃ a ∈ l, R a b := by
  induction h with
  | nil => cases hb
  | cons hab _ ih =>
      cases hb with
      | head => exact ⟨_, List.mem_cons_self, hab⟩
      | tail _ hb =>
          obtain ⟨a, ha, hr⟩ := ih hb
          exact ⟨a, List.mem_cons_of_mem _ ha, hr⟩

theorem Evolves.old_row (h : Evolves R l l') {a : α} (ha : a ∈ l) : ∃ b ∈ l', R a b := by
  induction h with
  | nil => cases ha
  | cons hab _ ih =>
      cases ha with
      | head => exact ⟨_, List.mem_cons_self, hab⟩
      | tail _ ha =>
          obtain ⟨b, hb, hr⟩ := ih ha
          exact ⟨b, List.mem_cons_of_mem _ hb, hr⟩

-- What no row changes is the same list of values before and after.
theorem Evolves.column {β : Type*} (col : α → β) (h : Evolves R l l') (hcol : ∀ a b, R a b → col b = col a) :
    l'.map col = l.map col := by
  induction h with
  | nil => rfl
  | cons hab _ ih => rw [List.map_cons, List.map_cons, hcol _ _ hab, ih]

theorem Evolves.countP_le {p q : α → Bool} (h : Evolves R l l') (hle : ∀ a b, R a b → q b = true → p a = true) :
    l'.countP q ≤ l.countP p := by
  induction h with
  | nil => exact Nat.le_refl _
  | cons hab _ ih =>
      rw [List.countP_cons, List.countP_cons]
      have := hle _ _ hab
      split <;> split <;> grind

end

section Keys

variable {α κ : Type*} (key : α → κ)

-- With distinct keys a key names one row.
theorem row_unique {l : List α} (h : (l.map key).Nodup) {a b : α} (ha : a ∈ l) (hb : b ∈ l) (hkey : key a = key b) :
    a = b := List.inj_on_of_nodup_map h ha hb hkey

theorem find_row [DecidableEq κ] {l : List α} (h : (l.map key).Nodup) {a : α} (ha : a ∈ l) :
    l.find? (fun b => key b = key a) = some a := by
  induction l with
  | nil => cases ha
  | cons b l ih =>
      rw [List.map_cons, List.nodup_cons] at h
      by_cases hb : key b = key a
      · rw [List.find?_cons_of_pos (by simpa using hb)]
        cases ha with
        | head => rfl
        | tail _ ha => exact absurd (List.mem_map_of_mem ha) (hb ▸ h.1)
      · rw [List.find?_cons_of_neg (by simpa using hb)]
        cases ha with
        | head => exact absurd rfl hb
        | tail _ ha => exact ih h.2 ha

-- With distinct keys, allowing one more row counts one more at most.
theorem countP_key_le [DecidableEq κ] (p : α → Bool) {l : List α} (h : (l.map key).Nodup) (k : κ) :
    l.countP (fun a => p a || decide (key a = k)) ≤ l.countP p + 1 := by
  induction l with
  | nil => simp
  | cons a l ih =>
      rw [List.map_cons, List.nodup_cons] at h
      rw [List.countP_cons, List.countP_cons]
      by_cases ha : key a = k
      · have hrest : l.countP (fun a => p a || decide (key a = k)) = l.countP p := by
          refine List.countP_congr fun b hb => ?_
          have hne : key b ≠ k := fun hk => h.1 (ha ▸ hk ▸ List.mem_map_of_mem hb)
          simp [hne]
        rw [hrest]
        split <;> split <;> omega
      · have hsame : (p a || decide (key a = k)) = p a := by simp [ha]
        have := ih h.2
        rw [hsame]
        omega

end Keys

end TetherDesk.Lib.Table
