import Mathlib.Data.Nat.Digits.Defs
import TetherDesk.Bytes

namespace TetherDesk

def isDigitByte (c : UInt8) : Prop := 48 ≤ c ∧ c ≤ 57

instance : DecidablePred isDigitByte := fun _ => inferInstanceAs (Decidable (_ ∧ _))

theorem digitChar_byte {c : Char} (h : c.isDigit = true) :
    isDigitByte (UInt8.ofNat c.toNat) ∧ (UInt8.ofNat c.toNat).toNat - 48 = c.toNat - '0'.toNat := by
  obtain ⟨hlow, hhigh⟩ : 48 ≤ c.toNat ∧ c.toNat ≤ 57 := by
    simpa [Char.isDigit, UInt32.le_iff_toNat_le] using h
  have hbyte : (UInt8.ofNat c.toNat).toNat = c.toNat := UInt8.toNat_ofNat_of_lt' (lt_of_le_of_lt hhigh (by decide))
  refine ⟨?_, by rw [hbyte]; rfl⟩
  rw [isDigitByte, UInt8.le_iff_toNat_le, UInt8.le_iff_toNat_le, hbyte]
  exact ⟨hlow, hhigh⟩

theorem isDigitByte.ne {c d : UInt8} (h : isDigitByte c) (hd : ¬ isDigitByte d) : c ≠ d := fun he => hd (he ▸ h)

theorem repr_digits (n : Nat) : ∀ c ∈ ascii n.repr, isDigitByte c := by
  intro c hc
  obtain ⟨d, hd, rfl⟩ := List.mem_map.mp hc
  rw [Nat.toList_repr] at hd
  exact (digitChar_byte (Nat.isDigit_of_mem_toDigits (by decide) (by decide) hd)).1

theorem digits_repr (n : Nat) :
    (ascii n.repr).foldl (fun (acc : Int) c => acc * 10 + (c.toNat - 48 : Nat)) 0 = n := by
  suffices h : ∀ (cs : List Char) (acc : Nat), (∀ c ∈ cs, c.isDigit = true) →
      (cs.map fun c => UInt8.ofNat c.toNat).foldl (fun (acc : Int) c => acc * 10 + (c.toNat - 48 : Nat)) acc =
        (Nat.ofDigitChars 10 cs acc : Nat) by
    have hrepr := h n.repr.toList 0 fun c hc => by
      rw [Nat.toList_repr] at hc
      exact Nat.isDigit_of_mem_toDigits (by decide) (by decide) hc
    rw [Nat.toList_repr, Nat.ofDigitChars_ten_toDigits] at hrepr
    rw [ascii, Nat.toList_repr]
    exact hrepr
  intro cs
  induction cs with
  | nil => exact fun acc _ => rfl
  | cons c cs ih =>
    intro acc hcs
    have hdigit := (digitChar_byte (hcs c List.mem_cons_self)).2
    rw [List.map_cons, List.foldl_cons, hdigit, Nat.ofDigitChars_cons,
      ← ih _ fun d hd => hcs d (List.mem_cons_of_mem c hd)]
    congr 1
    push_cast
    omega

end TetherDesk
