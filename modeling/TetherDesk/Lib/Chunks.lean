import Mathlib.Data.List.GetD

namespace TetherDesk.Lib.Chunks

variable {α β : Type*}

-- A list built from pieces of one length is indexed by piece and offset.
theorem length_flatMap_const (l : List α) (f : α → List β) (n : Nat)
    (hf : ∀ a ∈ l, (f a).length = n) : (l.flatMap f).length = l.length * n := by
  induction l with
  | nil => simp
  | cons a l ih =>
      rw [List.flatMap_cons, List.length_append, hf a List.mem_cons_self,
        ih fun b hb => hf b (List.mem_cons_of_mem _ hb), List.length_cons, Nat.add_mul, Nat.one_mul,
        Nat.add_comm]

theorem drop_flatMap_const (l : List α) (f : α → List β) (n i : Nat) (hi : i < l.length)
    (hf : ∀ a ∈ l, (f a).length = n) :
    (l.flatMap f).drop (i * n) = f l[i] ++ (l.drop (i + 1)).flatMap f := by
  induction l generalizing i with
  | nil => simp at hi
  | cons a l ih =>
      have ha := hf a List.mem_cons_self
      cases i with
      | zero => simp
      | succ i =>
          rw [List.flatMap_cons, Nat.add_mul, Nat.one_mul, ← ha, Nat.add_comm, ← List.drop_drop,
            List.drop_left, ha]
          exact ih i (by simpa using hi) fun b hb => hf b (List.mem_cons_of_mem _ hb)

theorem getD_flatMap_const (l : List α) (f : α → List β) (d : β) (n i k : Nat) (hi : i < l.length)
    (hk : k < n) (hf : ∀ a ∈ l, (f a).length = n) :
    (l.flatMap f).getD (i * n + k) d = (f l[i]).getD k d := by
  rw [List.getD_eq_getElem?_getD, ← List.getElem?_drop, drop_flatMap_const l f n i hi hf,
    List.getElem?_append_left (by rw [hf _ (List.getElem_mem hi)]; exact hk),
    ← List.getD_eq_getElem?_getD]

end TetherDesk.Lib.Chunks
