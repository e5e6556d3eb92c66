import TetherDesk.Secure

namespace TetherDesk.Secure

section Memo

variable {α β : Type} [BEq α] [LawfulBEq α]

-- A function with some of its values looked up.
def memo (table : List (α × β)) (f : α → β) (x : α) : β := (table.lookup x).getD (f x)

theorem memo_eq {table : List (α × β)} {f : α → β} (h : ∀ p ∈ table, f p.1 = p.2) : memo table f = f := by
  funext x
  unfold memo
  cases hx : table.lookup x with
  | none => rfl
  | some y =>
      obtain ⟨before, after, rfl, -⟩ := List.lookup_eq_some_iff.mp hx
      exact (h (x, y) (List.mem_append_right _ List.mem_cons_self)).symm

end Memo

-- The two hashes of an HMAC, with the inner one's value.
def hmacHashes (key msg inner mac : Bytes) : List (Bytes × Bytes) :=
  [((padBlock key).map (· ^^^ 0x36) ++ msg, inner), ((padBlock key).map (· ^^^ 0x5c) ++ inner, mac)]

end TetherDesk.Secure
