import Mathlib.Logic.Function.Basic

namespace TetherDesk.Lib.Disk

variable {P β : Type*} [DecidableEq P]

-- The content of the file at each path, none where there is none.
abbrev Files (P β : Type*) := P → Option (List β)

-- The operations take effect one after the other; rename replaces an existing
-- file at once.
inductive FileOp (P β : Type*)
  | truncate (p : P)
  | append (p : P) (b : β)
  | chmod (p : P)
  | remove (p : P)
  | rename (p q : P)

def apply (d : Files P β) : FileOp P β → Files P β
  | .truncate p => Function.update d p (some [])
  | .append p b => Function.update d p ((d p).map (· ++ [b]))
  | .chmod _ => d
  | .remove p => Function.update d p none
  | .rename p q =>
      match d p with
      | none => d
      | some content => Function.update (Function.update d q (some content)) p none

def run (d : Files P β) (ops : List (FileOp P β)) : Files P β := ops.foldl apply d

@[simp] theorem run_nil (d : Files P β) : run d [] = d := rfl

@[simp] theorem run_cons (d : Files P β) (op : FileOp P β) (ops : List (FileOp P β)) :
    run d (op :: ops) = run (apply d op) ops := rfl

theorem run_append (d : Files P β) (ops more : List (FileOp P β)) : run d (ops ++ more) = run (run d ops) more :=
  List.foldl_append

-- Bytes written one by one to the end of a file.
theorem run_appends (d : Files P β) (p : P) (content bytes : List β) (h : d p = some content) :
    run d (bytes.map (FileOp.append p)) = Function.update d p (some (content ++ bytes)) := by
  induction bytes generalizing d content with
  | nil =>
      rw [List.append_nil, ← h, Function.update_eq_self]
      rfl
  | cons b bytes ih =>
      rw [List.map_cons, run_cons, apply, h, Option.map_some, ih _ (content ++ [b]) (Function.update_self p _ d),
        Function.update_idem, List.append_assoc, List.singleton_append]

end TetherDesk.Lib.Disk
