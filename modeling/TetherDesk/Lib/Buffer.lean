import TetherDesk.Lib.BackReference
import Mathlib.Logic.Function.Basic
import Mathlib.Tactic.SplitIfs

namespace TetherDesk.Lib.Buffer

open TetherDesk.Lib.BackReference

variable {α : Type*}

-- One element of an array: what happened to lie there, or what has been
-- written since.
inductive Cell (α : Type*)
  | stale (a : α)
  | written (a : α)

def Cell.value : Cell α → α
  | .stale a => a
  | .written a => a

-- An array that is written while its length stays fixed.
abbrev Cells (α : Type*) := List (Cell α)

def fresh (old : List α) : Cells α := old.map Cell.stale

-- The first elements are written, the others are as they were.
def filled (out old : List α) : Cells α := out.map Cell.written ++ old.map Cell.stale

-- Every access is checked: none is an access outside the array, or a read of
-- an element that nothing has been written to.
def load (buf : Cells α) (i : Nat) : Option α :=
  match buf[i]? with
  | some (.written a) => some a
  | _ => none

def store (buf : Cells α) (i : Nat) (a : α) : Option (Cells α) :=
  if i < buf.length then some (buf.set i (.written a)) else none

def loadAll (buf : Cells α) : Nat → Nat → Option (List α)
  | _, 0 => some []
  | i, n + 1 => do
      let a ← load buf i
      let rest ← loadAll buf (i + 1) n
      return a :: rest

def storeAll (buf : Cells α) : Nat → List α → Option (Cells α)
  | _, [] => some buf
  | i, a :: rest => do
      let buf ← store buf i a
      storeAll buf (i + 1) rest

-- A block copy inside one array, which must not overlap itself.
def copyBlock (buf : Cells α) (dst src n : Nat) : Option (Cells α) :=
  if src + n ≤ dst ∨ dst + n ≤ src then do
    let block ← loadAll buf src n
    storeAll buf dst block
  else none

-- Element by element, upwards.
def copyForward (buf : Cells α) : Nat → Nat → Nat → Option (Cells α)
  | _, _, 0 => some buf
  | dst, src, n + 1 => do
      let a ← load buf src
      let buf ← store buf dst a
      copyForward buf (dst + 1) (src + 1) n

-- Checked reads of an array that is only read.
def slice (src : List α) (i n : Nat) : Option (List α) :=
  if i + n ≤ src.length then some ((src.drop i).take n) else none

-- A difference of unsigned numbers that may not wrap.
def sub (a b : Nat) : Option Nat := if b ≤ a then some (a - b) else none

-- What the elements are, written or not.
def Agrees (buf : Cells α) (f : Nat → α) : Prop := ∀ i c, buf[i]? = some c → c.value = f i

@[simp] theorem filled_nil (old : List α) : filled [] old = fresh old := rfl

@[simp] theorem filled_length (out old : List α) : (filled out old).length = out.length + old.length := by
  simp [filled]

theorem take_filled (out old : List α) : (filled out old).take out.length = out.map Cell.written := by
  rw [filled, List.take_append_of_le_length (by simp), List.take_of_length_le (by simp)]

@[simp] theorem sub_of_le {a b : Nat} (h : b ≤ a) : sub a b = some (a - b) := if_pos h

@[simp] theorem slice_of_le {src : List α} {i n : Nat} (h : i + n ≤ src.length) :
    slice src i n = some ((src.drop i).take n) := if_pos h

-- What has been written is read back, and nothing else can be read.
theorem load_eq_getElem? (out old : List α) (i : Nat) : load (filled out old) i = out[i]? := by
  unfold load filled
  by_cases h : i < out.length
  · simp [List.getElem?_append_left, h]
  · rw [List.getElem?_append_right (by rw [List.length_map]; omega), List.getElem?_map,
      List.getElem?_eq_none (by omega : out.length ≤ i)]
    cases old[i - (out.map Cell.written).length]? <;> rfl

theorem load_filled (out old : List α) (i : Nat) (h : i < out.length) :
    load (filled out old) i = some out[i] := by
  rw [load_eq_getElem?, List.getElem?_eq_getElem h]

theorem store_filled (out old : List α) (a : α) (h : 0 < old.length) :
    store (filled out old) out.length a = some (filled (out ++ [a]) (old.drop 1)) := by
  cases old with
  | nil => simp at h
  | cons b old => simp [store, filled, List.set_append_right]

-- Writing again where something has been written.
theorem store_set (out old : List α) (i : Nat) (a : α) (h : i < out.length) :
    store (filled out old) i a = some (filled (out.set i a) old) := by
  rw [store, if_pos (by rw [filled_length]; omega), filled, List.set_append_left _ _ (by rwa [List.length_map]),
    ← List.map_set]
  rfl

theorem loadAll_filled (out old : List α) (i n : Nat) (h : i + n ≤ out.length) :
    loadAll (filled out old) i n = some ((out.drop i).take n) := by
  induction n generalizing i with
  | zero => simp [loadAll]
  | succ n ih =>
      rw [loadAll, load_filled out old i (by omega), ih (i + 1) (by omega),
        List.drop_eq_getElem_cons (by omega : i < out.length), List.take_succ_cons]
      rfl

theorem storeAll_filled (out old block : List α) (h : block.length ≤ old.length) :
    storeAll (filled out old) out.length block = some (filled (out ++ block) (old.drop block.length)) := by
  induction block generalizing out old with
  | nil => simp [storeAll]
  | cons a block ih =>
      rw [List.length_cons] at h
      have hnext := ih (out ++ [a]) (old.drop 1) (by rw [List.length_drop]; omega)
      rw [List.length_append, List.length_singleton] at hnext
      rw [storeAll, store_filled out old a (by omega), Option.bind_eq_bind, Option.bind_some, hnext,
        List.append_assoc, List.drop_drop, Nat.add_comm 1, List.length_cons]
      rfl

-- A loop that writes the elements of an array one after the other.
theorem foldlM_store (old : List α) (step : Cells α → Nat → Option (Cells α)) (g : Nat → α) (k : Nat)
    (hk : k ≤ old.length) (hstep : ∀ i < k, ∀ buf, step buf i = store buf i (g i)) :
    (List.range k).foldlM step (fresh old) = some (filled ((List.range k).map g) (old.drop k)) := by
  induction k with
  | zero => rfl
  | succ k ih =>
      have hlen : ((List.range k).map g).length = k := by rw [List.length_map, List.length_range]
      have hstore := store_filled ((List.range k).map g) (old.drop k) (g k) (by rw [List.length_drop]; omega)
      rw [hlen, List.drop_drop] at hstore
      rw [List.range_succ, List.foldlM_append, ih (by omega) (fun i hi => hstep i (by omega)),
        Option.bind_eq_bind, Option.bind_some, List.foldlM_cons, hstep k (by omega), hstore, List.map_append]
      rfl

theorem agrees_fresh (old : List α) (f : Nat → α) (h : ∀ i a, old[i]? = some a → a = f i) :
    Agrees (fresh old) f := by
  intro i c hc
  rw [fresh, List.getElem?_map, Option.map_eq_some_iff] at hc
  obtain ⟨a, ha, rfl⟩ := hc
  exact h i a ha

-- One write changes one element.
theorem store_some (buf : Cells α) (i : Nat) (a : α) (f : Nat → α) (h : i < buf.length) (hf : Agrees buf f) :
    ∃ buf', store buf i a = some buf' ∧ buf'.length = buf.length ∧ Agrees buf' (Function.update f i a) ∧
      buf'[i]? = some (.written a) ∧ ∀ j, j ≠ i → buf'[j]? = buf[j]? := by
  refine ⟨buf.set i (.written a), if_pos h, List.length_set, ?_, ?_, fun j hj => List.getElem?_set_ne hj.symm⟩
  · intro j c hc
    by_cases hj : j = i
    · rw [hj, List.getElem?_set_self h, Option.some.injEq] at hc
      rw [hj, Function.update_self, ← hc]
      rfl
    · rw [List.getElem?_set_ne (Ne.symm hj)] at hc
      rw [Function.update_of_ne hj, hf j c hc]
  · rw [List.getElem?_set_self h]

variable [Inhabited α]

theorem copyForward_filled (out old : List α) (offset n : Nat) (hpos : 0 < offset)
    (hback : offset ≤ out.length) (h : n ≤ old.length) :
    copyForward (filled out old) out.length (out.length - offset) n =
      some (filled (copyBack offset n out) (old.drop n)) := by
  induction n generalizing out old with
  | zero => rfl
  | succ n ih =>
      have hlt : out.length - offset < out.length := by omega
      have hnext := ih (out ++ [out[out.length - offset]]) (old.drop 1)
        (by rw [List.length_append]; omega) (by rw [List.length_drop]; omega)
      rw [List.length_append, List.length_singleton, List.drop_drop,
        show out.length + 1 - offset = out.length - offset + 1 by omega] at hnext
      rw [copyForward, load_filled out old _ hlt, Option.bind_eq_bind, Option.bind_some,
        store_filled out old _ (by omega), Option.bind_eq_bind, Option.bind_some, hnext, copyBack,
        List.getD_eq_getElem _ _ hlt, Nat.add_comm 1]

-- At a distance of at least its own length the block copy does what the copy
-- element by element does.
theorem copyBlock_filled (out old : List α) (offset n : Nat) (hn : n ≤ offset)
    (hback : offset ≤ out.length) (h : n ≤ old.length) :
    copyBlock (filled out old) out.length (out.length - offset) n =
      some (filled (copyBack offset n out) (old.drop n)) := by
  have hblock : ((out.drop (out.length - offset)).take n).length = n := by
    rw [List.length_take, List.length_drop]
    omega
  rw [copyBlock, if_pos (by omega), loadAll_filled out old _ n (by omega), Option.bind_eq_bind,
    Option.bind_some, storeAll_filled out old _ (by omega), hblock, copyBack_eq_block offset n out hn hback]

end TetherDesk.Lib.Buffer
