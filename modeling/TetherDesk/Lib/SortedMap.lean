import Mathlib.Order.Lattice

namespace TetherDesk.Lib

-- A finite map kept in the order of its keys.
structure SortedMap (α β : Type*) [LinearOrder α] where
  entries : List (α × β)
  sorted : entries.Pairwise (·.1 < ·.1)

namespace SortedMap

variable {α β : Type*} [LinearOrder α]

def empty : SortedMap α β := ⟨[], .nil⟩

@[ext] theorem ext {m m' : SortedMap α β} (h : m.entries = m'.entries) : m = m' := by
  cases m
  cases m'
  cases h
  rfl

def lookup (m : SortedMap α β) (k : α) : Option β := (m.entries.find? (·.1 = k)).map Prod.snd

def insertEntry (k : α) (v : β) : List (α × β) → List (α × β)
  | [] => [(k, v)]
  | e :: rest =>
      if k < e.1 then (k, v) :: e :: rest
      else if k = e.1 then (k, v) :: rest
      else e :: insertEntry k v rest

theorem mem_insertEntry {k : α} {v : β} {x : α × β} :
    ∀ {es : List (α × β)}, x ∈ insertEntry k v es → x = (k, v) ∨ x ∈ es := by
  intro es
  induction es with
  | nil => exact fun h => .inl (List.mem_singleton.mp h)
  | cons e rest ih =>
    intro h
    rw [insertEntry] at h
    split_ifs at h
    · exact List.mem_cons.mp h
    · exact (List.mem_cons.mp h).imp_right (List.mem_cons_of_mem e)
    · rcases List.mem_cons.mp h with rfl | h
      · exact .inr List.mem_cons_self
      · exact (ih h).imp_right (List.mem_cons_of_mem e)

theorem insertEntry_sorted (k : α) (v : β) :
    ∀ {es : List (α × β)}, es.Pairwise (·.1 < ·.1) → (insertEntry k v es).Pairwise (·.1 < ·.1) := by
  intro es
  induction es with
  | nil => exact fun _ => List.pairwise_singleton _ _
  | cons e rest ih =>
    intro h
    obtain ⟨hfirst, hrest⟩ := List.pairwise_cons.mp h
    rw [insertEntry]
    split_ifs with hlt heq
    · refine List.pairwise_cons.mpr ⟨fun x hx => ?_, h⟩
      rcases List.mem_cons.mp hx with rfl | hx
      · exact hlt
      · exact lt_trans hlt (hfirst x hx)
    · exact List.pairwise_cons.mpr ⟨fun x hx => heq ▸ hfirst x hx, hrest⟩
    · refine List.pairwise_cons.mpr ⟨fun x hx => ?_, ih hrest⟩
      rcases mem_insertEntry hx with rfl | hx
      · exact lt_of_le_of_ne (not_lt.mp hlt) (Ne.symm heq)
      · exact hfirst x hx

def insert (m : SortedMap α β) (k : α) (v : β) : SortedMap α β :=
  ⟨insertEntry k v m.entries, insertEntry_sorted k v m.sorted⟩

theorem find_insertEntry_self (k : α) (v : β) (es : List (α × β)) :
    (insertEntry k v es).find? (·.1 = k) = some (k, v) := by
  induction es with
  | nil => simp [insertEntry]
  | cons e rest ih =>
    rw [insertEntry]
    split_ifs with hlt heq
    · simp
    · simp
    · rw [List.find?_cons_of_neg (by simpa using Ne.symm heq), ih]

theorem find_insertEntry_ne {k k' : α} (hk : k' ≠ k) (v : β) (es : List (α × β)) :
    (insertEntry k v es).find? (·.1 = k') = es.find? (·.1 = k') := by
  have hnew : ∀ rest : List (α × β), ((k, v) :: rest).find? (·.1 = k') = rest.find? (·.1 = k') := fun rest =>
    List.find?_cons_of_neg (by simpa using hk.symm)
  induction es with
  | nil => exact hnew []
  | cons e rest ih =>
    rw [insertEntry]
    split_ifs with hlt heq
    · exact hnew _
    · rw [hnew, List.find?_cons_of_neg (by simpa [← heq] using hk.symm)]
    · rw [List.find?_cons, List.find?_cons, ih]

theorem lookup_insert (m : SortedMap α β) (k : α) (v : β) (k' : α) :
    (m.insert k v).lookup k' = if k' = k then some v else m.lookup k' := by
  rw [lookup]
  split_ifs with hk
  · rw [hk, insert, find_insertEntry_self]
    rfl
  · rw [insert, find_insertEntry_ne hk]
    rfl

-- A key above every other one goes to the end.
theorem insertEntry_last {k : α} {v : β} :
    ∀ {es : List (α × β)}, (∀ e ∈ es, e.1 < k) → insertEntry k v es = es ++ [(k, v)] := by
  intro es
  induction es with
  | nil => exact fun _ => rfl
  | cons e rest ih =>
    intro h
    have he := h e List.mem_cons_self
    rw [insertEntry, if_neg (lt_asymm he), if_neg (ne_of_gt he), ih fun x hx => h x (List.mem_cons_of_mem e hx)]
    rfl

-- Inserting the entries of a map in its own order copies it.
theorem foldl_insert (m : SortedMap α β) :
    m.entries.foldl (fun m e => m.insert e.1 e.2) empty = m := by
  suffices h : ∀ (rest : List (α × β)) (done : SortedMap α β), (done.entries ++ rest).Pairwise (·.1 < ·.1) →
      (rest.foldl (fun m e => m.insert e.1 e.2) done).entries = done.entries ++ rest from
    ext (h m.entries empty m.sorted)
  intro rest
  induction rest with
  | nil => exact fun done _ => (List.append_nil _).symm
  | cons e rest ih =>
    intro done hsorted
    have hbelow : ∀ x ∈ done.entries, x.1 < e.1 := fun x hx =>
      (List.pairwise_append.mp hsorted).2.2 x hx e List.mem_cons_self
    have hlast : (done.insert e.1 e.2).entries = done.entries ++ [e] := insertEntry_last hbelow
    rw [List.foldl_cons, ih, hlast, List.append_assoc, List.singleton_append]
    rw [hlast, List.append_assoc, List.singleton_append]
    exact hsorted

end SortedMap

end TetherDesk.Lib
