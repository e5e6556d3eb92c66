import Mathlib.Data.List.TakeWhile
import TetherDesk.Digits
import TetherDesk.Host.Upload

namespace TetherDesk.Host

open TetherDesk.Secure

-- The characters that begin_upload removes from a name, those it strips from the
-- front, and those that end a directory.
def unsafeByte (ch : UInt8) : Bool := ch < 32 ∨ ch ∈ ascii "<>:\"|?*"
def hidingByte (ch : UInt8) : Bool := ch = 46 ∨ ch = 32
def slashByte (ch : UInt8) : Bool := ch = 47 ∨ ch = 92

-- The last component of the announced name without the unsafe characters.
def keptName (rawName : Bytes) : Bytes := (afterLast slashByte rawName).filter fun ch => !unsafeByte ch

-- The 120th byte of that from its end is a dot or a space, and one that is neither
-- stands before it.
def HiddenCut (rawName : Bytes) : Prop :=
  ∃ pre ch tail, keptName rawName = pre ++ ch :: tail ∧ tail.length = 119 ∧ hidingByte ch = true ∧
    ∃ x ∈ pre, hidingByte x = false

-- A name for an entry of a directory that is listed there.
structure Entry (name : Bytes) : Prop where
  nonempty : name ≠ []
  plain : ∀ ch ∈ name, slashByte ch = false ∧ unsafeByte ch = false
  visible : hidingByte (byteAt name 0) = false

-- The name is safe and short, and so is the file, whatever else is in the directory.
structure SafelyNamed (rawName : Bytes) : Prop where
  entry : Entry (safeName rawName)
  short : (safeName rawName).length ≤ 120
  inside : ∀ fileExists dir, ∃ name, Entry name ∧ uploadPath fileExists dir (safeName rawName) =
    dir ++ ascii "/" ++ name

section Parts

variable {s l base ext name : Bytes} {p : UInt8 → Bool}

theorem afterLast_none {ch : UInt8} (h : ch ∈ afterLast p s) : p ch = false := by
  unfold afterLast at h
  rw [List.mem_reverse] at h
  simpa using List.mem_takeWhile_imp h

theorem byteAt_head (h : l ≠ []) : byteAt l 0 = l.head h := by
  cases l with
  | nil => exact absurd rfl h
  | cons x xs => rfl

theorem dropWhile_visible (h : l.dropWhile p ≠ []) : p (byteAt (l.dropWhile p) 0) = false := by
  rw [byteAt_head h]
  exact List.head_dropWhile_not p h

-- Dropping stops where something stands that does not satisfy p.
theorem dropWhile_append_of_mem {x : UInt8} (hx : x ∈ l) (hp : p x = false) (s : Bytes) :
    (l ++ s).dropWhile p = l.dropWhile p ++ s ∧ l.dropWhile p ≠ [] := by
  have hne : l.dropWhile p ≠ [] := fun h => by
    rw [List.dropWhile_eq_nil_iff] at h
    rw [h x hx] at hp
    cases hp
  rw [List.dropWhile_append, if_neg (by simpa using hne)]
  exact ⟨rfl, hne⟩

theorem splitExt_append : (splitExt s).1 ++ (splitExt s).2 = s := by
  unfold splitExt
  dsimp only
  split_ifs
  · exact List.take_append_drop _ s
  · exact List.append_nil s

theorem splitExt_base (h : s ≠ []) : (splitExt s).1 ≠ [] := by
  unfold splitExt
  dsimp only
  split_ifs with hdot
  · intro hnil
    have := congrArg List.length hnil
    rw [List.length_take, List.length_nil] at this
    omega
  · exact h

theorem decimal_plain {n : Nat} {ch : UInt8} (h : ch ∈ decimal n) : slashByte ch = false ∧
    unsafeByte ch = false := by
  have hdigit : isDigitByte ch := repr_digits n ch h
  have hnot : ∀ b ∈ [47, 92] ++ ascii "<>:\"|?*", ch ≠ b := fun b hb => hdigit.ne (by
    revert b
    decide +kernel)
  have hlow : ¬ ch < 32 := fun hlow => absurd (UInt8.lt_of_le_of_lt hdigit.1 hlow) (by decide)
  constructor
  · simp [slashByte, hnot 47, hnot 92]
  · have hmem : ch ∉ ascii "<>:\"|?*" := fun hmem => hnot ch (List.mem_append_right _ hmem) rfl
    simp [unsafeByte, hlow, hmem]

end Parts

section Names

variable {rawName name : Bytes}

-- The name before it is cut.
theorem safeName_eq : safeName rawName =
    let stripped := (keptName rawName).dropWhile hidingByte
    let whole := if stripped = [] then ascii "upload.bin" else stripped
    if whole.length > 120 then whole.drop (whole.length - 120) else whole := by
  have hkept : ∀ l : Bytes, l.filter (fun ch => decide (32 ≤ ch ∧ ch ∉ ascii "<>:\"|?*")) = l.filter fun ch =>
    !unsafeByte ch := by
    intro l
    refine List.filter_congr fun ch _ => ?_
    rw [Bool.eq_iff_iff]
    simp [unsafeByte]
  unfold safeName keptName
  rw [← hkept]
  rfl

theorem keptName_plain {ch : UInt8} (h : ch ∈ keptName rawName) : slashByte ch = false ∧ unsafeByte ch = false := by
  obtain ⟨hmem, hplain⟩ := List.mem_filter.mp h
  exact ⟨afterLast_none hmem, by simpa using hplain⟩

-- A name that was not cut in front of a dot or a space.
theorem safeName_entry (h : ¬ HiddenCut rawName) : Entry (safeName rawName) ∧ (safeName rawName).length ≤ 120 := by
  rw [safeName_eq]
  dsimp only
  by_cases hnil : (keptName rawName).dropWhile hidingByte = []
  · rw [if_pos hnil]
    exact ⟨⟨by decide, by decide +kernel, by decide⟩, by decide⟩
  rw [if_neg hnil]
  have hplain : ∀ ch ∈ (keptName rawName).dropWhile hidingByte, slashByte ch = false ∧
      unsafeByte ch = false := fun ch hch =>
    keptName_plain ((List.dropWhile_suffix hidingByte).subset hch)
  have hvisible := dropWhile_visible hnil
  have hparts : (keptName rawName).takeWhile hidingByte ++ (keptName rawName).dropWhile hidingByte =
      keptName rawName :=
    List.takeWhile_append_dropWhile
  generalize (keptName rawName).dropWhile hidingByte = stripped at hnil hplain hvisible hparts ⊢
  split_ifs with hlong
  · have hlength : (stripped.drop (stripped.length - 120)).length = 120 := by
      rw [List.length_drop]
      omega
    obtain ⟨ch, tail, hcut⟩ :=
      List.exists_cons_of_length_pos (by omega : 0 < (stripped.drop (stripped.length - 120)).length)
    rw [hcut] at hlength ⊢
    refine ⟨⟨by simp, fun x hx => hplain x (List.mem_of_mem_drop (hcut ▸ hx)), ?_⟩, hlength.le⟩
    by_contra hhidden
    refine h ⟨(keptName rawName).takeWhile hidingByte ++ stripped.take (stripped.length - 120), ch, tail, ?_, ?_,
      by simpa [byteAt] using hhidden, byteAt stripped 0, ?_, hvisible⟩
    · rw [List.append_assoc, ← hcut, List.take_append_drop, hparts]
    · simpa using hlength
    · refine List.mem_append_right _ ?_
      rw [byteAt_head hnil, List.mem_take_iff_getElem]
      exact ⟨0, by omega, by simp [List.head_eq_getElem]⟩
  · exact ⟨⟨hnil, hplain, hvisible⟩, by omega⟩

-- A name that was starts with that byte.
theorem safeName_hidden (h : HiddenCut rawName) : hidingByte (byteAt (safeName rawName) 0) = true := by
  obtain ⟨pre, ch, tail, hkept, htail, hhiding, x, hx, hvisible⟩ := h
  obtain ⟨hstripped, hne⟩ := dropWhile_append_of_mem hx hvisible (ch :: tail)
  have hcut : (keptName rawName).dropWhile hidingByte = pre.dropWhile hidingByte ++ ch ::
      tail := by rw [hkept, hstripped]
  have hlength : (pre.dropWhile hidingByte ++ ch :: tail).length = (pre.dropWhile hidingByte).length + 120 := by
    rw [List.length_append, List.length_cons, htail]
  have hpos := List.length_pos_iff.mpr hne
  rw [safeName_eq]
  dsimp only
  rw [hcut, if_neg (List.append_ne_nil_of_left_ne_nil hne _), if_pos (by omega), hlength, Nat.add_sub_cancel,
    List.drop_left]
  exact hhiding

-- The number behind a name changes nothing about its first byte.
theorem splitExt_entry (h : Entry name) (i : Nat) :
    Entry ((splitExt name).1 ++ ascii " (" ++ decimal i ++ ascii ")" ++ (splitExt name).2) := by
  have hparts := splitExt_append (s := name)
  have hbase := splitExt_base h.nonempty
  obtain ⟨x, xs, hx⟩ := List.exists_cons_of_ne_nil hbase
  refine ⟨by rw [hx]; simp, fun ch hch => ?_, ?_⟩
  · simp only [List.mem_append] at hch
    rcases hch with (((hch | hch) | hch) | hch) | hch
    · exact h.plain ch (hparts ▸ List.mem_append_left _ hch)
    · exact (by decide +kernel : ∀ ch ∈ ascii " (", slashByte ch = false ∧ unsafeByte ch = false) ch hch
    · exact decimal_plain hch
    · exact (by decide +kernel : ∀ ch ∈ ascii ")", slashByte ch = false ∧ unsafeByte ch = false) ch hch
    · exact h.plain ch (hparts ▸ List.mem_append_right _ hch)
  · have hfirst := h.visible
    rw [← hparts, hx] at hfirst
    rw [hx]
    exact hfirst

theorem numberedPath_entry (dir : Bytes) (i : Nat) : numberedPath dir (splitExt name).1 (splitExt name).2 i =
    dir ++ ascii "/" ++ ((splitExt name).1 ++ ascii " (" ++ decimal i ++ ascii ")" ++ (splitExt name).2) := by
  unfold numberedPath
  simp only [List.append_assoc]

end Names

section Paths

variable {fileExists : Bytes → Bool} {dir base ext safe : Bytes}

theorem freePath_cases (fuel i : Nat) (path : Bytes) : freePath fileExists dir base ext fuel i path = path ∨
    ∃ j, freePath fileExists dir base ext fuel i path = numberedPath dir base ext j := by
  induction fuel generalizing i path with
  | zero => exact .inl rfl
  | succ fuel ih =>
      unfold freePath
      split
      · rcases ih (i + 1) (numberedPath dir base ext i) with h | ⟨j, h⟩
        · exact .inr ⟨i, h⟩
        · exact .inr ⟨j, h⟩
      · exact .inl rfl

-- The loop ends at a file that exists only if it has found no other.
theorem freePath_exists (fuel i : Nat) (path : Bytes) :
    fileExists (freePath fileExists dir base ext fuel i path) = true ↔
    fileExists path = true ∧ ∀ j, i ≤ j → j < i + fuel → fileExists (numberedPath dir base ext j) = true := by
  induction fuel generalizing i path with
  | zero => exact ⟨fun h => ⟨h, fun j hlow hhigh => absurd hhigh (by omega)⟩, fun h => h.1⟩
  | succ fuel ih =>
      unfold freePath
      by_cases hpath : fileExists path = true
      · rw [if_pos hpath, ih]
        constructor
        · rintro ⟨hfirst, hrest⟩
          refine ⟨hpath, fun j hlow hhigh => ?_⟩
          rcases Nat.eq_or_lt_of_le hlow with rfl | hlow
          · exact hfirst
          · exact hrest j hlow (by omega)
        · rintro ⟨-, hall⟩
          exact ⟨hall i (Nat.le_refl i) (by omega), fun j hlow hhigh => hall j (by omega) (by omega)⟩
      · rw [if_neg hpath]
        exact ⟨fun h => absurd h hpath, fun h => absurd h.1 hpath⟩

theorem uploadPath_entry (h : Entry safe) : ∃ name, Entry name ∧ uploadPath fileExists dir safe =
    dir ++ ascii "/" ++ name := by
  unfold uploadPath
  rcases freePath_cases 999 1 (dir ++ ascii "/" ++ safe) with heq | ⟨j, heq⟩
  · exact ⟨safe, h, heq⟩
  · exact ⟨_, splitExt_entry h j, heq.trans (numberedPath_entry dir j)⟩

-- The names begin_upload tries for a file.
def candidate (dir safe : Bytes) (i : Nat) : Bytes :=
  if i = 0 then dir ++ ascii "/" ++ safe else numberedPath dir (splitExt safe).1 (splitExt safe).2 i

theorem uploadPath_exists : fileExists (uploadPath fileExists dir safe) = true ↔
    ∀ i < 1000, fileExists (candidate dir safe i) = true := by
  unfold uploadPath
  rw [freePath_exists]
  constructor
  · rintro ⟨hfirst, hrest⟩ i hi
    unfold candidate
    split_ifs with hzero
    · exact hfirst
    · exact hrest i (by omega) (by omega)
  · intro hall
    refine ⟨hall 0 (by omega), fun j hlow hhigh => ?_⟩
    have hj := hall j (by omega)
    unfold candidate at hj
    rwa [if_neg (by omega)] at hj

end Paths

-- The names of uploads are safe exactly where the cut to 120 bytes leaves no dot or
-- space in front.
theorem safely_named_iff (rawName : Bytes) : SafelyNamed rawName ↔ ¬ HiddenCut rawName := by
  constructor
  · intro h hcut
    have hvisible := h.entry.visible
    rw [safeName_hidden hcut] at hvisible
    cases hvisible
  · intro h
    obtain ⟨hentry, hshort⟩ := safeName_entry h
    exact ⟨hentry, hshort, fun fileExists dir => uploadPath_entry hentry⟩

theorem upload_saved_as_hidden_file : ¬ ∀ rawName, SafelyNamed rawName := by
  intro h
  have hvisible := (h (ascii "a." ++ List.replicate 119 98)).entry.visible
  revert hvisible
  decide +kernel

end TetherDesk.Host
