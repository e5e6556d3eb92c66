import TetherDesk.Client.Store
import TetherDesk.Digits
import TetherDesk.Reader.Theorems

namespace TetherDesk.Client

open TetherDesk.Lib

def cutStep (sep : UInt8) (acc : List Bytes × Bytes) (c : UInt8) : List Bytes × Bytes :=
  if c = sep then (acc.1 ++ [acc.2], []) else (acc.1, acc.2 ++ [c])

theorem cutAt_eq (sep : UInt8) (text : Bytes) : cutAt sep text = text.foldl (cutStep sep) ([], []) := rfl

theorem cutStep_foldl_of_notMem {sep : UInt8} {text : Bytes} (h : sep ∉ text) (out : List Bytes) (cur : Bytes) :
    text.foldl (cutStep sep) (out, cur) = (out, cur ++ text) := by
  induction text generalizing cur with
  | nil => rw [List.append_nil]; rfl
  | cons c text ih =>
    have hc : c ≠ sep := fun he => h (he ▸ List.mem_cons_self)
    rw [List.foldl_cons, cutStep, if_neg hc, ih fun hm => h (List.mem_cons_of_mem c hm), List.append_assoc]
    rfl

theorem cutStep_foldl_out (sep : UInt8) (text : Bytes) (out : List Bytes) (cur : Bytes) :
    text.foldl (cutStep sep) (out, cur) =
      (out ++ (text.foldl (cutStep sep) ([], cur)).1, (text.foldl (cutStep sep) ([], cur)).2) := by
  induction text generalizing out cur with
  | nil => simp
  | cons c text ih =>
    rw [List.foldl_cons, List.foldl_cons, cutStep, cutStep]
    split_ifs
    · rw [ih (out ++ [cur]), ih ([] ++ [cur])]
      simp
    · rw [ih out]

theorem cutAt_of_notMem {sep : UInt8} {text : Bytes} (h : sep ∉ text) : cutAt sep text = ([], text) := by
  rw [cutAt_eq, cutStep_foldl_of_notMem h]
  rfl

theorem cutAt_append {sep : UInt8} {piece : Bytes} (h : sep ∉ piece) (rest : Bytes) :
    cutAt sep (piece ++ sep :: rest) = (piece :: (cutAt sep rest).1, (cutAt sep rest).2) := by
  rw [cutAt_eq, cutAt_eq, List.foldl_append, cutStep_foldl_of_notMem h, List.foldl_cons, cutStep, if_pos rfl,
    cutStep_foldl_out]
  rfl

section Escaping

theorem unesc_cons {c : UInt8} (hc : c ≠ 92) (rest : Bytes) : unesc (c :: rest) = c :: unesc rest := by
  cases rest with
  | nil => rfl
  | cons n rest => rw [unesc, if_neg hc]

theorem unesc_of_notMem {s : Bytes} (h : (92 : UInt8) ∉ s) : unesc s = s := by
  induction s with
  | nil => rfl
  | cons c s ih =>
    rw [unesc_cons fun hc => h (hc ▸ List.mem_cons_self), ih fun hm => h (List.mem_cons_of_mem c hm)]

theorem unesc_esc (s : Bytes) : unesc (esc s) = s := by
  induction s with
  | nil => rfl
  | cons c s ih =>
    rw [esc, List.flatMap_cons, ← esc]
    split_ifs with hslash htab hline hreturn
    · rw [List.cons_append, List.cons_append, unesc, List.nil_append, ih, hslash]
      rfl
    · rw [List.cons_append, List.cons_append, unesc, List.nil_append, ih, htab]
      rfl
    · rw [List.cons_append, List.cons_append, unesc, List.nil_append, ih, hline]
      rfl
    · rw [List.cons_append, List.cons_append, unesc, List.nil_append, ih, hreturn]
      rfl
    · rw [List.singleton_append, unesc_cons hslash, ih]

-- No separator of a record or of a line survives.
theorem esc_clean {s : Bytes} {c : UInt8} (h : c ∈ esc s) : c ≠ 9 ∧ c ≠ 10 := by
  obtain ⟨b, -, hb⟩ := List.mem_flatMap.mp h
  split_ifs at hb with hslash htab hline hreturn
  · simp only [List.mem_cons, List.not_mem_nil, or_false, or_self] at hb
    subst hb
    decide
  · simp only [List.mem_cons, List.not_mem_nil, or_false] at hb
    rcases hb with rfl | rfl <;> decide
  · simp only [List.mem_cons, List.not_mem_nil, or_false] at hb
    rcases hb with rfl | rfl <;> decide
  · simp only [List.mem_cons, List.not_mem_nil, or_false] at hb
    rcases hb with rfl | rfl <;> decide
  · rw [List.mem_singleton.mp hb]
    exact ⟨htab, hline⟩

end Escaping

section Numbers

theorem takeWhile_digits {s : Bytes} (h : ∀ c ∈ s, isDigitByte c) :
    (s.takeWhile fun c => 48 ≤ c ∧ c ≤ 57) = s := by
  rw [List.takeWhile_eq_self_iff]
  exact fun c hc => decide_eq_true (h c hc)

theorem ascii_append (s t : String) : ascii (s ++ t) = ascii s ++ ascii t := by
  rw [ascii, String.toList_append, List.map_append]
  rfl

theorem toString_clean (n : Int) : ∀ c ∈ ascii (toString n), isDigitByte c ∨ c = 45 := by
  intro c hc
  cases n with
  | ofNat n => exact .inl (repr_digits n c hc)
  | negSucc n =>
    change c ∈ ascii ("-" ++ (n + 1).repr) at hc
    rw [ascii_append] at hc
    rcases List.mem_append.mp hc with hc | hc
    · exact .inr (List.mem_singleton.mp hc)
    · exact .inl (repr_digits (n + 1) c hc)

theorem digit_not_space {c : UInt8} (h : isDigitByte c) : isSpace c = false := by
  refine decide_eq_false (not_or.mpr ⟨h.ne (by decide), fun hspace => ?_⟩)
  obtain ⟨-, hhigh⟩ := hspace
  exact absurd (UInt8.le_trans h.1 hhigh) (by decide)

theorem decimal_digits {s : Bytes} (h : ∀ c ∈ s, isDigitByte c) (hne : s ≠ []) :
    decimal s = s.foldl (fun (acc : Int) c => acc * 10 + (c.toNat - 48 : Nat)) 0 := by
  obtain ⟨c, rest, rfl⟩ := List.exists_cons_of_ne_nil hne
  have hc := h c List.mem_cons_self
  rw [decimal, List.dropWhile_cons_of_neg (by rw [digit_not_space hc]; exact Bool.false_ne_true)]
  dsimp only
  split
  · next heq => exact absurd (List.cons.inj heq).1 (hc.ne (by decide))
  · next heq => exact absurd (List.cons.inj heq).1 (hc.ne (by decide))
  · rw [takeWhile_digits h]

theorem decimal_minus {s : Bytes} (h : ∀ c ∈ s, isDigitByte c) :
    decimal (45 :: s) = -s.foldl (fun (acc : Int) c => acc * 10 + (c.toNat - 48 : Nat)) 0 := by
  rw [decimal, List.dropWhile_cons_of_neg (by decide)]
  change -(s.takeWhile fun c => 48 ≤ c ∧ c ≤ 57).foldl _ _ = _
  rw [takeWhile_digits h]

theorem repr_ne_nil (n : Nat) : ascii n.repr ≠ [] := by
  intro h
  have hnil : n.repr.toList = [] := List.map_eq_nil_iff.mp h
  rw [Nat.toList_repr] at hnil
  exact Nat.toDigits_ne_nil hnil

theorem toString_notMem (n : Int) {c : UInt8} (hdigit : ¬ isDigitByte c) (hminus : c ≠ 45) :
    c ∉ ascii (toString n) := fun hc => (toString_clean n c hc).elim hdigit hminus

theorem decimal_toString (n : Int) : decimal (cStr (ascii (toString n))) = n := by
  rw [cStr_of_notMem (toString_notMem n (by decide) (by decide))]
  cases n with
  | ofNat n =>
    change decimal (ascii n.repr) = n
    rw [decimal_digits (repr_digits n) (repr_ne_nil n), digits_repr]
  | negSucc n =>
    change decimal (ascii ("-" ++ (n + 1).repr)) = Int.negSucc n
    rw [ascii_append]
    change decimal (45 :: ascii (n + 1).repr) = Int.negSucc n
    rw [decimal_minus (repr_digits (n + 1)), digits_repr]
    rfl

theorem strtol_toString {n : Int} (hlow : -2 ^ 63 ≤ n) (hhigh : n < 2 ^ 63) :
    strtol (cStr (ascii (toString n))) = n := by
  rw [strtol, decimal_toString]
  omega

theorem atoi_toString (n : Int32) : atoi (cStr (ascii (toString n))) = n := by
  have hlow := n.le_toInt
  have hhigh := n.toInt_lt
  change Int32.ofInt (strtol (cStr (ascii (toString n.toInt)))) = n
  rw [strtol_toString (by omega) (by omega), Int32.ofInt_toInt]

theorem atoll_toString (n : Int64) : atoll (cStr (ascii (toString n))) = n := by
  change Int64.ofInt (strtol (cStr (ascii (toString n.toInt)))) = n
  rw [strtol_toString n.le_toInt n.toInt_lt, Int64.ofInt_toInt]

-- The colon before the port is the last one of the key.
theorem keyFor_injective {host host' : Bytes} {port port' : Int32} (h : keyFor host port = keyFor host' port') :
    host = host' ∧ port = port' := by
  have hclean : ∀ n : Int32, (58 : UInt8) ∉ ascii (toString n) :=
    fun n => toString_notMem n.toInt (by decide) (by decide)
  have hlast : ∀ (s : Bytes) (n : Int32), (keyFor s n).reverse.takeWhile (· ≠ 58) =
      (ascii (toString n)).reverse := by
    intro s n
    rw [keyFor, List.reverse_append, List.reverse_append]
    change ((ascii (toString n)).reverse ++ 58 :: s.reverse).takeWhile _ = _
    rw [List.takeWhile_append_of_pos, List.takeWhile_cons_of_neg (by decide), List.append_nil]
    intro c hc
    exact decide_eq_true fun he => hclean n (he ▸ List.mem_reverse.mp hc)
  have hport : ascii (toString port) = ascii (toString port') := by
    have := hlast host port
    rw [h, hlast host' port'] at this
    exact (List.reverse_injective this).symm
  have hhost : host ++ ascii ":" = host' ++ ascii ":" := by
    rw [keyFor, keyFor, hport] at h
    exact List.append_cancel_right h
  refine ⟨List.append_cancel_right hhost, ?_⟩
  rw [← atoi_toString port, hport, atoi_toString]

end Numbers

section Records

theorem splitTabs_append {piece : Bytes} (h : (9 : UInt8) ∉ piece) (rest : Bytes) :
    splitTabs (piece ++ 9 :: rest) = unesc piece :: splitTabs rest := by
  rw [splitTabs, splitTabs, cutAt_append h]
  rfl

theorem splitTabs_of_notMem {piece : Bytes} (h : (9 : UInt8) ∉ piece) : splitTabs piece = [unesc piece] := by
  rw [splitTabs, cutAt_of_notMem h]
  rfl

-- A field as it is written: free of separators, and read back as the value.
structure Written (text value : Bytes) : Prop where
  tab : (9 : UInt8) ∉ text
  newline : (10 : UInt8) ∉ text
  read : unesc text = value

theorem written_esc (s : Bytes) : Written (esc s) s :=
  ⟨fun h => (esc_clean h).1 rfl, fun h => (esc_clean h).2 rfl, unesc_esc s⟩

theorem written_plain {s : Bytes} (htab : (9 : UInt8) ∉ s) (hline : (10 : UInt8) ∉ s) (hslash : (92 : UInt8) ∉ s) :
    Written s s := ⟨htab, hline, unesc_of_notMem hslash⟩

theorem written_toString (n : Int) : Written (ascii (toString n)) (ascii (toString n)) :=
  written_plain (toString_notMem n (by decide) (by decide)) (toString_notMem n (by decide) (by decide))
    (toString_notMem n (by decide) (by decide))

theorem written_flag (b : Bool) : Written (flag b) (flag b) := by
  cases b <;> exact ⟨by decide, by decide, by decide⟩

theorem flag_read (b : Bool) : decide (flag b = ascii "1") = b := by
  cases b <;> decide

-- The line of a record, its fields joined by tabs.
def record : List Bytes → Bytes
  | [] => []
  | f :: fs => if fs = [] then f else f ++ tab ++ record fs

theorem splitTabs_record {texts values : List Bytes} (h : List.Forall₂ Written texts values) (hne : texts ≠ []) :
    splitTabs (record texts) = values := by
  induction h with
  | nil => exact absurd rfl hne
  | @cons t v ts vs hw hrest ih =>
    rw [record]
    split_ifs with hlast
    · cases hrest with
      | nil => rw [splitTabs_of_notMem hw.tab, hw.read]
      | cons => cases hlast
    · rw [List.append_assoc, tab, List.singleton_append, splitTabs_append hw.tab, hw.read, ih hlast]

theorem record_newline {texts values : List Bytes} (h : List.Forall₂ Written texts values) :
    (10 : UInt8) ∉ record texts := by
  induction h with
  | nil => exact List.not_mem_nil
  | @cons t v ts vs hw hrest ih =>
    rw [record]
    split_ifs
    · exact hw.newline
    · intro hm
      rcases List.mem_append.mp hm with hm | hm
      · rcases List.mem_append.mp hm with hm | hm
        · exact hw.newline hm
        · exact absurd hm (by decide)
      · exact ih hm

def SavedPc.texts (pc : SavedPc) : List Bytes :=
  [ascii "pc", esc pc.id, esc pc.label, esc pc.host, ascii (toString pc.port), esc pc.userName, flag pc.remember,
    flag pc.fullscreen, ascii (toString pc.lastUsed), esc (if pc.remember then pc.password else [])]

def SavedPc.values (pc : SavedPc) : List Bytes :=
  [ascii "pc", pc.id, pc.label, pc.host, ascii (toString pc.port), pc.userName, flag pc.remember,
    flag pc.fullscreen, ascii (toString pc.lastUsed), if pc.remember then pc.password else []]

theorem SavedPc.line_record (pc : SavedPc) : pc.line = record pc.texts ++ [10] := by
  unfold SavedPc.line SavedPc.texts
  -- kept closed, so that no literal is evaluated
  generalize ascii "pc" = name, ascii (toString pc.port) = port, ascii (toString pc.lastUsed) = lastUsed
  generalize (10 : UInt8) = newline
  simp only [record, reduceCtorEq, if_false, if_true, List.append_assoc]

theorem SavedPc.written (pc : SavedPc) : List.Forall₂ Written pc.texts pc.values := by
  rw [SavedPc.texts, SavedPc.values]
  refine .cons (written_plain (by decide) (by decide) (by decide)) (.cons (written_esc pc.id)
    (.cons (written_esc pc.label) (.cons (written_esc pc.host) (.cons (written_toString pc.port.toInt)
    (.cons (written_esc pc.userName) (.cons (written_flag pc.remember) (.cons (written_flag pc.fullscreen)
    (.cons (written_toString pc.lastUsed.toInt) (.cons (written_esc _) .nil)))))))))

end Records

-- What a reloaded entry keeps.
def SavedPc.saved (pc : SavedPc) : SavedPc := { pc with password := if pc.remember then pc.password else [] }

section Loading

theorem ofFields_values (pc : SavedPc) : SavedPc.ofFields pc.values = pc.saved := by
  have hremember : decide (pc.values.getD 6 [] = ascii "1") = pc.remember := flag_read pc.remember
  have hfullscreen : decide (pc.values.getD 7 [] = ascii "1") = pc.fullscreen := flag_read pc.fullscreen
  have hport : atoi (cStr (pc.values.getD 4 [])) = pc.port := atoi_toString pc.port
  have hused : atoll (cStr (pc.values.getD 8 [])) = pc.lastUsed := atoll_toString pc.lastUsed
  have hpassword : (if pc.remember then pc.values.getD 9 [] else []) = if pc.remember then pc.password else [] := by
    change (if pc.remember then if pc.remember then pc.password else [] else []) = _
    cases pc.remember <;> rfl
  unfold SavedPc.ofFields
  dsimp only
  rw [hremember, hfullscreen, hport, hused, hpassword]
  rfl

theorem loadLine_pc (s : Store) {pc : SavedPc} (hid : pc.id ≠ []) (hhost : pc.host ≠ []) :
    s.loadLine (record pc.texts) = { s with pcs := s.pcs ++ [pc.saved] } := by
  have hlong : pc.values.length ≥ 10 ∧ pc.values.getD 0 [] = ascii "pc" := ⟨Nat.le_refl _, rfl⟩
  unfold Store.loadLine
  rw [splitTabs_record pc.written (List.cons_ne_nil _ _), if_pos hlong, ofFields_values,
    if_pos ⟨hid, hhost⟩]

def knownTexts (k : Bytes × Bytes) : List Bytes := [ascii "known", esc k.1, esc k.2]

theorem knownLine_record (k : Bytes × Bytes) : knownLine k = record (knownTexts k) ++ [10] := by
  unfold knownLine knownTexts
  generalize ascii "known" = name
  generalize (10 : UInt8) = newline
  simp only [record, reduceCtorEq, if_false, if_true, List.append_assoc]

theorem known_written (k : Bytes × Bytes) : List.Forall₂ Written (knownTexts k) [ascii "known", k.1, k.2] :=
  .cons (written_plain (by decide) (by decide) (by decide)) (.cons (written_esc k.1) (.cons (written_esc k.2) .nil))

theorem loadLine_known (s : Store) (k : Bytes × Bytes) :
    s.loadLine (record (knownTexts k)) = { s with known := s.known.insert k.1 k.2 } := by
  unfold Store.loadLine
  rw [splitTabs_record (known_written k) (List.cons_ne_nil _ _), if_neg fun h => absurd h.1 (by simp),
    if_neg fun h => absurd h.1 (by simp), if_pos ⟨Nat.le_refl _, rfl⟩]
  rfl

def Store.shareTexts (s : Store) : List Bytes :=
  [ascii "share", esc s.sharePassword, flag s.shareViewOnly, flag s.shareDemo, flag s.shareAlwaysOn]

theorem Store.shareLine_record (s : Store) : s.shareLine = record s.shareTexts ++ [10] := by
  unfold Store.shareLine Store.shareTexts
  generalize ascii "share" = name
  generalize (10 : UInt8) = newline
  simp only [record, reduceCtorEq, if_false, if_true, List.append_assoc]

theorem Store.share_written (s : Store) : List.Forall₂ Written s.shareTexts
    [ascii "share", s.sharePassword, flag s.shareViewOnly, flag s.shareDemo, flag s.shareAlwaysOn] :=
  .cons (written_plain (by decide) (by decide) (by decide)) (.cons (written_esc s.sharePassword)
    (.cons (written_flag s.shareViewOnly)
      (.cons (written_flag s.shareDemo) (.cons (written_flag s.shareAlwaysOn) .nil))))

theorem loadLine_share (s t : Store) :
    s.loadLine (record t.shareTexts) = { s with
      sharePassword := t.sharePassword, shareViewOnly := t.shareViewOnly, shareDemo := t.shareDemo
      shareAlwaysOn := t.shareAlwaysOn } := by
  unfold Store.loadLine
  rw [splitTabs_record t.share_written (List.cons_ne_nil _ _), if_neg fun h => absurd h.1 (by simp),
    if_pos ⟨by simp, rfl⟩]
  have halways : decide (5 ≥ 5 ∧ flag t.shareAlwaysOn = ascii "1") = t.shareAlwaysOn := by
    simp [flag_read]
  change { s with
    sharePassword := t.sharePassword, shareViewOnly := decide (flag t.shareViewOnly = ascii "1")
    shareDemo := decide (flag t.shareDemo = ascii "1")
    shareAlwaysOn := decide (5 ≥ 5 ∧ flag t.shareAlwaysOn = ascii "1") } = _
  rw [flag_read, flag_read, halways]

theorem getlines_record {texts values : List Bytes} (h : List.Forall₂ Written texts values) (rest : Bytes) :
    getlines (record texts ++ [10] ++ rest) = record texts :: getlines rest := by
  rw [List.append_assoc, List.singleton_append, getlines, getlines, cutAt_append (record_newline h)]
  dsimp only
  split_ifs <;> rfl

theorem load_pcs (pcs : List SavedPc) (h : ∀ pc ∈ pcs, pc.id ≠ [] ∧ pc.host ≠ []) (s : Store) (rest : Bytes) :
    s.load (pcs.flatMap SavedPc.line ++ rest) =
      Store.load { s with pcs := s.pcs ++ pcs.map SavedPc.saved } rest := by
  induction pcs generalizing s with
  | nil => simp
  | cons pc pcs ih =>
    obtain ⟨hid, hhost⟩ := h pc List.mem_cons_self
    rw [List.flatMap_cons, List.append_assoc, SavedPc.line_record, Store.load, getlines_record pc.written,
      List.foldl_cons, loadLine_pc s hid hhost, ← Store.load, ih fun q hq => h q (List.mem_cons_of_mem pc hq)]
    simp

theorem load_known (ks : List (Bytes × Bytes)) (s : Store) (rest : Bytes) :
    s.load (ks.flatMap knownLine ++ rest) =
      Store.load { s with known := ks.foldl (fun m k => m.insert k.1 k.2) s.known } rest := by
  induction ks generalizing s with
  | nil => rfl
  | cons k ks ih =>
    rw [List.flatMap_cons, List.append_assoc, knownLine_record, Store.load, getlines_record (known_written k),
      List.foldl_cons, loadLine_known, ← Store.load, ih]
    rfl

theorem load_save (s : Store) (remote : Bool) (h : ∀ pc ∈ s.pcs, pc.id ≠ [] ∧ pc.host ≠ []) :
    (Store.new remote).load s.save = { s with pcs := s.pcs.map SavedPc.saved } := by
  rw [Store.save, List.append_assoc, load_pcs s.pcs h, load_known, Store.shareLine_record,
    ← List.append_nil (record s.shareTexts ++ [10]), Store.load, getlines_record s.share_written]
  change (Store.loadLine _ (record s.shareTexts)) = _
  rw [loadLine_share]
  have hknown : s.known.entries.foldl (fun m k => m.insert k.1 k.2) (Store.new remote).known = s.known :=
    SortedMap.foldl_insert s.known
  rw [hknown]
  rfl

-- The file keeps everything but the passwords of entries that are not to be
-- remembered, and trusting a host changes the fingerprint of that host only.
theorem store_round_trip :
    (∀ (s : Store) (remote : Bool), (∀ pc ∈ s.pcs, pc.id ≠ [] ∧ pc.host ≠ []) →
      (Store.new remote).load s.save = { s with pcs := s.pcs.map SavedPc.saved }) ∧
    ∀ (s : Store) (host host' fp : Bytes) (port port' : Int32),
      (s.trust host' port' fp).knownFingerprint host port ≠ s.knownFingerprint host port →
        host = host' ∧ port = port' := by
  refine ⟨load_save, fun s host host' fp port port' hne => ?_⟩
  by_contra hother
  refine hne ?_
  rw [Store.knownFingerprint, Store.trust, SortedMap.lookup_insert,
    if_neg fun hkey => hother (keyFor_injective hkey)]
  rfl

-- An entry whose every text needs escaping, and a host with a colon of its own.
def awkwardPc : SavedPc :=
  { SavedPc.new with
    id := [9, 10, 13, 92, 116], host := [92, 58, 0], port := -2147483648, password := [9], lastUsed := -1 }

def awkwardStore : Store := { (Store.new true).trust (ascii "a:1") 2 [10, 92] with pcs := [awkwardPc] }

theorem store_round_trip_awkward :
    (Store.new false).load awkwardStore.save = { awkwardStore with pcs := [{ awkwardPc with password := [] }] } ∧
      (ascii "a" = ascii "a" ∧ (12 : Int32) = 12) := by
  refine ⟨store_round_trip.1 awkwardStore false fun pc hpc => ?_, ?_⟩
  · rw [List.mem_singleton.mp hpc]
    exact ⟨List.cons_ne_nil _ _, List.cons_ne_nil _ _⟩
  · exact store_round_trip.2 awkwardStore (ascii "a") (ascii "a") [7] 12 12 (by decide)

end Loading

end TetherDesk.Client
