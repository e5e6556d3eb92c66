import TetherDesk.Lib.Buffer
import TetherDesk.Net.Http.Theorems
import TetherDesk.Reader.Theorems

namespace TetherDesk.Net

open TetherDesk.Lib.Buffer

-- rd_http_header over the arrays it is given, a NUL at the end of headers and of
-- name. none is an access outside one of them, or a loop that goes on.

-- The string at p, which ends within the array.
def stringAt (a : Bytes) (p : Nat) : Option Bytes := if 0 ∈ a.drop p then some (cStr (a.drop p)) else none

def strlenAt (a : Bytes) (p : Nat) : Option Nat := (stringAt a p).map List.length

def strstrAt (a : Bytes) (p : Nat) (pat : Bytes) : Option (Option Nat) :=
  (stringAt a p).map fun s => (findSub pat s).map (p + ·)

-- The loop over i, n times at most.
def foldCaseAt (a name : Bytes) (line : Nat) : Nat → Nat → Option Nat
  | 0, i => some i
  | n + 1, i => do
      let x ← a[line + i]?
      let y ← name[i]?
      if toLower x = toLower y then foldCaseAt a name line n (i + 1) else some i

def skipBlanksAt (a : Bytes) : Nat → Nat → Option Nat
  | 0, v => some v
  | n + 1, v => do
      let x ← a[v]?
      if isBlank x then skipBlanksAt a n (v + 1) else some v

def dropBlanksAt (a : Bytes) : Nat → Nat → Option Nat
  | 0, e => some e
  | n + 1, e => do
      let x ← a[e - 1]?
      if isBlank x then dropBlanksAt a n (e - 1) else some e

-- Whether the line of ll bytes is a field of this name.
def fieldAt (a name : Bytes) (nl line ll : Nat) : Option Bool :=
  if ll > nl then do
    let colon ← a[line + nl]?
    if colon = 58 then do
      let i ← foldCaseAt a name line nl 0
      some (i = nl)
    else some false
  else some false

-- The value from v to e, copied out with a NUL behind it.
def copyValueAt (a out : Bytes) (cap v e : Nat) : Option Bytes := do
  let v ← skipBlanksAt a (e - v) v
  let e ← dropBlanksAt a (e - v) e
  let vl := if e - v ≥ cap then cap - 1 else e - v
  let text ← slice a v vl
  if vl < out.length then some (text ++ 0 :: out.drop (vl + 1)) else none

-- The array out when the return value is 1.
def httpHeaderAt (a name out : Bytes) (nl cap : Nat) : Nat → Nat → Option (Option Bytes)
  | 0, _ => none
  | fuel + 1, line => do
      let ch ← a[line]?
      if ch = 0 then some none
      else
        let eol ← strstrAt a line crlf
        let ll ← match eol with
          | some e => sub e line
          | none => strlenAt a line
        let hit ← fieldAt a name nl line ll
        if hit then do
          let out ← copyValueAt a out cap (line + nl + 1) (line + ll)
          some (some out)
        else
          match eol with
          | some e => httpHeaderAt a name out nl cap fuel (e + 2)
          | none => some none

def rdHttpHeaderAt (headers name out : Bytes) (cap : Nat) : Option (Option Bytes) := do
  let nl ← strlenAt name 0
  httpHeaderAt headers name out nl cap headers.length 0

section Arrays

variable {m rest : Bytes}

theorem stringAt_drop (h : 0 ∉ m) {p : Nat} (hp : p ≤ m.length) : stringAt (m ++ [0]) p = some (m.drop p) := by
  have hdrop : (m ++ [0]).drop p = m.drop p ++ [0] := List.drop_append_of_le_length hp
  have hfree : 0 ∉ m.drop p := fun hin => h (List.mem_of_mem_drop hin)
  unfold stringAt
  rw [hdrop, if_pos (by simp), cStr_append hfree, show cStr [0] = [] from rfl, List.append_nil]

-- What is read in front of the NUL.
theorem getElem?_text {i : Nat} (hi : i < m.length) : (m ++ [0])[i]? = some (byteAt m i) := by
  rw [List.getElem?_append_left hi, List.getElem?_eq_getElem hi]
  unfold byteAt
  rw [List.getD_eq_getElem _ _ hi]

theorem byteAt_drop (m : Bytes) (p i : Nat) : byteAt (m.drop p) i = byteAt m (p + i) := by
  unfold byteAt
  rw [List.getD_eq_getElem?_getD, List.getD_eq_getElem?_getD, List.getElem?_drop]

end Arrays

section Lines

variable {m name : Bytes}

theorem foldCaseAt_eq (line n i : Nat) (hin : line + (i + n) ≤ m.length) (hname : i + n ≤ name.length) :
    ∃ k, foldCaseAt (m ++ [0]) (name ++ [0]) line n i = some k ∧
      (k = i + n ↔ ((m.drop (line + i)).take n).map toLower = ((name.drop i).take n).map toLower) := by
  induction n generalizing i with
  | zero => exact ⟨i, rfl, by simp⟩
  | succ n ih =>
      have hx : (m.drop (line + i)).take (n + 1) = byteAt m (line + i) :: (m.drop (line + (i + 1))).take n := by
        rw [List.drop_eq_getElem_cons (by omega), List.take_succ_cons]
        rw [byteAt, List.getD_eq_getElem _ _ (by omega)]
        rfl
      have hy : (name.drop i).take (n + 1) = byteAt name i :: (name.drop (i + 1)).take n := by
        rw [List.drop_eq_getElem_cons (by omega), List.take_succ_cons]
        rw [byteAt, List.getD_eq_getElem _ _ (by omega)]
      rw [foldCaseAt, getElem?_text (by omega), getElem?_text (by omega), hx, hy]
      dsimp only [Option.bind_eq_bind, Option.bind_some]
      rw [List.map_cons, List.map_cons]
      by_cases hsame : toLower (byteAt m (line + i)) = toLower (byteAt name i)
      · obtain ⟨k, hk, hiff⟩ := ih (i + 1) (by omega) (by omega)
        rw [if_pos hsame]
        refine ⟨k, hk, ?_⟩
        rw [hsame, List.cons.injEq, eq_self_iff_true, true_and, ← hiff]
        omega
      · rw [if_neg hsame]
        refine ⟨i, rfl, iff_of_false (by omega) fun h => hsame ?_⟩
        exact (List.cons.inj h).1

theorem skipBlanksAt_eq (n v : Nat) (hin : v + n ≤ m.length) :
    skipBlanksAt (m ++ [0]) n v = some (v + (((m.drop v).take n).takeWhile isBlank).length) := by
  induction n generalizing v with
  | zero => simp [skipBlanksAt]
  | succ n ih =>
      have hx : (m.drop v).take (n + 1) = byteAt m v :: (m.drop (v + 1)).take n := by
        rw [List.drop_eq_getElem_cons (by omega), List.take_succ_cons]
        rw [byteAt, List.getD_eq_getElem _ _ (by omega)]
      rw [skipBlanksAt, getElem?_text (by omega), hx]
      dsimp only [Option.bind_eq_bind, Option.bind_some]
      by_cases hblank : isBlank (byteAt m v) = true
      · rw [if_pos hblank, ih (v + 1) (by omega), List.takeWhile_cons_of_pos hblank, List.length_cons]
        congr 1
        omega
      · rw [if_neg hblank, List.takeWhile_cons_of_neg hblank]
        rfl

theorem dropBlanksAt_eq (n v : Nat) (hin : v + n ≤ m.length) :
    dropBlanksAt (m ++ [0]) n (v + n) = some (v + n - (((m.drop v).take n).reverse.takeWhile isBlank).length) := by
  induction n with
  | zero => simp [dropBlanksAt]
  | succ n ih =>
      have hlast : (m.drop v).take (n + 1) = (m.drop v).take n ++ [byteAt m (v + n)] := by
        rw [List.take_add_one, List.getElem?_drop, List.getElem?_eq_getElem (by omega), byteAt,
          List.getD_eq_getElem _ _ (by omega)]
        rfl
      rw [dropBlanksAt, show v + (n + 1) - 1 = v + n by omega, getElem?_text (by omega), hlast, List.reverse_append]
      dsimp only [Option.bind_eq_bind, Option.bind_some]
      rw [List.reverse_singleton, List.singleton_append]
      by_cases hblank : isBlank (byteAt m (v + n)) = true
      · rw [if_pos hblank, ih (by omega), List.takeWhile_cons_of_pos hblank, List.length_cons]
        congr 1
        omega
      · rw [if_neg hblank, List.takeWhile_cons_of_neg hblank]
        rfl

theorem dropWhile_eq_drop (p : UInt8 → Bool) (u : Bytes) : u.dropWhile p = u.drop (u.takeWhile p).length := by
  have hsplit := List.takeWhile_append_dropWhile (p := p) (l := u)
  calc u.dropWhile p = (u.takeWhile p ++ u.dropWhile p).drop (u.takeWhile p).length := List.drop_left.symm
    _ = u.drop (u.takeWhile p).length := by rw [hsplit]

theorem trimBlanks_eq (u : Bytes) :
    trimBlanks u = (u.drop (u.takeWhile isBlank).length).take
      (u.length - (u.takeWhile isBlank).length -
        ((u.drop (u.takeWhile isBlank).length).reverse.takeWhile isBlank).length) := by
  unfold trimBlanks
  rw [dropWhile_eq_drop, dropWhile_eq_drop, List.drop_reverse, List.reverse_reverse, List.length_drop]

-- The value is copied out trimmed and cut.
theorem copyValueAt_eq {out : Bytes} {cap : Nat} (hcap : 1 ≤ cap) (hout : cap ≤ out.length) {v n : Nat}
    (hin : v + n ≤ m.length) :
    copyValueAt (m ++ [0]) out cap v (v + n) =
      some ((trimBlanks ((m.drop v).take n)).take (cap - 1) ++
        0 :: out.drop (((trimBlanks ((m.drop v).take n)).take (cap - 1)).length + 1)) := by
  have hlen : ((m.drop v).take n).length = n := by rw [List.length_take, List.length_drop]; omega
  have hfront : (((m.drop v).take n).takeWhile isBlank).length ≤ n := by
    conv_rhs => rw [← hlen]
    exact (List.takeWhile_sublist _).length_le
  have htrim := trimBlanks_eq ((m.drop v).take n)
  rw [hlen] at htrim
  unfold copyValueAt
  rw [Nat.add_sub_cancel_left, skipBlanksAt_eq n v hin]
  generalize (((m.drop v).take n).takeWhile isBlank).length = k at hfront htrim ⊢
  dsimp only [Option.bind_eq_bind, Option.bind_some]
  have hrest : ((m.drop v).take n).drop k = (m.drop (v + k)).take (n - k) := by
    rw [List.drop_take, List.drop_drop]
  have hend : v + n = v + k + (n - k) := by omega
  rw [hrest] at htrim
  rw [hend, Nat.add_sub_cancel_left, dropBlanksAt_eq (n - k) (v + k) (by omega)]
  have hback : (((m.drop (v + k)).take (n - k)).reverse.takeWhile isBlank).length ≤ n - k := by
    refine (List.takeWhile_sublist _).length_le.trans ?_
    rw [List.length_reverse]
    exact List.length_take_le _ _
  generalize (((m.drop (v + k)).take (n - k)).reverse.takeWhile isBlank).length = j at hback htrim ⊢
  dsimp only [Option.bind_some]
  have hsize : v + k + (n - k) - j - (v + k) = n - k - j := by omega
  have htaken : ((m.drop (v + k)).take (n - k)).take (n - k - j) = (m.drop (v + k)).take (n - k - j) := by
    rw [List.take_take, Nat.min_eq_left (by omega)]
  rw [htaken] at htrim
  have htext : (trimBlanks ((m.drop v).take n)).take (cap - 1) =
      (m.drop (v + k)).take (if n - k - j ≥ cap then cap - 1 else n - k - j) := by
    rw [htrim, List.take_take]
    congr 1
    split <;> omega
  have hcopied : ((trimBlanks ((m.drop v).take n)).take (cap - 1)).length =
      if n - k - j ≥ cap then cap - 1 else n - k - j := by
    rw [htext, List.length_take, List.length_drop]
    split <;> omega
  rw [hsize, hcopied, htext, slice_of_le (by rw [List.length_append]; split <;> simp <;> omega),
    List.drop_append_of_le_length (by omega),
      List.take_append_of_le_length (by rw [List.length_drop]; split <;> omega)]
  dsimp only [Option.bind_some]
  rw [if_pos (by split <;> omega)]

theorem fieldAt_eq {line ll : Nat} (hin : line + ll ≤ m.length) :
    fieldAt (m ++ [0]) (name ++ [0]) name.length line ll =
      some (decide (ll > name.length ∧ byteAt ((m.drop line).take ll) name.length = 58 ∧
        (((m.drop line).take ll).take name.length).map toLower = name.map toLower)) := by
  unfold fieldAt
  by_cases hlong : ll > name.length
  · have hcolon : byteAt ((m.drop line).take ll) name.length = byteAt m (line + name.length) := by
      rw [← byteAt_drop]
      unfold byteAt
      rw [List.getD_eq_getElem?_getD, List.getD_eq_getElem?_getD, List.getElem?_take_of_lt hlong]
    rw [if_pos hlong, getElem?_text (by omega), hcolon, List.take_take, Nat.min_eq_left (by omega)]
    dsimp only [Option.bind_eq_bind, Option.bind_some]
    by_cases his : byteAt m (line + name.length) = 58
    · obtain ⟨k, hk, hiff⟩ := @foldCaseAt_eq m name line name.length 0 (by omega) (by omega)
      rw [Nat.zero_add, Nat.add_zero, List.drop_zero, List.take_length] at hiff
      rw [if_pos his, hk]
      simp [hlong, his, hiff]
    · rw [if_neg his]
      simp [his]
  · rw [if_neg hlong]
    simp [hlong]

-- What out becomes for a text.
def copied (out text : Bytes) : Bytes := text ++ 0 :: out.drop (text.length + 1)

-- One line: its value when it is the field, and what the other lines give else.
theorem lineAt_eq {out : Bytes} {cap : Nat} (hcap : 1 ≤ cap) (hout : cap ≤ out.length) {line ll : Nat}
    (hin : line + ll ≤ m.length) {l : Bytes} (hl : l = (m.drop line).take ll) {others : Option (Option Bytes)}
    {others' : Option Bytes} (hothers : others = some (others'.map (copied out))) :
    ((fieldAt (m ++ [0]) (name ++ [0]) name.length line ll).bind fun hit =>
      if hit then (copyValueAt (m ++ [0]) out cap (line + name.length + 1) (line + ll)).bind fun out =>
        some (some out)
      else others) =
      some ((if l.length > name.length ∧ byteAt l name.length = 58 ∧
          (l.take name.length).map toLower = name.map toLower then
        some ((trimBlanks (l.drop (name.length + 1))).take (cap - 1)) else others').map (copied out)) := by
  have hlen : l.length = ll := by rw [hl, List.length_take, List.length_drop]; omega
  rw [fieldAt_eq hin, Option.bind_some, ← hl, hlen]
  by_cases hit : ll > name.length ∧ byteAt l name.length = 58 ∧ (l.take name.length).map toLower = name.map toLower
  · have hvalue : (m.drop (line + name.length + 1)).take (ll - (name.length + 1)) = l.drop (name.length + 1) := by
      rw [hl, List.drop_take, List.drop_drop, Nat.add_assoc]
    have hend : line + ll = line + name.length + 1 + (ll - (name.length + 1)) := by omega
    rw [if_pos (decide_eq_true hit), if_pos hit, hend, copyValueAt_eq hcap hout (by omega), hvalue]
    rfl
  · rw [if_neg (by simpa using hit), if_neg hit, hothers]

end Lines

-- The lookup stays within its arrays and finds what the one on the text finds.
theorem httpHeaderAt_eq {m name out : Bytes} {cap : Nat} (hfree : 0 ∉ m) (hcap : 1 ≤ cap) (hout : cap ≤ out.length)
    (fuel line : Nat) (hline : line ≤ m.length) (hfuel : m.length < line + fuel) :
    httpHeaderAt (m ++ [0]) (name ++ [0]) out name.length cap fuel line =
      some ((httpHeaderLoop name cap fuel (m.drop line)).map (copied out)) := by
  induction fuel generalizing line with
  | zero => omega
  | succ fuel ih =>
      unfold httpHeaderAt httpHeaderLoop
      rcases Nat.eq_or_lt_of_le hline with rfl | hlt
      · rw [List.getElem?_append_right (Nat.le_refl _), Nat.sub_self, List.drop_length]
        rfl
      have hne : m.drop line ≠ [] := fun hnil => Nat.not_le_of_lt hlt (List.drop_eq_nil_iff.mp hnil)
      have hch : byteAt m line ≠ 0 := by
        unfold byteAt
        rw [List.getD_eq_getElem _ _ hlt]
        exact fun h => hfree (h ▸ List.getElem_mem hlt)
      rw [getElem?_text hlt, strstrAt, strlenAt, stringAt_drop hfree hline, if_neg hne]
      dsimp only [Option.bind_eq_bind, Option.bind_some, Option.map_some]
      rw [if_neg hch]
      cases heol : findSub crlf (m.drop line) with
      | none =>
          exact lineAt_eq hcap hout (by rw [List.length_drop]; omega) rfl rfl
      | some k =>
          obtain ⟨hat, hk⟩ := findSub_some heol
          rw [List.length_drop] at hk
          have hroom := hat.length_le
          rw [List.length_drop, List.length_drop, show crlf.length = 2 from rfl] at hroom
          have hnext := ih (line + k + 2) (by omega) (by omega)
          rw [← List.drop_drop, ← List.drop_drop, List.drop_drop (j := k)] at hnext
          dsimp only [Option.map_some]
          rw [sub_of_le (Nat.le_add_right _ _), Nat.add_sub_cancel_left]
          exact lineAt_eq hcap hout (by omega) rfl hnext

theorem rdHttpHeaderAt_loop {m name out : Bytes} {cap : Nat} (hfree : 0 ∉ m) (hname : 0 ∉ name) (hcap : 1 ≤ cap)
    (hout : cap ≤ out.length) :
    rdHttpHeaderAt (m ++ [0]) (name ++ [0]) out cap =
      some ((httpHeaderLoop name cap (m.length + 1) m).map (copied out)) := by
  have hlen : (m ++ [0]).length = m.length + 1 := by simp
  rw [rdHttpHeaderAt, strlenAt, stringAt_drop hname (Nat.zero_le _), List.drop_zero, hlen]
  exact httpHeaderAt_eq hfree hcap hout (m.length + 1) 0 (Nat.zero_le _) (by omega)

-- The requests and replies are read with the model over lists, which gives what the
-- arrays do.
theorem rdHttpHeaderAt_eq {m out : Bytes} {name : String} {cap : Nat} (hfree : 0 ∉ m) (hname : 0 ∉ ascii name)
    (hcap : 1 ≤ cap)
    (hout : cap ≤ out.length) :
    rdHttpHeaderAt (m ++ [0]) (ascii name ++ [0]) out cap = some ((rdHttpHeader m name cap).map (copied out)) := by
  rw [rdHttpHeaderAt_loop hfree hname hcap hout, rdHttpHeader, cStr_of_notMem hfree]

-- Lines with a CRLF between each two.
def headerBlock : List Bytes → Bytes
  | [] => []
  | [l] => l
  | l :: rest => l ++ (crlf ++ headerBlock rest)

theorem headerBlock_cons (l l' : Bytes) (rest : List Bytes) :
    headerBlock (l :: l' :: rest) = l ++ (crlf ++ headerBlock (l' :: rest)) := rfl

-- What stands before the first colon.
def fieldName (l : Bytes) : Option Bytes := if 58 ∈ l then some (l.takeWhile (· ≠ 58)) else none

def fieldValue (l : Bytes) : Bytes := trimBlanks ((l.dropWhile (· ≠ 58)).drop 1)

def HasField (name l : Bytes) : Prop := ∃ n ∈ fieldName l, n.map toLower = name.map toLower

instance (name l : Bytes) : Decidable (HasField name l) :=
  inferInstanceAs (Decidable (∃ n ∈ fieldName l, n.map toLower = name.map toLower))

section Fields

variable {name l : Bytes}

theorem toLower_colon {b : UInt8} (h : toLower b = 58) : b = 58 := by
  unfold toLower at h
  split_ifs at h with hupper
  · have hbytes := congrArg UInt8.toNat h
    have hlow : 65 ≤ b.toNat := hupper.1
    have hhigh : b.toNat ≤ 90 := hupper.2
    rw [UInt8.toNat_add] at hbytes
    change (b.toNat + 32) % 256 = 58 at hbytes
    omega
  · exact h

theorem split_colon {n rest : Bytes} (h : 58 ∉ n) :
    (n ++ 58 :: rest).takeWhile (· ≠ 58) = n ∧ (n ++ 58 :: rest).dropWhile (· ≠ 58) = 58 :: rest := by
  have hall : ∀ ch ∈ n, decide (ch ≠ 58) = true := by
    intro ch hch
    rw [decide_eq_true_eq]
    rintro rfl
    exact h hch
  constructor
  · rw [List.takeWhile_append_of_pos hall, List.takeWhile_cons_of_neg (by simp), List.append_nil]
  · rw [List.dropWhile_append_of_pos hall, List.dropWhile_cons_of_neg (by simp)]

-- A line with a colon after a text of the name's length.
theorem hasField_split {n rest : Bytes} (hn : 58 ∉ n) :
    HasField name (n ++ 58 :: rest) ↔ n.map toLower = name.map toLower := by
  have hfield : fieldName (n ++ 58 :: rest) = some n := by
    unfold fieldName
    rw [if_pos (by simp), (split_colon hn).1]
  unfold HasField
  rw [hfield]
  simp

theorem HasField.split (h : HasField name l) :
    ∃ n rest, l = n ++ 58 :: rest ∧ 58 ∉ n ∧ n.map toLower = name.map toLower ∧ n.length = name.length := by
  have hcolon : 58 ∈ l := by
    by_contra hnone
    obtain ⟨n, hn, -⟩ := h
    unfold fieldName at hn
    rw [if_neg hnone] at hn
    cases hn
  obtain ⟨n, rest, rfl, hn⟩ := List.eq_append_cons_of_mem hcolon
  have hfold := (hasField_split hn).mp h
  exact ⟨n, rest, rfl, hn, hfold, by rw [← List.length_map (f := toLower), hfold, List.length_map]⟩

-- The comparison at the length of the name finds the fields of that name.
theorem hasField_iff (hname : 58 ∉ name) :
    HasField name l ↔ l.length > name.length ∧ byteAt l name.length = 58 ∧
      (l.take name.length).map toLower = name.map toLower := by
  constructor
  · intro hfield
    obtain ⟨n, rest, rfl, -, hfold, hlen⟩ := hfield.split
    refine ⟨by simp [hlen], ?_, by rw [← hlen, List.take_left, hfold]⟩
    rw [← hlen, byteAt]
    simp
  · rintro ⟨hlong, hat, hfold⟩
    have hn : 58 ∉ l.take name.length := by
      intro hin
      have hfolded : toLower 58 ∈ name.map toLower := hfold ▸ List.mem_map_of_mem hin
      obtain ⟨b, hb, hlower⟩ := List.mem_map.mp hfolded
      exact hname (toLower_colon hlower ▸ hb)
    have hsplit : l = l.take name.length ++ 58 :: l.drop (name.length + 1) := by
      rw [byteAt, List.getD_eq_getElem _ _ hlong] at hat
      rw [← hat, ← List.drop_eq_getElem_cons hlong, List.take_append_drop]
    rw [hsplit]
    exact (hasField_split hn).mpr hfold

theorem fieldValue_eq (h : HasField name l) : fieldValue l = trimBlanks (l.drop (name.length + 1)) := by
  obtain ⟨n, rest, rfl, hn, -, hlen⟩ := h.split
  unfold fieldValue
  rw [(split_colon hn).2, ← hlen, ← List.drop_drop, List.drop_left]

-- The lookup on the text of the lines.
theorem httpHeaderLoop_lines (hname : 58 ∉ name) (cap fuel : Nat) {lines : List Bytes}
    (hlines : ∀ l ∈ lines, 13 ∉ l ∧ 10 ∉ l)
    (hfuel : (headerBlock lines).length < fuel) :
    httpHeaderLoop name cap fuel (headerBlock lines) =
      (lines.find? (HasField name ·)).map fun l => (fieldValue l).take (cap - 1) := by
  induction lines generalizing fuel with
  | nil =>
      obtain ⟨fuel, rfl⟩ := Nat.exists_eq_add_one_of_ne_zero (Nat.ne_zero_of_lt hfuel)
      rfl
  | cons l rest ih =>
      obtain ⟨fuel, rfl⟩ := Nat.exists_eq_add_one_of_ne_zero (Nat.ne_zero_of_lt hfuel)
      obtain ⟨hl, hrest⟩ := List.forall_mem_cons.mp hlines
      have hplain : ∀ tail : Bytes, tail = [] ∨ tail = [13] → ¬ crlf <:+: l ++ tail := by
        rintro tail htail hin
        have hfeed : (10 : UInt8) ∈ l ++ tail := hin.subset (by decide)
        rcases List.mem_append.mp hfeed with h | h
        · exact hl.2 h
        · rcases htail with rfl | rfl <;> simp at h
      have hline : ∀ others : Option Bytes,
          others = (rest.find? (HasField name ·)).map (fun l => (fieldValue l).take (cap - 1)) →
          (if l.length > name.length ∧ byteAt l name.length = 58 ∧ (l.take name.length).map toLower =
            name.map toLower then
            some ((trimBlanks (l.drop (name.length + 1))).take (cap - 1)) else others) =
            ((l :: rest).find? (HasField name ·)).map fun l => (fieldValue l).take (cap - 1) := by
        intro others hothers
        by_cases hfield : HasField name l
        · rw [if_pos ((hasField_iff hname).mp hfield),
            List.find?_cons_of_pos (by exact decide_eq_true hfield), Option.map_some,
            fieldValue_eq hfield]
        · rw [if_neg fun h => hfield ((hasField_iff hname).mpr h),
            List.find?_cons_of_neg (by simpa using hfield), hothers]
      cases rest with
      | nil =>
          have hnone : findSub crlf l = none := findSub_none (by simpa using hplain [] (.inl rfl))
          rw [headerBlock, httpHeaderLoop]
          by_cases hempty : l = []
          · subst hempty
            rw [if_pos rfl]
            simp [HasField, fieldName]
          · rw [if_neg hempty, hnone]
            simp only [Option.getD_none, List.take_length]
            exact hline none rfl
      | cons l' rest =>
          have heol : findSub crlf (l ++ (crlf ++ headerBlock (l' :: rest))) = some l.length :=
            findSub_append (by decide) _ (hplain [13] (.inr rfl))
          have hne : l ++ (crlf ++ headerBlock (l' :: rest)) ≠ [] := by simp [crlf]
          have hdrop : (l ++ (crlf ++ headerBlock (l' :: rest))).drop (l.length + 2) =
              headerBlock (l' :: rest) := by
            rw [← List.drop_drop, List.drop_left]
            rfl
          rw [headerBlock_cons, List.length_append, List.length_append, show crlf.length = 2 from rfl] at hfuel
          rw [headerBlock_cons, httpHeaderLoop, if_neg hne, heol]
          simp only [Option.getD_some, List.take_left, hdrop]
          exact hline _ (ih fuel hrest (by omega))

-- rd_http_header finds the first field of the name, and gives its value.
theorem http_header_lookup {lines : List Bytes} (hlines : ∀ l ∈ lines, 13 ∉ l ∧ 10 ∉ l ∧ 0 ∉ l)
    (hname : 58 ∉ name ∧ 0 ∉ name)
    {out : Bytes} {cap : Nat} (hcap : 1 ≤ cap) (hout : cap ≤ out.length) :
    rdHttpHeaderAt (headerBlock lines ++ [0]) (name ++ [0]) out cap =
      some ((lines.find? (HasField name ·)).map fun l => copied out ((fieldValue l).take (cap - 1))) := by
  have hfree : ∀ lines : List Bytes, (∀ l ∈ lines, 0 ∉ l) → 0 ∉ headerBlock lines := by
    intro lines
    induction lines with
    | nil => simp [headerBlock]
    | cons l rest ih =>
        intro h
        obtain ⟨hl, hrest⟩ := List.forall_mem_cons.mp h
        cases rest with
        | nil => exact hl
        | cons l' rest => simpa [headerBlock, crlf, hl] using ih hrest
  rw [rdHttpHeaderAt_loop (hfree lines fun l hl => (hlines l hl).2.2) hname.2 hcap hout,
    httpHeaderLoop_lines hname.1 cap _ (fun l hl => ⟨(hlines l hl).1, (hlines l hl).2.1⟩)
      (Nat.lt_succ_self _), Option.map_map]
  rfl

theorem http_header_lookup_key :
    (∀ l ∈ [ascii "Host: a", ascii "sec-websocket-key:  abc "], 13 ∉ l ∧ 10 ∉ l ∧ 0 ∉ l) ∧
      rdHttpHeaderAt (headerBlock [ascii "Host: a", ascii "sec-websocket-key:  abc "] ++ [0])
        (ascii "Sec-WebSocket-Key" ++ [0]) (List.replicate 6 1) 6 = some (some (ascii "abc" ++ [0, 1, 1])) := by
  have hlines : ∀ l ∈ [ascii "Host: a", ascii "sec-websocket-key:  abc "], 13 ∉ l ∧ 10 ∉ l ∧ 0 ∉ l := by decide
  have hlookup := @http_header_lookup (ascii "Sec-WebSocket-Key") _ hlines (by decide) (List.replicate 6 1)
      6 (by decide)
    (by decide)
  exact ⟨hlines, hlookup⟩

end Fields

end TetherDesk.Net
