import TetherDesk.Host.Http
import TetherDesk.Net.Http.Theorems
import TetherDesk.Reader.Theorems
import TetherDesk.Relay.Http

namespace TetherDesk

open TetherDesk.Net

-- A component of a relative path is "..".
def HasParent (rel : Bytes) : Prop :=
  ∃ pre post, rel = pre ++ ascii ".." ++ post ∧ (pre = [] ∨ pre.getLast? = some 47) ∧
      (post = [] ∨ post.head? = some 47)

-- The directory root, a '/' and a relative path without "..".
def Inside (root p : Bytes) : Prop := ∃ rel, p = root ++ 47 :: rel ∧ ¬ HasParent rel

-- What f computes from files depends only on those under the paths in P.
def OpensOnly {α : Type} (f : (Bytes → FileRead) → α) (P : Bytes → Prop) : Prop :=
  ∀ file file', (∀ p, P p → file p = file' p) → f file = f file'

-- The part of a request target that names a file, and the filter on it.
def pathPart (target : Bytes) : Bytes := target.takeWhile fun ch => ch ≠ 63 ∧ ch ≠ 35

def BadPath (path : Bytes) : Prop := (findSub (ascii "..") path).isSome = true ∨ 92 ∈ path ∨ 37 ∈ path

instance : DecidablePred BadPath := fun _ => inferInstanceAs (Decidable (_ ∨ _))

section Paths

variable {root path rel target : Bytes}

theorem HasParent.infix (h : HasParent rel) : ascii ".." <:+: rel := by
  obtain ⟨pre, post, rfl, -⟩ := h
  exact ⟨pre, post, rfl⟩

-- A path that passes the filter and starts with '/' stays inside.
theorem inside_of_rooted (hroot : (0 : UInt8) ∉ root) (hpath : path.head? = some 47) (hgood : ¬ BadPath path) :
    Inside root (cStr (root ++ path)) := by
  cases path with
  | nil => cases hpath
  | cons ch rest =>
      obtain rfl := Option.some.inj hpath
      refine ⟨cStr rest, cStr_append hroot _, fun hparent => hgood (.inl (findSub_isSome.mpr ?_))⟩
      exact hparent.infix.trans ((List.takeWhile_prefix _).isInfix.trans (List.suffix_cons 47 rest).isInfix)

theorem not_inside (hroot : (0 : UInt8) ∉ root) (hpath : path.head? ≠ some 47) :
    ¬ Inside root (cStr (root ++ path)) := by
  rintro ⟨rel, heq, -⟩
  rw [cStr_append hroot _, List.append_cancel_left_eq] at heq
  cases path with
  | nil => cases heq
  | cons ch rest =>
      unfold cStr at heq
      rw [List.takeWhile_cons] at heq
      split at heq
      · rw [List.cons.injEq] at heq
        exact hpath (by rw [heq.1]; rfl)
      · cases heq

end Paths

section Relay

open TetherDesk.Relay

variable {webRoot target : Bytes}

theorem staticPath_rooted (h : pathPart target = [] ∨ (pathPart target).head? = some 47) :
    (staticPath target).head? = some 47 := by
  unfold staticPath
  change (let path := pathPart target; _) = _
  dsimp only
  split_ifs with h₁ h₂ h₃
  all_goals first
    | rfl
    | (rcases h with h | h
       · exact absurd (.inr h) h₁
       · exact h)

theorem staticPath_other (h : ¬ (pathPart target = [] ∨ (pathPart target).head? = some 47)) :
    staticPath target = pathPart target := by
  have hne : ∀ text : Bytes, text.head? = some 47 → pathPart target ≠ text :=
    fun text htext heq => h (.inr (heq ▸ htext))
  have hhome : ¬ (pathPart target = ascii "/" ∨ pathPart target = []) := fun hor =>
    hor.elim (hne (ascii "/") rfl) fun hnil => h (.inl hnil)
  unfold staticPath
  dsimp only
  rw [show target.takeWhile (fun ch => decide (ch ≠ 63 ∧ ch ≠ 35)) = pathPart target from rfl, if_neg hhome,
    if_neg (hne (ascii "/app") rfl), if_neg (hne (ascii "/get") rfl)]

theorem staticResponse_bad {file : Bytes → FileRead} (h : BadPath (staticPath target)) :
    staticResponse webRoot target file = some (textResponse 400 "Bad Request" "bad path") := by
  unfold staticResponse
  exact if_pos h

-- The file is the only one that the response depends on.
theorem staticResponse_congr {file file' : Bytes → FileRead}
    (h : file (cStr (webRoot ++ staticPath target)) = file' (cStr (webRoot ++ staticPath target))) :
    staticResponse webRoot target file = staticResponse webRoot target file' := by
  unfold staticResponse
  dsimp only
  rw [h]

theorem staticResponse_absent {file : Bytes → FileRead} (h : ¬ BadPath (staticPath target))
    (hfile : file (cStr (webRoot ++ staticPath target)) = .absent) :
    staticResponse webRoot target file = some (textResponse 404 "Not Found" "not found") := by
  unfold BadPath at h
  unfold staticResponse
  dsimp only
  rw [if_neg h, hfile]

theorem staticResponse_throws {file : Bytes → FileRead} (h : ¬ BadPath (staticPath target))
    (hfile : file (cStr (webRoot ++ staticPath target)) = .throws) : staticResponse webRoot target file = none := by
  unfold BadPath at h
  unfold staticResponse
  dsimp only
  rw [if_neg h, hfile]

-- A target that is neither rooted nor refused leads outside.
theorem staticResponse_escapes (hroot : (0 : UInt8) ∉ webRoot)
    (hrooted : ¬ (pathPart target = [] ∨ (pathPart target).head? = some 47))
    (hgood : ¬ BadPath (pathPart target)) : ¬ OpensOnly (staticResponse webRoot target) (Inside webRoot) := by
  intro honly
  have hpath := staticPath_other hrooted
  rw [← hpath] at hgood
  have hout : ¬ Inside webRoot (cStr (webRoot ++ staticPath target)) :=
    not_inside hroot (hpath ▸ fun h => hrooted (.inr h))
  have hsame := honly (fun _ => .absent) (fun q => if q =
      cStr (webRoot ++ staticPath target) then .throws else .absent) fun q hq => by
    exact (if_neg fun heq : q = cStr (webRoot ++ staticPath target) => hout (heq ▸ hq)).symm
  rw [staticResponse_absent hgood rfl, staticResponse_throws hgood (if_pos rfl)] at hsame
  cases hsame

end Relay

section Host

open TetherDesk.Host

variable {webRoot target : Bytes}

theorem serveFile_inside (hroot : (0 : UInt8) ∉ webRoot) (c : Host.Conn) :
    OpensOnly (fun readFile => c.serveFile webRoot readFile target) (Inside webRoot) := by
  intro file file' hsame
  unfold Conn.serveFile
  dsimp only
  rw [show target.takeWhile (fun ch => decide (ch ≠ 63 ∧ ch ≠ 35)) = pathPart target from rfl]
  generalize (if pathPart target = [] ∨
    pathPart target = ascii "/" then ascii "/index.html" else pathPart target) = path
  by_cases hbad : byteAt path 0 ≠ 47 ∨ (findSub (ascii "..") path).isSome = true ∨ 92 ∈ path ∨ 37 ∈ path
  · rw [if_pos hbad, if_pos hbad]
  · rw [if_neg hbad, if_neg hbad]
    rw [not_or, not_not] at hbad
    have hhead : path.head? = some 47 := by
      cases path with
      | nil => cases hbad.1
      | cons ch rest => exact congrArg some hbad.1
    rw [hsame _ (inside_of_rooted hroot hhead hbad.2)]

end Host

-- The host serves files of its web root only; the relay does exactly for targets that
-- start with '/', name no file, or are refused.
theorem static_files_inside_root (webRoot target : Bytes) (hroot : (0 : UInt8) ∉ webRoot) :
    (OpensOnly (Relay.staticResponse webRoot target) (Inside webRoot) ↔
      pathPart target = [] ∨ (pathPart target).head? = some 47 ∨ BadPath (pathPart target)) ∧
    ∀ c : Host.Conn, OpensOnly (fun readFile => c.serveFile webRoot readFile target) (Inside webRoot) := by
  refine ⟨⟨fun honly => ?_, fun h file file' hsame => ?_⟩, serveFile_inside hroot⟩
  · by_contra hnot
    rw [not_or, not_or] at hnot
    exact staticResponse_escapes hroot (fun h => h.elim hnot.1 hnot.2.1) hnot.2.2 honly
  · by_cases hbad : BadPath (Relay.staticPath target)
    · rw [staticResponse_bad hbad, staticResponse_bad hbad]
    · by_cases hrooted : pathPart target = [] ∨ (pathPart target).head? = some 47
      · exact staticResponse_congr (hsame _ (inside_of_rooted hroot (staticPath_rooted hrooted) hbad))
      · have hpath := staticPath_other hrooted
        rw [not_or] at hrooted
        rw [hpath] at hbad
        exact absurd h fun h => h.elim hrooted.1 fun h => h.elim hrooted.2 hbad

theorem static_files_inside_public :
    OpensOnly (Relay.staticResponse (ascii "public") (ascii "/assets/a.css")) (Inside (ascii "public")) :=
  (static_files_inside_root (ascii "public") (ascii "/assets/a.css") (by decide)).1.mpr (.inr (.inl (by decide)))

-- GET -old/key on a relay with web root public reads public-old/key.
theorem static_file_outside_root :
    ¬ ∀ webRoot target, (0 : UInt8) ∉ webRoot →
      OpensOnly (Relay.staticResponse webRoot target) (Inside webRoot) := fun h =>
  have hrooted : ¬ (pathPart (ascii "-old/key") = [] ∨ (pathPart (ascii "-old/key")).head? = some 47) := by decide
  have hgood : ¬ BadPath (pathPart (ascii "-old/key")) := by decide
  staticResponse_escapes (by decide) hrooted hgood (h (ascii "public") (ascii "-old/key") (by decide))

end TetherDesk
