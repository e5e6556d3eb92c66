import TetherDesk.Lib.SortedMap
import TetherDesk.Reader
import Mathlib.Data.List.Lex

namespace TetherDesk.Client

open TetherDesk.Lib

scoped instance byteOrder : LinearOrder UInt8 where
  le_refl := UInt8.le_refl
  le_trans _ _ _ := UInt8.le_trans
  lt_iff_le_not_ge _ _ := by simp only [UInt8.lt_iff_toNat_lt, UInt8.le_iff_toNat_le]; omega
  le_antisymm _ _ := UInt8.le_antisymm
  le_total := UInt8.le_total
  toDecidableLE := inferInstance
  toDecidableEq := inferInstance
  toDecidableLT := inferInstance

structure SavedPc where
  id : Bytes
  label : Bytes
  host : Bytes
  port : Int32
  userName : Bytes
  password : Bytes
  remember : Bool
  fullscreen : Bool
  lastUsed : Int64
  deriving DecidableEq, Repr

def SavedPc.new : SavedPc := ⟨[], [], [], 5980, [], [], false, true, 0⟩

-- The tables of the viewer; known maps "host:port" to a fingerprint.
structure Store where
  pcs : List SavedPc
  known : SortedMap Bytes Bytes
  sharePassword : Bytes
  shareViewOnly : Bool
  shareDemo : Bool
  shareAlwaysOn : Bool

-- remote is the edition the viewer is built as.
def Store.new (remote : Bool) : Store := ⟨[], .empty, [], false, false, remote⟩

-- Records are tab-separated lines; escape the few characters that matter.
def esc (s : Bytes) : Bytes :=
  s.flatMap fun c =>
    if c = 92 then [92, 92]
    else if c = 9 then [92, 116]
    else if c = 10 then [92, 110]
    else if c = 13 then [92, 114]
    else [c]

def unesc : Bytes → Bytes
  | [] => []
  | [c] => [c]
  | c :: n :: rest =>
      if c = 92 then (if n = 116 then 9 else if n = 110 then 10 else if n = 114 then 13 else n) :: unesc rest
      else c :: unesc (n :: rest)

-- The cutAt before each separator, and what follows the last one.
def cutAt (sep : UInt8) (text : Bytes) : List Bytes × Bytes :=
  text.foldl (fun (out, cur) c => if c = sep then (out ++ [cur], []) else (out, cur ++ [c])) ([], [])

def splitTabs (line : Bytes) : List Bytes :=
  let (out, cur) := cutAt 9 line
  (out ++ [cur]).map unesc

-- What std::getline returns until it fails.
def getlines (text : Bytes) : List Bytes :=
  let (out, cur) := cutAt 10 text
  if cur = [] then out else out ++ [cur]

def keyFor (host : Bytes) (port : Int32) : Bytes := host ++ ascii ":" ++ ascii (toString port)

def Store.knownFingerprint (s : Store) (host : Bytes) (port : Int32) : Bytes :=
    (s.known.lookup (keyFor host port)).getD []

def Store.trust (s : Store) (host : Bytes) (port : Int32) (fp : Bytes) : Store :=
  { s with known := s.known.insert (keyFor host port) fp }

def Store.find (s : Store) (id : Bytes) : Option SavedPc := s.pcs.find? (·.id = id)

-- Assign to the first entry with this id.
def replaceFirst (pcs : List SavedPc) (id : Bytes) (pc : SavedPc) : List SavedPc :=
  match pcs with
  | [] => []
  | p :: rest => if p.id = id then pc :: rest else p :: replaceFirst rest id pc

def Store.upsert (s : Store) (pc : SavedPc) : Store :=
  if (s.find pc.id).isSome then { s with pcs := replaceFirst s.pcs pc.id pc } else { s with pcs := s.pcs ++ [pc] }

-- "728 857 467", "728-857-467" or "728857467" -> "728857467"; else "".
def relayIdDigits : Bytes → Option Bytes
  | [] => some []
  | c :: rest =>
      if 48 ≤ c ∧ c ≤ 57 then (relayIdDigits rest).map (c :: ·)
      else if c ≠ 32 ∧ c ≠ 45 then none
      else relayIdDigits rest

def relayIdOf (s : Bytes) : Bytes :=
  match relayIdDigits s with
  | none => []
  | some d => if d.length = 9 then d else []

-- The parts of "host:port" around the last colon, none without one.
def splitLastColon (s : Bytes) : Option (Bytes × Bytes) :=
  if s.contains 58 then
    let port := (s.reverse.takeWhile (· ≠ 58)).reverse
    some (s.take (s.length - port.length - 1), port)
  else none

def isSpace (c : UInt8) : Bool := c = 32 ∨ (9 ≤ c ∧ c ≤ 13)

def decimal (s : Bytes) : Int :=
  let s := s.dropWhile isSpace
  let digits (s : Bytes) : Int :=
    (s.takeWhile fun c => 48 ≤ c ∧ c ≤ 57).foldl (fun acc c => acc * 10 + (c.toNat - 48 : Nat)) 0
  match s with
  | 45 :: rest => -digits rest
  | 43 :: rest => digits rest
  | s => digits s

-- strtol and strtoll stop at the limits of a long; atoi keeps the low 32 bits.
def strtol (s : Bytes) : Int := max (-2 ^ 63) (min (2 ^ 63 - 1) (decimal s))

def atoi (s : Bytes) : Int32 := Int32.ofInt (strtol s)

def atoll (s : Bytes) : Int64 := Int64.ofInt (strtol s)

def flag (b : Bool) : Bytes := ascii (if b then "1" else "0")

def tab : Bytes := [9]

def SavedPc.line (pc : SavedPc) : Bytes :=
  ascii "pc" ++ tab ++ esc pc.id ++ tab ++ esc pc.label ++ tab ++ esc pc.host ++ tab ++ ascii (toString pc.port) ++
    tab ++ esc pc.userName ++ tab ++ flag pc.remember ++ tab ++ flag pc.fullscreen ++ tab ++
    ascii (toString pc.lastUsed) ++ tab ++ esc (if pc.remember then pc.password else []) ++ [10]

def knownLine (k : Bytes × Bytes) : Bytes := ascii "known" ++ tab ++ esc k.1 ++ tab ++ esc k.2 ++ [10]

def Store.shareLine (s : Store) : Bytes :=
  ascii "share" ++ tab ++ esc s.sharePassword ++ tab ++ flag s.shareViewOnly ++ tab ++ flag s.shareDemo ++ tab ++
    flag s.shareAlwaysOn ++ [10]

-- The text of viewer.tsv.
def Store.save (s : Store) : Bytes :=
  s.pcs.flatMap SavedPc.line ++ s.known.entries.flatMap knownLine ++ s.shareLine

-- The entry a "pc" line describes.
def SavedPc.ofFields (v : List Bytes) : SavedPc :=
  let remember : Bool := v.getD 6 [] = ascii "1"
  { id := v.getD 1 []
    label := v.getD 2 []
    host := v.getD 3 []
    port := atoi (cStr (v.getD 4 []))
    userName := v.getD 5 []
    password := if remember then v.getD 9 [] else []
    remember := remember
    fullscreen := v.getD 7 [] = ascii "1"
    lastUsed := atoll (cStr (v.getD 8 [])) }

def Store.loadLine (s : Store) (line : Bytes) : Store :=
  let v := splitTabs line
  if v.length ≥ 10 ∧ v.getD 0 [] = ascii "pc" then
    let pc := SavedPc.ofFields v
    if pc.id ≠ [] ∧ pc.host ≠ [] then { s with pcs := s.pcs ++ [pc] } else s
  else if v.length ≥ 4 ∧ v.getD 0 [] = ascii "share" then
    { s with
      sharePassword := v.getD 1 []
      shareViewOnly := v.getD 2 [] = ascii "1"
      shareDemo := v.getD 3 [] = ascii "1"
      shareAlwaysOn := v.length ≥ 5 ∧ v.getD 4 [] = ascii "1" }
  else if v.length ≥ 3 ∧ v.getD 0 [] = ascii "known" then
    { s with known := s.known.insert (v.getD 1 []) (v.getD 2 []) }
  else s

-- text is the content of viewer.tsv.
def Store.load (s : Store) (text : Bytes) : Store := (getlines text).foldl Store.loadLine s

end TetherDesk.Client
