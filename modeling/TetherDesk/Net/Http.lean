import TetherDesk.Secure

namespace TetherDesk.Net

open TetherDesk.Secure

-- What std::ifstream f(path) and copying its bytes come to: it doesn't open, all of
-- them, or an exception, as for a directory.
inductive FileRead
  | absent
  | body (bytes : Bytes)
  | throws
  deriving DecidableEq, Repr

def crlf : Bytes := [13, 10]

-- The position of the first occurrence.
def findSub (pat : Bytes) : Bytes → Option Nat
  | [] => if pat = [] then some 0 else none
  | b :: s => if pat.isPrefixOf (b :: s) then some 0 else (findSub pat s).map (· + 1)

def toLower (b : UInt8) : UInt8 := if 65 ≤ b ∧ b ≤ 90 then b + 32 else b

def isBlank (b : UInt8) : Bool := b = 32 ∨ b = 9

def trimBlanks (v : Bytes) : Bytes := ((v.dropWhile isBlank).reverse.dropWhile isBlank).reverse

-- Line after line; every line break takes two bytes, so headers.length rounds reach
-- the end.
def httpHeaderLoop (name : Bytes) (cap : Nat) : Nat → Bytes → Option Bytes
  | 0, _ => none
  | fuel + 1, line =>
      if line = [] then none
      else
        let eol := findSub crlf line
        let l := line.take (eol.getD line.length)
        if l.length > name.length ∧ byteAt l name.length = 58 ∧ (l.take name.length).map toLower =
          name.map toLower then
          some ((trimBlanks (l.drop (name.length + 1))).take (cap - 1))
        else
          match eol with
          | none => none
          | some k => httpHeaderLoop name cap fuel (line.drop (k + 2))

-- headers is the C string; some is the text copied out.
def rdHttpHeader (headers : Bytes) (name : String) (cap : Nat) : Option Bytes :=
  httpHeaderLoop (ascii name) cap (headers.length + 1) (cStr headers)

def base64Digit (v : Nat) : UInt8 :=
  byteAt (ascii "ABCDEFGHIJKLMNOPQRSTUVWXYZabcdefghijklmnopqrstuvwxyz0123456789+/") (v % 64)

def rdBase64 : Bytes → Bytes
  | [] => []
  | [a] =>
      let v := a.toNat <<< 16
      [base64Digit (v >>> 18), base64Digit (v >>> 12), 61, 61]
  | [a, b] =>
      let v := a.toNat <<< 16 ||| b.toNat <<< 8
      [base64Digit (v >>> 18), base64Digit (v >>> 12), base64Digit (v >>> 6), 61]
  | a :: b :: c :: rest =>
      let v := a.toNat <<< 16 ||| b.toNat <<< 8 ||| c.toNat
      base64Digit (v >>> 18) :: base64Digit (v >>> 12) :: base64Digit (v >>> 6) :: base64Digit v :: rdBase64 rest

def wsGuid : Bytes := ascii "258EAFA5-E914-47DA-95CA-C5AB0DC85B11"

def rdWsAcceptKey (cr : Crypto) (clientKey : Bytes) : Bytes := rdBase64 (cr.rdSha1 (clientKey.take 219 ++ wsGuid))

def isSpace (c : UInt8) : Bool := c = 32 ∨ (9 ≤ c ∧ c ≤ 13)

-- The first two words of a line, as operator>> reads them.
def firstWords (line : Bytes) : Bytes × Bytes :=
  let line := line.dropWhile isSpace
  let method := line.takeWhile fun c => !isSpace c
  let rest := (line.drop method.length).dropWhile isSpace
  (method, rest.takeWhile fun c => !isSpace c)

end TetherDesk.Net
