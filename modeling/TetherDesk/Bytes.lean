import Mathlib.Data.List.GetD
import Mathlib.Algebra.Group.Int.Defs
import Mathlib.Algebra.Group.Nat.Defs

namespace TetherDesk

abbrev Bytes := List UInt8

-- p[i] for a C pointer p.
def byteAt (p : Bytes) (i : Nat) : UInt8 := p.getD i 0

-- The bytes of an ASCII literal of the source.
def ascii (text : String) : Bytes := text.toList.map fun c => UInt8.ofNat c.toNat

end TetherDesk
