import Mathlib.Algebra.Ring.Basic
import Mathlib.Tactic.Ring

namespace TetherDesk.Lib.MontgomeryLadder

-- Two points of a Montgomery curve, each by the quotient x / z of its coordinate.
structure Points (R : Type) where
  x2 : R
  z2 : R
  x3 : R
  z3 : R

variable {R : Type}

def Points.swap (b : Bool) (s : Points R) : Points R := if b then ⟨s.x3, s.z3, s.x2, s.z2⟩ else s

theorem Points.swap_swap (a b : Bool) (s : Points R) : (s.swap a).swap b = s.swap (a ^^ b) := by
  cases a
  · cases b
    · rfl
    · rfl
  · cases b
    · rfl
    · rfl

variable [CommRing R] (a24 x1 : R) (bit : Nat → Bool)

-- Doubles the first point and adds it to the second one; x1 is their difference.
def step (s : Points R) : Points R :=
  let a := s.x2 + s.z2
  let aa := a ^ 2
  let b := s.x2 - s.z2
  let bb := b ^ 2
  let e := aa - bb
  let c := s.x3 + s.z3
  let d := s.x3 - s.z3
  let da := d * a
  let cb := c * b
  { x3 := (da + cb) ^ 2
    z3 := x1 * (da - cb) ^ 2
    x2 := aa * bb
    z2 := e * (aa + a24 * e) }

-- For every bit of the scalar, the highest first: the points are exchanged if the bit is not the one before.
def run : Nat → Bool × Points R → Bool × Points R
  | 0, s => s
  | t + 1, (swap, s) => run t (bit t, step a24 x1 (s.swap (swap ^^ bit t)))

def ladder (bits : Nat) : R × R :=
  let (swap, s) := run a24 x1 bit bits (false, ⟨1, 0, x1, 1⟩)
  let s := s.swap swap
  (s.x2, s.z2)

-- The same with the points exchanged back at the end of each step.
def runBack : Nat → Points R → Points R
  | 0, s => s
  | t + 1, s => runBack t ((step a24 x1 (s.swap (bit t))).swap (bit t))

theorem run_back (n : Nat) (swap : Bool) (s : Points R) :
    (run a24 x1 bit n (swap, s)).2.swap (run a24 x1 bit n (swap, s)).1 = runBack a24 x1 bit n (s.swap swap) := by
  induction n generalizing swap s with
  | zero => rfl
  | succ n ih =>
      rw [run, ih, runBack, Points.swap_swap]

theorem ladder_back (bits : Nat) :
    ladder a24 x1 bit bits =
      ((runBack a24 x1 bit bits ⟨1, 0, x1, 1⟩).x2, (runBack a24 x1 bit bits ⟨1, 0, x1, 1⟩).z2) := by
  have h : (run a24 x1 bit bits (false, ⟨1, 0, x1, 1⟩)).2.swap (run a24 x1 bit bits (false, ⟨1, 0, x1, 1⟩)).1 =
      runBack a24 x1 bit bits ⟨1, 0, x1, 1⟩ := run_back a24 x1 bit bits false ⟨1, 0, x1, 1⟩
  rw [← h]
  rfl

end TetherDesk.Lib.MontgomeryLadder
