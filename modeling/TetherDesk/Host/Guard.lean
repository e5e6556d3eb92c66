import TetherDesk.Host.Conn
import TetherDesk.Word
import Mathlib.Logic.Function.Basic

namespace TetherDesk.Host

structure Failures where
  count : Nat
  untilUs : Nat
  deriving DecidableEq, Repr

-- failures_ and recent_failures_.
structure Guard where
  failures : Bytes → Option Failures
  recentFailures : List Nat

def Guard.empty : Guard := ⟨fun _ => none, []⟩

def kRecentWindow : Nat := 60 * kSecond
def kRecentMax : Nat := 30

-- The clock readings of one login attempt in the order they are made: two in
-- locked_out, two in record_auth_failure.
structure AuthTimes where
  prune : Nat
  check : Nat
  push : Nat
  lock : Nat
  deriving DecidableEq, Repr

def AuthTimes.toList (t : AuthTimes) : List Nat := [t.prune, t.check, t.push, t.lock]

def Guard.prune (g : Guard) (nowUs : Nat) : Guard :=
  { g with recentFailures := g.recentFailures.filter fun t => ¬ sub64 nowUs t > kRecentWindow }

-- some seconds_left is the return value true.
def lockedOut (g : Guard) (addr : Bytes) (nowUs now : Nat) : Option Int × Guard :=
  let g := g.prune nowUs
  if g.recentFailures.length ≥ kRecentMax then
    let front := g.recentFailures.headD 0
    (some (toInt32 (sub64 (add64 front kRecentWindow) nowUs / kSecond) + 1), g)
  else
    match g.failures addr with
    | none => (none, g)
    | some f =>
        if f.untilUs ≤ now then (none, g)
        else (some (toInt32 (sub64 f.untilUs now / kSecond) + 1), g)

-- 30 s, 60 s, 120 s ... capped at 15 minutes.
def lockSeconds (count : Nat) : Nat := min 900 (30 <<< min (count - 5) 5)

def recordAuthFailure (g : Guard) (addr : Bytes) (pushed now : Nat) : Guard :=
  let f := (g.failures addr).getD ⟨0, 0⟩
  let f := { f with count := f.count + 1 }
  let f := if f.count ≥ 5 then { f with untilUs := add64 now (lockSeconds f.count * kSecond) } else f
  { failures := Function.update g.failures addr (some f)
    recentFailures := g.recentFailures ++ [pushed] }

inductive AuthVerdict
  | locked (secondsLeft : Int)
  | wrong
  | full
  | ok
  deriving DecidableEq, Repr

-- The Auth branch of handle_message on the two tables: macOk is the comparison it
-- makes when the address is not locked out, full that max_viewers are active.
def authAttempt (g : Guard) (addr : Bytes) (macOk full : Bool) (t : AuthTimes) : AuthVerdict × Guard :=
  match lockedOut g addr t.prune t.check with
  | (some secondsLeft, g) => (.locked secondsLeft, g)
  | (none, g) =>
      if !macOk then (.wrong, recordAuthFailure g addr t.push t.lock)
      else if full then (.full, g)
      else (.ok, { g with failures := Function.update g.failures addr none })

end TetherDesk.Host
