import Scriptorium.Settings.Basic

/-!
# Limits of a run

How many instructions a script may execute, how long it may take and how many lines it may print.
-/

namespace Scriptorium

structure RunLimits where
  instructions : Int64 := 100000000
  timeoutMillis : Nat := 30000
  outputLines : Nat := 5000
  deriving DecidableEq, Repr, Inhabited

namespace RunLimits

/-- The limits are looked at once in so many instructions. -/
def interval : Nat := 10000

/-- The limits that settings ask for; a run always gets one interval and one second. -/
def ofSettings (s : Settings) : RunLimits :=
  { instructions := max s.instructionLimit (Int64.ofNat interval)
    timeoutMillis := 1000 * max 1 s.timeoutSecs.toNat
    outputLines := s.maxOutputLines.toNat }

/-- The time of each look at a run, in milliseconds, when twenty intervals are taken to last one. -/
def nominalClock (looks : Nat) : Nat := looks / 20 + 1

/-- The time limit in whole seconds. -/
def timeoutSecs (l : RunLimits) : Nat := l.timeoutMillis / 1000

end RunLimits

end Scriptorium
