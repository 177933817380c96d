/-!
# Settings of a computation
-/
namespace NestedWords

/-- What a computation does besides exploring, after `ReachConfig`. -/
structure Settings where
  /-- Find out which states can still reach a final state. -/
  computeDeadEnds : Bool := true
  /-- Check the arena after every work item and at the end. -/
  selfCheck : Bool := true
  /-- Ask the operand everything again at the end and compare. -/
  crossValidate : Bool := false
  /-- Report progress after this many work items; zero reports none. -/
  progressInterval : Nat := 10000
  deriving DecidableEq, Repr

namespace Settings

/-- After `without_dead_ends`. -/
def withoutDeadEnds (s : Settings) : Settings := { s with computeDeadEnds := false }

/-- After `checked`: with every check turned on. -/
def checked (s : Settings) : Settings := { s with selfCheck := true, crossValidate := true }

/-- A progress report is due after `processed` items. -/
def progressDue (s : Settings) (processed : Nat) : Bool :=
  0 < s.progressInterval && processed % s.progressInterval == 0

end Settings

end NestedWords
