import NestedWords.Exploration.Basic
import NestedWords.Settings

/-!
# Running an exploration

A turn takes the next work item, asks the monitor whether to go on, does the work, and
checks the arena if told to. The run is over when no item is pending or the monitor has
said no. An operand may have infinitely many states, so `run` is given the number of turns
that it may take.
-/
namespace NestedWords

/-- The answers to the polls, counted from zero: true to go on. After `ProgressMonitor`, of which
only the answers count that `continue_processing` gives one after another. -/
abbrev Monitor : Type := Nat → Bool

namespace Monitor

/-- Never cancels. -/
def unbounded : Monitor := fun _ => true

/-- Goes on for the first `n` polls. -/
def budget (n : Nat) : Monitor := fun k => k < n

end Monitor

/-- What a turn leads to. -/
inductive Turn (S L : Type) [Ord L]
  | continues (x : Exploration S L)
  | finished (x : Exploration S L)
  | cancelled (x : Exploration S L)

namespace Exploration

variable {S L : Type} [DecidableEq S] [Ord L] [Std.TransOrd L]

/-- Counts an item as processed, after checking the arena, and reports progress if due. -/
def account (settings : Settings) (x : Exploration S L) :
    Except (Fault S) (Exploration S L) := do
  if settings.selfCheck then x.arena.checkComponents
  let x := { x with processed := x.processed + 1 }
  return if settings.progressDue x.processed then
    x.report (.progress x.processed x.arena.size x.arena.components.size)
  else x

/-- Takes one turn of the loop of `run`. -/
def turn (op : Operand S L) (settings : Settings) (monitor : Monitor) (x : Exploration S L) :
    Except (Fault S) (Turn S L) :=
  match x.pending.pop with
  | none => .ok <| .finished <|
      x.report (.fixpoint x.processed x.arena.size x.arena.components.size)
  | some (item, pending) => do
    let x := { x with pending }.note .poll
    if monitor x.processed then
      let x ← perform op (x.report (.processing item)) item
      return .continues (← x.account settings)
    else
      return .cancelled (x.report (.cancelled x.arena.size))

/-- The loop of `run`: takes turns until one is the last. Answers `none` if that takes more than
`fuel`. -/
def run (op : Operand S L) (settings : Settings) (monitor : Monitor) :
    Nat → Exploration S L → Except (Fault S) (Option (Turn S L))
  | 0, _ => .ok none
  | fuel + 1, x => do
    match ← turn op settings monitor x with
    | .continues x => run op settings monitor fuel x
    | last => return some last

/-- After `run`: explores an operand from its initial states on. -/
def start (op : Operand S L) (settings : Settings) (monitor : Monitor) (fuel : Nat) :
    Except (Fault S) (Option (Turn S L)) := do
  let x ← seed op
  run op settings monitor fuel (x.report (.seeded x.arena.size))

end Exploration

end NestedWords
