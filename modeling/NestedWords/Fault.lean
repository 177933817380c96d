/-!
# Broken assumptions

The exploration and its consistency checks rest on assumptions about the arena. A `Fault`
names the assumption that failed; `Fault.message` words it.
-/
namespace NestedWords

/-- An assumption that did not hold, with the states it concerns: an index out of bounds, or one of
the assertions of `Arena`, of `explore` and `reconcile`, and of the three checks. -/
inductive Fault (S : Type)
  /-- A state or component id beyond the last one. -/
  | indexOutOfBounds (size index : Nat)
  /-- A name was asked for an id that has none. -/
  | unnamedState
  /-- A component names an entry that is none. -/
  | unknownEntry
  | addedTwice
  /-- A border crossing was noted for a state of another component. -/
  | residentElsewhere
  | exploredTwice
  | entriesDidNotGrow
  | downsShrank
  | memberElsewhere (state : S)
  | notInOneComponent
  | memberCount
  | downsDiffer (component : Nat)
  | componentNotIndexed
  | candidatesNotMembers
  | candidateFlag (state : S)
  | staleBorder (component : Nat)
  | missingEntries (source target : S)
  | entryOutside (state : S)
  | unexplored (state : S)
  | unexamined (state : S)
  | returnBelowOther
  | successorMissing (state : S)
  | initialFlag (state : S)
  | finalFlag
  | internalSuccessors (state : S)
  | internalLetters
  | callSuccessors (state : S)
  | callLetters
  | returnSuccessors (state hier : S)
  deriving DecidableEq, Repr

/-- The first line of a failed comparison, with its explanation if it has one. -/
private def unequal (explanation : Option String) : String :=
  match explanation with
  | none => "assertion `left == right` failed"
  | some text => "assertion `left == right` failed: " ++ text

/-- The wording of a fault; `quote` writes a state. -/
def Fault.message {S : Type} (quote : S → String) : Fault S → String
  | indexOutOfBounds size index =>
    s!"index out of bounds: the len is {size} but the index is {index}"
  | unnamedState => "IndexSet: index out of bounds"
  | unknownEntry => "no entry found for key"
  | addedTwice => "state added twice"
  | residentElsewhere => "assertion failed: self.members.contains(&resident)"
  | exploredTwice => "assertion failed: !self.arena.containers[state].explored"
  | entriesDidNotGrow =>
    "assertion `left != right` failed: reconciliation must strictly grow the entries"
  | downsShrank => "down-states shrank during reconciliation"
  | memberElsewhere s =>
    unequal (some s!"state {quote s} listed in a component it does not point to")
  | notInOneComponent => "some state is not in exactly one component"
  | memberCount => unequal none
  | downsDiffer c =>
    unequal (some ("down-states of component " ++ toString c ++ " differ from its entries'"))
  | componentNotIndexed => unequal none
  | candidatesNotMembers => "assertion failed: cec.return_out_candidates.is_subset(&cec.members)"
  | candidateFlag s => unequal (some s!"candidate bookkeeping of {quote s}")
  | staleBorder c => unequal (some ("stale border of component " ++ toString c))
  | missingEntries s t => s!"{quote s} reaches {quote t} whose component misses entries"
  | entryOutside s => s!"entry {quote s} outside its own component"
  | unexplored s => s!"{quote s} never explored"
  | unexamined s =>
    unequal (some s!"return transitions of {quote s} not examined under every down-state")
  | returnBelowOther =>
    "assertion failed: arena.down_states_of(id).contains(&DownState::State(*hier))"
  | successorMissing s => s!"operand successor {quote s} is missing"
  | initialFlag s => unequal (some s!"initial flag of {quote s}")
  | finalFlag => unequal none
  | internalSuccessors s => unequal (some s!"internal successors of {quote s}")
  | internalLetters =>
    "assertion failed: container.internal_out.keys().all(|l| internal_letters.contains(l))"
  | callSuccessors s => unequal (some s!"call successors of {quote s}")
  | callLetters =>
    "assertion failed: container.call_out.keys().all(|l| call_letters.contains(l))"
  | returnSuccessors s h => unequal (some s!"return successors of {quote s} below {quote h}")

end NestedWords
