import NestedWords.Basic
import NestedWords.Fault
import NestedWords.Table

/-!
# The arena

The arena holds the part of an automaton that has been discovered. A state is known by
its id, the position at which it was discovered. States that are reachable from exactly
the same entries (initial states and call targets) without leaving their call share a
`Component`, and all of them see the same stack tops: those of the component's entries.

Access by id answers with a `Fault` if there is no such state or component.
-/
namespace NestedWords

/-- The stack tops of an entry, with what is known about each: the one field of `Entry`. -/
abbrev Entry : Type := FinMap (Down Nat) Mark

/-- A common entries component, after `Cec`. -/
structure Component where
  /-- The entries that reach the members within their call. -/
  entries : FinSet Nat
  /-- The stack tops under which the members occur. -/
  downs : FinSet (Down Nat)
  members : FinSet Nat := ∅
  /-- The members that may have a return transition. -/
  candidates : FinSet Nat := ∅
  /-- For a member, the states of other components that it reaches in one step. -/
  border : FinMap Nat (FinSet Nat) := ∅

/-- What is known about one state, after `StateContainer`. Transitions are held at both ends, by
letter; returns by hierarchical predecessor and then by letter. -/
structure Node (S L : Type) [Ord L] where
  name : S
  component : Nat
  isInitial : Bool
  isFinal : Bool
  explored : Bool := false
  /-- The state may have a return transition. -/
  candidate : Bool := true
  mark : Mark := .reachable
  /-- The letters of its return transitions, known once it is explored. -/
  returnLetters : FinSet L := ∅
  /-- The hierarchical predecessors whose return transitions are known. -/
  examined : FinSet Nat := ∅
  internalOut : Table L (FinSet Nat) := ∅
  internalIn : Table L (FinSet Nat) := ∅
  callOut : Table L (FinSet Nat) := ∅
  callIn : Table L (FinSet Nat) := ∅
  returnOut : Table Nat (Table L (FinSet Nat)) := ∅
  returnIn : Table Nat (Table L (FinSet Nat)) := ∅
  /-- The calls made here that have returned: under a letter, linear predecessor and successor. -/
  summaries : Table L (FinSet (Nat × Nat)) := ∅

/-- The discovered states, their entries and their components, after `Arena`. A node has its name in
it, so `nodes` stands for the two lists `states` and `containers`, whose lengths agree. -/
structure Arena (S L : Type) [Ord L] where
  nodes : Array (Node S L) := #[]
  entries : FinMap Nat Entry := ∅
  components : Array Component := #[]
  /-- The component of an ascending list of entries. -/
  componentByEntries : FinMap (List Nat) Nat := ∅
  /-- The components among whose entries a state is. -/
  componentsOfEntry : FinMap Nat (FinSet Nat) := ∅

namespace Node

variable {S L : Type} [Ord L] [Std.TransOrd L]

/-- After `successors_within`: the states that follow within the same call, by an internal or a
summary edge. One that follows in several ways is listed as often. -/
def successorsWithin (n : Node S L) : List Nat :=
  n.internalOut.toList.map (·.2) ++ n.summaries.toList.map (·.2.2)

/-- After `predecessors_within`: the states that come before within the same call. For a return
that leads here this is the hierarchical predecessor, which counts as soon as it is a key. -/
def predecessorsWithin (n : Node S L) : List Nat :=
  n.internalIn.toList.map (·.2) ++ n.returnIn.keys

/-- The return transitions that lead here, `return_in` row by row. -/
def returnsInByHier (n : Node S L) : List (Nat × List (L × Nat)) :=
  n.returnIn.rows.toList.map fun (h, byLetter) => (h, byLetter.toList)

end Node

namespace Arena

variable {S L : Type} [Ord L]

/-- After `len` and `next_id`. -/
def size (a : Arena S L) : Nat := a.nodes.size

/-- After `id_of`: the id of a discovered state. -/
def idOf [DecidableEq S] (a : Arena S L) (s : S) : Option Nat :=
  a.nodes.findIdx? (·.name = s)

/-- After indexing `containers`. -/
def node (a : Arena S L) (id : Nat) : Except (Fault S) (Node S L) :=
  match a.nodes[id]? with
  | some n => .ok n
  | none => .error (.indexOutOfBounds a.nodes.size id)

/-- After indexing `cecs`. -/
def component (a : Arena S L) (id : Nat) : Except (Fault S) Component :=
  match a.components[id]? with
  | some c => .ok c
  | none => .error (.indexOutOfBounds a.components.size id)

/-- After `state`. -/
def name (a : Arena S L) (id : Nat) : Except (Fault S) S :=
  match a.nodes[id]? with
  | some n => .ok n.name
  | none => .error .unnamedState

/-- After `cec_of`. -/
def componentOf (a : Arena S L) (id : Nat) : Except (Fault S) Nat := do
  return (← a.node id).component

/-- After `down_states_of`: the stack tops under which a state occurs. -/
def downsOf (a : Arena S L) (id : Nat) : Except (Fault S) (FinSet (Down Nat)) := do
  return (← a.component (← a.componentOf id)).downs

def updateNode (a : Arena S L) (id : Nat) (f : Node S L → Node S L) :
    Except (Fault S) (Arena S L) :=
  if h : id < a.nodes.size then
    .ok { a with nodes := a.nodes.set id (f a.nodes[id]) }
  else .error (.indexOutOfBounds a.nodes.size id)

def updateComponent (a : Arena S L) (id : Nat) (f : Component → Component) :
    Except (Fault S) (Arena S L) :=
  if h : id < a.components.size then
    .ok { a with components := a.components.set id (f a.components[id]) }
  else .error (.indexOutOfBounds a.components.size id)

end Arena

end NestedWords
