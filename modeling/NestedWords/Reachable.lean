import NestedWords.Exploration.Run
import NestedWords.Liveness
import NestedWords.CrossValidation

/-!
# The reachable part of an automaton

`Reachable` is the result of a computation: the states and transitions that occur in a
reachable configuration, under which stack tops each state occurs, and, if dead ends were
computed, what can still reach a final state. States are listed in the order of their
discovery, the edges of a state by letter. A question about a state that was not reached
is answered as if the state had no transitions. The questions are those of `ReachableStates`
and have their names.
-/
namespace NestedWords

/-- The explored arena with the live double-deckers, after `ReachableStates`. -/
structure Reachable (S L : Type) [Ord L] where
  arena : Arena S L
  live : FinSet DoubleDecker := ∅
  deadEndsComputed : Bool

namespace Reachable

variable {S L : Type} [DecidableEq S] [Ord L] [Std.TransOrd L] [DecidableEq L]

/-! ## States -/

/-- What is known about a state that was reached. -/
def node? (r : Reachable S L) (s : S) : Option (Node S L) :=
  r.arena.nodes.find? (·.name = s)

def idOf (r : Reachable S L) (s : S) : Option Nat := r.arena.idOf s

/-- After `down_id`: the id of a stack top. -/
def downId (r : Reachable S L) : Down S → Option (Down Nat)
  | .bottom => some .bottom
  | .caller s => (r.idOf s).map .caller

/-- The names of ids, in the given order. -/
def names (r : Reachable S L) (ids : List Nat) : List S :=
  ids.filterMap fun id => (r.arena.nodes[id]?).map (·.name)

def nodes (r : Reachable S L) : List (Node S L) := r.arena.nodes.toList

def size (r : Reachable S L) : Nat := r.arena.size

def isEmpty (r : Reachable S L) : Bool := r.size == 0

def states (r : Reachable S L) : List S := r.nodes.map (·.name)

def contains (r : Reachable S L) (s : S) : Bool := (r.idOf s).isSome

def initialStates (r : Reachable S L) : List S := (r.nodes.filter (·.isInitial)).map (·.name)

def finalStates (r : Reachable S L) : List S := (r.nodes.filter (·.isFinal)).map (·.name)

def isInitial (r : Reachable S L) (s : S) : Bool := (r.node? s).any (·.isInitial)

def isFinal (r : Reachable S L) (s : S) : Bool := (r.node? s).any (·.isFinal)

/-! ## Transitions -/

/-- The name of an id that occurs in the arena, paired with what comes with it. -/
def named {α β : Type} (r : Reachable S L) (edges : List α) (id : α → Nat) (f : α → S → β) :
    List β :=
  edges.filterMap fun e => (r.arena.nodes[id e]?).map fun n => f e n.name

/-- After `labelled`: the edges of a state, as letter and state. -/
def labelled (r : Reachable S L) (s : S) (edges : Node S L → Table L (FinSet Nat)) :
    List (L × S) :=
  match r.node? s with
  | none => []
  | some n => r.named (edges n).toList (·.2) fun e t => (e.1, t)

def internalSuccessors (r : Reachable S L) (s : S) : List (L × S) := r.labelled s (·.internalOut)

def internalSuccessorsFor (r : Reachable S L) (s : S) (a : L) : List S :=
  (r.internalSuccessors s).filterMap fun (b, t) => if b = a then some t else none

def callSuccessors (r : Reachable S L) (s : S) : List (L × S) := r.labelled s (·.callOut)

def internalPredecessors (r : Reachable S L) (s : S) : List (L × S) := r.labelled s (·.internalIn)

def callPredecessors (r : Reachable S L) (s : S) : List (L × S) := r.labelled s (·.callIn)

/-- Hierarchical predecessor, letter and successor of each return. -/
def returnSuccessors (r : Reachable S L) (s : S) : List (S × L × S) :=
  match r.node? s with
  | none => []
  | some n =>
    (r.named n.returnOut.toList (·.1) fun e h => (h, e.2)).filterMap fun (h, a, t) =>
      (r.arena.nodes[t]?).map fun n => (h, a, n.name)

def returnSuccessorsGivenHier (r : Reachable S L) (s hier : S) : List (L × S) :=
  (r.returnSuccessors s).filterMap fun (h, e) => if h = hier then some e else none

/-- Linear predecessor, hierarchical predecessor and letter of each return. -/
def returnPredecessors (r : Reachable S L) (s : S) : List (S × S × L) :=
  match r.node? s with
  | none => []
  | some n =>
    (r.named n.returnIn.toList (·.1) fun e h => (h, e.2)).filterMap fun (h, a, lin) =>
      (r.arena.nodes[lin]?).map fun n => (n.name, h, a)

/-- The calls made in a state that have returned: letter of the return, linear predecessor
and successor. -/
def summariesOf (r : Reachable S L) (hier : S) : List (L × S × S) :=
  match r.node? hier with
  | none => []
  | some n =>
    (r.named n.summaries.toList (·.2.1) fun e lin => (e.1, lin, e.2.2)).filterMap
      fun (a, lin, t) => (r.arena.nodes[t]?).map fun n => (a, lin, n.name)

def summarySuccessors (r : Reachable S L) (hier : S) (a : L) : List (S × S) :=
  (r.summariesOf hier).filterMap fun (b, e) => if b = a then some e else none

/-! ## Stack tops -/

/-- The ids of the stack tops of a state. -/
def downIds (r : Reachable S L) (n : Node S L) : FinSet (Down Nat) :=
  match r.arena.components[n.component]? with
  | some c => c.downs
  | none => ∅

def isDoubleDecker (r : Reachable S L) (up : S) (down : Down S) : Bool :=
  match r.node? up, r.downId down with
  | some n, some d => (r.downIds n).contains d
  | _, _ => false

/-- The stack tops under which a state occurs, in the order of discovery. -/
def downStates (r : Reachable S L) (up : S) : List (Down S) :=
  match r.node? up with
  | none => []
  | some n => (r.downIds n).toList.filterMap fun
    | .bottom => some .bottom
    | .caller c => (r.arena.nodes[c]?).map fun n => .caller n.name

/-! ## Liveness -/

def reachProp (r : Reachable S L) (s : S) : Option Mark := (r.node? s).map (·.mark)

/-- Some final state can be reached from the state. Never holds if dead ends were not
computed. -/
def isLive (r : Reachable S L) (s : S) : Bool := r.reachProp s == some .noDeadEnd

def isLiveDoubleDecker (r : Reachable S L) (up : S) (down : Down S) : Bool :=
  match r.idOf up, r.downId down with
  | some u, some d => r.live.contains (u, d)
  | _, _ => false

/-- What is known about a stack top of an entry. -/
def entryLiveness (r : Reachable S L) (entry : S) (down : Down S) : Option Mark := do
  let e ← r.arena.entries[← r.idOf entry]?
  e[← r.downId down]?

def liveStates (r : Reachable S L) : List S :=
  (r.nodes.filter (·.mark == .noDeadEnd)).map (·.name)

def deadEnds (r : Reachable S L) : List S :=
  (r.nodes.filter (·.mark == .reachable)).map (·.name)

/-- A nested word may end with pending calls, so a reached final state is enough. -/
def isLanguageEmpty (r : Reachable S L) : Bool := !r.nodes.any (·.isFinal)

/-! ## Sizes -/

def numberOfInternalTransitions (r : Reachable S L) : Nat := total (·.internalOut.size) r.nodes

def numberOfCallTransitions (r : Reachable S L) : Nat := total (·.callOut.size) r.nodes

def numberOfReturnTransitions (r : Reachable S L) : Nat := total (·.returnOut.size) r.nodes

def numberOfDoubleDeckers (r : Reachable S L) : Nat := total (fun n => (r.downIds n).size) r.nodes

/-- The sizes of the result in one line. -/
def sizeInformation (r : Reachable S L) : String :=
  toString r.size ++ " states, " ++ toString r.numberOfInternalTransitions ++ " internal, "
    ++ toString r.numberOfCallTransitions ++ " call, "
    ++ toString r.numberOfReturnTransitions ++ " return transitions, "
    ++ toString r.numberOfDoubleDeckers ++ " double deckers"
    ++ if r.deadEndsComputed then ", " ++ toString r.liveStates.length ++ " live" else ""

end Reachable

/-! ## The computation -/

/-- How a computation ends. -/
inductive Outcome (S L : Type) [Ord L]
  | reached (r : Reachable S L)
  | cancelled (explored : Nat)

/-- The end of a computation and all that it noted on the way. -/
structure Computation (S L : Type) [Ord L] where
  outcome : Outcome S L
  log : Log S L

namespace Computation

/-- The span of `compute_reachable_states`, from its first step to its last. -/
def span : Span where
  name := "reachable_states"

/-- What is read of a computation by someone who follows its log. -/
def records {S L : Type} [Ord L] (c : Computation S L) (threshold : Level) : List Record :=
  span.records c.log threshold

variable {S L : Type} [DecidableEq S] [Ord L] [Std.TransOrd L] [DecidableEq L]

/-- The steps of `compute_reachable_states` after the exploration: checks, liveness, a second look
at the operand. -/
def conclude (op : Operand S L) (settings : Settings) (x : Exploration S L) :
    Except (Fault S) (Computation S L) := do
  if settings.selfCheck then x.arena.checkFixpoint
  let (r, x) ← if settings.computeDeadEnds then do
      let m ← Liveness.compute x.arena
      pure ({ arena := m.arena, live := m.live, deadEndsComputed := true },
        x.report (.livenessFinished m.live.size))
    else pure ({ arena := x.arena, deadEndsComputed := false : Reachable S L }, x)
  let x ← if settings.crossValidate then do
      let asked ← crossValidate r.arena op
      pure (asked.foldl .ask x)
    else pure x
  return { outcome := .reached r, log := (x.report (.computed r.sizeInformation)).log }

/-- After `compute_reachable_states`. Answers `none` if the exploration does not end within `fuel`
turns. -/
def run (op : Operand S L) (settings : Settings) (monitor : Monitor) (fuel : Nat) :
    Except (Fault S) (Option (Computation S L)) := do
  match ← Exploration.start op settings monitor fuel with
  | some (.finished x) => return some (← conclude op settings x)
  | some (.cancelled x) => return some { outcome := .cancelled x.explored, log := x.log }
  | _ => return none

end Computation

end NestedWords
