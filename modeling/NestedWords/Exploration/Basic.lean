import NestedWords.Exploration.Log
import NestedWords.Arena.Region
import NestedWords.Arena.Consistency

/-!
# Exploration

An exploration discovers the states of an operand from its initial states on. It never
builds a stack: a state belongs to a component, and the component knows the stack tops
under which its members occur. Exploring a state asks for its internal and call
transitions, and for its returns under every stack top. When a new edge or a new call
shows that a state is reached from more entries than its component has, `reconcile` moves
the state and its region to a larger component and queues what follows from that.
-/
namespace NestedWords

/-- The state of an exploration between two work items, after `ReachableStatesComputation`. Operand,
monitor and settings are arguments of the operations, and the log takes what is reported. -/
structure Exploration (S L : Type) [Ord L] where
  arena : Arena S L := {}
  pending : Worklist := {}
  /-- How many items have been processed. -/
  processed : Nat := 0
  log : Log S L := #[]

namespace Exploration

variable {S L : Type} [DecidableEq S] [Ord L] [Std.TransOrd L]

def note (x : Exploration S L) (n : Note S L) : Exploration S L :=
  { x with log := x.log.push n }

/-- Notes a question to the operand. -/
def ask (x : Exploration S L) (q : Query S L) : Exploration S L := x.note (.query q)

def report (x : Exploration S L) (e : Event) : Exploration S L := x.note (.event e)

def push (x : Exploration S L) (item : WorkItem) : Exploration S L :=
  { x with pending := x.pending.push item }

/-- After `explored`: how many states have been explored. -/
def explored (x : Exploration S L) : Nat := x.arena.nodes.toList.countP (·.explored)

/-! ## Reconciliation -/

/-- Moves the states one by one. -/
def moveAll (a : Arena S L) (states : List Nat) (target : Nat) :
    Except (Fault S) (Arena S L) :=
  states.foldlM (fun a u => a.move u target) a

/-- The states whose borders change when `moved` leave their component: they themselves
and all that come before them. -/
def touched (a : Arena S L) (moved : List Nat) : Except (Fault S) (FinSet Nat) :=
  moved.foldlM (fun t u => do
    let n ← a.node u
    return (t.insert u).insertMany n.predecessorsWithin) ∅

/-- Makes the borders right again after `moved` have left component `old`. -/
def refreshBorders (a : Arena S L) (old : Nat) (moved : List Nat) :
    Except (Fault S) (Arena S L) := do
  let a ← moved.foldlM (fun a u =>
    a.updateComponent old fun c => { c with border := c.border.erase u }) a
  let states ← touched a moved
  states.toList.foldlM (fun a u => a.refreshBorder u) a

/-- What is due for a state that has moved to component `new`: the states that it reaches
elsewhere are reconciled, and its returns are looked up under the new stack tops. -/
def followMove (new : Nat) (freshHiers : List Nat) (x : Exploration S L) (u : Nat) :
    Except (Fault S) (Exploration S L) := do
  let c ← x.arena.component new
  let n ← x.arena.node u
  let x := (c.border.getD u ∅).toList.foldl (fun x v => x.push (.reconcile new v)) x
  if n.explored && n.candidate then
    return freshHiers.foldl (fun x h => x.push (.examine u h)) x
  return x

/-- After `reconcile`: lets the component of `target` have the entries `extra` too. The region of
`target` moves to the component of the union; what its states reach elsewhere is left to items of
its own. -/
def reconcile (x : Exploration S L) (target : Nat) (extra : FinSet Nat) :
    Except (Fault S) (Exploration S L) := do
  let old ← x.arena.componentOf target
  let oldComponent ← x.arena.component old
  if extra.subset oldComponent.entries then return x
  let (new, arena) := x.arena.componentFor (oldComponent.entries ∪ extra)
  let newComponent ← arena.component new
  ensure (old != new) .entriesDidNotGrow
  ensure (oldComponent.downs.subset newComponent.downs) .downsShrank
  let moved := arena.region old target
  let arena ← moveAll arena moved new
  let x := { x with arena }.report (.reconciled target old new moved.length)
  let arena ← refreshBorders x.arena old moved
  let freshHiers := (newComponent.downs \ oldComponent.downs).toList.filterMap Down.state?
  moved.foldlM (followMove new freshHiers) { x with arena }

/-! ## Discovery -/

/-- After `get_or_add`: the id of a state, which joins the given component if it is new. -/
def discover (op : Operand S L) (x : Exploration S L) (name : S) (component : Nat)
    (isInitial : Bool) : Except (Fault S) (Nat × Exploration S L) :=
  match x.arena.idOf name with
  | some id => .ok (id, x)
  | none => do
    let x := x.ask (.isFinal name)
    let (id, arena) ← x.arena.addState name component isInitial (op.isFinal name)
    return (id, { x with arena }.push (.explore id))

/-- Discovers a new state as an entry with a component of its own, as `seed` and `enter` do. -/
def discoverEntry (op : Operand S L) (x : Exploration S L) (name : S) (downs : List (Down Nat))
    (isInitial : Bool) : Except (Fault S) (Nat × Exploration S L) := do
  let id := x.arena.size
  let arena := x.arena.addEntry id
  let arena ← downs.foldlM (fun a d => return (← a.addDown id d).2) arena
  let (c, arena) := arena.componentFor (Std.ExtTreeSet.ofList [id])
  discover op { x with arena } name c isInitial

/-- After `cross_if_foreign`: notes that `resident` reaches `target` within its call. -/
def crossIfForeign (x : Exploration S L) (resident target : Nat) :
    Except (Fault S) (Exploration S L) := do
  let source ← x.arena.componentOf resident
  if (← x.arena.componentOf target) != source then
    let arena ← x.arena.addCrossing source resident target
    return { x with arena }.push (.reconcile source target)
  return x

/-- After `seed`: starts from the initial states, each an entry under the empty stack. -/
def seed (op : Operand S L) : Except (Fault S) (Exploration S L) :=
  op.initial.foldlM (fun x s =>
    if (x.arena.idOf s).isSome then .ok x
    else do return (← discoverEntry op x s [.bottom] true).2)
    (({} : Exploration S L).ask .initialStates)

/-! ## Transitions -/

/-- Takes an internal transition from `state` to the state named `target`, the body of the first
loop of `explore`. -/
def takeInternal (op : Operand S L) (state : Nat) (letter : L) (x : Exploration S L)
    (target : S) : Except (Fault S) (Exploration S L) := do
  let c ← x.arena.componentOf state
  let (t, x) ← discover op x target c false
  let arena ← x.arena.addInternal state letter t
  crossIfForeign { x with arena } state t

/-- After `enter`: the id of a call target, which becomes an entry. -/
def enter (op : Operand S L) (x : Exploration S L) (name : S) :
    Except (Fault S) (Nat × Exploration S L) :=
  match x.arena.idOf name with
  | none => discoverEntry op x name [] false
  | some id =>
    if x.arena.entries.contains id then .ok (id, x)
    else do
      let x := { x with arena := x.arena.addEntry id }
      return (id, ← x.reconcile id (Std.ExtTreeSet.ofList [id]))

/-- After `add_down_state`: adds a caller to an entry and looks up, where it is new, the returns to
it. -/
def addCaller (x : Exploration S L) (entry caller : Nat) :
    Except (Fault S) (Exploration S L) := do
  let (grown, arena) ← x.arena.addDown entry (.caller caller)
  grown.foldlM (fun x c => do
    let component ← x.arena.component c
    let explored ← component.candidates.toList.filterM fun up =>
      return (← x.arena.node up).explored
    return explored.foldl (fun x up => x.push (.examine up caller)) x) { x with arena }

/-- Takes a call transition from `state` to the state named `target`, the body of the second loop of
`explore`. -/
def takeCall (op : Operand S L) (state : Nat) (letter : L) (x : Exploration S L)
    (target : S) : Except (Fault S) (Exploration S L) := do
  let (t, x) ← enter op x target
  let arena ← x.arena.addCall state letter t
  addCaller { x with arena } t state

/-- Takes a return transition from `up` under `hier` to the state named `target`, which
continues the call in which `hier` is: the body of the loop of `examine_returns`. -/
def takeReturn (op : Operand S L) (up hier : Nat) (letter : L) (x : Exploration S L)
    (target : S) : Except (Fault S) (Exploration S L) := do
  let c ← x.arena.componentOf hier
  let (t, x) ← discover op x target c false
  let arena ← x.arena.addReturn up hier letter t
  crossIfForeign { x with arena } hier t

/-- After `examine_returns`: asks for the returns of `up` under `hier`, once. -/
def examine (op : Operand S L) (up : Nat) (x : Exploration S L) (hier : Nat) :
    Except (Fault S) (Exploration S L) := do
  let n ← x.arena.node up
  if n.examined.contains hier then return x
  let arena ← x.arena.updateNode up fun n => { n with examined := n.examined.insert hier }
  let below ← arena.name hier
  n.returnLetters.toList.foldlM (fun x a =>
    (op.returnSuccessors n.name below a).foldlM (takeReturn op up hier a)
      (x.ask (.returnSuccessors n.name below a))) { x with arena }

/-- Marks a state as explored and remembers the letters of its returns. -/
def markExplored (a : Arena S L) (state : Nat) (letters : FinSet L) :
    Except (Fault S) (Arena S L) := do
  let a ← if letters.isEmpty then a.excludeCandidate state else pure a
  a.updateNode state fun n => { n with returnLetters := letters, explored := true }

/-- After `explore`: asks for everything that leaves a state. -/
def explore (op : Operand S L) (x : Exploration S L) (state : Nat) :
    Except (Fault S) (Exploration S L) := do
  let n ← x.arena.node state
  ensure (!n.explored) .exploredTwice
  let x := x.ask (.returnLetters n.name)
  let arena ← markExplored x.arena state (op.returnLetters n.name)
  let x := { x with arena }.ask (.internalLetters n.name)
  let x ← (op.internalLetters n.name).toList.foldlM (fun x a =>
    (op.internalSuccessors n.name a).foldlM (takeInternal op state a)
      (x.ask (.internalSuccessors n.name a))) x
  let x := x.ask (.callLetters n.name)
  let x ← (op.callLetters n.name).toList.foldlM (fun x a =>
    (op.callSuccessors n.name a).foldlM (takeCall op state a)
      (x.ask (.callSuccessors n.name a))) x
  if !(← x.arena.node state).candidate then return x
  let hiers := (← x.arena.downsOf state).toList.filterMap Down.state?
  hiers.foldlM (examine op state) x

/-- Does one item of work, as the loop of `run` does. -/
def perform (op : Operand S L) (x : Exploration S L) :
    WorkItem → Except (Fault S) (Exploration S L)
  | .explore state => explore op x state
  | .reconcile source target => do x.reconcile target (← x.arena.component source).entries
  | .examine up hier => do
    if (← x.arena.node up).explored then examine op up x hier else return x

end Exploration

end NestedWords
