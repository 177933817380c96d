import NestedWords.Arena.Basic

/-!
# Changes to the arena

Each operation keeps the redundant parts of the arena in step: adding a state enters it
into its component, a new stack top of an entry reaches every component of that entry, and
a transition is noted at both of its ends. Moving a state leaves borders stale until
`refreshBorder` has run for the state and its predecessors.
-/
namespace NestedWords

namespace Component

/-- After `insert_member`: takes a state in, as a candidate if it may have returns. -/
def insertMember (c : Component) (state : Nat) (candidate : Bool) : Component :=
  { c with
    members := c.members.insert state
    candidates := if candidate then c.candidates.insert state else c.candidates }

/-- After `remove_member`. -/
def removeMember (c : Component) (state : Nat) : Component :=
  { c with members := c.members.erase state, candidates := c.candidates.erase state }

def insertDown (c : Component) (down : Down Nat) : Component :=
  { c with downs := c.downs.insert down }

/-- Notes that a member reaches a state of another component. That it is a member is for
`Arena.addCrossing` to check. -/
def addCrossing (c : Component) (resident foreign : Nat) : Component :=
  { c with border := c.border.insert resident ((c.border.getD resident ∅).insert foreign) }

/-- The write of `refresh_border`: replaces what a member is known to reach elsewhere. -/
def setBorder (c : Component) (resident : Nat) (foreign : FinSet Nat) : Component :=
  { c with
    border :=
      if foreign.isEmpty then c.border.erase resident else c.border.insert resident foreign }

end Component

/-- Adds a stack top that is not known yet. -/
def Entry.addDown (e : Entry) (down : Down Nat) : Entry := e.insertIfNew down .reachable

namespace Arena

variable {S L : Type} [DecidableEq S] [Ord L] [Std.TransOrd L]

/-- After `add_state`: discovers a state in the given component and answers with its id. That the
name is new is the first assertion there. The second compares the index of the name with the number
of containers before it adds one; here both stand in one array, whose size is the id, and there is
nothing to compare. -/
def addState (a : Arena S L) (name : S) (component : Nat) (isInitial isFinal : Bool) :
    Except (Fault S) (Nat × Arena S L) := do
  let id := a.size
  if (a.idOf name).isSome then throw .addedTwice
  let a := { a with nodes := a.nodes.push { name, component, isInitial, isFinal } }
  return (id, ← a.updateComponent component (·.insertMember id true))

/-- After `add_entry`: makes a state an entry, with no stack tops yet if it was none before. -/
def addEntry (a : Arena S L) (state : Nat) : Arena S L :=
  { a with entries := a.entries.insertIfNew state ∅ }

/-- The stack tops of all the given entries together. -/
def downsOfEntries (a : Arena S L) (entries : FinSet Nat) : FinSet (Down Nat) :=
  Std.ExtTreeSet.ofList (entries.toList.flatMap fun e => (a.entries.getD e ∅).keys)

/-- After `cec_for_entries`: the component with exactly these entries, which is created if there is
none. -/
def componentFor (a : Arena S L) (entries : FinSet Nat) : Nat × Arena S L :=
  match a.componentByEntries[entries.toList]? with
  | some c => (c, a)
  | none =>
    let id := a.components.size
    (id,
      { a with
        components := a.components.push { entries, downs := a.downsOfEntries entries }
        componentByEntries := a.componentByEntries.insert entries.toList id
        componentsOfEntry := entries.toList.foldl
          (fun m e => m.insert e ((m.getD e ∅).insert id)) a.componentsOfEntry })

/-- After `add_down_state`: adds a stack top to an entry and to all its components. Answers with the
components for which it was new, in ascending order. -/
def addDown (a : Arena S L) (entry : Nat) (down : Down Nat) :
    Except (Fault S) (List Nat × Arena S L) :=
  match a.entries[entry]? with
  | none => .ok ([], a)
  | some e =>
    if e.contains down then .ok ([], a)
    else do
      let a := { a with entries := a.entries.insert entry (Entry.addDown e down) }
      let cs := (a.componentsOfEntry.getD entry ∅).toList
      let grown ← cs.filterM fun c => return !(← a.component c).downs.contains down
      return (grown, ← grown.foldlM (fun a c => a.updateComponent c (·.insertDown down)) a)

/-- After `exclude_return_candidate`: notes that a state has no return transitions. -/
def excludeCandidate (a : Arena S L) (state : Nat) : Except (Fault S) (Arena S L) := do
  let c ← a.componentOf state
  let a ← a.updateNode state ({ · with candidate := false })
  a.updateComponent c fun c => { c with candidates := c.candidates.erase state }

/-- After `move_without_border_update`: moves a state to another component. -/
def move (a : Arena S L) (state target : Nat) : Except (Fault S) (Arena S L) := do
  let n ← a.node state
  let a ← a.updateNode state ({ · with component := target })
  let a ← a.updateComponent n.component (·.removeMember state)
  a.updateComponent target (·.insertMember state n.candidate)

/-- After `add_border_crossing`: notes that `resident`, a member of the component, reaches a state
elsewhere. -/
def addCrossing (a : Arena S L) (component resident foreign : Nat) :
    Except (Fault S) (Arena S L) := do
  let c ← a.component component
  if !c.members.contains resident then throw .residentElsewhere
  a.updateComponent component (·.addCrossing resident foreign)

/-- The states of other components that a state reaches in one step. -/
def foreignSuccessors (a : Arena S L) (state : Nat) : Except (Fault S) (FinSet Nat) := do
  let n ← a.node state
  let foreign ← n.successorsWithin.filterM fun t => return (← a.componentOf t) != n.component
  return Std.ExtTreeSet.ofList foreign

/-- After `refresh_border`: computes the border of a state afresh. -/
def refreshBorder (a : Arena S L) (state : Nat) : Except (Fault S) (Arena S L) := do
  let c ← a.componentOf state
  let foreign ← a.foreignSuccessors state
  a.updateComponent c (·.setBorder state foreign)

/-! ## Transitions -/

/-- After `add_internal_transition`. -/
def addInternal (a : Arena S L) (source : Nat) (letter : L) (target : Nat) :
    Except (Fault S) (Arena S L) := do
  let a ← a.updateNode source fun n =>
    { n with internalOut := n.internalOut.insert (letter, target) }
  a.updateNode target fun n => { n with internalIn := n.internalIn.insert (letter, source) }

/-- After `add_call_transition`. -/
def addCall (a : Arena S L) (source : Nat) (letter : L) (target : Nat) :
    Except (Fault S) (Arena S L) := do
  let a ← a.updateNode source fun n => { n with callOut := n.callOut.insert (letter, target) }
  a.updateNode target fun n => { n with callIn := n.callIn.insert (letter, source) }

/-- After `add_return_transition`: notes a return at both of its ends, and its summary at the
hierarchical predecessor. -/
def addReturn (a : Arena S L) (lin hier : Nat) (letter : L) (target : Nat) :
    Except (Fault S) (Arena S L) := do
  let a ← a.updateNode lin fun n =>
    { n with returnOut := n.returnOut.insert (hier, letter, target) }
  let a ← a.updateNode target fun n =>
    { n with returnIn := n.returnIn.insert (hier, letter, lin) }
  a.updateNode hier fun n => { n with summaries := n.summaries.insert (letter, lin, target) }

end Arena

end NestedWords
