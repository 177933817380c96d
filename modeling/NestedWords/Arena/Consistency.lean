import NestedWords.Arena.Update

/-!
# Consistency of the arena

`Arena.checkComponents` looks at what holds between any two work items of an exploration:
every state is in exactly one component, a component sees the stack tops of its entries,
and its candidates are the members flagged as such. `Arena.checkFixpoint` adds what holds
once no work is left: borders are exact, entries spread along every edge, every state is
explored, and every return has been looked up. The first failure is reported, and each
assertion has its `Fault`.
-/
namespace NestedWords

/-- Fails with the given fault unless the condition holds. -/
def ensure {S : Type} (condition : Bool) (fault : Fault S) : Except (Fault S) Unit :=
  if condition then .ok () else .error fault

namespace Arena

variable {S L : Type} [Ord L] [Std.TransOrd L]

/-- Each listed member names the component as its own. -/
def checkMembers (a : Arena S L) (id : Nat) (c : Component) : Except (Fault S) Unit :=
  c.members.toList.forM fun m => do
    let n ← a.node m
    ensure (n.component == id) (.memberElsewhere n.name)

/-- A state is a member of the component that it names. As every listed member names its component,
this stands for the count of owners, which must be one. -/
def isHome (a : Arena S L) (id : Nat) (n : Node S L) : Bool :=
  (a.components[n.component]?).any (·.members.contains id)

/-- The component's stack tops, its place in the index and its candidates. -/
def checkComponent (a : Arena S L) (id : Nat) (c : Component) : Except (Fault S) Unit := do
  c.entries.toList.forM fun e => ensure (a.entries.contains e) .unknownEntry
  ensure (c.downs == a.downsOfEntries c.entries) (.downsDiffer id)
  ensure (a.componentByEntries[c.entries.toList]? == some id) .componentNotIndexed
  ensure (c.candidates.subset c.members) .candidatesNotMembers
  c.members.toList.forM fun m => do
    let n ← a.node m
    ensure (c.candidates.contains m == n.candidate) (.candidateFlag n.name)

/-- The components with their ids. -/
def indexedComponents (a : Arena S L) : List (Nat × Component) :=
  a.components.toList.zipIdx.map fun (c, id) => (id, c)

/-- After `check_components`. -/
def checkComponents (a : Arena S L) : Except (Fault S) Unit := do
  a.indexedComponents.forM fun (id, c) => a.checkMembers id c
  ensure (a.nodes.toList.zipIdx.all fun (n, id) => a.isHome id n) .notInOneComponent
  ensure (total (·.members.size) a.components.toList == a.size) .memberCount
  a.indexedComponents.forM fun (id, c) => a.checkComponent id c

/-- The border of a component, computed from its members' successors. -/
def exactBorder (a : Arena S L) (c : Component) : Except (Fault S) (FinMap Nat (FinSet Nat)) :=
  c.members.toList.foldlM (fun border m => do
    let foreign ← a.foreignSuccessors m
    return if foreign.isEmpty then border else border.insert m foreign) ∅

/-- The component's border is exact and its entries spread across it. -/
def checkBorder (a : Arena S L) (id : Nat) (c : Component) : Except (Fault S) Unit := do
  ensure (c.border == (← a.exactBorder c)) (.staleBorder id)
  c.border.toList.forM fun (resident, foreign) => foreign.toList.forM fun target => do
    let there ← a.component (← a.componentOf target)
    ensure (c.entries.subset there.entries)
      (.missingEntries (← a.name resident) (← a.name target))

/-- An entry is reached from itself. -/
def checkEntry (a : Arena S L) (entry : Nat) : Except (Fault S) Unit := do
  let n ← a.node entry
  let c ← a.component n.component
  ensure (c.entries.contains entry) (.entryOutside n.name)

/-- The state is explored and its returns are known under exactly its stack tops. -/
def checkExplored (a : Arena S L) (id : Nat) (n : Node S L) : Except (Fault S) Unit := do
  ensure n.explored (.unexplored n.name)
  if n.candidate then
    let hiers := (← a.downsOf id).toList.filterMap Down.state?
    ensure (n.examined == Std.ExtTreeSet.ofList hiers) (.unexamined n.name)
  n.returnOut.keys.forM fun hier => do
    ensure ((← a.downsOf id).contains (.caller hier)) .returnBelowOther

/-- After `check_invariants`. -/
def checkFixpoint (a : Arena S L) : Except (Fault S) Unit := do
  a.checkComponents
  a.indexedComponents.forM fun (id, c) => a.checkBorder id c
  a.entries.keys.forM a.checkEntry
  (a.nodes.toList.zipIdx).forM fun (n, id) => a.checkExplored id n

end Arena

end NestedWords
