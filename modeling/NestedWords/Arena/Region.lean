import NestedWords.Arena.Basic

/-!
# Regions

The region of a state is the part of its component that it reaches by internal and summary
edges without leaving the component. `Arena.region` lists it in the order of a depth-first
walk that follows the last successor first: the order in which `reconcile` moves it. There each
state is moved as the walk comes to it, here the walk is listed before any is.
-/
namespace NestedWords

/-- Walks along `next` from the states on a stack, within the states not yet visited, and
lists those it comes to. -/
def depthFirst (next : Nat → List Nat) (unvisited : List Nat) : List Nat → List Nat
  | [] => []
  | u :: stack =>
    if u ∈ unvisited then
      u :: depthFirst next (unvisited.erase u)
        (((next u).filter (· ∈ unvisited.erase u)).reverse ++ stack)
    else depthFirst next unvisited stack
  termination_by stack => (unvisited.length, stack.length)
  decreasing_by
    · have : (unvisited.erase u).length < unvisited.length := by
        have h := List.length_pos_of_mem ‹u ∈ unvisited›
        rw [List.length_erase_of_mem ‹_›]; omega
      exact Prod.Lex.left _ _ this
    · exact Prod.Lex.right _ (Nat.lt_succ_self _)

namespace Arena

variable {S L : Type} [Ord L] [Std.TransOrd L]

/-- The states whose component is `c`. -/
def residents (a : Arena S L) (c : Nat) : List Nat :=
  (List.range a.size).filter fun u => (a.nodes[u]?).any (·.component == c)

/-- What follows a state within its call; nothing follows an id without a state. -/
def successorsWithin (a : Arena S L) (u : Nat) : List Nat :=
  match a.nodes[u]? with
  | some n => n.successorsWithin
  | none => []

/-- The states of component `c` that `target` reaches inside of it. -/
def region (a : Arena S L) (c target : Nat) : List Nat :=
  depthFirst a.successorsWithin (a.residents c) [target]

end Arena

end NestedWords
