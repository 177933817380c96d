import NestedWords.Reachable
import NestedWords.Automaton

/-!
# A result as an automaton

What a result says of its states and transitions makes a finite automaton of its own.
`Reachable.pruned` leaves out the dead ends and every transition that touches one.
-/
namespace NestedWords.Reachable

variable {S L : Type} [DecidableEq S] [Ord L] [Std.TransOrd L] [DecidableEq L]

/-- The facts of a result that concern only states to be kept. -/
def facts (r : Reachable S L) (keep : S → Bool) : List (Fact S L) :=
  let kept := r.states.filter keep
  (r.initialStates.filter keep).map .initial
    ++ (r.finalStates.filter keep).map .final
    ++ kept.flatMap (fun s =>
      ((r.internalSuccessors s).filter fun e => keep e.2).map fun (a, t) => .internal s a t)
    ++ kept.flatMap (fun s =>
      ((r.callSuccessors s).filter fun e => keep e.2).map fun (a, t) => .call s a t)
    ++ kept.flatMap fun s =>
      ((r.returnSuccessors s).filter fun e => keep e.1 && keep e.2.2).map
        fun (h, a, t) => .ret s h a t

variable [Ord S] [Std.TransOrd S]

/-- The reachable part. -/
def automaton (r : Reachable S L) : Automaton S L := .ofFacts (r.facts fun _ => true)

/-- The reachable part without its dead ends. -/
def pruned (r : Reachable S L) : Automaton S L := .ofFacts (r.facts fun s => s ∉ r.deadEnds)

end NestedWords.Reachable
