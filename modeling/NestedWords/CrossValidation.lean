import NestedWords.Arena.Consistency
import NestedWords.Operand

/-!
# Cross validation

An operand may fail to answer twice alike. `crossValidate` asks again about every state of
an arena and compares the answers with what the arena holds: letter by letter, each fresh
successor must be known and each known one fresh. It answers with the questions asked.
-/
namespace NestedWords

namespace CrossValidation

variable {S L : Type} [DecidableEq S] [Ord L] [Std.TransOrd L] [DecidableEq L]

/-- The ids of states that an operand named. -/
def idsOf (a : Arena S L) (names : List S) : Except (Fault S) (FinSet Nat) := do
  let ids ← names.mapM fun s =>
    match a.idOf s with
    | some id => .ok id
    | none => .error (.successorMissing s)
  return Std.ExtTreeSet.ofList ids

/-- Compares the targets of each letter in turn, and answers with the questions. -/
def checkTargets (a : Arena S L) (letters : FinSet L) (known : Table L (FinSet Nat))
    (question : L → Query S L) (answer : L → List S) (fault : Fault S) :
    Except (Fault S) (List (Query S L)) :=
  letters.toList.mapM fun l => do
    let fresh ← idsOf a (answer l)
    ensure (known.row l == fresh) fault
    return question l

/-- Compares the targets, and the letters of known transitions with those that there are now. -/
def checkEdges (a : Arena S L) (letters : FinSet L) (known : Table L (FinSet Nat))
    (question : L → Query S L) (answer : L → List S) (fault fault' : Fault S) :
    Except (Fault S) (List (Query S L)) := do
  let asked ← checkTargets a letters known question answer fault
  ensure (known.keys.all letters.contains) fault'
  return asked

/-- The state is initial and final in the operand's eyes too. -/
def checkFlags (op : Operand S L) (n : Node S L) : Except (Fault S) (List (Query S L)) := do
  ensure (n.isInitial == op.initial.contains n.name) (.initialFlag n.name)
  ensure (n.isFinal == op.isFinal n.name) .finalFlag
  return [.isFinal n.name]

def checkInternal (a : Arena S L) (op : Operand S L) (n : Node S L) :
    Except (Fault S) (List (Query S L)) := do
  let asked ← checkEdges a (op.internalLetters n.name) n.internalOut (.internalSuccessors n.name)
    (op.internalSuccessors n.name) (.internalSuccessors n.name) .internalLetters
  return .internalLetters n.name :: asked

def checkCall (a : Arena S L) (op : Operand S L) (n : Node S L) :
    Except (Fault S) (List (Query S L)) := do
  let asked ← checkEdges a (op.callLetters n.name) n.callOut (.callSuccessors n.name)
    (op.callSuccessors n.name) (.callSuccessors n.name) .callLetters
  return .callLetters n.name :: asked

/-- Looks at the letters that there are now. Others are not compared, unlike in `checkEdges`. -/
def checkReturn (a : Arena S L) (op : Operand S L) (n : Node S L) (hier : Nat) :
    Except (Fault S) (List (Query S L)) := do
  let below ← a.name hier
  let asked ← checkTargets a (op.returnLetters n.name) (n.returnOut.row hier)
    (.returnSuccessors n.name below) (op.returnSuccessors n.name below)
    (.returnSuccessors n.name below)
  return .returnLetters n.name :: asked

def checkNode (a : Arena S L) (op : Operand S L) (n : Node S L) :
    Except (Fault S) (List (Query S L)) := do
  let flags ← checkFlags op n
  let internal ← checkInternal a op n
  let call ← checkCall a op n
  let returns ← n.examined.toList.mapM (checkReturn a op n)
  return flags ++ internal ++ call ++ returns.flatten

end CrossValidation

/-- After `cross_validate`: compares an arena with a second look at an operand. -/
def crossValidate {S L : Type} [DecidableEq S] [Ord L] [Std.TransOrd L] [DecidableEq L]
    (a : Arena S L) (op : Operand S L) : Except (Fault S) (List (Query S L)) := do
  let asked ← a.nodes.toList.mapM (CrossValidation.checkNode a op)
  return .initialStates :: asked.flatten

end NestedWords
