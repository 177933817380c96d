import NestedWords.Basic

/-!
# Operands

An operand is a nested word automaton that is only known through its answers: its initial
states, which states are final, and the successors of a state under a letter. It may be
infinite and it may compute its answers on demand. Each question that can be put to it is
a `Query`, so a run over an operand can list what it asked.
-/
namespace NestedWords

/-- The answers of a nested word automaton, after `NestedWordOperand`. Lists may repeat states, in
any order. A field that is left out takes the answer that the trait gives for it. -/
structure Operand (S L : Type) [Ord L] where
  initial : List S
  isFinal : S → Bool
  internalAlphabet : FinSet L
  callAlphabet : FinSet L
  returnAlphabet : FinSet L
  /-- The letters that may label an internal transition of a state. -/
  internalLetters : S → FinSet L := fun _ => internalAlphabet
  callLetters : S → FinSet L := fun _ => callAlphabet
  returnLetters : S → FinSet L := fun _ => returnAlphabet
  internalSuccessors : S → L → List S
  callSuccessors : S → L → List S
  /-- The successors of a linear predecessor under a hierarchical one and a letter. -/
  returnSuccessors : S → S → L → List S

/-- The same automaton, which no longer says which letters a state uses. -/
def Operand.forgetLetters {S L : Type} [Ord L] (op : Operand S L) : Operand S L :=
  { op with
    internalLetters := fun _ => op.internalAlphabet
    callLetters := fun _ => op.callAlphabet
    returnLetters := fun _ => op.returnAlphabet }

/-- A question to an operand. -/
inductive Query (S L : Type)
  | initialStates
  | isFinal (state : S)
  | internalLetters (state : S)
  | callLetters (state : S)
  | returnLetters (state : S)
  | internalSuccessors (state : S) (letter : L)
  | callSuccessors (state : S) (letter : L)
  | returnSuccessors (lin hier : S) (letter : L)
  deriving DecidableEq, Repr

end NestedWords
