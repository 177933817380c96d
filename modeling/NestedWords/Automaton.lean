import NestedWords.Operand
import NestedWords.Table

/-!
# Finite nested word automata

An `Automaton` keeps its transitions in tables and remembers the order in which its initial states
were named. It is built one `Fact` at a time, and it answers as an `Operand` by lookup: the letters
of a state are the keys of its row, its successors what stands under a letter, in ascending order.
-/
namespace NestedWords

/-- One statement about an automaton. -/
inductive Fact (S L : Type)
  | initial (state : S)
  | final (state : S)
  | letter (kind : LetterKind) (letter : L)
  | internal (source : S) (letter : L) (target : S)
  | call (source : S) (letter : L) (target : S)
  | ret (lin hier : S) (letter : L) (target : S)
  deriving DecidableEq, Repr

/-- A finite automaton, after `ExplicitNwa`. Transitions are kept by source and letter, returns by
linear predecessor, letter and hierarchical predecessor. -/
structure Automaton (S L : Type) [Ord S] [Ord L] where
  initial : List S := []
  final : FinSet S := ∅
  internalAlphabet : FinSet L := ∅
  callAlphabet : FinSet L := ∅
  returnAlphabet : FinSet L := ∅
  internal : Table S (Table L (FinSet S)) := ∅
  call : Table S (Table L (FinSet S)) := ∅
  returns : Table S (Table L (Table S (FinSet S))) := ∅

namespace Automaton

variable {S L : Type} [Ord S] [Std.TransOrd S] [DecidableEq S]
variable [Ord L] [Std.TransOrd L] [DecidableEq L]

/-! ## Building -/

section
variable (m : Automaton S L)

/-- After `with_initial`. A state that is named again keeps its first place. -/
def withInitial (s : S) : Automaton S L :=
  if s ∈ m.initial then m else { m with initial := m.initial ++ [s] }

/-- After `with_final`. -/
def withFinal (s : S) : Automaton S L := { m with final := m.final.insert s }

/-- After `with_letter`, for letters that no transition uses. -/
def withLetter : LetterKind → L → Automaton S L
  | .internal, a => { m with internalAlphabet := m.internalAlphabet.insert a }
  | .call, a => { m with callAlphabet := m.callAlphabet.insert a }
  | .ret, a => { m with returnAlphabet := m.returnAlphabet.insert a }

/-- After `with_internal`. The letter joins the alphabet, the target the row of the source and
the letter. -/
def withInternal (p : S) (a : L) (q : S) : Automaton S L :=
  { m with
    internalAlphabet := m.internalAlphabet.insert a
    internal := m.internal.insert (p, a, q) }

/-- After `with_call`. -/
def withCall (p : S) (a : L) (q : S) : Automaton S L :=
  { m with
    callAlphabet := m.callAlphabet.insert a
    call := m.call.insert (p, a, q) }

/-- After `with_return`. Behind the linear predecessor stands the letter. -/
def withReturn (lin hier : S) (a : L) (q : S) : Automaton S L :=
  { m with
    returnAlphabet := m.returnAlphabet.insert a
    returns := m.returns.insert (lin, a, hier, q) }

/-- Records a fact by the operation for it. -/
def add : Fact S L → Automaton S L
  | .initial s => m.withInitial s
  | .final s => m.withFinal s
  | .letter k a => m.withLetter k a
  | .internal p a q => m.withInternal p a q
  | .call p a q => m.withCall p a q
  | .ret lin hier a q => m.withReturn lin hier a q
end

/-- The automaton of which exactly these facts hold. -/
def ofFacts (facts : List (Fact S L)) : Automaton S L :=
  facts.foldl add {}

/-- After `number_of_transitions`: the sizes of the innermost sets together. -/
def numberOfTransitions (m : Automaton S L) : Nat :=
  m.internal.size + m.call.size + m.returns.size

/-! ## Letters and successors -/

/-- The letters under which something is kept for `s`. -/
def lettersFrom {ρ α : Type} [Row ρ α] (t : Table S (Table L ρ)) (s : S) : FinSet L :=
  Std.ExtTreeSet.ofList (t.row s).keys

/-- After `lookup`: the targets of `s` under `a`, none if one of the keys is absent. -/
def targets (t : Table S (Table L (FinSet S))) (s : S) (a : L) : List S :=
  ((t.row s).row a).toList

def returnTargets (m : Automaton S L) (lin hier : S) (a : L) : List S :=
  (((m.returns.row lin).row a).row hier).toList

/-- The automaton as a source of answers; a state uses the letters that leave it. -/
def operand (m : Automaton S L) : Operand S L where
  initial := m.initial
  isFinal := m.final.contains
  internalAlphabet := m.internalAlphabet
  callAlphabet := m.callAlphabet
  returnAlphabet := m.returnAlphabet
  internalLetters := lettersFrom m.internal
  callLetters := lettersFrom m.call
  returnLetters := lettersFrom m.returns
  internalSuccessors := targets m.internal
  callSuccessors := targets m.call
  returnSuccessors := m.returnTargets

end Automaton

end NestedWords
