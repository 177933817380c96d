import NestedWords.Automaton

/-!
# Written form of an automaton

A `Description` lists an automaton's parts as a document does: transitions as tuples, in
any order and with repetitions. Reading one gives the automaton of what it states, and an
automaton's own description, after `ExplicitNwaDescription`, is in canonical form.
-/
namespace NestedWords

/-- The parts of an automaton as lists. A return is written as linear predecessor,
hierarchical predecessor, letter and target. -/
structure Description (S L : Type) [Ord S] [Ord L] where
  initial : List S := []
  final : FinSet S := ∅
  internalAlphabet : FinSet L := ∅
  callAlphabet : FinSet L := ∅
  returnAlphabet : FinSet L := ∅
  internal : List (S × L × S) := []
  call : List (S × L × S) := []
  returns : List (S × S × L × S) := []

namespace Description

variable {S L : Type} [Ord S] [Std.TransOrd S] [DecidableEq S]
variable [Ord L] [Std.TransOrd L] [DecidableEq L]

/-- An automaton is begun with the initial states. The final states and the alphabets are put in as
they are, over what it has of these, and then the transitions are added one by one. -/
def toAutomaton (d : Description S L) : Automaton S L :=
  let m : Automaton S L := d.initial.foldl .withInitial {}
  let m :=
    { m with
      final := d.final
      internalAlphabet := d.internalAlphabet
      callAlphabet := d.callAlphabet
      returnAlphabet := d.returnAlphabet }
  let m := d.internal.foldl (fun m (p, a, q) => m.withInternal p a q) m
  let m := d.call.foldl (fun m (p, a, q) => m.withCall p a q) m
  d.returns.foldl (fun m (lin, hier, a, q) => m.withReturn lin hier a q) m

/-- Everything that the description states. -/
def facts (d : Description S L) : List (Fact S L) :=
  d.initial.map .initial
    ++ d.final.toList.map .final
    ++ d.internalAlphabet.toList.map (.letter .internal)
    ++ d.callAlphabet.toList.map (.letter .call)
    ++ d.returnAlphabet.toList.map (.letter .ret)
    ++ d.internal.map (fun (p, a, q) => .internal p a q)
    ++ d.call.map (fun (p, a, q) => .call p a q)
    ++ d.returns.map (fun (lin, hier, a, q) => .ret lin hier a q)

end Description

namespace Automaton

variable {S L : Type} [Ord S] [Std.TransOrd S] [Ord L] [Std.TransOrd L]

/-- After `flatten`: source, letter and target, row by row. -/
def flatten (t : Table S (Table L (FinSet S))) : List (S × L × S) :=
  t.rows.toList.flatMap fun (p, byLetter) =>
    byLetter.rows.toList.flatMap fun (a, targets) => targets.toList.map fun q => (p, a, q)

/-- In the order of the table, but with the hierarchical predecessor before the letter. -/
def flattenReturns (t : Table S (Table L (Table S (FinSet S)))) : List (S × S × L × S) :=
  t.rows.toList.flatMap fun (lin, byLetter) =>
    byLetter.rows.toList.flatMap fun (a, byHier) =>
      byHier.rows.toList.flatMap fun (hier, targets) =>
        targets.toList.map fun q => (lin, hier, a, q)

/-- The canonical description: initial states in the order of their naming, all else in
ascending order and without repetition. -/
def description (m : Automaton S L) : Description S L where
  initial := m.initial
  final := m.final
  internalAlphabet := m.internalAlphabet
  callAlphabet := m.callAlphabet
  returnAlphabet := m.returnAlphabet
  internal := flatten m.internal
  call := flatten m.call
  returns := flattenReturns m.returns

end Automaton

end NestedWords
