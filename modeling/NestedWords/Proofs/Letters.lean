import NestedWords.Proofs.Automaton

/-!
# Letters without successors

An operand may say which letters a state uses, so that no other need be asked about. What it
leaves out must lead nowhere (`LettersSuffice`); a finite automaton leaves out exactly that
(`Automaton.lettersSuffice`). Two operands that differ in letters without successors only have
the `SameTransitions`, such as an operand and the one that forgets its letters
(`LettersSuffice.sameTransitions`).
-/

namespace NestedWords

variable {S L : Type} [Ord L] [Std.TransOrd L]

namespace Operand

/-- No letter that the state is asked about leads on from it by a return. -/
def NeverReturns (op : Operand S L) (s : S) : Prop :=
  ∀ l ∈ op.returnLetters s, ∀ h, op.returnSuccessors s h l = []

/-- The operands differ at most in letters without successors. -/
structure SameTransitions (A B : Operand S L) : Prop where
  initial : A.initial = B.initial
  isFinal : A.isFinal = B.isFinal
  internalSuccessors : A.internalSuccessors = B.internalSuccessors
  callSuccessors : A.callSuccessors = B.callSuccessors
  returnSuccessors : A.returnSuccessors = B.returnSuccessors
  internalLetters : ∀ {s l}, A.internalSuccessors s l ≠ [] →
    (l ∈ A.internalLetters s ↔ l ∈ B.internalLetters s)
  callLetters : ∀ {s l}, A.callSuccessors s l ≠ [] →
    (l ∈ A.callLetters s ↔ l ∈ B.callLetters s)
  returnLetters : ∀ {s h l}, A.returnSuccessors s h l ≠ [] →
    (l ∈ A.returnLetters s ↔ l ∈ B.returnLetters s)

namespace SameTransitions

variable {A B : Operand S L} (h : SameTransitions A B)
include h

theorem symm : SameTransitions B A where
  initial := h.initial.symm
  isFinal := h.isFinal.symm
  internalSuccessors := h.internalSuccessors.symm
  callSuccessors := h.callSuccessors.symm
  returnSuccessors := h.returnSuccessors.symm
  internalLetters hl := (h.internalLetters (h.internalSuccessors ▸ hl)).symm
  callLetters hl := (h.callLetters (h.callSuccessors ▸ hl)).symm
  returnLetters hl := (h.returnLetters (h.returnSuccessors ▸ hl)).symm

theorem neverReturns_iff {s : S} : A.NeverReturns s ↔ B.NeverReturns s := by
  have himp : ∀ {A B : Operand S L}, SameTransitions A B → A.NeverReturns s → B.NeverReturns s := by
    intro A B h hs l hl p
    rw [← h.returnSuccessors]
    by_cases hsucc : A.returnSuccessors s p l = []
    · exact hsucc
    · exact hs l ((h.returnLetters hsucc).mpr hl) p
  exact ⟨himp h, himp h.symm⟩

/-- For a state that may return both operands offer some letter. -/
theorem exists_returnLetter {s : S} (hs : ¬ A.NeverReturns s) :
    ∃ l, l ∈ A.returnLetters s ∧ l ∈ B.returnLetters s := by
  simp only [NeverReturns, Classical.not_forall] at hs
  obtain ⟨l, hl, p, hsucc⟩ := hs
  exact ⟨l, hl, (h.returnLetters hsucc).mp hl⟩

end SameTransitions

/-- The letters of a state are in the alphabets, and no other letter of these leads on from it. -/
structure LettersSuffice (op : Operand S L) : Prop where
  internal_subset : ∀ {s l}, l ∈ op.internalLetters s → l ∈ op.internalAlphabet
  call_subset : ∀ {s l}, l ∈ op.callLetters s → l ∈ op.callAlphabet
  return_subset : ∀ {s l}, l ∈ op.returnLetters s → l ∈ op.returnAlphabet
  internal : ∀ {s l}, l ∈ op.internalAlphabet → l ∉ op.internalLetters s →
    op.internalSuccessors s l = []
  call : ∀ {s l}, l ∈ op.callAlphabet → l ∉ op.callLetters s → op.callSuccessors s l = []
  ret : ∀ {s h l}, l ∈ op.returnAlphabet → l ∉ op.returnLetters s →
    op.returnSuccessors s h l = []

/-- Letters that suffice may be forgotten. -/
theorem LettersSuffice.sameTransitions {op : Operand S L} (h : op.LettersSuffice) :
    SameTransitions op op.forgetLetters where
  initial := rfl
  isFinal := rfl
  internalSuccessors := rfl
  callSuccessors := rfl
  returnSuccessors := rfl
  internalLetters hl := ⟨h.internal_subset, fun ha => Classical.byContradiction fun hn =>
    hl (h.internal ha hn)⟩
  callLetters hl := ⟨h.call_subset, fun ha => Classical.byContradiction fun hn => hl (h.call ha hn)⟩
  returnLetters hl := ⟨h.return_subset, fun ha => Classical.byContradiction fun hn =>
    hl (h.ret ha hn)⟩

end Operand

/-- A finite automaton leaves out the letters without transitions, and no other. -/
theorem Automaton.lettersSuffice [Ord S] [Std.TransOrd S] [Std.LawfulEqOrd S] [DecidableEq S]
    [Std.LawfulEqOrd L] [DecidableEq L] (facts : List (Fact S L)) :
    (ofFacts facts).operand.LettersSuffice where
  internal_subset {s l} hl := by
    obtain ⟨t, ht⟩ := (mem_lettersFrom_iff filled_ofFacts.internal).mp hl
    have hrecorded : Fact.internal s l t ∈ facts := (holds_ofFacts_iff_mem (by simp)).mp ht
    exact holds_ofFacts.mpr ⟨_, hrecorded, .internal⟩
  call_subset {s l} hl := by
    obtain ⟨t, ht⟩ := (mem_lettersFrom_iff filled_ofFacts.call).mp hl
    have hrecorded : Fact.call s l t ∈ facts := (holds_ofFacts_iff_mem (by simp)).mp ht
    exact holds_ofFacts.mpr ⟨_, hrecorded, .call⟩
  return_subset {s l} hl := by
    obtain ⟨⟨h, t⟩, ht⟩ := (mem_lettersFrom_iff filled_ofFacts.returns).mp hl
    have hrecorded : Fact.ret s h l t ∈ facts := (holds_ofFacts_iff_mem (by simp)).mp ht
    exact holds_ofFacts.mpr ⟨_, hrecorded, .ret⟩
  internal {s l} _ hl := List.eq_nil_iff_forall_not_mem.mpr fun t ht =>
    hl (mem_lettersFrom_of_mem (mem_targets.mp ht))
  call {s l} _ hl := List.eq_nil_iff_forall_not_mem.mpr fun t ht =>
    hl (mem_lettersFrom_of_mem (mem_targets.mp ht))
  ret {s h l} _ hl := List.eq_nil_iff_forall_not_mem.mpr fun t ht =>
    hl (mem_lettersFrom_of_mem (mem_returnTargets.mp ht))

end NestedWords
