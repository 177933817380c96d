import NestedWords.Automaton
import NestedWords.Proofs.Table

/-!
# What holds of a finite automaton

`Automaton.Holds` says that a fact is on record. An automaton that is built from facts has
exactly these on record, and the letters of their transitions (`holds_ofFacts`). As an operand
it makes exactly the transitions on record: `operand_internal`, `operand_call` and
`operand_ret`.
-/
namespace NestedWords

variable {S L : Type}

/-- Recording the one fact puts the other on record: itself, or the letter of a transition. -/
inductive Fact.Entails : Fact S L → Fact S L → Prop
  | self (f : Fact S L) : Entails f f
  | internal {p q : S} {a : L} : Entails (.internal p a q) (.letter .internal a)
  | call {p q : S} {a : L} : Entails (.call p a q) (.letter .call a)
  | ret {p h q : S} {a : L} : Entails (.ret p h a q) (.letter .ret a)

namespace Automaton

variable [Ord S] [Std.TransOrd S] [DecidableEq S]
variable [Ord L] [Std.TransOrd L]
variable {m : Automaton S L} {facts : List (Fact S L)} {f g : Fact S L} {p q h : S} {a : L}

/-- The fact is on record. -/
def Holds (m : Automaton S L) : Fact S L → Prop
  | .initial s => s ∈ m.initial
  | .final s => s ∈ m.final
  | .letter .internal a => a ∈ m.internalAlphabet
  | .letter .call a => a ∈ m.callAlphabet
  | .letter .ret a => a ∈ m.returnAlphabet
  | .internal p a q => (p, a, q) ∈ m.internal
  | .call p a q => (p, a, q) ∈ m.call
  | .ret lin hier a q => (lin, a, hier, q) ∈ m.returns

/-! ## Recording facts -/

theorem mem_initial_add {s t : S} : t ∈ (m.add (.initial s)).initial ↔ t ∈ m.initial ∨ t = s := by
  show t ∈ (m.withInitial s).initial ↔ _
  unfold withInitial
  split
  · next hs => exact ⟨.inl, fun ht => ht.elim id fun he => he ▸ hs⟩
  · simp

variable [Std.LawfulEqOrd S] [Std.LawfulEqOrd L]

/-- A fact that was recorded, or is now, or is the letter of a transition that is now. -/
theorem holds_add : (m.add f).Holds g ↔ m.Holds g ∨ f.Entails g := by
  have hentails : f.Entails g ↔ g = f ∨ match f, g with
      | .internal _ a _, .letter .internal b => b = a
      | .call _ a _, .letter .call b => b = a
      | .ret _ _ a _, .letter .ret b => b = a
      | _, _ => False := by
    constructor
    · intro h
      cases h <;> simp
    · intro h
      rcases h with rfl | h
      · exact .self _
      · split at h <;> first | (subst h; constructor) | cases h
  rw [hentails]
  cases f with
  | initial s =>
    cases g with
    | initial t => simp [Holds, mem_initial_add]
    | letter k b => cases k <;> simp only [Holds, add, withInitial] <;> split <;> simp
    | _ => simp only [Holds, add, withInitial]; split <;> simp
  | final s =>
    cases g with
    | letter k b => cases k <;> simp [Holds, add, withFinal]
    | final t => simp only [Holds, add, withFinal, FinSet.mem_insert]; simp
    | _ => simp [Holds, add, withFinal]
  | letter k a =>
    cases k <;> cases g with
    | letter k' b => cases k' <;> simp only [Holds, add, withLetter, FinSet.mem_insert] <;> simp
    | _ => simp [Holds, add, withLetter]
  | _ =>
    cases g with
    | letter k b =>
      cases k <;> simp only [Holds, add, withInternal, withCall, withReturn, FinSet.mem_insert] <;>
        simp
    | _ =>
      simp only [Holds, add, withInternal, withCall, withReturn, Table.mem_insert]
      simp [and_assoc, and_comm]

/-- What is on record is what was recorded. -/
theorem holds_ofFacts : (ofFacts facts).Holds g ↔ ∃ f ∈ facts, f.Entails g := by
  have hfold : ∀ m : Automaton S L,
      (facts.foldl add m).Holds g ↔ m.Holds g ∨ ∃ f ∈ facts, f.Entails g := by
    induction facts with
    | nil => simp
    | cons f facts ih =>
      intro m
      rw [List.foldl_cons, ih, holds_add]
      simp only [List.mem_cons, exists_eq_or_imp, or_assoc]
  have hempty : ¬ ({} : Automaton S L).Holds g := by
    cases g with
    | letter k b => cases k <;> simp [Holds]
    | _ => simp [Holds]
  rw [ofFacts, hfold]
  exact or_iff_right hempty

/-- Only letters are put on record by other facts. -/
theorem holds_ofFacts_iff_mem (hg : ∀ k a, g ≠ .letter k a) :
    (ofFacts facts).Holds g ↔ g ∈ facts := by
  rw [holds_ofFacts]
  constructor
  · intro h
    obtain ⟨f, hf, he⟩ := h
    cases he with
    | self => exact hf
    | _ => exact absurd rfl (hg _ _)
  · exact fun h => ⟨g, h, .self g⟩

/-! ## No empty rows -/

/-- No map among those for the transitions has a key that nothing is kept under. -/
structure Filled (m : Automaton S L) : Prop where
  internal : Row.Filled m.internal
  call : Row.Filled m.call
  returns : Row.Filled m.returns

/-- The rows that a fact makes get an element. -/
theorem Filled.add (hm : m.Filled) : (m.add f).Filled := by
  cases f with
  | initial s =>
    show (m.withInitial s).Filled
    unfold withInitial
    split
    · exact hm
    · exact { hm with }
  | letter k a => cases k <;> exact { hm with }
  | internal p a q => exact { hm with internal := Table.filled_insert hm.internal }
  | call p a q => exact { hm with call := Table.filled_insert hm.call }
  | ret p h a q => exact { hm with returns := Table.filled_insert hm.returns }
  | _ => exact { hm with }

theorem filled_ofFacts : (ofFacts facts).Filled := by
  have hfold : ∀ m : Automaton S L, m.Filled → (facts.foldl Automaton.add m).Filled := by
    induction facts with
    | nil => exact fun m hm => hm
    | cons f facts ih => exact fun m hm => ih _ hm.add
  exact hfold {} ⟨Table.filled_empty, Table.filled_empty, Table.filled_empty⟩

/-! ## As an operand -/

omit [DecidableEq S] [Std.LawfulEqOrd L] in
theorem mem_targets {t : Table S (Table L (FinSet S))} : q ∈ targets t p a ↔ (p, a, q) ∈ t :=
  Std.ExtTreeSet.mem_toList

omit [DecidableEq S] [Std.LawfulEqOrd L] in
theorem mem_returnTargets : q ∈ m.returnTargets p h a ↔ (p, a, h, q) ∈ m.returns :=
  Std.ExtTreeSet.mem_toList

variable [DecidableEq L]

section
variable {ρ α : Type} [Row ρ α] {t : Table S (Table L ρ)} {x : α}

omit [Std.LawfulEqOrd S] [DecidableEq S]

theorem mem_lettersFrom : a ∈ lettersFrom t p ↔ a ∈ (t.row p).keys := by
  rw [lettersFrom, Std.ExtTreeSet.mem_ofList, List.contains_iff_mem]

variable [Ord α] [Membership α ρ] [LawfulRow ρ]

/-- What is kept for a state has its letter among those of the state. -/
theorem mem_lettersFrom_of_mem (h : (p, a, x) ∈ t) : a ∈ lettersFrom t p :=
  mem_lettersFrom.mpr (Table.mem_keys.mpr ⟨_, Table.getElem?_of_mem h⟩)

/-- A filled table has no further letters. -/
theorem mem_lettersFrom_iff (ht : Row.Filled t) : a ∈ lettersFrom t p ↔ ∃ x, (p, a, x) ∈ t :=
  mem_lettersFrom.trans (Table.mem_keys_iff (Table.filled_row ht p))
end

-- a table that is not filled has letters without successors
example :
    let row : Table String (FinSet String) := { rows := Std.ExtTreeMap.ofList [("a", ∅)] }
    let t : Table String (Table String (FinSet String)) := { rows := .ofList [("q", row)] }
    "a" ∈ lettersFrom t "q" ∧ targets t "q" "a" = [] := by
  decide +kernel

omit [DecidableEq S]

/-- An internal transition that the operand makes is on record, and the other way round. -/
theorem operand_internal :
    a ∈ m.operand.internalLetters p ∧ q ∈ m.operand.internalSuccessors p a ↔
      m.Holds (.internal p a q) := by
  show a ∈ lettersFrom m.internal p ∧ q ∈ targets m.internal p a ↔ (p, a, q) ∈ m.internal
  rw [mem_targets]
  exact and_iff_right_of_imp mem_lettersFrom_of_mem

theorem operand_call :
    a ∈ m.operand.callLetters p ∧ q ∈ m.operand.callSuccessors p a ↔ m.Holds (.call p a q) := by
  show a ∈ lettersFrom m.call p ∧ q ∈ targets m.call p a ↔ (p, a, q) ∈ m.call
  rw [mem_targets]
  exact and_iff_right_of_imp mem_lettersFrom_of_mem

theorem operand_ret :
    a ∈ m.operand.returnLetters p ∧ q ∈ m.operand.returnSuccessors p h a ↔
      m.Holds (.ret p h a q) := by
  show a ∈ lettersFrom m.returns p ∧ q ∈ m.returnTargets p h a ↔ (p, a, h, q) ∈ m.returns
  rw [mem_returnTargets]
  exact and_iff_right_of_imp mem_lettersFrom_of_mem

end Automaton

end NestedWords
