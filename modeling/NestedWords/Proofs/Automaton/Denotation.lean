import NestedWords.Proofs.Automaton.Description

/-!
# An automaton stands for a set of facts

It does not matter in which order and how often facts are recorded, but for the order in which
they first name the initial states (`ofFacts_eq`). The automaton then answers with just what was
recorded. `Reflects` says this of one kind of transitions: their successors, the letters that a
state has for them, and their alphabet. The letters of a state are keys of a map, and one of them
always has a successor because recording leaves no empty row behind (`filled_ofFacts`), so whoever
skips the other letters misses nothing. `ofFacts_denotes` puts both together.
-/

namespace NestedWords

variable {S L : Type} [Ord S] [Std.TransOrd S] [Std.LawfulEqOrd S] [DecidableEq S]
  [Ord L] [Std.TransOrd L] [Std.LawfulEqOrd L]

namespace Automaton

variable {facts facts' : List (Fact S L)}

/-- Automata are equal if facts name the initial states in the same order and put the same on
record. -/
theorem ofFacts_eq
    (hinitial : (facts.filterMap Fact.initial?).eraseDups =
      (facts'.filterMap Fact.initial?).eraseDups)
    (h : ∀ g, (∃ f ∈ facts, f.Entails g) ↔ ∃ f ∈ facts', f.Entails g) :
    ofFacts facts = ofFacts facts' := by
  refine ext_of_holds filled_ofFacts filled_ofFacts ?_ fun g => ?_
  · rw [initial_ofFacts, initial_ofFacts, hinitial]
  · rw [holds_ofFacts, holds_ofFacts, h]

end Automaton

/-! ## One kind of transitions -/

/-- The answers about one kind of transitions are those that were recorded, `made`, and no more.
Successors may depend on something besides state and letter, `ι`: those of returns do on the
hierarchical predecessor. Some letters are `declared` apart from transitions. -/
structure Reflects {ι : Type} (successors : ι → S → L → List S) (letters : S → FinSet L)
    (alphabet : FinSet L) (made : ι → S → L → S → Prop) (declared : L → Prop) : Prop where
  ascending : ∀ i s a, Ascending (successors i s a)
  mem_successors : ∀ i s a t, t ∈ successors i s a ↔ made i s a t
  mem_letters : ∀ s a, a ∈ letters s ↔ ∃ i, successors i s a ≠ []
  letters_subset : ∀ s, ∀ a ∈ letters s, a ∈ alphabet
  mem_alphabet : ∀ a, a ∈ alphabet ↔ declared a ∨ ∃ i s t, made i s a t

omit [Std.TransOrd S] [Std.LawfulEqOrd S] [DecidableEq S] [Std.LawfulEqOrd L] in
/-- A letter of a state is known by a successor, and so is in the alphabet. -/
theorem Reflects.of_made {ι : Type} {successors : ι → S → L → List S} {letters : S → FinSet L}
    {alphabet : FinSet L} {made : ι → S → L → S → Prop} {declared : L → Prop}
    (hascending : ∀ i s a, Ascending (successors i s a))
    (hsuccessors : ∀ i s a t, t ∈ successors i s a ↔ made i s a t)
    (hletters : ∀ s a, a ∈ letters s ↔ ∃ i t, made i s a t)
    (halphabet : ∀ a, a ∈ alphabet ↔ declared a ∨ ∃ i s t, made i s a t) :
    Reflects successors letters alphabet made declared where
  ascending := hascending
  mem_successors := hsuccessors
  mem_letters s a := by
    rw [hletters]
    refine exists_congr fun i => ?_
    simp only [← hsuccessors, ← List.isEmpty_eq_false_iff, List.isEmpty_eq_false_iff_exists_mem]
  letters_subset s a ha := by
    obtain ⟨i, t, hmade⟩ := (hletters s a).mp ha
    exact (halphabet a).mpr (.inr ⟨i, s, t, hmade⟩)
  mem_alphabet := halphabet

/-- The operand answers with what the facts say. -/
structure Operand.Denotes (op : Operand S L) (facts : List (Fact S L)) : Prop where
  initial : op.initial = (facts.filterMap Fact.initial?).eraseDups
  final : ∀ s, op.isFinal s = true ↔ .final s ∈ facts
  internal : Reflects (fun _ : Unit => op.internalSuccessors) op.internalLetters
    op.internalAlphabet (fun _ p a q => .internal p a q ∈ facts) (.letter .internal · ∈ facts)
  call : Reflects (fun _ : Unit => op.callSuccessors) op.callLetters
    op.callAlphabet (fun _ p a q => .call p a q ∈ facts) (.letter .call · ∈ facts)
  ret : Reflects (fun hier lin => op.returnSuccessors lin hier) op.returnLetters
    op.returnAlphabet (fun hier lin a q => .ret lin hier a q ∈ facts) (.letter .ret · ∈ facts)

variable [DecidableEq L]

namespace Automaton

variable {facts : List (Fact S L)}

omit [DecidableEq L] in
/-- A letter is in its alphabet on its own account or as that of a transition. -/
theorem holds_letter_ofFacts {k : LetterKind} {a : L} :
    (ofFacts facts).Holds (.letter k a) ↔ .letter k a ∈ facts ∨ match k with
      | .internal => ∃ p q, .internal p a q ∈ facts
      | .call => ∃ p q, .call p a q ∈ facts
      | .ret => ∃ p h q, .ret p h a q ∈ facts := by
  rw [holds_ofFacts]
  simp only [Fact.entails_letter_iff, and_or_left, exists_or, exists_eq_right]
  cases k <;> simp

omit [DecidableEq S] in
/-- What is looked up in a filled table are its elements. -/
theorem reflects_targets {t : Table S (Table L (FinSet S))} {alphabet : FinSet L}
    {made : S → L → S → Prop} {declared : L → Prop} (ht : Row.Filled t)
    (hmade : ∀ p a q, (p, a, q) ∈ t ↔ made p a q)
    (halphabet : ∀ a, a ∈ alphabet ↔ declared a ∨ ∃ p q, made p a q) :
    Reflects (fun _ : Unit => targets t) (lettersFrom t) alphabet (fun _ => made) declared := by
  refine .of_made (fun _ _ _ => Std.ExtTreeSet.ordered_toList) (fun _ s a q => ?_)
    (fun s a => ?_) fun a => ?_
  · exact mem_targets.trans (hmade s a q)
  · simp only [mem_lettersFrom_iff ht, hmade, exists_const]
  · simp only [halphabet, exists_const]

theorem operand_denotes (facts : List (Fact S L)) : (ofFacts facts).operand.Denotes facts where
  initial := initial_ofFacts
  final s := Std.ExtTreeSet.contains_iff_mem.trans (holds_ofFacts_iff_mem (g := .final s) (by simp))
  internal := reflects_targets filled_ofFacts.internal
    (fun p a q => holds_ofFacts_iff_mem (g := .internal p a q) (by simp))
    fun _ => holds_letter_ofFacts (k := .internal)
  call := reflects_targets filled_ofFacts.call
    (fun p a q => holds_ofFacts_iff_mem (g := .call p a q) (by simp))
    fun _ => holds_letter_ofFacts (k := .call)
  ret := by
    have hmade : ∀ p a h q, (p, a, h, q) ∈ (ofFacts facts).returns ↔ .ret p h a q ∈ facts :=
      fun p a h q => holds_ofFacts_iff_mem (g := .ret p h a q) (by simp)
    refine .of_made (fun _ _ _ => Std.ExtTreeSet.ordered_toList) (fun h p a q => ?_)
      (fun p a => ?_) fun a => ?_
    · exact mem_returnTargets.trans (hmade p a h q)
    · exact (mem_lettersFrom_iff filled_ofFacts.returns).trans (by simp only [Prod.exists, hmade])
    · exact (holds_letter_ofFacts (k := .ret)).trans (or_congr_right exists_comm)

end Automaton

/-- An automaton is what was recorded: the same facts, if they first name the initial states in the
same order, give equal automata, and an automaton answers with what the facts say. -/
theorem ofFacts_denotes :
    (∀ facts facts' : List (Fact S L), (∀ f, f ∈ facts ↔ f ∈ facts') →
      (facts.filterMap Fact.initial?).eraseDups = (facts'.filterMap Fact.initial?).eraseDups →
      Automaton.ofFacts facts = .ofFacts facts') ∧
    ∀ facts : List (Fact S L), (Automaton.ofFacts facts).operand.Denotes facts := by
  refine ⟨fun facts facts' hsame hinitial => ?_, Automaton.operand_denotes⟩
  exact Automaton.ofFacts_eq hinitial fun g => by simp only [hsame]

/-- Facts in no order, some of them twice. -/
def scattered : List (Fact String String) :=
  [.internal "p" "a" "r", .initial "q", .ret "r" "p" "b" "q", .initial "p", .internal "p" "a" "q",
    .initial "q", .internal "p" "a" "r"]

/-- The same facts, each once. -/
def gathered : List (Fact String String) :=
  [.initial "q", .initial "p", .internal "p" "a" "q", .internal "p" "a" "r",
    .ret "r" "p" "b" "q"]

theorem ofFacts_denotes_scattered : Automaton.ofFacts scattered = .ofFacts gathered ∧
    (Automaton.ofFacts scattered).operand.initial = ["q", "p"] ∧
    Ascending ((Automaton.ofFacts scattered).operand.internalSuccessors "p" "a") ∧
    "r" ∈ (Automaton.ofFacts scattered).operand.internalSuccessors "p" "a" ∧
    "b" ∈ (Automaton.ofFacts scattered).operand.returnLetters "r" ∧
    "b" ∉ (Automaton.ofFacts scattered).operand.returnLetters "p" := by
  obtain ⟨heq, hdenotes⟩ := ofFacts_denotes (S := String) (L := String)
  have h := hdenotes scattered
  have hinitial : (scattered.filterMap Fact.initial?).eraseDups = ["q", "p"] := by decide
  have hnext : "q" ∈ (Automaton.ofFacts scattered).operand.returnSuccessors "r" "p" "b" :=
    (h.ret.mem_successors _ _ _ _).mpr (by decide)
  refine ⟨heq _ _ (fun f => ?_) (by decide), h.initial.trans hinitial, h.internal.ascending () _ _,
    (h.internal.mem_successors () _ _ _).mpr (by decide),
    (h.ret.mem_letters _ _).mpr ⟨"p", List.ne_nil_of_mem hnext⟩, fun hb => ?_⟩
  · have hsub : scattered ⊆ gathered ∧ gathered ⊆ scattered := by decide
    exact ⟨fun hf => hsub.1 hf, fun hf => hsub.2 hf⟩
  · obtain ⟨hier, hne⟩ := (h.ret.mem_letters _ _).mp hb
    obtain ⟨t, ht⟩ := List.exists_mem_of_ne_nil _ hne
    have hmade := (h.ret.mem_successors _ _ _ _).mp ht
    simp [scattered] at hmade

end NestedWords
