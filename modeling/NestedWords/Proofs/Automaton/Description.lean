import Mathlib.Data.List.Induction
import NestedWords.Automaton.Description
import NestedWords.Proofs.Automaton

/-!
# Written form and back

An automaton without empty rows is determined by its initial states in order and by what is on
record (`ext_of_holds`). Reading a description makes the automaton of what it states, although the
final states and the alphabets are put in as a whole (`Description.toAutomaton_eq`), and the
description of an automaton lists the elements of its tables (`flatten_eq`, `flattenReturns_eq`). So
it states just what is on record (`mem_facts_description`), and the letters of its transitions
already are, so that reading it back gives the automaton again (`toAutomaton_description`).

The other way round a description comes back in canonical form. `Description.Canonical` says
which form this is, without mention of automata, and `description_roundTrip` that both ways are
as they should be.
-/

namespace NestedWords

/-! ## First occurrences -/

section
variable {α : Type} [DecidableEq α] {l : List α} {x : α}

theorem eraseDups_concat :
    (l ++ [x]).eraseDups = if x ∈ l then l.eraseDups else l.eraseDups ++ [x] := by
  rw [List.eraseDups_append]
  split
  · next hx =>
    have hnone : [x].removeAll l = [] := by simp [List.removeAll, hx]
    rw [hnone, List.eraseDups_nil, List.append_nil]
  · next hx =>
    have hall : [x].removeAll l = [x] := by simp [List.removeAll, hx]
    rw [hall]
    rfl

theorem nodup_eraseDups : l.eraseDups.Nodup := by
  induction l using List.reverseRecOn with
  | nil => exact .nil
  | append_singleton l x ih =>
    rw [eraseDups_concat]
    split
    · exact ih
    · next hx =>
      refine List.nodup_append.mpr ⟨ih, by simp, fun y hy z hz h => hx ?_⟩
      rw [List.mem_singleton.mp hz] at h
      exact h ▸ List.mem_eraseDups.mp hy

theorem eraseDups_of_nodup (h : l.Nodup) : l.eraseDups = l := by
  induction l using List.reverseRecOn with
  | nil => rfl
  | append_singleton l x ih =>
    obtain ⟨hl, -, hne⟩ := List.nodup_append.mp h
    rw [eraseDups_concat, if_neg fun hx => hne x hx x (by simp) rfl, ih hl]
end

variable {S L : Type}

namespace Fact

/-- The state that the fact names as an initial one. -/
def initial? : Fact S L → Option S
  | .initial s => some s
  | _ => none

theorem Entails.trans {f g h : Fact S L} (hfg : f.Entails g) (hgh : g.Entails h) : f.Entails h := by
  cases hgh with
  | self => exact hfg
  | _ => cases hfg with
    | self => constructor

/-- A letter is put on record by itself and by the transitions of its kind that have it. -/
theorem entails_letter_iff {f : Fact S L} {k : LetterKind} {a : L} :
    f.Entails (.letter k a) ↔ f = .letter k a ∨ match k with
      | .internal => ∃ p q, f = .internal p a q
      | .call => ∃ p q, f = .call p a q
      | .ret => ∃ p h q, f = .ret p h a q := by
  constructor
  · intro h
    cases h <;> simp
  · rintro (rfl | h)
    · exact .self _
    · cases k with
      | internal => obtain ⟨p, q, rfl⟩ := h; exact .internal
      | call => obtain ⟨p, q, rfl⟩ := h; exact .call
      | ret => obtain ⟨p, h, q, rfl⟩ := h; exact .ret

end Fact

/-- A return in the order in which automata list them: the letter before the caller. -/
def Description.byLetter (t : S × S × L × S) : S × L × S × S := (t.1, t.2.2.1, t.2.1, t.2.2.2)

theorem Description.byLetter_injective :
    Function.Injective (byLetter : S × S × L × S → S × L × S × S) := by
  rintro ⟨lin, hier, a, q⟩ ⟨lin', hier', a', q'⟩ h
  simp only [byLetter, Prod.mk.injEq] at h
  obtain ⟨rfl, rfl, rfl, rfl⟩ := h
  rfl

variable [Ord S] [Std.TransOrd S] [Ord L] [Std.TransOrd L]

/-- The initial states that a description states, in its order. -/
theorem Description.initial_facts (d : Description S L) :
    d.facts.filterMap Fact.initial? = d.initial := by
  have hnone : ∀ {α : Type} (l : List α), l.filterMap (fun _ => (none : Option S)) = [] :=
    fun l => List.filterMap_eq_nil_iff.mpr fun _ _ => rfl
  simp [Description.facts, List.filterMap_map, Function.comp_def, Fact.initial?, hnone]

variable [Std.LawfulEqOrd S] [DecidableEq S] [Std.LawfulEqOrd L]

namespace Automaton

variable {m m' : Automaton S L} {facts : List (Fact S L)} {f g : Fact S L}

/-! ## What determines an automaton -/

omit [DecidableEq S] in
/-- Automata without empty rows are what is on record, and the order of the initial states. -/
theorem ext_of_holds (hm : m.Filled) (hm' : m'.Filled) (hinitial : m.initial = m'.initial)
    (h : ∀ g, m.Holds g ↔ m'.Holds g) : m = m' := by
  obtain ⟨i, f, ia, ca, ra, it, ct, rt⟩ := m
  obtain ⟨i', f', ia', ca', ra', it', ct', rt'⟩ := m'
  obtain rfl : i = i' := hinitial
  obtain rfl : f = f' := Std.ExtTreeSet.ext_mem fun s => h (.final s)
  obtain rfl : ia = ia' := Std.ExtTreeSet.ext_mem fun a => h (.letter .internal a)
  obtain rfl : ca = ca' := Std.ExtTreeSet.ext_mem fun a => h (.letter .call a)
  obtain rfl : ra = ra' := Std.ExtTreeSet.ext_mem fun a => h (.letter .ret a)
  obtain rfl : it = it' := Table.ext_mem hm.internal hm'.internal fun (p, a, q) =>
    h (.internal p a q)
  obtain rfl : ct = ct' := Table.ext_mem hm.call hm'.call fun (p, a, q) => h (.call p a q)
  obtain rfl : rt = rt' := Table.ext_mem hm.returns hm'.returns fun (p, a, h', q) =>
    h (.ret p h' a q)
  rfl

omit [Std.LawfulEqOrd S] [Std.LawfulEqOrd L] in
/-- A state that is named again keeps its first place. -/
theorem initial_add : (m.add f).initial = match f.initial? with
    | none => m.initial
    | some s => if s ∈ m.initial then m.initial else m.initial ++ [s] := by
  cases f with
  | initial s =>
    show (m.withInitial s).initial = _
    unfold withInitial
    split <;> simp_all [Fact.initial?]
  | letter k a => cases k <;> rfl
  | _ => rfl

omit [Std.LawfulEqOrd S] [Std.LawfulEqOrd L] in
/-- The initial states in the order in which the facts first name them. -/
theorem initial_ofFacts : (ofFacts facts).initial = (facts.filterMap Fact.initial?).eraseDups := by
  induction facts using List.reverseRecOn with
  | nil => rfl
  | append_singleton facts f ih =>
    rw [ofFacts, List.foldl_append, ← ofFacts, List.foldl_cons, List.foldl_nil, initial_add, ih,
      List.filterMap_append]
    cases hf : f.initial? with
    | none => simp [hf]
    | some s => simp [hf, eraseDups_concat]

/-- What is on record entails nothing else: the letters of transitions are on record too. -/
theorem holds_of_entails (hf : (ofFacts facts).Holds f) (h : f.Entails g) :
    (ofFacts facts).Holds g := by
  obtain ⟨e, he, hef⟩ := holds_ofFacts.mp hf
  exact holds_ofFacts.mpr ⟨e, he, hef.trans h⟩

end Automaton

/-! ## Reading a description -/

/-- To insert the elements of a set one by one comes to putting the set there. -/
theorem FinSet.foldl_insert {α β : Type} [Ord α] [Std.TransOrd α] [Std.LawfulEqOrd α]
    (put : FinSet α → β) {step : β → α → β} (h : ∀ s x, step (put s) x = put (s.insert x))
    (s : FinSet α) {b : β} (hb : put ∅ = b) : s.toList.foldl step b = put s := by
  have hmem : ∀ (l : List α) (t : FinSet α) x, x ∈ l.foldl (·.insert ·) t ↔ x ∈ t ∨ x ∈ l := by
    intro l
    induction l with
    | nil => simp
    | cons y l ih =>
      intro t x
      rw [List.foldl_cons, ih, FinSet.mem_insert, List.mem_cons, or_assoc]
  rw [← hb, List.foldl_hom put h]
  exact congrArg put (Std.ExtTreeSet.ext_mem fun x => by simp [hmem])

namespace Description

omit [Std.TransOrd S] [Std.LawfulEqOrd S] [Std.TransOrd L] [Std.LawfulEqOrd L] in
/-- Naming initial states touches nothing else. -/
theorem foldl_withInitial (l : List S) :
    ∃ i, l.foldl .withInitial ({} : Automaton S L) = { initial := i } := by
  have h : ∀ i : List S, ∃ i', l.foldl .withInitial ({ initial := i } : Automaton S L) =
      { initial := i' } := by
    induction l with
    | nil => exact fun i => ⟨i, rfl⟩
    | cons s l ih =>
      intro i
      rw [List.foldl_cons, Automaton.withInitial]
      split
      · exact ih i
      · exact ih (i ++ [s])
  exact h []

/-- To put in the final states and the alphabets comes to recording them one by one. -/
theorem toAutomaton_eq (d : Description S L) : d.toAutomaton = .ofFacts d.facts := by
  have hfinal : ∀ m : Automaton S L, m.final = ∅ →
      d.final.toList.foldl .withFinal m = { m with final := d.final } := fun m hm =>
    FinSet.foldl_insert (fun s => { m with final := s }) (fun _ _ => rfl) _ (by rw [← hm])
  have hinternal : ∀ m : Automaton S L, m.internalAlphabet = ∅ →
      d.internalAlphabet.toList.foldl (fun m a => m.withLetter .internal a) m =
        { m with internalAlphabet := d.internalAlphabet } := fun m hm =>
    FinSet.foldl_insert (fun s => { m with internalAlphabet := s }) (fun _ _ => rfl) _
      (by rw [← hm])
  have hcall : ∀ m : Automaton S L, m.callAlphabet = ∅ →
      d.callAlphabet.toList.foldl (fun m a => m.withLetter .call a) m =
        { m with callAlphabet := d.callAlphabet } := fun m hm =>
    FinSet.foldl_insert (fun s => { m with callAlphabet := s }) (fun _ _ => rfl) _
      (by rw [← hm])
  have hret : ∀ m : Automaton S L, m.returnAlphabet = ∅ →
      d.returnAlphabet.toList.foldl (fun m a => m.withLetter .ret a) m =
        { m with returnAlphabet := d.returnAlphabet } := fun m hm =>
    FinSet.foldl_insert (fun s => { m with returnAlphabet := s }) (fun _ _ => rfl) _
      (by rw [← hm])
  obtain ⟨i, hi⟩ := foldl_withInitial (L := L) d.initial
  simp only [toAutomaton, Automaton.ofFacts, facts, List.foldl_append, List.foldl_map,
    Automaton.add]
  rw [hi, hfinal _ rfl, hinternal _ rfl, hcall _ rfl, hret _ rfl]

end Description

/-! ## From an automaton to its description and back -/

namespace Automaton

variable {m : Automaton S L} {facts : List (Fact S L)} {f g : Fact S L}

section
omit [Std.LawfulEqOrd S] [DecidableEq S] [Std.LawfulEqOrd L]

/-- The elements of a table, two keys in front of each. -/
theorem flatten_eq (t : Table S (Table L (FinSet S))) : flatten t = t.toList := by
  simp only [flatten, Table.toList, Row.toList, List.map_flatMap, List.map_map, Function.comp_def]

theorem flattenReturns_eq (t : Table S (Table L (Table S (FinSet S)))) :
    flattenReturns t = t.toList.map fun (lin, a, hier, q) => (lin, hier, a, q) := by
  simp only [flattenReturns, Table.toList, Row.toList, List.map_flatMap, List.map_map,
    Function.comp_def]
end

section
omit [DecidableEq S]

theorem mem_flatten {t : Table S (Table L (FinSet S))} {e : S × L × S} : e ∈ flatten t ↔ e ∈ t := by
  rw [flatten_eq, Table.mem_toList]

theorem ascending_flatten (t : Table S (Table L (FinSet S))) : Ascending (flatten t) := by
  rw [flatten_eq]
  exact Table.ascending_toList t

theorem mem_flattenReturns {t : Table S (Table L (Table S (FinSet S)))} {lin hier q : S} {a : L} :
    (lin, hier, a, q) ∈ flattenReturns t ↔ (lin, a, hier, q) ∈ t := by
  simp [flattenReturns_eq, Table.mem_toList]

/-- The description states what is on record. -/
theorem mem_facts_description : g ∈ m.description.facts ↔ m.Holds g := by
  cases g with
  | letter k a => cases k <;> simp [Description.facts, description, Holds]
  | _ => simp [Description.facts, description, Holds, mem_flatten, mem_flattenReturns]
end

/-- An automaton is read back from its description. -/
theorem toAutomaton_description (facts : List (Fact S L)) :
    (ofFacts facts).description.toAutomaton = ofFacts facts := by
  rw [Description.toAutomaton_eq]
  refine ext_of_holds filled_ofFacts filled_ofFacts ?_ fun g => ?_
  · have hnodup : (ofFacts facts).initial.Nodup := by
      rw [initial_ofFacts]
      exact nodup_eraseDups
    rw [initial_ofFacts, Description.initial_facts]
    exact eraseDups_of_nodup hnodup
  · rw [holds_ofFacts]
    constructor
    · rintro ⟨f, hf, hfg⟩
      exact holds_of_entails (mem_facts_description.mp hf) hfg
    · exact fun hg => ⟨g, mem_facts_description.mpr hg, .self g⟩

omit [DecidableEq S] in
theorem numberOfTransitions_eq_length : m.numberOfTransitions =
    m.description.internal.length + m.description.call.length + m.description.returns.length := by
  simp only [numberOfTransitions, description, flatten_eq, flattenReturns_eq, List.length_map,
    Table.length_toList]

end Automaton

/-! ## From a description to its automaton and back -/

namespace Description

variable {d c c' : Description S L}

/-- `c` is `d` in canonical form: initial states where they are named first, the letters of
transitions in the alphabets, and all transitions in ascending order. -/
structure Canonical (d c : Description S L) : Prop where
  initial : c.initial = d.initial.eraseDups
  final : c.final = d.final
  mem_internalAlphabet : ∀ a, a ∈ c.internalAlphabet ↔
    a ∈ d.internalAlphabet ∨ ∃ p q, (p, a, q) ∈ d.internal
  mem_callAlphabet : ∀ a, a ∈ c.callAlphabet ↔ a ∈ d.callAlphabet ∨ ∃ p q, (p, a, q) ∈ d.call
  mem_returnAlphabet : ∀ a, a ∈ c.returnAlphabet ↔
    a ∈ d.returnAlphabet ∨ ∃ lin hier q, (lin, hier, a, q) ∈ d.returns
  ascending_internal : Ascending c.internal
  mem_internal : ∀ t, t ∈ c.internal ↔ t ∈ d.internal
  ascending_call : Ascending c.call
  mem_call : ∀ t, t ∈ c.call ↔ t ∈ d.call
  ascending_returns : Ascending (c.returns.map byLetter)
  mem_returns : ∀ t, t ∈ c.returns ↔ t ∈ d.returns

omit [Std.LawfulEqOrd S] in
/-- There is only one canonical form. -/
theorem Canonical.unique (h : d.Canonical c) (h' : d.Canonical c') : c = c' := by
  have hreturns : c.returns.map byLetter = c'.returns.map byLetter :=
    h.ascending_returns.eq h'.ascending_returns fun t => by
      simp only [List.mem_map, h.mem_returns, h'.mem_returns]
  obtain ⟨i, f, ia, ca, ra, it, ct, rt⟩ := c
  obtain ⟨i', f', ia', ca', ra', it', ct', rt'⟩ := c'
  obtain rfl : i = i' := h.initial.trans h'.initial.symm
  obtain rfl : f = f' := h.final.trans h'.final.symm
  obtain rfl : ia = ia' := Std.ExtTreeSet.ext_mem fun a =>
    (h.mem_internalAlphabet a).trans (h'.mem_internalAlphabet a).symm
  obtain rfl : ca = ca' := Std.ExtTreeSet.ext_mem fun a =>
    (h.mem_callAlphabet a).trans (h'.mem_callAlphabet a).symm
  obtain rfl : ra = ra' := Std.ExtTreeSet.ext_mem fun a =>
    (h.mem_returnAlphabet a).trans (h'.mem_returnAlphabet a).symm
  obtain rfl : it = it' := h.ascending_internal.eq h'.ascending_internal fun t =>
    (h.mem_internal t).trans (h'.mem_internal t).symm
  obtain rfl : ct = ct' := h.ascending_call.eq h'.ascending_call fun t =>
    (h.mem_call t).trans (h'.mem_call t).symm
  obtain rfl : rt = rt' := (List.map_inj_right fun _ _ => (byLetter_injective ·)).mp hreturns
  rfl

/-- The form in which a description comes back from its automaton. -/
def canonical (d : Description S L) : Description S L := d.toAutomaton.description

/-- What reading a description puts on record. -/
def States (d : Description S L) : Fact S L → Prop
  | .initial s => s ∈ d.initial
  | .final s => s ∈ d.final
  | .letter .internal a => a ∈ d.internalAlphabet ∨ ∃ p q, (p, a, q) ∈ d.internal
  | .letter .call a => a ∈ d.callAlphabet ∨ ∃ p q, (p, a, q) ∈ d.call
  | .letter .ret a => a ∈ d.returnAlphabet ∨ ∃ lin hier q, (lin, hier, a, q) ∈ d.returns
  | .internal p a q => (p, a, q) ∈ d.internal
  | .call p a q => (p, a, q) ∈ d.call
  | .ret lin hier a q => (lin, hier, a, q) ∈ d.returns

theorem holds_toAutomaton {g : Fact S L} : d.toAutomaton.Holds g ↔ d.States g := by
  cases g with
  | letter k a =>
    rw [toAutomaton_eq, Automaton.holds_ofFacts]
    simp only [Fact.entails_letter_iff, and_or_left, exists_or, exists_eq_right]
    cases k <;> simp [facts, States]
  | _ =>
    rw [toAutomaton_eq, Automaton.holds_ofFacts_iff_mem (by simp)]
    simp [facts, States]

/-- A description comes back in canonical form. -/
theorem canonical_spec (d : Description S L) : d.Canonical d.canonical where
  initial := by
    show d.toAutomaton.initial = _
    rw [toAutomaton_eq, Automaton.initial_ofFacts, initial_facts]
  final := Std.ExtTreeSet.ext_mem fun s => holds_toAutomaton (g := .final s)
  mem_internalAlphabet a := holds_toAutomaton (g := .letter .internal a)
  mem_callAlphabet a := holds_toAutomaton (g := .letter .call a)
  mem_returnAlphabet a := holds_toAutomaton (g := .letter .ret a)
  ascending_internal := Automaton.ascending_flatten _
  mem_internal := fun (p, a, q) =>
    Automaton.mem_flatten.trans (holds_toAutomaton (g := .internal p a q))
  ascending_call := Automaton.ascending_flatten _
  mem_call := fun (p, a, q) =>
    Automaton.mem_flatten.trans (holds_toAutomaton (g := .call p a q))
  ascending_returns := by
    show Ascending ((Automaton.flattenReturns d.toAutomaton.returns).map byLetter)
    rw [Automaton.flattenReturns_eq, List.map_map]
    exact (List.map_id _).symm ▸ Table.ascending_toList _
  mem_returns := fun (lin, hier, a, q) =>
    Automaton.mem_flattenReturns.trans (holds_toAutomaton (g := .ret lin hier a q))

end Description

/-- Nothing is lost between automata and descriptions. An automaton, however it was built, is read
back from its description. A description comes back in canonical form, which it then keeps, and
which lists each transition of the automaton once. -/
theorem description_roundTrip :
    (∀ facts : List (Fact S L),
      (Automaton.ofFacts facts).description.toAutomaton = .ofFacts facts) ∧
    ∀ d : Description S L, (∀ c, d.Canonical c ↔ c = d.toAutomaton.description) ∧
      d.canonical.canonical = d.canonical ∧
      d.toAutomaton.numberOfTransitions =
        d.canonical.internal.length + d.canonical.call.length + d.canonical.returns.length := by
  refine ⟨Automaton.toAutomaton_description, fun d => ⟨fun c => ?_, ?_, ?_⟩⟩
  · exact ⟨fun h => h.unique d.canonical_spec, fun h => h ▸ d.canonical_spec⟩
  · have hback := Automaton.toAutomaton_description d.facts
    rw [← d.toAutomaton_eq] at hback
    exact congrArg Automaton.description hback
  · exact Automaton.numberOfTransitions_eq_length

/-- Transitions out of order, one of them twice, and an initial state that is named again. -/
def untidy : Description String String where
  initial := ["q", "p", "q"]
  internal := [("q", "b", "p"), ("p", "a", "q"), ("q", "b", "p")]
  returns := [("p", "q", "s", "p"), ("p", "q", "r", "p"), ("p", "p", "s", "q")]

/-- Returns are sorted by their letters before their callers. -/
theorem description_roundTrip_untidy : untidy.canonical.initial = ["q", "p"] ∧
    untidy.canonical.internal = [("p", "a", "q"), ("q", "b", "p")] ∧
    untidy.canonical.returns =
      [("p", "q", "r", "p"), ("p", "p", "s", "q"), ("p", "q", "s", "p")] ∧
    "r" ∈ untidy.canonical.returnAlphabet ∧ untidy.canonical.canonical = untidy.canonical ∧
    untidy.toAutomaton.numberOfTransitions = 5 := by
  obtain ⟨hcanonical, htwice, hsize⟩ := description_roundTrip.2 untidy
  have hspec : untidy.Canonical untidy.canonical := (hcanonical _).mpr rfl
  have hinternal : untidy.canonical.internal = [("p", "a", "q"), ("q", "b", "p")] := by
    decide +kernel
  have hcall : untidy.canonical.call = [] := by decide +kernel
  have hreturns : untidy.canonical.returns =
      [("p", "q", "r", "p"), ("p", "p", "s", "q"), ("p", "q", "s", "p")] := by decide +kernel
  refine ⟨hspec.initial, hinternal, hreturns, ?_, htwice, ?_⟩
  · exact (hspec.mem_returnAlphabet _).mpr (.inr ⟨"p", "q", "p", by decide⟩)
  · rw [hsize, hinternal, hcall, hreturns]
    rfl

end NestedWords
