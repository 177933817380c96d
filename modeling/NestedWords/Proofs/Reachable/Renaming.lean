import NestedWords.Proofs.Automaton
import NestedWords.Proofs.Liveness.Contexts
import NestedWords.Proofs.Reachable.Entries
import Mathlib.Logic.Equiv.Basic

/-!
# Results do not depend on names and order

The order of names, of successors and of initial states decides in which order states are
discovered, hence their ids, which components there are at what time, and how much work is
done. None of it can be told from a result, as sets go: the results of two operands that differ
in names and order only are the same up to the names (`agree_of_renames`). For every answer of
a result is one in terms of runs, and runs are renamed along. Facts recorded under other names,
in any order, make such an operand (`Automaton.renames_ofFacts`).
-/

namespace NestedWords

variable {S S' L L' : Type}

/-- The same fact under other names. -/
def Fact.map (f : S → S') (g : L → L') : Fact S L → Fact S' L'
  | .initial s => .initial (f s)
  | .final s => .final (f s)
  | .letter k a => .letter k (g a)
  | .internal p a q => .internal (f p) (g a) (f q)
  | .call p a q => .call (f p) (g a) (f q)
  | .ret lin hier a q => .ret (f lin) (f hier) (g a) (f q)

theorem Fact.map_injective {f : S → S'} {g : L → L'} (hf : f.Injective) (hg : g.Injective) :
    (Fact.map f g).Injective := by
  intro x y h
  cases x <;> cases y <;> simp only [map, Fact.initial.injEq, Fact.final.injEq,
    Fact.letter.injEq, Fact.internal.injEq, Fact.call.injEq, Fact.ret.injEq, hf.eq_iff,
    hg.eq_iff, reduceCtorEq] at h ⊢ <;> exact h

variable [DecidableEq S] [DecidableEq S'] [Ord L] [Ord L'] [Std.TransOrd L] [Std.TransOrd L']
variable [Std.LawfulEqOrd L] [Std.LawfulEqOrd L'] [DecidableEq L] [DecidableEq L']

/-! ## Answers up to names -/

/-- Two results give the same answers, as sets and up to names. -/
structure Reachable.Agree (f : S → S') (g : L → L') (r : Reachable S L) (r' : Reachable S' L') :
    Prop where
  states : ∀ s, f s ∈ r'.states ↔ s ∈ r.states
  initialStates : ∀ s, f s ∈ r'.initialStates ↔ s ∈ r.initialStates
  finalStates : ∀ s, f s ∈ r'.finalStates ↔ s ∈ r.finalStates
  internal : ∀ s l t, (g l, f t) ∈ r'.internalSuccessors (f s) ↔ (l, t) ∈ r.internalSuccessors s
  call : ∀ s l t, (g l, f t) ∈ r'.callSuccessors (f s) ↔ (l, t) ∈ r.callSuccessors s
  ret : ∀ s h l t,
    (f h, g l, f t) ∈ r'.returnSuccessors (f s) ↔ (h, l, t) ∈ r.returnSuccessors s
  summaries : ∀ h l s t, (g l, f s, f t) ∈ r'.summariesOf (f h) ↔ (l, s, t) ∈ r.summariesOf h
  doubleDeckers : ∀ s d, r'.isDoubleDecker (f s) (d.map f) = r.isDoubleDecker s d
  entryLiveness : ∀ s d, r'.entryLiveness (f s) (d.map f) = r.entryLiveness s d
  liveDoubleDeckers : ∀ s d, r'.isLiveDoubleDecker (f s) (d.map f) = r.isLiveDoubleDecker s d
  liveStates : ∀ s, f s ∈ r'.liveStates ↔ s ∈ r.liveStates
  entries : ∀ s e, f e ∈ r'.entriesOf (f s) ↔ e ∈ r.entriesOf s

/-- Two records of a stack top are the same if both exist and both are live, or not. -/
theorem mark_ext {m m' : Option Mark} (hsome : m.isSome ↔ m'.isSome)
    (hlive : m = some .noDeadEnd ↔ m' = some .noDeadEnd) : m = m' := by
  rcases m with _ | m <;> rcases m' with _ | m'
  · rfl
  · simp at hsome
  · simp at hsome
  · cases m <;> cases m' <;> simp at hlive ⊢

namespace Computation

open Operand Reachable

variable {f : S ≃ S'} {g : L ≃ L'} {A : Operand S L} {B : Operand S' L'}
  {settings settings' : Settings} {r : Reachable S L} {r' : Reachable S' L'}

/-- Operands that differ in names and order have results that differ in names and order. -/
theorem agree_of_renames (h : Renames f g A B) (hr : Returns A settings r)
    (hr' : Returns B settings' r')
    (hd : settings'.computeDeadEnds = settings.computeDeadEnds) : r.Agree f g r' := by
  obtain ⟨a, ha, -⟩ := hr.exact
  obtain ⟨b, hb, -⟩ := hr'.exact
  have hstates : ∀ s, f s ∈ r'.states ↔ s ∈ r.states := by
    intro s
    rw [ha.mem_states_iff, hb.mem_states_iff, h.occurs_iff]
  have hret : ∀ s p l t,
      (f p, g l, f t) ∈ r'.returnSuccessors (f s) ↔ (p, l, t) ∈ r.returnSuccessors s := by
    intro s p l t
    rw [ha.mem_returnSuccessors_iff_paired, hb.mem_returnSuccessors_iff_paired]
    refine and_congr (h.paired_iff (d := .caller p)) ?_
    rw [h.returnLetters]
    exact and_congr_right fun hl => h.returnSuccessors hl
  have hlive : ∀ s d, settings'.computeDeadEnds = true ∧ B.PairLive (f s, d.map f) ↔
      settings.computeDeadEnds = true ∧ A.PairLive (s, d) := by
    intro s d
    rw [hd, h.pairLive_iff]
  refine ⟨hstates, fun s => ?initialStates, fun s => ?finalStates, fun s l t => ?internal,
    fun s l t => ?call, hret, fun p l s t => ?summaries, fun s d => ?doubleDeckers,
    fun s d => ?entryLiveness, fun s d => ?liveDoubleDeckers, fun s => ?liveStates,
    fun s e => ?entries⟩
  case initialStates => rw [ha.mem_initialStates, hb.mem_initialStates, h.initial]
  case finalStates => rw [ha.mem_finalStates, hb.mem_finalStates, h.occurs_iff, h.isFinal]
  case internal =>
    rw [ha.mem_internalSuccessors, hb.mem_internalSuccessors, hstates, h.internalLetters]
    exact and_congr_right fun _ => and_congr_right fun hl => h.internalSuccessors hl
  case call =>
    rw [ha.mem_callSuccessors, hb.mem_callSuccessors, hstates, h.callLetters]
    exact and_congr_right fun _ => and_congr_right fun hl => h.callSuccessors hl
  case summaries => rw [ha.mem_summariesOf, hb.mem_summariesOf, hret]
  case doubleDeckers =>
    rw [Bool.eq_iff_iff, ha.isDoubleDecker_iff, hb.isDoubleDecker_iff, h.paired_iff]
  case entryLiveness =>
    refine mark_ext ?_ ?_
    · rw [ha.entryLiveness_isSome_iff, hb.entryLiveness_isSome_iff, h.entered_iff]
    · rw [hr.entryLiveness_eq_noDeadEnd_iff_entered, hr'.entryLiveness_eq_noDeadEnd_iff_entered,
        h.entered_iff, hlive]
  case liveDoubleDeckers =>
    rw [Bool.eq_iff_iff, hr.isLiveDoubleDecker_iff, hr'.isLiveDoubleDecker_iff, hlive]
  case liveStates =>
    rw [hr.mem_liveStates_iff, hr'.mem_liveStates_iff, hd, Down.exists_map_iff f]
    exact and_congr_right fun _ => exists_congr fun _ => h.pairLive_iff
  case entries =>
    rw [ha.mem_entriesOf, hb.mem_entriesOf, hstates, h.reaches_iff, Down.exists_map_iff f]
    exact and_congr_right fun _ => and_congr_left fun _ => exists_congr fun _ => h.entered_iff

end Computation

/-! ## Facts recorded under other names -/

namespace Automaton

variable [Ord S] [Ord S'] [Std.TransOrd S] [Std.TransOrd S'] [Std.LawfulEqOrd S]
  [Std.LawfulEqOrd S'] {f : S ≃ S'} {g : L ≃ L'} {m : Automaton S L} {m' : Automaton S' L'}

omit [DecidableEq S] [DecidableEq S'] in
/-- The one automaton has the other's transitions on record under other names. -/
theorem renames_of_holds (hm : m.Filled) (hm' : m'.Filled)
    (h : ∀ x : Fact S L, (∀ k a, x ≠ .letter k a) → (m'.Holds (x.map f g) ↔ m.Holds x)) :
    Operand.Renames f g m.operand m'.operand := by
  have hinternal : ∀ p a q, (f p, g a, f q) ∈ m'.internal ↔ (p, a, q) ∈ m.internal :=
    fun p a q => h (.internal p a q) (by simp)
  have hcall : ∀ p a q, (f p, g a, f q) ∈ m'.call ↔ (p, a, q) ∈ m.call :=
    fun p a q => h (.call p a q) (by simp)
  have hret : ∀ lin a hier q,
      (f lin, g a, f hier, f q) ∈ m'.returns ↔ (lin, a, hier, q) ∈ m.returns :=
    fun lin a hier q => h (.ret lin hier a q) (by simp)
  refine ⟨fun {s} => h (.initial s) (by simp), fun {s} => Bool.eq_iff_iff.mpr ?isFinal,
    fun {s l} => ?internalLetters, fun {s l} => ?callLetters, fun {s l} => ?returnLetters,
    fun {s l t} _ => ?internal, fun {s l t} _ => ?call, fun {s p l t} _ => ?ret⟩
  case isFinal => exact h (.final s) (by simp)
  case internalLetters =>
    show g l ∈ lettersFrom m'.internal (f s) ↔ l ∈ lettersFrom m.internal s
    rw [mem_lettersFrom_iff hm.internal, mem_lettersFrom_iff hm'.internal, f.surjective.exists]
    exact exists_congr fun q => hinternal s l q
  case callLetters =>
    show g l ∈ lettersFrom m'.call (f s) ↔ l ∈ lettersFrom m.call s
    rw [mem_lettersFrom_iff hm.call, mem_lettersFrom_iff hm'.call, f.surjective.exists]
    exact exists_congr fun q => hcall s l q
  case returnLetters =>
    show g l ∈ lettersFrom m'.returns (f s) ↔ l ∈ lettersFrom m.returns s
    rw [mem_lettersFrom_iff hm.returns, mem_lettersFrom_iff hm'.returns, Prod.exists, Prod.exists,
      f.surjective.exists]
    refine exists_congr fun hier => ?_
    rw [f.surjective.exists]
    exact exists_congr fun q => hret s l hier q
  case internal => exact mem_targets.trans ((hinternal _ _ _).trans mem_targets.symm)
  case call => exact mem_targets.trans ((hcall _ _ _).trans mem_targets.symm)
  case ret => exact mem_returnTargets.trans ((hret _ _ _ _).trans mem_returnTargets.symm)

/-- The same facts under other names, in any order. -/
theorem renames_ofFacts {facts : List (Fact S L)} {facts' : List (Fact S' L')}
    (h : facts'.Perm (facts.map (Fact.map f g))) :
    Operand.Renames f g (ofFacts facts).operand (ofFacts facts').operand := by
  refine renames_of_holds filled_ofFacts filled_ofFacts fun x hx => ?_
  have hx' : ∀ k a, x.map f g ≠ .letter k a := by
    cases x <;> simp [Fact.map] at hx ⊢
  rw [holds_ofFacts_iff_mem hx, holds_ofFacts_iff_mem hx', h.mem_iff,
    List.mem_map_of_injective (Fact.map_injective f.injective g.injective)]

end Automaton

namespace Computation

open Reachable

/-- The automaton `twoCallers` with its callers and the letters that lead to them exchanged, told
from its end. -/
def exchangedCallers : Automaton String String :=
  .ofFacts [.final "win", .ret "t" "c1" "ret" "lose", .ret "t" "c2" "ret" "win",
    .ret "v" "p" "ret" "t", .call "p" "call" "v", .call "c1" "call" "p", .call "c2" "call" "p",
    .internal "m" "a" "c1", .internal "m" "b" "c2", .initial "m"]

/-- Both callers are discovered in the other order. -/
theorem agree_of_renames_callers : ∃ r r', Returns twoCallers.operand {} r ∧
    Returns exchangedCallers.operand {} r' ∧
    r.Agree (Equiv.swap "c1" "c2") (Equiv.swap "a" "b") r' ∧
    r'.states ≠ r.states.map (Equiv.swap "c1" "c2") ∧
    r.isLiveDoubleDecker "t" (.caller "c1") = true ∧
    r'.isLiveDoubleDecker "t" (.caller "c2") = true := by
  have hany : (result? (run twoCallers.operand {} .unbounded 60)).any (fun r =>
      r.isLiveDoubleDecker "t" (.caller "c1") &&
        r.states == ["m", "c1", "c2", "p", "v", "t", "win", "lose"]) = true := by decide +kernel
  have hany' : (result? (run exchangedCallers.operand {} .unbounded 60)).any (fun r =>
      r.states == ["m", "c1", "c2", "p", "v", "t", "lose", "win"]) = true := by decide +kernel
  obtain ⟨r, hr, hfound⟩ := (Option.any_eq_true _ _).mp hany
  obtain ⟨r', hr', hstates'⟩ := (Option.any_eq_true _ _).mp hany'
  simp only [Bool.and_eq_true, beq_iff_eq] at hfound hstates'
  obtain ⟨hlive, hstates⟩ := hfound
  have hrenames : Operand.Renames (Equiv.swap "c1" "c2") (Equiv.swap "a" "b") twoCallers.operand
      exchangedCallers.operand := Automaton.renames_ofFacts (by decide +kernel)
  have hreturns := returns_of_result hr
  have hreturns' := returns_of_result hr'
  have hagree := agree_of_renames hrenames hreturns hreturns' rfl
  refine ⟨r, r', hreturns, hreturns', hagree, ?_, hlive, ?_⟩
  · rw [hstates, hstates']
    decide
  · exact (hagree.liveDoubleDeckers "t" (.caller "c1")).trans hlive

end Computation

end NestedWords
