import NestedWords.Proofs.Reachable.Language
import Mathlib.Data.List.TFAE
import Mathlib.Tactic.TFAE

/-!
# Emptiness

A result answers in several ways whether any nested word is accepted. `isLanguageEmpty` only
looks for a final state among those that were reached, as a word may end with pending calls.
The other answers come from the marks that were handed back from the final states. They agree
(`languageEmpty_tfae`): a run to a final state makes its initial state live under the empty
stack, and what is live goes on to a final state that occurs.

An entry's own record of a stack top agrees with the live double-deckers
(`Exact.entryLiveness_eq_noDeadEnd_iff`).
-/

namespace NestedWords

variable {S L : Type} [Ord L] [Std.TransOrd L]
  {op : Operand S L} {settings : Settings} {r : Reachable S L}

namespace Operand

/-- Some nested word is accepted if and only if a final state occurs. -/
theorem exists_accepts_iff :
    (∃ xs, op.Accepts xs) ↔ ∃ s w, op.Occurs ⟨s, w⟩ ∧ op.isFinal s = true := by
  constructor
  · intro h
    obtain ⟨xs, i, hi, c, hr, hf⟩ := h
    exact ⟨c.state, c.stack, ⟨i, hi, xs, hr⟩, hf⟩
  · intro h
    obtain ⟨s, w, ⟨i, hi, xs, hr⟩, hf⟩ := h
    exact ⟨xs, i, hi, _, hr, hf⟩

/-- A live pair goes on to a final state that occurs. -/
theorem PairLive.exists_accepts {x : S × Down S} (h : op.PairLive x) : ∃ xs, op.Accepts xs := by
  obtain ⟨-, ⟨s, d⟩, ⟨w, -, ho⟩, hf, -⟩ := h
  exact exists_accepts_iff.mpr ⟨s, w, ho, hf⟩

end Operand

variable [DecidableEq S]

namespace Reachable.Exact

open Arena

variable {a : Arena S L} (h : r.Exact op a) {s : S} {D : Down S} {m : Mark}
include h

theorem isLanguageEmpty_iff : r.isLanguageEmpty = true ↔ ¬ ∃ xs, op.Accepts xs := by
  have hfinal : r.isLanguageEmpty = true ↔ r.finalStates = [] := by
    simp [isLanguageEmpty, finalStates]
  rw [hfinal, List.eq_nil_iff_forall_not_mem, Operand.exists_accepts_iff]
  simp only [h.mem_finalStates, not_exists, not_and, exists_and_right]

/-- The record of an entry is found by its id and that of the stack top. -/
theorem entryLiveness_eq_some_iff : r.entryLiveness s D = some m ↔ ∃ e d,
    a.chart.nameOf e = some s ∧ a.chart.Tops d D ∧ r.arena.entryMark e d = some m := by
  have hmark : ∀ {e d}, r.arena.entryMark e d = some m ↔
      ∃ E, r.arena.entries[e]? = some E ∧ E[d]? = some m := by
    intro e d
    rw [entryMark, entryDowns, Std.ExtTreeMap.getD_eq_getD_getElem?]
    cases r.arena.entries[e]? <;> simp
  simp only [entryLiveness, Option.bind_eq_bind, Option.bind_eq_some_iff, h.idOf_eq_some_iff,
    h.downId_eq_some_iff, hmark]
  constructor
  · intro hm
    obtain ⟨e, he, E, hE, d, hd, hm⟩ := hm
    exact ⟨e, d, he, hd, E, hE, hm⟩
  · intro hm
    obtain ⟨e, d, he, hd, E, hE, hm⟩ := hm
    exact ⟨e, he, E, hE, d, hd, hm⟩

section
variable (hm : r.Marked a)
include hm

/-- A stack top of an entry is known to be live if and only if the double-decker is. -/
theorem entryLiveness_eq_noDeadEnd_iff : r.entryLiveness s D = some .noDeadEnd ↔
    (∃ e d, a.chart.nameOf e = some s ∧ a.chart.Tops d D ∧ a.chart.EntryDown e d) ∧
      op.PairLive (s, D) := by
  rw [h.entryLiveness_eq_some_iff]
  constructor
  · intro he
    obtain ⟨e, d, he, hd, hmark⟩ := he
    obtain ⟨hdown, hlive⟩ := hm.entryMark_iff.mp hmark
    exact ⟨⟨e, d, he, hd, hdown⟩, (h.complete.finishes_iff ⟨he, hd⟩).mp (hm.mem_live.mp hlive)⟩
  · intro he
    obtain ⟨⟨e, d, he, hd, hdown⟩, hlive⟩ := he
    exact ⟨e, d, he, hd, hm.entryMark_iff.mpr
      ⟨hdown, hm.mem_live.mpr ((h.complete.finishes_iff ⟨he, hd⟩).mpr hlive)⟩⟩

/-- An initial state of an accepted word is known to be live under the empty stack. -/
theorem entryLiveness_of_accepts {i : S} (hi : i ∈ op.initial) (hfinish : op.CanFinish ⟨i, []⟩) :
    r.entryLiveness i .bottom = some .noDeadEnd := by
  obtain ⟨e, he, -, -, hdown⟩ := h.complete.starts i hi
  exact (h.entryLiveness_eq_noDeadEnd_iff hm).mpr
    ⟨⟨e, .bottom, he, rfl, hdown⟩, hfinish.pairLive (Operand.occurs_of_initial hi)⟩
end

theorem mem_liveStates : s ∈ r.liveStates ↔ r.isLive s = true := by
  rw [liveStates, h.mem_names_filter, isLive, beq_iff_eq, reachProp, Option.map_eq_some_iff]
  simp only [beq_iff_eq]

end Reachable.Exact

namespace Computation

variable [Std.LawfulEqOrd L] [DecidableEq L]

/-- All that a result says of whether its language is empty is the same, and true. -/
theorem languageEmpty_tfae (h : Returns op settings r) (hd : settings.computeDeadEnds = true) :
    List.TFAE [r.isLanguageEmpty = true, ∀ xs, ¬ op.Accepts xs,
      ∀ i ∈ op.initial, r.isLive i = false,
      ∀ i ∈ op.initial, r.entryLiveness i .bottom ≠ some .noDeadEnd, r.liveStates = []] := by
  obtain ⟨a, ha, hmarked⟩ := h.exact
  have hm := hmarked hd
  tfae_have 1 ↔ 2 := ha.isLanguageEmpty_iff.trans not_exists
  tfae_have 2 → 5 := by
    intro hnone
    refine List.eq_nil_iff_forall_not_mem.mpr fun s hs => ?_
    obtain ⟨d, hlive⟩ := (ha.isLive_iff hm).mp (ha.mem_liveStates.mp hs)
    obtain ⟨xs, hacc⟩ := hlive.exists_accepts
    exact hnone xs hacc
  tfae_have 5 → 3 := by
    intro hnil i _
    refine Bool.eq_false_iff.mpr fun hlive => ?_
    have hmem := ha.mem_liveStates.mpr hlive
    rw [hnil] at hmem
    cases hmem
  tfae_have 3 → 4 := by
    intro hdead i hi hentry
    have hlive := (ha.isLive_iff hm).mpr ⟨_, ((ha.entryLiveness_eq_noDeadEnd_iff hm).mp hentry).2⟩
    rw [hdead i hi] at hlive
    cases hlive
  -- the one step that needs the marks to go all the way back to an initial state
  tfae_have 4 → 2 := by
    intro hnone xs hacc
    obtain ⟨i, hi, c, hr, hf⟩ := hacc
    exact hnone i hi (ha.entryLiveness_of_accepts hm hi ⟨c, ⟨xs, hr⟩, hf⟩)
  tfae_finish

/-- A call that never returns, before the only final state. -/
def stuck : Automaton String String :=
  .ofFacts [.initial "start", .call "start" "c" "proc", .internal "proc" "i" "proc",
    .ret "end" "start" "r" "done", .final "done"]

theorem languageEmpty_tfae_stuck : ∃ r, Returns stuck.operand {} r ∧ r.isLanguageEmpty = true ∧
    (∀ xs, ¬ stuck.operand.Accepts xs) ∧ r.liveStates = [] := by
  have hany : (result? (run stuck.operand {} .unbounded 40)).any (·.isLanguageEmpty) = true := by
    decide +kernel
  obtain ⟨r, hr, hempty⟩ := (Option.any_eq_true _ _).mp hany
  have hreturns := returns_of_result hr
  have htfae := languageEmpty_tfae hreturns rfl
  exact ⟨r, hreturns, hempty, (htfae.out 0 1).mp hempty, (htfae.out 0 4).mp hempty⟩

end Computation

end NestedWords
