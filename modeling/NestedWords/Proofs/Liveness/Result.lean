import NestedWords.Proofs.Reachable

/-!
# Live states and double-deckers of a result

If dead ends were computed, a result calls a double-decker live if and only if its pair is
(`Exact.isLiveDoubleDecker_iff`), and a state if and only if one of its double-deckers is.
Two results for the caller follow. Liveness is reachability of a final state by steps of
pairs, to which the backward marking with its queues and its summaries comes down
(`live_iff_reaches_final`); and a configuration that can finish is never called a dead end
(`live_of_canFinish`).
-/

namespace NestedWords

open Relation

variable {S L : Type} [DecidableEq S] [Ord L] [Std.TransOrd L]
  {op : Operand S L} {settings : Settings} {r : Reachable S L}

namespace Reachable.Exact

variable {a : Arena S L} (h : r.Exact op a) (hm : r.Marked a) {s : S}
include h

theorem mark_of_node? {n : Node S L} (hn : r.node? s = some n) :
    ∃ u, a.chart.nameOf u = some s ∧ r.arena.mark u = n.mark := by
  obtain ⟨u, hu, hn⟩ := h.node?_eq_some_iff.mp hn
  exact ⟨u, hu, Arena.field_eq hn⟩

/-- The mark of a node says whether its state is live. -/
theorem isLive_name {n : Node S L} (hn : n ∈ r.nodes) :
    r.isLive n.name = (n.mark == .noDeadEnd) := by
  rw [isLive, reachProp, h.node?_name hn]
  rfl

theorem liveStates_eq_filter : r.liveStates = r.states.filter r.isLive := by
  rw [states, List.filter_map, liveStates]
  exact congrArg _ (List.filter_congr fun n hn => (h.isLive_name hn).symm)

theorem deadEnds_eq_filter : r.deadEnds = r.states.filter fun s => !r.isLive s := by
  rw [states, List.filter_map, deadEnds]
  refine congrArg _ (List.filter_congr fun n hn => ?_)
  rw [Function.comp_apply, h.isLive_name hn]
  cases n.mark <;> rfl

theorem mem_deadEnds : s ∈ r.deadEnds ↔ s ∈ r.states ∧ r.isLive s = false := by
  rw [h.deadEnds_eq_filter, List.mem_filter, Bool.not_eq_true']

include hm

theorem isLiveDoubleDecker_iff {d : Down S} :
    r.isLiveDoubleDecker s d = true ↔ op.PairLive (s, d) := by
  constructor
  · intro hdd
    unfold isLiveDoubleDecker at hdd
    split at hdd
    · next u e hu he =>
      have hlive := hm.mem_live.mp (Std.ExtTreeSet.contains_iff_mem.mp hdd)
      exact (h.complete.finishes_iff
        ⟨h.idOf_eq_some_iff.mp hu, h.downId_eq_some_iff.mp he⟩).mp hlive
    · cases hdd
  · intro hlive
    obtain ⟨⟨u, e⟩, ⟨hu, he⟩, -⟩ := h.complete.exists_denotes hlive.1
    unfold isLiveDoubleDecker
    rw [h.idOf_eq_some_iff.mpr hu, h.downId_eq_some_iff.mpr he]
    exact Std.ExtTreeSet.contains_iff_mem.mpr
      (hm.mem_live.mpr ((h.complete.finishes_iff ⟨hu, he⟩).mpr hlive))

theorem isLive_iff : r.isLive s = true ↔ ∃ d, op.PairLive (s, d) := by
  constructor
  · intro hlive
    rw [isLive, beq_iff_eq, reachProp, Option.map_eq_some_iff] at hlive
    obtain ⟨n, hn, hmark⟩ := hlive
    obtain ⟨u, hu, hu'⟩ := h.mark_of_node? hn
    obtain ⟨e, he⟩ := hm.mark_iff.mp (hu'.trans hmark)
    have hfinishes := hm.mem_live.mp he
    obtain ⟨d, hd⟩ := h.complete.exists_tops
      (hfinishes.hasDown h.complete.linked h.complete.sound)
    exact ⟨d, (h.complete.finishes_iff ⟨hu, hd⟩).mp hfinishes⟩
  · intro h
    obtain ⟨d, hlive⟩ := h
    obtain ⟨⟨u, e⟩, ⟨hu, he⟩, -⟩ := h.complete.exists_denotes hlive.1
    obtain ⟨n, hn, -⟩ := h.exists_node hu
    have hmark : r.arena.mark u = .noDeadEnd :=
      hm.mark_iff.mpr ⟨e, hm.mem_live.mpr ((h.complete.finishes_iff ⟨hu, he⟩).mpr hlive)⟩
    rw [isLive, beq_iff_eq, reachProp, h.node?_eq_some_iff.mpr ⟨u, hu, hn⟩]
    exact congrArg some ((Arena.field_eq hn).symm.trans hmark)

end Reachable.Exact

namespace Computation

variable [Std.LawfulEqOrd L] [DecidableEq L]

/-- A double-decker is live if and only if steps of pairs lead from it to a final state, and
a state if and only if one of its double-deckers is. -/
theorem live_iff_reaches_final (h : Returns op settings r)
    (hd : settings.computeDeadEnds = true) :
    (∀ s d, r.isLiveDoubleDecker s d = true ↔ op.Paired (s, d) ∧
      ∃ f e, op.Paired (f, e) ∧ op.isFinal f = true ∧
        ReflTransGen op.PairStep (s, d) (f, e)) ∧
    ∀ s, r.isLive s = true ↔ ∃ d, r.isLiveDoubleDecker s d = true := by
  obtain ⟨a, ha, hmarked⟩ := h.exact
  have hm := hmarked hd
  refine ⟨fun s d => ?_, fun s => ?_⟩
  · rw [ha.isLiveDoubleDecker_iff hm]
    constructor
    · intro h
      obtain ⟨hp, ⟨f, e⟩, hf, hfinal, hsteps⟩ := h
      exact ⟨hp, f, e, hf, hfinal, hsteps⟩
    · intro h
      obtain ⟨hp, f, e, hf, hfinal, hsteps⟩ := h
      exact ⟨hp, (f, e), hf, hfinal, hsteps⟩
  · simp only [ha.isLive_iff hm, ha.isLiveDoubleDecker_iff hm]

theorem live_iff_reaches_final_recursion : ∃ r, Returns recursion.operand {} r ∧
    r.isLiveDoubleDecker "exit" (.caller "proc") = true ∧
    ∃ f e, recursion.operand.isFinal f = true ∧
      ReflTransGen recursion.operand.PairStep ("exit", .caller "proc") (f, e) := by
  have hany : (result? (run recursion.operand {} .unbounded 40)).any
      (·.isLiveDoubleDecker "exit" (.caller "proc")) = true := by decide +kernel
  obtain ⟨r, hr, hlive⟩ := (Option.any_eq_true _ _).mp hany
  have hreturns := returns_of_result hr
  obtain ⟨-, f, e, -, hf, hsteps⟩ :=
    ((live_iff_reaches_final hreturns rfl).1 _ _).mp hlive
  exact ⟨r, hreturns, hlive, f, e, hf, hsteps⟩

/-- Whatever can finish is live, and no run to a final state passes through a dead end. -/
theorem live_of_canFinish (h : Returns op settings r) (hd : settings.computeDeadEnds = true) :
    (∀ up w, op.Occurs ⟨up, w⟩ → op.CanFinish ⟨up, w⟩ →
      r.isLiveDoubleDecker up (Down.ofStack w) = true ∧ r.isLive up = true) ∧
    ∀ i xs s w ys c, i ∈ op.initial → op.Run ⟨i, []⟩ xs ⟨s, w⟩ → op.Run ⟨s, w⟩ ys c →
      op.isFinal c.state = true → s ∉ r.deadEnds := by
  obtain ⟨a, ha, hmarked⟩ := h.exact
  have hm := hmarked hd
  have hlive : ∀ up w, op.Occurs ⟨up, w⟩ → op.CanFinish ⟨up, w⟩ →
      r.isLiveDoubleDecker up (Down.ofStack w) = true ∧ r.isLive up = true := by
    intro up w ho hf
    have hpair : op.PairLive (up, Down.ofStack w) := hf.pairLive ho
    exact ⟨(ha.isLiveDoubleDecker_iff hm).mpr hpair, (ha.isLive_iff hm).mpr ⟨_, hpair⟩⟩
  refine ⟨hlive, fun i xs s w ys c hi hxs hys hf hdead => ?_⟩
  have hs := (hlive s w ⟨i, hi, xs, hxs⟩ ⟨c, ⟨ys, hys⟩, hf⟩).2
  rw [(ha.mem_deadEnds.mp hdead).2] at hs
  cases hs

theorem live_of_canFinish_recursion : ∃ r, Returns recursion.operand {} r ∧
    recursion.operand.Occurs ⟨"main", []⟩ ∧ recursion.operand.CanFinish ⟨"main", []⟩ ∧
    r.isLiveDoubleDecker "main" .bottom = true ∧ "main" ∉ r.deadEnds := by
  have hsome : (result? (run recursion.operand {} .unbounded 40)).isSome = true := by
    decide +kernel
  obtain ⟨r, hr⟩ := Option.isSome_iff_exists.mp hsome
  have hreturns := returns_of_result hr
  have hi : "main" ∈ recursion.operand.initial := by decide +kernel
  have hc : recursion.operand.Step ⟨"main", []⟩ (.call "c") ⟨"proc", ["main"]⟩ :=
    .call (by decide +kernel) (by decide +kernel)
  have hp : recursion.operand.Step ⟨"proc", ["main"]⟩ (.internal "i") ⟨"exit", ["main"]⟩ :=
    .internal (by decide +kernel) (by decide +kernel)
  have he : recursion.operand.Step ⟨"exit", ["main"]⟩ (.ret "r") ⟨"done", []⟩ :=
    .ret (by decide +kernel) (by decide +kernel)
  have hrun := Operand.Run.cons hc (.cons hp (.cons he (.nil _)))
  have hf : recursion.operand.isFinal "done" = true := by decide +kernel
  have hlive := live_of_canFinish hreturns rfl
  have hfinish : recursion.operand.CanFinish ⟨"main", []⟩ := ⟨_, ⟨_, hrun⟩, hf⟩
  exact ⟨r, hreturns, Operand.occurs_of_initial hi, hfinish,
    (hlive.1 _ _ (Operand.occurs_of_initial hi) hfinish).1,
    hlive.2 _ _ _ _ _ _ hi (.nil _) hrun hf⟩

end Computation

end NestedWords
