import NestedWords.Proofs.Automaton
import NestedWords.Proofs.Liveness.Contexts
import NestedWords.Proofs.Reachable.Transitions
import NestedWords.Reachable.Automaton

/-!
# The language of a result

`Operand.Restricts` says of an automaton that it has just those states and transitions of an
operand that occur and lie within a set of kept states. It accepts the same nested words if
every configuration that can finish has a kept state (`Restricts.accepts_iff`): on a run to a
final state all configurations can finish, and so could the one in which a pending call was
made, so the callers on the stack are kept too. The argument is the same for any configurations
that contain with one also what leads to it (`BackwardClosed`, `Restricts.run`).

The automaton of a result is such a restriction (`Exact.restricts`). To keep all states
changes nothing (`automaton_accepts_iff`), and to leave out the dead ends changes no accepted
word (`pruned_accepts_iff`).
-/

namespace NestedWords

/-! ## Restrictions -/

namespace Operand

variable {S L : Type} [Ord L] [Std.TransOrd L] {op op' : Operand S L} {keep : S → Bool}

/-- What leads in one step to one of the configurations is one of them. -/
def BackwardClosed (op : Operand S L) (K : Configuration S → Prop) : Prop :=
  ∀ {c x d}, op.Occurs c → op.Step c x d → K d → K c

theorem BackwardClosed.of_run {K : Configuration S → Prop} (hK : op.BackwardClosed K)
    {c d : Configuration S} {xs : List (Symbol L)} (hr : op.Run c xs d) (ho : op.Occurs c)
    (hd : K d) : K c := by
  induction hr with
  | nil => exact hd
  | cons hs _ ih => exact hK ho hs (ih (ho.step hs) hd)

theorem backwardClosed_canFinish : op.BackwardClosed op.CanFinish := by
  intro c x d _ hs hd
  obtain ⟨e, hde, hf⟩ := hd
  exact ⟨e, hs.leads.trans hde, hf⟩

/-- `op'` has what occurs in `op` within the kept states. -/
structure Restricts (op op' : Operand S L) (keep : S → Bool) : Prop where
  initial : ∀ {s}, s ∈ op'.initial ↔ s ∈ op.initial ∧ keep s = true
  isFinal : ∀ {s}, op'.isFinal s = true ↔
    ((∃ w, op.Occurs ⟨s, w⟩) ∧ op.isFinal s = true) ∧ keep s = true
  internal : ∀ {p q a}, a ∈ op'.internalLetters p ∧ q ∈ op'.internalSuccessors p a ↔
    (∃ w, op.Occurs ⟨p, w⟩) ∧ (a ∈ op.internalLetters p ∧ q ∈ op.internalSuccessors p a) ∧
      keep p = true ∧ keep q = true
  call : ∀ {p q a}, a ∈ op'.callLetters p ∧ q ∈ op'.callSuccessors p a ↔
    (∃ w, op.Occurs ⟨p, w⟩) ∧ (a ∈ op.callLetters p ∧ q ∈ op.callSuccessors p a) ∧
      keep p = true ∧ keep q = true
  ret : ∀ {p h q a}, a ∈ op'.returnLetters p ∧ q ∈ op'.returnSuccessors p h a ↔
    (∃ w, op.Occurs ⟨p, h :: w⟩) ∧ (a ∈ op.returnLetters p ∧ q ∈ op.returnSuccessors p h a) ∧
      keep p = true ∧ keep h = true ∧ keep q = true

namespace Restricts

variable (h : op.Restricts op' keep) {c d : Configuration S} {x : Symbol L} {xs : List (Symbol L)}
include h

theorem step_of (hs : op'.Step c x d) : op.Step c x d := by
  cases hs with
  | internal ha hq =>
    obtain ⟨-, ⟨ha, hq⟩, -⟩ := h.internal.mp ⟨ha, hq⟩
    exact .internal ha hq
  | call ha hq =>
    obtain ⟨-, ⟨ha, hq⟩, -⟩ := h.call.mp ⟨ha, hq⟩
    exact .call ha hq
  | ret ha hq =>
    obtain ⟨-, ⟨ha, hq⟩, -⟩ := h.ret.mp ⟨ha, hq⟩
    exact .ret ha hq

theorem run_of (hr : op'.Run c xs d) : op.Run c xs d := by
  induction hr with
  | nil c => exact .nil c
  | cons hs _ ih => exact .cons (h.step_of hs) ih

/-- A step within the kept states. -/
theorem step (hs : op.Step c x d) (ho : op.Occurs c) (hc : keep c.state = true)
    (hd : keep d.state = true) (hstack : ∀ s ∈ c.stack, keep s = true) : op'.Step c x d := by
  cases hs with
  | internal ha hq =>
    obtain ⟨ha, hq⟩ := h.internal.mpr ⟨⟨_, ho⟩, ⟨ha, hq⟩, hc, hd⟩
    exact .internal ha hq
  | call ha hq =>
    obtain ⟨ha, hq⟩ := h.call.mpr ⟨⟨_, ho⟩, ⟨ha, hq⟩, hc, hd⟩
    exact .call ha hq
  | ret ha hq =>
    obtain ⟨ha, hq⟩ := h.ret.mpr ⟨⟨_, ho⟩, ⟨ha, hq⟩, hc, hstack _ List.mem_cons_self, hd⟩
    exact .ret ha hq

/-- A run to one of the configurations `K` stays within the kept states, as everything on it is
one of them. -/
theorem run {K : Configuration S → Prop} (hK : op.BackwardClosed K)
    (hkeep : ∀ c, op.Occurs c → K c → keep c.state = true) (hr : op.Run c xs d) (hd : K d)
    (ho : op.Occurs c) (hstack : ∀ s ∈ c.stack, keep s = true) : op'.Run c xs d := by
  induction hr with
  | nil c => exact .nil c
  | cons hs hr ih =>
    have he := hK.of_run hr (ho.step hs) hd
    have hc := hkeep _ ho (hK ho hs he)
    refine .cons (h.step hs ho hc (hkeep _ (ho.step hs) he) hstack)
      (ih hd (ho.step hs) fun s hmem => ?_)
    cases hs with
    | internal _ _ => exact hstack s hmem
    | call _ _ =>
      -- the new caller was kept as the source of the call
      rcases List.mem_cons.mp hmem with rfl | hmem
      · exact hc
      · exact hstack s hmem
    | ret _ _ => exact hstack s (List.mem_cons_of_mem _ hmem)

/-- The restriction accepts the same nested words. -/
theorem accepts_iff (hkeep : ∀ c, op.Occurs c → op.CanFinish c → keep c.state = true) :
    op.Accepts xs ↔ op'.Accepts xs := by
  constructor
  · intro hacc
    obtain ⟨i, hi, c, hr, hf⟩ := hacc
    have ho := occurs_of_initial hi
    have hkeepi := hkeep _ ho ⟨c, ⟨xs, hr⟩, hf⟩
    have hc : op.Occurs c := ho.leads ⟨xs, hr⟩
    have hfinish : op.CanFinish c := ⟨c, .refl c, hf⟩
    exact ⟨i, h.initial.mpr ⟨hi, hkeepi⟩, c,
      h.run backwardClosed_canFinish hkeep hr hfinish ho (by simp),
      h.isFinal.mpr ⟨⟨⟨_, hc⟩, hf⟩, hkeep c hc hfinish⟩⟩
  · intro hacc
    obtain ⟨i, hi, c, hr, hf⟩ := hacc
    exact ⟨i, (h.initial.mp hi).1, c, h.run_of hr, (h.isFinal.mp hf).1.2⟩

end Restricts

end Operand

variable {S L : Type} [DecidableEq S] [Ord L] [Std.TransOrd L]
  {op : Operand S L} {settings : Settings} {r : Reachable S L}

/-! ## The automaton of a result -/

namespace Reachable

section
variable {keep : S → Bool} {s p t : S} {l : L}

theorem mem_facts_initial :
    .initial s ∈ r.facts keep ↔ s ∈ r.initialStates ∧ keep s = true := by simp [facts]

theorem mem_facts_final :
    .final s ∈ r.facts keep ↔ s ∈ r.finalStates ∧ keep s = true := by simp [facts]

theorem mem_facts_internal : .internal s l t ∈ r.facts keep ↔
    s ∈ r.states ∧ (l, t) ∈ r.internalSuccessors s ∧ keep s = true ∧ keep t = true := by
  simp only [facts, List.mem_append, List.mem_map, List.mem_flatMap, List.mem_filter, Prod.exists,
    reduceCtorEq, Fact.internal.injEq, and_false, exists_false, or_false, false_or]
  grind

theorem mem_facts_call : .call s l t ∈ r.facts keep ↔
    s ∈ r.states ∧ (l, t) ∈ r.callSuccessors s ∧ keep s = true ∧ keep t = true := by
  simp only [facts, List.mem_append, List.mem_map, List.mem_flatMap, List.mem_filter, Prod.exists,
    reduceCtorEq, Fact.call.injEq, and_false, exists_false, or_false, false_or]
  grind

theorem mem_facts_ret : .ret s p l t ∈ r.facts keep ↔ s ∈ r.states ∧
    (p, l, t) ∈ r.returnSuccessors s ∧ keep s = true ∧ keep p = true ∧ keep t = true := by
  simp only [facts, List.mem_append, List.mem_map, List.mem_flatMap, List.mem_filter, Prod.exists,
    reduceCtorEq, Fact.ret.injEq, Bool.and_eq_true, and_false, exists_false, or_false, false_or]
  grind
end

namespace Exact

variable {a : Arena S L} (h : r.Exact op a) {s : S}
include h

/-- The states that are listed by a property of their nodes. -/
theorem mem_names_filter {P : Node S L → Bool} :
    s ∈ (r.nodes.filter P).map (·.name) ↔ ∃ n, r.node? s = some n ∧ P n = true := by
  simp only [List.mem_map, List.mem_filter]
  constructor
  · intro hs
    obtain ⟨n, ⟨hn, hP⟩, rfl⟩ := hs
    exact ⟨n, h.node?_name hn, hP⟩
  · intro hs
    obtain ⟨n, hn, hP⟩ := hs
    have hmem : n ∈ r.nodes := Array.mem_toList_iff.mpr (Array.mem_of_find?_eq_some hn)
    exact ⟨n, ⟨hmem, hP⟩, by simpa using Array.find?_some hn⟩

theorem mem_initialStates : s ∈ r.initialStates ↔ s ∈ op.initial := by
  rw [initialStates, h.mem_names_filter]
  constructor
  · intro hs
    obtain ⟨n, hn, hi⟩ := hs
    obtain ⟨u, hu, hn⟩ := h.node?_eq_some_iff.mp hn
    exact h.complete.sound.isInitial hu ((h.remarked.read hn fun _ _ => rfl).trans hi)
  · intro hs
    obtain ⟨u, hu, hi, -⟩ := h.complete.starts s hs
    obtain ⟨n, hn, -⟩ := h.exists_node hu
    have hread : a.isInitial u = n.isInitial := h.remarked.read hn fun _ _ => rfl
    exact ⟨n, h.node?_eq_some_iff.mpr ⟨u, hu, hn⟩, hread.symm.trans hi⟩

theorem mem_finalStates :
    s ∈ r.finalStates ↔ (∃ w, op.Occurs ⟨s, w⟩) ∧ op.isFinal s = true := by
  rw [finalStates, h.mem_names_filter, ← h.complete.nameOf_iff]
  have hread : ∀ {u n}, a.chart.nameOf u = some s → r.arena.nodes[u]? = some n →
      n.isFinal = op.isFinal s := fun hu hn =>
    (h.remarked.read hn fun _ _ => rfl).symm.trans (h.complete.sound.isFinal hu)
  constructor
  · intro hs
    obtain ⟨n, hn, hf⟩ := hs
    obtain ⟨u, hu, hn⟩ := h.node?_eq_some_iff.mp hn
    exact ⟨⟨u, hu⟩, (hread hu hn).symm.trans hf⟩
  · intro hs
    obtain ⟨⟨u, hu⟩, hf⟩ := hs
    obtain ⟨n, hn, -⟩ := h.exists_node hu
    exact ⟨n, h.node?_eq_some_iff.mpr ⟨u, hu, hn⟩, (hread hu hn).trans hf⟩

omit [DecidableEq S] in
theorem mem_states_iff : s ∈ r.states ↔ ∃ w, op.Occurs ⟨s, w⟩ :=
  h.mem_states.trans h.complete.nameOf_iff

variable [Ord S] [Std.TransOrd S] [Std.LawfulEqOrd S] [Std.LawfulEqOrd L] [DecidableEq L]

/-- The facts about kept states make the restriction to them. -/
theorem restricts (keep : S → Bool) :
    op.Restricts (Automaton.ofFacts (r.facts keep)).operand keep where
  initial {s} := by
    show Automaton.Holds _ (.initial s) ↔ _
    rw [Automaton.holds_ofFacts_iff_mem (by simp), mem_facts_initial, h.mem_initialStates]
  isFinal {s} := by
    show Std.ExtTreeSet.contains _ s = true ↔ _
    rw [Std.ExtTreeSet.contains_iff_mem]
    show Automaton.Holds _ (.final s) ↔ _
    rw [Automaton.holds_ofFacts_iff_mem (by simp), mem_facts_final, h.mem_finalStates]
  internal {p q l} := by
    rw [Automaton.operand_internal, Automaton.holds_ofFacts_iff_mem (by simp), mem_facts_internal,
      ← h.mem_states_iff]
    exact and_congr_right fun hs => and_congr_left' ((h.lists_internalSuccessors hs).2 (l, q))
  call {p q l} := by
    rw [Automaton.operand_call, Automaton.holds_ofFacts_iff_mem (by simp), mem_facts_call,
      ← h.mem_states_iff]
    exact and_congr_right fun hs => and_congr_left' ((h.lists_callSuccessors hs).2 (l, q))
  ret {p k q l} := by
    rw [Automaton.operand_ret, Automaton.holds_ofFacts_iff_mem (by simp), mem_facts_ret]
    constructor
    · intro he
      obtain ⟨hs, hmem, hkeep⟩ := he
      obtain ⟨ho, hop⟩ := ((h.lists_returnSuccessors hs).2 (k, l, q)).mp hmem
      exact ⟨ho, hop, hkeep⟩
    · intro he
      obtain ⟨⟨w, ho⟩, hop, hkeep⟩ := he
      have hs := h.mem_states_iff.mpr ⟨_, ho⟩
      exact ⟨hs, ((h.lists_returnSuccessors hs).2 (k, l, q)).mpr ⟨⟨w, ho⟩, hop⟩, hkeep⟩

end Exact

end Reachable

namespace Computation

variable [Ord S] [Std.TransOrd S] [Std.LawfulEqOrd S] [Std.LawfulEqOrd L] [DecidableEq L]

/-- The reachable part accepts the nested words that the operand accepts. -/
theorem automaton_accepts_iff (h : Returns op settings r) (xs : List (Symbol L)) :
    op.Accepts xs ↔ r.automaton.operand.Accepts xs := by
  obtain ⟨a, ha, -⟩ := h.exact
  exact (ha.restricts fun _ => true).accepts_iff fun _ _ _ => rfl

/-- Without its dead ends, the reachable part still does. -/
theorem pruned_accepts_iff (h : Returns op settings r) (hd : settings.computeDeadEnds = true)
    (xs : List (Symbol L)) : op.Accepts xs ↔ r.pruned.operand.Accepts xs := by
  obtain ⟨a, ha, hmarked⟩ := h.exact
  refine (ha.restricts fun s => s ∉ r.deadEnds).accepts_iff fun c ho hfinish => ?_
  have hlive : r.isLive c.state = true :=
    (ha.isLive_iff (hmarked hd)).mpr ⟨_, hfinish.pairLive ho⟩
  refine decide_eq_true fun hdead => ?_
  rw [(ha.mem_deadEnds.mp hdead).2] at hlive
  cases hlive

theorem pruned_accepts_iff_twoCallers : ∃ r, Returns twoCallers.operand {} r ∧
    "lose" ∈ r.deadEnds ∧ r.pruned.operand.Accepts
      [.internal "a", .call "call", .call "call", .ret "ret", .ret "ret"] := by
  have hany : (result? (run twoCallers.operand {} .unbounded 60)).any
      (·.deadEnds.contains "lose") = true := by decide +kernel
  obtain ⟨r, hr, hdead⟩ := (Option.any_eq_true _ _).mp hany
  rw [List.contains_iff_mem] at hdead
  have hreturns := returns_of_result hr
  have hi : "m" ∈ twoCallers.operand.initial := by decide +kernel
  have hm : twoCallers.operand.Step ⟨"m", []⟩ (.internal "a") ⟨"c1", []⟩ :=
    .internal (by decide +kernel) (by decide +kernel)
  have hc : twoCallers.operand.Step ⟨"c1", []⟩ (.call "call") ⟨"p", ["c1"]⟩ :=
    .call (by decide +kernel) (by decide +kernel)
  have hp : twoCallers.operand.Step ⟨"p", ["c1"]⟩ (.call "call") ⟨"v", ["p", "c1"]⟩ :=
    .call (by decide +kernel) (by decide +kernel)
  have hv : twoCallers.operand.Step ⟨"v", ["p", "c1"]⟩ (.ret "ret") ⟨"t", ["c1"]⟩ :=
    .ret (by decide +kernel) (by decide +kernel)
  have ht : twoCallers.operand.Step ⟨"t", ["c1"]⟩ (.ret "ret") ⟨"win", []⟩ :=
    .ret (by decide +kernel) (by decide +kernel)
  have hrun := Operand.Run.cons hm (.cons hc (.cons hp (.cons hv (.cons ht (.nil _)))))
  exact ⟨r, hreturns, hdead, (pruned_accepts_iff hreturns rfl _).mp
    ⟨"m", hi, _, hrun, by decide +kernel⟩⟩

end Computation

end NestedWords
