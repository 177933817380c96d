import NestedWords.Proofs.Reachable.Language
import NestedWords.Proofs.Reachable.Renaming
import NestedWords.Proofs.Reachable.Termination

/-!
# Results that are explored again

A result makes an automaton of its own, which restricts the operand to what occurs
(`Exact.restricts`). It is finite, so it can be explored in turn (`Automaton.exists_completes`),
and nothing new is learned from that. With all states kept the same configurations occur
(`Restricts.occurs_iff`), although returns under callers that do not occur are gone, so the second
result agrees with the first (`automaton_agrees`).

Without the dead ends fewer configurations occur, but all live ones still do: what leads to a live
one is live. This needs an argument for the callers, which a return finds under the top of the
stack. A call that has returned is a run from its caller (`PairLive.of_ret`), so the caller of
whatever returns to a live pair is live with it. Hence the same pairs are live
(`Restricts.pairLive_iff`), no other states are left, and no dead end is among them
(`pruned_stable`).
-/

namespace NestedWords

open Relation

/-! ## Restrictions and pairs -/

namespace Operand

variable {S L : Type} [Ord L] [Std.TransOrd L] {op op' : Operand S L} {keep : S → Bool}
  {c : Configuration S} {x y : S × Down S}

/-- What leads to a live pair is live. -/
theorem PairLive.of_pairSteps (hx : op.Paired x) (hxy : ReflTransGen op.PairStep x y)
    (hy : op.PairLive y) : op.PairLive x := by
  obtain ⟨-, z, hz, hf, hyz⟩ := hy
  exact ⟨hx, z, hz, hf, hxy.trans hyz⟩

theorem backwardClosed_pairLive : op.BackwardClosed fun c => op.PairLive c.pair :=
  fun ho hs hd => hd.of_pairSteps ho.paired (.single (hs.pairStep ho))

/-- A caller is live if what its call returns to is, with the same stack top. -/
theorem PairLive.of_ret {p q h : S} {d : Down S} {a : L} (hp : op.Paired (p, .caller h))
    (ha : a ∈ op.returnLetters p) (hq : q ∈ op.returnSuccessors p h a) (hd : op.Paired (h, d))
    (hlive : op.PairLive (q, d)) : op.PairLive (h, d) := by
  obtain ⟨w, rfl, ho⟩ := hd
  obtain ⟨xs, hr⟩ := (hp.under.ret ha hq) w
  exact hlive.of_pairSteps ho.paired (hr.pairSteps ho)

/-- What is entered occurs. -/
theorem Entered.occurs {s : S} {d : Down S} (h : op.Entered s d) : ∃ w, op.Occurs ⟨s, w⟩ := by
  cases d with
  | bottom => exact ⟨[], occurs_of_initial h⟩
  | caller p =>
    obtain ⟨⟨w, ho⟩, l, hl, hs⟩ := h
    exact ⟨p :: w, ho.step (.call hl hs)⟩

theorem Follows.occurs {s t : S} (h : op.Follows s t) (ho : ∃ w, op.Occurs ⟨s, w⟩) :
    ∃ w, op.Occurs ⟨t, w⟩ := by
  rcases h with ⟨l, hl, ht⟩ | ⟨p, hp, l, hl, ht⟩
  · obtain ⟨w, ho⟩ := ho
    exact ⟨w, ho.step (.internal hl ht)⟩
  · obtain ⟨w, hp⟩ := paired_caller_iff.mp hp
    exact ⟨w, hp.step (.ret hl ht)⟩

theorem occurs_of_reaches {s t : S} (h : ReflTransGen op.Follows s t)
    (ho : ∃ w, op.Occurs ⟨s, w⟩) : ∃ w, op.Occurs ⟨t, w⟩ := by
  induction h with
  | refl => exact ho
  | tail _ hf ih => exact hf.occurs ih

namespace Restricts

section
variable (h : op.Restricts op' keep)
include h

theorem occurs_of (hc : op'.Occurs c) : op.Occurs c := by
  obtain ⟨i, hi, xs, hr⟩ := hc
  exact ⟨i, (h.initial.mp hi).1, xs, h.run_of hr⟩

/-- Only kept states occur. -/
theorem kept (hc : op'.Occurs c) : keep c.state = true := by
  refine Occurs.induction (P := fun c => keep c.state = true)
    (fun i hi => (h.initial.mp hi).2) (fun c x d _ _ hs => ?_) hc
  cases hs with
  | internal ha hq => exact (h.internal.mp ⟨ha, hq⟩).2.2.2
  | call ha hq => exact (h.call.mp ⟨ha, hq⟩).2.2.2
  | ret ha hq => exact (h.ret.mp ⟨ha, hq⟩).2.2.2.2

/-- What occurs within the kept states occurs in the restriction. -/
theorem occurs {K : Configuration S → Prop} (hK : op.BackwardClosed K)
    (hkeep : ∀ c, op.Occurs c → K c → keep c.state = true) (hc : op.Occurs c) (hKc : K c) :
    op'.Occurs c := by
  obtain ⟨i, hi, xs, hr⟩ := hc
  have ho := occurs_of_initial hi
  have hkeepi := hkeep _ ho (hK.of_run hr ho hKc)
  exact ⟨i, h.initial.mpr ⟨hi, hkeepi⟩, xs, h.run hK hkeep hr hKc ho (by simp)⟩

theorem paired_of (hx : op'.Paired x) : op.Paired x := by
  obtain ⟨w, hw, ho⟩ := hx
  exact ⟨w, hw, h.occurs_of ho⟩

theorem pairStep_of (hs : op'.PairStep x y) : op.PairStep x y := by
  cases hs with
  | internal ha hq =>
    obtain ⟨-, ⟨ha, hq⟩, -⟩ := h.internal.mp ⟨ha, hq⟩
    exact .internal ha hq
  | call ha hq =>
    obtain ⟨-, ⟨ha, hq⟩, -⟩ := h.call.mp ⟨ha, hq⟩
    exact .call ha hq
  | ret ha hq hd =>
    obtain ⟨-, ⟨ha, hq⟩, -⟩ := h.ret.mp ⟨ha, hq⟩
    exact .ret ha hq (h.paired_of hd)

theorem pairLive_of (hx : op'.PairLive x) : op.PairLive x := by
  obtain ⟨hx, y, hy, hf, hxy⟩ := hx
  exact ⟨h.paired_of hx, y, h.paired_of hy, (h.isFinal.mp hf).1.2,
    hxy.lift id fun _ _ => h.pairStep_of⟩

variable (hkeep : ∀ {s d}, op.PairLive (s, d) → keep s = true)
include hkeep

theorem paired_of_pairLive (hx : op.PairLive x) : op'.Paired x := by
  obtain ⟨w, hw, ho⟩ := hx.1
  have hlive : op.PairLive (Configuration.pair ⟨x.1, w⟩) := by
    rwa [Configuration.pair, Configuration.top, hw]
  exact ⟨w, hw, h.occurs backwardClosed_pairLive (fun _ _ hc => hkeep hc) ho hlive⟩

/-- A step between live pairs is left, as its caller is live too. -/
theorem pairStep (hx : op.PairLive x) (hy : op.PairLive y) (hs : op.PairStep x y) :
    op'.PairStep x y := by
  have ho : ∀ {s d}, op.Paired (s, d) → ∃ w, op.Occurs ⟨s, w⟩ := fun ⟨w, _, ho⟩ => ⟨w, ho⟩
  cases hs with
  | internal ha hq =>
    obtain ⟨ha, hq⟩ := h.internal.mpr ⟨ho hx.1, ⟨ha, hq⟩, hkeep hx, hkeep hy⟩
    exact .internal ha hq
  | call ha hq =>
    obtain ⟨ha, hq⟩ := h.call.mpr ⟨ho hx.1, ⟨ha, hq⟩, hkeep hx, hkeep hy⟩
    exact .call ha hq
  | ret ha hq hd =>
    have hcaller := PairLive.of_ret hx.1 ha hq hd hy
    obtain ⟨w, -, hw⟩ := hd
    obtain ⟨ha, hq⟩ :=
      h.ret.mpr ⟨⟨w, hw.under hx.1.under⟩, ⟨ha, hq⟩, hkeep hx, hkeep hcaller, hkeep hy⟩
    exact .ret ha hq (h.paired_of_pairLive hkeep hcaller)

/-- The same pairs are live if their states are kept. -/
theorem pairLive_iff : op'.PairLive x ↔ op.PairLive x := by
  refine ⟨h.pairLive_of, fun hx => ?_⟩
  obtain ⟨y, hy, hf, hxy⟩ := hx.2
  have hlive : op.PairLive y := ⟨hy, y, hy, hf, .refl⟩
  obtain ⟨w, -, ho⟩ := hy
  have hf' : op'.isFinal y.1 = true := h.isFinal.mpr ⟨⟨⟨w, ho⟩, hf⟩, hkeep hlive⟩
  -- the induction follows the steps to the final pair, all of which are live
  induction hxy using ReflTransGen.head_induction_on with
  | refl => exact ⟨h.paired_of_pairLive hkeep hx, y, h.paired_of_pairLive hkeep hlive, hf', .refl⟩
  | head hs hzy ih =>
    have hz := hlive.of_pairSteps (hs.paired hx.1) hzy
    exact (ih hz).of_pairSteps (h.paired_of_pairLive hkeep hx) (.single (h.pairStep hkeep hx hz hs))

end

/-! ## To keep all states -/

section
variable (h : op.Restricts op' fun _ => true) {s t : S} {d : Down S}
include h

theorem occurs_iff : op'.Occurs c ↔ op.Occurs c :=
  ⟨h.occurs_of, fun hc => h.occurs (K := fun _ => True) (fun _ _ _ => trivial)
    (fun _ _ _ => rfl) hc trivial⟩

theorem paired_iff : op'.Paired x ↔ op.Paired x :=
  exists_congr fun _ => and_congr_right fun _ => h.occurs_iff

theorem entered_iff : op'.Entered s d ↔ op.Entered s d := by
  cases d with
  | bottom => exact h.initial.trans (by simp [Entered])
  | caller p =>
    unfold Entered
    simp only [h.occurs_iff, h.call]
    grind

theorem follows_iff (ho : ∃ w, op.Occurs ⟨s, w⟩) : op'.Follows s t ↔ op.Follows s t := by
  unfold Follows
  refine or_congr (exists_congr fun l => ?_) (exists_congr fun p => ?_)
  · simp [h.internal, ho]
  · rw [h.paired_iff]
    refine and_congr_right fun hp => exists_congr fun l => ?_
    simp [h.ret, paired_caller_iff.mp hp]

theorem reaches_iff (ho : ∃ w, op.Occurs ⟨s, w⟩) :
    ReflTransGen op'.Follows s t ↔ ReflTransGen op.Follows s t := by
  constructor
  · intro hr
    induction hr with
    | refl => exact .refl
    | tail _ hf ih => exact ih.tail ((h.follows_iff (occurs_of_reaches ih ho)).mp hf)
  · intro hr
    induction hr with
    | refl => exact .refl
    | tail hr hf ih => exact ih.tail ((h.follows_iff (occurs_of_reaches hr ho)).mpr hf)

end

end Restricts

end Operand

/-! ## Computing again -/

variable {S L : Type} [DecidableEq S] [Ord L] [Std.TransOrd L] [Std.LawfulEqOrd L] [DecidableEq L]
  {op : Operand S L} {settings settings' : Settings} {r : Reachable S L}

namespace Computation

open Operand Reachable

/-- If finitely many states occur, a computation that nobody stops ends with a result. -/
theorem exists_completes (settings : Settings) (h : {s | ∃ w, op.Occurs ⟨s, w⟩}.Finite) :
    ∃ r, Completes op settings r := by
  obtain ⟨fuel, x, hstart⟩ := Exploration.exists_start_finished settings h
  obtain ⟨c, hrun, hc⟩ := exists_run_of_finished hstart
  obtain ⟨r, hr, -⟩ := conclude_eq_ok hc
  exact ⟨r, fuel, c, hrun, hr⟩

/-- The result of an operand that has just the same transitions from what occurs. -/
theorem agree_of_restricts {op' : Operand S L} {r' : Reachable S L}
    (h : op.Restricts op' fun _ => true) (hr : Returns op settings r)
    (hr' : Returns op' settings' r') (hd : settings'.computeDeadEnds = settings.computeDeadEnds) :
    r.Agree id id r' := by
  obtain ⟨a, ha, -⟩ := hr.exact
  obtain ⟨b, hb, -⟩ := hr'.exact
  have hoccurs : ∀ {s}, (∃ w, op'.Occurs ⟨s, w⟩) ↔ ∃ w, op.Occurs ⟨s, w⟩ :=
    exists_congr fun _ => h.occurs_iff
  have hret : ∀ s p l t, (p, l, t) ∈ r'.returnSuccessors s ↔ (p, l, t) ∈ r.returnSuccessors s := by
    intro s p l t
    rw [ha.mem_returnSuccessors_iff_paired, hb.mem_returnSuccessors_iff_paired, h.paired_iff]
    refine and_congr_right fun hp => ?_
    simp [h.ret, paired_caller_iff.mp hp]
  have hlive : ∀ {x}, op'.PairLive x ↔ op.PairLive x := h.pairLive_iff fun _ => rfl
  refine ⟨fun s => ?states, fun s => ?initialStates, fun s => ?finalStates, fun s l t => ?internal,
    fun s l t => ?call, hret, fun p l s t => ?summaries, fun s d => ?doubleDeckers,
    fun s d => ?entryLiveness, fun s d => ?liveDoubleDeckers, fun s => ?liveStates,
    fun s e => ?entries⟩
  all_goals simp only [id, Down.map_id]
  case states => rw [ha.mem_states_iff, hb.mem_states_iff, hoccurs]
  case initialStates =>
    rw [ha.mem_initialStates, hb.mem_initialStates, h.initial, and_iff_left rfl]
  case finalStates =>
    rw [ha.mem_finalStates, hb.mem_finalStates, hoccurs, h.isFinal, and_iff_left rfl, and_self_left]
  case internal =>
    rw [ha.mem_internalSuccessors, hb.mem_internalSuccessors, ha.mem_states_iff, hb.mem_states_iff,
      hoccurs, h.internal]
    simp
  case call =>
    rw [ha.mem_callSuccessors, hb.mem_callSuccessors, ha.mem_states_iff, hb.mem_states_iff,
      hoccurs, h.call]
    simp
  case summaries => rw [ha.mem_summariesOf, hb.mem_summariesOf, hret]
  case doubleDeckers =>
    rw [Bool.eq_iff_iff, ha.isDoubleDecker_iff, hb.isDoubleDecker_iff, h.paired_iff]
  case entryLiveness =>
    refine mark_ext ?_ ?_
    · rw [ha.entryLiveness_isSome_iff, hb.entryLiveness_isSome_iff, h.entered_iff]
    · rw [hr.entryLiveness_eq_noDeadEnd_iff_entered, hr'.entryLiveness_eq_noDeadEnd_iff_entered,
        h.entered_iff, hlive, hd]
  case liveDoubleDeckers =>
    rw [Bool.eq_iff_iff, hr.isLiveDoubleDecker_iff, hr'.isLiveDoubleDecker_iff, hlive, hd]
  case liveStates => simp only [hr.mem_liveStates_iff, hr'.mem_liveStates_iff, hd, hlive]
  case entries =>
    rw [ha.mem_entriesOf, hb.mem_entriesOf, ha.mem_states_iff, hb.mem_states_iff, hoccurs]
    simp only [h.entered_iff]
    refine and_congr_right fun _ => and_congr_right fun he => ?_
    obtain ⟨D, hD⟩ := he
    exact h.reaches_iff hD.occurs

variable [Ord S] [Std.TransOrd S] [Std.LawfulEqOrd S]

/-- The reachable part can be explored again, and nothing else is found in it: the same states
and transitions, and the same is said of them. -/
theorem automaton_agrees (settings' : Settings) (h : Returns op settings r)
    (hd : settings'.computeDeadEnds = settings.computeDeadEnds) :
    (∃ r', Completes r.automaton.operand settings' r') ∧
    ∀ r', Returns r.automaton.operand settings' r' → r.Agree id id r' := by
  obtain ⟨a, ha, -⟩ := h.exact
  exact ⟨exists_completes settings' (Automaton.finite_occurs _),
    fun r' hr' => agree_of_restricts (ha.restricts fun _ => true) h hr' hd⟩

/-- A procedure that may return to a caller that it never has. -/
def strayReturn : Automaton String String :=
  .ofFacts [.initial "m", .call "m" "c" "p", .ret "p" "m" "r" "q", .ret "p" "x" "r" "q",
    .final "q"]

/-- The return to the other caller is not found, nor is it missed. -/
theorem automaton_agrees_strayReturn : ∃ r r', Returns strayReturn.operand {} r ∧
    strayReturn.numberOfTransitions = 3 ∧ r.automaton.numberOfTransitions = 2 ∧
    Returns r.automaton.operand {} r' ∧ r.Agree id id r' ∧
    r'.isLiveDoubleDecker "p" (.caller "m") = true := by
  have hany : (result? (run strayReturn.operand {} .unbounded 40)).any (fun r =>
      r.automaton.numberOfTransitions == 2 && r.isLiveDoubleDecker "p" (.caller "m")) = true := by
    decide +kernel
  obtain ⟨r, hr, hfound⟩ := (Option.any_eq_true _ _).mp hany
  obtain ⟨hcount, hlive⟩ := Bool.and_eq_true_iff.mp hfound
  have hreturns := returns_of_result hr
  obtain ⟨⟨r', hr'⟩, hagree⟩ := automaton_agrees {} hreturns rfl
  have hsame := hagree r' hr'.returns
  exact ⟨r, r', hreturns, by decide +kernel, beq_iff_eq.mp hcount, hr'.returns, hsame,
    (hsame.liveDoubleDeckers "p" (.caller "m")).trans hlive⟩

/-- Without its dead ends the reachable part can be explored again. What is found is live, just as
it was. -/
theorem pruned_stable (settings' : Settings) (h : Returns op settings r)
    (hd : settings.computeDeadEnds = true) (hd' : settings'.computeDeadEnds = true) :
    (∃ r', Completes r.pruned.operand settings' r') ∧
    ∀ r', Returns r.pruned.operand settings' r' →
      (∀ s, s ∈ r'.states ↔ s ∈ r.liveStates) ∧ r'.deadEnds = [] ∧
      ∀ s d, r'.isLiveDoubleDecker s d = r.isLiveDoubleDecker s d := by
  refine ⟨exists_completes settings' (Automaton.finite_occurs _), fun r' hr' => ?_⟩
  obtain ⟨a, ha, hmarked⟩ := h.exact
  obtain ⟨b, hb, hmarked'⟩ := hr'.exact
  have hm := hmarked hd
  have hm' := hmarked' hd'
  have hrestricts := ha.restricts fun s => s ∉ r.deadEnds
  have hkeep : ∀ {s d}, op.PairLive (s, d) → decide (s ∉ r.deadEnds) = true := by
    intro s d hlive
    refine decide_eq_true fun hdead => ?_
    have hs : r.isLive s = true := (ha.isLive_iff hm).mpr ⟨d, hlive⟩
    rw [(ha.mem_deadEnds.mp hdead).2] at hs
    cases hs
  have hlive : ∀ {x}, r.pruned.operand.PairLive x ↔ op.PairLive x := hrestricts.pairLive_iff hkeep
  have hstates : ∀ s, s ∈ r'.states ↔ ∃ d, op.PairLive (s, d) := by
    intro s
    rw [hb.mem_states_iff]
    constructor
    · rintro ⟨w, ho⟩
      have hs : s ∉ r.deadEnds := of_decide_eq_true (hrestricts.kept ho)
      have hmem : s ∈ r.states := ha.mem_states_iff.mpr ⟨w, hrestricts.occurs_of ho⟩
      rw [ha.mem_deadEnds, not_and, Bool.not_eq_false] at hs
      exact (ha.isLive_iff hm).mp (hs hmem)
    · rintro ⟨d, hlive⟩
      obtain ⟨w, -, ho⟩ := hrestricts.paired_of_pairLive hkeep hlive
      exact ⟨w, ho⟩
  refine ⟨fun s => ?_, ?_, fun s d => ?_⟩
  · rw [hstates, h.mem_liveStates_iff, and_iff_right hd]
  · refine List.eq_nil_iff_forall_not_mem.mpr fun s hs => ?_
    obtain ⟨hs, hdead⟩ := hb.mem_deadEnds.mp hs
    obtain ⟨d, hd⟩ := (hstates s).mp hs
    rw [(hb.isLive_iff hm').mpr ⟨d, hlive.mpr hd⟩] at hdead
    cases hdead
  · rw [Bool.eq_iff_iff, ha.isLiveDoubleDecker_iff hm, hb.isLiveDoubleDecker_iff hm', hlive]

theorem pruned_stable_twoCallers : ∃ r r', Returns twoCallers.operand {} r ∧
    r.deadEnds = ["lose"] ∧ Returns r.pruned.operand {} r' ∧ r'.deadEnds = [] ∧
    "win" ∈ r'.states ∧ "lose" ∉ r'.states ∧
    r'.isLiveDoubleDecker "t" (.caller "c1") = true := by
  have hany : (result? (run twoCallers.operand {} .unbounded 60)).any (fun r =>
      r.deadEnds = ["lose"] ∧ "win" ∈ r.liveStates ∧ "lose" ∉ r.liveStates ∧
        r.isLiveDoubleDecker "t" (.caller "c1") = true) = true := by decide +kernel
  obtain ⟨r, hr, hfound⟩ := (Option.any_eq_true _ _).mp hany
  obtain ⟨hdead, hwin, hlose, hlive⟩ := of_decide_eq_true hfound
  have hreturns := returns_of_result hr
  obtain ⟨⟨r', hr'⟩, hstable⟩ := pruned_stable {} hreturns rfl rfl
  obtain ⟨hstates, hnone, hsame⟩ := hstable r' hr'.returns
  exact ⟨r, r', hreturns, hdead, hr'.returns, hnone, (hstates _).mpr hwin,
    fun hmem => hlose ((hstates _).mp hmem), (hsame _ _).trans hlive⟩

end Computation

end NestedWords
