import NestedWords.Proofs.Reachable.Entries

/-!
# The views of liveness agree

Liveness is kept in three places: in the set of live double-deckers, in the marks of the states,
and in the records of the entries. The search for dead ends writes them one after another, and
nothing compares them afterwards. All three come down to `Operand.PairLive` (`isLive_iff` and the
lemmas on results before it), and so `liveness_agrees`: an entry is recorded as live under a stack
top if the double-decker is, a state if one of its double-deckers is, and what is left of the
states are the dead ends. Where the search was not made, nothing is live in any of the places.
-/

namespace NestedWords

variable {S L : Type} [Ord L] [Std.TransOrd L]
  {op : Operand S L} {settings : Settings} {r : Reachable S L} {s : S} {D : Down S}

/-- A final state is live under whatever it occurs with. -/
theorem Operand.Paired.pairLive (h : op.Paired (s, D)) (hs : op.isFinal s = true) :
    op.PairLive (s, D) :=
  ⟨h, (s, D), h, hs, .refl⟩

variable [DecidableEq S] [Std.LawfulEqOrd L] [DecidableEq L]

namespace Computation.Returns

variable (h : Returns op settings r)
include h

theorem mem_states : s ∈ r.states ↔ ∃ w, op.Occurs ⟨s, w⟩ :=
  h.exact.elim fun _ ha => ha.1.mem_states_iff

/-- The records of entries are those of initial states and of calls. -/
theorem entryLiveness_isSome : (r.entryLiveness s D).isSome ↔
    (D = .bottom ∧ s ∈ op.initial) ∨ ∃ c ∈ r.states, D = .caller c ∧
      ∃ l ∈ op.callLetters c, s ∈ op.callSuccessors c l := by
  obtain ⟨a, ha, -⟩ := h.exact
  rw [ha.entryLiveness_isSome_iff]
  cases D with
  | bottom => simp [Operand.Entered]
  | caller c => simp [Operand.Entered, ← h.mem_states]

/-- A state is live if it is so with some stack top, and if dead ends were computed. -/
theorem isLive_iff : r.isLive s = true ↔
    settings.computeDeadEnds = true ∧ ∃ D, op.PairLive (s, D) := by
  obtain ⟨a, ha, -⟩ := h.exact
  rw [← ha.mem_liveStates, h.mem_liveStates_iff]

theorem isDoubleDecker_of_live (hlive : r.isLiveDoubleDecker s D = true) :
    r.isDoubleDecker s D = true := by
  obtain ⟨a, ha, -⟩ := h.exact
  exact ha.isDoubleDecker_iff.mpr (h.isLiveDoubleDecker_iff.mp hlive).2.1

theorem isLive_iff_exists_isLiveDoubleDecker :
    r.isLive s = true ↔ ∃ D, r.isLiveDoubleDecker s D = true := by
  simp only [h.isLive_iff, h.isLiveDoubleDecker_iff, exists_and_left]

theorem exists_mem_downStates (hs : s ∈ r.states) : ∃ D, D ∈ r.downStates s := by
  obtain ⟨a, ha, -⟩ := h.exact
  obtain ⟨w, hw⟩ := h.mem_states.mp hs
  exact ⟨_, ha.mem_downStates.mpr hw.paired⟩

theorem isLiveDoubleDecker_of_isFinal (hd : settings.computeDeadEnds = true)
    (hs : op.isFinal s = true) (hD : D ∈ r.downStates s) : r.isLiveDoubleDecker s D = true := by
  obtain ⟨a, ha, -⟩ := h.exact
  exact h.isLiveDoubleDecker_iff.mpr ⟨hd, (ha.mem_downStates.mp hD).pairLive hs⟩

/-- An entry is recorded as live if the double-decker is. -/
theorem entryLiveness_eq_noDeadEnd_iff_isLiveDoubleDecker (hD : (r.entryLiveness s D).isSome) :
    r.entryLiveness s D = some .noDeadEnd ↔ r.isLiveDoubleDecker s D = true := by
  obtain ⟨a, ha, -⟩ := h.exact
  rw [h.entryLiveness_eq_noDeadEnd_iff_entered, h.isLiveDoubleDecker_iff,
    and_iff_right (ha.entryLiveness_isSome_iff.mp hD)]

end Computation.Returns

namespace Computation

/-- All that a result says of liveness agrees. Entries have records for the stack tops with which
they are entered, live states and dead ends divide the states, and live is only what occurs. If
dead ends were computed, a record is live if its double-decker is, and a final state is live with
each of its stack tops; if not, nothing is live. -/
theorem liveness_agrees (h : Returns op settings r) :
    (∀ e D, (r.entryLiveness e D).isSome ↔ (D = .bottom ∧ e ∈ op.initial) ∨
      ∃ c ∈ r.states, D = .caller c ∧ ∃ l ∈ op.callLetters c, e ∈ op.callSuccessors c l) ∧
    (∀ s D, r.isLiveDoubleDecker s D = true → r.isDoubleDecker s D = true) ∧
    (∀ s, r.isLive s = true ↔ ∃ D, r.isLiveDoubleDecker s D = true) ∧
    (r.liveStates = r.states.filter r.isLive ∧
      r.deadEnds = r.states.filter fun s => !r.isLive s) ∧
    (settings.computeDeadEnds = true →
      (∀ e D, (r.entryLiveness e D).isSome →
        (r.entryLiveness e D = some .noDeadEnd ↔ r.isLiveDoubleDecker e D = true)) ∧
      ∀ s ∈ r.states, op.isFinal s = true →
        r.isLive s = true ∧ ∀ D ∈ r.downStates s, r.isLiveDoubleDecker s D = true) ∧
    (settings.computeDeadEnds = false →
      (∀ s, r.isLive s = false) ∧ (∀ s D, r.isLiveDoubleDecker s D = false) ∧
      ∀ e D m, r.entryLiveness e D = some m → m = .reachable) := by
  obtain ⟨a, ha, -⟩ := h.exact
  refine ⟨fun e D => h.entryLiveness_isSome, fun s D => h.isDoubleDecker_of_live,
    fun s => h.isLive_iff_exists_isLiveDoubleDecker,
    ⟨ha.liveStates_eq_filter, ha.deadEnds_eq_filter⟩, fun hd => ⟨fun e D => ?records, ?finals⟩,
    fun hd => ⟨fun s => ?states, fun s D => ?pairs, fun e D m hm => ?entries⟩⟩
  case records => exact h.entryLiveness_eq_noDeadEnd_iff_isLiveDoubleDecker
  case finals =>
    intro s hs hf
    have hlive : ∀ D ∈ r.downStates s, r.isLiveDoubleDecker s D = true := fun D =>
      h.isLiveDoubleDecker_of_isFinal hd hf
    obtain ⟨D, hD⟩ := h.exists_mem_downStates hs
    exact ⟨h.isLive_iff_exists_isLiveDoubleDecker.mpr ⟨D, hlive D hD⟩, hlive⟩
  case states => rw [Bool.eq_false_iff, ne_eq, h.isLive_iff, hd]; simp
  case pairs => rw [Bool.eq_false_iff, ne_eq, h.isLiveDoubleDecker_iff, hd]; simp
  case entries =>
    cases m with
    | reachable => rfl
    | noDeadEnd =>
      have hcomputed := (h.entryLiveness_eq_noDeadEnd_iff_entered.mp hm).2.1
      exact absurd (hd.symm.trans hcomputed) Bool.false_ne_true

/-- Of two callers of one procedure only the first gets on after its return. -/
def oneWinner : Automaton String String :=
  .ofFacts [.initial "m", .internal "m" "a" "c1", .internal "m" "b" "c2",
    .call "c1" "call" "p", .call "c2" "call" "p", .ret "p" "c1" "ret" "win",
    .ret "p" "c2" "ret" "lose", .final "win"]

/-- The procedure is live, but as an entry only under the first of its two callers. -/
theorem liveness_agrees_oneWinner : ∃ r, Returns oneWinner.operand {} r ∧
    r.entryLiveness "p" (.caller "c1") = some .noDeadEnd ∧
    r.isLiveDoubleDecker "p" (.caller "c1") = true ∧
    r.entryLiveness "p" (.caller "c2") = some .reachable ∧
    r.isLiveDoubleDecker "p" (.caller "c2") = false ∧ r.isLive "p" = true ∧
    r.deadEnds = ["c2", "lose"] := by
  have hany : (result? (run oneWinner.operand {} .unbounded 40)).any (fun r =>
      r.entryLiveness "p" (.caller "c1") = some .noDeadEnd &&
        r.entryLiveness "p" (.caller "c2") = some .reachable &&
        r.deadEnds = ["c2", "lose"]) = true := by decide +kernel
  obtain ⟨r, hr, hall⟩ := (Option.any_eq_true _ _).mp hany
  simp only [Bool.and_eq_true, decide_eq_true_eq] at hall
  obtain ⟨⟨hfirst, hsecond⟩, hdead⟩ := hall
  have hreturns := returns_of_result hr
  obtain ⟨-, -, hstates, -, hcomputed, -⟩ := liveness_agrees hreturns
  have hrecords := (hcomputed rfl).1
  have hwin : r.isLiveDoubleDecker "p" (.caller "c1") = true :=
    (hrecords _ _ (by rw [hfirst]; rfl)).mp hfirst
  have hlose : r.isLiveDoubleDecker "p" (.caller "c2") = false := by
    rw [Bool.eq_false_iff, ne_eq, ← hrecords _ _ (by rw [hsecond]; rfl), hsecond]
    decide
  exact ⟨r, hreturns, hfirst, hwin, hsecond, hlose, (hstates _).mpr ⟨_, hwin⟩, hdead⟩

end Computation

end NestedWords
