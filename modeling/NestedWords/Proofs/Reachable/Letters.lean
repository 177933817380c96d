import NestedWords.Proofs.CrossValidation
import NestedWords.Proofs.Exploration.Checks
import NestedWords.Proofs.Exploration.Simulation
import NestedWords.Proofs.Letters
import NestedWords.Proofs.Liveness.Plain
import NestedWords.Proofs.Reachable.Answers

/-!
# Letters are an optimisation

An operand gives the letters that a state uses, so that others need not be asked about. If these
leave out nothing that leads on, the operand that forgets them (`Operand.forgetLetters`) has the
same transitions. The explorations of the two are then twins, and what follows an exploration
meets no fault (`conclude_yields`) and reads nothing in which twins differ
(`Concludes.exists_plain`). So their results cannot be told apart (`answers_forgetLetters`), down
to the order in which states are listed.
-/

namespace NestedWords

open Exploration

variable {S L : Type} [DecidableEq S] [Ord L] [Std.TransOrd L] [DecidableEq L]
  {A B op : Operand S L} {settings : Settings} {r r' : Reachable S L} {a b : Arena S L}

namespace Computation

/-- The computation on the operand, with nobody to stop it, ends with the result. -/
def Completes (op : Operand S L) (settings : Settings) (r : Reachable S L) : Prop :=
  ∃ fuel c, run op settings .unbounded fuel = .ok (some c) ∧ c.outcome = .reached r

theorem completes_of_result {fuel : Nat}
    (h : result? (run op settings .unbounded fuel) = some r) : Completes op settings r := by
  unfold result? at h
  split at h
  · next r' log hrun =>
    cases h
    exact ⟨fuel, _, hrun, rfl⟩
  · cases h

/-- The result that an arena leads to. -/
def Concludes (settings : Settings) (a : Arena S L) (r : Reachable S L) : Prop :=
  if settings.computeDeadEnds then ∃ m, Liveness.compute a = .ok m ∧
    r = { arena := m.arena, live := m.live, deadEndsComputed := true }
  else r = { arena := a, deadEndsComputed := false }

omit [DecidableEq S] [DecidableEq L] in
theorem Concludes.unique (h : Concludes settings a r) (h' : Concludes settings a r') : r = r' := by
  unfold Concludes at h h'
  split at h
  · next hd =>
    rw [if_pos hd] at h'
    obtain ⟨m, hm, rfl⟩ := h
    obtain ⟨m', hm', rfl⟩ := h'
    cases hm.symm.trans hm'
    rfl
  · next hd =>
    rw [if_neg hd] at h'
    exact h.trans h'.symm

omit [DecidableEq S] [DecidableEq L] in
/-- Arenas that differ in the bookkeeping of returns lead to results that do too. -/
theorem Concludes.exists_plain (hab : a.plain = b.plain) (h : Concludes settings a r) :
    ∃ r', Concludes settings b r' ∧ r.plain = r'.plain := by
  unfold Concludes at h
  split at h
  · next hd =>
    obtain ⟨m, hm, rfl⟩ := h
    have hplain : Liveness.plain <$> Liveness.compute b = .ok m.plain := by
      rw [← Liveness.compute_plain, ← hab, Liveness.compute_plain, hm]
      rfl
    cases hm' : Liveness.compute b with
    | error e =>
      rw [hm'] at hplain
      cases hplain
    | ok m' =>
      rw [hm'] at hplain
      have hsame : m'.plain = m.plain := Except.ok.inj hplain
      have harena : m'.arena.plain = m.arena.plain := congrArg (·.arena) hsame
      have hlive : m'.live = m.live := congrArg (·.live) hsame
      refine ⟨{ arena := m'.arena, live := m'.live, deadEndsComputed := true },
        (if_pos hd).mpr ⟨m', hm', rfl⟩, ?_⟩
      simp only [Reachable.plain, harena, hlive]
  · next hd =>
    subst h
    refine ⟨{ arena := b, deadEndsComputed := false }, (if_neg hd).mpr rfl, ?_⟩
    simp only [Reachable.plain, hab]

variable [Std.LawfulEqOrd L]

/-- The arena that is left when no item is pending passes its check, and with or without the marks
of what is live it agrees with a second look at the operand. -/
theorem exists_checks {x : Exploration S L} (hx : Settled op x.snapshot)
    (hitems : x.pending.items = []) : x.arena.checkFixpoint = .ok () ∧
      ∃ m, Liveness.compute x.arena = .ok m ∧ (∃ asked, crossValidate x.arena op = .ok asked) ∧
        ∃ asked, crossValidate m.arena op = .ok asked := by
  have hcomplete : Complete op x.arena := hx.complete hitems
  obtain ⟨m, hm, hremarked, -⟩ := Liveness.compute_yields hcomplete
  have hmarked : Reachable.Exact op { arena := m.arena, deadEndsComputed := true } x.arena :=
    ⟨hcomplete, hremarked⟩
  have hunmarked : Reachable.Exact op { arena := x.arena, deadEndsComputed := false } x.arena :=
    ⟨hcomplete, .refl _⟩
  exact ⟨hx.checkFixpoint_eq_ok hitems, m, hm, hunmarked.crossValidate_yields,
    hmarked.crossValidate_yields⟩

/-- What follows the exploration meets no fault. -/
theorem conclude_yields (settings : Settings) {x : Exploration S L} (hx : Settled op x.snapshot)
    (hitems : x.pending.items = []) : ∃ c, conclude op settings x = .ok c := by
  obtain ⟨hfixpoint, m, hm, ⟨asked, hasked⟩, ⟨asked', hasked'⟩⟩ := exists_checks hx hitems
  unfold conclude
  simp only [bind_of_eq_ok hfixpoint, bind_of_eq_ok hm, bind_of_eq_ok hasked,
    bind_of_eq_ok hasked', pure_bind]
  -- the settings choose what is done, and nothing of it fails
  split <;> split <;> split <;> exact ⟨_, rfl⟩

section
variable {monitor : Monitor} {fuel : Nat} {x : Exploration S L}

/-- A finished exploration leads to a result. -/
theorem exists_run_of_finished (h : start op settings monitor fuel = .ok (some (.finished x))) :
    ∃ c, run op settings monitor fuel = .ok (some c) ∧ conclude op settings x = .ok c := by
  obtain ⟨hsettled, hitems⟩ := settled_of_start h
  obtain ⟨c, hc⟩ := conclude_yields settings hsettled hitems
  refine ⟨c, ?_, hc⟩
  rw [run, bind_of_eq_ok h]
  exact bind_of_eq_ok hc

omit [Std.LawfulEqOrd L] in
theorem run_of_cancelled (h : start op settings monitor fuel = .ok (some (.cancelled x))) :
    run op settings monitor fuel =
      .ok (some { outcome := .cancelled x.explored, log := x.log }) := by
  rw [run, bind_of_eq_ok h]
  rfl
end

/-- A computation never fails. -/
theorem exists_run (op : Operand S L) (settings : Settings) (monitor : Monitor) (fuel : Nat) :
    ∃ o, run op settings monitor fuel = .ok o := by
  obtain ⟨o, ho⟩ := exists_start op settings monitor fuel
  cases o with
  | none => exact ⟨none, by rw [run, bind_of_eq_ok ho]; rfl⟩
  | some t => cases t with
    | continues x => exact ⟨none, by rw [run, bind_of_eq_ok ho]; rfl⟩
    | cancelled x => exact ⟨_, run_of_cancelled ho⟩
    | finished x =>
      obtain ⟨c, hc, -⟩ := exists_run_of_finished ho
      exact ⟨some c, hc⟩

omit [Std.LawfulEqOrd L] in
/-- A result is concluded from a finished exploration, whatever monitor has let it finish. -/
theorem Returns.exists_explores (h : Returns op settings r) :
    ∃ x, Explores op settings x ∧ Concludes settings x.arena r := by
  obtain ⟨monitor, fuel, c, h, hr⟩ := h
  rcases run_eq_ok h with ⟨x, hstart, hc⟩ | ⟨x, hstart, rfl⟩
  · obtain ⟨r', hr', hconcludes⟩ := conclude_eq_ok hc
    cases hr.symm.trans hr'
    exact ⟨x, explores_of_start hstart, hconcludes⟩
  · cases hr

omit [Std.LawfulEqOrd L] in
theorem Completes.returns (h : Completes op settings r) : Returns op settings r := by
  obtain ⟨fuel, c, hrun, hc⟩ := h
  exact ⟨.unbounded, fuel, c, hrun, hc⟩

theorem completes_iff : Completes op settings r ↔
    ∃ x, Explores op settings x ∧ Concludes settings x.arena r := by
  constructor
  · exact fun h => h.returns.exists_explores
  · intro h
    obtain ⟨x, ⟨fuel, hstart⟩, h⟩ := h
    obtain ⟨c, hrun, hc⟩ := exists_run_of_finished hstart
    obtain ⟨r', hr', h'⟩ := conclude_eq_ok hc
    exact ⟨fuel, c, hrun, h.unique h' ▸ hr'⟩

/-- A computation has one result. -/
theorem Completes.unique (h : Completes op settings r) (h' : Completes op settings r') :
    r = r' := by
  obtain ⟨x, hx, h⟩ := completes_iff.mp h
  obtain ⟨y, hy, h'⟩ := completes_iff.mp h'
  cases hx.unique hy
  exact h.unique h'

/-- Operands with the same transitions have results that differ in bookkeeping only. -/
theorem Completes.exists_twin (hAB : A.SameTransitions B) (h : Completes A settings r) :
    ∃ r', Completes B settings r' ∧ r.plain = r'.plain := by
  obtain ⟨x, hx, h⟩ := completes_iff.mp h
  obtain ⟨y, hy, htwins⟩ := hx.exists_twin hAB
  obtain ⟨r', h', hplain⟩ := h.exists_plain htwins.arena.plain
  exact ⟨r', completes_iff.mpr ⟨y, hy, h'⟩, hplain⟩

/-- If the letters that an operand gives for its states leave out nothing that leads on, as those
of every finite automaton, then the computation on the operand that forgets them ends if and only
if the computation with them does, and its result gives the same answer to every question. -/
theorem answers_forgetLetters :
    (∀ [Ord S] [Std.TransOrd S] [Std.LawfulEqOrd S] (facts : List (Fact S L)),
      (Automaton.ofFacts facts).operand.LettersSuffice) ∧
    ∀ (op : Operand S L) (settings : Settings), op.LettersSuffice →
      ((∃ r, Completes op settings r) ↔ ∃ r, Completes op.forgetLetters settings r) ∧
      ∀ r r', Completes op settings r → Completes op.forgetLetters settings r' →
        r.answers = r'.answers := by
  refine ⟨Automaton.lettersSuffice, fun op settings h => ⟨⟨fun hr => ?_, fun hr => ?_⟩, ?_⟩⟩
  · obtain ⟨r, hr⟩ := hr
    obtain ⟨r', hr', -⟩ := hr.exists_twin h.sameTransitions
    exact ⟨r', hr'⟩
  · obtain ⟨r, hr⟩ := hr
    obtain ⟨r', hr', -⟩ := hr.exists_twin h.sameTransitions.symm
    exact ⟨r', hr'⟩
  · intro r r' hr hr'
    obtain ⟨r'', hr'', hplain⟩ := hr.exists_twin h.sameTransitions
    rw [hr'.unique hr'']
    exact Reachable.answers_eq hplain

/-- Without its letters every state of `recursion` is a candidate, and there is more to do. -/
theorem answers_forgetLetters_recursion : ∃ r r', Completes recursion.operand {} r ∧
    Completes recursion.operand.forgetLetters {} r' ∧ r.answers = r'.answers ∧
    r'.states = ["main", "proc", "exit", "done"] ∧
    (r.nodes.filter (·.candidate)).map (·.name) = ["exit"] ∧
    (r'.nodes.filter (·.candidate)).map (·.name) = ["main", "proc", "exit", "done"] ∧
    ((run recursion.operand {} .unbounded 40).toOption.bind id).map (·.log.polls) = some 4 ∧
    ((run recursion.operand.forgetLetters {} .unbounded 40).toOption.bind id).map (·.log.polls) =
      some 5 := by
  have hany : (result? (run recursion.operand {} .unbounded 40)).any (fun r =>
      (r.nodes.filter (·.candidate)).map (·.name) == ["exit"]) = true := by decide +kernel
  have hany' : (result? (run recursion.operand.forgetLetters {} .unbounded 40)).any (fun r =>
      r.states == ["main", "proc", "exit", "done"] &&
        (r.nodes.filter (·.candidate)).map (·.name) ==
          ["main", "proc", "exit", "done"]) = true := by decide +kernel
  obtain ⟨r, hr, hcandidates⟩ := (Option.any_eq_true _ _).mp hany
  obtain ⟨r', hr', hfound⟩ := (Option.any_eq_true _ _).mp hany'
  simp only [Bool.and_eq_true, beq_iff_eq] at hcandidates hfound
  have hcompletes := completes_of_result hr
  have hcompletes' := completes_of_result hr'
  have hsuffice : recursion.operand.LettersSuffice := answers_forgetLetters.1 _
  have hanswers := (answers_forgetLetters.2 _ _ hsuffice).2 r r' hcompletes hcompletes'
  exact ⟨r, r', hcompletes, hcompletes', hanswers, hfound.1, hcandidates, hfound.2,
    by decide +kernel, by decide +kernel⟩

end Computation

end NestedWords
