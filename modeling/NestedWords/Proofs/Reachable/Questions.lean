import NestedWords.Proofs.Exploration.Questions
import NestedWords.Proofs.Reachable

/-!
# Every question is asked once

What a computation asks its operand is in its log. If it ends with a result, and is not told to
ask everything again for a comparison, it has asked just the questions that have to be asked to
find all configurations that occur (`Operand.Needs`), and each of them once. If it is cancelled
it has asked some of these, none of them twice (`asked_once`).

During the exploration this is the invariant `Owes []` of the log and the arena. The arena
accounts for a question exactly if it has to be asked, as soon as no item is left
(`Settled.warrants_of_needs`); that it accounts for no others holds at any moment
(`Settled.needs_of_warrants`).
-/

namespace NestedWords.Computation

open Exploration

variable {S L : Type} [Ord L]
  {op : Operand S L} {settings : Settings} {monitor : Monitor} {x : Exploration S L}
  {c : Computation S L} {fuel : Nat}

theorem polls_foldl_ask (l : List (Query S L)) (x : Exploration S L) :
    (l.foldl .ask x).log.polls = x.log.polls := by
  induction l generalizing x with
  | nil => rfl
  | cons q l ih => exact (ih (x.ask q)).trans Log.polls_push_query

variable [DecidableEq S] [Std.TransOrd L] [DecidableEq L]

/-- The last steps of a computation, from its result on: a second look at the operand, if wanted,
and a report. -/
def finish (op : Operand S L) (settings : Settings) (r : Reachable S L) (x : Exploration S L) :
    Except (Fault S) (Computation S L) :=
  if settings.crossValidate then do
    let asked ← crossValidate r.arena op
    return { outcome := .reached r,
             log := ((asked.foldl .ask x).report (.computed r.sizeInformation)).log }
  else return { outcome := .reached r, log := (x.report (.computed r.sizeInformation)).log }

theorem finish_ensures {r : Reachable S L} : Ensures (finish op settings r x) fun c =>
    c.log.polls = x.log.polls ∧
      (settings.crossValidate = false → c.log.queries = x.log.queries) := by
  unfold finish
  split
  · next hvalidate =>
    refine ensures_bind fun asked => ensures_ok ⟨?_, fun hno => ?_⟩
    · exact Log.polls_push_event.trans (polls_foldl_ask asked x)
    · rw [hvalidate] at hno
      cases hno
  · exact ensures_ok ⟨Log.polls_push_event, fun _ => Log.queries_push_event⟩

/-- What follows an exploration polls no monitor, and asks nothing but for a comparison. -/
theorem conclude_ensures : Ensures (conclude op settings x) fun c =>
    c.log.polls = x.log.polls ∧
      (settings.crossValidate = false → c.log.queries = x.log.queries) := by
  have hlive : Ensures (if settings.computeDeadEnds then do
        let m ← Liveness.compute x.arena
        finish op settings { arena := m.arena, live := m.live, deadEndsComputed := true }
          (x.report (.livenessFinished m.live.size))
      else finish op settings { arena := x.arena, deadEndsComputed := false } x)
      fun c => c.log.polls = x.log.polls ∧
        (settings.crossValidate = false → c.log.queries = x.log.queries) := by
    split
    · refine ensures_bind fun m => finish_ensures.mono fun c h => ?_
      exact ⟨h.1.trans Log.polls_push_event, fun hno => (h.2 hno).trans Log.queries_push_event⟩
    · exact finish_ensures
  unfold conclude
  simp only [pure_bind]
  split
  · exact ensures_bind fun _ => hlive
  · exact hlive

variable [Std.LawfulEqOrd L]

/-- A computation that ends with a result has asked each question that has to be asked once, and
no other; the comparison at the end, which asks everything again, is left out. One that is
cancelled has asked no question twice, and none in vain. -/
theorem asked_once (h : run op settings monitor fuel = .ok (some c)) :
    (∀ r, c.outcome = .reached r → settings.crossValidate = false → ∀ q,
      (op.Needs q → c.log.queries.count q = 1) ∧
        (¬ op.Needs q → c.log.queries.count q = 0)) ∧
    ∀ e, c.outcome = .cancelled e → ∀ q,
      c.log.queries.count q ≤ 1 ∧ (q ∈ c.log.queries → op.Needs q) := by
  rcases run_eq_ok h with ⟨x, hstart, hc⟩ | ⟨x, hstart, rfl⟩
  · refine ⟨fun r _ hcompare q => ?_, fun e he => ?_⟩
    · obtain ⟨n, y, hy, hturn⟩ := exists_after_of_start hstart
      obtain ⟨hsettled, hitems⟩ := settled_of_start hstart
      have hqueries := (conclude_ensures c hc).2 hcompare
      have honce := ((asks_of_finished hturn).1 (asks_of_after hy).1).once q
      rw [← hqueries] at honce
      exact ⟨fun hq => honce.1 (hsettled.warrants_of_needs hitems hq),
        fun hq => honce.2 fun hwarrant => hq (hsettled.needs_of_warrants hwarrant)⟩
    · obtain ⟨r, hr, -⟩ := conclude_eq_ok hc
      cases hr.symm.trans he
  · refine ⟨fun r hr => ?_, fun e _ q => ?_⟩
    · cases hr
    · obtain ⟨n, y, hy, hturn⟩ := exists_after_of_start hstart
      obtain ⟨howes, harena, -⟩ := asks_of_cancelled hturn
      have honce := (howes (asks_of_after hy).1).once q
      have hneeds := (Between.of_after hy).settled.needs_of_warrants (q := q)
      rw [harena] at honce
      show x.log.queries.count q ≤ 1 ∧ (q ∈ x.log.queries → op.Needs q)
      by_cases hwarrant : y.arena.Warrants op q
      · exact ⟨Nat.le_of_eq (honce.1 hwarrant), fun _ => hneeds hwarrant⟩
      · have hzero := honce.2 hwarrant
        refine ⟨by rw [List.count_nil] at hzero; omega, fun hmem => ?_⟩
        exact absurd (List.count_eq_zero.mp hzero) (not_not.mpr hmem)

/-- The computation that has come to an end. -/
def ended? : Except (Fault S) (Option (Computation S L)) → Option (Computation S L)
  | .ok c => c
  | .error _ => none

omit [DecidableEq S] [Std.TransOrd L] [Std.LawfulEqOrd L] [DecidableEq L] in
theorem eq_ok_of_ended {t : Except (Fault S) (Option (Computation S L))} (h : ended? t = some c) :
    t = .ok (some c) := by
  cases t with
  | error => cases h
  | ok c' => exact congrArg _ h

/-- How many states were explored when the computation was cancelled. -/
def cancelled? (c : Computation S L) : Option Nat :=
  match c.outcome with
  | .cancelled e => some e
  | .reached _ => none

omit [DecidableEq S] [Std.TransOrd L] [Std.LawfulEqOrd L] [DecidableEq L] in
theorem outcome_of_cancelled {e : Nat} (h : c.cancelled? = some e) : c.outcome = .cancelled e := by
  unfold cancelled? at h
  split at h <;> cases h
  assumption

omit [DecidableEq S] [Std.TransOrd L] [Std.LawfulEqOrd L] [DecidableEq L] in
theorem outcome_of_not_cancelled (h : c.cancelled? = none) : ∃ r, c.outcome = .reached r := by
  unfold cancelled? at h
  split at h
  · cases h
  · exact ⟨_, ‹_›⟩

/-- The returns of `recursion` under its own call are asked for once, and those of the procedure
itself never; cancelled before the third item, it has not asked about them. -/
theorem asked_once_recursion : ∃ c c', run recursion.operand {} .unbounded 40 = .ok (some c) ∧
    c.log.queries.count (.returnSuccessors "exit" "proc" "r") = 1 ∧
    recursion.operand.Needs (.returnSuccessors "exit" "proc" "r") ∧
    ¬ recursion.operand.Needs (.returnSuccessors "proc" "proc" "r") ∧
    run recursion.operand {} (.budget 2) 40 = .ok (some c') ∧ c'.outcome = .cancelled 2 ∧
    recursion.operand.Needs (.callSuccessors "proc" "c") ∧
    c'.log.queries.count (.callSuccessors "proc" "c") = 1 ∧
    .returnSuccessors "exit" "proc" "r" ∉ c'.log.queries := by
  have hany : (ended? (run recursion.operand {} .unbounded 40)).any (fun c =>
      c.cancelled? = none ∧ c.log.queries.count (.returnSuccessors "exit" "proc" "r") = 1 ∧
      c.log.queries.count (.returnSuccessors "proc" "proc" "r") = 0) = true := by decide +kernel
  have hany' : (ended? (run recursion.operand {} (.budget 2) 40)).any (fun c =>
      c.cancelled? = some 2 ∧ c.log.queries.count (.callSuccessors "proc" "c") = 1 ∧
      .returnSuccessors "exit" "proc" "r" ∉ c.log.queries) = true := by decide +kernel
  obtain ⟨c, hc, h⟩ := (Option.any_eq_true _ _).mp hany
  obtain ⟨c', hc', h'⟩ := (Option.any_eq_true _ _).mp hany'
  obtain ⟨hreached, hcalled, hunasked⟩ := of_decide_eq_true h
  obtain ⟨hcancelled, hasked, hlater⟩ := of_decide_eq_true h'
  obtain ⟨r, hr⟩ := outcome_of_not_cancelled hreached
  have hall := (asked_once (eq_ok_of_ended hc)).1 r hr rfl
  have hsome := (asked_once (eq_ok_of_ended hc')).2 2 (outcome_of_cancelled hcancelled)
  refine ⟨c, c', eq_ok_of_ended hc, hcalled, ?_, fun hneeds => ?_, eq_ok_of_ended hc',
    outcome_of_cancelled hcancelled, (hsome _).2 ?_, hasked, hlater⟩
  · by_contra hno
    have := (hall _).2 hno
    omega
  · have := (hall _).1 hneeds
    omega
  · exact List.count_pos_iff.mp (by omega)

end NestedWords.Computation
