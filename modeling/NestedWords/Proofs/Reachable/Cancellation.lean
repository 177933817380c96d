import NestedWords.Proofs.Exploration.Cancellation
import NestedWords.Proofs.Reachable.Letters
import NestedWords.Proofs.Reachable.Questions

/-!
# Computations that are cancelled

A monitor decides only how far a computation gets. If it agrees to all items that there are, the
computation is the one that nobody stops, and has polled once for each item. If it refuses one,
the computation is cancelled there, having explored the states that the items before it explore.
This is `prefix_of_unbounded`.
-/

namespace NestedWords.Computation

open Exploration

variable {S L : Type} [DecidableEq S] [Ord L] [Std.TransOrd L] [Std.LawfulEqOrd L] [DecidableEq L]
  {op : Operand S L} {settings : Settings} {monitor : Monitor} {n k : Nat}

/-- If the monitor agrees to as many items as there are, the computation ends as it does when
nobody stops it, and has polled once for each. -/
theorem reached_of_agrees (monitor : Monitor) (h : Processes op settings n)
    (hyes : ∀ i < n, monitor i = true) (fuel : Nat) : ∃ c r,
      run op settings monitor (n + (fuel + 1)) = .ok (some c) ∧
      run op settings .unbounded (n + (fuel + 1)) = .ok (some c) ∧
      c.outcome = .reached r ∧ c.log.polls = n := by
  obtain ⟨x, hx, hpop⟩ := h
  have hx' : after op settings monitor n = some x := (after_congr hyes).trans hx
  have hturn : ∀ m : Monitor, TurnsTo op settings m x _ := fun m => .finished hpop
  have hstart := (start_of_after hx (fuel + 1)).trans (run_of_finished (hturn .unbounded))
  have hstart' := (start_of_after hx' (fuel + 1)).trans (run_of_finished (hturn monitor))
  obtain ⟨c, hc, hconclude⟩ := exists_run_of_finished hstart
  obtain ⟨r, hr, -⟩ := conclude_eq_ok hconclude
  refine ⟨c, r, ?_, hc, hr, ?_⟩
  · rw [← hc, run, run, hstart, hstart']
  · rw [(conclude_ensures c hconclude).1, (asks_of_finished (hturn .unbounded)).2]
    exact (asks_of_after hx).2.1

/-- If it refuses before, the computation is cancelled. -/
theorem cancelled_of_refuses (hno : monitor.Refuses k) (h : ∀ n ≤ k, ¬ Processes op settings n)
    (fuel : Nat) : ∃ c, run op settings monitor (k + (fuel + 1)) = .ok (some c) ∧
      c.outcome = .cancelled (explores op settings k) ∧ c.log.polls = k + 1 := by
  obtain ⟨x, hx⟩ := exists_after (n := k) fun n hn => h n (Nat.le_of_lt hn)
  have hx' : after op settings monitor k = some x := (after_congr hno.2).trans hx
  obtain ⟨-, hpolls, hprocessed⟩ := asks_of_after hx
  cases hpop : x.pending.pop with
  | none => exact absurd ⟨x, hx, hpop⟩ (h k (Nat.le_refl k))
  | some next =>
    have hturn : TurnsTo op settings monitor x _ := .cancelled hpop (hprocessed.symm ▸ hno.1)
    have hstart := (start_of_after hx' (fuel + 1)).trans (Exploration.run_of_cancelled hturn)
    refine ⟨_, run_of_cancelled hstart, ?_, ?_⟩
    · show Outcome.cancelled x.explored = _
      rw [explored_of_after hx]
    · exact (asks_of_cancelled hturn).2.2.trans (congrArg (· + 1) hpolls)

/-- Whatever the monitor, the computation is the beginning of the one that nobody stops. If this
processes `n` items and the first `n` polls are granted, both end with the same result, after `n`
polls. If the poll with number `k`, counted from zero, is the first that is refused, and `k` items
are not all, the computation is cancelled there, after `k + 1` polls, and has explored as many
states as there are items among the first `k` that explore one. This number does not decrease
with `k`, is at most `k`, and at most the number of states that occur. Without initial states the
monitor is not polled. -/
theorem prefix_of_unbounded (op : Operand S L) (settings : Settings) (monitor : Monitor) :
    (∀ n, Processes op settings n → (∀ i < n, monitor i = true) → ∀ fuel, ∃ c r,
      run op settings monitor (n + (fuel + 1)) = .ok (some c) ∧
      run op settings .unbounded (n + (fuel + 1)) = .ok (some c) ∧
      c.outcome = .reached r ∧ c.log.polls = n) ∧
    (∀ k, monitor.Refuses k → (∀ n ≤ k, ¬ Processes op settings n) → ∀ fuel, ∃ c,
      run op settings monitor (k + (fuel + 1)) = .ok (some c) ∧
      c.outcome = .cancelled ((takes op settings k).countP (·.isExplore)) ∧
      c.log.polls = k + 1) ∧
    Monotone (fun k => (takes op settings k).countP (·.isExplore)) ∧
    (∀ k, (takes op settings k).countP (·.isExplore) ≤ k ∧
      ((takes op settings k).countP (·.isExplore) : ℕ∞) ≤ {s | ∃ w, op.Occurs ⟨s, w⟩}.encard) ∧
    (op.initial = [] → ∀ fuel, ∃ c r, run op settings monitor (fuel + 1) = .ok (some c) ∧
      c.outcome = .reached r ∧ c.log.polls = 0) := by
  refine ⟨fun n h hyes => reached_of_agrees monitor h hyes,
    fun k hno h => cancelled_of_refuses hno h, monotone_explores,
    fun k => ⟨explores_le, explores_le_encard⟩, fun hinitial fuel => ?_⟩
  have hprocesses : Processes op settings 0 := processes_zero hinitial
  have hnone : ∀ i < 0, monitor i = true := fun i hi => absurd hi (Nat.not_lt_zero i)
  obtain ⟨c, r, hc, -, hr, hpolls⟩ := reached_of_agrees monitor hprocesses hnone fuel
  rw [Nat.zero_add] at hc
  exact ⟨c, r, hc, hr, hpolls⟩

/-- Of the four items of `recursion`, the first two explore a state each, and so do the two that
follow; a computation may be stopped before any of them, but not after the last. -/
theorem prefix_of_unbounded_recursion :
    (Processes recursion.operand {} 4 ∧ ∃ c r,
      run recursion.operand {} (.budget 4) 5 = .ok (some c) ∧
      run recursion.operand {} .unbounded 5 = .ok (some c) ∧ c.outcome = .reached r ∧
      c.log.polls = 4) ∧
    ((Monitor.budget 2).Refuses 2 ∧ (∀ n ≤ 2, ¬ Processes recursion.operand {} n) ∧ ∃ c,
      run recursion.operand {} (.budget 2) 3 = .ok (some c) ∧ c.outcome = .cancelled 2 ∧
      c.log.polls = 3) ∧
    (({} : Automaton String String).operand.initial = [] ∧ ∃ c r,
      run ({} : Automaton String String).operand {} (.budget 0) 1 = .ok (some c) ∧
      c.outcome = .reached r ∧ c.log.polls = 0) := by
  have hends : (after recursion.operand {} .unbounded 4).any (·.pending.pop.isNone) = true := by
    decide +kernel
  have hgoes : ∀ n ∈ [0, 1, 2], (itemAt recursion.operand {} n).isSome = true := by decide +kernel
  have htakes : (takes recursion.operand {} 2).countP (·.isExplore) = 2 := by decide +kernel
  have hprocesses : Processes recursion.operand {} 4 := by
    obtain ⟨x, hx, hpop⟩ := (Option.any_eq_true _ _).mp hends
    exact ⟨x, hx, Option.isNone_iff_eq_none.mp hpop⟩
  have hbefore : ∀ n ≤ 2, ¬ Processes recursion.operand {} n := fun n hn =>
    not_processes_of_itemAt (hgoes n (by simp; omega))
  have hyes : ∀ i < 4, Monitor.budget 4 i = true := by decide
  have hrefuses : (Monitor.budget 2).Refuses 2 := ⟨by decide, by decide⟩
  obtain ⟨hreached, -⟩ := prefix_of_unbounded recursion.operand {} (.budget 4)
  obtain ⟨-, hcancelled, -⟩ := prefix_of_unbounded recursion.operand {} (.budget 2)
  obtain ⟨-, -, -, -, hempty⟩ :=
    prefix_of_unbounded ({} : Automaton String String).operand {} (.budget 0)
  obtain ⟨c, hc, houtcome, hpolls⟩ := hcancelled 2 hrefuses hbefore 0
  rw [htakes] at houtcome
  exact ⟨⟨hprocesses, hreached 4 hprocesses hyes 0⟩,
    ⟨hrefuses, hbefore, c, hc, houtcome, hpolls⟩, rfl, hempty rfl 0⟩

end NestedWords.Computation
