import NestedWords.Proofs.Automaton
import NestedWords.Proofs.Exploration.Migration
import NestedWords.Proofs.Exploration.Termination
import NestedWords.Proofs.Reachable.Letters

/-!
# Computations end

If only finitely many states occur, as on every finite automaton (`Automaton.finite_occurs`),
a computation that nobody cancels ends with a result: no item is left to the exploration, and no
double-decker to the search for dead ends. Whatever the operand, an item comes to an end, since
the only loop in it that is not over a given list, the migration of a region, ends on any arena
(`Arena.migration_ends`); so a computation ends too if it is cancelled at some time. This is
`terminates`.
-/

namespace NestedWords

variable {S L : Type} [Ord L] [Std.TransOrd L] [Std.LawfulEqOrd L] [DecidableEq L]

namespace Automaton

variable [Ord S] [Std.TransOrd S] [Std.LawfulEqOrd S]

/-- The states that are initial or the target of a transition. -/
def entered (m : Automaton S L) : List S :=
  m.initial ++ m.internal.toList.map (·.2.2) ++ m.call.toList.map (·.2.2)
    ++ m.returns.toList.map (·.2.2.2)

omit [DecidableEq L] in
theorem mem_entered {m : Automaton S L} {s : S} : s ∈ m.entered ↔
    s ∈ m.initial ∨ (∃ p a, m.Holds (.internal p a s)) ∨ (∃ p a, m.Holds (.call p a s)) ∨
      ∃ p h a, m.Holds (.ret p h a s) := by
  simp only [entered, List.mem_append, List.mem_map, Table.mem_toList, Prod.exists,
    Holds, or_assoc]
  grind

/-- On a finite automaton only finitely many states occur. -/
theorem finite_occurs (m : Automaton S L) : {s | ∃ w, m.operand.Occurs ⟨s, w⟩}.Finite := by
  refine m.entered.finite_toSet.subset fun s hs => ?_
  obtain ⟨w, hw⟩ := hs
  refine Operand.Occurs.induction (P := fun c => c.state ∈ m.entered) (fun i hi => ?_) ?_ hw
  · exact mem_entered.mpr (.inl hi)
  · intro c d x hc _ hstep
    cases hstep with
    | internal hl hq => exact mem_entered.mpr (.inr (.inl ⟨_, _, operand_internal.mp ⟨hl, hq⟩⟩))
    | call hl hq => exact mem_entered.mpr (.inr (.inr (.inl ⟨_, _, operand_call.mp ⟨hl, hq⟩⟩)))
    | ret hl hq =>
      exact mem_entered.mpr (.inr (.inr (.inr ⟨_, _, _, operand_ret.mp ⟨hl, hq⟩⟩)))

end Automaton

namespace Computation

open Exploration

variable [DecidableEq S]

/-- If finitely many states occur and the monitor never cancels, both worklists of the exploration
and both of the search for dead ends get empty, and the computation ends with a result. A
migration ends on any arena, with the region moved or with the fault that moving it meets, so that
no single item goes on forever; hence a computation on whatever operand ends if the monitor says
no at some poll. -/
theorem terminates (op : Operand S L) (settings : Settings) (monitor : Monitor) :
    ({s | ∃ w, op.Occurs ⟨s, w⟩}.Finite → (∀ k, monitor k = true) → ∃ fuel x m c r,
      start op settings monitor fuel = .ok (some (.finished x)) ∧
      x.pending.reconciliations = [] ∧ x.pending.others = [] ∧
      Liveness.compute x.arena = .ok m ∧ m.backward = [] ∧ m.hierarchical = [] ∧
      run op settings monitor fuel = .ok (some c) ∧ c.outcome = .reached r) ∧
    (∀ (a : Arena S L) {old new : Nat}, old ≠ new → ∀ target,
      ∃ n ≤ 1 + ((a.residents old).map fun u => (a.successorsWithin u).length).sum,
        Migration.run old new n { arena := a, stack := [target] } =
          (fun b => { arena := b, stack := [], moved := a.region old target }) <$>
            moveAll a (a.region old target) new) ∧
    ∀ n, monitor n = false → ∃ c, run op settings monitor (n + 1) = .ok (some c) := by
  refine ⟨fun hfinite hnever => ?_, Arena.migration_ends, fun n hno => ?_⟩
  · obtain rfl : monitor = .unbounded := funext hnever
    obtain ⟨fuel, x, hstart⟩ := exists_start_finished settings hfinite
    obtain ⟨hsettled, hitems⟩ := settled_of_start hstart
    obtain ⟨hreconciliations, hothers⟩ := List.append_eq_nil_iff.mp hitems
    obtain ⟨m, hm, -, -, hqueue, -⟩ := Liveness.compute_saturates (hsettled.complete hitems)
    obtain ⟨hbackward, hhierarchical⟩ := List.append_eq_nil_iff.mp hqueue
    obtain ⟨c, hc, hconclude⟩ := exists_run_of_finished hstart
    obtain ⟨r, hr, -⟩ := conclude_eq_ok hconclude
    exact ⟨fuel, x, m, c, r, hstart, hreconciliations, hothers, hm, hbackward, hhierarchical, hc,
      hr⟩
  · obtain ⟨x, hstart | hstart⟩ := exists_start_of_refused op settings hno
    · obtain ⟨c, hc, -⟩ := exists_run_of_finished hstart
      exact ⟨c, hc⟩
    · exact ⟨_, run_of_cancelled hstart⟩

/-- An operand without end: each number leads to the next. -/
def counting : Operand Nat String where
  initial := [0]
  isFinal _ := false
  internalAlphabet := .ofList ["n"]
  callAlphabet := ∅
  returnAlphabet := ∅
  internalLetters _ := .ofList ["n"]
  callLetters _ := ∅
  returnLetters _ := ∅
  internalSuccessors n _ := [n + 1]
  callSuccessors _ _ := []
  returnSuccessors _ _ _ := []

theorem counting_occurs (n : Nat) : counting.Occurs ⟨n, []⟩ := by
  induction n with
  | zero => exact Operand.occurs_of_initial (List.mem_singleton.mpr rfl)
  | succ n ih =>
    have hletter : "n" ∈ counting.internalLetters n := by simp [counting]
    exact ih.step (.internal hletter (List.mem_singleton.mpr rfl))

/-- The computation on the finite `recursion` ends by itself, the one on `counting` only because
it is cancelled. The migration is one of two states, where the paths of `joining` meet. -/
theorem terminates_recursion :
    ({s | ∃ w, recursion.operand.Occurs ⟨s, w⟩}.Finite ∧ (∀ k, Monitor.unbounded k = true) ∧
      ∃ fuel c r, run recursion.operand {} .unbounded fuel = .ok (some c) ∧
        c.outcome = .reached r) ∧
    (0 ≠ 1 ∧ ∃ x n, after Between.joining.operand {} .unbounded 2 = some x ∧
      Migration.run 0 1 n { arena := x.arena, stack := [0] } =
        (fun b => { arena := b, stack := [], moved := [0, 2] }) <$> moveAll x.arena [0, 2] 1) ∧
    {s | ∃ w, counting.Occurs ⟨s, w⟩}.Infinite ∧
    (Monitor.budget 3 3 = false ∧ ∃ c, run counting {} (.budget 3) 4 = .ok (some c)) := by
  have hfinite := Automaton.finite_occurs recursion
  have hnever : ∀ k, Monitor.unbounded k = true := fun _ => rfl
  have hregion : (after Between.joining.operand {} .unbounded 2).any (fun x =>
      x.arena.region 0 0 = [0, 2]) = true := by cbv
  obtain ⟨fuel, -, -, c, r, -, -, -, -, -, -, hrun, hr⟩ :=
    (terminates recursion.operand {} .unbounded).1 hfinite hnever
  obtain ⟨x, hx, hmoved⟩ := (Option.any_eq_true _ _).mp hregion
  obtain ⟨n, -, hmigrates⟩ :=
    (terminates Between.joining.operand {} .unbounded).2.1 x.arena Nat.zero_ne_one 0
  rw [of_decide_eq_true hmoved] at hmigrates
  refine ⟨⟨hfinite, hnever, fuel, c, r, hrun, hr⟩, ⟨Nat.zero_ne_one, x, n, hx, hmigrates⟩, ?_, rfl,
    (terminates counting {} (.budget 3)).2.2 3 rfl⟩
  exact Set.infinite_univ.mono fun n _ => ⟨[], counting_occurs n⟩

end Computation

end NestedWords
