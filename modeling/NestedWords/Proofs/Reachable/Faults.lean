import NestedWords.Proofs.Exploration.Bounds
import NestedWords.Proofs.Reachable.Termination

/-!
# No computation meets a fault

Whatever an operand answers, as long as it answers alike each time: nothing that a computation
takes for granted fails, whether or not the settings let it be checked (`meets_no_fault`). Inside
an item this is what the invariant of the exploration is for; that it holds again after each item
lets the arena pass its check there, and that it holds at the end lets it pass the last ones.
-/

namespace NestedWords.Computation

open Exploration

variable {S L : Type} [DecidableEq S] [Ord L] [Std.TransOrd L] [Std.LawfulEqOrd L] [DecidableEq L]

/-- No computation meets a fault, whatever its settings, and wherever the monitor stops it. Between
any two items the arena passes the check of its components, and neither it nor a pending item has
an id that points nowhere. The arena that is left at the end passes its last check, the search for
dead ends meets no fault in it and leaves no such id either, and before and after that search it
agrees with a second look at the operand. A reconciliation that meets no fault, and none does, has
walked among states only. -/
theorem meets_no_fault (op : Operand S L) (settings : Settings) (monitor : Monitor) :
    (∀ fuel, ∃ o, run op settings monitor fuel = .ok o) ∧
    (∀ x, Between op settings monitor x → x.arena.checkComponents = .ok () ∧ x.arena.InBounds ∧
      ∀ item ∈ x.pending.items, x.arena.Names item) ∧
    (∀ fuel x, start op settings monitor fuel = .ok (some (.finished x)) →
      x.arena.checkFixpoint = .ok () ∧ x.arena.InBounds ∧
      ∃ m, Liveness.compute x.arena = .ok m ∧ m.arena.InBounds ∧
        (∃ asked, crossValidate x.arena op = .ok asked) ∧
        ∃ asked, crossValidate m.arena op = .ok asked) ∧
    ∀ (x y : Exploration S L) target old extra, x.arena.componentOf target = .ok old →
      x.reconcile target extra = .ok y → y = x ∨
        ∀ u ∈ x.arena.region old target, ∀ v ∈ x.arena.successorsWithin u, v < x.arena.size := by
  refine ⟨exists_run op settings monitor, fun x hx => ?_, fun fuel x hx => ?_,
    fun x y target old extra => reconcile_walked⟩
  · have hsettled : Settled op x.snapshot := hx.settled
    exact ⟨hsettled.wellFormed.checkComponents_eq_ok, inBounds_of_settled hsettled,
      fun item hitem => names_of_settled hsettled hitem⟩
  · obtain ⟨hsettled, hitems⟩ := settled_of_start hx
    obtain ⟨hfixpoint, m, hm, hvalid, hvalid'⟩ := exists_checks hsettled hitems
    have hbounds : x.arena.InBounds := inBounds_of_settled hsettled
    have hbounds' : m.arena.InBounds := hbounds.of_promoted (Liveness.compute_promoted _ m hm)
    exact ⟨hfixpoint, hbounds, m, hm, hbounds', hvalid, hvalid'⟩

/-- The run on `joining` when the state where the paths join is about to move, and its end. -/
theorem meets_no_fault_joining : ∃ x y,
    Between Between.joining.operand {} .unbounded x ∧ .reconcile 1 2 ∈ x.pending.items ∧
    x.arena.checkComponents = .ok () ∧ x.arena.Names (.reconcile 1 2) ∧
    x.arena.componentOf 2 = .ok 0 ∧ x.reconcile 2 (.ofList [1]) = .ok y ∧
    (∀ u ∈ x.arena.region 0 2, ∀ v ∈ x.arena.successorsWithin u, v < x.arena.size) ∧
    ∃ fuel z, start Between.joining.operand {} .unbounded fuel = .ok (some (.finished z)) ∧
      z.arena.checkFixpoint = .ok () := by
  have hany : (after Between.joining.operand {} .unbounded 2).any (fun x =>
      x.arena.home 2 = some 0 && x.pending.items = [.reconcile 1 2, .explore 2] &&
        x.arena.components.size == 2 &&
        match x.reconcile 2 (.ofList [1]) with
        | .ok y => y.arena.components.size == 3
        | .error _ => false) = true := by cbv
  obtain ⟨x, hx, hfound⟩ := (Option.any_eq_true _ _).mp hany
  simp only [Bool.and_eq_true, decide_eq_true_eq, beq_iff_eq] at hfound
  obtain ⟨⟨⟨hhome, hitems⟩, hsize⟩, hgrown⟩ := hfound
  split at hgrown
  · next y hy =>
    have hbetween := Between.of_after hx
    have hmem : .reconcile 1 2 ∈ x.pending.items := hitems ▸ List.mem_cons_self
    have hlt : 0 < x.arena.components.size := by omega
    have hold : x.arena.componentOf 2 = .ok 0 := Arena.componentOf_eq_ok hhome
    obtain ⟨-, hchecks, hends, hwalks⟩ := meets_no_fault Between.joining.operand {} .unbounded
    obtain ⟨hcomponents, -, hnames⟩ := hchecks x hbetween
    obtain ⟨fuel, z, hz⟩ := exists_start_finished {} (Automaton.finite_occurs Between.joining)
    refine ⟨x, y, hbetween, hmem, hcomponents, hnames _ hmem, hold, hy, ?_, fuel, z, hz,
      (hends fuel z hz).1⟩
    refine (hwalks x y 2 0 _ hold hy).resolve_left fun hsame => ?_
    rw [hsame, hsize] at hgrown
    simp at hgrown
  · cases hgrown

end NestedWords.Computation
