import Mathlib.Algebra.BigOperators.Group.List.Basic
import Mathlib.Algebra.GroupWithZero.Nat
import NestedWords.Proofs.Arena.Inquiries
import NestedWords.Proofs.Arena.Region

/-!
# Migration, state by state

A reconciliation moves a region that it has listed before (`Arena.region`). The same can be done
with a stack, one state at a time: a state is taken off, and if it is still in the old component
it moves, and its successors that are still there go on the stack (`Migration.step`). A state may
then be on the stack many times, once for each edge that leads to it, so neither the stack nor the
old component gets smaller with every step. What does is the length of the stack together with the
number of edges from states that have not moved (`Migration.left`), because a state moves but
once. So the migration ends, on any arena, after at most so many steps, and has moved just the
region, or has met the fault that is met when the region is moved (`Migration.ends`).
-/

namespace NestedWords

variable {S L : Type} [Ord L] [Std.TransOrd L]

/-! ## One state -/

namespace Arena

variable {a b : Arena S L} {u v old new : Nat}

omit [Std.TransOrd L] in
theorem move_nodes : Ensures (a.move u new) fun b =>
    b.nodes = (a.modifyNode u fun n => { n with component := new }).nodes := by
  unfold move
  refine ensures_bind fun n => updateNode_ensures.bind fun b hb => ?_
  refine updateComponent_nodes.bind fun c hc d hd => ?_
  rw [updateComponent_nodes d hd, hc, hb.2]

omit [Std.TransOrd L] in
/-- A state that has moved belongs to the old component no more, and nothing else has changed. -/
theorem residents_of_move (hne : old ≠ new) (h : a.move u new = .ok b) :
    b.residents old = (a.residents old).erase u := by
  have hnodes : b.nodes = _ := move_nodes b h
  have hsize : b.nodes.size = a.nodes.size := by rw [hnodes]; simp [modifyNode]
  have hkeeps : ∀ v, (b.nodes[v]?).any (·.component == old) =
      (v != u && (a.nodes[v]?).any (·.component == old)) := by
    intro v
    rw [hnodes]
    simp only [modifyNode, Array.getElem?_modify]
    by_cases hv : u = v
    · subst hv
      cases a.nodes[u]? <;> simp [hne.symm]
    · simp [hv, Ne.symm hv]
  have hnodup : (a.residents old).Nodup := List.nodup_range.filter _
  rw [List.Nodup.erase_eq_filter hnodup]
  unfold residents
  rw [List.filter_filter, size, hsize]
  exact List.filter_congr fun v _ => hkeeps v

theorem successorsWithin_of_move (h : a.move u new = .ok b) :
    b.successorsWithin = a.successorsWithin := by
  funext v
  unfold successorsWithin
  rw [move_nodes b h]
  simp only [modifyNode, Array.getElem?_modify]
  by_cases hv : u = v
  · subst hv
    cases a.nodes[u]? <;> simp [Node.successorsWithin]
  · simp [hv]

end Arena

/-! ## One after the other -/

/-- A migration between two of its steps. -/
structure Migration (S L : Type) [Ord L] where
  arena : Arena S L
  stack : List Nat
  moved : List Nat := []

namespace Migration

variable (old new : Nat)

/-- Takes a state off the stack. If it is in the old component it moves to the new one, and its
successors that are in the old one go on the stack. -/
def step (m : Migration S L) : Except (Fault S) (Migration S L) :=
  match m.stack with
  | [] => .ok m
  | u :: stack =>
    if u ∈ m.arena.residents old then do
      let arena ← m.arena.move u new
      let successors := (arena.successorsWithin u).filter (· ∈ arena.residents old)
      return { arena, stack := successors.reverse ++ stack, moved := m.moved ++ [u] }
    else .ok { m with stack }

/-- Takes so many steps. -/
def run : Nat → Migration S L → Except (Fault S) (Migration S L)
  | 0, m => .ok m
  | n + 1, m => do run n (← m.step old new)

/-- The states on the stack, and the edges from states that have not moved. -/
def left (m : Migration S L) : Nat :=
  m.stack.length + ((m.arena.residents old).map fun u => (m.arena.successorsWithin u).length).sum

/-- The states that are yet to move. -/
def rest (m : Migration S L) : List Nat :=
  depthFirst m.arena.successorsWithin (m.arena.residents old) m.stack

/-- What it comes to if the states that are yet to move do so. -/
def outcome (m : Migration S L) : Except (Fault S) (Migration S L) :=
  (fun b => { arena := b, stack := [], moved := m.moved ++ m.rest old }) <$>
    Exploration.moveAll m.arena (m.rest old) new

variable {old new} {m m' : Migration S L} {u : Nat} {stack : List Nat} {b : Arena S L}

/-- The migration after a state has moved. -/
def next (old : Nat) (m : Migration S L) (u : Nat) (stack : List Nat) (b : Arena S L) :
    Migration S L where
  arena := b
  stack := ((b.successorsWithin u).filter (· ∈ b.residents old)).reverse ++ stack
  moved := m.moved ++ [u]

theorem step_of_not_mem (hm : m.stack = u :: stack) (hu : u ∉ m.arena.residents old) :
    m.step old new = .ok { m with stack } := by
  rw [step, hm]
  exact if_neg hu

theorem step_of_mem (hm : m.stack = u :: stack) (hu : u ∈ m.arena.residents old) :
    m.step old new = m.next old u stack <$> m.arena.move u new := by
  rw [step, hm]
  refine (if_pos hu).trans ?_
  cases m.arena.move u new <;> rfl

theorem rest_of_not_mem (hm : m.stack = u :: stack) (hu : u ∉ m.arena.residents old) :
    m.rest old = rest old { m with stack } := by
  rw [rest, hm, depthFirst, if_neg hu]
  rfl

theorem rest_of_mem (hm : m.stack = u :: stack) (hu : u ∈ m.arena.residents old) :
    m.rest old = u :: depthFirst m.arena.successorsWithin ((m.arena.residents old).erase u)
      (((m.arena.successorsWithin u).filter (· ∈ (m.arena.residents old).erase u)).reverse
        ++ stack) := by
  rw [rest, hm, depthFirst, if_pos hu]

theorem rest_next (hne : old ≠ new) (hm : m.stack = u :: stack) (hu : u ∈ m.arena.residents old)
    (h : m.arena.move u new = .ok b) : m.rest old = u :: (m.next old u stack b).rest old := by
  rw [rest_of_mem hm hu, rest, next]
  simp only [Arena.residents_of_move hne h, Arena.successorsWithin_of_move h]

theorem left_next_lt (hne : old ≠ new) (hm : m.stack = u :: stack)
    (hu : u ∈ m.arena.residents old) (h : m.arena.move u new = .ok b) :
    (m.next old u stack b).left old < m.left old := by
  have hpushed : ((m.arena.successorsWithin u).filter
      (· ∈ (m.arena.residents old).erase u)).length ≤ (m.arena.successorsWithin u).length :=
    List.length_filter_le ..
  have hsum := List.sum_map_erase (fun v => (m.arena.successorsWithin v).length) hu
  simp only [left, next, hm, Arena.residents_of_move hne h, Arena.successorsWithin_of_move h,
    List.length_append, List.length_reverse, List.length_cons]
  omega

theorem outcome_of_nil (hm : m.stack = []) : m.outcome old new = .ok m := by
  have hrest : m.rest old = [] := by rw [rest, hm, depthFirst]
  rw [outcome, hrest, List.append_nil]
  show Except.ok { m with stack := [] } = _
  rw [← hm]

/-- To move the states that are left is to move the next one and then the others. -/
theorem outcome_of_mem (hne : old ≠ new) (hm : m.stack = u :: stack)
    (hu : u ∈ m.arena.residents old) : m.outcome old new =
      m.arena.move u new >>= fun b => (m.next old u stack b).outcome old new := by
  cases h : m.arena.move u new with
  | error e =>
    rw [outcome, rest_of_mem hm hu, Exploration.moveAll, List.foldlM_cons, h]
    rfl
  | ok b =>
    rw [outcome, rest_next hne hm hu h, Exploration.moveAll, List.foldlM_cons, h]
    show _ = (m.next old u stack b).outcome old new
    rw [outcome, next]
    simp only [List.append_assoc, List.cons_append, List.nil_append]
    rfl

theorem outcome_of_not_mem (hm : m.stack = u :: stack) (hu : u ∉ m.arena.residents old) :
    m.outcome old new = outcome old new { m with stack } := by
  rw [outcome, outcome, rest_of_not_mem hm hu]

/-- On any arena the migration ends within the steps that are left, with what it comes to. -/
theorem ends (hne : old ≠ new) (m : Migration S L) :
    ∃ n ≤ m.left old, run old new n m = m.outcome old new := by
  cases hm : m.stack with
  | nil => exact ⟨0, Nat.zero_le _, (outcome_of_nil hm).symm⟩
  | cons u stack =>
    by_cases hu : u ∈ m.arena.residents old
    · rw [outcome_of_mem hne hm hu]
      cases h : m.arena.move u new with
      | error e =>
        refine ⟨1, ?_, ?_⟩
        · rw [left, hm, List.length_cons]
          omega
        · rw [run, step_of_mem hm hu, h]
          rfl
      | ok b =>
        have hlt := left_next_lt hne hm hu h
        obtain ⟨n, hn, hrun⟩ := ends hne (m.next old u stack b)
        refine ⟨n + 1, by omega, ?_⟩
        rw [run, step_of_mem hm hu, h]
        exact hrun
    · have hlt : left old { m with stack } < m.left old := by
        simp only [left, hm, List.length_cons]
        omega
      obtain ⟨n, hn, hrun⟩ := ends hne { m with stack }
      refine ⟨n + 1, by omega, ?_⟩
      rw [run, step_of_not_mem hm hu, outcome_of_not_mem hm hu]
      exact hrun
termination_by m.left old

end Migration

/-- From a single state on, the migration moves its region, and follows each edge inside of the old
component at most once. -/
theorem Arena.migration_ends (a : Arena S L) {old new : Nat} (hne : old ≠ new) (target : Nat) :
    ∃ n ≤ 1 + ((a.residents old).map fun u => (a.successorsWithin u).length).sum,
      Migration.run old new n { arena := a, stack := [target] } =
        (fun b => { arena := b, stack := [], moved := a.region old target }) <$>
          Exploration.moveAll a (a.region old target) new :=
  Migration.ends hne { arena := a, stack := [target] }

end NestedWords
