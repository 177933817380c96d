/-!
# Work items

The exploration has three kinds of work. Reconciliations come before anything else, so
that no state is explored while its component is known to be too small; within each of
the two queues the oldest item comes first.
-/
namespace NestedWords

/-- One unit of work, on ids of states and components, after `WorkItem`. -/
inductive WorkItem
  /-- Ask for everything that leaves a new state. -/
  | explore (state : Nat)
  /-- Let the component of `target` have the entries of component `source`. -/
  | reconcile (source target : Nat)
  /-- Ask for the returns of `up` while `hier` is on top of the stack. -/
  | examine (up hier : Nat)
  deriving DecidableEq, Repr

/-- Two queues, oldest item first, after `Worklist`. -/
structure Worklist where
  reconciliations : List WorkItem := []
  others : List WorkItem := []
  deriving DecidableEq, Repr

namespace Worklist

def push (w : Worklist) : WorkItem → Worklist
  | item@(.reconcile ..) => { w with reconciliations := w.reconciliations ++ [item] }
  | item => { w with others := w.others ++ [item] }

/-- The next item and what is left. -/
def pop (w : Worklist) : Option (WorkItem × Worklist) :=
  match w.reconciliations, w.others with
  | item :: rest, _ => some (item, { w with reconciliations := rest })
  | [], item :: rest => some (item, { w with others := rest })
  | [], [] => none

/-- All pending items in the order in which they would be taken. -/
def items (w : Worklist) : List WorkItem := w.reconciliations ++ w.others

@[simp] theorem pop_eq_none {w : Worklist} : w.pop = none ↔ w.items = [] := by
  obtain ⟨r, o⟩ := w
  cases r <;> cases o <;> simp [pop, items]

theorem items_of_pop {w w' : Worklist} {item : WorkItem} (h : w.pop = some (item, w')) :
    w.items = item :: w'.items := by
  obtain ⟨r, o⟩ := w
  cases r <;> cases o <;> simp [pop] at h <;> obtain ⟨rfl, rfl⟩ := h <;> simp [items]

end Worklist

end NestedWords
