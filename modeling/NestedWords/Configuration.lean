import NestedWords.Operand

/-!
# Runs of an operand

A configuration is a state with the stack of the states that made the pending calls, the
innermost first. An internal letter keeps the stack, a call pushes the state that makes it,
and a return pops the innermost caller, on which it depends. With no pending call there is
no return. A nested word is accepted if a run on it from an initial state ends in a final
one, whatever calls are still pending.
-/
namespace NestedWords

/-- A letter of a nested word. -/
inductive Symbol (L : Type)
  | internal (letter : L)
  | call (letter : L)
  | ret (letter : L)
  deriving DecidableEq, Repr

/-- What stands on top of a stack of callers. -/
def Down.ofStack {S : Type} : List S → Down S
  | [] => .bottom
  | s :: _ => .caller s

/-- A state and its pending calls. -/
structure Configuration (S : Type) where
  state : S
  stack : List S := []
  deriving DecidableEq, Repr

def Configuration.top {S : Type} (c : Configuration S) : Down S := Down.ofStack c.stack

namespace Operand

variable {S L : Type} [Ord L] [Std.TransOrd L]

/-- One letter of a run. -/
inductive Step (op : Operand S L) : Configuration S → Symbol L → Configuration S → Prop
  | internal {p q : S} {w : List S} {a : L} :
    a ∈ op.internalLetters p → q ∈ op.internalSuccessors p a →
    Step op ⟨p, w⟩ (.internal a) ⟨q, w⟩
  | call {p q : S} {w : List S} {a : L} :
    a ∈ op.callLetters p → q ∈ op.callSuccessors p a →
    Step op ⟨p, w⟩ (.call a) ⟨q, p :: w⟩
  | ret {p q h : S} {w : List S} {a : L} :
    a ∈ op.returnLetters p → q ∈ op.returnSuccessors p h a →
    Step op ⟨p, h :: w⟩ (.ret a) ⟨q, w⟩

/-- A run on a nested word. -/
inductive Run (op : Operand S L) : Configuration S → List (Symbol L) → Configuration S → Prop
  | nil (c : Configuration S) : Run op c [] c
  | cons {c d e : Configuration S} {x : Symbol L} {xs : List (Symbol L)} :
    Step op c x d → Run op d xs e → Run op c (x :: xs) e

/-- Some run leads from one configuration to the other. -/
def Leads (op : Operand S L) (c d : Configuration S) : Prop := ∃ xs, op.Run c xs d

/-- The configuration occurs on a run from an initial state. -/
def Occurs (op : Operand S L) (c : Configuration S) : Prop :=
  ∃ i ∈ op.initial, op.Leads ⟨i, []⟩ c

/-- Some run leads on to a final state. -/
def CanFinish (op : Operand S L) (c : Configuration S) : Prop :=
  ∃ d, op.Leads c d ∧ op.isFinal d.state = true

def Accepts (op : Operand S L) (xs : List (Symbol L)) : Prop :=
  ∃ i ∈ op.initial, ∃ c, op.Run ⟨i, []⟩ xs c ∧ op.isFinal c.state = true

variable {op : Operand S L}

theorem Run.append {c d e : Configuration S} {xs ys : List (Symbol L)}
    (h : op.Run c xs d) (h' : op.Run d ys e) : op.Run c (xs ++ ys) e := by
  induction h with
  | nil => exact h'
  | cons s _ ih => exact .cons s (ih h')

theorem Leads.refl (c : Configuration S) : op.Leads c c := ⟨[], .nil c⟩

theorem Leads.trans {c d e : Configuration S} : op.Leads c d → op.Leads d e → op.Leads c e
  | ⟨xs, h⟩, ⟨ys, h'⟩ => ⟨xs ++ ys, h.append h'⟩

theorem Step.leads {c d : Configuration S} {x : Symbol L} (h : op.Step c x d) : op.Leads c d :=
  ⟨[x], .cons h (.nil d)⟩

/-- What follows an occurring configuration occurs too. -/
theorem Occurs.leads {c d : Configuration S} : op.Occurs c → op.Leads c d → op.Occurs d
  | ⟨i, hi, h⟩, h' => ⟨i, hi, h.trans h'⟩

end Operand

end NestedWords
