import NestedWords.Order

/-!
# Letters, stack tops and reachability marks

A nested word tags each letter as internal, call or return. A run keeps a stack of the
states in which its pending calls were made; `Down` is what stands on top of that stack.
-/
namespace NestedWords

/-- How a letter acts on the stack, after `LetterKind`. -/
inductive LetterKind
  | internal
  | call
  | ret
  deriving DecidableEq, Repr

namespace LetterKind

/-- Internal letters come first and return letters last. -/
def rank : LetterKind → Nat
  | internal => 0
  | call => 1
  | ret => 2

instance : Ord LetterKind := ⟨fun a b => compare a.rank b.rank⟩

end LetterKind

/-- The top of the stack, after `DownState`: nothing, or the state that made the innermost pending
call. -/
inductive Down (S : Type)
  | bottom
  | caller (s : S)
  deriving DecidableEq, Repr

namespace Down

variable {S T : Type}

/-- After `as_state`: the calling state, if there is one. -/
def state? : Down S → Option S
  | bottom => none
  | caller s => some s

def map (f : S → T) : Down S → Down T
  | bottom => bottom
  | caller s => caller (f s)

/-- The empty stack is written as a bottom sign, a caller as itself. -/
def display (f : S → String) : Down S → String
  | bottom => "⊥"
  | caller s => f s

theorem state?_injective {a b : Down S} (h : a.state? = b.state?) : a = b := by
  cases a <;> cases b <;> simp_all [state?]

/-- The empty stack precedes every caller. -/
instance [Ord S] : Ord (Down S) := ⟨fun a b => compare a.state? b.state?⟩

instance [Ord S] [Std.TransOrd S] : Std.TransOrd (Down S) where
  eq_swap {a b} := Std.OrientedOrd.eq_swap (a := a.state?) (b := b.state?)
  isLE_trans {a b c} := Std.TransOrd.isLE_trans (a := a.state?) (b := b.state?) (c := c.state?)

instance [Ord S] [Std.LawfulEqOrd S] : Std.LawfulEqOrd (Down S) where
  compare_self {a} := Std.ReflOrd.compare_self (a := a.state?)
  eq_of_compare {a b} h :=
    state?_injective (Std.LawfulEqOrd.eq_of_compare (a := a.state?) (b := b.state?) h)

end Down

/-- What is known about a state or a pair of state and stack top, after `ReachProp`: it can be
reached, or it can be reached and also go on to a final state. -/
inductive Mark
  | reachable
  | noDeadEnd
  deriving DecidableEq, Repr

end NestedWords
