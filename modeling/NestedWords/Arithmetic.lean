import NestedWords.Operand

/-!
# Arithmetic operands

States are 64-bit words. Rules say by remainders when they apply and compute the next
state from the current ones, so a handful of rules describes a large or infinite
automaton. Successors come in the order of the rules, repetitions included.
-/
namespace NestedWords

/-- Holds of the words that leave the remainder when divided by the modulus. -/
structure Congruence where
  modulus : UInt64
  remainder : UInt64
  deriving DecidableEq, Repr

def Congruence.holds (c : Congruence) (s : UInt64) : Bool := s % c.modulus == c.remainder

/-- Reduces by a modulus; zero stands for no modulus. -/
def reduce (modulus s : UInt64) : UInt64 := if modulus == 0 then s else s % modulus

/-- An internal or call rule: from `s` with the guard to `factor * s + offset`. -/
structure StepRule where
  letter : String
  guard : Congruence
  factor : UInt64
  offset : UInt64
  modulus : UInt64
  deriving DecidableEq, Repr

/-- A return rule, guarded on both predecessors. -/
structure ReturnRule where
  letter : String
  linGuard : Congruence
  hierGuard : Congruence
  linFactor : UInt64
  hierFactor : UInt64
  offset : UInt64
  modulus : UInt64
  deriving DecidableEq, Repr

/-- An automaton given by arithmetic rules. -/
structure Arithmetic where
  initial : List UInt64 := []
  final : List Congruence := []
  internal : List StepRule := []
  call : List StepRule := []
  returns : List ReturnRule := []

namespace Arithmetic

def stepTargets (rules : List StepRule) (s : UInt64) (a : String) : List UInt64 :=
  (rules.filter fun r => r.letter == a && r.guard.holds s).map fun r =>
    reduce r.modulus (r.factor * s + r.offset)

def returnTargets (rules : List ReturnRule) (lin hier : UInt64) (a : String) : List UInt64 :=
  (rules.filter fun r => r.letter == a && r.linGuard.holds lin && r.hierGuard.holds hier).map
    fun r => reduce r.modulus (r.linFactor * lin + r.hierFactor * hier + r.offset)

def operand (m : Arithmetic) : Operand UInt64 String where
  initial := m.initial
  isFinal s := m.final.any (·.holds s)
  internalAlphabet := Std.ExtTreeSet.ofList (m.internal.map (·.letter))
  callAlphabet := Std.ExtTreeSet.ofList (m.call.map (·.letter))
  returnAlphabet := Std.ExtTreeSet.ofList (m.returns.map (·.letter))
  internalSuccessors := stepTargets m.internal
  callSuccessors := stepTargets m.call
  returnSuccessors := returnTargets m.returns

end Arithmetic

end NestedWords
