import NestedWords.Json.Reader
import NestedWords.Basic

/-!
# Tagged values in JSON

A stack top, a mark or a kind of letter is written as the name of its case; a caller is an
object whose only field names the case and holds the state. A case that holds nothing may
also be written as a field with null.
-/
namespace NestedWords.Json

/-- A case of a type: a value of its own, or one that holds what a reader reads. -/
inductive Case (α : Type)
  | bare (a : α)
  | holding (r : Reader α)

/-- The case of a name. -/
def named {α : Type} (cases : List (String × Case α)) (name : String) : Reader (Case α) :=
  match cases.lookup name with
  | none => misfit (.unknownVariant name (cases.map (·.1)))
  | some c => return c

/-- A null that stands for nothing. -/
def nothing : Reader Unit := do
  if (← startValue) == 'n' then discard found else refuse "unit"

/-- The closing brace behind the only field of an object. -/
def endField : Reader Unit := do
  match ← peekPart with
  | none => fail (.endOf .object)
  | some '\x7d' => skip
  | some _ => fail .expectedValue

/-- A value of a type with the given cases. -/
def tagged {α : Type} (cases : List (String × Case α)) : Reader α := do
  match ← startValue with
  | '"' =>
    match ← named cases (← string) with
    | .bare a => return a
    | .holding _ => misfit (.wrongType .unitVariant "newtype variant")
  | '\x7b' =>
    skip
    let name ← if (← startValue) == '"' then string else refuse "variant identifier"
    let case ← named cases name
    colon
    let a ← match case with
      | .bare a => nothing *> pure a
      | .holding r => r
    endField
    return a
  | _ => fail .expectedValue

/-! ## The types with cases -/

/-- An integer of 64 bits with a sign. -/
def word64 : Reader Int := integer Int64.minValue.toInt Int64.maxValue.toInt "i64"

def mark : Reader Mark :=
  tagged [("Reachable", .bare .reachable), ("NoDeadEnd", .bare .noDeadEnd)]

def letterKind : Reader LetterKind :=
  tagged [("Internal", .bare .internal), ("Call", .bare .call), ("Return", .bare .ret)]

/-- A stack top, given how the calling state is read. -/
def down {S : Type} (state : Reader S) : Reader (Down S) :=
  tagged [("EmptyStack", .bare .bottom), ("State", .holding do return .caller (← state))]

end NestedWords.Json
