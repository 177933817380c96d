import NestedWords.Decimal.Notation
import NestedWords.Text.Quoted

/-!
# Values that do not fit

A document may be well formed and still not be what is asked for. A `Mismatch` says what was
found and what was expected in its place.
-/
namespace NestedWords

/-- What was found. -/
inductive Found
  | null
  | boolean (b : Bool)
  | integer (n : Int)
  | floating (x : Float)
  | text (s : String)
  | sequence
  | map
  | unitVariant

/-- A value that is not what was expected. -/
inductive Mismatch
  | wrongType (found : Found) (expected : String)
  | wrongValue (found : Found) (expected : String)
  | wrongLength (found : Nat) (expected : String)
  | unknownField (name : String) (known : List String)
  | duplicateField (name : String)
  | unknownVariant (name : String) (known : List String)

/-- The description of a value; numbers with a fraction follow the given notation. -/
def Found.describe (decimals : Decimal.Notation) : Found → String
  | null => "null"
  | boolean b => "boolean `" ++ toString b ++ "`"
  | integer n => "integer `" ++ toString n ++ "`"
  | floating x => "floating point `" ++ decimals.render x ++ "`"
  | text s => "string " ++ Text.quoted s
  | sequence => "sequence"
  | map => "map"
  | unitVariant => "unit variant"

namespace Mismatch

/-- A name between grave accents. -/
def quotedName (name : String) : String := "`" ++ name ++ "`"

/-- The choice of names: two are joined by "or", more are listed. -/
def oneOf : List String → String
  | [a] => quotedName a
  | [a, b] => quotedName a ++ " or " ++ quotedName b
  | names => "one of " ++ ", ".intercalate (names.map quotedName)

def message (decimals : Decimal.Notation) : Mismatch → String
  | wrongType found expected =>
    "invalid type: " ++ found.describe decimals ++ ", expected " ++ expected
  | wrongValue found expected =>
    "invalid value: " ++ found.describe decimals ++ ", expected " ++ expected
  | wrongLength found expected =>
    "invalid length " ++ toString found ++ ", expected " ++ expected
  | unknownField name known => "unknown field " ++ quotedName name ++ ", expected " ++ oneOf known
  | duplicateField name => "duplicate field " ++ quotedName name
  | unknownVariant name known =>
    "unknown variant " ++ quotedName name ++ ", expected " ++ oneOf known

end Mismatch

end NestedWords
