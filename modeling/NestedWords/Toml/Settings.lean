import NestedWords.Toml.Line
import NestedWords.Settings

/-!
# Settings as TOML documents

A document gives values to settings; those that it leaves out have their default. Its
fields are looked at in the order of appearance and the first problem is reported.
-/
namespace NestedWords.Toml

/-- Why settings could not be read. -/
inductive Problem
  | notToml
  | mismatch (m : Mismatch)

namespace Problem

/-- Numbers are always written out in places. -/
def decimals : Decimal.Notation where
  positional := none
  signedExponent := false
  tie := .up

def message : Problem → String
  | notToml => "not a TOML document"
  | mismatch m => m.message decimals

end Problem

def settingNames : List String :=
  ["compute_dead_ends", "self_check", "cross_validate_operand", "progress_interval"]

def asBoolean : Found → Except Mismatch Bool
  | .boolean b => .ok b
  | v => .error (.wrongType v "a boolean")

/-- A number without a sign. -/
def asCount : Found → Except Mismatch Nat
  | .integer n => if 0 ≤ n then .ok n.toNat else .error (.wrongValue (.integer n) "usize")
  | v => .error (.wrongType v "usize")

/-- Gives a value to the setting of a name. -/
def set (s : Settings) (name : String) (v : Found) : Except Mismatch Settings :=
  match name with
  | "compute_dead_ends" => return { s with computeDeadEnds := ← asBoolean v }
  | "self_check" => return { s with selfCheck := ← asBoolean v }
  | "cross_validate_operand" => return { s with crossValidate := ← asBoolean v }
  | "progress_interval" => return { s with progressInterval := ← asCount v }
  | _ => .error (.unknownField name settingNames)

/-- Reads settings from a document. -/
def readSettings (s : String) : Except Problem Settings :=
  match read? s with
  | none => .error .notToml
  | some d =>
    match d.fields.foldlM (fun s (name, v) => set s name v) {} with
    | .error m => .error (.mismatch m)
    | .ok settings => .ok settings

/-- A line that gives a value to a setting. -/
def writeSetting (name value : String) : String := name ++ " = " ++ value ++ "\n"

/-- Writes settings as a document that names all of them. -/
def writeSettings (s : Settings) : String :=
  writeSetting "compute_dead_ends" (toString s.computeDeadEnds)
    ++ writeSetting "self_check" (toString s.selfCheck)
    ++ writeSetting "cross_validate_operand" (toString s.crossValidate)
    ++ writeSetting "progress_interval" (toString s.progressInterval)

end NestedWords.Toml
