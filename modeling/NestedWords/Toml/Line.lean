import NestedWords.Toml.Scalar
import NestedWords.Toml.Document

/-!
# Reading TOML: lines

A document is read line by line: headers, and keys with their values. Of an array only the
kind is kept, once it has been read, and of an inline table only until its line ends.
`read?` answers with the whole document, or with nothing if it is none.
-/
namespace NestedWords.Toml

/-! ## Values -/

/-- The elements of an array; a comma may follow the last. -/
def array (element : Reader Value) : Reader Value := do
  char '['
  let _ ← optional do
    let _ ← separated (do gap; let _ ← element; gap) ','
    optional (char ',')
  gap
  char ']'
  return .plain .sequence

/-- A path, an equals sign and a value. -/
def definition (value : Reader Value) : Reader (Path × Value) := do
  let p ← path
  char '='
  blanks
  return (p, ← value)

/-- A table on one line. -/
def inlineTable (value : Reader Value) : Reader Value := do
  char '\x7b'
  let defined ← optional (separated (do let d ← definition value; blanks; return d) ',')
  blanks
  char '\x7d'
  match (defined.getD []).foldlM (fun fields (p, v) => Value.define fields p v) [] with
  | none => failure
  | some fields => return .table fields

/-- A value whose arrays and tables nest at most `depth` deep. -/
def value : Nat → Reader Value
  | 0 => return .plain (← scalar)
  | depth + 1 => do
    match ← peek with
    | some '[' => array (value depth)
    | some '\x7b' => inlineTable (value depth)
    | _ => return .plain (← scalar)

/-! ## Lines -/

inductive Line
  | blank
  | table (p : Path)
  | element (p : Path)
  | definition (p : Path) (v : Found)

/-- A path in brackets, or in two of them. -/
def header : Reader Line := do
  char '['
  if (← peek) == some '[' then
    char '['
    let p ← path
    word [']', ']']
    return .element p
  else
    let p ← path
    char ']'
    return .table p

def line : Reader Line := do
  blanks
  let l ← match ← peek with
    | none | some '#' | some '\n' | some '\r' => pure .blank
    | some '[' => header
    | some _ => do
      let (p, v) ← definition (value (depthLimit - 1))
      pure (.definition p v.found)
  endOfLine
  return l

/-- The lines up to the end of the text. Each takes at least one character. -/
def lines : Nat → Reader (List Line)
  | 0 => return []
  | fuel + 1 => do
    if (← peek).isNone then return []
    let l ← line
    return l :: (← lines fuel)

/-- Adds a line to a document and the path of the table it has come to. -/
def addLine : Path × Document → Line → Option (Path × Document)
  | (base, d), .blank => some (base, d)
  | (_, d), .table p => (d.openTable p).map (p, ·)
  | (_, d), .element p => (d.openElement p).map (p, ·)
  | (base, d), .definition p v => (d.define base p v).map (base, ·)

/-- A mark of the byte order may stand before the first line. -/
def withoutByteOrder : List Char → List Char
  | '\ufeff' :: cs => cs
  | cs => cs

def read? (s : String) : Option Document := do
  let cs := withoutByteOrder s.toList
  let ls ← (lines cs.length).run' cs
  return (← ls.foldlM addLine ([], {})).2

end NestedWords.Toml
