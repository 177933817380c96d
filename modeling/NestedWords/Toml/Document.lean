import NestedWords.Toml.Text
import NestedWords.Mismatch

/-!
# TOML documents

A document says what paths stand for: a value, a table or a list of tables. `define` gives
a value to a path, `openTable` and `openElement` follow a header; all three refuse what was
settled before. A path through a list of tables goes through the last of them.
-/
namespace NestedWords.Toml

/-- A value. The keys of an inline table are kept, because keys with dots that follow in the
table around it can add to them. -/
inductive Value
  | plain (v : Found)
  | table (fields : List (String × Value))

namespace Value

def found : Value → Found
  | plain v => v
  | table _ => .map

/-- Gives a value to a path of keys in an inline table. -/
def define : List (String × Value) → Path → Value → Option (List (String × Value))
  | _, [], _ => none
  | fields, [k], v => if (fields.lookup k).isSome then none else some (fields ++ [(k, v)])
  | fields, k :: p, v =>
    match fields.lookup k with
    | none => do return fields ++ [(k, .table (← define [] p v))]
    | some (.plain _) => none
    | some (.table inner) => do
      let inner ← define inner p v
      return fields.map fun (name, old) => (name, if name == k then .table inner else old)

end Value

/-- How a table came about. -/
inductive Origin
  /-- By a header of its own. -/
  | header
  /-- By the header of a table below it. -/
  | implied
  /-- By a key with dots. -/
  | dotted
  deriving DecidableEq, Repr

/-- What a path stands for. -/
inductive Entry
  | value (v : Found)
  | table (origin : Origin)
  | list

/-- What each path stands for, in the order of appearance. -/
structure Document where
  entries : List (Path × Entry) := []

namespace Document

def find? (d : Document) (p : Path) : Option Entry := d.entries.lookup p

def append (d : Document) (p : Path) (e : Entry) : Document := ⟨d.entries ++ [(p, e)]⟩

/-- Goes through the table at a path, which is made if there is none. Keys with dots do not
go through a table that has a header. -/
def enter (origin : Origin) (d : Document) (p : Path) : Option Document :=
  match d.find? p with
  | none => some (d.append p (.table origin))
  | some (.value _) => none
  | some (.table .header) => if origin = .dotted then none else some d
  | some _ => some d

/-- The paths between `base` and `base ++ p`, the shortest first. -/
def between (base p : Path) : List Path :=
  (List.range (p.length - 1)).map fun n => base ++ p.take (n + 1)

def hasDotted (d : Document) (p : Path) : Bool :=
  match d.find? p with
  | some (.table .dotted) => true
  | _ => false

/-- Gives a value to a path of keys in the table `base`. If there are several keys, dots
must have made the table that the last of them belongs to. -/
def define (d : Document) (base p : Path) (v : Found) : Option Document := do
  let tables := between base p
  let d ← tables.foldlM (enter .dotted) d
  if tables.getLast?.any fun t => !d.hasDotted t then none
  else if (d.find? (base ++ p)).isSome then none
  else d.append (base ++ p) (.value v)

/-- The header of a table. A table that headers below it have implied counts from here on
as appearing here. -/
def openTable (d : Document) (p : Path) : Option Document := do
  let d ← (between [] p).foldlM (enter .implied) d
  match d.find? p with
  | none => d.append p (.table .header)
  | some (.table .implied) =>
    append ⟨d.entries.filter fun e => e.1 != p⟩ p (.table .header)
  | some _ => none

/-- The header of another table in a list. What was said of the one before is settled. -/
def openElement (d : Document) (p : Path) : Option Document := do
  let d ← (between [] p).foldlM (enter .implied) d
  match d.find? p with
  | none => d.append p .list
  | some .list => some ⟨d.entries.filter fun e => e.1 == p || !p.isPrefixOf e.1⟩
  | some _ => none

/-- The keys of the document itself and what they stand for. -/
def fields (d : Document) : List (String × Found) :=
  d.entries.filterMap fun
    | ([k], .value v) => some (k, v)
    | ([k], .table _) => some (k, .map)
    | ([k], .list) => some (k, .sequence)
    | _ => none

end Document

end NestedWords.Toml
