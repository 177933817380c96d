import NestedWords.Order

/-!
# Tables

A `Table` keeps tuples as a map from their first component to the row of what stands behind it: a
set, or a table again. Transitions are looked up in such maps. The operations work for any depth,
as a table is itself a `Row`; `row` and `keys` are the lookup and the keys of the outermost map.

Nothing keeps a map from having a key with an empty row. A table is `Filled` if it has none at any
depth, which is what the operations have to see to.
-/
namespace NestedWords

/-- What a table holds under one key: a set, or a table of further keys. -/
class Row (ρ : Type) (α : outParam Type) where
  empty : ρ
  insert : ρ → α → ρ
  toList : ρ → List α
  size : ρ → Nat
  /-- No map inside holds an empty row. -/
  Filled : ρ → Prop

/-- A set of elements, in ascending order. -/
instance {α : Type} [Ord α] [Std.TransOrd α] : Row (FinSet α) α where
  empty := ∅
  insert s x := s.insert x
  toList s := s.toList
  size s := s.size
  Filled _ := True

/-- Tuples as a map from their first component to the rest. -/
structure Table (κ ρ : Type) [Ord κ] where
  rows : FinMap κ ρ := ∅

namespace Table

variable {κ ρ α : Type} [Ord κ] [Std.TransOrd κ] [Row ρ α]

omit [Std.TransOrd κ] in
instance : EmptyCollection (Table κ ρ) := ⟨{}⟩

/-- What stands under a key, nothing if the key is absent. -/
def row (t : Table κ ρ) (k : κ) : ρ := t.rows.getD k Row.empty

def keys (t : Table κ ρ) : List κ := t.rows.keys

/-- Adds an element to the row of its key, which is made if there is none. -/
def insert (t : Table κ ρ) (e : κ × α) : Table κ ρ :=
  { rows := t.rows.insert e.1 (Row.insert (t.row e.1) e.2) }

/-- The elements row by row, each behind its key. -/
def toList (t : Table κ ρ) : List (κ × α) :=
  t.rows.toList.flatMap fun (k, r) => (Row.toList r).map (k, ·)

/-- The sizes of the rows together. -/
def size (t : Table κ ρ) : Nat := total (fun (_, r) => Row.size r) t.rows.toList

/-- A table is a row in turn. -/
instance : Row (Table κ ρ) (κ × α) where
  empty := ∅
  insert := insert
  toList := toList
  size := size
  Filled t := ∀ (k : κ) (r : ρ), t.rows[k]? = some r → r ≠ Row.empty ∧ Row.Filled r

/-- An element is in the row of its key. -/
instance [Membership α ρ] : Membership (κ × α) (Table κ ρ) := ⟨fun t e => e.2 ∈ t.row e.1⟩

end Table

end NestedWords
