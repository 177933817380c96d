import NestedWords.Reachable
import NestedWords.Text.Width

/-!
# Tables

Tables are drawn with bars and dashes. A column is as wide as its widest line, and a cell
of several lines makes its row as high as it needs. `sizeTable` counts what a result holds,
`downStateTable` lists its states with their stack tops.
-/
namespace NestedWords.Render

/-- A header and rows of cells. -/
structure Table where
  header : List String
  rows : List (List String)
  deriving DecidableEq, Repr

namespace Table

/-- The lines of a cell. -/
def cellLines (cell : String) : List String := cell.splitOn "\n"

/-- The width of the widest line in column `i`. -/
def columnWidth (t : Table) (i : Nat) : Nat :=
  ((t.header :: t.rows).flatMap fun row => (cellLines (row.getD i "")).map Text.width).foldl max 0

def widths (t : Table) : List Nat := (List.range t.header.length).map t.columnWidth

/-- One line of text: every cell padded to its column, between bars. -/
def line (widths : List Nat) (cells : List String) : String :=
  "|" ++ String.join ((widths.zip cells).map fun (w, c) => " " ++ Text.padRight w c ++ " |")

/-- The lines of a row; cells that have fewer lines than others go on empty. -/
def rowLines (widths : List Nat) (row : List String) : List String :=
  let cells := row.map cellLines
  let height := (cells.map List.length).foldl max 0
  (List.range height).map fun k => line widths (cells.map fun c => c.getD k "")

def separator (widths : List Nat) : String :=
  "|" ++ String.join (widths.map fun w => String.ofList (List.replicate (w + 2) '-') ++ "|")

/-- The table as text, without a line break at the end. -/
def render (t : Table) : String :=
  "\n".intercalate
    (rowLines t.widths t.header ++ [separator t.widths] ++ t.rows.flatMap (rowLines t.widths))

end Table

variable {S L : Type} [DecidableEq S] [Ord L] [Std.TransOrd L] [DecidableEq L]

/-- After `size_table`. -/
def sizeTable (r : Reachable S L) : Table where
  header := ["Measure", "Count"]
  rows :=
    let sizes := [
      ("States", r.size),
      ("Initial states", r.initialStates.length),
      ("Final states", r.finalStates.length),
      ("Internal transitions", r.numberOfInternalTransitions),
      ("Call transitions", r.numberOfCallTransitions),
      ("Return transitions", r.numberOfReturnTransitions),
      ("Double deckers", r.numberOfDoubleDeckers)]
    let liveness :=
      if r.deadEndsComputed then
        [("Live states", r.liveStates.length), ("Dead ends", r.deadEnds.length)]
      else []
    (sizes ++ liveness).map fun (measure, count) => [measure, toString count]

/-- The row of a state: its name, its stack tops in order of their text, and whether it is
live, if that is known. -/
def downStateRow (r : Reachable S L) (state : S → String) (s : S) : String × String × String :=
  let downs := ((r.downStates s).map (Down.display state)).mergeSort fun a b =>
    (compare a b).isLE
  let live := if r.deadEndsComputed then toString (r.isLive s) else "?"
  (state s, ", ".intercalate downs, live)

/-- After `down_state_table`: one row per state, in ascending order. -/
def downStateTable (r : Reachable S L) (state : S → String) : Table where
  header := ["State", "Down states", "Live"]
  rows :=
    let rows := (r.states.map (downStateRow r state)).mergeSort fun a b => (compare a b).isLE
    rows.map fun (name, downs, live) => [name, downs, live]

end NestedWords.Render
