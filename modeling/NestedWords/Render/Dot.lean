import NestedWords.Reachable

/-!
# Graph rendering

The reachable part as a directed graph in the DOT language: one node per state in the order
of discovery, then the edges of each state. Final states have a double circle, initial
states an arrow from an invisible node, calls are bold, returns are dashed and name their
hierarchical predecessor, and dead ends are grey. Names are written as they are.
-/
namespace NestedWords.Render

variable {S L : Type} [DecidableEq S] [Ord L] [Std.TransOrd L] [DecidableEq L]

/-- A name in double quotes. -/
def dotId (name : String) : String := "\"" ++ name ++ "\""

/-- After `initial_state_arrow_num`: the invisible node of the `i`-th initial state and its
arrow. -/
def dotInitial (i : Nat) (name : String) : String :=
  let node := "invis" ++ toString i
  node ++ " [label = \"\", shape = none, height = 0, width = 0]\n"
    ++ node ++ " -> " ++ dotId name ++ "\n"

def dotNode (r : Reachable S L) (state : S → String) (s : S) : String :=
  let shape := if r.isFinal s then "doublecircle" else "circle"
  let colour := if r.deadEndsComputed && !r.isLive s then ", color = grey, fontcolor = grey" else ""
  dotId (state s) ++ " [shape = " ++ shape ++ colour ++ "]"

/-- An edge with its label and further attributes. -/
def dotEdge (source target label attributes : String) : String :=
  dotId source ++ " -> " ++ dotId target ++ " [label = " ++ dotId label ++ attributes ++ "]"

/-- The edges of a state: internal ones, calls and returns. -/
def dotEdges (r : Reachable S L) (state : S → String) (letter : L → String) (s : S) :
    List String :=
  (r.internalSuccessors s).map (fun (a, t) => dotEdge (state s) (state t) (letter a) "")
    ++ (r.callSuccessors s).map
      (fun (a, t) => dotEdge (state s) (state t) (letter a) ", style = bold")
    ++ (r.returnSuccessors s).map
      fun (h, a, t) =>
        dotEdge (state s) (state t) (letter a ++ "/" ++ state h) ", style = dashed"

/-- After `reachable_states_dot`: the graph of a result; `state` and `letter` give the names. -/
def dot (r : Reachable S L) (state : S → String) (letter : L → String) : String :=
  let initial := r.initialStates.zipIdx.map fun (s, i) => dotInitial i (state s)
  "digraph reachable_states \x7b\n" ++ String.join initial
    ++ "\n".intercalate (r.states.map (dotNode r state)) ++ "\n"
    ++ "\n".intercalate (r.states.flatMap (dotEdges r state letter)) ++ "\n\x7d\n"

end NestedWords.Render
