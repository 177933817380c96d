import NestedWords.Arena.Consistency

/-!
# Liveness

A double-decker is a state together with a stack top under which it occurs; it is live if
a final state can still be reached from it. `Liveness.compute` finds the live
double-deckers backwards from the final states. The predecessors of a live `(v, d)` are

* `(p, d)` for an internal transition from `p` to `v`, if `d` is a stack top of `p`,
* `(p, d')` for every stack top `d'` of `p`, for a call from `p` to `v` with `d` being `p`,
* `(l, h)` for a return from `l` under `h` to `v`, if `d` is a stack top of `h`,
* `(h, d)` for that same return, through its summary.

Those of the last kind wait in a queue of their own until the others are done.
-/
namespace NestedWords

/-- A state id and a stack top. -/
abbrev DoubleDecker : Type := Nat × Down Nat

instance transOrdDoubleDecker : Std.TransOrd DoubleDecker := inferInstance

/-- The state of the backward computation, after `DeadEndComputation`. -/
structure Liveness (S L : Type) [Ord L] where
  arena : Arena S L
  live : FinSet DoubleDecker := ∅
  backward : List DoubleDecker := []
  hierarchical : List DoubleDecker := []

namespace Entry

/-- Notes that a final state can be reached from the entry under the stack top. -/
def promote (e : Entry) (down : Down Nat) : Entry := e.modify down fun _ => .noDeadEnd

end Entry

namespace Liveness

variable {S L : Type} [Ord L] [Std.TransOrd L]

/-- After `mark`: marks a double-decker as live and queues it, unless it is marked already. -/
def mark (hierarchical : Bool) (m : Liveness S L) (dd : DoubleDecker) :
    Except (Fault S) (Liveness S L) := do
  if m.live.contains dd then return m
  let arena ← m.arena.updateNode dd.1 ({ · with mark := .noDeadEnd })
  let arena := { arena with entries := arena.entries.modify dd.1 (Entry.promote · dd.2) }
  let m := { m with arena, live := m.live.insert dd }
  return if hierarchical then { m with hierarchical := m.hierarchical ++ [dd] }
    else { m with backward := m.backward ++ [dd] }

/-- The final states under all their stack tops. -/
def seeds (a : Arena S L) : Except (Fault S) (List DoubleDecker) := do
  let finals := a.nodes.toList.zipIdx.filter (·.1.isFinal)
  let found ← finals.mapM fun (_, id) => return (← a.downsOf id).toList.map (id, ·)
  return found.flatten

/-- Predecessors by an internal transition. -/
def internalPredecessors (a : Arena S L) (n : Node S L) (down : Down Nat) :
    Except (Fault S) (List DoubleDecker) := do
  let preds ← (n.internalIn.toList.map (·.2)).filterM fun p =>
    return (← a.downsOf p).contains down
  return preds.map (·, down)

/-- Predecessors by a call: the caller on top of the stack, in all its contexts. -/
def callPredecessors (a : Arena S L) (n : Node S L) :
    Down Nat → Except (Fault S) (List DoubleDecker)
  | .bottom => .ok []
  | .caller c =>
    if n.callIn.toList.any (·.2 == c) then do
      return (← a.downsOf c).toList.map (c, ·)
    else .ok []

/-- Predecessors by a return: the linear ones, and the hierarchical one by its summary.
Each comes with a flag for the latter. -/
def returnPredecessors (a : Arena S L) (n : Node S L) (down : Down Nat) :
    Except (Fault S) (List (Bool × DoubleDecker)) := do
  let hiers ← n.returnsInByHier.filterM fun (h, _) => return (← a.downsOf h).contains down
  return hiers.flatMap fun (h, lins) =>
    lins.map (fun (_, lin) => (false, (lin, .caller h))) ++ [(true, (h, down))]

/-- After `visit_predecessors`: marks everything that comes before a live double-decker. -/
def visit (m : Liveness S L) (dd : DoubleDecker) : Except (Fault S) (Liveness S L) := do
  let (up, down) := dd
  let n ← m.arena.node up
  let internal ← internalPredecessors m.arena n down
  let call ← callPredecessors m.arena n down
  let returns ← returnPredecessors m.arena n down
  let found := (internal ++ call).map (false, ·) ++ returns
  found.foldlM (fun m (hierarchical, dd) => mark hierarchical m dd) m

/-- The next double-decker to visit; summaries come last. -/
def pop (m : Liveness S L) : Option (DoubleDecker × Liveness S L) :=
  match m.backward, m.hierarchical with
  | dd :: rest, _ => some (dd, { m with backward := rest })
  | [], dd :: rest => some (dd, { m with hierarchical := rest })
  | [], [] => none

/-- Visits double-deckers until none is left, at most `fuel` of them. -/
def saturate : Nat → Liveness S L → Except (Fault S) (Liveness S L)
  | 0, m => .ok m
  | fuel + 1, m =>
    match m.pop with
    | none => .ok m
    | some (dd, m) => do saturate fuel (← m.visit dd)

/-- The stack tops that occur in components or as hierarchical predecessors, with
repetitions. -/
def knownDowns (a : Arena S L) : List (Down Nat) :=
  a.components.toList.flatMap (·.downs.toList)
    ++ a.nodes.toList.flatMap fun n => n.returnIn.toList.map (.caller ·.1)

/-- Bounds the number of double-deckers that can ever be marked. -/
def bound (a : Arena S L) : Nat := a.size * (knownDowns a).length + 1

/-- After `run`: finds the live double-deckers, and notes in the arena which states and which stack
tops of entries are live. The loop there ends by itself, here the bound is never reached. -/
def compute (a : Arena S L) : Except (Fault S) (Liveness S L) := do
  let m ← (← seeds a).foldlM (mark false) { arena := a }
  saturate (bound a) m

end Liveness

end NestedWords
