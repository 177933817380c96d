import NestedWords.Proofs.Arena.Plain
import NestedWords.Liveness

/-!
# Liveness does not depend on the bookkeeping of returns

The backward computation reads names, components and transitions, and writes marks. So it does
on a plain arena what it does on the arena itself (`Liveness.compute_plain`).
-/

namespace NestedWords

variable {S L : Type} [Ord L] {a : Arena S L}

namespace Liveness

/-- The computation on the plain arena. -/
def plain (m : Liveness S L) : Liveness S L := { m with arena := m.arena.plain }

theorem mark_plain {hierarchical : Bool} (m : Liveness S L) (dd : DoubleDecker) :
    mark hierarchical m.plain dd = plain <$> mark hierarchical m dd := by
  unfold mark
  show (if m.live.contains dd = true then pure m.plain else _) = _
  split
  · rfl
  · show (m.arena.plain.updateNode _ _ >>= _) = _
    rw [Arena.updateNode_plain (f := ({ · with mark := .noDeadEnd })) fun _ => rfl,
      bind_map_left, map_bind]
    refine bind_congr fun b => ?_
    cases hierarchical <;> rfl

theorem seeds_plain : seeds a.plain = seeds a := by
  unfold seeds
  simp only [Arena.downsOf_plain]
  have hfinals : (a.plain.nodes.toList.zipIdx.filter (·.1.isFinal)).map (·.2) =
      (a.nodes.toList.zipIdx.filter (·.1.isFinal)).map (·.2) := by
    simp only [Arena.plain, Array.toList_map, List.zipIdx_map, List.filter_map, List.map_map]
    rfl
  have hmap : ∀ l : List (Node S L × Nat), (l.mapM fun p => do
      return (← a.downsOf p.2).toList.map (p.2, ·)) = (l.map (·.2)).mapM fun id => do
      return (← a.downsOf id).toList.map (id, ·) := by
    intro l
    rw [List.mapM_map]
    rfl
  exact congrArg (· >>= _) ((hmap _).trans ((congrArg _ hfinals).trans (hmap _).symm))

variable [Std.TransOrd L]

theorem internalPredecessors_plain {n : Node S L} {d : Down Nat} :
    internalPredecessors a.plain n.plain d = internalPredecessors a n d := by
  unfold internalPredecessors
  simp only [Arena.downsOf_plain]
  rfl

theorem callPredecessors_plain {n : Node S L} {d : Down Nat} :
    callPredecessors a.plain n.plain d = callPredecessors a n d := by
  cases d with
  | bottom => rfl
  | caller c =>
    unfold callPredecessors
    simp only [Arena.downsOf_plain]
    rfl

theorem returnPredecessors_plain {n : Node S L} {d : Down Nat} :
    returnPredecessors a.plain n.plain d = returnPredecessors a n d := by
  unfold returnPredecessors
  simp only [Arena.downsOf_plain]
  rfl

theorem visit_plain (m : Liveness S L) (dd : DoubleDecker) :
    visit m.plain dd = plain <$> visit m dd := by
  unfold visit
  show (m.arena.plain.node _ >>= _) = _
  rw [Arena.node_plain, bind_map_left, map_bind]
  refine bind_congr fun n => ?_
  show (internalPredecessors m.arena.plain n.plain _ >>= _) = _
  rw [internalPredecessors_plain, map_bind]
  refine bind_congr fun internal => ?_
  show (callPredecessors m.arena.plain n.plain _ >>= _) = _
  rw [callPredecessors_plain, map_bind]
  refine bind_congr fun call => ?_
  show (returnPredecessors m.arena.plain n.plain _ >>= _) = _
  rw [returnPredecessors_plain, map_bind]
  refine bind_congr fun returns => foldlM_hom (fun m p => ?_) _ m
  exact mark_plain m p.2

omit [Std.TransOrd L] in
theorem pop_plain (m : Liveness S L) : m.plain.pop = m.pop.map fun p => (p.1, p.2.plain) := by
  obtain ⟨b, live, backward, hierarchical⟩ := m
  cases backward <;> cases hierarchical <;> rfl

theorem saturate_plain (fuel : Nat) (m : Liveness S L) :
    saturate fuel m.plain = plain <$> saturate fuel m := by
  induction fuel generalizing m with
  | zero => rfl
  | succ fuel ih =>
    rw [saturate, saturate, pop_plain]
    cases m.pop with
    | none => rfl
    | some p =>
      obtain ⟨dd, m⟩ := p
      show (visit m.plain dd >>= _) = plain <$> (visit m dd >>= _)
      rw [visit_plain, bind_map_left, map_bind]
      exact bind_congr ih

theorem bound_plain : bound a.plain = bound a := by
  have hdowns : knownDowns a.plain = knownDowns a := by
    unfold knownDowns
    simp only [Arena.plain, Array.toList_map, List.flatMap_map]
    rfl
  rw [bound, hdowns, Arena.size_plain]
  rfl

/-- Dead ends are the same on the plain arena. -/
theorem compute_plain : compute a.plain = plain <$> compute a := by
  unfold compute
  rw [seeds_plain, bound_plain, map_bind]
  refine bind_congr fun l => ?_
  have hmarks : l.foldlM (mark false) (plain { arena := a }) =
      plain <$> l.foldlM (mark false) { arena := a } := foldlM_hom mark_plain l _
  rw [map_bind]
  refine (congrArg (· >>= _) hmarks).trans ?_
  rw [bind_map_left]
  exact bind_congr fun m => saturate_plain _ m

end Liveness

end NestedWords
