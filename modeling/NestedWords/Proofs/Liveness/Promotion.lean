import NestedWords.Proofs.Arena.Inquiries
import NestedWords.Proofs.Liveness.Saturation

/-!
# What the search for dead ends changes

On whatever arena the search for dead ends is run, it writes marks and nothing else: without
them the arena is what it was (`Arena.unmarked`). And it writes one mark only, that of what is
live, so nothing that was live before ceases to be (`Liveness.compute_promoted`).
-/

namespace NestedWords

/-- A map that does not see a modification. -/
theorem FinMap.map_modify {α β γ : Type} [Ord α] [Std.TransOrd α] [Std.LawfulEqOrd α]
    {f : β → β} {g : β → γ} (h : ∀ v, g (f v) = g v) (m : FinMap α β) (k : α) :
    (m.modify k f).map (fun _ => g) = m.map fun _ => g := by
  refine Std.ExtTreeMap.ext_getElem? fun k' => ?_
  rw [Std.ExtTreeMap.getElem?_map, Std.ExtTreeMap.getElem?_map, Std.ExtTreeMap.getElem?_modify]
  split
  · next hk =>
    obtain rfl := Std.LawfulEqCmp.eq_of_compare hk
    rw [Option.map_map]
    exact congrArg (Option.map · _) (funext h)
  · rfl

variable {S L : Type} [Ord L]

/-! ## Arenas without marks -/

/-- The node with its mark forgotten. -/
def Node.unmarked (n : Node S L) : Node S L := { n with mark := .reachable }

/-- The stack tops of an entry with their marks forgotten. -/
def Entry.unmarked (e : Entry) : Entry := e.map fun _ _ => .reachable

theorem Entry.unmarked_promote (e : Entry) (d : Down Nat) : (e.promote d).unmarked = e.unmarked :=
  FinMap.map_modify (f := fun _ => Mark.noDeadEnd) (fun _ => rfl) e d

namespace Arena

/-- The arena with all marks forgotten. -/
def unmarked (a : Arena S L) : Arena S L :=
  { a with nodes := a.nodes.map Node.unmarked, entries := a.entries.map fun _ => Entry.unmarked }

/-- More is marked as live, and nothing else has changed. -/
structure Promoted (a b : Arena S L) : Prop where
  unmarked : b.unmarked = a.unmarked
  mark : ∀ {u}, a.mark u = .noDeadEnd → b.mark u = .noDeadEnd
  entryMark : ∀ {e d}, a.entryMark e d = some .noDeadEnd → b.entryMark e d = some .noDeadEnd

variable {a b c : Arena S L}

theorem Promoted.refl (a : Arena S L) : a.Promoted a := ⟨rfl, id, id⟩

theorem Promoted.trans (h : a.Promoted b) (h' : b.Promoted c) : a.Promoted c :=
  ⟨h'.unmarked.trans h.unmarked, fun hu => h'.mark (h.mark hu),
    fun hd => h'.entryMark (h.entryMark hd)⟩

/-- Stays promoted along a computation that only promotes. -/
theorem ensures_promoted_trans {m : Liveness S L} {r : Except (Fault S) (Liveness S L)}
    (h : a.Promoted m.arena) (hr : Ensures r fun m' => m.arena.Promoted m'.arena) :
    Ensures r fun m' => a.Promoted m'.arena :=
  hr.mono fun _ h' => h.trans h'

theorem promoted_modifyNode {u : Nat} (hu : u < a.size) :
    a.Promoted (a.modifyNode u ({ · with mark := .noDeadEnd })) where
  unmarked := by
    have hnodes : (a.nodes.modify u ({ · with mark := .noDeadEnd })).map Node.unmarked =
        a.nodes.map Node.unmarked := by
      refine Array.ext_getElem? fun i => ?_
      rw [Array.getElem?_map, Array.getElem?_map, Array.getElem?_modify]
      split
      · cases a.nodes[i]? <;> rfl
      · rfl
    simp only [Arena.unmarked, modifyNode, hnodes]
  mark {v} hv := by
    rw [Arena.mark, field_modifyNode (fun _ => Mark.noDeadEnd) (fun _ => rfl) hu]
    split
    · rfl
    · exact hv
  entryMark := id

theorem promoted_promote (a : Arena S L) (e : Nat) (d : Down Nat) :
    a.Promoted { a with entries := a.entries.modify e (Entry.promote · d) } where
  unmarked := by
    have hentries : (a.entries.modify e (Entry.promote · d)).map (fun _ => Entry.unmarked) =
        a.entries.map fun _ => Entry.unmarked :=
      FinMap.map_modify (fun E => E.unmarked_promote d) _ _
    simp only [Arena.unmarked, hentries]
  mark := id
  entryMark {e' d'} h := by
    rw [Liveness.entryMark_of_promoted rfl]
    split
    · next he => rw [← he.1, ← he.2, h]; rfl
    · exact h

end Arena

/-! ## The search -/

namespace Liveness

open Arena

theorem mark_promoted (hierarchical : Bool) (m : Liveness S L) (dd : DoubleDecker) :
    Ensures (mark hierarchical m dd) fun m' => m.arena.Promoted m'.arena := by
  unfold mark
  split
  · exact ensures_ok (.refl _)
  · refine updateNode_ensures.bind fun b hb => ?_
    obtain ⟨hlt, rfl⟩ := hb
    have hpromoted := (promoted_modifyNode hlt).trans (promoted_promote _ dd.1 dd.2)
    dsimp only
    split
    · exact ensures_ok hpromoted
    · exact ensures_ok hpromoted

variable [Std.TransOrd L]

theorem visit_promoted (m : Liveness S L) (dd : DoubleDecker) :
    Ensures (visit m dd) fun m' => m.arena.Promoted m'.arena := by
  unfold visit
  refine ensures_bind fun n => ensures_bind fun internal => ensures_bind fun call =>
    ensures_bind fun returns => ?_
  refine ensures_foldlM (I := fun m' : Liveness S L => m.arena.Promoted m'.arena)
    (fun p m' h => ?_) (.refl _)
  exact ensures_promoted_trans h (mark_promoted p.1 m' p.2)

omit [Std.TransOrd L] in
theorem arena_of_pop {m m' : Liveness S L} {dd : DoubleDecker} (h : m.pop = some (dd, m')) :
    m'.arena = m.arena := by
  unfold pop at h
  split at h <;> cases h <;> rfl

theorem saturate_promoted (fuel : Nat) (m : Liveness S L) :
    Ensures (saturate fuel m) fun m' => m.arena.Promoted m'.arena := by
  induction fuel generalizing m with
  | zero => exact ensures_ok (.refl _)
  | succ fuel ih =>
    unfold saturate
    split
    · exact ensures_ok (.refl _)
    · next dd m' hpop =>
      rw [← arena_of_pop hpop]
      exact (visit_promoted m' dd).bind fun m'' h => ensures_promoted_trans h (ih m'')

/-- The search marks more as live, and changes nothing else. -/
theorem compute_promoted (a : Arena S L) :
    Ensures (compute a) fun m => a.Promoted m.arena := by
  unfold compute
  refine ensures_bind fun found => ?_
  refine Ensures.bind (P := fun m => a.Promoted m.arena) ?_ fun m h =>
    ensures_promoted_trans h (saturate_promoted _ m)
  exact ensures_foldlM (fun dd m h => ensures_promoted_trans h (mark_promoted false m dd))
    (.refl _)

end Liveness

end NestedWords
