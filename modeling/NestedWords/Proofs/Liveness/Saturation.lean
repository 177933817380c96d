import NestedWords.Proofs.Exploration.Run
import NestedWords.Proofs.Liveness.Predecessors
import Mathlib.Logic.Relation
import Mathlib.Data.List.ProdSigma
import Mathlib.Data.List.Perm.Subperm

/-!
# Marking backwards from the final states

`Liveness.compute` ends with exactly the double-deckers from which a final one can be
reached along `Chart.Precedes` (`compute_yields`).

Two invariants carry the loop. `Backed` says that whatever is marked can finish, that the
arena agrees with the marks, and that only marked double-deckers are queued; `Closed` says
that a marked double-decker that is no longer queued has all its predecessors marked. The
loop ends with an empty queue (`compute_saturates`), and the marks are then closed.

The fuel is enough because a double-decker is queued only once, when it is marked: a visit
takes one from the queue, and each mark adds one to the queue and to the marks. So fuel plus
marks exceeds queue plus `bound` all the way, and marks never exceed the bound.
-/

namespace NestedWords

variable {S L : Type} [Ord L] [Std.TransOrd L]
  {op : Operand S L} {a : Arena S L}

namespace Chart

variable {c : Chart S L}

/-- A final state can be reached from the double-decker. -/
def Finishes (c : Chart S L) (p : DoubleDecker) : Prop :=
  ∃ q, Relation.ReflTransGen c.Precedes p q ∧ c.isFinal q.1 = true ∧ c.HasDown q.1 q.2

theorem Finishes.of_precedes {p q : DoubleDecker} (h : c.Precedes p q) :
    c.Finishes q → c.Finishes p
  | ⟨r, hr, hf⟩ => ⟨r, .head h hr, hf⟩

/-- What precedes occurs. -/
theorem Precedes.hasDown (hl : c.Linked) (hs : c.Sound op) {p q : DoubleDecker}
    (h : c.Precedes p q) : c.HasDown p.1 p.2 := by
  cases h with
  | internal _ hd => exact hd
  | call _ hd => exact hd
  | ret hin _ => exact hs.below (hl.ret.mpr hin)
  | summary _ hd => exact hd

theorem Finishes.hasDown (hl : c.Linked) (hs : c.Sound op) {p : DoubleDecker} (h : c.Finishes p) :
    c.HasDown p.1 p.2 := by
  obtain ⟨q, hq, -, hd⟩ := h
  rcases Relation.ReflTransGen.cases_head hq with rfl | ⟨r, hr, -⟩
  · exact hd
  · exact hr.hasDown hl hs

end Chart

namespace Liveness

open Arena

variable {m m' : Liveness S L} {p q : DoubleDecker}

/-! ## The invariants -/

/-- What waits for a visit. -/
def queue (m : Liveness S L) : List DoubleDecker := m.backward ++ m.hierarchical

/-- Whatever is marked can finish. -/
structure Backed (a : Arena S L) (m : Liveness S L) : Prop where
  remarked : Remarked a m.arena
  mark_iff : ∀ {u}, m.arena.mark u = .noDeadEnd ↔ ∃ d, (u, d) ∈ m.live
  entryMark_iff : ∀ {e d}, m.arena.entryMark e d = some .noDeadEnd ↔
    d ∈ a.entryDowns e ∧ (e, d) ∈ m.live
  finishes : ∀ {p}, p ∈ m.live → a.chart.Finishes p
  queued : ∀ {p}, p ∈ m.queue → p ∈ m.live

/-- A marked double-decker is queued, or its predecessors are marked. -/
def Closed (a : Arena S L) (m : Liveness S L) : Prop :=
  ∀ {p}, p ∈ m.live → p ∈ m.queue ∨ ∀ q, a.chart.Precedes q p → q ∈ m.live

/-- Some double-deckers have been marked and queued, each once. -/
structure Marks (m m' : Liveness S L) : Prop where
  live : ∀ {p}, p ∈ m.live → p ∈ m'.live
  queue : ∀ {p}, p ∈ m.queue → p ∈ m'.queue
  fresh : ∀ {p}, p ∈ m'.live → p ∈ m.live ∨ p ∈ m'.queue
  balance : m'.live.size + m.queue.length = m.live.size + m'.queue.length

namespace Marks

omit [Std.TransOrd L] in
theorem refl (m : Liveness S L) : Marks m m := ⟨id, id, .inl, rfl⟩

omit [Std.TransOrd L] in
theorem trans {m'' : Liveness S L} (h : Marks m m') (h' : Marks m' m'') : Marks m m'' where
  live hp := h'.live (h.live hp)
  queue hp := h'.queue (h.queue hp)
  fresh hp := (h'.fresh hp).elim (fun hp => (h.fresh hp).imp_right h'.queue) .inr
  balance := by have := h.balance; have := h'.balance; omega

/-- Predecessors that are marked stay so. -/
theorem closed (h : Marks m m') (hc : Closed a m) : Closed a m' := by
  intro p hp
  rcases h.fresh hp with hp | hp
  · exact (hc hp).imp h.queue fun hall q hq => h.live (hall q hq)
  · exact .inl hp

end Marks

/-! ## One step -/

omit [Std.TransOrd L] in
/-- To promote a stack top of an entry changes its mark, if it has one, and no other. -/
theorem entryMark_of_promoted {b : Arena S L} {e e' : Nat} {d d' : Down Nat}
    (h : b.entries = a.entries.modify e (Entry.promote · d)) :
    b.entryMark e' d' = if e' = e ∧ d' = d then (a.entryMark e d).map fun _ => .noDeadEnd
      else a.entryMark e' d' := by
  simp only [entryMark, entryDowns, h, Std.ExtTreeMap.getD_modify, Std.compare_eq_iff_eq,
    eq_comm (a := e)]
  by_cases he : e' = e
  · subst he
    rw [if_pos rfl, Std.ExtTreeMap.getD_eq_getD_getElem?]
    cases a.entries[e']? with
    | none => simp
    | some E =>
      simp only [Option.map_some, Option.getD_some, Entry.promote, Std.ExtTreeMap.getElem?_modify,
        Std.compare_eq_iff_eq, true_and, eq_comm (a := d)]
  · rw [if_neg he, if_neg fun h => he h.1]

/-- `m'` is `m` with one more double-decker marked and queued. -/
structure Promotes (m : Liveness S L) (p : DoubleDecker) (m' : Liveness S L) : Prop where
  live : m'.live = m.live.insert p
  nodes : m'.arena.nodes = (m.arena.modifyNode p.1 ({ · with mark := .noDeadEnd })).nodes
  entries : m'.arena.entries = m.arena.entries.modify p.1 (Entry.promote · p.2)
  components : m'.arena.components = m.arena.components
  mem_queue : ∀ {q}, q ∈ m'.queue ↔ q ∈ m.queue ∨ q = p
  length_queue : m'.queue.length = m.queue.length + 1

omit [Std.TransOrd L] in
theorem mark_new {s : Bool} (hp : p ∉ m.live) (hlt : p.1 < m.arena.size) :
    Yields (mark s m p) (Promotes m p) := by
  unfold mark
  rw [if_neg (by rwa [Std.ExtTreeSet.contains_iff_mem]), updateNode_eq_ok hlt]
  refine ⟨_, rfl, ?_⟩
  dsimp only
  cases s with
  | true =>
    refine ⟨rfl, rfl, rfl, rfl, fun {q} => ?_, ?_⟩
    · simp [queue, or_assoc]
    · simp [queue, Nat.add_assoc]
  | false =>
    refine ⟨rfl, rfl, rfl, rfl, fun {q} => ?_, ?_⟩
    · simp only [queue, Bool.false_eq_true, if_false, List.mem_append, List.mem_singleton]
      tauto
    · simp only [queue, Bool.false_eq_true, if_false, List.length_append, List.length_singleton]
      omega

namespace Promotes

variable (h : Promotes m p m')
include h

omit [Std.TransOrd L] in
theorem mem_live : q ∈ m'.live ↔ q ∈ m.live ∨ q = p := by
  rw [h.live, Std.ExtTreeSet.mem_insert, Std.compare_eq_iff_eq, or_comm, eq_comm]

omit [Std.TransOrd L] in
theorem entryMark_eq {e : Nat} {d : Down Nat} : m'.arena.entryMark e d = if (e, d) = p then
    (m.arena.entryMark p.1 p.2).map fun _ => .noDeadEnd else m.arena.entryMark e d := by
  simp only [entryMark_of_promoted h.entries, Prod.ext_iff]

omit [Std.TransOrd L] in
/-- Only marks have changed. -/
theorem remarked (hm : Remarked a m.arena) : Remarked a m'.arena := by
  refine ⟨fun {α f d} hf u => ?_, fun {e d} => ?_, ?_⟩
  · rw [field_congr h.nodes, field_modifyNode_same (hf · _), hm.field hf]
  · rw [← hm.mem_entryDowns, mem_entryDowns_iff, mem_entryDowns_iff, h.entryMark_eq]
    split
    · next hp => subst hp; cases m.arena.entryMark e d <;> simp
    · exact Iff.rfl
  · rw [h.components, hm.components]

theorem backed (hm : Backed a m) (hlt : p.1 < m.arena.size) (hp : a.chart.Finishes p) :
    Backed a m' := by
  refine ⟨h.remarked hm.remarked, fun {u} => ?_, fun {e d} => ?_, fun {q} hq => ?_,
    fun {q} hq => ?_⟩
  · rw [Arena.mark, field_congr h.nodes,
      field_modifyNode (fun _ => Mark.noDeadEnd) (fun _ => rfl) hlt]
    simp only [h.mem_live]
    split
    · next hu => exact iff_of_true rfl ⟨p.2, .inr (by rw [hu])⟩
    · next hu =>
      refine hm.mark_iff.trans (exists_congr fun d => ⟨.inl, fun hd => hd.resolve_right ?_⟩)
      exact fun he => hu (congrArg Prod.fst he)
  · rw [h.entryMark_eq, h.mem_live]
    split
    · next hp =>
      subst hp
      rw [← hm.remarked.mem_entryDowns, mem_entryDowns_iff]
      cases m.arena.entryMark e d <;> simp
    · next hp => rw [hm.entryMark_iff, or_iff_left hp]
  · rcases h.mem_live.mp hq with hq | rfl
    · exact hm.finishes hq
    · exact hp
  · exact h.mem_live.mpr ((h.mem_queue.mp hq).imp_left hm.queued)

omit [Std.TransOrd L] in
theorem marks (hp : p ∉ m.live) : Marks m m' where
  live hq := h.mem_live.mpr (.inl hq)
  queue hq := h.mem_queue.mpr (.inl hq)
  fresh hq := (h.mem_live.mp hq).imp_right fun he => h.mem_queue.mpr (.inr he)
  balance := by
    have hsize : m'.live.size = m.live.size + 1 := by
      rw [h.live, Std.ExtTreeSet.size_insert, if_neg (by rwa [Std.ExtTreeSet.contains_iff_mem])]
    have := h.length_queue
    omega

end Promotes

section
variable (ha : Complete op a) (hm : Backed a m)
include ha hm

omit ha in
theorem lt_size_of_hasDown {u : Nat} {d : Down Nat} (h : a.chart.HasDown u d) :
    u < m.arena.size := by
  obtain ⟨e, he, -⟩ := h
  obtain ⟨s, hs⟩ := exists_nameOf (HasEntry.lt_size he)
  have hs' : m.arena.nameOf u = some s := (hm.remarked.field (fun _ _ => rfl) u).trans hs
  exact lt_size_of_nameOf hs'

theorem mark_yields {s : Bool} (hp : a.chart.Finishes p) :
    Yields (mark s m p) fun m' => Backed a m' ∧ Marks m m' ∧ p ∈ m'.live := by
  by_cases hlive : p ∈ m.live
  · refine ⟨m, ?_, hm, .refl m, hlive⟩
    unfold mark
    rw [if_pos (Std.ExtTreeSet.contains_iff_mem.mpr hlive)]
    rfl
  · have hlt := lt_size_of_hasDown hm (hp.hasDown ha.linked ha.sound)
    refine (mark_new hlive hlt).mono ?_
    intro m' h
    exact ⟨h.backed hm hlt hp, h.marks hlive, h.mem_live.mpr (.inr rfl)⟩

/-- A list of double-deckers that can finish is marked. -/
theorem foldlM_mark_yields {α : Type} {l : List α} {s : α → Bool} {f : α → DoubleDecker}
    (hall : ∀ x ∈ l, a.chart.Finishes (f x)) :
    Yields (l.foldlM (fun m x => mark (s x) m (f x)) m) fun m' =>
      Backed a m' ∧ Marks m m' ∧ ∀ x ∈ l, f x ∈ m'.live :=
  yields_foldlM (I := Backed a) (R := Marks) (D := fun x m => f x ∈ m.live) .refl Marks.trans
    (fun h h' => h'.live h) (fun x hx _ hm _ => mark_yields ha hm (hall x hx)) hm

variable [Std.LawfulEqOrd L]

theorem visit_yields (hp : p ∈ m.live) : Yields (m.visit p) fun m' =>
    Backed a m' ∧ Marks m m' ∧ ∀ q, a.chart.Precedes q p → q ∈ m'.live := by
  obtain ⟨v, d⟩ := p
  have hfinishes := hm.finishes hp
  obtain ⟨n, hn⟩ := exists_node
    (lt_size_of_hasDown hm (hfinishes.hasDown ha.linked ha.sound))
  obtain ⟨internal, call, returns, hi, hc, hr, hfound⟩ :=
    predecessors_yields (d := d) ha.wellFormed hm.remarked ha.linked hn
  unfold visit
  dsimp only
  rw [node_eq_ok hn]
  dsimp only [bind, Except.bind]
  rw [hi, hc, hr]
  dsimp only
  refine (foldlM_mark_yields (s := Prod.fst) (f := Prod.snd) ha hm ?_).mono ?_
  · intro h hq
    obtain ⟨s, q⟩ := h
    exact .of_precedes ((hfound q).mp ⟨s, hq⟩) hfinishes
  · intro m' h
    obtain ⟨hm', hmarks, hall⟩ := h
    refine ⟨hm', hmarks, fun q hq => ?_⟩
    obtain ⟨s, hs⟩ := (hfound q).mpr hq
    exact hall _ hs
end

/-! ## The loop -/

omit [Std.TransOrd L] in
theorem pop_eq_some (h : m.pop = some (p, m')) :
    m.queue = p :: m'.queue ∧ m'.arena = m.arena ∧ m'.live = m.live := by
  unfold pop at h
  split at h
  · next hb => cases h; exact ⟨by simp [queue, hb], rfl, rfl⟩
  · next hb hh => cases h; exact ⟨by simp [queue, hb, hh], rfl, rfl⟩
  · cases h

omit [Std.TransOrd L] in
theorem pop_eq_none (h : m.pop = none) : m.queue = [] := by
  unfold pop at h
  split at h
  · cases h
  · cases h
  · next hb hh => simp [queue, hb, hh]

section
variable (ha : Complete op a)
include ha

/-- What can finish consists of a state and a known stack top. -/
theorem finishes_bounded (hp : a.chart.Finishes p) :
    p ∈ List.range a.size ×ˢ knownDowns a := by
  obtain ⟨k, hk, hd⟩ := ha.wellFormed.hasDown_chart.mp (hp.hasDown ha.linked ha.sound)
  obtain ⟨c, hc⟩ := exists_component (ha.wellFormed.home_lt hk)
  rw [downsIn, part_eq hc] at hd
  refine List.mem_product.mpr ⟨List.mem_range.mpr (lt_size_of_home hk), ?_⟩
  refine List.mem_append_left _ (List.mem_flatMap.mpr ⟨c, ?_, Std.ExtTreeSet.mem_toList.mpr hd⟩)
  exact Array.mem_toList_iff.mpr (Array.mem_of_getElem? hc)

theorem size_live_le (hm : Backed a m) : m.live.size ≤ a.size * (knownDowns a).length := by
  have hsub : m.live.toList ⊆ List.range a.size ×ˢ knownDowns a := fun p hp =>
    finishes_bounded ha (hm.finishes (Std.ExtTreeSet.mem_toList.mp hp))
  have hle := (nodup_toList.subperm hsub).length_le
  rwa [Std.ExtTreeSet.length_toList, List.length_product, List.length_range] at hle

variable [Std.LawfulEqOrd L]

/-- With enough fuel the loop ends with an empty queue. -/
theorem saturate_yields {fuel : Nat} (hm : Backed a m) (hc : Closed a m)
    (hfuel : a.size * (knownDowns a).length + m.queue.length < fuel + m.live.size) :
    Yields (saturate fuel m) fun m' =>
      Backed a m' ∧ Closed a m' ∧ m'.queue = [] ∧ ∀ p ∈ m.live, p ∈ m'.live := by
  induction fuel generalizing m with
  | zero => have := size_live_le ha hm; omega
  | succ fuel ih =>
    rw [saturate]
    split
    · next hpop => exact yields_ok ⟨hm, hc, pop_eq_none hpop, fun _ => id⟩
    · next p z hpop =>
      obtain ⟨hqueue, harena, hlive⟩ := pop_eq_some hpop
      have hz : Backed a z :=
        { remarked := harena ▸ hm.remarked
          mark_iff := by rw [harena, hlive]; exact hm.mark_iff
          entryMark_iff := by rw [harena, hlive]; exact hm.entryMark_iff
          finishes := by rw [hlive]; exact hm.finishes
          queued := fun hq => by
            rw [hlive]
            exact hm.queued (by rw [hqueue]; exact .tail _ hq) }
      have hp : p ∈ z.live := by rw [hlive]; exact hm.queued (by rw [hqueue]; exact .head _)
      refine (visit_yields ha hz hp).bind fun y ⟨hy, hmarks, hall⟩ => ?_
      -- only the visited double-decker has left the queue
      have hclosed : Closed a y := by
        intro q hq
        rcases hmarks.fresh hq with hq | hq
        · rw [hlive] at hq
          rcases hc hq with hq | hq
          · rw [hqueue] at hq
            rcases List.mem_cons.mp hq with rfl | hq
            · exact .inr hall
            · exact .inl (hmarks.queue hq)
          · exact .inr fun r hr => hmarks.live (by rw [hlive]; exact hq r hr)
        · exact .inl hq
      have hbalance := hmarks.balance
      rw [hlive] at hbalance
      rw [hqueue, List.length_cons] at hfuel
      refine (ih hy hclosed (by omega)).mono fun y' ⟨hy', hc', hempty, hkeep⟩ => ?_
      exact ⟨hy', hc', hempty, fun q hq => hkeep q (hmarks.live (by rwa [hlive]))⟩

/-! ## The whole computation -/

omit [Std.LawfulEqOrd L] in
theorem seeds_yields : Yields (seeds a) fun l =>
    ∀ p, p ∈ l ↔ a.chart.isFinal p.1 = true ∧ a.chart.HasDown p.1 p.2 := by
  have hnode : ∀ {x : Node S L × Nat}, x ∈ a.nodes.toList.zipIdx ↔ a.nodes[x.2]? = some x.1 := by
    intro x
    rw [List.mem_zipIdx_iff_getElem?, Array.getElem?_toList]
  unfold seeds
  dsimp only
  rw [mapM_ok (g := fun x : Node S L × Nat => (a.downsIn x.1.component).toList.map (x.2, ·)) ?_]
  · refine yields_pure fun p => ?_
    simp only [List.mem_flatten, List.mem_map, List.mem_filter, hnode]
    constructor
    · intro h
      obtain ⟨-, ⟨⟨n, u⟩, ⟨hn, hf⟩, rfl⟩, hp⟩ := h
      obtain ⟨d, hd, rfl⟩ := List.mem_map.mp hp
      refine ⟨(field_eq hn).trans hf, ha.wellFormed.hasDown_chart.mpr ?_⟩
      refine ⟨n.component, field_eq hn, ?_⟩
      exact Std.ExtTreeSet.mem_toList.mp hd
    · intro h
      obtain ⟨hf, hd⟩ := h
      obtain ⟨k, hk, hd⟩ := ha.wellFormed.hasDown_chart.mp hd
      obtain ⟨n, hn⟩ := exists_node (lt_size_of_home hk)
      have hk' : n.component = k := by rw [home, field_eq hn] at hk; exact Option.some.inj hk
      have hf' : n.isFinal = true := (field_eq (f := (·.isFinal)) hn).symm.trans hf
      refine ⟨_, ⟨(n, p.1), ⟨hn, hf'⟩, rfl⟩, List.mem_map.mpr ⟨p.2, ?_, rfl⟩⟩
      rw [hk']
      exact Std.ExtTreeSet.mem_toList.mpr hd
  · intro h hx
    obtain ⟨n, u⟩ := h
    have hn := hnode.mp (List.mem_filter.mp hx).1
    have hk : a.home u = some n.component := field_eq hn
    show (do return (← a.downsOf u).toList.map (u, ·)) = _
    rw [downsOf_eq_ok hk (ha.wellFormed.home_lt hk)]
    rfl

/-- The loop ends with nothing left to visit, and has marked the final states. -/
theorem compute_saturates : Yields (compute a) fun m => Backed a m ∧ Closed a m ∧ m.queue = [] ∧
    ∀ {p}, a.chart.isFinal p.1 = true → a.chart.HasDown p.1 p.2 → p ∈ m.live := by
  obtain ⟨l, hl, hseeds⟩ := seeds_yields ha
  have hstart : Backed a { arena := a } :=
    { remarked := .refl a
      mark_iff := fun {u} => by
        refine iff_of_false ?_ ?_
        · intro h
          cases (ha.unmarked u).symm.trans h
        · intro h
          obtain ⟨d, hd⟩ := h
          exact absurd hd Std.ExtTreeSet.not_mem_empty
      entryMark_iff := by
        refine iff_of_false (fun h => ?_) fun h => absurd h.2 Std.ExtTreeSet.not_mem_empty
        cases ha.wellFormed.entryMark h
      finishes := fun hp => absurd hp Std.ExtTreeSet.not_mem_empty
      queued := fun hp => by cases hp }
  have hfinal : ∀ p ∈ l, a.chart.Finishes p := fun p hp => ⟨p, .refl, (hseeds p).mp hp⟩
  unfold compute
  rw [hl]
  refine (foldlM_mark_yields (s := fun _ => false) (f := id) ha hstart hfinal).bind ?_
  intro m h
  obtain ⟨hm, hmarks, hall⟩ := h
  have hclosed : Closed a m := hmarks.closed fun hp => absurd hp Std.ExtTreeSet.not_mem_empty
  have hbalance : m.live.size = m.queue.length := by
    have := hmarks.balance
    simpa [queue] using this
  refine (saturate_yields ha hm hclosed (by unfold bound; omega)).mono ?_
  intro m' h
  obtain ⟨hm', hclosed', hempty, hkeep⟩ := h
  exact ⟨hm', hclosed', hempty, fun hf hd => hkeep _ (hall _ ((hseeds _).mpr ⟨hf, hd⟩))⟩

/-- The marked double-deckers are those that can finish, and the arena says so. -/
theorem compute_yields : Yields (compute a) fun m => Remarked a m.arena ∧
    (∀ {u}, m.arena.mark u = .noDeadEnd ↔ ∃ d, (u, d) ∈ m.live) ∧
    (∀ {e d}, m.arena.entryMark e d = some .noDeadEnd ↔ d ∈ a.entryDowns e ∧ (e, d) ∈ m.live) ∧
    ∀ {p}, p ∈ m.live ↔ a.chart.Finishes p := by
  refine (compute_saturates ha).mono fun m h => ?_
  obtain ⟨hm, hclosed, hempty, hfinal⟩ := h
  refine ⟨hm.remarked, hm.mark_iff, hm.entryMark_iff, fun {p} => ⟨hm.finishes, ?_⟩⟩
  intro h
  obtain ⟨q, hq, hf⟩ := h
  induction hq using Relation.ReflTransGen.head_induction_on with
  | refl => exact hfinal hf.1 hf.2
  | head h _ ih =>
    rcases hclosed ih with hqueued | hpre
    · rw [hempty] at hqueued
      cases hqueued
    · exact hpre _ h
end

end Liveness

end NestedWords
