import NestedWords.Proofs.Exploration.Bookkeeping
import NestedWords.Proofs.Exploration.Migration
import NestedWords.Proofs.Liveness.Promotion

/-!
# No id points nowhere

States and components are known by their ids, and what is looked up by an id that is none is a
fault. Between two items all the ids that an arena holds, and all that the pending items name, are
those of states and components that there are (`inBounds_of_settled`, `names_of_settled`), and the
search for dead ends adds none (`Arena.InBounds.of_promoted`).

In the middle of an item a region is walked before it moves, by `Arena.region`, for which an id
that is none is a state without a component and has no successors. This hides no fault: whatever
the walk has come by is looked up again when the borders are refreshed, so a reconciliation that
meets no fault has walked among states only (`reconcile_walked`).
-/

namespace NestedWords

variable {S L : Type} [Ord L] [Std.TransOrd L]

/-! ## Between two items -/

/-- The ids that a node holds, apart from that of its component. -/
def Node.ids (n : Node S L) : List Nat :=
  (n.internalOut.toList ++ n.internalIn.toList ++ n.callOut.toList ++ n.callIn.toList).map (·.2) ++
    (n.returnOut.keys ++ n.returnIn.keys) ++
    (n.returnOut.toList ++ n.returnIn.toList).map (·.2.2) ++
    n.summaries.toList.flatMap (fun e => [e.2.1, e.2.2]) ++ n.examined.toList

/-- The ids that a component holds. -/
def Component.ids (c : Component) : List Nat :=
  c.entries.toList ++ c.downs.toList.filterMap Down.state? ++ c.members.toList ++
    c.candidates.toList ++ c.border.toList.flatMap (fun p => p.1 :: p.2.toList)

namespace Arena

/-- Every id in the arena is that of a state or a component. -/
structure InBounds (a : Arena S L) : Prop where
  home : ∀ n ∈ a.nodes, n.component < a.components.size
  nodes : ∀ n ∈ a.nodes, ∀ u ∈ n.ids, u < a.size
  components : ∀ c ∈ a.components, ∀ u ∈ c.ids, u < a.size
  entries : ∀ c ∈ a.components, ∀ e ∈ c.entries, e ∈ a.entries
  entryIds : ∀ e ∈ a.entries, e < a.size
  callers : ∀ e h : Nat, .caller h ∈ a.entryDowns e → h < a.size
  byEntries : ∀ (l : List Nat) (k : Nat), a.componentByEntries[l]? = some k → k < a.components.size
  ofEntry : ∀ e k : Nat, k ∈ a.componentsOfEntry.getD e ∅ → k < a.components.size

/-- The item names ids of states and components only. -/
def Names (a : Arena S L) : WorkItem → Prop
  | .explore u => u < a.size
  | .reconcile k t => k < a.components.size ∧ t < a.size
  | .examine u h => u < a.size ∧ h < a.size

/-- Without marks the arena has the same ids. -/
theorem InBounds.of_promoted {a b : Arena S L} (h : a.Promoted b) (ha : a.InBounds) :
    b.InBounds := by
  have hcomponents : b.components = a.components := congrArg (·.components) h.unmarked
  have hnodes : b.nodes.map Node.unmarked = a.nodes.map Node.unmarked :=
    congrArg (·.nodes) h.unmarked
  have hsize : b.size = a.size := by
    show b.nodes.size = a.nodes.size
    simpa using congrArg Array.size hnodes
  -- each node and each entry is one of the other arena, but for marks
  have hnode : ∀ n ∈ b.nodes, ∃ m ∈ a.nodes, n.component = m.component ∧ n.ids = m.ids := by
    intro n hn
    obtain ⟨m, hm, hsame⟩ := Array.mem_map.mp (hnodes ▸ Array.mem_map_of_mem hn)
    have hids : m.unmarked.ids = n.unmarked.ids := congrArg Node.ids hsame
    exact ⟨m, hm, congrArg (·.component) hsame.symm, hids.symm⟩
  have hentry : ∀ (e : Nat) (E : Entry), b.entries[e]? = some E →
      ∃ F : Entry, a.entries[e]? = some F ∧ ∀ d, d ∈ E ↔ d ∈ F := by
    intro e E hE
    have hmap : b.unmarked.entries[e]? = a.unmarked.entries[e]? := by rw [h.unmarked]
    have hread : ∀ c : Arena S L, c.unmarked.entries[e]? = (c.entries[e]?).map Entry.unmarked :=
      fun c => Std.ExtTreeMap.getElem?_map
    rw [hread, hread, hE] at hmap
    obtain ⟨F, hF, hsame⟩ := Option.map_eq_some_iff.mp hmap.symm
    refine ⟨F, hF, fun d => ?_⟩
    have hmem : d ∈ F.unmarked ↔ d ∈ E.unmarked := by rw [hsame]
    exact Std.ExtTreeMap.mem_map.symm.trans (hmem.symm.trans Std.ExtTreeMap.mem_map)
  have hmem : ∀ e, e ∈ b.entries ↔ e ∈ a.entries := by
    intro e
    have hread : ∀ c : Arena S L, e ∈ c.unmarked.entries ↔ e ∈ c.entries :=
      fun c => Std.ExtTreeMap.mem_map
    rw [← hread, h.unmarked, hread]
  refine ⟨fun n hn => ?_, fun n hn => ?_, ?_, ?_, fun e he => ?_, fun e p hp => ?_, ?_, ?_⟩
  · obtain ⟨m, hm, hhome, -⟩ := hnode n hn
    rw [hhome, hcomponents]
    exact ha.home m hm
  · obtain ⟨m, hm, -, hids⟩ := hnode n hn
    rw [hids, hsize]
    exact ha.nodes m hm
  · rw [hcomponents, hsize]
    exact ha.components
  · simp only [hcomponents, hmem]
    exact ha.entries
  · rw [hsize]
    exact ha.entryIds e ((hmem e).mp he)
  · obtain ⟨E, hE, hp⟩ := mem_entryDowns_iff_exists.mp hp
    obtain ⟨F, hF, hsame⟩ := hentry e E hE
    rw [hsize]
    exact ha.callers e p (mem_entryDowns_iff_exists.mpr ⟨F, hF, (hsame _).mp hp⟩)
  · have hindex : b.componentByEntries = a.componentByEntries :=
      congrArg (·.componentByEntries) h.unmarked
    rw [hindex, hcomponents]
    exact ha.byEntries
  · have hindex : b.componentsOfEntry = a.componentsOfEntry :=
      congrArg (·.componentsOfEntry) h.unmarked
    rw [hindex, hcomponents]
    exact ha.ofEntry

end Arena

section
variable [Std.LawfulEqOrd L] {op : Operand S L} {x : Snapshot S L} (hx : Settled op x)
include hx

open Arena

theorem ids_node_lt {n : Node S L} (hn : n ∈ x.arena.nodes) {v : Nat} (hv : v ∈ n.ids) :
    v < x.arena.size := by
  obtain ⟨u, hu⟩ := Array.mem_iff_getElem?.mp hn
  have hinternal : x.arena.internalOut u = n.internalOut := field_eq hu
  have hinternal' : x.arena.internalIn u = n.internalIn := field_eq hu
  have hcall : x.arena.callOut u = n.callOut := field_eq hu
  have hcall' : x.arena.callIn u = n.callIn := field_eq hu
  have hret : x.arena.returnOut u = n.returnOut := field_eq hu
  have hret' : x.arena.returnIn u = n.returnIn := field_eq hu
  have hsummaries : x.arena.summaries u = n.summaries := field_eq hu
  have hexamined : x.arena.examined u = n.examined := field_eq hu
  have hkeys : ∀ {p}, p ∈ n.returnOut.keys ↔ ∃ l t, (p, l, t) ∈ n.returnOut := fun {p} => by
    rw [Table.mem_keys_iff (hret ▸ (hx.linked.filled u).returnOut), Prod.exists]
  have hkeys' : ∀ {p}, p ∈ n.returnIn.keys ↔ ∃ l t, (p, l, t) ∈ n.returnIn := fun {p} => by
    rw [Table.mem_keys_iff (hret' ▸ (hx.linked.filled u).returnIn), Prod.exists]
  simp only [Node.ids, List.mem_append, List.mem_map, List.mem_flatMap, Std.ExtTreeSet.mem_toList,
    Table.mem_toList, Prod.exists, List.mem_cons, List.not_mem_nil, or_false, hkeys, hkeys'] at hv
  simp only [← hinternal, ← hinternal', ← hcall, ← hcall', ← hret, ← hret', ← hsummaries,
    ← hexamined] at hv
  -- a transition is noted at all its ends, so there is a node at each
  rcases hv with (((⟨l, t, ((he | he) | he) | he, rfl⟩ | ⟨l, t, he⟩ | ⟨l, t, he⟩) |
    ⟨h, l, t, he | he, rfl⟩) | ⟨l, p, t, he, rfl | rfl⟩) | he
  · exact lt_size_of_mem (hx.linked.internal.mp he)
  · exact lt_size_of_mem (hx.linked.internal.mpr he)
  · exact lt_size_of_mem (hx.linked.call.mp he)
  · exact lt_size_of_mem (hx.linked.call.mpr he)
  · exact lt_size_of_mem (hx.linked.summary.mp he)
  · exact lt_size_of_mem (hx.linked.summary.mp (hx.linked.ret.mpr he))
  · exact lt_size_of_mem (hx.linked.ret.mp he)
  · exact lt_size_of_mem (hx.linked.ret.mpr he)
  · exact lt_size_of_mem (hx.linked.summary.mpr he)
  · exact lt_size_of_mem (hx.linked.ret.mp (hx.linked.summary.mpr he))
  · obtain ⟨s, hs⟩ := hx.sound.caller_nameOf (hx.sound.examined he)
    exact lt_size_of_nameOf hs

theorem caller_lt {e p : Nat} (hp : .caller p ∈ x.arena.entryDowns e) : p < x.arena.size := by
  obtain ⟨l, hl⟩ := hx.sound.caller hp
  exact lt_size_of_mem hl

omit [Std.LawfulEqOrd L] in
theorem entry_lt {e : Nat} (he : e ∈ x.arena.entries) : e < x.arena.size :=
  (hx.homed he).lt_size

theorem ids_component_lt {c : Component} (hc : c ∈ x.arena.components) {v : Nat}
    (hv : v ∈ c.ids) : v < x.arena.size := by
  obtain ⟨k, hk⟩ := Array.mem_iff_getElem?.mp hc
  have hentries : x.arena.entriesIn k = c.entries := part_eq hk
  have hdowns : x.arena.downsIn k = c.downs := part_eq hk
  have hmembers : x.arena.membersIn k = c.members := part_eq hk
  have hcandidates : x.arena.candidatesIn k = c.candidates := part_eq hk
  have hborder : x.arena.borderIn k = c.border := part_eq hk
  simp only [Component.ids, List.mem_append, List.mem_flatMap, Std.ExtTreeSet.mem_toList,
    mem_callers, Prod.exists, List.mem_cons, ← hentries, ← hdowns, ← hmembers, ← hcandidates,
    ← hborder, Std.ExtTreeMap.mem_toList_iff_getElem?_eq_some] at hv
  rcases hv with (((he | hd) | hu) | hu) | ⟨u, F, hF, hv⟩
  · exact entry_lt hx (hx.wellFormed.isEntry he)
  · obtain ⟨e, -, hp⟩ := hx.wellFormed.mem_downs.mp hd
    exact caller_lt hx hp
  · exact lt_size_of_home (hx.wellFormed.mem_members.mp hu)
  · exact lt_size_of_home (hx.wellFormed.mem_candidates.mp hu).1
  · obtain ⟨hu, -, hmem⟩ := hx.bordered.getElem?_borderIn.mp hF
    rcases hv with rfl | hv
    · exact lt_size_of_home hu
    · exact (inRange hx.linked).successors (edge_chart.mp ((hmem v).mp hv).1)

/-- Between two items no id in the arena points nowhere. -/
theorem inBounds_of_settled : x.arena.InBounds where
  home n hn := by
    obtain ⟨u, hu⟩ := Array.mem_iff_getElem?.mp hn
    exact hx.wellFormed.home_lt (field_eq hu)
  nodes n hn v hv := ids_node_lt hx hn hv
  components c hc v hv := ids_component_lt hx hc hv
  entries c hc e he := by
    obtain ⟨k, hk⟩ := Array.mem_iff_getElem?.mp hc
    have hentries : x.arena.entriesIn k = c.entries := part_eq hk
    exact hx.wellFormed.isEntry (hentries ▸ he)
  entryIds e he := entry_lt hx he
  callers e p hp := caller_lt hx hp
  byEntries l k h := (hx.wellFormed.byEntries.mp h).1
  ofEntry e k h := lt_components_of_mem (hx.wellFormed.ofEntry.mp h)

omit [Std.LawfulEqOrd L] in
/-- Nor does an id that a pending item names. -/
theorem names_of_settled {item : WorkItem} (hitem : item ∈ x.items) : x.arena.Names item := by
  have hdue := hx.due hitem
  cases item with
  | explore u =>
    obtain ⟨s, hs⟩ := hdue
    exact lt_size_of_nameOf hs
  | reconcile k t =>
    obtain ⟨hk, ⟨s, hs⟩, -⟩ := hdue
    exact ⟨hk, lt_size_of_nameOf hs⟩
  | examine u p =>
    obtain ⟨hexplored, hd⟩ := hdue
    obtain ⟨s, hs⟩ := hx.sound.caller_nameOf hd
    exact ⟨lt_size_of_explored hexplored, lt_size_of_nameOf hs⟩

end

/-! ## In the middle of an item -/

namespace Arena

variable {a b : Arena S L} {u old new : Nat} {us : List Nat}

theorem foreignSuccessors_ensures :
    Ensures (a.foreignSuccessors u) fun _ => ∀ v ∈ a.successorsWithin u, v < a.size := by
  refine node_ensures.bind fun n hn F hF v hv => ?_
  have hsuccessors : a.successorsWithin u = n.successorsWithin := by simp [successorsWithin, hn]
  obtain ⟨foreign, hforeign, -⟩ := bind_eq_ok hF
  -- the test whether a successor is foreign looks up its component
  have htest := eq_ok_of_filterM hforeign v (hsuccessors ▸ hv)
  obtain ⟨k, hk, -⟩ := bind_eq_ok htest
  obtain ⟨m, hm, -⟩ := bind_eq_ok hk
  exact (Array.getElem?_eq_some_iff.mp (node_ensures m hm)).1

theorem refreshBorder_ensures : Ensures (a.refreshBorder u) fun b =>
    b.nodes = a.nodes ∧ ∀ v ∈ a.successorsWithin u, v < a.size :=
  ensures_bind fun _ => foreignSuccessors_ensures.bind fun _ hall =>
    updateComponent_nodes.mono fun _ hb => ⟨hb, hall⟩

theorem touched_ensures : Ensures (Exploration.touched a us) fun T => ∀ u ∈ us, u ∈ T := by
  unfold Exploration.touched
  refine (ensures_foldlM_all (I := fun _ : FinSet Nat => True)
    (D := fun (u : Nat) (T : FinSet Nat) => u ∈ T) (fun u T _ => ?_) trivial).mono
      fun T h => h.2.1
  refine ensures_bind fun n => ensures_ok ⟨trivial, ?_, fun v hv => ?_⟩
  · simp [Std.ExtTreeSet.mem_insertMany_list]
  · simp [Std.ExtTreeSet.mem_insertMany_list, hv]

/-- Borders can only be refreshed if all that the states lead to is there. -/
theorem refreshBorders_ensures : Ensures (Exploration.refreshBorders a old us) fun _ =>
    ∀ u ∈ us, ∀ v ∈ a.successorsWithin u, v < a.size := by
  unfold Exploration.refreshBorders
  have herased : Ensures (us.foldlM (fun a u =>
      a.updateComponent old fun c => { c with border := c.border.erase u }) a)
      fun b => b.nodes = a.nodes :=
    ensures_foldlM (I := fun b => b.nodes = a.nodes)
      (fun u b hb c hc => (updateComponent_nodes c hc).trans hb) rfl
  refine herased.bind fun b hb => touched_ensures.bind fun T hT => ?_
  refine (ensures_foldlM_all (I := fun c => c.nodes = a.nodes)
    (D := fun u _ => ∀ v ∈ a.successorsWithin u, v < a.size) (fun u c hc => ?_) hb).mono
      fun c h u hu => h.2.1 u (Std.ExtTreeSet.mem_toList.mpr (hT u hu))
  have hsize : c.size = a.size := congrArg Array.size hc
  rw [← successorsWithin_congr hc, ← hsize]
  exact refreshBorder_ensures.mono fun d hd => ⟨hd.1.trans hc, hd.2, fun _ => id⟩

theorem moveAll_ensures : Ensures (Exploration.moveAll a us new) fun b : Arena S L =>
    b.successorsWithin = a.successorsWithin ∧ b.size = a.size := by
  refine ensures_foldlM (I := fun b : Arena S L =>
    b.successorsWithin = a.successorsWithin ∧ b.size = a.size) (fun u b hb c hc => ?_) ⟨rfl, rfl⟩
  have hsize : c.size = b.size := by
    show c.nodes.size = b.nodes.size
    rw [move_nodes c hc]
    simp [modifyNode]
  exact ⟨(successorsWithin_of_move hc).trans hb.1, hsize.trans hb.2⟩

end Arena

open Arena

/-- A reconciliation that meets no fault, if it moves a region at all, has come by states only when
it walked that region. -/
theorem Exploration.reconcile_walked {x y : Exploration S L} {target old : Nat}
    {extra : FinSet Nat} (hold : x.arena.componentOf target = .ok old)
    (h : x.reconcile target extra = .ok y) :
    y = x ∨ ∀ u ∈ x.arena.region old target, ∀ v ∈ x.arena.successorsWithin u,
      v < x.arena.size := by
  unfold reconcile at h
  rw [bind_of_eq_ok hold] at h
  obtain ⟨C, -, h⟩ := bind_eq_ok h
  split at h
  · cases h
    exact .inl rfl
  · right
    have hnodes : (x.arena.componentFor (C.entries ∪ extra)).2.nodes = x.arena.nodes := by
      unfold componentFor
      split <;> rfl
    generalize x.arena.componentFor (C.entries ∪ extra) = found at h hnodes
    obtain ⟨new, b⟩ := found
    obtain ⟨N, -, h⟩ := bind_eq_ok h
    obtain ⟨-, -, h⟩ := bind_eq_ok h
    obtain ⟨-, -, h⟩ := bind_eq_ok h
    obtain ⟨moved, hmoved, h⟩ := bind_eq_ok h
    obtain ⟨refreshed, hrefreshed, -⟩ := bind_eq_ok h
    obtain ⟨hsuccessors, hsize⟩ := moveAll_ensures moved hmoved
    have hall : ∀ u ∈ b.region old target, ∀ v ∈ moved.successorsWithin u, v < moved.size :=
      refreshBorders_ensures refreshed hrefreshed
    have hsize' : b.size = x.arena.size := congrArg Array.size hnodes
    rwa [region_congr hnodes, hsuccessors, successorsWithin_congr hnodes, hsize, hsize'] at hall

end NestedWords
