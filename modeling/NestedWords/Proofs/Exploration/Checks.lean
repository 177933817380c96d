import NestedWords.Proofs.Arena.Checks
import NestedWords.Proofs.Exploration.Run

/-!
# The checks of an exploration pass

Between two items an arena passes `Arena.checkComponents`, as it is well-formed. When no item is
left it also passes `Arena.checkFixpoint`: what that looks at is what the invariant says once
nothing is due (`Settled.checkFixpoint_eq_ok`).
-/

namespace NestedWords

open Arena

variable {S L : Type} [Ord L] [Std.TransOrd L]
  {op : Operand S L}

namespace Complete

variable {a : Arena S L} (ha : Complete op a)
include ha

/-- An entry of the source is one of whatever its edges lead to. -/
theorem subset_entries {u v k k' : Nat} (hedge : a.chart.Edge u v) (hu : a.home u = some k)
    (hv : a.home v = some k') : (a.entriesIn k).subset (a.entriesIn k') = true := by
  refine FinSet.subset_iff.mpr fun e he => ?_
  have hentry : a.HasEntry v e := ha.passed hedge ((hasEntry_of_home hu).mpr he)
  exact (hasEntry_of_home hv).mp hentry

theorem checkEntry_eq_ok {e : Nat} (he : e ∈ a.entries) : a.checkEntry e = .ok () := by
  have hhas : a.HasEntry e e := ha.homed he
  obtain ⟨k, C, hk, hC⟩ := ha.wellFormed.componentOf_eq hhas.lt_size
  obtain ⟨n, hn⟩ := exists_node hhas.lt_size
  have hmem := (hasEntry_of_home hk).mp hhas
  rw [entriesIn, part_eq hC] at hmem
  rw [home, field_eq hn] at hk
  cases hk
  rw [checkEntry, bind_of_eq_ok (node_eq_ok hn), bind_of_eq_ok (component_eq_ok hC)]
  exact ensure_eq_ok (Std.ExtTreeSet.contains_iff_mem.mpr hmem)

end Complete

variable [Std.LawfulEqOrd L]

namespace Settled

variable {x : Snapshot S L} (hx : Settled op x) (hitems : x.items = []) {k u : Nat}
include hx hitems

theorem checkBorder_eq_ok {C : Component} (hC : x.arena.components[k]? = some C) :
    x.arena.checkBorder k C = .ok () := by
  have hr : x.arena.InRange := inRange hx.linked
  have hborder : x.arena.borderIn k = C.border := part_eq hC
  have hentries : x.arena.entriesIn k = C.entries := part_eq hC
  rw [checkBorder, bind_of_eq_ok (hx.wellFormed.exactBorder_eq_ok hr hx.bordered hC),
    bind_of_eq_ok (ensure_eq_ok (beq_self_eq_true _))]
  refine forM_ok fun p hp => forM_ok fun v hv => ?_
  obtain ⟨u, F⟩ := p
  have hF : (x.arena.borderIn k)[u]? = some F :=
    hborder ▸ Std.ExtTreeMap.mem_toList_iff_getElem?_eq_some.mp hp
  obtain ⟨hk, -, hmem⟩ := hx.bordered.getElem?_borderIn.mp hF
  have hedge := ((hmem v).mp (Std.ExtTreeSet.mem_toList.mp hv)).1
  have hlt : v < x.arena.size := hr.successors (edge_chart.mp hedge)
  obtain ⟨k', D, hk', hD⟩ := hx.wellFormed.componentOf_eq hlt
  obtain ⟨s, hs⟩ := exists_nameOf (lt_size_of_home hk)
  obtain ⟨t, ht⟩ := exists_nameOf hlt
  have hsubset := (hx.complete hitems).subset_entries hedge hk hk'
  have hentries' : x.arena.entriesIn k' = D.entries := part_eq hD
  rw [hentries, hentries'] at hsubset
  rw [bind_of_eq_ok (componentOf_eq_ok hk'), bind_of_eq_ok (component_eq_ok hD),
    bind_of_eq_ok (name_eq_ok hs), bind_of_eq_ok (name_eq_ok ht)]
  exact ensure_eq_ok hsubset

omit [Std.LawfulEqOrd L] in
/-- The returns of an explored candidate are known under all its callers. -/
theorem examined_eq {n : Node S L} {D : FinSet (Down Nat)} (hn : x.arena.nodes[u]? = some n)
    (hc : n.candidate = true) (hexplored : n.explored = true)
    (hD : ∀ d, d ∈ D ↔ x.chart.HasDown u d) :
    n.examined = Std.ExtTreeSet.ofList (D.toList.filterMap Down.state?) := by
  have hexamined : x.chart.examined u = n.examined := field_eq hn
  refine Std.ExtTreeSet.ext_mem fun h => ?_
  rw [← hexamined, Std.ExtTreeSet.mem_ofList,
    List.contains_iff_mem, mem_callers, hD]
  constructor
  · exact fun hm => hx.sound.examined hm
  · intro hd
    rcases hx.awaited ((field_eq hn).trans hexplored) ((field_eq hn).trans hc) hd with hm | hm
    · exact hm
    · rw [hitems] at hm
      cases hm

theorem checkExplored_eq_ok {n : Node S L} (hn : x.arena.nodes[u]? = some n) :
    x.arena.checkExplored u n = .ok () := by
  have hlt : u < x.arena.size := (Array.getElem?_eq_some_iff.mp hn).1
  obtain ⟨k, hk⟩ := exists_home hlt
  have hD := downsOf_eq_ok hk (hx.wellFormed.home_lt hk)
  have hdown : ∀ d, d ∈ x.arena.downsIn k ↔ x.chart.HasDown u d := fun d => by
    rw [hx.wellFormed.hasDown_chart, hasDown_of_home hk]
  have hexplored : n.explored = true := by
    have h := hx.unexplored u
    have hname : x.chart.nameOf u = some n.name := field_eq hn
    have hflag : x.chart.explored u = n.explored := field_eq hn
    rw [hitems, hname, hflag] at h
    simpa using h
  have hout : x.chart.returnOut u = n.returnOut := field_eq hn
  have hreturns : n.returnOut.keys.forM (fun h => do
      ensure ((← x.arena.downsOf u).contains (.caller h)) .returnBelowOther) = .ok () := by
    refine forM_ok fun h hh => ?_
    -- a caller without returns would be checked too, but there is none
    rw [← hout, Table.mem_keys_iff (hx.linked.filled u).returnOut] at hh
    obtain ⟨⟨l, v⟩, hmem⟩ := hh
    rw [bind_of_eq_ok hD]
    exact ensure_eq_ok (Std.ExtTreeSet.contains_iff_mem.mpr ((hdown _).mpr (hx.sound.below hmem)))
  rw [checkExplored, bind_of_eq_ok (ensure_eq_ok hexplored)]
  split
  · next hc =>
    have hexamined := hx.examined_eq hitems hn hc hexplored hdown
    rw [bind_of_eq_ok hD, bind_of_eq_ok (ensure_eq_ok (beq_iff_eq.mpr hexamined))]
    exact hreturns
  · exact hreturns

/-- When no item is left the arena passes its check. -/
theorem checkFixpoint_eq_ok : x.arena.checkFixpoint = .ok () := by
  rw [checkFixpoint, bind_of_eq_ok hx.wellFormed.checkComponents_eq_ok,
    bind_of_eq_ok (forM_ok fun p hp => hx.checkBorder_eq_ok hitems (mem_indexedComponents.mp hp)),
    bind_of_eq_ok (forM_ok fun e he =>
      (hx.complete hitems).checkEntry_eq_ok (Std.ExtTreeMap.mem_keys.mp he))]
  exact forM_ok fun p hp => hx.checkExplored_eq_ok hitems (mem_indexedNodes.mp hp)

end Settled

end NestedWords
