import NestedWords.Proofs.Arena.Moves
import Mathlib.Data.List.Nodup

/-!
# The checks of an arena pass

`Arena.checkComponents` looks at what `WellFormed` says, so it passes on every well-formed arena
(`checkComponents_eq_ok`). That each state has one component makes the sizes of the components
add up to the number of states (`total_members`). `Arena.exactBorder` computes the border of a
component afresh, and so agrees with one that is right for the edges (`exactBorder_eq_ok`).
-/

namespace NestedWords

namespace Arena

variable {S L : Type} [Ord L] {a : Arena S L} {k : Nat} {C : Component}

theorem mem_indexedComponents : (k, C) ∈ a.indexedComponents ↔ a.components[k]? = some C := by
  unfold indexedComponents
  rw [List.mem_map]
  constructor
  · intro h
    obtain ⟨⟨D, i⟩, hmem, he⟩ := h
    cases he
    simpa using List.mem_zipIdx_iff_getElem?.mp hmem
  · intro h
    exact ⟨(C, k), List.mem_zipIdx_iff_getElem?.mpr (by simpa using h), rfl⟩

theorem mem_indexedNodes {u : Nat} {n : Node S L} :
    (n, u) ∈ a.nodes.toList.zipIdx ↔ a.nodes[u]? = some n := by
  rw [List.mem_zipIdx_iff_getElem?]
  simp

namespace WellFormed

variable (ha : a.WellFormed)
include ha

/-- Every state is a member of one component, so together they have as many members. -/
theorem total_members : total (·.members.size) a.components.toList = a.size := by
  have hget : ∀ {i : Nat} (hi : i < a.components.toList.length),
      a.components[i]? = some a.components.toList[i] := fun hi => by simp
  have hnodup : (a.components.toList.flatMap (·.members.toList)).Nodup := by
    refine List.nodup_flatMap.mpr ⟨fun C _ => nodup_toList, List.pairwise_iff_getElem.mpr ?_⟩
    intro i j hi hj hij u hui huj
    have hui' := (ha.mem_members_iff (hget hi)).mp (Std.ExtTreeSet.mem_toList.mp hui)
    have huj' := (ha.mem_members_iff (hget hj)).mp (Std.ExtTreeSet.mem_toList.mp huj)
    exact absurd (Option.some.inj (hui'.symm.trans huj')) (Nat.ne_of_lt hij)
  have hmem : ∀ u, u ∈ a.components.toList.flatMap (·.members.toList) ↔ u ∈ List.range a.size := by
    intro u
    rw [List.mem_flatMap, List.mem_range]
    constructor
    · intro h
      obtain ⟨C, hC, hu⟩ := h
      obtain ⟨i, hi, rfl⟩ := List.mem_iff_getElem.mp hC
      exact lt_size_of_home ((ha.mem_members_iff (hget hi)).mp (Std.ExtTreeSet.mem_toList.mp hu))
    · intro hu
      obtain ⟨k, C, hk, hC⟩ := ha.componentOf_eq hu
      exact ⟨C, Array.mem_toList_iff.mpr (Array.mem_of_getElem? hC),
        Std.ExtTreeSet.mem_toList.mpr ((ha.mem_members_iff hC).mpr hk)⟩
  have hperm := (List.perm_ext_iff_of_nodup hnodup List.nodup_range).mpr hmem
  rw [total_eq_length_flatMap (·.members.toList) fun _ _ => Std.ExtTreeSet.length_toList.symm,
    hperm.length_eq, List.length_range]

/-! ## Between two steps -/

theorem checkMembers_eq_ok (hC : a.components[k]? = some C) : a.checkMembers k C = .ok () := by
  unfold checkMembers
  refine forM_ok fun u hu => ?_
  have hk := (ha.mem_members_iff hC).mp (Std.ExtTreeSet.mem_toList.mp hu)
  obtain ⟨n, hn⟩ := exists_node (lt_size_of_home hk)
  rw [home, field_eq hn] at hk
  rw [node_eq_ok hn]
  exact ensure_eq_ok (by simpa using hk)

theorem isHome_eq_true {u : Nat} {n : Node S L} (hn : a.nodes[u]? = some n) :
    a.isHome u n = true := by
  have hhome : a.home u = some n.component := field_eq hn
  obtain ⟨C, hC⟩ := exists_component (ha.home_lt hhome)
  rw [isHome, hC]
  exact Std.ExtTreeSet.mem_iff_contains.mp ((ha.mem_members_iff hC).mpr hhome)

theorem checkComponent_eq_ok (hC : a.components[k]? = some C) : a.checkComponent k C = .ok () := by
  have hcandidates : a.candidatesIn k = C.candidates := part_eq hC
  have hentries : a.entriesIn k = C.entries := part_eq hC
  have hdowns : a.downsIn k = C.downs := part_eq hC
  have hknown : C.entries.toList.forM
      (fun e => ensure (a.entries.contains e) (.unknownEntry : Fault S)) = .ok () :=
    forM_ok fun e he =>
      ensure_eq_ok (ha.isEntry (hentries ▸ Std.ExtTreeSet.mem_toList.mp he))
  have hsame : C.downs = a.downsOfEntries C.entries := by
    refine Std.ExtTreeSet.ext_mem fun d => ?_
    rw [← hdowns, ha.mem_downs, hentries, mem_downsOfEntries]
  have hindexed : a.componentByEntries[C.entries.toList]? = some k :=
    ha.byEntries.mpr ⟨(Array.getElem?_eq_some_iff.mp hC).1, by rw [hentries]⟩
  have hsubset : C.candidates.subset C.members = true := by
    refine FinSet.subset_iff.mpr fun u hu => (ha.mem_members_iff hC).mpr ?_
    exact (ha.mem_candidates.mp (hcandidates ▸ hu)).1
  unfold checkComponent
  rw [hknown, ← hsame, hindexed, hsubset, beq_self_eq_true, beq_self_eq_true]
  refine forM_ok fun u hu => ?_
  have hk := (ha.mem_members_iff hC).mp (Std.ExtTreeSet.mem_toList.mp hu)
  obtain ⟨n, hn⟩ := exists_node (lt_size_of_home hk)
  have hcandidate : a.candidate u = n.candidate := field_eq hn
  rw [node_eq_ok hn]
  refine ensure_eq_ok ?_
  rw [← hcandidates, ← hcandidate, beq_iff_eq, Bool.eq_iff_iff, ← Std.ExtTreeSet.mem_iff_contains,
    ha.mem_candidates]
  exact and_iff_right hk

/-- Between two steps the components pass their check. -/
theorem checkComponents_eq_ok : a.checkComponents = .ok () := by
  rw [checkComponents,
    bind_of_eq_ok (forM_ok fun p hp => ha.checkMembers_eq_ok (mem_indexedComponents.mp hp)),
    bind_of_eq_ok (ensure_eq_ok (List.all_eq_true.mpr fun p hp =>
      ha.isHome_eq_true (mem_indexedNodes.mp hp))),
    bind_of_eq_ok (ensure_eq_ok (beq_iff_eq.mpr ha.total_members))]
  exact forM_ok fun p hp => ha.checkComponent_eq_ok (mem_indexedComponents.mp hp)

/-! ## At the end -/

variable [Std.TransOrd L]

/-- What a member reaches elsewhere is on the border, if that is right for the edges. -/
theorem foreignSuccessors_border [Std.LawfulEqOrd L] (hr : a.InRange)
    (hb : a.Bordered a.chart.Edge) (hC : a.components[k]? = some C) {u : Nat} (hu : u ∈ C.members) :
    ∃ F, a.foreignSuccessors u = .ok F ∧ C.border[u]? = if F.isEmpty then none else some F := by
  have hborder : a.borderIn k = C.border := part_eq hC
  have hk := (ha.mem_members_iff hC).mp hu
  obtain ⟨F, hF, hmem⟩ := foreignSuccessors_eq_ok hr hk
  refine ⟨F, hF, ?_⟩
  have hexact : ∀ v, v ∈ F ↔ a.chart.Edge u v ∧ a.home v ≠ some k := fun v => by
    rw [hmem, edge_chart]
  rw [← hborder]
  split
  · next he =>
    cases h : (a.borderIn k)[u]? with
    | none => rfl
    | some G =>
      obtain ⟨-, hne, hG⟩ := hb.getElem?_borderIn.mp h
      have hsame : G = F := Std.ExtTreeSet.ext_mem fun v => (hG v).trans (hexact v).symm
      exact absurd (hsame.trans (Std.ExtTreeSet.isEmpty_iff.mp he)) hne
  · next he =>
    exact hb.getElem?_borderIn.mpr
      ⟨hk, fun h => he (Std.ExtTreeSet.isEmpty_iff.mpr h), hexact⟩

/-- The border that is computed afresh is the one on record, if that is right for the edges. -/
theorem exactBorder_eq_ok [Std.LawfulEqOrd L] (hr : a.InRange) (hb : a.Bordered a.chart.Edge)
    (hC : a.components[k]? = some C) : a.exactBorder C = .ok C.border := by
  let Half (m : FinMap Nat (FinSet Nat)) : Prop := ∀ v : Nat, m[v]? = none ∨ m[v]? = C.border[v]?
  have hloop : Yields (a.exactBorder C) fun m => Half m ∧
      (∀ v : Nat, (∅ : FinMap Nat (FinSet Nat))[v]? = C.border[v]? → m[v]? = C.border[v]?) ∧
      ∀ u ∈ C.members.toList, m[u]? = C.border[u]? := by
    unfold exactBorder
    refine yields_foldlM (I := Half) (R := fun m m' : FinMap Nat (FinSet Nat) =>
      ∀ v : Nat, m[v]? = C.border[v]? → m'[v]? = C.border[v]?)
      (D := fun u m => m[u]? = C.border[u]?) (fun _ _ => id) (fun h h' v hv => h' v (h v hv))
      (fun hd h => h _ hd) ?_ ?_
    · intro u hu m hm _
      obtain ⟨F, hF, hborder⟩ :=
        ha.foreignSuccessors_border hr hb hC (Std.ExtTreeSet.mem_toList.mp hu)
      rw [hF]
      refine yields_pure ?_
      split at hborder
      · next he =>
        rw [if_pos he]
        exact ⟨hm, fun _ => id, (hm u).elim (·.trans hborder.symm) id⟩
      · next he =>
        rw [if_neg he]
        have hself : (m.insert u F)[u]? = C.border[u]? := by
          rw [Std.ExtTreeMap.getElem?_insert_self, hborder]
        have hother : ∀ v, v ≠ u → (m.insert u F)[v]? = m[v]? := fun v hv => by
          rw [Std.ExtTreeMap.getElem?_insert, if_neg]
          exact fun he => hv (Std.LawfulEqOrd.eq_of_compare he).symm
        refine ⟨fun v => ?_, fun v hv => ?_, hself⟩
        · by_cases hvu : v = u
          · exact .inr (hvu ▸ hself)
          · rw [hother v hvu]
            exact hm v
        · by_cases hvu : v = u
          · exact hvu ▸ hself
          · rw [hother v hvu]
            exact hv
    · exact fun v => .inl Std.ExtTreeMap.getElem?_empty
  obtain ⟨m, hm, hhalf, -, hall⟩ := hloop
  rw [hm]
  congr 1
  refine Std.ExtTreeMap.ext_getElem? fun v => ?_
  by_cases hv : v ∈ C.members
  · exact hall v (Std.ExtTreeSet.mem_toList.mpr hv)
  · have hnone : C.border[v]? = none := by
      refine Std.ExtTreeMap.getElem?_eq_none fun hmem => hv ((ha.mem_members_iff hC).mpr ?_)
      exact hb.resident (k := k) (by rw [borderIn, part_eq hC]; exact hmem)
    rcases hhalf v with h | h
    · rw [h, hnone]
    · exact h

end WellFormed

end Arena

end NestedWords
