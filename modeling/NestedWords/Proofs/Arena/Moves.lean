import NestedWords.Proofs.Lists
import NestedWords.Proofs.Exploration.Soundness
import NestedWords.Proofs.Arena.Region

/-!
# Moving states to another component

`moveAll` changes nothing but the components of the states that it moves
(`moveAll_yields`), so borders lag behind: a moved state is still mentioned where it was, and
what leads to it may take it for a neighbour or a stranger wrongly (`BorderedBut`).
`refreshBorders` looks at just these states afresh, and leaves all else alone. It makes the
borders of the moved states exact, and all borders if the others were (`refreshBorders_yields`).
-/
namespace NestedWords

namespace Arena

variable {S L : Type} [Ord L] {a b : Arena S L}

/-! ## Moving -/

/-- `b` is `a` with the listed states in component `k`. -/
structure Relocated (a : Arena S L) (us : List Nat) (k : Nat) (b : Arena S L) : Prop where
  size : b.size = a.size
  nodes : ∀ v : Nat, b.nodes[v]? =
    (a.nodes[v]?).map fun n => { n with component := if v ∈ us then k else n.component }
  home : ∀ v, b.home v = if v ∈ us then some k else a.home v
  entries : b.entries = a.entries
  components : b.components.size = a.components.size
  entriesIn : ∀ i, b.entriesIn i = a.entriesIn i
  downsIn : ∀ i, b.downsIn i = a.downsIn i
  borderIn : ∀ i, b.borderIn i = a.borderIn i
  wellFormed : b.WellFormed

/-- Whatever does not depend on the components of the states is as it was. -/
theorem Relocated.field {us : List Nat} {k : Nat} (h : Relocated a us k b) {α : Type}
    (f : Node S L → α) (d : α) (hf : ∀ n i, f { n with component := i } = f n) :
    b.field f d = a.field f d := by
  funext v
  unfold Arena.field
  rw [h.nodes]
  cases a.nodes[v]? with
  | none => rfl
  | some n => exact hf n _

theorem moveAll_yields (ha : a.WellFormed) {k : Nat} (hk : k < a.components.size) {us : List Nat}
    (hus : ∀ u ∈ us, u < a.size) :
    Yields (Exploration.moveAll a us k) fun b => Relocated a us k b := by
  unfold Exploration.moveAll
  induction us generalizing a with
  | nil =>
    exact yields_ok ⟨rfl, by simp, by simp, rfl, rfl, fun _ => rfl, fun _ => rfl, fun _ => rfl, ha⟩
  | cons u us ih =>
    rw [List.foldlM_cons]
    refine (move_yields ha (hus u (by simp)) hk).bind fun b hb => ?_
    have hsize : b.size = a.size := by simp [size, hb.nodes]
    have hnodes : b.nodes = (a.modifyNode u ({ · with component := k })).nodes := hb.nodes
    refine (ih hb.wellFormed (hb.components ▸ hk) fun v hv => hsize ▸ hus v (by simp [hv])).mono ?_
    intro c hc
    refine ⟨hc.size.trans hsize, fun v => ?_, fun v => ?_, hc.entries.trans hb.entries,
      hc.components.trans hb.components, fun i => (hc.entriesIn i).trans (hb.entriesIn i),
      fun i => (hc.downsIn i).trans (hb.downsIn i), fun i => (hc.borderIn i).trans (hb.borderIn i),
      hc.wellFormed⟩
    · rw [hc.nodes, hnodes]
      simp only [modifyNode, Array.getElem?_modify, List.mem_cons]
      by_cases hv : u = v
      · subst hv
        cases a.nodes[u]? <;> simp
      · simp [hv, Ne.symm hv]
    · have hhome : b.home v = if v = u then some k else a.home v :=
        (field_congr hnodes).trans
          (field_modifyNode (fun _ => some k) (fun _ => rfl) (hus u (by simp)))
      rw [hc.home, hhome]
      by_cases hv : v = u <;> simp [hv]

/-! ## Borders -/

variable [Std.TransOrd L]

/-- The neighbours of a state are states, and each sees the other. -/
structure InRange (a : Arena S L) : Prop where
  successors : ∀ {u v}, v ∈ a.successorsWithin u → v < a.size
  predecessors : ∀ {u v : Nat} {n : Node S L}, a.nodes[u]? = some n →
    (v ∈ n.predecessorsWithin ↔ u ∈ a.successorsWithin v)

theorem lt_size_of_successorsWithin {u v : Nat} (h : v ∈ a.successorsWithin u) : u < a.size := by
  by_cases hu : u < a.size
  · exact hu
  · have hnone : a.nodes[u]? = none := Array.getElem?_eq_none (Nat.le_of_not_lt hu)
    simp [successorsWithin, hnone] at h

theorem inRange [Std.LawfulEqOrd L] (hl : a.chart.Linked) : a.InRange where
  successors := by
    intro u v hv
    rcases mem_successorsWithin.mp hv with ⟨l, he⟩ | ⟨l, p, he⟩
    · exact lt_size_of_mem (hl.internal.mp he)
    · exact lt_size_of_mem (hl.ret.mp (hl.summary.mpr he))
  predecessors := by
    intro u v n hn
    have hinternal : ∀ l, (l, v) ∈ n.internalIn ↔ (l, u) ∈ a.internalOut v := by
      intro l
      have h : a.internalIn u = n.internalIn := field_eq hn
      rw [← h]
      exact hl.internal.symm
    have hret : ∀ l q, (v, l, q) ∈ n.returnIn ↔ (l, q, u) ∈ a.summaries v := by
      intro l q
      have h : a.returnIn u = n.returnIn := field_eq hn
      rw [← h]
      exact hl.ret.symm.trans hl.summary
    rw [mem_successorsWithin, Node.predecessorsWithin, List.mem_append]
    refine or_congr ?_ ?_
    · constructor
      · intro hv
        obtain ⟨⟨l, p⟩, he, rfl⟩ := List.mem_map.mp hv
        exact ⟨l, (hinternal l).mp (Table.mem_toList.mp he)⟩
      · intro hv
        obtain ⟨l, he⟩ := hv
        exact List.mem_map.mpr ⟨_, Table.mem_toList.mpr ((hinternal l).mpr he), rfl⟩
    · -- a key without returns would be a predecessor that the state does not follow
      have hfilled : Row.Filled n.returnIn := by
        have h : a.returnIn u = n.returnIn := field_eq hn
        exact h ▸ (hl.filled u).returnIn
      simp only [Table.mem_keys_iff hfilled, Prod.exists, hret]

theorem foreignSuccessors_eq_ok (hr : a.InRange) {u k : Nat} (hk : a.home u = some k) :
    ∃ F, a.foreignSuccessors u = .ok F ∧
      ∀ {v}, v ∈ F ↔ v ∈ a.successorsWithin u ∧ a.home v ≠ some k := by
  obtain ⟨n, hn⟩ := exists_node (lt_size_of_home hk)
  have hk' : n.component = k := by rw [home, field_eq hn] at hk; exact Option.some.inj hk
  have hsucc : a.successorsWithin u = n.successorsWithin := by simp [successorsWithin, hn]
  have hfilter : n.successorsWithin.filterM (fun t => return (← a.componentOf t) != n.component) =
      .ok (n.successorsWithin.filter fun t => a.home t != some k) := by
    refine filterM_ok fun t ht => ?_
    obtain ⟨i, hi⟩ := exists_home (hr.successors (hsucc ▸ ht))
    rw [componentOf_eq_ok hi, hi, hk']
    show Except.ok _ = Except.ok _
    congr 1
  refine ⟨Std.ExtTreeSet.ofList (n.successorsWithin.filter fun t => a.home t != some k), ?_, ?_⟩
  · unfold foreignSuccessors
    rw [node_eq_ok hn]
    show (do
      let foreign ← n.successorsWithin.filterM fun t => return (← a.componentOf t) != n.component
      return Std.ExtTreeSet.ofList foreign) = _
    rw [hfilter]
    rfl
  · intro v
    rw [hsucc]
    simp

theorem getElem?_setBorder {m : FinMap Nat (FinSet Nat)} {u v : Nat} {F : FinSet Nat} :
    (if F.isEmpty then m.erase u else m.insert u F)[v]? =
      if v = u then (if F.isEmpty then none else some F) else m[v]? := by
  split
  · rw [Std.ExtTreeMap.getElem?_erase]
    simp [eq_comm (a := u)]
  · rw [Std.ExtTreeMap.getElem?_insert]
    simp [eq_comm (a := u)]

/-- What refreshing the border of `u` leaves. -/
structure Refreshed (a : Arena S L) (u : Nat) (b : Arena S L) : Prop where
  alike : Alike a b
  nodes : b.nodes = a.nodes
  exact : b.Exact a.chart.Edge u
  others : ∀ {k v}, ¬ (v = u ∧ a.home u = some k) → (b.borderIn k)[v]? = (a.borderIn k)[v]?

theorem refreshBorder_yields [Std.LawfulEqOrd L] (ha : a.WellFormed) (hr : a.InRange) {u : Nat}
    (hu : u < a.size) : Yields (a.refreshBorder u) fun b => Refreshed a u b := by
  obtain ⟨k, hk⟩ := exists_home hu
  obtain ⟨F, hF, hmem⟩ := foreignSuccessors_eq_ok hr hk
  unfold refreshBorder
  rw [componentOf_eq_ok hk]
  show Yields (do
    let foreign ← a.foreignSuccessors u
    a.updateComponent k (·.setBorder u foreign)) _
  rw [hF]
  show Yields (a.updateComponent k (·.setBorder u F)) _
  rw [updateComponent_eq_ok (ha.home_lt hk)]
  have hborder : ∀ i v, ((a.modifyComponent k (·.setBorder u F)).borderIn i)[v]? =
      if i = k ∧ v = u then (if F.isEmpty then none else some F) else (a.borderIn i)[v]? := by
    intro i v
    have h : (a.modifyComponent k (·.setBorder u F)).borderIn i = if i = k then
        (if F.isEmpty then (a.borderIn i).erase u else (a.borderIn i).insert u F)
        else a.borderIn i :=
      part_modifyComponent (fun m : FinMap Nat (FinSet Nat) =>
        if F.isEmpty then m.erase u else m.insert u F) (fun _ => rfl) (ha.home_lt hk)
    rw [h]
    split
    · next hi => rw [getElem?_setBorder]; simp [hi]
    · next hi => simp [hi]
  have halike : Alike a (a.modifyComponent k (·.setBorder u F)) :=
    alike_border (g := fun m => if F.isEmpty then m.erase u else m.insert u F)
  refine yields_ok ⟨halike, rfl, ⟨fun {i v} hi => ?_, fun {i} hi => ?_⟩, fun {i v} hi => ?_⟩
  · obtain rfl : k = i := Option.some.inj (hk.symm.trans hi)
    rw [edge_chart, borderOf, Std.ExtTreeMap.getD_eq_getD_getElem?, hborder, if_pos ⟨rfl, rfl⟩]
    show _ ↔ _ ∧ a.home v ≠ _
    rw [← hmem]
    split
    · next h => rw [Std.ExtTreeSet.isEmpty_iff.mp h]; exact Iff.rfl
    · exact Iff.rfl
  · obtain rfl : k = i := Option.some.inj (hk.symm.trans hi)
    rw [hborder, if_pos ⟨rfl, rfl⟩]
    split
    · simp
    · next h => exact fun he => h (Std.ExtTreeSet.isEmpty_iff.mpr (Option.some.inj he))
  · have hne : ¬ (i = k ∧ v = u) := fun h => hi ⟨h.2, h.1 ▸ hk⟩
    rw [hborder, if_neg hne]

theorem successorsWithin_congr (h : b.nodes = a.nodes) :
    b.successorsWithin = a.successorsWithin := by
  funext u
  unfold successorsWithin
  rw [h]

theorem inRange_congr (h : b.nodes = a.nodes) (hr : a.InRange) : b.InRange := by
  have hs : ∀ u, b.successorsWithin u = a.successorsWithin u :=
    congrFun (successorsWithin_congr h)
  have hsize : b.size = a.size := by unfold size; rw [h]
  refine ⟨fun hv => by rw [hs] at hv; exact hsize ▸ hr.successors hv, fun hn => ?_⟩
  rw [h] at hn
  rw [hs]
  exact hr.predecessors hn

/-- The moved states and all that come before them. -/
theorem touched_yields (hr : a.InRange) {us : List Nat} (hus : ∀ u ∈ us, u < a.size) :
    Yields (Exploration.touched a us) fun T => (∀ v ∈ T, v < a.size) ∧
      ∀ u ∈ us, u ∈ T ∧ ∀ {v}, u ∈ a.successorsWithin v → v ∈ T := by
  refine (yields_foldlM (I := fun T : FinSet Nat => ∀ v ∈ T, v < a.size)
    (R := fun T T' : FinSet Nat => ∀ v ∈ T, v ∈ T')
    (D := fun u T => u ∈ T ∧ ∀ {v}, u ∈ a.successorsWithin v → v ∈ T)
    (fun _ _ h => h) (fun h h' v hv => h' v (h v hv))
    (fun hu h => ⟨h _ hu.1, fun hv => h _ (hu.2 hv)⟩) ?_ (by simp)).mono fun T hT =>
      ⟨hT.1, hT.2.2⟩
  intro u hu T hT _
  obtain ⟨n, hn⟩ := exists_node (hus u hu)
  have hmem : ∀ v, v ∈ (T.insert u).insertMany n.predecessorsWithin ↔
      (v = u ∨ v ∈ T) ∨ u ∈ a.successorsWithin v := by
    intro v
    rw [Std.ExtTreeSet.mem_insertMany_list, Std.ExtTreeSet.mem_insert, List.contains_iff_mem,
      Std.compare_eq_iff_eq, hr.predecessors hn, eq_comm]
  rw [node_eq_ok hn]
  refine yields_ok ⟨?_, ?_, ?_⟩
  · intro v hv
    rcases (hmem v).mp hv with (rfl | hv) | hv
    · exact hus _ hu
    · exact hT v hv
    · exact lt_size_of_successorsWithin hv
  · exact fun v hv => (hmem v).mpr (.inl (.inr hv))
  · exact ⟨(hmem u).mpr (.inl (.inl rfl)), fun hv => (hmem _).mpr (.inr hv)⟩

/-- The borders are right but for the states `us`, which have just left component `old`: there
they may still be mentioned, and what leads to them may not have noticed. -/
structure BorderedBut (a : Arena S L) (E : Nat → Nat → Prop) (old : Nat) (us : List Nat) :
    Prop where
  exact : ∀ {u}, u ∉ us → (∀ v ∈ us, ¬ E u v) → a.Exact E u
  resident : ∀ {k u}, u ∈ a.borderIn k → a.home u = some k ∨ k = old ∧ u ∈ us

omit [Std.TransOrd L] in
/-- Moving states leaves the borders as they were. -/
theorem Relocated.borderedBut {us : List Nat} {old k : Nat} {E : Nat → Nat → Prop}
    (h : Relocated a us k b) (hold : ∀ u ∈ us, a.home u = some old) (ha : a.Bordered E) :
    b.BorderedBut E old us where
  exact {u} hu hfrom := by
    have hhome : b.home u = a.home u := by rw [h.home, if_neg hu]
    refine ⟨fun {i v} hi => ?_, fun {i} hi => ?_⟩
    · rw [hhome] at hi
      rw [borderOf, h.borderIn, h.home]
      refine ((ha.exact u).mem hi).trans (and_congr_right fun hv => ?_)
      rw [if_neg fun hmem => hfrom v hmem hv]
    · rw [hhome] at hi
      rw [h.borderIn]
      exact (ha.exact u).nonempty hi
  resident {i u} hu := by
    rw [h.borderIn] at hu
    have hi := ha.resident hu
    rw [h.home]
    split
    · next hmem => exact .inr ⟨Option.some.inj (hi.symm.trans (hold u hmem)), hmem⟩
    · exact .inl hi

omit [Std.TransOrd L] in
/-- The states that have left component `old` are no longer mentioned in its border. -/
theorem eraseBorders_yields {old : Nat} (hold : old < a.components.size) (us : List Nat) :
    Yields (us.foldlM (fun a u =>
      a.updateComponent old fun c => { c with border := c.border.erase u }) a) fun b =>
      Alike a b ∧ b.nodes = a.nodes ∧ ∀ k v, (b.borderIn k)[v]? =
        if k = old ∧ v ∈ us then none else (a.borderIn k)[v]? := by
  induction us generalizing a with
  | nil => exact yields_ok ⟨.refl a, rfl, by simp⟩
  | cons u us ih =>
    let b := a.modifyComponent old fun c => { c with border := c.border.erase u }
    have hb : Alike a b := alike_border (g := fun m => m.erase u)
    have hborder : ∀ k v, (b.borderIn k)[v]? =
        if k = old ∧ v = u then none else (a.borderIn k)[v]? := by
      intro k v
      have h : b.borderIn k = if k = old then (a.borderIn k).erase u else a.borderIn k :=
        part_modifyComponent (fun m : FinMap Nat (FinSet Nat) => m.erase u) (fun _ => rfl) hold
      rw [h]
      split
      · next hk => rw [Std.ExtTreeMap.getElem?_erase]; simp [hk, eq_comm (a := u)]
      · next hk => simp [hk]
    rw [List.foldlM_cons, updateComponent_eq_ok hold]
    refine (ih (a := b) (hb.components ▸ hold)).mono ?_
    intro c h
    obtain ⟨hc, hn, hrest⟩ := h
    refine ⟨hb.trans hc, hn, fun k v => ?_⟩
    rw [hrest, hborder]
    by_cases hv : v = u <;> by_cases hk : k = old <;> simp [hv, hk]

theorem refreshBorders_yields [Std.LawfulEqOrd L] (ha : a.WellFormed) (hr : a.InRange) {old : Nat}
    (hold : old < a.components.size) {us : List Nat} (hus : ∀ u ∈ us, u < a.size) :
    Yields (Exploration.refreshBorders a old us) fun b =>
      Alike a b ∧ b.nodes = a.nodes ∧ (∀ u ∈ us, b.Exact a.chart.Edge u) ∧
        (a.BorderedBut a.chart.Edge old us → b.Bordered a.chart.Edge) := by
  unfold Exploration.refreshBorders
  refine (eraseBorders_yields hold us).bind ?_
  intro b h
  obtain ⟨hb, hn, herased⟩ := h
  have hus' : ∀ u ∈ us, u < b.size := fun u hu => hb.size ▸ hus u hu
  refine (touched_yields (inRange_congr hn hr) hus').bind ?_
  intro T h
  obtain ⟨hT, hsub⟩ := h
  have hchart : b.chart = a.chart := hb.chart_eq hn
  refine (yields_foldlM (I := fun c => Alike b c ∧ c.nodes = b.nodes)
    (R := fun c d => (∀ u, c.Exact a.chart.Edge u → d.Exact a.chart.Edge u) ∧
      (c.Resident → d.Resident))
    (D := fun u c => c.Exact a.chart.Edge u)
    (fun _ => ⟨fun _ => id, id⟩) (fun h h' => ⟨fun u hu => h'.1 u (h.1 u hu), h'.2 ∘ h.2⟩)
    (fun hu h => h.1 _ hu) ?_ ⟨.refl b, rfl⟩).mono ?_
  · intro u hu c h _
    obtain ⟨hc, hcn⟩ := h
    have hcwf := hc.wellFormed (hb.wellFormed ha)
    have hcr := inRange_congr (hcn.trans hn) hr
    have hcchart : c.chart = a.chart := (hc.chart_eq hcn).trans hchart
    have hlt := hc.size ▸ hT u (Std.ExtTreeSet.mem_toList.mp hu)
    refine (refreshBorder_yields hcwf hcr hlt).mono ?_
    intro d hd
    have hexact := hcchart ▸ hd.exact
    refine ⟨⟨hc.trans hd.alike, hd.nodes.trans hcn⟩, ⟨fun v hv => ?_, fun hres => ?_⟩, hexact⟩
    · by_cases hvu : v = u
      · exact hvu ▸ hexact
      · exact hv.congr hd.alike.home fun _ => hd.others fun h => hvu h.1
    · intro k v hv
      rw [hd.alike.home]
      by_cases hvu : v = u ∧ c.home u = some k
      · rw [hvu.1]
        exact hvu.2
      · rw [Std.ExtTreeMap.mem_iff_isSome_getElem?, hd.others hvu,
          ← Std.ExtTreeMap.mem_iff_isSome_getElem?] at hv
        exact hres hv
  · intro c h
    obtain ⟨⟨hc, hcn⟩, ⟨hkeeps, hresident⟩, hexact⟩ := h
    refine ⟨hb.trans hc, hcn.trans hn, fun u hu =>
      hexact u (Std.ExtTreeSet.mem_toList.mpr (hsub u hu).1), fun hbut => ⟨fun u => ?_, ?_⟩⟩
    · by_cases hu : u ∈ T
      · exact hexact u (Std.ExtTreeSet.mem_toList.mpr hu)
      · -- a state that was not looked at has not moved and leads to none that has
        have hu' : u ∉ us := fun h => hu (hsub u h).1
        refine hkeeps u ((hbut.exact hu' fun v hv he => hu ((hsub v hv).2 ?_)).congr hb.home ?_)
        · rw [← hchart] at he
          exact edge_chart.mp he
        · intro k _
          rw [herased, if_neg fun h => hu' h.2]
    · refine hresident fun {k u} hu => ?_
      rw [Std.ExtTreeMap.mem_iff_isSome_getElem?, herased] at hu
      split at hu
      · cases hu
      · next h =>
        rw [hb.home]
        exact (hbut.resident (Std.ExtTreeMap.mem_iff_isSome_getElem?.mpr hu)).resolve_right h

end Arena

end NestedWords
