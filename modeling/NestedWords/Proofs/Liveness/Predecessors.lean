import NestedWords.Liveness
import NestedWords.Proofs.Arena.Moves
import NestedWords.Proofs.Arena.Chart

/-!
# The predecessors of a double-decker

`Chart.Precedes` is the relation along which liveness is handed back: one constructor for
each of the four rules. A visit looks it up in an arena whose marks have changed since
(`Remarked`); `predecessors_yields` says that it finds exactly the double-deckers that
precede the visited one.
-/

namespace NestedWords

variable {S L : Type} [Ord L] [Std.TransOrd L]

/-- A final state may be reached from the first double-decker if one may from the second. -/
inductive Chart.Precedes (c : Chart S L) : DoubleDecker → DoubleDecker → Prop
  | internal {u v : Nat} {d : Down Nat} {l : L} :
    (l, u) ∈ c.internalIn v → c.HasDown u d → Precedes c (u, d) (v, d)
  | call {u v : Nat} {d : Down Nat} {l : L} :
    (l, u) ∈ c.callIn v → c.HasDown u d → Precedes c (u, d) (v, .caller u)
  | ret {u h v : Nat} {d : Down Nat} {l : L} :
    (h, l, u) ∈ c.returnIn v → c.HasDown h d → Precedes c (u, .caller h) (v, d)
  | summary {u h v : Nat} {d : Down Nat} {l : L} :
    (h, l, u) ∈ c.returnIn v → c.HasDown h d → Precedes c (h, d) (v, d)

namespace Arena

/-- `b` differs from `a` in its marks only. -/
structure Remarked (a b : Arena S L) : Prop where
  field : ∀ {α : Type} {f : Node S L → α} {d : α}, (∀ n m, f { n with mark := m } = f n) →
    ∀ u, b.field f d u = a.field f d u
  mem_entryDowns : ∀ {e d}, d ∈ b.entryDowns e ↔ d ∈ a.entryDowns e
  components : b.components = a.components

omit [Std.TransOrd L] in
theorem Remarked.refl (a : Arena S L) : Remarked a a := ⟨fun _ _ => rfl, Iff.rfl, rfl⟩

omit [Std.TransOrd L] in
theorem Remarked.read {a b : Arena S L} (h : Remarked a b) {u : Nat} {n : Node S L}
    (hn : b.nodes[u]? = some n) {α : Type} {f : Node S L → α} {d : α}
    (hf : ∀ n m, f { n with mark := m } = f n) : a.field f d u = f n := by
  rw [← h.field hf, field_eq hn]

end Arena

namespace Node

variable [Std.LawfulEqOrd L] {n : Node S L} {h : Nat} {as : List (L × Nat)}

/-- The returns of a state are those of its rows. -/
theorem mem_returnIn_iff {u : Nat} {x : L} : (h, x, u) ∈ n.returnIn ↔
    ∃ as, (h, as) ∈ n.returnsInByHier ∧ (x, u) ∈ as := by
  rw [Table.mem_iff]
  simp only [returnsInByHier, List.mem_map, Prod.exists, Prod.mk.injEq,
    Std.ExtTreeMap.mem_toList_iff_getElem?_eq_some]
  constructor
  · intro h
    obtain ⟨r, hr, hx⟩ := h
    exact ⟨_, ⟨_, r, hr, rfl, rfl⟩, Table.mem_toList.mpr hx⟩
  · intro h
    obtain ⟨as, ⟨h, r, hr, rfl, rfl⟩, hx⟩ := h
    exact ⟨r, hr, Table.mem_toList.mp hx⟩

/-- The hierarchical predecessors that are keys have returns, so that each of them is live if the
state is. -/
theorem exists_mem_of_mem_returnsInByHier
    (hfilled : Row.Filled n.returnIn) (hg : (h, as) ∈ n.returnsInByHier) : ∃ e, e ∈ as := by
  obtain ⟨⟨h, r⟩, hr, he⟩ := List.mem_map.mp hg
  cases he
  obtain ⟨hne, hr⟩ := hfilled h r (Std.ExtTreeMap.mem_toList_iff_getElem?_eq_some.mp hr)
  obtain ⟨e, he⟩ := Row.exists_mem hr hne
  exact ⟨e, Table.mem_toList.mpr he⟩

end Node

namespace Liveness

open Arena

variable {a b : Arena S L} {u v : Nat} {d : Down Nat} {n : Node S L}

section
variable (ha : a.WellFormed) (hb : Remarked a b)
include ha hb

omit [Std.TransOrd L] in
/-- The stack tops of a state can be read off. -/
theorem downsOf_yields (hu : u < a.size) :
    ∃ D, b.downsOf u = .ok D ∧ ∀ {d}, d ∈ D ↔ a.chart.HasDown u d := by
  obtain ⟨k, hk⟩ := exists_home hu
  have hk' : b.home u = some k := (hb.field (fun _ _ => rfl) u).trans hk
  have hlt : k < b.components.size := by rw [hb.components]; exact ha.home_lt hk
  refine ⟨_, downsOf_eq_ok hk' hlt, fun {d} => ?_⟩
  rw [ha.hasDown_chart, hasDown_of_home hk, downsIn, downsIn, part, part, hb.components]

omit [Std.TransOrd L] in
/-- The test whether a state has a stack top can be made. -/
theorem contains_downsOf_ok [DecidablePred fun u => a.chart.HasDown u d] (hu : u < a.size) :
    (do return (← b.downsOf u).contains d : Except (Fault S) Bool) =
      .ok (decide (a.chart.HasDown u d)) := by
  obtain ⟨D, hD, hmem⟩ := downsOf_yields ha hb hu
  rw [hD]
  show Except.ok (D.contains d) = _
  congr 1
  rw [Bool.eq_iff_iff, decide_eq_true_iff, ← hmem]
  exact Std.ExtTreeSet.contains_iff_mem

variable [Std.LawfulEqOrd L] (hl : a.chart.Linked) (hn : b.nodes[v]? = some n)
include hl hn

theorem internalPredecessors_yields : Yields (internalPredecessors b n d) fun l =>
    ∀ p, p ∈ l ↔ ∃ u x, p = (u, d) ∧ (x, u) ∈ a.chart.internalIn v ∧ a.chart.HasDown u d := by
  classical
  have hin : ∀ {x u}, (x, u) ∈ n.internalIn ↔ (x, u) ∈ a.chart.internalIn v := by
    intro x u
    have hread : a.internalIn v = n.internalIn := hb.read hn fun _ _ => rfl
    show _ ↔ _ ∈ a.internalIn v
    rw [hread]
  have hsize : ∀ u ∈ n.internalIn.toList.map (·.2), u < a.size := by
    intro u hu
    obtain ⟨⟨x, u⟩, he, rfl⟩ := List.mem_map.mp hu
    exact lt_size_of_mem (hl.internal.mpr (hin.mp (Table.mem_toList.mp he)))
  unfold internalPredecessors
  rw [filterM_ok fun u hu => contains_downsOf_ok ha hb (hsize u hu)]
  refine yields_pure fun p => ?_
  simp only [List.mem_map, List.mem_filter, decide_eq_true_eq]
  constructor
  · intro h
    obtain ⟨u, ⟨⟨⟨x, u'⟩, he, rfl⟩, hu⟩, rfl⟩ := h
    exact ⟨u', x, rfl, hin.mp (Table.mem_toList.mp he), hu⟩
  · intro h
    obtain ⟨u, x, rfl, he, hu⟩ := h
    exact ⟨u, ⟨⟨_, Table.mem_toList.mpr (hin.mpr he), rfl⟩, hu⟩, rfl⟩

theorem callPredecessors_yields : Yields (callPredecessors b n d) fun l =>
    ∀ p, p ∈ l ↔ ∃ u x e, p = (u, e) ∧ d = .caller u ∧ (x, u) ∈ a.chart.callIn v ∧
      a.chart.HasDown u e := by
  have hin : ∀ {x u}, (x, u) ∈ n.callIn ↔ (x, u) ∈ a.chart.callIn v := by
    intro x u
    have hread : a.callIn v = n.callIn := hb.read hn fun _ _ => rfl
    show _ ↔ _ ∈ a.callIn v
    rw [hread]
  cases d with
  | bottom =>
    refine yields_ok fun p => iff_of_false (by simp) ?_
    intro h
    obtain ⟨u, x, e, -, he, -⟩ := h
    cases he
  | caller c =>
    unfold callPredecessors
    dsimp only
    split
    · next hc =>
      obtain ⟨⟨x, c'⟩, he, hc'⟩ := List.any_eq_true.mp hc
      cases beq_iff_eq.mp hc'
      have hcall := hin.mp (Table.mem_toList.mp he)
      obtain ⟨D, hD, hmem⟩ := downsOf_yields ha hb (lt_size_of_mem (hl.call.mpr hcall))
      rw [hD]
      refine yields_pure fun p => ?_
      simp only [List.mem_map, Std.ExtTreeSet.mem_toList]
      constructor
      · intro h
        obtain ⟨e, he, rfl⟩ := h
        exact ⟨c', x, e, rfl, rfl, hcall, hmem.mp he⟩
      · intro h
        obtain ⟨u, y, e, rfl, hu, -, he⟩ := h
        cases hu
        exact ⟨e, hmem.mpr he, rfl⟩
    · next hc =>
      refine yields_ok fun p => iff_of_false (by simp) ?_
      intro h
      obtain ⟨u, x, e, -, he, hcall, -⟩ := h
      cases he
      exact hc (List.any_eq_true.mpr
        ⟨(x, c), Table.mem_toList.mpr (hin.mpr hcall), beq_self_eq_true c⟩)

theorem returnPredecessors_yields : Yields (returnPredecessors b n d) fun l =>
    ∀ p, (∃ s, (s, p) ∈ l) ↔ ∃ u h x, (p = (u, .caller h) ∨ p = (h, d)) ∧
      (h, x, u) ∈ a.chart.returnIn v ∧ a.chart.HasDown h d := by
  classical
  have hin : ∀ {h x u}, (h, x, u) ∈ n.returnIn ↔ (h, x, u) ∈ a.chart.returnIn v := by
    intro h x u
    have hread : a.returnIn v = n.returnIn := hb.read hn fun _ _ => rfl
    show _ ↔ _ ∈ a.returnIn v
    rw [hread]
  have hfilled : Row.Filled n.returnIn := by
    have hread : a.returnIn v = n.returnIn := hb.read hn fun _ _ => rfl
    exact hread ▸ (hl.filled v).returnIn
  have hsize : ∀ g ∈ n.returnsInByHier, g.1 < a.size := by
    intro h hg
    obtain ⟨h, as⟩ := h
    obtain ⟨⟨x, u⟩, hu⟩ := Node.exists_mem_of_mem_returnsInByHier hfilled hg
    have hret := hin.mp (Node.mem_returnIn_iff.mpr ⟨as, hg, hu⟩)
    exact lt_size_of_mem (hl.summary.mp (hl.ret.mpr hret))
  unfold returnPredecessors
  rw [filterM_ok fun g hg => contains_downsOf_ok ha hb (hsize g hg)]
  refine yields_pure fun p => ?_
  simp only [List.mem_flatMap, List.mem_filter, decide_eq_true_eq, List.mem_append, List.mem_map,
    List.mem_singleton, Prod.mk.injEq]
  constructor
  · intro h
    rcases h with ⟨s, ⟨h, as⟩, ⟨hg, hd⟩, ⟨⟨x, u⟩, hu, -, rfl⟩ | ⟨-, rfl⟩⟩
    · exact ⟨u, h, x, .inl rfl, hin.mp (Node.mem_returnIn_iff.mpr ⟨as, hg, hu⟩), hd⟩
    · obtain ⟨⟨x, u⟩, hu⟩ := Node.exists_mem_of_mem_returnsInByHier hfilled hg
      exact ⟨u, h, x, .inr rfl, hin.mp (Node.mem_returnIn_iff.mpr ⟨as, hg, hu⟩), hd⟩
  · intro h
    obtain ⟨u, h, x, hp, hret, hd⟩ := h
    obtain ⟨as, hg, hu⟩ := Node.mem_returnIn_iff.mp (hin.mpr hret)
    rcases hp with rfl | rfl
    · exact ⟨false, (h, as), ⟨hg, hd⟩, .inl ⟨(x, u), hu, rfl, rfl⟩⟩
    · exact ⟨true, (h, as), ⟨hg, hd⟩, .inr ⟨rfl, rfl⟩⟩

/-- A visit finds what precedes. -/
theorem predecessors_yields : ∃ internal call returns, internalPredecessors b n d = .ok internal ∧
    callPredecessors b n d = .ok call ∧ returnPredecessors b n d = .ok returns ∧
    ∀ p, (∃ s, (s, p) ∈ (internal ++ call).map (false, ·) ++ returns) ↔
      a.chart.Precedes p (v, d) := by
  obtain ⟨internal, hi, hinternal⟩ := internalPredecessors_yields (d := d) ha hb hl hn
  obtain ⟨call, hc, hcall⟩ := callPredecessors_yields (d := d) ha hb hl hn
  obtain ⟨returns, hr, hreturns⟩ := returnPredecessors_yields (d := d) ha hb hl hn
  refine ⟨internal, call, returns, hi, hc, hr, fun p => ?_⟩
  have hfound : (∃ s, (s, p) ∈ (internal ++ call).map (false, ·) ++ returns) ↔
      p ∈ internal ∨ p ∈ call ∨ ∃ s, (s, p) ∈ returns := by
    simp only [List.mem_append, List.mem_map, Prod.mk.injEq]
    constructor
    · intro h
      rcases h with ⟨s, ⟨q, hq, -, rfl⟩ | hs⟩
      · exact hq.imp_right .inl
      · exact .inr (.inr ⟨s, hs⟩)
    · intro h
      rcases h with hp | hp | ⟨s, hs⟩
      · exact ⟨false, .inl ⟨p, .inl hp, rfl, rfl⟩⟩
      · exact ⟨false, .inl ⟨p, .inr hp, rfl, rfl⟩⟩
      · exact ⟨s, .inr hs⟩
  rw [hfound, hinternal, hcall, hreturns]
  constructor
  · intro h
    rcases h with ⟨u, x, rfl, hin, hd⟩ | ⟨u, x, e, rfl, rfl, hin, hd⟩ |
      ⟨u, h, x, rfl | rfl, hin, hd⟩
    · exact .internal hin hd
    · exact .call hin hd
    · exact .ret hin hd
    · exact .summary hin hd
  · intro hp
    cases hp with
    | internal hin hd => exact .inl ⟨_, _, rfl, hin, hd⟩
    | call hin hd => exact .inr (.inl ⟨_, _, _, rfl, rfl, hin, hd⟩)
    | ret hin hd => exact .inr (.inr ⟨_, _, _, .inl rfl, hin, hd⟩)
    | summary hin hd => exact .inr (.inr ⟨_, _, _, .inr rfl, hin, hd⟩)
end

end Liveness

end NestedWords
