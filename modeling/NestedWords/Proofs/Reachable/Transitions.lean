import NestedWords.Proofs.Liveness.Result

/-!
# The transitions of a result

A result holds transitions by id and lists them by name. `Exact.mem_named` and
`Exact.nodup_named` say that nothing is lost or doubled on the way, as a name has one id. So
the lists are what the complete arena has: all internal and call transitions of a state that
occurs, and its returns under exactly those callers with which it occurs
(`transitions_exactly`). Returns are only asked for caller by caller, when a caller turns up;
that none is forgotten is what `Complete.returns` says.
-/

namespace NestedWords

variable {S L : Type} [Ord L] [Std.TransOrd L]
  {op : Operand S L} {settings : Settings} {r : Reachable S L}

namespace Complete

variable {a : Arena S L} (ha : Complete op a) {s t p : S} {u k : Nat} {l : L}
include ha

/-- The internal transitions on the chart are those of the operand. -/
theorem internal_iff (hu : a.chart.nameOf u = some s) :
    (∃ v, a.chart.nameOf v = some t ∧ (l, v) ∈ a.internalOut u) ↔
      l ∈ op.internalLetters s ∧ t ∈ op.internalSuccessors s l := by
  constructor
  · intro h
    obtain ⟨v, hv, hmem⟩ := h
    obtain ⟨s', t', hs, ht, hop⟩ := ha.sound.internal hmem
    cases hu.symm.trans hs
    cases hv.symm.trans ht
    exact hop
  · intro h
    obtain ⟨hl, ht⟩ := h
    obtain ⟨s', hs, hall⟩ := ha.internals hu
    cases hu.symm.trans hs
    exact hall l hl t ht

theorem call_iff (hu : a.chart.nameOf u = some s) :
    (∃ v, a.chart.nameOf v = some t ∧ (l, v) ∈ a.callOut u) ↔
      l ∈ op.callLetters s ∧ t ∈ op.callSuccessors s l := by
  constructor
  · intro h
    obtain ⟨v, hv, hmem⟩ := h
    obtain ⟨s', t', hs, ht, hop⟩ := ha.sound.call hmem
    cases hu.symm.trans hs
    cases hv.symm.trans ht
    exact hop
  · intro h
    obtain ⟨hl, ht⟩ := h
    obtain ⟨s', hs, hall⟩ := ha.calls hu
    cases hu.symm.trans hs
    obtain ⟨v, hv, hmem, -⟩ := hall l hl t ht
    exact ⟨v, hv, hmem⟩

/-- The returns on the chart are those under the callers with which the state occurs. -/
theorem ret_iff (hu : a.chart.nameOf u = some s) :
    (∃ k v, a.chart.nameOf k = some p ∧ a.chart.nameOf v = some t ∧ (k, l, v) ∈ a.returnOut u) ↔
      (∃ w, op.Occurs ⟨s, p :: w⟩) ∧ l ∈ op.returnLetters s ∧ t ∈ op.returnSuccessors s p l := by
  constructor
  · intro h
    obtain ⟨k, v, hk, hv, hmem⟩ := h
    obtain ⟨s', p', t', hs, hp, ht, hop⟩ := ha.sound.ret hmem
    cases hu.symm.trans hs
    cases hk.symm.trans hp
    cases hv.symm.trans ht
    exact ⟨ha.sound.occurs_caller hu hk (ha.sound.below hmem), hop⟩
  · intro h
    obtain ⟨⟨w, hw⟩, hl, ht⟩ := h
    -- the caller was found as a stack top, so the returns under it were asked for
    obtain ⟨u', d, hu', hd, hdown⟩ := ha.exists_hasDown hw
    cases ha.name_inj hu hu'
    cases d with
    | bottom => cases hd
    | caller k =>
      obtain ⟨p', hk, he⟩ := hd
      cases he
      obtain ⟨s', p', hs, hp, hall⟩ := ha.returns hdown
      cases hu.symm.trans hs
      cases hk.symm.trans hp
      obtain ⟨v, hv, hmem⟩ := hall l hl t ht
      exact ⟨k, v, hk, hv, hmem⟩

end Complete

/-! ## Lists of transitions -/

variable [DecidableEq S]

namespace Reachable

/-- The list has what the property holds of, each once, and nothing else. -/
def Lists {α : Type} (l : List α) (P : α → Prop) : Prop := l.Nodup ∧ ∀ x, x ∈ l ↔ P x

theorem labelled_of_node {s : S} {n : Node S L} (hn : r.node? s = some n)
    (edges : Node S L → Table L (FinSet Nat)) :
    r.labelled s edges = r.named (edges n).toList (·.2) fun e t => (e.1, t) := by
  unfold labelled
  rw [hn]

theorem labelled_of_none {s : S} (hn : r.node? s = none) (edges : Node S L → Table L (FinSet Nat)) :
    r.labelled s edges = [] := by
  unfold labelled
  rw [hn]

theorem returnSuccessors_of_node {s : S} {n : Node S L} (hn : r.node? s = some n) :
    r.returnSuccessors s = r.named (r.named n.returnOut.toList (·.1) fun e p => (p, e.2))
      (·.2.2) fun e t => (e.1, e.2.1, t) := by
  unfold returnSuccessors
  rw [hn]
  rfl

theorem returnSuccessors_of_none {s : S} (hn : r.node? s = none) : r.returnSuccessors s = [] := by
  unfold returnSuccessors
  rw [hn]

theorem summariesOf_of_node {s : S} {n : Node S L} (hn : r.node? s = some n) :
    r.summariesOf s = r.named (r.named n.summaries.toList (·.2.1) fun e u => (e.1, u, e.2.2))
      (·.2.2) fun e t => (e.1, e.2.1, t) := by
  unfold summariesOf
  rw [hn]
  rfl

theorem summariesOf_of_none {s : S} (hn : r.node? s = none) : r.summariesOf s = [] := by
  unfold summariesOf
  rw [hn]

namespace Exact

open Arena

variable {a : Arena S L} (h : r.Exact op a) {s t p : S} {u : Nat} {l : L}
include h

omit [DecidableEq S] in
theorem mem_named {α β : Type} {edges : List α} {id : α → Nat} {f : α → S → β} {y : β} :
    y ∈ r.named edges id f ↔ ∃ e ∈ edges, ∃ t, a.chart.nameOf (id e) = some t ∧ f e t = y := by
  unfold named
  rw [List.mem_filterMap]
  refine exists_congr fun e => and_congr_right fun _ => ?_
  rw [Option.map_eq_some_iff]
  constructor
  · intro he
    obtain ⟨n, hn, hy⟩ := he
    exact ⟨n.name, h.nameOf_of_node hn, hy⟩
  · intro he
    obtain ⟨t, ht, hy⟩ := he
    obtain ⟨n, hn, rfl⟩ := h.exists_node ht
    exact ⟨n, hn, hy⟩

omit [DecidableEq S] in
/-- Edges with two ids are named at the one, then at the other. -/
theorem mem_named_named {α β γ : Type} {edges : List α} {id : α → Nat} {f : α → S → β}
    {id' : β → Nat} {g : β → S → γ} {y : γ} :
    y ∈ r.named (r.named edges id f) id' g ↔ ∃ e ∈ edges, ∃ p t, a.chart.nameOf (id e) = some p ∧
      a.chart.nameOf (id' (f e p)) = some t ∧ g (f e p) t = y := by
  rw [h.mem_named]
  constructor
  · intro hy
    obtain ⟨b, hb, t, ht, hy⟩ := hy
    obtain ⟨e, he, p, hp, rfl⟩ := h.mem_named.mp hb
    exact ⟨e, he, p, t, hp, ht, hy⟩
  · intro hy
    obtain ⟨e, he, p, t, hp, ht, hy⟩ := hy
    exact ⟨f e p, h.mem_named.mpr ⟨e, he, p, hp, rfl⟩, t, ht, hy⟩

omit [DecidableEq S] in
/-- Edges that differ are listed differently if the list shows the name of the id. -/
theorem nodup_named {α β : Type} {edges : List α} {id : α → Nat} {f : α → S → β}
    (hf : ∀ {e e' t t'}, f e t = f e' t' → t = t' ∧ (id e = id e' → e = e'))
    (hedges : edges.Nodup) : (r.named edges id f).Nodup := by
  refine hedges.filterMap fun e e' y hy hy' => ?_
  obtain ⟨n, hn, rfl⟩ := Option.map_eq_some_iff.mp hy
  obtain ⟨n', hn', heq⟩ := Option.map_eq_some_iff.mp hy'
  obtain ⟨hname, hsame⟩ := hf heq.symm
  refine hsame (h.complete.name_inj (h.nameOf_of_node hn) ?_)
  rw [hname]
  exact h.nameOf_of_node hn'

theorem node?_of_mem (hs : s ∈ r.states) :
    ∃ u n, a.chart.nameOf u = some s ∧ r.arena.nodes[u]? = some n ∧ r.node? s = some n := by
  obtain ⟨u, hu⟩ := h.mem_states.mp hs
  obtain ⟨n, hn, -⟩ := h.exists_node hu
  exact ⟨u, n, hu, hn, h.node?_eq_some_iff.mpr ⟨u, hu, hn⟩⟩

theorem node?_eq_none (hs : s ∉ r.states) : r.node? s = none := by
  cases hn : r.node? s with
  | none => rfl
  | some n =>
    obtain ⟨u, hu, -⟩ := h.node?_eq_some_iff.mp hn
    exact absurd (h.mem_states.mpr ⟨u, hu⟩) hs

variable [Std.LawfulEqOrd L]

/-- The edges of a state are listed if they do not depend on its mark. -/
theorem lists_labelled (hs : s ∈ r.states) {edges : Node S L → Table L (FinSet Nat)}
    (hmark : ∀ n m, edges { n with mark := m } = edges n) {P : L × S → Prop}
    (hP : ∀ {u}, a.chart.nameOf u = some s → ∀ l t,
      (∃ v, a.chart.nameOf v = some t ∧ (l, v) ∈ a.field edges ∅ u) ↔ P (l, t)) :
    Lists (r.labelled s edges) P := by
  obtain ⟨u, n, hu, hn, hn'⟩ := h.node?_of_mem hs
  rw [labelled_of_node hn']
  refine ⟨h.nodup_named (fun he => ?_) (Table.nodup_toList _), fun e => ?_⟩
  · rw [Prod.mk.injEq] at he
    exact ⟨he.2, fun hid => Prod.ext he.1 hid⟩
  · obtain ⟨l, t⟩ := e
    rw [h.mem_named, ← hP hu, h.remarked.read hn hmark]
    constructor
    · intro he
      obtain ⟨⟨l', v⟩, hmem, t', hv, heq⟩ := he
      cases heq
      exact ⟨v, hv, Table.mem_toList.mp hmem⟩
    · intro he
      obtain ⟨v, hv, hmem⟩ := he
      exact ⟨(l, v), Table.mem_toList.mpr hmem, t, hv, rfl⟩

theorem lists_internalSuccessors (hs : s ∈ r.states) : Lists (r.internalSuccessors s)
    fun (l, t) => l ∈ op.internalLetters s ∧ t ∈ op.internalSuccessors s l :=
  h.lists_labelled hs (fun _ _ => rfl) fun hu _ _ => h.complete.internal_iff hu

theorem lists_callSuccessors (hs : s ∈ r.states) : Lists (r.callSuccessors s)
    fun (l, t) => l ∈ op.callLetters s ∧ t ∈ op.callSuccessors s l :=
  h.lists_labelled hs (fun _ _ => rfl) fun hu _ _ => h.complete.call_iff hu

theorem mem_internalSuccessors : (l, t) ∈ r.internalSuccessors s ↔
    s ∈ r.states ∧ l ∈ op.internalLetters s ∧ t ∈ op.internalSuccessors s l := by
  by_cases hs : s ∈ r.states
  · exact ((h.lists_internalSuccessors hs).2 (l, t)).trans (by simp [hs])
  · have hnil : r.internalSuccessors s = [] := labelled_of_none (h.node?_eq_none hs) _
    simp [hnil, hs]

theorem mem_callSuccessors : (l, t) ∈ r.callSuccessors s ↔
    s ∈ r.states ∧ l ∈ op.callLetters s ∧ t ∈ op.callSuccessors s l := by
  by_cases hs : s ∈ r.states
  · exact ((h.lists_callSuccessors hs).2 (l, t)).trans (by simp [hs])
  · have hnil : r.callSuccessors s = [] := labelled_of_none (h.node?_eq_none hs) _
    simp [hnil, hs]

theorem nodup_returnSuccessors : (r.returnSuccessors s).Nodup := by
  cases hn : r.node? s with
  | none =>
    rw [returnSuccessors_of_none hn]
    exact .nil
  | some n =>
    rw [returnSuccessors_of_node hn]
    refine h.nodup_named (fun he => ?_) (h.nodup_named (fun he => ?_) (Table.nodup_toList _))
    · simp only [Prod.mk.injEq] at he
      exact ⟨he.2.2, fun hid => Prod.ext he.1 (Prod.ext he.2.1 hid)⟩
    · rw [Prod.mk.injEq] at he
      exact ⟨he.1, fun hid => Prod.ext hid he.2⟩

theorem mem_returnSuccessors : (p, l, t) ∈ r.returnSuccessors s ↔ ∃ u k v,
    a.chart.nameOf u = some s ∧ a.chart.nameOf k = some p ∧ a.chart.nameOf v = some t ∧
      (k, l, v) ∈ a.returnOut u := by
  by_cases hs : s ∈ r.states
  · obtain ⟨u, n, hu, hn, hn'⟩ := h.node?_of_mem hs
    have hedges : a.returnOut u = n.returnOut := h.remarked.read hn fun _ _ => rfl
    rw [returnSuccessors_of_node hn', h.mem_named_named]
    constructor
    · intro he
      obtain ⟨⟨k, l', v⟩, hedge, p', t', hk, hv, heq⟩ := he
      cases heq
      exact ⟨u, k, v, hu, hk, hv, hedges ▸ Table.mem_toList.mp hedge⟩
    · intro he
      obtain ⟨u', k, v, hu', hk, hv, hmem⟩ := he
      cases h.complete.name_inj hu hu'
      rw [hedges] at hmem
      exact ⟨(k, l, v), Table.mem_toList.mpr hmem, p, t, hk, hv, rfl⟩
  · rw [returnSuccessors_of_none (h.node?_eq_none hs)]
    refine iff_of_false List.not_mem_nil ?_
    rintro ⟨u, k, v, hu, -⟩
    exact hs (h.mem_states.mpr ⟨u, hu⟩)

omit [Std.LawfulEqOrd L] in
/-- What is listed of a state are edges between states of the result. -/
theorem states_of_mem_labelled {edges : Node S L → Table L (FinSet Nat)} {e : L × S}
    (he : e ∈ r.labelled s edges) : s ∈ r.states ∧ e.2 ∈ r.states := by
  cases hn : r.node? s with
  | none =>
    rw [labelled_of_none hn] at he
    cases he
  | some n =>
    rw [labelled_of_node hn] at he
    obtain ⟨d, -, t, ht, rfl⟩ := h.mem_named.mp he
    obtain ⟨u, hu, -⟩ := h.node?_eq_some_iff.mp hn
    exact ⟨h.mem_states.mpr ⟨u, hu⟩, h.mem_states.mpr ⟨_, ht⟩⟩

theorem states_of_mem_returnSuccessors {e : S × L × S} (he : e ∈ r.returnSuccessors s) :
    s ∈ r.states ∧ e.2.2 ∈ r.states := by
  obtain ⟨u, k, v, hu, -, hv, -⟩ := h.mem_returnSuccessors.mp he
  exact ⟨h.mem_states.mpr ⟨u, hu⟩, h.mem_states.mpr ⟨v, hv⟩⟩

theorem lists_returnSuccessors (hs : s ∈ r.states) : Lists (r.returnSuccessors s)
    fun (p, l, t) => (∃ w, op.Occurs ⟨s, p :: w⟩) ∧ l ∈ op.returnLetters s ∧
      t ∈ op.returnSuccessors s p l := by
  obtain ⟨u, hu⟩ := h.mem_states.mp hs
  refine ⟨h.nodup_returnSuccessors, fun e => ?_⟩
  obtain ⟨p, l, t⟩ := e
  refine h.mem_returnSuccessors.trans (Iff.trans ?_ (h.complete.ret_iff hu))
  constructor
  · intro he
    obtain ⟨u', k, v, hu', he⟩ := he
    cases h.complete.name_inj hu hu'
    exact ⟨k, v, he⟩
  · intro he
    obtain ⟨k, v, he⟩ := he
    exact ⟨u, k, v, hu, he⟩

/-- The returns of a state are those under its callers. -/
theorem mem_returnSuccessors_iff_paired : (p, l, t) ∈ r.returnSuccessors s ↔
    op.Paired (s, .caller p) ∧ l ∈ op.returnLetters s ∧ t ∈ op.returnSuccessors s p l := by
  rw [Operand.paired_caller_iff]
  by_cases hs : s ∈ r.states
  · exact (h.lists_returnSuccessors hs).2 (p, l, t)
  · rw [returnSuccessors_of_none (h.node?_eq_none hs)]
    refine iff_of_false List.not_mem_nil fun hop => hs ?_
    obtain ⟨w, ho⟩ := hop.1
    exact h.mem_states.mpr (h.complete.nameOf_iff.mpr ⟨_, ho⟩)

theorem nodup_summariesOf : (r.summariesOf p).Nodup := by
  cases hn : r.node? p with
  | none =>
    rw [summariesOf_of_none hn]
    exact .nil
  | some n =>
    rw [summariesOf_of_node hn]
    refine h.nodup_named (fun he => ?_) (h.nodup_named (fun he => ?_) (Table.nodup_toList _))
    · simp only [Prod.mk.injEq] at he
      exact ⟨he.2.2, fun hid => Prod.ext he.1 (Prod.ext he.2.1 hid)⟩
    · simp only [Prod.mk.injEq] at he
      exact ⟨he.2.1, fun hid => Prod.ext he.1 (Prod.ext hid he.2.2)⟩

/-- The calls that have returned are listed with the returns that end them. -/
theorem mem_summariesOf : (l, s, t) ∈ r.summariesOf p ↔ (p, l, t) ∈ r.returnSuccessors s := by
  rw [h.mem_returnSuccessors]
  by_cases hp : p ∈ r.states
  · obtain ⟨k, n, hk, hn, hn'⟩ := h.node?_of_mem hp
    have hedges : a.summaries k = n.summaries := h.remarked.read hn fun _ _ => rfl
    rw [summariesOf_of_node hn', h.mem_named_named]
    constructor
    · intro he
      obtain ⟨⟨l', u, v⟩, hedge, s', t', hu, hv, heq⟩ := he
      cases heq
      refine ⟨u, k, v, hu, hk, hv, h.complete.linked.summary.mpr ?_⟩
      show _ ∈ a.summaries k
      rw [hedges]
      exact Table.mem_toList.mp hedge
    · intro he
      obtain ⟨u, k', v, hu, hk', hv, hmem⟩ := he
      cases h.complete.name_inj hk hk'
      have hmem : (l, u, v) ∈ a.summaries k := h.complete.linked.summary.mp hmem
      rw [hedges] at hmem
      exact ⟨(l, u, v), Table.mem_toList.mpr hmem, s, t, hu, hv, rfl⟩
  · rw [summariesOf_of_none (h.node?_eq_none hp)]
    refine iff_of_false List.not_mem_nil ?_
    rintro ⟨u, k, v, -, hk, -⟩
    exact hp (h.mem_states.mpr ⟨k, hk⟩)

variable [DecidableEq L]

theorem lists_summarySuccessors : Lists (r.summarySuccessors p l) fun (s, t) =>
    (p, l, t) ∈ r.returnSuccessors s := by
  unfold summarySuccessors
  refine ⟨h.nodup_summariesOf.filterMap fun e e' y hy hy' => ?_, fun e => ?_⟩
  · obtain ⟨b, s, t⟩ := e
    obtain ⟨b', s', t'⟩ := e'
    simp only [Option.mem_def, Option.ite_none_right_eq_some, Option.some.injEq] at hy hy'
    rw [hy.1, hy'.1, hy.2, hy'.2]
  · obtain ⟨s, t⟩ := e
    show _ ↔ (p, l, t) ∈ r.returnSuccessors s
    rw [← h.mem_summariesOf, List.mem_filterMap]
    constructor
    · intro he
      obtain ⟨⟨b, s', t'⟩, hmem, heq⟩ := he
      simp only [Option.ite_none_right_eq_some, Option.some.injEq] at heq
      rw [← heq.1, ← heq.2]
      exact hmem
    · intro hmem
      exact ⟨(l, s, t), hmem, if_pos rfl⟩

end Exact

end Reachable

namespace Computation

open Reachable

variable [DecidableEq L] [Std.LawfulEqOrd L]

/-- The transitions of a state that occurs are all those of the operand, the returns under
the callers with which it occurs; summaries are the returns seen from the caller. A state
that does not occur has none. -/
theorem transitions_exactly (h : Returns op settings r) :
    (∀ s ∈ r.states,
      Lists (r.internalSuccessors s) (fun (l, t) =>
        l ∈ op.internalLetters s ∧ t ∈ op.internalSuccessors s l) ∧
      Lists (r.callSuccessors s) (fun (l, t) =>
        l ∈ op.callLetters s ∧ t ∈ op.callSuccessors s l) ∧
      Lists (r.returnSuccessors s) fun (p, l, t) =>
        (∃ w, op.Occurs ⟨s, p :: w⟩) ∧ l ∈ op.returnLetters s ∧ t ∈ op.returnSuccessors s p l) ∧
    (∀ p l, Lists (r.summarySuccessors p l) fun (s, t) => (p, l, t) ∈ r.returnSuccessors s) ∧
    ∀ s, s ∉ r.states → r.internalSuccessors s = [] ∧ r.callSuccessors s = [] ∧
      r.returnSuccessors s = [] ∧ ∀ l, r.summarySuccessors s l = [] := by
  obtain ⟨a, ha, -⟩ := h.exact
  refine ⟨fun s hs => ⟨ha.lists_internalSuccessors hs, ha.lists_callSuccessors hs,
    ha.lists_returnSuccessors hs⟩, fun p l => ha.lists_summarySuccessors, fun s hs => ?_⟩
  have hnone := ha.node?_eq_none hs
  refine ⟨labelled_of_none hnone _, labelled_of_none hnone _, returnSuccessors_of_none hnone,
    fun l => ?_⟩
  rw [summarySuccessors, summariesOf_of_none hnone]
  rfl

theorem transitions_exactly_recursion : ∃ r, Returns recursion.operand {} r ∧
    ("proc", "r", "exit") ∈ r.returnSuccessors "exit" ∧
    ∃ w, recursion.operand.Occurs ⟨"exit", "proc" :: w⟩ := by
  have hany : (result? (run recursion.operand {} .unbounded 40)).any (fun r =>
      r.states.contains "exit" && (r.returnSuccessors "exit").contains ("proc", "r", "exit")) =
        true := by decide +kernel
  obtain ⟨r, hr, hfound⟩ := (Option.any_eq_true _ _).mp hany
  simp only [Bool.and_eq_true, List.contains_eq_mem, decide_eq_true_eq] at hfound
  have hreturns := returns_of_result hr
  obtain ⟨-, -, -, hret⟩ := (transitions_exactly hreturns).1 "exit" hfound.1
  exact ⟨r, hreturns, hfound.2, ((hret _).mp hfound.2).1⟩

end Computation

end NestedWords
