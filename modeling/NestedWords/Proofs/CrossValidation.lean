import NestedWords.Proofs.Reachable.Transitions

/-!
# A second look agrees

An operand that answers alike each time gives `crossValidate` nothing to complain about: the
flags and the transitions of a result are those of the operand
(`Exact.crossValidate_yields`). Each of the three kinds of transitions is compared letter by letter,
and `Exact.checkTargets_eq_ok` says once for all of them what makes that succeed.
-/

namespace NestedWords

variable {S L : Type} [DecidableEq S] [Ord L] [Std.TransOrd L]

namespace Reachable.Exact

open Arena CrossValidation

variable {op : Operand S L} {r : Reachable S L} {a : Arena S L} (h : r.Exact op a) {u : Nat}
include h

/-- States that were found have ids. -/
theorem idsOf_eq_ok (names : List S) (hnames : ∀ t ∈ names, ∃ v, a.chart.nameOf v = some t) :
    ∃ ids, idsOf r.arena names = .ok ids ∧
      ∀ v, v ∈ ids ↔ ∃ t ∈ names, a.chart.nameOf v = some t := by
  have hid : ∀ t ∈ names, ∃ v, r.arena.idOf t = some v := fun t ht =>
    (hnames t ht).imp fun v hv => h.idOf_eq_some_iff.mpr hv
  have hids : idsOf r.arena names =
      .ok (Std.ExtTreeSet.ofList (names.map fun t => (r.arena.idOf t).getD 0)) := by
    rw [idsOf, mapM_ok (g := fun t => (r.arena.idOf t).getD 0) fun t ht => by
      obtain ⟨v, hv⟩ := hid t ht
      rw [hv]
      rfl]
    rfl
  refine ⟨_, hids, fun v => ?_⟩
  rw [Std.ExtTreeSet.mem_ofList, List.contains_iff_mem, List.mem_map]
  refine exists_congr fun t => and_congr_right fun ht => ?_
  obtain ⟨w, hw⟩ := hid t ht
  rw [← h.idOf_eq_some_iff]
  show _ ↔ r.arena.idOf t = some v
  rw [hw, Option.getD_some, Option.some_inj]

variable [Std.LawfulEqOrd L]

/-- Known targets that are the answers of the operand are what is found again. -/
theorem checkTargets_eq_ok {letters : FinSet L} {known : Table L (FinSet Nat)}
    {question : L → Query S L} {answer : L → List S} {fault : Fault S}
    (hknown : ∀ l ∈ letters, ∀ t, t ∈ answer l ↔ ∃ v, a.chart.nameOf v = some t ∧ (l, v) ∈ known)
    (hnamed : ∀ l v, (l, v) ∈ known → ∃ t, a.chart.nameOf v = some t) :
    checkTargets r.arena letters known question answer fault =
      .ok (letters.toList.map question) := by
  refine mapM_ok fun l hl => ?_
  have hletter := hknown l (Std.ExtTreeSet.mem_toList.mp hl)
  obtain ⟨ids, hids, hmem⟩ := h.idsOf_eq_ok (answer l) fun t ht =>
    ((hletter t).mp ht).imp fun v hv => hv.1
  have hsame : known.row l = ids := by
    refine Std.ExtTreeSet.ext_mem fun v => ?_
    rw [hmem]
    constructor
    · intro he
      obtain ⟨t, ht⟩ := hnamed l v he
      exact ⟨t, (hletter t).mpr ⟨v, ht, he⟩, ht⟩
    · rintro ⟨t, ht, hv⟩
      obtain ⟨w, hw, he⟩ := (hletter t).mp ht
      rwa [h.complete.name_inj hv hw]
  rw [bind_of_eq_ok hids, bind_of_eq_ok (ensure_eq_ok (beq_iff_eq.mpr hsame))]
  rfl

variable {n : Node S L} (hn : r.arena.nodes[u]? = some n)
include hn

omit [Std.LawfulEqOrd L] in
theorem checkFlags_yields : ∃ asked, checkFlags op n = .ok asked := by
  have hu := h.nameOf_of_node hn
  have hinitial : a.chart.isInitial u = n.isInitial := h.remarked.read hn fun _ _ => rfl
  have hfinal : a.chart.isFinal u = n.isFinal := h.remarked.read hn fun _ _ => rfl
  have hstarts : n.isInitial = op.initial.contains n.name := by
    rw [← hinitial, Bool.eq_iff_iff, List.contains_iff_mem]
    constructor
    · exact h.complete.sound.isInitial hu
    · intro hs
      obtain ⟨v, hv, hi, -⟩ := h.complete.starts _ hs
      rwa [h.complete.name_inj hu hv]
  rw [checkFlags, bind_of_eq_ok (ensure_eq_ok (beq_iff_eq.mpr hstarts)),
    bind_of_eq_ok (ensure_eq_ok (beq_iff_eq.mpr (hfinal ▸ h.complete.sound.isFinal hu)))]
  exact ⟨_, rfl⟩

/-- Edges of a state that are the transitions under the letters are what is found again, and as no
letter is kept without an edge there are no other letters. -/
theorem checkEdges_eq_ok (edges : Node S L → Table L (FinSet Nat)) {letters : FinSet L}
    {question : L → Query S L} {answer : L → List S} {fault fault' : Fault S}
    (hmark : ∀ n m, edges { n with mark := m } = edges n)
    (hfilled : Row.Filled (a.field edges ∅ u))
    (hedges : ∀ {l t}, (∃ v, a.chart.nameOf v = some t ∧ (l, v) ∈ a.field edges ∅ u) ↔
      l ∈ letters ∧ t ∈ answer l)
    (hnamed : ∀ {l v}, (l, v) ∈ a.field edges ∅ u → ∃ t, a.chart.nameOf v = some t) :
    checkEdges r.arena letters (edges n) question answer fault fault' =
      .ok (letters.toList.map question) := by
  rw [h.remarked.read hn hmark] at hfilled hedges hnamed
  have htargets : checkTargets r.arena letters (edges n) question answer fault =
      .ok (letters.toList.map question) :=
    h.checkTargets_eq_ok (fun l hl t => by rw [hedges, and_iff_right hl]) fun _ _ => hnamed
  have hletters : (edges n).keys.all letters.contains = true := by
    refine List.all_eq_true.mpr fun l hl => Std.ExtTreeSet.contains_iff_mem.mpr ?_
    obtain ⟨v, he⟩ := (Table.mem_keys_iff hfilled).mp hl
    obtain ⟨t, ht⟩ := hnamed he
    exact (hedges.mp ⟨v, ht, he⟩).1
  rw [checkEdges, bind_of_eq_ok htargets, bind_of_eq_ok (ensure_eq_ok hletters)]
  rfl

theorem checkInternal_yields : ∃ asked, checkInternal r.arena op n = .ok asked := by
  rw [checkInternal, bind_of_eq_ok (h.checkEdges_eq_ok hn (·.internalOut) (fun _ _ => rfl)
    (h.complete.linked.filled u).internalOut
    (h.complete.internal_iff (h.nameOf_of_node hn)) fun he => ?_)]
  · exact ⟨_, rfl⟩
  · obtain ⟨-, t, -, ht, -⟩ := h.complete.sound.internal he
    exact ⟨t, ht⟩

theorem checkCall_yields : ∃ asked, checkCall r.arena op n = .ok asked := by
  rw [checkCall, bind_of_eq_ok (h.checkEdges_eq_ok hn (·.callOut) (fun _ _ => rfl)
    (h.complete.linked.filled u).callOut
    (h.complete.call_iff (h.nameOf_of_node hn)) fun he => ?_)]
  · exact ⟨_, rfl⟩
  · obtain ⟨-, t, -, ht, -⟩ := h.complete.sound.call he
    exact ⟨t, ht⟩

theorem checkReturn_yields {p : Nat} (hp : p ∈ n.examined) :
    ∃ asked, checkReturn r.arena op n p = .ok asked := by
  have hu := h.nameOf_of_node hn
  have hout : a.returnOut u = n.returnOut := h.remarked.read hn fun _ _ => rfl
  have hexamined : a.chart.examined u = n.examined := h.remarked.read hn fun _ _ => rfl
  obtain ⟨s, q, hs, hq, hall⟩ := h.complete.returns (h.complete.sound.examined (hexamined ▸ hp))
  cases hu.symm.trans hs
  have hunder : ∀ l v, (l, v) ∈ n.returnOut.row p ↔ (p, l, v) ∈ a.returnOut u := fun l v => by
    rw [hout]
    exact Iff.rfl
  have hname : r.arena.name p = .ok q := name_eq_ok (h.nameOf_eq.trans hq)
  rw [checkReturn, bind_of_eq_ok hname, bind_of_eq_ok (h.checkTargets_eq_ok ?_ ?_)]
  · exact ⟨_, rfl⟩
  · intro l hl t
    simp only [hunder]
    constructor
    · exact hall l hl t
    · rintro ⟨v, hv, he⟩
      obtain ⟨s', q', t', hs', hq', ht', -, hsucc⟩ := h.complete.sound.ret he
      cases hu.symm.trans hs'
      cases hq.symm.trans hq'
      cases hv.symm.trans ht'
      exact hsucc
  · intro l v he
    obtain ⟨-, -, t, -, -, ht, -⟩ := h.complete.sound.ret ((hunder l v).mp he)
    exact ⟨t, ht⟩

variable [DecidableEq L]

omit hn in
/-- A second look at the operand agrees with the result. -/
theorem crossValidate_yields : ∃ asked, crossValidate r.arena op = .ok asked := by
  have hnodes : ∃ asked, r.arena.nodes.toList.mapM (checkNode r.arena op) = .ok asked := by
    refine mapM_yields fun n hn => ?_
    obtain ⟨u, hu⟩ := Array.getElem?_of_mem (Array.mem_toList_iff.mp hn)
    obtain ⟨flags, hflags⟩ := h.checkFlags_yields hu
    obtain ⟨internal, hinternal⟩ := h.checkInternal_yields hu
    obtain ⟨call, hcall⟩ := h.checkCall_yields hu
    obtain ⟨returns, hreturns⟩ := mapM_yields (l := n.examined.toList) fun p hp =>
      h.checkReturn_yields hu (Std.ExtTreeSet.mem_toList.mp hp)
    rw [checkNode, bind_of_eq_ok hflags, bind_of_eq_ok hinternal, bind_of_eq_ok hcall,
      bind_of_eq_ok hreturns]
    exact ⟨_, rfl⟩
  obtain ⟨asked, hasked⟩ := hnodes
  rw [crossValidate, bind_of_eq_ok hasked]
  exact ⟨_, rfl⟩

end Reachable.Exact

end NestedWords
