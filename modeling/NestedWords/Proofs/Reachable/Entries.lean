import NestedWords.Proofs.Reachable.Emptiness
import NestedWords.Proofs.Renaming

/-!
# What a result says of entries

The components of a result are named by their entries, which says in full what they are. In
terms of the operand: an entry is what is entered, as an initial state or by a call that occurs,
and the entries of a state are those that lead to it within a call, by internal transitions and
by calls that have returned (`Exact.mem_entriesOf`). The record of an entry holds the stack tops
with which it is entered (`Exact.entryLiveness_isSome_iff`), each marked as live if the
double-decker is. Nothing is, if dead ends were not computed (`Returns.isLiveDoubleDecker_iff`).
-/

namespace NestedWords

open Relation

variable {S L : Type} [DecidableEq S] [Ord L] [Std.TransOrd L]
  {op : Operand S L} {settings : Settings} {r : Reachable S L}

/-- The entries of a state's component, in the order of discovery. -/
def Reachable.entriesOf (r : Reachable S L) (s : S) : List S :=
  match (r.node? s).bind fun n => r.arena.components[n.component]? with
  | some c => r.names c.entries.toList
  | none => []

/-! ## On the arena -/

namespace Complete

variable {a : Arena S L} (ha : Complete op a) {s t : S} {u v : Nat}
include ha

omit [DecidableEq S]

/-- An edge within a call is one of the operand. -/
theorem follows_of_edge (hu : a.chart.nameOf u = some s) (hv : a.chart.nameOf v = some t)
    (he : a.chart.Edge u v) : op.Follows s t := by
  rcases he with ⟨l, he⟩ | ⟨l, p, he⟩
  · exact .inl ⟨l, (ha.internal_iff hu).mp ⟨v, hv, he⟩⟩
  · have hret := ha.linked.summary.mpr he
    obtain ⟨q, h, t', hq, hh, ht', hop⟩ := ha.sound.ret hret
    cases hu.symm.trans hh
    cases hv.symm.trans ht'
    have hd : a.chart.Tops (.caller u) (.caller s) := ⟨s, hu, rfl⟩
    exact .inr ⟨q, (ha.hasDown_iff hq hd).mp (ha.sound.below hret), l, hop⟩

/-- What the operand has follow a state is on the chart. -/
theorem exists_edge (hu : a.chart.nameOf u = some s) (hf : op.Follows s t) :
    ∃ v, a.chart.nameOf v = some t ∧ a.chart.Edge u v := by
  rcases hf with ⟨l, hop⟩ | ⟨q, hq, l, hop⟩
  · obtain ⟨v, hv, he⟩ := (ha.internal_iff hu).mpr hop
    exact ⟨v, hv, .inl ⟨l, he⟩⟩
  · obtain ⟨w, hw, ho⟩ := hq
    cases w with
    | nil => cases hw
    | cons h w =>
      cases hw
      obtain ⟨p, hp⟩ := ha.nameOf_iff.mpr ⟨_, ho⟩
      obtain ⟨k, v, hk, hv, he⟩ := (ha.ret_iff hp).mpr ⟨⟨w, ho⟩, hop⟩
      cases ha.name_inj hk hu
      exact ⟨v, hv, .inr ⟨l, p, ha.linked.summary.mp he⟩⟩

/-- What the operand has a state lead to is on the chart, with a path to it. -/
theorem exists_reaches {e : Nat} (he : a.chart.nameOf e = some s)
    (hsteps : ReflTransGen op.Follows s t) :
    ∃ u, a.chart.nameOf u = some t ∧ a.chart.Reaches e u := by
  induction hsteps with
  | refl => exact ⟨e, he, .refl⟩
  | tail _ hstep ih =>
    obtain ⟨v, hv, hreaches⟩ := ih
    obtain ⟨u, hu, hedge⟩ := ha.exists_edge hv hstep
    exact ⟨u, hu, hreaches.tail hedge⟩

/-- Paths on the chart are those of the operand. -/
theorem reaches_iff {e : Nat} (he : a.chart.nameOf e = some s) (hu : a.chart.nameOf u = some t) :
    a.chart.Reaches e u ↔ ReflTransGen op.Follows s t := by
  constructor
  · intro hreaches
    induction hreaches generalizing t with
    | refl => cases he.symm.trans hu; exact .refl
    | tail _ hedge ih =>
      obtain ⟨q, -, hq, -, -⟩ := ha.sound.flows_of_edge ha.linked hedge
      exact (ih hq).tail (ha.follows_of_edge hq hu hedge)
  · intro hsteps
    obtain ⟨v, hv, hreaches⟩ := ha.exists_reaches he hsteps
    exact ha.name_inj hv hu ▸ hreaches

/-- A state has the entries that reach it. -/
theorem hasEntry_iff {e : Nat} :
    a.chart.HasEntry u e ↔ a.chart.IsEntry e ∧ a.chart.Reaches e u := by
  constructor
  · intro he
    exact ⟨ha.wellFormed.isEntry he.choose_spec.2, ha.traced he⟩
  · rintro ⟨he, hreaches⟩
    induction hreaches with
    | refl => exact ha.homed he
    | tail _ hedge ih => exact ha.passed hedge ih

/-- The stack tops of an entry are those with which it is entered. -/
theorem entryDown_iff {e : Nat} {d : Down Nat} {D : Down S} (he : a.chart.nameOf e = some s)
    (hd : a.chart.Tops d D) : a.chart.EntryDown e d ↔ op.Entered s D := by
  cases d with
  | bottom =>
    cases hd
    refine ⟨fun h => ha.sound.bottom h he, fun hi => ?_⟩
    obtain ⟨u, hu, -, -, hdown⟩ := ha.starts s hi
    rwa [ha.name_inj he hu]
  | caller p =>
    obtain ⟨q, hp, rfl⟩ := hd
    constructor
    · intro h
      obtain ⟨l, hl⟩ := ha.sound.caller h
      exact ⟨ha.nameOf_iff.mp ⟨p, hp⟩, l, (ha.call_iff hp).mp ⟨e, he, hl⟩⟩
    · rintro ⟨-, l, hl, hs⟩
      obtain ⟨q', hq, hall⟩ := ha.calls hp
      cases hp.symm.trans hq
      obtain ⟨v, hv, -, -, hdown⟩ := hall l hl s hs
      rwa [ha.name_inj he hv]

/-- What is entered has been found. -/
theorem exists_entryDown {D : Down S} (h : op.Entered s D) :
    ∃ e d, a.chart.nameOf e = some s ∧ a.chart.Tops d D ∧ a.chart.EntryDown e d := by
  cases D with
  | bottom =>
    obtain ⟨e, he, -⟩ := ha.starts s h
    exact ⟨e, .bottom, he, rfl, (ha.entryDown_iff (d := .bottom) he rfl).mpr h⟩
  | caller q =>
    obtain ⟨ho, l, hl, hs⟩ := h
    obtain ⟨p, hp⟩ := ha.nameOf_iff.mpr ho
    obtain ⟨e, he, -⟩ := (ha.call_iff hp).mpr ⟨hl, hs⟩
    have hd : a.chart.Tops (.caller p) (.caller q) := ⟨q, hp, rfl⟩
    exact ⟨e, .caller p, he, hd, (ha.entryDown_iff he hd).mpr ⟨ho, l, hl, hs⟩⟩

/-- An entry is what is entered in some way. -/
theorem isEntry_iff {e : Nat} (he : a.chart.nameOf e = some s) :
    a.chart.IsEntry e ↔ ∃ D, op.Entered s D := by
  constructor
  · intro hentry
    rcases ha.sound.entered hentry he with hi | ⟨p, q, l, hp, -, hl, hs⟩
    · exact ⟨.bottom, hi⟩
    · exact ⟨.caller q, ha.nameOf_iff.mp ⟨p, hp⟩, l, hl, hs⟩
  · rintro ⟨D, hD⟩
    obtain ⟨e', d, he', -, hdown⟩ := ha.exists_entryDown hD
    rw [ha.name_inj he he']
    exact Arena.mem_entries_of_mem hdown

end Complete

/-! ## On the result -/

namespace Reachable.Exact

open Arena

variable {a : Arena S L} (h : r.Exact op a) {s e : S}
include h

omit [DecidableEq S] in
theorem mem_names {ids : List Nat} :
    s ∈ r.names ids ↔ ∃ u ∈ ids, a.chart.nameOf u = some s := by
  unfold names
  rw [List.mem_filterMap]
  refine exists_congr fun u => and_congr_right fun _ => ?_
  rw [Option.map_eq_some_iff]
  constructor
  · rintro ⟨n, hn, rfl⟩
    exact h.nameOf_of_node hn
  · exact h.exists_node

/-- The entries of a state's component are what is entered and leads to the state. -/
theorem mem_entriesOf : e ∈ r.entriesOf s ↔
    s ∈ r.states ∧ (∃ D, op.Entered e D) ∧ ReflTransGen op.Follows e s := by
  by_cases hs : s ∈ r.states
  · obtain ⟨u, n, hu, hn, hn'⟩ := h.node?_of_mem hs
    have hhome : a.home u = some n.component := h.remarked.read hn fun _ _ => rfl
    obtain ⟨c, hc⟩ := exists_component (h.complete.wellFormed.home_lt hhome)
    have hentries : a.entriesIn n.component = c.entries := part_eq hc
    have hmem : ∀ {i}, i ∈ c.entries ↔ a.chart.HasEntry u i := by
      intro i
      rw [← hentries]
      exact (hasEntry_of_home hhome).symm
    have hof : r.entriesOf s = r.names c.entries.toList := by
      rw [entriesOf, hn', Option.bind_some, h.remarked.components, hc]
    rw [hof, h.mem_names]
    simp only [Std.ExtTreeSet.mem_toList, hmem, h.complete.hasEntry_iff, hs, true_and]
    constructor
    · rintro ⟨i, ⟨hentry, hreaches⟩, hi⟩
      exact ⟨(h.complete.isEntry_iff hi).mp hentry, (h.complete.reaches_iff hi hu).mp hreaches⟩
    · rintro ⟨⟨D, hD⟩, hsteps⟩
      obtain ⟨i, d, hi, -⟩ := h.complete.exists_entryDown hD
      exact ⟨i,
        ⟨(h.complete.isEntry_iff hi).mpr ⟨D, hD⟩, (h.complete.reaches_iff hi hu).mpr hsteps⟩,
        hi⟩
  · have hof : r.entriesOf s = [] := by
      rw [entriesOf, h.node?_eq_none hs]
      rfl
    simp [hof, hs]

/-- An entry has a record of the stack tops with which it is entered, and of no others. -/
theorem entryLiveness_isSome_iff {D : Down S} : (r.entryLiveness s D).isSome ↔ op.Entered s D := by
  rw [Option.isSome_iff_exists]
  simp only [h.entryLiveness_eq_some_iff]
  constructor
  · rintro ⟨m, e, d, he, hd, hm⟩
    have hdown : a.chart.EntryDown e d :=
      h.remarked.mem_entryDowns.mp (mem_entryDowns_iff.mpr ⟨m, hm⟩)
    exact (h.complete.entryDown_iff he hd).mp hdown
  · intro hD
    obtain ⟨e, d, he, hd, hdown⟩ := h.complete.exists_entryDown hD
    obtain ⟨m, hm⟩ := mem_entryDowns_iff.mp (h.remarked.mem_entryDowns.mpr hdown)
    exact ⟨m, e, d, he, hd, hm⟩

end Reachable.Exact

/-! ## Liveness, computed or not -/

namespace Computation.Returns

variable [Std.LawfulEqOrd L] [DecidableEq L] (h : Returns op settings r) {s : S} {D : Down S}
include h

/-- Nothing is live if dead ends were not computed. -/
theorem isLiveDoubleDecker_iff : r.isLiveDoubleDecker s D = true ↔
    settings.computeDeadEnds = true ∧ op.PairLive (s, D) := by
  cases hd : settings.computeDeadEnds with
  | true =>
    obtain ⟨a, ha, hm⟩ := h.exact
    simp [ha.isLiveDoubleDecker_iff (hm hd)]
  | false =>
    obtain ⟨-, hlive⟩ := h.unmarked hd
    refine iff_of_false (fun hdd => ?_) (by simp)
    unfold Reachable.isLiveDoubleDecker at hdd
    rw [hlive] at hdd
    split at hdd
    · simp at hdd
    · cases hdd

theorem mem_liveStates_iff : s ∈ r.liveStates ↔
    settings.computeDeadEnds = true ∧ ∃ D, op.PairLive (s, D) := by
  cases hd : settings.computeDeadEnds with
  | true =>
    obtain ⟨a, ha, hm⟩ := h.exact
    simp [ha.mem_liveStates, ha.isLive_iff (hm hd)]
  | false =>
    obtain ⟨ha, -⟩ := h.unmarked hd
    refine iff_of_false (fun hs => ?_) (by simp)
    rw [ha.mem_liveStates, Reachable.isLive, beq_iff_eq, Reachable.reachProp,
      Option.map_eq_some_iff] at hs
    obtain ⟨n, hn, hmark⟩ := hs
    obtain ⟨u, -, hu⟩ := ha.mark_of_node? hn
    have hunmarked : r.arena.mark u = .reachable := ha.complete.unmarked u
    rw [hu, hmark] at hunmarked
    cases hunmarked

theorem entryLiveness_eq_noDeadEnd_iff_entered : r.entryLiveness s D = some .noDeadEnd ↔
    op.Entered s D ∧ settings.computeDeadEnds = true ∧ op.PairLive (s, D) := by
  cases hd : settings.computeDeadEnds with
  | true =>
    obtain ⟨a, ha, hm⟩ := h.exact
    rw [ha.entryLiveness_eq_noDeadEnd_iff (hm hd)]
    refine and_congr ⟨?_, ha.complete.exists_entryDown⟩ (by simp)
    rintro ⟨e, d, he, hd, hdown⟩
    exact (ha.complete.entryDown_iff he hd).mp hdown
  | false =>
    obtain ⟨ha, -⟩ := h.unmarked hd
    refine iff_of_false (fun hs => ?_) (by simp)
    obtain ⟨e, d, -, -, hmark⟩ := ha.entryLiveness_eq_some_iff.mp hs
    cases ha.complete.wellFormed.entryMark hmark

end Computation.Returns

end NestedWords
