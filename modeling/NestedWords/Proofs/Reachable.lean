import NestedWords.Proofs.Liveness.Exact
import NestedWords.Reachable
import NestedWords.Automaton
import Mathlib.Data.List.Nodup

/-!
# What a result says

`Computation.Returns` says that a computation ends with a result. The result then rests on a
complete arena (`Returns.exact`) of which at most the marks were changed afterwards, so each
question about it is answered from the arena: `Exact.mem_states`, `Exact.isDoubleDecker_iff`
and `Exact.mem_downStates`. With the exactness of the arena, `reached_exactly` is what the
caller is told: the states and stack tops of the result are those that occur.
-/

namespace NestedWords

variable {S L : Type} [DecidableEq S] [Ord L] [Std.TransOrd L] [DecidableEq L]
  {op : Operand S L} {settings : Settings} {r : Reachable S L}

namespace Computation

/-- Some computation on the operand ends with the result, whatever the monitor. -/
def Returns (op : Operand S L) (settings : Settings) (r : Reachable S L) : Prop :=
  ∃ monitor fuel c, run op settings monitor fuel = .ok (some c) ∧ c.outcome = .reached r

/-- The result that a computation ended with. -/
def result? : Except (Fault S) (Option (Computation S L)) → Option (Reachable S L)
  | .ok (some ⟨.reached r, _⟩) => some r
  | _ => none

theorem returns_of_result {monitor : Monitor} {fuel : Nat}
    (h : result? (run op settings monitor fuel) = some r) : Returns op settings r := by
  unfold result? at h
  split at h
  · next r' log hrun =>
    cases h
    exact ⟨monitor, fuel, _, hrun, rfl⟩
  · cases h

theorem conclude_eq_ok {x : Exploration S L} {c : Computation S L}
    (h : conclude op settings x = .ok c) : ∃ r, c.outcome = .reached r ∧
      if settings.computeDeadEnds then ∃ m, Liveness.compute x.arena = .ok m ∧
        r = { arena := m.arena, live := m.live, deadEndsComputed := true }
      else r = { arena := x.arena, deadEndsComputed := false } := by
  unfold conclude at h
  dsimp only at h
  rcases ite_bind_eq_ok h with ⟨_, h⟩ | h
  all_goals
    split at h
    · next hd =>
      obtain ⟨m, hm, h⟩ := bind_eq_ok h
      rcases ite_bind_eq_ok h with ⟨_, h⟩ | h <;> cases h
      all_goals exact ⟨_, rfl, by rw [if_pos hd]; exact ⟨m, hm, rfl⟩⟩
    · next hd =>
      rcases ite_bind_eq_ok h with ⟨_, h⟩ | h <;> cases h
      all_goals exact ⟨_, rfl, by rw [if_neg hd]⟩

/-- A computation ends with what is concluded from a finished exploration, or cancelled. -/
theorem run_eq_ok {monitor : Monitor} {fuel : Nat} {c : Computation S L}
    (h : run op settings monitor fuel = .ok (some c)) :
    (∃ x, Exploration.start op settings monitor fuel = .ok (some (.finished x)) ∧
      conclude op settings x = .ok c) ∨
    ∃ x, Exploration.start op settings monitor fuel = .ok (some (.cancelled x)) ∧
      c = { outcome := .cancelled x.explored, log := x.log } := by
  obtain ⟨t, hstart, h⟩ := bind_eq_ok h
  split at h
  · next x =>
    obtain ⟨c', hc', h⟩ := bind_eq_ok h
    cases h
    exact .inl ⟨x, hstart, hc'⟩
  · next x =>
    cases h
    exact .inr ⟨x, hstart, rfl⟩
  · cases h

end Computation

namespace Reachable

open Arena

/-- The result rests on the arena, but for marks. -/
structure Exact (op : Operand S L) (r : Reachable S L) (a : Arena S L) : Prop where
  complete : Complete op a
  remarked : Remarked a r.arena

/-- The marks of the result are those of the double-deckers that can finish. -/
structure Marked (r : Reachable S L) (a : Arena S L) : Prop where
  mark_iff : ∀ {u}, r.arena.mark u = .noDeadEnd ↔ ∃ d, (u, d) ∈ r.live
  entryMark_iff : ∀ {e d}, r.arena.entryMark e d = some .noDeadEnd ↔
    d ∈ a.entryDowns e ∧ (e, d) ∈ r.live
  mem_live : ∀ {p}, p ∈ r.live ↔ a.chart.Finishes p

end Reachable

variable [Std.LawfulEqOrd L]

namespace Computation

/-- A result is what is concluded from a complete arena. -/
theorem Returns.concluded (h : Returns op settings r) : ∃ a, Complete op a ∧
    if settings.computeDeadEnds then ∃ m, Liveness.compute a = .ok m ∧
      r = { arena := m.arena, live := m.live, deadEndsComputed := true }
    else r = { arena := a, deadEndsComputed := false } := by
  obtain ⟨monitor, fuel, c, h, hr⟩ := h
  rcases run_eq_ok h with ⟨x, hstart, hc⟩ | ⟨x, hstart, rfl⟩
  · obtain ⟨hsettled, hitems⟩ := Exploration.settled_of_start hstart
    obtain ⟨r', hr', h⟩ := conclude_eq_ok hc
    rw [hr] at hr'
    cases hr'
    exact ⟨x.arena, hsettled.complete hitems, h⟩
  · cases hr

theorem Returns.exact (h : Returns op settings r) :
    ∃ a, r.Exact op a ∧ (settings.computeDeadEnds = true → r.Marked a) := by
  obtain ⟨a, ha, h⟩ := h.concluded
  split at h
  · obtain ⟨m, hm, rfl⟩ := h
    obtain ⟨hremarked, hmark, hentry, hlive⟩ := (Liveness.compute_yields ha).of_eq_ok hm
    exact ⟨a, ⟨ha, hremarked⟩, fun _ => ⟨hmark, hentry, hlive⟩⟩
  · next hd =>
    subst h
    exact ⟨a, ⟨ha, .refl _⟩, fun hd' => absurd hd' hd⟩

/-- A result says whether its dead ends were computed. -/
theorem Returns.deadEndsComputed_eq (h : Returns op settings r) :
    r.deadEndsComputed = settings.computeDeadEnds := by
  obtain ⟨a, -, h⟩ := h.concluded
  split at h
  · next hd =>
    obtain ⟨m, -, rfl⟩ := h
    exact hd.symm
  · next hd =>
    subst h
    exact (Bool.eq_false_iff.mpr hd).symm

/-- Without dead ends nothing is marked. -/
theorem Returns.unmarked (h : Returns op settings r) (hd : settings.computeDeadEnds = false) :
    r.Exact op r.arena ∧ r.live = ∅ := by
  obtain ⟨a, ha, h⟩ := h.concluded
  rw [hd] at h
  obtain rfl := h
  exact ⟨⟨ha, .refl _⟩, rfl⟩

end Computation

/-! ## Questions about a result -/

namespace Reachable

/-- The name of a stack top. -/
def nameDown (r : Reachable S L) : Down Nat → Option (Down S)
  | .bottom => some .bottom
  | .caller c => (r.arena.nodes[c]?).map fun n => .caller n.name

omit [Std.TransOrd L] [DecidableEq L] [Std.LawfulEqOrd L] in
theorem downStates_of_node {up : S} {n : Node S L} (hn : r.node? up = some n) :
    r.downStates up = (r.downIds n).toList.filterMap r.nameDown := by
  unfold downStates
  rw [hn]
  rfl

omit [Std.TransOrd L] [DecidableEq L] [Std.LawfulEqOrd L] in
theorem downStates_of_none {up : S} (hn : r.node? up = none) : r.downStates up = [] := by
  unfold downStates
  rw [hn]

end Reachable

namespace Reachable.Exact

open Arena

variable {a : Arena S L} (h : r.Exact op a) {s : S} {u : Nat}
include h

omit [DecidableEq S] [DecidableEq L] [Std.LawfulEqOrd L] in
theorem nameOf_eq : r.arena.nameOf u = a.chart.nameOf u := h.remarked.field (fun _ _ => rfl) u

omit [DecidableEq S] [DecidableEq L] [Std.LawfulEqOrd L] in
theorem exists_node (hu : a.chart.nameOf u = some s) :
    ∃ n, r.arena.nodes[u]? = some n ∧ n.name = s := by
  rw [← h.nameOf_eq] at hu
  exact exists_node_of_nameOf hu

omit [DecidableEq S] [DecidableEq L] [Std.LawfulEqOrd L] in
theorem nameOf_of_node {n : Node S L} (hn : r.arena.nodes[u]? = some n) :
    a.chart.nameOf u = some n.name := by
  rw [← h.nameOf_eq]
  exact field_eq hn

section
omit [DecidableEq L] [Std.LawfulEqOrd L]

theorem idOf_eq_some_iff : r.idOf s = some u ↔ a.chart.nameOf u = some s := by
  constructor
  · intro hid
    rw [← h.nameOf_eq]
    exact idOf_eq_some hid
  · intro hu
    cases hid : r.idOf s with
    | none => exact absurd (h.nameOf_eq.trans hu) (idOf_eq_none hid)
    | some v => rw [h.complete.name_inj (h.nameOf_eq.symm.trans (idOf_eq_some hid)) hu]

theorem node?_eq_some_iff {n : Node S L} :
    r.node? s = some n ↔ ∃ u, a.chart.nameOf u = some s ∧ r.arena.nodes[u]? = some n := by
  constructor
  · intro hn
    obtain ⟨u, hu⟩ := Array.getElem?_of_mem (Array.mem_of_find?_eq_some hn)
    have hs : n.name = s := by simpa using Array.find?_some hn
    exact ⟨u, hs ▸ h.nameOf_of_node hu, hu⟩
  · intro h
    obtain ⟨u, hu, hn⟩ := h
    have hs : n.name = s := Option.some.inj ((h.nameOf_of_node hn).symm.trans hu)
    cases hn' : r.node? s with
    | none =>
      have := Array.find?_eq_none.mp hn' n (Array.mem_of_getElem? hn)
      simp [hs] at this
    | some n' =>
      obtain ⟨v, hv⟩ := Array.getElem?_of_mem (Array.mem_of_find?_eq_some hn')
      have hs' : n'.name = s := by simpa using Array.find?_some hn'
      have huv : u = v := h.complete.name_inj hu (hs' ▸ h.nameOf_of_node hv)
      rw [← huv, hn] at hv
      exact hv.symm

/-- A node is found by its name. -/
theorem node?_name {n : Node S L} (hn : n ∈ r.nodes) : r.node? n.name = some n := by
  obtain ⟨u, hu⟩ := Array.getElem?_of_mem (Array.mem_toList_iff.mp hn)
  exact h.node?_eq_some_iff.mpr ⟨u, h.nameOf_of_node hu, hu⟩

/-- A final state is known by its node. -/
theorem isFinal_name {n : Node S L} (hn : n ∈ r.nodes) : r.isFinal n.name = n.isFinal := by
  rw [isFinal, h.node?_name hn, Option.any_some]

theorem finalStates_eq_filter : r.finalStates = r.states.filter r.isFinal := by
  rw [states, List.filter_map, finalStates]
  exact congrArg _ (List.filter_congr fun n hn => (h.isFinal_name hn).symm)

theorem downId_eq_some_iff {D : Down S} {d : Down Nat} :
    r.downId D = some d ↔ a.chart.Tops d D := by
  cases D with
  | bottom =>
    cases d with
    | bottom => exact iff_of_true rfl rfl
    | caller p => refine iff_of_false (by simp [downId]) ?_; rintro ⟨_, _, he⟩; cases he
  | caller s =>
    cases d with
    | bottom => exact iff_of_false (by simp [downId]) (by rintro ⟨⟩)
    | caller p =>
      rw [downId, Option.map_eq_some_iff]
      constructor
      · intro h
        obtain ⟨p', hp, he⟩ := h
        cases he
        exact ⟨s, h.idOf_eq_some_iff.mp hp, rfl⟩
      · intro h
        obtain ⟨s', hp, he⟩ := h
        cases he
        exact ⟨p, h.idOf_eq_some_iff.mpr hp, rfl⟩
end

omit [DecidableEq L] [Std.LawfulEqOrd L]

omit [DecidableEq S] in
theorem mem_downIds {n : Node S L} (hn : r.arena.nodes[u]? = some n) {d : Down Nat} :
    d ∈ r.downIds n ↔ a.chart.HasDown u d := by
  have hhome : a.home u = some n.component :=
    (h.remarked.field (fun _ _ => rfl) u).symm.trans (field_eq hn)
  rw [h.complete.wellFormed.hasDown_chart, hasDown_of_home hhome, downsIn, part, downIds,
    h.remarked.components]
  cases a.components[n.component]? <;> rfl

/-- A pair of names stands for the ids of a state and a stack top. -/
theorem isDoubleDecker_iff {up : S} {d : Down S} :
    r.isDoubleDecker up d = true ↔ op.Paired (up, d) := by
  constructor
  · intro hdd
    unfold isDoubleDecker at hdd
    split at hdd
    · next n e hn he =>
      obtain ⟨u, hu, hn⟩ := h.node?_eq_some_iff.mp hn
      have hdown := (h.mem_downIds hn).mp (Std.ExtTreeSet.contains_iff_mem.mp hdd)
      exact (h.complete.hasDown_iff hu (h.downId_eq_some_iff.mp he)).mp hdown
    · cases hdd
  · intro hp
    obtain ⟨⟨u, e⟩, ⟨hu, he⟩, hdown⟩ := h.complete.exists_denotes hp
    obtain ⟨n, hn, -⟩ := h.exists_node hu
    unfold isDoubleDecker
    rw [h.node?_eq_some_iff.mpr ⟨u, hu, hn⟩, h.downId_eq_some_iff.mpr he]
    exact Std.ExtTreeSet.contains_iff_mem.mpr ((h.mem_downIds hn).mpr hdown)

omit [DecidableEq S] in
theorem mem_states : s ∈ r.states ↔ ∃ u, a.chart.nameOf u = some s := by
  unfold states nodes
  rw [List.mem_map]
  constructor
  · intro h
    obtain ⟨n, hn, rfl⟩ := h
    obtain ⟨u, hu⟩ := Array.getElem?_of_mem (Array.mem_toList_iff.mp hn)
    exact ⟨u, h.nameOf_of_node hu⟩
  · intro h
    obtain ⟨u, hu⟩ := h
    obtain ⟨n, hn, hs⟩ := h.exists_node hu
    exact ⟨n, Array.mem_toList_iff.mpr (Array.mem_of_getElem? hn), hs⟩

omit [DecidableEq S] in
theorem nodup_states : r.states.Nodup := by
  unfold states nodes
  rw [List.nodup_iff_getElem?_ne_getElem?]
  intro i j hij hj he
  have hname : ∀ k, (r.arena.nodes.toList.map (·.name))[k]? = a.chart.nameOf k := by
    intro k
    rw [← h.nameOf_eq, nameOf, field, List.getElem?_map, Array.getElem?_toList]
    cases r.arena.nodes[k]? <;> rfl
  rw [hname, hname] at he
  obtain ⟨t, ht⟩ : ∃ t, a.chart.nameOf j = some t :=
    ⟨_, (hname j).symm.trans (List.getElem?_eq_getElem hj)⟩
  exact Nat.ne_of_lt hij (h.complete.name_inj (he.trans ht) ht)

omit [DecidableEq S] in
theorem nameDown_eq_some_iff {e : Down Nat} {d : Down S} :
    r.nameDown e = some d ↔ a.chart.Tops e d := by
  cases e with
  | bottom => exact Option.some_inj.trans eq_comm
  | caller c =>
    rw [nameDown, Option.map_eq_some_iff]
    constructor
    · intro h
      obtain ⟨n, hn, rfl⟩ := h
      exact ⟨n.name, h.nameOf_of_node hn, rfl⟩
    · intro h
      obtain ⟨t, ht, rfl⟩ := h
      obtain ⟨n, hn, rfl⟩ := h.exists_node ht
      exact ⟨n, hn, rfl⟩

theorem mem_downStates {up : S} {d : Down S} : d ∈ r.downStates up ↔ op.Paired (up, d) := by
  constructor
  · intro hd
    cases hn : r.node? up with
    | none =>
      rw [downStates_of_none hn] at hd
      cases hd
    | some n =>
      rw [downStates_of_node hn] at hd
      obtain ⟨u, hu, hn⟩ := h.node?_eq_some_iff.mp hn
      obtain ⟨e, he, hed⟩ := List.mem_filterMap.mp hd
      have hdown := (h.mem_downIds hn).mp (Std.ExtTreeSet.mem_toList.mp he)
      exact (h.complete.hasDown_iff hu (h.nameDown_eq_some_iff.mp hed)).mp hdown
  · intro hp
    obtain ⟨⟨u, e⟩, ⟨hu, he⟩, hdown⟩ := h.complete.exists_denotes hp
    obtain ⟨n, hn, -⟩ := h.exists_node hu
    rw [downStates_of_node (h.node?_eq_some_iff.mpr ⟨u, hu, hn⟩)]
    refine List.mem_filterMap.mpr ⟨e, ?_, h.nameDown_eq_some_iff.mpr he⟩
    exact Std.ExtTreeSet.mem_toList.mpr ((h.mem_downIds hn).mpr hdown)

theorem nodup_downStates {up : S} : (r.downStates up).Nodup := by
  cases hn : r.node? up with
  | none =>
    rw [downStates_of_none hn]
    exact .nil
  | some n =>
    rw [downStates_of_node hn]
    refine nodup_toList.filterMap fun e e' d he he' => ?_
    exact h.complete.tops_inj (h.nameDown_eq_some_iff.mp he) (h.nameDown_eq_some_iff.mp he')

end Reachable.Exact

namespace Computation

/-- The states of a result are those that occur, each listed once, and its double-deckers
are the states with the stack tops with which they occur. -/
theorem reached_exactly (h : Returns op settings r) :
    r.states.Nodup ∧ (∀ s, s ∈ r.states ↔ ∃ w, op.Occurs ⟨s, w⟩) ∧
    (∀ up, r.isDoubleDecker up .bottom = true ↔ op.Occurs ⟨up, []⟩) ∧
    (∀ up h, r.isDoubleDecker up (.caller h) = true ↔ ∃ w, op.Occurs ⟨up, h :: w⟩) ∧
    ∀ up, (r.downStates up).Nodup ∧ ∀ d, d ∈ r.downStates up ↔ r.isDoubleDecker up d = true := by
  obtain ⟨a, ha, -⟩ := h.exact
  refine ⟨ha.nodup_states, fun s => ha.mem_states.trans ha.complete.nameOf_iff, fun up => ?_,
    fun up h => ?_, fun up => ⟨ha.nodup_downStates, fun d => ?_⟩⟩
  · rw [ha.isDoubleDecker_iff]
    constructor
    · intro h
      obtain ⟨w, hw, ho⟩ := h
      cases w with
      | nil => exact ho
      | cons p w => cases hw
    · exact fun ho => ⟨[], rfl, ho⟩
  · rw [ha.isDoubleDecker_iff]
    constructor
    · intro h
      obtain ⟨w, hw, ho⟩ := h
      cases w with
      | nil => cases hw
      | cons p w => cases hw; exact ⟨w, ho⟩
    · intro h
      obtain ⟨w, ho⟩ := h
      exact ⟨h :: w, rfl, ho⟩
  · rw [ha.mem_downStates, ha.isDoubleDecker_iff]

/-- A procedure that calls itself and returns. -/
def recursion : Automaton String String :=
  .ofFacts [.initial "main", .call "main" "c" "proc", .call "proc" "c" "proc",
    .internal "proc" "i" "exit", .ret "exit" "proc" "r" "exit", .ret "exit" "main" "r" "done",
    .final "done"]

theorem reached_exactly_recursion : ∃ r, Returns recursion.operand {} r ∧
    r.isDoubleDecker "exit" (.caller "proc") = true ∧
    ∃ w, recursion.operand.Occurs ⟨"exit", "proc" :: w⟩ := by
  have hany : (result? (run recursion.operand {} .unbounded 40)).any
      (·.isDoubleDecker "exit" (.caller "proc")) = true := by decide +kernel
  obtain ⟨r, hr, hdd⟩ := (Option.any_eq_true _ _).mp hany
  have hreturns := returns_of_result hr
  exact ⟨r, hreturns, hdd, ((reached_exactly hreturns).2.2.2.1 _ _).mp hdd⟩

end Computation

end NestedWords
