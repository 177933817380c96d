import Mathlib.Data.List.Permutation
import Std.Data.TreeMap.Iterator
import NestedWords.Automaton
import NestedWords.Proofs.Exploration.Run

/-!
# What a component is

A component is named by its entries, and `reconcile` moves states between components as edges
and entries are discovered. `ComponentsExact` says that this comes out right: the entries of a
state's component are those that reach the state along the recorded edges, and its stack tops
are those of these entries.

This is not so at every moment. A new edge adds what its target is reached from, and the
component of the target catches up by a reconciliation of its own, as do the components
beyond. What holds throughout (`Settled`) is that the entries of a state reach it (`Traced`)
and that they spread along every edge or wait with an item to do so (`Spread`). So the
components are exact whenever no reconciliation is pending (`Settled.componentsExact`), and
as reconciliations go first this is whenever another item is taken
(`Between.components_exact`).
-/

namespace NestedWords

variable {S L : Type} [Ord L] [Std.TransOrd L]
  {op : Operand S L}

namespace Arena

/-- The one state follows the other within its call, by an internal transition or by the
return to it from a call that it makes. -/
def Follows (a : Arena S L) (r t : Nat) : Prop :=
  (∃ l, (l, t) ∈ a.internalOut r) ∨ ∃ l u, (r, l, t) ∈ a.returnOut u

/-- The state is entered with the stack top: an initial state with the empty stack, the target
of a call with its caller. -/
def Opens (op : Operand S L) (a : Arena S L) (e : Nat) : Down Nat → Prop
  | .bottom => ∃ s ∈ op.initial, a.nameOf e = some s
  | .caller c => ∃ l, (l, e) ∈ a.callOut c

/-- The component of a state has just the entries from which the state is reached within its
call, and just the stack tops with which these are entered. -/
def ComponentsExact (op : Operand S L) (a : Arena S L) : Prop :=
  ∀ u n, a.nodes[u]? = some n → ∃ c, a.components[n.component]? = some c ∧
    (∀ e, e ∈ c.entries ↔ (∃ d, a.Opens op e d) ∧ Relation.ReflTransGen a.Follows e u) ∧
    ∀ d, d ∈ c.downs ↔ ∃ e, a.Opens op e d ∧ Relation.ReflTransGen a.Follows e u

end Arena

/-! ## From the invariant -/

namespace Settled

variable {x : Snapshot S L} (hx : Settled op x)
include hx

/-- A called state is an entry under its caller. -/
theorem entryDown_of_call {p e : Nat} {q s : S} {l : L} (hp : x.chart.nameOf p = some q)
    (hexp : x.chart.explored p = true) (hl : l ∈ op.callLetters q)
    (hs : s ∈ op.callSuccessors q l) (he : x.chart.nameOf e = some s) :
    x.chart.EntryDown e (.caller p) := by
  obtain ⟨q', hq, hall⟩ := hx.calls hexp
  rw [hp] at hq
  cases hq
  obtain ⟨v, hv, -, -, hd⟩ := hall l hl s hs
  rwa [hx.wellFormed.name_inj he hv]

/-- An initial state is an entry under the empty stack. -/
theorem entryDown_of_initial {e : Nat} {s : S} (hs : s ∈ op.initial)
    (he : x.chart.nameOf e = some s) : x.chart.EntryDown e .bottom := by
  obtain ⟨u, hu, -, -, hd⟩ := hx.starts s hs
  rwa [hx.wellFormed.name_inj he hu]

/-- The stack tops of an entry are those with which it is entered. -/
theorem entryDown_iff {e : Nat} {d : Down Nat} :
    x.chart.EntryDown e d ↔ x.arena.Opens op e d := by
  cases d with
  | bottom =>
    constructor
    · intro hd
      obtain ⟨s, hs⟩ := hx.named (Arena.mem_entries_of_mem hd)
      exact ⟨s, hx.sound.bottom hd hs, hs⟩
    · rintro ⟨s, hs, he⟩
      exact hx.entryDown_of_initial hs he
  | caller p =>
    constructor
    · exact hx.sound.caller
    · rintro ⟨l, hl⟩
      obtain ⟨q, s, hp, he, hl', hs⟩ := hx.sound.call hl
      exact hx.entryDown_of_call hp (hx.sound.calling hl) hl' hs he

/-- Only what is entered is an entry. -/
theorem isEntry_iff {e : Nat} : x.chart.IsEntry e ↔ ∃ d, x.arena.Opens op e d := by
  constructor
  · intro he
    obtain ⟨s, hs⟩ := hx.named he
    rcases hx.sound.entered he hs with hi | ⟨p, q, l, hp, hexp, hl, hsucc⟩
    · exact ⟨.bottom, hx.entryDown_iff.mp (hx.entryDown_of_initial hi hs)⟩
    · exact ⟨.caller p, hx.entryDown_iff.mp (hx.entryDown_of_call hp hexp hl hsucc hs)⟩
  · rintro ⟨d, hd⟩
    exact Arena.mem_entries_of_mem (hx.entryDown_iff.mpr hd)

/-- A summary edge is a return seen from the caller. -/
theorem edge_eq : x.chart.Edge = x.arena.Follows := by
  funext r t
  refine propext (or_congr_right ?_)
  exact exists_congr fun l => exists_congr fun u => hx.linked.summary.symm

/-- With no reconciliation pending, the entries of a state are those that reach it. -/
theorem hasEntry_iff (hnone : ∀ i ∈ x.items, ¬ i.IsReconcile) {u e : Nat} :
    x.chart.HasEntry u e ↔ x.chart.IsEntry e ∧ x.chart.Reaches e u := by
  constructor
  · intro he
    exact ⟨hx.wellFormed.isEntry he.choose_spec.2, hx.traced.reached he⟩
  · rintro ⟨he, hreaches⟩
    -- along the path: each edge has passed the entry on, as no item is left that would have to
    induction hreaches with
    | refl => exact hx.homed he
    | tail _ hedge ih =>
      rcases hx.spread hedge with hall | ⟨k, hk, -⟩
      · exact hall ih
      · exact absurd ⟨_, _, rfl⟩ (hnone _ hk)

theorem componentsExact (hnone : ∀ i ∈ x.items, ¬ i.IsReconcile) :
    x.arena.ComponentsExact op := by
  have hentry : ∀ {u e}, x.chart.HasEntry u e ↔
      (∃ d, x.arena.Opens op e d) ∧ Relation.ReflTransGen x.arena.Follows e u := by
    intro u e
    rw [hx.hasEntry_iff hnone, hx.isEntry_iff, Chart.Reaches, hx.edge_eq]
  intro u n hn
  have hhome : x.arena.home u = some n.component := Arena.field_eq hn
  obtain ⟨c, hc⟩ := Arena.exists_component (hx.wellFormed.home_lt hhome)
  have hentries : x.arena.entriesIn n.component = c.entries := Arena.part_eq hc
  have hdowns : x.arena.downsIn n.component = c.downs := Arena.part_eq hc
  refine ⟨c, hc, fun e => ?_, fun d => ?_⟩
  · rw [← hentries, ← hentry]
    exact (Arena.hasEntry_of_home hhome).symm
  · rw [← hdowns, ← Arena.hasDown_of_home hhome, ← hx.wellFormed.hasDown_chart]
    constructor
    · rintro ⟨e, he, hd⟩
      exact ⟨e, hx.entryDown_iff.mp hd, (hentry.mp he).2⟩
    · rintro ⟨e, hd, hreaches⟩
      exact ⟨e, hentry.mpr ⟨⟨d, hd⟩, hreaches⟩, hx.entryDown_iff.mpr hd⟩

end Settled

/-! ## In a run -/

namespace Exploration

/-- The exploration that a run has come to the end of. -/
def finished? : Except (Fault S) (Option (Turn S L)) → Option (Exploration S L)
  | .ok (some (.finished x)) => some x
  | _ => none

omit [Std.TransOrd L] in
theorem eq_ok_of_finished {r : Except (Fault S) (Option (Turn S L))} {x : Exploration S L}
    (h : finished? r = some x) : r = .ok (some (.finished x)) := by
  unfold finished? at h
  split at h
  · cases h; rfl
  · cases h

variable [DecidableEq S]

/-- The exploration is at a point between two work items of a run, or at its fixpoint. -/
inductive Between (op : Operand S L) (settings : Settings) (monitor : Monitor) :
    Exploration S L → Prop
  | seeded {x : Exploration S L} (h : seed op = .ok x) :
    Between op settings monitor (x.report (.seeded x.arena.size))
  | continues {x y : Exploration S L} (hx : Between op settings monitor x)
    (h : turn op settings monitor x = .ok (.continues y)) : Between op settings monitor y
  | finished {x y : Exploration S L} (hx : Between op settings monitor x)
    (h : turn op settings monitor x = .ok (.finished y)) : Between op settings monitor y

namespace Between

variable {settings : Settings} {monitor : Monitor} {x y : Exploration S L}

theorem of_run {fuel : Nat} (hx : Between op settings monitor x)
    (h : run op settings monitor fuel x = .ok (some (.finished y))) :
    Between op settings monitor y := by
  induction fuel generalizing x with
  | zero => cases h
  | succ fuel ih =>
    rw [run] at h
    obtain ⟨t, ht, h⟩ := bind_eq_ok h
    cases t with
    | continues z => exact ih (hx.continues ht) h
    | finished z => cases h; exact hx.finished ht
    | cancelled z => cases h

/-- What a run ends with is such an exploration. -/
theorem of_start {fuel : Nat} (h : start op settings monitor fuel = .ok (some (.finished x))) :
    Between op settings monitor x := by
  obtain ⟨y, hy, h⟩ := bind_eq_ok h
  exact of_run (.seeded hy) h

theorem of_finished {fuel : Nat} (h : finished? (start op settings monitor fuel) = some x) :
    Between op settings monitor x :=
  of_start (eq_ok_of_finished h)

variable [Std.LawfulEqOrd L]

theorem settled (h : Between op settings monitor x) : Settled op x.snapshot := by
  induction h with
  | seeded h =>
    have hseed := seed_yields.of_eq_ok h
    exact hseed
  | continues _ h ih => exact settled_of_turn ih h
  | finished _ h ih => exact (settled_of_turn ih h).1

omit [Std.LawfulEqOrd L] in
theorem sorted (h : Between op settings monitor x) : x.pending.Sorted := by
  induction h with
  | seeded h =>
    have hseed := sorted_of_seed h
    exact hseed
  | continues _ h ih => exact sorted_of_turn ih h
  | finished _ h ih => exact sorted_of_turn ih h

/-- Whenever no reconciliation is pending, in particular when another item is taken and at the
fixpoint, a component has just the entries and the stack tops that it should have. -/
theorem components_exact (h : Between op settings monitor x) :
    ((∀ i ∈ x.pending.items, ¬ i.IsReconcile) → x.arena.ComponentsExact op) ∧
    (∀ item w, x.pending.pop = some (item, w) → ¬ item.IsReconcile →
      x.arena.ComponentsExact op) ∧
    (x.pending.pop = none → x.arena.ComponentsExact op) := by
  have hexact := h.settled.componentsExact
  refine ⟨hexact, fun item w hpop hitem => ?_, fun hpop => hexact fun i hi => ?_⟩
  · exact hexact (h.sorted.not_isReconcile_of_pop hpop hitem)
  · rw [snapshot, Worklist.pop_eq_none.mp hpop] at hi
    cases hi

/-- Two initial states whose paths join before a state that calls one of them. -/
def joining : Automaton String String :=
  .ofFacts [.initial "i", .initial "j", .internal "i" "a" "m", .internal "m" "a" "t",
    .internal "j" "a" "m", .call "t" "c" "j"]

theorem components_exact_joining : ∃ x, Between joining.operand {} .unbounded x ∧
    x.pending.pop = none ∧ x.arena.ComponentsExact joining.operand ∧
    x.arena.components.toList.map (fun c => (c.entries.toList, c.downs.toList)) =
      [([0], [.bottom]), ([1], [.bottom, .caller 3]), ([0, 1], [.bottom, .caller 3])] := by
  have hany : (finished? (start joining.operand {} .unbounded 40)).any (fun x =>
      x.pending.pop = none ∧
      x.arena.components.toList.map (fun c => (c.entries.toList, c.downs.toList)) =
        [([0], [.bottom]), ([1], [.bottom, .caller 3]), ([0, 1], [.bottom, .caller 3])]) =
      true := by
    cbv
  obtain ⟨x, hx, hshape⟩ := (Option.any_eq_true _ _).mp hany
  obtain ⟨hpop, hcomponents⟩ := of_decide_eq_true hshape
  have hbetween := of_finished hx
  exact ⟨x, hbetween, hpop, (components_exact hbetween).2.2 hpop, hcomponents⟩

end Between

end Exploration

end NestedWords
