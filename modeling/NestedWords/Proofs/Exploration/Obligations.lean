import NestedWords.Proofs.Exploration.Components

/-!
# No work is lost

Between two work items whatever an exploration still owes waits on the worklist: a state that
is not explored, an edge along which entries have not spread, a stack top under which the
returns of a state are not known. `NothingLost` says this of the arena and the items, with no
reference to how they came about. It follows from the invariant `Settled`, and so holds after
seeding and after every item (`Between.nothingLost`).

Items name states and components that may change before their turn comes. That an item for an
edge still carries all that it has to is a matter of components never losing entries, and that
an examination still makes sense is one of states never losing stack tops.
-/

namespace NestedWords

variable {S L : Type} [Ord L] [Std.TransOrd L]

/-- The component of a state. -/
def Arena.componentAt? (a : Arena S L) (u : Nat) : Option Component := do
  let n ← a.nodes[u]?
  a.components[n.component]?

namespace Exploration

/-- Every obligation is met or waits on the worklist, and what waits or was done is justified. -/
structure NothingLost (x : Exploration S L) : Prop where
  /-- A state waits for its exploration as long as it is unexplored, and once. -/
  waiting : ∀ {u n}, x.arena.nodes[u]? = some n →
    (n.explored = false ↔ x.pending.items.count (.explore u) = 1) ∧
      (n.explored = true → .explore u ∉ x.pending.items)
  /-- Entries have spread along an edge within a call, or a reconciliation will carry them. -/
  spreading : ∀ {r t}, t ∈ x.arena.successorsWithin r → ∃ c d,
    x.arena.componentAt? r = some c ∧ x.arena.componentAt? t = some d ∧
      ((∀ e ∈ c.entries, e ∈ d.entries) ∨ ∃ k k', .reconcile k t ∈ x.pending.items ∧
        x.arena.components[k]? = some k' ∧ ∀ e ∈ c.entries, e ∈ k'.entries)
  /-- The returns of an explored candidate are known under a caller, or will be. -/
  examining : ∀ {u n}, x.arena.nodes[u]? = some n → n.explored = true → n.candidate = true →
    ∃ c, x.arena.componentAt? u = some c ∧
      ∀ h, .caller h ∈ c.downs → h ∈ n.examined ∨ .examine u h ∈ x.pending.items
  /-- Returns are asked for only of explored states, and under callers that they have. -/
  justified : ∀ {u h}, (.examine u h ∈ x.pending.items ∨ h ∈ x.arena.examined u) →
    x.arena.explored u = true ∧ ∃ c, x.arena.componentAt? u = some c ∧ .caller h ∈ c.downs

end Exploration

/-! ## From the invariant -/

namespace Arena

variable {a : Arena S L} {u k : Nat} {c : Component}

omit [Std.TransOrd L] in
theorem WellFormed.componentAt?_eq (ha : a.WellFormed) (hu : u < a.size) : ∃ k c,
    a.home u = some k ∧ a.components[k]? = some c ∧ a.componentAt? u = some c := by
  obtain ⟨n, hn⟩ := exists_node hu
  have hk : a.home u = some n.component := field_eq hn
  obtain ⟨c, hc⟩ := exists_component (ha.home_lt hk)
  refine ⟨n.component, c, hk, hc, ?_⟩
  rw [componentAt?, hn]
  exact hc

omit [Std.TransOrd L] in
/-- The component of a state has the state's entries and stack tops. -/
theorem WellFormed.componentAt?_spec (ha : a.WellFormed) (hu : u < a.size) : ∃ c,
    a.componentAt? u = some c ∧ (∀ {e}, e ∈ c.entries ↔ a.chart.HasEntry u e) ∧
      ∀ {d}, d ∈ c.downs ↔ a.chart.HasDown u d := by
  obtain ⟨k, c, hk, hc, hat⟩ := ha.componentAt?_eq hu
  have hentries : a.entriesIn k = c.entries := part_eq hc
  have hdowns : a.downsIn k = c.downs := part_eq hc
  refine ⟨c, hat, fun {e} => ?_, fun {d} => ?_⟩
  · rw [← hentries]
    exact (hasEntry_of_home hk).symm
  · rw [← hdowns, ha.hasDown_chart]
    exact (hasDown_of_home hk).symm

end Arena

namespace Exploration

variable {op : Operand S L} {x : Exploration S L}

/-- A state occurs on the worklist as unexplored if it is. -/
theorem waiting_of_settled (hx : Settled op x.snapshot) {u : Nat} {n : Node S L}
    (hn : x.arena.nodes[u]? = some n) :
    x.pending.items.count (.explore u) = if n.explored = false then 1 else 0 := by
  have hname : x.snapshot.chart.nameOf u = some n.name := Arena.field_eq hn
  have hexplored : x.snapshot.chart.explored u = n.explored := Arena.field_eq hn
  have hcount : x.pending.items.count (.explore u) = _ := hx.unexplored u
  rw [hname, hexplored] at hcount
  simpa using hcount

variable [Std.LawfulEqOrd L]

theorem nothingLost_of_settled (hx : Settled op x.snapshot) : x.NothingLost where
  waiting {u n} hn := by
    have hcount := waiting_of_settled hx hn
    refine ⟨?_, fun hexplored hmem => ?_⟩
    · rw [hcount]
      cases n.explored <;> simp
    · rw [hexplored] at hcount
      exact absurd (List.count_pos_iff.mpr hmem) (by simp [hcount])
  spreading {r t} hedge := by
    have hedge' : x.snapshot.chart.Edge r t := Arena.edge_chart.mpr hedge
    obtain ⟨s, s', hr, ht, -⟩ := hx.sound.flows_of_edge hx.linked hedge'
    obtain ⟨c, hc, hcentries, -⟩ := hx.wellFormed.componentAt?_spec (Arena.lt_size_of_nameOf hr)
    obtain ⟨d, hd, hdentries, -⟩ := hx.wellFormed.componentAt?_spec (Arena.lt_size_of_nameOf ht)
    refine ⟨c, d, hc, hd, ?_⟩
    rcases hx.spread hedge' with hall | ⟨k, hk, hall⟩
    · exact .inl fun e he => hdentries.mpr (hall (hcentries.mp he))
    · obtain ⟨k', hk'⟩ := Arena.exists_component (hx.due hk).1
      have hentries : x.arena.entriesIn k = k'.entries := Arena.part_eq hk'
      exact .inr ⟨k, k', hk, hk', fun e he => hentries ▸ hall (hcentries.mp he)⟩
  examining {u n} hn hexplored hcandidate := by
    have hlt := Arena.lt_size_of_nameOf (a := x.arena) (Arena.field_eq hn)
    obtain ⟨c, hc, -, hdowns⟩ := hx.wellFormed.componentAt?_spec hlt
    have hexamined : x.arena.examined u = n.examined := Arena.field_eq hn
    refine ⟨c, hc, fun h hd => ?_⟩
    rw [← hexamined]
    exact hx.awaited ((Arena.field_eq hn).trans hexplored) ((Arena.field_eq hn).trans hcandidate)
      (hdowns.mp hd)
  justified {u h} hdone := by
    have hdown : x.snapshot.chart.explored u = true ∧ x.snapshot.chart.HasDown u (.caller h) := by
      rcases hdone with hi | hm
      · exact hx.due hi
      · exact ⟨hx.sound.asked hm, hx.sound.examined hm⟩
    have hlt := (hx.wellFormed.hasDown_chart.mp hdown.2).lt_size
    obtain ⟨c, hc, -, hdowns⟩ := hx.wellFormed.componentAt?_spec hlt
    exact ⟨hdown.1, c, hc, hdowns.mpr hdown.2⟩

/-! ## In a run -/

variable [DecidableEq S] {settings : Settings} {monitor : Monitor}

/-- The exploration after so many work items; nothing if it ends before, or with a fault. -/
def after (op : Operand S L) (settings : Settings) (monitor : Monitor) :
    Nat → Option (Exploration S L)
  | 0 => (seed op).toOption.map fun x => x.report (.seeded x.arena.size)
  | n + 1 => do
    match turn op settings monitor (← after op settings monitor n) with
    | .ok (.continues x) => some x
    | _ => none

omit [Std.LawfulEqOrd L] in
theorem Between.of_after {n : Nat} (h : after op settings monitor n = some x) :
    Between op settings monitor x := by
  induction n generalizing x with
  | zero =>
    rw [after] at h
    cases hseed : seed op with
    | error e => rw [hseed] at h; cases h
    | ok y => rw [hseed] at h; cases h; exact .seeded hseed
  | succ n ih =>
    obtain ⟨y, hy, h⟩ := Option.bind_eq_some_iff.mp h
    split at h
    · next z hturn => cases h; exact (ih hy).continues hturn
    · cases h

/-- After seeding and after every work item all that an exploration owes is pending. -/
theorem Between.nothingLost (h : Between op settings monitor x) : x.NothingLost :=
  nothingLost_of_settled h.settled

/-- The second path into a state has just been found, and what it brings is yet to be carried. -/
theorem Between.nothingLost_joining : ∃ x, after joining.operand {} .unbounded 2 = some x ∧
    x.pending.items = [.reconcile 1 2, .explore 2] ∧ x.NothingLost := by
  have hany : (after joining.operand {} .unbounded 2).any (fun x =>
      x.pending.items = [.reconcile 1 2, .explore 2]) = true := by
    cbv
  obtain ⟨x, hx, hitems⟩ := (Option.any_eq_true _ _).mp hany
  exact ⟨x, hx, of_decide_eq_true hitems, nothingLost (of_after hx)⟩

end Exploration

end NestedWords
