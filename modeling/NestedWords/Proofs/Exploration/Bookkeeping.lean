import NestedWords.Proofs.Exploration.Obligations

/-!
# The bookkeeping holds throughout

`Arena.Consistent` says of an arena, in terms of its fields alone, that all its redundant parts
agree: ids and names, members and the components that the states name, stack tops and those of
the entries, the two indices, the candidates, and the borders. `Arena.checkComponents` looks at
most of this between items, and at borders only `Arena.checkFixpoint` does, at the end. In truth
all of it holds between any two items (`Between.consistent`), the borders of components that have
lost all their members included.
-/

namespace NestedWords

variable {S L : Type} [Ord L] [Std.TransOrd L]

namespace Arena

variable [DecidableEq S]

/-- All that an arena holds in several places is the same everywhere. -/
structure Consistent (a : Arena S L) : Prop where
  /-- Ids and names belong to each other one to one. -/
  interned : ∀ {s : S} {u : Nat}, a.idOf s = some u ↔ ∃ n, a.nodes[u]? = some n ∧ n.name = s
  housed : ∀ {u : Nat} {n : Node S L}, a.nodes[u]? = some n →
    ∃ c, a.components[n.component]? = some c
  members : ∀ {k : Nat} {c : Component}, a.components[k]? = some c →
    ∀ {u}, u ∈ c.members ↔ ∃ n, a.nodes[u]? = some n ∧ n.component = k
  downs : ∀ {k : Nat} {c : Component}, a.components[k]? = some c →
    ∀ {d : Down Nat}, d ∈ c.downs ↔ ∃ e ∈ c.entries, ∃ ds, a.entries[e]? = some ds ∧ d ∈ ds
  /-- A set of entries has at most one component. -/
  distinct : ∀ {i j : Nat} {c d : Component}, a.components[i]? = some c →
    a.components[j]? = some d → c.entries = d.entries → i = j
  byEntries : ∀ {l : List Nat} {k : Nat}, a.componentByEntries[l]? = some k ↔
    ∃ c : Component, a.components[k]? = some c ∧ c.entries.toList = l
  ofEntry : ∀ {e k : Nat}, k ∈ a.componentsOfEntry.getD e ∅ ↔
    ∃ c : Component, a.components[k]? = some c ∧ e ∈ c.entries
  candidates : ∀ {k : Nat} {c : Component}, a.components[k]? = some c →
    ∀ {u}, u ∈ c.candidates ↔ u ∈ c.members ∧ ∃ n, a.nodes[u]? = some n ∧ n.candidate = true
  /-- Exploration decides by its letters whether a state may have returns. -/
  decided : ∀ {u : Nat} {n : Node S L}, a.nodes[u]? = some n → n.explored = true →
    (n.candidate = true ↔ n.returnLetters ≠ ∅)
  /-- An entry reaches itself. -/
  homed : ∀ {e}, e ∈ a.entries → ∃ c, a.componentAt? e = some c ∧ e ∈ c.entries
  /-- A border maps the members that reach other components to what they reach there. -/
  borders : ∀ {k : Nat} {c : Component}, a.components[k]? = some c →
    ∀ {u : Nat} {F}, c.border[u]? = some F ↔
      u ∈ c.members ∧ F ≠ ∅ ∧ ∀ v, v ∈ F ↔
        v ∈ a.successorsWithin u ∧ ∃ n, a.nodes[v]? = some n ∧ n.component ≠ k

/-! ## From the invariant -/

variable {a : Arena S L} {u k : Nat}

omit [Std.TransOrd L] [DecidableEq S] in
theorem home_eq_some : a.home u = some k ↔ ∃ n, a.nodes[u]? = some n ∧ n.component = k := by
  unfold home field
  cases a.nodes[u]? <;> simp

omit [Std.TransOrd L] in
/-- A state is found by its name, and by no other. -/
theorem WellFormed.idOf_eq_some_iff (ha : a.WellFormed) {s : S} :
    a.idOf s = some u ↔ ∃ n, a.nodes[u]? = some n ∧ n.name = s := by
  constructor
  · exact fun h => exists_node_of_nameOf (Arena.idOf_eq_some h)
  · rintro ⟨n, hn, rfl⟩
    have hu : a.nameOf u = some n.name := field_eq hn
    cases hid : a.idOf n.name with
    | none => exact absurd hu (idOf_eq_none hid)
    | some v => rw [ha.name_inj (Arena.idOf_eq_some hid) hu]

omit [Std.TransOrd L] [DecidableEq S] in
theorem mem_entryDowns_iff_exists {e : Nat} {d : Down Nat} :
    d ∈ a.entryDowns e ↔ ∃ ds, a.entries[e]? = some ds ∧ d ∈ ds := by
  rw [entryDowns, Std.ExtTreeMap.getD_eq_getD_getElem?]
  cases a.entries[e]? <;> simp

omit [Std.TransOrd L] [DecidableEq S] in
/-- The components that have an entry are there. -/
theorem mem_entriesIn_iff {e : Nat} :
    e ∈ a.entriesIn k ↔ ∃ c, a.components[k]? = some c ∧ e ∈ c.entries := by
  unfold entriesIn part
  cases a.components[k]? <;> simp

omit [Std.TransOrd L] [DecidableEq S] in
theorem WellFormed.mem_downs_iff (ha : a.WellFormed) {c : Component}
    (hc : a.components[k]? = some c) {d : Down Nat} :
    d ∈ c.downs ↔ ∃ e ∈ c.entries, ∃ ds, a.entries[e]? = some ds ∧ d ∈ ds := by
  have hdowns : a.downsIn k = c.downs := part_eq hc
  have hentries : a.entriesIn k = c.entries := part_eq hc
  rw [← hdowns, ha.mem_downs, hentries]
  simp only [mem_entryDowns_iff_exists]

/-- The borders of an arena lead from the members of each component to other components, and
mention all edges that do. -/
def BordersExact (a : Arena S L) : Prop :=
  ∀ {k : Nat} {c : Component}, a.components[k]? = some c → ∀ {u : Nat} {F}, c.border[u]? = some F ↔
    u ∈ c.members ∧ F ≠ ∅ ∧ ∀ v, v ∈ F ↔
      v ∈ a.successorsWithin u ∧ ∃ n, a.nodes[v]? = some n ∧ n.component ≠ k

omit [DecidableEq S] in
theorem Bordered.bordersExact [Std.LawfulEqOrd L] (hwf : a.WellFormed) (hl : a.chart.Linked)
    (hb : a.Bordered a.chart.Edge) : a.BordersExact := by
  intro k c hc u F
  have hborder : a.borderIn k = c.border := part_eq hc
  have hmembers : a.membersIn k = c.members := part_eq hc
  rw [← hborder, ← hmembers, hwf.mem_members, hb.getElem?_borderIn]
  refine and_congr_right fun _ => and_congr_right fun _ => forall_congr' fun v => ?_
  refine iff_congr Iff.rfl ((and_congr_right fun hedge => ?_).trans (and_congr_left' edge_chart))
  -- what an edge leads to is a state, and so is in some component
  obtain ⟨n, hn⟩ := exists_node ((inRange hl).successors (edge_chart.mp hedge))
  simp [home, field_eq hn, hn]

theorem consistent_of_settled [Std.LawfulEqOrd L] {op : Operand S L} {x : Snapshot S L}
    (hx : Settled op x) : x.arena.Consistent where
  interned := hx.wellFormed.idOf_eq_some_iff
  housed hn := exists_component (hx.wellFormed.home_lt (home_eq_some.mpr ⟨_, hn, rfl⟩))
  members {k c} hc u := (hx.wellFormed.mem_members_iff hc).trans home_eq_some
  downs hc := hx.wellFormed.mem_downs_iff hc
  distinct {i j c d} hc hd heq := by
    have hi : x.arena.entriesIn i = c.entries := part_eq hc
    have hj : x.arena.entriesIn j = d.entries := part_eq hd
    exact hx.wellFormed.component_unique (Array.getElem?_eq_some_iff.mp hc).1
      (Array.getElem?_eq_some_iff.mp hd).1 (by rw [hi, hj, heq])
  byEntries {l k} := by
    rw [hx.wellFormed.byEntries]
    constructor
    · rintro ⟨hk, rfl⟩
      obtain ⟨c, hc⟩ := exists_component hk
      exact ⟨c, hc, by rw [entriesIn, part_eq hc]⟩
    · rintro ⟨c, hc, rfl⟩
      exact ⟨(Array.getElem?_eq_some_iff.mp hc).1, by rw [entriesIn, part_eq hc]⟩
  ofEntry := hx.wellFormed.ofEntry.trans mem_entriesIn_iff
  candidates {k c} hc u := by
    have hcandidates : x.arena.candidatesIn k = c.candidates := part_eq hc
    have hmembers : x.arena.membersIn k = c.members := part_eq hc
    rw [← hcandidates, ← hmembers, hx.wellFormed.mem_candidates, hx.wellFormed.mem_members]
    refine and_congr_right fun hk => ?_
    obtain ⟨n, hn, -⟩ := home_eq_some.mp hk
    simp [candidate, field_eq hn, hn]
  decided {u n} hn hexplored := by
    have hcandidate : x.chart.candidate u = n.candidate := field_eq hn
    have hletters : x.chart.returnLetters u = n.returnLetters := field_eq hn
    rw [← hcandidate, ← hletters]
    refine ⟨fun hc hempty => ?_, fun hne => ?_⟩
    · rw [hx.sound.silent ((field_eq hn).trans hexplored) hempty] at hc
      cases hc
    · cases hc : x.chart.candidate u with
      | true => rfl
      | false => exact absurd (hx.sound.candidate hc).2 hne
  homed {e} he := by
    have hentry := hx.homed he
    obtain ⟨c, hc, hentries, -⟩ := hx.wellFormed.componentAt?_spec hentry.lt_size
    exact ⟨c, hc, hentries.mpr hentry⟩
  borders := Bordered.bordersExact hx.wellFormed hx.linked hx.bordered

end Arena

/-! ## In a run -/

namespace Exploration

variable [DecidableEq S] [Std.LawfulEqOrd L] {op : Operand S L} {settings : Settings}
  {monitor : Monitor} {x : Exploration S L}

/-- After seeding and after every work item all places of the arena agree. -/
theorem Between.consistent (h : Between op settings monitor x) : x.arena.Consistent :=
  Arena.consistent_of_settled h.settled

/-- Two initial states, each of which leads to the other. -/
def turning : Automaton String String :=
  .ofFacts [.initial "i", .initial "j", .internal "i" "a" "j", .internal "j" "a" "i"]

/-- The second state has just left its component for a larger one, and borders have followed. -/
theorem Between.consistent_turning : ∃ x, after turning.operand {} .unbounded 2 = some x ∧
    x.arena.components.toList.map (fun c => (c.entries.toList, c.members.toList,
      c.border[0]?.map (·.toList))) =
        [([0], [0], some [1]), ([1], [], none), ([0, 1], [1], none)] ∧
    x.arena.Consistent := by
  have hany : (after turning.operand {} .unbounded 2).any (fun x =>
      x.arena.components.toList.map (fun c => (c.entries.toList, c.members.toList,
        c.border[0]?.map (·.toList))) =
          [([0], [0], some [1]), ([1], [], none), ([0, 1], [1], none)]) = true := by
    cbv
  obtain ⟨x, hx, hcomponents⟩ := (Option.any_eq_true _ _).mp hany
  exact ⟨x, hx, of_decide_eq_true hcomponents, consistent (of_after hx)⟩

end Exploration

end NestedWords
