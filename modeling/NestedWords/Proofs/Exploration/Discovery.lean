import NestedWords.Proofs.Exploration.Reconcile

/-!
# Discovery

A name that comes up is either known or becomes a new state: in the component of the state it
was reached from (`discover_yields`), or as an entry with a component of its own
(`discoverEntry_yields`). A call target that was known before becomes an entry, and is
reconciled with itself (`enter_yields`). In each case the exploration stays steady, and
nothing that it had is lost.
-/

namespace NestedWords.Exploration

open Arena

variable {S L : Type} [Ord L] {op : Operand S L}

/-! ## A new state -/

section
variable {x y : Snapshot S L} {u k : Nat} {name : S} {isInitial : Bool}

/-- `y` is `x` with a new state that waits for its exploration. -/
structure Discovered (op : Operand S L) (x : Snapshot S L) (u : Nat) (name : S) (isInitial : Bool)
    (k : Nat) (y : Snapshot S L) : Prop where
  fresh : x.arena.size = u
  wellFormed : y.arena.WellFormed
  chart : y.chart = x.chart.addState u name isInitial (op.isFinal name) k
  mem_items : ∀ {i}, i ∈ y.items ↔ i ∈ x.items ∨ i = .explore u
  count_items : ∀ v, y.items.count (.explore v) =
    x.items.count (.explore v) + if WorkItem.explore u = .explore v then 1 else 0
  home : ∀ v, y.arena.home v = if v = u then some k else x.arena.home v
  borderIn : ∀ i, y.arena.borderIn i = x.arena.borderIn i

namespace Discovered

variable (h : Discovered op x u name isInitial k y)
include h

theorem unnamed : x.chart.nameOf u = none := field_of_ge (Nat.le_of_eq h.fresh)

theorem nameOf_self : y.chart.nameOf u = some name := by rw [h.chart]; exact if_pos rfl

theorem nameOf {v : Nat} {s : S} :
    y.chart.nameOf v = some s ↔ v = u ∧ name = s ∨ x.chart.nameOf v = some s := by
  have hu := h.unnamed
  rw [h.chart]
  show setAt x.chart.nameOf u (some name) v = some s ↔ _
  rw [Chart.setAt_eq_some]
  refine or_congr Iff.rfl ⟨And.right, fun hv => ⟨fun hvu => ?_, hv⟩⟩
  rw [hvu, hu] at hv
  cases hv

theorem hasEntry {v e : Nat} :
    y.chart.HasEntry v e ↔ x.chart.HasEntry v e ∨ v = u ∧ x.chart.InComponent k e := by
  rw [h.chart]
  rfl

variable [Std.TransOrd L]

theorem grows : Grows x y := by
  refine ⟨⟨?_, fun hi => h.mem_items.mpr (.inl hi)⟩, ?_⟩
  · rw [h.chart]
    exact .addState h.unnamed
  · intro v p hv _ h
    obtain ⟨e, he, hd⟩ := h
    rw [h.chart] at hd
    rcases h.hasEntry.mp he with he | ⟨rfl, -⟩
    · exact .inl ⟨e, he, hd⟩
    · rw [h.chart] at hv
      have : x.chart.explored v = false := field_of_ge (Nat.le_of_eq h.fresh)
      exact absurd (this.symm.trans hv) Bool.false_ne_true

theorem coherent (hx : Coherent op x) (hoccurs : ∃ w, op.Occurs ⟨name, w⟩)
    (hinitial : isInitial = true → name ∈ op.initial)
    (hflows : ∀ {e}, x.chart.InComponent k e →
      e = u ∨ ∃ s, x.chart.nameOf e = some s ∧ op.Within s name)
    (hentered : x.chart.IsEntry u → x.chart.Entered op name)
    (hbottom : x.chart.EntryDown u .bottom → name ∈ op.initial) : Coherent op y where
  wellFormed := h.wellFormed
  linked := by rw [h.chart]; exact hx.linked.addState
  sound := by
    rw [h.chart]
    exact hx.sound.addState h.unnamed (field_of_ge (Nat.le_of_eq h.fresh)) hoccurs hinitial hflows
      hentered hbottom
  due := by
    intro i hi
    rcases h.mem_items.mp hi with hi | rfl
    · exact h.grows.due (hx.due hi)
    · exact ⟨name, h.nameOf_self⟩
  unexplored := by
    intro v
    have hu := h.unnamed
    have hexplored : x.chart.explored u = false := field_of_ge (Nat.le_of_eq h.fresh)
    rw [h.count_items, hx.unexplored, h.grows.explored]
    by_cases hv : v = u
    · subst hv
      rw [hu, h.nameOf_self, hexplored]
      simp
    · have hname : y.chart.nameOf v = x.chart.nameOf v := by
        rw [h.chart]; exact if_neg hv
      have hne : WorkItem.explore u ≠ .explore v := fun he => hv (WorkItem.explore.inj he).symm
      rw [hname, if_neg hne, Nat.add_zero]
  unmarked := by rw [h.chart]; exact hx.unmarked

theorem spread (hx : Coherent op x) (hs : x.Spread) : y.Spread := by
  intro r t hedge
  rw [h.chart] at hedge
  obtain ⟨s, s', hr, ht, -⟩ := hx.sound.flows_of_edge hx.linked hedge
  refine (hs hedge).keeps h.grows.toKeeps fun he => ?_
  rcases h.hasEntry.mp he with he | ⟨rfl, -⟩
  · exact he
  · rw [h.unnamed] at hr; cases hr

/-- Nothing leads to or from the new state yet. -/
theorem bordered (hx : Coherent op x) (hb : x.Bordered) : y.Bordered := by
  have hedge : y.chart.Edge = x.chart.Edge := by rw [h.chart]; rfl
  have hne : ∀ {r t}, x.chart.Edge r t → r ≠ u ∧ t ≠ u := by
    intro r t he
    obtain ⟨s, s', hr, ht, -⟩ := hx.sound.flows_of_edge hx.linked he
    refine ⟨fun h' => ?_, fun h' => ?_⟩
    · rw [h', h.unnamed] at hr; cases hr
    · rw [h', h.unnamed] at ht; cases ht
  have hhome : ∀ {v}, v ≠ u → y.arena.home v = x.arena.home v := fun hv => by rw [h.home, if_neg hv]
  have hnone : ∀ i, u ∉ x.arena.borderIn i := by
    intro i hi
    have hu : x.arena.home u = none := field_of_ge (Nat.le_of_eq h.fresh)
    have hi' := hb.resident hi
    rw [hu] at hi'
    cases hi'
  unfold Snapshot.Bordered
  rw [hedge]
  refine ⟨fun v => ?_, fun {i v} hi => ?_⟩
  · by_cases hv : v = u
    · subst hv
      refine ⟨fun {i w} _ => ?_, fun {i} _ => ?_⟩
      · rw [borderOf, h.borderIn, Std.ExtTreeMap.getD_eq_fallback (hnone i)]
        exact iff_of_false Std.ExtTreeSet.not_mem_empty fun he => (hne he.1).1 rfl
      · rw [h.borderIn, Std.ExtTreeMap.getElem?_eq_none (hnone i)]
        simp
    · refine ⟨fun {i w} hi => ?_, fun {i} hi => ?_⟩
      · rw [hhome hv] at hi
        rw [borderOf, h.borderIn]
        refine ((hb.exact v).mem hi).trans (and_congr_right fun he => ?_)
        rw [hhome (hne he).2]
      · rw [hhome hv] at hi
        rw [h.borderIn]
        exact (hb.exact v).nonempty hi
  · rw [h.borderIn] at hi
    rw [hhome fun hv => hnone i (hv ▸ hi)]
    exact hb.resident hi

end Discovered
end

variable [Std.TransOrd L]

/-- `y` is `x` in which `v` may be a new state with the entries of component `k`. -/
structure Placed (x : Snapshot S L) (v k : Nat) (y : Snapshot S L) : Prop extends Grows x y where
  sameExamined : ∀ u, y.chart.examined u = x.chart.examined u
  entries : ∀ {u e}, y.chart.HasEntry u e → x.chart.HasEntry u e ∨ u = v ∧ x.chart.InComponent k e
  reconciles : ∀ {i t}, .reconcile i t ∈ y.items → .reconcile i t ∈ x.items
  bordered : x.Bordered → y.Bordered

variable {x y : Exploration S L} {k : Nat} {name : S} {isInitial : Bool} [DecidableEq S]

omit [Std.TransOrd L] in
theorem discover_new (hx : x.arena.WellFormed) (hk : k < x.arena.components.size)
    (hname : x.arena.idOf name = none) :
    Yields (discover op x name k isInitial) fun (u, y) =>
      Discovered op x.snapshot u name isInitial k y.snapshot := by
  unfold discover
  rw [hname]
  dsimp only
  refine (addState_yields hx hk hname).bind ?_
  intro p h
  obtain ⟨u, b⟩ := p
  obtain ⟨rfl, hb⟩ := h
  refine yields_pure ⟨rfl, hb.wellFormed, hb.chart_eq, ?_, ?_, fun _ => field_push hb.nodes,
    hb.borderIn⟩
  · exact Worklist.mem_items_push
  · exact fun v => Worklist.count_items_push

/-- The state of a name, found or new, in a component whose entries lead to the name. -/
theorem discover_yields (hx : Steady op x.snapshot) (hk : k < x.arena.components.size)
    (hoccurs : ∃ w, op.Occurs ⟨name, w⟩)
    (hflows : ∀ {e}, x.snapshot.chart.InComponent k e →
      ∃ s, x.snapshot.chart.nameOf e = some s ∧ op.Within s name) :
    Yields (discover op x name k false) fun (u, y) => Steady op y.snapshot ∧
      Placed x.snapshot u k y.snapshot ∧ y.snapshot.chart.nameOf u = some name := by
  cases hname : x.arena.idOf name with
  | some u =>
    unfold discover
    rw [hname]
    exact yields_ok ⟨hx, ⟨.refl _, fun _ => rfl, .inl, id, id⟩, idOf_eq_some hname⟩
  | none =>
    refine (discover_new hx.wellFormed hk hname).mono ?_
    intro p h
    obtain ⟨u, y⟩ := p
    have hunknown : ¬ x.snapshot.chart.IsEntry u := by
      intro he
      obtain ⟨s, hs⟩ := hx.named he
      rw [h.unnamed] at hs
      cases hs
    have hcoherent := h.coherent hx.toCoherent hoccurs (by simp) (fun he => .inr (hflows he))
      (fun he => absurd he hunknown) fun hd => absurd (mem_entries_of_mem hd) hunknown
    refine ⟨⟨hcoherent, h.spread hx.toCoherent hx.spread, fun he => ?_⟩,
      ⟨h.grows, fun v => ?_, h.hasEntry.mp, fun hi => ?_, h.bordered hx.toCoherent⟩,
      h.nameOf_self⟩
    · rw [h.chart] at he
      exact h.grows.hasEntry (hx.homed he)
    · rw [h.chart]
      rfl
    · exact (h.mem_items.mp hi).resolve_right (by simp)

/-! ## A new entry -/

/-- `b` is the arena of `x` with one more entry, which is no state yet, under some of the stack
tops in `downs`. -/
structure Prepared (op : Operand S L) (x : Snapshot S L) (downs : List (Down Nat))
    (b : Arena S L) : Prop where
  coherent : Coherent op ⟨b, x.items⟩
  keeps : Keeps x ⟨b, x.items⟩
  nodes : b.nodes = x.arena.nodes
  borderIn : ∀ i, b.borderIn i = x.arena.borderIn i
  edge : ∀ {r t}, b.chart.Edge r t → x.chart.Edge r t
  hasEntry : ∀ {u e}, b.chart.HasEntry u e → x.chart.HasEntry u e
  isEntry : ∀ {e}, b.chart.IsEntry e ↔ e = x.arena.size ∨ x.chart.IsEntry e
  entryDown : ∀ {e d}, b.chart.EntryDown e d → x.chart.EntryDown e d ∨ e = x.arena.size ∧ d ∈ downs

section
omit [DecidableEq S]

theorem addEntry_prepared {x : Snapshot S L} (hx : Coherent op x) {downs : List (Down Nat)} :
    Prepared op x downs (x.arena.addEntry x.arena.size) := by
  have hchart := addEntry_chart (a := x.arena) (e := x.arena.size)
  have hkeeps : Keeps x ⟨x.arena.addEntry x.arena.size, x.items⟩ :=
    ⟨by show Chart.Extends _ (x.arena.addEntry _).chart; rw [hchart]; exact .addEntry, id⟩
  refine ⟨hx.of_keeps hkeeps (wellFormed_addEntry hx.wellFormed) ?_ ?_ rfl rfl rfl, hkeeps, rfl,
    fun _ => rfl, ?_, ?_, ?_, ?_⟩
  · show Chart.Linked (x.arena.addEntry _).chart
    rw [hchart]
    exact hx.linked.addEntry
  · show Chart.Sound op (x.arena.addEntry _).chart
    rw [hchart]
    refine hx.sound.addEntry fun hs => ?_
    have hunnamed : x.chart.nameOf x.arena.size = none := field_of_ge (Nat.le_refl _)
    exact absurd (hunnamed.symm.trans hs) (by simp)
  · rw [hchart]
    exact id
  · rw [hchart]
    exact id
  · rw [hchart]
    exact Iff.rfl
  · rw [hchart]
    exact .inl

theorem Prepared.addDown {x : Snapshot S L} {downs : List (Down Nat)} {b : Arena S L}
    (h : Prepared op x downs b) {d : Down Nat} (hd : d ∈ downs) (hbottom : d = .bottom) :
    Yields (b.addDown x.arena.size d) fun (_, c) =>
      Prepared op x downs c ∧ c.chart = b.chart.addDown x.arena.size d := by
  refine (addDown_yields h.coherent.wellFormed (h.isEntry.mpr (.inl rfl))).mono ?_
  intro h hc
  obtain ⟨grown, c⟩ := h
  have hchart := hc.chart_eq
  have hkeeps : Keeps (⟨b, x.items⟩ : Snapshot S L) ⟨c, x.items⟩ :=
    ⟨by show Chart.Extends b.chart c.chart; rw [hchart]; exact .addDown, id⟩
  have hunnamed : b.chart.nameOf x.arena.size = none := by
    have : x.chart.nameOf x.arena.size = none := field_of_ge (Nat.le_refl _)
    exact (field_congr h.nodes).trans this
  refine ⟨⟨h.coherent.of_keeps hkeeps hc.wellFormed ?_ ?_ rfl ?_ ?_, h.keeps.trans hkeeps,
    hc.nodes.trans h.nodes, fun i => (hc.borderIn i).trans (h.borderIn i), ?_, ?_, ?_, ?_⟩, hchart⟩
  · show c.chart.Linked
    rw [hchart]
    exact h.coherent.linked.addDown
  · show c.chart.Sound op
    rw [hchart]
    refine h.coherent.sound.addDown (fun _ {s} hs => ?_) fun hp => ?_
    · exact absurd (hunnamed.symm.trans hs) (by simp)
    · rw [hbottom] at hp
      cases hp
  · show c.chart.nameOf = _
    rw [hchart]
    rfl
  · show c.chart.mark = _
    rw [hchart]
    rfl
  · rw [hchart]
    exact h.edge
  · rw [hchart]
    exact h.hasEntry
  · rw [hchart]
    exact h.isEntry
  · intro e d' hed
    rw [hchart] at hed
    rcases hed with hed | ⟨rfl, rfl⟩
    · exact h.entryDown hed
    · exact .inr ⟨rfl, hd⟩

/-- The new entry finds a component of its own. -/
theorem Prepared.componentFor {x : Snapshot S L} {downs : List (Down Nat)} {b c : Arena S L}
    (h : Prepared op x downs b) {k : Nat}
    (hc : b.componentFor (Std.ExtTreeSet.ofList [x.arena.size]) = (k, c)) :
    k < c.components.size ∧ Prepared op x downs c ∧
      (∀ {e}, c.chart.InComponent k e ↔ e = x.arena.size) ∧
      ∀ {e d}, b.chart.EntryDown e d → c.chart.EntryDown e d := by
  have hmem : ∀ {e}, e ∈ (Std.ExtTreeSet.ofList [x.arena.size] : FinSet Nat) ↔
      e = x.arena.size := by
    simp [eq_comm (a := x.arena.size)]
  have hfound := componentFor_found h.coherent.wellFormed
    (E := Std.ExtTreeSet.ofList [x.arena.size])
    fun e he => h.isEntry.mpr (.inl (hmem.mp he))
  rw [hc] at hfound
  have hchart : c.chart = _ := hfound.chart_eq h.coherent.wellFormed
  have hkeeps : Keeps (⟨b, x.items⟩ : Snapshot S L) ⟨c, x.items⟩ := by
    refine ⟨?_, id⟩
    show Chart.Extends b.chart c.chart
    rw [hchart]
    refine .addComponent fun hk e => ?_
    have hsame := hfound.entriesIn k hk
    have hself : c.entriesIn k = _ := hfound.entriesIn_self
    show e ∈ b.entriesIn k ↔ _
    rw [← hsame, hself]
  refine ⟨by rw [hfound.components]; omega, ⟨?_, h.keeps.trans hkeeps, hfound.nodes.trans h.nodes,
    fun i => (hfound.borderIn i).trans (h.borderIn i), ?_, ?_, ?_, ?_⟩, ?_, ?_⟩
  · refine h.coherent.of_keeps hkeeps hfound.wellFormed ?_ ?_ rfl ?_ ?_
    · show c.chart.Linked
      rw [hchart]
      exact h.coherent.linked.addComponent
    · show c.chart.Sound op
      rw [hchart]
      exact h.coherent.sound.addComponent
    · show c.chart.nameOf = _
      rw [hchart]
      rfl
    · show c.chart.mark = _
      rw [hchart]
      rfl
  · rw [hchart]
    exact h.edge
  · rw [hchart]
    exact h.hasEntry
  · rw [hchart]
    exact h.isEntry
  · rw [hchart]
    exact h.entryDown
  · intro e
    show e ∈ c.entriesIn k ↔ _
    have hself : c.entriesIn k = _ := hfound.entriesIn_self
    rw [hself]
    exact hmem
  · rw [hchart]
    exact id

/-- The new entry under all stack tops in `downs`. -/
theorem addDowns_prepared {x : Snapshot S L} (hx : Coherent op x) {downs : List (Down Nat)}
    (hdowns : ∀ d ∈ downs, d = .bottom) :
    Yields (downs.foldlM (fun a d => return (← a.addDown x.arena.size d).2)
      (x.arena.addEntry x.arena.size)) fun b => Prepared op x downs b ∧
        ∀ d ∈ downs, b.chart.EntryDown x.arena.size d := by
  refine (yields_foldlM (I := Prepared op x downs)
    (R := fun b c => ∀ d, b.chart.EntryDown x.arena.size d → c.chart.EntryDown x.arena.size d)
    (D := fun d b => b.chart.EntryDown x.arena.size d) (fun _ _ => id)
    (fun h h' d hd => h' d (h d hd)) (fun hd h => h _ hd) ?_ (addEntry_prepared hx)).mono ?_
  · intro d hd b hb _
    refine (hb.addDown hd (hdowns d hd)).bind ?_
    intro p h
    obtain ⟨_, c⟩ := p
    obtain ⟨hc, hchart⟩ := h
    refine yields_pure ⟨hc, fun d' hd' => ?_, ?_⟩
    · rw [hchart]; exact .inl hd'
    · rw [hchart]; exact .inr ⟨rfl, rfl⟩
  · intro b h
    exact ⟨h.1, h.2.2⟩

theorem Prepared.spread {x : Snapshot S L} {downs : List (Down Nat)} {b : Arena S L}
    (h : Prepared op x downs b) (hx : x.Spread) : Snapshot.Spread ⟨b, x.items⟩ :=
  fun hedge => (hx (h.edge hedge)).keeps h.keeps h.hasEntry

/-- The empty stack is no caller, so no returns become due. -/
theorem Prepared.grows {x : Snapshot S L} {downs : List (Down Nat)} {b : Arena S L}
    (h : Prepared op x downs b) (hdowns : ∀ d ∈ downs, d = .bottom) : Grows x ⟨b, x.items⟩ := by
  refine ⟨h.keeps, fun {u p} _ _ hd => .inl ?_⟩
  obtain ⟨e, he, hd⟩ := hd
  refine ⟨e, h.hasEntry he, ?_⟩
  rcases h.entryDown hd with hd | ⟨-, hd⟩
  · exact hd
  · cases hdowns _ hd

theorem Prepared.bordered {x : Snapshot S L} {downs : List (Down Nat)} {b : Arena S L}
    (h : Prepared op x downs b) : x.Bordered → Snapshot.Bordered ⟨b, x.items⟩ :=
  .of_same ⟨fun _ => field_congr h.nodes, h.borderIn⟩ (edge_congr h.nodes)
end

section
variable {x y : Snapshot S L} {downs : List (Down Nat)} {a : Arena S L}
  (hc : Prepared op x downs a)
  (h : Discovered op ⟨a, x.items⟩ x.arena.size name isInitial k y)
  (hcomponent : ∀ {e}, a.chart.InComponent k e ↔ e = x.arena.size)
include hc h hcomponent

omit [DecidableEq S] in
/-- The new entry may become a state of its component. -/
theorem Prepared.steady (hx : Steady op x) (hoccurs : ∃ w, op.Occurs ⟨name, w⟩)
    (hinitial : isInitial = true → name ∈ op.initial) (hentered : x.chart.Entered op name)
    (hdowns : ∀ d ∈ downs, name ∈ op.initial) : Steady op y := by
  have hunnamed : x.chart.nameOf x.arena.size = none := field_of_ge (Nat.le_refl _)
  refine ⟨?_, h.spread hc.coherent (hc.spread hx.spread), fun {e} he => ?_⟩
  · refine h.coherent hc.coherent hoccurs hinitial (fun he => .inl (hcomponent.mp he))
      (fun _ => hentered.mono hc.keeps.nameOf fun hv => (hc.keeps.explored _).trans hv) fun hd => ?_
    rcases hc.entryDown hd with hd | ⟨-, hd⟩
    · obtain ⟨s, hs⟩ := hx.named (mem_entries_of_mem hd)
      exact absurd (hunnamed.symm.trans hs) (by simp)
    · exact hdowns _ hd
  · rw [h.chart] at he
    rcases hc.isEntry.mp he with rfl | he
    · exact h.hasEntry.mpr (.inr ⟨rfl, hcomponent.mpr rfl⟩)
    · exact h.grows.hasEntry (hc.keeps.hasEntry (hx.homed he))

omit [DecidableEq S] in
/-- The new state has no entry but itself. -/
theorem Prepared.advances (hx : Coherent op x) (hdowns : ∀ d ∈ downs, d = .bottom) :
    Advances op x y := by
  have hgrows : Grows x y := (hc.grows hdowns).trans h.grows
  refine .of_grows hgrows (fun v => ?_) (fun ht => ?_) fun hb =>
    h.bordered hc.coherent (hc.bordered hb)
  · rw [h.chart]
    exact field_congr (f := (·.examined)) hc.nodes
  · refine ht.keeps hx hgrows.toKeeps (fun {v e} he => ?_) fun hi => ?_
    · rcases h.hasEntry.mp he with hold | ⟨rfl, hself⟩
      · exact .inl (hc.hasEntry hold)
      · obtain rfl := hcomponent.mp hself
        exact .inr .refl
    · exact .inl ((h.mem_items.mp hi).resolve_right (by simp))
end

/-- A new state that is an entry, under the given stack tops; the empty stack is one only if
the state is initial. -/
theorem discoverEntry_yields (hx : Steady op x.snapshot) (hname : x.arena.idOf name = none)
    (hoccurs : ∃ w, op.Occurs ⟨name, w⟩) (hentered : x.snapshot.chart.Entered op name)
    {downs : List (Down Nat)} (hdowns : ∀ d ∈ downs, d = .bottom ∧ name ∈ op.initial)
    (hinitial : isInitial = true → name ∈ op.initial) :
    Yields (discoverEntry op x name downs isInitial) fun (u, y) => Steady op y.snapshot ∧
      Advances op x.snapshot y.snapshot ∧ y.snapshot.chart.nameOf u = some name ∧
      y.snapshot.chart.isInitial u = isInitial ∧ y.snapshot.chart.IsEntry u ∧
      (∀ d ∈ downs, y.snapshot.chart.EntryDown u d) ∧
      ∀ {v s}, y.snapshot.chart.nameOf v = some s → v = u ∨ x.snapshot.chart.nameOf v = some s := by
  unfold discoverEntry
  refine (addDowns_prepared (x := x.snapshot) hx.toCoherent fun d hd => (hdowns d hd).1).bind ?_
  intro b h
  obtain ⟨hb, hdone⟩ := h
  generalize hfound : b.componentFor (Std.ExtTreeSet.ofList [x.arena.size]) = found
  obtain ⟨k, a⟩ := found
  obtain ⟨hk, hc, hcomponent, hdown⟩ := hb.componentFor hfound
  dsimp only
  have hname' : a.idOf name = none := by unfold idOf; rw [hc.nodes]; exact hname
  refine (discover_new hc.coherent.wellFormed hk hname').mono ?_
  intro p h
  obtain ⟨u, y⟩ := p
  have hu : u = x.arena.size := by
    have : a.size = u := h.fresh
    rw [← this, size, hc.nodes]
    rfl
  subst hu
  refine ⟨hc.steady h hcomponent hx hoccurs hinitial hentered fun d hd => (hdowns d hd).2,
    hc.advances h hcomponent hx.toCoherent fun d hd => (hdowns d hd).1, h.nameOf_self,
    ?_, ?_, ?_, ?_⟩
  · rw [h.chart]
    exact if_pos rfl
  · rw [h.chart]
    exact hc.isEntry.mpr (.inl rfl)
  · intro d hd
    rw [h.chart]
    exact hdown (hdone d hd)
  · intro v s hv
    rcases h.nameOf.mp hv with ⟨rfl, -⟩ | hv
    · exact .inl rfl
    · exact .inr ((field_congr hc.nodes).symm.trans hv)

variable [Std.LawfulEqOrd L]

/-- The state of a call target, which is an entry from now on. -/
theorem enter_yields (hx : Steady op x.snapshot) (hoccurs : ∃ w, op.Occurs ⟨name, w⟩)
    (hentered : x.snapshot.chart.Entered op name) :
    Yields (enter op x name) fun (u, y) => Steady op y.snapshot ∧
      Advances op x.snapshot y.snapshot ∧ y.snapshot.chart.nameOf u = some name ∧
      y.snapshot.chart.IsEntry u := by
  unfold enter
  cases hname : x.arena.idOf name with
  | none =>
    refine (discoverEntry_yields hx hname hoccurs hentered (by simp) (by simp)).mono ?_
    intro p h
    obtain ⟨u, y⟩ := p
    obtain ⟨hy, hadvances, hu, -, hentry, -⟩ := h
    exact ⟨hy, hadvances, hu, hentry⟩
  | some u =>
    have hu : x.snapshot.chart.nameOf u = some name := idOf_eq_some hname
    dsimp only
    split
    · next hmem =>
      exact yields_ok ⟨hx, .refl _, hu, Std.ExtTreeMap.mem_iff_contains.mpr hmem⟩
    · let z : Exploration S L := { x with arena := x.arena.addEntry u }
      have hchart : z.snapshot.chart = x.snapshot.chart.addEntry u := addEntry_chart
      have hkeeps : Keeps x.snapshot z.snapshot := ⟨by rw [hchart]; exact .addEntry, id⟩
      have hz : Coherent op z.snapshot := by
        refine hx.toCoherent.of_keeps hkeeps (wellFormed_addEntry hx.wellFormed) ?_ ?_ rfl rfl rfl
        · rw [hchart]; exact hx.linked.addEntry
        · rw [hchart]
          refine hx.sound.addEntry fun hs => ?_
          cases hu.symm.trans hs
          exact hentered
      have hgrows : Grows x.snapshot z.snapshot :=
        .of_keeps hkeeps (by rw [hchart]; exact id) (by rw [hchart]; exact id)
      have hself : ∀ e ∈ (Std.ExtTreeSet.ofList [u] : FinSet Nat), e = u := by
        simp [eq_comm (a := u)]
      have hentry : z.snapshot.chart.IsEntry u := by rw [hchart]; exact .inl rfl
      refine (reconcile_yields hz (hkeeps.nameOf hu) (fun e he => ?_) (fun hedge => .inl ?_)
        fun he => ?_).bind ?_
      · rw [hself e he]
        exact ⟨hentry, ⟨name, name, hkeeps.nameOf hu, hkeeps.nameOf hu, .refl name⟩, .refl⟩
      · rw [hchart] at hedge
        exact (hx.spread hedge).keeps hkeeps (by rw [hchart]; exact id)
      · rw [hchart] at he
        rcases he with rfl | he
        · exact .inr ⟨rfl, by simp⟩
        · exact .inl (hkeeps.hasEntry (hx.homed he))
      intro y h
      obtain ⟨hy, hadvances, -⟩ := h
      have hxz : Advances op x.snapshot z.snapshot := .of_grows hgrows
        (fun v => by rw [hchart]; rfl)
        (fun ht => ht.keeps hx.toCoherent hkeeps (by rw [hchart]; exact .inl) .inl)
        (.of_same ⟨fun _ => rfl, fun _ => rfl⟩ rfl)
      exact yields_pure ⟨hy, hxz.trans hadvances, hadvances.nameOf (hkeeps.nameOf hu),
        hadvances.isEntry hentry⟩

end NestedWords.Exploration
