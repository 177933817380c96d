import NestedWords.Proofs.Exploration.Bookkeeping

/-!
# What a reconciliation does

A reconciliation lets the component of a state have more entries. It has to take along just what
the state reaches inside of its component, and to leave all else as it is, also when there is a
component already for the united entries, with members and borders of its own. `Reconciled` says
what this comes to, in terms of the arenas before and after, and of the items that have become due.

It is so for every arena that a run comes up with (`ComesUp`): between two items, and in the middle
of one, where a state has been marked as explored and some of what leaves it has been taken, or the
target of a call has just been made an entry. In the middle of an item little is known or due of
what the item is about, but the bookkeeping is in order and borders are exact (`InOrder`), and no
more than this is needed (`reconcile_reconciled`).
-/

namespace NestedWords

variable {S L : Type} [Ord L] [Std.TransOrd L]

/-! ## What changes -/

/-- `y` is `x` after the reconciliation of the state `target` in component `old`, which is `c`, with
the entries `extra`, and `new` is the component that they go to, `d`. -/
structure Exploration.Reconciled (x : Exploration S L) (target old : Nat) (c : Component)
    (extra : FinSet Nat) (y : Exploration S L) (new : Nat) (d : Component) : Prop where
  /-- A state changes its component if the target reaches it without leaving the old one. -/
  moved_iff : ∀ u, y.arena.home u ≠ x.arena.home u ↔
    Relation.ReflTransGen (x.arena.Inner old) target u
  home : ∀ u, y.arena.home u ≠ x.arena.home u → y.arena.home u = some new
  /-- One component has the united entries. -/
  component : ∀ {k d'}, y.arena.components[k]? = some d' ∧
    (∀ e, e ∈ d'.entries ↔ e ∈ c.entries ∨ e ∈ extra) ↔ k = new ∧ d' = d
  /-- No component gets or loses entries. -/
  components : ∀ {k : Nat} {c' : Component}, x.arena.components[k]? = some c' →
    ∃ d' : Component, y.arena.components[k]? = some d' ∧ d'.entries = c'.entries
  members : ∀ {k : Nat} {d' : Component}, y.arena.components[k]? = some d' →
    ∀ u, u ∈ d'.members ↔ y.arena.home u = some k
  downs : ∀ {k : Nat} {d' : Component}, y.arena.components[k]? = some d' →
    ∀ t, t ∈ d'.downs ↔ ∃ e ∈ d'.entries, ∃ ds, y.arena.entries[e]? = some ds ∧ t ∈ ds
  size : y.arena.size = x.arena.size
  /-- Apart from its component all is kept that is recorded of a state. -/
  nodes : ∀ {u : Nat} {n : Node S L}, x.arena.nodes[u]? = some n →
    ∃ k, y.arena.nodes[u]? = some { n with component := k }
  entries : y.arena.entries = x.arena.entries
  borders : y.arena.BordersExact
  /-- What the moved states reach outside of the new component is to be reconciled with it, once for
  each of them. -/
  reconciliations : ∃ ps : List (Nat × Nat), ps.Nodup ∧
    y.pending.reconciliations =
      x.pending.reconciliations ++ ps.map (fun p => .reconcile new p.2) ∧
    ∀ u v, (u, v) ∈ ps ↔ y.arena.home u ≠ x.arena.home u ∧ v ∈ x.arena.successorsWithin u ∧
      y.arena.home v ≠ some new
  /-- The returns of the moved states are to be looked up under the callers that are new. -/
  others : ∃ ps : List (Nat × Nat), ps.Nodup ∧
    y.pending.others = x.pending.others ++ ps.map (fun p => .examine p.1 p.2) ∧
    ∀ u h, (u, h) ∈ ps ↔ y.arena.home u ≠ x.arena.home u ∧ x.arena.explored u = true ∧
      x.arena.candidate u = true ∧ .caller h ∈ d.downs ∧ .caller h ∉ c.downs

/-! ## From the bookkeeping -/

namespace Arena

/-- The bookkeeping is in order, and borders are exact. -/
structure InOrder (a : Arena S L) : Prop where
  wellFormed : a.WellFormed
  linked : a.chart.Linked
  bordered : a.Bordered a.chart.Edge

theorem nodup_callers {D : FinSet (Down Nat)} : (D.toList.filterMap Down.state?).Nodup := by
  refine nodup_toList.filterMap fun d d' h hd hd' => ?_
  cases d <;> cases d' <;> simp_all [Down.state?]

end Arena

namespace Exploration

open Arena

variable {x y : Exploration S L} {target old new u v : Nat} {c d : Component}
  {extra : FinSet Nat}

namespace Rehomed

variable {a b c : Arena S L} {E : FinSet Nat} {us : List Nat} (h : Rehomed a b E new us c)
include h

theorem moved_iff (hus : ∀ u ∈ us, a.home u = some old) (hne : old ≠ new) :
    c.home u ≠ a.home u ↔ u ∈ us := by
  rw [h.home]
  split
  · next hu =>
    rw [hus u hu]
    exact iff_of_true (by simpa using hne.symm) hu
  · next hu => exact iff_of_false (by simp) hu

theorem inOrder (ha : a.InOrder) : c.InOrder where
  wellFormed := h.wellFormed
  linked := by
    rw [h.chart]
    exact ha.linked.addComponent.setEntries
  bordered := h.bordered ha.bordered

variable [Std.LawfulEqOrd L]

/-- What the component of a moved state lists in its border. -/
theorem mem_borderOf_iff (hu : u ∈ us) :
    v ∈ c.borderOf new u ↔ v ∈ a.successorsWithin u ∧ c.home v ≠ some new := by
  have hhome : c.home u = some new := (h.home u).trans (if_pos hu)
  have hedge : c.chart.Edge u v ↔ v ∈ a.successorsWithin u := by
    rw [h.chart]
    exact edge_chart
  rw [(h.exact u hu).mem hhome, hedge]

omit [Std.LawfulEqOrd L] in
/-- No other component has the united entries. -/
theorem component_iff (hf : Found a E new b) (hd : c.components[new]? = some d) {k : Nat}
    {d' : Component} :
    c.components[k]? = some d' ∧ (∀ e, e ∈ d'.entries ↔ e ∈ E) ↔ k = new ∧ d' = d := by
  have hself : c.entriesIn new = E := (h.entriesIn new).trans hf.entriesIn_self
  constructor
  · rintro ⟨hd', hentries⟩
    have hsame : c.entriesIn k = c.entriesIn new := by
      rw [hself]
      exact (part_eq hd').trans (Std.ExtTreeSet.ext_mem fun e => hentries e)
    obtain rfl := h.wellFormed.component_unique (Array.getElem?_eq_some_iff.mp hd').1
      (Array.getElem?_eq_some_iff.mp hd).1 hsame
    exact ⟨rfl, Option.some.inj (hd'.symm.trans hd)⟩
  · rintro ⟨rfl, rfl⟩
    have hentries : d'.entries = E := (part_eq hd).symm.trans hself
    exact ⟨hd, fun e => by rw [hentries]⟩

omit [Std.LawfulEqOrd L] in
theorem exists_component (hf : Found a E new b) {k : Nat} {c' : Component}
    (hc : a.components[k]? = some c') :
    ∃ d', c.components[k]? = some d' ∧ d'.entries = c'.entries := by
  have hk : k < a.components.size := (Array.getElem?_eq_some_iff.mp hc).1
  have hsize : a.components.size ≤ c.components.size := by
    rw [h.components, hf.components]
    omega
  obtain ⟨d', hd'⟩ := Arena.exists_component (Nat.lt_of_lt_of_le hk hsize)
  have hsame : c.entriesIn k = a.entriesIn k := (h.entriesIn k).trans (hf.entriesIn k hk)
  exact ⟨d', hd', (part_eq hd').symm.trans (hsame.trans (part_eq hc))⟩

end Rehomed

variable [Std.LawfulEqOrd L]

theorem reconciled_of_rehomed {b a : Arena S L} (hx : x.arena.InOrder)
    (hold : x.arena.home target = some old) (hc : x.arena.components[old]? = some c)
    (hf : Found x.arena (c.entries ∪ extra) new b) (hne : old ≠ new)
    (hd : a.components[new]? = some d)
    (h : Rehomed x.arena b (c.entries ∪ extra) new (x.arena.region old target) a) :
    x.Reconciled target old c extra
      (x.rehomed target old new (b.downsIn new \ x.arena.downsIn old) a) new d := by
  have hmoved : ∀ u, a.home u ≠ x.arena.home u ↔ u ∈ x.arena.region old target := fun _ =>
    h.moved_iff (fun _ hu => home_of_mem_region hu) hne
  have hy := h.inOrder hx
  have hexplored : a.explored = x.arena.explored := congrArg Chart.explored h.chart
  have hcandidate : a.candidate = x.arena.candidate := congrArg Chart.candidate h.chart
  have hfresh : b.downsIn new = d.downs := h.downsIn.symm.trans (part_eq hd)
  have hknown : x.arena.downsIn old = c.downs := part_eq hc
  exact
    { moved_iff := fun u => (hmoved u).trans (mem_region_iff hold)
      home := fun u hu => (h.home u).trans (if_pos ((hmoved u).mp hu))
      component := by
        simp only [← Std.ExtTreeSet.mem_union_iff]
        exact h.component_iff hf hd
      components := h.exists_component hf
      members := fun hd' u => hy.wellFormed.mem_members_iff hd'
      downs := fun hd' t => hy.wellFormed.mem_downs_iff hd'
      size := h.size
      nodes := fun hn => ⟨_, (h.nodes _).trans (congrArg _ hn)⟩
      entries := h.entries
      borders := hy.bordered.bordersExact hy.wellFormed hy.linked
      reconciliations := by
        refine ⟨leaving a new (x.arena.region old target), nodup_leaving region_nodup, rfl,
          fun u v => ?_⟩
        rw [mem_leaving, ← hmoved]
        exact and_congr_right fun hu => h.mem_borderOf_iff ((hmoved u).mp hu)
      others := by
        refine ⟨facing a _ (x.arena.region old target), nodup_facing region_nodup nodup_callers,
          rfl, fun u p => ?_⟩
        rw [mem_facing, ← hmoved, mem_callers, Std.ExtTreeSet.mem_diff_iff, hfresh, hknown,
          hexplored, hcandidate]
        rfl }

/-- A reconciliation in an arena that is in order meets no fault, and is idle or exact. -/
theorem reconcile_reconciled (hx : x.arena.InOrder) (hold : x.arena.home target = some old)
    (hc : x.arena.components[old]? = some c) (hextra : ∀ e ∈ extra, e ∈ x.arena.entries) :
    ((∀ e ∈ extra, e ∈ c.entries) → x.reconcile target extra = .ok x) ∧
      (¬ (∀ e ∈ extra, e ∈ c.entries) → ∃ y new d, x.reconcile target extra = .ok y ∧
        x.Reconciled target old c extra y new d) := by
  refine ⟨fun hidle => reconcile_of_subset hold hc (FinSet.subset_iff.mpr hidle), fun hgrows => ?_⟩
  obtain ⟨new, b, a, hf, hne, ha, heq⟩ := reconcile_rehomes hx.wellFormed hx.linked hold hc hextra
    fun hsubset => hgrows (FinSet.subset_iff.mp hsubset)
  obtain ⟨d, hd⟩ : ∃ d, a.components[new]? = some d := exists_component (by
    rw [ha.components, hf.components]
    omega)
  exact ⟨_, new, d, heq, reconciled_of_rehomed hx hold hc hf hne hd ha⟩

/-! ## In a run -/

variable [DecidableEq S]

/-- A step of an item: a transition is taken, or a caller is noted as examined, or something is
written to the log. -/
inductive Substep (op : Operand S L) : Exploration S L → Exploration S L → Prop
  | note {x : Exploration S L} (n : Note S L) : Substep op x (x.note n)
  | internal {x y : Exploration S L} {u : Nat} {s t : S} {l : L} (hs : x.arena.nameOf u = some s)
    (hl : l ∈ op.internalLetters s) (ht : t ∈ op.internalSuccessors s l)
    (h : takeInternal op u l x t = .ok y) : Substep op x y
  | call {x y : Exploration S L} {u : Nat} {s t : S} {l : L} (hs : x.arena.nameOf u = some s)
    (hu : x.arena.explored u = true) (hl : l ∈ op.callLetters s) (ht : t ∈ op.callSuccessors s l)
    (h : takeCall op u l x t = .ok y) : Substep op x y
  | ret {x y : Exploration S L} {u p : Nat} {s r t : S} {l : L} (hs : x.arena.nameOf u = some s)
    (hr : x.arena.nameOf p = some r) (hp : x.arena.HasDown u (.caller p))
    (hl : l ∈ op.returnLetters s) (ht : t ∈ op.returnSuccessors s r l)
    (h : takeReturn op u p l x t = .ok y) : Substep op x y
  | examined {x : Exploration S L} {u p : Nat} {a : Arena S L} (hu : x.arena.explored u = true)
    (hp : x.arena.HasDown u (.caller p))
    (h : x.arena.updateNode u (fun n => { n with examined := n.examined.insert p }) = .ok a) :
    Substep op x { x with arena := a }

/-- An exploration between two items, or in the middle of one. -/
inductive Amid (op : Operand S L) (settings : Settings) (monitor : Monitor) :
    Exploration S L → Prop
  | between {x : Exploration S L} (h : Between op settings monitor x) : Amid op settings monitor x
  | exploring {x : Exploration S L} {u : Nat} {s : S} {q : Worklist} {a : Arena S L}
    (h : Between op settings monitor x) (hpop : x.pending.pop = some (.explore u, q))
    (hs : x.arena.nameOf u = some s) (hmark : markExplored x.arena u (op.returnLetters s) = .ok a) :
    Amid op settings monitor { x with arena := a, pending := q }
  | examining {x : Exploration S L} {u p : Nat} {q : Worklist} (h : Between op settings monitor x)
    (hpop : x.pending.pop = some (.examine u p, q)) :
    Amid op settings monitor { x with pending := q }
  | step {x y : Exploration S L} (h : Amid op settings monitor x) (hs : Substep op x y) :
    Amid op settings monitor y

/-- An arena that a run comes up with: while it is seeded, between items or in the middle of one,
also where the target of a call has just become an entry. -/
inductive ComesUp (op : Operand S L) (settings : Settings) (monitor : Monitor) : Arena S L → Prop
  | seeding {x : Exploration S L} {k : Nat}
    (h : seed { op with initial := op.initial.take k } = .ok x) :
    ComesUp op settings monitor x.arena
  | amid {x : Exploration S L} (h : Amid op settings monitor x) :
    ComesUp op settings monitor x.arena
  | entering {x : Exploration S L} {e : Nat} (h : Amid op settings monitor x)
    (he : e < x.arena.size) : ComesUp op settings monitor (x.arena.addEntry e)

variable {op : Operand S L} {settings : Settings} {monitor : Monitor}

/-- A step of an item keeps the invariant, and leaves no border wrong. -/
theorem Substep.advances (h : Substep op x y) (hx : Steady op x.snapshot) :
    Steady op y.snapshot ∧ (x.snapshot.Bordered → y.snapshot.Bordered) := by
  cases h with
  | note n => exact ⟨hx, id⟩
  | internal hs hl ht h =>
    obtain ⟨hy, hadvances, -⟩ := (takeInternal_yields hx hs hl ht).of_eq_ok h
    exact ⟨hy, hadvances.bordered⟩
  | call hs hu hl ht h =>
    obtain ⟨hy, hadvances, -⟩ := (takeCall_yields hx hs hu hl ht).of_eq_ok h
    exact ⟨hy, hadvances.bordered⟩
  | ret hs hr hp hl ht h =>
    obtain ⟨hy, hadvances, -⟩ := (takeReturn_yields hx hs hr
      (hx.wellFormed.hasDown_chart.mpr hp) hl ht).of_eq_ok h
    exact ⟨hy, hadvances.bordered⟩
  | @examined u p a hu hp h =>
    obtain ⟨hwf, hchart, hsame⟩ :=
      (setExamined_yields hx.wellFormed (lt_size_of_explored hu)).of_eq_ok h
    have hedge : a.chart.Edge = x.arena.chart.Edge := by rw [hchart]; rfl
    obtain ⟨hy, -⟩ := steady_setExamined (y := ⟨a, x.pending.items⟩) hx hu
      (hx.wellFormed.hasDown_chart.mpr hp) hwf hchart rfl
    exact ⟨hy, .of_same hsame hedge⟩

theorem Amid.steady (h : Amid op settings monitor x) :
    Steady op x.snapshot ∧ x.snapshot.Bordered := by
  induction h with
  | between h => exact ⟨h.settled.toSteady, h.settled.bordered⟩
  | @exploring x u s q a h hpop hs hmark =>
    have hx : Settled op ⟨x.arena, .explore u :: q.items⟩ :=
      Worklist.items_of_pop hpop ▸ h.settled
    obtain ⟨hwf, hchart, hsame⟩ := (markExplored_yields hx.wellFormed (op.returnLetters s)
      (lt_size_of_nameOf hs)).of_eq_ok hmark
    have hedge : a.chart.Edge = x.arena.chart.Edge := by rw [hchart]; rfl
    exact ⟨steady_setExplored (x := x.snapshot) hx.toSteady hs hwf hchart rfl,
      hx.bordered.of_same hsame hedge⟩
  | @examining x u p q h hpop =>
    have hx : Settled op ⟨x.arena, .examine u p :: q.items⟩ :=
      Worklist.items_of_pop hpop ▸ h.settled
    refine ⟨⟨coherent_pop hx.toCoherent (by simp), fun hedge => ?_, hx.homed⟩, hx.bordered⟩
    exact (hx.spread hedge).mono id id id fun hi => (List.mem_cons.mp hi).resolve_left (by simp)
  | step _ hs ih =>
    obtain ⟨hy, hborders⟩ := hs.advances ih.1
    exact ⟨hy, hborders ih.2⟩

theorem ComesUp.inOrder {a : Arena S L} (h : ComesUp op settings monitor a) : a.InOrder := by
  cases h with
  | seeding h =>
    have hx := seed_yields.of_eq_ok h
    exact ⟨hx.wellFormed, hx.linked, hx.bordered⟩
  | amid h => exact ⟨h.steady.1.wellFormed, h.steady.1.linked, h.steady.2⟩
  | @entering x e h he =>
    obtain ⟨hx, hborders⟩ := h.steady
    have hedge : (x.arena.addEntry e).chart.Edge = x.arena.chart.Edge := by
      rw [addEntry_chart]
      rfl
    refine ⟨wellFormed_addEntry hx.wellFormed, ?_, ?_⟩
    · rw [addEntry_chart]
      exact hx.linked.addEntry
    · rw [hedge]
      exact SameBorders.bordered (a := x.arena) ⟨fun _ => rfl, fun _ => rfl⟩ hborders

/-- Every arena that a run comes up with is in order. In an arena that is, the reconciliation of a
state with any entries meets no fault. It is idle if the component of the state has the entries, and
otherwise moves just what the state reaches inside of its component, keeps all else, makes the
borders exact again, and lets just what follows from the move become due. -/
theorem reconcile_exact (op : Operand S L) (settings : Settings) (monitor : Monitor) :
    (∀ a, ComesUp op settings monitor a → a.InOrder) ∧
    ∀ (x : Exploration S L) (target : Nat) (n : Node S L) (extra : FinSet Nat), x.arena.InOrder →
      x.arena.nodes[target]? = some n → (∀ e ∈ extra, e ∈ x.arena.entries) →
      ∃ c, x.arena.components[n.component]? = some c ∧
        ((∀ e ∈ extra, e ∈ c.entries) → x.reconcile target extra = .ok x) ∧
        (¬ (∀ e ∈ extra, e ∈ c.entries) → ∃ y new d, x.reconcile target extra = .ok y ∧
          x.Reconciled target n.component c extra y new d) := by
  refine ⟨fun a ha => ha.inOrder, fun x target n extra hx hn hextra => ?_⟩
  have hold : x.arena.home target = some n.component := field_eq hn
  obtain ⟨c, hc⟩ := exists_component (hx.wellFormed.home_lt hold)
  exact ⟨c, hc, reconcile_reconciled hx hold hc hextra⟩

/-- Two states that lead to each other, and one of them to an initial state as well. -/
def circling : Automaton String String :=
  .ofFacts [.initial "i", .initial "j", .internal "i" "a" "m", .internal "m" "a" "n",
    .internal "n" "a" "m", .internal "n" "a" "j"]

/-- If the first of the two states were reached from the initial state that is led to, both would
go to a component of their own, and that initial state would have to follow. -/
theorem reconcile_exact_circling : ∃ x y c new d,
    after circling.operand {} .unbounded 4 = some x ∧ x.pending.items = [.reconcile 0 1] ∧
    x.reconcile 2 (.ofList [1]) = .ok y ∧ y.pending.items = [.reconcile 0 1, .reconcile 2 1] ∧
    x.Reconciled 2 0 c (.ofList [1]) y new d := by
  have hany : (after circling.operand {} .unbounded 4).any (fun x =>
      x.pending.items = [.reconcile 0 1] && x.arena.home 2 = some 0 &&
        x.arena.entries.contains 1 && !(x.arena.entriesIn 0).contains 1 &&
        match x.reconcile 2 (.ofList [1]) with
        | .ok y => y.pending.items = [.reconcile 0 1, .reconcile 2 1]
        | .error _ => false) = true := by
    cbv
  obtain ⟨x, hx, hfound⟩ := (Option.any_eq_true _ _).mp hany
  simp only [Bool.and_eq_true, decide_eq_true_eq, Bool.not_eq_true'] at hfound
  obtain ⟨⟨⟨⟨hitems, hhome⟩, hentry⟩, hnew⟩, hdone⟩ := hfound
  obtain ⟨n, hn, hcomponent⟩ := home_eq_some.mp hhome
  have hextra : ∀ e ∈ (.ofList [1] : FinSet Nat), e ∈ x.arena.entries := by
    simpa using Std.ExtTreeMap.mem_iff_contains.mpr hentry
  obtain ⟨horder, hexact⟩ := reconcile_exact circling.operand {} .unbounded
  have hx' : x.arena.InOrder := horder _ (.amid (.between (.of_after hx)))
  obtain ⟨c, hc, -, hgrows⟩ := hexact x 2 n _ hx' hn hextra
  rw [hcomponent] at hc hgrows
  have hentries : x.arena.entriesIn 0 = c.entries := part_eq hc
  obtain ⟨y, new, d, hy, hreconciled⟩ := hgrows fun hall => by
    have hone : 1 ∈ x.arena.entriesIn 0 := hentries ▸ hall 1 (by simp)
    rw [Std.ExtTreeSet.mem_iff_contains, hnew] at hone
    cases hone
  rw [hy] at hdone
  exact ⟨x, y, c, new, d, hx, hitems, hy, of_decide_eq_true hdone, hreconciled⟩

end Exploration

end NestedWords
