import Mathlib.Data.List.Nodup
import NestedWords.Proofs.Exploration.Invariant
import NestedWords.Proofs.Arena.Moves

/-!
# Reconciliation

`reconcile_rehomes` says what a reconciliation does that is not idle, down to the items: exactly
the region of the target goes to the component of the united entries, and what becomes due is
the reconciliation of all that the region reaches elsewhere and the returns of its states under
the new stack tops. `reconcile_migrates` says this of the chart. From it, and without looking at
the code again, `reconcile_yields` derives that a reconciliation repairs an arena in which
entries fail to spread only to its target.
-/

namespace NestedWords.Exploration

open Arena

variable {S L : Type} [Ord L] {x y : Exploration S L}

/-! ## Pushing many items -/

theorem foldl_push {α : Type} (f : α → WorkItem) (l : List α) (x : Exploration S L) :
    let y := l.foldl (fun x v => x.push (f v)) x
    y.arena = x.arena ∧ (∀ {i}, i ∈ y.pending.items ↔ i ∈ x.pending.items ∨ ∃ v ∈ l, i = f v) ∧
      ∀ {i}, (∀ v ∈ l, f v ≠ i) → y.pending.items.count i = x.pending.items.count i := by
  induction l generalizing x with
  | nil => exact ⟨rfl, by simp, fun _ => rfl⟩
  | cons v l ih =>
    obtain ⟨harena, hmem, hcount⟩ := ih (x.push (f v))
    refine ⟨harena, fun {i} => ?_, fun {i} hi => ?_⟩
    · rw [List.foldl_cons, hmem]
      show i ∈ (x.pending.push (f v)).items ∨ _ ↔ _
      rw [Worklist.mem_items_push]
      simp only [List.mem_cons, exists_eq_or_imp, or_assoc]
    · rw [List.foldl_cons, hcount fun w hw => hi w (by simp [hw])]
      show (x.pending.push (f v)).items.count i = _
      rw [Worklist.count_items_push, if_neg (hi v (by simp))]
      rfl

theorem foldl_push_reconcile (k : Nat) (l : List Nat) (x : Exploration S L) :
    l.foldl (fun x v => x.push (.reconcile k v)) x = { x with pending := { x.pending with
      reconciliations := x.pending.reconciliations ++ l.map (.reconcile k) } } := by
  induction l generalizing x with
  | nil => simp
  | cons v l ih => rw [List.foldl_cons, ih]; simp [push, Worklist.push]

theorem foldl_push_examine (u : Nat) (l : List Nat) (x : Exploration S L) :
    l.foldl (fun x h => x.push (.examine u h)) x = { x with pending := { x.pending with
      others := x.pending.others ++ l.map (.examine u) } } := by
  induction l generalizing x with
  | nil => simp
  | cons v l ih => rw [List.foldl_cons, ih]; simp [push, Worklist.push]

/-- The states to be reconciled after a move, each with the moved state that leads to it. -/
def leaving (a : Arena S L) (new : Nat) (us : List Nat) : List (Nat × Nat) :=
  us.flatMap fun u => (a.borderOf new u).toList.map (u, ·)

/-- The returns to be looked up after a move. -/
def facing (a : Arena S L) (hiers us : List Nat) : List (Nat × Nat) :=
  us.flatMap fun u => (if a.explored u && a.candidate u then hiers else []).map (u, ·)

theorem mem_leaving {a : Arena S L} {new u v : Nat} {us : List Nat} :
    (u, v) ∈ leaving a new us ↔ u ∈ us ∧ v ∈ a.borderOf new u := by
  simp [leaving, Std.ExtTreeSet.mem_toList]

theorem mem_facing {a : Arena S L} {u h : Nat} {hiers us : List Nat} :
    (u, h) ∈ facing a hiers us ↔
      u ∈ us ∧ a.explored u = true ∧ a.candidate u = true ∧ h ∈ hiers := by
  simp [facing, and_assoc]

/-- Pairs that are listed by their first component are listed once. -/
theorem nodup_flatMap_map {f : Nat → List Nat} {us : List Nat} (hus : us.Nodup)
    (hf : ∀ u, (f u).Nodup) : (us.flatMap fun u => (f u).map (u, ·)).Nodup := by
  have hpairs : ∀ u ∈ us, ((f u).map (u, ·)).Nodup := fun u _ =>
    (hf u).map fun _ _ h => (Prod.mk.inj h).2
  refine List.nodup_flatMap.mpr ⟨hpairs, hus.imp fun {u v} huv p hp => ?_⟩
  obtain ⟨i, -, rfl⟩ := List.mem_map.mp hp
  intro hq
  obtain ⟨j, -, h⟩ := List.mem_map.mp hq
  exact huv (Prod.mk.inj h).1.symm

theorem nodup_leaving {a : Arena S L} {new : Nat} {us : List Nat} (hus : us.Nodup) :
    (leaving a new us).Nodup :=
  nodup_flatMap_map hus fun _ => nodup_toList

theorem nodup_facing {a : Arena S L} {hiers us : List Nat} (hus : us.Nodup) (hh : hiers.Nodup) :
    (facing a hiers us).Nodup :=
  nodup_flatMap_map hus fun _ => by split <;> simp [hh]

/-- What has moved is followed by items, and by nothing else. -/
def following (new : Nat) (hiers us : List Nat) (x : Exploration S L) : Exploration S L :=
  { x with pending := {
      reconciliations :=
        x.pending.reconciliations ++ (leaving x.arena new us).map fun p => .reconcile new p.2
      others := x.pending.others ++ (facing x.arena hiers us).map fun p => .examine p.1 p.2 } }

theorem followMove_eq_ok {new u : Nat} {hiers : List Nat} (hnew : new < x.arena.components.size)
    (hu : u < x.arena.size) : followMove new hiers x u = .ok (x.following new hiers [u]) := by
  obtain ⟨C, hC⟩ := exists_component hnew
  obtain ⟨n, hn⟩ := exists_node hu
  have hborder : x.arena.borderOf new u = C.border.getD u ∅ := by
    rw [borderOf, borderIn, part_eq hC]
  have hexplored : x.arena.explored u = n.explored := field_eq hn
  have hcandidate : x.arena.candidate u = n.candidate := field_eq hn
  have hfacing : facing x.arena hiers [u] =
      (if n.explored && n.candidate then hiers else []).map (u, ·) := by
    rw [facing, List.flatMap_singleton, hexplored, hcandidate]
  have hleaving : leaving x.arena new [u] = (C.border.getD u ∅).toList.map (u, ·) := by
    rw [leaving, List.flatMap_singleton, hborder]
  unfold followMove following
  rw [component_eq_ok hC, node_eq_ok hn, hfacing, hleaving]
  dsimp only [bind, Except.bind]
  rw [foldl_push_reconcile, foldl_push_examine]
  cases n.explored && n.candidate <;> simp [Function.comp_def] <;> rfl

theorem followMoves_eq_ok {new : Nat} {hiers us : List Nat} (hnew : new < x.arena.components.size)
    (hus : ∀ u ∈ us, u < x.arena.size) :
    us.foldlM (followMove new hiers) x = .ok (x.following new hiers us) := by
  induction us generalizing x with
  | nil => simp [following, leaving, facing]; rfl
  | cons u us ih =>
    have hrest : us.foldlM (followMove new hiers) (x.following new hiers [u]) =
        .ok ((x.following new hiers [u]).following new hiers us) :=
      ih hnew fun v hv => hus v (by simp [hv])
    rw [List.foldlM_cons, bind_of_eq_ok (followMove_eq_ok hnew (hus u (by simp))), hrest]
    simp [following, leaving, facing]

/-- What becomes due for a state that has moved. -/
def Follows (a : Arena S L) (new : Nat) (hiers : List Nat) (u : Nat) (i : WorkItem) : Prop :=
  (∃ v ∈ a.borderOf new u, i = .reconcile new v) ∨
    a.explored u = true ∧ a.candidate u = true ∧ ∃ h ∈ hiers, i = .examine u h

theorem mem_items_following {new : Nat} {hiers us : List Nat} {i : WorkItem} :
    i ∈ (x.following new hiers us).pending.items ↔
      i ∈ x.pending.items ∨ ∃ u ∈ us, Follows x.arena new hiers u i := by
  simp only [following, Worklist.items, List.mem_append, List.mem_map, Prod.exists, mem_leaving,
    mem_facing, Follows]
  grind

theorem count_items_following {new v : Nat} {hiers us : List Nat} :
    (x.following new hiers us).pending.items.count (.explore v) =
      x.pending.items.count (.explore v) := by
  have hreconcile : ((leaving x.arena new us).map fun p => WorkItem.reconcile new p.2).count
      (.explore v) = 0 := List.count_eq_zero.mpr (by simp)
  have hexamine : ((facing x.arena hiers us).map fun p => WorkItem.examine p.1 p.2).count
      (.explore v) = 0 := List.count_eq_zero.mpr (by simp)
  simp only [following, Worklist.items, List.count_append, hreconcile, hexamine, Nat.add_zero]

/-! ## What moves -/

/-- A moved state has the entries of its new component, any other those that it had. -/
theorem chart_relocated {a a₁ a₂ : Arena S L} (ha : a.WellFormed) {E : FinSet Nat} {new : Nat}
    {us : List Nat} (hm : Relocated a₁ us new a₂) (hf : Found a E new a₁) :
    a₂.chart = (a.chart.addComponent new E).setEntries fun u e =>
      (u ∈ us ∧ e ∈ E) ∨ u ∉ us ∧ a.HasEntry u e := by
  have hfield : ∀ {α : Type} (f : Node S L → α) (d : α),
      (∀ n i, f { n with component := i } = f n) → a₂.field f d = a.field f d :=
    fun f d h => (hm.field f d h).trans (funext fun _ => field_congr hf.nodes)
  apply Chart.ext
  case IsEntry =>
    show (fun e => e ∈ a₂.entries) = _
    rw [hm.entries, hf.entries]
    rfl
  case EntryDown =>
    show (fun e d => d ∈ a₂.entryDowns e) = _
    unfold entryDowns
    rw [hm.entries, hf.entries]
    rfl
  case components => exact hm.components.trans hf.components
  case InComponent =>
    show (fun k e => e ∈ a₂.entriesIn k) = _
    simp only [hm.entriesIn]
    exact congrArg Chart.InComponent (hf.chart_eq ha)
  case HasEntry =>
    funext u e
    apply propext
    show (∃ k, a₂.home u = some k ∧ e ∈ a₂.entriesIn k) ↔
      (u ∈ us ∧ e ∈ E) ∨ u ∉ us ∧ ∃ k, a.home u = some k ∧ e ∈ a.entriesIn k
    have hhome : a₁.home u = a.home u := field_congr hf.nodes
    simp only [hm.home, hm.entriesIn, hhome]
    by_cases hu : u ∈ us
    · simp [hu, hf.entriesIn_self]
    · simp only [hu, if_false, false_and, not_false_eq_true, true_and, false_or]
      exact exists_congr fun k => and_congr_right fun hk => by rw [hf.entriesIn k (ha.home_lt hk)]
  all_goals exact hfield _ _ fun _ _ => rfl

variable [Std.TransOrd L]

theorem region_congr {a b : Arena S L} (h : b.nodes = a.nodes) {k t : Nat} :
    b.region k t = a.region k t := by
  unfold region residents size successorsWithin
  rw [h]

/-- `y` is `x` after the region of `target` in component `old` has gone to the component of the
entries `E`. -/
structure Migrated (x : Snapshot S L) (target old new : Nat) (E : FinSet Nat) (y : Snapshot S L) :
    Prop where
  wellFormed : y.arena.WellFormed
  chart : y.chart = (x.chart.addComponent new E).setEntries fun u e =>
    (u ∈ x.arena.region old target ∧ e ∈ E) ∨ u ∉ x.arena.region old target ∧ x.chart.HasEntry u e
  /-- The component was there with these entries, or is new. -/
  entriesIn : new < x.chart.components → ∀ {e}, x.chart.InComponent new e ↔ e ∈ E
  home : ∀ {u}, u ∉ x.arena.region old target → y.arena.home u = x.arena.home u
  mem_items : ∀ {i}, i ∈ y.items ↔ i ∈ x.items ∨ ∃ u ∈ x.arena.region old target,
    (∃ v, y.chart.Edge u v ∧ y.arena.home v ≠ some new ∧ i = .reconcile new v) ∨
      y.chart.explored u = true ∧ y.chart.candidate u = true ∧ ∃ h, i = .examine u h ∧
        y.chart.HasDown u (.caller h) ∧ ¬ x.chart.HasDown u (.caller h)
  count_items : ∀ u, y.items.count (.explore u) = x.items.count (.explore u)
  bordered : x.Bordered → y.Bordered

omit [Std.TransOrd L] in
/-- The component of the united entries is another one. -/
theorem ne_of_found {a b : Arena S L} {E : FinSet Nat} {old new : Nat} (hf : Found a E new b)
    (hold : old < a.components.size) (hE : ¬ ∀ e ∈ E, e ∈ a.entriesIn old) : old ≠ new := by
  intro h
  obtain rfl := h
  apply hE
  rw [← hf.entriesIn old hold, hf.entriesIn_self]
  exact fun e he => he

omit [Std.TransOrd L] in
/-- The component of the united entries has the stack tops of the old one. -/
theorem downs_subset_of_found {a b : Arena S L} {E : FinSet Nat} {old new : Nat}
    (ha : a.WellFormed) (hf : Found a E new b) (hE : ∀ e ∈ a.entriesIn old, e ∈ E) :
    ∀ d ∈ a.downsIn old, d ∈ b.downsIn new := by
  intro d hd
  obtain ⟨e, he, hed⟩ := ha.mem_downs.mp hd
  rw [hf.wellFormed.mem_downs, hf.entriesIn_self]
  refine ⟨e, hE e he, ?_⟩
  rwa [entryDowns, hf.entries]

/-- `c` is `b` after the states `us` have gone to the component `new` that was found for the
entries `E` of `a`, with their borders brought up to date. -/
structure Rehomed (a b : Arena S L) (E : FinSet Nat) (new : Nat) (us : List Nat) (c : Arena S L) :
    Prop where
  wellFormed : c.WellFormed
  chart : c.chart = (a.chart.addComponent new E).setEntries fun u e =>
    (u ∈ us ∧ e ∈ E) ∨ u ∉ us ∧ a.HasEntry u e
  size : c.size = a.size
  nodes : ∀ u : Nat, c.nodes[u]? =
    (a.nodes[u]?).map fun n => { n with component := if u ∈ us then new else n.component }
  home : ∀ u, c.home u = if u ∈ us then some new else a.home u
  entries : c.entries = a.entries
  components : c.components.size = b.components.size
  entriesIn : ∀ k, c.entriesIn k = b.entriesIn k
  downsIn : c.downsIn new = b.downsIn new
  exact : ∀ u ∈ us, c.Exact c.chart.Edge u
  bordered : a.Bordered a.chart.Edge → c.Bordered c.chart.Edge

variable [Std.LawfulEqOrd L]

theorem rehome_yields {a b : Arena S L} {E : FinSet Nat} {old new : Nat} {us : List Nat}
    (ha : a.WellFormed) (hl : a.chart.Linked) (hf : Found a E new b)
    (hold : old < a.components.size) (hus : ∀ u ∈ us, a.home u = some old) :
    Yields (moveAll b us new) fun moved =>
      Yields (refreshBorders moved old us) fun c => Rehomed a b E new us c := by
  have hnew : new < b.components.size := by rw [hf.components]; omega
  have hle : a.components.size ≤ b.components.size := by rw [hf.components]; omega
  have hsize : b.size = a.size := by unfold size; rw [hf.nodes]
  have hlt : ∀ u ∈ us, u < a.size := fun u hu => lt_size_of_home (hus u hu)
  have hsame : SameBorders a b := ⟨fun _ => field_congr hf.nodes, hf.borderIn⟩
  refine (moveAll_yields hf.wellFormed hnew fun u hu => hsize ▸ hlt u hu).mono ?_
  intro moved hm
  have hchart := chart_relocated ha hm hf
  have hrange : moved.InRange := inRange (hchart ▸ hl.addComponent.setEntries)
  refine (refreshBorders_yields hm.wellFormed hrange
    (by rw [hm.components]; exact Nat.lt_of_lt_of_le hold hle)
    fun u hu => by rw [hm.size, hsize]; exact hlt u hu).mono ?_
  intro c h
  obtain ⟨halike, hnodes, hexact, hbordered⟩ := h
  have hedge : c.chart.Edge = moved.chart.Edge := by rw [halike.chart_eq hnodes]
  refine ⟨halike.wellFormed hm.wellFormed, (halike.chart_eq hnodes).trans hchart,
    halike.size.trans (hm.size.trans hsize), fun u => by rw [hnodes, hm.nodes, hf.nodes],
    fun u => ?_, halike.entries.trans (hm.entries.trans hf.entries),
    halike.components.trans hm.components,
    fun k => (halike.entriesIn k).trans (hm.entriesIn k),
    (halike.downsIn new).trans (hm.downsIn new), by rw [hedge]; exact hexact,
    fun hborders => ?_⟩
  · rw [halike.home, hm.home, hsame.home]
  · have hedge' : moved.chart.Edge = a.chart.Edge := by rw [hchart]; rfl
    rw [hedge]
    refine hbordered (hm.borderedBut (fun u hu => (hsame.home u).trans (hus u hu)) ?_)
    rw [hedge']
    exact hsame.bordered hborders

omit [Std.LawfulEqOrd L] in
/-- What becomes due for a moved state, said of the chart. -/
theorem Rehomed.follows_iff {a b c : Arena S L} {E : FinSet Nat} {old new u : Nat} {us : List Nat}
    (h : Rehomed a b E new us c) (ha : a.WellFormed) (hu : u ∈ us) (hold : a.home u = some old)
    {i : WorkItem} :
    Follows c new ((b.downsIn new \ a.downsIn old).toList.filterMap Down.state?) u i ↔
      (∃ v, c.chart.Edge u v ∧ c.home v ≠ some new ∧ i = .reconcile new v) ∨
        c.explored u = true ∧ c.candidate u = true ∧ ∃ h, i = .examine u h ∧
          c.chart.HasDown u (.caller h) ∧ ¬ a.chart.HasDown u (.caller h) := by
  have hhome : c.home u = some new := by rw [h.home, if_pos hu]
  refine or_congr (exists_congr fun v => by rw [(h.exact u hu).mem hhome, and_assoc])
    (and_congr_right fun _ => and_congr_right fun _ => exists_congr fun p => ?_)
  have hc : c.chart.HasDown u (.caller p) ↔ .caller p ∈ b.downsIn new := by
    rw [h.wellFormed.hasDown_chart, hasDown_of_home hhome, h.downsIn]
  have ha' : a.chart.HasDown u (.caller p) ↔ .caller p ∈ a.downsIn old :=
    ha.hasDown_chart.trans (hasDown_of_home hold)
  rw [mem_callers, Std.ExtTreeSet.mem_diff_iff, hc, ha', and_comm]

section
variable {target old : Nat} {C : Component} {extra : FinSet Nat}

omit [Std.LawfulEqOrd L] in
/-- A reconciliation is idle if the component of the target has the entries. -/
theorem reconcile_of_subset (hold : x.arena.home target = some old)
    (hC : x.arena.components[old]? = some C) (hidle : extra.subset C.entries = true) :
    x.reconcile target extra = .ok x := by
  unfold reconcile
  rw [bind_of_eq_ok (componentOf_eq_ok hold), bind_of_eq_ok (component_eq_ok hC), if_pos hidle]
  rfl

/-- The exploration after a reconciliation that moved the region of `target` and left `c`. -/
def rehomed (x : Exploration S L) (target old new : Nat) (fresh : FinSet (Down Nat))
    (c : Arena S L) : Exploration S L :=
  ({ x.report (.reconciled target old new (x.arena.region old target).length) with
    arena := c }).following new (fresh.toList.filterMap Down.state?) (x.arena.region old target)

/-- A reconciliation that is not idle meets no fault: the region goes to the component that is
found for the united entries, and is followed. -/
theorem reconcile_rehomes (hx : x.arena.WellFormed) (hl : x.arena.chart.Linked)
    (hold : x.arena.home target = some old) (hC : x.arena.components[old]? = some C)
    (hextra : ∀ e ∈ extra, e ∈ x.arena.entries) (hgrows : ¬ extra.subset C.entries = true) :
    ∃ new b c, Found x.arena (C.entries ∪ extra) new b ∧ old ≠ new ∧
      Rehomed x.arena b (C.entries ∪ extra) new (x.arena.region old target) c ∧
      x.reconcile target extra =
        .ok (x.rehomed target old new (b.downsIn new \ x.arena.downsIn old) c) := by
  have hCe : x.arena.entriesIn old = C.entries := part_eq hC
  have hCd : x.arena.downsIn old = C.downs := part_eq hC
  have hlt : old < x.arena.components.size := hx.home_lt hold
  have hE : ∀ e ∈ C.entries ∪ extra, e ∈ x.arena.entries := by
    intro e he
    rcases Std.ExtTreeSet.mem_union_iff.mp he with he | he
    · exact hx.isEntry (hCe ▸ he)
    · exact hextra e he
  have hfound := componentFor_found hx hE
  unfold reconcile
  rw [bind_of_eq_ok (componentOf_eq_ok hold), bind_of_eq_ok (component_eq_ok hC), if_neg hgrows]
  generalize x.arena.componentFor (C.entries ∪ extra) = found at hfound
  obtain ⟨new, b⟩ := found
  dsimp only at hfound ⊢
  have hnew : new < b.components.size := by rw [hfound.components]; omega
  obtain ⟨N, hN⟩ := exists_component hnew
  have hNd : b.downsIn new = N.downs := part_eq hN
  have hne : old ≠ new := ne_of_found hfound hlt fun hall => hgrows (FinSet.subset_iff.mpr
    fun e he => hCe ▸ hall e (Std.ExtTreeSet.mem_union_iff.mpr (.inr he)))
  have hdowns : ∀ d ∈ C.downs, d ∈ N.downs := by
    rw [← hCd, ← hNd]
    exact downs_subset_of_found hx hfound fun e he =>
      Std.ExtTreeSet.mem_union_iff.mpr (.inl (hCe ▸ he))
  have hregion : b.region old target = x.arena.region old target := region_congr hfound.nodes
  have hmoved : ∀ u ∈ x.arena.region old target, u < x.arena.size := fun u hu =>
    lt_size_of_home (home_of_mem_region hu)
  obtain ⟨moved, heq, c, heq', hc⟩ := rehome_yields hx hl hfound hlt
    fun u hu => home_of_mem_region hu
  refine ⟨new, b, c, hfound, hne, hc, ?_⟩
  rw [bind_of_eq_ok (component_eq_ok hN), bind_of_eq_ok (ensure_eq_ok (by simpa using hne)),
    bind_of_eq_ok (ensure_eq_ok (FinSet.subset_iff.mpr hdowns)), hregion, bind_of_eq_ok heq,
    ← hNd, ← hCd]
  refine (bind_of_eq_ok heq').trans (followMoves_eq_ok ?_ fun u hu => ?_)
  · show new < c.components.size
    rw [hc.components]
    exact hnew
  · show u < c.size
    rw [hc.size]
    exact hmoved u hu

theorem reconcile_migrates (hx : x.arena.WellFormed) (hl : x.arena.chart.Linked)
    (hold : x.arena.home target = some old) (hC : x.arena.components[old]? = some C)
    (hextra : ∀ e ∈ extra, e ∈ x.arena.entries) (hgrows : ¬ extra.subset C.entries = true) :
    Yields (x.reconcile target extra) fun y =>
      ∃ new, Migrated x.snapshot target old new (C.entries ∪ extra) y.snapshot := by
  obtain ⟨new, b, c, hf, -, hc, heq⟩ := reconcile_rehomes hx hl hold hC hextra hgrows
  refine ⟨_, heq, new, hc.wellFormed, hc.chart, fun hlt e => ?_, fun {u} hu => ?_, fun {i} => ?_,
    fun u => count_items_following, hc.bordered⟩
  · show e ∈ x.arena.entriesIn new ↔ _
    rw [← hf.entriesIn new hlt, hf.entriesIn_self]
  · exact (hc.home u).trans (if_neg hu)
  · refine mem_items_following.trans (or_congr Iff.rfl (exists_congr fun u =>
      and_congr_right fun hu => ?_))
    exact hc.follows_iff hx hu (home_of_mem_region hu)
end

/-! ## What is repaired -/

section
variable {op : Operand S L} {x y : Snapshot S L} {target old new : Nat} {C : Component}
  {extra : FinSet Nat}

omit [Std.LawfulEqOrd L] in
/-- The entries of a state after a migration. -/
theorem Migrated.chart_eq (hold : x.arena.components[old]? = some C)
    (h : Migrated x target old new (C.entries ∪ extra) y) :
    ∃ H, y.chart = (x.chart.addComponent new (C.entries ∪ extra)).setEntries H ∧
      (∀ {u e}, H u e ↔ x.chart.HasEntry u e ∨ u ∈ x.arena.region old target ∧ e ∈ extra) ∧
      ∀ {u e}, u ∈ x.arena.region old target → (H u e ↔ e ∈ C.entries ∪ extra) := by
  refine ⟨_, h.chart, fun {u e} => ?_, fun {u e} hu => by simp [hu]⟩
  have hCe : u ∈ x.arena.region old target → (x.chart.HasEntry u e ↔ e ∈ C.entries) := by
    intro hu
    have hentries : x.arena.entriesIn old = C.entries := part_eq hold
    rw [← hentries]
    exact hasEntry_of_home (home_of_mem_region hu)
  by_cases hu : u ∈ x.arena.region old target
  · simp [hu, hCe hu]
  · simp [hu]

omit [Std.LawfulEqOrd L] in
theorem Migrated.inComponent_iff {E : FinSet Nat} (h : Migrated x target old new E y) {e : Nat} :
    y.chart.InComponent new e ↔ e ∈ E := by
  rw [h.chart]
  show x.chart.InComponent new e ∨ new = new ∧ e ∈ E ↔ e ∈ E
  refine ⟨fun he => he.elim (fun he => ?_) And.right, fun he => .inr ⟨rfl, he⟩⟩
  exact (h.entriesIn (lt_components_of_mem he)).mp he

omit [Std.LawfulEqOrd L] in
/-- A migration keeps what is true, if the new entries lead to the target. -/
theorem Migrated.grows (hC : x.arena.components[old]? = some C)
    (h : Migrated x target old new (C.entries ∪ extra) y) : Grows x y := by
  obtain ⟨H, hchart, hentry, -⟩ := h.chart_eq hC
  refine ⟨⟨?_, fun hi => h.mem_items.mpr (.inl hi)⟩, fun {u p} hu hc hd => ?_⟩
  · rw [hchart]
    exact .trans (.addComponent h.entriesIn) (.setEntries fun he => hentry.mpr (.inl he))
  · by_cases hold : x.chart.HasDown u (.caller p)
    · exact .inl hold
    · refine .inr (h.mem_items.mpr (.inr ?_))
      have hd' := hd
      rw [hchart] at hd'
      obtain ⟨e, he, hed⟩ := hd'
      rcases hentry.mp he with he | ⟨hmoved, -⟩
      · exact absurd ⟨e, he, hed⟩ hold
      · exact ⟨u, hmoved, .inr ⟨hu, hc, p, rfl, hd, hold⟩⟩

theorem Migrated.coherent (hx : Coherent op x) (hold : x.arena.home target = some old)
    (hC : x.arena.components[old]? = some C) (hflows : ∀ e ∈ extra, x.chart.Flows op e target)
    (h : Migrated x target old new (C.entries ∪ extra) y) : Coherent op y := by
  obtain ⟨H, hchart, hentry, hself⟩ := h.chart_eq hC
  have hreach : ∀ {u}, u ∈ x.arena.region old target → x.chart.Flows op target u := by
    intro u hu
    obtain ⟨s, hs⟩ := lt_size_iff.mp (lt_size_of_home hold)
    refine region_minimal (P := fun u => x.chart.Flows op target u) ⟨s, s, hs, hs, .refl s⟩ ?_ hu
    exact fun v w _ _ hv hw =>
      hv.trans (hx.sound.flows_of_edge hx.linked (edge_chart.mpr hw))
  have hflows' : ∀ {u e}, H u e → x.chart.Flows op e u := by
    intro u e he
    rcases hentry.mp he with he | ⟨hu, he⟩
    · exact hx.sound.flows he
    · exact (hflows e he).trans (hreach hu)
  have hsound : y.chart.Sound op := by
    rw [hchart]
    exact hx.sound.addComponent.setEntries (fun he => hentry.mpr (.inl he)) hflows'
  have hlinked : y.chart.Linked := by rw [hchart]; exact hx.linked.addComponent.setEntries
  have hgrows := h.grows hC
  refine ⟨h.wellFormed, hlinked, hsound, fun {i} hi => ?_, fun u => ?_, fun u => ?_⟩
  · rcases h.mem_items.mp hi with hi | ⟨u, hu, ⟨v, hedge, -, rfl⟩ | ⟨hexp, hcand, p, rfl, hd, -⟩⟩
    · exact hgrows.due (hx.due hi)
    · have huv := hsound.flows_of_edge hlinked hedge
      refine ⟨by rw [hchart]; exact Nat.le_max_right _ _, ⟨_, huv.choose_spec.choose_spec.2.1⟩, ?_⟩
      intro e he
      have heu : y.chart.HasEntry u e := by
        rw [hchart]
        exact (hself hu).mpr (h.inComponent_iff.mp he)
      exact (hsound.flows heu).trans huv
    · exact ⟨hexp, hd⟩
  · rw [h.count_items, hx.unexplored, hchart]
    rfl
  · rw [hchart]
    exact hx.unmarked u

/-- A migration gives entries to states that they reach, if the new ones reach the target. -/
theorem Migrated.traced (hx : Coherent op x) (hC : x.arena.components[old]? = some C)
    (hreaches : ∀ e ∈ extra, x.chart.Reaches e target)
    (h : Migrated x target old new (C.entries ∪ extra) y) (ht : x.Traced) : y.Traced := by
  obtain ⟨H, hchart, hentry, hself⟩ := h.chart_eq hC
  have hgrows := h.grows hC
  have hregion : ∀ {u}, u ∈ x.arena.region old target → x.chart.Reaches target u := fun hu =>
    region_minimal (P := x.chart.Reaches target) .refl
      (fun _ _ _ _ hv hw => hv.tail (edge_chart.mpr hw)) hu
  have hreached : ∀ {u e}, H u e → y.chart.Reaches e u := by
    intro u e he
    rcases hentry.mp he with he | ⟨hu, he⟩
    · exact hgrows.reaches (ht.reached he)
    · exact hgrows.reaches ((hreaches e he).trans (hregion hu))
  refine ht.keeps hx hgrows.toKeeps (fun {u e} he => .inr (hreached ?_)) fun {k t} hi => ?_
  · rwa [hchart] at he
  · rcases h.mem_items.mp hi with hi | ⟨u, hu, ⟨v, hedge, -, heq⟩ | ⟨-, -, p, heq, -⟩⟩
    · exact .inl hi
    · cases heq
      exact .inr fun he => (hreached ((hself hu).mpr (h.inComponent_iff.mp he))).tail hedge
    · cases heq

/-- A migration repairs what does not spread to the target. -/
theorem Migrated.steady (hx : Coherent op x) (hold : x.arena.home target = some old)
    (hC : x.arena.components[old]? = some C)
    (hflows : ∀ e ∈ extra, x.chart.Flows op e target)
    (hspread : ∀ {r t}, x.chart.Edge r t →
      x.Covered r t ∨ t = target ∧ ∀ {e}, x.chart.HasEntry r e → e ∈ extra)
    (hhomed : ∀ {e}, x.chart.IsEntry e → x.chart.HasEntry e e ∨ e = target ∧ e ∈ extra)
    (h : Migrated x target old new (C.entries ∪ extra) y) : Steady op y := by
  obtain ⟨H, hchart, hentry, hself⟩ := h.chart_eq hC
  have hgrows := h.grows hC
  refine ⟨h.coherent hx hold hC hflows, ?_, ?_⟩
  · intro r t hedge
    have hentry' : ∀ {u e}, y.chart.HasEntry u e ↔ H u e := by intro u e; rw [hchart]; rfl
    by_cases hr : r ∈ x.arena.region old target
    · by_cases ht : t ∈ x.arena.region old target
      · exact .inl fun he => hentry'.mpr ((hself ht).mpr ((hself hr).mp (hentry'.mp he)))
      · by_cases hk : y.arena.home t = some new
        · refine .inl fun he => ⟨new, hk, ?_⟩
          exact h.inComponent_iff.mpr ((hself hr).mp (hentry'.mp he))
        · exact .inr ⟨new, h.mem_items.mpr (.inr ⟨r, hr, .inl ⟨t, hedge, hk, rfl⟩⟩),
            fun he => h.inComponent_iff.mpr ((hself hr).mp (hentry'.mp he))⟩
    · have hsame : ∀ {e}, y.chart.HasEntry r e → x.chart.HasEntry r e := fun he =>
        (hentry.mp (hentry'.mp he)).elim id fun hm => absurd hm.1 hr
      have hedge' : x.chart.Edge r t := by rwa [hchart] at hedge
      rcases hspread hedge' with (hall | ⟨k, hk, hall⟩) | ⟨rfl, hall⟩
      · exact .inl fun he => hgrows.hasEntry (hall (hsame he))
      · refine .inr ⟨k, hgrows.items hk, fun he => ?_⟩
        rw [hchart]
        exact .inl (hall (hsame he))
      · exact .inl fun he =>
          hentry'.mpr (hentry.mpr (.inr ⟨mem_region_self hold, hall (hsame he)⟩))
  · intro e he
    have he' : x.chart.IsEntry e := by rwa [hchart] at he
    rcases hhomed he' with he | ⟨rfl, he⟩
    · exact hgrows.hasEntry he
    · rw [hchart]
      exact hentry.mpr (.inr ⟨mem_region_self hold, he⟩)
end

/-- A reconciliation lets the entries `extra` reach the target, and by pending items all that
follows it. It needs no more of the arena than that they, and only they, are missing there. -/
theorem reconcile_yields {op : Operand S L} {target : Nat} {extra : FinSet Nat}
    (hx : Coherent op x.snapshot) {s : S} (ht : x.snapshot.chart.nameOf target = some s)
    (hextra : ∀ e ∈ extra, x.snapshot.chart.IsEntry e ∧ x.snapshot.chart.Flows op e target ∧
      x.snapshot.chart.Reaches e target)
    (hspread : ∀ {r t}, x.snapshot.chart.Edge r t → x.snapshot.Covered r t ∨
      t = target ∧ ∀ {e}, x.snapshot.chart.HasEntry r e → e ∈ extra)
    (hhomed : ∀ {e}, x.snapshot.chart.IsEntry e →
      x.snapshot.chart.HasEntry e e ∨ e = target ∧ e ∈ extra) :
    Yields (x.reconcile target extra) fun y => Steady op y.snapshot ∧
      Advances op x.snapshot y.snapshot ∧
      ∀ e ∈ extra, y.snapshot.chart.HasEntry target e := by
  have hwf : x.arena.WellFormed := hx.wellFormed
  obtain ⟨old, C, hold, hC⟩ := hwf.componentOf_eq (lt_size_of_nameOf ht)
  by_cases hgrows : extra.subset C.entries = true
  · have hthere : ∀ e ∈ extra, x.snapshot.chart.HasEntry target e := by
      intro e he
      have hentries : x.arena.entriesIn old = C.entries := part_eq hC
      exact ⟨old, hold, hentries ▸ FinSet.subset_iff.mp hgrows e he⟩
    refine ⟨x, reconcile_of_subset hold hC hgrows, ⟨hx, fun hedge => ?_, fun he => ?_⟩, .refl _,
      hthere⟩
    · rcases hspread hedge with hc | ⟨rfl, hall⟩
      · exact hc
      · exact .inl fun he => hthere _ (hall he)
    · rcases hhomed he with he | ⟨rfl, he⟩
      · exact he
      · exact hthere _ he
  · refine (reconcile_migrates hwf hx.linked hold hC (fun e he => (hextra e he).1) hgrows).mono ?_
    intro y h
    obtain ⟨new, h⟩ := h
    obtain ⟨H, hchart, hentry, -⟩ := h.chart_eq hC
    refine ⟨h.steady hx hold hC (fun e he => (hextra e he).2.1) hspread hhomed, ?_, fun e he => ?_⟩
    · exact .of_grows (h.grows hC) (fun u => by rw [hchart]; rfl)
        (h.traced hx hC fun e he => (hextra e he).2.2) h.bordered
    · rw [hchart]
      exact hentry.mpr (.inr ⟨mem_region_self hold, he⟩)

end NestedWords.Exploration
