import NestedWords.Proofs.Exploration.Discovery

/-!
# Taking transitions

A new edge within a call may reach a state of another component, to which its entries have to
spread: `crossIfForeign_yields` says that they do, or that a reconciliation is pending. A new
caller is a new stack top for all states that its callee leads to: `addCaller_yields` says
that the returns under it are due. With these, `takeInternal_yields`, `takeCall_yields` and
`takeReturn_yields` say of each kind of transition that it is on the chart afterwards.
-/

namespace NestedWords.Exploration

open Arena

variable {S L : Type} [Ord L] {op : Operand S L}
  {x y : Exploration S L}

/-! ## Edges within a call -/

theorem addCrossing_yields {a : Arena S L} (ha : a.WellFormed) {r k t : Nat}
    (hr : a.home r = some k) :
    Yields (a.addCrossing k r t) fun b => Alike a b ∧ b.nodes = a.nodes ∧ ∀ i v,
      (b.borderIn i)[v]? =
        if i = k ∧ v = r then some ((a.borderOf k r).insert t) else (a.borderIn i)[v]? := by
  obtain ⟨C, hC⟩ := exists_component (ha.home_lt hr)
  have hmem : r ∈ C.members := by
    have := ha.mem_members.mpr hr
    rwa [membersIn, part_eq hC] at this
  unfold Arena.addCrossing
  rw [component_eq_ok hC]
  dsimp only [bind, Except.bind]
  rw [if_neg (by simpa using Std.ExtTreeSet.mem_iff_contains.mp hmem),
    updateComponent_eq_ok (ha.home_lt hr)]
  refine yields_ok ⟨alike_border (g := fun m => m.insert r ((m.getD r ∅).insert t)), rfl,
    fun i v => ?_⟩
  have h : (a.modifyComponent k (·.addCrossing r t)).borderIn i =
      if i = k then (a.borderIn i).insert r (((a.borderIn i).getD r ∅).insert t)
      else a.borderIn i :=
    part_modifyComponent (fun m : FinMap Nat (FinSet Nat) => m.insert r ((m.getD r ∅).insert t))
      (fun _ => rfl) (ha.home_lt hr)
  rw [h]
  split
  · next hi =>
    rw [Std.ExtTreeMap.getElem?_insert]
    simp [hi, borderOf, eq_comm (a := r)]
  · next hi => simp [hi]

/-- An edge between two components has to be mentioned at its source, and nowhere else. -/
theorem bordered_cross {a b : Arena S L} {E E' : Nat → Nat → Prop} {r k t : Nat}
    (ha : a.Bordered E) (hr : a.home r = some k) (ht : a.home t ≠ some k)
    (hhome : ∀ v, b.home v = a.home v)
    (hborder : ∀ i v, (b.borderIn i)[v]? =
      if i = k ∧ v = r then some ((a.borderOf k r).insert t) else (a.borderIn i)[v]?)
    (hE : ∀ {r' t'}, E' r' t' ↔ E r' t' ∨ r' = r ∧ t' = t) : b.Bordered E' where
  exact u := by
    by_cases hu : u = r
    · subst hu
      have hself : (b.borderIn k)[u]? = some ((a.borderOf k u).insert t) := by
        rw [hborder, if_pos ⟨rfl, rfl⟩]
      refine ⟨fun {i v} hi => ?_, fun {i} hi => ?_⟩
      · obtain rfl : k = i := Option.some.inj (hr.symm.trans ((hhome u).symm.trans hi))
        rw [borderOf, Std.ExtTreeMap.getD_eq_getD_getElem?, hself, Option.getD_some,
          Std.ExtTreeSet.mem_insert, Std.compare_eq_iff_eq, (ha.exact u).mem hr, hE, hhome]
        grind
      · obtain rfl : k = i := Option.some.inj (hr.symm.trans ((hhome u).symm.trans hi))
        rw [hself]
        intro he
        have hmem : t ∈ (a.borderOf k u).insert t := by simp
        rw [Option.some.inj he] at hmem
        exact Std.ExtTreeSet.not_mem_empty hmem
    · have hsame : ∀ {i}, (b.borderIn i)[u]? = (a.borderIn i)[u]? := fun {i} => by
        rw [hborder, if_neg fun h => hu h.2]
      have hexact := (ha.exact u).congr hhome fun _ => hsame
      exact ⟨fun hi => (hexact.mem hi).trans (and_congr_left fun _ => by simp [hE, hu]),
        hexact.nonempty⟩
  resident {i u} hi := by
    rw [hhome]
    rw [Std.ExtTreeMap.mem_iff_isSome_getElem?, hborder] at hi
    split at hi
    · next h => rw [h.1, h.2]; exact hr
    · exact ha.resident (Std.ExtTreeMap.mem_iff_isSome_getElem?.mpr hi)

/-- An edge inside a component is none of the borders' business. -/
theorem bordered_inner {a : Arena S L} {E E' : Nat → Nat → Prop} {r k t : Nat}
    (ha : a.Bordered E) (hr : a.home r = some k) (ht : a.home t = some k)
    (hE : ∀ {r' t'}, E' r' t' ↔ E r' t' ∨ r' = r ∧ t' = t) : a.Bordered E' where
  exact u := by
    refine ⟨fun {i v} hi => ?_, (ha.exact u).nonempty⟩
    rw [(ha.exact u).mem hi, hE]
    refine and_congr_left fun hv => ⟨.inl, fun h => h.resolve_right fun hnew => hv ?_⟩
    rw [hnew.1, hr] at hi
    rw [hnew.2, ht, hi]
  resident := ha.resident

variable [Std.TransOrd L]

/-- A pending reconciliation sees to the edge. -/
theorem spread_push_reconcile {r t k : Nat} (hspread : ∀ {r' t'}, x.snapshot.chart.Edge r' t' →
      x.snapshot.Covered r' t' ∨ r' = r ∧ t' = t)
    (hentry : ∀ {e}, x.snapshot.chart.HasEntry r e → x.snapshot.chart.InComponent k e) :
    (x.push (.reconcile k t)).snapshot.Spread := by
  intro r' t' he
  rcases hspread he with hc | ⟨rfl, rfl⟩
  · exact hc.keeps keeps_push id
  · exact .inr ⟨k, Worklist.mem_items_push.mpr (.inr rfl), hentry⟩

/-- An edge is the only one that entries may fail to spread along: then they do, or will. -/
theorem crossIfForeign_yields {r t : Nat} (hx : Coherent op x.snapshot) (hhomed : x.snapshot.Homed)
    (hedge : x.snapshot.chart.Edge r t)
    (hspread : ∀ {r' t'}, x.snapshot.chart.Edge r' t' →
      x.snapshot.Covered r' t' ∨ r' = r ∧ t' = t) :
    Yields (crossIfForeign x r t) fun y => Steady op y.snapshot ∧ Grows x.snapshot y.snapshot ∧
      y.snapshot.chart = x.snapshot.chart ∧
      (∀ {k t'}, .reconcile k t' ∈ y.snapshot.items → .reconcile k t' ∈ x.snapshot.items ∨
        t' = t ∧ ∀ {e}, x.snapshot.chart.InComponent k e → x.snapshot.chart.HasEntry r e) ∧
      ∀ {E}, (∀ {r' t'}, x.snapshot.chart.Edge r' t' ↔ E r' t' ∨ r' = r ∧ t' = t) →
        x.arena.Bordered E → y.snapshot.Bordered := by
  have hwf : x.arena.WellFormed := hx.wellFormed
  have hflows := hx.sound.flows_of_edge hx.linked hedge
  obtain ⟨s, s', hs, hs', -⟩ := id hflows
  obtain ⟨k, hk⟩ : ∃ k, x.arena.home r = some k := exists_home (lt_size_of_nameOf hs)
  obtain ⟨i, hi⟩ : ∃ i, x.arena.home t = some i := exists_home (lt_size_of_nameOf hs')
  have hentry : ∀ {e}, x.snapshot.chart.HasEntry r e ↔ x.snapshot.chart.InComponent k e :=
    hasEntry_of_home hk
  unfold crossIfForeign
  rw [componentOf_eq_ok hk, componentOf_eq_ok hi]
  dsimp only [bind, Except.bind]
  split
  · next hne =>
    obtain ⟨b, hb, halike, hnodes, hborder⟩ := addCrossing_yields hwf hk (t := t)
    rw [hb]
    dsimp only
    let z : Exploration S L := { x with arena := b }
    have hchart : z.snapshot.chart = x.snapshot.chart := halike.chart_eq hnodes
    have hkeeps : Keeps x.snapshot z.snapshot := ⟨by rw [hchart]; exact .refl _, id⟩
    have hz : Coherent op z.snapshot :=
      hx.of_keeps hkeeps (halike.wellFormed hwf) (hchart ▸ hx.linked) (hchart ▸ hx.sound) rfl
        (by rw [hchart]) (by rw [hchart])
    have hdue : z.snapshot.chart.Due op (.reconcile k t) := by
      rw [hchart]
      exact ⟨hwf.home_lt hk, ⟨s', hs'⟩, fun he => (hx.sound.flows (hentry.mpr he)).trans hflows⟩
    have hspread' : (z.push (.reconcile k t)).snapshot.Spread := by
      refine spread_push_reconcile (r := r) ?_ ?_
      · unfold Snapshot.Covered
        rw [hchart]
        exact hspread
      · rw [hchart]
        exact hentry.mp
    have hhomed' : z.snapshot.Homed := by
      unfold Snapshot.Homed
      rw [hchart]
      exact hhomed
    refine yields_pure ⟨⟨coherent_push hz (by simp) hdue, hspread', hhomed'⟩, ?_, hchart, ?_,
      fun {E} hE hborders => ?_⟩
    · exact .trans (.of_keeps hkeeps (by rw [hchart]; exact id) (by rw [hchart]; exact id))
        grows_push
    · intro k' t' hi
      rcases Worklist.mem_items_push.mp hi with hi | heq
      · exact .inl hi
      · cases heq
        exact .inr ⟨rfl, hentry.mpr⟩
    · show b.Bordered z.snapshot.chart.Edge
      rw [hchart]
      refine bordered_cross hborders hk (fun ht => ?_) halike.home hborder hE
      rw [hi] at ht
      simp [Option.some.inj ht] at hne
  · next heq =>
    have hik : i = k := by simpa using heq
    subst hik
    refine yields_pure ⟨⟨hx, fun he => ?_, hhomed⟩, .refl _, rfl, .inl,
      fun hE hborders => bordered_inner hborders hk hi hE⟩
    rcases hspread he with hc | ⟨rfl, rfl⟩
    · exact hc
    · exact .inl fun he => ⟨i, hi, hentry.mp he⟩

/-- `z` is `x` with a new edge from `r` to `t`, along which entries spread or will. -/
structure Crossed (x : Snapshot S L) (r t : Nat) (z : Snapshot S L) : Prop extends Grows x z where
  crossing : z.chart.Edge r t
  sameExamined : ∀ u, z.chart.examined u = x.chart.examined u
  sameEntries : ∀ {u e}, z.chart.HasEntry u e → x.chart.HasEntry u e
  reconciles : ∀ {i t'}, .reconcile i t' ∈ z.items → .reconcile i t' ∈ x.items ∨
    t' = t ∧ ∀ {e}, z.chart.InComponent i e → z.chart.HasEntry r e
  bordered : x.Bordered → z.Bordered

/-- A new edge, on a chart that is otherwise the same. -/
theorem crossIfForeign_crossed {r t : Nat} (hx : Steady op x.snapshot) (hy : Coherent op y.snapshot)
    (hkeeps : Keeps x.snapshot y.snapshot) (hitems : y.snapshot.items = x.snapshot.items)
    (hisEntry : y.snapshot.chart.IsEntry = x.snapshot.chart.IsEntry)
    (hentryDown : y.snapshot.chart.EntryDown = x.snapshot.chart.EntryDown)
    (hhasEntry : y.snapshot.chart.HasEntry = x.snapshot.chart.HasEntry)
    (hexamined : y.snapshot.chart.examined = x.snapshot.chart.examined)
    (hsame : SameBorders x.arena y.arena) (hedge : y.snapshot.chart.Edge r t)
    (hedges : ∀ {r' t'}, y.snapshot.chart.Edge r' t' →
      x.snapshot.chart.Edge r' t' ∨ r' = r ∧ t' = t) :
    Yields (crossIfForeign y r t) fun z => Steady op z.snapshot ∧
      Crossed x.snapshot r t z.snapshot ∧ z.snapshot.chart = y.snapshot.chart := by
  refine (crossIfForeign_yields hy ?_ hedge fun he => ?_).mono ?_
  · intro e he
    rw [hisEntry] at he
    exact hkeeps.hasEntry (hx.homed he)
  · refine (hedges he).imp (fun he => ?_) id
    exact (hx.spread he).keeps hkeeps fun he => hhasEntry ▸ he
  · intro z h
    obtain ⟨hz, hgrows, hchart, hreconciles, hborders⟩ := h
    have hxy : Grows x.snapshot y.snapshot :=
      .of_keeps hkeeps (fun he => hhasEntry ▸ he) fun hd => hentryDown ▸ hd
    refine ⟨hz, ⟨hxy.trans hgrows, hchart ▸ hedge, fun u => by rw [hchart, hexamined], ?_, ?_,
      fun hb => hborders ?_ (hsame.bordered hb)⟩, hchart⟩
    · rw [hchart, hhasEntry]
      exact id
    · rw [hchart, ← hitems]
      exact hreconciles
    · intro r' t'
      refine ⟨hedges, fun h => h.elim hkeeps.edge fun h => ?_⟩
      rw [h.1, h.2]
      exact hedge

/-- A state that was placed where the new edge leads has no entry that the edge does not bring. -/
theorem Placed.crossed {x y z : Snapshot S L} {r v k : Nat} (h : Placed x v k y)
    (h' : Crossed y r v z) (hx : Coherent op x)
    (hk : ∀ {e}, x.chart.InComponent k e → x.chart.HasEntry r e) : Advances op x z := by
  refine .of_grows (h.toGrows.trans h'.toGrows)
    (fun u => (h'.sameExamined u).trans (h.sameExamined u)) (fun ht => ?_) fun hb =>
      h'.bordered (h.bordered hb)
  have hkeeps : Keeps x z := h.toKeeps.trans h'.toKeeps
  have hreached : ∀ {u e}, z.chart.HasEntry u e → z.chart.Reaches e u := by
    intro u e he
    rcases h.entries (h'.sameEntries he) with he | ⟨rfl, he⟩
    · exact hkeeps.reaches (ht.reached he)
    · exact (hkeeps.reaches (ht.reached (hk he))).tail h'.crossing
  refine ht.keeps hx hkeeps (fun he => .inr (hreached he)) fun hi => ?_
  rcases h'.reconciles hi with hi | ⟨rfl, hall⟩
  · exact .inl (h.reconciles hi)
  · exact .inr fun he => (hreached (hall he)).tail h'.crossing

variable [DecidableEq S] [Std.LawfulEqOrd L] {s t : S} {l : L} {u : Nat}

theorem takeInternal_yields (hx : Steady op x.snapshot) (hu : x.snapshot.chart.nameOf u = some s)
    (hl : l ∈ op.internalLetters s) (ht : t ∈ op.internalSuccessors s l) :
    Yields (takeInternal op u l x t) fun y => Steady op y.snapshot ∧
      Advances op x.snapshot y.snapshot ∧ ∃ v, y.snapshot.chart.nameOf v = some t ∧
        (l, v) ∈ y.snapshot.chart.internalOut u := by
  obtain ⟨k, hk⟩ : ∃ k, x.arena.home u = some k := exists_home (lt_size_of_nameOf hu)
  have hst := Operand.within_of_internal hl ht
  obtain ⟨y, hyeq, hy, hplaced, hv⟩ := discover_yields hx
    (hx.wellFormed.home_lt hk) ((hx.sound.occurs hu).imp fun _ hw => hw.within hst) fun he => by
      obtain ⟨i, s', hi, hs', hw⟩ := hx.sound.flows (u := u) ⟨k, hk, he⟩
      rw [hu] at hs'
      cases hs'
      exact ⟨i, hi, hw.trans hst⟩
  obtain ⟨v, y⟩ := y
  have hu' := hplaced.nameOf hu
  obtain ⟨b, hbeq, hwf, hchart, hsame⟩ := addInternal_yields (l := l) hy.wellFormed
    (lt_size_of_nameOf hu') (lt_size_of_nameOf hv)
  unfold takeInternal
  rw [componentOf_eq_ok hk]
  dsimp only [bind, Except.bind]
  rw [hyeq]
  dsimp only
  have hbeq' : y.arena.addInternal u l v = .ok b := hbeq
  rw [hbeq']
  dsimp only
  let z : Exploration S L := { y with arena := b }
  have hzchart : z.snapshot.chart = y.snapshot.chart.addInternal u l v := hchart
  have hkeeps : Keeps y.snapshot z.snapshot := ⟨by rw [hzchart]; exact .addInternal, id⟩
  have hz : Coherent op z.snapshot :=
    hy.toCoherent.of_keeps hkeeps hwf (by rw [hzchart]; exact hy.linked.addInternal)
      (by rw [hzchart]; exact hy.sound.addInternal hu' hv hl ht) rfl (by rw [hzchart]; rfl)
      (by rw [hzchart]; rfl)
  have hnew : (l, v) ∈ z.snapshot.chart.internalOut u := by
    rw [hzchart]
    exact mem_insertAt.mpr (.inr ⟨rfl, rfl⟩)
  refine (crossIfForeign_crossed hy hz hkeeps rfl (by rw [hzchart]; rfl) (by rw [hzchart]; rfl)
    (by rw [hzchart]; rfl) (by rw [hzchart]; rfl) hsame (.inl ⟨l, hnew⟩) ?_).mono ?_
  · intro r' t' h
    rcases h with ⟨l', he⟩ | ⟨l', p, he⟩
    · rw [hzchart] at he
      rcases mem_insertAt.mp he with hold | ⟨rfl, hlast⟩
      · exact .inl (.inl ⟨l', hold⟩)
      · cases hlast; exact .inr ⟨rfl, rfl⟩
    · rw [hzchart] at he
      exact .inl (.inr ⟨l', p, he⟩)
  · intro w h
    obtain ⟨hw, hcrossed, hwchart⟩ := h
    exact ⟨hw, hplaced.crossed hcrossed hx.toCoherent (hasEntry_of_home hk).mpr, v,
      hcrossed.nameOf hv, hwchart ▸ hnew⟩

/-- A return continues the call in which its hierarchical predecessor is. -/
theorem takeReturn_yields {p : Nat} {r : S} (hx : Steady op x.snapshot)
    (hu : x.snapshot.chart.nameOf u = some s) (hp : x.snapshot.chart.nameOf p = some r)
    (hdown : x.snapshot.chart.HasDown u (.caller p)) (hl : l ∈ op.returnLetters s)
    (ht : t ∈ op.returnSuccessors s r l) :
    Yields (takeReturn op u p l x t) fun y => Steady op y.snapshot ∧
      Advances op x.snapshot y.snapshot ∧ ∃ v, y.snapshot.chart.nameOf v = some t ∧
        (p, l, v) ∈ y.snapshot.chart.returnOut u := by
  obtain ⟨k, hk⟩ : ∃ k, x.arena.home p = some k := exists_home (lt_size_of_nameOf hp)
  have hrt : op.Within r t := by
    obtain ⟨r', s', hr, hs, hunder⟩ := hx.sound.under_of_hasDown hdown
    rw [hp] at hr
    rw [hu] at hs
    cases hr; cases hs
    exact hunder.ret hl ht
  obtain ⟨y, hyeq, hy, hplaced, hv⟩ := discover_yields hx
    (hx.wellFormed.home_lt hk) ((hx.sound.occurs hp).imp fun _ hw => hw.within hrt) fun he => by
      obtain ⟨i, r', hi, hr, hw⟩ := hx.sound.flows (u := p) ⟨k, hk, he⟩
      rw [hp] at hr
      cases hr
      exact ⟨i, hi, hw.trans hrt⟩
  obtain ⟨v, y⟩ := y
  have hu' := hplaced.nameOf hu
  have hp' := hplaced.nameOf hp
  obtain ⟨b, hbeq, hwf, hchart, hsame⟩ := addReturn_yields (l := l) hy.wellFormed
    (lt_size_of_nameOf hu') (lt_size_of_nameOf hp') (lt_size_of_nameOf hv)
  unfold takeReturn
  rw [componentOf_eq_ok hk]
  dsimp only [bind, Except.bind]
  rw [hyeq]
  dsimp only
  have hbeq' : y.arena.addReturn u p l v = .ok b := hbeq
  rw [hbeq']
  dsimp only
  let z : Exploration S L := { y with arena := b }
  have hzchart : z.snapshot.chart = y.snapshot.chart.addReturn u p l v := hchart
  have hkeeps : Keeps y.snapshot z.snapshot := ⟨by rw [hzchart]; exact .addReturn, id⟩
  have hz : Coherent op z.snapshot :=
    hy.toCoherent.of_keeps hkeeps hwf (by rw [hzchart]; exact hy.linked.addReturn)
      (by rw [hzchart]; exact hy.sound.addReturn hu' hp' hv hl ht (hplaced.hasDown hdown)) rfl
      (by rw [hzchart]; rfl) (by rw [hzchart]; rfl)
  have hnew : (p, l, v) ∈ z.snapshot.chart.returnOut u := by
    rw [hzchart]
    exact mem_insertAt.mpr (.inr ⟨rfl, rfl⟩)
  refine (crossIfForeign_crossed hy hz hkeeps rfl (by rw [hzchart]; rfl) (by rw [hzchart]; rfl)
    (by rw [hzchart]; rfl) (by rw [hzchart]; rfl) hsame
    (.inr ⟨l, u, hz.linked.summary.mp hnew⟩) ?_).mono ?_
  · intro r' t' h
    rcases h with ⟨l', he⟩ | ⟨l', q, he⟩
    · rw [hzchart] at he
      exact .inl (.inl ⟨l', he⟩)
    · rw [hzchart] at he
      rcases mem_insertAt.mp he with hold | ⟨rfl, hlast⟩
      · exact .inl (.inr ⟨l', q, hold⟩)
      · cases hlast; exact .inr ⟨rfl, rfl⟩
  · intro w h
    obtain ⟨hw, hcrossed, hwchart⟩ := h
    exact ⟨hw, hplaced.crossed hcrossed hx.toCoherent (hasEntry_of_home hk).mpr, v,
      hcrossed.nameOf hv, hwchart ▸ hnew⟩

/-! ## Calls -/

omit [Std.TransOrd L] [Std.LawfulEqOrd L] [DecidableEq S] in
/-- The returns of the explored candidates in the listed components become due. -/
theorem pushExamines_yields {p : Nat} {ks : List Nat} (hx : x.arena.WellFormed)
    (hks : ∀ k ∈ ks, k < x.arena.components.size) :
    Yields (ks.foldlM (fun x c => do
      let component ← x.arena.component c
      let explored ← component.candidates.toList.filterM fun up =>
        return (← x.arena.node up).explored
      return explored.foldl (fun x up => x.push (.examine up p)) x) x) fun y =>
      y.arena = x.arena ∧
      (∀ {i}, i ∈ y.pending.items ↔ i ∈ x.pending.items ∨ ∃ k ∈ ks, ∃ u, x.arena.home u = some k ∧
        x.arena.candidate u = true ∧ x.arena.explored u = true ∧ i = .examine u p) ∧
      ∀ v, y.pending.items.count (.explore v) = x.pending.items.count (.explore v) := by
  induction ks generalizing x with
  | nil => exact yields_ok ⟨rfl, by simp, fun _ => rfl⟩
  | cons k ks ih =>
    obtain ⟨C, hC⟩ := exists_component (hks k (by simp))
    have hcandidates : ∀ {u}, u ∈ C.candidates ↔ x.arena.home u = some k ∧
        x.arena.candidate u = true := by
      intro u
      have h : x.arena.candidatesIn k = C.candidates := part_eq hC
      rw [← h]
      exact hx.mem_candidates
    have hfilter : C.candidates.toList.filterM (fun up => return (← x.arena.node up).explored) =
        .ok (C.candidates.toList.filter x.arena.explored) := by
      refine filterM_ok fun u hu => ?_
      obtain ⟨n, hn⟩ := exists_node
        (lt_size_of_home (hcandidates.mp (Std.ExtTreeSet.mem_toList.mp hu)).1)
      rw [node_eq_ok hn, Arena.explored, field_eq hn]
      rfl
    rw [List.foldlM_cons]
    dsimp only [bind, Except.bind]
    rw [component_eq_ok hC]
    dsimp only
    have hfilter' := hfilter
    dsimp only [bind, Except.bind] at hfilter'
    rw [hfilter']
    dsimp only [pure, Except.pure]
    obtain ⟨harena, hmem, hcount⟩ :=
      foldl_push (.examine · p) (C.candidates.toList.filter x.arena.explored) x
    refine (ih (by rw [harena]; exact hx) fun i hi => by
      rw [harena]; exact hks i (by simp [hi])).mono ?_
    intro y h
    obtain ⟨harena', hmem', hcount'⟩ := h
    refine ⟨harena'.trans harena, fun {i} => ?_, fun v => (hcount' v).trans (hcount (by simp))⟩
    rw [hmem', hmem, harena]
    simp only [List.mem_cons, exists_eq_or_imp, or_assoc, List.mem_filter,
      Std.ExtTreeSet.mem_toList, hcandidates, and_assoc]

omit [DecidableEq S] [Std.LawfulEqOrd L] in
/-- Examinations of explored states become due, each under a caller that its state has. -/
theorem coherent_of_examines {x y : Snapshot S L} {p : Nat} (hx : Coherent op x)
    (harena : y.arena = x.arena)
    (hitems : ∀ {i}, i ∈ y.items → i ∈ x.items ∨ ∃ u, x.chart.explored u = true ∧
      x.chart.HasDown u (.caller p) ∧ i = .examine u p)
    (hcount : ∀ v, y.items.count (.explore v) = x.items.count (.explore v)) : Coherent op y where
  wellFormed := by rw [harena]; exact hx.wellFormed
  linked := by rw [Snapshot.chart, harena]; exact hx.linked
  sound := by rw [Snapshot.chart, harena]; exact hx.sound
  due hi := by
    rw [Snapshot.chart, harena]
    rcases hitems hi with hi | ⟨u, hu, hd, rfl⟩
    · exact hx.due hi
    · exact ⟨hu, hd⟩
  unexplored u := by
    rw [hcount, Snapshot.chart, harena]
    exact hx.unexplored u
  unmarked := by rw [Snapshot.chart, harena]; exact hx.unmarked

omit [Std.LawfulEqOrd L] [DecidableEq S] in
theorem addCaller_yields {e p : Nat} (hx : Steady op x.snapshot) (he : x.snapshot.chart.IsEntry e)
    (hcall : ∃ l, (l, e) ∈ x.snapshot.chart.callOut p) :
    Yields (addCaller x e p) fun y => Steady op y.snapshot ∧ Advances op x.snapshot y.snapshot ∧
      y.snapshot.chart.EntryDown e (.caller p) := by
  have hwf : x.arena.WellFormed := hx.wellFormed
  obtain ⟨grown, hgrown, hadded⟩ := addDown_yields hwf he (d := .caller p)
  obtain ⟨grown, b⟩ := grown
  have hchart : b.chart = x.arena.chart.addDown e (.caller p) := hadded.chart_eq
  let z : Exploration S L := { x with arena := b }
  have hzchart : z.snapshot.chart = x.snapshot.chart.addDown e (.caller p) := hchart
  have hkeeps : Keeps x.snapshot z.snapshot := ⟨by rw [hzchart]; exact .addDown, id⟩
  have hz : Coherent op z.snapshot := by
    refine hx.toCoherent.of_keeps hkeeps hadded.wellFormed ?_ ?_ rfl ?_ ?_
    · rw [hzchart]; exact hx.linked.addDown
    · rw [hzchart]
      refine hx.sound.addDown (fun h => by cases h) fun h => ?_
      cases h
      exact hcall
    · rw [hzchart]; rfl
    · rw [hzchart]; rfl
  have hsize : ∀ k ∈ grown, k < z.arena.components.size := by
    intro k hk
    show k < b.components.size
    rw [hadded.components]
    exact lt_components_of_mem (hadded.mem_grown.mp hk).1
  unfold addCaller
  rw [hgrown]
  dsimp only [bind, Except.bind]
  refine (pushExamines_yields (x := z) (p := p) hadded.wellFormed hsize).mono ?_
  intro y h
  obtain ⟨harena, hmem, hcount⟩ := h
  have hychart : y.snapshot.chart = z.snapshot.chart := congrArg Arena.chart harena
  have hzy : Keeps z.snapshot y.snapshot :=
    ⟨by rw [hychart]; exact .refl _, fun hi => hmem.mpr (.inl hi)⟩
  have hdown : z.snapshot.chart.EntryDown e (.caller p) := by
    rw [hzchart]
    exact .inr ⟨rfl, rfl⟩
  have hy : Coherent op y.snapshot := by
    refine coherent_of_examines (p := p) hz harena (fun {i} hi => ?_) hcount
    rcases hmem.mp hi with hi | ⟨k, hk, u, hu, -, hexplored, rfl⟩
    · exact .inl hi
    · refine .inr ⟨u, hexplored, ⟨e, ⟨k, hu, ?_⟩, hdown⟩, rfl⟩
      show e ∈ b.entriesIn k
      rw [hadded.entriesIn]
      exact (hadded.mem_grown.mp hk).1
  have hsame : SameBorders x.arena y.arena := by
    rw [harena]
    exact hadded.sameBorders
  refine ⟨?_, ?_, by rw [hychart]; exact hdown⟩
  · exact hx.of_keeps (hkeeps.trans hzy) hy (by rw [hychart, hzchart]; exact id)
      (by rw [hychart, hzchart]; exact id) (by rw [hychart, hzchart]; exact id)
  · refine .of_grows ⟨hkeeps.trans hzy, fun {u q} hu hc hd => ?_⟩
      (fun u => by rw [hychart, hzchart]; rfl) (fun ht =>
        ht.keeps hx.toCoherent (hkeeps.trans hzy) (by rw [hychart, hzchart]; exact .inl) fun hi =>
          .inl ((hmem.mp hi).resolve_right (by simp)))
      (.of_same hsame (by rw [hychart, hzchart]; rfl))
    by_cases hold : x.snapshot.chart.HasDown u (.caller q)
    · exact .inl hold
    · rw [hychart, hzchart] at hd
      obtain ⟨e', ⟨k, hk, he'⟩, hed⟩ := hd
      rcases hed with hed | ⟨rfl, hq⟩
      · exact absurd ⟨e', ⟨k, hk, he'⟩, hed⟩ hold
      · cases hq
        have hnew : k ∈ grown := hadded.mem_grown.mpr
          ⟨he', fun hin => hold (hwf.hasDown_chart.mpr ⟨k, hk, hin⟩)⟩
        rw [hychart] at hu hc
        have hhome : b.home u = some k := (field_congr hadded.nodes).trans hk
        exact .inr (hmem.mpr (.inr ⟨k, hnew, u, hhome, hc, hu, rfl⟩))

theorem takeCall_yields (hx : Steady op x.snapshot) (hu : x.snapshot.chart.nameOf u = some s)
    (hexplored : x.snapshot.chart.explored u = true) (hl : l ∈ op.callLetters s)
    (ht : t ∈ op.callSuccessors s l) :
    Yields (takeCall op u l x t) fun y => Steady op y.snapshot ∧
      Advances op x.snapshot y.snapshot ∧ ∃ v, y.snapshot.chart.nameOf v = some t ∧
        (l, v) ∈ y.snapshot.chart.callOut u ∧ y.snapshot.chart.IsEntry v ∧
        y.snapshot.chart.EntryDown v (.caller u) := by
  have hoccurs : ∃ w, op.Occurs ⟨t, w⟩ :=
    (hx.sound.occurs hu).elim fun _ hw => ⟨_, hw.under (Operand.under_of_call hl ht)⟩
  obtain ⟨y, hyeq, hy, hadvances, hv, hentry⟩ := enter_yields hx hoccurs
    (.inr ⟨u, s, l, hu, hexplored, hl, ht⟩)
  obtain ⟨v, y⟩ := y
  have hu' := hadvances.nameOf hu
  obtain ⟨b, hbeq, hwf, hchart, hsame⟩ := addCall_yields (l := l) hy.wellFormed
    (lt_size_of_nameOf hu') (lt_size_of_nameOf hv)
  unfold takeCall
  rw [hyeq]
  dsimp only [bind, Except.bind]
  have hbeq' : y.arena.addCall u l v = .ok b := hbeq
  rw [hbeq']
  dsimp only
  let z : Exploration S L := { y with arena := b }
  have hzchart : z.snapshot.chart = y.snapshot.chart.addCall u l v := hchart
  have hkeeps : Keeps y.snapshot z.snapshot := ⟨by rw [hzchart]; exact .addCall, id⟩
  have hz : Steady op z.snapshot :=
    hy.of_keeps hkeeps (hy.toCoherent.of_keeps hkeeps hwf (by rw [hzchart]; exact hy.linked.addCall)
      (by
        rw [hzchart]
        exact hy.sound.addCall hu' hv hl ht ((hadvances.explored u).trans hexplored))
      rfl (by rw [hzchart]; rfl) (by rw [hzchart]; rfl))
      (by rw [hzchart]; exact id) (by rw [hzchart]; exact id) (by rw [hzchart]; exact id)
  have hgrows : Grows y.snapshot z.snapshot :=
    .of_keeps hkeeps (by rw [hzchart]; exact id) (by rw [hzchart]; exact id)
  have hnew : (l, v) ∈ z.snapshot.chart.callOut u := by
    rw [hzchart]
    exact mem_insertAt.mpr (.inr ⟨rfl, rfl⟩)
  refine (addCaller_yields hz (hkeeps.isEntry hentry) ⟨l, hnew⟩).mono ?_
  intro w h
  obtain ⟨hw, hadvances', hdown⟩ := h
  have hyz : Advances op y.snapshot z.snapshot := .of_grows hgrows (fun v => by rw [hzchart]; rfl)
    (fun ht => ht.keeps hy.toCoherent hkeeps (by rw [hzchart]; exact .inl) .inl)
    (.of_same hsame (by rw [hzchart]; rfl))
  exact ⟨hw, hadvances.trans (hyz.trans hadvances'), v,
    hadvances'.nameOf (hkeeps.nameOf hv), hadvances'.callOut hnew,
    hadvances'.isEntry (hkeeps.isEntry hentry), hdown⟩

end NestedWords.Exploration
