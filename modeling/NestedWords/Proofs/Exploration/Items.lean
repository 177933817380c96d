import NestedWords.Proofs.Exploration.Transitions

/-!
# Work items

Each kind of item keeps the invariant `Settled` while it is taken off the worklist
(`perform_yields`): a reconciliation repairs the edge that it was queued for, an examination
looks up the returns that were due, and an exploration makes known all that leaves a state.

`perform_advances` says what an item does besides. A state that is to be explored is noted as
explored (`Chart.Begins`), from there on the item only adds to the arena, and at its end it is
done (`Chart.Done`). An item that is done beforehand has no effect (`perform_of_done`).
-/

namespace NestedWords

namespace Chart

variable {S L : Type} [Ord L] [Std.TransOrd L]

/-- A state that is to be explored is noted as such first, with the letters of its returns. -/
def Begins (op : Operand S L) (c c' : Chart S L) : WorkItem → Prop
  | .explore u => ∃ s, c.nameOf u = some s ∧ c' = c.setExplored u (op.returnLetters s)
  | _ => c' = c

/-- The item leaves nothing to do. -/
def Done (c : Chart S L) : WorkItem → Prop
  | .explore u => c.explored u = true
  | .reconcile k t => ∀ e, c.InComponent k e → c.HasEntry t e
  | .examine u h => h ∈ c.examined u

end Chart

namespace Exploration

open Arena

variable {S L : Type} [Ord L] [Std.TransOrd L]
  {op : Operand S L} {x y : Exploration S L}

/-- A loop that makes steps, each of which settles its own element. -/
theorem advances_foldlM {α : Type} {f : Exploration S L → α → Except (Fault S) (Exploration S L)}
    {D : α → Snapshot S L → Prop} {l : List α}
    (keep : ∀ {a} {y z : Snapshot S L}, D a y → Advances op y z → D a z)
    (step : ∀ a ∈ l, ∀ y, Steady op y.snapshot → Advances op x.snapshot y.snapshot →
      Yields (f y a) fun z =>
        Steady op z.snapshot ∧ Advances op y.snapshot z.snapshot ∧ D a z.snapshot)
    (hx : Steady op x.snapshot) :
    Yields (l.foldlM f x) fun y => Steady op y.snapshot ∧ Advances op x.snapshot y.snapshot ∧
      ∀ a ∈ l, D a y.snapshot :=
  yields_foldlM (I := fun y : Exploration S L => Steady op y.snapshot)
    (R := fun y z : Exploration S L => Advances op y.snapshot z.snapshot)
    (D := fun a (y : Exploration S L) => D a y.snapshot)
    (fun _ => .refl _) Advances.trans keep step hx

variable [Std.LawfulEqOrd L]

/-- A loop over the letters of a state, and for each over the successors that it asks for. -/
theorem advances_successors {letters : FinSet L} {successors : L → List S} {query : L → Query S L}
    {take : L → Exploration S L → S → Except (Fault S) (Exploration S L)}
    {D : L → S → Snapshot S L → Prop}
    (keep : ∀ {a t} {y z : Snapshot S L}, D a t y → Advances op y z → D a t z)
    (step : ∀ a ∈ letters, ∀ t ∈ successors a, ∀ y, Steady op y.snapshot →
      Advances op x.snapshot y.snapshot → Yields (take a y t) fun z =>
        Steady op z.snapshot ∧ Advances op y.snapshot z.snapshot ∧ D a t z.snapshot)
    (hx : Steady op x.snapshot) :
    Yields (letters.toList.foldlM (fun x a => (successors a).foldlM (take a) (x.ask (query a))) x)
      fun y => Steady op y.snapshot ∧ Advances op x.snapshot y.snapshot ∧
        ∀ a ∈ letters, ∀ t ∈ successors a, D a t y.snapshot := by
  refine (advances_foldlM (D := fun a y => ∀ t ∈ successors a, D a t y)
    (fun hD h t ht => keep (hD t ht) h) ?_ hx).mono ?_
  · intro a ha y hy hxy
    refine advances_foldlM (x := y.ask _) (D := fun t y => D a t y) keep ?_ hy
    intro t ht z hz hyz
    exact step a (Std.ExtTreeSet.mem_toList.mp ha) t ht z hz (hxy.trans hyz)
  · intro y h
    obtain ⟨hy, hxy, hall⟩ := h
    exact ⟨hy, hxy, fun a ha => hall a (Std.ExtTreeSet.mem_toList.mpr ha)⟩

variable [DecidableEq S]

section
variable {u : Nat} {s : S}

theorem takeInternals_yields (hx : Steady op x.snapshot) (hs : x.snapshot.chart.nameOf u = some s) :
    Yields ((op.internalLetters s).toList.foldlM (fun x a =>
      (op.internalSuccessors s a).foldlM (takeInternal op u a)
        (x.ask (.internalSuccessors s a))) x) fun y => Steady op y.snapshot ∧
      Advances op x.snapshot y.snapshot ∧ y.snapshot.chart.InternalsKnown op u := by
  refine (advances_successors (D := fun a t y => ∃ v, y.chart.nameOf v = some t ∧
    (a, v) ∈ y.chart.internalOut u)
    (fun hD h => hD.imp fun _ hv => ⟨h.nameOf hv.1, h.internalOut hv.2⟩) ?_ hx).mono ?_
  · intro a ha t ht y hy hxy
    exact takeInternal_yields hy (hxy.nameOf hs) ha ht
  · intro y h
    obtain ⟨hy, hxy, hall⟩ := h
    exact ⟨hy, hxy, s, hxy.nameOf hs, hall⟩

theorem takeCalls_yields (hx : Steady op x.snapshot) (hs : x.snapshot.chart.nameOf u = some s)
    (hexplored : x.snapshot.chart.explored u = true) :
    Yields ((op.callLetters s).toList.foldlM (fun x a =>
      (op.callSuccessors s a).foldlM (takeCall op u a)
        (x.ask (.callSuccessors s a))) x) fun y => Steady op y.snapshot ∧
      Advances op x.snapshot y.snapshot ∧ y.snapshot.chart.CallsKnown op u := by
  refine (advances_successors (D := fun a t y => ∃ v, y.chart.nameOf v = some t ∧
    (a, v) ∈ y.chart.callOut u ∧ y.chart.IsEntry v ∧ y.chart.EntryDown v (.caller u))
    (fun hD h => hD.imp fun _ hv =>
      ⟨h.nameOf hv.1, h.callOut hv.2.1, h.isEntry hv.2.2.1, h.entryDown hv.2.2.2⟩) ?_ hx).mono ?_
  · intro a ha t ht y hy hxy
    exact takeCall_yields hy (hxy.nameOf hs) ((hxy.explored u).trans hexplored) ha ht
  · intro y h
    obtain ⟨hy, hxy, hall⟩ := h
    exact ⟨hy, hxy, s, hxy.nameOf hs, hall⟩

theorem takeReturns_yields {p : Nat} {r : S} (hx : Steady op x.snapshot)
    (hs : x.snapshot.chart.nameOf u = some s) (hr : x.snapshot.chart.nameOf p = some r)
    (hd : x.snapshot.chart.HasDown u (.caller p)) :
    Yields ((op.returnLetters s).toList.foldlM (fun x a =>
      (op.returnSuccessors s r a).foldlM (takeReturn op u p a)
        (x.ask (.returnSuccessors s r a))) x) fun y => Steady op y.snapshot ∧
      Advances op x.snapshot y.snapshot ∧ y.snapshot.chart.ReturnsKnown op u p := by
  refine (advances_successors (D := fun a t y => ∃ v, y.chart.nameOf v = some t ∧
    (p, a, v) ∈ y.chart.returnOut u)
    (fun hD h => hD.imp fun _ hv => ⟨h.nameOf hv.1, h.returnOut hv.2⟩) ?_ hx).mono ?_
  · intro a ha t ht y hy hxy
    exact takeReturn_yields hy (hxy.nameOf hs) (hxy.nameOf hr) (hxy.hasDown hd) ha ht
  · intro y h
    obtain ⟨hy, hxy, hall⟩ := h
    exact ⟨hy, hxy, s, r, hxy.nameOf hs, hxy.nameOf hr, hall⟩
end

/-! ## Examination -/

omit [Std.LawfulEqOrd L] [DecidableEq S] in
/-- A caller is noted as examined; what this promises is not yet true. -/
theorem steady_setExamined {x y : Snapshot S L} {u p : Nat} (hx : Steady op x)
    (hu : x.chart.explored u = true) (hd : x.chart.HasDown u (.caller p)) (hwf : y.arena.WellFormed)
    (hchart : y.chart = x.chart.setExamined u p) (hitems : y.items = x.items) :
    Steady op y ∧ Grows x y := by
  have hkeeps : Keeps x y :=
    ⟨by rw [hchart]; exact .setExamined, fun hi => by rw [hitems]; exact hi⟩
  have hy : Coherent op y := hx.toCoherent.of_keeps hkeeps hwf
    (by rw [hchart]; exact hx.linked.setExamined) (by rw [hchart]; exact hx.sound.setExamined hu hd)
    hitems (by rw [hchart]; rfl) (by rw [hchart]; rfl)
  refine ⟨hx.of_keeps hkeeps hy ?_ ?_ ?_, .of_keeps hkeeps ?_ ?_⟩
  all_goals rw [hchart]; exact id

/-- After an examination the returns of the state under the caller are known. -/
theorem examine_yields {u p : Nat} (hx : Steady op x.snapshot)
    (hu : x.snapshot.chart.explored u = true) (hd : x.snapshot.chart.HasDown u (.caller p)) :
    Yields (examine op u x p) fun y => Steady op y.snapshot ∧
      Advances op x.snapshot y.snapshot ∧ p ∈ y.snapshot.chart.examined u := by
  obtain ⟨r, s, hr, hs, -⟩ := hx.sound.under_of_hasDown hd
  obtain ⟨n, hn, hname⟩ := exists_node_of_nameOf (a := x.arena) hs
  have hletters : n.returnLetters = op.returnLetters s := by
    have : x.arena.returnLetters u = _ := hx.sound.letters hu hs
    rwa [returnLetters, field_eq hn] at this
  have hexamined : x.arena.examined u = n.examined := field_eq hn
  unfold examine
  rw [node_eq_ok hn]
  dsimp only [bind, Except.bind]
  split
  · next hmem =>
    refine yields_pure ⟨hx, .refl _, ?_⟩
    show p ∈ x.arena.examined u
    rw [hexamined]
    exact Std.ExtTreeSet.mem_iff_contains.mpr hmem
  · obtain ⟨b, hb, hwf, hchart, hsame⟩ :=
      setExamined_yields (h := p) hx.wellFormed (lt_size_of_nameOf hs)
    have hb' : x.arena.updateNode u (fun n => { n with examined := n.examined.insert p }) =
        .ok b := hb
    rw [hb']
    dsimp only
    let z : Exploration S L := { x with arena := b }
    have hzchart : z.snapshot.chart = x.snapshot.chart.setExamined u p := hchart
    obtain ⟨hz, hgrows⟩ := steady_setExamined hx hu hd hwf hzchart rfl
    rw [name_eq_ok (a := b) (hgrows.nameOf hr)]
    dsimp only
    rw [hletters, hname]
    refine (takeReturns_yields (x := z) hz (hgrows.nameOf hs) (hgrows.nameOf hr)
      (hgrows.hasDown hd)).mono ?_
    intro y h
    obtain ⟨hy, hadvances, hreturns⟩ := h
    have hmem : p ∈ y.snapshot.chart.examined u := by
      refine hadvances.examined ?_
      rw [hzchart]
      exact mem_insertAt.mpr (.inr ⟨rfl, rfl⟩)
    have htraced : x.snapshot.Traced → z.snapshot.Traced := fun ht =>
      ht.keeps hx.toCoherent hgrows.toKeeps (by rw [hzchart]; exact .inl) .inl
    have hbordered : x.snapshot.Bordered → z.snapshot.Bordered :=
      .of_same hsame (by rw [hzchart]; rfl)
    refine ⟨hy, ⟨hgrows.trans hadvances.toGrows, fun {v q} hq => ?_,
      fun ht => hadvances.traced (htraced ht), fun hb => hadvances.bordered (hbordered hb)⟩, hmem⟩
    rcases hadvances.known hq with hq | hq
    · rw [hzchart] at hq
      rcases mem_insertAt.mp hq with hq | ⟨rfl, rfl⟩
      · exact .inl hq
      · exact .inr hreturns
    · exact .inr hq

/-- After the examination of all its callers the returns of a state are known or due. -/
theorem examineAll_yields {u k : Nat} (hx : Steady op x.snapshot)
    (hu : x.snapshot.chart.explored u = true) (hk : x.arena.home u = some k) :
    Yields (((x.arena.downsIn k).toList.filterMap Down.state?).foldlM (examine op u) x) fun y =>
      Steady op y.snapshot ∧ Advances op x.snapshot y.snapshot ∧
      ∀ {h}, y.snapshot.chart.candidate u = true → y.snapshot.chart.HasDown u (.caller h) →
        h ∈ y.snapshot.chart.examined u ∨ .examine u h ∈ y.snapshot.items := by
  have hhiers : ∀ {h}, h ∈ (x.arena.downsIn k).toList.filterMap Down.state? ↔
      x.snapshot.chart.HasDown u (.caller h) := by
    intro h
    rw [mem_callers]
    exact (hx.wellFormed.hasDown_chart.trans (hasDown_of_home hk)).symm
  refine (advances_foldlM (D := fun h y => h ∈ y.chart.examined u) (fun hD h => h.examined hD) ?_
    hx).mono ?_
  · intro h hh y hy hxy
    exact examine_yields hy ((hxy.explored u).trans hu) (hxy.hasDown (hhiers.mp hh))
  · intro y h
    obtain ⟨hy, hxy, hall⟩ := h
    refine ⟨hy, hxy, fun {h} hc hd => ?_⟩
    exact (hxy.queued ((hxy.explored u).trans hu) hc hd).imp (fun hd => hall h (hhiers.mpr hd)) id

/-! ## Exploration of a state -/

section
variable {x y z : Snapshot S L} {q : List WorkItem} {u : Nat} {s : S}

omit [Std.LawfulEqOrd L] [DecidableEq S]

/-- The item says that the state is waiting, and is the only one that does. -/
theorem unexplored_of_due (hx : Coherent op ⟨x.arena, .explore u :: q⟩) :
    x.chart.explored u = false ∧ q.count (.explore u) = 0 := by
  have h := hx.unexplored u
  rw [List.count_cons_self] at h
  split at h
  · next hcond => exact ⟨hcond.2, by omega⟩
  · omega

/-- A state that is marked as explored waits no more. -/
theorem steady_setExplored (hx : Steady op ⟨x.arena, .explore u :: q⟩)
    (hs : x.chart.nameOf u = some s) (hwf : y.arena.WellFormed)
    (hchart : y.chart = x.chart.setExplored u (op.returnLetters s)) (hitems : y.items = q) :
    Steady op y := by
  obtain ⟨hunexplored, hcount⟩ := unexplored_of_due hx.toCoherent
  refine ⟨⟨hwf, ?_, ?_, fun {i} hi => ?_, fun v => ?_, ?_⟩, fun hedge => ?_, fun he => ?_⟩
  · rw [hchart]; exact hx.linked.setExplored
  · rw [hchart]; exact hx.sound.setExplored hs hunexplored
  · have hdue := hx.due (List.mem_cons_of_mem _ (hitems ▸ hi))
    rw [hchart]
    cases i with
    | explore v => exact hdue
    | reconcile k t => exact hdue
    | examine v h =>
      refine ⟨?_, hdue.2⟩
      show setAt x.chart.explored u true v = true
      unfold setAt
      split
      · rfl
      · exact hdue.1
  · have h := hx.unexplored v
    rw [hitems, hchart]
    show q.count _ = if (x.chart.nameOf v).isSome ∧ setAt x.chart.explored u true v = false then 1
      else 0
    by_cases hv : v = u
    · subst hv
      simp [hcount, setAt]
    · have hne : WorkItem.explore u ≠ .explore v := fun he => hv (WorkItem.explore.inj he).symm
      rw [List.count_cons_of_ne hne] at h
      rw [h, setAt, if_neg hv]
  · rw [hchart]; exact hx.unmarked
  · rw [hchart] at hedge
    refine (hx.spread hedge).mono ?_ ?_ ?_ fun hi => ?_
    · rw [hchart]; exact id
    · rw [hchart]; exact id
    · rw [hchart]; exact id
    · rw [hitems]
      simpa using hi
  · rw [hchart] at he ⊢
    exact hx.homed he

/-- If all that leaves a state is known after it was marked as explored, the invariant holds. -/
theorem settled_of_explored (hx : Settled op ⟨x.arena, .explore u :: q⟩)
    (hchart : y.chart = x.chart.setExplored u (op.returnLetters s)) (hitems : y.items = q)
    (hsame : SameBorders x.arena y.arena) (hyz : Advances op y z) (hz : Steady op z)
    (hinternals : z.chart.InternalsKnown op u) (hcalls : z.chart.CallsKnown op u)
    (hawaited : ∀ {h}, z.chart.candidate u = true → z.chart.HasDown u (.caller h) →
      h ∈ z.chart.examined u ∨ .examine u h ∈ z.items) : Settled op z := by
  have hexplored : ∀ {v}, v ≠ u → z.chart.explored v = true → x.chart.explored v = true := by
    intro v hv h
    rw [hyz.explored, hchart] at h
    have h' : setAt x.chart.explored u true v = true := h
    rwa [setAt, if_neg hv] at h'
  have htraced : y.Traced := by
    refine ⟨fun {v e} he => ?_, fun {k t e} hi he => ?_⟩
    · rw [hchart] at he ⊢
      exact hx.traced.reached he
    · rw [hchart] at he ⊢
      exact hx.traced.carried (List.mem_cons_of_mem _ (hitems ▸ hi)) he
  refine ⟨hz, fun {v} hv => ?_, fun {v} hv => ?_, fun {v h} hv hc hd => ?_, fun {v h} hm => ?_,
    fun i hi => ?_, hyz.traced htraced,
    hyz.bordered (hx.bordered.of_same hsame (by rw [hchart]; rfl))⟩
  · by_cases hvu : v = u
    · exact hvu ▸ hinternals
    · refine hyz.toKeeps.internalsKnown ?_
      rw [hchart]
      exact hx.internals (hexplored hvu hv)
  · by_cases hvu : v = u
    · exact hvu ▸ hcalls
    · refine hyz.toKeeps.callsKnown ?_
      rw [hchart]
      exact hx.calls (hexplored hvu hv)
  · by_cases hvu : v = u
    · subst hvu
      exact hawaited hc hd
    · rcases hyz.queued hv hc hd with hd | hi
      · rw [hyz.candidate, hchart] at hc
        rw [hchart] at hd
        have hc' : x.chart.candidate v = true := by
          have hc' : (if (op.returnLetters s).isEmpty then setAt x.chart.candidate u false
            else x.chart.candidate) v = true := hc
          split at hc'
          · rwa [setAt, if_neg hvu] at hc'
          · exact hc'
        rcases hx.awaited (hexplored hvu hv) hc' hd with hm | hi
        · refine .inl (hyz.examined ?_)
          rw [hchart]
          exact hm
        · refine .inr (hyz.items ?_)
          rw [hitems]
          simpa using hi
      · exact .inr hi
  · rcases hyz.known hm with hm | hk
    · rw [hchart] at hm
      refine hyz.toKeeps.returnsKnown ?_
      rw [hchart]
      exact hx.returns hm
    · exact hk
  · refine hyz.starts ?_
    rw [hchart]
    exact hx.starts i hi
end

/-- After its exploration all that leaves a state is known or due. -/
theorem explore_yields {u : Nat} (hx : Settled op ⟨x.arena, .explore u :: x.pending.items⟩) :
    Yields (explore op x u) fun y => Settled op y.snapshot ∧
      ∃ z : Snapshot S L, x.snapshot.chart.Begins op z.chart (.explore u) ∧
        z.items = x.pending.items ∧ Advances op z y.snapshot := by
  obtain ⟨s, hs⟩ : ∃ s, x.snapshot.chart.nameOf u = some s := hx.due List.mem_cons_self
  obtain ⟨hunexplored, -⟩ := unexplored_of_due (x := x.snapshot) hx.toCoherent
  obtain ⟨n, hn, hname⟩ := exists_node_of_nameOf (a := x.arena) hs
  have hexplored : n.explored = false := by
    have : x.arena.explored u = false := hunexplored
    rwa [Arena.explored, field_eq hn] at this
  obtain ⟨b, hb, hwf, hchart, hsame⟩ := markExplored_yields (a := x.arena) hx.wellFormed
    (op.returnLetters s) (lt_size_of_nameOf hs)
  let z : Exploration S L := { x.ask (.returnLetters s) with arena := b }
  have hz : Steady op z.snapshot :=
    steady_setExplored (x := x.snapshot) hx.toSteady hs hwf hchart rfl
  have hzs : z.snapshot.chart.nameOf u = some s := by
    show b.chart.nameOf u = some s
    rw [hchart]
    exact hs
  have hzu : z.snapshot.chart.explored u = true := by
    show b.chart.explored u = true
    rw [hchart]
    exact if_pos rfl
  unfold explore
  rw [node_eq_ok hn]
  dsimp only [bind, Except.bind]
  rw [hname, ensure_eq_ok (by simp [hexplored])]
  dsimp only
  have hb' : markExplored (x.ask (.returnLetters s)).arena u (op.returnLetters s) = .ok b := hb
  rw [hb']
  dsimp only
  obtain ⟨y, hyeq, hy, hzy, hinternals⟩ := takeInternals_yields (x := z.ask (.internalLetters s))
    hz hzs
  rw [hyeq]
  dsimp only
  obtain ⟨w, hweq, hw, hyw, hcalls⟩ := takeCalls_yields (x := y.ask (.callLetters s)) hy
    (hzy.nameOf hzs) ((hzy.explored u).trans hzu)
  rw [hweq]
  dsimp only
  have hzw : Advances op z.snapshot w.snapshot := hzy.trans hyw
  have hinternals' := hyw.toKeeps.internalsKnown hinternals
  obtain ⟨m, hm, -⟩ := exists_node_of_nameOf (a := w.arena) (hzw.nameOf hzs)
  rw [node_eq_ok hm]
  dsimp only
  have hcandidate : w.snapshot.chart.candidate u = m.candidate := field_eq hm
  split
  · next hc =>
    refine yields_pure ⟨?_, z.snapshot, ⟨s, hs, hchart⟩, rfl, hzw⟩
    refine settled_of_explored (x := x.snapshot) (y := z.snapshot) hx hchart rfl hsame hzw hw
      hinternals' hcalls ?_
    intro h hc'
    rw [hcandidate] at hc'
    simp [hc'] at hc
  · obtain ⟨k, hk⟩ : ∃ k, w.arena.home u = some k :=
      exists_home (lt_size_of_nameOf (hzw.nameOf hzs))
    rw [downsOf_eq_ok hk (hw.wellFormed.home_lt hk)]
    dsimp only
    refine (examineAll_yields hw ((hzw.explored u).trans hzu) hk).mono ?_
    intro v h
    obtain ⟨hv, hwv, hawaited⟩ := h
    refine ⟨?_, z.snapshot, ⟨s, hs, hchart⟩, rfl, hzw.trans hwv⟩
    exact settled_of_explored (x := x.snapshot) (y := z.snapshot) hx hchart rfl hsame
      (hzw.trans hwv) hv (hwv.toKeeps.internalsKnown hinternals')
      (hwv.toKeeps.callsKnown hcalls) hawaited

/-! ## Any item -/

section
variable {a : Arena S L} {item : WorkItem} {q : List WorkItem} {y : Snapshot S L}

omit [Std.LawfulEqOrd L] [DecidableEq S] in
/-- An item other than an exploration may go. -/
theorem coherent_pop (hx : Coherent op ⟨a, item :: q⟩) (hitem : ∀ u, item ≠ .explore u) :
    Coherent op ⟨a, q⟩ :=
  { hx with
    due := fun hi => hx.due (List.mem_cons_of_mem _ hi)
    unexplored := fun u => by
      rw [← hx.unexplored u]
      exact (List.count_cons_of_ne (hitem u)).symm }

omit [Std.LawfulEqOrd L] [DecidableEq S] in
/-- The invariant holds again after an item whose returns, if it is about any, are known. -/
theorem settled_of_advances (hx : Settled op ⟨a, item :: q⟩) (hy : Steady op y)
    (hadvances : Advances op ⟨a, q⟩ y)
    (hitem : ∀ {u h}, item = .examine u h → h ∈ y.chart.examined u) : Settled op y := by
  have htraced : Snapshot.Traced (⟨a, q⟩ : Snapshot S L) :=
    ⟨hx.traced.reached, fun hi => hx.traced.carried (List.mem_cons_of_mem _ hi)⟩
  refine ⟨hy, fun hu => ?_, fun hu => ?_, fun hu hc hd => ?_, fun hm => ?_,
    fun i hi => hadvances.starts (hx.starts i hi), hadvances.traced htraced,
    hadvances.bordered hx.bordered⟩
  · rw [hadvances.explored] at hu
    exact hadvances.toKeeps.internalsKnown (hx.internals hu)
  · rw [hadvances.explored] at hu
    exact hadvances.toKeeps.callsKnown (hx.calls hu)
  · rcases hadvances.queued hu hc hd with hd | hi
    · rw [hadvances.explored] at hu
      rw [hadvances.candidate] at hc
      rcases hx.awaited hu hc hd with hm | hi
      · exact .inl (hadvances.examined hm)
      · rcases List.mem_cons.mp hi with hi | hi
        · exact .inl (hitem hi.symm)
        · exact .inr (hadvances.items hi)
    · exact .inr hi
  · rcases hadvances.known hm with hm | hk
    · exact hadvances.toKeeps.returnsKnown (hx.returns hm)
    · exact hk
end

omit [Std.LawfulEqOrd L] in
theorem perform_examine {u h : Nat} (hu : x.snapshot.chart.explored u = true) :
    perform op x (.examine u h) = examine op u x h := by
  obtain ⟨n, hn, hexplored⟩ := exists_node_of_explored hu
  exact (bind_of_eq_ok (node_eq_ok hn)).trans (if_pos hexplored)

/-- Every item keeps the invariant while it is taken off, only adds to the arena once begun, and
is done in the end. -/
theorem perform_advances {item : WorkItem} (hx : Settled op ⟨x.arena, item :: x.pending.items⟩) :
    Yields (perform op x item) fun y => Settled op y.snapshot ∧
      (∃ z : Snapshot S L, x.snapshot.chart.Begins op z.chart item ∧ z.items = x.pending.items ∧
        Advances op z y.snapshot) ∧ y.snapshot.chart.Done item := by
  cases item with
  | explore u =>
    refine (explore_yields hx).mono ?_
    intro y h
    obtain ⟨hy, z, ⟨s, hs, hz⟩, hitems, hadvances⟩ := h
    refine ⟨hy, ⟨z, ⟨s, hs, hz⟩, hitems, hadvances⟩, (hadvances.explored u).trans ?_⟩
    rw [hz]
    exact if_pos rfl
  | reconcile k t =>
    have hcoherent := coherent_pop hx.toCoherent (by simp)
    obtain ⟨hk, ⟨s, hs⟩, hflows⟩ := hx.due List.mem_cons_self
    obtain ⟨C, hC⟩ : ∃ C, x.arena.components[k]? = some C := exists_component hk
    have hmem : ∀ {e}, e ∈ C.entries ↔ x.arena.chart.InComponent k e := mem_entries_of_component hC
    unfold perform
    dsimp only [bind, Except.bind]
    rw [component_eq_ok hC]
    dsimp only
    refine (reconcile_yields hcoherent hs (fun e he => ⟨?_, hflows (hmem.mp he),
      hx.traced.carried List.mem_cons_self (hmem.mp he)⟩) (fun hedge => ?_)
      fun he => .inl (hx.homed he)).mono ?_
    · exact hx.wellFormed.isEntry (hmem.mp he)
    · rcases hx.spread hedge with hall | ⟨i, hi, hall⟩
      · exact .inl (.inl hall)
      · rcases List.mem_cons.mp hi with hi | hi
        · cases hi
          exact .inr ⟨rfl, fun he => hmem.mpr (hall he)⟩
        · exact .inl (.inr ⟨i, hi, hall⟩)
    · intro y h
      obtain ⟨hy, hadvances, hall⟩ := h
      refine ⟨settled_of_advances hx hy hadvances (by simp), ⟨x.snapshot, rfl, rfl, hadvances⟩, ?_⟩
      exact fun e he => hall e (hmem.mpr ((hadvances.inComponent hk).mp he))
  | examine u h =>
    have hcoherent := coherent_pop hx.toCoherent (by simp)
    obtain ⟨hu, hd⟩ := hx.due List.mem_cons_self
    have hsteady : Steady op x.snapshot := by
      refine ⟨hcoherent, fun hedge => ?_, hx.homed⟩
      exact (hx.spread hedge).mono id id id fun hi => (List.mem_cons.mp hi).resolve_left (by simp)
    rw [perform_examine hu]
    refine (examine_yields hsteady hu hd).mono ?_
    intro y h
    obtain ⟨hy, hadvances, hm⟩ := h
    exact ⟨settled_of_advances hx hy hadvances fun he => by cases he; exact hm,
      ⟨x.snapshot, rfl, rfl, hadvances⟩, hm⟩

/-- Every item keeps the invariant while it is taken off. -/
theorem perform_yields {item : WorkItem} (hx : Settled op ⟨x.arena, item :: x.pending.items⟩) :
    Yields (perform op x item) fun y => Settled op y.snapshot :=
  (perform_advances hx).mono fun _ h => h.1

omit [Std.LawfulEqOrd L] in
/-- An item that leaves nothing to do has no effect. -/
theorem perform_of_done {item : WorkItem} (hx : Settled op ⟨x.arena, item :: x.pending.items⟩)
    (hdone : x.snapshot.chart.Done item) : perform op x item = .ok x := by
  cases item with
  | explore u =>
    obtain ⟨hunexplored, -⟩ := unexplored_of_due (x := x.snapshot) hx.toCoherent
    exact absurd hdone (by simp [Chart.Done, hunexplored])
  | reconcile k t =>
    obtain ⟨hk, ⟨s, ht⟩, -⟩ := hx.due List.mem_cons_self
    obtain ⟨C, hC⟩ : ∃ C, x.arena.components[k]? = some C := exists_component hk
    obtain ⟨old, D, hold, hD⟩ := hx.wellFormed.componentOf_eq (lt_size_of_nameOf ht)
    have hsubset : C.entries.subset D.entries = true := by
      refine FinSet.subset_iff.mpr fun e he => (mem_entries_of_component hD).mpr ?_
      exact (hasEntry_of_home hold).mp (hdone e ((mem_entries_of_component hC).mp he))
    exact (bind_of_eq_ok (component_eq_ok hC)).trans (reconcile_of_subset hold hD hsubset)
  | examine u h =>
    obtain ⟨hu, -⟩ := hx.due List.mem_cons_self
    rw [perform_examine hu]
    obtain ⟨n, hn, -⟩ := exists_node_of_explored hu
    have hmem : n.examined.contains h = true := by
      have hdone' : h ∈ x.arena.examined u := hdone
      rwa [Arena.examined, field_eq hn, ← Std.ExtTreeSet.contains_iff_mem] at hdone'
    unfold examine
    rw [bind_of_eq_ok (node_eq_ok hn), if_pos hmem]
    rfl

end Exploration

end NestedWords
