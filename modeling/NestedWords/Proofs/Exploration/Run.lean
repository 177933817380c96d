import NestedWords.Proofs.Exploration.Items
import NestedWords.Proofs.Exploration.Pending

/-!
# Runs of an exploration

The invariant `Settled` holds after seeding (`seed_yields`) and after every turn
(`settled_of_turn`), so it holds of whatever a run ends with (`settled_of_start`). If a run
ends because no item is left, nothing is due any more: `Complete` spells out what the
invariant then says of the arena.
-/

namespace NestedWords

open Arena

variable {S L : Type} [Ord L]
  {op : Operand S L}

namespace Exploration

variable {x y : Exploration S L} {settings : Settings} {monitor : Monitor}

/-! ## The start -/

theorem field_empty {α : Type} {f : Node S L → α} {d : α} {u : Nat} :
    ({} : Arena S L).field f d u = d := field_of_ge (Nat.zero_le u)

theorem part_empty {α : Type} {f : Component → α} {d : α} {k : Nat} :
    ({} : Arena S L).part f d k = d := part_of_ge (Nat.zero_le k)

theorem wellFormed_empty : ({} : Arena S L).WellFormed where
  name_inj h := by rw [nameOf, field_empty] at h; cases h
  home_lt h := by rw [home, field_empty] at h; cases h
  mem_members := by simp [field_empty, part_empty]
  mem_candidates := by simp [field_empty, part_empty]
  mem_downs := by simp [part_empty]
  isEntry h := by rw [entriesIn, part_empty] at h; simp at h
  entryMark h :=
    absurd (mem_entries_of_mem (mem_entryDowns_iff.mpr ⟨_, h⟩)) Std.ExtTreeMap.not_mem_empty
  byEntries := by simp
  ofEntry := by simp [part_empty]

variable [Std.LawfulEqOrd L] [Std.TransOrd L]

theorem steady_empty : Steady op ({} : Exploration S L).snapshot := by
  have hentry : ∀ {u e}, ¬ ({} : Arena S L).HasEntry u e := by
    intro u e h
    obtain ⟨k, hk, -⟩ := h
    rw [home, field_empty] at hk
    cases hk
  have hmem : ∀ {ρ α : Type} [Ord α] [Row ρ α] [Membership α ρ] [LawfulRow ρ] (f : Node S L → ρ)
      (u : Nat) {x : α}, ¬ x ∈ ({} : Arena S L).field f Row.empty u := by
    intro ρ α _ _ _ _ f u x
    rw [field_empty]
    exact LawfulRow.not_mem_empty x
  have hfilled : ∀ {ρ α : Type} [Ord α] [Row ρ α] [Membership α ρ] [LawfulRow ρ]
      (f : Node S L → ρ) (u : Nat), Row.Filled (({} : Arena S L).field f Row.empty u) := by
    intro ρ α _ _ _ _ f u
    rw [field_empty]
    exact LawfulRow.filled_empty
  have hdown : ∀ {e d}, ¬ d ∈ ({} : Arena S L).entryDowns e := by
    intro e d hd
    exact absurd (mem_entries_of_mem hd) Std.ExtTreeMap.not_mem_empty
  have hlinked : ({} : Arena S L).chart.Linked := by
    refine ⟨fun {u v l} => ?_, fun {u v l} => ?_, fun {u h v l} => ?_, fun {u h v l} => ?_,
      fun u => ?_⟩
    · exact iff_of_false (hmem (·.internalOut) u) (hmem (·.internalIn) v)
    · exact iff_of_false (hmem (·.callOut) u) (hmem (·.callIn) v)
    · exact iff_of_false (hmem (·.returnOut) u) (hmem (·.returnIn) v)
    · exact iff_of_false (hmem (·.returnOut) u) (hmem (·.summaries) h)
    · exact ⟨hfilled (·.internalOut) u, hfilled (·.internalIn) u, hfilled (·.callOut) u,
        hfilled (·.callIn) u, hfilled (·.returnOut) u, hfilled (·.returnIn) u,
        hfilled (·.summaries) u⟩
  have hsound : ({} : Arena S L).chart.Sound op := by
    refine ⟨fun h => ?_, fun h => ?_, fun h => ?_, fun h => absurd h hentry,
      fun h => absurd h Std.ExtTreeMap.not_mem_empty, fun h => absurd h hdown,
      fun h => absurd h hdown, fun {u _ _} h => absurd h (hmem (·.internalOut) u),
      fun {u _ _} h => absurd h (hmem (·.callOut) u),
      fun {u _ _} h => absurd h (hmem (·.callOut) u),
      fun {u _ _ _} h => absurd h (hmem (·.returnOut) u),
      fun {u _ _ _} h => absurd h (hmem (·.returnOut) u),
      fun {u _} h => absurd h (hmem (·.examined) u), fun h => ?_, fun h => ?_,
      fun {u _} h => absurd h (hmem (·.examined) u), fun h => ?_⟩
    all_goals cases h
  have hspread : ({} : Exploration S L).snapshot.Spread := by
    intro r t h
    rcases h with ⟨l, he⟩ | ⟨l, p, he⟩
    · exact absurd he (hmem (·.internalOut) r)
    · exact absurd he (hmem (·.summaries) r)
  exact
    { wellFormed := wellFormed_empty, linked := hlinked, sound := hsound,
      due := fun h => (by cases h), unexplored := fun u => rfl, unmarked := fun u => rfl,
      spread := hspread, homed := fun he => absurd he Std.ExtTreeMap.not_mem_empty }

omit [Std.LawfulEqOrd L] in
theorem traced_empty : (({} : Exploration S L).ask .initialStates).snapshot.Traced where
  reached h := by
    obtain ⟨k, hk, -⟩ := h
    have hk' : ({} : Arena S L).home _ = some k := hk
    rw [home, field_empty] at hk'
    cases hk'
  carried h := by cases h

omit [Std.LawfulEqOrd L] in
theorem bordered_empty : (({} : Exploration S L).ask .initialStates).snapshot.Bordered where
  exact u := by
    have hnone : ∀ {k}, ({} : Arena S L).home u ≠ some k := by simp [field_empty]
    exact ⟨fun hk => absurd hk hnone, fun hk => absurd hk hnone⟩
  resident {k u} hu := by
    have hu' : u ∈ ({} : Arena S L).borderIn k := hu
    rw [borderIn, part_empty] at hu'
    simp at hu'

variable [DecidableEq S]

/-- After seeding the invariant holds, and nothing has been explored. -/
theorem seed_unexplored : Yields (seed op) fun x =>
    Settled op x.snapshot ∧ ∀ u, x.snapshot.chart.explored u = false := by
  have hempty : Steady op (({} : Exploration S L).ask .initialStates).snapshot := steady_empty
  unfold seed
  refine (yields_foldlM (I := fun y : Exploration S L => Steady op y.snapshot ∧
      ∀ {u s}, y.snapshot.chart.nameOf u = some s → y.snapshot.chart.Starts s)
    (R := fun x y : Exploration S L => Advances op x.snapshot y.snapshot)
    (D := fun s (y : Exploration S L) => y.snapshot.chart.Starts s)
    (fun _ => .refl _) Advances.trans (fun hD h => h.starts hD) ?_
    ⟨hempty, fun h => by cases h⟩).mono ?_
  · intro s hs y h _
    obtain ⟨hy, hstarts⟩ := h
    split
    · next hknown =>
      obtain ⟨u, hu⟩ := Option.isSome_iff_exists.mp hknown
      exact yields_ok ⟨⟨hy, hstarts⟩, .refl _, hstarts (idOf_eq_some hu)⟩
    · next hnew =>
      have hname : y.arena.idOf s = none := by simpa using hnew
      have hoccurs : ∃ w, op.Occurs ⟨s, w⟩ := ⟨[], Operand.occurs_of_initial hs⟩
      have hinitial : ∀ d ∈ [(.bottom : Down Nat)], d = .bottom ∧ s ∈ op.initial := by
        simpa using hs
      refine (discoverEntry_yields hy hname hoccurs (.inl hs) hinitial fun _ => hs).bind ?_
      intro p h
      obtain ⟨u, z⟩ := p
      obtain ⟨hz, hadvances, hu, hinit, hentry, hdowns, hnames⟩ := h
      have hstarted : z.snapshot.chart.Starts s := ⟨u, hu, hinit, hentry, hdowns _ (by simp)⟩
      refine yields_pure ⟨⟨hz, fun {v t} hv => ?_⟩, hadvances, hstarted⟩
      rcases hnames hv with rfl | hold
      · cases hu.symm.trans hv
        exact hstarted
      · exact hadvances.starts (hstarts hold)
  · intro y h
    obtain ⟨⟨hy, -⟩, hadvances, hall⟩ := h
    have hnone : ∀ u, y.snapshot.chart.explored u = false := hadvances.explored
    have hunexplored : ∀ {u}, y.snapshot.chart.explored u ≠ true := by simp [hnone]
    refine ⟨⟨hy, fun h => absurd h hunexplored, fun h => absurd h hunexplored,
      fun h => absurd h hunexplored, fun hm => ?_, hall, hadvances.traced traced_empty,
      hadvances.bordered bordered_empty⟩, hnone⟩
    rcases hadvances.known hm with hm | hk
    · cases hm
    · exact hk

theorem seed_yields : Yields (seed op) fun x => Settled op x.snapshot :=
  seed_unexplored.mono fun _ h => h.1

theorem exists_seed (op : Operand S L) : ∃ x, seed op = .ok x ∧ Settled op x.snapshot :=
  seed_yields

/-! ## Turns -/

omit [Std.TransOrd L] [DecidableEq S] [Std.LawfulEqOrd L] in
theorem snapshot_of_account (h : account settings x = .ok y) : y.snapshot = x.snapshot := by
  obtain ⟨harena, hpending⟩ := keeps_of_account h
  rw [snapshot, harena, hpending, snapshot]

/-- A turn keeps the invariant; it is the last one only if no item is left. -/
theorem settled_of_turn {t : Turn S L} (hx : Settled op x.snapshot)
    (h : turn op settings monitor x = .ok t) :
    match t with
    | .continues y => Settled op y.snapshot
    | .finished y => Settled op y.snapshot ∧ y.pending.items = []
    | .cancelled _ => True := by
  unfold turn at h
  split at h
  · next hpop =>
    cases h
    exact ⟨hx, Worklist.pop_eq_none.mp hpop⟩
  · next item pending hpop =>
    have hitems := Worklist.items_of_pop hpop
    dsimp only at h
    split at h
    · obtain ⟨y, hy, h⟩ := bind_eq_ok h
      obtain ⟨z, hz, h⟩ := bind_eq_ok h
      cases h
      have hx' : Settled op ⟨x.arena, item :: pending.items⟩ := hitems ▸ hx
      have hsettled := (perform_yields
        (x := ({ x with pending }.note .poll).report (.processing item)) hx').of_eq_ok hy
      show Settled op z.snapshot
      rw [snapshot_of_account hz]
      exact hsettled
    · cases h
      trivial

theorem settled_of_run {fuel : Nat} (hx : Settled op x.snapshot)
    (h : run op settings monitor fuel x = .ok (some (.finished y))) :
    Settled op y.snapshot ∧ y.pending.items = [] := by
  induction fuel generalizing x with
  | zero => cases h
  | succ fuel ih =>
    rw [run] at h
    obtain ⟨t, ht, h⟩ := bind_eq_ok h
    have hturn := settled_of_turn hx ht
    cases t with
    | continues z => exact ih hturn h
    | finished z => cases h; exact hturn
    | cancelled z => cases h

theorem settled_of_start {fuel : Nat}
    (h : start op settings monitor fuel = .ok (some (.finished y))) :
    Settled op y.snapshot ∧ y.pending.items = [] := by
  obtain ⟨x, hx, h⟩ := bind_eq_ok h
  have hseed : Settled op x.snapshot := seed_yields.of_eq_ok hx
  exact settled_of_run (x := x.report _) hseed h

end Exploration

/-! ## The end -/

variable [Std.TransOrd L]

/-- What the invariant says of an arena when nothing is due. -/
structure Complete (op : Operand S L) (a : Arena S L) : Prop where
  wellFormed : a.WellFormed
  linked : a.chart.Linked
  sound : a.chart.Sound op
  unmarked : ∀ u, a.chart.mark u = .reachable
  spread : ∀ {r t d}, a.chart.Edge r t → a.chart.HasDown r d → a.chart.HasDown t d
  internals : ∀ {u s}, a.chart.nameOf u = some s → a.chart.InternalsKnown op u
  calls : ∀ {u s}, a.chart.nameOf u = some s → a.chart.CallsKnown op u
  homed : ∀ {e}, a.chart.IsEntry e → a.chart.HasEntry e e
  returns : ∀ {u h}, a.chart.HasDown u (.caller h) → a.chart.ReturnsKnown op u h
  starts : ∀ s ∈ op.initial, a.chart.Starts s
  passed : ∀ {r t e}, a.chart.Edge r t → a.chart.HasEntry r e → a.chart.HasEntry t e
  traced : ∀ {u e}, a.chart.HasEntry u e → a.chart.Reaches e u

/-- The initial states occur under the empty stack. -/
theorem Complete.started {a : Arena S L} (ha : Complete op a) :
    ∀ s ∈ op.initial, ∃ u, a.chart.nameOf u = some s ∧ a.chart.HasDown u .bottom := by
  intro s hs
  obtain ⟨u, hu, -, hentry, hdown⟩ := ha.starts s hs
  exact ⟨u, hu, u, ha.homed hentry, hdown⟩

/-- All states are explored when no item is left. -/
theorem Settled.explored_of_name {x : Snapshot S L} (hx : Settled op x) (hitems : x.items = [])
    {u : Nat} {s : S} (hu : x.chart.nameOf u = some s) : x.chart.explored u = true := by
  have h := hx.unexplored u
  rw [hitems, hu] at h
  simpa using h

theorem Settled.complete {x : Snapshot S L} (hx : Settled op x) (hitems : x.items = []) :
    Complete op x.arena := by
  have hexplored : ∀ {u s}, x.chart.nameOf u = some s → x.chart.explored u = true :=
    hx.explored_of_name hitems
  have hpassed : ∀ {r t e}, x.chart.Edge r t → x.chart.HasEntry r e → x.chart.HasEntry t e := by
    intro r t e hedge he
    rcases hx.spread hedge with hall | ⟨k, hk, -⟩
    · exact hall he
    · rw [hitems] at hk
      cases hk
  refine ⟨hx.wellFormed, hx.linked, hx.sound, hx.unmarked,
    fun hedge ⟨e, he, hd⟩ => ⟨e, hpassed hedge he, hd⟩,
    fun hu => hx.internals (hexplored hu), fun hu => hx.calls (hexplored hu), hx.homed,
    fun {u p} hd => ?_, hx.starts, hpassed, hx.traced.reached⟩
  · obtain ⟨r, s, hr, hs, -⟩ := hx.sound.under_of_hasDown hd
    have hu := hexplored hs
    cases hc : x.chart.candidate u with
    | true =>
      rcases hx.awaited hu hc hd with hm | hm
      · exact hx.returns hm
      · rw [hitems] at hm
        cases hm
    | false =>
      -- a state without letters for returns has none
      refine ⟨s, r, hs, hr, fun l hl => ?_⟩
      rw [← hx.sound.letters hu hs, (hx.sound.candidate hc).2] at hl
      exact absurd hl Std.ExtTreeSet.not_mem_empty

end NestedWords
