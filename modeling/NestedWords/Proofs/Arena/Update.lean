import NestedWords.Proofs.Arena.WellFormed

/-!
# Operations on the bookkeeping

Each operation that writes entries, components or members keeps all places in step, and
fails on no well-formed arena:

* `wellFormed_addEntry`, `addDown_yields`: a new entry, and a new stack top for an entry,
  which reaches all its components;
* `componentFor_found`, `addState_yields`: a component for a set of entries, and a state in
  a component;
* `move_yields`, `excludeCandidate_yields`: a state changes its component or its flag.
-/
namespace NestedWords.Arena

variable {S L : Type} [Ord L] {a b : Arena S L}

/-! ## Entries -/

section
variable {e e' : Nat} {d : Down Nat}

theorem mem_entries_addEntry : e' ∈ (a.addEntry e).entries ↔ e' = e ∨ e' ∈ a.entries := by
  simp [addEntry, eq_comm (a := e)]

theorem entryDowns_addEntry : (a.addEntry e).entryDowns e' = a.entryDowns e' := by
  simp only [entryDowns, addEntry, Std.ExtTreeMap.getD_insertIfNew, Std.compare_eq_iff_eq]
  split
  · next h =>
    obtain ⟨rfl, h⟩ := h
    rw [Std.ExtTreeMap.getD_eq_fallback h]
  · rfl

theorem wellFormed_addEntry (ha : a.WellFormed) : (a.addEntry e).WellFormed where
  name_inj := ha.name_inj
  home_lt := ha.home_lt
  mem_members := ha.mem_members
  mem_candidates := ha.mem_candidates
  mem_downs := by intro k d; simp only [entryDowns_addEntry]; exact ha.mem_downs
  isEntry h := mem_entries_addEntry.mpr (.inr (ha.isEntry h))
  entryMark := by simp only [entryMark, entryDowns_addEntry]; exact ha.entryMark
  byEntries := ha.byEntries
  ofEntry := ha.ofEntry

/-- `b` is `a` with the stack top `d` for the entry `e`; `grown` are the components that
did not have it. -/
structure DownAdded (a : Arena S L) (e : Nat) (d : Down Nat) (grown : List Nat)
    (b : Arena S L) : Prop where
  nodes : b.nodes = a.nodes
  components : b.components.size = a.components.size
  entriesIn : ∀ k, b.entriesIn k = a.entriesIn k
  mem_entries : ∀ {e'}, e' ∈ b.entries ↔ e' ∈ a.entries
  mem_entryDowns : ∀ {e' d'}, d' ∈ b.entryDowns e' ↔ d' ∈ a.entryDowns e' ∨ e' = e ∧ d' = d
  mem_grown : ∀ {k}, k ∈ grown ↔ e ∈ a.entriesIn k ∧ d ∉ a.downsIn k
  borderIn : ∀ k, b.borderIn k = a.borderIn k
  wellFormed : b.WellFormed

theorem DownAdded.sameBorders {grown : List Nat} (h : DownAdded a e d grown b) :
    SameBorders a b := ⟨fun _ => field_congr h.nodes, h.borderIn⟩

/-- A stack top is new to all components in the list. -/
theorem foldlM_insertDown {ks : List Nat} (hks : ∀ k ∈ ks, k < a.components.size) :
    Yields (ks.foldlM (fun a c => a.updateComponent c (·.insertDown d)) a) fun b =>
      b.nodes = a.nodes ∧ b.entries = a.entries ∧
        b.componentByEntries = a.componentByEntries ∧ b.componentsOfEntry = a.componentsOfEntry ∧
        b.components.size = a.components.size ∧
        (∀ k, b.entriesIn k = a.entriesIn k ∧ b.membersIn k = a.membersIn k ∧
          b.candidatesIn k = a.candidatesIn k ∧ b.borderIn k = a.borderIn k) ∧
        ∀ k d', d' ∈ b.downsIn k ↔ d' ∈ a.downsIn k ∨ k ∈ ks ∧ d' = d := by
  induction ks generalizing a with
  | nil => exact yields_ok ⟨rfl, rfl, rfl, rfl, rfl, fun k => ⟨rfl, rfl, rfl, rfl⟩, by simp⟩
  | cons c ks ih =>
    have hc := hks c (by simp)
    rw [List.foldlM_cons, updateComponent_eq_ok hc]
    refine (ih (a := a.modifyComponent c (·.insertDown d)) ?_).mono ?_
    · intro k hk
      rw [size_components_modifyComponent]
      exact hks k (by simp [hk])
    · intro b h
      obtain ⟨h1, h2, h3, h4, h5, h6, h7⟩ := h
      refine ⟨h1, h2, h3, h4, by rw [h5, size_components_modifyComponent], fun k => ?_,
        fun k d' => ?_⟩
      · obtain ⟨he, hm, hca, hbo⟩ := h6 k
        rw [he, hm, hca, hbo]
        exact ⟨part_modifyComponent_same fun _ => rfl, part_modifyComponent_same fun _ => rfl,
          part_modifyComponent_same fun _ => rfl, part_modifyComponent_same fun _ => rfl⟩
      · rw [h7, downsIn, part_modifyComponent (fun s : FinSet (Down Nat) => s.insert d)
          (fun _ => rfl) hc]
        by_cases hk : k = c
        · subst hk
          simp only [if_pos, Std.ExtTreeSet.mem_insert, Std.compare_eq_iff_eq, List.mem_cons,
            true_or, true_and]
          grind
        · simp [hk]

section
variable (hentries : b.entries = a.entries.insert e (Entry.addDown (a.entryDowns e) d))
include hentries

theorem mem_entries_of_written (he : e ∈ a.entries) {e' : Nat} :
    e' ∈ b.entries ↔ e' ∈ a.entries := by
  rw [hentries]
  simp only [Std.ExtTreeMap.mem_insert, Std.compare_eq_iff_eq]
  exact ⟨fun h => h.elim (fun h => h ▸ he) id, .inr⟩

theorem mem_entryDowns_of_written {e' : Nat} {d' : Down Nat} :
    d' ∈ b.entryDowns e' ↔ d' ∈ a.entryDowns e' ∨ e' = e ∧ d' = d := by
  simp only [entryDowns, hentries, Std.ExtTreeMap.getD_insert, Std.compare_eq_iff_eq]
  by_cases h : e' = e
  · subst h
    simp [Entry.addDown, or_comm, eq_comm (a := d)]
  · rw [if_neg (Ne.symm h)]
    simp [h]

/-- The new stack top is not yet known to be live. -/
theorem entryMark_of_written (ha : a.WellFormed) {e' : Nat} {d' : Down Nat} {m : Mark}
    (h : b.entryMark e' d' = some m) : m = .reachable := by
  simp only [entryMark, entryDowns, hentries, Std.ExtTreeMap.getD_insert,
    Std.compare_eq_iff_eq] at h
  split at h
  · simp only [Entry.addDown, Std.ExtTreeMap.getElem?_insertIfNew] at h
    split at h
    · exact (Option.some.inj h).symm
    · exact ha.entryMark h
  · exact ha.entryMark h
end

/-- What a write of `d` to the entry `e` and to the components in `grown` leaves. -/
theorem downAdded_of_written (ha : a.WellFormed) (he : e ∈ a.entries) {grown : List Nat}
    (hgrown : ∀ {k}, k ∈ grown ↔ e ∈ a.entriesIn k ∧ d ∉ a.downsIn k) (hn : b.nodes = a.nodes)
    (hentries : b.entries = a.entries.insert e (Entry.addDown (a.entryDowns e) d))
    (hby : b.componentByEntries = a.componentByEntries)
    (hof : b.componentsOfEntry = a.componentsOfEntry)
    (hsize : b.components.size = a.components.size)
    (hparts : ∀ k, b.entriesIn k = a.entriesIn k ∧ b.membersIn k = a.membersIn k ∧
      b.candidatesIn k = a.candidatesIn k ∧ b.borderIn k = a.borderIn k)
    (hdowns : ∀ k d', d' ∈ b.downsIn k ↔ d' ∈ a.downsIn k ∨ k ∈ grown ∧ d' = d) :
    DownAdded a e d grown b := by
  have hmem_downs : ∀ {k d'}, d' ∈ b.downsIn k ↔ ∃ e' ∈ b.entriesIn k, d' ∈ b.entryDowns e' := by
    intro k d'
    rw [hdowns, (hparts k).1]
    simp only [mem_entryDowns_of_written hentries, hgrown]
    by_cases hd : d' = d
    · subst hd
      by_cases hk : d' ∈ a.downsIn k
      · obtain ⟨e', h1, h2⟩ := ha.mem_downs.mp hk
        exact ⟨fun _ => ⟨e', h1, .inl h2⟩, fun _ => .inl hk⟩
      · constructor
        · intro h
          rcases h with h | ⟨⟨h, -⟩, -⟩
          · exact absurd h hk
          · exact ⟨e, h, .inr ⟨rfl, rfl⟩⟩
        · intro h
          rcases h with ⟨e', h1, h2 | ⟨rfl, -⟩⟩
          · exact absurd (ha.mem_downs.mpr ⟨e', h1, h2⟩) hk
          · exact .inr ⟨⟨h1, hk⟩, rfl⟩
    · simp only [hd, and_false, or_false]
      exact ha.mem_downs
  have hwf : b.WellFormed :=
    { name_inj := by simp only [nameOf, field_congr hn]; exact ha.name_inj
      home_lt := by simp only [home, field_congr hn, hsize]; exact ha.home_lt
      mem_members := by
        intro k u
        rw [(hparts k).2.1, home, field_congr hn]
        exact ha.mem_members
      mem_candidates := by
        intro k u
        rw [(hparts k).2.2.1, home, candidate, field_congr hn, field_congr hn]
        exact ha.mem_candidates
      mem_downs := hmem_downs
      isEntry := fun {k e'} h => by
        rw [(hparts k).1] at h
        exact (mem_entries_of_written hentries he).mpr (ha.isEntry h)
      entryMark := entryMark_of_written hentries ha
      byEntries := by intro l k; rw [hby, hsize, (hparts k).1]; exact ha.byEntries
      ofEntry := by intro e' k; rw [hof, (hparts k).1]; exact ha.ofEntry }
  exact ⟨hn, hsize, fun k => (hparts k).1, mem_entries_of_written hentries he,
    mem_entryDowns_of_written hentries, hgrown, fun k => (hparts k).2.2.2, hwf⟩

/-- A known stack top is one of all components already. -/
theorem downAdded_of_mem (ha : a.WellFormed) (hd : d ∈ a.entryDowns e) : DownAdded a e d [] a := by
  refine ⟨rfl, rfl, fun _ => rfl, Iff.rfl, fun {e' d'} => ⟨.inl, fun h => ?_⟩, fun {k} => ?_,
    fun _ => rfl, ha⟩
  · rcases h with h | ⟨rfl, rfl⟩
    · exact h
    · exact hd
  · simp only [List.not_mem_nil, false_iff, not_and, Decidable.not_not]
    exact fun h => ha.mem_downs.mpr ⟨e, h, hd⟩

/-- The stack top reaches the entry and all its components. -/
theorem addDown_yields (ha : a.WellFormed) (he : e ∈ a.entries) :
    Yields (a.addDown e d) fun (grown, b) => DownAdded a e d grown b := by
  unfold addDown
  rw [Std.ExtTreeMap.getElem?_eq_some_getElem he]
  have hE : a.entryDowns e = a.entries[e] := by
    rw [entryDowns, Std.ExtTreeMap.getD_eq_getD_getElem?,
      Std.ExtTreeMap.getElem?_eq_some_getElem he, Option.getD_some]
  simp only
  split
  · next hd =>
    have hd' : d ∈ a.entryDowns e := by
      rw [hE]
      exact Std.ExtTreeMap.mem_iff_contains.mpr hd
    exact yields_ok (downAdded_of_mem ha hd')
  · let a' : Arena S L := { a with entries := a.entries.insert e (Entry.addDown a.entries[e] d) }
    have hcs : ∀ k, k ∈ (a'.componentsOfEntry.getD e ∅).toList ↔ e ∈ a.entriesIn k := by
      intro k
      rw [Std.ExtTreeSet.mem_toList]
      exact ha.ofEntry
    have hfilter : ((a'.componentsOfEntry.getD e ∅).toList).filterM
        (fun c => return !(← a'.component c).downs.contains d) =
          .ok (((a'.componentsOfEntry.getD e ∅).toList).filter fun c =>
            !(a.downsIn c).contains d) := by
      refine filterM_ok fun k hk => ?_
      obtain ⟨c, hc⟩ := exists_component (lt_components_of_mem ((hcs k).mp hk))
      rw [component_eq_ok (a := a') hc, downsIn, part_eq hc]
      rfl
    show Yields (do
      let grown ← ((a'.componentsOfEntry.getD e ∅).toList).filterM
        (fun c => return !(← a'.component c).downs.contains d)
      return (grown, ← grown.foldlM (fun a c => a.updateComponent c (·.insertDown d)) a')) _
    rw [hfilter]
    generalize hg : ((a'.componentsOfEntry.getD e ∅).toList).filter (fun c =>
      !(a.downsIn c).contains d) = grown
    have hgrown : ∀ {k}, k ∈ grown ↔ e ∈ a.entriesIn k ∧ d ∉ a.downsIn k := by
      intro k
      rw [← hg, List.mem_filter, hcs, Bool.not_eq_true', ← Bool.not_eq_true,
        ← Std.ExtTreeSet.mem_iff_contains]
    refine (foldlM_insertDown (a := a') fun k hk =>
      lt_components_of_mem (hgrown.mp hk).1).bind ?_
    intro b h
    obtain ⟨hn, hentries, hby, hof, hsize, hparts, hdowns⟩ := h
    exact yields_ok
      (downAdded_of_written ha he hgrown hn (hE ▸ hentries) hby hof hsize hparts hdowns)
end

/-! ## Components -/

/-- `k` is the component for the entries `E` in `b`, which has it besides those of `a`. -/
structure Found (a : Arena S L) (E : FinSet Nat) (k : Nat) (b : Arena S L) : Prop where
  nodes : b.nodes = a.nodes
  entries : b.entries = a.entries
  le_components : k ≤ a.components.size
  components : b.components.size = max a.components.size (k + 1)
  entriesIn_self : b.entriesIn k = E
  entriesIn : ∀ i < a.components.size, b.entriesIn i = a.entriesIn i
  borderIn : ∀ i, b.borderIn i = a.borderIn i
  wellFormed : b.WellFormed

theorem toList_injective {s t : FinSet Nat} (h : s.toList = t.toList) : s = t :=
  Std.ExtTreeSet.ext_mem fun x => by
    rw [← Std.ExtTreeSet.mem_toList, h, Std.ExtTreeSet.mem_toList]

theorem mem_downsOfEntries {E : FinSet Nat} {d : Down Nat} :
    d ∈ a.downsOfEntries E ↔ ∃ e ∈ E, d ∈ a.entryDowns e := by
  simp [downsOfEntries]

theorem mem_indexed {m : FinMap Nat (FinSet Nat)} {l : List Nat} {id e k : Nat} :
    k ∈ (l.foldl (fun m e => m.insert e ((m.getD e ∅).insert id)) m).getD e ∅ ↔
      k ∈ m.getD e ∅ ∨ e ∈ l ∧ k = id := by
  induction l generalizing m with
  | nil => simp
  | cons i l ih =>
    rw [List.foldl_cons, ih, Std.ExtTreeMap.getD_insert]
    simp only [Std.compare_eq_iff_eq]
    by_cases h : e = i
    · subst h
      simp only [if_pos, Std.ExtTreeSet.mem_insert, Std.compare_eq_iff_eq, List.mem_cons, true_or,
        true_and]
      grind
    · simp [h, Ne.symm h]

/-- The arena with a new component for the entries `E`. -/
def pushComponent (a : Arena S L) (E : FinSet Nat) : Arena S L :=
  { a with
    components := a.components.push { entries := E, downs := a.downsOfEntries E }
    componentByEntries := a.componentByEntries.insert E.toList a.components.size
    componentsOfEntry := E.toList.foldl
      (fun m e => m.insert e ((m.getD e ∅).insert a.components.size)) a.componentsOfEntry }

section
variable {E : FinSet Nat}

theorem part_pushComponent {α : Type} {f : Component → α} {d : α} {i : Nat} :
    (a.pushComponent E).part f d i =
      if i = a.components.size then f { entries := E, downs := a.downsOfEntries E }
      else a.part f d i := by
  simp only [part, pushComponent, Array.getElem?_push]
  split <;> rfl

theorem entriesIn_pushComponent_self : (a.pushComponent E).entriesIn a.components.size = E := by
  rw [entriesIn, part_pushComponent, if_pos rfl]

theorem entriesIn_pushComponent {i : Nat} (hi : i ≠ a.components.size) :
    (a.pushComponent E).entriesIn i = a.entriesIn i := by
  rw [entriesIn, part_pushComponent, if_neg hi]

/-- A new component has no members, and so no border. -/
theorem borderIn_pushComponent {i : Nat} : (a.pushComponent E).borderIn i = a.borderIn i := by
  rw [borderIn, part_pushComponent]
  split
  · next hi => exact (part_of_ge (Nat.le_of_eq hi.symm)).symm
  · rfl

/-- The index of the components by their entries stays exact if the entries are new to it. -/
theorem byEntries_pushComponent (ha : a.WellFormed) (hnone : a.componentByEntries[E.toList]? = none)
    {l : List Nat} {k : Nat} : (a.pushComponent E).componentByEntries[l]? = some k ↔
      k < (a.pushComponent E).components.size ∧ ((a.pushComponent E).entriesIn k).toList = l := by
  have hsize : (a.pushComponent E).components.size = a.components.size + 1 := Array.size_push _
  have hindex : (a.pushComponent E).componentByEntries[l]? =
      if E.toList = l then some a.components.size else a.componentByEntries[l]? := by
    simp only [pushComponent, Std.ExtTreeMap.getElem?_insert, Std.compare_eq_iff_eq]
  rw [hindex, hsize]
  by_cases hk : k = a.components.size
  · subst hk
    rw [entriesIn_pushComponent_self]
    split
    · next hl => exact iff_of_true rfl ⟨Nat.lt_succ_self _, hl⟩
    · next hl =>
      refine iff_of_false (fun h => ?_) fun h => hl h.2
      exact absurd (ha.byEntries.mp h).1 (Nat.lt_irrefl _)
  · rw [entriesIn_pushComponent hk]
    have hlt : k < a.components.size + 1 ↔ k < a.components.size := by omega
    rw [hlt, ← ha.byEntries]
    split
    · next hl =>
      subst hl
      rw [hnone]
      simp [Ne.symm hk]
    · exact Iff.rfl

theorem wellFormed_pushComponent (ha : a.WellFormed) (hE : ∀ e ∈ E, e ∈ a.entries)
    (hnone : a.componentByEntries[E.toList]? = none) : (a.pushComponent E).WellFormed where
  name_inj := ha.name_inj
  home_lt h := by
    have := ha.home_lt h
    simp only [pushComponent, Array.size_push]
    omega
  mem_members := by
    intro k u
    rw [membersIn, part_pushComponent]
    split
    · next hk =>
      exact iff_of_false Std.ExtTreeSet.not_mem_empty fun h => Nat.ne_of_lt (ha.home_lt h) hk
    · exact ha.mem_members
  mem_candidates := by
    intro k u
    rw [candidatesIn, part_pushComponent]
    split
    · next hk =>
      exact iff_of_false Std.ExtTreeSet.not_mem_empty fun h => Nat.ne_of_lt (ha.home_lt h.1) hk
    · exact ha.mem_candidates
  mem_downs := by
    intro k d
    rw [downsIn, entriesIn, part_pushComponent, part_pushComponent]
    split
    · exact mem_downsOfEntries
    · exact ha.mem_downs
  isEntry := by
    intro k e h
    rw [entriesIn, part_pushComponent] at h
    split at h
    · exact hE e h
    · exact ha.isEntry h
  entryMark := ha.entryMark
  byEntries := byEntries_pushComponent ha hnone
  ofEntry := by
    intro e k
    simp only [pushComponent, mem_indexed, ha.ofEntry, Std.ExtTreeSet.mem_toList]
    show _ ↔ e ∈ (a.pushComponent E).entriesIn k
    by_cases hk : k = a.components.size
    · have hempty : a.entriesIn a.components.size = ∅ := part_of_ge (Nat.le_refl _)
      subst hk
      rw [entriesIn_pushComponent_self, hempty]
      simp
    · rw [entriesIn_pushComponent hk]
      simp [hk]

theorem componentFor_found (ha : a.WellFormed) (hE : ∀ e ∈ E, e ∈ a.entries) :
    Found a E (a.componentFor E).1 (a.componentFor E).2 := by
  unfold componentFor
  split
  · next k hk =>
    obtain ⟨hlt, hlist⟩ := ha.byEntries.mp hk
    exact ⟨rfl, rfl, Nat.le_of_lt hlt, (Nat.max_eq_left hlt).symm, toList_injective hlist,
      fun _ _ => rfl, fun _ => rfl, ha⟩
  · next hnone =>
    have hsize : (a.pushComponent E).components.size =
        max a.components.size (a.components.size + 1) :=
      (Array.size_push _).trans (Nat.max_eq_right (Nat.le_succ _)).symm
    exact ⟨rfl, rfl, Nat.le_refl _, hsize, entriesIn_pushComponent_self,
      fun _ hi => entriesIn_pushComponent (Nat.ne_of_lt hi), fun _ => borderIn_pushComponent,
      wellFormed_pushComponent ha hE hnone⟩
end

/-! ## States -/

/-- Entries, stack tops, borders and the two indices are the same. -/
structure SameEntries (a b : Arena S L) : Prop where
  entries : b.entries = a.entries
  components : b.components.size = a.components.size
  entriesIn : ∀ i, b.entriesIn i = a.entriesIn i
  downsIn : ∀ i, b.downsIn i = a.downsIn i
  borderIn : ∀ i, b.borderIn i = a.borderIn i
  byEntries : b.componentByEntries = a.componentByEntries
  ofEntry : b.componentsOfEntry = a.componentsOfEntry

/-- Where only states and members change, only they have to be looked at. -/
theorem SameEntries.wellFormed (h : SameEntries a b) (ha : a.WellFormed)
    (name_inj : ∀ {u v s}, b.nameOf u = some s → b.nameOf v = some s → u = v)
    (home_lt : ∀ {u k}, b.home u = some k → k < a.components.size)
    (mem_members : ∀ {k u}, u ∈ b.membersIn k ↔ b.home u = some k)
    (mem_candidates : ∀ {k u}, u ∈ b.candidatesIn k ↔ b.home u = some k ∧ b.candidate u = true) :
    b.WellFormed where
  name_inj := name_inj
  home_lt hk := h.components ▸ home_lt hk
  mem_members := mem_members
  mem_candidates := mem_candidates
  mem_downs := by
    intro k d
    rw [h.downsIn, h.entriesIn]
    unfold entryDowns
    rw [h.entries]
    exact ha.mem_downs
  isEntry he := by
    rw [h.entriesIn] at he
    rw [h.entries]
    exact ha.isEntry he
  entryMark := by simp only [entryMark, entryDowns, h.entries]; exact ha.entryMark
  byEntries := by intro l k; rw [h.byEntries, h.components, h.entriesIn]; exact ha.byEntries
  ofEntry := by intro e k; rw [h.ofEntry, h.entriesIn]; exact ha.ofEntry

section
variable {u k : Nat} {name : S} {isInitial isFinal : Bool}

/-- `b` is `a` with one more state, in component `k`. -/
structure StateAdded (a : Arena S L) (name : S) (k : Nat) (isInitial isFinal : Bool)
    (b : Arena S L) : Prop extends SameEntries a b where
  nodes : b.nodes = a.nodes.push { name, component := k, isInitial, isFinal }
  wellFormed : b.WellFormed

theorem field_push {α : Type} {f : Node S L → α} {d : α} {n : Node S L} {v : Nat}
    (hb : b.nodes = a.nodes.push n) :
    b.field f d v = if v = a.size then f n else a.field f d v := by
  unfold field
  rw [hb, Array.getElem?_push]
  show _ = if v = a.nodes.size then _ else _
  split <;> rfl

/-- A field in which a new node is like no node is not changed by it. -/
theorem field_push_same {α : Type} {f : Node S L → α} {d : α} {n : Node S L} {v : Nat}
    (hb : b.nodes = a.nodes.push n) (hn : f n = d) : b.field f d v = a.field f d v := by
  rw [field_push hb]
  split
  · next hv => rw [hn, field_of_ge (Nat.le_of_eq hv.symm)]
  · rfl

theorem addState_yields [DecidableEq S] (ha : a.WellFormed) (hk : k < a.components.size)
    (hname : a.idOf name = none) :
    Yields (a.addState name k isInitial isFinal) fun (id, b) =>
      id = a.size ∧ StateAdded a name k isInitial isFinal b := by
  unfold addState
  rw [hname]
  let n : Node S L := { name, component := k, isInitial, isFinal }
  let b := ({ a with nodes := a.nodes.push n } : Arena S L).modifyComponent k
    (·.insertMember a.size true)
  show Yields (do
    return (a.size, ← ({ a with nodes := a.nodes.push n } : Arena S L).updateComponent k
      (·.insertMember a.size true))) _
  rw [updateComponent_eq_ok (a := { a with nodes := a.nodes.push n }) hk]
  have hnodes : b.nodes = a.nodes.push n := rfl
  have hsame : SameEntries a b :=
    ⟨rfl, size_components_modifyComponent, fun _ => part_modifyComponent_same fun _ => rfl,
      fun _ => part_modifyComponent_same fun _ => rfl,
      fun _ => part_modifyComponent_same fun _ => rfl, rfl, rfl⟩
  have hmembers : ∀ i v, v ∈ b.membersIn i ↔ v ∈ a.membersIn i ∨ i = k ∧ v = a.size := by
    intro i v
    have h : b.membersIn i =
        if i = k then (a.membersIn i).insert a.size else a.membersIn i :=
      part_modifyComponent (fun s : FinSet Nat => s.insert a.size) (fun _ => rfl) hk
    rw [h, mem_ite_insert]
  have hcandidates : ∀ i v, v ∈ b.candidatesIn i ↔ v ∈ a.candidatesIn i ∨ i = k ∧ v = a.size := by
    intro i v
    have h : b.candidatesIn i =
        if i = k then (a.candidatesIn i).insert a.size else a.candidatesIn i :=
      part_modifyComponent (fun s : FinSet Nat => s.insert a.size) (fun _ => rfl) hk
    rw [h, mem_ite_insert]
  have hhome : a.home a.size = none := field_of_ge (Nat.le_refl _)
  have hname' : ∀ v, b.nameOf v = if v = a.size then some name else a.nameOf v :=
    fun _ => field_push hnodes
  have hhome' : ∀ v, b.home v = if v = a.size then some k else a.home v :=
    fun _ => field_push hnodes
  have hcandidate' : ∀ v, b.candidate v = if v = a.size then true else a.candidate v :=
    fun _ => field_push hnodes
  refine yields_ok ⟨rfl, hsame, hnodes, hsame.wellFormed ha ?name_inj ?home_lt ?members ?candidates⟩
  case name_inj =>
    intro u v s hu hv
    rw [hname'] at hu hv
    split at hu <;> split at hv
    · omega
    · cases hu; exact absurd hv (idOf_eq_none hname)
    · cases hv; exact absurd hu (idOf_eq_none hname)
    · exact ha.name_inj hu hv
  case home_lt =>
    intro v i h
    rw [hhome'] at h
    split at h
    · cases h; exact hk
    · exact ha.home_lt h
  case members =>
    intro i v
    rw [hmembers, ha.mem_members, hhome']
    split
    · next h => subst h; simp [hhome, eq_comm]
    · next h => simp [h]
  case candidates =>
    intro i v
    rw [hcandidates, ha.mem_candidates, hhome', hcandidate']
    split
    · next h => subst h; simp [hhome, eq_comm (a := k)]
    · next h => simp [h]

/-- `b` is `a` with the state `u` no candidate any more. -/
structure Excluded (a : Arena S L) (u : Nat) (b : Arena S L) : Prop extends SameEntries a b where
  nodes : b.nodes = a.nodes.modify u ({ · with candidate := false })
  wellFormed : b.WellFormed

theorem excludeCandidate_yields (ha : a.WellFormed) (hu : u < a.size) :
    Yields (a.excludeCandidate u) fun b => Excluded a u b := by
  obtain ⟨k, hk⟩ := exists_home hu
  have hkc := ha.home_lt hk
  let a' := a.modifyNode u ({ · with candidate := false })
  let b := a'.modifyComponent k fun c => { c with candidates := c.candidates.erase u }
  have heq : a.excludeCandidate u = .ok b := by
    unfold excludeCandidate
    rw [componentOf_eq_ok hk]
    dsimp only [bind, Except.bind]
    rw [updateNode_eq_ok hu]
    exact updateComponent_eq_ok (a := a') hkc
  have hsame : SameEntries a b :=
    ⟨rfl, size_components_modifyComponent, fun _ => part_modifyComponent_same fun _ => rfl,
      fun _ => part_modifyComponent_same fun _ => rfl,
      fun _ => part_modifyComponent_same fun _ => rfl, rfl, rfl⟩
  have hname : ∀ v, b.nameOf v = a.nameOf v := fun v => field_modifyNode_same fun _ => rfl
  have hhome : ∀ v, b.home v = a.home v := fun v => field_modifyNode_same fun _ => rfl
  have hcandidate : ∀ v, b.candidate v = if v = u then false else a.candidate v :=
    fun v => field_modifyNode (fun _ => false) (fun _ => rfl) hu
  have hmembersIn : ∀ i, b.membersIn i = a.membersIn i :=
    fun i => part_modifyComponent_same fun _ => rfl
  have hcandidates : ∀ i v, v ∈ b.candidatesIn i ↔ v ∈ a.candidatesIn i ∧ ¬(i = k ∧ v = u) := by
    intro i v
    have h : b.candidatesIn i = if i = k then (a.candidatesIn i).erase u else a.candidatesIn i :=
      part_modifyComponent (fun s : FinSet Nat => s.erase u) (fun _ => rfl) (a := a') hkc
    rw [h, mem_ite_erase]
  refine ⟨b, heq, hsame, rfl, hsame.wellFormed ha ?name_inj ?home_lt ?members ?candidates⟩
  case name_inj => simp only [hname]; exact ha.name_inj
  case home_lt => simp only [hhome]; exact ha.home_lt
  case members => intro i v; rw [hmembersIn, hhome]; exact ha.mem_members
  case candidates =>
    intro i v
    rw [hcandidates, ha.mem_candidates, hhome, hcandidate]
    by_cases hv : v = u
    · subst hv; simp only [hk, Option.some.injEq]; grind
    · simp [hv]

/-- `b` is `a` with the state `u` in component `k`. -/
structure Moved (a : Arena S L) (u k : Nat) (b : Arena S L) : Prop extends SameEntries a b where
  nodes : b.nodes = a.nodes.modify u ({ · with component := k })
  wellFormed : b.WellFormed

/-- A set of members after one has been taken out of `i` and, if `p`, put into `k`. -/
theorem mem_part_transfer {f : Component → FinSet Nat} {i : Nat} {q : Bool} {p : Prop} [Decidable p]
    (hi : i < a.components.size) (hk : k < a.components.size)
    (hremove : ∀ c, f (c.removeMember u) = (f c).erase u)
    (hinsert : ∀ c, f (c.insertMember u q) = if p then (f c).insert u else f c) {j v : Nat} :
    v ∈ ((a.modifyComponent i (·.removeMember u)).modifyComponent k
        (·.insertMember u q)).part f ∅ j ↔
      (v ∈ a.part f ∅ j ∧ ¬(j = i ∧ v = u)) ∨ j = k ∧ p ∧ v = u := by
  rw [part_modifyComponent (fun s : FinSet Nat => if p then s.insert u else s) hinsert
    (by simpa using hk)]
  have hremoved : v ∈ (a.modifyComponent i (·.removeMember u)).part f ∅ j ↔
      v ∈ a.part f ∅ j ∧ ¬(j = i ∧ v = u) := by
    rw [part_modifyComponent (fun s : FinSet Nat => s.erase u) hremove hi, mem_ite_erase]
  split
  · next hj => rw [mem_ite_insert, hremoved]; simp [hj]
  · next hj => rw [hremoved]; simp [hj]

theorem move_yields (ha : a.WellFormed) (hu : u < a.size) (hk : k < a.components.size) :
    Yields (a.move u k) fun b => Moved a u k b := by
  obtain ⟨n, hn⟩ := exists_node hu
  have hold : a.home u = some n.component := field_eq hn
  have holdc := ha.home_lt hold
  have hcand : a.candidate u = n.candidate := field_eq hn
  let a' := a.modifyNode u ({ · with component := k })
  let b := (a'.modifyComponent n.component (·.removeMember u)).modifyComponent k
    (·.insertMember u n.candidate)
  have heq : a.move u k = .ok b := by
    unfold move
    rw [node_eq_ok hn]
    dsimp only [bind, Except.bind]
    rw [updateNode_eq_ok hu]
    dsimp only
    rw [updateComponent_eq_ok (a := a') holdc]
    exact updateComponent_eq_ok (by rw [size_components_modifyComponent]; exact hk)
  have hparts : ∀ {α : Type} {f : Component → α} {d : α} {i : Nat},
      (∀ c, f (c.removeMember u) = f c) → (∀ c, f (c.insertMember u n.candidate) = f c) →
      b.part f d i = a.part f d i := fun hremove hinsert =>
    (part_modifyComponent_same hinsert).trans (part_modifyComponent_same hremove)
  have hsame : SameEntries a b :=
    ⟨rfl, by simp [b, a'], fun _ => hparts (fun _ => rfl) fun _ => rfl,
      fun _ => hparts (fun _ => rfl) fun _ => rfl, fun _ => hparts (fun _ => rfl) fun _ => rfl,
      rfl, rfl⟩
  have hname : ∀ v, b.nameOf v = a.nameOf v := fun v => field_modifyNode_same fun _ => rfl
  have hcandidate : ∀ v, b.candidate v = a.candidate v := fun v =>
    field_modifyNode_same fun _ => rfl
  have hhome : ∀ v, b.home v = if v = u then some k else a.home v := fun v =>
    field_modifyNode (fun _ => some k) (fun _ => rfl) hu
  have hmembers : ∀ i v, v ∈ b.membersIn i ↔
      (v ∈ a.membersIn i ∧ ¬(i = n.component ∧ v = u)) ∨ i = k ∧ True ∧ v = u := fun i v =>
    mem_part_transfer (a := a') holdc hk (fun _ => rfl) fun _ => rfl
  have hcandidates : ∀ i v, v ∈ b.candidatesIn i ↔
      (v ∈ a.candidatesIn i ∧ ¬(i = n.component ∧ v = u)) ∨
        i = k ∧ n.candidate = true ∧ v = u := fun i v =>
    mem_part_transfer (a := a') holdc hk (fun _ => rfl) fun _ => rfl
  refine ⟨b, heq, hsame, rfl, hsame.wellFormed ha ?name_inj ?home_lt ?members ?candidates⟩
  case name_inj => simp only [hname]; exact ha.name_inj
  case home_lt =>
    intro v i h
    rw [hhome] at h
    split at h
    · cases h; exact hk
    · exact ha.home_lt h
  case members =>
    intro i v
    rw [hmembers, ha.mem_members, hhome]
    by_cases hv : v = u
    · subst hv; simp only [hold, if_pos, Option.some.injEq]; grind
    · simp [hv]
  case candidates =>
    intro i v
    rw [hcandidates, ha.mem_candidates, hhome, hcandidate]
    by_cases hv : v = u
    · subst hv; simp only [hold, hcand, if_pos, Option.some.injEq]; grind
    · simp [hv]
end

end NestedWords.Arena
