import NestedWords.Proofs.Table
import NestedWords.Proofs.Yields
import NestedWords.Arena.Region

/-!
# Views of an arena

What an arena says of a state or of a component, read off as a function of the id. A view
answers for every id: where there is no node it gives what a fresh node would have, so a
new state changes no view but those of its name and its component.

`modifyNode` and `modifyComponent` are the two updates that all others are made of.
`field_modifyNode` and `part_modifyComponent` say what they do to a view, and their forms
with `same` that they leave alone what they do not write.
-/
namespace NestedWords.Arena

variable {S L α : Type} [Ord L]

/-- A field of a node; `d` if there is no such node. -/
def field (a : Arena S L) (f : Node S L → α) (d : α) (u : Nat) : α := (a.nodes[u]?).elim d f

/-- A field of a component; `d` if there is no such component. -/
def part (a : Arena S L) (f : Component → α) (d : α) (k : Nat) : α := (a.components[k]?).elim d f

abbrev nameOf (a : Arena S L) : Nat → Option S := a.field (fun n => some n.name) none

/-- The id of a state's component. -/
abbrev home (a : Arena S L) : Nat → Option Nat := a.field (fun n => some n.component) none

abbrev isInitial (a : Arena S L) : Nat → Bool := a.field (·.isInitial) false

abbrev isFinal (a : Arena S L) : Nat → Bool := a.field (·.isFinal) false

abbrev explored (a : Arena S L) : Nat → Bool := a.field (·.explored) false

abbrev candidate (a : Arena S L) : Nat → Bool := a.field (·.candidate) true

abbrev mark (a : Arena S L) : Nat → Mark := a.field (·.mark) .reachable

abbrev examined (a : Arena S L) : Nat → FinSet Nat := a.field (·.examined) ∅

abbrev returnLetters (a : Arena S L) : Nat → FinSet L := a.field (·.returnLetters) ∅

abbrev internalOut (a : Arena S L) : Nat → Table L (FinSet Nat) := a.field (·.internalOut) ∅

abbrev internalIn (a : Arena S L) : Nat → Table L (FinSet Nat) := a.field (·.internalIn) ∅

abbrev callOut (a : Arena S L) : Nat → Table L (FinSet Nat) := a.field (·.callOut) ∅

abbrev callIn (a : Arena S L) : Nat → Table L (FinSet Nat) := a.field (·.callIn) ∅

abbrev returnOut (a : Arena S L) : Nat → Table Nat (Table L (FinSet Nat)) := a.field (·.returnOut) ∅

abbrev returnIn (a : Arena S L) : Nat → Table Nat (Table L (FinSet Nat)) := a.field (·.returnIn) ∅

abbrev summaries (a : Arena S L) : Nat → Table L (FinSet (Nat × Nat)) := a.field (·.summaries) ∅

abbrev entriesIn (a : Arena S L) : Nat → FinSet Nat := a.part (·.entries) ∅

abbrev downsIn (a : Arena S L) : Nat → FinSet (Down Nat) := a.part (·.downs) ∅

abbrev membersIn (a : Arena S L) : Nat → FinSet Nat := a.part (·.members) ∅

abbrev candidatesIn (a : Arena S L) : Nat → FinSet Nat := a.part (·.candidates) ∅

abbrev borderIn (a : Arena S L) : Nat → FinMap Nat (FinSet Nat) := a.part (·.border) ∅

/-- What a member of a component is known to reach elsewhere. -/
def borderOf (a : Arena S L) (k u : Nat) : FinSet Nat := (a.borderIn k).getD u ∅

/-- The stack tops of an entry; none if the state is no entry. -/
abbrev entryDowns (a : Arena S L) (e : Nat) : Entry := a.entries.getD e ∅

/-- What is known about a stack top of an entry. -/
abbrev entryMark (a : Arena S L) (e : Nat) (d : Down Nat) : Option Mark := (a.entryDowns e)[d]?

/-- `e` is an entry of the component of `u`. -/
def HasEntry (a : Arena S L) (u e : Nat) : Prop := ∃ k, a.home u = some k ∧ e ∈ a.entriesIn k

/-- `d` is a stack top of the component of `u`. -/
def HasDown (a : Arena S L) (u : Nat) (d : Down Nat) : Prop :=
  ∃ k, a.home u = some k ∧ d ∈ a.downsIn k

/-! ## Reading -/

variable {a : Arena S L} {f : Node S L → α} {d : α} {u v k : Nat}

theorem field_congr {b : Arena S L} (h : b.nodes = a.nodes) : b.field f d u = a.field f d u := by
  simp [field, h]

theorem field_eq {n : Node S L} (h : a.nodes[u]? = some n) : a.field f d u = f n := by
  simp [field, h]

theorem field_of_ge (h : a.size ≤ u) : a.field f d u = d := by
  have : a.nodes[u]? = none := Array.getElem?_eq_none h
  simp [field, this]

theorem part_eq {f : Component → α} {c : Component} (h : a.components[k]? = some c) :
    a.part f d k = f c := by simp [part, h]

theorem part_of_ge {f : Component → α} (h : a.components.size ≤ k) : a.part f d k = d := by
  have : a.components[k]? = none := Array.getElem?_eq_none h
  simp [part, this]

theorem exists_node (h : u < a.size) : ∃ n, a.nodes[u]? = some n :=
  ⟨_, Array.getElem?_eq_getElem h⟩

theorem exists_node_of_nameOf {s : S} (h : a.nameOf u = some s) :
    ∃ n, a.nodes[u]? = some n ∧ n.name = s := by
  cases hn : a.nodes[u]? with
  | none => simp [nameOf, field, hn] at h
  | some n =>
    rw [nameOf, field_eq hn] at h
    exact ⟨n, rfl, Option.some.inj h⟩

theorem exists_node_of_explored (h : a.explored u = true) :
    ∃ n, a.nodes[u]? = some n ∧ n.explored = true := by
  cases hn : a.nodes[u]? with
  | none => simp [explored, field, hn] at h
  | some n => exact ⟨n, rfl, by simpa [explored, field, hn] using h⟩

theorem exists_component (h : k < a.components.size) : ∃ c, a.components[k]? = some c :=
  ⟨_, Array.getElem?_eq_getElem h⟩

theorem lt_size_of_nameOf {s : S} (h : a.nameOf u = some s) : u < a.size := by
  by_cases hu : u < a.size
  · exact hu
  · rw [nameOf, field_of_ge (by omega)] at h; cases h

theorem lt_size_of_explored (h : a.explored u = true) : u < a.size := by
  by_cases hu : u < a.size
  · exact hu
  · rw [explored, field_of_ge (by omega)] at h; cases h

theorem lt_size_of_home (h : a.home u = some k) : u < a.size := by
  by_cases hu : u < a.size
  · exact hu
  · rw [home, field_of_ge (by omega)] at h; cases h

theorem exists_home (h : u < a.size) : ∃ k, a.home u = some k := by
  obtain ⟨n, hn⟩ := exists_node h
  exact ⟨n.component, field_eq hn⟩

theorem exists_nameOf (h : u < a.size) : ∃ s, a.nameOf u = some s := by
  obtain ⟨n, hn⟩ := exists_node h
  exact ⟨n.name, field_eq hn⟩

theorem lt_size_of_mem {ρ β : Type} [Ord β] [Row ρ β] [Membership β ρ] [LawfulRow ρ]
    {f : Node S L → ρ} {x : β} (h : x ∈ a.field f Row.empty u) : u < a.size := by
  by_cases hu : u < a.size
  · exact hu
  · rw [field_of_ge (by omega)] at h
    exact absurd h (LawfulRow.not_mem_empty x)

theorem HasEntry.lt_size {e : Nat} (h : a.HasEntry u e) : u < a.size := by
  obtain ⟨k, hk, -⟩ := h
  exact lt_size_of_home hk

theorem hasEntry_of_home {e : Nat} (h : a.home u = some k) :
    a.HasEntry u e ↔ e ∈ a.entriesIn k := by
  simp [HasEntry, h]

theorem hasDown_of_home {d : Down Nat} (h : a.home u = some k) :
    a.HasDown u d ↔ d ∈ a.downsIn k := by
  simp [HasDown, h]

theorem HasDown.lt_size {d : Down Nat} (h : a.HasDown u d) : u < a.size := by
  obtain ⟨k, hk, -⟩ := h
  exact lt_size_of_home hk

theorem lt_components_of_mem {k e : Nat} (h : e ∈ a.entriesIn k) : k < a.components.size := by
  by_cases hk : k < a.components.size
  · exact hk
  · rw [entriesIn, part_of_ge (by omega)] at h; simp at h

theorem mem_entries_of_mem {e : Nat} {d : Down Nat} (h : d ∈ a.entryDowns e) : e ∈ a.entries := by
  by_cases he : e ∈ a.entries
  · exact he
  rw [entryDowns, Std.ExtTreeMap.getD_eq_fallback he] at h
  simp at h

theorem mem_entryDowns_iff {e : Nat} {d : Down Nat} :
    d ∈ a.entryDowns e ↔ ∃ m, a.entryMark e d = some m := by
  rw [Std.ExtTreeMap.mem_iff_isSome_getElem?, Option.isSome_iff_exists]

theorem node_eq_ok {n : Node S L} (h : a.nodes[u]? = some n) : a.node u = .ok n := by
  simp [node, h]

theorem component_eq_ok {c : Component} (h : a.components[k]? = some c) :
    a.component k = .ok c := by simp [component, h]

theorem name_eq_ok {s : S} (h : a.nameOf u = some s) : a.name u = .ok s := by
  obtain ⟨n, hn⟩ := exists_node (lt_size_of_nameOf h)
  rw [nameOf, field_eq hn] at h
  cases h
  simp [name, hn]

theorem componentOf_eq_ok (h : a.home u = some k) : a.componentOf u = .ok k := by
  obtain ⟨n, hn⟩ := exists_node (lt_size_of_home h)
  rw [home, field_eq hn] at h
  cases h
  rw [componentOf, node_eq_ok hn]
  rfl

theorem downsOf_eq_ok (h : a.home u = some k) (hk : k < a.components.size) :
    a.downsOf u = .ok (a.downsIn k) := by
  obtain ⟨c, hc⟩ := exists_component hk
  rw [downsOf, componentOf_eq_ok h]
  show (do return (← a.component k).downs) = _
  rw [component_eq_ok hc, downsIn, part_eq hc]
  rfl

/-- The callers among stack tops. -/
theorem mem_callers {D : FinSet (Down Nat)} {h : Nat} :
    h ∈ D.toList.filterMap Down.state? ↔ .caller h ∈ D := by
  rw [List.mem_filterMap]
  constructor
  · intro h
    obtain ⟨d, hd, hs⟩ := h
    cases d with
    | bottom => cases hs
    | caller p => cases hs; exact Std.ExtTreeSet.mem_toList.mp hd
  · exact fun h => ⟨_, Std.ExtTreeSet.mem_toList.mpr h, rfl⟩

/-- The edges within a call are the internal and the summary edges. -/
theorem mem_successorsWithin [Std.TransOrd L] [Std.LawfulEqOrd L] {v : Nat} :
    v ∈ a.successorsWithin u ↔
      (∃ l, (l, v) ∈ a.internalOut u) ∨ ∃ l p, (l, p, v) ∈ a.summaries u := by
  unfold successorsWithin
  cases h : a.nodes[u]? with
  | none => simp [field, h]
  | some n =>
    simp only [internalOut, summaries, field_eq h, Node.successorsWithin, List.mem_append,
      List.mem_map, Table.mem_toList]
    constructor
    · intro h
      rcases h with ⟨⟨l, t⟩, he, rfl⟩ | ⟨⟨l, p, t⟩, he, rfl⟩
      · exact .inl ⟨l, he⟩
      · exact .inr ⟨l, p, he⟩
    · intro h
      rcases h with ⟨l, he⟩ | ⟨l, p, he⟩
      · exact .inl ⟨_, he, rfl⟩
      · exact .inr ⟨_, he, rfl⟩

theorem idOf_eq_some [DecidableEq S] {s : S} (h : a.idOf s = some u) : a.nameOf u = some s := by
  unfold idOf at h
  obtain ⟨hlt, hs, -⟩ := Array.findIdx?_eq_some_iff_getElem.mp h
  rw [nameOf, field_eq (Array.getElem?_eq_getElem hlt)]
  simpa using hs

theorem idOf_eq_none [DecidableEq S] {s : S} (h : a.idOf s = none) : a.nameOf u ≠ some s := by
  intro hu
  obtain ⟨n, hn⟩ := exists_node (lt_size_of_nameOf hu)
  rw [nameOf, field_eq hn] at hu
  unfold idOf at h
  have := Array.findIdx?_eq_none_iff.mp h n (Array.mem_of_getElem? hn)
  simp_all

/-! ## Writing -/

section
variable {β : Type} [Ord β] [Std.TransOrd β] [Std.LawfulEqOrd β] {s : FinSet β} {x y : β}
  {c : Prop} [Decidable c]

theorem nodup_toList : s.toList.Nodup := Std.ExtTreeSet.distinct_toList.imp fun h he =>
  h (by rw [he]; exact Std.ReflOrd.compare_self)

theorem mem_ite_insert : (x ∈ if c then s.insert y else s) ↔ x ∈ s ∨ c ∧ x = y := by
  split <;> simp [*, or_comm, eq_comm (a := x)]

theorem mem_ite_erase : (x ∈ if c then s.erase y else s) ↔ x ∈ s ∧ ¬(c ∧ x = y) := by
  split <;> simp [*, and_comm, eq_comm (a := x)]
end

/-- Changes a node. -/
def modifyNode (a : Arena S L) (u : Nat) (g : Node S L → Node S L) : Arena S L :=
  { a with nodes := a.nodes.modify u g }

/-- Changes a component. -/
def modifyComponent (a : Arena S L) (k : Nat) (g : Component → Component) : Arena S L :=
  { a with components := a.components.modify k g }

variable {g : Node S L → Node S L}

theorem updateNode_eq_ok (h : u < a.size) : a.updateNode u g = .ok (a.modifyNode u g) := by
  unfold updateNode modifyNode
  rw [dif_pos (show u < a.nodes.size from h)]
  congr 2
  apply Array.ext_getElem?
  intro i
  simp only [Array.getElem?_set, Array.getElem?_modify]
  split
  · next hi => subst hi; rw [Array.getElem?_eq_getElem h]; rfl
  · rfl

theorem updateComponent_eq_ok {g : Component → Component} (h : k < a.components.size) :
    a.updateComponent k g = .ok (a.modifyComponent k g) := by
  unfold updateComponent modifyComponent
  rw [dif_pos h]
  congr 2
  apply Array.ext_getElem?
  intro i
  simp only [Array.getElem?_set, Array.getElem?_modify]
  split
  · next hi => subst hi; rw [Array.getElem?_eq_getElem h]; rfl
  · rfl

@[simp] theorem size_modifyNode : (a.modifyNode u g).size = a.size := by
  simp [size, modifyNode]

@[simp] theorem components_modifyNode : (a.modifyNode u g).components = a.components := rfl

@[simp] theorem size_components_modifyComponent {g : Component → Component} :
    (a.modifyComponent k g).components.size = a.components.size := by
  simp [modifyComponent]

/-- A write that acts on a field as `G` does so at its id and nowhere else. -/
theorem field_modifyNode (G : α → α) (hG : ∀ n, f (g n) = G (f n)) (hv : v < a.size) :
    (a.modifyNode v g).field f d u = if u = v then G (a.field f d u) else a.field f d u := by
  unfold field modifyNode
  simp only [Array.getElem?_modify]
  by_cases h : u = v
  · subst h
    rw [Array.getElem?_eq_getElem hv]
    simp [hG]
  · rw [if_neg (Ne.symm h), if_neg h]

theorem field_modifyNode_same (h : ∀ n, f (g n) = f n) :
    (a.modifyNode v g).field f d u = a.field f d u := by
  unfold field modifyNode
  simp only [Array.getElem?_modify]
  split
  · cases a.nodes[u]? with
    | none => rfl
    | some n => exact h n
  · rfl

theorem part_modifyComponent {f : Component → α} {g : Component → Component} {i : Nat}
    (G : α → α) (hG : ∀ c, f (g c) = G (f c)) (hk : k < a.components.size) :
    (a.modifyComponent k g).part f d i = if i = k then G (a.part f d i) else a.part f d i := by
  unfold part modifyComponent
  simp only [Array.getElem?_modify]
  by_cases h : i = k
  · subst h
    rw [Array.getElem?_eq_getElem hk]
    simp [hG]
  · rw [if_neg (Ne.symm h), if_neg h]

theorem part_modifyComponent_same {f : Component → α} {g : Component → Component} {i : Nat}
    (h : ∀ c, f (g c) = f c) : (a.modifyComponent k g).part f d i = a.part f d i := by
  unfold part modifyComponent
  simp only [Array.getElem?_modify]
  split
  · cases a.components[i]? with
    | none => rfl
    | some c => exact h c
  · rfl

end NestedWords.Arena
