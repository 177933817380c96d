import NestedWords.Proofs.Arena.View

/-!
# The bookkeeping of an arena

An arena keeps the same facts in several places: a node names its component and is listed
among its members, a component has the stack tops of its entries, and two indices lead from
entries to components. `WellFormed` says that all places agree. An operation that writes
none of them leaves an arena `Alike`, and so keeps it.

Borders are a matter apart, as they lag behind while states move. `Bordered E` says that they
are right for a relation `E` between states: between steps the edges within a call, and in the
middle of a step those that the borders know of already.
-/
namespace NestedWords.Arena

variable {S L : Type} [Ord L] {a b : Arena S L}

/-- All places of an arena that hold the same fact agree. -/
structure WellFormed (a : Arena S L) : Prop where
  name_inj : ∀ {u v s}, a.nameOf u = some s → a.nameOf v = some s → u = v
  home_lt : ∀ {u k}, a.home u = some k → k < a.components.size
  mem_members : ∀ {k u}, u ∈ a.membersIn k ↔ a.home u = some k
  mem_candidates : ∀ {k u}, u ∈ a.candidatesIn k ↔ a.home u = some k ∧ a.candidate u = true
  mem_downs : ∀ {k d}, d ∈ a.downsIn k ↔ ∃ e ∈ a.entriesIn k, d ∈ a.entryDowns e
  isEntry : ∀ {k e}, e ∈ a.entriesIn k → e ∈ a.entries
  /-- Nothing is known to be live before liveness is computed. -/
  entryMark : ∀ {e d m}, a.entryMark e d = some m → m = .reachable
  byEntries : ∀ {l k},
    a.componentByEntries[l]? = some k ↔ k < a.components.size ∧ (a.entriesIn k).toList = l
  ofEntry : ∀ {e k}, k ∈ a.componentsOfEntry.getD e ∅ ↔ e ∈ a.entriesIn k

/-- In the component of `u` the border lists what the edges `E` lead to from `u` elsewhere, and
does not mention `u` if this is nothing. -/
structure Exact (a : Arena S L) (E : Nat → Nat → Prop) (u : Nat) : Prop where
  mem : ∀ {k v}, a.home u = some k → (v ∈ a.borderOf k u ↔ E u v ∧ a.home v ≠ some k)
  nonempty : ∀ {k}, a.home u = some k → (a.borderIn k)[u]? ≠ some ∅

/-- Borders mention members only. -/
def Resident (a : Arena S L) : Prop := ∀ {k u}, u ∈ a.borderIn k → a.home u = some k

/-- The borders are right for the edges `E`. -/
structure Bordered (a : Arena S L) (E : Nat → Nat → Prop) : Prop where
  exact : ∀ u, a.Exact E u
  resident : a.Resident

/-- A border that is exact for the edges `E` maps members to what they reach elsewhere. -/
theorem Bordered.getElem?_borderIn {E : Nat → Nat → Prop} {k u : Nat} {F : FinSet Nat}
    (ha : a.Bordered E) :
    (a.borderIn k)[u]? = some F ↔
      a.home u = some k ∧ F ≠ ∅ ∧ ∀ v, v ∈ F ↔ E u v ∧ a.home v ≠ some k := by
  constructor
  · intro h
    have hk : a.home u = some k :=
      ha.resident (Std.ExtTreeMap.mem_iff_isSome_getElem?.mpr (by simp [h]))
    refine ⟨hk, fun hF => (ha.exact u).nonempty hk (hF ▸ h), fun v => ?_⟩
    rw [← (ha.exact u).mem hk, borderOf, Std.ExtTreeMap.getD_eq_getD_getElem?, h, Option.getD_some]
  · rintro ⟨hk, hF, hmem⟩
    have hsame : a.borderOf k u = F :=
      Std.ExtTreeSet.ext_mem fun v => ((ha.exact u).mem hk).trans (hmem v).symm
    rw [borderOf, Std.ExtTreeMap.getD_eq_getD_getElem?] at hsame
    cases h : (a.borderIn k)[u]? with
    | none => rw [h] at hsame; exact absurd hsame.symm hF
    | some G => rw [h] at hsame; exact congrArg some hsame

/-- What is exact stays so while the states keep their components, and the state its border. -/
theorem Exact.congr {E : Nat → Nat → Prop} {u : Nat} (ha : a.Exact E u)
    (hhome : ∀ v, b.home v = a.home v)
    (hborder : ∀ {k}, a.home u = some k → (b.borderIn k)[u]? = (a.borderIn k)[u]?) :
    b.Exact E u where
  mem hk := by
    rw [hhome] at hk ⊢
    rw [borderOf, Std.ExtTreeMap.getD_eq_getD_getElem?, hborder hk,
      ← Std.ExtTreeMap.getD_eq_getD_getElem?]
    exact ha.mem hk
  nonempty hk := by
    rw [hhome] at hk
    rw [hborder hk]
    exact ha.nonempty hk

/-- Two arenas in which the states are in the same components, with the same borders. -/
structure SameBorders (a b : Arena S L) : Prop where
  home : ∀ u, b.home u = a.home u
  borderIn : ∀ k, b.borderIn k = a.borderIn k

namespace SameBorders

theorem trans {c : Arena S L} (h : SameBorders a b) (h' : SameBorders b c) : SameBorders a c :=
  ⟨fun u => (h'.home u).trans (h.home u), fun k => (h'.borderIn k).trans (h.borderIn k)⟩

theorem bordered {E : Nat → Nat → Prop} (h : SameBorders a b) (ha : a.Bordered E) :
    b.Bordered E where
  exact u := (ha.exact u).congr h.home fun _ => by rw [h.borderIn]
  resident hu := by
    rw [h.borderIn] at hu
    rw [h.home]
    exact ha.resident hu

end SameBorders

/-- Two arenas with the same bookkeeping. -/
structure Alike (a b : Arena S L) : Prop where
  size : b.size = a.size
  nameOf : ∀ u, b.nameOf u = a.nameOf u
  home : ∀ u, b.home u = a.home u
  candidate : ∀ u, b.candidate u = a.candidate u
  entries : b.entries = a.entries
  components : b.components.size = a.components.size
  entriesIn : ∀ k, b.entriesIn k = a.entriesIn k
  downsIn : ∀ k, b.downsIn k = a.downsIn k
  membersIn : ∀ k, b.membersIn k = a.membersIn k
  candidatesIn : ∀ k, b.candidatesIn k = a.candidatesIn k
  byEntries : b.componentByEntries = a.componentByEntries
  ofEntry : b.componentsOfEntry = a.componentsOfEntry

namespace Alike

theorem refl (a : Arena S L) : Alike a a :=
  ⟨rfl, fun _ => rfl, fun _ => rfl, fun _ => rfl, rfl, rfl, fun _ => rfl, fun _ => rfl,
    fun _ => rfl, fun _ => rfl, rfl, rfl⟩

theorem trans {c : Arena S L} (h : Alike a b) (h' : Alike b c) : Alike a c where
  size := h'.size.trans h.size
  nameOf u := (h'.nameOf u).trans (h.nameOf u)
  home u := (h'.home u).trans (h.home u)
  candidate u := (h'.candidate u).trans (h.candidate u)
  entries := h'.entries.trans h.entries
  components := h'.components.trans h.components
  entriesIn k := (h'.entriesIn k).trans (h.entriesIn k)
  downsIn k := (h'.downsIn k).trans (h.downsIn k)
  membersIn k := (h'.membersIn k).trans (h.membersIn k)
  candidatesIn k := (h'.candidatesIn k).trans (h.candidatesIn k)
  byEntries := h'.byEntries.trans h.byEntries
  ofEntry := h'.ofEntry.trans h.ofEntry

theorem wellFormed (h : Alike a b) (ha : a.WellFormed) : b.WellFormed where
  name_inj {u v s} hu hv := by
    rw [h.nameOf] at hu hv
    exact ha.name_inj hu hv
  home_lt {u k} hk := by
    rw [h.home] at hk
    rw [h.components]
    exact ha.home_lt hk
  mem_members := by intro k u; rw [h.membersIn, h.home]; exact ha.mem_members
  mem_candidates := by
    intro k u; rw [h.candidatesIn, h.home, h.candidate]; exact ha.mem_candidates
  mem_downs := by
    intro k d
    simp only [h.downsIn, h.entriesIn, Arena.entryDowns, h.entries]
    exact ha.mem_downs
  isEntry {k e} he := by
    rw [h.entriesIn] at he
    rw [h.entries]
    exact ha.isEntry he
  entryMark := by simp only [Arena.entryMark, Arena.entryDowns, h.entries]; exact ha.entryMark
  byEntries := by intro l k; rw [h.byEntries, h.components, h.entriesIn]; exact ha.byEntries
  ofEntry := by intro e k; rw [h.ofEntry, h.entriesIn]; exact ha.ofEntry

theorem hasEntry (h : Alike a b) {u e : Nat} : b.HasEntry u e ↔ a.HasEntry u e := by
  simp only [HasEntry, h.home, h.entriesIn]

end Alike

/-- A write to a node that keeps its name, component and flag leaves the bookkeeping alone. -/
theorem alike_modifyNode {u : Nat} {g : Node S L → Node S L} (hn : ∀ n, (g n).name = n.name)
    (hc : ∀ n, (g n).component = n.component) (hf : ∀ n, (g n).candidate = n.candidate) :
    Alike a (a.modifyNode u g) where
  size := size_modifyNode
  nameOf _ := field_modifyNode_same fun n => by rw [hn]
  home _ := field_modifyNode_same fun n => by rw [hc]
  candidate _ := field_modifyNode_same hf
  entries := rfl
  components := rfl
  entriesIn _ := rfl
  downsIn _ := rfl
  membersIn _ := rfl
  candidatesIn _ := rfl
  byEntries := rfl
  ofEntry := rfl

/-- Borders are no part of the bookkeeping. -/
theorem alike_border {k : Nat} {g : FinMap Nat (FinSet Nat) → FinMap Nat (FinSet Nat)} :
    Alike a (a.modifyComponent k fun c => { c with border := g c.border }) where
  size := rfl
  nameOf _ := rfl
  home _ := rfl
  candidate _ := rfl
  entries := rfl
  components := size_components_modifyComponent
  entriesIn _ := part_modifyComponent_same fun _ => rfl
  downsIn _ := part_modifyComponent_same fun _ => rfl
  membersIn _ := part_modifyComponent_same fun _ => rfl
  candidatesIn _ := part_modifyComponent_same fun _ => rfl
  byEntries := rfl
  ofEntry := rfl

namespace WellFormed

variable (ha : a.WellFormed)
include ha

/-- The stack tops of a state are those of its entries. -/
theorem hasDown_iff {u : Nat} {d : Down Nat} :
    a.HasDown u d ↔ ∃ e, a.HasEntry u e ∧ d ∈ a.entryDowns e := by
  constructor
  · intro h
    obtain ⟨k, hk, hd⟩ := h
    obtain ⟨e, he, hd⟩ := ha.mem_downs.mp hd
    exact ⟨e, ⟨k, hk, he⟩, hd⟩
  · intro h
    obtain ⟨e, ⟨k, hk, he⟩, hd⟩ := h
    exact ⟨k, hk, ha.mem_downs.mpr ⟨e, he, hd⟩⟩

theorem mem_members_iff {k u : Nat} {c : Component} (hc : a.components[k]? = some c) :
    u ∈ c.members ↔ a.home u = some k := by
  have hmembers : a.membersIn k = c.members := part_eq hc
  rw [← hmembers, ha.mem_members]

/-- A set of entries has at most one component. -/
theorem component_unique {i j : Nat} (hi : i < a.components.size) (hj : j < a.components.size)
    (h : a.entriesIn i = a.entriesIn j) : i = j := by
  have hindex := ha.byEntries.mpr ⟨hi, rfl⟩
  rw [h, ha.byEntries.mpr ⟨hj, rfl⟩] at hindex
  exact (Option.some.inj hindex).symm

theorem componentOf_eq {u : Nat} (hu : u < a.size) :
    ∃ k c, a.home u = some k ∧ a.components[k]? = some c := by
  obtain ⟨k, hk⟩ := exists_home hu
  obtain ⟨c, hc⟩ := exists_component (ha.home_lt hk)
  exact ⟨k, c, hk, hc⟩

end WellFormed

end NestedWords.Arena
