import NestedWords.Table
import NestedWords.Proofs.Lists

/-!
# What a table holds

A row behaves like the set of its elements: `LawfulRow` says what each operation does to them, for
sets and for tables of any depth. Its order of listing is that of the tuples.

A table may hold more than its elements, namely keys without any. A filled one does not, and filled
is what insertion makes of a filled one. So the keys of a filled table are those of its elements
(`mem_keys_iff`), filled tables with the same elements are equal (`LawfulRow.ext`), and the rows can
be told from the list alone (`runs_toList`).
-/
namespace NestedWords

theorem FinSet.mem_insert {α : Type} [Ord α] [Std.TransOrd α] [Std.LawfulEqOrd α] {s : FinSet α}
    {x y : α} : x ∈ s.insert y ↔ x ∈ s ∨ x = y := by
  rw [Std.ExtTreeSet.mem_insert, Std.compare_eq_iff_eq, or_comm, eq_comm (a := y)]

/-- The operations treat a row as the set of its elements, and keep it filled. -/
class LawfulRow (ρ : Type) {α : outParam Type} [Ord α] [Row ρ α] [Membership α ρ] : Prop where
  not_mem_empty (x : α) : x ∉ (Row.empty : ρ)
  mem_insert {r : ρ} {x y : α} : x ∈ Row.insert r y ↔ x ∈ r ∨ x = y
  mem_toList {r : ρ} {x : α} : x ∈ Row.toList r ↔ x ∈ r
  ascending_toList (r : ρ) : Ascending (Row.toList r)
  length_toList (r : ρ) : (Row.toList r).length = Row.size r
  filled_empty : Row.Filled (Row.empty : ρ)
  filled_insert {r : ρ} {x : α} (h : Row.Filled r) : Row.Filled (Row.insert r x)
  ext {r r' : ρ} (h : Row.Filled r) (h' : Row.Filled r') (he : ∀ x, x ∈ r ↔ x ∈ r') : r = r'

instance {α : Type} [Ord α] [Std.TransOrd α] [Std.LawfulEqOrd α] : LawfulRow (FinSet α) where
  not_mem_empty _ := Std.ExtTreeSet.not_mem_empty
  mem_insert := FinSet.mem_insert
  mem_toList := Std.ExtTreeSet.mem_toList
  ascending_toList _ := Std.ExtTreeSet.ordered_toList
  length_toList _ := Std.ExtTreeSet.length_toList
  filled_empty := trivial
  filled_insert _ := trivial
  ext _ _ := Std.ExtTreeSet.ext_mem

section
variable {ρ α : Type} [Ord α] [Row ρ α] [Membership α ρ] [LawfulRow ρ] {r : ρ} {x : α}

theorem Row.insert_ne_empty : Row.insert r x ≠ Row.empty := fun h =>
  LawfulRow.not_mem_empty x (h ▸ LawfulRow.mem_insert.mpr (.inr rfl))

theorem Row.exists_mem (h : Row.Filled r) (hr : r ≠ Row.empty) : ∃ x, x ∈ r := by
  apply Classical.byContradiction
  intro hnone
  refine hr (LawfulRow.ext h LawfulRow.filled_empty fun x => iff_of_false ?_ ?_)
  · exact fun hx => hnone ⟨x, hx⟩
  · exact LawfulRow.not_mem_empty x
end

namespace Table

variable {κ ρ α : Type} [Ord κ] [Std.TransOrd κ] [Row ρ α] {t t' : Table κ ρ} {k k' : κ} {r : ρ}
  {x : α} {e : κ × α}

theorem row_of_getElem? (h : t.rows[k]? = some r) : t.row k = r := by
  rw [row, Std.ExtTreeMap.getD_eq_getD_getElem?, h]
  rfl

theorem row_of_none (h : t.rows[k]? = none) : t.row k = Row.empty := by
  rw [row, Std.ExtTreeMap.getD_eq_getD_getElem?, h]
  rfl

theorem row_insert : (t.insert (k, x)).row k' =
    if compare k k' = .eq then Row.insert (t.row k) x else t.row k' := by
  simp only [row, insert, Std.ExtTreeMap.getD_insert]

theorem filled_empty : Row.Filled (∅ : Table κ ρ) := by
  intro k r hr
  have hnone : (∅ : FinMap κ ρ)[k]? = none := Std.ExtTreeMap.getElem?_empty
  cases hnone.symm.trans hr

section
variable [Ord α] [Membership α ρ] [LawfulRow ρ]

@[simp] theorem not_mem_empty (e : κ × α) : e ∉ (∅ : Table κ ρ) := by
  intro h
  have hrow : (∅ : Table κ ρ).row e.1 = Row.empty := row_of_none Std.ExtTreeMap.getElem?_empty
  have he : e.2 ∈ (∅ : Table κ ρ).row e.1 := h
  rw [hrow] at he
  exact LawfulRow.not_mem_empty e.2 he

/-- An element has a row. -/
theorem getElem?_of_mem (h : (k, x) ∈ t) : t.rows[k]? = some (t.row k) := by
  cases hr : t.rows[k]? with
  | none =>
    have hx : x ∈ t.row k := h
    rw [row_of_none hr] at hx
    exact absurd hx (LawfulRow.not_mem_empty x)
  | some r => rw [row_of_getElem? hr]

theorem mem_iff : (k, x) ∈ t ↔ ∃ r, t.rows[k]? = some r ∧ x ∈ r := by
  constructor
  · exact fun h => ⟨_, getElem?_of_mem h, h⟩
  · intro h
    obtain ⟨r, hr, hx⟩ := h
    show x ∈ t.row k
    rwa [row_of_getElem? hr]

theorem length_toList (t : Table κ ρ) : t.toList.length = t.size :=
  (total_eq_length_flatMap _ fun (k, r) _ => by
    rw [List.length_map, LawfulRow.length_toList]).symm

/-- A row is filled, be there such a key or not. -/
theorem filled_row (h : Row.Filled t) (k : κ) : Row.Filled (t.row k) := by
  cases hr : t.rows[k]? with
  | none => exact row_of_none hr ▸ LawfulRow.filled_empty
  | some r => exact row_of_getElem? hr ▸ (h k r hr).2

theorem filled_insert (h : Row.Filled t) : Row.Filled (t.insert e) := by
  intro k r hr
  rw [insert, Std.ExtTreeMap.getElem?_insert] at hr
  split at hr
  · cases hr
    exact ⟨Row.insert_ne_empty, LawfulRow.filled_insert (filled_row h e.1)⟩
  · exact h k r hr
end

variable [Std.LawfulEqOrd κ]

theorem mem_keys : k ∈ t.keys ↔ ∃ r, t.rows[k]? = some r := by
  rw [keys, Std.ExtTreeMap.mem_keys, Std.ExtTreeMap.mem_iff_isSome_getElem?,
    Option.isSome_iff_exists]

/-! ## Elements -/

variable [Ord α] [Membership α ρ] [LawfulRow ρ]

theorem mem_toList : e ∈ t.toList ↔ e ∈ t := by
  obtain ⟨k, x⟩ := e
  simp only [toList, List.mem_flatMap, List.mem_map, Prod.exists, Prod.mk.injEq, mem_iff,
    Std.ExtTreeMap.mem_toList_iff_getElem?_eq_some]
  constructor
  · intro h
    obtain ⟨k', r, hr, x', hx, rfl, rfl⟩ := h
    exact ⟨r, hr, LawfulRow.mem_toList.mp hx⟩
  · intro h
    obtain ⟨r, hr, hx⟩ := h
    exact ⟨k, r, hr, x, LawfulRow.mem_toList.mpr hx, rfl, rfl⟩

theorem mem_insert {e' : κ × α} : e ∈ t.insert e' ↔ e ∈ t ∨ e = e' := by
  obtain ⟨k, x⟩ := e
  obtain ⟨k', x'⟩ := e'
  show x ∈ (t.insert (k', x')).row k ↔ x ∈ t.row k ∨ _
  rw [row_insert]
  split
  · next hk =>
    obtain rfl := Std.LawfulEqOrd.eq_of_compare hk
    rw [LawfulRow.mem_insert]
    simp
  · next hk =>
    refine (or_iff_left fun he => hk ?_).symm
    rw [(Prod.mk.inj he).1, Std.ReflOrd.compare_self]

/-- By keys, and under one key as the row lists them. -/
theorem ascending_toList (t : Table κ ρ) : Ascending t.toList := by
  refine List.pairwise_flatMap.mpr ⟨fun (k, r) _ => ?_, ?_⟩
  · refine List.pairwise_map.mpr ((LawfulRow.ascending_toList r).imp fun {x y} hlt => ?_)
    rwa [compare_mk_left]
  · refine Std.ExtTreeMap.ordered_keys_toList.imp ?_
    intro (k, r) (k', r') hlt e he e' he'
    obtain ⟨x, -, rfl⟩ := List.mem_map.mp he
    obtain ⟨x', -, rfl⟩ := List.mem_map.mp he'
    rw [compare_mk, hlt]
    rfl

theorem nodup_toList [Std.TransOrd α] (t : Table κ ρ) : t.toList.Nodup :=
  (ascending_toList t).nodup

/-! ## Filled tables -/

/-- In a filled table no key is without an element. -/
theorem mem_keys_iff (h : Row.Filled t) : k ∈ t.keys ↔ ∃ x, (k, x) ∈ t := by
  rw [mem_keys]
  constructor
  · intro hk
    obtain ⟨r, hr⟩ := hk
    obtain ⟨x, hx⟩ := Row.exists_mem (h k r hr).2 (h k r hr).1
    exact ⟨x, mem_iff.mpr ⟨r, hr, hx⟩⟩
  · intro hk
    obtain ⟨x, hx⟩ := hk
    exact ⟨_, getElem?_of_mem hx⟩

/-- Filled tables with the same elements have the same keys, and equal rows under each. -/
theorem ext_mem (h : Row.Filled t) (h' : Row.Filled t') (he : ∀ e, e ∈ t ↔ e ∈ t') : t = t' := by
  have hrow : ∀ k, t.row k = t'.row k := fun k =>
    LawfulRow.ext (filled_row h k) (filled_row h' k) fun x => he (k, x)
  have hkeys : ∀ k, k ∈ t.keys ↔ k ∈ t'.keys := fun k => by
    simp only [mem_keys_iff h, mem_keys_iff h', he]
  have hrows : t.rows = t'.rows := by
    refine Std.ExtTreeMap.ext_getElem? fun k => ?_
    cases hr : t.rows[k]? with
    | none =>
      symm
      refine Option.eq_none_iff_forall_ne_some.mpr fun r hr' => ?_
      obtain ⟨r', hr'⟩ := mem_keys.mp ((hkeys k).mpr (mem_keys.mpr ⟨r, hr'⟩))
      cases hr.symm.trans hr'
    | some r =>
      obtain ⟨r', hr'⟩ := mem_keys.mp ((hkeys k).mp (mem_keys.mpr ⟨r, hr⟩))
      rw [hr', ← row_of_getElem? hr, ← row_of_getElem? hr', hrow]
  cases t
  cases t'
  exact congrArg Table.mk hrows

/-- The list tells the rows apart. -/
theorem runs_toList [DecidableEq κ] (h : Row.Filled t) :
    runs t.toList = t.rows.toList.map fun (k, r) => (k, Row.toList r) := by
  have hflat : t.toList = (t.rows.toList.map fun (k, r) => (k, Row.toList r)).flatMap
      fun g => g.2.map (g.1, ·) := by
    rw [List.flatMap_map]
    rfl
  rw [hflat]
  refine runs_flatMap (fun g hg => ?_) ?_
  · obtain ⟨⟨k, r⟩, hr, rfl⟩ := List.mem_map.mp hg
    obtain ⟨hne, hr⟩ := h k r (Std.ExtTreeMap.mem_toList_iff_getElem?_eq_some.mp hr)
    obtain ⟨x, hx⟩ := Row.exists_mem hr hne
    exact List.ne_nil_of_mem (LawfulRow.mem_toList.mpr hx)
  · have hkeys : t.rows.keys.Nodup :=
      Std.ExtTreeMap.distinct_keys.imp fun hne he => hne (Std.compare_eq_iff_eq.mpr he)
    rw [← Std.ExtTreeMap.map_fst_toList_eq_keys] at hkeys
    rw [List.map_map]
    exact hkeys

instance : LawfulRow (Table κ ρ) where
  not_mem_empty := not_mem_empty
  mem_insert := mem_insert
  mem_toList := mem_toList
  ascending_toList := ascending_toList
  length_toList := length_toList
  filled_empty := filled_empty
  filled_insert := filled_insert
  ext := ext_mem

end Table

end NestedWords
