import NestedWords.Order

/-!
# Ascending lists and groups

A set is listed in ascending order, and such a list is known by its elements (`Ascending.eq`). Of a
list of pairs `runs` makes groups of those that have the same key and stand together. If the list
was put together from groups with elements, no two neighbours of which have the same key, it takes
it apart into these again (`runs_flatMap`).
-/
namespace NestedWords

/-- The sizes of lists together are the length of the lists one after another. -/
theorem total_eq_length_flatMap {α β : Type} (f : α → List β) {size : α → Nat} {l : List α}
    (h : ∀ a ∈ l, size a = (f a).length) : total size l = (l.flatMap f).length := by
  induction l with
  | nil => rfl
  | cons a l ih =>
    rw [total, List.flatMap_cons, List.length_append, h a (by simp),
      ih fun b hb => h b (by simp [hb])]

/-! ## Groups -/

section
variable {κ α : Type} [DecidableEq κ]

/-- A group in front of others, of which the first has another key. -/
theorem runs_append {k : κ} {as : List α} {l : List (κ × α)} (has : as ≠ [])
    (hl : ∀ g ∈ (runs l).head?, g.1 ≠ k) : runs (as.map (k, ·) ++ l) = (k, as) :: runs l := by
  induction as with
  | nil => exact absurd rfl has
  | cons a as ih =>
    rw [List.map_cons, List.cons_append, runs]
    cases as with
    | nil =>
      cases hr : runs l with
      | nil => simp [hr]
      | cons g more =>
        have hne : k ≠ g.1 := fun he => hl g (by simp [hr]) he.symm
        simp [hr, hne]
    | cons b as =>
      rw [ih (by simp)]
      simp

/-- Groups with elements that have one key each are found again. -/
theorem runs_flatMap {groups : List (κ × List α)} (hne : ∀ g ∈ groups, g.2 ≠ [])
    (hkeys : (groups.map (·.1)).Nodup) :
    runs (groups.flatMap fun g => g.2.map (g.1, ·)) = groups := by
  induction groups with
  | nil => rfl
  | cons g groups ih =>
    obtain ⟨hfirst, hkeys⟩ := List.nodup_cons.mp hkeys
    have hrest := ih (fun g hg => hne g (by simp [hg])) hkeys
    rw [List.flatMap_cons, runs_append (hne g (by simp)), hrest]
    intro g' hg' he
    rw [hrest] at hg'
    exact hfirst (List.mem_map.mpr ⟨g', List.mem_of_mem_head? hg', he⟩)
end

/-! ## Ascending lists -/

/-- In ascending order, and so without repetition. -/
def Ascending {α : Type} [Ord α] (l : List α) : Prop := l.Pairwise fun x y => compare x y = .lt

namespace Ascending

variable {α β : Type} [Ord α] [Ord β]

theorem nodup [Std.ReflOrd α] {l : List α} (hl : Ascending l) : l.Nodup :=
  hl.imp fun {x y} hxy he => by
    subst he
    rw [Std.ReflOrd.compare_self] at hxy
    cases hxy

/-- An ascending list is determined by its elements. -/
theorem eq [Std.TransOrd α] {l l' : List α} (hl : Ascending l) (hl' : Ascending l')
    (h : ∀ x, x ∈ l ↔ x ∈ l') : l = l' := by
  refine List.Perm.eq_of_pairwise (fun x y _ _ hxy hyx => ?_) hl hl'
    ((List.perm_ext_iff_of_nodup hl.nodup hl'.nodup).mpr h)
  exact absurd hyx (Std.OrientedCmp.not_lt_of_lt hxy)

end Ascending

/-! ## Ascending lists of pairs -/

section
variable {κ α : Type} [Ord κ] [Ord α]

theorem compare_mk (k k' : κ) (a a' : α) :
    compare (k, a) (k', a') = (compare k k').then (compare a a') := rfl

theorem compare_mk_left [Std.ReflOrd κ] (k : κ) (a a' : α) :
    compare (k, a) (k, a') = compare a a' := by
  rw [compare_mk, Std.ReflOrd.compare_self]
  rfl
end

end NestedWords
