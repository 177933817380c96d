import NestedWords.Lists
import Std.Data.ExtTreeSet
import Std.Data.ExtTreeMap

/-!
# Ordered finite sets and maps

Letters, ids and transitions are kept in sets and maps that list their elements in
ascending order and are equal when they have the same elements, whatever the order of
insertion. Pairs are ordered by their first component and then by their second.
-/
namespace NestedWords

attribute [instance] lexOrd

instance transOrdTriple {α β γ : Type} [Ord α] [Ord β] [Ord γ] [Std.TransOrd α] [Std.TransOrd β]
    [Std.TransOrd γ] : Std.TransOrd (α × β × γ) := inferInstance

instance transOrdQuadruple {α β γ δ : Type} [Ord α] [Ord β] [Ord γ] [Ord δ] [Std.TransOrd α]
    [Std.TransOrd β] [Std.TransOrd γ] [Std.TransOrd δ] : Std.TransOrd (α × β × γ × δ) :=
  inferInstance

/-- A finite set, listed in ascending order. -/
abbrev FinSet (α : Type) [Ord α] : Type := Std.ExtTreeSet α compare

/-- A finite map, listed by ascending key. -/
abbrev FinMap (α β : Type) [Ord α] : Type := Std.ExtTreeMap α β compare

namespace FinSet

variable {α : Type} [Ord α] [Std.TransOrd α]

/-- Every element of `s` is one of `t`. -/
def subset (s t : FinSet α) : Bool := s.toList.all t.contains

variable [Std.LawfulEqOrd α]

theorem subset_iff {s t : FinSet α} : s.subset t = true ↔ ∀ x ∈ s, x ∈ t := by
  simp [subset, List.all_eq_true, Std.ExtTreeSet.mem_toList]

end FinSet

end NestedWords
