import Mathlib.Logic.Relation
import NestedWords.Proofs.Arena.View

/-!
# What a region contains

`depthFirst` lists, without repetition, exactly the unvisited states that it comes to from
its stack: those on the stack, and with a state all its unvisited successors
(`depthFirst_stack`, `depthFirst_closed`), and no others (`depthFirst_minimal`). For a
region this reads: its states are the residents of the component that the target reaches
inside of it, and an edge that leaves the region leaves the component
(`region_closed`).
-/
namespace NestedWords

variable {next : Nat → List Nat} {unvisited stack : List Nat} {u v : Nat}

theorem depthFirst_subset (h : u ∈ depthFirst next unvisited stack) : u ∈ unvisited := by
  fun_induction depthFirst next unvisited stack with
  | case1 => simp at h
  | case2 unvisited w stack hw ih =>
    rcases List.mem_cons.mp h with rfl | h
    · exact hw
    · exact List.mem_of_mem_erase (ih h)
  | case3 unvisited w stack hw ih => exact ih h

theorem depthFirst_nodup (hu : unvisited.Nodup) : (depthFirst next unvisited stack).Nodup := by
  fun_induction depthFirst next unvisited stack with
  | case1 => exact List.nodup_nil
  | case2 unvisited w stack hw ih =>
    refine List.nodup_cons.mpr ⟨fun h => ?_, ih (hu.erase w)⟩
    exact hu.not_mem_erase (depthFirst_subset h)
  | case3 unvisited w stack hw ih => exact ih hu

theorem depthFirst_stack (hs : u ∈ stack) (hu : u ∈ unvisited) :
    u ∈ depthFirst next unvisited stack := by
  fun_induction depthFirst next unvisited stack with
  | case1 => simp at hs
  | case2 unvisited w stack hw ih =>
    by_cases h : u = w
    · subst h; exact List.mem_cons_self
    · refine List.mem_cons_of_mem _ (ih ?_ ((List.mem_erase_of_ne h).mpr hu))
      rcases List.mem_cons.mp hs with rfl | hs
      · exact absurd rfl h
      · exact List.mem_append_right _ hs
  | case3 unvisited w stack hw ih =>
    rcases List.mem_cons.mp hs with rfl | hs
    · exact absurd hu hw
    · exact ih hs hu

theorem depthFirst_closed (h : u ∈ depthFirst next unvisited stack) (hv : v ∈ next u)
    (hu : v ∈ unvisited) : v ∈ depthFirst next unvisited stack := by
  fun_induction depthFirst next unvisited stack with
  | case1 => simp at h
  | case2 unvisited w stack hw ih =>
    by_cases hvw : v = w
    · subst hvw; exact List.mem_cons_self
    · have hv' : v ∈ unvisited.erase w := (List.mem_erase_of_ne hvw).mpr hu
      refine List.mem_cons_of_mem _ ?_
      rcases List.mem_cons.mp h with rfl | h
      · -- the successors of the state just listed are on the stack of the rest of the walk
        exact depthFirst_stack (by simp [hv, hv']) hv'
      · exact ih h hv'
  | case3 unvisited w stack hw ih => exact ih h hu

/-- What holds on the stack and spreads along the unvisited states holds of all listed. -/
theorem depthFirst_minimal {P : Nat → Prop} (hs : ∀ s ∈ stack, s ∈ unvisited → P s)
    (step : ∀ u v, u ∈ unvisited → v ∈ unvisited → P u → v ∈ next u → P v)
    (h : u ∈ depthFirst next unvisited stack) : P u := by
  fun_induction depthFirst next unvisited stack with
  | case1 => simp at h
  | case2 unvisited w stack hw ih =>
    have hPw := hs w List.mem_cons_self hw
    rcases List.mem_cons.mp h with rfl | h
    · exact hPw
    · refine ih ?_ ?_ h
      · intro s hmem hsu
        have hsu' := List.mem_of_mem_erase hsu
        rcases List.mem_append.mp hmem with hmem | hmem
        · exact step w s hw hsu' hPw (List.mem_filter.mp (List.mem_reverse.mp hmem)).1
        · exact hs s (List.mem_cons_of_mem _ hmem) hsu'
      · exact fun u v hu hv =>
          step u v (List.mem_of_mem_erase hu) (List.mem_of_mem_erase hv)
  | case3 unvisited w stack hw ih =>
    exact ih (fun s hmem => hs s (List.mem_cons_of_mem _ hmem)) step h

namespace Arena

variable {S L : Type} [Ord L] {a : Arena S L} {c target : Nat}

theorem mem_residents : u ∈ a.residents c ↔ a.home u = some c := by
  unfold residents
  rw [List.mem_filter, List.mem_range]
  constructor
  · intro h
    obtain ⟨hu, h⟩ := h
    obtain ⟨n, hn⟩ := exists_node hu
    rw [home, field_eq hn]
    simpa [hn] using h
  · intro h
    have hu := lt_size_of_home h
    obtain ⟨n, hn⟩ := exists_node hu
    rw [home, field_eq hn] at h
    simpa [hn, hu] using h

variable [Std.TransOrd L]

theorem region_nodup : (a.region c target).Nodup :=
  depthFirst_nodup (List.nodup_range.filter _)

theorem home_of_mem_region (h : u ∈ a.region c target) : a.home u = some c :=
  mem_residents.mp (depthFirst_subset h)

theorem mem_region_self (h : a.home target = some c) : target ∈ a.region c target :=
  depthFirst_stack List.mem_cons_self (mem_residents.mpr h)

/-- An edge out of the region leads to another component. -/
theorem region_closed (h : u ∈ a.region c target) (hv : v ∈ a.successorsWithin u)
    (hc : a.home v = some c) : v ∈ a.region c target :=
  depthFirst_closed h hv (mem_residents.mpr hc)

/-- What spreads along the edges inside the component from the target on holds throughout
the region. -/
theorem region_minimal {P : Nat → Prop} (ht : P target)
    (step : ∀ u v, a.home u = some c → a.home v = some c → P u → v ∈ a.successorsWithin u → P v)
    (h : u ∈ a.region c target) : P u := by
  refine depthFirst_minimal ?_ ?_ h
  · intro s hs _
    simp only [List.mem_singleton] at hs
    exact hs ▸ ht
  · exact fun u v hu hv => step u v (mem_residents.mp hu) (mem_residents.mp hv)

/-- An edge within a call that does not leave the component. -/
def Inner (a : Arena S L) (c u v : Nat) : Prop :=
  a.home u = some c ∧ a.home v = some c ∧ v ∈ a.successorsWithin u

theorem mem_region_iff (ht : a.home target = some c) :
    u ∈ a.region c target ↔ Relation.ReflTransGen (a.Inner c) target u := by
  constructor
  · exact region_minimal .refl fun v w hv hw hreach hsucc => hreach.tail ⟨hv, hw, hsucc⟩
  · intro h
    induction h with
    | refl => exact mem_region_self ht
    | tail _ hinner ih => exact region_closed ih hinner.2.2 hinner.2.1

end Arena

end NestedWords
