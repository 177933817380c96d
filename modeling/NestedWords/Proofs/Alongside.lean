import NestedWords.Proofs.Yields
import NestedWords.Order

/-!
# Two computations alongside each other

`Alongside R r s` says that two computations that both end well do so in related values.

The two need not do the same. `AgreeBut idle xs ys` says that two lists differ only in idle
elements, which either may have anywhere; it is what remains of equality when one computation
works through more than the other, none of which matters. If an idle element moves neither
computation away from the other, loops over such lists end alongside each other
(`AgreeBut.foldlM`). Finite sets that agree on what is not idle are listed so
(`agreeBut_toList`).
-/
namespace NestedWords

variable {ε α β γ δ : Type}

section
variable {R : α → β → Prop} {T : γ → δ → Prop}

/-- If both computations end without a fault, their values are related. -/
def Alongside (R : α → β → Prop) (r : Except ε α) (s : Except ε β) : Prop :=
  ∀ v w, r = .ok v → s = .ok w → R v w

theorem alongside_ok {v : α} {w : β} (h : R v w) :
    Alongside R (.ok v : Except ε α) (.ok w : Except ε β) := by
  intro v' w' hv hw
  cases hv
  cases hw
  exact h

theorem alongside_eq (r : Except ε α) : Alongside Eq r r := by
  intro v w hv hw
  exact Except.ok.inj (hv.symm.trans hw)

theorem Alongside.bind {r : Except ε α} {s : Except ε β} {f : α → Except ε γ} {g : β → Except ε δ}
    (h : Alongside R r s) (hf : ∀ v w, R v w → Alongside T (f v) (g w)) :
    Alongside T (r >>= f) (s >>= g) := by
  intro v w hv hw
  obtain ⟨v', hv', hv⟩ := bind_eq_ok hv
  obtain ⟨w', hw', hw⟩ := bind_eq_ok hw
  exact hf v' w' (h v' w' hv' hw') v w hv hw

/-- What is compared with a value is related to it. -/
theorem Alongside.ensures {r : Except ε α} {w : β} (h : Alongside R r (.ok w : Except ε β)) :
    Ensures r (R · w) :=
  fun v hv => h v w hv rfl

theorem alongside_ite {c d : Prop} [Decidable c] [Decidable d] {r r' : Except ε α}
    {s s' : Except ε β} (hcd : c ↔ d) (ht : c → Alongside R r s) (hf : ¬ c → Alongside R r' s') :
    Alongside R (if c then r else r') (if d then s else s') := by
  by_cases hc : c
  · rw [if_pos hc, if_pos (hcd.mp hc)]
    exact ht hc
  · rw [if_neg hc, if_neg (mt hcd.mpr hc)]
    exact hf hc

end

/-! ## Lists with idle elements -/

/-- The lists differ in idle elements only. -/
inductive AgreeBut (idle : α → Prop) : List α → List α → Prop
  | nil : AgreeBut idle [] []
  | both {a : α} {xs ys : List α} (h : AgreeBut idle xs ys) : AgreeBut idle (a :: xs) (a :: ys)
  | left {a : α} {xs ys : List α} (ha : idle a) (h : AgreeBut idle xs ys) :
    AgreeBut idle (a :: xs) ys
  | right {a : α} {xs ys : List α} (ha : idle a) (h : AgreeBut idle xs ys) :
    AgreeBut idle xs (a :: ys)

namespace AgreeBut

variable {idle idle' : α → Prop} {xs ys xs' ys' : List α}

theorem refl : ∀ xs : List α, AgreeBut idle xs xs
  | [] => .nil
  | _ :: xs => .both (refl xs)

theorem symm (h : AgreeBut idle xs ys) : AgreeBut idle ys xs := by
  induction h with
  | nil => exact .nil
  | both _ ih => exact .both ih
  | left ha _ ih => exact .right ha ih
  | right ha _ ih => exact .left ha ih

theorem mono (h : AgreeBut idle xs ys) (himp : ∀ a, idle a → idle' a) : AgreeBut idle' xs ys := by
  induction h with
  | nil => exact .nil
  | both _ ih => exact .both ih
  | left ha _ ih => exact .left (himp _ ha) ih
  | right ha _ ih => exact .right (himp _ ha) ih

theorem append (h : AgreeBut idle xs ys) (h' : AgreeBut idle xs' ys') :
    AgreeBut idle (xs ++ xs') (ys ++ ys') := by
  induction h with
  | nil => exact h'
  | both _ ih => exact .both ih
  | left ha _ ih => exact .left ha ih
  | right ha _ ih => exact .right ha ih

theorem of_idle (hxs : ∀ a ∈ xs, idle a) (hys : ∀ a ∈ ys, idle a) : AgreeBut idle xs ys := by
  induction xs with
  | cons a xs ih => exact .left (hxs a (by simp)) (ih fun b hb => hxs b (by simp [hb]))
  | nil =>
    induction ys with
    | nil => exact .nil
    | cons a ys ih => exact .right (hys a (by simp)) (ih fun b hb => hys b (by simp [hb]))

theorem filter (h : AgreeBut idle xs ys) (p : α → Bool) :
    AgreeBut idle (xs.filter p) (ys.filter p) := by
  induction h with
  | nil => exact .nil
  | @both a _ _ _ ih =>
    rw [List.filter_cons, List.filter_cons]
    split
    · exact .both ih
    · exact ih
  | left ha _ ih =>
    rw [List.filter_cons]
    split
    · exact .left ha ih
    · exact ih
  | right ha _ ih =>
    rw [List.filter_cons]
    split
    · exact .right ha ih
    · exact ih

theorem filterM {f : α → Except ε Bool} (h : AgreeBut idle xs ys) :
    Alongside (AgreeBut idle) (xs.filterM f) (ys.filterM f) := by
  intro v w hv hw
  rw [filterM_eq_ok hv, filterM_eq_ok hw]
  exact h.filter _

/-- Loops that idle elements do not move end alongside each other. -/
theorem foldlM {R : β → γ → Prop} {f : β → α → Except ε β} {g : γ → α → Except ε γ} {x : β} {y : γ}
    (h : AgreeBut idle xs ys) (both : ∀ a ∈ ys, ∀ x y, R x y → Alongside R (f x a) (g y a))
    (left : ∀ a x y, idle a → R x y → Ensures (f x a) (R · y))
    (right : ∀ a x y, idle a → R x y → Ensures (g y a) (R x ·)) (hxy : R x y) :
    Alongside R (xs.foldlM f x) (ys.foldlM g y) := by
  induction h generalizing x y with
  | nil => exact alongside_ok hxy
  | @both a xs ys _ ih =>
    rw [List.foldlM_cons, List.foldlM_cons]
    exact (both a (by simp) x y hxy).bind fun x' y' h =>
      ih (fun b hb => both b (by simp [hb])) h
  | @left a xs ys ha _ ih =>
    rw [List.foldlM_cons]
    intro v w hv hw
    obtain ⟨x', hx', hv⟩ := bind_eq_ok hv
    exact ih both (left a x y ha hxy x' hx') v w hv hw
  | @right a xs ys ha _ ih =>
    rw [List.foldlM_cons]
    intro v w hv hw
    obtain ⟨y', hy', hw⟩ := bind_eq_ok hw
    exact ih (fun b hb => both b (by simp [hb])) (right a x y ha hxy y' hy') v w hv hw

/-- A loop over idle elements only goes nowhere. -/
theorem ensures_foldlM {R : β → γ → Prop} {f : β → α → Except ε β} {x : β} {y : γ}
    (hidle : ∀ a ∈ xs, idle a) (left : ∀ a x y, idle a → R x y → Ensures (f x a) (R · y))
    (hxy : R x y) : Ensures (xs.foldlM f x) (R · y) := by
  have h : AgreeBut idle xs [] := .of_idle hidle (by simp)
  have hstay := h.foldlM (g := fun y _ => .ok y) (by simp) left (fun _ _ _ _ h => ensures_ok h) hxy
  exact hstay.ensures

end AgreeBut

/-- Loops over the same list, each of whose steps end alongside each other. -/
theorem alongside_foldlM {R : β → γ → Prop} {f : β → α → Except ε β} {g : γ → α → Except ε γ}
    {x : β} {y : γ} {l : List α} (step : ∀ a x y, R x y → Alongside R (f x a) (g y a))
    (hxy : R x y) : Alongside R (l.foldlM f x) (l.foldlM g y) := by
  have hsame : AgreeBut (fun _ => False) l l := .refl l
  exact hsame.foldlM (fun a _ => step a) (fun _ _ _ h => h.elim) (fun _ _ _ h => h.elim) hxy

/-- Ascending lists with the same elements, but for idle ones. -/
theorem agreeBut_of_sorted [Ord α] [Std.TransOrd α] [Std.LawfulEqOrd α] {idle : α → Prop}
    {xs ys : List α} (hxs : xs.Pairwise (compare · · = .lt)) (hys : ys.Pairwise (compare · · = .lt))
    (h : ∀ a, ¬ idle a → (a ∈ xs ↔ a ∈ ys)) : AgreeBut idle xs ys := by
  have hirrefl : ∀ a b : α, compare a b = .lt → a ≠ b := fun a b hab he =>
    by rw [he, Std.compare_self] at hab; cases hab
  induction xs generalizing ys with
  | nil =>
    exact .of_idle (by simp) fun b hb =>
      Classical.byContradiction fun hi => by simpa [hb] using h b hi
  | cons a xs ih =>
    obtain ⟨ha, hxs'⟩ := List.pairwise_cons.mp hxs
    induction ys with
    | nil =>
      exact .of_idle (fun b hb => Classical.byContradiction fun hi => by simpa [hb] using h b hi)
        (by simp)
    | cons b ys ihy =>
      obtain ⟨hb, hys'⟩ := List.pairwise_cons.mp hys
      -- the smaller of the two heads is missing in the other list
      cases hab : compare a b with
      | lt =>
        have hnot : a ∉ b :: ys := fun hmem => by
          rcases List.mem_cons.mp hmem with rfl | hmem
          · exact hirrefl _ _ hab rfl
          · exact hirrefl _ _ (Std.TransCmp.lt_trans hab (hb a hmem)) rfl
        have hidle : idle a := Classical.byContradiction fun hi => hnot ((h a hi).mp (by simp))
        refine .left hidle (ih hxs' hys fun c hc => ?_)
        rw [← h c hc, List.mem_cons, or_iff_right]
        exact fun he => hc (he ▸ hidle)
      | eq =>
        obtain rfl := Std.LawfulEqOrd.eq_of_compare hab
        refine .both (ih hxs' hys' fun c hc => ?_)
        have hmem := h c hc
        rw [List.mem_cons, List.mem_cons] at hmem
        by_cases hca : c = a
        · subst hca
          exact iff_of_false (fun hm => hirrefl _ _ (ha c hm) rfl)
            fun hm => hirrefl _ _ (hb c hm) rfl
        · simpa [hca] using hmem
      | gt =>
        have hba : compare b a = .lt := Std.OrientedCmp.lt_of_gt hab
        have hnot : b ∉ a :: xs := fun hmem => by
          rcases List.mem_cons.mp hmem with rfl | hmem
          · exact hirrefl _ _ hba rfl
          · exact hirrefl _ _ (Std.TransCmp.lt_trans hba (ha b hmem)) rfl
        have hidle : idle b := Classical.byContradiction fun hi => hnot ((h b hi).mpr (by simp))
        refine .right hidle (ihy hys' fun c hc => ?_)
        rw [h c hc, List.mem_cons, or_iff_right]
        exact fun he => hc (he ▸ hidle)

/-- Sets that agree on what is not idle are listed alike. -/
theorem agreeBut_toList [Ord α] [Std.TransOrd α] [Std.LawfulEqOrd α] {idle : α → Prop}
    {s t : FinSet α} (h : ∀ a, ¬ idle a → (a ∈ s ↔ a ∈ t)) : AgreeBut idle s.toList t.toList :=
  agreeBut_of_sorted Std.ExtTreeSet.ordered_toList Std.ExtTreeSet.ordered_toList fun a ha => by
    rw [Std.ExtTreeSet.mem_toList, Std.ExtTreeSet.mem_toList]
    exact h a ha

end NestedWords
