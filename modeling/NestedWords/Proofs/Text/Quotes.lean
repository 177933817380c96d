import Mathlib.Data.List.Infix

/-!
# Texts that can be told from what follows

A text between double quotes is read up to a double quote that has one of a few characters after
it. This finds the right one if none of the text's own does (`Unbroken`), and then the text and what
follows it are determined (`Unbroken.append_inj`). The same is said of texts with a separator
(`append_cons_inj`), and of texts one after another, each in a line of its own (`lines_inj`): if
each can be told from what follows, so can all of them.
-/
namespace NestedWords.Text

variable {α : Type}

/-! ## Up to a mark -/

/-- What comes before the first mark is determined. -/
theorem append_cons_inj {m : α} {s s' r r' : List α} (hs : m ∉ s) (hs' : m ∉ s')
    (h : s ++ m :: r = s' ++ m :: r') : s = s' ∧ r = r' := by
  rcases List.append_eq_append_iff.mp h with ⟨u, rfl, hu⟩ | ⟨u, rfl, hu⟩
  all_goals
    cases u with
    | nil => simpa [eq_comm] using hu
    | cons c u =>
      obtain ⟨rfl, -⟩ := List.cons.inj hu
      simp at hs hs'

/-- What comes after the last mark is determined. -/
theorem append_cons_inj_right {m : α} {s s' r r' : List α} (hr : m ∉ r) (hr' : m ∉ r')
    (h : s ++ m :: r = s' ++ m :: r') : s = s' ∧ r = r' := by
  have hreverse : r.reverse ++ m :: s.reverse = r'.reverse ++ m :: s'.reverse := by
    simpa using congrArg List.reverse h
  obtain ⟨hrr, hss⟩ := append_cons_inj (by simpa using hr) (by simpa using hr') hreverse
  exact ⟨List.reverse_inj.mp hss, List.reverse_inj.mp hrr⟩

/-- No double quote in the text has one of the characters after it. -/
def Unbroken (stops : List Char) (s : List Char) : Prop := ∀ c ∈ stops, ¬ ['"', c] <:+: s

instance (stops s : List Char) : Decidable (Unbroken stops s) := List.decidableBAll _ _

namespace Unbroken

variable {stops s s' u r r' : List Char} {c c' : Char}

/-- A text cannot go on after a double quote at which it could end. -/
theorem eq_nil (hstops : '"' ∉ stops) (hs : Unbroken stops (s ++ u)) (hc : c ∈ stops)
    (h : '"' :: c :: r = u ++ '"' :: r') : u = [] := by
  cases u with
  | nil => rfl
  | cons x u =>
    obtain ⟨rfl, hrest⟩ := List.cons.inj h
    cases u with
    | nil =>
      obtain ⟨rfl, -⟩ := List.cons.inj hrest
      exact absurd hc hstops
    | cons y u =>
      obtain ⟨rfl, -⟩ := List.cons.inj hrest
      exact absurd ⟨s, u, by simp⟩ (hs c hc)

/-- A text between double quotes is determined by what is written. -/
theorem append_inj (hstops : '"' ∉ stops) (hs : Unbroken stops s) (hs' : Unbroken stops s')
    (hc : c ∈ stops) (hc' : c' ∈ stops) (h : s ++ '"' :: c :: r = s' ++ '"' :: c' :: r') :
    s = s' ∧ c :: r = c' :: r' := by
  rcases List.append_eq_append_iff.mp h with ⟨u, rfl, hu⟩ | ⟨u, rfl, hu⟩
  · obtain rfl := eq_nil hstops hs' hc hu
    simpa using hu
  · obtain rfl := eq_nil hstops hs hc' hu
    simpa [eq_comm] using hu

end Unbroken

/-! ## Line by line -/

/-- The texts in lines; if there is none, an empty line. -/
def lines (ls : List (List Char)) : List Char := ['\n'].intercalate ls ++ ['\n']

theorem lines_eq_flatMap {ls : List (List Char)} (h : ls ≠ []) :
    lines ls = ls.flatMap (· ++ ['\n']) := by
  induction ls with
  | nil => exact absurd rfl h
  | cons l ls ih =>
    cases ls with
    | nil => simp [lines]
    | cons l' ls =>
      rw [List.flatMap_cons, ← ih (by simp), lines, List.intercalate_cons_cons, lines]
      simp

/-- Lines begin with the first of them. -/
theorem lines_append (ls : List (List Char)) (e : List Char) :
    lines ls ++ e = '\n' :: e ∨ ∃ l ∈ ls, ∃ r, lines ls ++ e = l ++ '\n' :: r := by
  cases ls with
  | nil => exact .inl rfl
  | cons l ls =>
    refine .inr ⟨l, by simp, ls.flatMap (· ++ ['\n']) ++ e, ?_⟩
    rw [lines_eq_flatMap (List.cons_ne_nil l ls)]
    simp

section
variable {f : α → List Char} {l l' : List α} {e e' : List Char}
  (hf : ∀ x ∈ l, ∀ y ∈ l', ∀ r r', f x ++ '\n' :: r = f y ++ '\n' :: r' → x = y ∧ r = r')
  (he : ∀ y ∈ l', ∀ r, e ≠ f y ++ '\n' :: r) (he' : ∀ x ∈ l, ∀ r, e' ≠ f x ++ '\n' :: r)
include hf he he'

theorem flatMap_lines_inj
    (h : (l.map f).flatMap (· ++ ['\n']) ++ e = (l'.map f).flatMap (· ++ ['\n']) ++ e') :
    l = l' ∧ e = e' := by
  induction l generalizing l' with
  | nil =>
    cases l' with
    | nil => exact ⟨rfl, by simpa using h⟩
    | cons y l' => exact absurd (by simpa using h) (he y (by simp) _)
  | cons x l ih =>
    cases l' with
    | nil => exact absurd (by simpa using h.symm) (he' x (by simp) _)
    | cons y l' =>
      obtain ⟨rfl, hrest⟩ := hf x (by simp) y (by simp) _ _ (by simpa using h)
      obtain ⟨rfl, rfl⟩ := ih
        (fun x hx y hy => hf x (by simp [hx]) y (by simp [hy]))
        (fun y hy => he y (by simp [hy])) (fun x hx => he' x (by simp [hx])) hrest
      exact ⟨rfl, rfl⟩

/-- Lines that can be told from each other and from what follows are determined. None of them is
empty, so an empty line says that there is none. -/
theorem lines_inj (hne : ∀ x r r', f x ++ r ≠ '\n' :: r')
    (h : lines (l.map f) ++ e = lines (l'.map f) ++ e') : l = l' ∧ e = e' := by
  cases l with
  | nil =>
    cases l' with
    | nil => exact ⟨rfl, by simpa [lines] using h⟩
    | cons y l' =>
      rw [List.map_cons, lines_eq_flatMap (List.cons_ne_nil _ _)] at h
      exact absurd (by simpa [lines] using h.symm) (hne y _ _)
  | cons x l =>
    cases l' with
    | nil =>
      rw [List.map_cons, lines_eq_flatMap (List.cons_ne_nil _ _)] at h
      exact absurd (by simpa [lines] using h) (hne x _ _)
    | cons y l' =>
      rw [lines_eq_flatMap (by simp), lines_eq_flatMap (by simp)] at h
      exact flatMap_lines_inj hf he he' h
end

end NestedWords.Text
