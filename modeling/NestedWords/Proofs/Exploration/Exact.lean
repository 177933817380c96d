import NestedWords.Proofs.Exploration.Run

/-!
# What a finished exploration has found

An arena that is `Complete` has exactly the states of the configurations that occur, and
under each exactly the stack tops with which it occurs (`Complete.nameOf_iff`,
`Complete.hasDown_iff`).

An arena knows no stacks. The two are related by `Chart.Carries u w`: the state `u` stands
on the stack `w` if the top of `w` is a stack top of `u`, and the caller that this is stands
on the rest. Every configuration that occurs is carried (`Complete.carries`): an edge within
a call keeps the stack (`Carries.edge`), a call puts its caller on top, and a return
follows the summary edge of the caller below.
-/

namespace NestedWords

variable {S L : Type} [Ord L]
  {op : Operand S L} {a : Arena S L}

namespace Chart

variable {c : Chart S L}

/-- `d` is the stack top `D` by its id. -/
def Tops (c : Chart S L) : Down Nat → Down S → Prop
  | .bottom, D => D = .bottom
  | .caller p, D => ∃ h, c.nameOf p = some h ∧ D = .caller h

/-- The callers on the stack are known, each as a stack top of the one above. -/
def Carries (c : Chart S L) : Nat → List S → Prop
  | u, [] => c.HasDown u .bottom
  | u, h :: w => ∃ p, c.nameOf p = some h ∧ c.HasDown u (.caller p) ∧ c.Carries p w

theorem Carries.edge (hspread : ∀ {d}, c.HasDown u d → c.HasDown v d) {w : List S}
    (h : c.Carries u w) : c.Carries v w := by
  cases w with
  | nil => exact hspread h
  | cons p w =>
    obtain ⟨i, hi, hd, hw⟩ := h
    exact ⟨i, hi, hspread hd, hw⟩

theorem Carries.top {u : Nat} {w : List S} (h : c.Carries u w) :
    ∃ d, c.Tops d (Down.ofStack w) ∧ c.HasDown u d := by
  cases w with
  | nil => exact ⟨.bottom, rfl, h⟩
  | cons p w =>
    obtain ⟨i, hi, hd, -⟩ := h
    exact ⟨.caller i, ⟨p, hi, rfl⟩, hd⟩

end Chart

variable [Std.TransOrd L]

namespace Complete

variable (ha : Complete op a)
include ha

theorem name_inj {u v : Nat} {s : S} (hu : a.chart.nameOf u = some s)
    (hv : a.chart.nameOf v = some s) : u = v := ha.wellFormed.name_inj hu hv

theorem tops_inj {d d' : Down Nat} {D : Down S} (hd : a.chart.Tops d D) (hd' : a.chart.Tops d' D) :
    d = d' := by
  cases d with
  | bottom =>
    cases hd
    cases d' with
    | bottom => rfl
    | caller p => obtain ⟨h, -, he⟩ := hd'; cases he
  | caller p =>
    obtain ⟨h, hp, rfl⟩ := hd
    cases d' with
    | bottom => cases hd'
    | caller p' =>
      obtain ⟨h', hp', he⟩ := hd'
      cases he
      rw [ha.name_inj hp hp']

/-- Every configuration that occurs has been found. -/
theorem carries {c : Configuration S} (hc : op.Occurs c) :
    ∃ u, a.chart.nameOf u = some c.state ∧ a.chart.Carries u c.stack := by
  refine Operand.Occurs.induction
    (P := fun c => ∃ u, a.chart.nameOf u = some c.state ∧ a.chart.Carries u c.stack)
    ha.started ?_ hc
  intro c x d _ h hs
  obtain ⟨u, hu, hw⟩ := h
  cases hs with
  | internal hl ht =>
    obtain ⟨s, hs, hall⟩ := ha.internals hu
    rw [hu] at hs
    cases hs
    obtain ⟨v, hv, he⟩ := hall _ hl _ ht
    exact ⟨v, hv, hw.edge (ha.spread (.inl ⟨_, he⟩))⟩
  | call hl ht =>
    obtain ⟨s, hs, hall⟩ := ha.calls hu
    rw [hu] at hs
    cases hs
    obtain ⟨v, hv, -, hentry, hdown⟩ := hall _ hl _ ht
    exact ⟨v, hv, u, hu, ⟨v, ha.homed hentry, hdown⟩, hw⟩
  | ret hl ht =>
    obtain ⟨p, hp, hd, hw⟩ := hw
    obtain ⟨s, h, hs, hh, hall⟩ := ha.returns hd
    rw [hu] at hs
    rw [hp] at hh
    cases hs; cases hh
    obtain ⟨v, hv, hr⟩ := hall _ hl _ ht
    exact ⟨v, hv, hw.edge (ha.spread (.inr ⟨_, _, ha.linked.summary.mp hr⟩))⟩

/-- The states that were found are those that occur. -/
theorem nameOf_iff {s : S} : (∃ u, a.chart.nameOf u = some s) ↔ ∃ w, op.Occurs ⟨s, w⟩ := by
  constructor
  · intro h
    obtain ⟨u, hu⟩ := h
    exact ha.sound.occurs hu
  · intro h
    obtain ⟨w, hw⟩ := h
    obtain ⟨u, hu, -⟩ := ha.carries hw
    exact ⟨u, hu⟩

/-- The stack tops of a state are those with which it occurs. -/
theorem hasDown_iff {u : Nat} {s : S} {d : Down Nat} {D : Down S} (hu : a.chart.nameOf u = some s)
    (hd : a.chart.Tops d D) :
    a.chart.HasDown u d ↔ ∃ w, Down.ofStack w = D ∧ op.Occurs ⟨s, w⟩ := by
  constructor
  · intro h
    cases d with
    | bottom =>
      cases hd
      exact ⟨[], rfl, ha.sound.occurs_bottom hu h⟩
    | caller p =>
      obtain ⟨r, hr, rfl⟩ := hd
      obtain ⟨w, hw⟩ := ha.sound.occurs_caller hu hr h
      exact ⟨r :: w, rfl, hw⟩
  · intro h
    obtain ⟨w, rfl, hw⟩ := h
    obtain ⟨v, hv, hcarries⟩ := ha.carries hw
    obtain ⟨d', hd', h⟩ := hcarries.top
    rw [ha.name_inj hu hv, ha.tops_inj hd hd']
    exact h

/-- A state that occurs with a stack top was found with it. -/
theorem exists_hasDown {s : S} {w : List S} (hw : op.Occurs ⟨s, w⟩) : ∃ u d,
    a.chart.nameOf u = some s ∧ a.chart.Tops d (Down.ofStack w) ∧ a.chart.HasDown u d := by
  obtain ⟨u, hu, hcarries⟩ := ha.carries hw
  obtain ⟨d, hd, h⟩ := hcarries.top
  exact ⟨u, d, hu, hd, h⟩

end Complete

end NestedWords
