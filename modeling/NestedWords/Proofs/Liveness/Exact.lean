import NestedWords.Proofs.Exploration.Exact
import NestedWords.Proofs.Liveness.Saturation
import NestedWords.Proofs.Pairs

/-!
# What the marks mean

On a complete arena, `Chart.Precedes` and `PairStep` say the same of ids and of names. Each
step of pairs is one of the first three rules (`Complete.precedes_of_pairStep`). The fourth,
from a return to its hierarchical predecessor, is no step, but a call that has returned:
many steps (`Complete.pairSteps_of_precedes`). So a double-decker can finish if and only if
it stands for a live pair (`Complete.finishes_iff`).
-/

namespace NestedWords.Complete

open Relation

variable {S L : Type} [Ord L] [Std.TransOrd L]
  {op : Operand S L} {a : Arena S L}

/-- The double-decker stands for the pair. -/
def Denotes (a : Arena S L) (p : DoubleDecker) (x : S × Down S) : Prop :=
  a.chart.nameOf p.1 = some x.1 ∧ a.chart.Tops p.2 x.2

variable (ha : Complete op a)
include ha

theorem paired_iff {p : DoubleDecker} {x : S × Down S} (h : Denotes a p x) :
    a.chart.HasDown p.1 p.2 ↔ op.Paired x := ha.hasDown_iff h.1 h.2

/-- Every stack top of a state has a name. -/
theorem exists_tops {u : Nat} {d : Down Nat} (h : a.chart.HasDown u d) : ∃ D, a.chart.Tops d D := by
  cases d with
  | bottom => exact ⟨_, rfl⟩
  | caller p =>
    obtain ⟨r, hr⟩ := ha.sound.caller_nameOf h
    exact ⟨_, r, hr, rfl⟩

theorem exists_denotes {x : S × Down S} (hx : op.Paired x) :
    ∃ p, Denotes a p x ∧ a.chart.HasDown p.1 p.2 := by
  obtain ⟨w, hw, ho⟩ := hx
  obtain ⟨u, d, hu, hd, h⟩ := ha.exists_hasDown ho
  exact ⟨(u, d), ⟨hu, hw ▸ hd⟩, h⟩

/-- A step of pairs is a rule. -/
theorem precedes_of_pairStep {p : DoubleDecker} {x y : S × Down S} (hp : Denotes a p x)
    (hd : a.chart.HasDown p.1 p.2) (h : op.PairStep x y) :
    ∃ q, Denotes a q y ∧ a.chart.Precedes p q := by
  obtain ⟨u, d⟩ := p
  obtain ⟨hu, htops⟩ := hp
  dsimp only at hu hd htops
  cases h with
  | internal hl ht =>
    obtain ⟨s, hs, hall⟩ := ha.internals hu
    rw [hu] at hs
    cases hs
    obtain ⟨v, hv, he⟩ := hall _ hl _ ht
    exact ⟨(v, d), ⟨hv, htops⟩, .internal (ha.linked.internal.mp he) hd⟩
  | call hl ht =>
    obtain ⟨s, hs, hall⟩ := ha.calls hu
    rw [hu] at hs
    cases hs
    obtain ⟨v, hv, he, -⟩ := hall _ hl _ ht
    exact ⟨(v, .caller u), ⟨hv, _, hu, rfl⟩, .call (ha.linked.call.mp he) hd⟩
  | ret hl ht hpaired =>
    cases d with
    | bottom => cases htops
    | caller k =>
      obtain ⟨h, hk, he⟩ := htops
      cases he
      obtain ⟨s, r, hs, hr, hall⟩ := ha.returns hd
      rw [hu] at hs
      rw [hk] at hr
      cases hs; cases hr
      obtain ⟨v, hv, hret⟩ := hall _ hl _ ht
      obtain ⟨⟨k', e⟩, ⟨hk', he⟩, hdown⟩ := ha.exists_denotes hpaired
      cases ha.name_inj hk hk'
      exact ⟨(v, e), ⟨hv, he⟩, .ret (ha.linked.ret.mp hret) hdown⟩

/-- A rule is a sequence of steps of pairs. -/
theorem pairSteps_of_precedes {p q : DoubleDecker} {x : S × Down S} (hp : Denotes a p x)
    (h : a.chart.Precedes p q) : ∃ y, Denotes a q y ∧ ReflTransGen op.PairStep x y := by
  obtain ⟨s, D⟩ := x
  obtain ⟨hu, htops⟩ := hp
  cases h with
  | internal hin hd =>
    obtain ⟨s', t, hs, ht, hl, hsucc⟩ := ha.sound.internal (ha.linked.internal.mpr hin)
    cases hu.symm.trans hs
    exact ⟨(t, D), ⟨ht, htops⟩, .single (.internal hl hsucc)⟩
  | call hin hd =>
    obtain ⟨s', t, hs, ht, hl, hsucc⟩ := ha.sound.call (ha.linked.call.mpr hin)
    cases hu.symm.trans hs
    exact ⟨(t, .caller s), ⟨ht, s, hu, rfl⟩, .single (.call hl hsucc)⟩
  | ret hin hd =>
    obtain ⟨s', r, t, hs, hr, ht, hl, hsucc⟩ := ha.sound.ret (ha.linked.ret.mpr hin)
    cases hu.symm.trans hs
    obtain ⟨h, hh, rfl⟩ := htops
    cases hh.symm.trans hr
    obtain ⟨E, hE⟩ := ha.exists_tops hd
    exact ⟨(t, E), ⟨ht, hE⟩, .single (.ret hl hsucc ((ha.hasDown_iff hr hE).mp hd))⟩
  | summary hin hd =>
    -- the call that has returned is a run from its caller
    have hret := ha.linked.ret.mpr hin
    obtain ⟨s', r, t, hs, hr, ht, hl, hsucc⟩ := ha.sound.ret hret
    cases hu.symm.trans hr
    obtain ⟨r', s'', hr', hs', hunder⟩ := ha.sound.under_of_hasDown (ha.sound.below hret)
    cases hr.symm.trans hr'
    cases hs.symm.trans hs'
    obtain ⟨w, rfl, ho⟩ := (ha.paired_iff ⟨hu, htops⟩).mp hd
    obtain ⟨xs, hrun⟩ := (hunder.ret hl hsucc) w
    exact ⟨(t, Down.ofStack w), ⟨ht, htops⟩, hrun.pairSteps ho⟩

theorem pairSteps_of_precedesAll {p q : DoubleDecker} {x : S × Down S} (hp : Denotes a p x)
    (h : ReflTransGen a.chart.Precedes p q) :
    ∃ y, Denotes a q y ∧ ReflTransGen op.PairStep x y := by
  induction h with
  | refl => exact ⟨x, hp, .refl⟩
  | tail _ hs ih =>
    obtain ⟨y, hy, hxy⟩ := ih
    obtain ⟨z, hz, hyz⟩ := ha.pairSteps_of_precedes hy hs
    exact ⟨z, hz, hxy.trans hyz⟩

/-- The double-deckers that can finish are the live pairs. -/
theorem finishes_iff {p : DoubleDecker} {x : S × Down S} (hp : Denotes a p x) :
    a.chart.Finishes p ↔ op.PairLive x := by
  constructor
  · intro hfinishes
    have hpaired := (ha.paired_iff hp).mp (hfinishes.hasDown ha.linked ha.sound)
    obtain ⟨q, hpq, hf, hd⟩ := hfinishes
    obtain ⟨y, hy, hxy⟩ := ha.pairSteps_of_precedesAll hp hpq
    rw [ha.sound.isFinal hy.1] at hf
    exact ⟨hpaired, y, (ha.paired_iff hy).mp hd, hf, hxy⟩
  · intro h
    obtain ⟨hx, y, hy, hf, hxy⟩ := h
    induction hxy using ReflTransGen.head_induction_on generalizing p with
    | refl =>
      rw [← ha.sound.isFinal hp.1] at hf
      exact ⟨p, .refl, hf, (ha.paired_iff hp).mpr hy⟩
    | head hs _ ih =>
      obtain ⟨q, hq, hpq⟩ := ha.precedes_of_pairStep hp ((ha.paired_iff hp).mpr hx) hs
      exact .of_precedes hpq (ih hq (hs.paired hx))

end NestedWords.Complete
