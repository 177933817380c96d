import NestedWords.Proofs.Pairs
import Mathlib.Logic.Equiv.Defs

/-!
# Operands that differ in names and order

`Renames f g A B` says that `B` is `A` with its states renamed by `f` and its letters by `g`, as
far as sets go: neither the orders of names nor those of the lists need to agree, and lists may
repeat states differently. A run of the one is then a run of the other (`Renames.step`), and
all that is said in terms of runs is renamed along: what occurs (`Renames.occurs_iff`), which
pairs do (`Renames.paired_iff`) and are live (`Renames.pairLive_iff`), which state leads to which
within its call (`Renames.reaches_iff`) and what is entered under which stack top
(`Renames.entered_iff`). Each comes from one direction, as a renaming can be undone
(`Renames.symm`).
-/

namespace NestedWords

variable {S S' L L' : Type} [Ord L] [Ord L'] [Std.TransOrd L] [Std.TransOrd L']

@[simp] theorem Down.map_map {S'' : Type} (f : S → S') (f' : S' → S'') (d : Down S) :
    (d.map f).map f' = d.map (f' ∘ f) := by
  cases d <;> rfl

@[simp] theorem Down.map_id (d : Down S) : d.map id = d := by
  cases d <;> rfl

/-- A renaming reaches every stack top. -/
theorem Down.exists_map_iff (f : S ≃ S') {P : Down S' → Prop} :
    (∃ d, P d) ↔ ∃ d : Down S, P (d.map f) := by
  constructor
  · intro h
    obtain ⟨d, hd⟩ := h
    exact ⟨d.map f.symm, by simpa using hd⟩
  · intro h
    obtain ⟨d, hd⟩ := h
    exact ⟨d.map f, hd⟩

theorem Down.ofStack_map (f : S → S') (w : List S) : ofStack (w.map f) = (ofStack w).map f := by
  cases w <;> rfl

def Symbol.map (g : L → L') : Symbol L → Symbol L'
  | .internal l => .internal (g l)
  | .call l => .call (g l)
  | .ret l => .ret (g l)

def Configuration.map (f : S → S') (c : Configuration S) : Configuration S' :=
  ⟨f c.state, c.stack.map f⟩

namespace Operand

/-- The one state follows the other within its call, by an internal transition or by a return
to it that occurs. -/
def Follows (op : Operand S L) (s t : S) : Prop :=
  (∃ l ∈ op.internalLetters s, t ∈ op.internalSuccessors s l) ∨
    ∃ p, op.Paired (p, .caller s) ∧ ∃ l ∈ op.returnLetters p, t ∈ op.returnSuccessors p s l

/-- The state is initial, and entered under the empty stack, or called by a state that occurs. -/
def Entered (op : Operand S L) (s : S) : Down S → Prop
  | .bottom => s ∈ op.initial
  | .caller p => (∃ w, op.Occurs ⟨p, w⟩) ∧ ∃ l ∈ op.callLetters p, s ∈ op.callSuccessors p l

/-- The one operand is the other with names changed, whatever the order of its answers. What
would follow under a letter that a state does not offer is left open. -/
structure Renames (f : S ≃ S') (g : L ≃ L') (A : Operand S L) (B : Operand S' L') : Prop where
  initial : ∀ {s}, f s ∈ B.initial ↔ s ∈ A.initial
  isFinal : ∀ {s}, B.isFinal (f s) = A.isFinal s
  internalLetters : ∀ {s l}, g l ∈ B.internalLetters (f s) ↔ l ∈ A.internalLetters s
  callLetters : ∀ {s l}, g l ∈ B.callLetters (f s) ↔ l ∈ A.callLetters s
  returnLetters : ∀ {s l}, g l ∈ B.returnLetters (f s) ↔ l ∈ A.returnLetters s
  internalSuccessors : ∀ {s l t}, l ∈ A.internalLetters s →
    (f t ∈ B.internalSuccessors (f s) (g l) ↔ t ∈ A.internalSuccessors s l)
  callSuccessors : ∀ {s l t}, l ∈ A.callLetters s →
    (f t ∈ B.callSuccessors (f s) (g l) ↔ t ∈ A.callSuccessors s l)
  returnSuccessors : ∀ {s p l t}, l ∈ A.returnLetters s →
    (f t ∈ B.returnSuccessors (f s) (f p) (g l) ↔ t ∈ A.returnSuccessors s p l)

namespace Renames

variable {f : S ≃ S'} {g : L ≃ L'} {A : Operand S L} {B : Operand S' L'}

/-- A renaming can be undone. -/
theorem symm (h : Renames f g A B) : Renames f.symm g.symm B A where
  initial {s} := by rw [← h.initial, f.apply_symm_apply]
  isFinal {s} := by rw [← h.isFinal, f.apply_symm_apply]
  internalLetters {s l} := by rw [← h.internalLetters, f.apply_symm_apply, g.apply_symm_apply]
  callLetters {s l} := by rw [← h.callLetters, f.apply_symm_apply, g.apply_symm_apply]
  returnLetters {s l} := by rw [← h.returnLetters, f.apply_symm_apply, g.apply_symm_apply]
  internalSuccessors {s l t} hl := by
    have hl' : g.symm l ∈ A.internalLetters (f.symm s) := by
      rwa [← h.internalLetters, f.apply_symm_apply, g.apply_symm_apply]
    rw [← h.internalSuccessors hl', f.apply_symm_apply, f.apply_symm_apply, g.apply_symm_apply]
  callSuccessors {s l t} hl := by
    have hl' : g.symm l ∈ A.callLetters (f.symm s) := by
      rwa [← h.callLetters, f.apply_symm_apply, g.apply_symm_apply]
    rw [← h.callSuccessors hl', f.apply_symm_apply, f.apply_symm_apply, g.apply_symm_apply]
  returnSuccessors {s p l t} hl := by
    have hl' : g.symm l ∈ A.returnLetters (f.symm s) := by
      rwa [← h.returnLetters, f.apply_symm_apply, g.apply_symm_apply]
    rw [← h.returnSuccessors hl', f.apply_symm_apply, f.apply_symm_apply, f.apply_symm_apply,
      g.apply_symm_apply]

section
variable (h : Renames f g A B)
include h

theorem internal {s t : S} {l : L} (hl : l ∈ A.internalLetters s)
    (ht : t ∈ A.internalSuccessors s l) :
    g l ∈ B.internalLetters (f s) ∧ f t ∈ B.internalSuccessors (f s) (g l) :=
  ⟨h.internalLetters.mpr hl, (h.internalSuccessors hl).mpr ht⟩

theorem call {s t : S} {l : L} (hl : l ∈ A.callLetters s) (ht : t ∈ A.callSuccessors s l) :
    g l ∈ B.callLetters (f s) ∧ f t ∈ B.callSuccessors (f s) (g l) :=
  ⟨h.callLetters.mpr hl, (h.callSuccessors hl).mpr ht⟩

theorem ret {s p t : S} {l : L} (hl : l ∈ A.returnLetters s) (ht : t ∈ A.returnSuccessors s p l) :
    g l ∈ B.returnLetters (f s) ∧ f t ∈ B.returnSuccessors (f s) (f p) (g l) :=
  ⟨h.returnLetters.mpr hl, (h.returnSuccessors hl).mpr ht⟩

theorem step {c d : Configuration S} {x : Symbol L} (hs : A.Step c x d) :
    B.Step (c.map f) (x.map g) (d.map f) := by
  cases hs with
  | internal hl ht => exact .internal (h.internal hl ht).1 (h.internal hl ht).2
  | call hl ht => exact .call (h.call hl ht).1 (h.call hl ht).2
  | ret hl ht => exact .ret (h.ret hl ht).1 (h.ret hl ht).2

theorem occurs {c : Configuration S} (hc : A.Occurs c) : B.Occurs (c.map f) :=
  Occurs.induction (P := fun c => B.Occurs (c.map f))
    (fun _ hi => occurs_of_initial (h.initial.mpr hi)) (fun _ _ _ _ ho hs => ho.step (h.step hs)) hc

theorem paired {s : S} {d : Down S} (hp : A.Paired (s, d)) : B.Paired (f s, d.map f) := by
  obtain ⟨w, rfl, ho⟩ := hp
  exact ⟨w.map f, Down.ofStack_map f w, h.occurs ho⟩

theorem pairStep {x y : S × Down S} (hs : A.PairStep x y) :
    B.PairStep (f x.1, x.2.map f) (f y.1, y.2.map f) := by
  cases hs with
  | internal hl ht => exact .internal (h.internal hl ht).1 (h.internal hl ht).2
  | call hl ht => exact .call (h.call hl ht).1 (h.call hl ht).2
  | ret hl ht hp => exact .ret (h.ret hl ht).1 (h.ret hl ht).2 (h.paired hp)

theorem pairLive {s : S} {d : Down S} (hp : A.PairLive (s, d)) : B.PairLive (f s, d.map f) := by
  obtain ⟨hp, ⟨t, e⟩, hy, hf, hsteps⟩ := hp
  refine ⟨h.paired hp, (f t, e.map f), h.paired hy, h.isFinal.trans hf, ?_⟩
  exact hsteps.lift (fun x => (f x.1, x.2.map f)) fun _ _ => h.pairStep

theorem follows {s t : S} (hf : A.Follows s t) : B.Follows (f s) (f t) := by
  rcases hf with ⟨l, hl, ht⟩ | ⟨p, hp, l, hl, ht⟩
  · exact .inl ⟨g l, (h.internal hl ht).1, (h.internal hl ht).2⟩
  · exact .inr ⟨f p, h.paired hp, g l, (h.ret hl ht).1, (h.ret hl ht).2⟩

theorem entered {s : S} {d : Down S} (he : A.Entered s d) : B.Entered (f s) (d.map f) := by
  cases d with
  | bottom => exact h.initial.mpr he
  | caller p =>
    obtain ⟨⟨w, ho⟩, l, hl, hs⟩ := he
    exact ⟨⟨w.map f, h.occurs ho⟩, g l, (h.call hl hs).1, (h.call hl hs).2⟩
end

/-! ## Both ways -/

section
variable (h : Renames f g A B) {s t : S} {d : Down S}
include h

theorem occurs_iff : (∃ w, B.Occurs ⟨f s, w⟩) ↔ ∃ w, A.Occurs ⟨s, w⟩ := by
  constructor
  · rintro ⟨w, ho⟩
    exact ⟨w.map f.symm, by simpa [Configuration.map] using h.symm.occurs ho⟩
  · rintro ⟨w, ho⟩
    exact ⟨w.map f, h.occurs ho⟩

theorem paired_iff : B.Paired (f s, d.map f) ↔ A.Paired (s, d) :=
  ⟨fun hp => by simpa using h.symm.paired hp, h.paired⟩

theorem pairLive_iff : B.PairLive (f s, d.map f) ↔ A.PairLive (s, d) :=
  ⟨fun hp => by simpa using h.symm.pairLive hp, h.pairLive⟩

theorem entered_iff : B.Entered (f s) (d.map f) ↔ A.Entered s d :=
  ⟨fun he => by simpa using h.symm.entered he, h.entered⟩

/-- What a state leads to within its call. -/
theorem reaches_iff :
    Relation.ReflTransGen B.Follows (f s) (f t) ↔ Relation.ReflTransGen A.Follows s t :=
  ⟨fun hr => by simpa [Function.onFun] using hr.lift f.symm fun _ _ => h.symm.follows,
    fun hr => hr.lift f fun _ _ => h.follows⟩
end

end Renames

end Operand

end NestedWords
