import NestedWords.Configuration

/-!
# Runs of a call

A run that does not touch the stack it began with runs on every stack. `Within p q` says
that some run goes from `p` to `q` on the same stack, whatever that is: by internal steps,
and by calls that have returned. `Under p q` says that a call made in `p` goes on to `q`
while it is pending. Neither mentions a stack, so both can be told of a pair of states
alone; they are what the edges and the stack tops of an arena stand for.

`Occurs.induction` is induction along the runs from the initial states. It gives
`Occurs.caller`: a pending call was made in a configuration that occurs.
-/
namespace NestedWords.Operand

variable {S L : Type} [Ord L] [Std.TransOrd L] {op : Operand S L}

/-- Some run leads from `p` to `q` and ends on the stack it began with, whatever that is. -/
def Within (op : Operand S L) (p q : S) : Prop := ∀ w, op.Leads ⟨p, w⟩ ⟨q, w⟩

/-- Some call made in `p` leads to `q` while it is pending. -/
def Under (op : Operand S L) (p q : S) : Prop := ∀ w, op.Leads ⟨p, w⟩ ⟨q, p :: w⟩

theorem Within.refl (p : S) : op.Within p p := fun _ => .refl _

theorem Within.trans {p q r : S} (h : op.Within p q) (h' : op.Within q r) : op.Within p r :=
  fun w => (h w).trans (h' w)

theorem Under.trans {p q r : S} (h : op.Under p q) (h' : op.Within q r) : op.Under p r :=
  fun w => (h w).trans (h' _)

theorem within_of_internal {p q : S} {a : L} (ha : a ∈ op.internalLetters p)
    (hq : q ∈ op.internalSuccessors p a) : op.Within p q := fun _ => (Step.internal ha hq).leads

theorem under_of_call {p q : S} {a : L} (ha : a ∈ op.callLetters p)
    (hq : q ∈ op.callSuccessors p a) : op.Under p q := fun _ => (Step.call ha hq).leads

/-- A call that has returned is a run on the stack of its caller. -/
theorem Under.ret {h p q : S} {a : L} (hp : op.Under h p) (ha : a ∈ op.returnLetters p)
    (hq : q ∈ op.returnSuccessors p h a) : op.Within h q :=
  fun w => (hp w).trans (Step.ret ha hq).leads

theorem Occurs.within {p q : S} {w : List S} (h : op.Occurs ⟨p, w⟩) (hpq : op.Within p q) :
    op.Occurs ⟨q, w⟩ := h.leads (hpq w)

theorem Occurs.under {p q : S} {w : List S} (h : op.Occurs ⟨p, w⟩) (hpq : op.Under p q) :
    op.Occurs ⟨q, p :: w⟩ := h.leads (hpq w)

theorem occurs_of_initial {i : S} (hi : i ∈ op.initial) : op.Occurs ⟨i, []⟩ := ⟨i, hi, .refl _⟩

theorem Occurs.step {c d : Configuration S} {x : Symbol L} (h : op.Occurs c)
    (hs : op.Step c x d) : op.Occurs d := h.leads hs.leads

/-- What holds of the initial states and is kept by every step from an occurring
configuration holds of all that occur. -/
theorem Occurs.induction {P : Configuration S → Prop} (start : ∀ i ∈ op.initial, P ⟨i, []⟩)
    (step : ∀ c x d, op.Occurs c → P c → op.Step c x d → P d) {c : Configuration S}
    (h : op.Occurs c) : P c := by
  obtain ⟨i, hi, xs, hr⟩ := h
  have key : ∀ {c d xs}, op.Run c xs d → op.Occurs c → P c → P d := by
    intro c d xs hr
    induction hr with
    | nil c => exact fun _ hP => hP
    | cons hs _ ih => exact fun ho hP => ih (ho.step hs) (step _ _ _ ho hP hs)
  exact key hr (occurs_of_initial hi) (start i hi)

/-- Every pending call was made in a configuration that occurs. -/
theorem Occurs.caller {c : Configuration S} (hc : op.Occurs c) :
    ∀ {h w}, (h :: w) <:+ c.stack → op.Occurs ⟨h, w⟩ := by
  refine Occurs.induction (P := fun c => ∀ {h w}, (h :: w) <:+ c.stack → op.Occurs ⟨h, w⟩) ?_ ?_ hc
  · intro i _ h w hw
    simp at hw
  · intro c x d ho ih hs h w hw
    cases hs with
    | internal ha hq => exact ih hw
    | call ha hq =>
      rcases List.suffix_cons_iff.mp hw with he | hw
      · cases he; exact ho
      · exact ih hw
    | ret ha hq => exact ih (hw.trans (List.suffix_cons _ _))

theorem Occurs.caller_of_top {p h : S} {w : List S} (ho : op.Occurs ⟨p, h :: w⟩) :
    op.Occurs ⟨h, w⟩ := ho.caller (List.suffix_refl _)

end NestedWords.Operand
