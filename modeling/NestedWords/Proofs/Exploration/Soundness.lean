import NestedWords.Proofs.Arena.Chart
import NestedWords.Proofs.Runs

/-!
# What a chart may claim

`Chart.Linked` says that a transition is noted at all its ends, `Chart.Sound` that everything
on the chart is true of the operand: its states occur, an entry is initial or called, and
reaches the states of its components within their call, a stack top is the empty stack under
an initial state or a caller, and each transition is one that the operand has. No stack is
mentioned; that the stack tops are those of configurations that occur follows
(`Sound.occurs_bottom`, `Sound.occurs_caller`).

Each change to a chart keeps both, if what it adds is true: `Sound.addInternal` and its
siblings.
-/

namespace NestedWords.Chart

variable {S L : Type} [Ord L] [Std.TransOrd L] {op : Operand S L} {c c' : Chart S L}

/-- The state at `u` leads to the one at `v` within its call. -/
def Flows (op : Operand S L) (c : Chart S L) (u v : Nat) : Prop :=
  ∃ s t, c.nameOf u = some s ∧ c.nameOf v = some t ∧ op.Within s t

/-- The state is initial, or the target of a call that an explored state makes. -/
def Entered (op : Operand S L) (c : Chart S L) (s : S) : Prop :=
  s ∈ op.initial ∨ ∃ p q l, c.nameOf p = some q ∧ c.explored p = true ∧ l ∈ op.callLetters q ∧
    s ∈ op.callSuccessors q l

/-- Nothing is kept for a letter or a hierarchical predecessor of a state but transitions. -/
structure Filled (c : Chart S L) (u : Nat) : Prop where
  internalOut : Row.Filled (c.internalOut u)
  internalIn : Row.Filled (c.internalIn u)
  callOut : Row.Filled (c.callOut u)
  callIn : Row.Filled (c.callIn u)
  returnOut : Row.Filled (c.returnOut u)
  returnIn : Row.Filled (c.returnIn u)
  summaries : Row.Filled (c.summaries u)

/-- A transition is noted at all its ends, and no map that it is noted in has an empty row. -/
structure Linked (c : Chart S L) : Prop where
  internal : ∀ {u v l}, (l, v) ∈ c.internalOut u ↔ (l, u) ∈ c.internalIn v
  call : ∀ {u v l}, (l, v) ∈ c.callOut u ↔ (l, u) ∈ c.callIn v
  ret : ∀ {u h v l}, (h, l, v) ∈ c.returnOut u ↔ (h, l, u) ∈ c.returnIn v
  summary : ∀ {u h v l}, (h, l, v) ∈ c.returnOut u ↔ (l, u, v) ∈ c.summaries h
  filled : ∀ u, c.Filled u

/-- All that is on the chart is true of the operand. -/
structure Sound (op : Operand S L) (c : Chart S L) : Prop where
  occurs : ∀ {u s}, c.nameOf u = some s → ∃ w, op.Occurs ⟨s, w⟩
  isInitial : ∀ {u s}, c.nameOf u = some s → c.isInitial u = true → s ∈ op.initial
  isFinal : ∀ {u s}, c.nameOf u = some s → c.isFinal u = op.isFinal s
  flows : ∀ {u e}, c.HasEntry u e → c.Flows op e u
  entered : ∀ {e s}, c.IsEntry e → c.nameOf e = some s → c.Entered op s
  bottom : ∀ {e s}, c.EntryDown e .bottom → c.nameOf e = some s → s ∈ op.initial
  caller : ∀ {e h}, c.EntryDown e (.caller h) → ∃ l, (l, e) ∈ c.callOut h
  internal : ∀ {u l v}, (l, v) ∈ c.internalOut u → ∃ s t, c.nameOf u = some s ∧
    c.nameOf v = some t ∧ l ∈ op.internalLetters s ∧ t ∈ op.internalSuccessors s l
  call : ∀ {u l v}, (l, v) ∈ c.callOut u → ∃ s t, c.nameOf u = some s ∧
    c.nameOf v = some t ∧ l ∈ op.callLetters s ∧ t ∈ op.callSuccessors s l
  calling : ∀ {u l v}, (l, v) ∈ c.callOut u → c.explored u = true
  ret : ∀ {u h l v}, (h, l, v) ∈ c.returnOut u → ∃ s p t, c.nameOf u = some s ∧
    c.nameOf h = some p ∧ c.nameOf v = some t ∧ l ∈ op.returnLetters s ∧
    t ∈ op.returnSuccessors s p l
  below : ∀ {u h l v}, (h, l, v) ∈ c.returnOut u → c.HasDown u (.caller h)
  examined : ∀ {u h}, h ∈ c.examined u → c.HasDown u (.caller h)
  letters : ∀ {u s}, c.explored u = true → c.nameOf u = some s →
    c.returnLetters u = op.returnLetters s
  candidate : ∀ {u}, c.candidate u = false → c.explored u = true ∧ c.returnLetters u = ∅
  asked : ∀ {u h}, h ∈ c.examined u → c.explored u = true
  silent : ∀ {u}, c.explored u = true → c.returnLetters u = ∅ → c.candidate u = false

theorem Flows.mono (hn : ∀ {u s}, c.nameOf u = some s → c'.nameOf u = some s) {u v : Nat} :
    c.Flows op u v → c'.Flows op u v
  | ⟨s, t, hu, hv, h⟩ => ⟨s, t, hn hu, hn hv, h⟩

theorem Flows.trans {u v w : Nat} (h : c.Flows op u v) (h' : c.Flows op v w) : c.Flows op u w := by
  obtain ⟨s, t, hu, hv, hst⟩ := h
  obtain ⟨t', r, hv', hw, htr⟩ := h'
  rw [hv] at hv'
  cases hv'
  exact ⟨s, r, hu, hw, hst.trans htr⟩

theorem Entered.mono {s : S} (h : c.Entered op s)
    (hn : ∀ {u s}, c.nameOf u = some s → c'.nameOf u = some s)
    (he : ∀ {u}, c.explored u = true → c'.explored u = true) : c'.Entered op s :=
  h.imp_right fun ⟨p, q, l, hp, hexp, hcall⟩ => ⟨p, q, l, hn hp, he hexp, hcall⟩

/-! ## What follows -/

namespace Sound

variable (h : c.Sound op)
include h

/-- An initial state leads to a state under the empty stack. -/
theorem occurs_bottom {u : Nat} {s : S} (hs : c.nameOf u = some s) (hd : c.HasDown u .bottom) :
    op.Occurs ⟨s, []⟩ := by
  obtain ⟨e, he, hed⟩ := hd
  obtain ⟨i, s', hi, hs', hw⟩ := h.flows he
  rw [hs] at hs'
  cases hs'
  exact (Operand.occurs_of_initial (h.bottom hed hi)).within hw

/-- A caller leads to the states that have it as a stack top. -/
theorem under_of_hasDown {u p : Nat} (hd : c.HasDown u (.caller p)) :
    ∃ r s, c.nameOf p = some r ∧ c.nameOf u = some s ∧ op.Under r s := by
  obtain ⟨e, he, hed⟩ := hd
  obtain ⟨l, hl⟩ := h.caller hed
  obtain ⟨r, i, hp, hi, hl, hcall⟩ := h.call hl
  obtain ⟨i', s, hi', hs, hw⟩ := h.flows he
  rw [hi] at hi'
  cases hi'
  exact ⟨r, s, hp, hs, (Operand.under_of_call hl hcall).trans hw⟩

theorem occurs_caller {u p : Nat} {s r : S} (hs : c.nameOf u = some s) (hr : c.nameOf p = some r)
    (hd : c.HasDown u (.caller p)) : ∃ w, op.Occurs ⟨s, r :: w⟩ := by
  obtain ⟨r', s', hr', hs', hu⟩ := h.under_of_hasDown hd
  rw [hs] at hs'
  rw [hr] at hr'
  cases hs'; cases hr'
  obtain ⟨w, hw⟩ := h.occurs hr
  exact ⟨w, hw.under hu⟩

/-- Every stack top of a state stands on a stack under which the state occurs. -/
theorem caller_nameOf {u p : Nat} (hd : c.HasDown u (.caller p)) : ∃ r, c.nameOf p = some r := by
  obtain ⟨r, s, hr, -, -⟩ := h.under_of_hasDown hd
  exact ⟨r, hr⟩

/-- A return continues the call of its hierarchical predecessor. -/
theorem flows_of_ret {u p v : Nat} {l : L} (hr : (p, l, v) ∈ c.returnOut u) : c.Flows op p v := by
  obtain ⟨s, r, t, hs, hr', ht, hl, hsucc⟩ := h.ret hr
  obtain ⟨r', s', hr'', hs', hu⟩ := h.under_of_hasDown (h.below hr)
  rw [hs] at hs'
  rw [hr'] at hr''
  cases hs'; cases hr''
  exact ⟨r, t, hr', ht, hu.ret hl hsucc⟩

theorem flows_of_edge (hl : c.Linked) {r t : Nat} (he : c.Edge r t) : c.Flows op r t := by
  rcases he with ⟨l, he⟩ | ⟨l, u, he⟩
  · obtain ⟨s, t, hs, ht, hl, hsucc⟩ := h.internal he
    exact ⟨s, t, hs, ht, Operand.within_of_internal hl hsucc⟩
  · exact h.flows_of_ret (hl.summary.mpr he)

end Sound

/-! ## Changes -/

theorem setAt_eq_some {α : Type} {f : Nat → Option α} {u v : Nat} {x y : α} :
    setAt f u (some x) v = some y ↔ v = u ∧ x = y ∨ v ≠ u ∧ f v = some y := by
  unfold setAt
  split <;> simp [*]

section
variable (h : c.Linked)
include h

theorem Linked.addState {u k : Nat} {name : S} {i f : Bool} : (c.addState u name i f k).Linked :=
  { h with filled := fun v => { h.filled v with } }

theorem Linked.addEntry {e : Nat} : (c.addEntry e).Linked :=
  { h with filled := fun v => { h.filled v with } }

theorem Linked.addDown {e : Nat} {d : Down Nat} : (c.addDown e d).Linked :=
  { h with filled := fun v => { h.filled v with } }

theorem Linked.addComponent {k : Nat} {E : FinSet Nat} : (c.addComponent k E).Linked :=
  { h with filled := fun v => { h.filled v with } }

theorem Linked.setEntries {H : Nat → Nat → Prop} : (c.setEntries H).Linked :=
  { h with filled := fun v => { h.filled v with } }

theorem Linked.setExamined {u p : Nat} : (c.setExamined u p).Linked :=
  { h with filled := fun v => { h.filled v with } }

theorem Linked.setExplored {u : Nat} {letters : FinSet L} : (c.setExplored u letters).Linked :=
  { h with filled := fun v => { h.filled v with } }
end

variable [Std.LawfulEqOrd L]

theorem Linked.addInternal {s t : Nat} {l : L} (h : c.Linked) : (c.addInternal s l t).Linked :=
  { h with
    internal := by
      intro u v l'
      simp only [Chart.addInternal, mem_insertAt, h.internal, Prod.mk.injEq]
      grind
    filled := fun u =>
      { h.filled u with
        internalOut := filled_insertAt (fun v => (h.filled v).internalOut) u
        internalIn := filled_insertAt (fun v => (h.filled v).internalIn) u } }

theorem Linked.addCall {s t : Nat} {l : L} (h : c.Linked) : (c.addCall s l t).Linked :=
  { h with
    call := by
      intro u v l'
      simp only [Chart.addCall, mem_insertAt, h.call, Prod.mk.injEq]
      grind
    filled := fun u =>
      { h.filled u with
        callOut := filled_insertAt (fun v => (h.filled v).callOut) u
        callIn := filled_insertAt (fun v => (h.filled v).callIn) u } }

theorem Linked.addReturn {u p t : Nat} {l : L} (h : c.Linked) : (c.addReturn u p l t).Linked :=
  { h with
    ret := by
      intro u' p' t' l'
      simp only [Chart.addReturn, mem_insertAt, h.ret, Prod.mk.injEq]
      grind
    summary := by
      intro u' p' t' l'
      simp only [Chart.addReturn, mem_insertAt, h.summary, Prod.mk.injEq]
      grind
    filled := fun u' =>
      { h.filled u' with
        returnOut := filled_insertAt (fun v => (h.filled v).returnOut) u'
        returnIn := filled_insertAt (fun v => (h.filled v).returnIn) u'
        summaries := filled_insertAt (fun v => (h.filled v).summaries) u' } }

namespace Sound

variable (h : c.Sound op)
include h

theorem addInternal {u v : Nat} {l : L} {s t : S} (hu : c.nameOf u = some s)
    (hv : c.nameOf v = some t) (hl : l ∈ op.internalLetters s)
    (ht : t ∈ op.internalSuccessors s l) : (c.addInternal u l v).Sound op :=
  { h with
    internal := by
      intro u' l' v' hmem
      rcases mem_insertAt.mp hmem with hold | ⟨rfl, hnew⟩
      · exact h.internal hold
      · cases hnew; exact ⟨s, t, hu, hv, hl, ht⟩ }

theorem addCall {u v : Nat} {l : L} {s t : S} (hu : c.nameOf u = some s)
    (hv : c.nameOf v = some t) (hl : l ∈ op.callLetters s)
    (ht : t ∈ op.callSuccessors s l) (hexp : c.explored u = true) :
    (c.addCall u l v).Sound op :=
  { h with
    caller := fun hd => by
      obtain ⟨l', hl'⟩ := h.caller hd
      exact ⟨l', mem_insertAt.mpr (.inl hl')⟩
    call := by
      intro u' l' v' hmem
      rcases mem_insertAt.mp hmem with hold | ⟨rfl, hnew⟩
      · exact h.call hold
      · cases hnew; exact ⟨s, t, hu, hv, hl, ht⟩
    calling := by
      intro u' l' v' hmem
      rcases mem_insertAt.mp hmem with hold | ⟨rfl, -⟩
      · exact h.calling hold
      · exact hexp }

theorem addReturn {u p v : Nat} {l : L} {s r t : S} (hu : c.nameOf u = some s)
    (hp : c.nameOf p = some r) (hv : c.nameOf v = some t) (hl : l ∈ op.returnLetters s)
    (ht : t ∈ op.returnSuccessors s r l) (hd : c.HasDown u (.caller p)) :
    (c.addReturn u p l v).Sound op :=
  { h with
    ret := by
      intro u' p' l' v' hmem
      rcases mem_insertAt.mp hmem with hold | ⟨rfl, hnew⟩
      · exact h.ret hold
      · cases hnew; exact ⟨s, r, t, hu, hp, hv, hl, ht⟩
    below := by
      intro u' p' l' v' hmem
      rcases mem_insertAt.mp hmem with hold | ⟨rfl, hnew⟩
      · exact h.below hold
      · cases hnew; exact hd }

omit [Std.LawfulEqOrd L]

theorem setExamined {u p : Nat} (hexplored : c.explored u = true) (hd : c.HasDown u (.caller p)) :
    (c.setExamined u p).Sound op :=
  { h with
    examined := by
      intro u' p' hmem
      rcases mem_insertAt.mp hmem with hold | ⟨rfl, rfl⟩
      · exact h.examined hold
      · exact hd
    asked := by
      intro u' p' hmem
      rcases mem_insertAt.mp hmem with hold | ⟨rfl, -⟩
      · exact h.asked hold
      · exact hexplored }

theorem addEntry {e : Nat} (he : ∀ {s}, c.nameOf e = some s → c.Entered op s) :
    (c.addEntry e).Sound op :=
  { h with
    entered := by
      intro e' s h' hs
      rcases h' with rfl | h'
      · exact he hs
      · exact h.entered h' hs }

theorem addComponent {k : Nat} {E : FinSet Nat} : (c.addComponent k E).Sound op := { h with }

theorem addDown {e : Nat} {d : Down Nat}
    (hbottom : d = .bottom → ∀ {s}, c.nameOf e = some s → s ∈ op.initial)
    (hcaller : ∀ {p}, d = .caller p → ∃ l, (l, e) ∈ c.callOut p) : (c.addDown e d).Sound op :=
  have hdown : ∀ {u d'}, c.HasDown u d' → (c.addDown e d).HasDown u d' :=
    fun ⟨e, he, hd⟩ => ⟨e, he, .inl hd⟩
  { h with
    bottom := by
      intro e' s h hs
      rcases h with hd | ⟨rfl, hd⟩
      · exact h.bottom hd hs
      · exact hbottom hd.symm hs
    caller := by
      intro e' p h
      rcases h with hd | ⟨rfl, hd⟩
      · exact h.caller hd
      · exact hcaller hd.symm
    below := fun hmem => hdown (h.below hmem)
    examined := fun hmem => hdown (h.examined hmem) }

/-- More states have more entries, all of which lead to them. -/
theorem setEntries {H : Nat → Nat → Prop} (hmono : ∀ {u e}, c.HasEntry u e → H u e)
    (hflows : ∀ {u e}, H u e → c.Flows op e u) : (c.setEntries H).Sound op :=
  have hdown : ∀ {u d}, c.HasDown u d → (c.setEntries H).HasDown u d :=
    fun ⟨e, he, hd⟩ => ⟨e, hmono he, hd⟩
  { h with
    flows := hflows
    below := fun hmem => hdown (h.below hmem)
    examined := fun hmem => hdown (h.examined hmem) }

theorem setExplored {u : Nat} {s : S} (hu : c.nameOf u = some s)
    (hexplored : c.explored u = false) :
    (c.setExplored u (op.returnLetters s)).Sound op :=
  have hmono : ∀ {v}, c.explored v = true → setAt c.explored u true v = true := by
    intro v hv
    unfold setAt
    split
    · rfl
    · exact hv
  { h with
    entered := fun he hs => (h.entered he hs).mono id hmono
    calling := fun hmem => hmono (h.calling hmem)
    letters := by
      intro v t hv ht
      show setAt c.returnLetters u _ v = _
      unfold setAt
      split
      · next hvu =>
        have ht' : c.nameOf v = some t := ht
        rw [hvu, hu] at ht'
        cases ht'
        rfl
      · next hvu =>
        have hv' : setAt c.explored u true v = true := hv
        rw [setAt, if_neg hvu] at hv'
        exact h.letters hv' ht
    candidate := by
      intro v hv
      have hv' : (if (op.returnLetters s).isEmpty then setAt c.candidate u false
        else c.candidate) v = false := hv
      show setAt c.explored u true v = true ∧ setAt c.returnLetters u _ v = ∅
      unfold setAt
      by_cases hvu : v = u
      · rw [if_pos hvu, if_pos hvu]
        split at hv'
        · next hempty => exact ⟨rfl, Std.ExtTreeSet.isEmpty_iff.mp hempty⟩
        · have := (h.candidate hv').1
          rw [hvu, hexplored] at this
          cases this
      · rw [if_neg hvu, if_neg hvu]
        split at hv'
        · rw [setAt, if_neg hvu] at hv'
          exact h.candidate hv'
        · exact h.candidate hv'
    asked := fun hmem => hmono (h.asked hmem)
    silent := by
      intro v hv hempty
      have hv' : setAt c.explored u true v = true := hv
      have hempty' : setAt c.returnLetters u (op.returnLetters s) v = ∅ := hempty
      show (if (op.returnLetters s).isEmpty then setAt c.candidate u false else c.candidate) v =
        false
      by_cases hvu : v = u
      · rw [setAt, if_pos hvu] at hempty'
        rw [if_pos (Std.ExtTreeSet.isEmpty_iff.mpr hempty'), setAt, if_pos hvu]
      · rw [setAt, if_neg hvu] at hv' hempty'
        have hold := h.silent hv' hempty'
        split
        · rwa [setAt, if_neg hvu]
        · exact hold }

theorem addState {u k : Nat} {name : S} {isInitial : Bool} (hu : c.nameOf u = none)
    (hexplored : c.explored u = false) (hoccurs : ∃ w, op.Occurs ⟨name, w⟩)
    (hinitial : isInitial = true → name ∈ op.initial)
    (hflows : ∀ {e}, c.InComponent k e → e = u ∨ ∃ s, c.nameOf e = some s ∧ op.Within s name)
    (hentered : c.IsEntry u → c.Entered op name)
    (hbottom : c.EntryDown u .bottom → name ∈ op.initial) :
    (c.addState u name isInitial (op.isFinal name) k).Sound op := by
  have hold : ∀ {v s}, c.nameOf v = some s → v ≠ u ∧ setAt c.nameOf u (some name) v = some s := by
    intro v s hv
    have hne : v ≠ u := fun h => by subst h; rw [hu] at hv; cases hv
    exact ⟨hne, setAt_eq_some.mpr (.inr ⟨hne, hv⟩)⟩
  have hself : setAt c.nameOf u (some name) u = some name := if_pos rfl
  have hdown : ∀ {v d}, c.HasDown v d →
      (c.addState u name isInitial (op.isFinal name) k).HasDown v d :=
    fun ⟨e, he, hd⟩ => ⟨e, .inl he, hd⟩
  refine ⟨?occurs, ?isInitial, ?isFinal, ?flows, ?entered, ?bottom, h.caller, ?internal, ?call,
    h.calling, ?ret, ?below, ?examined, ?letters, h.candidate, h.asked, h.silent⟩
  case occurs =>
    intro v s hv
    rcases setAt_eq_some.mp hv with ⟨-, rfl⟩ | ⟨-, hv⟩
    · exact hoccurs
    · exact h.occurs hv
  case isInitial =>
    intro v s hv hi
    have hi' : setAt c.isInitial u isInitial v = true := hi
    rcases setAt_eq_some.mp hv with ⟨rfl, rfl⟩ | ⟨hvu, hv⟩
    · rw [setAt, if_pos rfl] at hi'
      exact hinitial hi'
    · rw [setAt, if_neg hvu] at hi'
      exact h.isInitial hv hi'
  case isFinal =>
    intro v s hv
    show setAt c.isFinal u _ v = _
    rcases setAt_eq_some.mp hv with ⟨rfl, rfl⟩ | ⟨hvu, hv⟩
    · exact if_pos rfl
    · rw [setAt, if_neg hvu, h.isFinal hv]
  case flows =>
    intro v e h
    rcases h with he | ⟨rfl, he⟩
    · exact (h.flows he).mono fun hn => (hold hn).2
    · rcases hflows he with rfl | ⟨s, hs, hw⟩
      · exact ⟨name, name, hself, hself, .refl name⟩
      · exact ⟨s, name, (hold hs).2, hself, hw⟩
  case entered =>
    intro e s he hs
    rcases setAt_eq_some.mp hs with ⟨rfl, rfl⟩ | ⟨-, hs⟩
    · exact (hentered he).mono (fun hn => (hold hn).2) id
    · exact (h.entered he hs).mono (fun hn => (hold hn).2) id
  case bottom =>
    intro e s hd hs
    rcases setAt_eq_some.mp hs with ⟨rfl, rfl⟩ | ⟨-, hs⟩
    · exact hbottom hd
    · exact h.bottom hd hs
  case internal =>
    intro v l t hmem
    obtain ⟨s, r, hs, hr, hop⟩ := h.internal hmem
    exact ⟨s, r, (hold hs).2, (hold hr).2, hop⟩
  case call =>
    intro v l t hmem
    obtain ⟨s, r, hs, hr, hop⟩ := h.call hmem
    exact ⟨s, r, (hold hs).2, (hold hr).2, hop⟩
  case ret =>
    intro v p l t hmem
    obtain ⟨s, r, q, hs, hr, hq, hop⟩ := h.ret hmem
    exact ⟨s, r, q, (hold hs).2, (hold hr).2, (hold hq).2, hop⟩
  case below => exact fun hmem => hdown (h.below hmem)
  case examined => exact fun hmem => hdown (h.examined hmem)
  case letters =>
    intro v s hv hs
    rcases setAt_eq_some.mp hs with ⟨rfl, -⟩ | ⟨-, hs⟩
    · have hv' : c.explored v = true := hv
      rw [hexplored] at hv'
      cases hv'
    · exact h.letters hv hs

end Sound

end NestedWords.Chart
