import NestedWords.Proofs.Arena.Twins
import NestedWords.Proofs.Exploration.Reconcile

/-!
# Two explorations of one automaton

Two operands that differ in letters without successors are explored alongside each other. The
arenas are twins, the same reconciliations wait in the same order, and the other items differ in
`Idle` ones only: examinations of states that never return. Every kind of work keeps this, if it
is done on both sides (`perform_twins`), and an idle item keeps it also if it is done on one side
alone (`perform_left`).
-/

namespace NestedWords

open Arena

variable {S L : Type} [Ord L] [Std.TransOrd L] {A B : Operand S L}

/-- The item examines a state that never returns. -/
def Idle (op : Operand S L) (a : Arena S L) (item : WorkItem) : Prop :=
  ∃ u h, item = .examine u h ∧ a.Silent op u

/-- The arenas are twins, and the worklists differ in idle items only. -/
structure Abreast (A B : Operand S L) (a b : Arena S L) (p q : Worklist) : Prop where
  arena : Arena.Twins A B a a b
  reconciliations : p.reconciliations = q.reconciliations
  others : AgreeBut (Idle A a) p.others q.others

/-- What is idle for the one operand is so for the other. -/
theorem Idle.twin {a b : Arena S L} (hAB : A.SameTransitions B) (h : Arena.Twins A B a a b)
    {item : WorkItem} (hi : Idle A a item) : Idle B b item := by
  obtain ⟨u, p, rfl, hs⟩ := hi
  exact ⟨u, p, rfl, (h.silent_iff hAB).mp hs⟩

namespace Exploration

variable {x y : Exploration S L}

/-- Two explorations that differ in what they do about states that never return. -/
abbrev Twins (A B : Operand S L) (x y : Exploration S L) : Prop :=
  Abreast A B x.arena y.arena x.pending y.pending

namespace Twins

variable (h : Twins A B x y)
include h

theorem symm (hAB : A.SameTransitions B) : Twins B A y x where
  arena := (h.arena.symm hAB).rebase
  reconciliations := h.reconciliations.symm
  others := h.others.symm.mono fun _ hi => hi.twin hAB h.arena

/-- The arenas may be replaced by later ones. -/
theorem withArena {a b : Arena S L} (h' : Arena.Twins A B x.arena a b) :
    Twins A B { x with arena := a } { y with arena := b } where
  arena := h'.rebase
  reconciliations := h.reconciliations
  others := h.others.mono fun i hi => by
    obtain ⟨u, p, rfl, hs⟩ := hi
    exact ⟨u, p, rfl, h'.silent hs⟩

theorem push (i : WorkItem) : Twins A B (x.push i) (y.push i) := by
  cases i with
  | reconcile k t =>
    exact ⟨h.arena, congrArg (· ++ [_]) h.reconciliations, h.others⟩
  | _ => exact ⟨h.arena, h.reconciliations, h.others.append (.refl _)⟩

theorem push_left {i : WorkItem} (hi : Idle A x.arena i) : Twins A B (x.push i) y := by
  obtain ⟨u, p, rfl, hs⟩ := hi
  refine ⟨h.arena, h.reconciliations, ?_⟩
  have hothers := h.others.append (.left ⟨u, p, rfl, hs⟩ .nil)
  rwa [List.append_nil] at hothers

theorem push_right {i : WorkItem} (hi : Idle A x.arena i) : Twins A B x (y.push i) := by
  obtain ⟨u, p, rfl, hs⟩ := hi
  refine ⟨h.arena, h.reconciliations, ?_⟩
  have hothers := h.others.append (.right ⟨u, p, rfl, hs⟩ .nil)
  rwa [List.append_nil] at hothers

end Twins

/-- Items that differ in idle ones are pushed on both sides. -/
theorem Twins.pushAll {α : Type} {f : α → WorkItem} {l r : List α}
    (h : Twins A B x y) (hlr : AgreeBut (fun v => Idle A x.arena (f v)) l r) :
    Twins A B (l.foldl (fun x v => x.push (f v)) x) (r.foldl (fun y v => y.push (f v)) y) := by
  generalize hidle : (fun v => Idle A x.arena (f v)) = idle at hlr
  induction hlr generalizing x y with
  | nil => exact h
  | both _ ih => exact ih (h.push _) hidle
  | @left v _ _ hv _ ih =>
    subst hidle
    exact ih (h.push_left hv) rfl
  | @right v _ _ hv _ ih =>
    subst hidle
    exact ih (h.push_right hv) rfl

/-! ## Reconciliation -/

theorem touched_congr {a b c : Arena S L} (h : Arena.Twins A B c a b) (moved : List Nat) :
    touched a moved = touched b moved := by
  unfold touched
  congr 1
  funext t u
  exact h.read_node (g := fun n => (t.insert u).insertMany n.predecessorsWithin) fun _ => rfl

theorem moveAll_twins {a b c : Arena S L} {k : Nat} {moved : List Nat}
    (h : Arena.Twins A B c a b) :
    Alongside (Arena.Twins A B c) (moveAll a moved k) (moveAll b moved k) :=
  alongside_foldlM (fun _ _ _ h => h.move) h

theorem refreshBorders_twins {a b c : Arena S L} {k : Nat} {moved : List Nat}
    (h : Arena.Twins A B c a b) :
    Alongside (Arena.Twins A B c) (refreshBorders a k moved) (refreshBorders b k moved) := by
  unfold refreshBorders
  refine (alongside_foldlM (fun _ _ _ h => h.writeComponent) h).bind fun a' b' h' => ?_
  rw [touched_congr h' moved]
  refine (alongside_eq _).bind fun states _ he => ?_
  subst he
  exact alongside_foldlM (fun _ _ _ h => h.refreshBorder) h'

theorem followMove_twins {k u : Nat} {hiers : List Nat} (h : Twins A B x y) :
    Alongside (Twins A B) (followMove k hiers x u) (followMove k hiers y u) := by
  unfold followMove
  refine h.arena.component.bind fun C D hCD => h.arena.node.bind fun n m hnm => ?_
  obtain ⟨hn, -, hplain, ht⟩ := hnm
  have hborder : C.border = D.border := Component.congr_plain (f := (·.border)) hCD.1 fun _ => rfl
  have hexplored : n.explored = m.explored :=
    Node.congr_plain (f := (·.explored)) hplain fun _ => rfl
  rw [hborder, hexplored]
  have hpush := h.pushAll (f := .reconcile k) (.refl (D.border.getD u ∅).toList)
  by_cases hr : A.NeverReturns n.name
  · -- whoever examines the state finds nothing
    have harena := (foldl_push (.reconcile k) (D.border.getD u ∅).toList x).1
    have hsilent : x.arena.Silent A u := ⟨n.name, field_eq hn, hr⟩
    have hidle : ∀ p ∈ hiers, Idle A _ (.examine u p) :=
      fun p _ => ⟨u, p, rfl, harena.symm ▸ hsilent⟩
    dsimp only
    split <;> split
    · exact alongside_ok (hpush.pushAll (.refl hiers))
    · exact alongside_ok (hpush.pushAll (r := []) (.of_idle hidle (by simp)))
    · exact alongside_ok (hpush.pushAll (l := []) (.of_idle (by simp) hidle))
    · exact alongside_ok hpush
  · obtain ⟨hc, hc', -⟩ := ht.returning hr
    rw [hc, hc']
    dsimp only
    split
    · exact alongside_ok (hpush.pushAll (.refl hiers))
    · exact alongside_ok hpush

/-- The states that are examined later are examined on both sides, or never return. -/
theorem foldlM_followMove_twins {k : Nat} {hiers moved : List Nat} (h : Twins A B x y) :
    Alongside (Twins A B) (moved.foldlM (followMove k hiers) x)
      (moved.foldlM (followMove k hiers) y) :=
  alongside_foldlM (fun _ _ _ h => followMove_twins h) h

theorem reconcile_twins {t : Nat} {extra : FinSet Nat} (h : Twins A B x y) :
    Alongside (Twins A B) (x.reconcile t extra) (y.reconcile t extra) := by
  unfold reconcile
  rw [h.arena.componentOf]
  refine (alongside_eq _).bind fun k _ he => ?_
  subst he
  refine h.arena.component.bind fun C D hCD => ?_
  have hentries : C.entries = D.entries :=
    Component.congr_plain (f := (·.entries)) hCD.1 fun _ => rfl
  have hdowns : C.downs = D.downs := Component.congr_plain (f := (·.downs)) hCD.1 fun _ => rfl
  rw [hentries, hdowns]
  refine alongside_ite Iff.rfl (fun _ => alongside_ok h) fun _ => ?_
  obtain ⟨hnew, h'⟩ := h.arena.componentFor (E := D.entries ∪ extra)
  dsimp only
  rw [hnew]
  refine h'.component.bind fun C' D' hCD' => ?_
  have hdowns' : C'.downs = D'.downs := Component.congr_plain (f := (·.downs)) hCD'.1 fun _ => rfl
  rw [hdowns']
  refine (alongside_eq _).bind fun _ _ _ => (alongside_eq _).bind fun _ _ _ => ?_
  have hregion : (x.arena.componentFor (D.entries ∪ extra)).2.region k t =
      (y.arena.componentFor (D.entries ∪ extra)).2.region k t :=
    h'.congr (f := (·.region k t)) fun _ => region_plain
  rw [hregion]
  refine (moveAll_twins h').bind fun a b h' => ?_
  refine (refreshBorders_twins h').bind fun a b h' => ?_
  exact foldlM_followMove_twins (h.withArena h')

/-! ## Discovery -/

variable {u v k p : Nat} {s t : S} {l : L}

variable [DecidableEq S]

theorem discover_twins (hAB : A.SameTransitions B) (h : Twins A B x y) {isInitial : Bool} :
    Alongside (fun p q => p.1 = q.1 ∧ Twins A B p.2 q.2) (discover A x s k isInitial)
      (discover B y s k isInitial) := by
  have hid : x.arena.idOf s = y.arena.idOf s := h.arena.congr (f := (·.idOf s)) fun _ => idOf_plain
  unfold discover
  rw [hid, hAB.isFinal]
  split
  · exact alongside_ok ⟨rfl, h⟩
  · refine h.arena.addState.bind fun p q hpq => ?_
    obtain ⟨a, u⟩ := p
    obtain ⟨b, v⟩ := q
    obtain ⟨rfl, h'⟩ := hpq
    exact alongside_ok ⟨rfl, (h.withArena h').push _⟩

theorem discoverEntry_twins (hAB : A.SameTransitions B) (h : Twins A B x y) {isInitial : Bool}
    {downs : List (Down Nat)} :
    Alongside (fun p q => p.1 = q.1 ∧ Twins A B p.2 q.2) (discoverEntry A x s downs isInitial)
      (discoverEntry B y s downs isInitial) := by
  unfold discoverEntry
  rw [h.arena.size]
  refine (alongside_foldlM (R := Arena.Twins A B x.arena) (fun d a b h => ?_)
    h.arena.addEntry).bind fun a b h' => ?_
  · exact h.addDown.bind fun p q hpq => alongside_ok hpq.2
  · obtain ⟨hk, h''⟩ := h'.componentFor (E := Std.ExtTreeSet.ofList [y.arena.size])
    dsimp only
    rw [hk]
    exact discover_twins hAB (h.withArena h'')

omit [DecidableEq S] in
theorem crossIfForeign_twins (h : Twins A B x y) :
    Alongside (Twins A B) (crossIfForeign x u v) (crossIfForeign y u v) := by
  unfold crossIfForeign
  rw [h.arena.componentOf, h.arena.componentOf]
  refine (alongside_eq _).bind fun k _ he => ?_
  subst he
  refine (alongside_eq _).bind fun k' _ he => ?_
  subst he
  refine alongside_ite Iff.rfl (fun _ => ?_) fun _ => alongside_ok h
  exact h.arena.addCrossing.bind fun a b h' => alongside_ok ((h.withArena h').push _)

/-! ## Transitions -/

theorem takeInternal_twins (hAB : A.SameTransitions B) (h : Twins A B x y) :
    Alongside (Twins A B) (takeInternal A u l x t) (takeInternal B u l y t) := by
  unfold takeInternal
  rw [h.arena.componentOf]
  refine (alongside_eq _).bind fun k _ he => ?_
  subst he
  refine (discover_twins hAB h).bind fun p q hpq => ?_
  obtain ⟨v, x⟩ := p
  obtain ⟨_, y⟩ := q
  obtain ⟨rfl, h⟩ := hpq
  exact h.arena.addInternal.bind fun a b h' => crossIfForeign_twins (h.withArena h')

theorem takeReturn_twins (hAB : A.SameTransitions B) (h : Twins A B x y) :
    Alongside (Twins A B) (takeReturn A u p l x t) (takeReturn B u p l y t) := by
  unfold takeReturn
  rw [h.arena.componentOf]
  refine (alongside_eq _).bind fun k _ he => ?_
  subst he
  refine (discover_twins hAB h).bind fun p q hpq => ?_
  obtain ⟨v, x⟩ := p
  obtain ⟨_, y⟩ := q
  obtain ⟨rfl, h⟩ := hpq
  exact h.arena.addReturn.bind fun a b h' => crossIfForeign_twins (h.withArena h')

theorem enter_twins (hAB : A.SameTransitions B) (h : Twins A B x y) :
    Alongside (fun p q => p.1 = q.1 ∧ Twins A B p.2 q.2) (enter A x t) (enter B y t) := by
  have hid : x.arena.idOf t = y.arena.idOf t := h.arena.congr (f := (·.idOf t)) fun _ => idOf_plain
  unfold enter
  rw [hid, h.arena.entries]
  split
  · exact discoverEntry_twins hAB h
  · next u _ =>
    refine alongside_ite Iff.rfl (fun _ => alongside_ok ⟨rfl, h⟩) fun _ => ?_
    exact (reconcile_twins (h.withArena h.arena.addEntry)).bind fun x y h => alongside_ok ⟨rfl, h⟩

omit [DecidableEq S] in
theorem addCaller_twins (h : Twins A B x y) :
    Alongside (Twins A B) (addCaller x u p) (addCaller y u p) := by
  unfold addCaller
  refine h.arena.addDown.bind fun r q hrq => ?_
  obtain ⟨grown, a⟩ := r
  obtain ⟨_, b⟩ := q
  obtain ⟨rfl, h'⟩ := hrq
  refine alongside_foldlM (fun k x y h => ?_) (h.withArena h')
  refine h.arena.component.bind fun C D hCD => ?_
  have hread := funext fun u => h.arena.read_node (u := u) (g := (·.explored)) fun _ => rfl
  rw [hread]
  have hlists : AgreeBut (x.arena.Silent A) C.candidates.toList D.candidates.toList :=
    agreeBut_toList hCD.2
  refine hlists.filterM.bind fun l r hlr => alongside_ok (h.pushAll (hlr.mono fun v hv => ?_))
  exact ⟨v, p, rfl, hv⟩

theorem takeCall_twins (hAB : A.SameTransitions B) (h : Twins A B x y) :
    Alongside (Twins A B) (takeCall A u l x t) (takeCall B u l y t) := by
  unfold takeCall
  refine (enter_twins hAB h).bind fun p q hpq => ?_
  obtain ⟨v, x⟩ := p
  obtain ⟨_, y⟩ := q
  obtain ⟨rfl, h⟩ := hpq
  exact h.arena.addCall.bind fun a b h' => addCaller_twins (h.withArena h')

/-! ## Letters -/

variable [Std.LawfulEqOrd L]

omit [DecidableEq S] in
/-- A loop over letters with their successors; letters without successors do not matter. -/
theorem letters_twins {X Y : FinSet L} {successors : L → List S} {query : L → Query S L}
    {take take' : L → Exploration S L → S → Except (Fault S) (Exploration S L)}
    (hXY : ∀ {l}, successors l ≠ [] → (l ∈ X ↔ l ∈ Y))
    (step : ∀ l x y t, Twins A B x y → Alongside (Twins A B) (take l x t) (take' l y t))
    (h : Twins A B x y) :
    Alongside (Twins A B)
      (X.toList.foldlM (fun x l => (successors l).foldlM (take l) (x.ask (query l))) x)
      (Y.toList.foldlM (fun x l => (successors l).foldlM (take' l) (x.ask (query l))) y) := by
  have hlists : AgreeBut (fun l => successors l = []) X.toList Y.toList :=
    agreeBut_toList fun l hl => hXY hl
  refine hlists.foldlM (fun l _ x y h => ?_) (fun l x y hl h => ?_) (fun l x y hl h => ?_) h
  · exact alongside_foldlM (fun t x y h => step l x y t h) h
  · rw [hl]
    exact ensures_ok h
  · rw [hl]
    exact ensures_ok h

/-! ## Examination -/

/-- A state that never returns may be examined on one side alone; no work follows from it. -/
theorem examine_left (h : Twins A B x y) (hs : x.arena.Silent A u) :
    Ensures (examine A u x p) fun z => Twins A B z y ∧ z.pending = x.pending := by
  obtain ⟨s, hs, hr⟩ := hs
  obtain ⟨n, hn, rfl⟩ := exists_node_of_nameOf hs
  unfold examine
  refine Ensures.bind (P := (· = n)) (by rw [node_eq_ok hn]; exact ensures_ok rfl) fun m hm => ?_
  subst hm
  split
  · exact ensures_ok ⟨h, rfl⟩
  refine Ensures.bind (h.arena.updateNode_left (fun _ => rfl) fun n' m' hn' ht => ?_) fun a h' =>
    ensures_bind fun below => ?_
  · cases hn.symm.trans hn'
    exact ⟨ht.letters, ht.letters', fun hr' => absurd hr hr'⟩
  · have hidle : ∀ l ∈ m.returnLetters.toList, A.returnSuccessors m.name below l = [] := fun l hl =>
      hr l (h.arena.mem_returnLetters hn (Std.ExtTreeSet.mem_toList.mp hl)) below
    refine AgreeBut.ensures_foldlM (R := fun z y => Twins A B z y ∧ z.pending = x.pending) hidle
      (fun l x y hl h => ?_) ⟨h.withArena h', rfl⟩
    rw [hl]
    exact ensures_ok h

theorem examine_twins (hAB : A.SameTransitions B) (h : Twins A B x y) :
    Alongside (Twins A B) (examine A u x p) (examine B u y p) := by
  by_cases hs : x.arena.Silent A u
  · intro v w hv hw
    have hv' := (examine_left h hs v hv).1
    have hs' := (h.arena.silent_iff hAB).mp hs
    exact (examine_left (hv'.symm hAB) hs' w hw).1.symm hAB.symm
  · unfold examine
    refine h.arena.node.bind fun n m hnm => ?_
    obtain ⟨hn, hm, hplain, ht⟩ := hnm
    have hr : ¬ A.NeverReturns n.name := fun hr => hs ⟨n.name, field_eq hn, hr⟩
    obtain ⟨-, -, hexamined⟩ := ht.returning hr
    have hname : n.name = m.name := Node.congr_plain (f := (·.name)) hplain fun _ => rfl
    rw [hexamined]
    refine alongside_ite Iff.rfl (fun _ => alongside_ok h) fun _ => ?_
    have hupdate : Alongside (Arena.Twins A B x.arena)
        (x.arena.updateNode u fun n => { n with examined := n.examined.insert p })
        (y.arena.updateNode u fun n => { n with examined := n.examined.insert p }) := by
      refine h.arena.updateNode (fun n m he => he) (fun _ => rfl) fun n m _ _ ht => ?_
      refine ⟨ht.letters, ht.letters', fun hr => ?_⟩
      obtain ⟨hc, hc', hexamined⟩ := ht.returning hr
      exact ⟨hc, hc', congrArg (·.insert p) hexamined⟩
    refine hupdate.bind fun a b h' => ?_
    rw [h'.congr (f := (·.name p)) fun _ => name_plain, hname, hAB.returnSuccessors]
    refine (alongside_eq _).bind fun below _ he => ?_
    subst he
    refine letters_twins (fun {l} hl => ?_) (fun l x y t h => takeReturn_twins hAB h)
      (h.withArena h')
    have hexplored : n.explored = m.explored :=
      Node.congr_plain (f := (·.explored)) hplain fun _ => rfl
    rw [ht.letters, ht.letters', hexplored, hname]
    split
    · exact hAB.returnLetters (hAB.returnSuccessors ▸ hl)
    · exact Iff.rfl

/-! ## Exploration of a state -/

omit [Std.LawfulEqOrd L] [DecidableEq S] in
/-- A state without letters for returns is no candidate, which matters only if it returns. -/
theorem exclude_twins {a b : Arena S L} (hAB : A.SameTransitions B) (h : Arena.Twins A B a a b)
    (hs : a.nameOf u = some s) :
    Alongside (Arena.Twins A B a)
      (if (A.returnLetters s).isEmpty then a.excludeCandidate u else pure a)
      (if (B.returnLetters s).isEmpty then b.excludeCandidate u else pure b) := by
  by_cases hr : A.NeverReturns s
  · have hleft : ∀ {A B : Operand S L} {a b : Arena S L}, Arena.Twins A B a a b →
        a.Silent A u →
        Ensures (if (A.returnLetters s).isEmpty then a.excludeCandidate u else pure a)
          (Arena.Twins A B a · b) := by
      intro A B a b h hs
      split
      · exact h.excludeCandidate_left hs
      · exact ensures_ok h
    intro a' b' ha' hb'
    have hsilent : a.Silent A u := ⟨s, hs, hr⟩
    have h' := hleft h hsilent a' ha'
    have hright := hleft (h'.symm hAB).rebase ((h.silent_iff hAB).mp hsilent) b' hb'
    exact ((h'.symm hAB).later hright).symm hAB.symm
  · obtain ⟨l, hA, hB⟩ := hAB.exists_returnLetter hr
    have hne : ∀ {X : FinSet L}, l ∈ X → ¬ X.isEmpty = true := by
      intro X hl he
      rw [Std.ExtTreeSet.isEmpty_iff.mp he] at hl
      exact Std.ExtTreeSet.not_mem_empty hl
    rw [if_neg (hne hA), if_neg (hne hB)]
    exact alongside_ok h

omit [Std.LawfulEqOrd L] [DecidableEq S] in
/-- A state is marked as explored with the letters that either operand gives. -/
theorem markExplored_twins {a b c : Arena S L} (hAB : A.SameTransitions B)
    (h : Arena.Twins A B c a b) (hs : a.nameOf u = some s) :
    Alongside (Arena.Twins A B c) (markExplored a u (A.returnLetters s))
      (markExplored b u (B.returnLetters s)) := by
  have hunfold : ∀ (a : Arena S L) (X : FinSet L), markExplored a u X =
      (if X.isEmpty then a.excludeCandidate u else pure a) >>= fun a =>
        a.updateNode u fun n => { n with returnLetters := X, explored := true } := by
    intro a X
    unfold markExplored
    split <;> rfl
  rw [hunfold, hunfold]
  refine (exclude_twins hAB h.rebase hs).bind fun a' b' h' => ?_
  have hs' : a'.nameOf u = some s := h'.named hs
  refine (h.later h').updateNode (fun n m he => ?_) (fun _ => rfl) fun n m hn hm ht => ?_
  · show { n.plain with explored := true } = { m.plain with explored := true }
    rw [he]
  · have hname : n.name = s := Option.some.inj ((field_eq hn).symm.trans hs')
    have hname' : m.name = s := by
      rw [h'.nameOf] at hs'
      exact Option.some.inj ((field_eq hm).symm.trans hs')
    exact ⟨by rw [if_pos rfl, hname], by rw [if_pos rfl, hname'], ht.returning⟩

theorem takeInternals_twins (hAB : A.SameTransitions B) (h : Twins A B x y) :
    Alongside (Twins A B)
      ((A.internalLetters s).toList.foldlM (fun x l =>
        (A.internalSuccessors s l).foldlM (takeInternal A u l) (x.ask (.internalSuccessors s l))) x)
      ((B.internalLetters s).toList.foldlM (fun x l =>
        (B.internalSuccessors s l).foldlM (takeInternal B u l) (x.ask (.internalSuccessors s l)))
        y) := by
  rw [← hAB.internalSuccessors]
  exact letters_twins hAB.internalLetters (fun _ _ _ _ h => takeInternal_twins hAB h) h

theorem takeCalls_twins (hAB : A.SameTransitions B) (h : Twins A B x y) :
    Alongside (Twins A B)
      ((A.callLetters s).toList.foldlM (fun x l =>
        (A.callSuccessors s l).foldlM (takeCall A u l) (x.ask (.callSuccessors s l))) x)
      ((B.callLetters s).toList.foldlM (fun x l =>
        (B.callSuccessors s l).foldlM (takeCall B u l) (x.ask (.callSuccessors s l))) y) := by
  rw [← hAB.callSuccessors]
  exact letters_twins hAB.callLetters (fun _ _ _ _ h => takeCall_twins hAB h) h

/-- The returns of a state under all its callers, if it may return. -/
def examineAll (op : Operand S L) (x : Exploration S L) (u : Nat) :
    Except (Fault S) (Exploration S L) := do
  if !(← x.arena.node u).candidate then return x
  ((← x.arena.downsOf u).toList.filterMap Down.state?).foldlM (examine op u) x

theorem examineAll_left (hAB : A.SameTransitions B) (h : Twins A B x y)
    (hs : x.arena.Silent A u) : Ensures (examineAll A x u) (Twins A B · y) := by
  have hs' := (h.arena.silent_iff hAB).mp hs
  unfold examineAll
  refine ensures_bind fun n => ?_
  split
  · exact ensures_ok h
  · refine ensures_bind fun downs => ensures_foldlM (fun p x h z hz => ?_) h
    exact (examine_left h ((h.arena.silent_iff hAB).mpr hs') z hz).1

theorem examineAll_twins (hAB : A.SameTransitions B) (h : Twins A B x y) :
    Alongside (Twins A B) (examineAll A x u) (examineAll B y u) := by
  by_cases hs : x.arena.Silent A u
  · intro v w hv hw
    have hv' := examineAll_left hAB h hs v hv
    have hs' := (h.arena.silent_iff hAB).mp hs
    exact (examineAll_left hAB.symm (hv'.symm hAB) hs' w hw).symm hAB.symm
  · unfold examineAll
    refine h.arena.node.bind fun n m hnm => ?_
    obtain ⟨hn, -, -, ht⟩ := hnm
    obtain ⟨hc, hc', -⟩ := ht.returning fun hr => hs ⟨n.name, field_eq hn, hr⟩
    rw [hc, hc', h.arena.congr (f := (·.downsOf u)) fun _ => downsOf_plain]
    refine (alongside_eq _).bind fun downs _ he => ?_
    subst he
    exact alongside_foldlM (fun p x y h => examine_twins hAB h) h

theorem explore_twins (hAB : A.SameTransitions B) (h : Twins A B x y) :
    Alongside (Twins A B) (explore A x u) (explore B y u) := by
  unfold explore
  refine h.arena.node.bind fun n m hnm => ?_
  obtain ⟨hn, hm, hplain, ht⟩ := hnm
  have hname : n.name = m.name := Node.congr_plain (f := (·.name)) hplain fun _ => rfl
  have hexplored : n.explored = m.explored :=
    Node.congr_plain (f := (·.explored)) hplain fun _ => rfl
  rw [hname, hexplored]
  refine (alongside_eq _).bind fun _ _ _ => ?_
  refine Alongside.bind (markExplored_twins hAB h.arena (hname ▸ field_eq hn)) fun a b h' => ?_
  refine Alongside.bind (takeInternals_twins hAB (h.withArena h')) fun x y h => ?_
  refine Alongside.bind (takeCalls_twins hAB h) fun x y h => ?_
  exact examineAll_twins hAB h

/-! ## Any item -/

theorem perform_twins (hAB : A.SameTransitions B) (h : Twins A B x y) (item : WorkItem) :
    Alongside (Twins A B) (perform A x item) (perform B y item) := by
  cases item with
  | explore u => exact explore_twins hAB h
  | reconcile k t =>
    unfold perform
    refine h.arena.component.bind fun C D hCD => ?_
    have hentries : C.entries = D.entries :=
      Component.congr_plain (f := (·.entries)) hCD.1 fun _ => rfl
    rw [hentries]
    exact reconcile_twins h
  | examine u p =>
    unfold perform
    refine h.arena.node.bind fun n m hnm => ?_
    obtain ⟨-, -, hplain, -⟩ := hnm
    have hexplored : n.explored = m.explored :=
      Node.congr_plain (f := (·.explored)) hplain fun _ => rfl
    rw [hexplored]
    exact alongside_ite Iff.rfl (fun _ => examine_twins hAB h) fun _ => alongside_ok h

/-- An idle item may be done on one side alone, and then there is one item less to do. -/
theorem perform_left (h : Twins A B x y) {item : WorkItem} (hi : Idle A x.arena item) :
    Ensures (perform A x item) fun z => Twins A B z y ∧ z.pending = x.pending := by
  obtain ⟨u, p, rfl, hs⟩ := hi
  unfold perform
  refine ensures_bind fun n => ?_
  split
  · exact examine_left h hs
  · exact ensures_ok ⟨h, rfl⟩

/-! ## The start -/

omit [Std.LawfulEqOrd L] [DecidableEq S] in
theorem twins_empty : Twins A B ({} : Exploration S L) {} where
  arena := ⟨rfl, id, fun hn => by simp at hn, fun _ => Iff.rfl⟩
  reconciliations := rfl
  others := .nil

omit [Std.LawfulEqOrd L] in
theorem seed_twins (hAB : A.SameTransitions B) :
    Alongside (Twins A B) (seed A) (seed B) := by
  unfold seed
  rw [hAB.initial]
  refine alongside_foldlM (fun s x y h => ?_) twins_empty
  rw [h.arena.congr (f := (·.idOf s)) fun _ => idOf_plain]
  refine alongside_ite Iff.rfl (fun _ => alongside_ok h) fun _ => ?_
  exact (discoverEntry_twins hAB h).bind fun p q hpq => alongside_ok hpq.2

end Exploration

end NestedWords
