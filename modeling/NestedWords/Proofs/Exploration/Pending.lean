import NestedWords.Exploration.Run
import NestedWords.Proofs.Yields

/-!
# What work is pending

`w.Adds w'` says that items have been pushed on `w` and none taken off. Whatever an operation
of an exploration does to the arena, this is all that it does to the worklist
(`perform_adds`); only a turn takes an item off, before it performs it. So the two queues stay
`Sorted` (`sorted_of_turn`), and an item that is no reconciliation is taken only when no
reconciliation is pending (`Worklist.Sorted.not_isReconcile_of_pop`).
-/

namespace NestedWords

/-- The item lets a state have more entries. -/
def WorkItem.IsReconcile (item : WorkItem) : Prop := ∃ k t, item = .reconcile k t

namespace Worklist

variable {w w' w'' : Worklist} {item : WorkItem}

/-- Work may have been added, and none has been taken off. -/
def Adds (w w' : Worklist) : Prop := ∃ l : List WorkItem, w' = l.foldl push w

theorem Adds.refl (w : Worklist) : w.Adds w := ⟨[], rfl⟩

theorem Adds.trans (h : w.Adds w') (h' : w'.Adds w'') : w.Adds w'' := by
  obtain ⟨l, rfl⟩ := h
  obtain ⟨l', rfl⟩ := h'
  exact ⟨l ++ l', List.foldl_append.symm⟩

/-- The first queue holds the reconciliations, the second one everything else. -/
structure Sorted (w : Worklist) : Prop where
  reconciliations : ∀ {i}, i ∈ w.reconciliations → i.IsReconcile
  others : ∀ {i}, i ∈ w.others → ¬ i.IsReconcile

namespace Sorted

theorem empty : Sorted {} := ⟨by simp, by simp⟩

/-- An item that is no reconciliation joins the second queue. -/
theorem push_other (h : w.Sorted) (hitem : ¬ item.IsReconcile) :
    Sorted { w with others := w.others ++ [item] } := by
  refine ⟨h.reconciliations, fun hi => ?_⟩
  rcases List.mem_append.mp hi with hi | hi
  · exact h.others hi
  · exact List.mem_singleton.mp hi ▸ hitem

theorem push (h : w.Sorted) : (w.push item).Sorted := by
  cases item with
  | explore u => exact h.push_other (by simp [WorkItem.IsReconcile])
  | examine u p => exact h.push_other (by simp [WorkItem.IsReconcile])
  | reconcile k t =>
    refine ⟨fun hi => ?_, h.others⟩
    rcases List.mem_append.mp hi with hi | hi
    · exact h.reconciliations hi
    · exact ⟨k, t, List.mem_singleton.mp hi⟩

theorem adds (h : w.Sorted) (hw : w.Adds w') : w'.Sorted := by
  obtain ⟨l, rfl⟩ := hw
  induction l generalizing w with
  | nil => exact h
  | cons i l ih => exact ih h.push

theorem pop (h : w.Sorted) (hpop : w.pop = some (item, w')) : w'.Sorted := by
  obtain ⟨r, o⟩ := w
  rcases r with _ | ⟨i, r⟩
  · rcases o with _ | ⟨i, o⟩
    · cases hpop
    · cases hpop
      exact ⟨h.reconciliations, fun hj => h.others (List.mem_cons_of_mem _ hj)⟩
  · cases hpop
    exact ⟨fun hj => h.reconciliations (List.mem_cons_of_mem _ hj), h.others⟩

/-- Nothing but a reconciliation is taken while a reconciliation is pending. -/
theorem not_isReconcile_of_pop (h : w.Sorted) (hpop : w.pop = some (item, w'))
    (hitem : ¬ item.IsReconcile) : ∀ i ∈ w.items, ¬ i.IsReconcile := by
  obtain ⟨r, o⟩ := w
  rcases r with _ | ⟨j, r⟩
  · exact fun i hi => h.others hi
  · cases hpop
    exact absurd (h.reconciliations List.mem_cons_self) hitem

end Sorted

end Worklist

namespace Exploration

variable {S L : Type} [Ord L] {op : Operand S L}
  {x y : Exploration S L} {settings : Settings} {monitor : Monitor}

open Worklist

theorem push_adds (x : Exploration S L) (item : WorkItem) : x.pending.Adds (x.push item).pending :=
  ⟨[item], rfl⟩

/-- What has been added stays so. -/
theorem ensures_adds_trans {w w' : Worklist} {r : Except (Fault S) (Exploration S L)}
    (hw : w.Adds w') (hr : Ensures r fun y => w'.Adds y.pending) :
    Ensures r fun y => w.Adds y.pending :=
  fun y hy => hw.trans (hr y hy)

/-! ## Loops -/

/-- The rule for a loop whose steps add work. -/
theorem foldlM_adds {α : Type} {f : Exploration S L → α → Except (Fault S) (Exploration S L)}
    (step : ∀ a y, Ensures (f y a) fun z => y.pending.Adds z.pending) (l : List α)
    (x : Exploration S L) : Ensures (l.foldlM f x) fun y => x.pending.Adds y.pending :=
  ensures_foldlM (fun a y hy => ensures_adds_trans hy (step a y)) (.refl _)

/-- The rule for the transitions with any of the letters. -/
theorem successors_adds {question : L → Query S L} {successors : L → List S}
    {take : L → Exploration S L → S → Except (Fault S) (Exploration S L)}
    (step : ∀ l t y, Ensures (take l y t) fun z => y.pending.Adds z.pending) (letters : List L)
    (x : Exploration S L) :
    Ensures (letters.foldlM (fun x l => (successors l).foldlM (take l) (x.ask (question l))) x)
      fun y => x.pending.Adds y.pending :=
  foldlM_adds (fun l y => foldlM_adds (fun t z => step l t z) _ (y.ask (question l))) letters x

theorem foldl_push_adds {α : Type} (f : α → WorkItem) (l : List α) (x : Exploration S L) :
    x.pending.Adds (l.foldl (fun x a => x.push (f a)) x).pending := by
  induction l generalizing x with
  | nil => exact .refl _
  | cons a l ih => exact (push_adds x (f a)).trans (ih (x.push (f a)))

/-! ## Operations -/

theorem followMove_adds {new u : Nat} {hiers : List Nat} :
    Ensures (followMove new hiers x u) fun y => x.pending.Adds y.pending := by
  refine ensures_bind fun c => ensures_bind fun n => ?_
  have hpushed := foldl_push_adds (WorkItem.reconcile new) (c.border.getD u ∅).toList x
  dsimp only
  split
  · exact ensures_ok (hpushed.trans (foldl_push_adds (WorkItem.examine u) _ _))
  · exact ensures_ok hpushed

variable [Std.TransOrd L]

theorem reconcile_adds {target : Nat} {extra : FinSet Nat} :
    Ensures (x.reconcile target extra) fun y => x.pending.Adds y.pending := by
  refine ensures_bind fun old => ensures_bind fun C => ?_
  split
  · exact ensures_ok (.refl _)
  · refine ensures_bind fun D => ensures_bind fun _ => ensures_bind fun _ => ensures_bind fun a =>
      ensures_bind fun b => ?_
    exact ensures_adds_trans (.refl _) (foldlM_adds (fun u y => followMove_adds) _ _)

variable [DecidableEq S]

omit [Std.TransOrd L] in
theorem discover_adds {name : S} {component : Nat} {isInitial : Bool} :
    Ensures (discover op x name component isInitial) fun p => x.pending.Adds p.2.pending := by
  unfold discover
  split
  · exact ensures_ok (.refl _)
  · exact ensures_bind fun p => ensures_ok (push_adds { x.ask _ with arena := p.2 } _)

omit [Std.TransOrd L] in
theorem discoverEntry_adds {name : S} {downs : List (Down Nat)} {isInitial : Bool} :
    Ensures (discoverEntry op x name downs isInitial) fun p => x.pending.Adds p.2.pending := by
  refine ensures_bind fun a => ?_
  show Ensures (discover op { x with arena := (a.componentFor _).2 } name _ isInitial) _
  exact discover_adds

omit [DecidableEq S] [Std.TransOrd L] in
theorem crossIfForeign_adds {resident target : Nat} :
    Ensures (crossIfForeign x resident target) fun y => x.pending.Adds y.pending := by
  refine ensures_bind fun source => ensures_bind fun c => ?_
  split
  · exact ensures_bind fun a => ensures_ok (push_adds { x with arena := a } _)
  · exact ensures_ok (.refl _)

theorem takeInternal_adds {state : Nat} {letter : L} {target : S} :
    Ensures (takeInternal op state letter x target) fun y => x.pending.Adds y.pending := by
  refine ensures_bind fun c => discover_adds.bind fun p hp => ensures_bind fun a => ?_
  exact ensures_adds_trans hp crossIfForeign_adds

theorem takeReturn_adds {up hier : Nat} {letter : L} {target : S} :
    Ensures (takeReturn op up hier letter x target) fun y => x.pending.Adds y.pending := by
  refine ensures_bind fun c => discover_adds.bind fun p hp => ensures_bind fun a => ?_
  exact ensures_adds_trans hp crossIfForeign_adds

theorem enter_adds {name : S} :
    Ensures (enter op x name) fun p => x.pending.Adds p.2.pending := by
  unfold enter
  split
  · exact discoverEntry_adds
  · split
    · exact ensures_ok (.refl _)
    · exact reconcile_adds.bind fun y hy => ensures_ok hy

omit [DecidableEq S] [Std.TransOrd L] in
theorem addCaller_adds {entry caller : Nat} :
    Ensures (addCaller x entry caller) fun y => x.pending.Adds y.pending := by
  refine ensures_bind fun p => foldlM_adds (fun c y => ?_) p.1 { x with arena := p.2 }
  exact ensures_bind fun C => ensures_bind fun explored => ensures_ok (foldl_push_adds _ _ _)

theorem takeCall_adds {state : Nat} {letter : L} {target : S} :
    Ensures (takeCall op state letter x target) fun y => x.pending.Adds y.pending := by
  refine enter_adds.bind fun p hp => ensures_bind fun a => ?_
  exact ensures_adds_trans hp addCaller_adds

theorem examine_adds {up hier : Nat} :
    Ensures (examine op up x hier) fun y => x.pending.Adds y.pending := by
  refine ensures_bind fun n => ?_
  split
  · exact ensures_ok (.refl _)
  · refine ensures_bind fun a => ensures_bind fun below => ?_
    exact successors_adds (fun l t y => takeReturn_adds) _ { x with arena := a }

theorem explore_adds {state : Nat} :
    Ensures (explore op x state) fun y => x.pending.Adds y.pending := by
  refine ensures_bind fun n => ensures_bind fun _ => ensures_bind fun a => ?_
  refine (successors_adds (fun l t y => takeInternal_adds) _ _).bind fun y hy => ?_
  refine (successors_adds (fun l t y => takeCall_adds) _ _).bind fun z hz => ?_
  refine ensures_bind fun m => ?_
  have hxz : x.pending.Adds z.pending := Adds.trans hy hz
  split
  · exact ensures_ok hxz
  · refine ensures_bind fun downs => ?_
    exact ensures_adds_trans hxz (foldlM_adds (fun h y => examine_adds) _ z)

/-- No item takes another one off. -/
theorem perform_adds {item : WorkItem} :
    Ensures (perform op x item) fun y => x.pending.Adds y.pending := by
  cases item with
  | explore u => exact explore_adds
  | reconcile k t => exact ensures_bind fun C => reconcile_adds
  | examine u p =>
    refine ensures_bind fun n => ?_
    split
    · exact examine_adds
    · exact ensures_ok (.refl _)

omit [DecidableEq S] [Std.TransOrd L] in
/-- To account an item is to count it, and perhaps to report on progress. -/
theorem eq_of_account (h : account settings x = .ok y) :
    y = { x with processed := x.processed + 1 } ∨
      ∃ e, y = ({ x with processed := x.processed + 1 } : Exploration S L).report e := by
  have hcount : ∀ {y : Exploration S L}, (if settings.progressDue (x.processed + 1) then
      { x with processed := x.processed + 1 }.report
        (.progress (x.processed + 1) x.arena.size x.arena.components.size)
      else { x with processed := x.processed + 1 }) = y →
      y = { x with processed := x.processed + 1 } ∨
        ∃ e, y = ({ x with processed := x.processed + 1 } : Exploration S L).report e := by
    intro y h
    obtain rfl := h
    split
    · exact .inr ⟨_, rfl⟩
    · exact .inl rfl
  unfold account at h
  split at h
  · obtain ⟨_, -, h⟩ := bind_eq_ok h
    exact hcount (Except.ok.inj h)
  · exact hcount (Except.ok.inj h)

omit [DecidableEq S] [Std.TransOrd L] in
/-- The account of an item changes neither the arena nor the work. -/
theorem keeps_of_account (h : account settings x = .ok y) :
    y.arena = x.arena ∧ y.pending = x.pending := by
  rcases eq_of_account h with rfl | ⟨e, rfl⟩
  · exact ⟨rfl, rfl⟩
  · exact ⟨rfl, rfl⟩

/-! ## Turns -/

omit [Std.TransOrd L] in
theorem sorted_of_seed (h : seed op = .ok x) : x.pending.Sorted := by
  have hadds : Ensures (seed op) fun y => ({} : Worklist).Adds y.pending := by
    refine foldlM_adds (fun s y => ?_) _ (({} : Exploration S L).ask .initialStates)
    split
    · exact ensures_ok (.refl _)
    · exact discoverEntry_adds.bind fun p hp => ensures_ok hp
  exact Sorted.empty.adds (hadds x h)

/-- A turn keeps the queues sorted. -/
theorem sorted_of_turn {t : Turn S L} (hx : x.pending.Sorted)
    (h : turn op settings monitor x = .ok t) :
    match t with
    | .continues y => y.pending.Sorted
    | .finished y => y.pending.Sorted
    | .cancelled _ => True := by
  unfold turn at h
  split at h
  · cases h
    exact hx
  · next item pending hpop =>
    have hsorted := hx.pop hpop
    dsimp only at h
    split at h
    · obtain ⟨y, hy, h⟩ := bind_eq_ok h
      obtain ⟨z, hz, h⟩ := bind_eq_ok h
      cases h
      show z.pending.Sorted
      rw [(keeps_of_account hz).2]
      exact hsorted.adds (perform_adds y hy)
    · cases h
      trivial

end Exploration

end NestedWords
