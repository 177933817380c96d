import NestedWords.Proofs.Exploration.Turns

/-!
# Settings do not steer an exploration

What an item does, and what it notes, depends on the arena and on the pending work, and not on
what has been noted before (`perform_withHistory`). The settings say what is checked between two
items and how often progress is reported; the checks pass, and a report is only noted. So the
explorations of one operand under one monitor with any two settings are the same but for their
logs, turn by turn (`TurnsTo.exists_alike`), and end alike (`exists_start_alike`).
-/

namespace NestedWords

variable {S L : Type} [Ord L] {op : Operand S L}

namespace Exploration

/-! ## What has been noted before -/

/-- The exploration with earlier notes in front of its own. -/
def withHistory (l : Log S L) (x : Exploration S L) : Exploration S L :=
  { x with log := l ++ x.log }

variable {l : Log S L} {x : Exploration S L}

@[simp] theorem arena_withHistory : (x.withHistory l).arena = x.arena := rfl

theorem withArena_withHistory {a : Arena S L} :
    { x.withHistory l with arena := a } = ({ x with arena := a } : Exploration S L).withHistory l :=
  rfl

@[simp] theorem note_withHistory {n : Note S L} :
    (x.withHistory l).note n = (x.note n).withHistory l := by
  simp only [note, withHistory, Array.append_push]

@[simp] theorem ask_withHistory {q : Query S L} :
    (x.withHistory l).ask q = (x.ask q).withHistory l := note_withHistory

@[simp] theorem report_withHistory {e : Event} :
    (x.withHistory l).report e = (x.report e).withHistory l := note_withHistory

theorem pushAll_withHistory {α : Type} {f : α → WorkItem} {vs : List α} :
    vs.foldl (fun x v => x.push (f v)) (x.withHistory l) =
      (vs.foldl (fun x v => x.push (f v)) x).withHistory l :=
  List.foldl_hom _ fun _ _ => rfl

theorem followMove_withHistory {k u : Nat} {hiers : List Nat} :
    followMove k hiers (x.withHistory l) u = withHistory l <$> followMove k hiers x u := by
  unfold followMove
  rw [map_bind]
  refine bind_congr fun c => ?_
  rw [map_bind]
  refine bind_congr fun n => ?_
  dsimp only
  rw [pushAll_withHistory]
  split
  · exact congrArg Except.ok pushAll_withHistory
  · rfl

variable [Std.TransOrd L]

theorem reconcile_withHistory {target : Nat} {extra : FinSet Nat} :
    (x.withHistory l).reconcile target extra = withHistory l <$> x.reconcile target extra := by
  unfold reconcile
  rw [map_bind]
  refine bind_congr fun old => ?_
  rw [map_bind]
  refine bind_congr fun C => ?_
  dsimp only
  split
  · rfl
  · simp only [map_bind, arena_withHistory]
    refine bind_congr fun D => bind_congr fun _ => bind_congr fun _ => bind_congr fun a => ?_
    simp only [withArena_withHistory, report_withHistory, arena_withHistory]
    refine bind_congr fun b => ?_
    exact foldlM_hom (fun x u => followMove_withHistory) _ _

variable [DecidableEq S]

omit [Std.TransOrd L] in
theorem discover_withHistory {name : S} {k : Nat} {i : Bool} :
    discover op (x.withHistory l) name k i =
      Prod.map id (withHistory l) <$> discover op x name k i := by
  unfold discover
  rw [arena_withHistory]
  cases x.arena.idOf name with
  | some u => rfl
  | none =>
    simp only [map_bind, ask_withHistory, arena_withHistory]
    refine bind_congr fun p => rfl

omit [Std.TransOrd L] in
theorem discoverEntry_withHistory {name : S} {downs : List (Down Nat)} {i : Bool} :
    discoverEntry op (x.withHistory l) name downs i =
      Prod.map id (withHistory l) <$> discoverEntry op x name downs i := by
  unfold discoverEntry
  simp only [map_bind, arena_withHistory, withArena_withHistory, discover_withHistory]

omit [DecidableEq S] [Std.TransOrd L] in
theorem crossIfForeign_withHistory {u v : Nat} :
    crossIfForeign (x.withHistory l) u v = withHistory l <$> crossIfForeign x u v := by
  unfold crossIfForeign
  simp only [map_bind, arena_withHistory, withArena_withHistory]
  refine bind_congr fun k => bind_congr fun k' => ?_
  split
  · rw [map_bind]
    exact bind_congr fun a => rfl
  · rfl

theorem takeInternal_withHistory {u : Nat} {a : L} {t : S} :
    takeInternal op u a (x.withHistory l) t = withHistory l <$> takeInternal op u a x t := by
  unfold takeInternal
  simp only [map_bind, arena_withHistory, discover_withHistory, bind_map_left]
  refine bind_congr fun k => bind_congr fun p => ?_
  obtain ⟨v, y⟩ := p
  refine bind_congr fun b => ?_
  exact crossIfForeign_withHistory (x := { y with arena := b })

theorem takeReturn_withHistory {u h : Nat} {a : L} {t : S} :
    takeReturn op u h a (x.withHistory l) t = withHistory l <$> takeReturn op u h a x t := by
  unfold takeReturn
  simp only [map_bind, arena_withHistory, discover_withHistory, bind_map_left]
  refine bind_congr fun k => bind_congr fun p => ?_
  obtain ⟨v, y⟩ := p
  refine bind_congr fun b => ?_
  exact crossIfForeign_withHistory (x := { y with arena := b })

theorem enter_withHistory {name : S} :
    enter op (x.withHistory l) name = Prod.map id (withHistory l) <$> enter op x name := by
  unfold enter
  rw [arena_withHistory]
  cases x.arena.idOf name with
  | none => exact discoverEntry_withHistory
  | some u =>
    dsimp only
    split
    · rfl
    · rw [withArena_withHistory, reconcile_withHistory, bind_map_left, map_bind]
      rfl

omit [DecidableEq S] [Std.TransOrd L] in
theorem addCaller_withHistory {e c : Nat} :
    addCaller (x.withHistory l) e c = withHistory l <$> addCaller x e c := by
  unfold addCaller
  simp only [map_bind, arena_withHistory, withArena_withHistory]
  refine bind_congr fun p => ?_
  refine foldlM_hom (fun x k => ?_) _ _
  simp only [map_bind, arena_withHistory]
  refine bind_congr fun C => bind_congr fun us => ?_
  exact congrArg Except.ok pushAll_withHistory

theorem takeCall_withHistory {u : Nat} {a : L} {t : S} :
    takeCall op u a (x.withHistory l) t = withHistory l <$> takeCall op u a x t := by
  unfold takeCall
  simp only [map_bind, enter_withHistory, bind_map_left]
  refine bind_congr fun p => ?_
  obtain ⟨v, y⟩ := p
  refine bind_congr fun b => ?_
  exact addCaller_withHistory (x := { y with arena := b })

omit [DecidableEq S] [Std.TransOrd L] in
/-- The transitions with any of the letters. -/
theorem successors_withHistory {question : L → Query S L} {successors : L → List S}
    {take : L → Exploration S L → S → Except (Fault S) (Exploration S L)}
    (step : ∀ a x t, take a (x.withHistory l) t = withHistory l <$> take a x t) (letters : List L) :
    letters.foldlM (fun x a => (successors a).foldlM (take a) (x.ask (question a)))
        (x.withHistory l) =
      withHistory l <$> letters.foldlM (fun x a =>
        (successors a).foldlM (take a) (x.ask (question a))) x := by
  refine foldlM_hom (fun x a => ?_) _ _
  rw [ask_withHistory]
  exact foldlM_hom (step a) _ _

theorem examine_withHistory {u h : Nat} :
    examine op u (x.withHistory l) h = withHistory l <$> examine op u x h := by
  unfold examine
  simp only [map_bind, arena_withHistory]
  refine bind_congr fun n => ?_
  split
  · rfl
  · simp only [map_bind, withArena_withHistory]
    refine bind_congr fun b => bind_congr fun s => ?_
    exact successors_withHistory (fun a x t => takeReturn_withHistory) _

theorem explore_withHistory {u : Nat} :
    explore op (x.withHistory l) u = withHistory l <$> explore op x u := by
  unfold explore
  simp only [map_bind, arena_withHistory, ask_withHistory, withArena_withHistory]
  refine bind_congr fun n => bind_congr fun _ => bind_congr fun b => ?_
  rw [successors_withHistory fun a x t => takeInternal_withHistory, bind_map_left]
  refine bind_congr fun y => ?_
  rw [ask_withHistory, successors_withHistory fun a x t => takeCall_withHistory, bind_map_left]
  refine bind_congr fun z => ?_
  simp only [arena_withHistory]
  refine bind_congr fun m => ?_
  split
  · rfl
  · rw [map_bind]
    exact bind_congr fun downs => foldlM_hom (fun x h => examine_withHistory) _ _

/-- What an item does and what it notes does not depend on what has been noted before. -/
theorem perform_withHistory {item : WorkItem} :
    perform op (x.withHistory l) item = withHistory l <$> perform op x item := by
  cases item with
  | explore u => exact explore_withHistory
  | reconcile k t =>
    unfold perform
    rw [map_bind]
    exact bind_congr fun C => reconcile_withHistory
  | examine u h =>
    unfold perform
    rw [map_bind]
    refine bind_congr fun n => ?_
    split
    · exact examine_withHistory
    · rfl

end Exploration

/-! ## Explorations that differ in what they noted -/

/-- The explorations are the same but for their logs. -/
structure Exploration.Alike (x y : Exploration S L) : Prop where
  arena : x.arena = y.arena
  pending : x.pending = y.pending
  processed : x.processed = y.processed

/-- The turns lead to the same, but for the logs. -/
inductive Turn.Alike : Turn S L → Turn S L → Prop
  | continues {x y : Exploration S L} (h : x.Alike y) : Alike (.continues x) (.continues y)
  | finished {x y : Exploration S L} (h : x.Alike y) : Alike (.finished x) (.finished y)
  | cancelled {x y : Exploration S L} (h : x.Alike y) : Alike (.cancelled x) (.cancelled y)

namespace Exploration

variable {x y x' : Exploration S L} {settings settings' : Settings}
  {monitor : Monitor} {fuel : Nat}

namespace Alike

theorem refl (x : Exploration S L) : x.Alike x := ⟨rfl, rfl, rfl⟩

/-- Such explorations have the rest in common. -/
theorem exists_rest (h : x.Alike y) :
    ∃ z : Exploration S L, x = z.withHistory x.log ∧ y = z.withHistory y.log := by
  obtain ⟨a, p, n, l⟩ := x
  obtain ⟨b, q, m, l'⟩ := y
  obtain ⟨rfl, rfl, rfl⟩ := h
  exact ⟨⟨a, p, n, #[]⟩, by simp [withHistory], by simp [withHistory]⟩

variable [DecidableEq S] [Std.TransOrd L]

theorem perform {item : WorkItem} (h : x.Alike y) (hx : perform op x item = .ok x') :
    ∃ y', Exploration.perform op y item = .ok y' ∧ x'.Alike y' := by
  obtain ⟨z, hxz, hyz⟩ := h.exists_rest
  rw [hxz, perform_withHistory] at hx
  rw [hyz, perform_withHistory]
  cases hz : Exploration.perform op z item with
  | error e => rw [hz] at hx; cases hx
  | ok z' =>
    rw [hz] at hx
    cases hx
    exact ⟨_, rfl, rfl, rfl, rfl⟩

omit [DecidableEq S] [Std.TransOrd L] in
/-- Whatever is checked and reported, the items are counted alike. -/
theorem account (h : x.Alike y) (hx : x.arena.WellFormed) (hacc : account settings x = .ok x') :
    ∃ y', Exploration.account settings' y = .ok y' ∧ x'.Alike y' := by
  have hcounted : x'.Alike { x with processed := x.processed + 1 } := by
    rcases eq_of_account hacc with rfl | ⟨e, rfl⟩ <;> exact ⟨rfl, rfl, rfl⟩
  obtain ⟨y', hy'⟩ := account_yields settings' (h.arena ▸ hx)
  have hcounted' : y'.Alike { y with processed := y.processed + 1 } := by
    rcases eq_of_account hy' with rfl | ⟨e, rfl⟩ <;> exact ⟨rfl, rfl, rfl⟩
  refine ⟨y', hy', ?_, ?_, ?_⟩
  · rw [hcounted.arena, hcounted'.arena, h.arena]
  · rw [hcounted.pending, hcounted'.pending, h.pending]
  · rw [hcounted.processed, hcounted'.processed, h.processed]

end Alike

variable [Std.LawfulEqOrd L] [DecidableEq S] [Std.TransOrd L]

/-- Each turn with the one settings is a turn with the other. -/
theorem TurnsTo.exists_alike (settings' : Settings) {t : Turn S L} (hx : Settled op x.snapshot)
    (h : x.Alike y) (ht : TurnsTo op settings monitor x t) :
    ∃ t', TurnsTo op settings' monitor y t' ∧ t.Alike t' := by
  cases ht with
  | finished hpop =>
    exact ⟨_, .finished (h.pending ▸ hpop), .finished ⟨h.arena, h.pending, h.processed⟩⟩
  | cancelled hpop hno =>
    exact ⟨_, .cancelled (h.pending ▸ hpop) (h.processed ▸ hno),
      .cancelled ⟨h.arena, rfl, h.processed⟩⟩
  | @continues item q z x' hpop hyes hperform haccount =>
    have htaking : (x.taking item q).Alike (y.taking item q) := ⟨h.arena, rfl, h.processed⟩
    obtain ⟨w, hw, hzw⟩ := htaking.perform hperform
    have hz : Settled op z.snapshot :=
      (perform_yields (x := x.taking item q) (settled_taking hx hpop)).of_eq_ok hperform
    obtain ⟨y', hy', hxy'⟩ := hzw.account hz.wellFormed haccount
    exact ⟨_, .continues (h.pending ▸ hpop) (h.processed ▸ hyes) hw hy', .continues hxy'⟩

/-- Runs with any two settings keep pace with each other. -/
theorem exists_run_alike (settings' : Settings) {o : Option (Turn S L)}
    (hx : Settled op x.snapshot) (h : x.Alike y) (hrun : run op settings monitor fuel x = .ok o) :
    ∃ o', run op settings' monitor fuel y = .ok o' ∧ Option.Rel Turn.Alike o o' := by
  induction fuel generalizing x y with
  | zero => cases hrun; exact ⟨none, rfl, .none⟩
  | succ fuel ih =>
    rw [run] at hrun
    obtain ⟨t, ht, hrun⟩ := bind_eq_ok hrun
    have hturn : TurnsTo op settings monitor x t := turn_eq_ok_iff.mp ht
    obtain ⟨t', ht', halike⟩ := hturn.exists_alike settings' hx h
    cases halike with
    | continues h' =>
      rw [run_of_continues ht']
      exact ih (settled_of_turn hx ht) h' hrun
    | finished h' =>
      cases hrun
      exact ⟨_, run_of_finished ht', .some (.finished h')⟩
    | cancelled h' =>
      cases hrun
      exact ⟨_, run_of_cancelled ht', .some (.cancelled h')⟩

/-- Under one monitor, explorations with any two settings end after as many turns, and alike. -/
theorem exists_start_alike (settings' : Settings) {o : Option (Turn S L)}
    (h : start op settings monitor fuel = .ok o) :
    ∃ o', start op settings' monitor fuel = .ok o' ∧ Option.Rel Turn.Alike o o' := by
  obtain ⟨x, hx, h⟩ := bind_eq_ok h
  have hsettled : Settled op x.snapshot := seed_yields.of_eq_ok hx
  obtain ⟨o', ho', hrel⟩ := exists_run_alike settings' (x := x.report _) hsettled (.refl _) h
  exact ⟨o', (bind_of_eq_ok hx).trans ho', hrel⟩

end Exploration

end NestedWords
