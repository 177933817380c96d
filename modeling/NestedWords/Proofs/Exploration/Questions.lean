import Mathlib.Data.List.Nodup
import Mathlib.Data.List.Count
import NestedWords.Proofs.Arena.Inquiries
import NestedWords.Proofs.Exploration.Exact
import NestedWords.Proofs.Exploration.Turns

/-!
# What an exploration asks

`Arena.Warrants` says which questions the state of an arena accounts for: whether a state is final
once the state is known, what leaves it once it is explored, and its returns under a caller once
they are examined. The log has just these, each once. This is not so within an item, which
writes to the arena first and asks afterwards. `Owes rest x` is what holds throughout: what has
been asked and what is left to ask, `rest`, together are what the arena warrants, each once.

Each change to the arena that warrants questions puts them on the list (`Owes.warrant`), and each
question asked takes one off (`Asks.ask`). `Asks qs x y` says of a part of the work that it takes
`qs` off, and it composes; at the end of an item nothing is owed (`perform_asks`). An item neither
polls the monitor nor counts itself, which `Asks` says as well.
-/

namespace NestedWords

variable {S L : Type}

namespace Log

/-- The questions put to the operand, oldest first. -/
def queries (log : Log S L) : List (Query S L) :=
  log.toList.filterMap fun
    | .query q => some q
    | _ => none

variable {log : Log S L}

@[simp] theorem queries_push_query {q : Query S L} :
    queries (log.push (.query q)) = log.queries ++ [q] := by simp [queries]

@[simp] theorem queries_push_event {e : Event} :
    queries (log.push (.event e)) = log.queries := by simp [queries]

@[simp] theorem queries_push_poll : queries (log.push .poll) = log.queries := by simp [queries]

@[simp] theorem polls_push_query {q : Query S L} : polls (log.push (.query q)) = log.polls := by
  simp [polls]

@[simp] theorem polls_push_event {e : Event} : polls (log.push (.event e)) = log.polls := by
  simp [polls]

@[simp] theorem polls_push_poll : polls (log.push .poll) = log.polls + 1 := by simp [polls]

end Log

variable [Ord L]

namespace Exploration

open Arena

variable [Std.TransOrd L] [DecidableEq S] [DecidableEq L] {op : Operand S L}
  {x y z : Exploration S L} {rest qs qs' : List (Query S L)} {q : Query S L}

/-! ## What is still to be asked -/

/-- It happens once if it has to, and else not at all. -/
def Once (P : Prop) (n : Nat) : Prop := (P → n = 1) ∧ (¬ P → n = 0)

/-- What was asked, together with `rest`, is what the arena warrants, each question once. -/
structure Owes (op : Operand S L) (rest : List (Query S L)) (x : Exploration S L) : Prop where
  orderly : x.arena.Orderly op
  once : ∀ q, Once (x.arena.Warrants op q) (x.log.queries.count q + rest.count q)

/-- A change to the arena that warrants more questions, which are new, puts them on the list. -/
theorem Owes.warrant {b : Arena S L} (h : Owes op rest x) (hb : b.Orderly op) (hqs : qs.Nodup)
    (hnew : ∀ q, b.Warrants op q ↔ x.arena.Warrants op q ∨ q ∈ qs)
    (hold : ∀ q ∈ qs, ¬ x.arena.Warrants op q) :
    Owes op (qs ++ rest) { x with arena := b } := by
  refine ⟨hb, fun q => ?_⟩
  have honce := h.once q
  show Once (b.Warrants op q) (x.log.queries.count q + (qs ++ rest).count q)
  rw [List.count_append]
  by_cases hq : q ∈ qs
  · have hzero := honce.2 (hold q hq)
    have hone := List.count_eq_one_of_mem hqs hq
    exact ⟨fun _ => by omega, fun hno => absurd ((hnew q).mpr (.inr hq)) hno⟩
  · have hzero := List.count_eq_zero.mpr hq
    refine ⟨fun hyes => ?_, fun hno => ?_⟩
    · have := honce.1 (((hnew q).mp hyes).resolve_right hq)
      omega
    · have := honce.2 fun hyes => hno ((hnew q).mpr (.inl hyes))
      omega

/-- A part of the work that asks `qs`, which were owed. -/
structure Asks (op : Operand S L) (qs : List (Query S L)) (x y : Exploration S L) : Prop where
  owes : ∀ {rest}, Owes op (qs ++ rest) x → Owes op rest y
  explored : ∀ {u}, x.arena.explored u = true → y.arena.explored u = true
  polls : y.log.polls = x.log.polls
  processed : y.processed = x.processed

/-- A part of the work that begins with a change to the arena, and then asks what that warrants. -/
theorem Asks.after {b : Arena S L} (h : Asks op qs { x with arena := b } y)
    (hwarrant : ∀ {rest}, Owes op rest x → Owes op (qs ++ rest) { x with arena := b })
    (hexplored : ∀ {u}, x.arena.explored u = true → b.explored u = true) : Asks op [] x y where
  owes hx := h.owes (hwarrant hx)
  explored hu := h.explored (hexplored hu)
  polls := h.polls
  processed := h.processed

namespace Asks

theorem trans (h : Asks op qs x y) (h' : Asks op qs' y z) : Asks op (qs ++ qs') x z where
  owes hx := h'.owes (h.owes (List.append_assoc .. ▸ hx))
  explored hu := h'.explored (h.explored hu)
  polls := h'.polls.trans h.polls
  processed := h'.processed.trans h.processed

/-- A part that asks nothing and does nothing that would have to be asked about. -/
theorem of_inquiries (ha : y.arena.inquiries = x.arena.inquiries)
    (hq : y.log.queries = x.log.queries) (hp : y.log.polls = x.log.polls)
    (hn : y.processed = x.processed) : Asks op [] x y where
  owes h := ⟨h.orderly.of_inquiries ha, fun q => by
    rw [hq]
    unfold Once
    rw [Arena.warrants_of_inquiries ha]
    exact h.once q⟩
  explored hu := (Arena.explored_of_inquiries ha).trans hu
  polls := hp
  processed := hn

theorem refl (x : Exploration S L) : Asks op [] x x := of_inquiries rfl rfl rfl rfl

theorem of_arena {b : Arena S L} (h : b.inquiries = x.arena.inquiries) :
    Asks op [] x { x with arena := b } := of_inquiries h rfl rfl rfl

theorem push (x : Exploration S L) (item : WorkItem) : Asks op [] x (x.push item) :=
  of_inquiries rfl rfl rfl rfl

theorem report (x : Exploration S L) (e : Event) : Asks op [] x (x.report e) :=
  of_inquiries rfl Log.queries_push_event Log.polls_push_event rfl

theorem ask (x : Exploration S L) (q : Query S L) : Asks op [q] x (x.ask q) where
  owes h := ⟨h.orderly, fun q' => by
    have honce := h.once q'
    rw [List.cons_append, List.nil_append, List.count_cons] at honce
    show Once _ ((Log.queries (x.log.push (.query q))).count q' + _)
    rw [Log.queries_push_query, List.count_append, List.count_singleton]
    have hcount : ∀ n m k : Nat, n + (m + k) = n + k + m := by omega
    rw [hcount] at honce
    exact honce⟩
  explored := id
  polls := Log.polls_push_query
  processed := rfl

theorem foldl_push {α : Type} (f : α → WorkItem) (l : List α) (x : Exploration S L) :
    Asks op [] x (l.foldl (fun x a => x.push (f a)) x) := by
  induction l generalizing x with
  | nil => exact .refl _
  | cons a l ih => exact (push x (f a)).trans (ih (x.push (f a)))

end Asks

/-! ## Loops -/

/-- After a part that asks nothing, the rest has all to ask. -/
theorem ensures_asks_trans {r : Except (Fault S) (Exploration S L)} (h : Asks op [] x y)
    (hr : Ensures r (Asks op qs y)) : Ensures r (Asks op qs x) := fun z hz => h.trans (hr z hz)

theorem foldlM_asks {α : Type} {f : Exploration S L → α → Except (Fault S) (Exploration S L)}
    {g : α → List (Query S L)} (step : ∀ a y, Ensures (f y a) (Asks op (g a) y)) (l : List α)
    (x : Exploration S L) : Ensures (l.foldlM f x) (Asks op (l.flatMap g) x) := by
  induction l generalizing x with
  | nil => exact ensures_ok (.refl x)
  | cons a l ih =>
    rw [List.foldlM_cons, List.flatMap_cons]
    exact (step a x).bind fun y hy z hz => hy.trans (ih y z hz)

/-- A loop that asks nothing. -/
theorem foldlM_asks_nil {α : Type} {f : Exploration S L → α → Except (Fault S) (Exploration S L)}
    (step : ∀ a y, Ensures (f y a) (Asks op [] y)) (l : List α) (x : Exploration S L) :
    Ensures (l.foldlM f x) (Asks op [] x) := by
  have h := foldlM_asks (g := fun _ => []) step l x
  rwa [List.flatMap_eq_nil_iff.mpr fun _ _ => rfl] at h

/-- The loop over some letters asks for the successors under each of them. -/
theorem successors_asks {question : L → Query S L} {successors : L → List S}
    {take : L → Exploration S L → S → Except (Fault S) (Exploration S L)}
    (step : ∀ l t y, Ensures (take l y t) (Asks op [] y)) (letters : List L)
    (x : Exploration S L) :
    Ensures (letters.foldlM (fun x l => (successors l).foldlM (take l) (x.ask (question l))) x)
      (Asks op (letters.map question) x) := by
  have h := foldlM_asks (g := fun l => [question l])
    (fun l y z hz => (Asks.ask y (question l)).trans
      (foldlM_asks_nil (fun t w => step l t w) (successors l) _ z hz)) letters x
  rwa [← List.map_eq_flatMap] at h

/-! ## The questions about a state -/

/-- What is asked about a state when it is explored. -/
def questionsAbout (op : Operand S L) (s : S) : List (Query S L) :=
  .returnLetters s ::
    .internalLetters s :: (op.internalLetters s).toList.map (.internalSuccessors s) ++
    .callLetters s :: (op.callLetters s).toList.map (.callSuccessors s)

/-- What is asked about a state when its returns under another are examined. -/
def questionsUnder (op : Operand S L) (s r : S) : List (Query S L) :=
  (op.returnLetters s).toList.map (.returnSuccessors s r)

variable [Std.LawfulEqOrd L]

section
omit [DecidableEq S] [DecidableEq L]

theorem mem_questionsAbout {s : S} : q ∈ questionsAbout op s ↔ q = .returnLetters s ∨
    q = .internalLetters s ∨ (∃ l ∈ op.internalLetters s, q = .internalSuccessors s l) ∨
    q = .callLetters s ∨ ∃ l ∈ op.callLetters s, q = .callSuccessors s l := by
  simp only [questionsAbout, List.cons_append, List.mem_cons, List.mem_append, List.mem_map,
    Std.ExtTreeSet.mem_toList, eq_comm (b := q)]

theorem nodup_questionsAbout (s : S) : (questionsAbout op s).Nodup := by
  have hinternals : ((op.internalLetters s).toList.map (Query.internalSuccessors s)).Nodup :=
    nodup_toList.map fun _ _ h => (Query.internalSuccessors.inj h).2
  have hcalls : ((op.callLetters s).toList.map (Query.callSuccessors s)).Nodup :=
    nodup_toList.map fun _ _ h => (Query.callSuccessors.inj h).2
  simp only [questionsAbout, List.cons_append, List.nodup_cons, List.nodup_append]
  simp [hinternals, hcalls]

/-- These questions are those that an explored state accounts for. -/
theorem warrants_mark {a b : Arena S L} {u : Nat} {s : S} {letters : FinSet L} (hu : u < a.size)
    (hb : b = a.modifyNode u fun n => { n with returnLetters := letters, explored := true })
    (hs : a.nameOf u = some s) :
    b.Warrants op q ↔ a.Warrants op q ∨ q ∈ questionsAbout op s := by
  rw [mem_questionsAbout]
  cases q <;> simp only [Warrants, Knows, Examines, nameOf_mark hb, examined_mark hb,
    explores_mark hu hb hs] <;> grind

theorem explores_of_warrants {a : Arena S L} {s : S} (hq : q ∈ questionsAbout op s)
    (h : a.Warrants op q) : a.Explores s := by
  rcases mem_questionsAbout.mp hq with rfl | rfl | ⟨l, -, rfl⟩ | rfl | ⟨l, -, rfl⟩
  · exact h
  · exact h
  · exact h.1
  · exact h
  · exact h.1

theorem mem_questionsUnder {s r : S} :
    q ∈ questionsUnder op s r ↔ ∃ l ∈ op.returnLetters s, q = .returnSuccessors s r l := by
  simp only [questionsUnder, List.mem_map, Std.ExtTreeSet.mem_toList, eq_comm (b := q)]

/-- These questions are those that an examined caller accounts for. -/
theorem warrants_insert {a b : Arena S L} {u h : Nat} {s r : S} (hu : u < a.size)
    (hb : b = a.modifyNode u fun n => { n with examined := n.examined.insert h })
    (hs : a.nameOf u = some s) (hr : a.nameOf h = some r) :
    b.Warrants op q ↔ a.Warrants op q ∨ q ∈ questionsUnder op s r := by
  rw [mem_questionsUnder]
  cases q <;> simp only [Warrants, Knows, Explores, nameOf_insert hb, explored_insert hb,
    examines_insert hu hb hs hr] <;> grind

theorem examines_of_warrants {a : Arena S L} {s r : S} (hq : q ∈ questionsUnder op s r)
    (h : a.Warrants op q) : a.Examines s r := by
  obtain ⟨l, -, rfl⟩ := mem_questionsUnder.mp hq
  exact h.1

theorem nodup_questionsUnder (s r : S) : (questionsUnder op s r).Nodup :=
  nodup_toList.map fun _ _ h => (Query.returnSuccessors.inj h).2.2
end

/-! ## The operations -/

section
omit [Std.LawfulEqOrd L]

theorem followMove_asks {new u : Nat} {hiers : List Nat} :
    Ensures (followMove new hiers x u) (Asks op [] x) := by
  refine ensures_bind fun c => ensures_bind fun n => ?_
  have hpushed : Asks op [] x _ :=
    .foldl_push (WorkItem.reconcile new) (c.border.getD u ∅).toList x
  dsimp only
  split
  · exact ensures_ok (hpushed.trans (.foldl_push (WorkItem.examine u) _ _))
  · exact ensures_ok hpushed

theorem reconcile_asks {target : Nat} {extra : FinSet Nat} :
    Ensures (x.reconcile target extra) (Asks op [] x) := by
  refine ensures_bind fun old => ensures_bind fun C => ?_
  split
  · exact ensures_ok (.refl _)
  · refine ensures_bind fun D => ensures_bind fun _ => ensures_bind fun _ =>
      moveAll_inquiries.bind fun a ha => refreshBorders_inquiries.bind fun b hb => ?_
    have hinquiries : b.inquiries = x.arena.inquiries := hb.trans (ha.trans componentFor_inquiries)
    refine ensures_asks_trans ?_ (foldlM_asks_nil (fun u y => followMove_asks) _ _)
    exact .of_inquiries hinquiries Log.queries_push_event Log.polls_push_event rfl

/-- A state is asked about when it is added. -/
theorem discover_asks {name : S} {component : Nat} {isInitial : Bool} :
    Ensures (discover op x name component isInitial) fun p => Asks op [] x p.2 := by
  unfold discover
  split
  · exact ensures_ok (.refl _)
  · refine addState_ensures.bind fun p hp => ensures_ok ?_
    have hname : x.arena.idOf name = none := hp.1
    have hnodes : p.2.nodes = x.arena.nodes.push _ := hp.2
    have hknown : ¬ x.arena.Knows name := fun ⟨u, hu⟩ => idOf_eq_none hname hu
    have hasks : Asks op [.isFinal name] { x with arena := p.2 } _ :=
      (Asks.ask _ _).trans (.push _ (.explore p.1))
    refine hasks.after (fun hx => ?_) fun hu => (explored_push hnodes).trans hu
    refine hx.warrant (orderly_push hnodes hx.orderly hname) (List.nodup_singleton _) ?_ ?_
    · intro q
      rw [List.mem_singleton]
      cases q <;> simp [Warrants, knows_push hnodes, explores_push hnodes,
        examines_push hnodes hx.orderly, eq_comm (a := name)]
    · intro q hq
      rw [List.mem_singleton.mp hq]
      exact hknown

theorem discoverEntry_asks {name : S} {downs : List (Down Nat)} {isInitial : Bool} :
    Ensures (discoverEntry op x name downs isInitial) fun p => Asks op [] x p.2 := by
  have hdowns : Ensures (downs.foldlM (fun a d => do return (← a.addDown x.arena.size d).2)
      (x.arena.addEntry x.arena.size)) fun b => b.inquiries = x.arena.inquiries :=
    foldlM_inquiries (fun _ _ => addDown_inquiries.bind fun _ hp => ensures_ok hp) downs
  refine hdowns.bind fun a ha => ?_
  show Ensures (discover op { x with arena := (a.componentFor _).2 } name _ isInitial) _
  refine fun p hp => (Asks.of_arena ?_).trans (discover_asks p hp)
  exact componentFor_inquiries.trans ha

theorem crossIfForeign_asks {resident target : Nat} :
    Ensures (crossIfForeign x resident target) (Asks op [] x) := by
  refine ensures_bind fun source => ensures_bind fun c => ?_
  split
  · exact addCrossing_inquiries.bind fun a ha => ensures_ok ((Asks.of_arena ha).trans (.push _ _))
  · exact ensures_ok (.refl _)

theorem takeInternal_asks {state : Nat} {letter : L} {target : S} :
    Ensures (takeInternal op state letter x target) (Asks op [] x) :=
  ensures_bind fun _ => discover_asks.bind fun _ hp => addInternal_inquiries.bind fun _ ha =>
    ensures_asks_trans (hp.trans (.of_arena ha)) crossIfForeign_asks

theorem takeReturn_asks {up hier : Nat} {letter : L} {target : S} :
    Ensures (takeReturn op up hier letter x target) (Asks op [] x) :=
  ensures_bind fun _ => discover_asks.bind fun _ hp => addReturn_inquiries.bind fun _ ha =>
    ensures_asks_trans (hp.trans (.of_arena ha)) crossIfForeign_asks

theorem enter_asks {name : S} : Ensures (enter op x name) fun p => Asks op [] x p.2 := by
  unfold enter
  split
  · exact discoverEntry_asks
  · split
    · exact ensures_ok (.refl _)
    · next id _ _ =>
      have hentry : Asks op [] x { x with arena := x.arena.addEntry id } := .of_arena rfl
      exact reconcile_asks.bind fun y hy => ensures_ok (hentry.trans hy)

theorem addCaller_asks {entry caller : Nat} :
    Ensures (addCaller x entry caller) (Asks op [] x) := by
  refine addDown_inquiries.bind fun p hp => ?_
  refine ensures_asks_trans (.of_arena hp) (foldlM_asks_nil (fun c y => ?_) p.1 _)
  exact ensures_bind fun C => ensures_bind fun explored => ensures_ok (.foldl_push _ _ _)

theorem takeCall_asks {state : Nat} {letter : L} {target : S} :
    Ensures (takeCall op state letter x target) (Asks op [] x) :=
  enter_asks.bind fun _ hp => addCall_inquiries.bind fun _ ha =>
    ensures_asks_trans (hp.trans (.of_arena ha)) addCaller_asks
end

/-- The returns under a caller are asked for when it is examined first. -/
theorem examine_asks {up hier : Nat} (hup : x.arena.explored up = true) :
    Ensures (examine op up x hier) (Asks op [] x) := by
  refine node_ensures.bind fun n hn => ?_
  split
  · exact ensures_ok (.refl _)
  · next hnew =>
    refine updateNode_ensures.bind fun b hb => name_ensures.bind fun r hr => ?_
    obtain ⟨hlt, hb⟩ := hb
    have hs : x.arena.nameOf up = some n.name := field_eq hn
    have hr' : x.arena.nameOf hier = some r := (nameOf_insert hb).symm.trans hr
    refine Ensures.mono (successors_asks (fun l t y => takeReturn_asks) _ _) fun y hy => ?_
    refine hy.after (fun hx => ?_) fun hu => (explored_insert hb).trans hu
    have hletters : n.returnLetters = op.returnLetters n.name :=
      (field_eq hn).symm.trans (hx.orderly.letters hup hs)
    rw [hletters]
    refine hx.warrant (orderly_insert hlt hb hx.orderly hr') (nodup_questionsUnder n.name r)
      (fun q => warrants_insert hlt hb hs hr') ?_
    intro q hq hwarranted
    obtain ⟨v, p, hv, hp, hm⟩ := examines_of_warrants hq hwarranted
    have hexamined : x.arena.examined up = n.examined := field_eq hn
    rw [hx.orderly.name_inj hv hs, hx.orderly.name_inj hp hr', hexamined] at hm
    exact hnew (Std.ExtTreeSet.contains_iff_mem.mpr hm)

/-- One after the other, callers are examined. -/
theorem examineAll_asks {up : Nat} {hiers : List Nat} (hup : x.arena.explored up = true) :
    Ensures (hiers.foldlM (examine op up) x) (Asks op [] x) :=
  ensures_foldlM (I := Asks op [] x)
    (fun _ _ hy => ensures_asks_trans hy (examine_asks (hy.explored hup))) (.refl x)

/-- All that leaves a state is asked for when it is explored. -/
theorem explore_asks {state : Nat} : Ensures (explore op x state) (Asks op [] x) := by
  refine node_ensures.bind fun n hn => ensure_ensures.bind fun _ hunexplored =>
    markExplored_ensures.bind fun b hb => ?_
  obtain ⟨c, hc', hlt, hb⟩ := hb
  have hc : c.inquiries = x.arena.inquiries := hc'
  have hs : c.nameOf state = some n.name := (nameOf_of_inquiries hc).trans (field_eq hn)
  have hnew : c.explored state = false := by
    refine (explored_of_inquiries hc).trans ((field_eq hn).trans ?_)
    simpa using hunexplored
  have hexplored : b.explored state = true := (explored_mark hlt hb).mpr (.inl rfl)
  have hfirst : Asks op [.returnLetters n.name, .internalLetters n.name] { x with arena := b } _ :=
    (Asks.ask _ _).trans (.ask _ _)
  refine (successors_asks (fun l t y => takeInternal_asks) _ _).bind fun y hy => ?_
  have hsecond := (hfirst.trans hy).trans (.ask y (.callLetters n.name))
  refine (successors_asks (fun l t y => takeCall_asks) _ _).bind fun z hz => ?_
  have hall : Asks op (questionsAbout op n.name) { x with arena := b } z := by
    have h := hsecond.trans hz
    simpa [questionsAbout] using h
  have hasks : Asks op [] x z := by
    refine hall.after (fun hx => ?_) fun hu => ?_
    · have horderly := hx.orderly.of_inquiries hc
      refine hx.warrant (orderly_mark hlt hb horderly hs rfl) (nodup_questionsAbout n.name) ?_ ?_
      · intro q
        rw [← warrants_of_inquiries hc, warrants_mark hlt hb hs]
      · intro q hq hwarranted
        obtain ⟨v, hv, hexp⟩ := explores_of_warrants hq ((warrants_of_inquiries hc).mpr hwarranted)
        rw [horderly.name_inj hv hs, hnew] at hexp
        cases hexp
    · exact (explored_mark hlt hb).mpr (.inr ((explored_of_inquiries hc).trans hu))
  refine ensures_bind fun m => ?_
  split
  · exact ensures_ok hasks
  · exact ensures_bind fun downs =>
      ensures_asks_trans hasks (examineAll_asks (hall.explored hexplored))

/-- Every item asks what it owes. -/
theorem perform_asks {item : WorkItem} : Ensures (perform op x item) (Asks op [] x) := by
  cases item with
  | explore u => exact explore_asks
  | reconcile k t => exact ensures_bind fun C => reconcile_asks
  | examine u p =>
    refine node_ensures.bind fun n hn => ?_
    split
    · next hexplored => exact examine_asks ((field_eq hn).trans hexplored)
    · exact ensures_ok (.refl _)

/-! ## A run -/

variable {settings : Settings} {monitor : Monitor}

section
omit [Std.LawfulEqOrd L]

theorem owes_empty : Owes op [] (({} : Exploration S L).ask .initialStates) := by
  have hname : ∀ {u}, ({} : Arena S L).nameOf u = none := field_empty
  have hexamined : ∀ {u}, ({} : Arena S L).examined u = ∅ := field_empty
  refine ⟨⟨fun h => ?_, fun h => ?_, fun {u h} hm => ?_⟩, fun q => ?_⟩
  · cases hname.symm.trans h
  · cases field_empty.symm.trans h
  · have hm' : h ∈ ({} : Arena S L).examined u := hm
    rw [hexamined] at hm'
    exact absurd hm' Std.ExtTreeSet.not_mem_empty
  · show Once (({} : Arena S L).Warrants op q) ([Query.initialStates].count q + 0)
    cases q <;> simp [Once, Warrants, Knows, Explores, Examines, hname]

/-- At the start the initial states have been asked for, and nothing else but the names met. -/
theorem seed_asks : Ensures (seed op) fun x =>
    Owes op [] x ∧ x.log.polls = 0 ∧ x.processed = 0 := by
  have hasks : Ensures (seed op) (Asks op [] (({} : Exploration S L).ask .initialStates)) := by
    refine foldlM_asks_nil (fun s y => ?_) _ _
    split
    · exact ensures_ok (.refl _)
    · exact discoverEntry_asks.bind fun p hp => ensures_ok hp
  exact hasks.mono fun x hx => ⟨hx.owes owes_empty, hx.polls, hx.processed⟩

theorem asks_of_account (h : account settings x = .ok y) :
    (Owes op rest x → Owes op rest y) ∧ y.log.polls = x.log.polls ∧
      y.processed = x.processed + 1 := by
  rcases eq_of_account h with rfl | ⟨e, rfl⟩
  · exact ⟨fun hx => ⟨hx.orderly, hx.once⟩, rfl, rfl⟩
  · have hreport : Asks op [] { x with processed := x.processed + 1 } _ := .report _ e
    exact ⟨fun hx => hreport.owes ⟨hx.orderly, hx.once⟩, hreport.polls, rfl⟩

theorem owes_taking {item : WorkItem} {w : Worklist} (h : Owes op rest x) :
    Owes op rest (x.taking item w) :=
  ⟨h.orderly, fun q => by
    have hqueries : (x.taking item w).log.queries = x.log.queries := by
      simp only [taking, report, note, Log.queries_push_event, Log.queries_push_poll]
    rw [hqueries]
    exact h.once q⟩
end

/-- A turn that goes on asks what it owes, and polls and counts once. -/
theorem asks_of_continues (h : TurnsTo op settings monitor x (.continues y)) :
    (Owes op [] x → Owes op [] y) ∧ y.log.polls = x.log.polls + 1 ∧
      y.processed = x.processed + 1 := by
  cases h with
  | @continues item w z _ hpop hyes hperform haccount =>
    have hasks := perform_asks z hperform
    obtain ⟨howes, hpolls, hprocessed⟩ := asks_of_account haccount
    refine ⟨fun hx => howes (hasks.owes (owes_taking hx)), ?_, ?_⟩
    · rw [hpolls, hasks.polls]
      simp only [taking, report, note, Log.polls_push_event, Log.polls_push_poll]
    · rw [hprocessed, hasks.processed]
      rfl

omit [Std.LawfulEqOrd L] in
/-- A turn that finds nothing pending neither asks nor polls. -/
theorem asks_of_finished (h : TurnsTo op settings monitor x (.finished y)) :
    (Owes op [] x → Owes op [] y) ∧ y.log.polls = x.log.polls := by
  cases h with
  | finished hpop =>
    have hreport : Asks op [] x _ :=
      .report x (.fixpoint x.processed x.arena.size x.arena.components.size)
    exact ⟨hreport.owes, hreport.polls⟩

omit [Std.LawfulEqOrd L] in
/-- A refused turn polls, and asks nothing. -/
theorem asks_of_cancelled (h : TurnsTo op settings monitor x (.cancelled y)) :
    (Owes op [] x → Owes op [] y) ∧ y.arena = x.arena ∧ y.log.polls = x.log.polls + 1 := by
  cases h with
  | @cancelled item w hpop hno =>
    have hqueries : (({ x with pending := w }.note .poll).report
        (.cancelled x.arena.size)).log.queries = x.log.queries := by
      simp only [report, note, Log.queries_push_event, Log.queries_push_poll]
    refine ⟨fun hx => ⟨hx.orderly, fun q => ?_⟩, rfl, ?_⟩
    · rw [hqueries]
      exact hx.once q
    · simp only [report, note, Log.polls_push_event, Log.polls_push_poll]

/-- After so many items as many polls have been made, and nothing is owed. -/
theorem asks_of_after {n : Nat} (h : after op settings monitor n = some x) :
    Owes op [] x ∧ x.log.polls = n ∧ x.processed = n := by
  induction n generalizing x with
  | zero =>
    rw [after] at h
    cases hseed : seed op with
    | error e => rw [hseed] at h; cases h
    | ok y =>
      rw [hseed] at h
      cases h
      obtain ⟨howes, hpolls, hprocessed⟩ := seed_asks y hseed
      have hreport : Asks op [] y _ := .report y (.seeded y.arena.size)
      exact ⟨hreport.owes howes, hreport.polls.trans hpolls, hreport.processed.trans hprocessed⟩
  | succ n ih =>
    obtain ⟨y, hy, hturn⟩ := exists_of_after_succ h
    obtain ⟨howes, hpolls, hprocessed⟩ := ih hy
    obtain ⟨hstep, hpolls', hprocessed'⟩ := asks_of_continues hturn
    exact ⟨hstep howes, by omega, by omega⟩

end Exploration

/-! ## What has to be asked -/

variable [Std.TransOrd L] {op : Operand S L} {x : Snapshot S L} {q : Query S L}

/-- The questions that have to be asked to find all configurations that occur. -/
def Operand.Needs (op : Operand S L) : Query S L → Prop
  | .initialStates => True
  | .isFinal s | .internalLetters s | .callLetters s | .returnLetters s => ∃ w, op.Occurs ⟨s, w⟩
  | .internalSuccessors s l => (∃ w, op.Occurs ⟨s, w⟩) ∧ l ∈ op.internalLetters s
  | .callSuccessors s l => (∃ w, op.Occurs ⟨s, w⟩) ∧ l ∈ op.callLetters s
  | .returnSuccessors s r l => (∃ w, op.Occurs ⟨s, r :: w⟩) ∧ l ∈ op.returnLetters s

/-- Nothing is asked in vain. -/
theorem Settled.needs_of_warrants [Std.LawfulEqOrd L] (hx : Settled op x)
    (h : x.arena.Warrants op q) : op.Needs q := by
  have hexplores : ∀ {s}, x.arena.Explores s → ∃ w, op.Occurs ⟨s, w⟩ := fun ⟨_, hu, _⟩ =>
    hx.sound.occurs hu
  cases q with
  | initialStates => trivial
  | isFinal s => exact hx.sound.occurs h.choose_spec
  | internalLetters s => exact hexplores h
  | callLetters s => exact hexplores h
  | returnLetters s => exact hexplores h
  | internalSuccessors s l => exact h.imp_left hexplores
  | callSuccessors s l => exact h.imp_left hexplores
  | returnSuccessors s r l =>
    obtain ⟨⟨u, p, hu, hp, hm⟩, hl⟩ := h
    exact ⟨hx.sound.occurs_caller hu hp (hx.sound.examined hm), hl⟩

/-- With no item left, what has to be asked has been asked. -/
theorem Settled.warrants_of_needs [Std.LawfulEqOrd L] [DecidableEq S] (hx : Settled op x)
    (hitems : x.items = []) (h : op.Needs q) : x.arena.Warrants op q := by
  have hcomplete := hx.complete hitems
  have hexplores : ∀ {s}, (∃ w, op.Occurs ⟨s, w⟩) → x.arena.Explores s := by
    intro s hs
    obtain ⟨u, hu⟩ := hcomplete.nameOf_iff.mpr hs
    exact ⟨u, hu, hx.explored_of_name hitems hu⟩
  cases q with
  | initialStates => trivial
  | isFinal s => exact hcomplete.nameOf_iff.mpr h
  | internalLetters s => exact hexplores h
  | callLetters s => exact hexplores h
  | returnLetters s => exact hexplores h
  | internalSuccessors s l => exact h.imp_left hexplores
  | callSuccessors s l => exact h.imp_left hexplores
  | returnSuccessors s r l =>
    obtain ⟨⟨w, hw⟩, hl⟩ := h
    obtain ⟨u, d, hu, htop, hdown⟩ := hcomplete.exists_hasDown hw
    have hexplored := hx.explored_of_name hitems hu
    cases d with
    | bottom => cases htop
    | caller p =>
      obtain ⟨r', hp, hr⟩ := htop
      cases hr
      -- a state that has a letter for returns is a candidate for them
      have hcandidate : x.chart.candidate u = true := by
        by_contra hno
        have hempty := (hx.sound.candidate (Bool.eq_false_of_not_eq_true hno)).2
        rw [hx.sound.letters hexplored hu] at hempty
        rw [hempty] at hl
        exact Std.ExtTreeSet.not_mem_empty hl
      rcases hx.awaited hexplored hcandidate hdown with hm | hi
      · exact ⟨⟨u, p, hu, hp, hm⟩, hl⟩
      · rw [hitems] at hi
        cases hi

end NestedWords
