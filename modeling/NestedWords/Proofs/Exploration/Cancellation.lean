import NestedWords.Proofs.Exploration.Termination

/-!
# A cancelled run is the beginning of another

The monitor is polled once for each item, before it is processed. As long as it agrees, the run
is the one that nobody stops (`after_congr`), whose items are those that `takes` lists. So where a
cancelled run was stopped tells which items it has processed, and the states that it has explored
are counted by the items that say so (`explored_of_after`).
-/

namespace NestedWords

/-- The first poll that is answered with no is the one with number `k`, counted from zero. -/
def Monitor.Refuses (monitor : Monitor) (k : Nat) : Prop :=
  monitor k = false ∧ ∀ i < k, monitor i = true

/-- The item is the exploration of a state. -/
def WorkItem.isExplore : WorkItem → Bool
  | .explore _ => true
  | _ => false

variable {S L : Type} [Ord L] [Std.TransOrd L] [DecidableEq S]
  {op : Operand S L} {settings : Settings} {monitor : Monitor}

namespace Exploration

open Arena

variable {x y : Exploration S L} {item : WorkItem} {q : Worklist} {n m k : Nat}

/-! ## The run that nobody stops -/

/-- The item with number `i`, counted from zero, of the run that nobody stops. -/
def itemAt (op : Operand S L) (settings : Settings) (i : Nat) : Option WorkItem :=
  (after op settings .unbounded i).bind fun x => x.pending.pop.map (·.1)

/-- The first `n` items of the run that nobody stops, or all if there are not so many. -/
def takes (op : Operand S L) (settings : Settings) (n : Nat) : List WorkItem :=
  (List.range n).filterMap (itemAt op settings)

/-- How many states the first `n` items explore. -/
def explores (op : Operand S L) (settings : Settings) (n : Nat) : Nat :=
  (takes op settings n).countP (·.isExplore)

/-- The run that nobody stops ends when it has processed `n` items. -/
def Processes (op : Operand S L) (settings : Settings) (n : Nat) : Prop :=
  ∃ x, after op settings .unbounded n = some x ∧ x.pending.pop = none

/-- Without initial states there is nothing to process. -/
theorem processes_zero (h : op.initial = []) : Processes op settings 0 := by
  have hseed : seed op = .ok (({} : Exploration S L).ask .initialStates) := by
    rw [seed, h]
    rfl
  exact ⟨_, by rw [after, hseed]; rfl, rfl⟩

theorem not_processes_of_itemAt (h : (itemAt op settings n).isSome = true) :
    ¬ Processes op settings n := by
  intro hends
  obtain ⟨x, hx, hpop⟩ := hends
  simp [itemAt, hx, hpop] at h

theorem takes_succ :
    takes op settings (n + 1) = takes op settings n ++ (itemAt op settings n).toList := by
  rw [takes, List.range_succ, List.filterMap_append]
  cases h : itemAt op settings n <;> simp [takes, h]

variable [Std.LawfulEqOrd L]

/-- A run that has not ended goes on. -/
theorem exists_after (h : ∀ m < n, ¬ Processes op settings m) :
    ∃ x, after op settings .unbounded n = some x := by
  induction n with
  | zero => exact exists_after_zero op settings .unbounded
  | succ n ih =>
    obtain ⟨x, hx⟩ := ih fun m hm => h m (by omega)
    cases hpop : x.pending.pop with
    | none => exact absurd ⟨x, hx, hpop⟩ (h n (Nat.lt_succ_self n))
    | some next =>
      have hsettled := (Between.of_after hx).settled
      obtain ⟨-, y, -, -, hturn⟩ := exists_continues settings .unbounded hsettled hpop rfl
      exact ⟨y, after_succ hx hturn⟩

/-- While the monitor agrees the run is the one that nobody stops. -/
theorem after_congr [DecidableEq L] (h : ∀ i < n, monitor i = true) :
    after op settings monitor n = after op settings .unbounded n := by
  induction n with
  | zero => rfl
  | succ n ih =>
    refine Option.ext fun y => ?_
    rw [after_succ_eq_some_iff, after_succ_eq_some_iff, ih fun i hi => h i (by omega)]
    refine exists_congr fun x => and_congr_right fun hx => ?_
    obtain ⟨-, -, hprocessed⟩ := asks_of_after hx
    have hagree : monitor x.processed = true := hprocessed.symm ▸ h n (Nat.lt_succ_self n)
    have hsame : turn op settings monitor x = turn op settings .unbounded x := turn_congr hagree
    rw [hsame]

/-! ## What has been explored -/

omit [Std.TransOrd L] [Std.LawfulEqOrd L] [DecidableEq S] in
theorem finite_explored (a : Arena S L) : {u | a.explored u = true}.Finite :=
  (Set.finite_lt_nat a.size).subset fun _ hu => lt_size_of_explored hu

omit [Std.TransOrd L] [Std.LawfulEqOrd L] [DecidableEq S] in
/-- The explored states are counted over the nodes, but may be over their ids as well. -/
theorem explored_eq_ncard (x : Exploration S L) :
    x.explored = {u | x.arena.explored u = true}.ncard := by
  have hread : ∀ p ∈ x.arena.nodes.toList.zipIdx, p.1.explored = x.arena.explored p.2 := by
    intro p hp
    rw [List.mem_zipIdx_iff_getElem?, Array.getElem?_toList] at hp
    exact (field_eq hp).symm
  have hcount : x.explored = (List.range x.arena.size).countP x.arena.explored := by
    calc x.arena.nodes.toList.countP (·.explored)
        = (x.arena.nodes.toList.zipIdx.map (·.1)).countP (·.explored) := by
          rw [List.zipIdx_map_fst]
      _ = x.arena.nodes.toList.zipIdx.countP (x.arena.explored ∘ (·.2)) := by
          rw [List.countP_map]
          exact List.countP_congr fun p hp => by rw [Function.comp, Function.comp, hread p hp]
      _ = (List.range x.arena.size).countP x.arena.explored := by
          rw [← List.countP_map, List.zipIdx_map_snd, ← List.range_eq_range', Array.length_toList]
          rfl
  have hset : {u | x.arena.explored u = true} =
      ((List.range x.arena.size).filter x.arena.explored).toFinset := by
    ext u
    simpa using lt_size_of_explored
  rw [hcount, hset, Set.ncard_coe_finset, List.toFinset_card_of_nodup (List.nodup_range.filter _),
    List.countP_eq_length_filter]

omit [Std.TransOrd L] [Std.LawfulEqOrd L] [DecidableEq S] in
/-- An item that explores a state, which is new, makes for one more. -/
theorem ncard_explored_of_begins {a : Arena S L} {c : Chart S L} (h : a.chart.Begins op c item)
    (hnew : ∀ u, item = .explore u → a.explored u = false) :
    {u | c.explored u = true}.ncard =
      {u | a.explored u = true}.ncard + [item].countP (·.isExplore) := by
  cases item with
  | explore u =>
    obtain ⟨s, -, rfl⟩ := h
    have hset : {v | (a.chart.setExplored u (op.returnLetters s)).explored v = true} =
        insert u {v | a.explored v = true} := by
      ext v
      show setAt a.explored u true v = true ↔ v = u ∨ a.explored v = true
      by_cases hv : v = u <;> simp [setAt, hv]
    have hnot : u ∉ {v | a.explored v = true} := Bool.eq_false_iff.mp (hnew u rfl)
    exact (congrArg Set.ncard hset).trans (Set.ncard_insert_of_notMem hnot (finite_explored a))
  | reconcile k t =>
    obtain rfl : c = a.chart := h
    rfl
  | examine u p =>
    obtain rfl : c = a.chart := h
    rfl

/-- What an item does once it has begun does not count. -/
theorem explored_of_continues (hx : Settled op x.snapshot) (hpop : x.pending.pop = some (item, q))
    (h : TurnsTo op settings monitor x (.continues y)) :
    y.explored = x.explored + [item].countP (·.isExplore) := by
  cases h with
  | @continues item' q' z _ hpop' hyes hperform haccount =>
    cases hpop.symm.trans hpop'
    have htaking := settled_taking hx hpop
    obtain ⟨-, ⟨w, hbegins, -, hadvances⟩, -⟩ :=
      (perform_advances (x := x.taking item q) htaking).of_eq_ok hperform
    have hlater : ∀ u, y.snapshot.chart.explored u = w.chart.explored u := by
      rw [snapshot_of_account haccount]
      exact hadvances.explored
    have hset : {u | y.arena.explored u = true} = {u | w.chart.explored u = true} :=
      Set.ext fun u => by
        show y.snapshot.chart.explored u = true ↔ w.chart.explored u = true
        rw [hlater]
    rw [explored_eq_ncard, explored_eq_ncard, hset]
    refine ncard_explored_of_begins hbegins fun u hu => ?_
    subst hu
    exact (unexplored_of_due (x := x.snapshot) htaking.toCoherent).1

omit [Std.LawfulEqOrd L] in
theorem itemAt_of_after (h : after op settings .unbounded n = some x) :
    itemAt op settings n = x.pending.pop.map (·.1) := by
  rw [itemAt, h]
  rfl

/-- The explored states are as many as the items so far that explore a state. -/
theorem explored_of_after (h : after op settings .unbounded n = some x) :
    x.explored = explores op settings n := by
  induction n generalizing x with
  | zero =>
    obtain ⟨y, hy, -⟩ := exists_seed op
    rw [after, hy] at h
    cases h
    have hnone : ∀ u, y.arena.explored u = false := (seed_unexplored.of_eq_ok hy).2
    show y.explored = 0
    simp [explored_eq_ncard, hnone]
  | succ n ih =>
    obtain ⟨y, hy, hturn⟩ := exists_of_after_succ h
    obtain ⟨item, q, hpop⟩ : ∃ item q, y.pending.pop = some (item, q) := by
      cases hturn with
      | continues hpop => exact ⟨_, _, hpop⟩
    have hitem : itemAt op settings n = some item := by rw [itemAt_of_after hy, hpop]; rfl
    rw [explored_of_continues (Between.of_after hy).settled hpop hturn, ih hy, explores, explores,
      takes_succ, hitem, List.countP_append]
    rfl

/-! ## How many there can be -/

omit [Std.LawfulEqOrd L] in
theorem explores_le_succ : explores op settings n ≤ explores op settings (n + 1) := by
  rw [explores, explores, takes_succ, List.countP_append]
  exact Nat.le_add_right _ _

omit [Std.LawfulEqOrd L] in
theorem monotone_explores : Monotone (explores op settings) :=
  monotone_nat_of_le_succ fun _ => explores_le_succ

omit [Std.LawfulEqOrd L] in
theorem explores_le : explores op settings n ≤ n := by
  calc explores op settings n
      ≤ (takes op settings n).length := List.countP_le_length
    _ ≤ (List.range n).length := List.length_filterMap_le ..
    _ = n := List.length_range

/-- The first items are those of a run, which may have ended with fewer. -/
theorem exists_after_of_takes (op : Operand S L) (settings : Settings) (n : Nat) :
    ∃ m x, after op settings .unbounded m = some x ∧
      takes op settings n = takes op settings m := by
  induction n with
  | zero =>
    obtain ⟨x, hx⟩ := exists_after_zero op settings .unbounded
    exact ⟨0, x, hx, rfl⟩
  | succ n ih =>
    cases hitem : itemAt op settings n with
    | none =>
      obtain ⟨m, x, hx, hsame⟩ := ih
      refine ⟨m, x, hx, ?_⟩
      rw [takes_succ, hitem, hsame]
      exact List.append_nil _
    | some item =>
      obtain ⟨x, hx, hpop⟩ := Option.bind_eq_some_iff.mp hitem
      obtain ⟨next, hpop, -⟩ := Option.map_eq_some_iff.mp hpop
      have hsettled := (Between.of_after hx).settled
      obtain ⟨-, y, -, -, hturn⟩ := exists_continues settings .unbounded hsettled hpop rfl
      exact ⟨n + 1, y, after_succ hx hturn, rfl⟩

/-- No more states are explored than occur. -/
theorem explores_le_encard :
    (explores op settings n : ℕ∞) ≤ {s | ∃ w, op.Occurs ⟨s, w⟩}.encard := by
  obtain ⟨m, x, hx, hsame⟩ := exists_after_of_takes op settings n
  have hcount : explores op settings n = x.explored := by
    rw [explored_of_after hx, explores, explores, hsame]
  have hle : x.explored ≤ x.arena.size := List.countP_le_length
  calc (explores op settings n : ℕ∞)
      ≤ (x.arena.size : ℕ∞) := by exact_mod_cast hcount ▸ hle
    _ ≤ {s | ∃ w, op.Occurs ⟨s, w⟩}.encard :=
      (Between.of_after hx).settled.toCoherent.size_le_encard

end Exploration

end NestedWords
