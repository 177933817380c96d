import NestedWords.Proofs.Arena.Checks
import NestedWords.Proofs.Exploration.Obligations

/-!
# Turns and what a run makes of them

`TurnsTo` lists all that a turn can lead to: the end of the run if no item is pending,
cancellation if the monitor says no, and otherwise an exploration in which the next item has
been performed and accounted (`turn_eq_ok_iff`). The monitor has a say only through the one
answer that it gives (`turn_congr`), and none of this fails if the exploration is
`Settled` (`exists_turnsTo`), as that of a run is (`exists_start`).

A run takes such turns. After the first `n` of them it goes on from the exploration that
`after` gives (`start_of_after`).
-/

namespace NestedWords.Exploration

open Arena

variable {S L : Type} [Ord L] [Std.TransOrd L] [DecidableEq S]
  {op : Operand S L} {settings : Settings} {monitor monitor' : Monitor}
  {x y z : Exploration S L} {item : WorkItem} {q : Worklist} {t t' : Turn S L}

/-! ## One turn -/

/-- The exploration on which a turn does its work. -/
def taking (x : Exploration S L) (item : WorkItem) (pending : Worklist) : Exploration S L :=
  ({ x with pending }.note .poll).report (.processing item)

/-- What a turn leads to. -/
inductive TurnsTo (op : Operand S L) (settings : Settings) (monitor : Monitor)
    (x : Exploration S L) : Turn S L → Prop
  | finished (hpop : x.pending.pop = none) : TurnsTo op settings monitor x
      (.finished (x.report (.fixpoint x.processed x.arena.size x.arena.components.size)))
  | cancelled {item : WorkItem} {q : Worklist} (hpop : x.pending.pop = some (item, q))
      (hno : monitor x.processed = false) : TurnsTo op settings monitor x
      (.cancelled (({ x with pending := q }.note .poll).report (.cancelled x.arena.size)))
  | continues {item : WorkItem} {q : Worklist} {y z : Exploration S L}
      (hpop : x.pending.pop = some (item, q)) (hyes : monitor x.processed = true)
      (hperform : perform op (x.taking item q) item = .ok y)
      (haccount : account settings y = .ok z) :
      TurnsTo op settings monitor x (.continues z)

theorem turn_eq_ok_iff :
    turn op settings monitor x = .ok t ↔ TurnsTo op settings monitor x t := by
  constructor
  · intro h
    unfold turn at h
    split at h
    · next hpop => cases h; exact .finished hpop
    · next item q hpop =>
      dsimp only at h
      split at h
      · next hyes =>
        obtain ⟨y, hy, h⟩ := bind_eq_ok h
        obtain ⟨z, hz, h⟩ := bind_eq_ok h
        cases h
        exact .continues hpop hyes hy hz
      · next hno =>
        cases h
        exact .cancelled hpop (Bool.eq_false_of_not_eq_true hno)
  · intro h
    unfold turn
    cases h with
    | finished hpop => rw [hpop]
    | cancelled hpop hno =>
      rw [hpop]
      exact if_neg (Bool.eq_false_iff.mp hno)
    | continues hpop hyes hperform haccount =>
      rw [hpop]
      exact (if_pos hyes).trans ((bind_of_eq_ok hperform).trans (bind_of_eq_ok haccount))

/-- All that matters of a monitor is its next answer. -/
theorem turn_congr (h : monitor x.processed = monitor' x.processed) :
    turn op settings monitor x = turn op settings monitor' x := by
  unfold turn
  split
  · rfl
  · dsimp only [note]
    rw [h]

omit [Std.TransOrd L] [DecidableEq S] in
theorem account_yields (settings : Settings) (hx : x.arena.WellFormed) :
    ∃ y, account settings x = .ok y := by
  unfold account
  split
  · rw [bind_of_eq_ok hx.checkComponents_eq_ok]
    exact ⟨_, rfl⟩
  · exact ⟨_, rfl⟩

omit [DecidableEq S] in
/-- The item that is taken keeps its place in the invariant until it is performed. -/
theorem settled_taking (hx : Settled op x.snapshot) (hpop : x.pending.pop = some (item, q)) :
    Settled op ⟨(x.taking item q).arena, item :: (x.taking item q).pending.items⟩ := by
  have hitems : x.pending.items = item :: q.items := Worklist.items_of_pop hpop
  exact hitems ▸ hx

variable [Std.LawfulEqOrd L]

/-- A granted turn does the work of the next item, without a fault. -/
theorem exists_continues (settings : Settings) (monitor : Monitor) (hx : Settled op x.snapshot)
    (hpop : x.pending.pop = some (item, q)) (hyes : monitor x.processed = true) :
    ∃ y z, perform op (x.taking item q) item = .ok y ∧ account settings y = .ok z ∧
      TurnsTo op settings monitor x (.continues z) := by
  obtain ⟨y, hy, hsettled⟩ := perform_yields (x := x.taking item q) (settled_taking hx hpop)
  obtain ⟨z, hz⟩ := account_yields settings hsettled.wellFormed
  exact ⟨y, z, hy, hz, .continues hpop hyes hy hz⟩

/-- A turn never fails. -/
theorem exists_turnsTo (settings : Settings) (monitor : Monitor) (hx : Settled op x.snapshot) :
    ∃ t, TurnsTo op settings monitor x t := by
  cases hpop : x.pending.pop with
  | none => exact ⟨_, .finished hpop⟩
  | some next =>
    cases hanswer : monitor x.processed with
    | false => exact ⟨_, .cancelled hpop hanswer⟩
    | true =>
      obtain ⟨-, z, -, -, h⟩ := exists_continues settings monitor hx hpop hanswer
      exact ⟨_, h⟩

/-! ## Runs -/

section
omit [Std.LawfulEqOrd L]

theorem run_of_continues {fuel : Nat} (h : TurnsTo op settings monitor x (.continues y)) :
    run op settings monitor (fuel + 1) x = run op settings monitor fuel y := by
  rw [run, bind_of_eq_ok (turn_eq_ok_iff.mpr h)]

theorem run_of_finished {fuel : Nat} (h : TurnsTo op settings monitor x (.finished y)) :
    run op settings monitor (fuel + 1) x = .ok (some (.finished y)) := by
  rw [run, bind_of_eq_ok (turn_eq_ok_iff.mpr h)]
  rfl

theorem run_of_cancelled {fuel : Nat} (h : TurnsTo op settings monitor x (.cancelled y)) :
    run op settings monitor (fuel + 1) x = .ok (some (.cancelled y)) := by
  rw [run, bind_of_eq_ok (turn_eq_ok_iff.mpr h)]
  rfl

/-- A run that comes to its end is the one that nobody stops. -/
theorem run_unbounded {fuel : Nat} (h : run op settings monitor fuel x = .ok (some (.finished y))) :
    run op settings .unbounded fuel x = .ok (some (.finished y)) := by
  induction fuel generalizing x with
  | zero => cases h
  | succ fuel ih =>
    rw [run] at h
    obtain ⟨t, ht, h⟩ := bind_eq_ok h
    cases turn_eq_ok_iff.mp ht with
    | finished hpop => cases h; exact run_of_finished (.finished hpop)
    | cancelled => cases h
    | continues hpop hyes hperform haccount =>
      rw [run_of_continues (.continues hpop rfl hperform haccount)]
      exact ih h

theorem after_succ_eq_some_iff {n : Nat} : after op settings monitor (n + 1) = some y ↔
    ∃ x, after op settings monitor n = some x ∧
      turn op settings monitor x = .ok (.continues y) := by
  constructor
  · intro h
    obtain ⟨x, hx, h⟩ := Option.bind_eq_some_iff.mp h
    split at h
    · next z hturn => cases h; exact ⟨x, hx, hturn⟩
    · cases h
  · intro h
    obtain ⟨x, hx, hturn⟩ := h
    exact Option.bind_eq_some_iff.mpr ⟨x, hx, by rw [hturn]⟩

theorem after_succ {n : Nat} (hx : after op settings monitor n = some x)
    (h : TurnsTo op settings monitor x (.continues y)) :
    after op settings monitor (n + 1) = some y :=
  after_succ_eq_some_iff.mpr ⟨x, hx, turn_eq_ok_iff.mpr h⟩

theorem exists_of_after_succ {n : Nat} (h : after op settings monitor (n + 1) = some y) :
    ∃ x, after op settings monitor n = some x ∧ TurnsTo op settings monitor x (.continues y) := by
  obtain ⟨x, hx, hturn⟩ := after_succ_eq_some_iff.mp h
  exact ⟨x, hx, turn_eq_ok_iff.mp hturn⟩
end

theorem exists_after_zero (op : Operand S L) (settings : Settings) (monitor : Monitor) :
    ∃ x, after op settings monitor 0 = some x := by
  obtain ⟨y, hy, -⟩ := exists_seed op
  exact ⟨_, by rw [after, hy]; rfl⟩

omit [Std.LawfulEqOrd L] in
/-- A run goes on from wherever its first turns have led. -/
theorem start_of_after {n : Nat} (h : after op settings monitor n = some x) (fuel : Nat) :
    start op settings monitor (n + fuel) = run op settings monitor fuel x := by
  induction n generalizing x fuel with
  | zero =>
    rw [after] at h
    cases hseed : seed op with
    | error e => rw [hseed] at h; cases h
    | ok y =>
      rw [hseed] at h
      cases h
      rw [Nat.zero_add]
      exact bind_of_eq_ok hseed
  | succ n ih =>
    obtain ⟨y, hy, hturn⟩ := exists_of_after_succ h
    rw [Nat.add_assoc, Nat.add_comm 1, ih hy, run_of_continues hturn]

/-- No turn of a run fails. -/
theorem exists_run (settings : Settings) (monitor : Monitor) (fuel : Nat)
    (hx : Settled op x.snapshot) : ∃ o, run op settings monitor fuel x = .ok o := by
  induction fuel generalizing x with
  | zero => exact ⟨none, rfl⟩
  | succ fuel ih =>
    obtain ⟨t, ht⟩ := exists_turnsTo settings monitor hx
    cases t with
    | continues y =>
      rw [run_of_continues ht]
      exact ih (settled_of_turn hx (turn_eq_ok_iff.mpr ht))
    | finished y => exact ⟨_, run_of_finished ht⟩
    | cancelled y => exact ⟨_, run_of_cancelled ht⟩

/-- An exploration never fails. -/
theorem exists_start (op : Operand S L) (settings : Settings) (monitor : Monitor) (fuel : Nat) :
    ∃ o, start op settings monitor fuel = .ok o := by
  obtain ⟨x, hx, hsettled⟩ := exists_seed op
  obtain ⟨o, ho⟩ := exists_run settings monitor fuel (x := x.report (.seeded x.arena.size)) hsettled
  exact ⟨o, (bind_of_eq_ok hx).trans ho⟩

omit [Std.LawfulEqOrd L] in
/-- A run ends with a turn that it comes to by turns that go on. -/
theorem exists_after_of_run {fuel n : Nat} (hx : after op settings monitor n = some x)
    (h : run op settings monitor fuel x = .ok (some t)) : ∃ m y,
      after op settings monitor m = some y ∧ TurnsTo op settings monitor y t := by
  induction fuel generalizing n x with
  | zero => cases h
  | succ fuel ih =>
    rw [run] at h
    obtain ⟨t', ht', h⟩ := bind_eq_ok h
    have hturn := turn_eq_ok_iff.mp ht'
    cases t' with
    | continues y => exact ih (after_succ hx hturn) h
    | finished y => cases h; exact ⟨n, x, hx, hturn⟩
    | cancelled y => cases h; exact ⟨n, x, hx, hturn⟩

omit [Std.LawfulEqOrd L] in
theorem exists_after_of_start {fuel : Nat} (h : start op settings monitor fuel = .ok (some t)) :
    ∃ n x, after op settings monitor n = some x ∧ TurnsTo op settings monitor x t := by
  obtain ⟨y, hy, h⟩ := bind_eq_ok h
  exact exists_after_of_run (n := 0) (by rw [after, hy]; rfl) h

end NestedWords.Exploration
