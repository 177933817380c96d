import Mathlib.Data.Set.Card
import NestedWords.Proofs.Exploration.Growth
import NestedWords.Proofs.Exploration.Questions

/-!
# Explorations end

An item may queue any number of others, of every kind, and components are made on the way, so
the worklist says nothing about how much is left to do. What an item may find out does
(`Finding`): that a state is explored, that its returns under a caller are examined, or that it
has an entry. What is found stays found (`Chart.Includes.finds`), and if only finitely many states
occur there is only so much to find (`size_le_encard`). An item that finds out nothing new has
nothing to do, and queues nothing (`perform_of_done`). So with every item either less is left to
be found, or the same is and one item less (`unfound_of_continues`), and the run ends
(`exists_run_finished`).

A run on an infinite operand need not end by itself, but does if the monitor refuses a turn
(`exists_run_of_refused`).
-/

namespace NestedWords

variable {S L : Type} [Ord L] [Std.TransOrd L] {op : Operand S L}

/-- Something that an item may find out. -/
inductive Finding
  | explored (u : Nat)
  | examined (u h : Nat)
  | entry (u e : Nat)

/-- The finding is about ids less than `n`. -/
def Finding.Below (n : Nat) : Finding → Prop
  | explored u => u < n
  | examined u h => u < n ∧ h < n
  | entry u e => u < n ∧ e < n

theorem Finding.Below.mono {f : Finding} {n m : Nat} (h : f.Below n) (hnm : n ≤ m) :
    f.Below m := by
  cases f with
  | explored => exact Nat.lt_of_lt_of_le h hnm
  | examined => exact ⟨Nat.lt_of_lt_of_le h.1 hnm, Nat.lt_of_lt_of_le h.2 hnm⟩
  | entry => exact ⟨Nat.lt_of_lt_of_le h.1 hnm, Nat.lt_of_lt_of_le h.2 hnm⟩

theorem Finding.finite_below (n : Nat) : {f : Finding | f.Below n}.Finite := by
  have hids : {u : Nat | u < n}.Finite := Set.finite_lt_nat n
  have hpairs := hids.prod hids
  refine ((hids.image explored).union ((hpairs.image fun p => examined p.1 p.2).union
    (hpairs.image fun p => entry p.1 p.2))).subset fun f hf => ?_
  cases f with
  | explored u => exact .inl ⟨u, hf, rfl⟩
  | examined u h => exact .inr (.inl ⟨(u, h), hf, rfl⟩)
  | entry u e => exact .inr (.inr ⟨(u, e), hf, rfl⟩)

namespace Chart

variable {c c' : Chart S L} {f : Finding} {item : WorkItem}

/-- It has been found. -/
def Finds (c : Chart S L) : Finding → Prop
  | .explored u => c.explored u = true
  | .examined u h => h ∈ c.examined u
  | .entry u e => c.HasEntry u e

/-- What is left to be found out about the ids less than `n`. -/
def unfound (c : Chart S L) (n : Nat) : Set Finding := {f | f.Below n ∧ ¬ c.Finds f}

omit [Std.TransOrd L] in
theorem finite_unfound (c : Chart S L) (n : Nat) : (c.unfound n).Finite :=
  (Finding.finite_below n).subset fun _ hf => hf.1

theorem Includes.finds (h : c.Includes c') (hf : c.Finds f) : c'.Finds f := by
  cases f with
  | explored u => exact h.explored hf
  | examined u p => exact h.examined hf
  | entry u e => exact h.hasEntry hf

theorem Includes.unfound_subset (h : c.Includes c') (n : Nat) : c'.unfound n ⊆ c.unfound n :=
  fun _ hf => ⟨hf.1, fun hc => hf.2 (h.finds hc)⟩

end Chart

namespace Coherent

variable {x : Snapshot S L} (hx : Coherent op x)
include hx

/-- Findings are about states that have an id. -/
theorem below_of_finds {f : Finding} (hf : x.chart.Finds f) : f.Below x.arena.size := by
  cases f with
  | explored u => exact Arena.lt_size_of_explored hf
  | examined u h =>
    obtain ⟨r, s, hr, hs, -⟩ := hx.sound.under_of_hasDown (hx.sound.examined hf)
    exact ⟨Arena.lt_size_of_nameOf hs, Arena.lt_size_of_nameOf hr⟩
  | entry u e =>
    obtain ⟨s, t, hs, ht, -⟩ := hx.sound.flows hf
    exact ⟨Arena.lt_size_of_nameOf ht, Arena.lt_size_of_nameOf hs⟩

/-- There is an id for each state only once, and only for those that occur. -/
theorem size_le_encard : (x.arena.size : ℕ∞) ≤ {s | ∃ w, op.Occurs ⟨s, w⟩}.encard := by
  have hnamed : ∀ u : Fin x.arena.size, ∃ s, x.arena.nameOf u = some s :=
    fun u => Arena.exists_nameOf u.2
  choose name hname using hnamed
  have hinjective : Function.Injective name := fun u v h =>
    Fin.ext (hx.wellFormed.name_inj (hname u) (h ▸ hname v))
  have hsub : Set.range name ⊆ {s | ∃ w, op.Occurs ⟨s, w⟩} := by
    rintro _ ⟨u, rfl⟩
    exact hx.sound.occurs (hname u)
  calc (x.arena.size : ℕ∞)
      = ENat.card (Fin x.arena.size) := by simp
    _ = (Set.range name).encard := by
      rw [← Set.image_univ, hinjective.encard_image, Set.encard_univ]
    _ ≤ {s | ∃ w, op.Occurs ⟨s, w⟩}.encard := Set.encard_le_encard hsub

theorem size_le (hfinite : {s | ∃ w, op.Occurs ⟨s, w⟩}.Finite) :
    x.arena.size ≤ {s | ∃ w, op.Occurs ⟨s, w⟩}.ncard := by
  have h := hx.size_le_encard
  rw [← hfinite.cast_ncard_eq] at h
  exact_mod_cast h

end Coherent

namespace Exploration

open Arena

variable {settings : Settings} {monitor : Monitor}
  {x y : Exploration S L} {item : WorkItem}

/-- An item that was not done and is now has found something. -/
theorem exists_finds {q : List WorkItem} (hx : Settled op ⟨x.arena, item :: q⟩)
    (h : x.snapshot.chart.Includes y.snapshot.chart) (hnot : ¬ x.snapshot.chart.Done item)
    (hdone : y.snapshot.chart.Done item) :
    ∃ f, ¬ x.snapshot.chart.Finds f ∧ y.snapshot.chart.Finds f := by
  cases item with
  | explore u => exact ⟨.explored u, hnot, hdone⟩
  | examine u h => exact ⟨.examined u h, hnot, hdone⟩
  | reconcile k t =>
    obtain ⟨hk, -⟩ := hx.due List.mem_cons_self
    obtain ⟨e, he, hentry⟩ : ∃ e, x.snapshot.chart.InComponent k e ∧
        ¬ x.snapshot.chart.HasEntry t e := by
      simpa [Chart.Done] using hnot
    exact ⟨.entry t e, hentry, hdone e ((h.inComponent hk).mpr he)⟩

variable [Std.LawfulEqOrd L] [DecidableEq S]

/-- With every item less is left to be found, or the same and one item less. -/
theorem unfound_of_continues (hx : Settled op x.snapshot)
    (h : TurnsTo op settings monitor x (.continues y)) {n : Nat} (hn : y.arena.size ≤ n) :
    (y.snapshot.chart.unfound n).ncard < (x.snapshot.chart.unfound n).ncard ∨
      y.snapshot.chart = x.snapshot.chart ∧ y.pending.items.length < x.pending.items.length := by
  have hincludes := includes_of_continues hx h
  have hy : Settled op y.snapshot := settled_of_turn hx (turn_eq_ok_iff.mpr h)
  cases h with
  | @continues item q z _ hpop hyes hperform haccount =>
    have hsnapshot := snapshot_of_account haccount
    have htaking := settled_taking hx hpop
    by_cases hdone : x.snapshot.chart.Done item
    · have hsame := perform_of_done (x := x.taking item q) htaking hdone
      cases hsame.symm.trans hperform
      refine .inr ⟨by rw [hsnapshot]; rfl, ?_⟩
      have hitems : y.pending.items = q.items := congrArg (·.items) hsnapshot
      rw [hitems, Worklist.items_of_pop hpop]
      exact Nat.lt_succ_self _
    · obtain ⟨-, -, hdone'⟩ :=
        (perform_advances (x := x.taking item q) htaking).of_eq_ok hperform
      rw [← hsnapshot] at hdone'
      obtain ⟨f, hnot, hfound⟩ := exists_finds (q := q.items) htaking hincludes hdone hdone'
      have hbelow : f.Below n := (hy.toCoherent.below_of_finds hfound).mono hn
      refine .inl (Set.ncard_lt_ncard ⟨hincludes.unfound_subset n, fun hsub => ?_⟩
        (Chart.finite_unfound _ n))
      exact (hsub ⟨hbelow, hnot⟩).2 hfound

/-- If only finitely many states occur, an exploration that nobody stops ends. -/
theorem exists_run_finished (settings : Settings) (x : Exploration S L)
    (hx : Settled op x.snapshot) (hfinite : {s | ∃ w, op.Occurs ⟨s, w⟩}.Finite) :
    ∃ fuel y, run op settings .unbounded fuel x = .ok (some (.finished y)) := by
  obtain ⟨t, ht⟩ := exists_turnsTo settings .unbounded hx
  cases t with
  | finished y => exact ⟨1, y, run_of_finished ht⟩
  | cancelled y => cases ht with
    | cancelled hpop hno => cases hno
  | continues y =>
    have hy : Settled op y.snapshot := settled_of_turn hx (turn_eq_ok_iff.mpr ht)
    have hless := unfound_of_continues hx ht (hy.toCoherent.size_le hfinite)
    obtain ⟨fuel, z, hz⟩ := exists_run_finished settings y hy hfinite
    exact ⟨fuel + 1, z, (run_of_continues ht).trans hz⟩
termination_by ((x.snapshot.chart.unfound {s | ∃ w, op.Occurs ⟨s, w⟩}.ncard).ncard,
  x.pending.items.length)
decreasing_by
  rcases hless with hless | ⟨hsame, hless⟩
  · exact Prod.Lex.left _ _ hless
  · rw [hsame]
    exact Prod.Lex.right _ hless

variable [DecidableEq L]

/-- Whatever the operand, a run ends if the monitor refuses one of the turns to come. -/
theorem exists_run_of_refused (settings : Settings) (n : Nat) {x : Exploration S L}
    (hx : Settled op x.snapshot) (hno : monitor (x.processed + n) = false) :
    ∃ y, run op settings monitor (n + 1) x = .ok (some (.finished y)) ∨
      run op settings monitor (n + 1) x = .ok (some (.cancelled y)) := by
  obtain ⟨t, ht⟩ := exists_turnsTo settings monitor hx
  cases t with
  | finished y => exact ⟨y, .inl (run_of_finished ht)⟩
  | cancelled y => exact ⟨y, .inr (run_of_cancelled ht)⟩
  | continues y =>
    obtain ⟨-, -, hprocessed⟩ := asks_of_continues ht
    have hy : Settled op y.snapshot := settled_of_turn hx (turn_eq_ok_iff.mpr ht)
    rw [run_of_continues ht]
    cases n with
    | zero => cases ht with
      | continues hpop hyes => cases hno.symm.trans hyes
    | succ n =>
      refine exists_run_of_refused settings n hy ?_
      rw [hprocessed, Nat.add_assoc, Nat.add_comm 1]
      exact hno

/-! ## From the start -/

omit [DecidableEq L] in
theorem exists_start_finished (settings : Settings)
    (hfinite : {s | ∃ w, op.Occurs ⟨s, w⟩}.Finite) :
    ∃ fuel x, start op settings .unbounded fuel = .ok (some (.finished x)) := by
  obtain ⟨y, hy, hsettled⟩ := exists_seed op
  obtain ⟨fuel, x, hx⟩ := exists_run_finished settings (y.report (.seeded y.arena.size))
    hsettled hfinite
  exact ⟨fuel, x, (bind_of_eq_ok hy).trans hx⟩

theorem exists_start_of_refused (op : Operand S L) (settings : Settings) {n : Nat}
    (hno : monitor n = false) :
    ∃ x, start op settings monitor (n + 1) = .ok (some (.finished x)) ∨
      start op settings monitor (n + 1) = .ok (some (.cancelled x)) := by
  obtain ⟨y, hy, hsettled⟩ := exists_seed op
  obtain ⟨-, -, hprocessed⟩ := seed_asks y hy
  have hno' : monitor (y.processed + n) = false := by rwa [hprocessed, Nat.zero_add]
  obtain ⟨x, hx⟩ := exists_run_of_refused settings n (x := y.report (.seeded y.arena.size))
    hsettled hno'
  exact ⟨x, hx.imp (bind_of_eq_ok hy).trans (bind_of_eq_ok hy).trans⟩

end Exploration

end NestedWords
