import NestedWords.Proofs.Exploration.Twins
import NestedWords.Proofs.Exploration.Turns

/-!
# Explorations that keep pace

If one of two explorations that are `Twins` ends, so does the other, and the ends are twins again
(`EndsIn.exists_twin`). Both take turns on the items that they share. An item that only one of
them has is idle, so its turn leaves the other where it is (`Abreast.next`). No turn meets a fault
on the way: `turn_yields` holds of every exploration that is `Settled`.

The induction is on the turns of the one that is known to end. The other may have idle items
without bound in between, but only so many at a time: an idle turn leaves one item less.
-/

namespace NestedWords

open Arena

variable {S L : Type} [Ord L] [Std.TransOrd L] {A B op : Operand S L}
  {a b : Arena S L} {p q : Worklist}

/-- How the next items of two worklists compare. -/
inductive Next (A B : Operand S L) (a b : Arena S L) (p q : Worklist) : Prop
  | done (hp : p.pop = none) (hq : q.pop = none)
  | both {item : WorkItem} {p' q' : Worklist} (hp : p.pop = some (item, p'))
    (hq : q.pop = some (item, q')) (h : Abreast A B a b p' q')
  | left {item : WorkItem} {p' : Worklist} (hp : p.pop = some (item, p')) (hi : Idle A a item)
    (h : Abreast A B a b p' q)
  | right {item : WorkItem} {q' : Worklist} (hq : q.pop = some (item, q')) (hi : Idle A a item)
    (h : Abreast A B a b p q')

/-- Worklists that differ in idle items have the same next item, or one of them an idle one. -/
theorem Abreast.next (h : Abreast A B a b p q) : Next A B a b p q := by
  obtain ⟨rp, op⟩ := p
  obtain ⟨rq, oq⟩ := q
  obtain ⟨harena, hreconciliations, hothers⟩ := h
  obtain rfl : rp = rq := hreconciliations
  cases rp with
  | cons item rest => exact .both rfl rfl ⟨harena, rfl, hothers⟩
  | nil =>
    obtain hothers : AgreeBut (Idle A a) op oq := hothers
    cases hothers with
    | nil => exact .done rfl rfl
    | both h => exact .both rfl rfl ⟨harena, rfl, h⟩
    | left hi h => exact .left rfl hi ⟨harena, rfl, h⟩
    | right hi h => exact .right rfl hi ⟨harena, rfl, h⟩

namespace Exploration

variable [DecidableEq S] {x x' y y' z : Exploration S L} {settings : Settings} {item : WorkItem}

/-! ## Turns -/

theorem turn_of_pop_eq_none (op : Operand S L) (settings : Settings) (h : x.pending.pop = none) :
    ∃ y, TurnsTo op settings .unbounded x (.finished y) ∧ y.arena = x.arena ∧
      y.pending = x.pending := ⟨_, .finished h, rfl, rfl⟩

variable [Std.LawfulEqOrd L]

/-- A turn does the work of the next item, without a fault. -/
theorem turn_yields (settings : Settings) (hx : Settled op x.snapshot)
    (hpop : x.pending.pop = some (item, q)) :
    ∃ y z, perform op (x.taking item q) item = .ok y ∧
      TurnsTo op settings .unbounded x (.continues z) ∧ Settled op z.snapshot ∧
      z.arena = y.arena ∧ z.pending = y.pending := by
  obtain ⟨y, z, hy, hz, hturn⟩ := exists_continues settings .unbounded hx hpop rfl
  exact ⟨y, z, hy, hturn, settled_of_turn hx (turn_eq_ok_iff.mpr hturn), keeps_of_account hz⟩

/-! ## Runs -/

/-- The exploration goes on, with nobody to stop it, until it ends in the other. -/
def EndsIn (op : Operand S L) (settings : Settings) (x y : Exploration S L) : Prop :=
  ∃ fuel, run op settings .unbounded fuel x = .ok (some (.finished y))

omit [Std.LawfulEqOrd L] in
theorem EndsIn.of_turn (h : TurnsTo op settings .unbounded x (.continues y))
    (hy : EndsIn op settings y z) : EndsIn op settings x z := by
  obtain ⟨fuel, hy⟩ := hy
  exact ⟨fuel + 1, (run_of_continues h).trans hy⟩

/-- However many turns are allowed, the end is the same. -/
theorem EndsIn.unique (hx : Settled op x.snapshot) (hy : EndsIn op settings x y)
    (hz : EndsIn op settings x z) : y = z := by
  obtain ⟨n, hy⟩ := hy
  obtain ⟨m, hz⟩ := hz
  induction n generalizing x m with
  | zero => cases hy
  | succ n ih =>
    cases m with
    | zero => cases hz
    | succ m =>
      cases hpop : x.pending.pop with
      | none =>
        obtain ⟨w, hw, -⟩ := turn_of_pop_eq_none op settings hpop
        rw [run_of_finished hw] at hy hz
        cases hy
        cases hz
        rfl
      | some next =>
        obtain ⟨item, q⟩ := next
        obtain ⟨-, w, -, hw, hsettled, -⟩ := turn_yields settings hx hpop
        rw [run_of_continues hw] at hy hz
        exact ih hsettled hy m hz

/-! ## Two runs -/

omit [Std.LawfulEqOrd L] [DecidableEq S] in
theorem twins_congr (h : Twins A B x y) (hx : x'.arena = x.arena) (hx' : x'.pending = x.pending)
    (hy : y'.arena = y.arena) (hy' : y'.pending = y.pending) : Twins A B x' y' := by
  unfold Twins
  rw [hx, hx', hy, hy']
  exact h

section
variable (settings : Settings) (hx : Settled A x.snapshot) (hp : x.pending.pop = some (item, p))
include hx hp

/-- A turn on an item that both have. -/
theorem turn_both (hAB : A.SameTransitions B) (hy : Settled B y.snapshot)
    (hq : y.pending.pop = some (item, q)) (h : Abreast A B x.arena y.arena p q) :
    ∃ x' y', TurnsTo A settings .unbounded x (.continues x') ∧
      TurnsTo B settings .unbounded y (.continues y') ∧ Settled A x'.snapshot ∧
      Settled B y'.snapshot ∧ Twins A B x' y' := by
  obtain ⟨x₁, x₂, hx₁, hturn, hsettled, harena, hpending⟩ := turn_yields settings hx hp
  obtain ⟨y₁, y₂, hy₁, hturn', hsettled', harena', hpending'⟩ := turn_yields settings hy hq
  have hperform : Twins A B x₁ y₁ := perform_twins hAB
    (x := x.taking item p) (y := y.taking item q) h item x₁ y₁ hx₁ hy₁
  exact ⟨x₂, y₂, hturn, hturn', hsettled, hsettled',
    twins_congr hperform harena hpending harena' hpending'⟩

/-- A turn on an item that only one of them has, after which it has one item less. -/
theorem turn_left (hi : Idle A x.arena item) (h : Abreast A B x.arena y.arena p y.pending) :
    ∃ x', TurnsTo A settings .unbounded x (.continues x') ∧ Settled A x'.snapshot ∧
      Twins A B x' y ∧ x'.pending.items.length < x.pending.items.length := by
  obtain ⟨x₁, x₂, hx₁, hturn, hsettled, harena, hpending⟩ := turn_yields settings hx hp
  obtain ⟨hperform, hsame⟩ := perform_left (x := x.taking item p) h hi x₁ hx₁
  refine ⟨x₂, hturn, hsettled, twins_congr hperform harena hpending rfl rfl, ?_⟩
  rw [hpending, hsame, Worklist.items_of_pop hp]
  exact Nat.lt_succ_self _

end

/-- Of two explorations alongside each other the second ends if the first does. -/
theorem EndsIn.exists_twin (hAB : A.SameTransitions B) (h : Twins A B x y)
    (hx : Settled A x.snapshot) (hy : Settled B y.snapshot) (hend : EndsIn A settings x x') :
    ∃ y', EndsIn B settings y y' ∧ Twins A B x' y' := by
  obtain ⟨n, hend⟩ := hend
  induction n generalizing x y with
  | zero => cases hend
  | succ n ih =>
    -- the second may have to catch up before the first can take its turn
    induction hm : y.pending.items.length using Nat.strongRecOn generalizing y with
    | ind m ihm =>
      cases h.next with
      | done hp hq =>
        obtain ⟨z, hz, harena, hpending⟩ := turn_of_pop_eq_none A settings hp
        obtain ⟨y', hy', harena', hpending'⟩ := turn_of_pop_eq_none B settings hq
        rw [run_of_finished hz] at hend
        cases hend
        exact ⟨y', ⟨1, run_of_finished hy'⟩, twins_congr h harena hpending harena' hpending'⟩
      | both hp hq h' =>
        obtain ⟨x₁, y₁, hturn, hturn', hsettled, hsettled', h₁⟩ :=
          turn_both settings hx hp hAB hy hq h'
        rw [run_of_continues hturn] at hend
        obtain ⟨y', hy', h''⟩ := ih h₁ hsettled hsettled' hend
        exact ⟨y', hy'.of_turn hturn', h''⟩
      | left hp hi h' =>
        obtain ⟨x₁, hturn, hsettled, h₁, -⟩ := turn_left settings hx hp hi h'
        rw [run_of_continues hturn] at hend
        exact ih h₁ hsettled hy hend
      | @right item q' hq hi h' =>
        have hflip : Twins B A (y.taking item q') x := Twins.symm h' hAB
        obtain ⟨y₁, hturn, hsettled, h₁, hless⟩ :=
          turn_left settings hy hq (hi.twin hAB h.arena) hflip
        obtain ⟨y', hy', h''⟩ := ihm _ (hm ▸ hless) (h₁.symm hAB.symm) hsettled rfl
        exact ⟨y', hy'.of_turn hturn, h''⟩

/-! ## From the start -/

/-- The exploration of the operand, with nobody to stop it, ends so. -/
def Explores (op : Operand S L) (settings : Settings) (x : Exploration S L) : Prop :=
  ∃ fuel, start op settings .unbounded fuel = .ok (some (.finished x))

omit [Std.LawfulEqOrd L] in
/-- An exploration that comes to its end does so with nobody to stop it. -/
theorem explores_of_start {monitor : Monitor} {fuel : Nat}
    (h : start op settings monitor fuel = .ok (some (.finished x))) : Explores op settings x := by
  obtain ⟨y, hy, h⟩ := bind_eq_ok h
  exact ⟨fuel, (bind_of_eq_ok hy).trans (run_unbounded h)⟩

omit [Std.LawfulEqOrd L] in
theorem explores_iff : Explores op settings x ↔
    ∃ y, seed op = .ok y ∧ EndsIn op settings (y.report (.seeded y.arena.size)) x := by
  constructor
  · intro h
    obtain ⟨fuel, h⟩ := h
    obtain ⟨y, hy, h⟩ := bind_eq_ok h
    exact ⟨y, hy, fuel, h⟩
  · intro h
    obtain ⟨y, hy, fuel, h⟩ := h
    exact ⟨fuel, (bind_of_eq_ok hy).trans h⟩

theorem Explores.unique (hx : Explores op settings x) (hy : Explores op settings y) : x = y := by
  obtain ⟨z, hz, hx⟩ := explores_iff.mp hx
  obtain ⟨z', hz', hy⟩ := explores_iff.mp hy
  cases hz.symm.trans hz'
  have hsettled : Settled op z.snapshot := seed_yields.of_eq_ok hz
  exact hx.unique (x := z.report _) hsettled hy

/-- An operand can be explored if one with the same transitions can. -/
theorem Explores.exists_twin (hAB : A.SameTransitions B) (h : Explores A settings x) :
    ∃ y, Explores B settings y ∧ Twins A B x y := by
  obtain ⟨z, hz, h⟩ := explores_iff.mp h
  obtain ⟨w, hw, hsettled⟩ := exists_seed B
  have hsettled' : Settled A z.snapshot := seed_yields.of_eq_ok hz
  have hseed : Twins A B (z.report (.seeded z.arena.size)) (w.report (.seeded w.arena.size)) :=
    twins_congr (seed_twins hAB z w hz hw) rfl rfl rfl rfl
  obtain ⟨y, hy, h'⟩ := EndsIn.exists_twin hAB hseed hsettled' hsettled h
  exact ⟨y, explores_iff.mpr ⟨w, hw, hy⟩, h'⟩

end Exploration

end NestedWords
