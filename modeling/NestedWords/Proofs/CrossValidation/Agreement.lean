import NestedWords.Proofs.CrossValidation
import NestedWords.Proofs.Exploration.Components

/-!
# What a second look finds out

A second look that passes has compared the answers of an operand with an arena, node by node
(`crossValidate_ensures`): the flags, letter by letter the targets of internal transitions and of
calls, and the returns under each caller for which these were looked up (`Agrees`). If the arena
is what an exploration of an operand came to, the answers compared are those of two operands, and
they are the same wherever the exploration got (`agrees_of_crossValidate`).

Returns are the exception. Under a caller they are compared only where the explored operand gives
the state a letter to return with, as otherwise none were looked up, and only for the letters that
the second operand offers. So a second operand may return where the first never does, and no one
notices (`crossValidate_reticent`).
-/

namespace NestedWords

variable {S L : Type} [DecidableEq S] [Ord L] [Std.TransOrd L]

namespace CrossValidation

open Arena

/-! ## Checks that pass -/

section
variable {a : Arena S L} {op : Operand S L} {n : Node S L}

omit [Std.TransOrd L] in
theorem idsOf_ensures {names : List S} : Ensures (idsOf a names) fun ids =>
    (∀ t ∈ names, ∃ v, a.idOf t = some v) ∧ ∀ v, v ∈ ids ↔ ∃ t ∈ names, a.idOf t = some v := by
  intro ids h
  obtain ⟨vs, hvs, h⟩ := bind_eq_ok h
  cases h
  obtain ⟨hnames, hfound⟩ := exists_of_mapM_eq_ok hvs
  have hknown : ∀ t ∈ names, ∃ v ∈ vs, a.idOf t = some v := by
    intro t ht
    obtain ⟨v, hv, h⟩ := hnames t ht
    split at h
    · next hid => cases h; exact ⟨v, hv, hid⟩
    · cases h
  have hnamed : ∀ v ∈ vs, ∃ t ∈ names, a.idOf t = some v := by
    intro v hv
    obtain ⟨t, ht, h⟩ := hfound v hv
    split at h
    · next hid => cases h; exact ⟨t, ht, hid⟩
    · cases h
  refine ⟨fun t ht => (hknown t ht).imp fun v hv => hv.2, fun v => ?_⟩
  rw [Std.ExtTreeSet.mem_ofList, List.contains_iff_mem]
  constructor
  · exact hnamed v
  · rintro ⟨t, ht, hv⟩
    obtain ⟨w, hw, hw'⟩ := hknown t ht
    cases hv.symm.trans hw'
    exact hw

/-- Under the letters, the edges lead to just the states that the answers name. -/
def Matches (a : Arena S L) (letters : FinSet L) (edges : Table L (FinSet Nat))
    (answer : L → List S) : Prop :=
  ∀ l ∈ letters, (∀ t ∈ answer l, ∃ v, a.idOf t = some v) ∧
    ∀ v, (l, v) ∈ edges ↔ ∃ t ∈ answer l, a.idOf t = some v

variable [Std.LawfulEqOrd L]

theorem checkTargets_ensures {letters : FinSet L} {known : Table L (FinSet Nat)}
    {question : L → Query S L} {answer : L → List S} {fault : Fault S} :
    Ensures (checkTargets a letters known question answer fault) fun _ =>
      Matches a letters known answer := by
  intro asked h l hl
  obtain ⟨_, _, hstep⟩ := (exists_of_mapM_eq_ok h).1 l (Std.ExtTreeSet.mem_toList.mpr hl)
  obtain ⟨ids, hids, hstep⟩ := bind_eq_ok hstep
  obtain ⟨_, hsame, -⟩ := bind_eq_ok hstep
  obtain ⟨hnamed, hmem⟩ := idsOf_ensures ids hids
  refine ⟨hnamed, fun v => ?_⟩
  rw [← hmem, ← beq_iff_eq.mp (ensure_ensures _ hsame)]
  exact Iff.rfl

/-- The second look found nothing amiss at the node. -/
structure Agrees (a : Arena S L) (op : Operand S L) (n : Node S L) : Prop where
  isInitial : n.isInitial = op.initial.contains n.name
  isFinal : n.isFinal = op.isFinal n.name
  internal : Matches a (op.internalLetters n.name) n.internalOut (op.internalSuccessors n.name)
  internalLetters : ∀ {l v}, (l, v) ∈ n.internalOut → l ∈ op.internalLetters n.name
  call : Matches a (op.callLetters n.name) n.callOut (op.callSuccessors n.name)
  callLetters : ∀ {l v}, (l, v) ∈ n.callOut → l ∈ op.callLetters n.name
  returns : ∀ {p}, p ∈ n.examined → ∃ h, a.name p = .ok h ∧
    Matches a (op.returnLetters n.name) (n.returnOut.row p) (op.returnSuccessors n.name h)

/-- The targets agree, and no edge has a letter that there is not any more. -/
theorem checkEdges_ensures {letters : FinSet L} {known : Table L (FinSet Nat)}
    {question : L → Query S L} {answer : L → List S} {fault fault' : Fault S} :
    Ensures (checkEdges a letters known question answer fault fault') fun _ =>
      Matches a letters known answer ∧ ∀ {l v}, (l, v) ∈ known → l ∈ letters := by
  intro asked h
  obtain ⟨_, htargets, h⟩ := bind_eq_ok h
  obtain ⟨_, hletters, -⟩ := bind_eq_ok h
  refine ⟨checkTargets_ensures _ htargets, fun he => Std.ExtTreeSet.contains_iff_mem.mp ?_⟩
  exact List.all_eq_true.mp (ensure_ensures _ hletters) _
    (Table.mem_keys.mpr ⟨_, Table.getElem?_of_mem he⟩)

theorem checkNode_ensures : Ensures (checkNode a op n) fun _ => Agrees a op n := by
  intro asked h
  obtain ⟨_, hflags, h⟩ := bind_eq_ok h
  obtain ⟨_, hinitial, hflags⟩ := bind_eq_ok hflags
  obtain ⟨_, hfinal, -⟩ := bind_eq_ok hflags
  obtain ⟨_, hinternal, h⟩ := bind_eq_ok h
  obtain ⟨_, hinternal, -⟩ := bind_eq_ok hinternal
  obtain ⟨htargets, hletters⟩ := checkEdges_ensures _ hinternal
  obtain ⟨_, hcall, h⟩ := bind_eq_ok h
  obtain ⟨_, hcall, -⟩ := bind_eq_ok hcall
  obtain ⟨htargets', hletters'⟩ := checkEdges_ensures _ hcall
  obtain ⟨_, hreturns, -⟩ := bind_eq_ok h
  refine ⟨beq_iff_eq.mp (ensure_ensures _ hinitial), beq_iff_eq.mp (ensure_ensures _ hfinal),
    htargets, hletters, htargets', hletters', fun {p} hp => ?_⟩
  obtain ⟨_, _, hreturn⟩ := (exists_of_mapM_eq_ok hreturns).1 p (Std.ExtTreeSet.mem_toList.mpr hp)
  obtain ⟨below, hbelow, hreturn⟩ := bind_eq_ok hreturn
  obtain ⟨_, htargets, -⟩ := bind_eq_ok hreturn
  exact ⟨below, hbelow, checkTargets_ensures _ htargets⟩

variable [DecidableEq L]

theorem crossValidate_ensures : Ensures (crossValidate a op) fun _ => ∀ n ∈ a.nodes.toList,
    Agrees a op n := by
  intro asked h n hn
  obtain ⟨_, hnodes, -⟩ := bind_eq_ok h
  obtain ⟨asked', -, hasked⟩ := (exists_of_mapM_eq_ok hnodes).1 n hn
  exact checkNode_ensures asked' hasked

end

/-! ## Two operands -/

section
variable {A B : Operand S L} {a : Arena S L} {s t h : S} {l : L} {u p : Nat} {n : Node S L}

theorem idOf_eq_some_iff (ha : Complete A a) : a.idOf s = some u ↔ a.chart.nameOf u = some s :=
  Reachable.Exact.idOf_eq_some_iff (r := { arena := a, deadEndsComputed := false }) ⟨ha, .refl a⟩

/-- Edges that are the transitions of the first operand are, under the letters of the second, its
transitions too. -/
theorem Matches.agree (ha : Complete A a) {letters letters' : FinSet L}
    {edges : Table L (FinSet Nat)} {answer answer' : L → List S}
    (h : Matches a letters' edges answer')
    (hedges : (∃ v, a.chart.nameOf v = some t ∧ (l, v) ∈ edges) ↔ l ∈ letters ∧ t ∈ answer l)
    (hl : l ∈ letters') : t ∈ answer' l ↔ l ∈ letters ∧ t ∈ answer l := by
  obtain ⟨hnamed, hmem⟩ := h l hl
  rw [← hedges]
  constructor
  · intro ht
    obtain ⟨v, hv⟩ := hnamed t ht
    exact ⟨v, (idOf_eq_some_iff ha).mp hv, (hmem v).mpr ⟨t, ht, hv⟩⟩
  · rintro ⟨v, hv, he⟩
    obtain ⟨t', ht, hv'⟩ := (hmem v).mp he
    cases hv.symm.trans ((idOf_eq_some_iff ha).mp hv')
    exact ht

/-- If besides no edge has another letter, the transitions are the same. -/
theorem Matches.agree_all (ha : Complete A a) {letters letters' : FinSet L}
    {edges : Table L (FinSet Nat)} {answer answer' : L → List S}
    (h : Matches a letters' edges answer')
    (hletters : ∀ {l v}, (l, v) ∈ edges → l ∈ letters')
    (hedges : (∃ v, a.chart.nameOf v = some t ∧ (l, v) ∈ edges) ↔ l ∈ letters ∧ t ∈ answer l) :
    l ∈ letters' ∧ t ∈ answer' l ↔ l ∈ letters ∧ t ∈ answer l := by
  constructor
  · exact fun ht => (h.agree ha hedges ht.1).mp ht.2
  · intro ht
    obtain ⟨v, -, he⟩ := hedges.mpr ht
    exact ⟨hletters he, (h.agree ha hedges (hletters he)).mpr ht⟩

section
variable (ha : Complete A a) (hn : a.nodes[u]? = some n) (hB : Agrees a B n)
include ha hn hB

theorem Agrees.initial_iff : n.name ∈ B.initial ↔ n.name ∈ A.initial := by
  have hu : a.chart.nameOf u = some n.name := field_eq hn
  have hinitial : a.chart.isInitial u = n.isInitial := field_eq hn
  rw [← List.contains_iff_mem, ← hB.isInitial, ← hinitial]
  constructor
  · exact ha.sound.isInitial hu
  · intro hs
    obtain ⟨v, hv, hi, -⟩ := ha.starts _ hs
    rwa [ha.name_inj hu hv]

theorem Agrees.isFinal_eq : B.isFinal n.name = A.isFinal n.name := by
  have hfinal : a.chart.isFinal u = n.isFinal := field_eq hn
  rw [← hB.isFinal, ← hfinal, ha.sound.isFinal (field_eq hn)]

theorem Agrees.internal_iff :
    l ∈ B.internalLetters n.name ∧ t ∈ B.internalSuccessors n.name l ↔
      l ∈ A.internalLetters n.name ∧ t ∈ A.internalSuccessors n.name l := by
  have hout : a.chart.internalOut u = n.internalOut := field_eq hn
  exact hB.internal.agree_all ha hB.internalLetters (hout ▸ ha.internal_iff (field_eq hn))

theorem Agrees.call_iff :
    l ∈ B.callLetters n.name ∧ t ∈ B.callSuccessors n.name l ↔
      l ∈ A.callLetters n.name ∧ t ∈ A.callSuccessors n.name l := by
  have hout : a.chart.callOut u = n.callOut := field_eq hn
  exact hB.call.agree_all ha hB.callLetters (hout ▸ ha.call_iff (field_eq hn))

/-- Under a caller for which returns were looked up, they agree for the letters of the second
operand. -/
theorem Agrees.ret_iff (hp : p ∈ n.examined) (hh : a.chart.nameOf p = some h)
    (hl : l ∈ B.returnLetters n.name) : t ∈ B.returnSuccessors n.name h l ↔
      l ∈ A.returnLetters n.name ∧ t ∈ A.returnSuccessors n.name h l := by
  have hu : a.chart.nameOf u = some n.name := field_eq hn
  have hout : a.returnOut u = n.returnOut := field_eq hn
  have hexamined : a.chart.examined u = n.examined := field_eq hn
  have hdown : a.chart.HasDown u (.caller p) := ha.sound.examined (hexamined ▸ hp)
  obtain ⟨h', hname, hmatches⟩ := hB.returns hp
  cases (name_eq_ok hh).symm.trans hname
  have hoccurs : ∃ w, A.Occurs ⟨n.name, h :: w⟩ :=
    Operand.paired_caller_iff.mp ((ha.hasDown_iff hu (d := .caller p) ⟨h, hh, rfl⟩).mp hdown)
  refine hmatches.agree ha ?_ hl
  rw [← and_iff_right hoccurs (b := _ ∧ _), ← ha.ret_iff hu]
  rw [hout]
  constructor
  · exact fun hv => ⟨p, hv.imp fun v hv => ⟨hh, hv⟩⟩
  · rintro ⟨k, v, hk, hv, he⟩
    cases ha.name_inj hk hh
    exact ⟨v, hv, he⟩

end
end

end CrossValidation

omit [DecidableEq S] in
/-- At the end of an exploration all callers of a state that has letters to return with have been
examined. -/
theorem Settled.exists_examined {A : Operand S L} {x : Snapshot S L} (hx : Settled A x)
    (hitems : x.items = []) {u : Nat} {s h : S} {w : List S} (hu : x.chart.nameOf u = some s)
    (hletters : A.returnLetters s ≠ ∅) (ho : A.Occurs ⟨s, h :: w⟩) :
    ∃ p, x.chart.nameOf p = some h ∧ p ∈ x.chart.examined u := by
  have ha : Complete A x.arena := hx.complete hitems
  have hexplored := hx.explored_of_name hitems hu
  have hcandidate : x.chart.candidate u = true := by
    rw [← Bool.not_eq_false]
    intro hc
    exact hletters ((hx.sound.letters hexplored hu).symm.trans (hx.sound.candidate hc).2)
  obtain ⟨v, d, hv, htop, hdown⟩ := ha.exists_hasDown ho
  obtain rfl : v = u := ha.name_inj hv hu
  cases d with
  | bottom => cases htop
  | caller p =>
    obtain ⟨_, hp, heq⟩ := htop
    cases heq
    refine ⟨p, hp, (hx.awaited hexplored hcandidate hdown).resolve_right fun hi => ?_⟩
    rw [hitems] at hi
    cases hi

namespace Exploration

open Arena CrossValidation

variable {A B : Operand S L} {settings : Settings} {monitor : Monitor} {fuel : Nat}
  {x : Exploration S L} {asked : List (Query S L)}

variable [Std.LawfulEqOrd L] [DecidableEq L]

/-- If a second look with the operand `B` at what was explored of `A` passes, then `B` agrees with
`A` on all states that occur: whether they are initial and final, and which internal transitions
and calls leave them. Where `A` has a letter to return with, `B` agrees for each letter that it
offers on the returns under each caller with which the state occurs. -/
theorem agrees_of_crossValidate
    (hx : start A settings monitor fuel = .ok (some (.finished x)))
    (hB : crossValidate x.arena B = .ok asked) :
    (∀ s w, A.Occurs ⟨s, w⟩ →
      (s ∈ B.initial ↔ s ∈ A.initial) ∧ B.isFinal s = A.isFinal s ∧
      (∀ l t, l ∈ B.internalLetters s ∧ t ∈ B.internalSuccessors s l ↔
        l ∈ A.internalLetters s ∧ t ∈ A.internalSuccessors s l) ∧
      ∀ l t, l ∈ B.callLetters s ∧ t ∈ B.callSuccessors s l ↔
        l ∈ A.callLetters s ∧ t ∈ A.callSuccessors s l) ∧
    ∀ s h w, A.Occurs ⟨s, h :: w⟩ → A.returnLetters s ≠ ∅ → ∀ l ∈ B.returnLetters s, ∀ t,
      t ∈ B.returnSuccessors s h l ↔ l ∈ A.returnLetters s ∧ t ∈ A.returnSuccessors s h l := by
  obtain ⟨hsettled, hitems⟩ := settled_of_start hx
  have ha : Complete A x.arena := hsettled.complete hitems
  have hnode : ∀ {s w}, A.Occurs ⟨s, w⟩ → ∃ (u : Nat) (n : Node S L),
      x.arena.nodes[u]? = some n ∧ n.name = s ∧ Agrees x.arena B n := by
    intro s w ho
    obtain ⟨u, hu⟩ := ha.nameOf_iff.mpr ⟨w, ho⟩
    obtain ⟨n, hn, hname⟩ := exists_node_of_nameOf hu
    exact ⟨u, n, hn, hname,
      crossValidate_ensures asked hB n (Array.mem_toList_iff.mpr (Array.mem_of_getElem? hn))⟩
  constructor
  · intro s w ho
    obtain ⟨u, n, hn, rfl, hagrees⟩ := hnode ho
    exact ⟨hagrees.initial_iff ha hn, hagrees.isFinal_eq ha hn,
      fun l t => hagrees.internal_iff ha hn, fun l t => hagrees.call_iff ha hn⟩
  · intro s h w ho hletters l hl t
    obtain ⟨u, n, hn, rfl, hagrees⟩ := hnode ho
    have hu : x.arena.chart.nameOf u = some n.name := field_eq hn
    obtain ⟨p, hp, hexamined⟩ := hsettled.exists_examined hitems hu hletters ho
    have hexamined : p ∈ x.arena.examined u := hexamined
    rw [Arena.examined, field_eq hn] at hexamined
    exact hagrees.ret_iff ha hn hexamined hp hl

/-- The explorations that are looked at a second time below all pass. -/
theorem exists_crossValidate {A B : Automaton String String}
    (h : (finished? (start A.operand {} .unbounded 40)).any (fun x =>
      (crossValidate x.arena B.operand).isOk) = true) :
    ∃ x asked, start A.operand {} .unbounded 40 = .ok (some (.finished x)) ∧
      crossValidate x.arena B.operand = .ok asked := by
  obtain ⟨x, hx, hok⟩ := (Option.any_eq_true _ _).mp h
  cases hasked : crossValidate x.arena B.operand with
  | error fault => rw [hasked] at hok; cases hok
  | ok asked => exact ⟨x, asked, eq_ok_of_finished hx, hasked⟩

/-- A second operand that knows of a transition where the first does not get agrees with it on
the returns from a call of the main procedure. -/
theorem agrees_of_crossValidate_recursion :
    let A := Computation.recursion.operand
    let B := (Computation.recursion.add (.internal "lost" "i" "done")).operand
    ∃ x asked, start A {} .unbounded 40 = .ok (some (.finished x)) ∧
      crossValidate x.arena B = .ok asked ∧ B.isFinal "done" = A.isFinal "done" ∧
      ∀ t, t ∈ B.returnSuccessors "exit" "main" "r" ↔
        "r" ∈ A.returnLetters "exit" ∧ t ∈ A.returnSuccessors "exit" "main" "r" := by
  intro A B
  obtain ⟨x, asked, hx, hasked⟩ := exists_crossValidate (A := Computation.recursion)
    (B := Computation.recursion.add (.internal "lost" "i" "done")) (by decide +kernel)
  obtain ⟨hstates, hreturns⟩ := agrees_of_crossValidate hx hasked
  have hc : A.Step ⟨"main", []⟩ (.call "c") ⟨"proc", ["main"]⟩ :=
    .call (by decide +kernel) (by decide +kernel)
  have hi : A.Step ⟨"proc", ["main"]⟩ (.internal "i") ⟨"exit", ["main"]⟩ :=
    .internal (by decide +kernel) (by decide +kernel)
  have hr : A.Step ⟨"exit", ["main"]⟩ (.ret "r") ⟨"done", []⟩ :=
    .ret (by decide +kernel) (by decide +kernel)
  have hexit : A.Occurs ⟨"exit", ["main"]⟩ :=
    ⟨"main", by decide +kernel, _, .cons hc (.cons hi (.nil _))⟩
  have hdone : A.Occurs ⟨"done", []⟩ :=
    ⟨"main", by decide +kernel, _, .cons hc (.cons hi (.cons hr (.nil _)))⟩
  refine ⟨x, asked, hx, hasked, (hstates _ _ hdone).2.1, ?_⟩
  exact hreturns _ _ _ hexit (fun hempty => by
    have hmem : "r" ∈ A.returnLetters "exit" := by decide +kernel
    rw [hempty] at hmem
    exact Std.ExtTreeSet.not_mem_empty hmem) "r" (by decide +kernel)

/-- A procedure that never returns. -/
def reticent : Automaton String String := .ofFacts [.initial "p", .call "p" "c" "q"]

/-- The same procedure, but with a return. -/
def talkative : Automaton String String := reticent.add (.ret "q" "p" "r" "p")

/-- A return goes unnoticed in a state where the first operand has no letter to return with. -/
theorem crossValidate_reticent :
    let A := reticent.operand
    let B := talkative.operand
    ∃ x asked, start A {} .unbounded 40 = .ok (some (.finished x)) ∧
      crossValidate x.arena B = .ok asked ∧ A.Occurs ⟨"q", ["p"]⟩ ∧
      ¬ ("r" ∈ B.returnLetters "q" ∧ "p" ∈ B.returnSuccessors "q" "p" "r" ↔
        "r" ∈ A.returnLetters "q" ∧ "p" ∈ A.returnSuccessors "q" "p" "r") := by
  intro A B
  obtain ⟨x, asked, hx, hasked⟩ := exists_crossValidate (A := reticent) (B := talkative)
    (by decide +kernel)
  have hc : A.Step ⟨"p", []⟩ (.call "c") ⟨"q", ["p"]⟩ :=
    .call (by decide +kernel) (by decide +kernel)
  refine ⟨x, asked, hx, hasked, ⟨"p", by decide +kernel, _, .cons hc (.nil _)⟩, ?_⟩
  decide +kernel

end Exploration

end NestedWords
