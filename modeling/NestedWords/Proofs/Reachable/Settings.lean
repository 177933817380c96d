import NestedWords.Proofs.Exploration.Settings
import NestedWords.Proofs.Liveness.Promotion
import NestedWords.Proofs.Reachable.Letters

/-!
# Settings do not change the forward answers

Explorations of one operand with any two settings end on the same arena
(`Exploration.Explores.arena_eq`). What follows an exploration checks this arena, which changes
nothing, and may search it for dead ends, which changes marks only (`Liveness.compute_promoted`).
So all that differs between two results is what they say of dead ends, and this only if one of
them knows of dead ends and the other does not (`settings_agree`).
-/

namespace NestedWords

variable {S L : Type} [DecidableEq S] [Ord L] [Std.TransOrd L] [Std.LawfulEqOrd L]
  {op : Operand S L} {settings settings' : Settings} {monitor : Monitor} {fuel : Nat}
  {r r' : Reachable S L} {a : Arena S L}

/-- With any two settings the exploration ends on the same arena. -/
theorem Exploration.Explores.arena_eq {x y : Exploration S L} (hx : Explores op settings x)
    (hy : Explores op settings' y) : x.arena = y.arena := by
  obtain ⟨fuel, hx⟩ := hx
  obtain ⟨o, ho, hrel⟩ := exists_start_alike settings' hx
  cases hrel with
  | some halike => cases halike with
    | finished h =>
      cases hy.unique ⟨fuel, ho⟩
      exact h.arena

variable [DecidableEq L]

/-- The computations are cancelled in the same place, or have results that give the same forward
answers. -/
inductive Outcome.Alike : Outcome S L → Outcome S L → Prop
  | reached {r r' : Reachable S L} (h : r.answers.forward = r'.answers.forward) :
      Alike (.reached r) (.reached r')
  | cancelled (explored : Nat) : Alike (.cancelled explored) (.cancelled explored)

namespace Computation

open Exploration

/-! ## Results on one arena -/

omit [DecidableEq S] [Std.LawfulEqOrd L] [DecidableEq L] in
/-- If a result has searched its arena for dead ends, this has promoted what is live. -/
theorem Concludes.promoted (h : Concludes settings a r) : a.Promoted r.arena := by
  unfold Concludes at h
  split at h
  · obtain ⟨m, hm, rfl⟩ := h
    exact Liveness.compute_promoted a m hm
  · subst h
    exact .refl a

omit [Std.LawfulEqOrd L] in
theorem Concludes.forward_eq (h : Concludes settings a r) (h' : Concludes settings' a r') :
    r.answers.forward = r'.answers.forward :=
  Reachable.forward_eq
    (Reachable.bare_eq (h.promoted.unmarked.trans h'.promoted.unmarked.symm))

omit [DecidableEq S] [Std.LawfulEqOrd L] [DecidableEq L] in
/-- Nothing but the search for dead ends tells apart what is concluded. -/
theorem Concludes.congr (hd : settings.computeDeadEnds = settings'.computeDeadEnds)
    (h : Concludes settings a r) : Concludes settings' a r := by
  unfold Concludes at h ⊢
  rwa [hd] at h

omit [DecidableEq S] [Std.LawfulEqOrd L] [DecidableEq L] in
theorem Concludes.arena_eq (hd : settings.computeDeadEnds = false) (h : Concludes settings a r) :
    r.arena = a := by
  unfold Concludes at h
  rw [hd] at h
  obtain rfl := h
  rfl

/-- Results with any two settings rest on one arena. -/
theorem Returns.exists_arena (h : Returns op settings r) (h' : Returns op settings' r') :
    ∃ a, Concludes settings a r ∧ Concludes settings' a r' := by
  obtain ⟨x, hx, h⟩ := h.exists_explores
  obtain ⟨y, hy, h'⟩ := h'.exists_explores
  exact ⟨x.arena, h, hx.arena_eq hy ▸ h'⟩

/-! ## Computations side by side -/

/-- Each computation has a counterpart with any other settings. -/
theorem exists_run_alike (settings' : Settings) {o : Option (Computation S L)}
    (h : run op settings monitor fuel = .ok o) :
    ∃ o', run op settings' monitor fuel = .ok o' ∧
      Option.Rel (fun c c' => c.outcome.Alike c'.outcome) o o' := by
  obtain ⟨t, ht, hrest⟩ := bind_eq_ok h
  obtain ⟨t', ht', halike⟩ := exists_start_alike settings' ht
  cases halike with
  | none =>
    cases hrest
    exact ⟨none, by rw [run, bind_of_eq_ok ht']; rfl, .none⟩
  | some halike => cases halike with
    | continues =>
      cases hrest
      exact ⟨none, by rw [run, bind_of_eq_ok ht']; rfl, .none⟩
    | cancelled halike =>
      cases hrest
      refine ⟨_, run_of_cancelled ht', .some ?_⟩
      show Outcome.Alike (.cancelled _) (.cancelled _)
      rw [explored, halike.arena]
      exact .cancelled _
    | finished halike =>
      obtain ⟨c, hc, hrest⟩ := bind_eq_ok hrest
      cases hrest
      obtain ⟨c', hrun', hc'⟩ := exists_run_of_finished ht'
      obtain ⟨r, hr, hconcludes⟩ := conclude_eq_ok hc
      obtain ⟨r', hr', hconcludes'⟩ := conclude_eq_ok hc'
      refine ⟨some c', hrun', .some ?_⟩
      rw [hr, hr']
      exact .reached (Concludes.forward_eq hconcludes (halike.arena ▸ hconcludes'))

/-- With whatever two settings, the computations on an operand under one monitor meet no fault,
take as many turns as each other, and are cancelled in the same place or give the same forward
answers, in the same order. Results with the same settings for dead ends are the same in all; if
only one of them has searched for dead ends, its arena is that of the other with more promoted. And
the search, on whatever arena, does no more than that. -/
theorem settings_agree (op : Operand S L) (settings settings' : Settings) :
    (∀ monitor fuel, ∃ o o', run op settings monitor fuel = .ok o ∧
      run op settings' monitor fuel = .ok o' ∧
      Option.Rel (fun c c' => c.outcome.Alike c'.outcome) o o') ∧
    (∀ r r', Returns op settings r → Returns op settings' r' →
      r.answers.forward = r'.answers.forward ∧
      (settings.computeDeadEnds = settings'.computeDeadEnds → r.answers = r'.answers) ∧
      (settings.computeDeadEnds = false → r.arena.Promoted r'.arena)) ∧
    ∀ (a : Arena S L) m, Liveness.compute a = .ok m → a.Promoted m.arena := by
  refine ⟨fun monitor fuel => ?_, fun r r' hr hr' => ?_, Liveness.compute_promoted⟩
  · obtain ⟨o, ho⟩ := exists_run op settings monitor fuel
    obtain ⟨o', ho', hrel⟩ := exists_run_alike settings' ho
    exact ⟨o, o', ho, ho', hrel⟩
  · obtain ⟨a, h, h'⟩ := hr.exists_arena hr'
    refine ⟨h.forward_eq h', fun hd => ?_, fun hd => ?_⟩
    · rw [(h.congr hd).unique h']
    · rw [h.arena_eq hd]
      exact h'.promoted

/-- All four states of `recursion` are promoted, whether or not anything is checked besides. -/
theorem settings_agree_recursion : ∃ r r' r'' m,
    Returns recursion.operand { computeDeadEnds := false } r ∧ Returns recursion.operand {} r' ∧
    Returns recursion.operand { selfCheck := false, crossValidate := true, progressInterval := 1 }
      r'' ∧
    r.answers.forward = r'.answers.forward ∧ r'.answers = r''.answers ∧
    r.liveStates = [] ∧ r'.liveStates = ["main", "proc", "exit", "done"] ∧
    r.arena.Promoted r'.arena ∧ Liveness.compute r.arena = .ok m ∧ r.arena.Promoted m.arena := by
  have hany : (result? (run recursion.operand { computeDeadEnds := false } .unbounded 40)).any
      (·.liveStates == []) = true := by decide +kernel
  have hany' : (result? (run recursion.operand {} .unbounded 40)).any
      (·.liveStates == ["main", "proc", "exit", "done"]) = true := by decide +kernel
  have hany'' : (result? (run recursion.operand
      { selfCheck := false, crossValidate := true, progressInterval := 1 } .unbounded 40)).isSome =
      true := by decide +kernel
  obtain ⟨r, hr, hnone⟩ := (Option.any_eq_true _ _).mp hany
  obtain ⟨r', hr', hlive⟩ := (Option.any_eq_true _ _).mp hany'
  obtain ⟨r'', hr''⟩ := Option.isSome_iff_exists.mp hany''
  have hreturns := returns_of_result hr
  have hreturns' := returns_of_result hr'
  have hreturns'' := returns_of_result hr''
  obtain ⟨m, hm, -⟩ := Liveness.compute_yields (hreturns.unmarked rfl).1.complete
  obtain ⟨-, hresults, hpromoted⟩ :=
    settings_agree recursion.operand { computeDeadEnds := false } {}
  obtain ⟨hforward, -, harena⟩ := hresults r r' hreturns hreturns'
  obtain ⟨-, hresults', -⟩ := settings_agree recursion.operand {}
    { selfCheck := false, crossValidate := true, progressInterval := 1 }
  obtain ⟨-, hanswers, -⟩ := hresults' r' r'' hreturns' hreturns''
  exact ⟨r, r', r'', m, hreturns, hreturns', hreturns'', hforward, hanswers rfl,
    beq_iff_eq.mp hnone, beq_iff_eq.mp hlive, harena rfl, hm, hpromoted r.arena m hm⟩

end Computation

end NestedWords
