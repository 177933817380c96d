import NestedWords.Proofs.Arena.Checks
import NestedWords.Proofs.Exploration.Obligations
import NestedWords.Proofs.Reachable.Transitions

/-!
# Transitions are the same at all their ends

A transition is noted at its source and at its target, a return also as a summary at its
hierarchical predecessor. Exploration reads the outgoing side, borders and the search for dead ends
the incoming one. `Arena.Mirrored` says that the sides agree, which they do after every item as
`Chart.Linked` is part of the invariant, and that no map has an empty map or an empty set in it
(`Node.Filled`). The latter is an invariant too, for a table is filled if something is inserted into
a filled one, and nothing is ever taken out.

So a transition can be counted at any of its ends (`Arena.total_eq_of_ends`), and each list of
transitions of a result adds up to the number that the result gives (`ends_agree`).
-/

namespace NestedWords

variable {S L : Type} [Ord L] [Std.TransOrd L]

/-- No map of a node has an empty map or an empty set in it. -/
structure Node.Filled (n : Node S L) : Prop where
  internalOut : ∀ {l : L} {targets : FinSet Nat},
    n.internalOut.rows[l]? = some targets → targets ≠ ∅
  internalIn : ∀ {l : L} {sources : FinSet Nat},
    n.internalIn.rows[l]? = some sources → sources ≠ ∅
  callOut : ∀ {l : L} {targets : FinSet Nat}, n.callOut.rows[l]? = some targets → targets ≠ ∅
  callIn : ∀ {l : L} {sources : FinSet Nat}, n.callIn.rows[l]? = some sources → sources ≠ ∅
  returnOut : ∀ {h : Nat} {byLetter : Table L (FinSet Nat)}, n.returnOut.rows[h]? = some byLetter →
    byLetter.rows ≠ ∅ ∧
      ∀ {l : L} {targets : FinSet Nat}, byLetter.rows[l]? = some targets → targets ≠ ∅
  returnIn : ∀ {h : Nat} {byLetter : Table L (FinSet Nat)}, n.returnIn.rows[h]? = some byLetter →
    byLetter.rows ≠ ∅ ∧
      ∀ {l : L} {sources : FinSet Nat}, byLetter.rows[l]? = some sources → sources ≠ ∅
  summaries : ∀ {l : L} {ends : FinSet (Nat × Nat)}, n.summaries.rows[l]? = some ends → ends ≠ ∅

namespace Arena

variable {a : Arena S L}

/-- A transition is noted alike at all the states that it has to do with, and so each state comes
before just those within its call that follow it. -/
structure Mirrored (a : Arena S L) : Prop where
  internal : ∀ {u v : Nat} {m n : Node S L}, a.nodes[u]? = some m → a.nodes[v]? = some n →
    ∀ l, (l, v) ∈ m.internalOut ↔ (l, u) ∈ n.internalIn
  call : ∀ {u v : Nat} {m n : Node S L}, a.nodes[u]? = some m → a.nodes[v]? = some n →
    ∀ l, (l, v) ∈ m.callOut ↔ (l, u) ∈ n.callIn
  ret : ∀ {u v : Nat} {m n : Node S L}, a.nodes[u]? = some m → a.nodes[v]? = some n →
    ∀ h l, (h, l, v) ∈ m.returnOut ↔ (h, l, u) ∈ n.returnIn
  summary : ∀ {u h : Nat} {m k : Node S L}, a.nodes[u]? = some m → a.nodes[h]? = some k →
    ∀ l v, (h, l, v) ∈ m.returnOut ↔ (l, u, v) ∈ k.summaries
  within : ∀ {u v : Nat} {m n : Node S L}, a.nodes[u]? = some m → a.nodes[v]? = some n →
    (u ∈ n.predecessorsWithin ↔ v ∈ m.successorsWithin)
  filled : ∀ n ∈ a.nodes, n.Filled

theorem filled_of_linked (hl : a.chart.Linked) {n : Node S L} (hn : n ∈ a.nodes) : n.Filled := by
  obtain ⟨u, hu⟩ := Array.getElem?_of_mem hn
  have hfilled := hl.filled u
  have hout : a.chart.internalOut u = n.internalOut := field_eq hu
  have hin : a.chart.internalIn u = n.internalIn := field_eq hu
  have hcallOut : a.chart.callOut u = n.callOut := field_eq hu
  have hcallIn : a.chart.callIn u = n.callIn := field_eq hu
  have hreturnOut : a.chart.returnOut u = n.returnOut := field_eq hu
  have hreturnIn : a.chart.returnIn u = n.returnIn := field_eq hu
  have hsummaries : a.chart.summaries u = n.summaries := field_eq hu
  have hrow : ∀ {t : Table Nat (Table L (FinSet Nat))}, Row.Filled t →
      ∀ {h : Nat} {byLetter : Table L (FinSet Nat)}, t.rows[h]? = some byLetter →
        byLetter.rows ≠ ∅ ∧
          ∀ {l : L} {targets : FinSet Nat}, byLetter.rows[l]? = some targets → targets ≠ ∅ := by
    intro t ht h byLetter hb
    obtain ⟨hne, hfilled⟩ := ht h byLetter hb
    exact ⟨fun he => hne (congrArg Table.mk he), fun hs => (hfilled _ _ hs).1⟩
  constructor
  case internalOut => exact fun hr => (hfilled.internalOut _ _ (hout ▸ hr)).1
  case internalIn => exact fun hr => (hfilled.internalIn _ _ (hin ▸ hr)).1
  case callOut => exact fun hr => (hfilled.callOut _ _ (hcallOut ▸ hr)).1
  case callIn => exact fun hr => (hfilled.callIn _ _ (hcallIn ▸ hr)).1
  case returnOut => exact fun hr => hrow hfilled.returnOut (hreturnOut ▸ hr)
  case returnIn => exact fun hr => hrow hfilled.returnIn (hreturnIn ▸ hr)
  case summaries => exact fun hr => (hfilled.summaries _ _ (hsummaries ▸ hr)).1

variable [Std.LawfulEqOrd L]

theorem mirrored_of_linked (hl : a.chart.Linked) : a.Mirrored where
  internal hm hn l := by
    have hout : a.chart.internalOut _ = _ := field_eq hm
    have hin : a.chart.internalIn _ = _ := field_eq hn
    rw [← hout, ← hin, hl.internal]
  call hm hn l := by
    have hout : a.chart.callOut _ = _ := field_eq hm
    have hin : a.chart.callIn _ = _ := field_eq hn
    rw [← hout, ← hin, hl.call]
  ret hm hn h l := by
    have hout : a.chart.returnOut _ = _ := field_eq hm
    have hin : a.chart.returnIn _ = _ := field_eq hn
    rw [← hout, ← hin, hl.ret]
  summary hm hk l v := by
    have hout : a.chart.returnOut _ = _ := field_eq hm
    have hsummary : a.chart.summaries _ = _ := field_eq hk
    rw [← hout, ← hsummary, hl.summary]
  within {u v m n} hm hn := by
    rw [(inRange hl).predecessors hn, successorsWithin, hm]
  filled _ hn := filled_of_linked hl hn

/-! ## Counting at either end -/

/-- The elements of a field of all nodes, each with the id of its node. -/
def listed {ρ α : Type} [Row ρ α] (a : Arena S L) (f : Node S L → ρ) : List (Nat × α) :=
  a.nodes.toList.zipIdx.flatMap fun (n, u) => (Row.toList (f n)).map (u, ·)

section
variable {ρ σ α β : Type} [Ord α] [Row ρ α] [Membership α ρ] [LawfulRow ρ]
  [Ord β] [Std.TransOrd β] [Row σ β] [Membership β σ] [LawfulRow σ] {f : Node S L → ρ}
  {g : Node S L → σ}

omit [Std.TransOrd L] [Std.LawfulEqOrd L]

theorem mem_listed {u : Nat} {x : α} : (u, x) ∈ a.listed f ↔ x ∈ a.field f Row.empty u := by
  simp only [listed, List.mem_flatMap, List.mem_map, Prod.exists, mem_indexedNodes,
    LawfulRow.mem_toList, Prod.mk.injEq]
  constructor
  · rintro ⟨n, u, hn, x, hx, rfl, rfl⟩
    rwa [field_eq hn]
  · intro hx
    obtain ⟨n, hn⟩ := exists_node (lt_size_of_mem hx)
    rw [field_eq hn] at hx
    exact ⟨n, u, hn, x, hx, rfl, rfl⟩

variable [Std.TransOrd α]

theorem nodup_listed : (a.listed f).Nodup := by
  refine List.nodup_flatMap.mpr ⟨fun p _ => ?_, ?_⟩
  · exact (LawfulRow.ascending_toList _).nodup.map fun x y h => (Prod.mk.inj h).2
  · have hids : (a.nodes.toList.zipIdx.map (·.2)).Nodup := by
      rw [List.zipIdx_map_snd]
      exact List.nodup_range'
    refine List.Pairwise.imp ?_ (List.pairwise_map.mp hids)
    intro p q hne y hy hy'
    obtain ⟨x, -, rfl⟩ := List.mem_map.mp hy
    obtain ⟨x', -, he⟩ := List.mem_map.mp hy'
    exact hne (Prod.mk.inj he).1.symm

omit [Std.TransOrd α] in
theorem length_listed : (a.listed f).length = total (fun n => Row.size (f n)) a.nodes.toList := by
  have hnodes : a.nodes.toList.zipIdx.map (·.1) = a.nodes.toList := List.zipIdx_map_fst _ _
  have hsize : ∀ l : List (Node S L × Nat),
      total (fun p => Row.size (f p.1)) l = total (fun n => Row.size (f n)) (l.map (·.1)) := by
    intro l
    induction l with
    | nil => rfl
    | cons p l ih => rw [List.map_cons, total, total, ih]
  have hrows : total (fun p => Row.size (f p.1)) a.nodes.toList.zipIdx = (a.listed f).length :=
    total_eq_length_flatMap _ fun p _ => by rw [List.length_map, LawfulRow.length_toList]
  rw [← hrows, hsize, hnodes]

/-- If what one field has at one state is what another has at another state, the fields have
equally much altogether. -/
theorem total_eq_of_ends (e : Nat × α ≃ Nat × β)
    (h : ∀ u x, x ∈ a.field f Row.empty u ↔ (e (u, x)).2 ∈ a.field g Row.empty (e (u, x)).1) :
    total (fun n => Row.size (f n)) a.nodes.toList =
      total (fun n => Row.size (g n)) a.nodes.toList := by
  have hmem : ∀ p, p ∈ a.listed f ↔ e p ∈ a.listed g := fun p =>
    mem_listed.trans ((h p.1 p.2).trans mem_listed.symm)
  have hperm : ((a.listed f).map e).Perm (a.listed g) := by
    refine (List.perm_ext_iff_of_nodup (nodup_listed.map e.injective) nodup_listed).mpr fun q => ?_
    rw [List.mem_map]
    constructor
    · rintro ⟨p, hp, rfl⟩
      exact (hmem p).mp hp
    · intro hq
      exact ⟨e.symm q, (hmem _).mpr (by rwa [e.apply_symm_apply]), e.apply_symm_apply q⟩
  rw [← length_listed, ← length_listed, ← hperm.length_eq, List.length_map]
end

/-- An end of an edge and the letter with the other end. -/
def swapEnds : Nat × L × Nat ≃ Nat × L × Nat where
  toFun := fun (u, l, v) => (v, l, u)
  invFun := fun (v, l, u) => (u, l, v)
  left_inv _ := rfl
  right_inv _ := rfl

/-- A return, seen from its source or from its target. -/
def swapReturn : Nat × Nat × L × Nat ≃ Nat × Nat × L × Nat where
  toFun := fun (u, h, l, v) => (v, h, l, u)
  invFun := fun (v, h, l, u) => (u, h, l, v)
  left_inv _ := rfl
  right_inv _ := rfl

/-- A return, seen from its source or from the hierarchical predecessor. -/
def swapSummary : Nat × Nat × L × Nat ≃ Nat × L × Nat × Nat where
  toFun := fun (u, h, l, v) => (h, l, u, v)
  invFun := fun (h, l, u, v) => (u, h, l, v)
  left_inv _ := rfl
  right_inv _ := rfl

section
variable (hl : a.chart.Linked)
include hl

theorem total_internalIn :
    total (·.internalOut.size) a.nodes.toList = total (·.internalIn.size) a.nodes.toList :=
  total_eq_of_ends swapEnds fun _ _ => hl.internal

theorem total_callIn :
    total (·.callOut.size) a.nodes.toList = total (·.callIn.size) a.nodes.toList :=
  total_eq_of_ends swapEnds fun _ _ => hl.call

theorem total_returnIn :
    total (·.returnOut.size) a.nodes.toList = total (·.returnIn.size) a.nodes.toList :=
  total_eq_of_ends swapReturn fun _ _ => hl.ret

theorem total_summaries :
    total (·.returnOut.size) a.nodes.toList = total (·.summaries.size) a.nodes.toList :=
  total_eq_of_ends swapSummary fun _ _ => hl.summary
end

end Arena

/-! ## Lists of a result -/

namespace Reachable

variable [DecidableEq S] {op : Operand S L} {r : Reachable S L} {a : Arena S L}

/-- All lists of transitions, whichever end they start from, add up to the same number. -/
structure Balanced (r : Reachable S L) : Prop where
  internal : total (fun s => (r.internalPredecessors s).length) r.states =
    r.numberOfInternalTransitions
  call : total (fun s => (r.callPredecessors s).length) r.states = r.numberOfCallTransitions
  ret : total (fun s => (r.returnPredecessors s).length) r.states = r.numberOfReturnTransitions
  summary : total (fun s => (r.summariesOf s).length) r.states = r.numberOfReturnTransitions

theorem returnPredecessors_of_node {s : S} {n : Node S L} (hn : r.node? s = some n) :
    r.returnPredecessors s = r.named (r.named n.returnIn.toList (·.1) fun e p => (p, e.2))
      (·.2.2) fun e t => (t, e.1, e.2.1) := by
  unfold returnPredecessors
  rw [hn]
  rfl

omit [Std.TransOrd L] [DecidableEq S] in
/-- Nothing is left out if every id has a node. -/
theorem length_named {α β : Type} {edges : List α} {id : α → Nat} {f : α → S → β}
    (h : ∀ e ∈ edges, id e < r.arena.size) : (r.named edges id f).length = edges.length := by
  unfold named
  rw [List.length_filterMap_eq_countP, List.countP_eq_length]
  intro e he
  obtain ⟨n, hn⟩ := Arena.exists_node (h e he)
  simp [hn]

omit [Std.TransOrd L] [DecidableEq S] in
theorem length_named_named {α β γ : Type} {edges : List α} {id : α → Nat} {f : α → S → β}
    {id' : β → Nat} {g : β → S → γ} (h : ∀ e ∈ edges, id e < r.arena.size)
    (h' : ∀ e ∈ edges, ∀ s, id' (f e s) < r.arena.size) :
    (r.named (r.named edges id f) id' g).length = edges.length := by
  rw [length_named, length_named h]
  intro b hb
  obtain ⟨e, he, hb⟩ := List.mem_filterMap.mp hb
  obtain ⟨n, -, rfl⟩ := Option.map_eq_some_iff.mp hb
  exact h' e he _

namespace Exact

open Arena

variable (h : r.Exact op a)
include h

omit [DecidableEq S] in
/-- Marks are no transitions. -/
theorem linked : r.arena.chart.Linked := by
  have hfield : ∀ {α : Type} {f : Node S L → α} {d : α}, (∀ n m, f { n with mark := m } = f n) →
      r.arena.field f d = a.field f d := fun hf => funext fun u => h.remarked.field hf u
  have hinternalOut : r.arena.chart.internalOut = a.chart.internalOut := hfield fun _ _ => rfl
  have hinternalIn : r.arena.chart.internalIn = a.chart.internalIn := hfield fun _ _ => rfl
  have hcallOut : r.arena.chart.callOut = a.chart.callOut := hfield fun _ _ => rfl
  have hcallIn : r.arena.chart.callIn = a.chart.callIn := hfield fun _ _ => rfl
  have hreturnOut : r.arena.chart.returnOut = a.chart.returnOut := hfield fun _ _ => rfl
  have hreturnIn : r.arena.chart.returnIn = a.chart.returnIn := hfield fun _ _ => rfl
  have hsummaries : r.arena.chart.summaries = a.chart.summaries := hfield fun _ _ => rfl
  have hl := h.complete.linked
  constructor
  case internal => rw [hinternalOut, hinternalIn]; exact hl.internal
  case call => rw [hcallOut, hcallIn]; exact hl.call
  case ret => rw [hreturnOut, hreturnIn]; exact hl.ret
  case summary => rw [hreturnOut, hsummaries]; exact hl.summary
  case filled =>
    intro u
    obtain ⟨hio, hii, hco, hci, hro, hri, hs⟩ := hl.filled u
    constructor
    case internalOut => rw [hinternalOut]; exact hio
    case internalIn => rw [hinternalIn]; exact hii
    case callOut => rw [hcallOut]; exact hco
    case callIn => rw [hcallIn]; exact hci
    case returnOut => rw [hreturnOut]; exact hro
    case returnIn => rw [hreturnIn]; exact hri
    case summaries => rw [hsummaries]; exact hs

/-- What a list has for each state is what the nodes have. -/
theorem total_states {α : Type} {list : S → List α} {size : Node S L → Nat}
    (hlist : ∀ (u : Nat) n, r.arena.nodes[u]? = some n → r.node? n.name = some n →
      (list n.name).length = size n) :
    total (fun s => (list s).length) r.states = total size r.arena.nodes.toList := by
  have hall : ∀ n ∈ r.nodes, (list n.name).length = size n := by
    intro n hn
    obtain ⟨u, hu⟩ := Array.getElem?_of_mem (Array.mem_toList_iff.mp hn)
    exact hlist u n hu (h.node?_name hn)
  rw [states]
  show _ = total size r.nodes
  revert hall
  induction r.nodes with
  | nil => exact fun _ => rfl
  | cons n l ih =>
    intro hall
    rw [List.map_cons, total, total, hall n (by simp), ih fun m hm => hall m (by simp [hm])]

variable [Std.LawfulEqOrd L]

/-- Edges with one other end are all listed if it is that of a state. -/
theorem total_labelled {edges : Node S L → Table L (FinSet Nat)}
    (hends : ∀ u, ∀ e ∈ r.arena.field edges ∅ u, e.2 < r.arena.size) :
    total (fun s => (r.labelled s edges).length) r.states =
      total (fun n => (edges n).size) r.arena.nodes.toList := by
  refine h.total_states fun u n hn hn' => ?_
  rw [labelled_of_node hn', length_named, Table.length_toList]
  intro e he
  exact hends u e (by rw [field_eq hn]; exact Table.mem_toList.mp he)

theorem balanced : r.Balanced where
  internal := by
    refine (h.total_labelled fun u e he => ?_).trans (total_internalIn h.linked).symm
    exact lt_size_of_mem (h.linked.internal.mpr he)
  call := by
    refine (h.total_labelled fun u e he => ?_).trans (total_callIn h.linked).symm
    exact lt_size_of_mem (h.linked.call.mpr he)
  ret := by
    refine (h.total_states fun v n hn hn' => ?_).trans (total_returnIn h.linked).symm
    have hin : r.arena.chart.returnIn v = n.returnIn := field_eq hn
    have hret : ∀ e ∈ n.returnIn.toList, (e.1, e.2.1, v) ∈ r.arena.chart.returnOut e.2.2 :=
      fun e he => h.linked.ret.mpr (hin ▸ Table.mem_toList.mp he)
    rw [returnPredecessors_of_node hn', length_named_named, Table.length_toList]
    · exact fun e he => lt_size_of_mem (h.linked.summary.mp (hret e he))
    · exact fun e he _ => lt_size_of_mem (hret e he)
  summary := by
    refine (h.total_states fun p n hn hn' => ?_).trans (total_summaries h.linked).symm
    have hsummaries : r.arena.chart.summaries p = n.summaries := field_eq hn
    have hret : ∀ e ∈ n.summaries.toList, (p, e.1, e.2.2) ∈ r.arena.chart.returnOut e.2.1 :=
      fun e he => h.linked.summary.mpr (hsummaries ▸ Table.mem_toList.mp he)
    rw [summariesOf_of_node hn', length_named_named, Table.length_toList]
    · exact fun e he => lt_size_of_mem (hret e he)
    · exact fun e he _ => lt_size_of_mem (h.linked.ret.mp (hret e he))

end Exact

end Reachable

/-! ## In a run -/

namespace Computation

open Exploration

variable [DecidableEq S] [DecidableEq L] [Std.LawfulEqOrd L]

/-- After seeding and after every work item each transition is noted alike at all its ends, and of
a result all lists of transitions add up to its number of them, from whichever end. -/
theorem ends_agree (op : Operand S L) (settings : Settings) :
    (∀ monitor x, Between op settings monitor x → x.arena.Mirrored) ∧
    ∀ r, Returns op settings r → r.Balanced := by
  refine ⟨fun monitor x hx => Arena.mirrored_of_linked hx.settled.linked, fun r hr => ?_⟩
  obtain ⟨a, ha, -⟩ := hr.exact
  exact ha.balanced

/-- A state that calls itself and returns to itself. -/
def coil : Automaton String String :=
  .ofFacts [.initial "s", .call "s" "c" "s", .ret "s" "s" "r" "s"]

/-- All ends of a return may be the same state. The first item notes it there, and so as often as it
has ends. -/
theorem ends_agree_coil :
    (∃ x n, after coil.operand {} .unbounded 1 = some x ∧ x.arena.nodes[0]? = some n ∧
      (0, "r", 0) ∈ n.returnOut ∧ (0, "r", 0) ∈ n.returnIn ∧ ("r", 0, 0) ∈ n.summaries) ∧
    ∃ r, Returns coil.operand {} r ∧ r.numberOfReturnTransitions = 1 ∧
      total (fun s => (r.returnPredecessors s).length) r.states = 1 ∧
      total (fun s => (r.summariesOf s).length) r.states = 1 := by
  obtain ⟨hitems, hresults⟩ := ends_agree coil.operand {}
  have hany : (after coil.operand {} .unbounded 1).any (fun x =>
      (x.arena.nodes[0]?).any fun n => ((n.returnOut.row 0).row "r").contains 0) = true := by
    decide +kernel
  have hany' : (result? (run coil.operand {} .unbounded 20)).any
      (·.numberOfReturnTransitions = 1) = true := by decide +kernel
  obtain ⟨x, hx, hnode⟩ := (Option.any_eq_true _ _).mp hany
  obtain ⟨n, hn, hret⟩ := (Option.any_eq_true _ _).mp hnode
  have hout : (0, "r", 0) ∈ n.returnOut := Std.ExtTreeSet.contains_iff_mem.mp hret
  have hmirrored := hitems _ x (.of_after hx)
  obtain ⟨r, hr, hone⟩ := (Option.any_eq_true _ _).mp hany'
  have hnumber := of_decide_eq_true hone
  have hbalanced := hresults r (returns_of_result hr)
  exact ⟨⟨x, n, hx, hn, hout, (hmirrored.ret hn hn 0 "r").mp hout,
      (hmirrored.summary hn hn "r" 0).mp hout⟩,
    r, returns_of_result hr, hnumber, hbalanced.ret.trans hnumber, hbalanced.summary.trans hnumber⟩

end Computation

end NestedWords
