import NestedWords.Proofs.Exploration.Bookkeeping
import NestedWords.Proofs.Exploration.Turns

/-!
# Sound at every moment, and growing

An exploration may be stopped between any two work items, and what it has found until then is
true (`Arena.Truthful`): a stack top stands on a state's component only if the state occurs under
it, and a recorded transition is a step from a configuration that occurs. Nothing of it is taken
back (`Arena.GrowsTo`). A state may change its component, but its new one has all the entries and
all the stack tops that its old one had.

The charts tell both: `Chart.Includes` is what every item keeps, whether it explores a state
(which changes the flag of that one) or only adds to the arena (`Chart.Begins.includes`).
-/

namespace NestedWords

variable {S L : Type} [Ord L] [Std.TransOrd L] {op : Operand S L}

/-! ## What is true of an arena -/

namespace Arena

/-- The stack top that an id stands for. -/
def nameDown (a : Arena S L) : Down Nat → Option (Down S)
  | .bottom => some .bottom
  | .caller h => (a.nodes[h]?).map fun n => .caller n.name

/-- The stack tops of states are true, and so are all recorded edges. -/
structure Truthful (op : Operand S L) (a : Arena S L) : Prop where
  /-- A state occurs under the stack tops of its component. -/
  tops : ∀ {u : Nat} {n : Node S L} {c : Component} {d : Down Nat}, a.nodes[u]? = some n →
    a.components[n.component]? = some c → d ∈ c.downs →
    ∃ w, a.nameDown d = some (Down.ofStack w) ∧ op.Occurs ⟨n.name, w⟩
  internal : ∀ {u v l}, (l, v) ∈ a.internalOut u ∨ (l, u) ∈ a.internalIn v →
    ∃ s t w, a.nameOf u = some s ∧ a.nameOf v = some t ∧ op.Occurs ⟨s, w⟩ ∧
      op.Step ⟨s, w⟩ (.internal l) ⟨t, w⟩
  call : ∀ {u v l}, (l, v) ∈ a.callOut u ∨ (l, u) ∈ a.callIn v →
    ∃ s t w, a.nameOf u = some s ∧ a.nameOf v = some t ∧ op.Occurs ⟨s, w⟩ ∧
      op.Step ⟨s, w⟩ (.call l) ⟨t, s :: w⟩
  ret : ∀ {u h v l}, (h, l, v) ∈ a.returnOut u ∨ (h, l, u) ∈ a.returnIn v →
    ∃ s r t w, a.nameOf u = some s ∧ a.nameOf h = some r ∧ a.nameOf v = some t ∧
      op.Occurs ⟨s, r :: w⟩ ∧ op.Step ⟨s, r :: w⟩ (.ret l) ⟨t, w⟩
  /-- A summary tells of a call made under some stack that has returned to it. -/
  summary : ∀ {h u v l}, (l, u, v) ∈ a.summaries h →
    ∃ r s t w, a.nameOf h = some r ∧ a.nameOf u = some s ∧ a.nameOf v = some t ∧
      op.Occurs ⟨r, w⟩ ∧ op.Leads ⟨r, w⟩ ⟨s, r :: w⟩ ∧ op.Step ⟨s, r :: w⟩ (.ret l) ⟨t, w⟩

end Arena

namespace Coherent

variable {x : Snapshot S L} (hx : Coherent op x)
include hx

/-- A recorded return is one of a call that was made under some stack. -/
theorem ret_of_returnOut {u h v : Nat} {l : L} (he : (h, l, v) ∈ x.chart.returnOut u) :
    ∃ r s t w, x.chart.nameOf h = some r ∧ x.chart.nameOf u = some s ∧ x.chart.nameOf v = some t ∧
      op.Occurs ⟨r, w⟩ ∧ op.Leads ⟨r, w⟩ ⟨s, r :: w⟩ ∧ op.Step ⟨s, r :: w⟩ (.ret l) ⟨t, w⟩ := by
  obtain ⟨s, r, t, hs, hr, ht, hl, hsucc⟩ := hx.sound.ret he
  obtain ⟨r', s', hr', hs', hunder⟩ := hx.sound.under_of_hasDown (hx.sound.below he)
  cases hs.symm.trans hs'
  cases hr.symm.trans hr'
  obtain ⟨w, hw⟩ := hx.sound.occurs hr
  exact ⟨r, s, t, w, hr, hs, ht, hw, hunder w, .ret hl hsucc⟩

theorem truthful : x.arena.Truthful op where
  tops {u n c d} hn hc hd := by
    have hname : x.chart.nameOf u = some n.name := Arena.field_eq hn
    have hdowns : x.arena.downsIn n.component = c.downs := Arena.part_eq hc
    have hdown : x.chart.HasDown u d :=
      hx.wellFormed.hasDown_chart.mpr ⟨n.component, Arena.field_eq hn, hdowns ▸ hd⟩
    cases d with
    | bottom => exact ⟨[], rfl, hx.sound.occurs_bottom hname hdown⟩
    | caller h =>
      obtain ⟨r, hr⟩ := hx.sound.caller_nameOf hdown
      obtain ⟨m, hm, rfl⟩ := Arena.exists_node_of_nameOf hr
      obtain ⟨w, hw⟩ := hx.sound.occurs_caller hname hr hdown
      exact ⟨m.name :: w, by simp [Arena.nameDown, hm, Down.ofStack], hw⟩
  internal he := by
    obtain ⟨s, t, hs, ht, hl, hsucc⟩ := hx.sound.internal (he.elim id hx.linked.internal.mpr)
    obtain ⟨w, hw⟩ := hx.sound.occurs hs
    exact ⟨s, t, w, hs, ht, hw, .internal hl hsucc⟩
  call he := by
    obtain ⟨s, t, hs, ht, hl, hsucc⟩ := hx.sound.call (he.elim id hx.linked.call.mpr)
    obtain ⟨w, hw⟩ := hx.sound.occurs hs
    exact ⟨s, t, w, hs, ht, hw, .call hl hsucc⟩
  ret he := by
    obtain ⟨r, s, t, w, hr, hs, ht, hw, hleads, hstep⟩ :=
      hx.ret_of_returnOut (he.elim id hx.linked.ret.mpr)
    exact ⟨s, r, t, w, hs, hr, ht, hw.leads hleads, hstep⟩
  summary he := hx.ret_of_returnOut (hx.linked.summary.mpr he)

end Coherent

/-! ## What stays -/

/-- All that is known about a state stays known. -/
structure Node.GrowsTo (n m : Node S L) : Prop where
  name : m.name = n.name
  isInitial : m.isInitial = n.isInitial
  isFinal : m.isFinal = n.isFinal
  explored : n.explored = true → m.explored = true
  examined : ∀ h ∈ n.examined, h ∈ m.examined
  internalOut : ∀ e ∈ n.internalOut, e ∈ m.internalOut
  internalIn : ∀ e ∈ n.internalIn, e ∈ m.internalIn
  callOut : ∀ e ∈ n.callOut, e ∈ m.callOut
  callIn : ∀ e ∈ n.callIn, e ∈ m.callIn
  returnOut : ∀ e ∈ n.returnOut, e ∈ m.returnOut
  returnIn : ∀ e ∈ n.returnIn, e ∈ m.returnIn
  summaries : ∀ e ∈ n.summaries, e ∈ m.summaries

/-- All that is in the one arena is still in the other. -/
structure Arena.GrowsTo (a b : Arena S L) : Prop where
  nodes : ∀ {u : Nat} {n : Node S L}, a.nodes[u]? = some n →
    ∃ m, b.nodes[u]? = some m ∧ n.GrowsTo m
  entries : ∀ {e : Nat} {ds : Entry}, a.entries[e]? = some ds →
    ∃ ds' : Entry, b.entries[e]? = some ds' ∧ ∀ d ∈ ds, d ∈ ds'
  components : ∀ {k : Nat} {c : Component}, a.components[k]? = some c →
    ∃ c', b.components[k]? = some c' ∧
    c'.entries = c.entries ∧ ∀ d ∈ c.downs, d ∈ c'.downs
  /-- A state that changes its component loses neither entries nor stack tops. -/
  owners : ∀ {u c}, a.componentAt? u = some c → ∃ c', b.componentAt? u = some c' ∧
    (∀ e ∈ c.entries, e ∈ c'.entries) ∧ ∀ d ∈ c.downs, d ∈ c'.downs

namespace Chart

variable {c c' d : Chart S L} {item : WorkItem}

/-- All that is on the one chart is still on the other. -/
structure Includes (c c' : Chart S L) : Prop where
  nameOf : ∀ {u s}, c.nameOf u = some s → c'.nameOf u = some s
  isInitial : ∀ {u s}, c.nameOf u = some s → c'.isInitial u = c.isInitial u
  explored : ∀ {u}, c.explored u = true → c'.explored u = true
  examined : ∀ {u h}, h ∈ c.examined u → h ∈ c'.examined u
  internalOut : ∀ {u e}, e ∈ c.internalOut u → e ∈ c'.internalOut u
  callOut : ∀ {u e}, e ∈ c.callOut u → e ∈ c'.callOut u
  returnOut : ∀ {u e}, e ∈ c.returnOut u → e ∈ c'.returnOut u
  summaries : ∀ {u e}, e ∈ c.summaries u → e ∈ c'.summaries u
  isEntry : ∀ {e}, c.IsEntry e → c'.IsEntry e
  entryDown : ∀ {e d}, c.EntryDown e d → c'.EntryDown e d
  components : c.components ≤ c'.components
  inComponent : ∀ {k e}, k < c.components → (c'.InComponent k e ↔ c.InComponent k e)
  hasEntry : ∀ {u e}, c.HasEntry u e → c'.HasEntry u e

theorem Extends.includes (h : c.Extends c') : c.Includes c' :=
  { h with explored := fun hu => (h.explored _).trans hu }

/-- What is added to a chart on which a state has just been noted as explored. -/
theorem Extends.includes_of_setExplored {u : Nat} {letters : FinSet L}
    (h : (c.setExplored u letters).Extends d) : c.Includes d :=
  { h with
    explored := by
      intro v hv
      refine (h.explored v).trans ?_
      show setAt c.explored u true v = true
      unfold setAt
      split
      · rfl
      · exact hv }

theorem Begins.includes (h : c.Begins op c' item) (h' : c'.Extends d) : c.Includes d := by
  cases item with
  | explore u =>
    obtain ⟨s, -, rfl⟩ := h
    exact h'.includes_of_setExplored
  | reconcile k t => cases h; exact h'.includes
  | examine u p => cases h; exact h'.includes

theorem Includes.trans {c'' : Chart S L} (h : c.Includes c') (h' : c'.Includes c'') :
    c.Includes c'' where
  nameOf hn := h'.nameOf (h.nameOf hn)
  isInitial hn := (h'.isInitial (h.nameOf hn)).trans (h.isInitial hn)
  explored hu := h'.explored (h.explored hu)
  examined hm := h'.examined (h.examined hm)
  internalOut hm := h'.internalOut (h.internalOut hm)
  callOut hm := h'.callOut (h.callOut hm)
  returnOut hm := h'.returnOut (h.returnOut hm)
  summaries hm := h'.summaries (h.summaries hm)
  isEntry he := h'.isEntry (h.isEntry he)
  entryDown hd := h'.entryDown (h.entryDown hd)
  components := Nat.le_trans h.components h'.components
  inComponent hk := (h'.inComponent (Nat.lt_of_lt_of_le hk h.components)).trans (h.inComponent hk)
  hasEntry he := h'.hasEntry (h.hasEntry he)

theorem Includes.hasDown (h : c.Includes c') {u : Nat} {d : Down Nat} :
    c.HasDown u d → c'.HasDown u d
  | ⟨e, he, hd⟩ => ⟨e, h.hasEntry he, h.entryDown hd⟩

end Chart

namespace Chart.Includes

variable {x y : Snapshot S L} (h : x.chart.Includes y.chart) (hx : Coherent op x)
  (hy : Coherent op y)
include h hx hy

theorem node_growsTo {u : Nat} {n : Node S L} (hn : x.arena.nodes[u]? = some n) :
    ∃ m, y.arena.nodes[u]? = some m ∧ n.GrowsTo m := by
  have hs : x.chart.nameOf u = some n.name := Arena.field_eq hn
  obtain ⟨m, hm, hname⟩ := Arena.exists_node_of_nameOf (h.nameOf hs)
  -- each field of either node is what its chart has for the state
  have hread : ∀ {α : Type} (f : Node S L → α) (d : α),
      x.arena.field f d u = f n ∧ y.arena.field f d u = f m := fun f d =>
    ⟨Arena.field_eq hn, Arena.field_eq hm⟩
  have hsub : ∀ {ρ α : Type} [Row ρ α] [Membership α ρ] (f : Node S L → ρ),
      (∀ {e}, e ∈ x.arena.field f Row.empty u → e ∈ y.arena.field f Row.empty u) →
        ∀ e ∈ f n, e ∈ f m := by
    intro ρ α _ _ f hf e he
    rw [← (hread f Row.empty).2]
    exact hf ((hread f Row.empty).1 ▸ he)
  have hflag : ∀ (f : Node S L → Bool), y.arena.field f false u = x.arena.field f false u →
      f m = f n := fun f hf => by rw [← (hread f false).1, ← (hread f false).2, hf]
  refine ⟨m, hm, hname, hflag (·.isInitial) (h.isInitial hs), hflag (·.isFinal) ?_, fun hu => ?_,
    hsub (·.examined) h.examined, hsub (·.internalOut) h.internalOut,
    hsub (·.internalIn) fun he => ?_, hsub (·.callOut) h.callOut, hsub (·.callIn) fun he => ?_,
    hsub (·.returnOut) h.returnOut, hsub (·.returnIn) fun he => ?_,
    hsub (·.summaries) h.summaries⟩
  · exact (hy.sound.isFinal (h.nameOf hs)).trans (hx.sound.isFinal hs).symm
  · obtain ⟨hbefore, hafter⟩ := hread (·.explored) false
    exact hafter.symm.trans (h.explored (hbefore.trans hu))
  · exact hy.linked.internal.mp (h.internalOut (hx.linked.internal.mpr he))
  · exact hy.linked.call.mp (h.callOut (hx.linked.call.mpr he))
  · exact hy.linked.ret.mp (h.returnOut (hx.linked.ret.mpr he))

omit hx hy in
theorem entry_growsTo {e : Nat} {ds : Entry} (he : x.arena.entries[e]? = some ds) :
    ∃ ds' : Entry, y.arena.entries[e]? = some ds' ∧ ∀ d ∈ ds, d ∈ ds' := by
  have hmem : e ∈ x.arena.entries := Std.ExtTreeMap.mem_iff_isSome_getElem?.mpr (by simp [he])
  obtain ⟨ds', he'⟩ := Option.isSome_iff_exists.mp
    (Std.ExtTreeMap.mem_iff_isSome_getElem?.mp (h.isEntry hmem))
  refine ⟨ds', he', fun d hd => ?_⟩
  obtain ⟨ds'', he'', hd'⟩ := Arena.mem_entryDowns_iff_exists.mp
    (h.entryDown (Arena.mem_entryDowns_iff_exists.mpr ⟨ds, he, hd⟩))
  cases he'.symm.trans he''
  exact hd'

theorem component_growsTo {k : Nat} {c : Component} (hc : x.arena.components[k]? = some c) :
    ∃ c', y.arena.components[k]? = some c' ∧ c'.entries = c.entries ∧
      ∀ d ∈ c.downs, d ∈ c'.downs := by
  have hk : k < x.chart.components := (Array.getElem?_eq_some_iff.mp hc).1
  obtain ⟨c', hc'⟩ := Arena.exists_component (Nat.lt_of_lt_of_le hk h.components)
  have hentries : c'.entries = c.entries := Std.ExtTreeSet.ext_mem fun {e} =>
    (Arena.mem_entries_of_component hc').trans
      ((h.inComponent hk).trans (Arena.mem_entries_of_component hc).symm)
  have hdowns : x.arena.downsIn k = c.downs := Arena.part_eq hc
  have hdowns' : y.arena.downsIn k = c'.downs := Arena.part_eq hc'
  have hself : x.arena.entriesIn k = c.entries := Arena.part_eq hc
  have hself' : y.arena.entriesIn k = c'.entries := Arena.part_eq hc'
  refine ⟨c', hc', hentries, fun d hd => ?_⟩
  rw [← hdowns, hx.wellFormed.mem_downs, hself] at hd
  rw [← hdowns', hy.wellFormed.mem_downs, hself', hentries]
  obtain ⟨e, he, hd⟩ := hd
  exact ⟨e, he, h.entryDown hd⟩

theorem growsTo : x.arena.GrowsTo y.arena where
  nodes := h.node_growsTo hx hy
  entries := h.entry_growsTo
  components := h.component_growsTo hx hy
  owners {u c} hc := by
    obtain ⟨n, hn, -⟩ := Option.bind_eq_some_iff.mp hc
    have hs : x.chart.nameOf u = some n.name := Arena.field_eq hn
    obtain ⟨d, hd, hentries, hdowns⟩ := hx.wellFormed.componentAt?_spec (Arena.lt_size_of_nameOf hs)
    obtain ⟨c', hc', hentries', hdowns'⟩ :=
      hy.wellFormed.componentAt?_spec (Arena.lt_size_of_nameOf (h.nameOf hs))
    cases hc.symm.trans hd
    exact ⟨c', hc', fun e he => hentries'.mpr (h.hasEntry (hentries.mp he)),
      fun d hd => hdowns'.mpr (h.hasDown (hdowns.mp hd))⟩

end Chart.Includes

/-! ## In a run -/

namespace Exploration

variable [Std.LawfulEqOrd L] [DecidableEq S] {settings : Settings} {monitor : Monitor}
  {x y : Exploration S L}

/-- What a turn finds in the arena it leaves there. -/
theorem includes_of_continues (hx : Settled op x.snapshot)
    (h : TurnsTo op settings monitor x (.continues y)) :
    x.snapshot.chart.Includes y.snapshot.chart := by
  cases h with
  | @continues item q z _ hpop hyes hperform haccount =>
    rw [snapshot_of_account haccount]
    obtain ⟨-, ⟨w, hbegins, -, hadvances⟩, -⟩ :=
      (perform_advances (x := x.taking item q) (settled_taking hx hpop)).of_eq_ok hperform
    exact hbegins.includes hadvances.toExtends

/-- A run leads from the one exploration to the other by work items. -/
def Continues (op : Operand S L) (settings : Settings) (monitor : Monitor) :
    Exploration S L → Exploration S L → Prop :=
  Relation.ReflTransGen fun x y => turn op settings monitor x = .ok (.continues y)

theorem Continues.includes (h : Continues op settings monitor x y) (hx : Settled op x.snapshot) :
    x.snapshot.chart.Includes y.snapshot.chart ∧ Settled op y.snapshot := by
  induction h with
  | refl => exact ⟨(Chart.Extends.refl _).includes, hx⟩
  | tail _ hturn ih =>
    obtain ⟨hincludes, hy⟩ := ih
    exact ⟨hincludes.trans (includes_of_continues hy (turn_eq_ok_iff.mp hturn)),
      settled_of_turn hy hturn⟩

/-- At any point of a run, all that the arena says is true of the operand, and however many items
are processed from there on, nothing that it says is taken back. -/
theorem Between.truthful_growsTo (h : Between op settings monitor x) :
    x.arena.Truthful op ∧
    (∀ y, turn op settings monitor x = .ok (.continues y) → x.arena.GrowsTo y.arena) ∧
    ∀ y, Continues op settings monitor x y → y.arena.Truthful op ∧ x.arena.GrowsTo y.arena := by
  have hx := h.settled
  have hruns : ∀ y, Continues op settings monitor x y →
      y.arena.Truthful op ∧ x.arena.GrowsTo y.arena := by
    intro y hy
    obtain ⟨hincludes, hsettled⟩ := hy.includes hx
    exact ⟨hsettled.toCoherent.truthful, hincludes.growsTo hx.toCoherent hsettled.toCoherent⟩
  exact ⟨hx.toCoherent.truthful, fun y hturn => (hruns y (.single hturn)).2, hruns⟩

/-- The state in which the paths of `joining` meet moves to a component with a further entry. -/
theorem Between.truthful_growsTo_joining : ∃ x y, Between joining.operand {} .unbounded x ∧
    turn joining.operand {} .unbounded x = .ok (.continues y) ∧
    x.arena.Truthful joining.operand ∧ x.arena.GrowsTo y.arena ∧
    (x.arena.componentAt? 2).map (·.entries.toList) = some [0] ∧
    (y.arena.componentAt? 2).map (·.entries.toList) = some [0, 1] := by
  have hany : (after joining.operand {} .unbounded 2).any (fun x =>
      (x.arena.componentAt? 2).map (·.entries.toList) = some [0]) = true := by cbv
  have hany' : (after joining.operand {} .unbounded 3).any (fun y =>
      (y.arena.componentAt? 2).map (·.entries.toList) = some [0, 1]) = true := by cbv
  obtain ⟨y, hy, hmoved⟩ := (Option.any_eq_true _ _).mp hany'
  obtain ⟨x, hx, hturn⟩ := exists_of_after_succ hy
  rw [hx] at hany
  have hbetween := of_after hx
  obtain ⟨htruthful, hgrows, -⟩ := truthful_growsTo hbetween
  exact ⟨x, y, hbetween, turn_eq_ok_iff.mpr hturn, htruthful, hgrows y (turn_eq_ok_iff.mpr hturn),
    of_decide_eq_true hany, of_decide_eq_true hmoved⟩

end Exploration

end NestedWords
