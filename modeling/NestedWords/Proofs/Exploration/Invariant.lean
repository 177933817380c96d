import NestedWords.Proofs.Exploration.Soundness
import Mathlib.Logic.Relation

/-!
# The invariant of an exploration

What holds between any two steps of an exploration, as predicates on its arena and the items
that are pending:

* `Coherent`: the arena is well-formed and sound, and every pending item makes sense;
* `Steady`: besides, the entries of a state spread along its edges (`Spread`), or an item is
  pending that will see to it, and an entry reaches itself (`Homed`).

`Grows` says what no step takes away again. In particular an explored candidate sees a new
stack top only with an item pending that looks up its returns there. `Advances` adds that
returns are noted as known only where all of them are on the chart, that entries have spread
no further than along the edges (`Traced`), and that borders are right again (`Bordered`).
-/

namespace NestedWords

variable {S L : Type} [Ord L]

namespace Worklist

theorem mem_items_push {w : Worklist} {item i : WorkItem} :
    i ∈ (w.push item).items ↔ i ∈ w.items ∨ i = item := by
  cases item <;> simp only [push, items, List.mem_append, List.mem_singleton] <;> grind

theorem count_items_push {w : Worklist} {item i : WorkItem} :
    (w.push item).items.count i = w.items.count i + if item = i then 1 else 0 := by
  cases item <;> simp only [push, items, List.count_append, List.count_singleton, beq_iff_eq] <;>
    omega

end Worklist

/-- What the invariant sees of an exploration. -/
structure Snapshot (S L : Type) [Ord L] where
  arena : Arena S L
  items : List WorkItem

abbrev Snapshot.chart (x : Snapshot S L) : Chart S L := x.arena.chart

def Exploration.snapshot (x : Exploration S L) : Snapshot S L := ⟨x.arena, x.pending.items⟩

variable [Std.TransOrd L] {op : Operand S L} {x y z : Snapshot S L}

/-- The edges within a call lead from the one state to the other. -/
def Chart.Reaches (c : Chart S L) : Nat → Nat → Prop := Relation.ReflTransGen c.Edge

/-- The state is known as an initial one, and as an entry under the empty stack. -/
def Chart.Starts (c : Chart S L) (s : S) : Prop :=
  ∃ u, c.nameOf u = some s ∧ c.isInitial u = true ∧ c.IsEntry u ∧ c.EntryDown u .bottom

/-- The item is about states and components that there are, and does nothing untrue. -/
def Chart.Due (op : Operand S L) (c : Chart S L) : WorkItem → Prop
  | .explore u => ∃ s, c.nameOf u = some s
  | .reconcile k t =>
    k < c.components ∧ (∃ s, c.nameOf t = some s) ∧ ∀ {e}, c.InComponent k e → c.Flows op e t
  | .examine u h => c.explored u = true ∧ c.HasDown u (.caller h)

/-- An arena that is well-formed and sound, with items that make sense. -/
structure Coherent (op : Operand S L) (x : Snapshot S L) : Prop where
  wellFormed : x.arena.WellFormed
  linked : x.chart.Linked
  sound : x.chart.Sound op
  due : ∀ {item}, item ∈ x.items → x.chart.Due op item
  /-- Exactly the unexplored states wait for their exploration, each once. -/
  unexplored : ∀ u, x.items.count (.explore u) =
    if (x.chart.nameOf u).isSome ∧ x.chart.explored u = false then 1 else 0
  unmarked : ∀ u, x.chart.mark u = .reachable

namespace Snapshot

/-- The borders are right for the edges on the chart. -/
def Bordered (x : Snapshot S L) : Prop := x.arena.Bordered x.chart.Edge

theorem Bordered.of_same (h : Arena.SameBorders x.arena y.arena)
    (hedge : y.chart.Edge = x.chart.Edge) (hx : x.Bordered) : y.Bordered := by
  unfold Bordered
  rw [hedge]
  exact h.bordered hx

/-- All entries of `r` reach `t`, or an item is pending that will let them. -/
def Covered (x : Snapshot S L) (r t : Nat) : Prop :=
  (∀ {e}, x.chart.HasEntry r e → x.chart.HasEntry t e) ∨
    ∃ k, .reconcile k t ∈ x.items ∧ ∀ {e}, x.chart.HasEntry r e → x.chart.InComponent k e

/-- Entries spread along the edges. -/
def Spread (x : Snapshot S L) : Prop := ∀ {r t}, x.chart.Edge r t → x.Covered r t

/-- An entry is one of its own component. -/
def Homed (x : Snapshot S L) : Prop := ∀ {e}, x.chart.IsEntry e → x.chart.HasEntry e e

/-- An entry reaches whatever has it, or will have it by a pending item. -/
structure Traced (x : Snapshot S L) : Prop where
  reached : ∀ {u e}, x.chart.HasEntry u e → x.chart.Reaches e u
  carried : ∀ {k t e}, .reconcile k t ∈ x.items → x.chart.InComponent k e → x.chart.Reaches e t

end Snapshot

/-- What holds between the steps of an exploration. -/
structure Steady (op : Operand S L) (x : Snapshot S L) : Prop extends Coherent op x where
  spread : x.Spread
  homed : x.Homed

theorem Steady.named (hx : Steady op x) {e : Nat} (he : x.chart.IsEntry e) :
    ∃ s, x.chart.nameOf e = some s :=
  Arena.lt_size_iff.mp (hx.homed he).lt_size

/-! ## Progress -/

/-- What is on `c` is still on `c'`, and no flag has changed. -/
structure Chart.Extends (c c' : Chart S L) : Prop where
  nameOf : ∀ {u s}, c.nameOf u = some s → c'.nameOf u = some s
  isInitial : ∀ {u s}, c.nameOf u = some s → c'.isInitial u = c.isInitial u
  explored : ∀ u, c'.explored u = c.explored u
  candidate : ∀ u, c'.candidate u = c.candidate u
  returnLetters : ∀ u, c'.returnLetters u = c.returnLetters u
  examined : ∀ {u h}, h ∈ c.examined u → h ∈ c'.examined u
  internalOut : ∀ {u e}, e ∈ c.internalOut u → e ∈ c'.internalOut u
  callOut : ∀ {u e}, e ∈ c.callOut u → e ∈ c'.callOut u
  returnOut : ∀ {u e}, e ∈ c.returnOut u → e ∈ c'.returnOut u
  summaries : ∀ {u e}, e ∈ c.summaries u → e ∈ c'.summaries u
  isEntry : ∀ {e}, c.IsEntry e → c'.IsEntry e
  entryDown : ∀ {e d}, c.EntryDown e d → c'.EntryDown e d
  components : c.components ≤ c'.components
  inComponent : ∀ {k e}, k < c.components → (c'.InComponent k e ↔ c.InComponent k e)
  hasEntry : ∀ {u e}, c.HasEntry u e → c'.HasEntry u e

namespace Chart.Extends

theorem refl (c : Chart S L) : c.Extends c :=
  ⟨id, fun _ => rfl, fun _ => rfl, fun _ => rfl, fun _ => rfl, id, id, id, id, id, id, id,
    Nat.le_refl _, fun _ => Iff.rfl, id⟩

theorem trans {c₁ c₂ c₃ : Chart S L} (h : c₁.Extends c₂) (h' : c₂.Extends c₃) : c₁.Extends c₃ where
  nameOf hn := h'.nameOf (h.nameOf hn)
  isInitial hn := (h'.isInitial (h.nameOf hn)).trans (h.isInitial hn)
  explored u := (h'.explored u).trans (h.explored u)
  candidate u := (h'.candidate u).trans (h.candidate u)
  returnLetters u := (h'.returnLetters u).trans (h.returnLetters u)
  examined hm := h'.examined (h.examined hm)
  internalOut hm := h'.internalOut (h.internalOut hm)
  callOut hm := h'.callOut (h.callOut hm)
  returnOut hm := h'.returnOut (h.returnOut hm)
  summaries hm := h'.summaries (h.summaries hm)
  isEntry he := h'.isEntry (h.isEntry he)
  entryDown hd := h'.entryDown (h.entryDown hd)
  components := Nat.le_trans h.components h'.components
  inComponent hk := (h'.inComponent (Nat.lt_of_lt_of_le hk h.components)).trans (h.inComponent hk)
  hasEntry he := h'.hasEntry (h.hasEntry he)

variable {c c' : Chart S L}

theorem edge (h : c.Extends c') {r t : Nat} : c.Edge r t → c'.Edge r t
  | .inl ⟨l, he⟩ => .inl ⟨l, h.internalOut he⟩
  | .inr ⟨l, p, he⟩ => .inr ⟨l, p, h.summaries he⟩

theorem reaches (h : c.Extends c') {r t : Nat} (hr : c.Reaches r t) : c'.Reaches r t :=
  hr.lift id fun _ _ => h.edge

theorem starts (h : c.Extends c') {s : S} : c.Starts s → c'.Starts s
  | ⟨u, hu, hi, he, hd⟩ =>
    ⟨u, h.nameOf hu, (h.isInitial hu).trans hi, h.isEntry he, h.entryDown hd⟩

theorem addEntry {e : Nat} : c.Extends (c.addEntry e) :=
  { refl c with isEntry := .inr }

theorem addDown {e : Nat} {d : Down Nat} : c.Extends (c.addDown e d) :=
  { refl c with entryDown := .inl }

theorem setEntries {H : Nat → Nat → Prop} (hH : ∀ {u e}, c.HasEntry u e → H u e) :
    c.Extends (c.setEntries H) :=
  { refl c with hasEntry := hH }

/-- The component is new, or had these entries. -/
theorem addComponent {k : Nat} {E : FinSet Nat}
    (hk : k < c.components → ∀ {e}, c.InComponent k e ↔ e ∈ E) : c.Extends (c.addComponent k E) :=
  { refl c with
    components := Nat.le_max_left _ _
    inComponent := by
      intro i e hi
      refine ⟨fun he => he.elim id ?_, .inl⟩
      intro h
      obtain ⟨rfl, hE⟩ := h
      exact (hk hi).mpr hE }

theorem addState {u k : Nat} {name : S} {isInitial isFinal : Bool} (hu : c.nameOf u = none) :
    c.Extends (c.addState u name isInitial isFinal k) :=
  have hne : ∀ {v s}, c.nameOf v = some s → v ≠ u := by
    rintro v s hv rfl
    rw [hu] at hv
    cases hv
  { refl c with
    nameOf := fun hv => (if_neg (hne hv)).trans hv
    isInitial := fun hv => if_neg (hne hv)
    hasEntry := .inl }

variable [Std.LawfulEqOrd L]

theorem addInternal {u v : Nat} {l : L} : c.Extends (c.addInternal u l v) :=
  { refl c with internalOut := fun hm => mem_insertAt.mpr (.inl hm) }

theorem addCall {u v : Nat} {l : L} : c.Extends (c.addCall u l v) :=
  { refl c with callOut := fun hm => mem_insertAt.mpr (.inl hm) }

theorem addReturn {u h v : Nat} {l : L} : c.Extends (c.addReturn u h l v) :=
  { refl c with
    returnOut := fun hm => mem_insertAt.mpr (.inl hm)
    summaries := fun hm => mem_insertAt.mpr (.inl hm) }

omit [Std.LawfulEqOrd L] in
theorem setExamined {u h : Nat} : c.Extends (c.setExamined u h) :=
  { refl c with examined := fun hm => mem_insertAt.mpr (.inl hm) }

end Chart.Extends

/-- What is in `x` is still in `y`, and no flag has changed. -/
structure Keeps (x y : Snapshot S L) : Prop extends Chart.Extends x.chart y.chart where
  items : ∀ {item}, item ∈ x.items → item ∈ y.items

namespace Keeps

theorem refl (x : Snapshot S L) : Keeps x x := ⟨.refl _, id⟩

theorem trans (h : Keeps x y) (h' : Keeps y z) : Keeps x z :=
  ⟨Chart.Extends.trans h.toExtends h'.toExtends, fun hi => h'.items (h.items hi)⟩

theorem hasDown (h : Keeps x y) {u : Nat} {d : Down Nat} :
    x.chart.HasDown u d → y.chart.HasDown u d
  | ⟨e, he, hd⟩ => ⟨e, h.hasEntry he, h.entryDown hd⟩

theorem flows (h : Keeps x y) {u v : Nat} : x.chart.Flows op u v → y.chart.Flows op u v :=
  Chart.Flows.mono h.nameOf

/-- What was due is still due. -/
theorem due (h : Keeps x y) {item : WorkItem} (hd : x.chart.Due op item) :
    y.chart.Due op item := by
  cases item with
  | explore u => exact hd.imp fun _ => h.nameOf
  | reconcile k t =>
    obtain ⟨hk, ⟨s, hs⟩, hflows⟩ := hd
    exact ⟨Nat.lt_of_lt_of_le hk h.components, ⟨s, h.nameOf hs⟩,
      fun he => h.flows (hflows ((h.inComponent hk).mp he))⟩
  | examine u p => exact ⟨(h.explored u).trans hd.1, h.hasDown hd.2⟩

end Keeps

/-- A step after which the returns of explored states under new stack tops are due. -/
structure Grows (x y : Snapshot S L) : Prop extends Keeps x y where
  queued : ∀ {u h}, y.chart.explored u = true → y.chart.candidate u = true →
    y.chart.HasDown u (.caller h) →
    x.chart.HasDown u (.caller h) ∨ .examine u h ∈ y.items

namespace Grows

theorem refl (x : Snapshot S L) : Grows x x := ⟨.refl x, fun _ _ => .inl⟩

theorem trans (h : Grows x y) (h' : Grows y z) : Grows x z where
  toKeeps := h.toKeeps.trans h'.toKeeps
  queued {u p} hu hc hd := by
    rcases h'.queued hu hc hd with hd | hi
    · rw [h'.explored] at hu
      rw [h'.candidate] at hc
      exact (h.queued hu hc hd).imp id h'.items
    · exact .inr hi

/-- A step that changes neither entries nor stack tops. -/
theorem of_keeps (h : Keeps x y) (hh : ∀ {u e}, y.chart.HasEntry u e → x.chart.HasEntry u e)
    (hd : ∀ {e d}, y.chart.EntryDown e d → x.chart.EntryDown e d) : Grows x y :=
  ⟨h, fun _ _ ⟨e, he, hed⟩ => .inl ⟨e, hh he, hd hed⟩⟩

end Grows

/-! ## What is known -/

namespace Chart

/-- All internal transitions of a state are on the chart. -/
def InternalsKnown (op : Operand S L) (c : Chart S L) (u : Nat) : Prop :=
  ∃ s, c.nameOf u = some s ∧ ∀ l ∈ op.internalLetters s, ∀ t ∈ op.internalSuccessors s l,
    ∃ v, c.nameOf v = some t ∧ (l, v) ∈ c.internalOut u

/-- All calls of a state are on the chart, and it is a stack top of their targets. -/
def CallsKnown (op : Operand S L) (c : Chart S L) (u : Nat) : Prop :=
  ∃ s, c.nameOf u = some s ∧ ∀ l ∈ op.callLetters s, ∀ t ∈ op.callSuccessors s l,
    ∃ v, c.nameOf v = some t ∧ (l, v) ∈ c.callOut u ∧ c.IsEntry v ∧ c.EntryDown v (.caller u)

/-- All returns of `u` under `h` are on the chart. -/
def ReturnsKnown (op : Operand S L) (c : Chart S L) (u h : Nat) : Prop :=
  ∃ s p, c.nameOf u = some s ∧ c.nameOf h = some p ∧
    ∀ l ∈ op.returnLetters s, ∀ t ∈ op.returnSuccessors s p l,
      ∃ v, c.nameOf v = some t ∧ (h, l, v) ∈ c.returnOut u

end Chart

namespace Keeps

variable (h : Keeps x y) {u p : Nat}
include h

theorem internalsKnown : x.chart.InternalsKnown op u → y.chart.InternalsKnown op u
  | ⟨s, hs, hall⟩ => ⟨s, h.nameOf hs, fun l hl t ht =>
    (hall l hl t ht).imp fun _ hv => ⟨h.nameOf hv.1, h.internalOut hv.2⟩⟩

theorem callsKnown : x.chart.CallsKnown op u → y.chart.CallsKnown op u
  | ⟨s, hs, hall⟩ => ⟨s, h.nameOf hs, fun l hl t ht => (hall l hl t ht).imp fun _ hv =>
    ⟨h.nameOf hv.1, h.callOut hv.2.1, h.isEntry hv.2.2.1, h.entryDown hv.2.2.2⟩⟩

theorem returnsKnown : x.chart.ReturnsKnown op u p → y.chart.ReturnsKnown op u p
  | ⟨s, r, hs, hr, hall⟩ => ⟨s, r, h.nameOf hs, h.nameOf hr, fun l hl t ht =>
    (hall l hl t ht).imp fun _ hv => ⟨h.nameOf hv.1, h.returnOut hv.2⟩⟩

end Keeps

/-- What is traced stays so if all that is new is traced. -/
theorem Snapshot.Traced.keeps (ht : x.Traced) (hx : Coherent op x) (h : Keeps x y)
    (hreached : ∀ {u e}, y.chart.HasEntry u e → x.chart.HasEntry u e ∨ y.chart.Reaches e u)
    (hcarried : ∀ {k t}, .reconcile k t ∈ y.items → .reconcile k t ∈ x.items ∨
      ∀ {e}, y.chart.InComponent k e → y.chart.Reaches e t) : y.Traced where
  reached he := (hreached he).elim (fun he => h.reaches (ht.reached he)) id
  carried {k t e} hi he := by
    rcases hcarried hi with hi | hall
    · exact h.reaches (ht.carried hi ((h.inComponent (hx.due hi).1).mp he))
    · exact hall he

/-- A step that notes returns as known only if they are, gives no state an entry that does not
reach it, and leaves no border wrong. -/
structure Advances (op : Operand S L) (x y : Snapshot S L) : Prop extends Grows x y where
  known : ∀ {u h}, h ∈ y.chart.examined u → h ∈ x.chart.examined u ∨ y.chart.ReturnsKnown op u h
  traced : x.Traced → y.Traced
  bordered : x.Bordered → y.Bordered

namespace Advances

theorem refl (x : Snapshot S L) : Advances op x x := ⟨.refl x, .inl, id, id⟩

theorem trans (h : Advances op x y) (h' : Advances op y z) : Advances op x z where
  toGrows := h.toGrows.trans h'.toGrows
  known hm := by
    rcases h'.known hm with hm | hk
    · exact (h.known hm).imp id h'.toKeeps.returnsKnown
    · exact .inr hk
  traced ht := h'.traced (h.traced ht)
  bordered hb := h'.bordered (h.bordered hb)

/-- A step that notes no returns as known. -/
theorem of_grows (h : Grows x y) (he : ∀ u, y.chart.examined u = x.chart.examined u)
    (ht : x.Traced → y.Traced) (hb : x.Bordered → y.Bordered) : Advances op x y :=
  ⟨h, fun {u _} hm => .inl (he u ▸ hm), ht, hb⟩

end Advances

/-! ## Between two items -/

/-- The invariant between two work items: all about an explored state is known or due. -/
structure Settled (op : Operand S L) (x : Snapshot S L) : Prop extends Steady op x where
  internals : ∀ {u}, x.chart.explored u = true → x.chart.InternalsKnown op u
  calls : ∀ {u}, x.chart.explored u = true → x.chart.CallsKnown op u
  awaited : ∀ {u h}, x.chart.explored u = true → x.chart.candidate u = true →
    x.chart.HasDown u (.caller h) → h ∈ x.chart.examined u ∨ .examine u h ∈ x.items
  returns : ∀ {u h}, h ∈ x.chart.examined u → x.chart.ReturnsKnown op u h
  starts : ∀ s ∈ op.initial, x.chart.Starts s
  traced : x.Traced
  bordered : x.Bordered

/-! ## Steps -/

/-- The parts of `Coherent` that a step which adds neither states nor items has to show. -/
theorem Coherent.of_keeps (hx : Coherent op x) (h : Keeps x y) (hwf : y.arena.WellFormed)
    (hlinked : y.chart.Linked) (hsound : y.chart.Sound op) (hitems : y.items = x.items)
    (hname : y.chart.nameOf = x.chart.nameOf) (hmark : y.chart.mark = x.chart.mark) :
    Coherent op y where
  wellFormed := hwf
  linked := hlinked
  sound := hsound
  due hi := h.due (hx.due (hitems ▸ hi))
  unexplored u := by rw [hitems, hname, h.explored]; exact hx.unexplored u
  unmarked u := by rw [hmark]; exact hx.unmarked u

omit [Std.TransOrd L] in
theorem Snapshot.Covered.mono {r t : Nat} (hc : x.Covered r t)
    (hr : ∀ {e}, y.chart.HasEntry r e → x.chart.HasEntry r e)
    (ht : ∀ {e}, x.chart.HasEntry t e → y.chart.HasEntry t e)
    (hk : ∀ {k e}, x.chart.InComponent k e → y.chart.InComponent k e)
    (hi : ∀ {k}, .reconcile k t ∈ x.items → .reconcile k t ∈ y.items) : y.Covered r t := by
  rcases hc with hall | ⟨k, hmem, hall⟩
  · exact .inl fun he => ht (hall (hr he))
  · exact .inr ⟨k, hi hmem, fun he => hk (hall (hr he))⟩

/-- A step that gives the source no entry. -/
theorem Snapshot.Covered.keeps {r t : Nat} (hc : x.Covered r t) (h : Keeps x y)
    (hr : ∀ {e}, y.chart.HasEntry r e → x.chart.HasEntry r e) : y.Covered r t :=
  hc.mono hr h.hasEntry
    (fun he => (h.inComponent (Arena.lt_components_of_mem he)).mpr he) h.items

/-- A step that adds neither edges nor entries. -/
theorem Steady.of_keeps (hx : Steady op x) (h : Keeps x y) (hy : Coherent op y)
    (hedge : ∀ {r t}, y.chart.Edge r t → x.chart.Edge r t)
    (hentry : ∀ {u e}, y.chart.HasEntry u e → x.chart.HasEntry u e)
    (hisEntry : ∀ {e}, y.chart.IsEntry e → x.chart.IsEntry e) : Steady op y where
  toCoherent := hy
  spread he := (hx.spread (hedge he)).keeps h hentry
  homed he := h.hasEntry (hx.homed (hisEntry he))

namespace Exploration

variable {x y : Exploration S L} {item : WorkItem}

theorem keeps_push : Keeps x.snapshot (x.push item).snapshot :=
  { Keeps.refl x.snapshot with items := fun hi => Worklist.mem_items_push.mpr (.inl hi) }

theorem grows_push : Grows x.snapshot (x.push item).snapshot :=
  .of_keeps keeps_push id id

theorem coherent_push (hx : Coherent op x.snapshot) (hitem : ∀ u, item ≠ .explore u)
    (hdue : x.snapshot.chart.Due op item) : Coherent op (x.push item).snapshot :=
  { hx with
    due := by
      intro i hi
      rcases Worklist.mem_items_push.mp hi with hi | rfl
      · exact hx.due hi
      · exact hdue
    unexplored := fun u => by
      show (x.pending.push item).items.count _ = _
      rw [Worklist.count_items_push, if_neg (hitem u)]
      exact hx.unexplored u }

end Exploration

end NestedWords
