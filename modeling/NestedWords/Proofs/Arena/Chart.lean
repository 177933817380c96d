import NestedWords.Proofs.Arena.Update
import NestedWords.Exploration.Basic

/-!
# What an arena records

`Arena.chart` reads an arena as functions of the ids: the fields of the states, the stack
tops of the entries, and which entries reach a state or belong to a component. The invariant
of an exploration speaks of the chart alone, and each operation on the arena is told by what
it does to the chart: `addInternal_yields` and its siblings for the nodes,
`StateAdded.chart_eq`, `addEntry_chart` and the rest for the bookkeeping. A well-formed arena
sees under a state just the stack tops that its chart gives it (`WellFormed.hasDown_chart`).
-/
namespace NestedWords

/-- The row at `u` gets one more element. -/
def insertAt {ρ α : Type} [Row ρ α] (f : Nat → ρ) (u : Nat) (x : α) : Nat → ρ :=
  fun v => if v = u then Row.insert (f v) x else f v

@[simp] theorem mem_insertAt {ρ α : Type} [Ord α] [Row ρ α] [Membership α ρ] [LawfulRow ρ]
    {f : Nat → ρ} {u v : Nat} {x y : α} : y ∈ insertAt f u x v ↔ y ∈ f v ∨ v = u ∧ y = x := by
  unfold insertAt
  split <;> simp_all [LawfulRow.mem_insert]

theorem filled_insertAt {ρ α : Type} [Ord α] [Row ρ α] [Membership α ρ] [LawfulRow ρ]
    {f : Nat → ρ} {u : Nat} {x : α} (hf : ∀ v, Row.Filled (f v)) (v : Nat) :
    Row.Filled (insertAt f u x v) := by
  unfold insertAt
  split
  · exact LawfulRow.filled_insert (hf v)
  · exact hf v

/-- The value at `u` becomes `x`. -/
def setAt {α : Type} (f : Nat → α) (u : Nat) (x : α) : Nat → α := fun v => if v = u then x else f v

/-- An arena as functions of the ids. -/
@[ext] structure Chart (S L : Type) [Ord L] where
  nameOf : Nat → Option S
  isInitial : Nat → Bool
  isFinal : Nat → Bool
  explored : Nat → Bool
  candidate : Nat → Bool
  mark : Nat → Mark
  returnLetters : Nat → FinSet L
  examined : Nat → FinSet Nat
  internalOut : Nat → Table L (FinSet Nat)
  internalIn : Nat → Table L (FinSet Nat)
  callOut : Nat → Table L (FinSet Nat)
  callIn : Nat → Table L (FinSet Nat)
  returnOut : Nat → Table Nat (Table L (FinSet Nat))
  returnIn : Nat → Table Nat (Table L (FinSet Nat))
  summaries : Nat → Table L (FinSet (Nat × Nat))
  IsEntry : Nat → Prop
  /-- The stack top is one of the entry. -/
  EntryDown : Nat → Down Nat → Prop
  /-- How many components there are. -/
  components : Nat
  /-- The component has the entry. -/
  InComponent : Nat → Nat → Prop
  /-- The component of the state has the entry. -/
  HasEntry : Nat → Nat → Prop

namespace Chart

variable {S L : Type} [Ord L]

/-- The stack tops of a state are those of its entries. -/
def HasDown (c : Chart S L) (u : Nat) (d : Down Nat) : Prop := ∃ e, c.HasEntry u e ∧ c.EntryDown e d

/-- The edges within a call are the internal and the summary edges. -/
def Edge [Std.TransOrd L] (c : Chart S L) (r t : Nat) : Prop :=
  (∃ l, (l, t) ∈ c.internalOut r) ∨ ∃ l p, (l, p, t) ∈ c.summaries r

/-! ## Changes -/

section
variable [Std.TransOrd L] (c : Chart S L)

def addInternal (source : Nat) (letter : L) (target : Nat) : Chart S L :=
  { c with
    internalOut := insertAt c.internalOut source (letter, target)
    internalIn := insertAt c.internalIn target (letter, source) }

def addCall (source : Nat) (letter : L) (target : Nat) : Chart S L :=
  { c with
    callOut := insertAt c.callOut source (letter, target)
    callIn := insertAt c.callIn target (letter, source) }

def addReturn (lin hier : Nat) (letter : L) (target : Nat) : Chart S L :=
  { c with
    returnOut := insertAt c.returnOut lin (hier, letter, target)
    returnIn := insertAt c.returnIn target (hier, letter, lin)
    summaries := insertAt c.summaries hier (letter, lin, target) }

def setExamined (up hier : Nat) : Chart S L :=
  { c with examined := insertAt c.examined up hier }

/-- The state is explored, and a candidate for returns if it has letters for them. -/
def setExplored (u : Nat) (letters : FinSet L) : Chart S L :=
  { c with
    explored := setAt c.explored u true
    returnLetters := setAt c.returnLetters u letters
    candidate := if letters.isEmpty then setAt c.candidate u false else c.candidate }
end

/-- A new state with the entries of component `k`. -/
def addState (c : Chart S L) (u : Nat) (name : S) (isInitial isFinal : Bool) (k : Nat) :
    Chart S L :=
  { c with
    nameOf := setAt c.nameOf u (some name)
    isInitial := setAt c.isInitial u isInitial
    isFinal := setAt c.isFinal u isFinal
    HasEntry := fun v e => c.HasEntry v e ∨ v = u ∧ c.InComponent k e }

def addEntry (c : Chart S L) (e : Nat) : Chart S L :=
  { c with IsEntry := fun e' => e' = e ∨ c.IsEntry e' }

def addDown (c : Chart S L) (e : Nat) (d : Down Nat) : Chart S L :=
  { c with EntryDown := fun e' d' => c.EntryDown e' d' ∨ e' = e ∧ d' = d }

def setEntries (c : Chart S L) (H : Nat → Nat → Prop) : Chart S L := { c with HasEntry := H }

/-- Component `k` has the entries `E`. -/
def addComponent (c : Chart S L) (k : Nat) (E : FinSet Nat) : Chart S L :=
  { c with
    components := max c.components (k + 1)
    InComponent := fun i e => c.InComponent i e ∨ i = k ∧ e ∈ E }

end Chart

namespace Arena

variable {S L : Type} [Ord L] {a b : Arena S L}

def chart (a : Arena S L) : Chart S L where
  nameOf := a.nameOf
  isInitial := a.isInitial
  isFinal := a.isFinal
  explored := a.explored
  candidate := a.candidate
  mark := a.mark
  returnLetters := a.returnLetters
  examined := a.examined
  internalOut := a.internalOut
  internalIn := a.internalIn
  callOut := a.callOut
  callIn := a.callIn
  returnOut := a.returnOut
  returnIn := a.returnIn
  summaries := a.summaries
  IsEntry e := e ∈ a.entries
  EntryDown e d := d ∈ a.entryDowns e
  components := a.components.size
  InComponent k e := e ∈ a.entriesIn k
  HasEntry := a.HasEntry

theorem edge_chart [Std.TransOrd L] [Std.LawfulEqOrd L] {r t : Nat} :
    a.chart.Edge r t ↔ t ∈ a.successorsWithin r := mem_successorsWithin.symm

theorem edge_congr [Std.TransOrd L] (h : b.nodes = a.nodes) : b.chart.Edge = a.chart.Edge := by
  have hfield : ∀ {α : Type} (f : Node S L → α) (d : α), b.field f d = a.field f d :=
    fun f d => funext fun _ => field_congr h
  show (fun r t => (∃ l, (l, t) ∈ b.field _ _ r) ∨ ∃ l p, (l, p, t) ∈ b.field _ _ r) = _
  rw [hfield, hfield]
  rfl

theorem WellFormed.hasDown_chart (ha : a.WellFormed) {u : Nat} {d : Down Nat} :
    a.chart.HasDown u d ↔ a.HasDown u d := ha.hasDown_iff.symm

theorem mem_entries_of_component {k e : Nat} {c : Component} (h : a.components[k]? = some c) :
    e ∈ c.entries ↔ a.chart.InComponent k e := by
  have hentries : a.entriesIn k = c.entries := part_eq h
  rw [← hentries]
  exact Iff.rfl

theorem lt_size_iff {u : Nat} : u < a.size ↔ ∃ s, a.chart.nameOf u = some s :=
  ⟨exists_nameOf, fun ⟨_, h⟩ => lt_size_of_nameOf h⟩

/-- Borders and indices are not on the chart. -/
theorem Alike.chart_eq (h : Alike a b) (hn : b.nodes = a.nodes) : b.chart = a.chart := by
  apply Chart.ext
  case IsEntry => show (fun e => e ∈ b.entries) = _; rw [h.entries]; rfl
  case EntryDown => show (fun e d => d ∈ b.entryDowns e) = _; unfold entryDowns; rw [h.entries]; rfl
  case components => exact h.components
  case InComponent => show (fun k e => e ∈ b.entriesIn k) = _; simp only [h.entriesIn]; rfl
  case HasEntry => exact funext fun u => funext fun e => propext h.hasEntry
  all_goals exact funext fun u => field_congr hn

/-! ## The same entries -/

section
variable (h : SameEntries a b)
include h

theorem SameEntries.isEntry_eq : b.chart.IsEntry = a.chart.IsEntry := by
  show (fun e => e ∈ b.entries) = _
  rw [h.entries]
  rfl

theorem SameEntries.entryDown_eq : b.chart.EntryDown = a.chart.EntryDown := by
  show (fun e d => d ∈ b.entryDowns e) = _
  unfold entryDowns
  rw [h.entries]
  rfl

theorem SameEntries.inComponent_eq : b.chart.InComponent = a.chart.InComponent := by
  show (fun k e => e ∈ b.entriesIn k) = _
  simp only [h.entriesIn]
  rfl
end

/-! ## Writing to a node -/

section
variable {u : Nat} {g : Node S L → Node S L}

theorem hasEntry_modifyNode (hc : ∀ n, (g n).component = n.component) :
    (a.modifyNode u g).HasEntry = a.HasEntry := by
  funext v e
  have h : (a.modifyNode u g).home v = a.home v := field_modifyNode_same fun n => by rw [hc]
  unfold HasEntry
  rw [h]
  rfl

theorem field_same {α : Type} {f : Node S L → α} {d : α} (hf : ∀ n, f (g n) = f n) :
    (a.modifyNode u g).field f d = a.field f d := funext fun _ => field_modifyNode_same hf

theorem field_insert {ρ α : Type} [Row ρ α] {f : Node S L → ρ} {d : ρ} {x : α}
    (hu : u < a.size) (hf : ∀ n, f (g n) = Row.insert (f n) x) :
    (a.modifyNode u g).field f d = insertAt (a.field f d) u x :=
  funext fun _ => field_modifyNode (fun r : ρ => Row.insert r x) hf hu

theorem field_set {α : Type} {f : Node S L → α} {d x : α} (hu : u < a.size)
    (hf : ∀ n, f (g n) = x) : (a.modifyNode u g).field f d = setAt (a.field f d) u x :=
  funext fun _ => field_modifyNode (fun _ => x) hf hu
end

theorem Excluded.chart_eq {u : Nat} (hu : u < a.size) (h : Excluded a u b) :
    b.chart = { a.chart with candidate := setAt a.chart.candidate u false } := by
  have hfield : ∀ {α : Type} (f : Node S L → α) (d : α),
      b.field f d = (a.modifyNode u ({ · with candidate := false })).field f d :=
    fun f d => funext fun _ => field_congr h.nodes
  apply Chart.ext
  case candidate => exact Eq.trans (hfield _ _) (field_set hu fun _ => rfl)
  case IsEntry => exact h.isEntry_eq
  case EntryDown => exact h.entryDown_eq
  case components => exact h.components
  case InComponent => exact h.inComponent_eq
  case HasEntry =>
    show (fun v e => ∃ k, b.home v = some k ∧ e ∈ b.entriesIn k) = _
    simp only [h.entriesIn, home, hfield]
    exact hasEntry_modifyNode fun _ => rfl
  all_goals exact Eq.trans (hfield _ _) (field_same fun _ => rfl)

theorem Excluded.sameBorders {u : Nat} (h : Excluded a u b) : SameBorders a b where
  home v := by
    have hsame : (a.modifyNode u ({ · with candidate := false })).home v = a.home v :=
      field_modifyNode_same fun _ => rfl
    exact (field_congr h.nodes).trans hsame
  borderIn := h.borderIn

section
variable (ha : a.WellFormed) {s t h u : Nat} {l : L}
include ha

/-- A write to a node that keeps its name, component and flag. -/
theorem updateNode_yields {g : Node S L → Node S L} (hu : u < a.size) (hg : ∀ n,
    (g n).name = n.name ∧ (g n).component = n.component ∧ (g n).candidate = n.candidate) :
    Yields (a.updateNode u g) fun b =>
      b.WellFormed ∧ b.size = a.size ∧ SameBorders a b ∧ b = a.modifyNode u g := by
  rw [updateNode_eq_ok hu]
  have h := alike_modifyNode (a := a) (u := u) (fun n => (hg n).1) (fun n => (hg n).2.1)
    fun n => (hg n).2.2
  exact yields_ok ⟨h.wellFormed ha, size_modifyNode, ⟨h.home, fun _ => rfl⟩, rfl⟩

variable [Std.TransOrd L]

theorem addInternal_yields (hs : s < a.size) (ht : t < a.size) :
    Yields (a.addInternal s l t) fun b =>
      b.WellFormed ∧ b.chart = a.chart.addInternal s l t ∧ SameBorders a b := by
  refine (updateNode_yields ha hs fun _ => ⟨by rfl, by rfl, by rfl⟩).bind ?_
  intro b h
  obtain ⟨hb, hsize, hsame, hb'⟩ := h
  refine (updateNode_yields hb (hsize ▸ ht) fun _ => ⟨by rfl, by rfl, by rfl⟩).mono ?_
  intro b' h
  obtain ⟨hwf, -, hsame', rfl⟩ := h
  refine ⟨hwf, ?_, hsame.trans hsame'⟩
  have ht' : t < b.size := hsize ▸ ht
  subst hb'
  apply Chart.ext
  case internalOut => exact Eq.trans (field_same fun _ => rfl) (field_insert hs fun _ => rfl)
  case internalIn =>
    exact Eq.trans (field_insert ht' fun _ => rfl)
      (congrArg (insertAt · t _) (field_same fun _ => rfl))
  case HasEntry =>
    exact Eq.trans (hasEntry_modifyNode fun _ => rfl) (hasEntry_modifyNode fun _ => rfl)
  all_goals first
    | exact Eq.trans (field_same fun _ => rfl) (field_same fun _ => rfl)
    | rfl

theorem addCall_yields (hs : s < a.size) (ht : t < a.size) :
    Yields (a.addCall s l t) fun b =>
      b.WellFormed ∧ b.chart = a.chart.addCall s l t ∧ SameBorders a b := by
  refine (updateNode_yields ha hs fun _ => ⟨by rfl, by rfl, by rfl⟩).bind ?_
  intro b h
  obtain ⟨hb, hsize, hsame, hb'⟩ := h
  refine (updateNode_yields hb (hsize ▸ ht) fun _ => ⟨by rfl, by rfl, by rfl⟩).mono ?_
  intro b' h
  obtain ⟨hwf, -, hsame', rfl⟩ := h
  refine ⟨hwf, ?_, hsame.trans hsame'⟩
  have ht' : t < b.size := hsize ▸ ht
  subst hb'
  apply Chart.ext
  case callOut => exact Eq.trans (field_same fun _ => rfl) (field_insert hs fun _ => rfl)
  case callIn =>
    exact Eq.trans (field_insert ht' fun _ => rfl)
      (congrArg (insertAt · t _) (field_same fun _ => rfl))
  case HasEntry =>
    exact Eq.trans (hasEntry_modifyNode fun _ => rfl) (hasEntry_modifyNode fun _ => rfl)
  all_goals first
    | exact Eq.trans (field_same fun _ => rfl) (field_same fun _ => rfl)
    | rfl

theorem addReturn_yields (hu : u < a.size) (hh : h < a.size) (ht : t < a.size) :
    Yields (a.addReturn u h l t) fun b =>
      b.WellFormed ∧ b.chart = a.chart.addReturn u h l t ∧ SameBorders a b := by
  refine (updateNode_yields ha hu fun _ => ⟨by rfl, by rfl, by rfl⟩).bind ?_
  intro b h
  obtain ⟨hb, hsize, hsame, hb'⟩ := h
  refine (updateNode_yields hb (hsize ▸ ht) fun _ => ⟨by rfl, by rfl, by rfl⟩).bind ?_
  intro c h
  obtain ⟨hc, hsize', hsame', hc'⟩ := h
  have hh' : h < c.size := by rw [hsize', hsize]; exact hh
  refine (updateNode_yields hc hh' fun _ => ⟨by rfl, by rfl, by rfl⟩).mono ?_
  intro d h
  obtain ⟨hwf, -, hsame'', hd'⟩ := h
  refine ⟨hwf, ?_, (hsame.trans hsame').trans hsame''⟩
  have h₁ : b.chart = { a.chart with
      returnOut := insertAt a.chart.returnOut u (h, l, t) } := by
    subst hb'
    apply Chart.ext
    case returnOut => exact field_insert hu fun _ => rfl
    case HasEntry => exact hasEntry_modifyNode fun _ => rfl
    all_goals first
      | exact field_same fun _ => rfl
      | rfl
  have h₂ : c.chart = { b.chart with returnIn := insertAt b.chart.returnIn t (h, l, u) } := by
    subst hc'
    apply Chart.ext
    case returnIn => exact field_insert (hsize ▸ ht) fun _ => rfl
    case HasEntry => exact hasEntry_modifyNode fun _ => rfl
    all_goals first
      | exact field_same fun _ => rfl
      | rfl
  have h₃ : d.chart = { c.chart with summaries := insertAt c.chart.summaries h (l, u, t) } := by
    subst hd'
    apply Chart.ext
    case summaries => exact field_insert hh' fun _ => rfl
    case HasEntry => exact hasEntry_modifyNode fun _ => rfl
    all_goals first
      | exact field_same fun _ => rfl
      | rfl
  rw [h₃, h₂, h₁]
  rfl

omit [Std.TransOrd L]

theorem setExamined_yields (hu : u < a.size) :
    Yields (a.updateNode u fun n => { n with examined := n.examined.insert h }) fun b =>
      b.WellFormed ∧ b.chart = a.chart.setExamined u h ∧ SameBorders a b := by
  refine (updateNode_yields ha hu fun _ => ⟨by rfl, by rfl, by rfl⟩).mono ?_
  intro b h
  obtain ⟨hwf, -, hsame, rfl⟩ := h
  refine ⟨hwf, ?_, hsame⟩
  apply Chart.ext
  case examined => exact field_insert hu fun _ => rfl
  case HasEntry => exact hasEntry_modifyNode fun _ => rfl
  all_goals first
    | exact field_same fun _ => rfl
    | rfl

theorem setReturnLetters_yields (letters : FinSet L) (hu : u < a.size) :
    Yields (a.updateNode u fun n => { n with returnLetters := letters, explored := true }) fun b =>
      b.WellFormed ∧ b.chart =
        { a.chart with
          explored := setAt a.chart.explored u true
          returnLetters := setAt a.chart.returnLetters u letters } ∧ SameBorders a b := by
  refine (updateNode_yields ha hu fun _ => ⟨by rfl, by rfl, by rfl⟩).mono ?_
  intro b h
  obtain ⟨hwf, -, hsame, rfl⟩ := h
  refine ⟨hwf, ?_, hsame⟩
  apply Chart.ext
  case explored => exact field_set hu fun _ => rfl
  case returnLetters => exact field_set hu fun _ => rfl
  case HasEntry => exact hasEntry_modifyNode fun _ => rfl
  all_goals first
    | exact field_same fun _ => rfl
    | rfl

theorem markExplored_yields (letters : FinSet L) (hu : u < a.size) :
    Yields (Exploration.markExplored a u letters) fun b =>
      b.WellFormed ∧ b.chart = a.chart.setExplored u letters ∧ SameBorders a b := by
  unfold Exploration.markExplored
  split
  · next h =>
    refine (excludeCandidate_yields ha hu).bind ?_
    intro b hb
    have hu' : u < b.size := by simpa [size, hb.nodes] using hu
    refine (setReturnLetters_yields hb.wellFormed letters hu').mono ?_
    intro c h'
    obtain ⟨hc, hchart, hsame⟩ := h'
    refine ⟨hc, ?_, (hb.sameBorders).trans hsame⟩
    rw [hchart, hb.chart_eq hu, Chart.setExplored, if_pos h]
  · next h =>
    refine (setReturnLetters_yields ha letters hu).mono ?_
    intro c h'
    obtain ⟨hc, hchart, hsame⟩ := h'
    refine ⟨hc, ?_, hsame⟩
    rw [hchart, Chart.setExplored, if_neg h]
end

/-! ## Bookkeeping -/

theorem addEntry_chart {e : Nat} : (a.addEntry e).chart = a.chart.addEntry e := by
  apply Chart.ext
  case IsEntry => exact funext fun _ => propext mem_entries_addEntry
  case EntryDown =>
    show (fun e' d => d ∈ (a.addEntry e).entryDowns e') = _
    simp only [entryDowns_addEntry]
    rfl
  all_goals rfl

theorem DownAdded.chart_eq {e : Nat} {d : Down Nat} {grown : List Nat}
    (h : DownAdded a e d grown b) : b.chart = a.chart.addDown e d := by
  apply Chart.ext
  case IsEntry => exact funext fun _ => propext h.mem_entries
  case EntryDown => exact funext fun _ => funext fun _ => propext h.mem_entryDowns
  case components => exact h.components
  case InComponent => show (fun k e => e ∈ b.entriesIn k) = _; simp only [h.entriesIn]; rfl
  case HasEntry =>
    show (fun u e => ∃ k, b.home u = some k ∧ e ∈ b.entriesIn k) = _
    simp only [h.entriesIn, home, field_congr h.nodes]
    rfl
  all_goals exact funext fun _ => field_congr h.nodes

theorem Found.chart_eq (ha : a.WellFormed) {E : FinSet Nat} {k : Nat} (h : Found a E k b) :
    b.chart = a.chart.addComponent k E := by
  have hcomponent : ∀ i e, e ∈ b.entriesIn i ↔ e ∈ a.entriesIn i ∨ i = k ∧ e ∈ E := by
    intro i e
    by_cases hi : i = k
    · subst hi
      rw [h.entriesIn_self]
      by_cases hk : i < a.components.size
      · rw [← h.entriesIn i hk, h.entriesIn_self]
        simp
      · have hempty : a.entriesIn i = ∅ := part_of_ge (by omega)
        simp [hempty]
    · by_cases hi' : i < a.components.size
      · rw [h.entriesIn i hi']
        simp [hi]
      · have hle := h.le_components
        have hsize := h.components
        have hempty : a.entriesIn i = ∅ := part_of_ge (by omega)
        have hempty' : b.entriesIn i = ∅ := part_of_ge (by omega)
        simp [hempty, hempty', hi]
  apply Chart.ext
  case IsEntry => show (fun e => e ∈ b.entries) = _; rw [h.entries]; rfl
  case EntryDown => show (fun e d => d ∈ b.entryDowns e) = _; unfold entryDowns; rw [h.entries]; rfl
  case components => exact h.components
  case InComponent => exact funext fun i => funext fun e => propext (hcomponent i e)
  case HasEntry =>
    funext u e
    apply propext
    show (∃ i, b.home u = some i ∧ e ∈ b.entriesIn i) ↔ ∃ i, a.home u = some i ∧ e ∈ a.entriesIn i
    rw [home, home, field_congr h.nodes]
    refine exists_congr fun i => and_congr_right fun hi => ?_
    rw [h.entriesIn i (ha.home_lt hi)]
  all_goals exact funext fun _ => field_congr h.nodes

theorem StateAdded.chart_eq {name : S} {k : Nat} {isInitial isFinal : Bool}
    (h : StateAdded a name k isInitial isFinal b) :
    b.chart = a.chart.addState a.size name isInitial isFinal k := by
  apply Chart.ext
  case nameOf => exact funext fun _ => field_push h.nodes
  case isInitial => exact funext fun _ => field_push h.nodes
  case isFinal => exact funext fun _ => field_push h.nodes
  case IsEntry => exact h.isEntry_eq
  case EntryDown => exact h.entryDown_eq
  case components => exact h.components
  case InComponent => exact h.inComponent_eq
  case HasEntry =>
    funext v e
    apply propext
    show (∃ i, b.home v = some i ∧ e ∈ b.entriesIn i) ↔
      (∃ i, a.home v = some i ∧ e ∈ a.entriesIn i) ∨ v = a.size ∧ e ∈ a.entriesIn k
    have hhome : b.home v = if v = a.size then some k else a.home v := field_push h.nodes
    simp only [hhome, h.entriesIn]
    by_cases hv : v = a.size
    · have : a.home v = none := field_of_ge (by omega)
      simp [hv, hv ▸ this]
    · simp [hv]
  all_goals exact funext fun _ => field_push_same h.nodes rfl

end Arena

end NestedWords
