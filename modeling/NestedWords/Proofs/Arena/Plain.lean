import NestedWords.Proofs.Arena.View

/-!
# Arenas without the bookkeeping of returns

An arena remembers which states may have return transitions, the letters of these, and under
which callers they are known. This only serves to skip questions. `Arena.plain` forgets it, and
the lemmas of this module say what does not depend on it: whatever is read through names,
components and transitions.
-/
namespace NestedWords

variable {S L α : Type} [Ord L]

/-- The node without what it remembers about return letters. -/
def Node.plain (n : Node S L) : Node S L :=
  { n with candidate := true, returnLetters := ∅, examined := ∅ }

/-- The component without its candidates. -/
def Component.plain (c : Component) : Component := { c with candidates := ∅ }

/-- What is read off the plain node is the same for nodes that are the same when plain. -/
theorem Node.congr_plain {n m : Node S L} {f : Node S L → α} (h : n.plain = m.plain)
    (hf : ∀ n, f n.plain = f n) : f n = f m := by
  rw [← hf n, h, hf]

theorem Component.congr_plain {c d : Component} {f : Component → α} (h : c.plain = d.plain)
    (hf : ∀ c, f c.plain = f c) : f c = f d := by
  rw [← hf c, h, hf]

namespace Arena

/-- The arena without what it remembers about return letters. -/
def plain (a : Arena S L) : Arena S L :=
  { a with nodes := a.nodes.map Node.plain, components := a.components.map Component.plain }

variable {a b : Arena S L} {u k : Nat} {d : α}

@[simp] theorem size_plain : a.plain.size = a.size := Array.size_map

@[simp] theorem nodes_plain : a.plain.nodes[u]? = (a.nodes[u]?).map Node.plain :=
  Array.getElem?_map

@[simp] theorem components_plain : a.plain.components[k]? = (a.components[k]?).map .plain :=
  Array.getElem?_map

theorem field_plain {f : Node S L → α} (hf : ∀ n, f n.plain = f n) :
    a.plain.field f d u = a.field f d u := by
  unfold field
  rw [nodes_plain]
  cases a.nodes[u]? with
  | none => rfl
  | some n => exact hf n

theorem node_plain : a.plain.node u = Node.plain <$> a.node u := by
  have hsize : a.plain.nodes.size = a.nodes.size := size_plain
  unfold node
  rw [nodes_plain, hsize]
  cases a.nodes[u]? <;> rfl

theorem component_plain : a.plain.component k = Component.plain <$> a.component k := by
  have hsize : a.plain.components.size = a.components.size := Array.size_map
  unfold component
  rw [components_plain, hsize]
  cases a.components[k]? <;> rfl

@[simp] theorem name_plain : a.plain.name u = a.name u := by
  unfold name
  rw [nodes_plain]
  cases a.nodes[u]? <;> rfl

@[simp] theorem componentOf_plain : a.plain.componentOf u = a.componentOf u := by
  unfold componentOf
  rw [node_plain]
  cases a.node u <;> rfl

@[simp] theorem downsOf_plain : a.plain.downsOf u = a.downsOf u := by
  unfold downsOf
  rw [componentOf_plain]
  refine bind_congr fun k => ?_
  rw [component_plain]
  cases a.component k <;> rfl

@[simp] theorem idOf_plain [DecidableEq S] {s : S} : a.plain.idOf s = a.idOf s :=
  Array.findIdx?_map

@[simp] theorem residents_plain : a.plain.residents k = a.residents k := by
  unfold residents
  rw [size_plain]
  congr 1
  funext u
  rw [nodes_plain, Option.any_map]
  rfl

section
variable [Std.TransOrd L]

@[simp] theorem successorsWithin_plain : a.plain.successorsWithin u = a.successorsWithin u := by
  unfold successorsWithin
  rw [nodes_plain]
  cases a.nodes[u]? <;> rfl

@[simp] theorem region_plain : a.plain.region k u = a.region k u := by
  unfold region
  rw [residents_plain]
  congr 1
  exact funext fun _ => successorsWithin_plain

@[simp] theorem foreignSuccessors_plain : a.plain.foreignSuccessors u = a.foreignSuccessors u := by
  unfold foreignSuccessors
  rw [node_plain]
  cases a.node u with
  | error e => rfl
  | ok n =>
    show (do
      let foreign ← n.plain.successorsWithin.filterM fun t =>
        return (← a.plain.componentOf t) != n.plain.component
      return Std.ExtTreeSet.ofList foreign) = _
    simp only [componentOf_plain]
    rfl

end

/-- A change that does not touch the bookkeeping. -/
theorem updateNode_plain {u : Nat} {f : Node S L → Node S L}
    (hf : ∀ n, f n.plain = (f n).plain) :
    a.plain.updateNode u f = Arena.plain <$> a.updateNode u f := by
  unfold updateNode
  have hsize : a.plain.nodes.size = a.nodes.size := size_plain
  by_cases h : u < a.nodes.size
  · rw [dif_pos h, dif_pos (hsize ▸ h)]
    refine congrArg Except.ok ?_
    simp [plain, hf]
  · rw [dif_neg h, dif_neg (hsize ▸ h), hsize]
    rfl

@[simp] theorem downsOfEntries_plain {E : FinSet Nat} :
    a.plain.downsOfEntries E = a.downsOfEntries E := rfl

end Arena

end NestedWords
