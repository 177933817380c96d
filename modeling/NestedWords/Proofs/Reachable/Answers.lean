import NestedWords.Proofs.Arena.Plain
import NestedWords.Proofs.Liveness.Promotion
import NestedWords.Reachable

/-!
# All answers of a result

`Reachable.answers` collects whatever can be asked of a result, and `Answers.forward` leaves out
what is only known if dead ends were computed. The forward answers can be read off the bare
result, in which neither marks are left nor what the arena remembers in order to skip questions
about returns (`forward_bare`). The other answers do not depend on the latter either, so results
that only differ in what the arena remembers cannot be told apart (`answers_eq`).
-/

namespace NestedWords

/-- The answer to each question about a result. -/
@[ext] structure Answers (S L : Type) where
  size : Nat
  isEmpty : Bool
  states : List S
  contains : S → Bool
  initialStates : List S
  finalStates : List S
  isInitial : S → Bool
  isFinal : S → Bool
  internalSuccessors : S → List (L × S)
  internalSuccessorsFor : S → L → List S
  callSuccessors : S → List (L × S)
  returnSuccessors : S → List (S × L × S)
  returnSuccessorsGivenHier : S → S → List (L × S)
  internalPredecessors : S → List (L × S)
  callPredecessors : S → List (L × S)
  returnPredecessors : S → List (S × S × L)
  summariesOf : S → List (L × S × S)
  summarySuccessors : S → L → List (S × S)
  isDoubleDecker : S → Down S → Bool
  downStates : S → List (Down S)
  deadEndsComputed : Bool
  reachProp : S → Option Mark
  isLive : S → Bool
  isLiveDoubleDecker : S → Down S → Bool
  entryLiveness : S → Down S → Option Mark
  liveStates : List S
  deadEnds : List S
  isLanguageEmpty : Bool
  numberOfInternalTransitions : Nat
  numberOfCallTransitions : Nat
  numberOfReturnTransitions : Nat
  numberOfDoubleDeckers : Nat
  sizeInformation : String

/-- The answers without what they say of dead ends: of a mark only whether there is one, and no
text that counts live states. -/
def Answers.forward {S L : Type} (x : Answers S L) : Answers S L :=
  { x with
    deadEndsComputed := false
    reachProp := fun s => (x.reachProp s).map fun _ => .reachable
    isLive := fun _ => false
    isLiveDoubleDecker := fun _ _ => false
    entryLiveness := fun s d => (x.entryLiveness s d).map fun _ => .reachable
    liveStates := []
    deadEnds := []
    sizeInformation := "" }

/-- Answers are the same if the forward answers are, and what is said of dead ends. -/
theorem Answers.ext_forward {S L : Type} {x y : Answers S L} (h : x.forward = y.forward)
    (deadEndsComputed : x.deadEndsComputed = y.deadEndsComputed)
    (reachProp : x.reachProp = y.reachProp) (isLive : x.isLive = y.isLive)
    (isLiveDoubleDecker : x.isLiveDoubleDecker = y.isLiveDoubleDecker)
    (entryLiveness : x.entryLiveness = y.entryLiveness) (liveStates : x.liveStates = y.liveStates)
    (deadEnds : x.deadEnds = y.deadEnds) (sizeInformation : x.sizeInformation = y.sizeInformation) :
    x = y := by
  cases x
  cases y
  simp_all [forward]

namespace Reachable

variable {S L : Type} [DecidableEq S] [Ord L] [Std.TransOrd L] [DecidableEq L]

/-- What the result answers. -/
def answers (r : Reachable S L) : Answers S L where
  size := r.size
  isEmpty := r.isEmpty
  states := r.states
  contains := r.contains
  initialStates := r.initialStates
  finalStates := r.finalStates
  isInitial := r.isInitial
  isFinal := r.isFinal
  internalSuccessors := r.internalSuccessors
  internalSuccessorsFor := r.internalSuccessorsFor
  callSuccessors := r.callSuccessors
  returnSuccessors := r.returnSuccessors
  returnSuccessorsGivenHier := r.returnSuccessorsGivenHier
  internalPredecessors := r.internalPredecessors
  callPredecessors := r.callPredecessors
  returnPredecessors := r.returnPredecessors
  summariesOf := r.summariesOf
  summarySuccessors := r.summarySuccessors
  isDoubleDecker := r.isDoubleDecker
  downStates := r.downStates
  deadEndsComputed := r.deadEndsComputed
  reachProp := r.reachProp
  isLive := r.isLive
  isLiveDoubleDecker := r.isLiveDoubleDecker
  entryLiveness := r.entryLiveness
  liveStates := r.liveStates
  deadEnds := r.deadEnds
  isLanguageEmpty := r.isLanguageEmpty
  numberOfInternalTransitions := r.numberOfInternalTransitions
  numberOfCallTransitions := r.numberOfCallTransitions
  numberOfReturnTransitions := r.numberOfReturnTransitions
  numberOfDoubleDeckers := r.numberOfDoubleDeckers
  sizeInformation := r.sizeInformation

/-- The result on the plain arena. -/
def plain (r : Reachable S L) : Reachable S L := { r with arena := r.arena.plain }

/-- The result on the plain arena without marks. -/
def bare (r : Reachable S L) : Reachable S L :=
  { arena := r.arena.plain.unmarked, deadEndsComputed := false }

end Reachable

/-- The node with neither bookkeeping nor mark. -/
def Node.bare {S L : Type} [Ord L] (n : Node S L) : Node S L := n.plain.unmarked

namespace Reachable

variable {S L : Type} [Ord L]
  {r : Reachable S L} {s : S}

/-! ## What is read off a bare result -/

theorem nodes_bare : r.bare.nodes = r.nodes.map Node.bare := by
  show (Array.map _ (Array.map _ _)).toList = _
  rw [Array.map_map, Array.toList_map]
  rfl

theorem map_nodes_bare {α : Type} {f : Node S L → α} (hf : ∀ n, f n.bare = f n) :
    r.bare.nodes.map f = r.nodes.map f := by
  rw [nodes_bare, List.map_map]
  exact List.map_congr_left fun n _ => hf n

theorem filter_nodes_bare {p : Node S L → Bool} (hp : ∀ n, p n.bare = p n) :
    (r.bare.nodes.filter p).map (·.name) = (r.nodes.filter p).map (·.name) := by
  have hcomp : p ∘ Node.bare = p := funext hp
  rw [nodes_bare, List.filter_map, List.map_map, hcomp]
  rfl

theorem total_nodes_bare {f g : Node S L → Nat} (hfg : ∀ n, f n.bare = g n) :
    total f r.bare.nodes = total g r.nodes := by
  rw [nodes_bare]
  induction r.nodes with
  | nil => rfl
  | cons n l ih => rw [List.map_cons, total, total, hfg, ih]

theorem getElem?_nodes_bare {u : Nat} :
    r.bare.arena.nodes[u]? = (r.arena.nodes[u]?).map Node.bare := by
  show (Array.map _ (Array.map _ _))[u]? = _
  rw [Array.map_map, Array.getElem?_map]
  rfl

variable [DecidableEq S]

theorem node?_bare : r.bare.node? s = (r.node? s).map Node.bare := by
  show (Array.map _ (Array.map _ _)).find? _ = _
  rw [Array.map_map, Array.find?_map]
  rfl

theorem idOf_bare : r.bare.idOf s = r.idOf s := by
  show Array.findIdx? _ (Array.map _ (Array.map _ _)) = _
  rw [Array.map_map, Array.findIdx?_map]
  rfl

theorem downId_bare {d : Down S} : r.bare.downId d = r.downId d := by
  cases d with
  | bottom => rfl
  | caller s => exact congrArg (Option.map _) idOf_bare

omit [DecidableEq S] in
theorem map_node_bare {α : Type} {f : Node S L → α} (hf : ∀ n, f n.bare = f n) {u : Nat} :
    (r.bare.arena.nodes[u]?).map f = (r.arena.nodes[u]?).map f := by
  rw [getElem?_nodes_bare, Option.map_map]
  exact congrArg (Option.map · _) (funext hf)

omit [DecidableEq S] in
theorem named_bare {α β : Type} {edges : List α} {id : α → Nat} {f : α → S → β} :
    r.bare.named edges id f = r.named edges id f := by
  unfold named
  congr 1
  funext e
  exact map_node_bare fun _ => rfl

omit [DecidableEq S] in
theorem named_named_bare {α β γ : Type} {edges : List α} {i : α → Nat} {f : α → S → β}
    {j : β → Nat} {g : β → S → γ} :
    r.bare.named (r.bare.named edges i f) j g = r.named (r.named edges i f) j g := by
  rw [named_bare, named_bare]

variable [Std.TransOrd L]

theorem labelled_bare {edges : Node S L → Table L (FinSet Nat)}
    (hedges : ∀ n, edges n.bare = edges n) : r.bare.labelled s edges = r.labelled s edges := by
  unfold labelled
  rw [node?_bare]
  cases r.node? s with
  | none => rfl
  | some n =>
    show r.bare.named (edges n.bare).toList _ _ = _
    rw [named_bare, hedges]

omit [DecidableEq S] [Std.TransOrd L] in
theorem downIds_bare {n : Node S L} : r.bare.downIds n.bare = r.downIds n := by
  have hcomponent : r.bare.arena.components[n.bare.component]? =
      (r.arena.components[n.component]?).map .plain := Arena.components_plain
  unfold downIds
  rw [hcomponent]
  cases r.arena.components[n.component]? <;> rfl

omit [Std.TransOrd L] in
theorem any_node?_bare {p : Node S L → Bool} (hp : ∀ n, p n.bare = p n) :
    (r.bare.node? s).any p = (r.node? s).any p := by
  rw [node?_bare]
  cases r.node? s with
  | none => rfl
  | some n => exact hp n

/-! ## Forward answers -/

theorem returnSuccessors_bare : r.bare.returnSuccessors = r.returnSuccessors := by
  funext s
  unfold returnSuccessors
  rw [node?_bare]
  cases r.node? s with
  | none => rfl
  | some n =>
    exact named_named_bare (j := fun e : S × L × Nat => e.2.2)
      (g := fun e t => (e.1, e.2.1, t))

theorem returnPredecessors_bare : r.bare.returnPredecessors = r.returnPredecessors := by
  funext s
  unfold returnPredecessors
  rw [node?_bare]
  cases r.node? s with
  | none => rfl
  | some n =>
    exact named_named_bare (j := fun e : S × L × Nat => e.2.2)
      (g := fun e t => (t, e.1, e.2.1))

theorem summariesOf_bare : r.bare.summariesOf = r.summariesOf := by
  funext s
  unfold summariesOf
  rw [node?_bare]
  cases r.node? s with
  | none => rfl
  | some n =>
    exact named_named_bare (j := fun e : L × S × Nat => e.2.2)
      (g := fun e t => (e.1, e.2.1, t))

omit [Std.TransOrd L] in
theorem isDoubleDecker_bare : r.bare.isDoubleDecker = r.isDoubleDecker := by
  funext s d
  unfold isDoubleDecker
  rw [node?_bare, downId_bare]
  cases r.node? s with
  | none => rfl
  | some n =>
    cases r.downId d with
    | none => rfl
    | some e =>
      show (r.bare.downIds n.bare).contains e = _
      rw [downIds_bare]

omit [Std.TransOrd L] in
theorem downStates_bare : r.bare.downStates = r.downStates := by
  funext s
  unfold downStates
  rw [node?_bare]
  cases r.node? s with
  | none => rfl
  | some n =>
    simp only [Option.map_some, downIds_bare]
    congr 1
    funext e
    cases e with
    | bottom => rfl
    | caller c => exact map_node_bare fun _ => rfl

omit [Std.TransOrd L] in
/-- A bare result has forgotten the mark of an entry's stack top, but not the stack top. -/
theorem entryLiveness_bare {d : Down S} :
    r.bare.entryLiveness s d = (r.entryLiveness s d).map fun _ => .reachable := by
  have hentries : ∀ {e : Nat},
      r.bare.arena.entries[e]? = (r.arena.entries[e]?).map Entry.unmarked :=
    Std.ExtTreeMap.getElem?_map
  unfold entryLiveness
  rw [idOf_bare, downId_bare]
  cases r.idOf s with
  | none => rfl
  | some e =>
    show (r.bare.arena.entries[e]?).bind _ = Option.map _ ((r.arena.entries[e]?).bind _)
    rw [hentries]
    cases r.arena.entries[e]? with
    | none => rfl
    | some E =>
      cases r.downId d with
      | none => rfl
      | some i => exact Std.ExtTreeMap.getElem?_map

variable [DecidableEq L]

/-- The forward answers do not depend on marks, nor on what the arena remembers to skip
questions. -/
theorem forward_bare : r.bare.answers.forward = r.answers.forward := by
  have hsize : r.bare.size = r.size := by
    show (Array.map _ (Array.map _ _)).size = _
    rw [Array.size_map, Array.size_map]
    rfl
  have hlabelled : ∀ {edges : Node S L → Table L (FinSet Nat)}, (∀ n, edges n.bare = edges n) →
      (r.bare.labelled · edges) = (r.labelled · edges) :=
    fun hedges => funext fun _ => labelled_bare hedges
  have hreturns : r.bare.returnSuccessors = r.returnSuccessors := returnSuccessors_bare
  have hsummaries : r.bare.summariesOf = r.summariesOf := summariesOf_bare
  have hinternal : r.bare.internalSuccessors = r.internalSuccessors := hlabelled fun _ => rfl
  apply Answers.ext
  case size => exact hsize
  case isEmpty => exact congrArg (· == 0) hsize
  case states => exact map_nodes_bare fun _ => rfl
  case contains => exact funext fun _ => congrArg Option.isSome idOf_bare
  case initialStates | finalStates => exact filter_nodes_bare fun _ => rfl
  case isInitial | isFinal => exact funext fun _ => any_node?_bare fun _ => rfl
  case internalSuccessors | callSuccessors | internalPredecessors | callPredecessors =>
    exact hlabelled fun _ => rfl
  case internalSuccessorsFor =>
    funext s l
    exact congrArg (List.filterMap _) (congrFun hinternal s)
  case returnSuccessors => exact hreturns
  case returnSuccessorsGivenHier =>
    funext s p
    exact congrArg (List.filterMap _) (congrFun hreturns s)
  case returnPredecessors => exact returnPredecessors_bare
  case summariesOf => exact hsummaries
  case summarySuccessors =>
    funext s l
    exact congrArg (List.filterMap _) (congrFun hsummaries s)
  case isDoubleDecker => exact isDoubleDecker_bare
  case downStates => exact downStates_bare
  case reachProp =>
    funext s
    show ((r.bare.node? s).map _).map _ = ((r.node? s).map _).map _
    rw [node?_bare, Option.map_map, Option.map_map, Option.map_map]
    rfl
  case entryLiveness =>
    funext s d
    show (r.bare.entryLiveness s d).map _ = _
    rw [entryLiveness_bare, Option.map_map]
    rfl
  case isLanguageEmpty =>
    refine congrArg (!·) ?_
    rw [nodes_bare, List.any_map]
    rfl
  case numberOfInternalTransitions => exact total_nodes_bare fun _ => rfl
  case numberOfCallTransitions => exact total_nodes_bare fun _ => rfl
  case numberOfReturnTransitions => exact total_nodes_bare fun _ => rfl
  case numberOfDoubleDeckers => exact total_nodes_bare fun _ => congrArg _ downIds_bare
  case deadEndsComputed | isLive | isLiveDoubleDecker | liveStates | deadEnds | sizeInformation =>
    rfl

theorem forward_eq {r' : Reachable S L} (h : r.bare = r'.bare) :
    r.answers.forward = r'.answers.forward := by
  rw [← forward_bare, h, forward_bare]

omit [DecidableEq S] [Std.TransOrd L] [DecidableEq L] in
theorem bare_eq {r' : Reachable S L} (h : r.arena.unmarked = r'.arena.unmarked) :
    r.bare = r'.bare := by
  have hswap : ∀ a : Arena S L, a.plain.unmarked = a.unmarked.plain := by
    intro a
    simp only [Arena.plain, Arena.unmarked, Array.map_map]
    rfl
  rw [bare, hswap, h, ← hswap, bare]

/-! ## All answers -/

omit [DecidableEq S] [Std.TransOrd L] [DecidableEq L] in
theorem bare_plain : r.plain.bare = r.bare := by
  have hnodes : (r.arena.nodes.map Node.plain).map Node.plain = r.arena.nodes.map Node.plain :=
    Array.map_map.trans rfl
  have hcomponents : (r.arena.components.map Component.plain).map Component.plain =
      r.arena.components.map Component.plain := Array.map_map.trans rfl
  simp only [bare, plain, Arena.plain, hnodes, hcomponents]

omit [Std.TransOrd L] [DecidableEq L] in
theorem idOf_plain : r.plain.idOf s = r.idOf s := Arena.idOf_plain

omit [Std.TransOrd L] [DecidableEq L] in
theorem downId_plain {d : Down S} : r.plain.downId d = r.downId d := by
  cases d with
  | bottom => rfl
  | caller s => exact congrArg (Option.map _) idOf_plain

omit [Std.TransOrd L] [DecidableEq L] in
theorem reachProp_plain : r.plain.reachProp = r.reachProp := by
  funext s
  have hnode : r.plain.node? s = (r.node? s).map Node.plain := Array.find?_map
  unfold reachProp
  rw [hnode, Option.map_map]
  rfl

omit [DecidableEq S] [Std.TransOrd L] [DecidableEq L] in
theorem marked_plain {m : Mark} : (r.plain.nodes.filter (·.mark == m)).map (·.name) =
    (r.nodes.filter (·.mark == m)).map (·.name) := by
  show ((Array.map _ _).toList.filter _).map _ = _
  rw [Array.toList_map, List.filter_map, List.map_map]
  rfl

/-- No answer depends on what the arena remembers to skip questions. -/
theorem answers_plain : r.plain.answers = r.answers := by
  have hforward : r.plain.answers.forward = r.answers.forward := forward_eq bare_plain
  have hlive : r.plain.liveStates = r.liveStates := marked_plain
  have hdead : r.plain.deadEnds = r.deadEnds := marked_plain
  refine Answers.ext_forward hforward rfl reachProp_plain ?_ ?_ ?_ hlive hdead ?_
  · funext s
    show (r.plain.reachProp s == some .noDeadEnd) = _
    rw [reachProp_plain]
    rfl
  · funext s d
    show r.plain.isLiveDoubleDecker s d = _
    unfold isLiveDoubleDecker
    rw [idOf_plain, downId_plain]
    rfl
  · funext s d
    show r.plain.entryLiveness s d = _
    unfold entryLiveness
    rw [idOf_plain, downId_plain]
    rfl
  · -- the sizes are forward answers, but for the number of live states
    have hsize : r.plain.size = r.size := congrArg (·.size) hforward
    have hinternal : r.plain.numberOfInternalTransitions = r.numberOfInternalTransitions :=
      congrArg (·.numberOfInternalTransitions) hforward
    have hcall : r.plain.numberOfCallTransitions = r.numberOfCallTransitions :=
      congrArg (·.numberOfCallTransitions) hforward
    have hreturn : r.plain.numberOfReturnTransitions = r.numberOfReturnTransitions :=
      congrArg (·.numberOfReturnTransitions) hforward
    have hdeckers : r.plain.numberOfDoubleDeckers = r.numberOfDoubleDeckers :=
      congrArg (·.numberOfDoubleDeckers) hforward
    show r.plain.sizeInformation = r.sizeInformation
    unfold sizeInformation
    rw [hsize, hinternal, hcall, hreturn, hdeckers, hlive]
    rfl

/-- Results that differ only in what they remember to skip questions answer alike. -/
theorem answers_eq {r' : Reachable S L} (h : r.plain = r'.plain) : r.answers = r'.answers := by
  rw [← answers_plain, h, answers_plain]

end Reachable

end NestedWords
