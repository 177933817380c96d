import NestedWords.Proofs.Alongside
import NestedWords.Proofs.Letters
import NestedWords.Proofs.Arena.Plain
import NestedWords.Proofs.Arena.Update

/-!
# Two arenas of one automaton

Two operands that differ in letters without successors lead to arenas that differ as well: the
one may look for returns where the other knows that there are none. `Arena.Twins` says that
nothing else differs. Two arenas are the same when plain, each remembers the letters that its
own operand gave, and on states that may return they agree entirely. It is relative to an
earlier arena, whose states have kept their names.

Each operation leads from twins to twins (`Twins.addState` and its siblings). What is only read
or written for states that never return may be done on one side alone (`Twins.updateNode_left`).
-/

namespace NestedWords

variable {S L α : Type} [Ord L] [Std.TransOrd L] {A B : Operand S L}

/-- Two nodes remember the letters that their operands gave, and agree if the state may return. -/
structure Node.Twins (A B : Operand S L) (n m : Node S L) : Prop where
  letters : n.returnLetters = if n.explored then A.returnLetters n.name else ∅
  letters' : m.returnLetters = if m.explored then B.returnLetters m.name else ∅
  returning : ¬ A.NeverReturns n.name →
    n.candidate = true ∧ m.candidate = true ∧ n.examined = m.examined

namespace Arena

/-- The state is known, and never returns. -/
def Silent (op : Operand S L) (a : Arena S L) (u : Nat) : Prop :=
  ∃ s, a.nameOf u = some s ∧ op.NeverReturns s

/-- The arenas differ in what they remember about states that never return, and in nothing
else; both go back to the arena `c`. -/
structure Twins (A B : Operand S L) (c a b : Arena S L) : Prop where
  plain : a.plain = b.plain
  named : ∀ {u s}, c.nameOf u = some s → a.nameOf u = some s
  nodes : ∀ {u : Nat} {n m : Node S L}, a.nodes[u]? = some n → b.nodes[u]? = some m →
    n.Twins A B m
  candidates : ∀ {k u}, ¬ a.Silent A u → (u ∈ a.candidatesIn k ↔ u ∈ b.candidatesIn k)

variable {a b c : Arena S L} {u v k : Nat}

omit [Std.TransOrd L] in
theorem eq_modifyNode {g : Node S L → Node S L} (h : a.updateNode u g = .ok b) :
    b = a.modifyNode u g := by
  by_cases hu : u < a.size
  · rw [updateNode_eq_ok hu] at h
    exact (Except.ok.inj h).symm
  · rw [updateNode, dif_neg (show ¬ u < a.nodes.size from hu)] at h
    cases h

omit [Std.TransOrd L] in
theorem eq_modifyComponent {g : Component → Component} (h : a.updateComponent k g = .ok b) :
    b = a.modifyComponent k g := by
  by_cases hk : k < a.components.size
  · rw [updateComponent_eq_ok hk] at h
    exact (Except.ok.inj h).symm
  · rw [updateComponent, dif_neg hk] at h
    cases h

omit [Std.TransOrd L] in
/-- Two arenas are the same when plain if their nodes and components are, one by one. -/
theorem plain_ext
    (hnodes : ∀ u : Nat, (a.nodes[u]?).map Node.plain = (b.nodes[u]?).map Node.plain)
    (hentries : a.entries = b.entries)
    (hcomponents : ∀ k : Nat,
      (a.components[k]?).map Component.plain = (b.components[k]?).map Component.plain)
    (hby : a.componentByEntries = b.componentByEntries)
    (hof : a.componentsOfEntry = b.componentsOfEntry) : a.plain = b.plain := by
  obtain ⟨an, ae, ac, ab, ao⟩ := a
  obtain ⟨bn, be, bc, bb, bo⟩ := b
  simp only at hentries hby hof
  subst hentries hby hof
  have hn : an.map Node.plain = bn.map Node.plain :=
    Array.ext_getElem? fun u => by simpa using hnodes u
  have hc : ac.map Component.plain = bc.map Component.plain :=
    Array.ext_getElem? fun k => by simpa using hcomponents k
  show Arena.mk _ _ _ _ _ = Arena.mk _ _ _ _ _
  rw [hn, hc]

namespace Twins

section
variable (h : Twins A B c a b)
include h

/-! ## Reading -/

/-- What is read off the plain arena is the same. -/
theorem congr {f : Arena S L → α} (hf : ∀ a, f a.plain = f a) : f a = f b := by
  rw [← hf a, h.plain, hf]

theorem nodes_plain (u : Nat) : (a.nodes[u]?).map Node.plain = (b.nodes[u]?).map Node.plain := by
  rw [← Arena.nodes_plain, h.plain, Arena.nodes_plain]

theorem components_plain (k : Nat) :
    (a.components[k]?).map Component.plain = (b.components[k]?).map Component.plain := by
  rw [← Arena.components_plain, h.plain, Arena.components_plain]

theorem entries : a.entries = b.entries := h.congr (f := (·.entries)) fun _ => rfl

theorem size : a.size = b.size := h.congr (f := (·.size)) fun _ => size_plain

theorem components_size : a.components.size = b.components.size :=
  h.congr (f := (·.components.size)) fun _ => Array.size_map

theorem nameOf (u : Nat) : a.nameOf u = b.nameOf u :=
  h.congr (f := (·.nameOf u)) fun _ => field_plain fun _ => rfl

/-- The nodes of a state are twins, and the same when plain. -/
theorem node : Alongside (fun n m => a.nodes[u]? = some n ∧ b.nodes[u]? = some m ∧
    n.plain = m.plain ∧ n.Twins A B m) (a.node u) (b.node u) := by
  have hplain := h.nodes_plain u
  unfold Arena.node
  cases hn : a.nodes[u]? with
  | none =>
    intro n m hn
    cases hn
  | some n =>
    cases hm : b.nodes[u]? with
    | none =>
      intro n m _ hm
      cases hm
    | some m =>
      rw [hn, hm] at hplain
      exact alongside_ok ⟨rfl, rfl, Option.some.inj hplain, h.nodes hn hm⟩

/-- A state remembers no letter that its operand did not give. -/
theorem mem_returnLetters {n : Node S L} (hn : a.nodes[u]? = some n) {l : L}
    (hl : l ∈ n.returnLetters) : l ∈ A.returnLetters n.name := by
  have hplain := h.nodes_plain u
  rw [hn] at hplain
  obtain ⟨m, hm, -⟩ := Option.map_eq_some_iff.mp hplain.symm
  rw [(h.nodes hn hm).letters] at hl
  split at hl
  · exact hl
  · exact absurd hl Std.ExtTreeSet.not_mem_empty

theorem component : Alongside (fun C D => C.plain = D.plain ∧ ∀ u, ¬ a.Silent A u →
    (u ∈ C.candidates ↔ u ∈ D.candidates)) (a.component k) (b.component k) := by
  have hplain := h.components_plain k
  have hcandidates := @h.candidates k
  unfold Arena.component
  cases hC : a.components[k]? with
  | none =>
    intro C D hC
    cases hC
  | some C =>
    cases hD : b.components[k]? with
    | none =>
      intro C D _ hD
      cases hD
    | some D =>
      rw [hC, hD] at hplain
      rw [candidatesIn, candidatesIn, part_eq hC, part_eq hD] at hcandidates
      exact alongside_ok ⟨Option.some.inj hplain, fun u hu => hcandidates hu⟩

/-- What is read off a component when plain is the same. -/
theorem read_component {g : Component → α} (hg : ∀ C, g C.plain = g C) :
    (do return g (← a.component k) : Except (Fault S) α) = (do return g (← b.component k)) := by
  refine h.congr (f := fun a => do return g (← a.component k)) fun a => ?_
  rw [component_plain]
  cases a.component k with
  | error e => rfl
  | ok C => exact congrArg Except.ok (hg C)

/-- What is read off a node when plain is the same. -/
theorem read_node {g : Node S L → α} (hg : ∀ n, g n.plain = g n) :
    (do return g (← a.node u) : Except (Fault S) α) = (do return g (← b.node u)) := by
  refine h.congr (f := fun a => do return g (← a.node u)) fun a => ?_
  rw [node_plain]
  cases a.node u with
  | error e => rfl
  | ok n => exact congrArg Except.ok (hg n)

theorem componentOf : a.componentOf u = b.componentOf u :=
  h.congr (f := (·.componentOf u)) fun _ => componentOf_plain

theorem silent_iff (hAB : A.SameTransitions B) : a.Silent A u ↔ b.Silent B u := by
  unfold Silent
  simp only [h.nameOf, hAB.neverReturns_iff]

theorem symm (hAB : A.SameTransitions B) : Twins B A c b a where
  plain := h.plain.symm
  named hu := by rw [← h.nameOf]; exact h.named hu
  nodes {u n m} hn hm := by
    have hplain := h.nodes_plain u
    simp only [hn, hm, Option.map_some, Option.some.injEq] at hplain
    have hname : m.name = n.name := Node.congr_plain (f := (·.name)) hplain fun _ => rfl
    have ht := h.nodes hm hn
    refine ⟨ht.letters', ht.letters, fun hr => ?_⟩
    obtain ⟨hc, hc', he⟩ := ht.returning (by rwa [hname, hAB.neverReturns_iff])
    exact ⟨hc', hc, he.symm⟩
  candidates hu := (h.candidates (mt (h.silent_iff hAB).mp hu)).symm

/-! ## Writing -/

/-- A change to a node that leaves its name alone. -/
theorem updateNode {f g : Node S L → Node S L}
    (hplain : ∀ n m, n.plain = m.plain → (f n).plain = (g m).plain)
    (hname : ∀ n, (f n).name = n.name)
    (hnode : ∀ n m, a.nodes[u]? = some n → b.nodes[u]? = some m → n.Twins A B m →
      (f n).Twins A B (g m)) :
    Alongside (Twins A B c) (a.updateNode u f) (b.updateNode u g) := by
  intro a' b' ha' hb'
  obtain rfl := eq_modifyNode ha'
  obtain rfl := eq_modifyNode hb'
  have hnames : ∀ v, (a.modifyNode u f).nameOf v = a.nameOf v :=
    fun v => field_modifyNode_same fun n => congrArg some (hname n)
  refine ⟨plain_ext (fun v => ?_) h.entries h.components_plain
    (h.congr (f := (·.componentByEntries)) fun _ => rfl)
    (h.congr (f := (·.componentsOfEntry)) fun _ => rfl), fun hv => ?_, fun {v n m} hn hm => ?_,
    fun {k v} hv => h.candidates fun hs => hv ?_⟩
  · have hv := h.nodes_plain v
    simp only [modifyNode, Array.getElem?_modify]
    split
    · revert hv
      cases a.nodes[v]? <;> cases b.nodes[v]? <;> simp
      exact hplain _ _
    · exact hv
  · rw [hnames]
    exact h.named hv
  · simp only [modifyNode, Array.getElem?_modify] at hn hm
    split at hn
    · next hu =>
      subst hu
      rw [if_pos rfl] at hm
      obtain ⟨n', hn', rfl⟩ := Option.map_eq_some_iff.mp hn
      obtain ⟨m', hm', rfl⟩ := Option.map_eq_some_iff.mp hm
      exact hnode n' m' hn' hm' (h.nodes hn' hm')
    · next hu =>
      rw [if_neg hu] at hm
      exact h.nodes hn hm
  · obtain ⟨s, hs, hr⟩ := hs
    exact ⟨s, (hnames v).trans hs, hr⟩

/-- A change to a node that never returns, on one side alone. -/
theorem updateNode_left {f : Node S L → Node S L} (hplain : ∀ n, (f n).plain = n.plain)
    (hnode : ∀ n m, a.nodes[u]? = some n → n.Twins A B m → (f n).Twins A B m) :
    Ensures (a.updateNode u f) (Twins A B c · b) := by
  intro a' ha'
  have hb : b.modifyNode u id = b := by
    unfold modifyNode
    congr 1
    exact Array.ext_getElem? fun v => by simp [Array.getElem?_modify]
  have hu : u < a.size := by
    by_cases hu : u < a.size
    · exact hu
    · rw [Arena.updateNode, dif_neg (show ¬ u < a.nodes.size from hu)] at ha'
      cases ha'
  have hname : ∀ n, (f n).name = n.name :=
    fun n => Node.congr_plain (f := (·.name)) (hplain n) fun _ => rfl
  refine h.updateNode (f := f) (g := id) (fun n m he => (hplain n).trans he) hname
    (fun n m hn _ ht => hnode n m hn ht) a' b ha' ?_
  rw [updateNode_eq_ok (h.size ▸ hu), hb]

/-- A change that leaves alone what is remembered about returns. -/
theorem write {f : Node S L → Node S L} (hplain : ∀ n, (f n).plain = f n.plain := by intro; rfl)
    (hsame : ∀ n, (f n).name = n.name ∧ (f n).explored = n.explored ∧
      (f n).candidate = n.candidate ∧ (f n).returnLetters = n.returnLetters ∧
      (f n).examined = n.examined := by intro; exact ⟨rfl, rfl, rfl, rfl, rfl⟩) :
    Alongside (Twins A B c) (a.updateNode u f) (b.updateNode u f) := by
  refine h.updateNode (fun n m he => ?_) (fun n => (hsame n).1) fun n m _ _ ht => ?_
  · rw [hplain, hplain, he]
  · obtain ⟨hn, he, hc, hl, hx⟩ := hsame n
    obtain ⟨hn', he', hc', hl', hx'⟩ := hsame m
    refine ⟨?_, ?_, fun hr => ?_⟩
    · rw [hl, he, hn]; exact ht.letters
    · rw [hl', he', hn']; exact ht.letters'
    · rw [hc, hc', hx, hx']; exact ht.returning (hn ▸ hr)

theorem updateComponent {f g : Component → Component}
    (hplain : ∀ C D, C.plain = D.plain → (f C).plain = (g D).plain)
    (hcandidates : ∀ C D, (∀ u, ¬ a.Silent A u → (u ∈ C.candidates ↔ u ∈ D.candidates)) →
      ∀ u, ¬ a.Silent A u → (u ∈ (f C).candidates ↔ u ∈ (g D).candidates)) :
    Alongside (Twins A B c) (a.updateComponent k f) (b.updateComponent k g) := by
  intro a' b' ha' hb'
  obtain rfl := eq_modifyComponent ha'
  obtain rfl := eq_modifyComponent hb'
  refine ⟨plain_ext h.nodes_plain h.entries (fun i => ?_)
    (h.congr (f := (·.componentByEntries)) fun _ => rfl)
    (h.congr (f := (·.componentsOfEntry)) fun _ => rfl), h.named, h.nodes, fun {i u} hu => ?_⟩
  · have hi := h.components_plain i
    simp only [modifyComponent, Array.getElem?_modify]
    split
    · revert hi
      cases a.components[i]? <;> cases b.components[i]? <;> simp
      exact hplain _ _
    · exact hi
  · have hi := h.components_plain i
    have hmem := fun v => @h.candidates i v
    simp only [candidatesIn, part, modifyComponent, Array.getElem?_modify] at hmem ⊢
    split
    · revert hi hmem
      cases a.components[i]? <;> cases b.components[i]? <;> simp
      exact fun _ hmem => hcandidates _ _ hmem u hu
    · exact hmem u hu

/-- A change to a component that leaves its candidates alone. -/
theorem writeComponent {f : Component → Component}
    (hplain : ∀ C, (f C).plain = (f C.plain).plain := by intro; rfl)
    (hsame : ∀ C, (f C).candidates = C.candidates := by intro; rfl) :
    Alongside (Twins A B c) (a.updateComponent k f) (b.updateComponent k f) := by
  refine h.updateComponent (fun C D he => ?_) fun C D hCD u hu => ?_
  · rw [hplain C, hplain D, he]
  · rw [hsame, hsame]
    exact hCD u hu

/-- A change to the candidates among those that never return, on one side alone. -/
theorem updateComponent_left {f : Component → Component} (hplain : ∀ C, (f C).plain = C.plain)
    (hcandidates : ∀ C u, ¬ a.Silent A u → (u ∈ (f C).candidates ↔ u ∈ C.candidates)) :
    Ensures (a.updateComponent k f) (Twins A B c · b) := by
  intro a' ha'
  have hb : b.modifyComponent k id = b := by
    unfold modifyComponent
    congr 1
    exact Array.ext_getElem? fun v => by simp [Array.getElem?_modify]
  have hk : k < a.components.size := by
    by_cases hk : k < a.components.size
    · exact hk
    · rw [Arena.updateComponent, dif_neg hk] at ha'
      cases ha'
  refine h.updateComponent (f := f) (g := id) (fun C D he => (hplain C).trans he)
    (fun C D hCD u hu => (hcandidates C u hu).trans (hCD u hu)) a' b ha' ?_
  rw [updateComponent_eq_ok (h.components_size ▸ hk), hb]

/-- What holds of twins that go back to `a` holds of them when they go back further. -/
theorem later {a' b' : Arena S L} (h' : Twins A B a a' b') : Twins A B c a' b' :=
  { h' with named := fun hu => h'.named (h.named hu) }

theorem rebase : Twins A B a a b := { h with named := id }

end

theorem silent (h : Twins A B c a b) (hs : c.Silent A u) : a.Silent A u := by
  obtain ⟨s, hs, hr⟩ := hs
  exact ⟨s, h.named hs, hr⟩

/-! ## Operations -/

section
variable (h : Twins A B c a b)
include h

theorem excludeCandidate_left (hs : a.Silent A u) :
    Ensures (a.excludeCandidate u) (Twins A B c · b) := by
  unfold excludeCandidate
  refine ensures_bind fun k => ?_
  refine Ensures.bind (P := (Twins A B a · b)) ?_ fun a' h' => ?_
  · refine h.rebase.updateNode_left (fun _ => rfl) fun n m hn ht => ?_
    refine ⟨ht.letters, ht.letters', fun hr => ?_⟩
    obtain ⟨s, hs, hns⟩ := hs
    rw [Arena.nameOf, field_eq hn] at hs
    cases hs
    exact absurd hns hr
  · refine (h.later h').updateComponent_left (fun _ => rfl) fun C v hv => ?_
    have hne : v ≠ u := fun he => hv (he ▸ h'.silent hs)
    simp [Std.ExtTreeSet.mem_erase, Ne.symm hne]

theorem setEntries {E : FinMap Nat Entry} :
    Twins A B c { a with entries := E } { b with entries := E } where
  plain := by
    show { a.plain with entries := E } = { b.plain with entries := E }
    rw [h.plain]
  named := h.named
  nodes := h.nodes
  candidates := h.candidates

theorem addEntry : Twins A B c (a.addEntry u) (b.addEntry u) := by
  unfold Arena.addEntry
  rw [h.entries]
  exact h.setEntries

/-- A new stack top is new to the same components. -/
theorem addDown {d : Down Nat} : Alongside (fun p q => p.1 = q.1 ∧ Twins A B c p.2 q.2)
    (a.addDown u d) (b.addDown u d) := by
  have hof : a.componentsOfEntry.getD u ∅ = b.componentsOfEntry.getD u ∅ :=
    h.congr (f := (·.componentsOfEntry.getD u ∅)) fun _ => rfl
  unfold Arena.addDown
  rw [h.entries]
  split
  · exact alongside_ok ⟨rfl, h⟩
  · next e _ =>
    split
    · exact alongside_ok ⟨rfl, h⟩
    · dsimp only
      rw [hof]
      have h' := h.setEntries (E := b.entries.insert u (e.addDown d))
      have hread := funext fun k => h'.read_component (k := k) (g := fun C => !C.downs.contains d)
        fun _ => rfl
      rw [hread]
      refine (alongside_eq _).bind fun grown _ he => ?_
      subst he
      refine (alongside_foldlM (fun k a' b' h' => ?_) h').bind fun a' b' h' =>
        alongside_ok ⟨rfl, h'⟩
      exact h'.writeComponent

theorem pushComponent {E : FinSet Nat} : Twins A B c (a.pushComponent E) (b.pushComponent E) := by
  have hdowns : a.downsOfEntries E = b.downsOfEntries E :=
    h.congr (f := (·.downsOfEntries E)) fun _ => downsOfEntries_plain
  have hby : a.componentByEntries = b.componentByEntries :=
    h.congr (f := (·.componentByEntries)) fun _ => rfl
  have hof : a.componentsOfEntry = b.componentsOfEntry :=
    h.congr (f := (·.componentsOfEntry)) fun _ => rfl
  have hsize := h.components_size
  refine ⟨plain_ext h.nodes_plain h.entries (fun i => ?_) ?_ ?_, h.named, h.nodes,
    fun {i v} hv => ?_⟩
  · show ((a.components.push _)[i]?).map _ = ((b.components.push _)[i]?).map _
    rw [Array.getElem?_push, Array.getElem?_push, hsize, hdowns]
    split
    · rfl
    · exact h.components_plain i
  · show a.componentByEntries.insert E.toList a.components.size = _
    rw [hby, hsize]
    rfl
  · show E.toList.foldl _ a.componentsOfEntry = _
    rw [hof, hsize]
    rfl
  · rw [candidatesIn, candidatesIn, part_pushComponent, part_pushComponent, hsize]
    split
    · exact Iff.rfl
    · exact h.candidates hv

/-- The component for a set of entries is found, or created, on both sides. -/
theorem componentFor {E : FinSet Nat} : (a.componentFor E).1 = (b.componentFor E).1 ∧
    Twins A B c (a.componentFor E).2 (b.componentFor E).2 := by
  have hk : a.componentByEntries[E.toList]? = b.componentByEntries[E.toList]? :=
    h.congr (f := (·.componentByEntries[E.toList]?)) fun _ => rfl
  unfold Arena.componentFor
  rw [hk]
  split
  · exact ⟨rfl, h⟩
  · exact ⟨h.components_size, h.pushComponent⟩

/-- A new state is fresh on both sides. -/
theorem push {n : Node S L} (he : n.explored = false) (hc : n.candidate = true)
    (hl : n.returnLetters = ∅) :
    Twins A B c { a with nodes := a.nodes.push n } { b with nodes := b.nodes.push n } := by
  have hnames : ∀ {v s}, a.nameOf v = some s →
      ({ a with nodes := a.nodes.push n } : Arena S L).nameOf v = some s := by
    intro v s hs
    rw [Arena.nameOf, field_push rfl, if_neg (Nat.ne_of_lt (lt_size_of_nameOf hs))]
    exact hs
  have hsize : a.nodes.size = b.nodes.size := h.size
  refine ⟨plain_ext (fun v => ?_) h.entries h.components_plain
    (h.congr (f := (·.componentByEntries)) fun _ => rfl)
    (h.congr (f := (·.componentsOfEntry)) fun _ => rfl), fun hv => hnames (h.named hv),
    fun {v p q} hp hq => ?_, fun {i v} hv => h.candidates fun hs => hv ?_⟩
  · show ((a.nodes.push n)[v]?).map _ = ((b.nodes.push n)[v]?).map _
    rw [Array.getElem?_push, Array.getElem?_push, hsize]
    split
    · rfl
    · exact h.nodes_plain v
  · have hp' : (a.nodes.push n)[v]? = some p := hp
    have hq' : (b.nodes.push n)[v]? = some q := hq
    rw [Array.getElem?_push] at hp' hq'
    split at hp'
    · next hv =>
      rw [if_pos (hsize ▸ hv)] at hq'
      cases hp'
      cases hq'
      exact ⟨by simp [he, hl], by simp [he, hl], fun _ => ⟨hc, hc, rfl⟩⟩
    · next hv =>
      rw [if_neg (hsize ▸ hv)] at hq'
      exact h.nodes hp' hq'
  · obtain ⟨s, hs, hr⟩ := hs
    exact ⟨s, hnames hs, hr⟩

theorem addState [DecidableEq S] {name : S} {isInitial isFinal : Bool} :
    Alongside (fun p q => p.1 = q.1 ∧ Twins A B c p.2 q.2)
      (a.addState name k isInitial isFinal) (b.addState name k isInitial isFinal) := by
  have hid : a.idOf name = b.idOf name := h.congr (f := (·.idOf name)) fun _ => idOf_plain
  unfold Arena.addState
  rw [hid, h.size]
  dsimp only
  split
  · intro p q hp
    cases hp
  refine ((h.push rfl rfl rfl).updateComponent ?_ ?_).bind fun a' b' h' => alongside_ok ⟨rfl, h'⟩
  · intro C D he
    show (C.plain.insertMember b.size true).plain = (D.plain.insertMember b.size true).plain
    rw [he]
  · intro C D hCD v hv
    simp only [Component.insertMember, if_pos, Std.ExtTreeSet.mem_insert, hCD v hv]

theorem addCrossing {r v : Nat} :
    Alongside (Twins A B c) (a.addCrossing k r v) (b.addCrossing k r v) := by
  unfold Arena.addCrossing
  refine h.component.bind fun C D hCD => ?_
  have hmembers : C.members = D.members :=
    Component.congr_plain (f := (·.members)) hCD.1 fun _ => rfl
  rw [hmembers]
  dsimp only
  split
  · intro p q hp
    cases hp
  · exact h.writeComponent

theorem move {t : Nat} : Alongside (Twins A B c) (a.move u t) (b.move u t) := by
  unfold Arena.move
  refine h.node.bind fun n m hnm => ?_
  obtain ⟨hn, -, hplain, ht⟩ := hnm
  have hcomponent : n.component = m.component :=
    Node.congr_plain (f := (·.component)) hplain fun _ => rfl
  refine h.rebase.write.bind fun a' b' h' => ?_
  rw [hcomponent]
  refine (h'.updateComponent (fun C D he => ?_) fun C D hCD v hv => ?_).bind fun a'' b'' h'' => ?_
  · show (C.plain.removeMember u).plain = (D.plain.removeMember u).plain
    rw [he]
  · simp only [Component.removeMember, Std.ExtTreeSet.mem_erase, hCD v hv]
  · refine (h.later h'').updateComponent (fun C D he => ?_) fun C D hCD v hv => ?_
    · show (C.plain.insertMember u true).plain = (D.plain.insertMember u true).plain
      rw [he]
    · have hflag : v = u → n.candidate = m.candidate := by
        intro hvu
        have hr : ¬ A.NeverReturns n.name := fun hr => hv (h''.silent ⟨_, hvu ▸ field_eq hn, hr⟩)
        rw [(ht.returning hr).1, (ht.returning hr).2.1]
      simp only [Component.insertMember, mem_ite_insert, hCD v hv]
      refine or_congr_right (and_congr_left fun hvu => ?_)
      rw [hflag hvu]

theorem refreshBorder : Alongside (Twins A B c) (a.refreshBorder u) (b.refreshBorder u) := by
  have hforeign : a.foreignSuccessors u = b.foreignSuccessors u :=
    h.congr (f := (·.foreignSuccessors u)) fun _ => foreignSuccessors_plain
  unfold Arena.refreshBorder
  rw [h.componentOf, hforeign]
  refine (alongside_eq _).bind fun k _ he => ?_
  subst he
  refine (alongside_eq _).bind fun F _ he => ?_
  subst he
  exact h.writeComponent

theorem addInternal {l : L} :
    Alongside (Twins A B c) (a.addInternal u l v) (b.addInternal u l v) := by
  unfold Arena.addInternal
  refine h.write.bind fun a' b' h' => ?_
  exact h'.write

theorem addCall {l : L} : Alongside (Twins A B c) (a.addCall u l v) (b.addCall u l v) := by
  unfold Arena.addCall
  refine h.write.bind fun a' b' h' => ?_
  exact h'.write

theorem addReturn {p : Nat} {l : L} :
    Alongside (Twins A B c) (a.addReturn u p l v) (b.addReturn u p l v) := by
  unfold Arena.addReturn
  refine h.write.bind fun a' b' h' => ?_
  refine h'.write.bind fun a' b' h' => ?_
  exact h'.write

end

end Twins

end Arena

end NestedWords
