import NestedWords.Exploration.Basic
import NestedWords.Proofs.Arena.Update

/-!
# What an arena knows from questions

The part of a node that decides which questions about its state have been put to the operand: the
name, whether the state is explored, with which return letters, and under which callers its
returns are known. Few operations write to it: a new state adds to it, an exploration and an
examination each change one node. All others leave `Arena.inquiries` as they are, and here are
the lemmas that say so.
-/

namespace NestedWords

variable {S L : Type} [Ord L]

/-- What has been asked about a state. -/
structure Inquiry (S L : Type) [Ord L] where
  name : S
  explored : Bool
  returnLetters : FinSet L
  examined : FinSet Nat

def Node.inquiry (n : Node S L) : Inquiry S L :=
  ⟨n.name, n.explored, n.returnLetters, n.examined⟩

namespace Arena

variable {a b : Arena S L} {u k t : Nat}

def inquiries (a : Arena S L) : Array (Inquiry S L) := a.nodes.map Node.inquiry

/-- Fields that are read off inquiries are the same if these are. -/
theorem field_of_inquiries {α : Type} {F : Inquiry S L → α} {d : α}
    (h : b.inquiries = a.inquiries) :
    b.field (fun n => F n.inquiry) d u = a.field (fun n => F n.inquiry) d u := by
  have hread : ∀ c : Arena S L,
      c.field (fun n => F n.inquiry) d u = (c.inquiries[u]?).elim d F := by
    intro c
    unfold field inquiries
    rw [Array.getElem?_map]
    cases c.nodes[u]? <;> rfl
  rw [hread, hread, h]

section
variable (h : b.inquiries = a.inquiries)
include h

theorem nameOf_of_inquiries : b.nameOf u = a.nameOf u :=
  field_of_inquiries (F := fun i => some i.name) h

theorem explored_of_inquiries : b.explored u = a.explored u :=
  field_of_inquiries (F := (·.explored)) h

theorem returnLetters_of_inquiries : b.returnLetters u = a.returnLetters u :=
  field_of_inquiries (F := (·.returnLetters)) h

theorem examined_of_inquiries : b.examined u = a.examined u :=
  field_of_inquiries (F := (·.examined)) h
end

theorem inquiries_of_nodes (h : b.nodes = a.nodes) : b.inquiries = a.inquiries :=
  congrArg (Array.map Node.inquiry) h

theorem inquiries_modifyNode {g : Node S L → Node S L} (hg : ∀ n, (g n).inquiry = n.inquiry) :
    (a.modifyNode u g).inquiries = a.inquiries := by
  apply Array.ext_getElem?
  intro i
  simp only [inquiries, modifyNode, Array.getElem?_map, Array.getElem?_modify]
  split
  · cases a.nodes[i]? with
    | none => rfl
    | some n => simp [hg]
  · rfl

/-! ## What the operations on an arena do -/

theorem node_ensures : Ensures (a.node u) fun n => a.nodes[u]? = some n := by
  unfold node
  split
  · next h => exact ensures_ok h
  · intro n hn
    cases hn

theorem name_ensures : Ensures (a.name u) fun s => a.nameOf u = some s := by
  unfold name
  split
  · next h => exact ensures_ok (field_eq h)
  · intro s hs
    cases hs

theorem updateNode_ensures {g : Node S L → Node S L} :
    Ensures (a.updateNode u g) fun b => u < a.size ∧ b = a.modifyNode u g := by
  by_cases hu : u < a.size
  · rw [updateNode_eq_ok hu]
    exact ensures_ok ⟨hu, rfl⟩
  · intro b hb
    rw [updateNode, dif_neg (show ¬ u < a.nodes.size from hu)] at hb
    cases hb

theorem updateNode_inquiries {g : Node S L → Node S L} (hg : ∀ n, (g n).inquiry = n.inquiry) :
    Ensures (a.updateNode u g) fun b => b.inquiries = a.inquiries := by
  intro b hb
  obtain ⟨-, rfl⟩ := updateNode_ensures b hb
  exact inquiries_modifyNode hg

theorem updateComponent_nodes {g : Component → Component} :
    Ensures (a.updateComponent k g) fun b => b.nodes = a.nodes := by
  unfold updateComponent
  split
  · exact ensures_ok rfl
  · intro b hb
    cases hb

theorem updateComponent_inquiries {g : Component → Component} :
    Ensures (a.updateComponent k g) fun b => b.inquiries = a.inquiries :=
  fun b hb => inquiries_of_nodes (updateComponent_nodes b hb)

/-- The rule for a loop of operations that leave the inquiries alone. -/
theorem foldlM_inquiries {α : Type} {f : Arena S L → α → Except (Fault S) (Arena S L)}
    (step : ∀ v b, Ensures (f b v) fun c => c.inquiries = b.inquiries) (l : List α) :
    Ensures (l.foldlM f a) fun b => b.inquiries = a.inquiries :=
  ensures_foldlM (I := fun b => b.inquiries = a.inquiries)
    (fun v b hb c hc => (step v b c hc).trans hb) rfl

theorem move_inquiries : Ensures (a.move u t) fun b => b.inquiries = a.inquiries := by
  unfold move
  refine ensures_bind fun n => (updateNode_inquiries fun _ => by rfl).bind fun b hb => ?_
  refine updateComponent_inquiries.bind fun c hc => ?_
  exact fun d hd => (updateComponent_inquiries d hd).trans (hc.trans hb)

variable [Std.TransOrd L]

theorem refreshBorder_inquiries : Ensures (a.refreshBorder u) fun b => b.inquiries = a.inquiries :=
  ensures_bind fun _ => ensures_bind fun _ => updateComponent_inquiries

section
omit [Std.TransOrd L]

theorem addCrossing_inquiries :
    Ensures (a.addCrossing k u t) fun b => b.inquiries = a.inquiries := by
  refine ensures_bind fun c => ?_
  split
  · exact ensures_bind fun _ => updateComponent_inquiries
  · exact updateComponent_inquiries

theorem excludeCandidate_inquiries :
    Ensures (a.excludeCandidate u) fun b => b.inquiries = a.inquiries := by
  refine ensures_bind fun c => (updateNode_inquiries fun _ => by rfl).bind fun b hb => ?_
  exact fun d hd => (updateComponent_inquiries d hd).trans hb

theorem addDown_inquiries {d : Down Nat} :
    Ensures (a.addDown u d) fun p => p.2.inquiries = a.inquiries := by
  unfold addDown
  split
  · exact ensures_ok rfl
  · split
    · exact ensures_ok rfl
    · refine ensures_bind fun grown => ?_
      exact (foldlM_inquiries (fun _ _ => updateComponent_inquiries) grown).bind fun b hb =>
        ensures_ok hb

theorem componentFor_inquiries {E : FinSet Nat} : (a.componentFor E).2.inquiries = a.inquiries := by
  unfold componentFor
  split <;> rfl

/-- A state is only added under a name that is not known, and as a new node. -/
theorem addState_ensures [DecidableEq S] {name : S} {i f : Bool} :
    Ensures (a.addState name k i f) fun p => a.idOf name = none ∧
      p.2.nodes = a.nodes.push { name, component := k, isInitial := i, isFinal := f } := by
  unfold addState
  dsimp only
  split
  · intro p hp
    cases hp
  · next hnew =>
    have hname : a.idOf name = none := by simpa using hnew
    exact updateComponent_nodes.bind fun b hb => ensures_ok ⟨hname, hb⟩
end

section
variable {l : L}

theorem addInternal_inquiries :
    Ensures (a.addInternal u l t) fun b => b.inquiries = a.inquiries :=
  (updateNode_inquiries fun _ => by rfl).bind fun _ hb c hc =>
    (updateNode_inquiries (fun _ => by rfl) c hc).trans hb

theorem addCall_inquiries : Ensures (a.addCall u l t) fun b => b.inquiries = a.inquiries :=
  (updateNode_inquiries fun _ => by rfl).bind fun _ hb c hc =>
    (updateNode_inquiries (fun _ => by rfl) c hc).trans hb

theorem addReturn_inquiries {h : Nat} :
    Ensures (a.addReturn u h l t) fun b => b.inquiries = a.inquiries :=
  (updateNode_inquiries fun _ => by rfl).bind fun _ hb =>
    (updateNode_inquiries fun _ => by rfl).bind fun _ hc d hd =>
      (updateNode_inquiries (fun _ => by rfl) d hd).trans (hc.trans hb)
end

end Arena

namespace Exploration

variable {a b : Arena S L} {t : Nat} {moved : List Nat}

theorem moveAll_inquiries : Ensures (moveAll a moved t) fun b => b.inquiries = a.inquiries :=
  Arena.foldlM_inquiries (fun _ _ => Arena.move_inquiries) moved

variable [Std.TransOrd L]

theorem refreshBorders_inquiries :
    Ensures (refreshBorders a t moved) fun b => b.inquiries = a.inquiries := by
  refine (Arena.foldlM_inquiries (fun _ _ => Arena.updateComponent_inquiries) moved).bind
    fun b hb => ensures_bind fun states => ?_
  exact fun c hc =>
    (Arena.foldlM_inquiries (fun _ _ => Arena.refreshBorder_inquiries) states.toList c hc).trans hb

omit [Std.TransOrd L] in
/-- To mark a state as explored changes nothing but its node. -/
theorem markExplored_ensures {u : Nat} {letters : FinSet L} :
    Ensures (markExplored a u letters) fun b => ∃ c : Arena S L,
      c.inquiries = a.inquiries ∧ u < c.size ∧
        b = c.modifyNode u fun n => { n with returnLetters := letters, explored := true } := by
  unfold markExplored
  split
  · exact Arena.excludeCandidate_inquiries.bind fun c hc b hb =>
      ⟨c, hc, Arena.updateNode_ensures b hb⟩
  · exact fun b hb => ⟨a, rfl, Arena.updateNode_ensures b hb⟩

end Exploration

/-! ## What the arena accounts for -/

namespace Arena

/-- The state is known. -/
def Knows (a : Arena S L) (s : S) : Prop := ∃ u, a.nameOf u = some s

/-- The state is explored. -/
def Explores (a : Arena S L) (s : S) : Prop := ∃ u, a.nameOf u = some s ∧ a.explored u = true

/-- The returns of the one state under the other are examined. -/
def Examines (a : Arena S L) (s r : S) : Prop :=
  ∃ u h, a.nameOf u = some s ∧ a.nameOf h = some r ∧ h ∈ a.examined u

/-- The question must have been asked to make the arena what it is. -/
def Warrants [Std.TransOrd L] (op : Operand S L) (a : Arena S L) : Query S L → Prop
  | .initialStates => True
  | .isFinal s => a.Knows s
  | .internalLetters s | .callLetters s | .returnLetters s => a.Explores s
  | .internalSuccessors s l => a.Explores s ∧ l ∈ op.internalLetters s
  | .callSuccessors s l => a.Explores s ∧ l ∈ op.callLetters s
  | .returnSuccessors s r l => a.Examines s r ∧ l ∈ op.returnLetters s

/-- What questions rely on: a name stands for one state, the letters of an explored state are those
of the operand, and returns are examined under known callers. -/
structure Orderly (op : Operand S L) (a : Arena S L) : Prop where
  name_inj : ∀ {u v s}, a.nameOf u = some s → a.nameOf v = some s → u = v
  letters : ∀ {u s}, a.explored u = true → a.nameOf u = some s →
    a.returnLetters u = op.returnLetters s
  examined : ∀ {u h}, h ∈ a.examined u → ∃ r, a.nameOf h = some r

variable {op : Operand S L} {a b : Arena S L}

theorem warrants_of_inquiries [Std.TransOrd L] (h : b.inquiries = a.inquiries) {q : Query S L} :
    b.Warrants op q ↔ a.Warrants op q := by
  cases q <;> simp only [Warrants, Knows, Explores, Examines, nameOf_of_inquiries h,
    explored_of_inquiries h, examined_of_inquiries h]

theorem Orderly.of_inquiries (h : b.inquiries = a.inquiries) (ha : a.Orderly op) :
    b.Orderly op := by
  refine ⟨fun {u v s} => ?_, fun {u s} => ?_, fun {u p} => ?_⟩
  · rw [nameOf_of_inquiries h, nameOf_of_inquiries h]
    exact ha.name_inj
  · rw [nameOf_of_inquiries h, explored_of_inquiries h, returnLetters_of_inquiries h]
    exact ha.letters
  · simp only [nameOf_of_inquiries h, examined_of_inquiries h]
    exact ha.examined

/-! ### A new state -/

section
variable {name : S} {k : Nat} {i f : Bool}
  (hb : b.nodes = a.nodes.push { name, component := k, isInitial := i, isFinal := f })
include hb

theorem nameOf_push {u : Nat} {s : S} :
    b.nameOf u = some s ↔ u = a.size ∧ name = s ∨ a.nameOf u = some s := by
  have hread : b.nameOf u = if u = a.size then some name else a.nameOf u := field_push hb
  rw [hread]
  split
  · next hu =>
    have hnone : a.nameOf u = none := field_of_ge (by omega)
    simp [hu, hu ▸ hnone]
  · next hu => simp [hu]

theorem knows_push {s : S} : b.Knows s ↔ a.Knows s ∨ name = s := by
  simp only [Knows, nameOf_push hb]
  constructor
  · rintro ⟨u, ⟨-, hs⟩ | hu⟩
    · exact .inr hs
    · exact .inl ⟨u, hu⟩
  · rintro (⟨u, hu⟩ | hs)
    · exact ⟨u, .inr hu⟩
    · exact ⟨a.size, .inl ⟨rfl, hs⟩⟩

theorem explored_push {u : Nat} : b.explored u = a.explored u := field_push_same hb rfl

theorem examined_push {u : Nat} : b.examined u = a.examined u := field_push_same hb rfl

theorem explores_push {s : S} : b.Explores s ↔ a.Explores s := by
  simp only [Explores, nameOf_push hb, explored_push hb]
  refine exists_congr fun u => and_congr_left fun hexplored => ?_
  exact or_iff_right fun hu => absurd (lt_size_of_explored hexplored) (by omega)

theorem examines_push (ha : a.Orderly op) {s r : S} : b.Examines s r ↔ a.Examines s r := by
  simp only [Examines, nameOf_push hb, examined_push hb]
  refine exists_congr fun u => exists_congr fun h => ?_
  rw [← and_assoc, ← and_assoc]
  refine and_congr_left fun hm => and_congr ?_ ?_
  · exact or_iff_right fun hu => absurd (lt_size_of_mem hm) (by omega)
  · obtain ⟨r', hr'⟩ := ha.examined hm
    exact or_iff_right fun hh => absurd (lt_size_of_nameOf hr') (by omega)

theorem orderly_push [DecidableEq S] (ha : a.Orderly op) (hname : a.idOf name = none) :
    b.Orderly op := by
  have hfresh : ∀ {u s}, a.nameOf u = some s → name ≠ s := by
    rintro u s hu rfl
    exact idOf_eq_none hname hu
  refine ⟨fun {u v s} hu hv => ?_, fun {u s} hexplored hu => ?_, fun {u h} hm => ?_⟩
  · rcases (nameOf_push hb).mp hu with ⟨rfl, hs⟩ | hu <;>
      rcases (nameOf_push hb).mp hv with ⟨rfl, hs'⟩ | hv
    · rfl
    · exact absurd hs (hfresh hv)
    · exact absurd hs' (hfresh hu)
    · exact ha.name_inj hu hv
  · rw [explored_push hb] at hexplored
    have hlt := lt_size_of_explored hexplored
    have hread : b.returnLetters u = a.returnLetters u := field_push_same hb rfl
    rw [hread]
    exact ha.letters hexplored (((nameOf_push hb).mp hu).resolve_left fun h => by omega)
  · rw [examined_push hb] at hm
    obtain ⟨r, hr⟩ := ha.examined hm
    exact ⟨r, (nameOf_push hb).mpr (.inr hr)⟩
end

/-! ### A state that is explored -/

section
variable {u : Nat} {s : S} {letters : FinSet L} (hu : u < a.size)
  (hb : b = a.modifyNode u fun n => { n with returnLetters := letters, explored := true })
include hu hb

theorem explored_mark {v : Nat} : b.explored v = true ↔ v = u ∨ a.explored v = true := by
  subst hb
  rw [explored, field_modifyNode (fun _ => true) (fun _ => rfl) hu]
  split <;> simp [*]

omit hu in
theorem nameOf_mark {v : Nat} : b.nameOf v = a.nameOf v := by
  subst hb
  exact field_modifyNode_same fun _ => rfl

omit hu in
theorem examined_mark {v : Nat} : b.examined v = a.examined v := by
  subst hb
  exact field_modifyNode_same fun _ => rfl

theorem explores_mark (hs : a.nameOf u = some s) {t : S} :
    b.Explores t ↔ a.Explores t ∨ t = s := by
  simp only [Explores, nameOf_mark hb, explored_mark hu hb]
  constructor
  · rintro ⟨v, ht, rfl | hv⟩
    · exact .inr (Option.some.inj (ht.symm.trans hs))
    · exact .inl ⟨v, ht, hv⟩
  · rintro (⟨v, ht, hv⟩ | rfl)
    · exact ⟨v, ht, .inr hv⟩
    · exact ⟨u, hs, .inl rfl⟩

theorem orderly_mark (ha : a.Orderly op) (hs : a.nameOf u = some s)
    (hletters : letters = op.returnLetters s) : b.Orderly op := by
  refine ⟨fun {v w t} hv hw => ?_, fun {v t} hv ht => ?_, fun {v h} hm => ?_⟩
  · rw [nameOf_mark hb] at hv hw
    exact ha.name_inj hv hw
  · rw [nameOf_mark hb] at ht
    have hread : b.returnLetters v = if v = u then letters else a.returnLetters v := by
      subst hb
      exact field_modifyNode (fun _ => letters) (fun _ => rfl) hu
    rw [hread]
    split
    · next hvu =>
      subst hvu
      cases hs.symm.trans ht
      exact hletters
    · next hvu => exact ha.letters (((explored_mark hu hb).mp hv).resolve_left hvu) ht
  · rw [examined_mark hb] at hm
    obtain ⟨r, hr⟩ := ha.examined hm
    exact ⟨r, (nameOf_mark hb).trans hr⟩
end

/-! ### A caller that is examined -/

section
variable {u h : Nat} {s r : S} (hu : u < a.size)
  (hb : b = a.modifyNode u fun n => { n with examined := n.examined.insert h })
include hu hb

theorem mem_examined_insert {v p : Nat} :
    p ∈ b.examined v ↔ p ∈ a.examined v ∨ v = u ∧ p = h := by
  subst hb
  rw [examined, field_modifyNode (fun E : FinSet Nat => E.insert h) (fun _ => rfl) hu]
  exact mem_ite_insert

omit hu in
theorem nameOf_insert {v : Nat} : b.nameOf v = a.nameOf v := by
  subst hb
  exact field_modifyNode_same fun _ => rfl

omit hu in
theorem explored_insert {v : Nat} : b.explored v = a.explored v := by
  subst hb
  exact field_modifyNode_same fun _ => rfl

theorem examines_insert (hs : a.nameOf u = some s) (hr : a.nameOf h = some r) {t q : S} :
    b.Examines t q ↔ a.Examines t q ∨ t = s ∧ q = r := by
  simp only [Examines, nameOf_insert hb, mem_examined_insert hu hb]
  constructor
  · rintro ⟨v, p, ht, hq, hm | ⟨rfl, rfl⟩⟩
    · exact .inl ⟨v, p, ht, hq, hm⟩
    · exact .inr ⟨Option.some.inj (ht.symm.trans hs), Option.some.inj (hq.symm.trans hr)⟩
  · rintro (⟨v, p, ht, hq, hm⟩ | ⟨rfl, rfl⟩)
    · exact ⟨v, p, ht, hq, .inl hm⟩
    · exact ⟨u, h, hs, hr, .inr ⟨rfl, rfl⟩⟩

theorem orderly_insert (ha : a.Orderly op) (hr : a.nameOf h = some r) : b.Orderly op := by
  refine ⟨fun {v w t} hv hw => ?_, fun {v t} hv ht => ?_, fun {v p} hm => ?_⟩
  · rw [nameOf_insert hb] at hv hw
    exact ha.name_inj hv hw
  · rw [nameOf_insert hb] at ht
    rw [explored_insert hb] at hv
    have hread : b.returnLetters v = a.returnLetters v := by
      subst hb
      exact field_modifyNode_same fun _ => rfl
    rw [hread]
    exact ha.letters hv ht
  · rw [nameOf_insert hb]
    rcases (mem_examined_insert hu hb).mp hm with hm | ⟨-, rfl⟩
    · exact ha.examined hm
    · exact ⟨r, hr⟩
end

end Arena

end NestedWords
