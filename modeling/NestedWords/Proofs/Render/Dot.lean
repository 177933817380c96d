import NestedWords.Proofs.Reachable.Transitions
import NestedWords.Proofs.Text.Quotes
import NestedWords.Render.Dot

/-!
# What a graph shows of a result

Names are written into the graph as they are, so it can be read back up to names that look like
the text around them. The graph is cut into its parts first (`toList_dot`): the arrows of the
initial states, the nodes (`DrawnNode.text`) and the edges (`DrawnEdge.text`), each in lines of its
own. If no state's name has a double quote before a space or the end of a line, then the states are
determined, with what is drawn of each. If no label has one before a bracket or a comma, then so
are the edges, but for where the letter of a return ends and its hierarchical predecessor begins,
as both can have a slash (`dot_determines`). Without these conditions different results have one
graph (`dot_ambiguous`).
-/
namespace NestedWords.Render

open NestedWords.Computation Text

/-! ## The parts of a graph -/

/-- A state as it is drawn. -/
structure DrawnNode where
  name : String
  final : Bool
  dead : Bool

/-- A transition as it is drawn. -/
@[ext]
structure DrawnEdge where
  kind : LetterKind
  source : String
  target : String
  label : String

/-- How the edges of each kind differ. -/
def attributes : LetterKind → String
  | .internal => ""
  | .call => ", style = bold"
  | .ret => ", style = dashed"

variable (r : Reachable String String)

def drawnNodes : List DrawnNode :=
  r.states.map fun s => ⟨s, r.isFinal s, r.deadEndsComputed && !r.isLive s⟩

/-- The edges of a state. -/
def drawnEdgesOf (s : String) : List DrawnEdge :=
  (r.internalSuccessors s).map (fun (a, t) => ⟨.internal, s, t, a⟩)
    ++ (r.callSuccessors s).map (fun (a, t) => ⟨.call, s, t, a⟩)
    ++ (r.returnSuccessors s).map fun (h, a, t) => ⟨.ret, s, t, a ++ "/" ++ h⟩

def drawnEdges : List DrawnEdge := r.states.flatMap (drawnEdgesOf r)

variable {r}

def DrawnNode.text (n : DrawnNode) : List Char :=
  '"' :: (n.name.toList ++ '"' :: ' ' :: ("[shape = ".toList
    ++ (if n.final then "doublecircle" else "circle").toList
    ++ (if n.dead then ", color = grey, fontcolor = grey" else "").toList ++ [']']))

def DrawnEdge.text (e : DrawnEdge) : List Char :=
  '"' :: (e.source.toList ++ '"' :: ' ' :: ("-> \"".toList
    ++ (e.target.toList ++ '"' :: ' ' :: ("[label = \"".toList
      ++ (e.label.toList ++ '"' :: ((attributes e.kind).toList ++ [']']))))))

/-- The arrows of the initial states. -/
def arrows (n : Nat) (ss : List String) : List Char :=
  (ss.zipIdx n).flatMap fun (s, i) => (dotInitial i s).toList

theorem toList_dotNode (s : String) : (dotNode r id s).toList =
    DrawnNode.text ⟨s, r.isFinal s, r.deadEndsComputed && !r.isLive s⟩ := by
  simp [dotNode, dotId, DrawnNode.text]

theorem toList_dotEdges (s : String) :
    (dotEdges r id id s).map String.toList = (drawnEdgesOf r s).map DrawnEdge.text := by
  simp [dotEdges, drawnEdgesOf, dotEdge, dotId, DrawnEdge.text, attributes, Function.comp_def]

theorem toList_dot : (dot r id id).toList = "digraph reachable_states \x7b\n".toList
    ++ (arrows 0 r.initialStates ++ (lines ((drawnNodes r).map DrawnNode.text)
      ++ (lines ((drawnEdges r).map DrawnEdge.text) ++ ['\x7d', '\n']))) := by
  have hnodes : (r.states.map (dotNode r id)).map String.toList
      = (drawnNodes r).map DrawnNode.text := by
    simp only [drawnNodes, List.map_map, Function.comp_def, toList_dotNode]
  have hedges : (r.states.flatMap (dotEdges r id id)).map String.toList
      = (drawnEdges r).map DrawnEdge.text := by
    simp only [drawnEdges, List.map_flatMap, toList_dotEdges]
  have hbreak : "\n".toList = ['\n'] := by simp
  have hlast : "\n\x7d\n".toList = ['\n', '\x7d', '\n'] := by simp
  unfold dot
  simp only [String.toList_append, String.toList_intercalate, String.toList_join, hnodes, hedges,
    hbreak, hlast, arrows, lines, List.flatMap_map, List.append_assoc, id_eq]
  rfl

/-- The invisible node of an arrow does not depend on the state. -/
theorem exists_arrows_cons (n : Nat) : ∃ pre : List Char, ∀ s ss e, arrows n (s :: ss) ++ e
    = 'i' :: (pre ++ (s.toList ++ '"' :: '\n' :: (arrows (n + 1) ss ++ e))) :=
  ⟨("nvis" ++ toString n ++ " [label = \"\", shape = none, height = 0, width = 0]\ninvis"
    ++ toString n ++ " -> \"").toList, by simp [arrows, dotInitial, dotId]⟩

/-! ## Reading the parts back -/

/-- The name has no double quote before a space or the end of a line. -/
def LegibleName (s : String) : Prop := Unbroken [' ', '\n'] s.toList

/-- The label has no double quote before a bracket or a comma. -/
def LegibleLabel (l : String) : Prop := Unbroken [']', ','] l.toList

instance (s : String) : Decidable (LegibleName s) :=
  inferInstanceAs (Decidable (Unbroken _ _))

instance (l : String) : Decidable (LegibleLabel l) :=
  inferInstanceAs (Decidable (Unbroken _ _))

theorem LegibleName.inj {s s' : String} {c : Char} {x x' : List Char} (hs : LegibleName s)
    (hs' : LegibleName s') (hc : c ∈ [' ', '\n'])
    (h : s.toList ++ '"' :: c :: x = s'.toList ++ '"' :: c :: x') : s = s' ∧ x = x' := by
  obtain ⟨hname, hrest⟩ := Unbroken.append_inj (by decide) hs hs' hc hc h
  exact ⟨String.toList_inj.mp hname, (List.cons_inj_right c).mp hrest⟩

/-- The initial states are read off their arrows if no arrow follows. -/
theorem arrows_inj {n : Nat} {ss ss' : List String} {e e' : List Char}
    (hs : ∀ s ∈ ss, LegibleName s) (hs' : ∀ s ∈ ss', LegibleName s)
    (he : ∀ x, e ≠ 'i' :: x) (he' : ∀ x, e' ≠ 'i' :: x)
    (h : arrows n ss ++ e = arrows n ss' ++ e') : ss = ss' ∧ e = e' := by
  induction ss generalizing n ss' with
  | nil =>
    cases ss' with
    | nil => exact ⟨rfl, h⟩
    | cons s' ss' =>
      obtain ⟨pre, hpre⟩ := exists_arrows_cons n
      exact absurd (h.trans (hpre _ _ _)) (he _)
  | cons s ss ih =>
    obtain ⟨pre, hpre⟩ := exists_arrows_cons n
    cases ss' with
    | nil => exact absurd (h.symm.trans (hpre _ _ _)) (he' _)
    | cons s' ss' =>
      rw [hpre, hpre, List.cons_inj_right, List.append_cancel_left_eq] at h
      obtain ⟨rfl, hrest⟩ := LegibleName.inj (hs s (by simp)) (hs' s' (by simp)) (by simp) h
      obtain ⟨rfl, rfl⟩ := ih (fun s h => hs s (.tail _ h)) (fun s h => hs' s (.tail _ h)) hrest
      exact ⟨rfl, rfl⟩

theorem DrawnNode.text_inj {n n' : DrawnNode} {x x' : List Char} (hn : LegibleName n.name)
    (hn' : LegibleName n'.name) (h : n.text ++ '\n' :: x = n'.text ++ '\n' :: x') :
    n = n' ∧ x = x' := by
  obtain ⟨name, final, dead⟩ := n
  obtain ⟨name', final', dead'⟩ := n'
  simp only [DrawnNode.text, List.cons_append, List.append_assoc, List.cons_inj_right] at h
  obtain ⟨rfl, hrest⟩ := hn.inj hn' (by simp) h
  cases final <;> cases final' <;> cases dead <;> cases dead' <;> simp at hrest <;> simp [hrest]

/-- The attributes of an edge begin where a label can end. -/
theorem exists_attributes_eq_cons (k : LetterKind) (x : List Char) :
    ∃ c ∈ [']', ','], ∃ y, (attributes k).toList ++ ']' :: x = c :: y := by
  cases k <;> simp [attributes]

theorem attributes_inj {k k' : LetterKind} {x x' : List Char}
    (h : (attributes k).toList ++ ']' :: x = (attributes k').toList ++ ']' :: x') :
    k = k' ∧ x = x' := by
  cases k <;> cases k' <;> simp [attributes] at h <;> exact ⟨rfl, h⟩

theorem LegibleLabel.inj {l l' : String} {k k' : LetterKind} {x x' : List Char}
    (hl : LegibleLabel l) (hl' : LegibleLabel l')
    (h : l.toList ++ '"' :: ((attributes k).toList ++ ']' :: x)
      = l'.toList ++ '"' :: ((attributes k').toList ++ ']' :: x')) :
    l = l' ∧ k = k' ∧ x = x' := by
  obtain ⟨c, hc, y, hy⟩ := exists_attributes_eq_cons k x
  obtain ⟨c', hc', y', hy'⟩ := exists_attributes_eq_cons k' x'
  rw [hy, hy'] at h
  obtain ⟨hlabel, hrest⟩ := Unbroken.append_inj (by decide) hl hl' hc hc' h
  exact ⟨String.toList_inj.mp hlabel, attributes_inj (hy.trans (hrest.trans hy'.symm))⟩

/-- All that is written of the edge can be read. -/
structure DrawnEdge.Legible (d : DrawnEdge) : Prop where
  source : LegibleName d.source
  target : LegibleName d.target
  label : LegibleLabel d.label

theorem DrawnEdge.Legible.text_inj {d d' : DrawnEdge} {x x' : List Char} (hd : d.Legible)
    (hd' : d'.Legible) (h : d.text ++ '\n' :: x = d'.text ++ '\n' :: x') : d = d' ∧ x = x' := by
  simp only [DrawnEdge.text, List.cons_append, List.append_assoc, List.nil_append,
    List.cons_inj_right] at h
  obtain ⟨hsource, hto⟩ := hd.source.inj hd'.source (by simp) h
  rw [List.append_cancel_left_eq] at hto
  obtain ⟨htarget, hwith⟩ := hd.target.inj hd'.target (by simp) hto
  rw [List.append_cancel_left_eq] at hwith
  obtain ⟨hlabel, hkind, hrest⟩ := hd.label.inj hd'.label hwith
  exact ⟨DrawnEdge.ext hkind hsource htarget hlabel, (List.cons_inj_right _).mp hrest⟩

/-- After its first name a node goes on otherwise than an edge. -/
theorem DrawnNode.text_ne_edge {n : DrawnNode} {d : DrawnEdge} {x x' : List Char}
    (hn : LegibleName n.name) (hd : LegibleName d.source) : d.text ++ x ≠ n.text ++ x' := by
  intro h
  simp only [DrawnNode.text, DrawnEdge.text, List.cons_append, List.append_assoc,
    List.cons_inj_right] at h
  obtain ⟨-, hrest⟩ := hd.inj hn (by simp) h
  simp at hrest

/-! ## Graphs that can be read -/

variable (r) in
def LegibleNames : Prop := ∀ s ∈ r.states, LegibleName s

variable (r) in
def LegibleLabels : Prop := ∀ d ∈ drawnEdges r, LegibleLabel d.label

variable (r) in
/-- The letters of returns have no slash. -/
def PlainLetters : Prop := ∀ s ∈ r.states, ∀ e ∈ r.returnSuccessors s, '/' ∉ e.2.1.toList

variable (r) in
/-- The hierarchical predecessors of returns have no slash in their names. -/
def PlainCallers : Prop := ∀ s ∈ r.states, ∀ e ∈ r.returnSuccessors s, '/' ∉ e.1.toList

instance : Decidable (LegibleNames r) := List.decidableBAll _ _
instance : Decidable (LegibleLabels r) := List.decidableBAll _ _
instance : Decidable (PlainLetters r) := List.decidableBAll _ _
instance : Decidable (PlainCallers r) := List.decidableBAll _ _

/-! ## Reading a graph back -/

section
variable {op op' : Operand String String} {settings settings' : Settings}
  {r' : Reachable String String} {a a' : Arena String String}

theorem states_eq : r.states = (drawnNodes r).map (·.name) := by
  simp [drawnNodes, Function.comp_def]

theorem initialStates_subset : r.initialStates ⊆ r.states := by
  intro s hs
  obtain ⟨n, hn, rfl⟩ := List.mem_map.mp hs
  exact List.mem_map_of_mem (List.mem_of_mem_filter hn)

theorem name_mem_states {n : DrawnNode} (hn : n ∈ drawnNodes r) : n.name ∈ r.states := by
  rw [states_eq]
  exact List.mem_map_of_mem hn

/-- After the arrows there is a node or an empty line. -/
theorem lines_nodes_ne {e : List Char} (x : List Char) :
    lines ((drawnNodes r).map DrawnNode.text) ++ e ≠ 'i' :: x := by
  rcases lines_append ((drawnNodes r).map DrawnNode.text) e with he | ⟨l, hl, y, he⟩
  · simp [he]
  · obtain ⟨n, -, rfl⟩ := List.mem_map.mp hl
    simp [he, DrawnNode.text]

section
variable (h : r.Exact op a) {s t l : String}
include h

theorem finalStates_eq : r.finalStates = ((drawnNodes r).filter (·.final)).map (·.name) := by
  simp [h.finalStates_eq_filter, drawnNodes, List.filter_map, Function.comp_def]

theorem deadEnds_eq (hd : r.deadEndsComputed = true) :
    r.deadEnds = ((drawnNodes r).filter (·.dead)).map (·.name) := by
  simp [h.deadEnds_eq_filter, drawnNodes, List.filter_map, Function.comp_def, hd]

theorem mem_drawnEdges_internal :
    ⟨.internal, s, t, l⟩ ∈ drawnEdges r ↔ (l, t) ∈ r.internalSuccessors s := by
  have hs : (l, t) ∈ r.internalSuccessors s → s ∈ r.states := fun he =>
    (h.states_of_mem_labelled he).1
  simpa [drawnEdges, drawnEdgesOf] using hs

theorem mem_drawnEdges_call :
    ⟨.call, s, t, l⟩ ∈ drawnEdges r ↔ (l, t) ∈ r.callSuccessors s := by
  have hs : (l, t) ∈ r.callSuccessors s → s ∈ r.states := fun he =>
    (h.states_of_mem_labelled he).1
  simpa [drawnEdges, drawnEdgesOf] using hs

theorem mem_drawnEdges_ret : ⟨.ret, s, t, l⟩ ∈ drawnEdges r ↔
    ∃ p b, (p, b, t) ∈ r.returnSuccessors s ∧ b ++ "/" ++ p = l := by
  have hs : ∀ p b, (p, b, t) ∈ r.returnSuccessors s → b ++ "/" ++ p = l → s ∈ r.states :=
    fun p b he _ => (h.states_of_mem_returnSuccessors he).1
  simpa [drawnEdges, drawnEdgesOf] using hs

/-- Every edge joins two states. -/
theorem states_of_mem_drawnEdges {d : DrawnEdge} (hd : d ∈ drawnEdges r) :
    d.source ∈ r.states ∧ d.target ∈ r.states := by
  obtain ⟨kind, s, t, l⟩ := d
  cases kind with
  | internal => exact h.states_of_mem_labelled ((mem_drawnEdges_internal h).mp hd)
  | call => exact h.states_of_mem_labelled ((mem_drawnEdges_call h).mp hd)
  | ret =>
    obtain ⟨p, b, he, -⟩ := (mem_drawnEdges_ret h).mp hd
    exact h.states_of_mem_returnSuccessors he

end

/-- After the nodes there is an edge or an empty line. -/
theorem lines_edges_ne (h : r.Exact op a) (hnames : LegibleNames r) {n : DrawnNode}
    (hn : LegibleName n.name) {e : List Char} (x : List Char) :
    lines ((drawnEdges r).map DrawnEdge.text) ++ e ≠ n.text ++ x := by
  rcases lines_append ((drawnEdges r).map DrawnEdge.text) e with he | ⟨l, hl, y, he⟩
  · simp [he, DrawnNode.text]
  · obtain ⟨d, hd, rfl⟩ := List.mem_map.mp hl
    rw [he]
    exact DrawnNode.text_ne_edge hn (hnames _ (states_of_mem_drawnEdges h hd).1)

theorem legible_of_mem_drawnEdges (h : r.Exact op a) (hnames : LegibleNames r)
    (hlabels : LegibleLabels r) {d : DrawnEdge} (hd : d ∈ drawnEdges r) : d.Legible where
  source := hnames _ (states_of_mem_drawnEdges h hd).1
  target := hnames _ (states_of_mem_drawnEdges h hd).2
  label := hlabels d hd

variable (h : r.Exact op a) (h' : r'.Exact op' a') (hdot : dot r id id = dot r' id id)
  (hnames : LegibleNames r) (hnames' : LegibleNames r')
include h h' hdot hnames hnames'

/-- The arrows and the nodes are read off the graph, and what is left of it is the edges. -/
theorem drawnNodes_eq_of_dot_eq : r.initialStates = r'.initialStates ∧
    drawnNodes r = drawnNodes r' ∧ lines ((drawnEdges r).map DrawnEdge.text) ++ ['\x7d', '\n']
      = lines ((drawnEdges r').map DrawnEdge.text) ++ ['\x7d', '\n'] := by
  have htext := congrArg String.toList hdot
  rw [toList_dot, toList_dot, List.append_cancel_left_eq] at htext
  obtain ⟨hinitial, hrest⟩ := arrows_inj (fun s hs => hnames s (initialStates_subset hs))
    (fun s hs => hnames' s (initialStates_subset hs)) lines_nodes_ne lines_nodes_ne htext
  have hname : ∀ n ∈ drawnNodes r, LegibleName n.name := fun n hn =>
    hnames _ (name_mem_states hn)
  have hname' : ∀ n ∈ drawnNodes r', LegibleName n.name := fun n hn =>
    hnames' _ (name_mem_states hn)
  exact ⟨hinitial, lines_inj
    (fun n hn n' hn' _ _ => DrawnNode.text_inj (hname n hn) (hname' n' hn'))
    (fun n' hn' _ => lines_edges_ne h hnames (hname' n' hn') _)
    (fun n hn _ => lines_edges_ne h' hnames' (hname n hn) _) (by simp [DrawnNode.text]) hrest⟩

theorem drawnEdges_eq_of_dot_eq (hlabels : LegibleLabels r) (hlabels' : LegibleLabels r') :
    drawnEdges r = drawnEdges r' := by
  obtain ⟨-, -, hrest⟩ := drawnNodes_eq_of_dot_eq h h' hdot hnames hnames'
  refine (lines_inj (fun d hd d' hd' _ _ => ?_) ?_ ?_ ?_ hrest).1
  · exact (legible_of_mem_drawnEdges h hnames hlabels hd).text_inj
      (legible_of_mem_drawnEdges h' hnames' hlabels' hd')
  all_goals simp [DrawnEdge.text]

end

/-- The slash in the label of a return stands where the letter ends. -/
theorem slash_inj {b b' p p' : String} (hl : b ++ "/" ++ p = b' ++ "/" ++ p')
    (h : '/' ∉ b.toList ∧ '/' ∉ b'.toList ∨ '/' ∉ p.toList ∧ '/' ∉ p'.toList) :
    b = b' ∧ p = p' := by
  have hlist : b.toList ++ '/' :: p.toList = b'.toList ++ '/' :: p'.toList := by
    simpa using congrArg String.toList hl
  rcases h with ⟨hb, hb'⟩ | ⟨hp, hp'⟩
  · simpa only [String.toList_inj] using append_cons_inj hb hb' hlist
  · simpa only [String.toList_inj] using append_cons_inj_right hp hp' hlist

/-- Returns with one drawing are the same if it is clear where their letters end. -/
theorem mem_returnSuccessors_of_drawnEdges_eq (h : r.Exact op a) (h' : r'.Exact op' a')
    (hedges : drawnEdges r = drawnEdges r')
    (hplain : PlainLetters r ∧ PlainLetters r' ∨ PlainCallers r ∧ PlainCallers r')
    {s : String} {e : String × String × String} (he : e ∈ r.returnSuccessors s) :
    e ∈ r'.returnSuccessors s := by
  obtain ⟨p, b, t⟩ := e
  have hdrawn : ⟨.ret, s, t, b ++ "/" ++ p⟩ ∈ drawnEdges r :=
    (mem_drawnEdges_ret h).mpr ⟨p, b, he, rfl⟩
  rw [hedges] at hdrawn
  obtain ⟨p', b', he', hl⟩ := (mem_drawnEdges_ret h').mp hdrawn
  have hs := (h.states_of_mem_returnSuccessors he).1
  have hs' := (h'.states_of_mem_returnSuccessors he').1
  obtain ⟨rfl, rfl⟩ := slash_inj hl
    (hplain.imp (fun hb => ⟨hb.2 s hs' _ he', hb.1 s hs _ he⟩)
      fun hp => ⟨hp.2 s hs' _ he', hp.1 s hs _ he⟩)
  exact he'

/-- Two results of short computations. -/
theorem exists_results (op op' : Operand String String)
    (P : Reachable String String → Reachable String String → Prop) [∀ r r', Decidable (P r r')]
    (h : (result? (run op {} .unbounded 40)).any (fun r =>
      (result? (run op' {} .unbounded 40)).any fun r' => P r r') = true) :
    ∃ r r', Returns op {} r ∧ Returns op' {} r' ∧ P r r' := by
  obtain ⟨r, hr, h⟩ := (Option.any_eq_true _ _).mp h
  obtain ⟨r', hr', h⟩ := (Option.any_eq_true _ _).mp h
  exact ⟨r, r', returns_of_result hr, returns_of_result hr', of_decide_eq_true h⟩

/-- The graph of a result determines its states and what is drawn of each, if their names can be
read, and its transitions, if their labels can be read. The label of a return then is its letter
and its hierarchical predecessor if one of the two never has a slash. -/
theorem dot_determines (h : Returns op settings r)
    (h' : Returns op' settings' r') (hd : settings.computeDeadEnds = true)
    (hd' : settings'.computeDeadEnds = true) (hdot : dot r id id = dot r' id id)
    (hnames : LegibleNames r) (hnames' : LegibleNames r') :
    (r.states = r'.states ∧ r.initialStates = r'.initialStates ∧
      r.finalStates = r'.finalStates ∧ r.deadEnds = r'.deadEnds) ∧
    (LegibleLabels r → LegibleLabels r' →
      (∀ s e, e ∈ r.internalSuccessors s ↔ e ∈ r'.internalSuccessors s) ∧
      (∀ s e, e ∈ r.callSuccessors s ↔ e ∈ r'.callSuccessors s) ∧
      (∀ s t l, (∃ p b, (p, b, t) ∈ r.returnSuccessors s ∧ b ++ "/" ++ p = l) ↔
        ∃ p b, (p, b, t) ∈ r'.returnSuccessors s ∧ b ++ "/" ++ p = l) ∧
      (PlainLetters r ∧ PlainLetters r' ∨ PlainCallers r ∧ PlainCallers r' →
        ∀ s e, e ∈ r.returnSuccessors s ↔ e ∈ r'.returnSuccessors s)) := by
  obtain ⟨a, ha, -⟩ := h.exact
  obtain ⟨a', ha', -⟩ := h'.exact
  obtain ⟨hinitial, hnodes, -⟩ := drawnNodes_eq_of_dot_eq ha ha' hdot hnames hnames'
  refine ⟨⟨?states, hinitial, ?final, ?dead⟩, fun hlabels hlabels' => ?edges⟩
  case states => rw [states_eq, states_eq, hnodes]
  case final => rw [finalStates_eq ha, finalStates_eq ha', hnodes]
  case dead =>
    rw [deadEnds_eq ha (h.deadEndsComputed_eq.trans hd),
      deadEnds_eq ha' (h'.deadEndsComputed_eq.trans hd'), hnodes]
  case edges =>
    have hedges := drawnEdges_eq_of_dot_eq ha ha' hdot hnames hnames' hlabels hlabels'
    refine ⟨fun s e => ?_, fun s e => ?_, fun s t l => ?_, fun hplain s e => ⟨?_, ?_⟩⟩
    · rw [← mem_drawnEdges_internal ha, ← mem_drawnEdges_internal ha', hedges]
    · rw [← mem_drawnEdges_call ha, ← mem_drawnEdges_call ha', hedges]
    · rw [← mem_drawnEdges_ret ha, ← mem_drawnEdges_ret ha', hedges]
    · exact mem_returnSuccessors_of_drawnEdges_eq ha ha' hedges hplain
    · exact mem_returnSuccessors_of_drawnEdges_eq ha' ha hedges.symm (hplain.imp .symm .symm)

/-- A transition that never comes about is not drawn. -/
theorem dot_determines_lost : ∃ r r', Returns recursion.operand {} r ∧
    Returns (recursion.add (.internal "lost" "i" "done")).operand {} r' ∧
    dot r id id = dot r' id id ∧ r.states = r'.states ∧
    ∀ s e, e ∈ r.returnSuccessors s ↔ e ∈ r'.returnSuccessors s := by
  obtain ⟨r, r', hr, hr', hdot, hnames, hnames', hlabels, hlabels', hplain⟩ :=
    exists_results recursion.operand (recursion.add (.internal "lost" "i" "done")).operand
      (fun r r' => dot r id id = dot r' id id ∧ LegibleNames r ∧ LegibleNames r' ∧
        LegibleLabels r ∧ LegibleLabels r' ∧ PlainLetters r ∧ PlainLetters r') (by decide +kernel)
  obtain ⟨⟨hstates, -⟩, hedges⟩ := dot_determines hr hr' rfl rfl hdot hnames hnames'
  exact ⟨r, r', hr, hr', hdot, hstates, (hedges hlabels hlabels').2.2.2 (.inl hplain)⟩

/-! ## Different results with one graph -/

/-- A name that reads as two dead ends with an edge from one to the other. -/
def deadName : String :=
  "p\"\n\"p\" [shape = circle, color = grey, fontcolor = grey]\n"
    ++ "\"q\" [shape = circle, color = grey, fontcolor = grey]\n\"p\" -> \"q\" [label = \""

/-- A letter that reads as a final state of that name with an edge to itself. -/
def finalLetter : String :=
  "\"\n" ++ dotId deadName ++ " [shape = doublecircle]\n"
    ++ dotId deadName ++ " -> " ++ dotId deadName ++ " [label = \"a"

/-- A final state that stays so. -/
def finalLoop : Automaton String String :=
  .ofFacts [.initial deadName, .final deadName, .internal deadName "a" deadName]

/-- Two states and none of them final. -/
def deadStep : Automaton String String :=
  .ofFacts [.initial "p", .internal "p" finalLetter "q"]

/-- A letter that reads as two edges. -/
def oneLetter : Automaton String String :=
  .ofFacts [.initial "p", .internal "p" "x\"]\n\"p\" -> \"p\" [label = \"y" "p"]

def twoLetters : Automaton String String :=
  .ofFacts [.initial "p", .internal "p" "x" "p", .internal "p" "y" "p"]

/-- One state that is called from two, of which one has a slash in its name. -/
def shared : Automaton String String :=
  .ofFacts [.initial "c", .initial "b/c", .call "c" "k" "q", .call "b/c" "k" "q"]

/-- As names are written as they are, a graph need not determine the result. Two results can have
one graph that differ in their states, in which of them are initial, final and dead ends, and in
their transitions. If the names of states can be read, the internal transitions can still differ,
and if the labels can be read too, the returns. -/
theorem dot_ambiguous :
    (∃ r r', Returns finalLoop.operand {} r ∧ Returns deadStep.operand {} r' ∧
      dot r id id = dot r' id id ∧ r.states.length ≠ r'.states.length ∧
      r.initialStates ≠ r'.initialStates ∧ r.finalStates ≠ r'.finalStates ∧
      r.deadEnds ≠ r'.deadEnds ∧ (finalLetter, "q") ∉ r.internalSuccessors "p" ∧
      (finalLetter, "q") ∈ r'.internalSuccessors "p") ∧
    (∃ r r', Returns oneLetter.operand {} r ∧ Returns twoLetters.operand {} r' ∧
      dot r id id = dot r' id id ∧ LegibleNames r ∧ LegibleNames r' ∧
      ("x", "p") ∉ r.internalSuccessors "p" ∧ ("x", "p") ∈ r'.internalSuccessors "p") ∧
    ∃ r r', Returns (shared.add (.ret "q" "c" "a/b" "t")).operand {} r ∧
      Returns (shared.add (.ret "q" "b/c" "a" "t")).operand {} r' ∧
      dot r id id = dot r' id id ∧ LegibleNames r ∧ LegibleNames r' ∧
      LegibleLabels r ∧ LegibleLabels r' ∧
      ("b/c", "a", "t") ∉ r.returnSuccessors "q" ∧ ("b/c", "a", "t") ∈ r'.returnSuccessors "q" :=
  ⟨exists_results _ _ _ (by decide +kernel), exists_results _ _ _ (by decide +kernel),
    exists_results _ _ _ (by decide +kernel)⟩

end NestedWords.Render
