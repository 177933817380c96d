import NestedWords.Arena.Consistency

/-!
# Computations that cannot fail

`Yields r P` says of a computation that may report a fault that it does not, and that its
value has the property `P`. The rules below follow a computation step by step: a bind, and
the three loops over a list that the exploration uses.

* `yields_foldlM` is the rule for a loop. Every step keeps an invariant, moves along a
  transitive relation, and settles its own element; at the end all elements are settled.
* `filterM_ok`, `mapM_ok` and `forM_ok` say that a loop whose steps are pure is the pure loop.

`Ensures r P` leaves open whether there is a fault, and says that a value has the property.
-/
namespace NestedWords

variable {ε α β : Type}

/-- The computation ends without a fault in a value with the property. -/
def Yields (r : Except ε α) (P : α → Prop) : Prop := ∃ v, r = .ok v ∧ P v

theorem yields_ok {P : α → Prop} {v : α} (h : P v) : Yields (.ok v : Except ε α) P := ⟨v, rfl, h⟩

theorem yields_pure {P : α → Prop} {v : α} (h : P v) : Yields (pure v : Except ε α) P := ⟨v, rfl, h⟩

theorem Yields.bind {r : Except ε α} {f : α → Except ε β} {P : α → Prop} {Q : β → Prop}
    (h : Yields r P) (hf : ∀ v, P v → Yields (f v) Q) : Yields (r >>= f) Q := by
  obtain ⟨v, rfl, hv⟩ := h
  exact hf v hv

theorem Yields.mono {r : Except ε α} {P Q : α → Prop} (h : Yields r P) (hPQ : ∀ v, P v → Q v) :
    Yields r Q := by
  obtain ⟨v, hr, hv⟩ := h
  exact ⟨v, hr, hPQ v hv⟩

theorem Yields.of_eq_ok {r : Except ε α} {P : α → Prop} {v : α} (h : Yields r P) (hr : r = .ok v) :
    P v := by
  obtain ⟨w, hw, hP⟩ := h
  rw [hr] at hw
  cases hw
  exact hP

/-- A bind that ends well does so after its first part. -/
theorem bind_eq_ok {r : Except ε α} {f : α → Except ε β} {v : β} (h : r >>= f = .ok v) :
    ∃ u, r = .ok u ∧ f u = .ok v := by
  cases r with
  | error e => cases h
  | ok u => exact ⟨u, rfl, h⟩

/-- A part that is known to end well may be skipped. -/
theorem bind_of_eq_ok {r : Except ε α} {f : α → Except ε β} {u : α} (h : r = .ok u) :
    r >>= f = f u := by
  rw [h]
  rfl

/-- Of a part that is only run under a condition, only what follows matters. -/
theorem ite_bind_eq_ok {P : Prop} [Decidable P] {r : Except ε α} {f : α → Except ε β}
    {g : Except ε β} {v : β} (h : (if P then r >>= f else g) = .ok v) :
    (∃ u, f u = .ok v) ∨ g = .ok v := by
  split at h
  · obtain ⟨u, -, h⟩ := bind_eq_ok h
    exact .inl ⟨u, h⟩
  · exact .inr h

theorem ensure_eq_ok {S : Type} {condition : Bool} {fault : Fault S} (h : condition = true) :
    ensure condition fault = .ok () := if_pos h

/-- The rule for a loop: `I` holds between its steps, `R` relates what is before and after a
step, and `D a` says that the step of `a` has been made. -/
theorem yields_foldlM {f : β → α → Except ε β} {I : β → Prop} {R : β → β → Prop}
    {D : α → β → Prop} (refl : ∀ x, R x x) (trans : ∀ {x y z}, R x y → R y z → R x z)
    (keep : ∀ {a y z}, D a y → R y z → D a z) {l : List α} {x : β}
    (step : ∀ a ∈ l, ∀ y, I y → R x y → Yields (f y a) fun z => I z ∧ R y z ∧ D a z) (hx : I x) :
    Yields (l.foldlM f x) fun y => I y ∧ R x y ∧ ∀ a ∈ l, D a y := by
  induction l generalizing x with
  | nil => exact yields_ok ⟨hx, refl x, by simp⟩
  | cons a l ih =>
    rw [List.foldlM_cons]
    refine (step a (by simp) x hx (refl x)).bind fun y ⟨hy, hxy, hd⟩ => ?_
    refine (ih (fun b hb z hz hyz => step b (by simp [hb]) z hz (trans hxy hyz)) hy).mono ?_
    intro z ⟨hz, hyz, hall⟩
    refine ⟨hz, trans hxy hyz, ?_⟩
    intro b hb
    rcases List.mem_cons.mp hb with rfl | hb
    · exact keep hd hyz
    · exact hall b hb

/-! ## Computations that may fail -/

/-- A value in which the computation ends without a fault has the property. -/
def Ensures (r : Except ε α) (P : α → Prop) : Prop := ∀ v, r = .ok v → P v

theorem ensures_ok {P : α → Prop} {v : α} (h : P v) : Ensures (.ok v : Except ε α) P := by
  intro w hw
  cases hw
  exact h

theorem Ensures.bind {r : Except ε α} {f : α → Except ε β} {P : α → Prop} {Q : β → Prop}
    (h : Ensures r P) (hf : ∀ v, P v → Ensures (f v) Q) : Ensures (r >>= f) Q := by
  intro w hw
  obtain ⟨v, hv, hw⟩ := bind_eq_ok hw
  exact hf v (h v hv) w hw

theorem Ensures.mono {r : Except ε α} {P Q : α → Prop} (h : Ensures r P) (hPQ : ∀ v, P v → Q v) :
    Ensures r Q := fun v hv => hPQ v (h v hv)

/-- A bind whose first part is of no interest. -/
theorem ensures_bind {r : Except ε α} {f : α → Except ε β} {Q : β → Prop}
    (hf : ∀ v, Ensures (f v) Q) : Ensures (r >>= f) Q :=
  Ensures.bind (P := fun _ => True) (fun _ _ => trivial) fun v _ => hf v

theorem ensure_ensures {S : Type} {condition : Bool} {fault : Fault S} :
    Ensures (ensure condition fault) fun _ => condition = true := by
  unfold ensure
  split
  · next h => exact ensures_ok h
  · intro u hu
    cases hu

/-- The rule for a loop of which only the invariant matters. -/
theorem ensures_foldlM {f : β → α → Except ε β} {I : β → Prop} {l : List α} {x : β}
    (step : ∀ a y, I y → Ensures (f y a) I) (hx : I x) : Ensures (l.foldlM f x) I := by
  induction l generalizing x with
  | nil => exact ensures_ok hx
  | cons a l ih =>
    rw [List.foldlM_cons]
    exact (step a x hx).bind fun y hy => ih hy

/-- The rule for a loop in which each step settles its own element, and unsettles no other. -/
theorem ensures_foldlM_all {f : β → α → Except ε β} {I : β → Prop} {D : α → β → Prop} {l : List α}
    {x : β} (step : ∀ a y, I y → Ensures (f y a) fun z => I z ∧ D a z ∧ ∀ b, D b y → D b z)
    (hx : I x) :
    Ensures (l.foldlM f x) fun y => I y ∧ (∀ a ∈ l, D a y) ∧ ∀ b, D b x → D b y := by
  induction l generalizing x with
  | nil => exact ensures_ok ⟨hx, by simp, fun _ => id⟩
  | cons a l ih =>
    rw [List.foldlM_cons]
    refine (step a x hx).bind fun y ⟨hy, ha, hkeeps⟩ => (ih hy).mono fun z ⟨hz, hall, hkeeps'⟩ => ?_
    refine ⟨hz, ?_, fun b hb => hkeeps' b (hkeeps b hb)⟩
    intro b hb
    rcases List.mem_cons.mp hb with rfl | hb
    · exact hkeeps' _ ha
    · exact hall b hb

/-! ## Pure loops -/

/-- A loop whose steps commute with a map does so itself. -/
theorem foldlM_hom {γ : Type} {g : β → γ} {f : β → α → Except ε β} {f' : γ → α → Except ε γ}
    (h : ∀ x v, f' (g x) v = g <$> f x v) (l : List α) (x : β) :
    l.foldlM f' (g x) = g <$> l.foldlM f x := by
  induction l generalizing x with
  | nil => rfl
  | cons v l ih =>
    rw [List.foldlM_cons, List.foldlM_cons, h, bind_map_left, map_bind]
    exact bind_congr fun y => ih y

theorem filterM_ok {f : α → Except ε Bool} {p : α → Bool} {l : List α}
    (h : ∀ a ∈ l, f a = .ok (p a)) : l.filterM f = .ok (l.filter p) := by
  have aux : ∀ (l acc : List α), (∀ a ∈ l, f a = .ok (p a)) →
      List.filterAuxM f l acc = .ok ((l.filter p).reverse ++ acc) := by
    intro l
    induction l with
    | nil => intro acc _; rfl
    | cons a l ih =>
      intro acc h
      rw [List.filterAuxM, h a (by simp)]
      show List.filterAuxM f l _ = _
      rw [ih _ fun b hb => h b (by simp [hb])]
      cases hp : p a <;> simp [hp]
  rw [List.filterM, aux l [] h]
  show Except.ok _ = _
  simp

/-- The value of a test, false if the test fails. -/
def passes (f : α → Except ε Bool) (a : α) : Bool :=
  match f a with
  | .ok b => b
  | .error _ => false

/-- A selection that ends without a fault has tested all there is. -/
theorem eq_ok_of_filterM {f : α → Except ε Bool} {l l' : List α} (h : l.filterM f = .ok l') :
    ∀ a ∈ l, f a = .ok (passes f a) := by
  have aux : ∀ (l acc l' : List α), List.filterAuxM f l acc = .ok l' →
      ∀ a ∈ l, f a = .ok (passes f a) := by
    intro l
    induction l with
    | nil => simp
    | cons b l ih =>
      intro acc l' h a ha
      obtain ⟨v, hv, h⟩ := bind_eq_ok h
      rcases List.mem_cons.mp ha with rfl | ha
      · rw [passes, hv]
      · exact ih _ _ h a ha
  obtain ⟨l'', hl, -⟩ := bind_eq_ok h
  exact aux l [] l'' hl

/-- A selection that ends without a fault keeps what passes. -/
theorem filterM_eq_ok {f : α → Except ε Bool} {l l' : List α} (h : l.filterM f = .ok l') :
    l' = l.filter (passes f) :=
  (Except.ok.inj ((filterM_ok (eq_ok_of_filterM h)).symm.trans h)).symm

theorem mapM_ok {f : α → Except ε β} {g : α → β} {l : List α} (h : ∀ a ∈ l, f a = .ok (g a)) :
    l.mapM f = .ok (l.map g) := by
  induction l with
  | nil => rfl
  | cons a l ih =>
    rw [List.mapM_cons, h a (by simp), ih fun b hb => h b (by simp [hb])]
    rfl

theorem mapM_yields {f : α → Except ε β} {l : List α} (h : ∀ a ∈ l, ∃ b, f a = .ok b) :
    ∃ bs, l.mapM f = .ok bs := by
  induction l with
  | nil => exact ⟨[], rfl⟩
  | cons a l ih =>
    obtain ⟨b, hb⟩ := h a (by simp)
    obtain ⟨bs, hbs⟩ := ih fun c hc => h c (by simp [hc])
    rw [List.mapM_cons, bind_of_eq_ok hb, bind_of_eq_ok hbs]
    exact ⟨_, rfl⟩

/-- A loop that ends without a fault has done so for each element. -/
theorem exists_of_mapM_eq_ok {f : α → Except ε β} {l : List α} {bs : List β}
    (h : l.mapM f = .ok bs) :
    (∀ a ∈ l, ∃ b ∈ bs, f a = .ok b) ∧ ∀ b ∈ bs, ∃ a ∈ l, f a = .ok b := by
  induction l generalizing bs with
  | nil =>
    cases h
    simp
  | cons a l ih =>
    rw [List.mapM_cons] at h
    obtain ⟨b, hb, h⟩ := bind_eq_ok h
    obtain ⟨bs', hbs, h⟩ := bind_eq_ok h
    cases h
    obtain ⟨hl, hbs'⟩ := ih hbs
    constructor
    · intro c hc
      rcases List.mem_cons.mp hc with rfl | hc
      · exact ⟨b, by simp, hb⟩
      · exact (hl c hc).imp fun _ hd => ⟨List.mem_cons_of_mem _ hd.1, hd.2⟩
    · intro c hc
      rcases List.mem_cons.mp hc with rfl | hc
      · exact ⟨a, by simp, hb⟩
      · exact (hbs' c hc).imp fun _ hd => ⟨List.mem_cons_of_mem _ hd.1, hd.2⟩

theorem forM_ok {f : α → Except ε Unit} {l : List α} (h : ∀ a ∈ l, f a = .ok ()) :
    l.forM f = .ok () := by
  induction l with
  | nil => rfl
  | cons a l ih =>
    rw [List.forM, h a (by simp)]
    exact ih fun b hb => h b (by simp [hb])

end NestedWords
