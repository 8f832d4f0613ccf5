import Mathlib.Tactic

/-!
# Fallible computations

How a sequence of fallible steps comes to succeed, without a state and with one that an error keeps.
-/

namespace RustQueue.Lib

universe u

variable {ε : Type*} {α β : Type u}

/-- A sequence succeeds when both of its steps do. -/
theorem bind_eq_ok {x : Except ε α} {f : α → Except ε β} {b : β} :
    (x >>= f) = .ok b ↔ ∃ a, x = .ok a ∧ f a = .ok b := by
  cases x with
  | error e =>
    constructor
    · intro h
      cases h
    · rintro ⟨a, h, -⟩
      cases h
  | ok a =>
    constructor
    · exact fun h => ⟨a, rfl, h⟩
    · rintro ⟨a', h, hf⟩
      cases h
      exact hf

/-- A sequence fails when one of its steps does. -/
theorem bind_eq_error {x : Except ε α} {f : α → Except ε β} {e : ε} :
    (x >>= f) = .error e ↔ x = .error e ∨ ∃ a, x = .ok a ∧ f a = .error e := by
  cases x with
  | error e' =>
    constructor
    · intro h
      cases h
      exact Or.inl rfl
    · rintro (h | ⟨a, h, -⟩)
      · cases h
        rfl
      · cases h
  | ok a =>
    constructor
    · exact fun h => Or.inr ⟨a, rfl, h⟩
    · rintro (h | ⟨a', h, hf⟩)
      · cases h
      · cases h
        exact hf

theorem pure_eq_ok {a b : α} : (pure a : Except ε α) = .ok b ↔ a = b := by
  constructor
  · exact fun h => Except.ok.inj h
  · rintro rfl
    rfl

/-- A step for each element of a list: each has succeeded, and every result is that of one. -/
theorem mapM_eq_ok {f : α → Except ε β} {l : List α} {results : List β}
    (h : l.mapM f = .ok results) :
    (∀ a ∈ l, ∃ b ∈ results, f a = .ok b) ∧ ∀ b ∈ results, ∃ a ∈ l, f a = .ok b := by
  induction l generalizing results with
  | nil =>
    rw [List.mapM_nil, pure_eq_ok] at h
    subst h
    simp
  | cons a l ih =>
    rw [List.mapM_cons, bind_eq_ok] at h
    obtain ⟨b, hb, h⟩ := h
    obtain ⟨rest, hrest, h⟩ := bind_eq_ok.1 h
    rw [pure_eq_ok] at h
    subst h
    obtain ⟨h₁, h₂⟩ := ih hrest
    constructor
    · intro x hx
      rcases List.mem_cons.1 hx with rfl | hx
      · exact ⟨b, List.mem_cons_self, hb⟩
      · obtain ⟨y, hy, hxy⟩ := h₁ x hx
        exact ⟨y, List.mem_cons_of_mem _ hy, hxy⟩
    · intro y hy
      rcases List.mem_cons.1 hy with rfl | hy
      · exact ⟨a, List.mem_cons_self, hb⟩
      · obtain ⟨x, hx, hxy⟩ := h₂ y hy
        exact ⟨x, List.mem_cons_of_mem _ hx, hxy⟩

/-! ### With a state -/

section State

variable {σ : Type u} {ε : Type u} {x : EStateM ε σ α} {f : α → EStateM ε σ β} {s s' : σ}

theorem run_bind_eq_ok {b : β} :
    (x >>= f) s = .ok b s' ↔ ∃ a s₁, x s = .ok a s₁ ∧ f a s₁ = .ok b s' := by
  show EStateM.bind x f s = _ ↔ _
  unfold EStateM.bind
  cases hx : x s with
  | ok a s₁ =>
    constructor
    · exact fun h => ⟨a, s₁, rfl, h⟩
    · rintro ⟨a', s₂, h, hf⟩
      cases h
      exact hf
  | error e s₁ =>
    constructor
    · intro h
      cases h
    · rintro ⟨a', s₂, h, -⟩
      cases h

/-- A sequence fails in its first step, or in its second. -/
theorem run_bind_eq_error {e : ε} :
    (x >>= f) s = .error e s' ↔
      x s = .error e s' ∨ ∃ a s₁, x s = .ok a s₁ ∧ f a s₁ = .error e s' := by
  show EStateM.bind x f s = _ ↔ _
  unfold EStateM.bind
  cases hx : x s with
  | ok a s₁ =>
    constructor
    · exact fun h => Or.inr ⟨a, s₁, rfl, h⟩
    · rintro (h | ⟨a', s₂, h, hf⟩)
      · cases h
      · cases h
        exact hf
  | error e' s₁ =>
    constructor
    · intro h
      cases h
      exact Or.inl rfl
    · rintro (h | ⟨a', s₂, h, -⟩)
      · cases h
        rfl
      · cases h

/-- The state that a computation leaves, whether or not it fails. -/
def finalState : EStateM.Result ε σ α → σ
  | .ok _ s | .error _ s => s

/-- The state that a computation leaves is related to the one it began with. -/
def Leaves (R : σ → σ → Prop) (x : EStateM ε σ α) : Prop := ∀ s, R s (finalState (x s))

variable {R : σ → σ → Prop}

theorem Leaves.of_ok (h : Leaves R x) {a : α} (hx : x s = .ok a s') : R s s' := by
  have := h s
  rwa [hx] at this

theorem Leaves.of_error (h : Leaves R x) {e : ε} (hx : x s = .error e s') : R s s' := by
  have := h s
  rwa [hx] at this

theorem Leaves.mono {R' : σ → σ → Prop} (h : Leaves R x) (hle : ∀ s s', R s s' → R' s s') :
    Leaves R' x := fun s => hle _ _ (h s)

theorem leaves_pure (hrefl : ∀ s, R s s) (a : α) : Leaves R (pure a : EStateM ε σ α) := hrefl

/-- What a computation does with the state that it reads. -/
theorem leaves_get_bind {f : σ → EStateM ε σ β} (h : ∀ s, R s (finalState (f s s))) :
    Leaves R (get >>= f) := h

theorem Leaves.bind (htrans : ∀ s₁ s₂ s₃, R s₁ s₂ → R s₂ s₃ → R s₁ s₃) (hx : Leaves R x)
    (hf : ∀ a, Leaves R (f a)) : Leaves R (x >>= f) := by
  intro s
  show R s (finalState (EStateM.bind x f s))
  unfold EStateM.bind
  have hfirst := hx s
  cases h : x s with
  | ok a s₁ =>
    rw [h] at hfirst
    exact htrans _ _ _ hfirst (hf a s₁)
  | error e s₁ =>
    rw [h] at hfirst
    exact hfirst

end State

theorem mapM_ok {α β ε : Type} {f : α → Except ε β} {g : α → β} {l : List α}
    (h : ∀ a ∈ l, f a = .ok (g a)) : l.mapM f = .ok (l.map g) := by
  induction l with
  | nil => rfl
  | cons a l ih =>
    rw [List.mapM_cons, h a List.mem_cons_self, ih fun b hb => h b (List.mem_cons_of_mem _ hb)]
    rfl

theorem mapM_flatMap_ok {α β γ ε : Type} {f : β → Except ε γ} {g : α → List β} {r : α → List γ}
    {l : List α} (h : ∀ a ∈ l, (g a).mapM f = .ok (r a)) : (l.flatMap g).mapM f = .ok (l.flatMap r) := by
  induction l with
  | nil => rfl
  | cons a l ih =>
    rw [List.flatMap_cons, List.mapM_append, h a List.mem_cons_self,
      ih fun b hb => h b (List.mem_cons_of_mem _ hb)]
    rfl

end RustQueue.Lib
