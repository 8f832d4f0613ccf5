import Mathlib.Tactic

/-!
# Runs of consecutive numbers

`Consecutive f first l` says that `f` numbers the elements of `l` from `first` on without a
gap.  The lemmas take such a list apart along its structure and relate an element's number to
its place.
-/

namespace RustQueue.Lib

variable {α : Type*}

/-- The numbers of the elements are `first`, `first + 1`, and so on. -/
def Consecutive (f : α → ℕ) (first : ℕ) (l : List α) : Prop := l.map f = List.range' first l.length

variable {f : α → ℕ} {first : ℕ} {a : α} {l l' : List α}

@[simp] theorem consecutive_nil : Consecutive f first [] := rfl

theorem consecutive_cons :
    Consecutive f first (a :: l) ↔ f a = first ∧ Consecutive f (first + 1) l := by
  unfold Consecutive
  rw [List.map_cons, List.length_cons, List.range'_succ, List.cons.injEq]

theorem consecutive_append : Consecutive f first (l ++ l') ↔
      Consecutive f first l ∧ Consecutive f (first + l.length) l' := by
  induction l generalizing first with
  | nil => simp
  | cons a l ih =>
    rw [List.cons_append, consecutive_cons, consecutive_cons, ih, List.length_cons,
      Nat.add_assoc, Nat.add_comm 1, and_assoc]

theorem consecutive_singleton : Consecutive f first [a] ↔ f a = first := by
  rw [consecutive_cons]
  simp

section

variable (h : Consecutive f first l)
include h

theorem Consecutive.take (n : ℕ) : Consecutive f first (l.take n) := by
  rw [← List.take_append_drop n l, consecutive_append] at h
  exact h.1

theorem Consecutive.getElem? {i : ℕ} (hi : l[i]? = some a) : f a = first + i := by
  induction l generalizing first i with
  | nil => simp at hi
  | cons b l ih =>
    rw [consecutive_cons] at h
    cases i with
    | zero =>
      rw [List.getElem?_cons_zero, Option.some.injEq] at hi
      rw [← hi, h.1, Nat.add_zero]
    | succ i =>
      rw [ih h.2 hi]
      omega

theorem Consecutive.mem (ha : a ∈ l) : first ≤ f a ∧ f a < first + l.length := by
  have hf : f a ∈ l.map f := List.mem_map_of_mem ha
  rw [h, List.mem_range'_1] at hf
  exact hf

/-- Every number of the run belongs to an element. -/
theorem Consecutive.exists_mem {n : ℕ} (hfirst : first ≤ n)
    (hlast : n < first + l.length) : ∃ a ∈ l, f a = n := by
  have hmem : n ∈ l.map f := by
    rw [h, List.mem_range'_1]
    exact ⟨hfirst, hlast⟩
  exact List.mem_map.1 hmem

/-- The elements of a run that are numbered above `p` are its end. -/
theorem Consecutive.filter_lt (p : ℕ) :
    (l.filter fun a => decide (p < f a)) = l.drop (p + 1 - first) := by
  induction l generalizing first with
  | nil => simp
  | cons b l ih =>
    obtain ⟨hb, hrest⟩ := consecutive_cons.1 h
    by_cases hlt : p < first
    · have hzero : p + 1 - first = 0 := by omega
      rw [hzero, List.drop_zero]
      refine List.filter_eq_self.2 fun a ha => ?_
      have := (h.mem ha).1
      simp only [decide_eq_true_eq]
      omega
    · have hsucc : p + 1 - first = p + 1 - (first + 1) + 1 := by omega
      rw [List.filter_cons_of_neg (by simp only [decide_eq_true_eq]; omega), ih hrest, hsucc,
        List.drop_succ_cons]

/-- The last number of a run. -/
theorem Consecutive.getLast? (ha : l.getLast? = some a) : f a + 1 = first + l.length := by
  rw [List.getLast?_eq_getElem?] at ha
  have hlast := h.getElem? ha
  have hlen : l.length - 1 < l.length := (List.getElem?_eq_some_iff.1 ha).1
  omega

/-- A run goes on behind its last element. -/
theorem Consecutive.concat
    (hnext : ∀ b, l.getLast? = some b → f a = f b + 1) : ∃ first, Consecutive f first (l ++ [a]) := by
  cases hlast : l.getLast? with
  | none =>
    rw [List.getLast?_eq_none_iff] at hlast
    subst hlast
    exact ⟨f a, consecutive_singleton.2 rfl⟩
  | some b =>
    refine ⟨first, consecutive_append.2 ⟨h, consecutive_singleton.2 ?_⟩⟩
    rw [hnext b hlast, h.getLast? hlast]

end

/-- Where the values do not fall, they lie between the first and the last. -/
theorem between_of_pairwise {α β : Type*} [Preorder β] {f : α → β} {l : List α} {first last a : α}
    (h : l.Pairwise fun a b => f a ≤ f b) (hfirst : l.head? = some first)
    (hlast : l.getLast? = some last) (ha : a ∈ l) : f first ≤ f a ∧ f a ≤ f last := by
  constructor
  · obtain ⟨rest, rfl⟩ := List.head?_eq_some_iff.1 hfirst
    rcases List.mem_cons.1 ha with rfl | ha
    · exact le_rfl
    · exact (List.pairwise_cons.1 h).1 a ha
  · obtain ⟨front, rfl⟩ := List.getLast?_eq_some_iff.1 hlast
    rcases List.mem_append.1 ha with ha | ha
    · exact (List.pairwise_append.1 h).2.2 a ha last (List.mem_singleton_self last)
    · rw [List.mem_singleton.1 ha]

end RustQueue.Lib
