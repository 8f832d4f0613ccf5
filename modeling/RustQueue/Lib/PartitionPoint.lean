import Mathlib.Tactic

/-!
# Partition points of ordered lists

`partitionPoint f l` is the index of the first element of `l` on which `f` fails, the
value a binary search returns on a list whose elements satisfy `f` up to some point and
fail it from there on.  The lemmas read `l[partitionPoint f l]?`, which is how callers use
the index.  `getElem?_partitionPoint_of_pairwise` finds the element in an ordered list, and for
a predicate that holds of a front part `filter_eq_take` and `filter_not_eq_drop` cut the list
there.
-/

namespace RustQueue.Lib

variable {α : Type*} {f : α → Bool}

/-- The index of the first element on which `f` fails. -/
def partitionPoint (f : α → Bool) (l : List α) : ℕ := (l.takeWhile f).length

@[simp] theorem partitionPoint_nil : partitionPoint f ([] : List α) = 0 := rfl

theorem partitionPoint_cons (a : α) (l : List α) :
    partitionPoint f (a :: l) = if f a then partitionPoint f l + 1 else 0 := by
  unfold partitionPoint
  cases h : f a <;> simp [h]

theorem partitionPoint_le (l : List α) : partitionPoint f l ≤ l.length :=
  List.Sublist.length_le (List.takeWhile_sublist _)

/-- Reading at the partition point is finding the first failing element. -/
theorem getElem?_partitionPoint (l : List α) :
    l[partitionPoint f l]? = l.find? (fun a => !f a) := by
  induction l with
  | nil => rfl
  | cons a l ih =>
    rw [partitionPoint_cons]
    cases h : f a
    · simp [h]
    · simpa [h] using ih

theorem getElem?_partitionPoint_eq_none {l : List α} :
    l[partitionPoint f l]? = none ↔ ∀ a ∈ l, f a = true := by
  rw [getElem?_partitionPoint, List.find?_eq_none]
  simp

/-- In an ordered list the partition point is a failing element before which all succeed. -/
theorem getElem?_partitionPoint_of_pairwise {R : α → α → Prop} {l : List α} (hl : l.Pairwise R)
    {a : α} (ha : a ∈ l) (hfail : f a = false) (hbefore : ∀ b ∈ l, R b a → f b = true) :
    l[partitionPoint f l]? = some a := by
  induction l with
  | nil => simp at ha
  | cons b l ih =>
    obtain ⟨hb, hl⟩ := List.pairwise_cons.1 hl
    rw [partitionPoint_cons]
    rcases List.mem_cons.1 ha with rfl | ha
    · simp [hfail]
    · have hfirst : f b = true := hbefore b (List.mem_cons_self ..) (hb a ha)
      rw [if_pos hfirst, List.getElem?_cons_succ]
      exact ih hl ha fun c hc => hbefore c (List.mem_cons_of_mem _ hc)

/-- Everything before the partition point satisfies the predicate. -/
theorem of_lt_partitionPoint {l : List α} {i : ℕ} {a : α} (hi : i < partitionPoint f l)
    (ha : l[i]? = some a) : f a = true := by
  induction l generalizing i with
  | nil => simp at hi
  | cons b l ih =>
    rw [partitionPoint_cons] at hi
    cases h : f b
    · simp [h] at hi
    · cases i with
      | zero => simpa [← Option.some.inj ha] using h
      | succ i => exact ih (by simpa [h] using hi) (by simpa using ha)

theorem takeWhile_eq_take (l : List α) : l.takeWhile f = l.take (partitionPoint f l) :=
  List.prefix_iff_eq_take.1 (List.takeWhile_prefix f)

theorem partitionPoint_take (n : ℕ) (l : List α) :
    partitionPoint f (l.take n) = min (partitionPoint f l) n := by
  induction l generalizing n with
  | nil => simp
  | cons a l ih =>
    cases n with
    | zero => simp
    | succ n =>
      rw [List.take_succ_cons, partitionPoint_cons, partitionPoint_cons, ih]
      cases f a with
      | true => simp
      | false => simp

/-! ### Predicates that hold of a front part -/

section Front

variable {l : List α} (hl : l.Pairwise fun a b => f b = true → f a = true)
include hl

theorem filter_eq_take : l.filter f = l.take (partitionPoint f l) := by
  induction l with
  | nil => rfl
  | cons a l ih =>
    obtain ⟨ha, hl⟩ := List.pairwise_cons.1 hl
    rw [partitionPoint_cons]
    cases hf : f a with
    | true => rw [List.filter_cons_of_pos hf, ih hl, if_pos rfl, List.take_succ_cons]
    | false =>
      have hnone : l.filter f = [] := List.filter_eq_nil_iff.2 fun b hb hfb => by
        simp [ha b hb hfb] at hf
      rw [List.filter_cons_of_neg (by simp [hf]), hnone, if_neg (by simp), List.take_zero]

theorem filter_not_eq_drop : l.filter (fun a => !f a) = l.drop (partitionPoint f l) := by
  induction l with
  | nil => rfl
  | cons a l ih =>
    obtain ⟨ha, hl⟩ := List.pairwise_cons.1 hl
    rw [partitionPoint_cons]
    cases hf : f a with
    | true => rw [List.filter_cons_of_neg (by simp [hf]), ih hl, if_pos rfl, List.drop_succ_cons]
    | false =>
      have hall : l.filter (fun b => !f b) = l := List.filter_eq_self.2 fun b hb => by
        cases hfb : f b with
        | true => simp [ha b hb hfb] at hf
        | false => rfl
      rw [List.filter_cons_of_pos (by simp [hf]), hall, if_neg (by simp), List.drop_zero]

/-- An element of the front part lies before the partition point. -/
theorem lt_partitionPoint {i : ℕ} {a : α} (ha : l[i]? = some a) (hf : f a = true) :
    i < partitionPoint f l := by
  by_contra hle
  obtain ⟨j, rfl⟩ := Nat.exists_eq_add_of_le (not_lt.1 hle)
  rw [← List.getElem?_drop, ← filter_not_eq_drop hl] at ha
  have := List.of_mem_filter (List.mem_of_getElem? ha)
  simp [hf] at this

end Front

end RustQueue.Lib
