import RustQueue.Lib.Maps

/-!
# Tables of counts

A table that counts something has an entry for what was counted, and none for the rest.  `increment` and
`decrement` count one more and one less; an entry that reaches zero goes.

* `Counts.increment`, `Counts.decrement`: the table keeps counting.
-/

namespace RustQueue.Lib

open Std

variable {α : Type*} {cmp : α → α → Ordering} [TransCmp cmp]

/-- What a table has for a count. -/
def counted (n : ℕ) : Option ℕ := if n = 0 then none else some n

def increment (t : ExtTreeMap α ℕ cmp) (k : α) : ExtTreeMap α ℕ cmp := t.insert k (t[k]?.getD 0 + 1)

def decrement (t : ExtTreeMap α ℕ cmp) (k : α) : ExtTreeMap α ℕ cmp :=
  match t[k]? with
  | none => t
  | some n => if n - 1 = 0 then t.erase k else t.insert k (n - 1)

/-- The table has the counts of `f`. -/
def Counts (t : ExtTreeMap α ℕ cmp) (f : α → ℕ) : Prop := ∀ k, t[k]? = counted (f k)

theorem counted_getD (n : ℕ) : (counted n).getD 0 = n := by
  cases n with
  | zero => rfl
  | succ n => rfl

theorem counted_bind_pred (n : ℕ) : ((counted n).bind fun n => counted (n - 1)) = counted (n - 1) := by
  cases n with
  | zero => rfl
  | succ n => rfl

variable [LawfulEqCmp cmp] [DecidableEq α] {t : ExtTreeMap α ℕ cmp} {k a : α} {f : α → ℕ}

theorem getElem?_increment :
    (increment t k)[a]? = if k = a then some (t[a]?.getD 0 + 1) else t[a]? := by
  rw [increment, getElem?_insert_eq]
  by_cases hk : k = a
  · rw [if_pos hk, if_pos hk, hk]
  · rw [if_neg hk, if_neg hk]

theorem getElem?_decrement :
    (decrement t k)[a]? = if k = a then t[a]?.bind fun n => counted (n - 1) else t[a]? := by
  unfold decrement counted
  by_cases hk : k = a
  · subst hk
    rw [if_pos rfl]
    cases hget : t[k]? with
    | none => exact hget
    | some n =>
      by_cases hn : n - 1 = 0
      · simp [hn]
      · simp [hn]
  · rw [if_neg hk]
    cases hget : t[k]? with
    | none => rfl
    | some n =>
      by_cases hn : n - 1 = 0
      · simp [hn, getElem?_erase_eq, hk]
      · simp [hn, getElem?_insert_eq, hk]

theorem Counts.increment (h : Counts t f) (k : α) :
    Counts (increment t k) (Function.update f k (f k + 1)) := by
  intro a
  rw [getElem?_increment, h a, counted_getD]
  by_cases hk : k = a
  · subst hk
    rw [if_pos rfl, Function.update_self]
    rfl
  · rw [if_neg hk, Function.update_of_ne (Ne.symm hk)]

theorem Counts.decrement (h : Counts t f) (k : α) :
    Counts (decrement t k) (Function.update f k (f k - 1)) := by
  intro a
  rw [getElem?_decrement, h a, counted_bind_pred]
  by_cases hk : k = a
  · subst hk
    rw [if_pos rfl, Function.update_self]
  · rw [if_neg hk, Function.update_of_ne (Ne.symm hk)]

end RustQueue.Lib
