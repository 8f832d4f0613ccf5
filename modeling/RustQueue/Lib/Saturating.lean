import Mathlib.Tactic

/-!
# Saturating machine arithmetic on natural numbers

Unsigned machine words are natural numbers here, and an operation that saturates says
so: `satAdd m a b` is the sum of `a` and `b` capped at `m`.  `satSucc` is the successor
of a 64-bit word.  Saturating subtraction needs no definition of its own, it is the
subtraction of `ℕ`.  `wrapAdd` and `wrapSub` are the plain operations of a release build,
which wrap.

* `satAdd_le`, `satAdd_le_max`: a capped sum is below the sum and below the cap;
* `le_of_lt_satSucc`: what is below the saturating successor is at most the word itself;
* `foldl_satAdd`: a fold of capped sums is the capped total;
* `Counter`: counters whose sums saturate are a commutative monoid.
-/

namespace RustQueue.Lib

/-- The largest 64-bit word. -/
def u64Max : ℕ := 2 ^ 64 - 1

/-- The size of a word on the machine, for byte counts. -/
def usizeMax : ℕ := u64Max

/-- The largest 32-bit word. -/
def u32Max : ℕ := 2 ^ 32 - 1

/-- The largest 16-bit word. -/
def u16Max : ℕ := 2 ^ 16 - 1

/-- Addition that stops at the cap `m`. -/
def satAdd (m a b : ℕ) : ℕ := min (a + b) m

/-- Multiplication that stops at the cap `m`. -/
def satMul (m a b : ℕ) : ℕ := min (a * b) m

/-- The saturating successor of a 64-bit word.  It is written so that it stays put above
the largest word too, where no word is; its laws then hold of every number. -/
def satSucc (a : ℕ) : ℕ := if a < u64Max then a + 1 else a

/-- Addition of 64-bit words that wraps. -/
def wrapAdd (a b : ℕ) : ℕ := (a + b) % (u64Max + 1)

/-- Subtraction of 64-bit words that wraps. -/
def wrapSub (a b : ℕ) : ℕ := (a + (u64Max + 1) - b) % (u64Max + 1)

/-- Addition of sizes that fails when the sum does not fit. -/
def checkedAdd (a b : ℕ) : Option ℕ := if a + b ≤ usizeMax then some (a + b) else none

/-- A sum of sizes from the left, which fails as soon as it does not fit. -/
def checkedSum (a : ℕ) : List ℕ → Option ℕ
  | [] => some a
  | b :: rest => (checkedAdd a b).bind fun sum => checkedSum sum rest

variable {a : ℕ}

theorem checkedAdd_eq_some {b n : ℕ} : checkedAdd a b = some n ↔ n = a + b ∧ n ≤ usizeMax := by
  unfold checkedAdd
  split_ifs with h
  · rw [Option.some.injEq]
    omega
  · refine iff_of_false (by simp) ?_
    rintro ⟨rfl, hle⟩
    exact h hle

theorem checkedSum_cons {b n : ℕ} {rest : List ℕ} :
    checkedSum a (b :: rest) = some n ↔ n = a + (b :: rest).sum ∧ n ≤ usizeMax := by
  induction rest generalizing a b with
  | nil =>
    rw [checkedSum, List.sum_singleton, ← checkedAdd_eq_some]
    cases checkedAdd a b <;> simp [checkedSum]
  | cons c rest ih =>
    rw [checkedSum]
    by_cases h : a + b ≤ usizeMax
    · rw [checkedAdd, if_pos h, Option.bind_some, ih]
      simp only [List.sum_cons, Nat.add_assoc]
    · rw [checkedAdd, if_neg h, Option.bind_none]
      refine iff_of_false (by simp) ?_
      simp only [List.sum_cons]
      omega

theorem wrapAdd_eq {b : ℕ} (h : a + b ≤ u64Max) : wrapAdd a b = a + b :=
  Nat.mod_eq_of_lt (by omega)

theorem wrapSub_eq {b : ℕ} (h : b ≤ a) (ha : a ≤ u64Max) : wrapSub a b = a - b := by
  have hsplit : a + (u64Max + 1) - b = a - b + (u64Max + 1) := by omega
  rw [wrapSub, hsplit, Nat.add_mod_right]
  exact Nat.mod_eq_of_lt (by omega)

theorem satAdd_le (m a b : ℕ) : satAdd m a b ≤ a + b := Nat.min_le_left _ _

theorem satAdd_le_max (m a b : ℕ) : satAdd m a b ≤ m := Nat.min_le_right _ _

theorem satAdd_eq {m b : ℕ} (h : a + b ≤ m) : satAdd m a b = a + b := Nat.min_eq_left h

theorem satSucc_le (a : ℕ) : satSucc a ≤ a + 1 := by
  unfold satSucc
  split_ifs <;> omega

theorem le_satSucc (a : ℕ) : a ≤ satSucc a := by
  unfold satSucc
  split_ifs <;> omega

theorem satSucc_eq (h : a < u64Max) : satSucc a = a + 1 := if_pos h

theorem satSucc_mono {b : ℕ} (h : a ≤ b) : satSucc a ≤ satSucc b := by
  unfold satSucc
  split_ifs <;> omega

/-- Below the saturating successor of `a` there is nothing above `a`, also at the cap. -/
theorem le_of_lt_satSucc {p : ℕ} (h : p < satSucc a) : p ≤ a := by
  have := satSucc_le a
  omega

theorem satSucc_le_of_lt {p : ℕ} (h : a < p) : satSucc a ≤ p := by
  have := satSucc_le a
  omega

/-- Folding capped sums gives the capped total. -/
theorem foldl_satAdd (m : ℕ) (l : List ℕ) (a : ℕ) (ha : a ≤ m) :
    l.foldl (satAdd m) a = min (a + l.sum) m := by
  induction l generalizing a with
  | nil => simpa using ha
  | cons x xs ih =>
    rw [List.foldl_cons, ih _ (satAdd_le_max _ _ _), List.sum_cons]
    unfold satAdd
    omega

/-! ### Counters -/

/-- A 64-bit counter.  Sums of counters saturate. -/
@[ext]
structure Counter where
  value : ℕ
  le : value ≤ u64Max
  deriving DecidableEq

namespace Counter

instance : Zero Counter := ⟨⟨0, Nat.zero_le _⟩⟩

instance : Add Counter := ⟨fun a b => ⟨satAdd u64Max a.value b.value, satAdd_le_max _ _ _⟩⟩

theorem value_add (a b : Counter) : (a + b).value = satAdd u64Max a.value b.value := rfl

instance : AddCommMonoid Counter where
  add_assoc a b c := by
    ext
    simp only [value_add, satAdd]
    omega
  zero_add a := by
    ext
    have := a.le
    simp only [value_add, satAdd, show (0 : Counter).value = 0 from rfl]
    omega
  add_zero a := by
    ext
    have := a.le
    simp only [value_add, satAdd, show (0 : Counter).value = 0 from rfl]
    omega
  add_comm a b := by
    ext
    simp only [value_add, satAdd]
    omega
  nsmul := nsmulRec

/-- The value of a sum is the capped total. -/
theorem value_sum (l : List Counter) : l.sum.value = min (l.map value).sum u64Max := by
  induction l with
  | nil => rfl
  | cons a l ih =>
    rw [List.sum_cons, value_add, ih, List.map_cons, List.sum_cons, satAdd]
    omega

end Counter

end RustQueue.Lib
