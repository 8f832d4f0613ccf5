import Mathlib.Tactic
import Mathlib.Data.Finset.Max

/-!
# Scanning a finite set in ascending order with a cursor

A loop over an ordered set that may remove elements while it runs keeps a cursor and asks
for the least element strictly above it.  `nextAfter s c` is that question; the cursor
`none` is the start.  `card_above_lt` is the measure such a loop descends on, as long as
the set only shrinks.
-/

namespace RustQueue.Lib

/-- The elements strictly above the cursor. -/
def above (s : Finset ℕ) : Option ℕ → Finset ℕ
  | none => s
  | some c => s.filter (c < ·)

/-- The least element strictly above the cursor. -/
def nextAfter (s : Finset ℕ) (c : Option ℕ) : Option ℕ :=
  if h : (above s c).Nonempty then some ((above s c).min' h) else none

theorem mem_above {s : Finset ℕ} {c : Option ℕ} {p : ℕ} :
    p ∈ above s c ↔ p ∈ s ∧ ∀ x ∈ c, x < p := by
  cases c <;> simp [above]

theorem nextAfter_eq_none {s : Finset ℕ} {c : Option ℕ} :
    nextAfter s c = none ↔ above s c = ∅ := by
  simp [nextAfter, Finset.not_nonempty_iff_eq_empty]

theorem nextAfter_mem {s : Finset ℕ} {c : Option ℕ} {p : ℕ} (h : nextAfter s c = some p) :
    p ∈ above s c := by
  unfold nextAfter at h
  split_ifs at h with hn
  exact Option.some.inj h ▸ Finset.min'_mem _ _

theorem nextAfter_le {s : Finset ℕ} {c : Option ℕ} {p q : ℕ} (h : nextAfter s c = some p)
    (hq : q ∈ above s c) : p ≤ q := by
  unfold nextAfter at h
  split_ifs at h with hn
  exact Option.some.inj h ▸ Finset.min'_le _ _ hq

/-- Stepping to the next element shrinks what is still above the cursor. -/
theorem card_above_lt {s t : Finset ℕ} {c : Option ℕ} {p : ℕ} (h : nextAfter s c = some p)
    (hts : t ⊆ s) : (above t (some p)).card < (above s c).card := by
  apply Finset.card_lt_card
  rw [Finset.ssubset_iff_of_subset]
  · exact ⟨p, nextAfter_mem h, by simp [mem_above]⟩
  · intro q hq
    rw [mem_above] at hq ⊢
    refine ⟨hts hq.1, fun x hx => ?_⟩
    have := (mem_above.1 (nextAfter_mem h)).2 x hx
    have := hq.2 p rfl
    omega

/-! ### The largest key of a map -/

theorem le_maxKey?_getD {β : Type*} (m : Std.ExtTreeMap ℕ β) {k : ℕ} (h : k ∈ m) :
    k ≤ m.maxKey?.getD 0 := by
  cases hm : m.maxKey? with
  | none =>
    simp only [Std.ExtTreeMap.maxKey?_eq_none_iff] at hm
    grind
  | some largest =>
    have hmax : ∀ k', m.maxKey? = some k' → (compare k' largest).isLE := fun k' hk' => by
      obtain rfl : largest = k' := by simpa [hm] using hk'
      simp
    simpa [Nat.isLE_compare] using Std.ExtTreeMap.maxKey?_le.1 hmax k h

end RustQueue.Lib
