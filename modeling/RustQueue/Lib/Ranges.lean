import Mathlib.Tactic
import Mathlib.Order.Interval.Finset.Nat
import RustQueue.Lib.PartitionPoint
import RustQueue.Lib.Saturating

/-!
# Ordered disjoint ranges of natural numbers

A `Ranges` is a list of inclusive ranges in ascending order that do not overlap.  Its
fields carry that order, so a value of the type can be searched by a partition point on
the range ends.

* `rangeEnd_eq_some`: the search finds the range that holds a number, if there is one;
* `count_eq_card`: the capped sum of overlaps is the capped number of covered numbers;
* `distance_mono`: the number of uncovered steps from a floor up to `p` grows with `p`;
* `count_eq`, `distance_eq`: for ranges of words the cap does not matter.
-/

namespace RustQueue.Lib

/-- Inclusive ranges, ascending and disjoint. -/
structure Ranges where
  toList : List (ℕ × ℕ)
  nonempty : ∀ r ∈ toList, r.1 ≤ r.2
  ordered : toList.Pairwise fun a b => a.2 < b.1

namespace Ranges

/-- No range at all. -/
def none : Ranges := ⟨[], by simp, List.Pairwise.nil⟩

/-- The end of the range that holds `p`. -/
def rangeEnd (r : Ranges) (p : ℕ) : Option ℕ :=
  (r.toList[partitionPoint (fun x => decide (x.2 < p)) r.toList]?.filter
    fun x => decide (x.1 ≤ p)).map Prod.snd

/-- Whether some range holds `p`. -/
def contains (r : Ranges) (p : ℕ) : Bool := (r.rangeEnd p).isSome

instance : Membership ℕ Ranges := ⟨fun r p => ∃ x ∈ r.toList, x.1 ≤ p ∧ p ≤ x.2⟩

theorem mem_def (r : Ranges) (p : ℕ) : p ∈ r ↔ ∃ x ∈ r.toList, x.1 ≤ p ∧ p ≤ x.2 := Iff.rfl

/-! ### Searching by range end -/

private theorem find?_range {l : List (ℕ × ℕ)} (hl : l.Pairwise fun a b => a.2 < b.1)
    (hn : ∀ r ∈ l, r.1 ≤ r.2) {x : ℕ × ℕ} {p : ℕ} (hx : x ∈ l) (h1 : x.1 ≤ p) (h2 : p ≤ x.2) :
    l.find? (fun a => !decide (a.2 < p)) = some x := by
  induction l with
  | nil => simp at hx
  | cons a l ih =>
    rw [List.pairwise_cons] at hl
    rcases List.mem_cons.1 hx with rfl | hx
    · simp [h2]
    · -- the head ends before `x` starts, so the search passes it
      have ha : a.2 < p := lt_of_lt_of_le (hl.1 x hx) h1
      have := ih hl.2 (fun r hr => hn r (List.mem_cons_of_mem _ hr)) hx
      simpa [List.find?_cons, ha] using this

theorem rangeEnd_eq_some {r : Ranges} {p e : ℕ} :
    r.rangeEnd p = some e ↔ ∃ a, (a, e) ∈ r.toList ∧ a ≤ p ∧ p ≤ e := by
  unfold rangeEnd
  rw [getElem?_partitionPoint]
  constructor
  · intro h
    obtain ⟨⟨a, b⟩, hab, rfl⟩ := Option.map_eq_some_iff.1 h
    obtain ⟨hf, ha⟩ := Option.filter_eq_some_iff.1 hab
    refine ⟨a, List.mem_of_find?_eq_some hf, by simpa using ha, ?_⟩
    simpa using List.find?_some hf
  · rintro ⟨a, hm, h1, h2⟩
    rw [find?_range r.ordered r.nonempty hm h1 h2]
    simp [Option.filter, h1]

theorem contains_iff {r : Ranges} {p : ℕ} : r.contains p = true ↔ p ∈ r := by
  unfold contains
  rw [Option.isSome_iff_exists, mem_def]
  constructor
  · rintro ⟨e, he⟩
    obtain ⟨a, hm, h1, h2⟩ := rangeEnd_eq_some.1 he
    exact ⟨(a, e), hm, h1, h2⟩
  · rintro ⟨⟨a, e⟩, hm, h1, h2⟩
    exact ⟨e, rangeEnd_eq_some.2 ⟨a, hm, h1, h2⟩⟩

instance (r : Ranges) (p : ℕ) : Decidable (p ∈ r) := decidable_of_iff _ contains_iff

theorem rangeEnd_eq_none {r : Ranges} {p : ℕ} : r.rangeEnd p = Option.none ↔ p ∉ r := by
  rw [← contains_iff, contains]
  simp

/-- Everything from the searched number to the end it finds is covered. -/
theorem mem_of_rangeEnd {r : Ranges} {p e q : ℕ} (h : r.rangeEnd p = some e)
    (hp : p ≤ q) (he : q ≤ e) : q ∈ r := by
  obtain ⟨a, hm, h1, _⟩ := rangeEnd_eq_some.1 h
  exact ⟨(a, e), hm, by simpa using by omega, he⟩

theorem le_rangeEnd {r : Ranges} {p e : ℕ} (h : r.rangeEnd p = some e) : p ≤ e := by
  obtain ⟨_, _, _, h2⟩ := rangeEnd_eq_some.1 h
  exact h2

@[simp] theorem not_mem_none (p : ℕ) : p ∉ none := by
  rintro ⟨x, hx, _⟩
  simp [none] at hx

/-! ### Counting covered numbers -/

/-- How much of the window `first..last` one range covers, as the capped word. -/
def overlap (first last : ℕ) (x : ℕ × ℕ) : ℕ :=
  if max first x.1 ≤ min last x.2 then satAdd u64Max (min last x.2 - max first x.1) 1 else 0

/-- The capped sum of the overlaps with the window `first..last`. -/
def count (r : Ranges) (first last : ℕ) : ℕ :=
  if last < first then 0 else (r.toList.map (overlap first last)).foldl (satAdd u64Max) 0

/-- The numbers of the window that the ranges cover. -/
def covered (r : Ranges) (first last : ℕ) : Finset ℕ := (Finset.Icc first last).filter (· ∈ r)

theorem overlap_eq (first last : ℕ) (x : ℕ × ℕ) :
    overlap first last x =
      min (Finset.Icc (max first x.1) (min last x.2)).card u64Max := by
  rw [Nat.card_Icc, overlap]
  split_ifs with h
  · unfold satAdd
    congr 1
    omega
  · omega

theorem sum_map_min_le (m : ℕ) (l : List ℕ) :
    min (l.map (min · m)).sum m = min l.sum m := by
  induction l with
  | nil => rfl
  | cons a l ih =>
    simp only [List.map_cons, List.sum_cons]
    omega

private theorem sum_card_Icc {l : List (ℕ × ℕ)} (hl : l.Pairwise fun a b => a.2 < b.1)
    (hn : ∀ r ∈ l, r.1 ≤ r.2) (first last : ℕ) :
    (l.map fun x => (Finset.Icc (max first x.1) (min last x.2)).card).sum =
      ((Finset.Icc first last).filter fun p => ∃ x ∈ l, x.1 ≤ p ∧ p ≤ x.2).card := by
  induction l with
  | nil => simp
  | cons a l ih =>
    rw [List.pairwise_cons] at hl
    rw [List.map_cons, List.sum_cons, ih hl.2 fun r hr => hn r (List.mem_cons_of_mem _ hr),
      ← Finset.card_union_of_disjoint]
    · congr 1
      ext p
      simp only [Finset.mem_union, Finset.mem_Icc, Finset.mem_filter, List.exists_mem_cons_iff,
        max_le_iff, le_min_iff]
      tauto
    · -- the head range ends before every later one starts
      rw [Finset.disjoint_left]
      simp only [Finset.mem_Icc, Finset.mem_filter, max_le_iff, le_min_iff, not_and, not_exists]
      rintro p ⟨⟨_, _⟩, _, hp⟩ _ x hx h1
      have := hl.1 x hx
      omega

/-- The capped sum of overlaps counts the covered numbers, up to the cap. -/
theorem count_eq_card (r : Ranges) (first last : ℕ) :
    r.count first last = min (r.covered first last).card u64Max := by
  unfold count
  split_ifs with h
  · simp [covered, Finset.Icc_eq_empty_of_lt h]
  · rw [foldl_satAdd _ _ _ (Nat.zero_le _), Nat.zero_add,
      show r.toList.map (overlap first last) =
        (r.toList.map fun x => (Finset.Icc (max first x.1) (min last x.2)).card).map
          (min · u64Max) by simp [overlap_eq, Function.comp_def],
      sum_map_min_le, sum_card_Icc r.ordered r.nonempty]
    simp only [covered, mem_def]

theorem card_covered_succ_le (r : Ranges) (first last : ℕ) :
    (r.covered first (last + 1)).card ≤ (r.covered first last).card + 1 := by
  have hsub : r.covered first (last + 1) ⊆ insert (last + 1) (r.covered first last) := by
    intro p
    simp only [covered, Finset.mem_filter, Finset.mem_Icc, Finset.mem_insert]
    rintro ⟨⟨h1, h2⟩, hp⟩
    by_cases h : p = last + 1
    · exact Or.inl h
    · exact Or.inr ⟨⟨h1, by omega⟩, hp⟩
  exact (Finset.card_le_card hsub).trans (Finset.card_insert_le _ _)

/-- The steps from `floor` up to `p` that no range covers. -/
def distance (r : Ranges) (floor p : ℕ) : ℕ := p - floor - r.count (satSucc floor) p

theorem distance_le_succ (r : Ranges) (floor p : ℕ) :
    r.distance floor p ≤ r.distance floor (p + 1) := by
  unfold distance
  rw [count_eq_card, count_eq_card]
  have := r.card_covered_succ_le (satSucc floor) p
  by_cases h : p < floor
  · omega
  · omega

/-- Walking on never brings a position closer to the floor. -/
theorem distance_mono (r : Ranges) (floor : ℕ) {p q : ℕ} (h : p ≤ q) :
    r.distance floor p ≤ r.distance floor q :=
  monotone_nat_of_le_succ (r.distance_le_succ floor) h

/-! ### Ranges of words -/

section Words

variable {r : Ranges} {first last floor p : ℕ}

/-- Ranges that start behind zero cover at most as many numbers as there are words. -/
theorem card_covered_le (hstart : ∀ x ∈ r.toList, 1 ≤ x.1) (hlast : last ≤ u64Max) :
    (r.covered first last).card ≤ u64Max := by
  have hsub : r.covered first last ⊆ Finset.Icc 1 u64Max := by
    intro q hq
    obtain ⟨hwindow, x, hx, hle, -⟩ := Finset.mem_filter.1 hq
    have := hstart x hx
    have := (Finset.mem_Icc.1 hwindow).2
    exact Finset.mem_Icc.2 ⟨by omega, by omega⟩
  have hcard := Finset.card_le_card hsub
  rwa [Nat.card_Icc, Nat.add_sub_cancel] at hcard

theorem count_eq (hstart : ∀ x ∈ r.toList, 1 ≤ x.1) (hlast : last ≤ u64Max) :
    r.count first last = (r.covered first last).card := by
  rw [count_eq_card]
  exact min_eq_left (card_covered_le hstart hlast)

/-- The distance counts the numbers above the floor that no range covers. -/
theorem distance_eq (hstart : ∀ x ∈ r.toList, 1 ≤ x.1) (hp : p ≤ u64Max) :
    r.distance floor p = ((Finset.Ioc floor p).filter fun q => q ∉ r).card := by
  rw [distance, count_eq hstart hp]
  by_cases hfloor : floor < u64Max
  · have hwindow : Finset.Icc (satSucc floor) p = Finset.Ioc floor p := by
      ext q
      rw [Finset.mem_Icc, Finset.mem_Ioc, satSucc_eq hfloor]
      omega
    have hsplit := Finset.card_filter_add_card_filter_not (s := Finset.Ioc floor p) (p := (· ∈ r))
    rw [Nat.card_Ioc] at hsplit
    rw [covered, hwindow]
    omega
  · have hempty : Finset.Ioc floor p = ∅ := Finset.Ioc_eq_empty_of_le (by omega)
    rw [hempty, Finset.filter_empty, Finset.card_empty]
    omega

end Words

end Ranges

end RustQueue.Lib
