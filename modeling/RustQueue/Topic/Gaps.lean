import RustQueue.Channel.State
import RustQueue.Topic.Contents

/-!
# Gaps between messages

A channel knows the positions without a message as ranges, and counts with them instead of going
through positions one by one.

* `mem_gapsBetween`: the gaps of a list of spans are its maximal free intervals;
* `absentRanges`: they are ranges that a channel takes;
* `gap_arithmetic`: both for the gaps of a message index and the ranges of a channel.
-/

namespace RustQueue

open Lib Channel

namespace Topic

/-! ### The gaps of a list of spans -/

/-- Some span holds a position. -/
def Holds (spans : List (ℕ × ℕ)) (p : ℕ) : Prop := ∃ span ∈ spans, span.1 ≤ p ∧ p ≤ span.2

theorem holds_cons {span : ℕ × ℕ} {spans : List (ℕ × ℕ)} {p : ℕ} :
    Holds (span :: spans) p ↔ span.1 ≤ p ∧ p ≤ span.2 ∨ Holds spans p := by
  simp [Holds]

/-- An interval without a held position that cannot be made longer within `next..lastPosition`. -/
structure MaximalGap (spans : List (ℕ × ℕ)) (next lastPosition a b : ℕ) : Prop where
  start : next ≤ a
  le : a ≤ b
  stop : b ≤ lastPosition
  free : ∀ p, a ≤ p → p ≤ b → ¬Holds spans p
  before : a = next ∨ Holds spans (a - 1)
  after : b = lastPosition ∨ Holds spans (b + 1)

/-- Nonempty spans, ascending and disjoint, of words. -/
structure Ascending (spans : List (ℕ × ℕ)) : Prop where
  nonempty : ∀ span ∈ spans, span.1 ≤ span.2
  ordered : spans.Pairwise fun a b => a.2 < b.1
  bounded : ∀ span ∈ spans, span.2 ≤ u64Max

theorem Ascending.tail {span : ℕ × ℕ} {spans : List (ℕ × ℕ)} (h : Ascending (span :: spans)) :
    Ascending spans where
  nonempty s hs := h.nonempty s (List.mem_cons_of_mem _ hs)
  ordered := (List.pairwise_cons.1 h.ordered).2
  bounded s hs := h.bounded s (List.mem_cons_of_mem _ hs)

section Between

variable {spans : List (ℕ × ℕ)} {next lastPosition a b : ℕ}

theorem mem_single (hbehind : ∀ span ∈ spans, lastPosition < span.1) :
    (a, b) ∈ (if next ≤ lastPosition then [(next, lastPosition)] else []) ↔
      MaximalGap spans next lastPosition a b := by
  have hfree : ∀ p ≤ lastPosition, ¬Holds spans p := by
    rintro p hp ⟨span, hspan, hle, -⟩
    have := hbehind span hspan
    omega
  constructor
  · intro hmem
    split_ifs at hmem with hnext
    · obtain ⟨rfl, rfl⟩ := Prod.mk.inj (List.mem_singleton.1 hmem)
      exact ⟨le_rfl, hnext, le_rfl, fun p _ hp => hfree p hp, Or.inl rfl, Or.inl rfl⟩
    · simp at hmem
  · intro hgap
    have hle := hgap.le
    have hstop := hgap.stop
    have hstart := hgap.start
    have ha : a = next := hgap.before.resolve_right (hfree _ (by omega))
    have hb : b = lastPosition := by
      by_contra hne
      exact hfree (b + 1) (by omega) (hgap.after.resolve_left hne)
    rw [if_pos (by omega), ha, hb]
    exact List.mem_singleton.2 rfl

/-- **The gaps are the maximal free intervals.**  The induction is on the spans; `next` lies behind
the spans before. -/
theorem mem_gapsBetween (hspans : Ascending spans) (hnext : ∀ span ∈ spans, next ≤ span.1 + 1)
    (hlast : lastPosition ≤ u64Max) :
    (a, b) ∈ MessageIndex.gapsBetween lastPosition next spans ↔
      MaximalGap spans next lastPosition a b := by
  induction spans generalizing next with
  | nil => exact mem_single (by simp)
  | cons span rest ih =>
    obtain ⟨first, last⟩ := span
    have hspan : first ≤ last := hspans.nonempty (first, last) List.mem_cons_self
    have hrest : ∀ later ∈ rest, last < later.1 := (List.pairwise_cons.1 hspans.ordered).1
    have hfirst : next ≤ first + 1 := hnext (first, last) List.mem_cons_self
    have hword : last ≤ u64Max := hspans.bounded (first, last) List.mem_cons_self
    have hbehind : ∀ p, Holds rest p → last < p := by
      rintro p ⟨later, hlater, hle, -⟩
      have := hrest later hlater
      omega
    rw [MessageIndex.gapsBetween]
    by_cases hpast : lastPosition < first
    · rw [if_pos hpast]
      refine mem_single fun later hlater => ?_
      rcases List.mem_cons.1 hlater with rfl | hlater
      · exact hpast
      · have := hrest later hlater
        omega
    · rw [if_neg hpast, List.mem_append]
      have hbehindLast : ∀ later ∈ rest, last + 1 ≤ later.1 + 1 := fun later hlater => by
        have := hrest later hlater
        omega
      have ih' := ih hspans.tail hbehindLast
      constructor
      · rintro (hmem | hmem)
        · -- the gap in front of the span
          split_ifs at hmem with hlt
          · obtain ⟨rfl, hb⟩ := Prod.mk.inj (List.mem_singleton.1 hmem)
            rw [min_eq_left (by omega)] at hb
            refine ⟨le_rfl, by omega, by omega, fun p hap hpb hheld => ?_, Or.inl rfl, Or.inr ?_⟩
            · rcases holds_cons.1 hheld with ⟨hle, -⟩ | hheld
              · omega
              · have := hbehind p hheld
                omega
            · exact holds_cons.2 (Or.inl ⟨by omega, by omega⟩)
          · simp at hmem
        · -- a gap behind the span
          split_ifs at hmem with hword
          · have hgap := ih'.1 hmem
            have hstart := hgap.start
            refine ⟨by omega, hgap.le, hgap.stop, fun p hap hpb hheld => ?_, Or.inr ?_, ?_⟩
            · rcases holds_cons.1 hheld with ⟨-, hle⟩ | hheld
              · omega
              · exact hgap.free p hap hpb hheld
            · rcases hgap.before with rfl | hheld
              · exact holds_cons.2 (Or.inl ⟨by omega, by omega⟩)
              · exact holds_cons.2 (Or.inr hheld)
            · exact hgap.after.imp_right fun hheld => holds_cons.2 (Or.inr hheld)
          · simp at hmem
      · intro hgap
        have hstart := hgap.start
        have hle := hgap.le
        have hstop := hgap.stop
        by_cases hside : b < first
        · -- in front of the span
          left
          have ha : a = next := by
            refine hgap.before.resolve_right fun hheld => ?_
            rcases holds_cons.1 hheld with ⟨hle, -⟩ | hheld
            · omega
            · have := hbehind _ hheld
              omega
          have hb : b + 1 = first := by
            rcases hgap.after with hend | hheld
            · omega
            · rcases holds_cons.1 hheld with ⟨hle, -⟩ | hheld
              · omega
              · have := hbehind _ hheld
                omega
          rw [if_pos (by omega), min_eq_left (by omega), ha, show b = first - 1 by omega]
          exact List.mem_singleton.2 rfl
        · -- behind the span, since the span itself is held
          right
          have hlt : last < a := by
            by_contra hge
            exact hgap.free (max a first) (le_max_left _ _) (by omega)
              (holds_cons.2 (Or.inl ⟨by omega, by omega⟩))
          rw [if_pos (by omega)]
          refine ih'.2 ⟨hlt, hle, hstop, fun p hap hpb hheld =>
            hgap.free p hap hpb (holds_cons.2 (Or.inr hheld)), ?_, ?_⟩
          · rcases hgap.before with rfl | hheld
            · exact Or.inl (by omega)
            · rcases holds_cons.1 hheld with ⟨-, hle⟩ | hheld
              · exact Or.inl (by omega)
              · exact Or.inr hheld
          · refine hgap.after.imp_right fun hheld => ?_
            rcases holds_cons.1 hheld with ⟨-, hle⟩ | hheld
            · omega
            · exact hheld

theorem pairwise_gapsBetween (hspans : Ascending spans) (hnext : ∀ span ∈ spans, next ≤ span.1 + 1)
    (hlast : lastPosition ≤ u64Max) :
    (MessageIndex.gapsBetween lastPosition next spans).Pairwise fun a b => a.2 + 1 < b.1 := by
  induction spans generalizing next with
  | nil =>
    rw [MessageIndex.gapsBetween]
    split_ifs <;> simp
  | cons span rest ih =>
    obtain ⟨first, last⟩ := span
    have hspan : first ≤ last := hspans.nonempty (first, last) List.mem_cons_self
    have hrest : ∀ later ∈ rest, last + 1 ≤ later.1 + 1 := fun later hlater => by
      have := (List.pairwise_cons.1 hspans.ordered).1 later hlater
      omega
    rw [MessageIndex.gapsBetween]
    by_cases hpast : lastPosition < first
    · rw [if_pos hpast]
      split_ifs <;> simp
    · rw [if_neg hpast, List.pairwise_append]
      refine ⟨by split_ifs <;> simp, ?_, ?_⟩
      · split_ifs
        · exact ih hspans.tail hrest
        · exact List.Pairwise.nil
      · intro before hbefore after hafter
        split_ifs at hbefore hafter with hlt hword
        · have hstart := ((mem_gapsBetween hspans.tail hrest hlast).1 hafter).start
          rw [List.mem_singleton.1 hbefore]
          show min (first - 1) lastPosition + 1 < after.1
          omega
        all_goals simp at hbefore hafter

end Between

/-! ### The gaps of an index -/

namespace MessageIndex

variable {index : MessageIndex}

theorem mem_spans {span : ℕ × ℕ} :
    span ∈ index.spans ↔
      (∃ segment ∈ index.sealed, span = (segment.firstPosition, segment.lastPosition)) ∨
      ∃ first last, index.active.head? = some first ∧ index.active.getLast? = some last ∧
        span = (first.position, last.position) := by
  unfold spans
  rw [List.mem_append, List.mem_map]
  refine or_congr ⟨fun ⟨segment, h, heq⟩ => ⟨segment, h, heq.symm⟩,
    fun ⟨segment, h, heq⟩ => ⟨segment, h, heq.symm⟩⟩ ?_
  cases hfirst : index.active.head? with
  | none => simp
  | some first =>
    cases hlast : index.active.getLast? with
    | none => simp
    | some last => simp

/-- The run of the active messages. -/
theorem WellFormed.active_run (h : index.WellFormed) {first last : MessageMeta}
    (hfirst : index.active.head? = some first) (hlast : index.active.getLast? = some last) :
    Consecutive MessageMeta.position first.position index.active ∧
      last.position + 1 = first.position + index.active.length := by
  obtain ⟨start, hrun⟩ := h.consecutive
  have hstart : first.position = start := by
    rw [List.head?_eq_getElem?] at hfirst
    exact hrun.getElem? hfirst
  rw [hstart]
  exact ⟨hrun, hrun.getLast? hlast⟩

theorem WellFormed.holds_iff (h : index.WellFormed) (p : ℕ) :
    Holds index.spans p ↔ ∃ message ∈ index.messages, message.position = p := by
  constructor
  · rintro ⟨span, hspan, hle, hge⟩
    rcases mem_spans.1 hspan with ⟨segment, hsegment, rfl⟩ | ⟨first, last, hfirst, hlast, rfl⟩
    · have hdescribes := h.described segment hsegment
      have hend := hdescribes.lastPosition_eq
      rw [hdescribes.count_eq] at hend
      obtain ⟨message, hmem, hposition⟩ := hdescribes.consecutive.exists_mem hle
        (show p < segment.firstPosition + segment.metadata.messages.length by
          have : p ≤ segment.lastPosition := hge
          omega)
      exact ⟨message, mem_messages.2 (Or.inl ⟨segment, hsegment, hmem⟩), hposition⟩
    · obtain ⟨hrun, hend⟩ := h.active_run hfirst hlast
      obtain ⟨message, hmem, hposition⟩ := hrun.exists_mem hle
        (show p < first.position + index.active.length by
          have : p ≤ last.position := hge
          omega)
      exact ⟨message, mem_messages.2 (Or.inr hmem), hposition⟩
  · rintro ⟨message, hmem, rfl⟩
    rcases mem_messages.1 hmem with ⟨segment, hsegment, hmessage⟩ | hactive
    · obtain ⟨hle, hge⟩ := (h.described segment hsegment).position_mem hmessage
      exact ⟨_, mem_spans.2 (Or.inl ⟨segment, hsegment, rfl⟩), hle, hge⟩
    · have hsome := List.ne_nil_of_mem hactive
      obtain ⟨hrun, hend⟩ := h.active_run (List.head?_eq_some_head hsome)
        (List.getLast?_eq_some_getLast hsome)
      have hrange := hrun.mem hactive
      exact ⟨_, mem_spans.2 (Or.inr ⟨_, _, List.head?_eq_some_head hsome,
        List.getLast?_eq_some_getLast hsome, rfl⟩), hrange.1,
        show message.position ≤ (index.active.getLast hsome).position by omega⟩

theorem WellFormed.ascending (h : index.WellFormed) : Ascending index.spans where
  nonempty span hspan := by
    rcases mem_spans.1 hspan with ⟨segment, hsegment, rfl⟩ | ⟨first, last, hfirst, hlast, rfl⟩
    · have hend := (h.described segment hsegment).lastPosition_eq
      have hpos := (h.described segment hsegment).count_pos
      show segment.firstPosition ≤ segment.lastPosition
      omega
    · obtain ⟨-, hend⟩ := h.active_run hfirst hlast
      have hpos := List.length_pos_of_mem (List.mem_of_mem_head? hfirst)
      show first.position ≤ last.position
      omega
  ordered := by
    unfold spans
    rw [List.pairwise_append, List.pairwise_map]
    refine ⟨h.sealed_precedes.imp And.left, ?_, ?_⟩
    · split <;> simp
    · intro a ha b hb
      obtain ⟨segment, hsegment, rfl⟩ := List.mem_map.1 ha
      obtain ⟨last, hlast, -, hposition, -⟩ := (h.described segment hsegment).last_mem
      split at hb
      · rename_i first final hfirst hfinal
        rw [List.mem_singleton.1 hb]
        show segment.lastPosition < first.position
        rw [hposition]
        exact (h.before_active hsegment hlast (List.mem_of_mem_head? hfirst)).1
      · simp at hb
  bounded span hspan := by
    rcases mem_spans.1 hspan with ⟨segment, hsegment, rfl⟩ | ⟨first, last, -, hlast, rfl⟩
    · obtain ⟨last, hlast, -, hposition, -⟩ := (h.described segment hsegment).last_mem
      show segment.lastPosition ≤ u64Max
      rw [hposition]
      exact (h.bounded last (mem_messages.2 (Or.inl ⟨segment, hsegment, hlast⟩))).2
    · exact (h.bounded last (mem_messages.2 (Or.inr (List.mem_of_getLast? hlast)))).2

/-- The gaps of an index as the ranges of a channel. -/
def absentRanges (index : MessageIndex) (hspans : Ascending index.spans) {lastPosition : ℕ}
    (hlast : lastPosition ≤ u64Max) : Ranges where
  toList := index.positionGaps lastPosition
  nonempty _ hgap :=
    ((mem_gapsBetween hspans (fun _ _ => Nat.le_add_left _ _) hlast).1 hgap).le
  ordered := (pairwise_gapsBetween hspans (fun _ _ => Nat.le_add_left _ _) hlast).imp
    fun hlt => Nat.lt_of_succ_lt hlt

end MessageIndex

/-- **Gap arithmetic is set arithmetic.**  The gaps of an index with ascending ranges are, in order,
the maximal intervals of positions from 1 on without a message, so a channel can take them.  A channel
with such ranges finds the end of the range of a position, counts the absent positions of a window, and
measures the distance of a position from the floor by the present positions between. -/
theorem gap_arithmetic :
    (∀ (index : MessageIndex) (lastPosition : ℕ), Ascending index.spans → lastPosition ≤ u64Max →
      (index.positionGaps lastPosition).Pairwise (fun a b => a.2 + 1 < b.1) ∧
      (∀ a b, (a, b) ∈ index.positionGaps lastPosition ↔ MaximalGap index.spans 1 lastPosition a b) ∧
      ∃ ranges : Ranges, ranges.toList = index.positionGaps lastPosition ∧
        ∀ range ∈ ranges.toList, 1 ≤ range.1) ∧
    (∀ index : MessageIndex, index.WellFormed → Ascending index.spans ∧
      ∀ p, Holds index.spans p ↔ ∃ message ∈ index.messages, message.position = p) ∧
    ∀ s : ChannelState, (∀ range ∈ s.absentRanges.toList, 1 ≤ range.1) →
      (∀ p last, s.absentRangeEnd p = some last ↔
        ∃ first, (first, last) ∈ s.absentRanges.toList ∧ first ≤ p ∧ p ≤ last) ∧
      (∀ first last, last ≤ u64Max → s.absentCount first last =
        ((Finset.Icc first last).filter fun p => p ∈ s.absentRanges).card) ∧
      ∀ p ≤ u64Max, s.presentDistance p =
        ((Finset.Ioc s.ackFloorPosition p).filter fun q => q ∉ s.absentRanges).card := by
  refine ⟨fun index lastPosition hspans hlast => ?_, fun index h => ⟨h.ascending, h.holds_iff⟩,
    fun s hstart => ⟨fun p last => Ranges.rangeEnd_eq_some, fun first last hlast =>
      Ranges.count_eq hstart hlast, fun p hp => Ranges.distance_eq hstart hp⟩⟩
  have hnext : ∀ span ∈ index.spans, 1 ≤ span.1 + 1 := fun _ _ => Nat.le_add_left _ _
  refine ⟨pairwise_gapsBetween hspans hnext hlast, fun a b => mem_gapsBetween hspans hnext hlast,
    index.absentRanges hspans hlast, rfl,
    fun range hrange => ((mem_gapsBetween hspans hnext hlast).1 hrange).start⟩

/-- One message at position 3. -/
theorem gap_arithmetic_one :
    ∃ (index : MessageIndex) (s : ChannelState), index.positionGaps 6 = [(1, 2), (4, 6)] ∧
      MaximalGap index.spans 1 6 4 6 ∧ s.absentRanges.toList = index.positionGaps 6 ∧
      s.presentDistance 5 =
        ((Finset.Ioc s.ackFloorPosition 5).filter fun q => q ∉ s.absentRanges).card := by
  let index : MessageIndex := ⟨[], [⟨3, 1, 0, 0, 1, ⟨1, 0, 1, 0⟩⟩], 1⟩
  have hspans : index.spans = [(3, 3)] := rfl
  have hascending : Ascending index.spans := by
    rw [hspans]
    exact ⟨by simp, by simp, by simp [u64Max]⟩
  obtain ⟨hgaps, -, hchannel⟩ := gap_arithmetic
  obtain ⟨-, hexact, ranges, hranges, hstart⟩ := hgaps index 6 hascending (by decide)
  let s : ChannelState := { ChannelState.new "workers" 0 false 16 with absentRanges := ranges }
  exact ⟨index, s, rfl, (hexact 4 6).1 (by decide), hranges, (hchannel s hstart).2.2 5 (by decide)⟩

end Topic

end RustQueue
