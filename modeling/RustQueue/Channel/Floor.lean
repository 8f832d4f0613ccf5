import RustQueue.Channel.Run

/-!
# Where the acknowledgement floor stops

`CanonicalFloor` is the normal form of a floor with its sparse acknowledgements: the floor
stops in front of a position that is neither acknowledged nor absent, and what is sparse lies
above the floor and outside the absent ranges.  Every scan of the floor restores it
(`advanceAckFloor_canonical`), so acknowledgements, the candidate search and the installation
of ranges keep it.

`Empty` and `Evict` raise the floor to a given position without a scan.  `Aligned` says that a
command does not land the floor in front of a sparse acknowledgement or an absent range, and
`apply_canonical_iff` that the normal form survives a command exactly then.  `Alive` is the
life of a channel over any number of restarts, with the commands an operator may give as a
parameter.
-/

namespace RustQueue.Channel

open Lib

namespace ChannelState

/-- Every sparse acknowledgement lies above the floor and outside the ranges. -/
def SparseAbove (ranges : Ranges) (floor : ℕ) (acked : Finset ℕ) : Prop :=
  ∀ p ∈ acked, floor < p ∧ p ∉ ranges

/-- The normal form of a floor with its sparse acknowledgements. -/
structure CanonicalFloor (ranges : Ranges) (floor : ℕ) (acked : Finset ℕ) : Prop where
  settled : FloorSettled ranges floor acked
  sparse : SparseAbove ranges floor acked

/-- The floor of a channel is in normal form. -/
def Canonical (s : ChannelState) : Prop :=
  CanonicalFloor s.absentRanges s.ackFloorPosition s.acknowledged

variable {s : ChannelState}

/-- The floor ends the run of positions that are done: whatever lies above it has a position
in between that is neither acknowledged nor absent. -/
theorem Canonical.maximal (h : s.Canonical) {last : ℕ} (hlast : s.ackFloorPosition < last)
    (hword : last ≤ u64Max) : ∃ p, s.ackFloorPosition < p ∧ p ≤ last ∧ ¬s.Acked p ∧ ¬s.Absent p := by
  have hnext : satSucc s.ackFloorPosition = s.ackFloorPosition + 1 := satSucc_eq (by omega)
  rcases h.settled with hstop | ⟨hranges, hacked⟩
  · omega
  · refine ⟨satSucc s.ackFloorPosition, by omega, by omega, ?_, hranges⟩
    rintro (hle | hmem)
    · omega
    · exact hacked hmem

/-! ### A scan of the floor -/

theorem advanceTurn_sparse (ranges : Ranges) (state : ℕ × Finset ℕ)
    (h : SparseAbove ranges state.1 state.2) :
    (advanceTurn ranges state).Keeps (fun state => SparseAbove ranges state.1 state.2) fun state =>
      SparseAbove ranges state.1 state.2 := by
  fun_cases advanceTurn ranges state with
  | case1 | case4 => exact h
  | case2 floor acked next hstop last hlast =>
    -- the range begins right above the floor, so a position outside lies behind its end
    refine fun p hp => ⟨?_, (h p hp).2⟩
    by_contra hle
    have hnext : next ≤ p := satSucc_le_of_lt (h p hp).1
    exact (h p hp).2 (Ranges.mem_of_rangeEnd hlast hnext (not_lt.1 hle))
  | case3 floor acked next hstop hnone hmem =>
    intro p hp
    obtain ⟨hne, hp⟩ := Finset.mem_erase.1 hp
    have hnext : next ≤ p := satSucc_le_of_lt (h p hp).1
    exact ⟨lt_of_le_of_ne hnext (Ne.symm hne), (h p hp).2⟩

theorem advanceAckFloor_canonical (h : SparseAbove s.absentRanges s.ackFloorPosition s.acknowledged) :
    s.advanceAckFloor.Canonical := by
  obtain ⟨_, -, hends⟩ := s.advanceAckFloor_ends
  have hsparse := hends.rule (advanceTurn_sparse s.absentRanges) h
  exact ⟨s.advanceAckFloor_settled, hsparse⟩

/-! ### Commands -/

theorem acknowledge_of_le {p : ℕ} (h : p ≤ s.ackFloorPosition) :
    s.acknowledge p = s.clearPending p := by
  obtain ⟨d, i, hclear⟩ := s.clearPending_eq p
  have hle : p ≤ (s.clearPending p).ackFloorPosition := by
    rw [hclear]
    exact h
  rw [acknowledge, if_pos hle]

/-- Above the floor an acknowledgement is recorded and the floor is scanned. -/
theorem acknowledge_of_lt {p : ℕ} (h : s.ackFloorPosition < p) :
    ∃ t : ChannelState, s.acknowledge p = t.advanceAckFloor ∧
      t.absentRanges = s.absentRanges ∧ t.ackFloorPosition = s.ackFloorPosition ∧
      t.acknowledged = insert p s.acknowledged := by
  obtain ⟨d, i, hclear⟩ := s.clearPending_eq p
  have hlt : ¬p ≤ (s.clearPending p).ackFloorPosition := by
    rw [hclear]
    exact not_le.2 h
  refine ⟨{ s.clearPending p with acknowledged := insert p (s.clearPending p).acknowledged },
    ?_, ?_, ?_, ?_⟩
  · rw [acknowledge, if_neg hlt]
  · rw [hclear]
  · rw [hclear]
  · rw [hclear]

theorem acknowledge_canonical_iff (hs : s.Canonical) (p : ℕ) :
    (s.acknowledge p).Canonical ↔ p ≤ s.ackFloorPosition ∨ ¬s.Absent p := by
  by_cases hp : p ≤ s.ackFloorPosition
  · obtain ⟨d, i, hclear⟩ := s.clearPending_eq p
    rw [acknowledge_of_le hp, hclear]
    exact ⟨fun _ => Or.inl hp, fun _ => hs⟩
  · obtain ⟨t, ht, hranges, hfloor, hacked⟩ := acknowledge_of_lt (not_le.1 hp)
    rw [ht]
    constructor
    · intro hcanonical
      refine Or.inr fun habsent => ?_
      -- the floor does not move: its successor is neither `p` nor anything acknowledged
      have hsettled : FloorSettled t.absentRanges t.ackFloorPosition t.acknowledged := by
        rw [hranges, hfloor, hacked]
        rcases hs.settled with hstop | ⟨hnext, hsparse⟩
        · exact Or.inl hstop
        · refine Or.inr ⟨hnext, fun hmem => ?_⟩
          rcases Finset.mem_insert.1 hmem with heq | hmem
          · exact hnext (heq ▸ habsent)
          · exact hsparse hmem
      have hmem : p ∈ t.advanceAckFloor.acknowledged := by
        rw [advanceAckFloor_of_settled hsettled, hacked]
        exact Finset.mem_insert_self _ _
      refine (hcanonical.sparse p hmem).2 ?_
      show p ∈ t.absentRanges
      rw [hranges]
      exact habsent
    · intro hpresent
      apply advanceAckFloor_canonical
      rw [hranges, hfloor, hacked]
      intro q hq
      rcases Finset.mem_insert.1 hq with rfl | hq
      · exact ⟨not_le.1 hp, hpresent.resolve_left hp⟩
      · exact hs.sparse q hq

theorem dropThrough_canonical_iff (hs : s.Canonical) (through : ℕ) :
    (s.dropThrough through).Canonical ↔
      through ≤ s.ackFloorPosition ∨ FloorSettled s.absentRanges through s.acknowledged := by
  obtain ⟨m, d, i, hdrop, _⟩ := s.dropThrough_eq through
  rw [hdrop]
  show CanonicalFloor s.absentRanges (max s.ackFloorPosition through)
    (s.acknowledged.filter (through < ·)) ↔ _
  by_cases hle : through ≤ s.ackFloorPosition
  · have hfilter : s.acknowledged.filter (through < ·) = s.acknowledged :=
      Finset.filter_true_of_mem fun p hp => hle.trans_lt (hs.sparse p hp).1
    rw [max_eq_left hle, hfilter]
    exact ⟨fun _ => Or.inl hle, fun _ => hs⟩
  · have hlt := not_le.1 hle
    rw [max_eq_right hlt.le]
    constructor
    · intro hcanonical
      right
      by_cases hstop : satSucc through = through
      · exact Or.inl hstop
      · have hnext : through < satSucc through := lt_of_le_of_ne (le_satSucc _) (Ne.symm hstop)
        obtain ⟨hranges, hfilter⟩ := hcanonical.settled.resolve_left hstop
        exact Or.inr ⟨hranges, fun hmem => hfilter (Finset.mem_filter.2 ⟨hmem, hnext⟩)⟩
    · intro haligned
      constructor
      · rcases haligned.resolve_left hle with hstop | ⟨hranges, hacked⟩
        · exact Or.inl hstop
        · exact Or.inr ⟨hranges, fun hmem => hacked (Finset.mem_filter.1 hmem).1⟩
      · intro p hp
        obtain ⟨hmem, hp⟩ := Finset.mem_filter.1 hp
        exact ⟨hp, (hs.sparse p hmem).2⟩

/-- The command leaves the floor in front of a position that is not done.  `Empty` and
`Evict` may raise the floor only to a position whose successor is neither acknowledged nor
absent, and `Finish` may not name an absent position above the floor. -/
def Aligned (s : ChannelState) : ChannelCommand → Prop
  | .finish position _ => position ≤ s.ackFloorPosition ∨ ¬s.Absent position
  | .empty throughPosition | .evict throughPosition =>
    throughPosition ≤ s.ackFloorPosition ∨
      FloorSettled s.absentRanges throughPosition s.acknowledged
  | .requeue .. | .pause _ | .timeout _ => True

theorem apply_canonical_iff (hs : s.Canonical) (command : ChannelCommand) :
    (s.apply command).Canonical ↔ s.Aligned command := by
  cases command with
  | finish position _ => exact acknowledge_canonical_iff hs position
  | requeue position messageId availableAtMs attempts count =>
    obtain ⟨d, i, hrem⟩ := s.removeInFlight_eq position
    simp only [apply, hrem]
    exact ⟨fun _ => trivial, fun _ => hs⟩
  | pause paused => exact ⟨fun _ => trivial, fun _ => hs⟩
  | empty through => exact dropThrough_canonical_iff hs through
  | evict through => exact dropThrough_canonical_iff hs through
  | timeout count => exact ⟨fun _ => trivial, fun _ => hs⟩

/-! ### Operations without a log record -/

/-- The search for a candidate keeps the normal form, whatever it answers. -/
theorem canonicalInvariant : SearchInvariant Canonical where
  cursor hs _ _ := hs
  forget hs _ _ := hs
  advance hs := advanceAckFloor_canonical hs.sparse
  acknowledge hs hpresent := (acknowledge_canonical_iff hs _).2 (Or.inr hpresent)

theorem LocalStep.canonical {answers : ℕ → MessageAvailability → Prop} {s' : ChannelState}
    (h : LocalStep answers s s') (hs : s.Canonical) : s'.Canonical := by
  rcases h.kinds with hsearch | ⟨returned, hback⟩
  · cases hsearch with
    | deliver handout _ answer =>
      have hs' := canonicalInvariant.nextCandidate hs answer
      cases handout with
      | reserve => exact hs'
      | defer => exact hs'
    | idle _ answer => exact canonicalInvariant.nextCandidate hs answer
  · obtain ⟨r, a, m, d, i, n, rfl⟩ := hback.rest
    exact hs

/-! ### Recovery -/

/-- The sparse acknowledgements lie above the floor, whatever is absent. -/
def AckedAbove (s : ChannelState) : Prop := ∀ p ∈ s.acknowledged, s.ackFloorPosition < p

theorem Canonical.ackedAbove (h : s.Canonical) : s.AckedAbove :=
  fun p hp => (h.sparse p hp).1

theorem setAbsentRanges_canonical (h : s.AckedAbove) (ranges : Ranges) :
    (s.setAbsentRanges ranges).Canonical := by
  refine advanceAckFloor_canonical fun p hp => ?_
  obtain ⟨hmem, hp⟩ := Finset.mem_filter.1 hp
  exact ⟨h p hmem, fun habsent => hp (Ranges.contains_iff.2 habsent)⟩

/-- A replayed command finds no ranges installed, so it keeps the acknowledgements above the
floor wherever it lands. -/
theorem apply_ackedAbove (hs : s.AckedAbove) (hnone : s.absentRanges = .none) (command : ChannelCommand) :
    (s.apply command).AckedAbove ∧ (s.apply command).absentRanges = .none := by
  cases command with
  | finish position messageId =>
    by_cases hp : position ≤ s.ackFloorPosition
    · obtain ⟨d, i, hclear⟩ := s.clearPending_eq position
      rw [apply, acknowledge_of_le hp, hclear]
      exact ⟨hs, hnone⟩
    · obtain ⟨t, ht, hranges, hfloor, hacked⟩ := acknowledge_of_lt (not_le.1 hp)
      rw [apply, ht]
      have hsparse : SparseAbove t.absentRanges t.ackFloorPosition t.acknowledged := by
        rw [hranges, hfloor, hacked, hnone]
        intro q hq
        refine ⟨?_, Ranges.not_mem_none q⟩
        rcases Finset.mem_insert.1 hq with rfl | hq
        · exact not_le.1 hp
        · exact hs q hq
      exact ⟨(advanceAckFloor_canonical hsparse).ackedAbove, hranges.trans hnone⟩
  | requeue position messageId availableAtMs attempts count =>
    obtain ⟨d, i, hrem⟩ := s.removeInFlight_eq position
    simp only [apply, hrem]
    exact ⟨hs, hnone⟩
  | pause paused => exact ⟨hs, hnone⟩
  | empty through | evict through =>
    obtain ⟨m, d, i, hdrop, _⟩ := s.dropThrough_eq through
    rw [apply, hdrop]
    refine ⟨fun p hp => ?_, hnone⟩
    obtain ⟨hmem, hp⟩ := Finset.mem_filter.1 hp
    exact max_lt (hs p hmem) hp
  | timeout count => exact ⟨hs, hnone⟩

theorem replay_ackedAbove (hs : s.AckedAbove) (hnone : s.absentRanges = .none)
    (commands : List ChannelCommand) : (s.replay commands).AckedAbove := by
  induction commands generalizing s with
  | nil => exact hs
  | cons command commands ih =>
    obtain ⟨habove, hnone'⟩ := apply_ackedAbove hs hnone command
    exact ih habove hnone'

/-! ### Whole lives -/

/-- The life of a channel: created, run, and loaded again from a checkpoint that it wrote at
some time, with any log replayed over it before the ranges are installed.  `Allowed` says
which commands the topic gives it. -/
inductive Alive (Allowed : ChannelState → ChannelCommand → Prop)
    (answers : ℕ → MessageAvailability → Prop) : ChannelState → Prop
  | created (name : String) (barrierPosition : ℕ) (ephemeral : Bool) (maxAckGap : ℕ) :
      Alive Allowed answers (new name barrierPosition ephemeral maxAckGap)
  | absent {s : ChannelState} (h : Alive Allowed answers s) (ranges : Ranges) :
      Alive Allowed answers (s.setAbsentRanges ranges)
  | inMemory {s s' : ChannelState} (h : Alive Allowed answers s) (step : LocalStep answers s s') :
      Alive Allowed answers s'
  | apply {s : ChannelState} (h : Alive Allowed answers s) (command : ChannelCommand)
      (allowed : Allowed s command) : Alive Allowed answers (s.apply command)
  | recovered {s t : ChannelState} (h : Alive Allowed answers s) {maxAckGap : ℕ}
      (valid : fromCheckpoint s.checkpoint maxAckGap = .ok t) (commands : List ChannelCommand)
      (ranges : Ranges) : Alive Allowed answers ((t.replay commands).setAbsentRanges ranges)
  | compacted {s s' : ChannelState} {availableAt : ℕ → Except BrokerError (Option ℤ)}
      (h : Alive Allowed answers s) (ok : s.compactRecoveredDpubs availableAt = .ok s') :
      Alive Allowed answers s'

theorem Alive.canonical {answers : ℕ → MessageAvailability → Prop} (h : Alive Aligned answers s) :
    s.Canonical := by
  induction h with
  | created name barrierPosition ephemeral maxAckGap =>
    refine ⟨Or.inr ⟨Ranges.not_mem_none _, Finset.notMem_empty _⟩, fun p hp => ?_⟩
    exact absurd hp (Finset.notMem_empty p)
  | absent _ ranges ih => exact setAbsentRanges_canonical ih.ackedAbove ranges
  | inMemory _ step ih => exact step.canonical ih
  | apply _ command allowed ih => exact (apply_canonical_iff ih command).2 allowed
  | @recovered s t _ maxAckGap valid commands ranges ih =>
    -- a checkpoint holds the floor and the acknowledgements as they are, without the ranges
    have hload : (load s.checkpoint maxAckGap).AckedAbove := ih.ackedAbove
    rw [fromCheckpoint_eq valid]
    exact setAbsentRanges_canonical (replay_ackedAbove hload rfl commands) ranges
  | compacted _ ok ih =>
    obtain ⟨r, m, heq, _⟩ := compactRecoveredDpubs_eq ok
    rw [heq]
    exact ih

/-- **Where the floor is maximal.**  In a life whose commands are all aligned the floor of
every state stops in front of a position that is neither acknowledged nor absent, and what is
sparse lies above it and outside the ranges.  A single command breaks this form exactly if it
is not aligned. -/
theorem floor_maximal (answers : ℕ → MessageAvailability → Prop) :
    (∀ s, Alive Aligned answers s →
      (s.ackFloorPosition < u64Max →
        s.ackFloorPosition + 1 ∉ s.acknowledged ∧ s.isAbsent (s.ackFloorPosition + 1) = false) ∧
      (∀ p ∈ s.acknowledged, s.ackFloorPosition < p ∧ s.isAbsent p = false) ∧
      ∀ last ≤ u64Max, s.ackFloorPosition < last →
        ∃ p, s.ackFloorPosition < p ∧ p ≤ last ∧ s.isUnacknowledged p = true ∧
          s.isAbsent p = false) ∧
    ∀ s : ChannelState, s.Canonical → ∀ command, (s.apply command).Canonical ↔ s.Aligned command := by
  refine ⟨fun s h => ?_, fun s hs command => apply_canonical_iff hs command⟩
  have hs := h.canonical
  have hpresent : ∀ {p}, ¬s.Absent p → s.isAbsent p = false := by
    intro p hp
    rwa [← Bool.not_eq_true, isAbsent_iff]
  refine ⟨fun hword => ?_, fun p hp => ?_, fun last hlast hlt => ?_⟩
  · have hnext : satSucc s.ackFloorPosition = s.ackFloorPosition + 1 := satSucc_eq hword
    have hsettled := hs.settled
    unfold FloorSettled at hsettled
    rw [hnext] at hsettled
    rcases hsettled with hstop | ⟨hranges, hacked⟩
    · omega
    · exact ⟨hacked, hpresent hranges⟩
  · exact ⟨(hs.sparse p hp).1, hpresent (hs.sparse p hp).2⟩
  · obtain ⟨p, h1, h2, h3, h4⟩ := hs.maximal hlt hlast
    exact ⟨p, h1, h2, isUnacknowledged_iff.2 h3, hpresent h4⟩

/-- Message 4 is finished out of order, then the messages through 2 are evicted.  The floor stops in
front of message 3, which is not done. -/
theorem floor_maximal_evicted :
    ∃ s : ChannelState, Alive Aligned (fun _ _ => True) s ∧ s.ackFloorPosition = 2 ∧
      s.acknowledged = {4} ∧ 3 ∉ s.acknowledged ∧ s.isAbsent 3 = false := by
  have hcreated : Alive Aligned (fun _ _ => True) (new "workers" 0 false 8) :=
    .created "workers" 0 false 8
  have hfinished := hcreated.apply (.finish 4 40) (Or.inr (Ranges.not_mem_none 4))
  have hevicted := hfinished.apply (.evict 2)
    (Or.inr (Or.inr ⟨Ranges.not_mem_none 3, show 3 ∉ ({4} : Finset ℕ) by decide⟩))
  have hnext := ((floor_maximal fun _ _ => True).1 _ hevicted).1 (show 2 < u64Max by decide)
  exact ⟨_, hevicted, rfl, rfl, hnext.1, hnext.2⟩

/-- Message 3 is finished out of order, then the messages through 2 are evicted.  The floor
stops at 2, although 3 is acknowledged. -/
theorem floor_below_acknowledged :
    ∃ s : ChannelState, Alive (fun _ _ => True) (fun _ _ => True) s ∧ s.ackFloorPosition = 2 ∧
      s.ackFloorPosition + 1 ∈ s.acknowledged := by
  have hcreated : Alive (fun _ _ => True) (fun _ _ => True) (new "workers" 0 false 8) :=
    .created "workers" 0 false 8
  have hfinished := hcreated.apply (.finish 3 30) trivial
  exact ⟨_, hfinished.apply (.evict 2) trivial, by decide, by decide⟩

end ChannelState

end RustQueue.Channel
