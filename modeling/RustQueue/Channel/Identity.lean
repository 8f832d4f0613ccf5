import RustQueue.Channel.Run

/-!
# What no operation of a channel changes

A channel keeps its name, its barrier and the position it counts its messages from for
life, and its floor never falls.  Its checkpoints are therefore always accepted by
`fromCheckpoint` (`Identified.fromCheckpoint_checkpoint`).
-/

namespace RustQueue.Channel

open Lib

namespace ChannelState

variable {s s' t : ChannelState}

/-- The same channel, not earlier in its life. -/
structure Later (s s' : ChannelState) : Prop where
  name : s'.name = s.name
  barrier : s'.barrierPosition = s.barrierPosition
  ephemeral : s'.ephemeral = s.ephemeral
  origin : s'.messageCountOriginPosition = s.messageCountOriginPosition
  floor : s.ackFloorPosition ≤ s'.ackFloorPosition

theorem Later.refl (s : ChannelState) : Later s s := ⟨rfl, rfl, rfl, rfl, le_rfl⟩

theorem Later.trans (h : Later s s') (h' : Later s' t) : Later s t :=
  ⟨h'.name.trans h.name, h'.barrier.trans h.barrier, h'.ephemeral.trans h.ephemeral,
    h'.origin.trans h.origin, h.floor.trans h'.floor⟩

/-! ### The operations -/

theorem later_advanceAckFloor (s : ChannelState) : Later s s.advanceAckFloor := by
  obtain ⟨floor, acked, heq, hle, -⟩ := s.advanceAckFloor_eq
  rw [heq]
  exact ⟨rfl, rfl, rfl, rfl, hle⟩

theorem later_acknowledge (s : ChannelState) (p : ℕ) : Later s (s.acknowledge p) := by
  obtain ⟨floor, acked, next, d, i, heq, hle, -⟩ := s.acknowledge_eq p
  rw [heq]
  exact ⟨rfl, rfl, rfl, rfl, hle⟩

theorem laterInvariant (s : ChannelState) : SearchInvariant (Later s) where
  cursor h _ _ := h.trans ⟨rfl, rfl, rfl, rfl, le_rfl⟩
  forget h _ _ := h.trans ⟨rfl, rfl, rfl, rfl, le_rfl⟩
  advance h := h.trans (later_advanceAckFloor _)
  acknowledge h _ := h.trans (later_acknowledge _ _)

theorem later_settle (s : ChannelState) (p : ℕ) (handout : Handout) :
    Later s (s.settle p handout) := by
  cases handout <;> exact ⟨rfl, rfl, rfl, rfl, le_rfl⟩

theorem LocalStep.later {answers : ℕ → MessageAvailability → Prop} (h : LocalStep answers s s') :
    Later s s' := by
  rcases h.kinds with hsearch | ⟨returned, hback⟩
  · cases hsearch with
    | deliver handout _ answer =>
      exact (s.laterInvariant.nextCandidate (.refl s) answer).trans (later_settle _ _ handout)
    | idle _ answer => exact s.laterInvariant.nextCandidate (.refl s) answer
  · obtain ⟨r, a, m, d, i, n, rfl⟩ := hback.rest
    exact ⟨rfl, rfl, rfl, rfl, le_rfl⟩

theorem later_apply (s : ChannelState) (command : ChannelCommand) : Later s (s.apply command) := by
  cases command with
  | finish position messageId => exact later_acknowledge s position
  | requeue position messageId available attempts count =>
    obtain ⟨d, i, hrem⟩ := s.removeInFlight_eq position
    simp only [apply, hrem]
    exact ⟨rfl, rfl, rfl, rfl, le_rfl⟩
  | empty through | evict through =>
    obtain ⟨m, d, i, heq, -⟩ := s.dropThrough_eq through
    simp only [apply, heq]
    exact ⟨rfl, rfl, rfl, rfl, le_max_left _ _⟩
  | pause paused | timeout count => exact ⟨rfl, rfl, rfl, rfl, le_rfl⟩

theorem later_setAbsentRanges (s : ChannelState) (ranges : Ranges) :
    Later s (s.setAbsentRanges ranges) := by
  obtain ⟨floor, acked, heq, hle, -⟩ := s.setAbsentRanges_eq ranges
  rw [heq]
  exact ⟨rfl, rfl, rfl, rfl, hle⟩

theorem later_replay (s : ChannelState) (commands : List ChannelCommand) :
    Later s (s.replay commands) := by
  induction commands generalizing s with
  | nil => exact Later.refl s
  | cons command commands ih => exact (later_apply s command).trans (ih (s.apply command))

theorem later_compactRecoveredDpubs {availableAt : ℕ → Except BrokerError (Option ℤ)}
    (h : s.compactRecoveredDpubs availableAt = .ok s') : Later s s' := by
  obtain ⟨redelivery, requeued, rfl, -⟩ := compactRecoveredDpubs_eq h
  exact ⟨rfl, rfl, rfl, rfl, le_rfl⟩

/-! ### Checkpoints of a live channel -/

/-- The floor is at or above the barrier, which is at or above the origin. -/
structure Identified (s : ChannelState) (name : String) (barrierPosition : ℕ) : Prop where
  name : s.name = name
  barrier : s.barrierPosition = barrierPosition
  floor : barrierPosition ≤ s.ackFloorPosition
  origin : s.messageCountOriginPosition ≤ barrierPosition

theorem Identified.later {name : String} {barrierPosition : ℕ}
    (h : s.Identified name barrierPosition) (h' : Later s s') :
    s'.Identified name barrierPosition :=
  ⟨h'.name.trans h.name, h'.barrier.trans h.barrier, h.floor.trans h'.floor,
    h'.origin.trans_le h.origin⟩

theorem identified_new (name : String) (barrierPosition : ℕ) (ephemeral : Bool) (maxAckGap : ℕ) :
    (new name barrierPosition ephemeral maxAckGap).Identified name barrierPosition :=
  ⟨rfl, rfl, le_rfl, le_rfl⟩

theorem identified_load {checkpoint : ChannelCheckpoint} {maxAckGap : ℕ}
    (h : fromCheckpoint checkpoint maxAckGap = .ok s) :
    (load checkpoint maxAckGap).Identified checkpoint.name checkpoint.barrierPosition := by
  unfold fromCheckpoint at h
  split_ifs at h with hvalid
  obtain ⟨-, hfloor, horigin⟩ := not_or.1 hvalid |>.imp id not_or.1
  exact ⟨rfl, rfl, not_lt.1 hfloor, not_lt.1 horigin⟩

theorem Identified.fromCheckpoint_checkpoint {name : String} {barrierPosition : ℕ}
    (h : s.Identified name barrierPosition) (maxAckGap : ℕ) :
    fromCheckpoint s.checkpoint maxAckGap = .ok (load s.checkpoint maxAckGap) := by
  refine if_neg ?_
  have hfloor := h.floor
  have horigin := h.origin
  rw [← h.barrier] at hfloor horigin
  simp only [checkpoint, originPosition, Option.getD_some, not_or, not_lt]
  exact ⟨by simp, hfloor, horigin⟩

end ChannelState

end RustQueue.Channel
