import RustQueue.Channel.Flights

/-!
# Runs of a channel

`LocalStep` is one operation of a live channel that leaves no trace in its log, and `Step`
adds the durable commands.  A candidate that is ready is reserved or handed back in the
same step, as every caller does under the topic lock.  The step is
parametrised by the answers a lookup may give for a position, so that one development can
fix the availability time of each message and another can fix which messages exist.

`Opening` is a channel before its first operation: new, or loaded from a checkpoint with its
log replayed, and then given absent ranges and relieved of copied deadlines in any order.
-/

namespace RustQueue.Channel

open Lib

namespace ChannelState

/-- What a caller does with a ready position. -/
inductive Handout where
  | reserve (id : ℕ) (timestampNs : ℤ) (deadline token : ℕ)
  | defer

/-- Hands a ready position out, or back. -/
def settle (s : ChannelState) (position : ℕ) : Handout → ChannelState
  | .reserve id timestampNs deadline token =>
    (s.reserveTimestamped position id timestampNs deadline token).1
  | .defer => s.deferCandidate position

/-- Every answer of the lookup is one that `answers` allows. -/
def Admissible {σ : Type*} (answers : ℕ → MessageAvailability → Prop)
    (availableAt : σ → ℕ → MessageAvailability × σ) : Prop :=
  ∀ e p, answers p (availableAt e p).1

/-- A search, whose ready position is handed out or back. -/
inductive Search (answers : ℕ → MessageAvailability → Prop) : ChannelState → ChannelState → Prop
  | deliver {s s' : ChannelState} {σ : Type} {availableAt : σ → ℕ → MessageAvailability × σ}
      {e e' : σ} {nowMs : ℤ} {lastPosition position : ℕ} (handout : Handout)
      (admissible : Admissible answers availableAt)
      (answer : s.nextCandidate nowMs lastPosition availableAt e = some (.ready position, s', e')) :
      Search answers s (s'.settle position handout)
  | idle {s s' : ChannelState} {σ : Type} {availableAt : σ → ℕ → MessageAvailability × σ}
      {e e' : σ} {nowMs : ℤ} {lastPosition : ℕ} {candidate : NextCandidate}
      (admissible : Admissible answers availableAt)
      (answer : s.nextCandidate nowMs lastPosition availableAt e = some (candidate, s', e'))
      (notReady : ∀ position, candidate ≠ .ready position) : Search answers s s'

/-- One operation of a live channel that its log does not record. -/
inductive LocalStep (answers : ℕ → MessageAvailability → Prop) :
    ChannelState → ChannelState → Prop
  | search {s s' : ChannelState} (h : Search answers s s') : LocalStep answers s s'
  | cancel (s : ChannelState) (position token : ℕ) : LocalStep answers s (s.cancel position token)
  | release (s : ChannelState) (position : ℕ) : LocalStep answers s (s.release position)
  | releaseAll (s : ChannelState) : LocalStep answers s s.releaseAll.1
  | expire (s : ChannelState) (now : ℕ) :
      LocalStep answers s (s.expirePositions (s.expiredPositions now))
  | touch (s : ChannelState) (position deadline : ℕ) :
      LocalStep answers s (s.touchUntil position deadline).2
  | countTimeouts (s : ChannelState) (count : ℕ) :
      LocalStep answers s { s with timeoutCount := count }

/-- A requeue command names a position in flight, as its callers check. -/
def Holds (s : ChannelState) (command : ChannelCommand) : Prop :=
  ∀ position messageId availableAtMs attempts count,
    command = .requeue position messageId availableAtMs attempts count → position ∈ s.inFlight

/-- One operation of a live channel. -/
inductive Step (answers : ℕ → MessageAvailability → Prop) : ChannelState → ChannelState → Prop
  | inMemory {s s' : ChannelState} (h : LocalStep answers s s') : Step answers s s'
  | apply (s : ChannelState) (command : ChannelCommand) (held : s.Holds command) :
      Step answers s (s.apply command)

/-- The effect of a log on a state. -/
def replay (s : ChannelState) (commands : List ChannelCommand) : ChannelState :=
  commands.foldl apply s

/-- A channel that is being opened. -/
inductive Opening : ChannelState → Prop
  | created (name : String) (barrierPosition : ℕ) (ephemeral : Bool) (maxAckGap : ℕ) :
      Opening (new name barrierPosition ephemeral maxAckGap)
  | loaded {checkpoint : ChannelCheckpoint} {maxAckGap : ℕ} {s : ChannelState}
      (valid : fromCheckpoint checkpoint maxAckGap = .ok s) (commands : List ChannelCommand) :
      Opening (s.replay commands)
  | absent {s : ChannelState} (h : Opening s) (ranges : Ranges) :
      Opening (s.setAbsentRanges ranges)
  | compacted {s s' : ChannelState} {availableAt : ℕ → Except BrokerError (Option ℤ)}
      (h : Opening s) (ok : s.compactRecoveredDpubs availableAt = .ok s') : Opening s'

/-- A new or recovered channel after any number of operations. -/
inductive Reachable (answers : ℕ → MessageAvailability → Prop) : ChannelState → Prop
  | opened {s : ChannelState} (h : Opening s) : Reachable answers s
  | step {s s' : ChannelState} (h : Reachable answers s) (step : Step answers s s') :
      Reachable answers s'

/-! ### The kinds of operations outside the log -/

/-- The deliveries at `returned` come back from flight, and the rest of the channel but the
attempts, the deadlines and the timeouts stays. -/
structure Returned (returned : List ℕ) (s s' : ChannelState) : Prop where
  rest : ∃ redelivery attempts flights deadlines ids timeouts, s' =
    { s with
      redelivery := redelivery
      attempts := attempts
      inFlight := flights
      inFlightDeadlines := deadlines
      inFlightIds := ids
      timeoutCount := timeouts }
  flight : ∀ q, q ∈ s'.inFlight ↔ q ∈ s.inFlight ∧ q ∉ returned
  redelivery : ∀ q, q ∈ s'.redelivery ↔ q ∈ s.redelivery ∨ q ∈ returned
  held : s.Indexed → ∀ q ∈ returned, q ∈ s.inFlight
  indexed : s.Indexed → s'.Indexed

theorem Returned.refl (s : ChannelState) : Returned [] s s :=
  ⟨⟨_, _, _, _, _, _, rfl⟩, by simp, by simp, by simp, id⟩

theorem returned_cancel (s : ChannelState) (p token : ℕ) :
    ∃ returned, Returned returned s (s.cancel p token) := by
  have hindexed := fun h : s.Indexed => indexedInvariant.cancel h p token
  rcases s.cancel_eq p token with heq | ⟨hp, a, d, i, heq⟩
  · exact ⟨[], by rw [heq]; exact .refl s⟩
  · rw [heq] at hindexed ⊢
    exact ⟨[p], ⟨_, _, _, _, _, _, rfl⟩, by grind, by simp [or_comm],
      fun _ => by simpa using hp, hindexed⟩

theorem returned_release (s : ChannelState) (p : ℕ) :
    ∃ returned, Returned returned s (s.release p) := by
  have hindexed := fun h : s.Indexed => indexedInvariant.release h p
  rcases s.release_eq p with heq | ⟨hp, d, i, heq⟩
  · exact ⟨[], by rw [heq]; exact .refl s⟩
  · rw [heq] at hindexed ⊢
    exact ⟨[p], ⟨_, _, _, _, _, _, rfl⟩, by grind, by simp [or_comm],
      fun _ => by simpa using hp, hindexed⟩

theorem returned_expirePositions (s : ChannelState) {ps : List ℕ}
    (held : s.Indexed → ∀ q ∈ ps, q ∈ s.inFlight) : Returned ps s (s.expirePositions ps) := by
  have hindexed := fun h : s.Indexed => indexedInvariant.expirePositions h ps
  obtain ⟨m, d, i, heq, hm⟩ := s.expirePositions_eq ps
  rw [heq] at hindexed ⊢
  exact ⟨⟨_, _, _, _, _, _, rfl⟩, hm, by simp, held, hindexed⟩

theorem LocalStep.kinds {answers : ℕ → MessageAvailability → Prop} {s s' : ChannelState}
    (h : LocalStep answers s s') : Search answers s s' ∨ ∃ returned, Returned returned s s' := by
  cases h with
  | search h => exact Or.inl h
  | cancel position token => exact Or.inr (s.returned_cancel position token)
  | release position => exact Or.inr (s.returned_release position)
  | releaseAll => exact Or.inr ⟨s.inFlight.keys, s.returned_expirePositions (by simp)⟩
  | expire now => exact Or.inr ⟨_, s.returned_expirePositions fun h => h.expiredPositions now⟩
  | touch position deadline =>
    have hindexed := fun h : s.Indexed => h.touchUntil position deadline
    obtain ⟨m, d, heq, hm⟩ := s.touchUntil_eq position deadline
    rw [heq] at hindexed ⊢
    exact Or.inr ⟨[], ⟨_, _, _, _, _, _, rfl⟩, by simpa using hm, by simp, by simp, hindexed⟩
  | countTimeouts count =>
    exact Or.inr ⟨[], ⟨_, _, _, _, _, _, rfl⟩, by simp, by simp, by simp, fun h => h.of_eq rfl rfl⟩

/-! ### What a lookup can answer inside a call -/

theorem Admissible.answer {σ : Type*} {answers : ℕ → MessageAvailability → Prop}
    {availableAt : σ → ℕ → MessageAvailability × σ} (h : Admissible answers availableAt)
    {e e' : σ} {p : ℕ} {a : MessageAvailability} (ha : availableAt e p = (a, e')) :
    answers p a := by
  have := h e p
  rwa [ha] at this

end ChannelState

end RustQueue.Channel
