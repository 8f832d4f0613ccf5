import Mathlib.Data.Finset.Sort
import Mathlib.Data.Prod.Lex
import RustQueue.Error
import RustQueue.Lib.Loop
import RustQueue.Lib.Ranges

/-!
# The state of one channel

`ChannelState` is the in-memory state of a channel: the acknowledgement floor with the
sparse acknowledgements above it, the delivery cursor `nextPosition`, the positions in
flight with their three indexes, the redelivery set with the requeue deadlines, and the
one-slot rewind point `deferredScan`.  The operations below are the methods of the source
in the same order, each as a function from state to state.

A `u64` is a natural number with its saturating operations written out, an `i64` an
integer, and an `Instant` a natural number.  The tokens that the source takes from a
global counter and the instants that it reads from a clock are arguments.  `BTreeSet` is
`Finset`; `BTreeMap` and `HashMap` are `Std.ExtTreeMap`, since no method observes the
iteration order of a hash map.  The delivery lease of an in-flight entry is left out.
-/

namespace RustQueue.Channel

open Lib

/-- A durable command of a channel's write-ahead log. -/
inductive ChannelCommand where
  | finish (position messageId : ℕ)
  | requeue (position messageId : ℕ) (availableAtMs : ℤ) (attempts : ℕ)
      (cumulativeCount : Option ℕ)
  | pause (paused : Bool)
  | empty (throughPosition : ℕ)
  | evict (throughPosition : ℕ)
  | timeout (cumulativeCount : ℕ)
  deriving DecidableEq, Repr

/-- What a checkpoint file holds. -/
structure ChannelCheckpoint where
  format : ℕ
  name : String
  barrierPosition : ℕ
  ackFloorPosition : ℕ
  acknowledged : Finset ℕ
  requeuedUntil : Std.ExtTreeMap ℕ ℤ
  attempts : Std.ExtTreeMap ℕ ℕ
  messageCountOriginPosition : Option ℕ
  requeueCount : ℕ
  timeoutCount : ℕ
  paused : Bool
  ephemeral : Bool
  deriving DecidableEq

/-- A delivery that has been handed out. -/
structure InFlight where
  id : ℕ
  timestampNs : ℤ
  deadline : ℕ
  token : ℕ
  deriving DecidableEq, Repr

/-- An entry of the deadline index, in the order of the index. -/
abbrev DeadlineKey := ℕ ×ₗ ℕ ×ₗ ℕ

/-- The index entry of a delivery. -/
def deadlineKey (deadline position token : ℕ) : DeadlineKey :=
  toLex (deadline, toLex (position, token))

/-- The entries of a deadline index up to an instant, in index order. -/
def dueKeys (deadlines : Finset DeadlineKey) (now : ℕ) : List DeadlineKey :=
  (deadlines.filter fun key => (ofLex key).1 ≤ now).sort (· ≤ ·)

theorem mem_dueKeys {deadlines : Finset DeadlineKey} {now : ℕ} {key : DeadlineKey} :
    key ∈ dueKeys deadlines now ↔ key ∈ deadlines ∧ (ofLex key).1 ≤ now := by
  rw [dueKeys, Finset.mem_sort, Finset.mem_filter]

theorem nodup_dueKeys (deadlines : Finset DeadlineKey) (now : ℕ) : (dueKeys deadlines now).Nodup :=
  Finset.sort_nodup _ _

/-- The in-memory state of a channel. -/
structure ChannelState where
  name : String
  barrierPosition : ℕ
  ackFloorPosition : ℕ
  acknowledged : Finset ℕ
  requeuedUntil : Std.ExtTreeMap ℕ ℤ
  paused : Bool
  ephemeral : Bool
  messageCountOriginPosition : ℕ
  nextPosition : ℕ
  deferredScan : Option (ℕ × ℤ)
  inFlight : Std.ExtTreeMap ℕ InFlight
  inFlightIds : Std.ExtTreeMap ℕ ℕ
  inFlightDeadlines : Finset DeadlineKey
  redelivery : Finset ℕ
  attempts : Std.ExtTreeMap ℕ ℕ
  maxAckGap : ℕ
  requeueCount : ℕ
  timeoutCount : ℕ
  absentRanges : Ranges

/-- The answer of a metadata lookup: an availability time, not loaded, or not stored. -/
inductive MessageAvailability where
  | ready (availableAt : ℤ)
  | missing
  | absent
  deriving DecidableEq, Repr

/-- The answer of `nextCandidate`. -/
inductive NextCandidate where
  | ready (position : ℕ)
  | load (position : ℕ)
  | none
  deriving DecidableEq, Repr

namespace ChannelState

/-! ### Creation and checkpoints -/

/-- A channel without history above its barrier. -/
def new (name : String) (barrierPosition : ℕ) (ephemeral : Bool) (maxAckGap : ℕ) :
    ChannelState where
  name := name
  barrierPosition := barrierPosition
  ackFloorPosition := barrierPosition
  acknowledged := ∅
  requeuedUntil := ∅
  paused := false
  ephemeral := ephemeral
  messageCountOriginPosition := barrierPosition
  nextPosition := satSucc barrierPosition
  deferredScan := none
  inFlight := ∅
  inFlightIds := ∅
  inFlightDeadlines := ∅
  redelivery := ∅
  attempts := ∅
  maxAckGap := max maxAckGap 1
  requeueCount := 0
  timeoutCount := 0
  absentRanges := .none

/-- The position from which a channel counts its messages. -/
def originPosition (checkpoint : ChannelCheckpoint) : ℕ :=
  checkpoint.messageCountOriginPosition.getD checkpoint.barrierPosition

/-- The state a checkpoint describes, with nothing in flight. -/
def load (checkpoint : ChannelCheckpoint) (maxAckGap : ℕ) : ChannelState where
  name := checkpoint.name
  barrierPosition := checkpoint.barrierPosition
  ackFloorPosition := checkpoint.ackFloorPosition
  acknowledged := checkpoint.acknowledged
  requeuedUntil := checkpoint.requeuedUntil
  paused := checkpoint.paused
  ephemeral := checkpoint.ephemeral
  messageCountOriginPosition := originPosition checkpoint
  nextPosition := satSucc checkpoint.ackFloorPosition
  deferredScan := none
  inFlight := ∅
  inFlightIds := ∅
  inFlightDeadlines := ∅
  redelivery := checkpoint.requeuedUntil.keys.toFinset
  attempts := checkpoint.attempts
  maxAckGap := max maxAckGap 1
  requeueCount := checkpoint.requeueCount
  timeoutCount := checkpoint.timeoutCount
  absentRanges := .none

def fromCheckpoint (checkpoint : ChannelCheckpoint) (maxAckGap : ℕ) :
    Except BrokerError ChannelState :=
  if checkpoint.format ≠ 7 ∨ checkpoint.ackFloorPosition < checkpoint.barrierPosition ∨
      checkpoint.barrierPosition < originPosition checkpoint then
    .error (.invalidRecord "invalid channel checkpoint")
  else .ok (load checkpoint maxAckGap)

variable (s : ChannelState)

/-- The durable part of the state. -/
def checkpoint : ChannelCheckpoint where
  format := 7
  name := s.name
  barrierPosition := s.barrierPosition
  ackFloorPosition := s.ackFloorPosition
  acknowledged := s.acknowledged
  requeuedUntil := s.requeuedUntil
  attempts := s.attempts
  messageCountOriginPosition := some s.messageCountOriginPosition
  requeueCount := s.requeueCount
  timeoutCount := s.timeoutCount
  paused := s.paused
  ephemeral := s.ephemeral

/-! ### Absent ranges and the acknowledgement window -/

def absentRangeEnd (position : ℕ) : Option ℕ := s.absentRanges.rangeEnd position

def isAbsent (position : ℕ) : Bool := (s.absentRangeEnd position).isSome

def absentCount (first last : ℕ) : ℕ := s.absentRanges.count first last

/-- How many present positions lie above the floor up to `position`. -/
def presentDistance (position : ℕ) : ℕ :=
  position - s.ackFloorPosition - s.absentCount (satSucc s.ackFloorPosition) position

def isUnacknowledged (position : ℕ) : Bool :=
  decide (s.ackFloorPosition < position) && decide (position ∉ s.acknowledged)

/-! ### Acknowledgement -/

/-- Takes a delivery out of the three in-flight indexes. -/
def removeInFlight (position : ℕ) : Bool × ChannelState :=
  match s.inFlight[position]? with
  | none => (false, s)
  | some delivery =>
    (true,
      { s with
        inFlight := s.inFlight.erase position
        inFlightDeadlines :=
          s.inFlightDeadlines.erase (deadlineKey delivery.deadline position delivery.token)
        inFlightIds := s.inFlightIds.erase delivery.id })

/-- One turn of the loop of `advance_ack_floor`: the floor steps over absent ranges and consumes the
sparse acknowledgements it meets. -/
def advanceTurn (ranges : Ranges) : ℕ × Finset ℕ → Turn (ℕ × Finset ℕ) (ℕ × Finset ℕ)
  | (floor, acknowledged) =>
    let next := satSucc floor
    if next = floor then .leave (floor, acknowledged)
    else
      match ranges.rangeEnd next with
      | some last => .next (last, acknowledged)
      | none =>
        if next ∈ acknowledged then .next (next, acknowledged.erase next)
        else .leave (floor, acknowledged)

/-- A bound on the turns: each uses up a range or an acknowledgement. -/
def advanceFuel : ℕ :=
  s.acknowledged.card + s.absentRanges.toList.length + 1

/-- The loop ends within its bound (`advanceAckFloor_ends`), so there is always a result. -/
def advanceAckFloor : ChannelState :=
  let (floor, acknowledged) :=
    (loop (advanceTurn s.absentRanges) s.advanceFuel (s.ackFloorPosition, s.acknowledged)).getD
      (s.ackFloorPosition, s.acknowledged)
  { s with
    ackFloorPosition := floor
    acknowledged := acknowledged
    nextPosition := max s.nextPosition (satSucc floor) }

/-- Forgets everything pending about a position. -/
def clearPending (position : ℕ) : ChannelState :=
  let s := (s.removeInFlight position).2
  { s with
    redelivery := s.redelivery.erase position
    requeuedUntil := s.requeuedUntil.erase position
    attempts := s.attempts.erase position }

def acknowledge (position : ℕ) : ChannelState :=
  let s := s.clearPending position
  if position ≤ s.ackFloorPosition then s
  else { s with acknowledged := insert position s.acknowledged }.advanceAckFloor

/-! ### Durable commands -/

/-- Takes every listed delivery out of flight. -/
def removeAllInFlight (positions : List ℕ) : ChannelState :=
  positions.foldl (fun s position => (s.removeInFlight position).2) s

/-- `Empty` and `Evict` share their effect: everything through a position is done with.
The floor is raised without a scan, so it may stop right below an acknowledgement. -/
def dropThrough (throughPosition : ℕ) : ChannelState :=
  let s :=
    { s with
      ackFloorPosition := max s.ackFloorPosition throughPosition
      acknowledged := s.acknowledged.filter (throughPosition < ·)
      requeuedUntil := s.requeuedUntil.filter fun position _ => decide (throughPosition < position)
      attempts := s.attempts.filter fun position _ => decide (throughPosition < position) }
  let s := s.removeAllInFlight (s.inFlight.keys.filter fun position => decide (position ≤ throughPosition))
  { s with
    redelivery := s.redelivery.filter (throughPosition < ·)
    nextPosition := max s.nextPosition (satSucc throughPosition) }

def apply : ChannelCommand → ChannelState
  | .finish position _ => s.acknowledge position
  | .requeue position _ availableAtMs attempts cumulativeCount =>
    let alreadyApplied :=
      s.requeuedUntil[position]? = some availableAtMs ∧ s.attempts[position]? = some attempts
    let s := (s.removeInFlight position).2
    { s with
      redelivery := insert position s.redelivery
      requeuedUntil := s.requeuedUntil.insert position availableAtMs
      attempts := s.attempts.insert position attempts
      requeueCount :=
        match cumulativeCount with
        | some count => max s.requeueCount count
        | none => if alreadyApplied then s.requeueCount else satSucc s.requeueCount }
  | .pause paused => { s with paused := paused }
  | .empty throughPosition => s.dropThrough throughPosition
  | .evict throughPosition => s.dropThrough throughPosition
  | .timeout cumulativeCount => { s with timeoutCount := max s.timeoutCount cumulativeCount }

/-! ### Recovery -/

/-- One turn of the scan over the requeue deadlines.  A deadline without a recorded
delivery attempt that equals the message's own availability time is a copy. -/
def compactRecoveredDpub (availableAt : ℕ → Except BrokerError (Option ℤ)) (s : ChannelState)
    (position : ℕ) : Except BrokerError ChannelState :=
  match s.requeuedUntil[position]? with
  | none => .ok s
  | some deadline =>
    if position ∈ s.attempts then .ok s
    else do
      let available ← availableAt position
      if available = some deadline then
        return { s with
          requeuedUntil := s.requeuedUntil.erase position
          redelivery := s.redelivery.erase position }
      else return s

def compactRecoveredDpubs (availableAt : ℕ → Except BrokerError (Option ℤ)) :
    Except BrokerError ChannelState :=
  s.requeuedUntil.keys.foldlM (compactRecoveredDpub availableAt) s

/-- Installs the ranges of positions the log does not hold.  The source asserts that
nothing is in flight and that the ranges are ordered, which their type carries. -/
def setAbsentRanges (ranges : Ranges) : ChannelState :=
  { s with
    acknowledged := s.acknowledged.filter fun position => ¬ranges.contains position
    redelivery := s.redelivery.filter fun position => ¬ranges.contains position
    requeuedUntil := s.requeuedUntil.filter fun position _ => !ranges.contains position
    attempts := s.attempts.filter fun position _ => !ranges.contains position
    absentRanges := ranges }.advanceAckFloor

def recoveredPositionHighWatermark : ℕ :=
  max (max (max s.ackFloorPosition (s.acknowledged.sup id)) (s.requeuedUntil.maxKey?.getD 0))
    (s.attempts.maxKey?.getD 0)

/-! ### Deliveries -/

def deliveryAttempts (position : ℕ) : ℕ := s.attempts[position]?.getD 0

def nextRequeueCount : ℕ := satSucc s.requeueCount

/-- Hands a position out under a fresh token. -/
def reserveTimestamped (position id : ℕ) (timestampNs : ℤ) (deadline token : ℕ) : ChannelState × ℕ :=
  let attempts := satAdd u16Max (s.deliveryAttempts position) 1
  ({ s with
      attempts := s.attempts.insert position attempts
      inFlight := s.inFlight.insert position ⟨id, timestampNs, deadline, token⟩
      inFlightDeadlines := insert (deadlineKey deadline position token) s.inFlightDeadlines
      inFlightIds := s.inFlightIds.insert id position },
    attempts)

/-- Gives an attempt back and forgets the entry when none is left. -/
def uncountAttempt (position : ℕ) : ChannelState :=
  match s.attempts[position]? with
  | none => s
  | some attempts =>
    if attempts - 1 = 0 then { s with attempts := s.attempts.erase position }
    else { s with attempts := s.attempts.insert position (attempts - 1) }

def deferCandidate (position : ℕ) : ChannelState :=
  { s with redelivery := insert position s.redelivery }

def cancel (position token : ℕ) : ChannelState :=
  if (s.inFlight[position]?.map InFlight.token) = some token then
    ((s.removeInFlight position).2.deferCandidate position).uncountAttempt position
  else s

def inFlightPosition (id : ℕ) : Option ℕ := s.inFlightIds[id]?

def inFlightPositionWithToken (id token : ℕ) : Option ℕ := do
  let position ← s.inFlightPosition id
  if (s.inFlight[position]?.map InFlight.token) = some token then some position else none

/-- The time of the message that is in flight under an id, if the token fits. -/
def inFlightTimestamp (id : ℕ) (token : Option ℕ) : Option ℤ := do
  let position ← s.inFlightPosition id
  let flight ← s.inFlight[position]?
  if token.all (flight.token = ·) then some flight.timestampNs else none

/-- Moves the deadline of a delivery and reports whether there was one. -/
def touchUntil (position deadline : ℕ) : Bool × ChannelState :=
  match s.inFlight[position]? with
  | none => (false, s)
  | some flight =>
    (true,
      { s with
        inFlightDeadlines :=
          insert (deadlineKey deadline position flight.token)
            (s.inFlightDeadlines.erase (deadlineKey flight.deadline position flight.token))
        inFlight := s.inFlight.insert position { flight with deadline := deadline } })

def release (position : ℕ) : ChannelState :=
  let (removed, s) := s.removeInFlight position
  if removed then s.deferCandidate position else s

/-- The positions of the deadline index up to an instant, in index order. -/
def expiredPositions (now : ℕ) : List ℕ :=
  (dueKeys s.inFlightDeadlines now).map fun key => (ofLex (ofLex key).2).1

/-- Takes each listed position out of flight and offers it for redelivery. -/
def expirePositions (positions : List ℕ) : ChannelState :=
  positions.foldl (fun s position => (s.removeInFlight position).2.deferCandidate position) s

def releaseAll : ChannelState × ℕ :=
  (s.expirePositions s.inFlight.keys, s.inFlight.keys.length)

end ChannelState

end RustQueue.Channel
