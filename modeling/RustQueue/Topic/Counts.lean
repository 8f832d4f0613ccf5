import RustQueue.Topic.Commands

/-!
# The counters of a channel

`channelCounts` is what the broker calls the depth of a channel, the number of its deliveries in flight
and the number of its messages that are not due yet.  They are counted from ranges of positions, not
message by message.
-/

namespace RustQueue

open Lib Channel

namespace Channel.ChannelState

def isOutstanding (s : ChannelState) (position lastPosition : ℕ) : Bool :=
  decide (s.ackFloorPosition < position ∧ position ≤ lastPosition ∧ s.isAbsent position = false ∧
    position ∉ s.acknowledged ∧ position ∉ s.inFlight)

/-- The requeued positions of a range that are outstanding and not due. -/
def requeuedCount (s : ChannelState) (first last lastPosition : ℕ) (nowMs : ℤ) : ℕ :=
  (s.requeuedUntil.toList.filter fun entry =>
    decide (first ≤ entry.1 ∧ entry.1 ≤ last ∧ nowMs < entry.2) &&
      s.isOutstanding entry.1 lastPosition).length

/-- The depth, the deliveries in flight, and the messages that are not due. -/
def metricCounts (s : ChannelState) (lastPosition scheduledWithoutRequeues : ℕ) (nowMs : ℤ) :
    ℕ × ℕ × ℕ :=
  let total := lastPosition - s.ackFloorPosition -
    s.absentCount (satSucc s.ackFloorPosition) lastPosition
  (total - s.acknowledged.card, s.inFlight.size,
    satAdd u64Max scheduledWithoutRequeues (s.requeuedCount 0 u64Max lastPosition nowMs))

def scheduledCountInRange (s : ChannelState) (first last : ℕ) (nowMs : ℤ) : ℕ :=
  let first := max first (satSucc s.ackFloorPosition)
  if last < first ∨ last ≤ s.ackFloorPosition then 0
  else
    let acknowledged := (s.acknowledged.filter fun position =>
      first ≤ position ∧ position ≤ last ∧ s.isAbsent position = false).card
    let inFlight := (s.inFlight.toList.filter fun entry =>
      decide (first ≤ entry.1 ∧ entry.1 ≤ last ∧ s.isAbsent entry.1 = false)).length
    satAdd u64Max (last - first) 1 - s.absentCount first last - acknowledged - inFlight -
      s.requeuedCount first last last nowMs

end Channel.ChannelState

namespace Topic

/-- The ranges of consecutive messages that are not due, behind an open one. -/
def visitDeferredRanges (nowMs : ℤ) : Option (ℕ × ℕ) → List MessageMeta → List (ℕ × ℕ)
  | range, [] => range.toList
  | range, message :: messages =>
    if nowMs < message.availableAtMs then
      visitDeferredRanges nowMs (some ((range.map Prod.fst).getD message.position, message.position))
        messages
    else range.toList ++ visitDeferredRanges nowMs none messages

/-- The ranges of a sealed segment.  A segment with mixed times is read page by page. -/
def SealedMessages.deferredRanges (segment : SealedMessages) (nowMs : ℤ) (lastPosition : ℕ) :
    List (ℕ × ℕ) :=
  if segment.maxAvailableAtMs ≤ nowMs then []
  else
    let last := min segment.lastPosition lastPosition
    if nowMs < segment.minAvailableAtMs then [(segment.firstPosition, last)]
    else
      ((segment.metadata.messages.take (last - segment.firstPosition + 1)).toChunks
        pageMessages).flatMap (visitDeferredRanges nowMs none)

def MessageIndex.deferredRanges (index : MessageIndex) (nowMs : ℤ) (lastPosition : ℕ) :
    List (ℕ × ℕ) :=
  ((index.sealed.takeWhile fun segment => decide (segment.firstPosition ≤ lastPosition)).flatMap
      fun segment => segment.deferredRanges nowMs lastPosition) ++
    visitDeferredRanges nowMs none
      (index.active.takeWhile fun message => decide (message.position ≤ lastPosition))

def channelCounts (topic : Topic) (name : String) (nowMs : ℤ) : Except BrokerError (ℕ × ℕ × ℕ) := do
  let runtime ← topic.channel name
  let scheduled := (topic.messages.deferredRanges nowMs topic.deliverablePosition).foldl
    (fun scheduled range =>
      satAdd u64Max scheduled (runtime.state.scheduledCountInRange range.1 range.2 nowMs)) 0
  return runtime.state.metricCounts topic.deliverablePosition scheduled nowMs

end Topic

end RustQueue
