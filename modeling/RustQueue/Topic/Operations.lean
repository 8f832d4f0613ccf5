import RustQueue.Topic.Commands

/-!
# The operations of a topic on its manifest and its log

Publishes, the boundary of unrouted messages, the creation and deletion of channels, and the emptying
of a topic.  As in `Topic.Commands`, an operation returns the new topic and its durable writes.

The source walks over the channels of a topic in the order of a hash map.  That order is an
argument here, a list with the name of every channel.
-/

namespace RustQueue.Topic

open Lib Channel Storage

/-! ### The manifest -/

variable (topic : Topic)

def storeManifest : Outcome := .ok (topic, [.manifest topic.manifest])

def setUnroutedFromPosition (position : Option ℕ) : Outcome :=
  if topic.manifest.unroutedFromPosition = position then .ok (topic, [])
  else { topic with
    manifest := { topic.manifest with unroutedFromPosition := position } }.storeManifest

def setPolicy (policy : TopicPolicy) : Except BrokerError (Bool × Topic × List Write) :=
  match policy.validate with
  | .error reason => .error (.invalidTopicPolicy reason)
  | .ok policy =>
    if topic.policy = policy then .ok (false, topic, [])
    else do
      let (topic, writes) ← { topic with
        manifest := { topic.manifest with
          deliveryMode := policy.deliveryMode
          messageTtlSeconds := policy.messageTtlSeconds } }.storeManifest
      return (true, topic, writes)

def setPaused (paused : Bool) : Outcome :=
  { topic with manifest := { topic.manifest with paused := paused } }.storeManifest

def markDeleted : Outcome :=
  { topic with manifest := { topic.manifest with deleted := true } }.storeManifest

/-! ### The log -/

/-- The sidecar of a segment that has just been sealed. -/
def persistSegmentIndex (path : ℕ) : Outcome :=
  match topic.log.files.sealed.find? fun segment =>
      decide (segment.base = path ∧ segment.records ≠ []) with
  | none => .error (.invalidRecord "sealed segment has no records")
  | some segment => do
    let reference : RecoveryMetadataRef :=
      ⟨path, segment.encodedLen, topic.messages.activeForPath path⟩
    let messages ← topic.messages.sealPath path reference
    return ({ topic with messages := messages }, [.sidecar reference])

def sealLog : Outcome :=
  let previous := topic.log.files.current.base
  let next := topic.log.nextIndex
  let sealed := { topic with log := topic.log.seal }.markDurableThrough topic.lastPosition
  if topic.log.files.current.records ≠ [] then
    Outcome.andThen (.ok (sealed, [.syncLog, .rotateLog next])) fun topic =>
      topic.persistSegmentIndex previous
  else .ok (sealed, [.syncLog])

def spillMessageMetadata : Outcome :=
  if topic.messages.active ≠ [] then topic.sealLog else .ok (topic, [])

/-- Why the log refuses the record of a batch: its payload needs a higher feature level, or is too
large for any. -/
def recordError (featureLevel payloadLen : ℕ) : Option StorageError :=
  let required := RecordKind.publishBatch.requiredWriterFeatureLevel payloadLen
  if featureLevel < required then
    some (.io s!"record kind PublishBatch with {payloadLen} payload bytes requires writer feature level {required}, active level is {featureLevel}")
  else if maxRecordBytes < payloadLen then some (.io "record payload exceeds storage limit")
  else none

/-- Whether the log starts a new segment before a record. -/
def needsRoom (batch : PublishBatch) : Bool :=
  decide (topic.log.files.current.records ≠ [] ∧
    topic.maxSegmentBytes < topic.log.files.current.encodedLen + LogEntry.encodedLen batch)

/-- The writes of an append to the log. -/
def appendWrites (batch : PublishBatch) (durable : Bool) : List Write :=
  (if topic.needsRoom batch then [.syncLog, .rotateLog batch.index] else []) ++
    .pushLog batch :: if durable then [.syncLog] else []

/-- The record of a batch: its index is the next one, and its time not before that of the last
message. -/
def nextBatch (firstId : ℕ) (timestampNs availableAtMs : ℤ) (entries : List EncodedEntry) :
    PublishBatch where
  index := topic.log.nextIndex
  timestampNs := topic.messages.lastTimestampNs.elim timestampNs (max timestampNs ·)
  messageId := firstId
  availableAtMs := availableAtMs
  entries := entries

/-- A rotation has synced everything that was written before. -/
def afterAppend (rotated : Bool) (previousSegment previousLastPosition : ℕ) : Outcome :=
  if rotated then
    Outcome.andThen (topic.persistSegmentIndex previousSegment) fun topic =>
      .ok ({ topic with
        durablePosition := max topic.durablePosition previousLastPosition
        deliverablePosition := max topic.deliverablePosition previousLastPosition }.resetUnsynced, [])
  else .ok (topic, [])

/-- The positions of a batch are taken, and durable if the log was synced. -/
def advance (count : ℕ) (durable : Bool) : Topic :=
  let topic := { topic with
    manifest := { topic.manifest with
      nextPosition := satAdd u64Max topic.manifest.nextPosition count } }
  if durable then topic.markDurableThrough topic.lastPosition else topic

/-! ### Channels come and go -/

/-- The position up to which a new channel has no messages, if none has expired. -/
def unexpiredBarrier (name : String) (cutoff : ℤ) : Except BrokerError ℕ :=
  if isEphemeral name then .ok topic.lastPosition
  else if topic.hasDurableChannels then
    .ok (topic.messages.retainFromTimestamp cutoff topic.manifest.nextPosition - 1)
  else do
    let start ← topic.unroutedStartPosition
    return start - 1

def barrier (name : String) (cutoff : ℤ) : Except BrokerError ℕ := do
  let position ← topic.unexpiredBarrier name cutoff
  return max position topic.manifest.expiredThroughPosition

/-- The first durable channel takes over the messages that were held without one. -/
def releaseUnrouted (firstDurable : Bool) : Outcome :=
  if firstDurable then topic.setUnroutedFromPosition none else .ok (topic, [])

/-- The answer says whether the channel is new.  The checkpoint reaches the disk before the topic
gives up its hold on unrouted messages. -/
def createChannel (topic : Topic) (name : String) (cutoff : ℤ) :
    Except BrokerError (Bool × Topic × List Write) :=
  if topic.manifest.deleted then .error .topicNotFound
  else if name ∈ topic.channels then .ok (false, topic, [])
  else if maxChannelsPerTopic ≤ topic.channels.size then .error .channelLimit
  else do
    let ephemeral := isEphemeral name
    let firstDurable := !ephemeral && !topic.hasDurableChannels
    let barrier ← topic.barrier name cutoff
    let state := (ChannelState.new name barrier ephemeral topic.maxAckGap).setAbsentRanges
      topic.positionGaps
    let created := if ephemeral then [] else [.createChannel name state.checkpoint]
    let (topic, writes) ← topic.releaseUnrouted firstDurable
    let store := if ephemeral then none else some ⟨[], 0⟩
    return (true, topic.setChannel name ⟨state, store, topic.durableChannelCounters⟩,
      created ++ writes)

/-- Whether a channel is the only durable one. -/
def lastDurable (runtime : ChannelRuntime) : Bool :=
  !runtime.state.ephemeral &&
    decide ((topic.channels.toList.filter fun entry => !entry.2.state.ephemeral).length = 1)

/-- Without a durable channel, the messages to come are held. -/
def holdUnrouted (lastDurable : Bool) : Outcome :=
  if lastDurable then topic.setUnroutedFromPosition (some topic.manifest.nextPosition)
  else .ok (topic, [])

/-- The hold on unrouted messages is in place before the last checkpoint goes, and the log of a channel
goes before its checkpoint. -/
def deleteChannel (name : String) : Outcome := do
  let runtime ← topic.channel name
  let (topic, writes) ← topic.holdUnrouted (topic.lastDurable runtime)
  return ({ topic with channels := topic.channels.erase name },
    writes ++ if runtime.store.isSome then [.resetWal name, .removeCheckpoint name] else [])

/-! ### Removing messages -/

def emptyTopic (order : List String) : Outcome :=
  let through := topic.lastPosition
  let hasDurableChannels := topic.hasDurableChannels
  (Outcome.forEach (fun topic name => topic.persistChannel name (.empty through)) topic order).andThen
    fun topic =>
      if hasDurableChannels then .ok (topic, [])
      else topic.setUnroutedFromPosition (some topic.manifest.nextPosition)

end RustQueue.Topic
