import RustQueue.Channel.State
import RustQueue.Topic.Batch

/-!
# The state of one topic

`Topic` is what a broker keeps of a topic in memory while it holds the topic lock: the manifest,
the log with its message index, the two watermarks, the counters of what is written but not
synced, and the channels.  The log is `Storage.RecordLog`, the log without its bytes, and a
segment path is the base index in its file name.

The functions of this module change the memory only.  Those that also write to the directory of
the topic are in `Topic.Operations`.
-/

namespace RustQueue

open Lib Channel Storage

namespace Topic

inductive DeliveryMode where
  | reliable
  | ttlDiscard
  deriving DecidableEq, Repr

structure TopicPolicy where
  deliveryMode : DeliveryMode
  messageTtlSeconds : Option ℕ
  deriving DecidableEq, Repr

namespace TopicPolicy

def validate (policy : TopicPolicy) : Except String TopicPolicy :=
  match policy.deliveryMode, policy.messageTtlSeconds with
  | .reliable, none => .ok policy
  | .reliable, some _ => .error "RELIABLE topics cannot define message_ttl_seconds"
  | .ttlDiscard, some seconds =>
    if 0 < seconds then .ok policy
    else .error "TTL_DISCARD topics require message_ttl_seconds greater than zero"
  | .ttlDiscard, none => .error "TTL_DISCARD topics require message_ttl_seconds greater than zero"

def ttlSeconds (policy : TopicPolicy) : Option ℕ :=
  match policy.deliveryMode with
  | .reliable => none
  | .ttlDiscard => policy.messageTtlSeconds

end TopicPolicy

/-- What the manifest file of a topic holds. -/
structure TopicManifest where
  format : ℕ
  name : String
  paused : Bool
  deleted : Bool
  nextPosition : ℕ
  unroutedFromPosition : Option ℕ
  deliveryMode : DeliveryMode
  messageTtlSeconds : Option ℕ
  expiredThroughPosition : ℕ
  ttlDiscardedMessages : ℕ
  deriving DecidableEq, Repr

/-- The part of a channel store that is in memory: the commands that are not written yet, and the
number of commands since the last checkpoint. -/
structure ChannelLog where
  pendingWal : List ChannelCommand
  commandsSinceCheckpoint : ℕ
  deriving DecidableEq, Repr

structure ChannelRuntime where
  state : ChannelState
  store : Option ChannelLog
  durableCounters : Bool

end Topic

open Topic in
/-- A topic in memory. -/
structure Topic where
  name : String
  manifest : TopicManifest
  log : RecordLog PublishBatch
  maxSegmentBytes : ℕ
  featureLevel : ℕ
  messages : MessageIndex
  positionGaps : Ranges
  deliverablePosition : ℕ
  durablePosition : ℕ
  unsyncedMessages : ℕ
  unsyncedBytes : ℕ
  unsyncedSince : Option ℕ
  channels : Std.ExtTreeMap String ChannelRuntime
  maxAckGap : ℕ
  durableChannelCounters : Bool
  publishedCount : ℕ

namespace Topic

def maxChannelsPerTopic : ℕ := 1024

/-! ### Positions -/

def nextPosition (topic : Topic) : ℕ := topic.manifest.nextPosition

variable (topic : Topic)

def lastPosition : ℕ := topic.manifest.nextPosition - 1

def writtenPosition : ℕ := topic.messages.lastPosition.getD 0

def hasDurableChannels : Bool :=
  topic.channels.any fun _ runtime => !runtime.state.ephemeral

def unroutedStartPosition : Except BrokerError ℕ :=
  match topic.manifest.unroutedFromPosition with
  | some position => .ok position
  | none => .error (.invalidRecord
      "topic without a durable channel is missing its retention boundary")

def policy : TopicPolicy :=
  ⟨topic.manifest.deliveryMode, topic.manifest.messageTtlSeconds⟩

/-! ### Watermarks -/

def markDeliverableThrough (position : ℕ) : Topic :=
  { topic with deliverablePosition := max topic.deliverablePosition position }

/-- Nothing is left to sync. -/
def resetUnsynced : Topic :=
  { topic with unsyncedMessages := 0, unsyncedBytes := 0, unsyncedSince := none }

def recordUnsynced (now messages bytes : ℕ) : Topic :=
  if messages = 0 ∨ topic.writtenPosition ≤ topic.durablePosition then topic
  else
    { topic with
      unsyncedMessages := satAdd u64Max topic.unsyncedMessages messages
      unsyncedBytes := satAdd u64Max topic.unsyncedBytes bytes
      unsyncedSince := some (topic.unsyncedSince.getD now) }

def markDurableThrough (position : ℕ) : Topic :=
  let topic :=
    { topic with
      durablePosition := max topic.durablePosition position
      deliverablePosition := max topic.deliverablePosition position }
  if topic.writtenPosition ≤ topic.durablePosition then topic.resetUnsynced else topic

end Topic

end RustQueue
