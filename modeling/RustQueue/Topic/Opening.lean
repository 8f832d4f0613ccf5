import RustQueue.Topic.Operations

/-!
# Creating topics

A new topic has an empty log and holds all messages to come, as it has no durable channel yet.
-/

namespace RustQueue.Topic

open Lib Channel Storage

/-- The manifest of a new topic. -/
def TopicManifest.create (name : String) : TopicManifest where
  format := 7
  name := name
  paused := false
  deleted := false
  nextPosition := 1
  unroutedFromPosition := some 1
  deliveryMode := .reliable
  messageTtlSeconds := none
  expiredThroughPosition := 0
  ttlDiscardedMessages := 0

/-- The log of a new topic. -/
def emptyLog : LogFiles PublishBatch := ⟨[], ⟨1, []⟩, 0⟩

def Directory.create (name : String) : Directory := ⟨.create name, emptyLog, ∅, ∅⟩

def create (name : String) (maxSegmentBytes maxAckGap featureLevel : ℕ) : Topic where
  name := name
  manifest := .create name
  log := ⟨emptyLog, 1⟩
  maxSegmentBytes := maxSegmentBytes
  featureLevel := featureLevel
  messages := ⟨[], [], 0⟩
  positionGaps := .none
  deliverablePosition := 0
  durablePosition := 0
  unsyncedMessages := 0
  unsyncedBytes := 0
  unsyncedSince := none
  channels := ∅
  maxAckGap := maxAckGap
  durableChannelCounters := decide (2 ≤ featureLevel)
  publishedCount := 0

end RustQueue.Topic
