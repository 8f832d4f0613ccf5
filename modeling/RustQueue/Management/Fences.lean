import RustQueue.Lib.Maps

/-!
# Fences

A fence forbids the use of a topic or of a channel until a time.  Fences come from management calls and
from snapshots; a fence that a call has set for a channel that had to be idle is local and survives
snapshots.  The catalog is stored after every change.
-/

namespace RustQueue.Management

structure ChannelFence where
  topic : String
  channel : String
  untilMs : ℤ
  deriving DecidableEq, Repr

structure ManagementFenceSnapshot where
  revision : String
  topics : Std.ExtTreeMap String ℤ
  channels : List ChannelFence

structure FenceCatalog where
  revision : String
  topics : Std.ExtTreeMap String ℤ
  channels : Std.ExtTreeMap String ℤ
  localChannels : Std.ExtTreeMap String ℤ

def channelKey (topic channel : String) : String := s!"{topic.utf8ByteSize}:{topic}:{channel}"

namespace FenceCatalog

variable (fences : FenceCatalog)

def empty : FenceCatalog := ⟨"", ∅, ∅, ∅⟩

def topicBlocked (topic : String) (nowMs : ℤ) : Bool :=
  (fences.topics[topic]?).any fun untilMs => decide (nowMs < untilMs)

def channelBlocked (topic channel : String) (nowMs : ℤ) : Bool :=
  (fences.channels[channelKey topic channel]?).any (fun untilMs => decide (nowMs < untilMs)) ||
    (fences.localChannels[channelKey topic channel]?).any fun untilMs => decide (nowMs < untilMs)

/-- The changes answer whether they change anything. -/
def setTopic (topic : String) (untilMs : ℤ) : Bool × FenceCatalog :=
  (decide (fences.topics[topic]? ≠ some untilMs),
    { fences with topics := fences.topics.insert topic untilMs })

def clearTopic (topic : String) : Bool × FenceCatalog :=
  (decide (topic ∈ fences.topics), { fences with topics := fences.topics.erase topic })

def setChannel (topic channel : String) (untilMs : ℤ) : Bool × FenceCatalog :=
  (decide (fences.channels[channelKey topic channel]? ≠ some untilMs),
    { fences with channels := fences.channels.insert (channelKey topic channel) untilMs })

def setLocalChannel (topic channel : String) (untilMs : ℤ) : Bool × FenceCatalog :=
  (decide (fences.localChannels[channelKey topic channel]? ≠ some untilMs),
    { fences with localChannels := fences.localChannels.insert (channelKey topic channel) untilMs })

def clearChannel (topic channel : String) : Bool × FenceCatalog :=
  (decide (channelKey topic channel ∈ fences.channels ∨
      channelKey topic channel ∈ fences.localChannels),
    { fences with
      channels := fences.channels.erase (channelKey topic channel)
      localChannels := fences.localChannels.erase (channelKey topic channel) })

def setChannelFence (topic channel : String) (untilMs : ℤ) (isLocal : Bool) : Bool × FenceCatalog :=
  if isLocal then fences.setLocalChannel topic channel untilMs
  else fences.setChannel topic channel untilMs

def replace (snapshot : ManagementFenceSnapshot) (nowMs : ℤ) : FenceCatalog where
  revision := snapshot.revision
  topics := snapshot.topics
  channels := snapshot.channels.foldl
    (fun channels fence => channels.insert (channelKey fence.topic fence.channel) fence.untilMs) ∅
  localChannels := fences.localChannels.filter fun _ untilMs => decide (nowMs < untilMs)

end FenceCatalog

end RustQueue.Management
