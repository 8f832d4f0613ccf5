import RustQueue.Topic.State

/-!
# The directory of a topic

What a topic keeps on disk, without the bytes: the manifest, the log, the sidecars of its sealed
segments, and for each durable channel a checkpoint and a log of commands.  `Write` is one durable
write; an operation of the topic is a change of the memory and a list of such writes
(`Topic.Operations`), and a crash leaves the directory as some prefix of the list has made it
(`applyAll`).
-/

namespace RustQueue.Topic

open Lib Channel Storage

/-- The files of a durable channel.  The first `synced` commands of the log are on disk. -/
structure ChannelFiles where
  checkpoint : ChannelCheckpoint
  wal : List ChannelCommand
  synced : ℕ

structure Directory where
  manifest : TopicManifest
  log : LogFiles PublishBatch
  sidecars : Std.ExtTreeMap ℕ RecoveryMetadataRef
  channels : Std.ExtTreeMap String ChannelFiles

/-- One durable write. -/
inductive Write where
  | manifest (manifest : TopicManifest)
  | syncLog
  | rotateLog (next : ℕ)
  | pushLog (batch : PublishBatch)
  | dropOldest
  | sidecar (metadata : RecoveryMetadataRef)
  | createChannel (name : String) (checkpoint : ChannelCheckpoint)
  | appendWal (name : String) (commands : List ChannelCommand)
  | syncWal (name : String)
  | replaceCheckpoint (name : String) (checkpoint : ChannelCheckpoint)
  | resetWal (name : String)
  | removeCheckpoint (name : String)

namespace Directory

/-- A change of the files of one channel. -/
def modifyChannel (directory : Directory) (name : String) (f : ChannelFiles → ChannelFiles) :
    Directory :=
  match directory.channels[name]? with
  | none => directory
  | some files => { directory with channels := directory.channels.insert name (f files) }

def apply (directory : Directory) : Write → Directory
  | .manifest manifest => { directory with manifest := manifest }
  | .syncLog => { directory with log := directory.log.sync }
  | .rotateLog next => { directory with log := directory.log.rotate next }
  | .pushLog batch => { directory with log := directory.log.push batch }
  | .dropOldest => { directory with log := directory.log.dropOldest 1 }
  | .sidecar metadata =>
    { directory with sidecars := directory.sidecars.insert metadata.segmentPath metadata }
  | .createChannel name checkpoint =>
    { directory with channels := directory.channels.insert name ⟨checkpoint, [], 0⟩ }
  | .appendWal name commands =>
    directory.modifyChannel name fun files => { files with wal := files.wal ++ commands }
  | .syncWal name =>
    directory.modifyChannel name fun files => { files with synced := files.wal.length }
  | .replaceCheckpoint name checkpoint =>
    directory.modifyChannel name fun files => { files with checkpoint := checkpoint }
  | .resetWal name =>
    directory.modifyChannel name fun files => { files with wal := [], synced := 0 }
  | .removeCheckpoint name => { directory with channels := directory.channels.erase name }

def applyAll (directory : Directory) (writes : List Write) : Directory := writes.foldl apply directory

end Directory

end RustQueue.Topic
