import RustQueue.Channel.Run
import RustQueue.Channel.Wal
import RustQueue.Lib.Json
import RustQueue.Name

/-!
# The files of a durable channel

`ChannelStore` holds what a channel has on disk, the checkpoint file and the write-ahead log,
next to what the source keeps about them in memory: the frames not yet written, the number
of commands since the last checkpoint, and whether a failure has isolated the store.
`synced` counts the bytes of the log that are known to be on disk; the code never reads it.

The operations are cut where a crash can fall between two writes: the source's `sync` is
`flushPending` and then `syncData`, and its `checkpoint` is `replaceCheckpoint` and then `resetWal`.  A
checkpoint file is replaced by a rename and so has its old or its new contents.  JSON is
an argument, `json`, of which `ChannelStore.open` needs that it reads back what it wrote.
-/

namespace RustQueue.Channel

open Lib

/-- A serializer of checkpoints. -/
structure CheckpointJson where
  toVec : ChannelCheckpoint → List UInt8
  fromSlice : List UInt8 → Except String ChannelCheckpoint

/-- The serializer reads back what it wrote. -/
def CheckpointJson.RoundTrips (json : CheckpointJson) : Prop :=
  ∀ checkpoint, json.fromSlice (json.toVec checkpoint) = .ok checkpoint

section

open Json.Codec

/-- The text of a checkpoint, the fields in the order of their declaration. -/
def checkpointCodec : Json.Codec ChannelCheckpoint :=
  (field "format" nat |>.also "name" string |>.also "barrier_position" nat
    |>.also "ack_floor_position" nat |>.also "acknowledged" finset
    |>.also "requeued_until" (tree natKey int fun _ => rfl)
    |>.also "attempts" (tree natKey nat fun _ => rfl)
    |>.also "message_count_origin_position" optionNat |>.also "requeue_count" nat
    |>.also "timeout_count" nat |>.also "paused" bool |>.also "ephemeral" bool |>.object).map
    (fun (((((((((((format, name), barrier), floor), acknowledged), requeued), attempts), origin),
      requeues), timeouts), paused), ephemeral) => ⟨format, name, barrier, floor, acknowledged, requeued,
      attempts, origin, requeues, timeouts, paused, ephemeral⟩)
    (fun c => (((((((((((c.format, c.name), c.barrierPosition), c.ackFloorPosition), c.acknowledged),
      c.requeuedUntil), c.attempts), c.messageCountOriginPosition), c.requeueCount), c.timeoutCount),
      c.paused), c.ephemeral)) fun _ => rfl

/-- The compact text that `serde_json` writes. -/
def compactJson : CheckpointJson :=
  ⟨checkpointCodec.toVec, checkpointCodec.fromSlice "channel checkpoint is not valid JSON"⟩

theorem compactJson_roundTrips : compactJson.RoundTrips := by
  intro checkpoint
  simp only [compactJson, fromSlice_toVec]

end

/-- The magic `RCC7`. -/
def checkpointMagic : List UInt8 := [0x52, 0x43, 0x43, 0x37]

def maxCheckpointBytes : ℕ := 64 * 1024 * 1024
def maxMetadataBytes : ℕ := 64 * 1024 * 1024

structure ChannelStore where
  checkpointFile : List UInt8
  wal : List UInt8
  synced : ℕ
  pendingWal : List UInt8
  commandsSinceCheckpoint : ℕ
  isolated : Bool

section Checkpoint

variable (crc32c : List UInt8 → UInt32) (json : CheckpointJson)

/-- The bytes of a checkpoint file. -/
def checkpointBytes (checkpoint : ChannelCheckpoint) : List UInt8 :=
  let body := json.toVec checkpoint
  checkpointMagic ++ (toBytes 4 body.length ++ (toBytes 4 (crc32c body).toNat ++ body))

def writeCheckpoint (checkpoint : ChannelCheckpoint) : Except BrokerError (List UInt8) :=
  if maxCheckpointBytes < (json.toVec checkpoint).length then
    .error (.invalidRecord "channel checkpoint exceeds the maximum size")
  else if maxMetadataBytes < (checkpointBytes crc32c json checkpoint).length then
    .error (.io "metadata file exceeds the maximum size")
  else .ok (checkpointBytes crc32c json checkpoint)

def parseCheckpoint (bytes : List UInt8) : Except BrokerError ChannelCheckpoint :=
  if bytes.length < walHeaderLen ∨ slice bytes 0 4 ≠ checkpointMagic then
    .error (.invalidRecord "channel checkpoint header is invalid")
  else if maxCheckpointBytes < ofBytes (slice bytes 4 8) ∨
      ofBytes (slice bytes 4 8) ≠ bytes.length - walHeaderLen ∨
      (crc32c (bytes.drop walHeaderLen)).toNat ≠ ofBytes (slice bytes 8 12) then
    .error (.invalidRecord "channel checkpoint checksum is invalid")
  else
    match json.fromSlice (bytes.drop walHeaderLen) with
    | .error reason => .error (.invalidRecord reason)
    | .ok checkpoint => .ok checkpoint

def readCheckpoint (bytes : List UInt8) : Except BrokerError ChannelCheckpoint :=
  if maxCheckpointBytes + walHeaderLen < bytes.length then
    .error (.invalidRecord "channel checkpoint exceeds the maximum size")
  else parseCheckpoint crc32c json bytes

/-- The fields and the length of a checkpoint file. -/
theorem checkpointBytes_header (checkpoint : ChannelCheckpoint) :
    slice (checkpointBytes crc32c json checkpoint) 0 4 = checkpointMagic ∧
      slice (checkpointBytes crc32c json checkpoint) 4 8 =
        toBytes 4 (json.toVec checkpoint).length ∧
      slice (checkpointBytes crc32c json checkpoint) 8 12 =
        toBytes 4 (crc32c (json.toVec checkpoint)).toNat ∧
      (checkpointBytes crc32c json checkpoint).drop walHeaderLen = json.toVec checkpoint :=
  ⟨rfl, rfl, rfl, rfl⟩

theorem checkpointBytes_length (checkpoint : ChannelCheckpoint) :
    (checkpointBytes crc32c json checkpoint).length =
      walHeaderLen + (json.toVec checkpoint).length := by
  simp only [checkpointBytes, List.length_append, length_toBytes, checkpointMagic,
    List.length_cons, List.length_nil, walHeaderLen]
  omega

variable {crc32c json}

theorem readCheckpoint_writeCheckpoint (hjson : json.RoundTrips) {checkpoint : ChannelCheckpoint}
    {bytes : List UInt8} (h : writeCheckpoint crc32c json checkpoint = .ok bytes) :
    readCheckpoint crc32c json bytes = .ok checkpoint := by
  obtain ⟨hmagic, hlen, hsum, hbody⟩ := checkpointBytes_header crc32c json checkpoint
  have hlength := checkpointBytes_length crc32c json checkpoint
  unfold writeCheckpoint at h
  split_ifs at h with hlarge hmeta
  cases h
  have hword : ofBytes (toBytes 4 (json.toVec checkpoint).length) =
      (json.toVec checkpoint).length := by
    refine ofBytes_toBytes_of_lt ?_
    unfold maxCheckpointBytes at hlarge
    omega
  rw [readCheckpoint, if_neg (by rw [hlength]; omega), parseCheckpoint, hmagic, hlen, hsum, hbody,
    hlength, hword, ofBytes_toBytes_u32, if_neg (by simp), if_neg (by simp; omega), hjson]

end Checkpoint

namespace ChannelStore

variable (crc32c : List UInt8 → UInt32) (json : CheckpointJson)

/-- The empty log is durable before the checkpoint file appears. -/
def create (state : ChannelState) : Except BrokerError ChannelStore := do
  let checkpointFile ← writeCheckpoint crc32c json state.checkpoint
  return ⟨checkpointFile, [], 0, [], 0, false⟩

/-- The channel that the files of a name describe, from a log of which a crash has left the
given bytes. -/
def «open» (stem : String) (checkpointFile wal : List UInt8) (maxAckGap : ℕ) :
    Except BrokerError (ChannelState × ChannelStore) := do
  let checkpoint ← readCheckpoint crc32c json checkpointFile
  if validateName checkpoint.name ≠ .ok () ∨ checkpoint.name ≠ stem then
    .error (.invalidRecord "channel checkpoint name does not match its file")
  else
    let (commands, length) ← recoverWal crc32c wal
    let state ← ChannelState.fromCheckpoint checkpoint maxAckGap
    return (state.replay commands,
      ⟨checkpointFile, wal.take length, length, [], commands.length, false⟩)

variable (store : ChannelStore)

def appendBuffered (command : ChannelCommand) : Except BrokerError ChannelStore :=
  if store.isolated then .error .storageUnavailable
  else .ok
    { store with
      pendingWal := store.pendingWal ++ walFrame crc32c command
      commandsSinceCheckpoint := store.commandsSinceCheckpoint + 1 }

/-- The pending frames are written to the log, not yet synced. -/
def flushPending : ChannelStore :=
  { store with wal := store.wal ++ store.pendingWal, pendingWal := [] }

/-- What was written to the log reaches the disk. -/
def syncData : ChannelStore := { store with synced := store.wal.length }

/-- What remains of the store when a write fails after `written` pending bytes. -/
def isolate (written : ℕ) : ChannelStore :=
  { store with
    wal := store.wal ++ store.pendingWal.take written
    pendingWal := store.pendingWal.drop written
    isolated := true }

/-- The rename of a new checkpoint file. -/
def replaceCheckpoint (state : ChannelState) : Except BrokerError ChannelStore :=
  if store.isolated then .error .storageUnavailable
  else do
    let checkpointFile ← writeCheckpoint crc32c json state.checkpoint
    return { store with checkpointFile := checkpointFile }

/-- The log is emptied behind a new checkpoint. -/
def resetWal : ChannelStore :=
  { store with wal := [], synced := 0, commandsSinceCheckpoint := 0 }

variable {crc32c json}

/-- How files open when the checkpoint and its name are in order. -/
theorem open_eq {stem : String} {checkpointFile wal : List UInt8} {maxAckGap : ℕ}
    {checkpoint : ChannelCheckpoint} {state : ChannelState}
    (hfile : readCheckpoint crc32c json checkpointFile = .ok checkpoint)
    (hvalid : validateName checkpoint.name = .ok ()) (hname : checkpoint.name = stem)
    (hstate : ChannelState.fromCheckpoint checkpoint maxAckGap = .ok state) :
    ChannelStore.open crc32c json stem checkpointFile wal maxAckGap =
      (recoverWal crc32c wal).map fun recovered => (state.replay recovered.1,
        ⟨checkpointFile, wal.take recovered.2, recovered.2, [], recovered.1.length, false⟩) := by
  have hmatch : ¬(validateName checkpoint.name ≠ .ok () ∨ checkpoint.name ≠ stem) :=
    fun h => h.elim (fun h => h hvalid) fun h => h hname
  unfold ChannelStore.open
  rw [hfile]
  cases recoverWal crc32c wal with
  | error e => simp only [bind, Except.bind, if_neg hmatch, Except.map]
  | ok recovered =>
    simp only [bind, Except.bind, if_neg hmatch, hstate, pure, Except.pure, Except.map]

end ChannelStore

end RustQueue.Channel
