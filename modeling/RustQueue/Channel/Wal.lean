import RustQueue.Channel.State
import RustQueue.Lib.BigEndian
import RustQueue.Lib.Framing

/-!
# The write-ahead log of a channel, byte by byte

A durable command is written as a frame: the magic `RCW7`, the length and the CRC of the
body, and the body itself, a tag byte followed by big-endian fields.  `recoverWal` reads a
log back and cuts a torn frame off its end.  The checksum is an arbitrary function, for
nothing here depends on how well it detects damage.

* `decodeCommand_encodeCommand`: every command whose fields fit their machine words is
  decoded as it was encoded;
* `recoverWal_take`: a log cut at any byte recovers exactly the commands whose frames were
  kept, and fails exactly if there are more than `maxRecoveryCommands` of them.
-/

namespace RustQueue.Channel

open Lib

/-! ### Commands -/

def encodeCommand : ChannelCommand → List UInt8
  | .finish position messageId => 1 :: (toBytes 8 position ++ toBytes 8 messageId)
  | .requeue position messageId availableAtMs attempts cumulativeCount =>
    (if cumulativeCount.isSome then 7 else 2) ::
      (toBytes 8 position ++ (toBytes 8 messageId ++ (toBytes 8 (ofInt 8 availableAtMs) ++
        (toBytes 2 attempts ++
          match cumulativeCount with
          | some count => toBytes 8 count
          | none => []))))
  | .pause paused => [3, if paused then 1 else 0]
  | .empty throughPosition => 4 :: toBytes 8 throughPosition
  | .evict throughPosition => 5 :: toBytes 8 throughPosition
  | .timeout cumulativeCount => 6 :: toBytes 8 cumulativeCount

/-- The fields that both requeue formats begin with. -/
def decodeRequeue (body : List UInt8) (cumulativeCount : Option ℕ) : ChannelCommand :=
  .requeue (ofBytes (slice body 1 9)) (ofBytes (slice body 9 17))
    (toInt 8 (ofBytes (slice body 17 25))) (ofBytes (slice body 25 27)) cumulativeCount

def decodeCommand (body : List UInt8) : Except BrokerError ChannelCommand :=
  if body.head? = some 1 ∧ body.length = 17 then
    .ok (.finish (ofBytes (slice body 1 9)) (ofBytes (slice body 9 17)))
  else if body.head? = some 2 ∧ body.length = 27 then .ok (decodeRequeue body none)
  else if body.head? = some 3 ∧ body.length = 2 ∧ ofBytes (slice body 1 2) ≤ 1 then
    .ok (.pause (decide (ofBytes (slice body 1 2) = 1)))
  else if body.head? = some 4 ∧ body.length = 9 then .ok (.empty (ofBytes (slice body 1 9)))
  else if body.head? = some 5 ∧ body.length = 9 then .ok (.evict (ofBytes (slice body 1 9)))
  else if body.head? = some 6 ∧ body.length = 9 then .ok (.timeout (ofBytes (slice body 1 9)))
  else if body.head? = some 7 ∧ body.length = 35 then
    .ok (decodeRequeue body (some (ofBytes (slice body 27 35))))
  else .error (.invalidRecord "channel WAL command is invalid")

/-- Every field holds a value of its machine word. -/
def ChannelCommand.Fits : ChannelCommand → Prop
  | .finish position messageId => IsU64 position ∧ IsU64 messageId
  | .requeue position messageId availableAtMs attempts cumulativeCount =>
    IsU64 position ∧ IsU64 messageId ∧ IsI64 availableAtMs ∧ attempts ≤ u16Max ∧
      ∀ count ∈ cumulativeCount, IsU64 count
  | .pause _ => True
  | .empty throughPosition => IsU64 throughPosition
  | .evict throughPosition => IsU64 throughPosition
  | .timeout cumulativeCount => IsU64 cumulativeCount

/-- **Commands survive the round trip through bytes.** -/
theorem decodeCommand_encodeCommand {command : ChannelCommand} (h : command.Fits) :
    decodeCommand (encodeCommand command) = .ok command := by
  -- the slices of an encoded body are its fields, by computation
  cases command with
  | finish position messageId =>
    obtain ⟨hposition, hid⟩ := h
    show Except.ok (ChannelCommand.finish (ofBytes (toBytes 8 position))
      (ofBytes (toBytes 8 messageId))) = _
    rw [ofBytes_toBytes_u64 hposition, ofBytes_toBytes_u64 hid]
  | requeue position messageId availableAtMs attempts cumulativeCount =>
    obtain ⟨hposition, hid, havailable, hattempts, hcount⟩ := h
    cases cumulativeCount with
    | none =>
      show Except.ok (ChannelCommand.requeue (ofBytes (toBytes 8 position))
        (ofBytes (toBytes 8 messageId)) (toInt 8 (ofBytes (toBytes 8 (ofInt 8 availableAtMs))))
        (ofBytes (toBytes 2 attempts)) none) = _
      rw [ofBytes_toBytes_u64 hposition, ofBytes_toBytes_u64 hid, toInt_ofBytes_i64 havailable,
        ofBytes_toBytes_u16 hattempts]
    | some count =>
      show Except.ok (ChannelCommand.requeue (ofBytes (toBytes 8 position))
        (ofBytes (toBytes 8 messageId)) (toInt 8 (ofBytes (toBytes 8 (ofInt 8 availableAtMs))))
        (ofBytes (toBytes 2 attempts)) (some (ofBytes (toBytes 8 count)))) = _
      rw [ofBytes_toBytes_u64 hposition, ofBytes_toBytes_u64 hid, toInt_ofBytes_i64 havailable,
        ofBytes_toBytes_u16 hattempts, ofBytes_toBytes_u64 (hcount count rfl)]
  | pause paused => cases paused <;> rfl
  | empty throughPosition =>
    show Except.ok (ChannelCommand.empty (ofBytes (toBytes 8 throughPosition))) = _
    rw [ofBytes_toBytes_u64 h]
  | evict throughPosition =>
    show Except.ok (ChannelCommand.evict (ofBytes (toBytes 8 throughPosition))) = _
    rw [ofBytes_toBytes_u64 h]
  | timeout cumulativeCount =>
    show Except.ok (ChannelCommand.timeout (ofBytes (toBytes 8 cumulativeCount))) = _
    rw [ofBytes_toBytes_u64 h]

/-! ### Frames -/

/-- The magic `RCW7`. -/
def walMagic : List UInt8 := [0x52, 0x43, 0x57, 0x37]

def walHeaderLen : ℕ := 12
def maxCommandBytes : ℕ := 1024 * 1024
def checkpointInterval : ℕ := 8 * 1024
def maxRecoveryCommands : ℕ := checkpointInterval * 2

/-- The length that the header of a frame announces. -/
def walBodyLen (offset : ℕ) (header : List UInt8) : Except BrokerError ℕ :=
  if slice header 0 4 ≠ walMagic then
    .error (.invalidRecord s!"channel WAL corruption at byte {offset}")
  else if maxCommandBytes < ofBytes (slice header 4 8) then
    .error (.invalidRecord "channel WAL command is too large")
  else .ok (ofBytes (slice header 4 8))

variable (crc32c : List UInt8 → UInt32)

variable (command : ChannelCommand)

/-- A command as `appendBuffered` writes it. -/
def walFrame : List UInt8 :=
  let body := encodeCommand command
  walMagic ++ (toBytes 4 body.length ++ (toBytes 4 (crc32c body).toNat ++ body))

/-- A complete frame as `recoverWal` reads it, behind `ordinal` others. -/
def walDecode (offset ordinal : ℕ) (header body : List UInt8) :
    Except BrokerError ChannelCommand :=
  if (crc32c body).toNat ≠ ofBytes (slice header 8 12) then
    .error (.invalidRecord s!"channel WAL checksum failure at byte {offset}")
  else
    match decodeCommand body with
    | .error e => .error e
    | .ok command =>
      if maxRecoveryCommands < ordinal + 1 then
        .error (.invalidRecord "channel WAL contains too many commands without a checkpoint")
      else .ok command

/-- The frames of a log as `recoverWal` reads them. -/
def walFormat : FrameFormat ChannelCommand BrokerError where
  headerLen := walHeaderLen
  headerLen_pos := by decide
  bodyLen := walBodyLen
  decode := walDecode crc32c
  tornHeader _ := .ok ()
  tornBody _ := .ok ()

/-- The commands of a log and the length to which the file is cut. -/
def recoverWal (wal : List UInt8) : Except BrokerError (List ChannelCommand × ℕ) :=
  (walFormat crc32c).scan 0 0 wal

theorem length_encodeCommand_le : (encodeCommand command).length ≤ 35 := by
  cases command with
  | requeue position messageId availableAtMs attempts cumulativeCount =>
    cases cumulativeCount <;> simp [encodeCommand]
  | finish | pause | empty | evict | timeout => simp [encodeCommand]

/-- The three fields of a frame's header. -/
theorem walFrame_header :
    slice ((walFrame crc32c command).take walHeaderLen) 0 4 = walMagic ∧
      slice ((walFrame crc32c command).take walHeaderLen) 4 8 =
        toBytes 4 (encodeCommand command).length ∧
      slice ((walFrame crc32c command).take walHeaderLen) 8 12 =
        toBytes 4 (crc32c (encodeCommand command)).toNat :=
  ⟨rfl, rfl, rfl⟩

theorem walFrame_length :
    (walFrame crc32c command).length = walHeaderLen + (encodeCommand command).length := by
  simp only [walFrame, List.length_append, length_toBytes, walMagic, List.length_cons,
    List.length_nil, walHeaderLen]
  omega

theorem walFrame_headed (offset : ℕ) : (walFormat crc32c).Headed offset (walFrame crc32c command) := by
  obtain ⟨hmagic, hlen, -⟩ := walFrame_header crc32c command
  have hlength := walFrame_length crc32c command
  have hbody := length_encodeCommand_le command
  have hword : ofBytes (toBytes 4 (encodeCommand command).length) = (encodeCommand command).length :=
    ofBytes_toBytes_of_lt (by omega)
  constructor
  · rw [hlength]
    exact Nat.le_add_right _ _
  · have hsub : (walFrame crc32c command).length - (walFormat crc32c).headerLen =
        (encodeCommand command).length := by
      rw [hlength]
      exact Nat.add_sub_cancel_left _ _
    rw [hsub]
    show walBodyLen offset ((walFrame crc32c command).take walHeaderLen) = _
    rw [walBodyLen, hmagic, hlen, hword, if_neg (by simp), if_neg]
    unfold maxCommandBytes
    omega

/-- A written frame is decoded unless there are too many before it. -/
theorem walFrame_decode (offset ordinal : ℕ) {command : ChannelCommand} (h : command.Fits) :
    (walFormat crc32c).decode offset ordinal ((walFrame crc32c command).take (walFormat crc32c).headerLen)
        ((walFrame crc32c command).drop (walFormat crc32c).headerLen) =
      if maxRecoveryCommands < ordinal + 1 then
        .error (.invalidRecord "channel WAL contains too many commands without a checkpoint")
      else .ok command := by
  have hdrop : (walFrame crc32c command).drop (walFormat crc32c).headerLen = encodeCommand command := rfl
  rw [hdrop]
  show walDecode crc32c offset ordinal ((walFrame crc32c command).take walHeaderLen)
    (encodeCommand command) = _
  rw [walDecode, (walFrame_header crc32c command).2.2, ofBytes_toBytes_u32, if_neg (by simp),
    decodeCommand_encodeCommand h]

/-- The writer of the log. -/
def walWriter : (walFormat crc32c).Writer ChannelCommand.Fits maxRecoveryCommands where
  encode := walFrame crc32c
  headed offset {_} _ := walFrame_headed crc32c _ offset
  frame offset {ordinal _} h hordinal := ⟨walFrame_headed crc32c _ offset, by
    rw [walFrame_decode crc32c offset ordinal h, if_neg (by omega)]⟩

/-- **A log cut at any byte** recovers the commands whose frames were kept as a whole, if there are not
too many. -/
theorem recoverWal_take (commands : List ChannelCommand) (hfit : ∀ c ∈ commands, c.Fits) (n : ℕ) :
    recoverWal crc32c ((FrameFormat.written (walFrame crc32c) commands).take n) =
      if FrameFormat.framesWithin (walFrame crc32c) commands n ≤ maxRecoveryCommands then
        .ok (commands.take (FrameFormat.framesWithin (walFrame crc32c) commands n),
          (FrameFormat.written (walFrame crc32c)
            (commands.take (FrameFormat.framesWithin (walFrame crc32c) commands n))).length)
      else .error (.invalidRecord "channel WAL contains too many commands without a checkpoint") := by
  split_ifs with hfew
  · have h := FrameFormat.scan_take (walWriter crc32c) (fun _ => rfl) (fun _ => rfl) commands hfit
      0 0 n (by rw [Nat.zero_add]; exact hfew)
    rw [Nat.zero_add] at h
    exact h
  · refine FrameFormat.scan_take_over (walWriter crc32c) (fun offset _ h => ?_) commands hfit 0 0 n
      (Nat.zero_le _) (by rw [Nat.zero_add]; exact not_le.1 hfew)
    exact (walFrame_decode crc32c offset maxRecoveryCommands h).trans (if_pos (Nat.lt_succ_self _))

end RustQueue.Channel
