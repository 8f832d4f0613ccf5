import RustQueue.Broker.GroupCommit
import RustQueue.Server.Publish

/-!
# A publish command on a broker session

What a session of the broker does with a PUB, MPUB or DPUB command: it reads the body, refuses while the
node drains, is short of disk or closes, checks the authorization, and publishes.  The end of it is an
answer, or a closed connection, and the fact whether the messages were written.

* `publishTcp_stored`: messages that were written are answered with OK or with the failure code of the
  command, or not at all;
* `publishCommand_stored`: so it is for the whole command.
-/

namespace RustQueue.Server

open Lib Broker

/-! ### Answers -/

def textBytes (text : String) : List UInt8 := text.toUTF8.data.toList

theorem textBytes_append (first second : String) :
    textBytes (first ++ second) = textBytes first ++ textBytes second := by
  simp [textBytes]

structure Frame where
  frameType : ℤ
  body : List UInt8
  deriving DecidableEq, Repr

def Frame.ok : Frame := ⟨0, textBytes "OK"⟩

/-- An error is its code and its text in one line. -/
def errorFrame (error : ApiError) : Frame :=
  ⟨1, textBytes (error.code ++ " " ++
    error.message.map fun c => if c = '\r' ∨ c = '\n' then ' ' else c)⟩

def storageErrorText : StorageError → String
  | .io reason => s!"storage I/O error: {reason}"
  | .corrupt path offset reason => s!"corrupt segment {path} at byte {offset}: {reason}"
  | .nonContiguous expected actual => s!"log index is not contiguous: expected {expected}, got {actual}"
  | .isolated => "segment log is isolated after an earlier storage failure"

def brokerErrorText : BrokerError → String
  | .invalidTopic => "topic is invalid"
  | .invalidChannel => "channel is invalid"
  | .topicNotFound => "topic does not exist"
  | .topicRetiring => "topic deletion is still draining in-process readers"
  | .topicTombstoned => "topic is protected by an active deletion tombstone"
  | .channelNotFound => "channel does not exist"
  | .channelTombstoned => "channel is protected by an active deletion tombstone"
  | .channelNotIdle depth inFlight deferred =>
    s!"channel is not idle: depth={depth}, in_flight={inFlight}, deferred={deferred}"
  | .managementUnavailable => "management fence catalog has not been synchronized"
  | .revisionConflict expected actual => s!"registry revision conflict: expected {expected}, actual {actual}"
  | .operationConflict => "management operation conflicts with an existing operation ID"
  | .invalidTombstone => "active tombstone deadline is required"
  | .invalidTopicPolicy reason => s!"invalid topic delivery policy: {reason}"
  | .messageNotFound => "message does not exist"
  | .messageNotInFlight => "message is not in flight"
  | .messageTooLarge => "message exceeds configured limit"
  | .batchTooLarge => "publish batch is invalid or too large"
  | .topicLimit => "broker topic limit reached"
  | .publishWorkerLimit => "active topic publish worker limit reached"
  | .channelWorkerLimit => "active topic channel commit worker limit reached"
  | .channelLimit => "topic channel limit reached"
  | .sequenceExhausted => "message ID sequence exhausted"
  | .storageUnavailable => "local storage is isolated after an earlier failure; restart is required"
  | .invalidRecord reason => s!"invalid durable record: {reason}"
  | .storage error => storageErrorText error
  | .io reason => reason

/-! ### Commands -/

inductive PublishCommand where
  | publish (topic : String)
  | multiPublish (topic : String)
  | deferredPublish (topic : String) (delayMs : ℕ)
  deriving DecidableEq, Repr

structure SessionLimits where
  config : Config
  maxDeferMs : ℕ
  disconnectOnRetriablePublishError : Bool

namespace PublishCommand

def topic : PublishCommand → String
  | .publish topic | .multiPublish topic | .deferredPublish topic _ => topic

def delayMs : PublishCommand → ℕ
  | .publish _ | .multiPublish _ => 0
  | .deferredPublish _ delayMs => delayMs

def name : PublishCommand → String
  | .publish _ => "PUB"
  | .multiPublish _ => "MPUB"
  | .deferredPublish _ _ => "DPUB"

/-- The code of a publish that failed. -/
def errorCode : PublishCommand → String
  | .publish _ => "E_PUB_FAILED"
  | .multiPublish _ => "E_MPUB_FAILED"
  | .deferredPublish _ _ => "E_DPUB_FAILED"

/-- The body of the command, from its size on. -/
def readBody (command : PublishCommand) (config : Config) (body : List UInt8) :
    Except ApiError (List UInt8) :=
  match command with
  | .publish _ | .deferredPublish _ _ =>
    readCommandBody "E_BAD_MESSAGE" command.name config.maxMessageBytes body
  | .multiPublish _ => readCommandBody "E_BAD_BODY" command.name config.limits.maxBodyBytes body

def messages (command : PublishCommand) (config : Config) (body : List UInt8) :
    Except ApiError (List (List UInt8)) :=
  match command with
  | .publish _ | .deferredPublish _ _ => .ok [body]
  | .multiPublish _ => (parseMpubBytes body config.maxMessageBytes).mapError MpubError.toApiError

end PublishCommand

/-! ### The session -/

/-- What a command meets.  `incomplete` is the answer to a command of which a part never comes,
`refused` that of an authorization that fails, and `answers` whether an answer can be sent. -/
structure SessionAround where
  throttled : Bool
  incomplete : Option ApiError
  accepting : Bool
  storageReady : Bool
  storageHealthy : Bool
  closing : Bool
  refused : Option ApiError
  call : PublishCall
  timedOut : Bool
  answers : Bool

/-- The end of a command: the answer, if there is one, and whether the messages were written. -/
structure SessionEnd where
  reply : Option Frame
  stored : Bool

def SessionEnd.refuse (error : ApiError) : SessionEnd := ⟨some (errorFrame error), false⟩

/-- A client that is to go to another node is disconnected, if the node is set so. -/
def SessionLimits.refuseRetriable (limits : SessionLimits) (error : ApiError) : SessionEnd :=
  if limits.disconnectOnRetriablePublishError then ⟨none, false⟩ else .refuse error

def precommitRetryablePublishError : BrokerError → Bool
  | .topicRetiring | .managementUnavailable | .topicLimit | .publishWorkerLimit
  | .sequenceExhausted => true
  | _ => false

variable (settings : PublishSettings) (limits : SessionLimits) (around : SessionAround)

variable (command : PublishCommand)

def publishTcp (messages : List (List UInt8)) : SessionEnd :=
  let published := around.call.publish settings command.topic limits.config.maxMessageBytes messages
    command.delayMs
  match published.1 with
  | .ok _ => ⟨some .ok, published.2⟩
  | .error error =>
    if precommitRetryablePublishError error then
      if limits.disconnectOnRetriablePublishError then ⟨none, published.2⟩
      else ⟨some (errorFrame ⟨"E_PUB_RETRY", brokerErrorText error⟩), published.2⟩
    else ⟨some (errorFrame ⟨command.errorCode, brokerErrorText error⟩), published.2⟩

def processCommand (body : List UInt8) : SessionEnd :=
  if limits.maxDeferMs < command.delayMs then .refuse ⟨"E_INVALID", "defer exceeds configured maximum"⟩
  else
    match around.refused, command.messages limits.config body with
    | some error, _ => .refuse error
    | none, .error error => .refuse error
    | none, .ok messages => publishTcp settings limits around command messages

/-- The refusals of a session before it looks at the command. -/
def SessionAround.rejection : Option SessionEnd :=
  if around.accepting = false then
    some (limits.refuseRetriable ⟨"E_DRAINING", "broker is draining"⟩)
  else if around.storageReady = false then
    some (limits.refuseRetriable ⟨"E_THROTTLED", "local disk is above its publish watermark"⟩)
  else if around.storageHealthy = false then
    some (.refuse ⟨"E_PUB_RETRY", "local storage was unavailable before publish"⟩)
  else if around.closing then some (.refuse ⟨"E_CLOSING", "node is shutting down"⟩)
  else none

/-- A command on the session.  When it times out, or the answer cannot be sent, the connection is closed,
but the worker may have the request already. -/
def publishCommand (body : List UInt8) (complete : Bool) : SessionEnd :=
  match command.readBody limits.config body with
  | .error error => .refuse error
  | .ok body =>
    if around.throttled then
      limits.refuseRetriable
        ⟨"E_THROTTLED", s!"{command.name} publish byte budget is exhausted; retry later"⟩
    else if complete = false then ⟨around.incomplete.map errorFrame, false⟩
    else
      match around.rejection limits with
      | some rejected => rejected
      | none =>
        let done := processCommand settings limits around command body
        if around.timedOut ∨ around.answers = false then ⟨none, done.stored⟩ else done

/-! ### What is answered when messages were written -/

variable {settings limits around}

theorem isStorageError_of_retryable {error : BrokerError}
    (h : precommitRetryablePublishError error = true) : error.isStorageError = false := by
  cases error <;> trivial

/-- **An answer that asks for another node is given before anything is written.** -/
theorem publishTcp_stored {command : PublishCommand} {messages : List (List UInt8)}
    (h : (publishTcp settings limits around command messages).stored = true) :
    (publishTcp settings limits around command messages).reply = some .ok ∨
      ∃ message, (publishTcp settings limits around command messages).reply =
        some (errorFrame ⟨command.errorCode, message⟩) := by
  unfold publishTcp at h ⊢
  dsimp only at h ⊢
  cases hresult : (around.call.publish settings command.topic limits.config.maxMessageBytes messages
      command.delayMs).1 with
  | ok ids => exact Or.inl rfl
  | error error =>
    rw [hresult] at h
    dsimp only at h ⊢
    by_cases hretryable : precommitRetryablePublishError error = true
    · have hnothing := PublishCall.publish_refused settings around.call command.topic
        limits.config.maxMessageBytes messages command.delayMs hresult
        (isStorageError_of_retryable hretryable)
      rw [if_pos hretryable, hnothing] at h
      split_ifs at h
    · rw [if_neg hretryable]
      exact Or.inr ⟨_, rfl⟩

theorem refuseRetriable_stored {error : ApiError} : (limits.refuseRetriable error).stored = false := by
  unfold SessionLimits.refuseRetriable
  split_ifs <;> rfl

theorem processCommand_stored {command : PublishCommand} {body : List UInt8}
    (h : (processCommand settings limits around command body).stored = true) :
    (processCommand settings limits around command body).reply = some .ok ∨
      ∃ message, (processCommand settings limits around command body).reply =
        some (errorFrame ⟨command.errorCode, message⟩) := by
  unfold processCommand at h ⊢
  split_ifs at h ⊢
  · cases h
  · split at h
    · cases h
    · cases h
    · exact publishTcp_stored h

theorem SessionAround.rejection_stored {rejected : SessionEnd} (h : around.rejection limits = some rejected) :
    rejected.stored = false := by
  unfold SessionAround.rejection at h
  split_ifs at h <;> cases h
  · exact refuseRetriable_stored
  · exact refuseRetriable_stored
  · rfl
  · rfl

theorem publishCommand_incomplete (body : List UInt8) :
    (publishCommand settings limits around command body false).stored = false := by
  unfold publishCommand
  split
  · rfl
  · by_cases hthrottled : around.throttled = true
    · rw [if_pos hthrottled]
      exact refuseRetriable_stored
    · rw [if_neg hthrottled, if_pos rfl]

/-- When messages were written, the client hears of it, or of a failed publish, or nothing. -/
theorem publishCommand_stored {command : PublishCommand} {body : List UInt8} {complete : Bool}
    (h : (publishCommand settings limits around command body complete).stored = true) {frame : Frame}
    (hreply : (publishCommand settings limits around command body complete).reply = some frame) :
    frame = .ok ∨ ∃ message, frame = errorFrame ⟨command.errorCode, message⟩ := by
  unfold publishCommand at h hreply
  split at h
  · cases h
  · rename_i body hbody
    rw [hbody] at hreply
    dsimp only at hreply
    by_cases hthrottled : around.throttled = true
    · rw [if_pos hthrottled, refuseRetriable_stored] at h
      cases h
    rw [if_neg hthrottled] at h hreply
    by_cases hcomplete : complete = false
    · rw [if_pos hcomplete] at h
      cases h
    rw [if_neg hcomplete] at h hreply
    cases hrejected : around.rejection limits with
    | some rejected =>
      rw [hrejected] at h
      rw [SessionAround.rejection_stored hrejected] at h
      cases h
    | none =>
      rw [hrejected] at h hreply
      dsimp only at h hreply
      by_cases hsilent : around.timedOut = true ∨ around.answers = false
      · rw [if_pos hsilent] at hreply
        cases hreply
      rw [if_neg hsilent] at h hreply
      rcases processCommand_stored h with hok | ⟨message, hfailed⟩
      · exact Or.inl (Option.some.inj (hreply.symm.trans hok))
      · exact Or.inr ⟨message, Option.some.inj (hreply.symm.trans hfailed)⟩

end RustQueue.Server
