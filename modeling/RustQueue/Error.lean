import Mathlib.Tactic

/-!
# Errors of the storage and queue crates

The variants of `StorageError` and `BrokerError`.  A segment path is the base index in its
file name, and the text of an operating-system error is a string.
-/

namespace RustQueue

/-- Errors of the segment log. -/
inductive StorageError where
  | io (reason : String)
  | corrupt (path offset : ℕ) (reason : String)
  | nonContiguous (expected actual : ℕ)
  | isolated
  deriving DecidableEq, Repr

/-- Errors of the broker and of everything below it. -/
inductive BrokerError where
  | invalidTopic
  | invalidChannel
  | topicNotFound
  | topicRetiring
  | topicTombstoned
  | channelNotFound
  | channelTombstoned
  | channelNotIdle (depth inFlight deferred : ℕ)
  | managementUnavailable
  | revisionConflict (expected actual : ℕ)
  | operationConflict
  | invalidTombstone
  | invalidTopicPolicy (reason : String)
  | messageNotFound
  | messageNotInFlight
  | messageTooLarge
  | batchTooLarge
  | topicLimit
  | publishWorkerLimit
  | channelWorkerLimit
  | channelLimit
  | sequenceExhausted
  | storageUnavailable
  | invalidRecord (reason : String)
  | storage (error : StorageError)
  | io (reason : String)
  deriving DecidableEq, Repr

/-- The errors after which the broker stops trusting its storage. -/
def BrokerError.isStorageError : BrokerError → Bool
  | .storageUnavailable | .storage _ | .io _ | .invalidRecord _ => true
  | _ => false

/-- The copy of an error for a second receiver, which loses the cause of a storage error. -/
def BrokerError.copyError : BrokerError → BrokerError
  | .storage _ | .io _ => .storageUnavailable
  | error => error

theorem BrokerError.isStorageError_copyError (error : BrokerError) :
    error.copyError.isStorageError = error.isStorageError := by
  cases error <;> rfl

end RustQueue
