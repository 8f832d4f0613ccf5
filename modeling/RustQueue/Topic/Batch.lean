import RustQueue.Storage.Log
import RustQueue.Storage.Record
import RustQueue.Topic.Index

/-!
# Publish batches in the log of a topic

A publish appends one record, a batch of bodies with consecutive positions and ids.  This module
says what the log of a topic holds without the bytes: a `PublishBatch` is an entry of
`Storage.LogFiles`, and the metadata of its messages follows from the segment and the offset at
which it lies.

`PublishBatch.metas` is that metadata, as it is collected while batches are appended and as it is
read back when a topic is opened.
-/

namespace RustQueue.Topic

open Lib Storage

def itemHeader : ℕ := 20

def maxMessages : ℕ := 65536

/-- One message of a batch.  The checksum is that of the body; it is not stored in the record but
computed again from the body when the record is read. -/
structure EncodedEntry where
  position : ℕ
  id : ℕ
  bodyOffset : ℕ
  body : List UInt8
  crc32c : ℕ
  deriving DecidableEq, Repr

/-- A batch as a record of the log. -/
structure PublishBatch where
  index : ℕ
  timestampNs : ℤ
  messageId : ℕ
  availableAtMs : ℤ
  entries : List EncodedEntry
  deriving DecidableEq, Repr

/-- The payload is the number of messages, and for each a header and the body. -/
def PublishBatch.payloadLen (batch : PublishBatch) : ℕ :=
  4 + (batch.entries.map fun entry => itemHeader + entry.body.length).sum

instance : LogEntry PublishBatch := ⟨PublishBatch.index, fun batch => headerLen + batch.payloadLen⟩

/-! ### Encoding -/

/-- The entries of the bodies from a payload offset on. -/
def encodeFrom (crc32c : List UInt8 → UInt32) :
    ℕ → ℕ → ℕ → List (List UInt8) → Except BrokerError (List EncodedEntry)
  | _, _, _, [] => .ok []
  | position, id, payloadOffset, body :: bodies =>
    if u32Max < body.length then .error .messageTooLarge
    else do
      let bodyOffset := payloadOffset + itemHeader
      let rest ← encodeFrom crc32c (satSucc position) (satSucc id) (bodyOffset + body.length) bodies
      return ⟨position, id, bodyOffset, body, (crc32c body).toNat⟩ :: rest

/-- The entries of a batch of bodies. -/
def encode (crc32c : List UInt8 → UInt32) (firstPosition firstId : ℕ) (bodies : List (List UInt8)) :
    Except BrokerError (List EncodedEntry) :=
  encodeFrom crc32c firstPosition firstId 4 bodies

/-! ### Metadata -/

/-- The metadata of a batch at an offset of a segment. -/
def PublishBatch.metas (batch : PublishBatch) (path offset : ℕ) : List MessageMeta :=
  batch.entries.map fun entry =>
    { position := entry.position
      id := entry.id
      timestampNs := batch.timestampNs
      availableAtMs := batch.availableAtMs
      logIndex := batch.index
      payload :=
        { path := path
          offset := offset + headerLen + entry.bodyOffset
          len := entry.body.length
          crc32c := entry.crc32c } }

end RustQueue.Topic
