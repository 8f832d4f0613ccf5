import RustQueue.Topic.Operations
import RustQueue.Lib.Result

/-!
# The records of a topic

Which records the log of a topic holds after an operation.  Sealing a segment moves records and keeps
them all; a publish adds one record behind the others.

* `sealLog_records`, `spillMessageMetadata_records`: nothing changes;
* `writeBatch_records`: the batch is the last record;
* `writeBatch_error`: a publish that fails after its record was written fails with a storage error.
-/

namespace RustQueue

open Lib Channel Storage

namespace Topic

variable {topic topic' : Topic} {writes : List Write}

@[simp] theorem markDurableThrough_log (position : ℕ) :
    (topic.markDurableThrough position).log = topic.log := by
  unfold markDurableThrough
  dsimp only
  split_ifs <;> rfl

@[simp] theorem recordUnsynced_log (now messages bytes : ℕ) :
    (topic.recordUnsynced now messages bytes).log = topic.log := by
  unfold recordUnsynced
  split_ifs <;> rfl

@[simp] theorem advance_log (count : ℕ) (durable : Bool) : (topic.advance count durable).log = topic.log := by
  unfold advance
  cases durable with
  | true => exact markDurableThrough_log _
  | false => rfl

theorem andThen_eq_ok {first : Outcome} {next : Topic → Outcome}
    (h : first.andThen next = .ok (topic', writes)) :
    ∃ middle before after, first = .ok (middle, before) ∧ next middle = .ok (topic', after) ∧
      writes = before ++ after := by
  cases hfirst : first with
  | error e =>
    rw [hfirst] at h
    cases h
  | ok result =>
    obtain ⟨middle, before⟩ := result
    rw [hfirst, Outcome.andThen] at h
    cases hnext : next middle with
    | error e =>
      rw [hnext] at h
      cases h
    | ok rest =>
      obtain ⟨last, after⟩ := rest
      rw [hnext] at h
      cases h
      exact ⟨middle, before, after, rfl, hnext, rfl⟩

theorem persistSegmentIndex_log {path : ℕ} (h : topic.persistSegmentIndex path = .ok (topic', writes)) :
    topic'.log = topic.log := by
  unfold persistSegmentIndex at h
  split at h
  · cases h
  · obtain ⟨messages, -, h⟩ := bind_eq_ok.1 h
    cases h
    rfl

theorem sealLog_records (h : topic.sealLog = .ok (topic', writes)) :
    topic'.log.files.records = topic.log.files.records := by
  have hsealed : ({ topic with log := topic.log.seal }.markDurableThrough topic.lastPosition).log =
      topic.log.seal := markDurableThrough_log _
  unfold sealLog at h
  split_ifs at h
  · obtain ⟨middle, before, after, hfirst, hpersist, -⟩ := andThen_eq_ok h
    cases hfirst
    rw [persistSegmentIndex_log hpersist, hsealed, RecordLog.records_seal]
  · cases h
    rw [hsealed, RecordLog.records_seal]

theorem spillMessageMetadata_records (h : topic.spillMessageMetadata = .ok (topic', writes)) :
    topic'.log.files.records = topic.log.files.records := by
  unfold spillMessageMetadata at h
  split_ifs at h
  · exact sealLog_records h
  · cases h
    rfl

theorem afterAppend_log {rotated : Bool} {previousSegment previousLastPosition : ℕ}
    (h : topic.afterAppend rotated previousSegment previousLastPosition = .ok (topic', writes)) :
    topic'.log = topic.log := by
  unfold afterAppend at h
  split_ifs at h
  · obtain ⟨middle, before, after, hpersist, hrest, -⟩ := andThen_eq_ok h
    cases hrest
    have hlog : middle.log = topic.log := persistSegmentIndex_log hpersist
    exact hlog
  · cases h
    rfl

/-! ### A publish -/

/-- The first half of `append_batch`: the checks before the record is written. -/
def admitBatch (topic : Topic) (firstId : ℕ) (timestampNs availableAtMs : ℤ)
    (entries : List EncodedEntry) : Except BrokerError PublishBatch :=
  if topic.manifest.deleted then .error .topicNotFound
  else if topic.hasDurableChannels = false ∧ topic.manifest.unroutedFromPosition = none then
    .error (.invalidRecord "topic without a durable channel is missing its retention boundary")
  else
    let batch := topic.nextBatch firstId timestampNs availableAtMs entries
    match recordError topic.featureLevel batch.payloadLen with
    | some error => .error (.storage error)
    | none => .ok batch

/-- The second half: the write of the record, and what follows it.  A failure here leaves the record in the
log. -/
def writeBatch (topic : Topic) (batch : PublishBatch) (durable : Bool) : Outcome := do
  let log := topic.log.append topic.maxSegmentBytes batch durable
  let offset := log.files.current.encodedLen - LogEntry.encodedLen batch
  let messages ← topic.messages.append (batch.metas log.files.current.base offset)
  let (after, more) ←
    { topic with
      log := log
      messages := messages
      publishedCount := satAdd u64Max topic.publishedCount batch.entries.length }.afterAppend
        (topic.needsRoom batch) topic.log.files.current.base topic.lastPosition
  return (after.advance batch.entries.length durable, topic.appendWrites batch durable ++ more)

variable {firstId : ℕ} {timestampNs availableAtMs : ℤ} {entries : List EncodedEntry} {durable : Bool}
  {batch : PublishBatch} {e : BrokerError}

theorem admitBatch_eq_ok (h : topic.admitBatch firstId timestampNs availableAtMs entries = .ok batch) :
    topic.manifest.deleted = false ∧
      (topic.hasDurableChannels = true ∨ topic.manifest.unroutedFromPosition ≠ none) ∧
      recordError topic.featureLevel batch.payloadLen = none ∧
      batch = topic.nextBatch firstId timestampNs availableAtMs entries := by
  unfold admitBatch at h
  split_ifs at h with hdeleted hheld
  dsimp only at h
  split at h
  · cases h
  · rename_i hrecord
    cases h
    refine ⟨Bool.eq_false_iff.2 hdeleted, ?_, hrecord, rfl⟩
    by_cases hdurable : topic.hasDurableChannels = true
    · exact Or.inl hdurable
    · exact Or.inr fun hnone => hheld ⟨Bool.eq_false_iff.2 hdurable, hnone⟩

theorem writeBatch_eq_ok (h : topic.writeBatch batch durable = .ok (topic', writes)) :
    let log := topic.log.append topic.maxSegmentBytes batch durable
    ∃ messages after more,
      topic.messages.append (batch.metas log.files.current.base
        (log.files.current.encodedLen - LogEntry.encodedLen batch)) = .ok messages ∧
      ({ topic with
        log := log
        messages := messages
        publishedCount := satAdd u64Max topic.publishedCount batch.entries.length }.afterAppend
          (topic.needsRoom batch) topic.log.files.current.base topic.lastPosition) =
        .ok (after, more) ∧
      topic' = after.advance batch.entries.length durable ∧
      writes = topic.appendWrites batch durable ++ more := by
  obtain ⟨messages, hmessages, h⟩ := bind_eq_ok.1 h
  obtain ⟨⟨after, more⟩, hafter, h⟩ := bind_eq_ok.1 h
  cases h
  exact ⟨messages, after, more, hmessages, hafter, rfl, rfl⟩

/-- **A publish adds its batch** behind the other records. -/
theorem writeBatch_records (h : topic.writeBatch batch durable = .ok (topic', writes)) :
    topic'.log.files.records = topic.log.files.records ++ [batch] := by
  obtain ⟨messages, after, more, -, hafter, rfl, -⟩ := writeBatch_eq_ok h
  rw [advance_log, afterAppend_log hafter]
  exact RecordLog.records_append _ _ _

/-! ### How a write fails -/

theorem MessageIndex.extendActive_error {index : MessageIndex} {messages : List MessageMeta}
    (h : index.extendActive messages = .error e) : e.isStorageError = true := by
  unfold MessageIndex.extendActive at h
  dsimp only at h
  split_ifs at h <;> cases h <;> rfl

theorem MessageIndex.pushSealed_error {index : MessageIndex} {segment : SealedMessages}
    (h : index.pushSealed segment = .error e) : e.isStorageError = true := by
  unfold MessageIndex.pushSealed at h
  split_ifs at h
  cases h
  rfl

theorem MessageIndex.sealPath_error {index : MessageIndex} {path : ℕ} {metadata : RecoveryMetadataRef}
    (h : index.sealPath path metadata = .error e) : e.isStorageError = true := by
  unfold MessageIndex.sealPath at h
  dsimp only at h
  split at h
  · exact MessageIndex.pushSealed_error h
  · cases h
    rfl

theorem persistSegmentIndex_error {path : ℕ} (h : topic.persistSegmentIndex path = .error e) :
    e.isStorageError = true := by
  unfold persistSegmentIndex at h
  split at h
  · cases h
    rfl
  · rcases bind_eq_error.1 h with hseal | ⟨messages, -, hpure⟩
    · exact MessageIndex.sealPath_error hseal
    · cases hpure

/-- An outcome of two steps fails with the error of one of them. -/
theorem andThen_eq_error {first : Outcome} {next : Topic → Outcome}
    (h : first.andThen next = .error e) :
    first = .error e ∨ ∃ middle before, first = .ok (middle, before) ∧ next middle = .error e := by
  cases hfirst : first with
  | error e' =>
    rw [hfirst] at h
    cases h
    exact Or.inl rfl
  | ok result =>
    obtain ⟨middle, before⟩ := result
    rw [hfirst, Outcome.andThen] at h
    cases hnext : next middle with
    | error e' =>
      rw [hnext] at h
      cases h
      exact Or.inr ⟨middle, before, rfl, hnext⟩
    | ok rest =>
      rw [hnext] at h
      cases h

theorem writeBatch_error (h : topic.writeBatch batch durable = .error e) : e.isStorageError = true := by
  rcases bind_eq_error.1 h with hmessages | ⟨messages, -, hrest⟩
  · exact MessageIndex.extendActive_error hmessages
  rcases bind_eq_error.1 hrest with hafter | ⟨⟨after, more⟩, -, hpure⟩
  · unfold afterAppend at hafter
    split_ifs at hafter
    rcases andThen_eq_error hafter with hpersist | ⟨middle, before, -, hreset⟩
    · exact persistSegmentIndex_error hpersist
    · cases hreset
  · cases hpure

end Topic

end RustQueue
