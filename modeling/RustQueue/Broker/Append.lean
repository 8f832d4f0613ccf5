import RustQueue.Broker.Publish
import RustQueue.Topic.Records

/-!
# Appending a publish to its topic

A publish reserves a run of message ids, encodes its bodies behind the last position of the topic, and
appends them as one record (`append_publish_to_topic`).  `prepareBatch` is what happens before the record is
written, and `Topic.writeBatch` the rest; the sequence of ids is shared by all topics of a broker, so it is
an argument.

* `reserveIds_eq_ok`: reserved ids are a run of 64-bit numbers;
* `prepareBatch_eq_ok`: the entries of a batch are the bodies in their order, under that run.
-/

namespace RustQueue.Broker

open Lib Storage Topic

/-! ### Message ids -/

def maxSequence : ℕ := 2 ^ 48 - 1

def sequenceReservation : ℕ := 2 ^ 20

/-- The next number of the node, and the end of the numbers that its metadata file reserves. -/
structure Sequence where
  next : ℕ
  reservedExclusive : ℕ
  deriving DecidableEq, Repr

/-- An id is the number of the node and one of its sequence. -/
def messageId (nodeId number : ℕ) : ℕ := (nodeId <<< 48) % 2 ^ 64 ||| number

/-- The end of the reservation moves, which is stored first. -/
def Sequence.extend (sequence : Sequence) (count : ℕ) (store : Except BrokerError Unit) :
    Except BrokerError Sequence :=
  if sequence.reservedExclusive < sequence.next + count then do
    store
    return { sequence with
      reservedExclusive := min (satAdd u64Max sequence.next (max sequenceReservation count))
        (maxSequence + 1) }
  else .ok sequence

/-- The first of `count` ids.  `store` is how the write of the metadata file ends, if there is one. -/
def reserveIds (nodeId : ℕ) (sequence : Sequence) (count : ℕ) (store : Except BrokerError Unit) :
    Except BrokerError (ℕ × Sequence) :=
  if maxSequence + 1 < sequence.next + count then .error .sequenceExhausted
  else do
    let extended ← sequence.extend count store
    return (messageId nodeId sequence.next, { extended with next := sequence.next + count })

theorem messageId_eq {nodeId number : ℕ} (h : number < 2 ^ 48) :
    messageId nodeId number = (nodeId % 2 ^ 16) * 2 ^ 48 + number := by
  have hshift : (nodeId <<< 48) % 2 ^ 64 = (nodeId % 2 ^ 16) <<< 48 := by
    rw [Nat.shiftLeft_eq, Nat.shiftLeft_eq, show (2 : ℕ) ^ 64 = 2 ^ 16 * 2 ^ 48 by rfl,
      Nat.mul_mod_mul_right]
  rw [messageId, hshift, ← Nat.shiftLeft_add_eq_or_of_lt h, Nat.shiftLeft_eq]

/-- Reserved ids are 64-bit numbers, the last one included. -/
theorem reserveIds_eq_ok {nodeId count firstId : ℕ} {sequence sequence' : Sequence}
    {store : Except BrokerError Unit}
    (h : reserveIds nodeId sequence count store = .ok (firstId, sequence')) (hcount : 0 < count) :
    firstId = messageId nodeId sequence.next ∧ sequence'.next = sequence.next + count ∧
      firstId + count ≤ u64Max + 1 := by
  unfold reserveIds at h
  split_ifs at h with hexhausted
  obtain ⟨extended, -, hpure⟩ := bind_eq_ok.1 h
  cases hpure
  have hend : sequence.next + count ≤ 2 ^ 48 := not_lt.1 hexhausted
  have hnode : nodeId % 2 ^ 16 ≤ 2 ^ 16 - 1 := by omega
  refine ⟨rfl, rfl, ?_⟩
  rw [messageId_eq (by omega), u64Max]
  omega

/-! ### Encoding and appending -/

/-- The times at which a publish is appended. -/
structure Clock where
  nowNs : ℤ
  nowMs : ℤ
  deriving DecidableEq, Repr

def Clock.availableAtMs (clock : Clock) (delayMs : ℕ) : ℤ := clampI64 (clock.nowMs + min (delayMs : ℤ) i64Max)

/-- The parameters of the broker that a publish reads. -/
structure PublishSettings where
  nodeId : ℕ
  crc32c : List UInt8 → UInt32

variable (settings : PublishSettings)

/-- Everything before the record is written. -/
def prepareBatch (topic : Topic) (bodies : List (List UInt8)) (delayMs : ℕ) (clock : Clock)
    (sequence : Sequence) (store : Except BrokerError Unit) : Except BrokerError PublishBatch := do
  let (firstId, _) ← reserveIds settings.nodeId sequence bodies.length store
  let entries ← encode settings.crc32c topic.nextPosition firstId bodies
  topic.admitBatch firstId clock.nowNs (clock.availableAtMs delayMs) entries

/-- Entry after entry, the next id and the next body. -/
theorem encodeFrom_eq_ok {crc32c : List UInt8 → UInt32} {position id offset : ℕ}
    {bodies : List (List UInt8)} {entries : List EncodedEntry}
    (h : encodeFrom crc32c position id offset bodies = .ok entries)
    (hid : id + bodies.length ≤ u64Max + 1) :
    entries.map EncodedEntry.id = List.range' id bodies.length ∧
      entries.map EncodedEntry.body = bodies := by
  induction bodies generalizing position id offset entries with
  | nil =>
    cases h
    exact ⟨rfl, rfl⟩
  | cons body bodies ih =>
    rw [List.length_cons] at hid
    unfold encodeFrom at h
    split_ifs at h
    obtain ⟨rest, hrest, hpure⟩ := bind_eq_ok.1 h
    cases hpure
    -- the last id of a run may be the greatest of all; its successor is used by no entry
    cases bodies with
    | nil =>
      cases hrest
      exact ⟨rfl, rfl⟩
    | cons next bodies =>
      rw [List.length_cons] at hid
      rw [satSucc_eq (a := id) (by omega)] at hrest
      obtain ⟨hids, hbodies⟩ := ih hrest (by rw [List.length_cons]; omega)
      rw [List.map_cons, hids, List.map_cons, hbodies]
      exact ⟨rfl, rfl⟩

variable {settings} {topic : Topic} {bodies : List (List UInt8)} {delayMs : ℕ} {clock : Clock}
  {sequence : Sequence} {store : Except BrokerError Unit} {batch : PublishBatch}

/-- The ids of a batch of bodies are consecutive. -/
def IdsFor (bodies : List (List UInt8)) (ids : List ℕ) : Prop :=
  ∃ first, ids = List.range' first bodies.length

theorem prepareBatch_eq_ok (h : prepareBatch settings topic bodies delayMs clock sequence store = .ok batch) :
    IdsFor bodies (batch.entries.map EncodedEntry.id) ∧ batch.entries.map EncodedEntry.body = bodies := by
  obtain ⟨⟨firstId, sequence'⟩, hreserve, hrest⟩ := bind_eq_ok.1 h
  obtain ⟨entries, hencode, hadmit⟩ := bind_eq_ok.1 hrest
  obtain ⟨-, -, -, rfl⟩ := admitBatch_eq_ok hadmit
  cases bodies with
  | nil =>
    cases hencode
    exact ⟨⟨0, rfl⟩, rfl⟩
  | cons body bodies =>
    obtain ⟨-, -, hend⟩ := reserveIds_eq_ok hreserve (Nat.succ_pos _)
    obtain ⟨hids, hbodies⟩ := encodeFrom_eq_ok hencode hend
    exact ⟨⟨firstId, hids⟩, hbodies⟩

end RustQueue.Broker
