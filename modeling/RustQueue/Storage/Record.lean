import RustQueue.Error
import RustQueue.Lib.BigEndian
import RustQueue.Lib.Crc32c
import RustQueue.Lib.Framing

/-!
# Records of the segment log, byte by byte

A record is a header of 48 bytes and a payload.  The header carries the magic `RQV7`, the
version, six fields of the record, the length of the payload, and a CRC over the first 44
bytes of the header and the payload.  Both the writer and the scanner compute that CRC piece
by piece, the writer over the parts of a payload and the scanner over a read buffer, and all
that is assumed of the checksum is that the pieces do not matter (`Crc32c.Chunked`).

`recordWriter` states the round trip: a record whose fields fit their machine words is read
back by the scanner of a segment as it was written.
-/

namespace RustQueue.Storage

open Lib

/-- A checksum that can be continued over further input. -/
structure Crc32c where
  sum : List UInt8 → UInt32
  append : UInt32 → List UInt8 → UInt32

/-- Continuing a checksum is taking it over the concatenation. -/
def Crc32c.Chunked (crc : Crc32c) : Prop := ∀ a b, crc.append (crc.sum a) b = crc.sum (a ++ b)

variable {crc : Crc32c}

theorem Crc32c.Chunked.foldl (h : crc.Chunked) (a : List UInt8) (parts : List (List UInt8)) :
    parts.foldl crc.append (crc.sum a) = crc.sum (a ++ parts.flatten) := by
  induction parts generalizing a with
  | nil => simp
  | cons part parts ih => rw [List.foldl_cons, h, ih, List.flatten_cons, List.append_assoc]

/-- What is assumed of the checksum: it can be taken piece by piece, from zero on. -/
structure Crc32c.Lawful (crc : Crc32c) : Prop where
  chunked : crc.Chunked
  empty : crc.sum [] = 0

/-- The checksum itself. -/
def Crc32c.castagnoli : Crc32c := ⟨crc32cSum, crc32cAppend⟩

theorem Crc32c.castagnoli_lawful : castagnoli.Lawful :=
  ⟨crc32cAppend_append 0, by decide⟩

inductive RecordKind where
  | publishBatch
  | evictionGap
  | noop
  deriving DecidableEq, Repr

namespace RecordKind

def toByte : RecordKind → UInt8
  | .publishBatch => 1
  | .evictionGap => 2
  | .noop => 3

def ofByte (value : UInt8) : Except String RecordKind :=
  if value = 1 then .ok .publishBatch
  else if value = 2 then .ok .evictionGap
  else if value = 3 then .ok .noop
  else .error s!"unknown record kind {value}"

theorem ofByte_toByte (kind : RecordKind) : ofByte kind.toByte = .ok kind := by
  cases kind <;> rfl

end RecordKind

/-- The name of a kind as the derived `Debug` prints it. -/
def RecordKind.debugName : RecordKind → String
  | .publishBatch => "PublishBatch"
  | .evictionGap => "EvictionGap"
  | .noop => "Noop"

def headerLen : ℕ := 48
def legacyMaxRecordBytes : ℕ := 72 * 1024 * 1024
def maxRecordBytes : ℕ := 160 * 1024 * 1024

def RecordKind.requiredWriterFeatureLevel (kind : RecordKind) (payloadLen : ℕ) : ℕ :=
  match kind with
  | .publishBatch => if legacyMaxRecordBytes < payloadLen then 2 else 1
  | .evictionGap => 1
  | .noop => 1

structure RecordHeader where
  kind : RecordKind
  flags : ℕ
  index : ℕ
  timestampNs : ℤ
  messageId : ℕ
  availableAtMs : ℤ
  deriving DecidableEq, Repr

structure Record where
  header : RecordHeader
  payload : List UInt8
  deriving DecidableEq, Repr

/-- The magic `RQV7` and the version. -/
def recordMagic : List UInt8 := [0x52, 0x51, 0x56, 0x37, 7]

/-- The first 44 bytes of a header. -/
def RecordHeader.fields (header : RecordHeader) (payloadLen : ℕ) : List UInt8 :=
  recordMagic ++ (header.kind.toByte :: (toBytes 2 header.flags ++ (toBytes 8 header.index ++
    (toBytes 8 (ofInt 8 header.timestampNs) ++ (toBytes 8 header.messageId ++
      (toBytes 8 (ofInt 8 header.availableAtMs) ++ toBytes 4 payloadLen))))))

/-- The header of a record whose payload is given in parts. -/
def RecordHeader.encode (crc : Crc32c) (header : RecordHeader) (payload : List (List UInt8)) :
    Except String (List UInt8) :=
  let payloadLen := (payload.map List.length).sum
  if maxRecordBytes < payloadLen then .error "record payload exceeds storage limit"
  else
    let fields := header.fields payloadLen
    .ok (fields ++ toBytes 4 (payload.foldl crc.append (crc.sum fields)).toNat)

def RecordHeader.decode (header : List UInt8) : Except String RecordHeader :=
  if slice header 0 5 ≠ recordMagic then .error "invalid record magic or version"
  else
    match RecordKind.ofByte (header.getD 5 0) with
    | .error e => .error e
    | .ok kind =>
      .ok
        { kind := kind
          flags := ofBytes (slice header 6 8)
          index := ofBytes (slice header 8 16)
          timestampNs := toInt 8 (ofBytes (slice header 16 24))
          messageId := ofBytes (slice header 24 32)
          availableAtMs := toInt 8 (ofBytes (slice header 32 40)) }

def Record.payloadLen (header : List UInt8) : Except String ℕ :=
  if slice header 0 5 ≠ recordMagic then .error "invalid record magic or version"
  else if maxRecordBytes < ofBytes (slice header 40 44) then
    .error "record payload exceeds storage limit"
  else .ok (ofBytes (slice header 40 44))

/-! ### The round trip of a header -/

/-- Every field holds a value of its machine word. -/
structure RecordHeader.Fits (header : RecordHeader) : Prop where
  flags : header.flags ≤ u16Max
  index : IsU64 header.index
  timestampNs : IsI64 header.timestampNs
  messageId : IsU64 header.messageId
  availableAtMs : IsI64 header.availableAtMs

/-- The bytes of a header with a given checksum word. -/
def RecordHeader.bytes (header : RecordHeader) (payloadLen : ℕ) (sum : UInt32) : List UInt8 :=
  header.fields payloadLen ++ toBytes 4 sum.toNat

theorem RecordHeader.length_bytes (header : RecordHeader) (payloadLen : ℕ) (sum : UInt32) :
    (header.bytes payloadLen sum).length = headerLen := by
  simp [RecordHeader.bytes, RecordHeader.fields, recordMagic, headerLen]

theorem RecordHeader.decode_bytes {header : RecordHeader} (h : header.Fits) (payloadLen : ℕ)
    (sum : UInt32) : RecordHeader.decode (header.bytes payloadLen sum) = .ok header := by
  have hmagic : slice (header.bytes payloadLen sum) 0 5 = recordMagic := rfl
  have hkind : (header.bytes payloadLen sum).getD 5 0 = header.kind.toByte := rfl
  have hflags : slice (header.bytes payloadLen sum) 6 8 = toBytes 2 header.flags := rfl
  have hindex : slice (header.bytes payloadLen sum) 8 16 = toBytes 8 header.index := rfl
  have htime : slice (header.bytes payloadLen sum) 16 24 =
      toBytes 8 (ofInt 8 header.timestampNs) := rfl
  have hid : slice (header.bytes payloadLen sum) 24 32 = toBytes 8 header.messageId := rfl
  have havailable : slice (header.bytes payloadLen sum) 32 40 =
      toBytes 8 (ofInt 8 header.availableAtMs) := rfl
  rw [RecordHeader.decode, hmagic, hkind, hflags, hindex, htime, hid, havailable,
    if_neg (by simp), RecordKind.ofByte_toByte, ofBytes_toBytes_u16 h.flags,
    ofBytes_toBytes_u64 h.index, toInt_ofBytes_i64 h.timestampNs, ofBytes_toBytes_u64 h.messageId,
    toInt_ofBytes_i64 h.availableAtMs]

theorem Record.payloadLen_bytes (header : RecordHeader) {payloadLen : ℕ} (sum : UInt32)
    (h : payloadLen ≤ maxRecordBytes) :
    Record.payloadLen (header.bytes payloadLen sum) = .ok payloadLen := by
  have hmagic : slice (header.bytes payloadLen sum) 0 5 = recordMagic := rfl
  have hlen : slice (header.bytes payloadLen sum) 40 44 = toBytes 4 payloadLen := rfl
  have hword : ofBytes (toBytes 4 payloadLen) = payloadLen := by
    refine ofBytes_toBytes_of_lt ?_
    unfold maxRecordBytes at h
    omega
  rw [Record.payloadLen, hmagic, hlen, hword, if_neg (by simp), if_neg (not_lt.2 h)]

/-! ### Scanning a segment -/

/-- The checksum of a payload, read through a buffer of 64 KiB. -/
def Crc32c.readPayload (crc : Crc32c) (sum : UInt32) (payload : List UInt8) : UInt32 :=
  if payload.length = 0 then sum
  else crc.readPayload (crc.append sum (payload.take (64 * 1024))) (payload.drop (64 * 1024))
termination_by payload.length
decreasing_by
  rw [List.length_drop]
  omega

theorem Crc32c.Chunked.readPayload (h : crc.Chunked) (a payload : List UInt8) :
    crc.readPayload (crc.sum a) payload = crc.sum (a ++ payload) := by
  induction hlen : payload.length using Nat.strong_induction_on generalizing a payload with
  | h n ih =>
    rw [Crc32c.readPayload]
    split_ifs with hempty
    · rw [List.eq_nil_of_length_eq_zero hempty, List.append_nil]
    · have hshorter : (payload.drop (64 * 1024)).length < n := by
        rw [List.length_drop]
        omega
      rw [h, ih _ hshorter _ _ rfl, List.append_assoc, List.take_append_drop]

theorem Crc32c.Lawful.readPayload_zero (h : crc.Lawful) (payload : List UInt8) :
    crc.readPayload 0 payload = crc.sum payload := by
  rw [← h.empty, h.chunked.readPayload, List.nil_append]

/-- A header and the payload behind it, checked against the checksum. -/
def decodeRecord (crc : Crc32c) (path offset : ℕ) (header payload : List UInt8) :
    Except StorageError Record :=
  match RecordHeader.decode header with
  | .error reason => .error (.corrupt path offset reason)
  | .ok decoded =>
    if (crc.readPayload (crc.sum (slice header 0 44)) payload).toNat ≠
        ofBytes (slice header 44 48) then
      .error (.corrupt path offset "record checksum mismatch")
    else .ok { header := decoded, payload := payload }

/-- The frames of a segment.  Only the last segment of a log may be cut back to its last whole
frame, any other one must end with a frame. -/
def segmentFormat (crc : Crc32c) (path : ℕ) (allowTailRepair : Bool) :
    FrameFormat Record StorageError where
  headerLen := headerLen
  headerLen_pos := by decide
  bodyLen offset header := (Record.payloadLen header).mapError (.corrupt path offset)
  decode offset _ header payload := decodeRecord crc path offset header payload
  tornHeader offset :=
    if allowTailRepair then .ok () else .error (.corrupt path offset "partial record header")
  tornBody offset :=
    if allowTailRepair then .ok () else .error (.corrupt path offset "partial record payload")

def Record.encodedLen (record : Record) : ℕ := headerLen + record.payload.length

/-- The bytes of a record in a segment. -/
def Record.bytes (crc : Crc32c) (record : Record) : List UInt8 :=
  record.header.bytes record.payload.length
    (crc.sum (record.header.fields record.payload.length ++ record.payload)) ++ record.payload

theorem Record.length_bytes (crc : Crc32c) (record : Record) :
    (record.bytes crc).length = record.encodedLen := by
  rw [Record.bytes, List.length_append, RecordHeader.length_bytes, Record.encodedLen]

/-- The writer's header and the parts of its payload are the bytes of the record. -/
theorem RecordHeader.encode_append (h : crc.Chunked) {header : RecordHeader}
    {payload : List (List UInt8)} {bytes : List UInt8} (hencode : header.encode crc payload = .ok bytes) :
    bytes ++ payload.flatten = Record.bytes crc ⟨header, payload.flatten⟩ ∧
      payload.flatten.length ≤ maxRecordBytes := by
  have hsum : (payload.map List.length).sum = payload.flatten.length := List.length_flatten.symm
  rw [RecordHeader.encode, hsum] at hencode
  dsimp only at hencode
  split_ifs at hencode with hlarge
  rw [h.foldl] at hencode
  injection hencode with hencode
  refine ⟨?_, not_lt.1 hlarge⟩
  rw [← hencode]
  rfl

/-- A record that a segment can hold. -/
structure Record.Fits (record : Record) : Prop where
  header : record.header.Fits
  payload : record.payload.length ≤ maxRecordBytes

/-- **The round trip of a record** through the bytes of a segment. -/
theorem Record.frame (h : crc.Chunked) (path : ℕ) (allowTailRepair : Bool) {record : Record}
    (hfits : record.Fits) (offset ordinal : ℕ) :
    (segmentFormat crc path allowTailRepair).Frame offset ordinal record (record.bytes crc) := by
  have hlength := Record.length_bytes crc record
  have hheader : (record.bytes crc).take headerLen = record.header.bytes record.payload.length
      (crc.sum (record.header.fields record.payload.length ++ record.payload)) :=
    List.take_left' (RecordHeader.length_bytes _ _ _)
  have hpayload : (record.bytes crc).drop headerLen = record.payload :=
    List.drop_left' (RecordHeader.length_bytes _ _ _)
  refine ⟨⟨?_, ?_⟩, ?_⟩
  · show headerLen ≤ _
    rw [hlength]
    exact Nat.le_add_right _ _
  · show (Record.payloadLen ((record.bytes crc).take headerLen)).mapError _ = .ok (_ - headerLen)
    rw [hheader, Record.payloadLen_bytes _ _ hfits.payload, hlength, Record.encodedLen,
      Nat.add_sub_cancel_left]
    rfl
  · have hfields : ∀ sum, slice (record.header.bytes record.payload.length sum) 0 44 =
        record.header.fields record.payload.length := fun _ => rfl
    have hsum : ∀ sum, slice (record.header.bytes record.payload.length sum) 44 48 =
        toBytes 4 sum.toNat := fun _ => rfl
    show decodeRecord crc path offset ((record.bytes crc).take headerLen)
      ((record.bytes crc).drop headerLen) = .ok record
    rw [hheader, hpayload, decodeRecord, RecordHeader.decode_bytes hfits.header]
    dsimp only
    rw [hfields, hsum, h.readPayload, ofBytes_toBytes_u32, if_neg (by simp)]

/-- Segments are files of framed records, as many as there are. -/
def recordWriter {crc : Crc32c} (h : crc.Chunked) (path : ℕ) (allowTailRepair : Bool) (limit : ℕ) :
    (segmentFormat crc path allowTailRepair).Writer Record.Fits limit where
  encode := Record.bytes crc
  headed offset {_} hfits := (Record.frame h path allowTailRepair hfits offset 0).toHeaded
  frame offset {_ _} hfits _ := Record.frame h path allowTailRepair hfits offset _

end RustQueue.Storage
