import RustQueue.Lib.Result
import RustQueue.Storage.Segment
import RustQueue.Topic.Batch

/-!
# The bytes of a publish batch

A batch is one record of the segment log.  Its payload is the number of messages, and for each of
them a header with position, id and length, followed by the body (`parts`).  `metasFromReader` walks over
the payload when a segment is scanned: it checks the numbering and computes the checksum of every body anew.

* `Laid`: what `encode` says of the entries it makes;
* `metasFromReader_parts`: a scan of a batch returns the metadata that was kept when it was appended;
* `metasFromReader_eq_ok`: what a scan accepts is the encoding of some bodies;
* `batch_round_trip`: both, and where the bodies lie.
-/

namespace RustQueue.Topic

open Lib Storage

/-! ### Writing -/

variable (entry : EncodedEntry)

def EncodedEntry.header : List UInt8 :=
  toBytes 8 entry.position ++ (toBytes 8 entry.id ++ toBytes 4 entry.body.length)

/-- The bytes of one message. -/
def EncodedEntry.bytes : List UInt8 := entry.header ++ entry.body

/-- The payload of a batch, in the parts in which it is written. -/
def parts (entries : List EncodedEntry) : List (List UInt8) :=
  toBytes 4 entries.length :: entries.flatMap fun entry => [entry.header, entry.body]

variable (batch : PublishBatch)

/-- The metadata that is kept when a batch has been appended. -/
def metasAfterAppend (timestampNs availableAtMs : ℤ) (location : RecordLocation)
    (entries : List EncodedEntry) : List MessageMeta :=
  entries.map fun entry =>
    { position := entry.position
      id := entry.id
      timestampNs := timestampNs
      availableAtMs := availableAtMs
      logIndex := location.index
      payload :=
        { path := location.segment
          offset := location.offset + headerLen + entry.bodyOffset
          len := entry.body.length
          crc32c := entry.crc32c } }

/-! ### Reading -/

/-- The next `count` messages of a payload and the offset behind them.  `first` is the position of
the first message, once it is known. -/
def readEntries (crc : Crc32c) (header : RecordHeader) (payloadLen : ℕ) (location : RecordLocation) :
    ℕ → ℕ → Option ℕ → ℕ → List UInt8 → Except StorageError (List MessageMeta × ℕ)
  | 0, _, _, cursor, _ => .ok ([], cursor)
  | count + 1, ordinal, first, cursor, bytes =>
    if bytes.length < itemHeader then .error (.io "failed to fill whole buffer")
    else
      let position := ofBytes (slice bytes 0 8)
      let id := ofBytes (slice bytes 8 16)
      let len := ofBytes (slice bytes 16 20)
      let bodyOffset := cursor + itemHeader
      let basePosition := first.getD position
      if payloadLen < bodyOffset + len then .error (.io "publish batch body is truncated")
      else if u64Max < basePosition + ordinal then .error (.io "publish batch position overflow")
      else if u64Max < header.messageId + ordinal then
        .error (.io "publish batch message ID overflow")
      else if position ≠ basePosition + ordinal ∨ id ≠ header.messageId + ordinal then
        .error (.io "publish batch positions or message IDs are not contiguous")
      else
        let body := (bytes.drop itemHeader).take len
        if body.length < len then .error (.io "failed to fill whole buffer")
        else do
          let (output, stop) ← readEntries crc header payloadLen location count (ordinal + 1)
            (some basePosition) (bodyOffset + len) (bytes.drop (itemHeader + len))
          return (⟨position, id, header.timestampNs, header.availableAtMs, location.index,
            ⟨location.segment, location.offset + headerLen + bodyOffset, len,
              (crc.readPayload 0 body).toNat⟩⟩ :: output, stop)

def metasFromReader (crc : Crc32c) (header : RecordHeader) (payload : List UInt8)
    (location : RecordLocation) : Except StorageError (List MessageMeta) :=
  if payload.length < 4 then .error (.io "publish batch is truncated")
  else
    let count := ofBytes (payload.take 4)
    if count = 0 ∨ maxMessages < count ∨ (payload.length - 4) / itemHeader < count then
      .error (.io "publish batch count is invalid")
    else do
      let (output, cursor) ← readEntries crc header payload.length location count 0 none 4
        (payload.drop 4)
      if cursor ≠ payload.length then .error (.io "publish batch has trailing bytes")
      else return output

/-! ### What the encoder guarantees -/

/-- Entries that lie one behind the other from a payload offset on, numbered without a gap. -/
def Laid (crc : Crc32c) : ℕ → ℕ → ℕ → List EncodedEntry → Prop
  | _, _, _, [] => True
  | position, id, offset, entry :: entries =>
    entry.position = position ∧ entry.id = id ∧ entry.bodyOffset = offset + itemHeader ∧
      entry.body.length ≤ u32Max ∧ entry.crc32c = (crc.sum entry.body).toNat ∧
      Laid crc (position + 1) (id + 1) (offset + itemHeader + entry.body.length) entries

variable {crc : Crc32c} {position id offset : ℕ} {entries : List EncodedEntry}
  {bodies : List (List UInt8)}

/-- As long as the numbers do not saturate, entries are laid out in order and hold the bodies. -/
theorem laid_encodeFrom (h : encodeFrom crc.sum position id offset bodies = .ok entries)
    (hposition : position + bodies.length ≤ u64Max + 1) (hid : id + bodies.length ≤ u64Max + 1) :
    Laid crc position id offset entries ∧ entries.map EncodedEntry.body = bodies := by
  induction bodies generalizing position id offset entries with
  | nil =>
    cases h
    exact ⟨trivial, rfl⟩
  | cons body bodies ih =>
    rw [encodeFrom] at h
    split_ifs at h with hlong
    obtain ⟨rest, hrest, h⟩ := bind_eq_ok.1 h
    cases h
    rw [List.length_cons] at hposition hid
    cases bodies with
    | nil =>
      cases hrest
      exact ⟨⟨rfl, rfl, rfl, not_lt.1 hlong, rfl, trivial⟩, rfl⟩
    | cons next bodies =>
      rw [List.length_cons] at hposition hid
      rw [satSucc_eq (by omega), satSucc_eq (by omega)] at hrest
      obtain ⟨hlaid, hbodies⟩ := ih hrest (by rw [List.length_cons]; omega)
        (by rw [List.length_cons]; omega)
      refine ⟨⟨rfl, rfl, rfl, not_lt.1 hlong, rfl, hlaid⟩, ?_⟩
      rw [List.map_cons, hbodies]

theorem Laid.consecutive (h : Laid crc position id offset entries) :
    Consecutive EncodedEntry.position position entries ∧ Consecutive EncodedEntry.id id entries := by
  induction entries generalizing position id offset with
  | nil => exact ⟨consecutive_nil, consecutive_nil⟩
  | cons entry entries ih =>
    obtain ⟨hposition, hid, -, -, -, hrest⟩ := h
    obtain ⟨hpositions, hids⟩ := ih hrest
    exact ⟨consecutive_cons.2 ⟨hposition, hpositions⟩, consecutive_cons.2 ⟨hid, hids⟩⟩

/-- An entry of a batch lies within its payload. -/
theorem Laid.mem {entry : EncodedEntry} (h : Laid crc position id offset entries) (hentry : entry ∈ entries) :
    position ≤ entry.position ∧ entry.position < position + entries.length ∧ id ≤ entry.id ∧
      entry.id < id + entries.length ∧ entry.body.length ≤ u32Max ∧
      entry.crc32c = (crc.sum entry.body).toNat ∧
      entry.bodyOffset + entry.body.length ≤
        offset + (entries.map fun entry => itemHeader + entry.body.length).sum := by
  induction entries generalizing position id offset with
  | nil => simp at hentry
  | cons first entries ih =>
    obtain ⟨hposition, hid, hoffset, hshort, hsum, hrest⟩ := h
    rw [List.length_cons, List.map_cons, List.sum_cons]
    rcases List.mem_cons.1 hentry with rfl | hmem
    · exact ⟨by omega, by omega, by omega, by omega, hshort, hsum, by omega⟩
    · obtain ⟨h1, h2, h3, h4, h5, h6, h7⟩ := ih hrest hmem
      exact ⟨by omega, by omega, by omega, by omega, h5, h6, by omega⟩

/-! ### Lengths -/

@[simp] theorem EncodedEntry.length_header : entry.header.length = itemHeader := by
  simp [EncodedEntry.header, itemHeader]

@[simp] theorem EncodedEntry.length_bytes : entry.bytes.length = itemHeader + entry.body.length := by
  rw [EncodedEntry.bytes, List.length_append, EncodedEntry.length_header]

theorem flatten_parts (entries : List EncodedEntry) :
    (parts entries).flatten = toBytes 4 entries.length ++ (entries.map EncodedEntry.bytes).flatten := by
  rw [parts, List.flatten_cons]
  congr 1
  induction entries with
  | nil => rfl
  | cons entry entries ih =>
    rw [List.flatMap_cons, List.flatten_append, ih, List.map_cons, List.flatten_cons]
    simp [EncodedEntry.bytes]

theorem length_flatten_bytes (entries : List EncodedEntry) :
    (entries.map EncodedEntry.bytes).flatten.length =
      (entries.map fun entry => itemHeader + entry.body.length).sum := by
  rw [List.length_flatten, List.map_map]
  congr 1
  exact List.map_congr_left fun entry _ => entry.length_bytes

/-! ### Reading a batch back -/

/-- The entries of a batch are read back, from any of them on. -/
theorem readEntries_bytes (hcrc : crc.Lawful) (header : RecordHeader) (location : RecordLocation)
    {payloadLen ordinal cursor : ℕ} {first : Option ℕ} (h : Laid crc position id cursor entries)
    (hfirst : first.getD position + ordinal = position) (hid : header.messageId + ordinal = id)
    (hpositions : position + entries.length ≤ u64Max + 1) (hids : id + entries.length ≤ u64Max + 1)
    (hlen : cursor + (entries.map EncodedEntry.bytes).flatten.length = payloadLen) :
    readEntries crc header payloadLen location entries.length ordinal first cursor
        (entries.map EncodedEntry.bytes).flatten =
      .ok (metasAfterAppend header.timestampNs header.availableAtMs location entries, payloadLen) := by
  induction entries generalizing position id cursor ordinal first with
  | nil =>
    rw [← hlen]
    rfl
  | cons entry entries ih =>
    obtain ⟨hposition, hentryId, hoffset, hshort, hsum, hrest⟩ := h
    rw [List.length_cons] at hpositions hids
    rw [List.map_cons, List.flatten_cons] at hlen ⊢
    set rest := (entries.map EncodedEntry.bytes).flatten with hrestBytes
    rw [List.length_append, EncodedEntry.length_bytes] at hlen
    have hread : entry.bytes ++ rest = toBytes 8 entry.position ++ (toBytes 8 entry.id ++
        (toBytes 4 entry.body.length ++ (entry.body ++ rest))) := by
      simp [EncodedEntry.bytes, EncodedEntry.header]
    have hlong : ¬(entry.bytes ++ rest).length < itemHeader := by
      rw [List.length_append, EncodedEntry.length_bytes]
      omega
    have hslice0 : slice (entry.bytes ++ rest) 0 8 = toBytes 8 entry.position := by
      rw [hread]
      rfl
    have hslice1 : slice (entry.bytes ++ rest) 8 16 = toBytes 8 entry.id := by
      rw [hread]
      rfl
    have hslice2 : slice (entry.bytes ++ rest) 16 20 = toBytes 4 entry.body.length := by
      rw [hread]
      rfl
    have hword : entry.body.length < 256 ^ 4 := by
      unfold u32Max at hshort
      omega
    have hdrop : (entry.bytes ++ rest).drop itemHeader = entry.body ++ rest := by
      rw [EncodedEntry.bytes, List.append_assoc]
      exact List.drop_left' entry.length_header
    have hnext : (entry.bytes ++ rest).drop (itemHeader + entry.body.length) = rest :=
      List.drop_left' entry.length_bytes
    rw [List.length_cons, readEntries]
    dsimp only
    rw [if_neg hlong, hslice0, hslice1, hslice2, ofBytes_toBytes_u64 (by rw [IsU64]; omega),
      ofBytes_toBytes_u64 (by rw [IsU64]; omega), ofBytes_toBytes_of_lt hword, hposition, hentryId,
      hdrop, hnext, List.take_left, if_neg (by omega), if_neg (by omega), if_neg (by omega),
      if_neg (by omega), if_neg (lt_irrefl _),
      ih hrest (show first.getD position + (ordinal + 1) = position + 1 by omega)
        (by omega) (by omega) (by omega) (by omega), hcrc.readPayload_zero, ← hsum]
    show Except.ok (_ :: _, _) = Except.ok (_ :: _, _)
    rw [← hposition, ← hentryId, ← hoffset]
    rfl

/-- **A scan returns the metadata** that was kept when the batch was appended. -/
theorem metasFromReader_parts (hcrc : crc.Lawful) {header : RecordHeader} (location : RecordLocation)
    (h : Laid crc position header.messageId 4 entries) (hsome : entries ≠ [])
    (hmax : entries.length ≤ maxMessages) (hpositions : position + entries.length ≤ u64Max + 1)
    (hids : header.messageId + entries.length ≤ u64Max + 1) :
    metasFromReader crc header (parts entries).flatten location =
      .ok (metasAfterAppend header.timestampNs header.availableAtMs location entries) := by
  have htake : (parts entries).flatten.take 4 = toBytes 4 entries.length := by
    rw [flatten_parts]
    exact List.take_left' (length_toBytes _ _)
  have hdrop : (parts entries).flatten.drop 4 = (entries.map EncodedEntry.bytes).flatten := by
    rw [flatten_parts]
    exact List.drop_left' (length_toBytes _ _)
  have hlen : 4 + (entries.map EncodedEntry.bytes).flatten.length = (parts entries).flatten.length := by
    rw [flatten_parts, List.length_append, length_toBytes]
  have hcount : ofBytes (toBytes 4 entries.length) = entries.length := by
    refine ofBytes_toBytes_of_lt ?_
    unfold maxMessages at hmax
    omega
  have hroom : entries.length * itemHeader ≤ (entries.map EncodedEntry.bytes).flatten.length := by
    rw [length_flatten_bytes]
    have hsum := List.card_nsmul_le_sum
      (entries.map fun entry => itemHeader + entry.body.length) itemHeader (by simp)
    rwa [List.length_map, smul_eq_mul] at hsum
  have hpos : 0 < entries.length := List.length_pos_iff.2 hsome
  have hfits : ¬((parts entries).flatten.length - 4) / itemHeader < entries.length := by
    rw [not_lt, Nat.le_div_iff_mul_le (by decide)]
    omega
  have hread := readEntries_bytes hcrc header location h
    (show (none : Option ℕ).getD position + 0 = position from rfl) rfl hpositions hids hlen
  rw [metasFromReader, if_neg (by omega)]
  dsimp only
  rw [htake, hcount, if_neg (by omega), hdrop, hread]
  show (if _ then _ else _) = _
  rw [if_neg (not_not.2 rfl)]
  rfl

/-! ### What a scan accepts -/

theorem Laid.encodeFrom (h : Laid crc position id offset entries)
    (hposition : position + entries.length ≤ u64Max + 1) (hid : id + entries.length ≤ u64Max + 1) :
    encodeFrom crc.sum position id offset (entries.map EncodedEntry.body) = .ok entries := by
  induction entries generalizing position id offset with
  | nil => rfl
  | cons entry entries ih =>
    obtain ⟨hentry, hentryId, hoffset, hshort, hsum, hrest⟩ := h
    rw [List.length_cons] at hposition hid
    have htail : Topic.encodeFrom crc.sum (satSucc position) (satSucc id)
        (offset + itemHeader + entry.body.length) (entries.map EncodedEntry.body) = .ok entries := by
      cases entries with
      | nil => rfl
      | cons next entries =>
        rw [List.length_cons] at hposition hid
        rw [satSucc_eq (by omega), satSucc_eq (by omega)]
        exact ih hrest (by rw [List.length_cons]; omega) (by rw [List.length_cons]; omega)
    rw [List.map_cons, Topic.encodeFrom, if_neg (not_lt.2 hshort)]
    refine bind_eq_ok.2 ⟨entries, htail, ?_⟩
    rw [← hentry, ← hentryId, ← hoffset, ← hsum]
    rfl

/-- The bytes of the first entry of a payload, read as an entry. -/
theorem header_read {bytes : List UInt8} (hlong : itemHeader ≤ bytes.length) (body : List UInt8)
    (bodyOffset crc32c : ℕ) (hbody : body.length = ofBytes (slice bytes 16 20)) :
    (⟨ofBytes (slice bytes 0 8), ofBytes (slice bytes 8 16), bodyOffset, body, crc32c⟩ :
      EncodedEntry).header = bytes.take itemHeader := by
  have hlong : 20 ≤ bytes.length := hlong
  show toBytes 8 (ofBytes (slice bytes 0 8)) ++ (toBytes 8 (ofBytes (slice bytes 8 16)) ++
    toBytes 4 body.length) = bytes.take 20
  have hposition : (slice bytes 0 8).length = 8 := length_slice (by omega)
  have hid : (slice bytes 8 16).length = 8 := length_slice (by omega)
  have hlen : (slice bytes 16 20).length = 4 := length_slice (by omega)
  rw [hbody, toBytes_ofBytes_of_length hposition, toBytes_ofBytes_of_length hid,
    toBytes_ofBytes_of_length hlen, slice_append_slice _ (by omega) (by omega),
    slice_append_slice _ (by omega) (by omega)]
  rfl

/-- **What a reader accepts was written by the encoder.**  The entries found start at some position,
the same for all of them, and take up the bytes that were read. -/
theorem readEntries_eq_ok (hcrc : crc.Lawful) {header : RecordHeader} {location : RecordLocation}
    {payloadLen count ordinal cursor stop : ℕ} {first : Option ℕ} {bytes : List UInt8}
    {output : List MessageMeta}
    (h : readEntries crc header payloadLen location count ordinal first cursor bytes =
      .ok (output, stop)) :
    ∃ base entries rest, (∀ p ∈ first, base = p) ∧ entries.length = count ∧
      Laid crc (base + ordinal) (header.messageId + ordinal) cursor entries ∧
      (entries ≠ [] → base + ordinal + count ≤ u64Max + 1 ∧
        header.messageId + ordinal + count ≤ u64Max + 1) ∧
      bytes = (entries.map EncodedEntry.bytes).flatten ++ rest ∧
      stop = cursor + (entries.map EncodedEntry.bytes).flatten.length ∧
      output = metasAfterAppend header.timestampNs header.availableAtMs location entries := by
  induction count generalizing ordinal first cursor bytes output with
  | zero =>
    cases h
    refine ⟨first.getD 0, [], bytes, ?_, rfl, trivial, fun hne => absurd rfl hne, rfl, rfl, rfl⟩
    rintro p hp
    rw [Option.mem_def.1 hp]
    rfl
  | succ count ih =>
    rw [readEntries] at h
    dsimp only at h
    split_ifs at h with hshort htruncated hposition hid hcontiguous hbody
    obtain ⟨⟨tail, final⟩, hrest, htail⟩ := bind_eq_ok.1 h
    obtain ⟨rfl, rfl⟩ := Prod.mk.inj (pure_eq_ok.1 htail)
    obtain ⟨base, entries, rest, hbase, hcount, hlaid, hwords, hbytes, hstop, houtput⟩ := ih hrest
    have hbase := hbase _ rfl
    obtain ⟨heq, heqId⟩ := not_or.1 hcontiguous
    have heq := not_not.1 heq
    have heqId := not_not.1 heqId
    set len := ofBytes (slice bytes 16 20) with hlen
    set body := (bytes.drop itemHeader).take len with hbodyEq
    have hlength : body.length = len :=
      le_antisymm (List.length_take_le _ _) (not_lt.1 hbody)
    have hword : len ≤ u32Max := by
      have hlt := ofBytes_lt (slice bytes 16 20)
      have hfour : (slice bytes 16 20).length = 4 := length_slice (not_lt.1 hshort)
      rw [hfour] at hlt
      exact Nat.le_of_lt_succ hlt
    have hentry : (⟨ofBytes (slice bytes 0 8), ofBytes (slice bytes 8 16), cursor + itemHeader, body,
        (crc.sum body).toNat⟩ : EncodedEntry).bytes ++ bytes.drop (itemHeader + len) = bytes := by
      rw [EncodedEntry.bytes, header_read (not_lt.1 hshort) body _ _ hlength, List.append_assoc]
      show bytes.take itemHeader ++ (body ++ bytes.drop (itemHeader + len)) = bytes
      rw [hbodyEq, ← List.drop_drop, List.take_append_drop, List.take_append_drop]
    refine ⟨base, ⟨ofBytes (slice bytes 0 8), ofBytes (slice bytes 8 16), cursor + itemHeader, body,
      (crc.sum body).toNat⟩ :: entries, rest, ?_, ?_, ⟨?_, heqId, rfl, ?_, rfl, ?_⟩, ?_, ?_, ?_, ?_⟩
    · intro p hp
      rw [hbase, Option.mem_def.1 hp]
      rfl
    · rw [List.length_cons, hcount]
    · rw [hbase]
      exact heq
    · show body.length ≤ u32Max
      omega
    · rw [Nat.add_assoc, Nat.add_assoc]
      show Laid crc _ _ (cursor + itemHeader + body.length) entries
      rw [hlength]
      exact hlaid
    · intro _
      rw [← hbase] at hposition
      by_cases hnil : entries = []
      · rw [hnil] at hcount
        rw [← hcount]
        show base + ordinal + 1 ≤ u64Max + 1 ∧ header.messageId + ordinal + 1 ≤ u64Max + 1
        omega
      · obtain ⟨hp, hi⟩ := hwords hnil
        omega
    · rw [List.map_cons, List.flatten_cons, List.append_assoc, ← hbytes]
      exact hentry.symm
    · rw [hstop, List.map_cons, List.flatten_cons, List.length_append, EncodedEntry.length_bytes]
      show _ = cursor + (itemHeader + body.length + _)
      omega
    · rw [houtput, hcrc.readPayload_zero, ← hlength]
      rfl

/-- A payload that passes the scan is the encoding of some bodies. -/
theorem metasFromReader_eq_ok (hcrc : crc.Lawful) {header : RecordHeader} {payload : List UInt8}
    {location : RecordLocation} {metas : List MessageMeta}
    (h : metasFromReader crc header payload location = .ok metas) :
    ∃ position entries, encode crc.sum position header.messageId (entries.map EncodedEntry.body) =
        .ok entries ∧ entries ≠ [] ∧ entries.length ≤ maxMessages ∧
      position + entries.length ≤ u64Max + 1 ∧ header.messageId + entries.length ≤ u64Max + 1 ∧
      payload = (parts entries).flatten ∧
      metas = metasAfterAppend header.timestampNs header.availableAtMs location entries := by
  unfold metasFromReader at h
  dsimp only at h
  split_ifs at h with hshort hcount
  obtain ⟨⟨output, cursor⟩, hread, hend⟩ := bind_eq_ok.1 h
  dsimp only at hend
  split_ifs at hend with htrailing
  have houtput : output = metas := pure_eq_ok.1 hend
  obtain ⟨position, entries, rest, -, hlength, hlaid, hwords, hbytes, hstop, hmetas⟩ :=
    readEntries_eq_ok hcrc hread
  have hfour : (payload.take 4).length = 4 := by
    rw [List.length_take]
    omega
  have hsome : entries ≠ [] := by
    rintro rfl
    exact hcount (Or.inl hlength.symm)
  obtain ⟨hpositions, hids⟩ := hwords hsome
  have hrest : rest = [] := by
    have htotal := congrArg List.length hbytes
    rw [List.length_drop, List.length_append] at htotal
    have hcursor := not_not.1 htrailing
    exact List.length_eq_zero_iff.1 (by omega)
  refine ⟨position, entries, hlaid.encodeFrom (by omega) (by omega), hsome, by omega, by omega, by omega,
    ?_, houtput ▸ hmetas⟩
  rw [hrest, List.append_nil] at hbytes
  rw [flatten_parts, hlength, toBytes_ofBytes_of_length hfour, ← hbytes, List.take_append_drop]

/-- The body of an entry lies at its offset of the payload. -/
theorem Laid.body_at (h : Laid crc position id offset entries) {front : List UInt8}
    (hfront : front.length = offset) {entry : EncodedEntry} (hentry : entry ∈ entries) :
    ((front ++ (entries.map EncodedEntry.bytes).flatten).drop entry.bodyOffset).take
      entry.body.length = entry.body := by
  induction entries generalizing position id offset front with
  | nil => simp at hentry
  | cons first entries ih =>
    obtain ⟨-, -, hoffset, -, -, hrest⟩ := h
    rw [List.map_cons, List.flatten_cons]
    rcases List.mem_cons.1 hentry with rfl | hentry
    · have hlength : (front ++ entry.header).length = entry.bodyOffset := by
        rw [List.length_append, hfront, EncodedEntry.length_header, hoffset]
      rw [EncodedEntry.bytes, List.append_assoc, ← List.append_assoc front,
        List.drop_left' hlength, List.take_left]
    · rw [← List.append_assoc]
      refine ih hrest ?_ hentry
      rw [List.length_append, hfront, EncodedEntry.length_bytes, Nat.add_assoc]

theorem exists_encodeFrom (crc32c : List UInt8 → UInt32) (position id offset : ℕ)
    (hshort : ∀ body ∈ bodies, body.length ≤ u32Max) :
    ∃ entries, encodeFrom crc32c position id offset bodies = .ok entries := by
  induction bodies generalizing position id offset with
  | nil => exact ⟨[], rfl⟩
  | cons body bodies ih =>
    obtain ⟨entries, hentries⟩ := ih (satSucc position) (satSucc id) (offset + itemHeader + body.length)
      fun b hb => hshort b (List.mem_cons_of_mem _ hb)
    refine ⟨⟨position, id, offset + itemHeader, body, (crc32c body).toNat⟩ :: entries, ?_⟩
    rw [encodeFrom, if_neg (not_lt.2 (hshort body List.mem_cons_self))]
    exact bind_eq_ok.2 ⟨entries, hentries, rfl⟩

/-- **Live and recovered metadata agree.**  Bodies of a permitted number that can be encoded are read
back, with the metadata that was kept when they were appended, and lie where that metadata says.
Whatever payload passes the scan is such an encoding. -/
theorem batch_round_trip (hcrc : crc.Lawful) :
    (∀ (bodies : List (List UInt8)) (position id : ℕ) (timestampNs availableAtMs : ℤ)
        (header : RecordHeader) (location : RecordLocation),
      bodies ≠ [] → bodies.length ≤ maxMessages → (∀ body ∈ bodies, body ≠ []) →
      position + bodies.length ≤ u64Max + 1 → id + bodies.length ≤ u64Max + 1 →
      header.messageId = id → header.timestampNs = timestampNs → header.availableAtMs = availableAtMs →
      ((∀ body ∈ bodies, body.length ≤ u32Max) → ∃ entries, encode crc.sum position id bodies = .ok entries) ∧
      ∀ entries, encode crc.sum position id bodies = .ok entries →
        let payload := (parts entries).flatten
        let metas := metasAfterAppend timestampNs availableAtMs location entries
        metasFromReader crc header payload location = .ok metas ∧ metas.length = bodies.length ∧
        ∀ (i : ℕ) (message : MessageMeta) (body : List UInt8), metas[i]? = some message →
          bodies[i]? = some body → message.position = position + i ∧ message.id = id + i ∧
            message.payload.len = body.length ∧ message.payload.crc32c = (crc.sum body).toNat ∧
            (payload.drop (message.payload.offset - (location.offset + headerLen))).take
              message.payload.len = body) ∧
    ∀ (header : RecordHeader) (payload : List UInt8) (location : RecordLocation)
      (metas : List MessageMeta), metasFromReader crc header payload location = .ok metas →
      ∃ position bodies entries, bodies ≠ [] ∧ bodies.length ≤ maxMessages ∧
        position + bodies.length ≤ u64Max + 1 ∧ header.messageId + bodies.length ≤ u64Max + 1 ∧
        encode crc.sum position header.messageId bodies = .ok entries ∧
        payload = (parts entries).flatten ∧
        metas = metasAfterAppend header.timestampNs header.availableAtMs location entries := by
  refine ⟨fun bodies position id timestampNs availableAtMs header location hsome hcount _ hpositions hids
    hid htimestampNs havailableAtMs => ⟨fun hshort => exists_encodeFrom _ _ _ _ hshort,
      fun entries hencode => ?_⟩, fun header payload location metas h => ?_⟩
  · obtain ⟨hlaid, hbodies⟩ := laid_encodeFrom hencode hpositions hids
    have hlength : entries.length = bodies.length := by rw [← hbodies, List.length_map]
    refine ⟨?_, ?_, ?_⟩
    · rw [← htimestampNs, ← havailableAtMs]
      exact metasFromReader_parts hcrc location (hid ▸ hlaid) (mt (fun hnil => by
        rw [hnil] at hlength
        exact List.length_eq_zero_iff.1 hlength.symm) hsome) (by omega) (by omega) (by omega)
    · rw [metasAfterAppend, List.length_map, hlength]
    · intro i message body hmessage hbody
      rw [metasAfterAppend, List.getElem?_map] at hmessage
      obtain ⟨entry, hentry, rfl⟩ := Option.map_eq_some_iff.1 hmessage
      rw [← hbodies, List.getElem?_map, hentry] at hbody
      obtain rfl : entry.body = body := Option.some.inj hbody
      have hmem := List.mem_of_getElem? hentry
      obtain ⟨hpositions, hids⟩ := hlaid.consecutive
      have hbodyAt := hlaid.body_at (length_toBytes 4 entries.length) hmem
      refine ⟨hpositions.getElem? hentry, hids.getElem? hentry, rfl,
        (hlaid.mem hmem).2.2.2.2.2.1, ?_⟩
      have hoffset : location.offset + headerLen + entry.bodyOffset - (location.offset + headerLen) =
        entry.bodyOffset := Nat.add_sub_cancel_left _ _
      rw [flatten_parts]
      dsimp only
      rw [hoffset]
      exact hbodyAt
  · obtain ⟨position, entries, hencode, hsome, hcount, hpositions, hids, hpayload, hmetas⟩ :=
      metasFromReader_eq_ok hcrc h
    refine ⟨position, entries.map EncodedEntry.body, entries, ?_, ?_, ?_, ?_, hencode, hpayload, hmetas⟩
    · exact mt List.map_eq_nil_iff.1 hsome
    all_goals rw [List.length_map]
    all_goals assumption

/-- A batch of two bodies. -/
theorem batch_round_trip_two :
    ∃ (header : RecordHeader) (location : RecordLocation) (entries : List EncodedEntry),
      Crc32c.castagnoli.Lawful ∧ encode Crc32c.castagnoli.sum 3 9 [[7], [8, 9]] = .ok entries ∧
      metasFromReader .castagnoli header (parts entries).flatten location =
        .ok (metasAfterAppend 5 6 location entries) := by
  let header : RecordHeader := ⟨.publishBatch, 0, 1, 5, 9, 6⟩
  have hcrc := Crc32c.castagnoli_lawful
  obtain ⟨hexists, hread⟩ := (batch_round_trip hcrc).1 [[7], [8, 9]] 3 9 5 6 header ⟨1, 1, 0, 100⟩
    (by decide) (by decide) (by decide) (by decide) (by decide) rfl rfl rfl
  obtain ⟨entries, hencode⟩ := hexists (by decide)
  exact ⟨header, _, entries, hcrc, hencode, (hread entries hencode).1⟩

end RustQueue.Topic
