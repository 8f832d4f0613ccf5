import RustQueue.Lib.Numerals
import RustQueue.Lib.Result
import RustQueue.Lib.Text
import RustQueue.Storage.Record

/-!
# The outbox of dead letters

A message that moves to a dead-letter topic is first stored as a file of its own, with the names of its source and
the body.  Two readers take such a file apart: `load`, for the recovery, reads all of it and checks it, and
`retainedSource`, for the garbage collection, reads only as far as the names.

* `load_store`: what is stored is loaded;
* `retainedSource_of_load`: the collection finds the source of every file that the recovery accepts;
* `stem_of_load`: such a file has the name that its source gives it, in the naming of today or the older one;
* `outbox_read_alike`: the three together, and the files of a directory.

The checksum is assumed to be continued over further input, and SHA-256 is any function.
-/

namespace RustQueue.Broker.Outbox

open Lib Storage

/-- The bytes `RQO7`. -/
def outboxMagic : List UInt8 := [0x52, 0x51, 0x4f, 0x37]
def outboxHeaderLen : ℕ := 28
def maxOutboxBytes : ℕ := maxRecordBytes + 3 * u16Max + outboxHeaderLen

structure OutboxEntry where
  sourceTopic : String
  sourceChannel : String
  messageId : UInt64
  targetTopic : String
  body : List UInt8
  deriving DecidableEq

structure OutboxHeader where
  sourceTopicLen : ℕ
  sourceChannelLen : ℕ
  targetTopicLen : ℕ
  messageId : UInt64
  bodyLen : ℕ
  deriving DecidableEq, Repr

/-- A file of a directory, by its name there. -/
structure OutboxFile where
  name : List UInt8
  bytes : List UInt8
  deriving DecidableEq, Repr

/-! ### File names -/

def dot : UInt8 := asciiByte '.'

/-- What stands before the last dot of a name and what stands behind it.  A dot in front splits nothing. -/
def rsplitFileAtDot (name : List UInt8) : Option (List UInt8 × List UInt8) :=
  if name = [dot, dot] then none
  else
    match name.reverse.dropWhile (· ≠ dot) with
    | [] => none
    | _ :: before =>
      if before = [] then none else some (before.reverse, (name.reverse.takeWhile (· ≠ dot)).reverse)

def fileStem (name : List UInt8) : List UInt8 := ((rsplitFileAtDot name).map Prod.fst).getD name

def extension (name : List UInt8) : Option (List UInt8) := (rsplitFileAtDot name).map Prod.snd

section

variable (crc : Crc32c) (sha256 : List UInt8 → Vector UInt8 32)

/-- The first half of a hash of both names, each behind its length. -/
def sourceKey (topic channel : String) : List Char :=
  let digest := sha256 (toBytes 8 (utf8 topic).length ++ utf8 topic ++
    (toBytes 8 (utf8 channel).length ++ utf8 channel))
  (digest.toList.take 16).flatMap fun b => digits 16 2 b.toNat

def legacySourceKey (topic channel : String) : UInt32 :=
  crc.append (crc.append (crc.sum (utf8 topic)) [0]) (utf8 channel)

def modernStem (messageId : UInt64) (topic channel : String) : String :=
  String.ofList (digits 16 16 messageId.toNat ++ '-' :: sourceKey sha256 topic channel)

def legacyStem (messageId : UInt64) (topic channel : String) : String :=
  String.ofList (digits 16 16 messageId.toNat ++ '-' :: digits 16 8 (legacySourceKey crc topic channel).toNat)

/-! ### Writing -/

/-- The first 24 bytes of a file. -/
def outboxFields (header : OutboxHeader) : List UInt8 :=
  outboxMagic ++ (toBytes 2 header.sourceTopicLen ++ (toBytes 2 header.sourceChannelLen ++
    (toBytes 2 header.targetTopicLen ++ ([0, 0] ++ (toBytes 8 header.messageId.toNat ++
      toBytes 4 header.bodyLen)))))

def OutboxEntry.header (entry : OutboxEntry) : OutboxHeader where
  sourceTopicLen := (utf8 entry.sourceTopic).length
  sourceChannelLen := (utf8 entry.sourceChannel).length
  targetTopicLen := (utf8 entry.targetTopic).length
  messageId := entry.messageId
  bodyLen := entry.body.length

def OutboxEntry.parts (entry : OutboxEntry) : List (List UInt8) :=
  [utf8 entry.sourceTopic, utf8 entry.sourceChannel, utf8 entry.targetTopic, entry.body]

def OutboxEntry.encode (entry : OutboxEntry) : List UInt8 :=
  let fields := outboxFields entry.header
  fields ++ toBytes 4 (entry.parts.foldl crc.append (crc.sum fields)).toNat ++ entry.parts.flatten

/-- The file that an entry is stored as. -/
def store (entry : OutboxEntry) : Except BrokerError OutboxFile :=
  let header := entry.header
  if u16Max < header.sourceTopicLen then .error (.invalidRecord "DLQ source topic is too long")
  else if u16Max < header.sourceChannelLen then .error (.invalidRecord "DLQ source channel is too long")
  else if u16Max < header.targetTopicLen then .error (.invalidRecord "DLQ target topic is too long")
  else if u32Max < header.bodyLen then .error (.invalidRecord "DLQ body is too large")
  else
    match checkedSum outboxHeaderLen
      [header.sourceTopicLen, header.sourceChannelLen, header.targetTopicLen, header.bodyLen] with
    | none => .error (.invalidRecord "DLQ outbox length overflow")
    | some encodedLen =>
      if maxOutboxBytes < encodedLen then
        .error (.invalidRecord "DLQ outbox file exceeds the maximum record size")
      else
        .ok
          { name := utf8 (modernStem sha256 entry.messageId entry.sourceTopic entry.sourceChannel ++
              ".outbox")
            bytes := entry.encode crc }

/-! ### Reading -/

def parseHeader (bytes : List UInt8) : Except BrokerError OutboxHeader :=
  if bytes.length < outboxHeaderLen ∨ slice bytes 0 4 ≠ outboxMagic ∨ slice bytes 10 12 ≠ [0, 0] then
    .error (.invalidRecord "DLQ outbox header is invalid")
  else
    .ok
      { sourceTopicLen := ofBytes (slice bytes 4 6)
        sourceChannelLen := ofBytes (slice bytes 6 8)
        targetTopicLen := ofBytes (slice bytes 8 10)
        messageId := UInt64.ofNat (ofBytes (slice bytes 12 20))
        bodyLen := ofBytes (slice bytes 20 24) }

def validateLayout (header : OutboxHeader) (fileLen : ℕ) : Except BrokerError Unit :=
  match checkedSum header.sourceTopicLen
    [header.sourceChannelLen, header.targetTopicLen, header.bodyLen] with
  | none => .error (.invalidRecord "DLQ outbox length overflow")
  | some payloadLen =>
    if checkedAdd outboxHeaderLen payloadLen = some fileLen then .ok ()
    else .error (.invalidRecord "DLQ outbox length is invalid")

def validatePath (name : List UInt8) (messageId : UInt64) (sourceTopic sourceChannel : String) :
    Except BrokerError Unit :=
  let stem := ofUtf8 (fileStem name)
  if stem ≠ some (modernStem sha256 messageId sourceTopic sourceChannel) ∧
      stem ≠ some (legacyStem crc messageId sourceTopic sourceChannel) then
    .error (.invalidRecord "DLQ outbox filename does not match its source")
  else .ok ()

/-- The text at a cursor and the cursor behind it. -/
def readString (bytes : List UInt8) (cursor len : ℕ) : Except BrokerError (String × ℕ) :=
  match (checkedAdd cursor len).filter (· ≤ bytes.length) with
  | none => .error (.invalidRecord "DLQ outbox string is truncated")
  | some stop =>
    match ofUtf8 (slice bytes cursor stop) with
    | none => .error (.invalidRecord "DLQ outbox string is not UTF-8")
    | some value => .ok (value, stop)

def load (file : OutboxFile) : Except BrokerError OutboxEntry :=
  let bytes := file.bytes
  if maxOutboxBytes < bytes.length then
    .error (.invalidRecord "DLQ outbox file exceeds the maximum record size")
  else do
    let header ← parseHeader bytes
    validateLayout header bytes.length
    let expected := ofBytes (slice bytes 24 28)
    let actual := crc.append (crc.sum (slice bytes 0 24)) (bytes.drop outboxHeaderLen)
    if actual.toNat ≠ expected then throw (.invalidRecord "DLQ outbox checksum is invalid")
    else
      let (sourceTopic, cursor) ← readString bytes outboxHeaderLen header.sourceTopicLen
      let (sourceChannel, cursor) ← readString bytes cursor header.sourceChannelLen
      let (targetTopic, cursor) ← readString bytes cursor header.targetTopicLen
      validatePath crc sha256 file.name header.messageId sourceTopic sourceChannel
      return { sourceTopic, sourceChannel, messageId := header.messageId, targetTopic,
               body := bytes.drop cursor }

/-- The source of a file for the collection, which reads neither the checksum nor the body. -/
def retainedSource (file : OutboxFile) : Except BrokerError (String × UInt64) :=
  let fileLen := file.bytes.length
  if maxOutboxBytes < fileLen then
    .error (.invalidRecord "DLQ outbox file exceeds the maximum record size")
  else if fileLen < outboxHeaderLen then .error (.io "failed to fill whole buffer")
  else do
    let header ← parseHeader (file.bytes.take outboxHeaderLen)
    validateLayout header fileLen
    match checkedSum header.sourceTopicLen [header.sourceChannelLen, header.targetTopicLen] with
    | none => throw (.invalidRecord "DLQ outbox name length overflow")
    | some namesLen =>
      if fileLen - outboxHeaderLen < namesLen then throw (.io "failed to fill whole buffer")
      else
        let names := slice file.bytes outboxHeaderLen (outboxHeaderLen + namesLen)
        let (sourceTopic, cursor) ← readString names 0 header.sourceTopicLen
        let (sourceChannel, _) ← readString names cursor header.sourceChannelLen
        validatePath crc sha256 file.name header.messageId sourceTopic sourceChannel
        return (sourceTopic, header.messageId)

/-- The files of a directory that are outbox files, in the order of their names. -/
def outboxPaths (directory : List OutboxFile) : List OutboxFile :=
  (directory.filter fun file => extension file.name = some (utf8 "outbox")).mergeSort
    fun first second => first.name ≤ second.name

def retainedSources (directory : List OutboxFile) : Except BrokerError (List (String × UInt64)) :=
  (outboxPaths directory).mapM (retainedSource crc sha256)

end

/-! ### What the checks say -/

theorem rsplitFileAtDot_append {before after : List UInt8} (hbefore : before ≠ []) (hafter : after ≠ [])
    (hdot : dot ∉ after) : rsplitFileAtDot (before ++ dot :: after) = some (before, after) := by
  have hname : before ++ dot :: after ≠ [dot, dot] := by
    intro heq
    have hlength := congrArg List.length heq
    have h₁ := List.length_pos_iff_ne_nil.2 hbefore
    have h₂ := List.length_pos_iff_ne_nil.2 hafter
    simp only [List.length_append, List.length_cons, List.length_nil] at hlength
    omega
  have hreverse : (before ++ dot :: after).reverse = after.reverse ++ dot :: before.reverse := by
    simp
  have hnodot : ∀ b ∈ after.reverse, decide (b ≠ dot) = true := by
    intro b hb
    exact decide_eq_true fun heq => hdot (heq ▸ List.mem_reverse.1 hb)
  have hdrop : (before ++ dot :: after).reverse.dropWhile (· ≠ dot) = dot :: before.reverse := by
    rw [hreverse, List.dropWhile_append_of_pos hnodot]
    simp
  have htake : (before ++ dot :: after).reverse.takeWhile (· ≠ dot) = after.reverse := by
    rw [hreverse, List.takeWhile_append_of_pos hnodot]
    simp
  rw [rsplitFileAtDot, if_neg hname, hdrop, htake]
  simp [hbefore]

theorem validateLayout_eq_ok {header : OutboxHeader} {fileLen : ℕ} (h : fileLen ≤ maxOutboxBytes) :
    validateLayout header fileLen = .ok () ↔
      fileLen = outboxHeaderLen + (header.sourceTopicLen + header.sourceChannelLen +
        header.targetTopicLen + header.bodyLen) := by
  have hmax : maxOutboxBytes ≤ usizeMax := by decide
  have hsum := @checkedSum_cons header.sourceTopicLen header.sourceChannelLen
  unfold validateLayout
  cases hpayload : checkedSum header.sourceTopicLen
    [header.sourceChannelLen, header.targetTopicLen, header.bodyLen] with
  | none =>
    refine iff_of_false (by simp) fun hlen => ?_
    have hfits : checkedSum header.sourceTopicLen
        [header.sourceChannelLen, header.targetTopicLen, header.bodyLen] = some (fileLen - outboxHeaderLen) := by
      rw [hsum]
      simp only [List.sum_cons, List.sum_nil]
      omega
    rw [hpayload] at hfits
    cases hfits
  | some payloadLen =>
    obtain ⟨hlen, -⟩ := hsum.1 hpayload
    simp only [List.sum_cons, List.sum_nil] at hlen
    dsimp only
    split_ifs with hfile
    · have := (checkedAdd_eq_some.1 hfile).1
      refine iff_of_true rfl ?_
      omega
    · refine iff_of_false (by simp) fun hlayout => hfile (checkedAdd_eq_some.2 ?_)
      omega

variable {bytes : List UInt8}

theorem readString_eq_ok (hbytes : bytes.length ≤ usizeMax) {cursor len stop : ℕ} {text : String} :
    readString bytes cursor len = .ok (text, stop) ↔
      stop = cursor + len ∧ stop ≤ bytes.length ∧ slice bytes cursor stop = utf8 text := by
  unfold readString
  cases hstop : (checkedAdd cursor len).filter (· ≤ bytes.length) with
  | none =>
    refine iff_of_false (by simp) ?_
    rintro ⟨rfl, hle, -⟩
    rw [checkedAdd, if_pos (hle.trans hbytes), Option.filter_some, decide_eq_true hle] at hstop
    cases hstop
  | some n =>
    obtain ⟨hsum, hle⟩ := Option.filter_eq_some_iff.1 hstop
    have hn := (checkedAdd_eq_some.1 hsum).1
    have hle' : n ≤ bytes.length := of_decide_eq_true hle
    dsimp only
    cases hvalue : ofUtf8 (slice bytes cursor n) with
    | none =>
      refine iff_of_false (by simp) ?_
      rintro ⟨rfl, -, hslice⟩
      rw [hn, hslice, ofUtf8_utf8] at hvalue
      cases hvalue
    | some value =>
      rw [Except.ok.injEq, Prod.mk.injEq]
      constructor
      · rintro ⟨rfl, rfl⟩
        exact ⟨hn, hle', (utf8_of_ofUtf8 hvalue).symm⟩
      · rintro ⟨rfl, -, hslice⟩
        rw [hn, hslice, ofUtf8_utf8] at hvalue
        exact ⟨(Option.some.inj hvalue).symm, hn⟩

section

variable {crc : Crc32c} {sha256 : List UInt8 → Vector UInt8 32}

theorem validatePath_eq_ok {name : List UInt8} {messageId : UInt64} {topic channel : String} :
    validatePath crc sha256 name messageId topic channel = .ok () ↔
      ofUtf8 (fileStem name) = some (modernStem sha256 messageId topic channel) ∨
        ofUtf8 (fileStem name) = some (legacyStem crc messageId topic channel) := by
  unfold validatePath
  dsimp only
  split_ifs with h
  · refine iff_of_false (by simp) ?_
    rintro (hmodern | hlegacy)
    · exact h.1 hmodern
    · exact h.2 hlegacy
  · refine iff_of_true rfl ?_
    by_contra hnot
    exact h (not_or.1 hnot)

variable {entry : OutboxEntry} {file : OutboxFile}

/-- **What `load` accepts.** -/
theorem load_eq_ok :
    load crc sha256 file = .ok entry ↔
      file.bytes.length ≤ maxOutboxBytes ∧ ∃ header, parseHeader file.bytes = .ok header ∧
        validateLayout header file.bytes.length = .ok () ∧
        (crc.append (crc.sum (slice file.bytes 0 24)) (file.bytes.drop outboxHeaderLen)).toNat =
          ofBytes (slice file.bytes 24 28) ∧
        ∃ topicEnd channelEnd targetEnd,
          readString file.bytes outboxHeaderLen header.sourceTopicLen = .ok (entry.sourceTopic, topicEnd) ∧
          readString file.bytes topicEnd header.sourceChannelLen = .ok (entry.sourceChannel, channelEnd) ∧
          readString file.bytes channelEnd header.targetTopicLen = .ok (entry.targetTopic, targetEnd) ∧
          validatePath crc sha256 file.name header.messageId entry.sourceTopic entry.sourceChannel = .ok () ∧
          entry.messageId = header.messageId ∧ entry.body = file.bytes.drop targetEnd := by
  unfold load
  dsimp only
  constructor
  · intro h
    by_cases hlarge : maxOutboxBytes < file.bytes.length
    · rw [if_pos hlarge] at h
      cases h
    rw [if_neg hlarge] at h
    obtain ⟨header, hheader, h⟩ := bind_eq_ok.1 h
    obtain ⟨⟨⟩, hlayout, h⟩ := bind_eq_ok.1 h
    split_ifs at h with hsum
    obtain ⟨⟨topic, topicEnd⟩, htopic, h⟩ := bind_eq_ok.1 h
    obtain ⟨⟨channel, channelEnd⟩, hchannel, h⟩ := bind_eq_ok.1 h
    obtain ⟨⟨target, targetEnd⟩, htarget, h⟩ := bind_eq_ok.1 h
    obtain ⟨⟨⟩, hpath, h⟩ := bind_eq_ok.1 h
    cases h
    exact ⟨not_lt.1 hlarge, header, hheader, hlayout, not_not.1 hsum, topicEnd, channelEnd, targetEnd, htopic,
      hchannel, htarget, hpath, rfl, rfl⟩
  · rintro ⟨hsize, header, hheader, hlayout, hsum, topicEnd, channelEnd, targetEnd, htopic, hchannel, htarget,
      hpath, hid, hbody⟩
    rw [if_neg (not_lt.2 hsize), bind_eq_ok]
    refine ⟨header, hheader, bind_eq_ok.2 ⟨(), hlayout, ?_⟩⟩
    rw [if_neg (not_not.2 hsum)]
    refine bind_eq_ok.2 ⟨_, htopic, bind_eq_ok.2 ⟨_, hchannel, bind_eq_ok.2 ⟨_, htarget,
      bind_eq_ok.2 ⟨(), hpath, ?_⟩⟩⟩⟩
    rw [pure_eq_ok, ← hid, ← hbody]

/-! ### The collection reads what the recovery reads -/

theorem slice_take {first last n : ℕ} (h : last ≤ n) :
    slice (bytes.take n) first last = slice bytes first last := by
  rw [slice, slice, List.take_take, min_eq_left h]

theorem parseHeader_take (h : outboxHeaderLen ≤ bytes.length) :
    parseHeader (bytes.take outboxHeaderLen) = parseHeader bytes := by
  have hlength : (bytes.take outboxHeaderLen).length = outboxHeaderLen := List.length_take_of_le h
  have hlong : ¬bytes.length < outboxHeaderLen := not_lt.2 h
  have hslice : ∀ {first last}, last ≤ 28 →
      slice (bytes.take outboxHeaderLen) first last = slice bytes first last := fun hle => slice_take hle
  unfold parseHeader
  rw [hslice (by decide), hslice (by decide), hslice (by decide), hslice (by decide), hslice (by decide),
    hslice (by decide), hslice (by decide), hlength]
  simp only [lt_irrefl, hlong]

theorem slice_slice {start stop first last : ℕ} (h : start + last ≤ stop) :
    slice (slice bytes start stop) first last = slice bytes (start + first) (start + last) := by
  rw [slice, slice, slice, List.take_drop, List.drop_drop, List.take_take, min_eq_left h]

theorem readString_names (hbytes : bytes.length ≤ usizeMax) {start stop cursor len : ℕ}
    (hstop : stop ≤ bytes.length) (hlen : start + (cursor + len) ≤ stop) {text : String}
    (h : readString bytes (start + cursor) len = .ok (text, start + (cursor + len))) :
    readString (slice bytes start stop) cursor len = .ok (text, cursor + len) := by
  have hlength : (slice bytes start stop).length = stop - start := length_slice hstop
  have htext := ((readString_eq_ok hbytes).1 h).2.2
  refine (readString_eq_ok (by omega)).2 ⟨rfl, by omega, ?_⟩
  rw [slice_slice hlen, htext]

/-- **Both readers agree** on the files that the recovery accepts. -/
theorem retainedSource_of_load (h : load crc sha256 file = .ok entry) :
    retainedSource crc sha256 file = .ok (entry.sourceTopic, entry.messageId) := by
  obtain ⟨hsize, header, hheader, hlayout, -, topicEnd, channelEnd, targetEnd, htopic, hchannel, -, hpath,
    hid, -⟩ := load_eq_ok.1 h
  have hmax : maxOutboxBytes ≤ usizeMax := by decide
  have hbytes : file.bytes.length ≤ usizeMax := hsize.trans hmax
  have hlen := (validateLayout_eq_ok hsize).1 hlayout
  have hlong : outboxHeaderLen ≤ file.bytes.length := by omega
  obtain ⟨rfl, -, -⟩ := (readString_eq_ok hbytes).1 htopic
  obtain ⟨rfl, -, -⟩ := (readString_eq_ok hbytes).1 hchannel
  set namesLen := header.sourceTopicLen + header.sourceChannelLen + header.targetTopicLen with hnamesLen
  have hnames : checkedSum header.sourceTopicLen [header.sourceChannelLen, header.targetTopicLen] =
      some namesLen := by
    rw [checkedSum_cons]
    simp only [List.sum_cons, List.sum_nil]
    omega
  have hstop : outboxHeaderLen + namesLen ≤ file.bytes.length := by omega
  have htopic' : readString (slice file.bytes outboxHeaderLen (outboxHeaderLen + namesLen)) 0
      header.sourceTopicLen = .ok (entry.sourceTopic, 0 + header.sourceTopicLen) :=
    readString_names hbytes hstop (by omega) (by simpa only [Nat.add_zero, Nat.zero_add] using htopic)
  have hchannel' : readString (slice file.bytes outboxHeaderLen (outboxHeaderLen + namesLen))
      (0 + header.sourceTopicLen) header.sourceChannelLen =
        .ok (entry.sourceChannel, 0 + header.sourceTopicLen + header.sourceChannelLen) :=
    readString_names hbytes hstop (by omega)
      (by simpa only [Nat.zero_add, ← Nat.add_assoc] using hchannel)
  unfold retainedSource
  dsimp only
  rw [if_neg (not_lt.2 hsize), if_neg (not_lt.2 hlong), parseHeader_take hlong]
  refine bind_eq_ok.2 ⟨header, hheader, bind_eq_ok.2 ⟨(), hlayout, ?_⟩⟩
  rw [hnames]
  dsimp only
  rw [if_neg (by omega)]
  refine bind_eq_ok.2 ⟨_, htopic', bind_eq_ok.2 ⟨_, hchannel', bind_eq_ok.2 ⟨(), hpath, ?_⟩⟩⟩
  rw [pure_eq_ok, hid]

/-- **The name of a file** that the recovery accepts is one that its source gives it. -/
theorem stem_of_load (h : load crc sha256 file = .ok entry) :
    fileStem file.name = utf8 (modernStem sha256 entry.messageId entry.sourceTopic entry.sourceChannel) ∨
      fileStem file.name = utf8 (legacyStem crc entry.messageId entry.sourceTopic entry.sourceChannel) := by
  obtain ⟨-, header, -, -, -, -, -, -, -, -, -, hpath, hid, -⟩ := load_eq_ok.1 h
  rw [hid]
  rcases validatePath_eq_ok.1 hpath with hmodern | hlegacy
  · exact .inl (utf8_of_ofUtf8 hmodern).symm
  · exact .inr (utf8_of_ofUtf8 hlegacy).symm

/-! ### What is stored is loaded -/

/-- An entry that can be stored. -/
structure OutboxEntry.Fits (entry : OutboxEntry) : Prop where
  sourceTopic : entry.header.sourceTopicLen ≤ u16Max
  sourceChannel : entry.header.sourceChannelLen ≤ u16Max
  targetTopic : entry.header.targetTopicLen ≤ u16Max
  size : outboxHeaderLen + (entry.header.sourceTopicLen + entry.header.sourceChannelLen +
    entry.header.targetTopicLen + entry.header.bodyLen) ≤ maxOutboxBytes

/-- The header with its checksum. -/
def outboxHeaderBytes (header : OutboxHeader) (sum : UInt32) : List UInt8 :=
  outboxFields header ++ toBytes 4 sum.toNat

theorem length_outboxFields (header : OutboxHeader) : (outboxFields header).length = 24 := by
  simp [outboxFields, outboxMagic]

theorem length_outboxHeaderBytes (header : OutboxHeader) (sum : UInt32) :
    (outboxHeaderBytes header sum).length = outboxHeaderLen := by
  rw [outboxHeaderBytes, List.length_append, length_outboxFields, length_toBytes]
  rfl

/-- The bytes of a file: its header, and the four parts of the entry. -/
theorem OutboxEntry.encode_eq (hcrc : crc.Chunked) (entry : OutboxEntry) :
    entry.encode crc =
      outboxHeaderBytes entry.header (crc.sum (outboxFields entry.header ++ entry.parts.flatten)) ++
        entry.parts.flatten := by
  rw [OutboxEntry.encode, hcrc.foldl, outboxHeaderBytes]

theorem OutboxEntry.Fits.parse (h : entry.Fits) (sum : UInt32) (rest : List UInt8) :
    parseHeader (outboxHeaderBytes entry.header sum ++ rest) = .ok entry.header := by
  set bytes := outboxHeaderBytes entry.header sum ++ rest with hbytes
  have hlong : ¬bytes.length < outboxHeaderLen := by
    rw [hbytes, List.length_append, length_outboxHeaderBytes]
    omega
  have hmagic : slice bytes 0 4 = outboxMagic := rfl
  have hzero : slice bytes 10 12 = [0, 0] := rfl
  have htopic : slice bytes 4 6 = toBytes 2 entry.header.sourceTopicLen := rfl
  have hchannel : slice bytes 6 8 = toBytes 2 entry.header.sourceChannelLen := rfl
  have htarget : slice bytes 8 10 = toBytes 2 entry.header.targetTopicLen := rfl
  have hid : slice bytes 12 20 = toBytes 8 entry.header.messageId.toNat := rfl
  have hbody : slice bytes 20 24 = toBytes 4 entry.header.bodyLen := rfl
  have hbodyLen : ofBytes (toBytes 4 entry.header.bodyLen) = entry.header.bodyLen := by
    refine ofBytes_toBytes_of_lt ?_
    have hmax : maxOutboxBytes < 256 ^ 4 := by decide
    have := h.size
    omega
  have hword : ofBytes (toBytes 8 entry.header.messageId.toNat) = entry.header.messageId.toNat :=
    ofBytes_toBytes_u64 (Nat.le_of_lt_succ entry.header.messageId.toNat_lt)
  rw [parseHeader, hmagic, hzero, htopic, hchannel, htarget, hid, hbody, hbodyLen, hword,
    ofBytes_toBytes_u16 h.sourceTopic, ofBytes_toBytes_u16 h.sourceChannel, ofBytes_toBytes_u16 h.targetTopic,
    if_neg (by simpa using hlong), UInt64.ofNat_toNat]

theorem readString_append {front back : List UInt8} {text : String}
    (hlength : (front ++ (utf8 text ++ back)).length ≤ usizeMax) :
    readString (front ++ (utf8 text ++ back)) front.length (utf8 text).length =
      .ok (text, front.length + (utf8 text).length) := by
  refine (readString_eq_ok hlength).2 ⟨rfl, ?_, ?_⟩
  · rw [List.length_append, List.length_append]
    omega
  · rw [slice, List.take_length_add_append, List.take_left' rfl, List.drop_left' rfl]

theorem rsplitFileAtDot_outbox {stem : String} (h : stem ≠ "") :
    rsplitFileAtDot (utf8 (stem ++ ".outbox")) = some (utf8 stem, utf8 "outbox") := by
  have hextension : utf8 ".outbox" = dot :: utf8 "outbox" := by decide
  have hstem : utf8 stem ≠ [] := fun hnil => h (utf8_injective (hnil.trans (by decide)))
  rw [utf8_append, hextension]
  exact rsplitFileAtDot_append hstem (by decide) (by decide)

theorem modernStem_ne_empty (messageId : UInt64) (topic channel : String) :
    modernStem sha256 messageId topic channel ≠ "" := by
  intro hempty
  have hlist := congrArg String.toList hempty
  rw [modernStem, String.toList_ofList] at hlist
  exact List.append_ne_nil_of_right_ne_nil _ (List.cons_ne_nil _ _) hlist

theorem OutboxEntry.Fits.store_eq (h : entry.Fits) :
    store crc sha256 entry = .ok
      { name := utf8 (modernStem sha256 entry.messageId entry.sourceTopic entry.sourceChannel ++ ".outbox")
        bytes := entry.encode crc } := by
  have hmax : maxOutboxBytes ≤ usizeMax := by decide
  have hbody : maxOutboxBytes ≤ u32Max := by decide
  have hsize := h.size
  have hsum : checkedSum outboxHeaderLen [entry.header.sourceTopicLen, entry.header.sourceChannelLen,
      entry.header.targetTopicLen, entry.header.bodyLen] =
        some (outboxHeaderLen + (entry.header.sourceTopicLen + entry.header.sourceChannelLen +
          entry.header.targetTopicLen + entry.header.bodyLen)) := by
    rw [checkedSum_cons]
    simp only [List.sum_cons, List.sum_nil]
    omega
  unfold store
  dsimp only
  rw [if_neg (not_lt.2 h.sourceTopic), if_neg (not_lt.2 h.sourceChannel), if_neg (not_lt.2 h.targetTopic),
    if_neg (by omega), hsum]
  dsimp only
  rw [if_neg (not_lt.2 hsize)]

theorem OutboxEntry.flatten_parts (entry : OutboxEntry) :
    entry.parts.flatten = utf8 entry.sourceTopic ++ (utf8 entry.sourceChannel ++
      (utf8 entry.targetTopic ++ entry.body)) := by
  simp only [OutboxEntry.parts, List.flatten_cons, List.flatten_nil, List.append_nil]

/-- The three names one behind the other, and the body. -/
theorem OutboxEntry.read_parts (entry : OutboxEntry) {front : List UInt8}
    (hbytes : bytes = front ++ entry.parts.flatten) (hlength : bytes.length ≤ usizeMax) :
    readString bytes front.length entry.header.sourceTopicLen =
        .ok (entry.sourceTopic, front.length + entry.header.sourceTopicLen) ∧
      readString bytes (front.length + entry.header.sourceTopicLen) entry.header.sourceChannelLen =
        .ok (entry.sourceChannel,
          front.length + entry.header.sourceTopicLen + entry.header.sourceChannelLen) ∧
      readString bytes (front.length + entry.header.sourceTopicLen + entry.header.sourceChannelLen)
          entry.header.targetTopicLen =
        .ok (entry.targetTopic, front.length + entry.header.sourceTopicLen +
          entry.header.sourceChannelLen + entry.header.targetTopicLen) ∧
      bytes.drop (front.length + entry.header.sourceTopicLen + entry.header.sourceChannelLen +
        entry.header.targetTopicLen) = entry.body := by
  rw [entry.flatten_parts] at hbytes
  have hchannel : bytes = (front ++ utf8 entry.sourceTopic) ++ (utf8 entry.sourceChannel ++
      (utf8 entry.targetTopic ++ entry.body)) := by
    rw [hbytes, List.append_assoc]
  have htarget : bytes = (front ++ utf8 entry.sourceTopic ++ utf8 entry.sourceChannel) ++
      (utf8 entry.targetTopic ++ entry.body) := by
    rw [hchannel, List.append_assoc _ (utf8 entry.sourceChannel)]
  have hbody : bytes = (front ++ utf8 entry.sourceTopic ++ utf8 entry.sourceChannel ++
      utf8 entry.targetTopic) ++ entry.body := by
    rw [htarget, List.append_assoc _ (utf8 entry.targetTopic)]
  have htopicLen : (front ++ utf8 entry.sourceTopic).length = front.length + entry.header.sourceTopicLen :=
    List.length_append
  have hchannelLen : (front ++ utf8 entry.sourceTopic ++ utf8 entry.sourceChannel).length =
      front.length + entry.header.sourceTopicLen + entry.header.sourceChannelLen := by
    rw [List.length_append, htopicLen]
    rfl
  have htargetLen : (front ++ utf8 entry.sourceTopic ++ utf8 entry.sourceChannel ++
      utf8 entry.targetTopic).length = front.length + entry.header.sourceTopicLen +
        entry.header.sourceChannelLen + entry.header.targetTopicLen := by
    rw [List.length_append, hchannelLen]
    rfl
  refine ⟨?_, ?_, ?_, ?_⟩
  · rw [hbytes] at hlength ⊢
    exact readString_append hlength
  · rw [← htopicLen]
    rw [hchannel] at hlength ⊢
    exact readString_append hlength
  · rw [← hchannelLen]
    rw [htarget] at hlength ⊢
    exact readString_append hlength
  · rw [← htargetLen, hbody]
    exact List.drop_left' rfl

theorem OutboxEntry.checksum_encode (hcrc : crc.Chunked) (entry : OutboxEntry) :
    (crc.append (crc.sum (slice (entry.encode crc) 0 24)) ((entry.encode crc).drop outboxHeaderLen)).toNat =
      ofBytes (slice (entry.encode crc) 24 28) := by
  have hfields : ∀ sum rest, slice (outboxHeaderBytes entry.header sum ++ rest) 0 24 =
      outboxFields entry.header := fun _ _ => rfl
  have hsum : ∀ sum rest, slice (outboxHeaderBytes entry.header sum ++ rest) 24 28 =
      toBytes 4 sum.toNat := fun _ _ => rfl
  rw [OutboxEntry.encode_eq hcrc, hfields, hsum, List.drop_left' (length_outboxHeaderBytes _ _), hcrc,
    ofBytes_toBytes_u32]

theorem OutboxEntry.length_encode (hcrc : crc.Chunked) (entry : OutboxEntry) :
    (entry.encode crc).length = outboxHeaderLen + (entry.header.sourceTopicLen +
      entry.header.sourceChannelLen + entry.header.targetTopicLen + entry.header.bodyLen) := by
  rw [OutboxEntry.encode_eq hcrc, List.length_append, length_outboxHeaderBytes, entry.flatten_parts]
  simp only [List.length_append, OutboxEntry.header]
  omega

/-- **What is stored is loaded.** -/
theorem load_store (hcrc : crc.Chunked) (h : entry.Fits) :
    load crc sha256
      { name := utf8 (modernStem sha256 entry.messageId entry.sourceTopic entry.sourceChannel ++ ".outbox")
        bytes := entry.encode crc } = .ok entry := by
  have hlength := entry.length_encode hcrc
  have hsize : (entry.encode crc).length ≤ maxOutboxBytes := hlength ▸ h.size
  have hmax : maxOutboxBytes ≤ usizeMax := by decide
  have hparse : parseHeader (entry.encode crc) = .ok entry.header := by
    rw [OutboxEntry.encode_eq hcrc]
    exact h.parse _ _
  obtain ⟨htopic, hchannel, htarget, hbody⟩ :=
    entry.read_parts (OutboxEntry.encode_eq hcrc entry) (hsize.trans hmax)
  rw [length_outboxHeaderBytes] at htopic hchannel htarget hbody
  have hstem := rsplitFileAtDot_outbox
    (@modernStem_ne_empty sha256 entry.messageId entry.sourceTopic entry.sourceChannel)
  refine load_eq_ok.2 ⟨hsize, entry.header, hparse, (validateLayout_eq_ok hsize).2 hlength,
    entry.checksum_encode hcrc, _, _, _, htopic, hchannel, htarget, validatePath_eq_ok.2 (.inl ?_), rfl,
    hbody.symm⟩
  rw [fileStem, hstem, Option.map_some, Option.getD_some, ofUtf8_utf8]
  rfl

/-! ### A directory -/

theorem mem_outboxPaths {directory : List OutboxFile} :
    file ∈ outboxPaths directory ↔ file ∈ directory ∧ extension file.name = some (utf8 "outbox") := by
  rw [outboxPaths, (List.mergeSort_perm _ _).mem_iff, List.mem_filter, decide_eq_true_eq]

/-- The collection keeps the source of every outbox file that the recovery would act on. -/
theorem mem_retainedSources {directory : List OutboxFile} {sources : List (String × UInt64)}
    (h : retainedSources crc sha256 directory = .ok sources) (hfile : file ∈ directory)
    (hextension : extension file.name = some (utf8 "outbox")) (hload : load crc sha256 file = .ok entry) :
    (entry.sourceTopic, entry.messageId) ∈ sources := by
  obtain ⟨source, hmem, hsource⟩ := (mapM_eq_ok h).1 file (mem_outboxPaths.2 ⟨hfile, hextension⟩)
  rw [retainedSource_of_load hload] at hsource
  cases hsource
  exact hmem

end

/-- **Outbox files round trip, and both readers agree.**  An entry whose names and size fit is stored as a file from
which the recovery loads the entry and the collection its source; and for every file that the
recovery accepts, whatever its bytes and its name, the collection finds the same source, and the name is one that this
source gives.  So the collection keeps the source of every entry of a directory that
the recovery would act on. -/
theorem outbox_read_alike (crc : Crc32c) (hcrc : crc.Chunked) (sha256 : List UInt8 → Vector UInt8 32) :
    (∀ entry : OutboxEntry, entry.Fits → ∃ file, store crc sha256 entry = .ok file ∧
      load crc sha256 file = .ok entry ∧
      retainedSource crc sha256 file = .ok (entry.sourceTopic, entry.messageId)) ∧
    (∀ file entry, load crc sha256 file = .ok entry →
      retainedSource crc sha256 file = .ok (entry.sourceTopic, entry.messageId) ∧
      (fileStem file.name =
          utf8 (modernStem sha256 entry.messageId entry.sourceTopic entry.sourceChannel) ∨
        fileStem file.name =
          utf8 (legacyStem crc entry.messageId entry.sourceTopic entry.sourceChannel))) ∧
    ∀ directory sources, retainedSources crc sha256 directory = .ok sources → ∀ file ∈ directory,
      extension file.name = some (utf8 "outbox") → ∀ entry, load crc sha256 file = .ok entry →
        (entry.sourceTopic, entry.messageId) ∈ sources := by
  refine ⟨fun entry hfits => ?_, fun file entry hload => ?_, fun directory sources hsources file hfile
    hextension entry hload => ?_⟩
  · have hload := @load_store crc sha256 entry hcrc hfits
    exact ⟨_, hfits.store_eq, hload, retainedSource_of_load hload⟩
  · exact ⟨retainedSource_of_load hload, stem_of_load hload⟩
  · exact mem_retainedSources hsources hfile hextension hload

def orderLetter : OutboxEntry := ⟨"orders", "workers", 15, "orders.workers.DLQ", [1, 2]⟩

/-- One letter is stored and read by both. -/
theorem outbox_read_alike_orders :
    Crc32c.castagnoli.Chunked ∧ orderLetter.Fits ∧ ∀ sha256,
      ∃ file, store .castagnoli sha256 orderLetter = .ok file ∧
        load .castagnoli sha256 file = .ok orderLetter ∧
        retainedSource .castagnoli sha256 file = .ok ("orders", 15) := by
  have hcrc := Crc32c.castagnoli_lawful.chunked
  have hfits : orderLetter.Fits := ⟨by decide, by decide, by decide, by decide⟩
  exact ⟨hcrc, hfits, fun sha256 => (outbox_read_alike .castagnoli hcrc sha256).1 orderLetter hfits⟩

end RustQueue.Broker.Outbox
