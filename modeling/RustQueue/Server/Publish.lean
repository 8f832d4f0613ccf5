import RustQueue.Broker.Publish
import RustQueue.Server.Config
import RustQueue.Topic.Operations

/-!
# Publish requests

The six ways in which a client publishes, from the body on the wire to the bodies of the messages:
PUB, DPUB and MPUB over TCP, and a single message, a binary batch and a text batch over HTTP.

* `encodedBytes_of_binary`: a binary batch has four bytes per message on the wire, and its record
  sixteen more;
* `encodedBytes_of_text`: a text batch has one byte per message on the wire, or none, and its record
  twenty more;
* `recordError_accepted_iff`: the log takes the record of every accepted request, but for some text
  batches of very many lines at feature level 1.
-/

namespace RustQueue.Server

open Lib Storage Broker Topic

/-- The code and the text of a refusal. -/
structure ApiError where
  code : String
  message : String
  deriving DecidableEq, Repr

inductive MpubError where
  | badBody (message : String)
  | badMessage (message : String)
  deriving DecidableEq, Repr

def MpubError.toApiError : MpubError → ApiError
  | .badBody message => ⟨"E_BAD_BODY", message⟩
  | .badMessage message => ⟨"E_BAD_MESSAGE", message⟩

/-! ### Binary batches -/

/-- The messages of a binary batch, and the bytes behind them. -/
def parseMpubItems (maxMessageBytes : ℕ) :
    ℕ → List UInt8 → Except MpubError (List (List UInt8) × List UInt8)
  | 0, bytes => .ok ([], bytes)
  | count + 1, bytes =>
    let length := ofBytes (bytes.take 4)
    let rest := bytes.drop 4
    if bytes.length < 4 then .error (.badMessage "truncated message length")
    else if length = 0 ∨ maxMessageBytes < length ∨ rest.length < length then
      .error (.badMessage "invalid message length")
    else do
      let (messages, behind) ← parseMpubItems maxMessageBytes count (rest.drop length)
      return (rest.take length :: messages, behind)

variable (body : List UInt8)

def parseMpubBytes (maxMessageBytes : ℕ) : Except MpubError (List (List UInt8)) :=
  let count := ofBytes (body.take 4)
  if body.length < 4 then .error (.badBody "missing batch count")
  else if count = 0 ∨ maxMpubMessages < count then .error (.badBody "invalid batch count")
  else do
    let (messages, behind) ← parseMpubItems maxMessageBytes count (body.drop 4)
    if behind = [] then return messages
    else throw (.badBody "batch contains trailing bytes")

/-! ### Text batches -/

def newline : UInt8 := 10

/-- The messages of the lines of a text batch, after `count` messages. -/
def textMessages (maxMessageBytes : ℕ) : ℕ → List (List UInt8) → Except ApiError (List (List UInt8))
  | _, [] => .ok []
  | count, line :: lines =>
    if line = [] then textMessages maxMessageBytes count lines
    else if maxMessageBytes < line.length then
      .error ⟨"E_BAD_MESSAGE", "message exceeds configured limit"⟩
    else if maxMpubMessages < count + 1 then
      .error ⟨"E_BAD_BODY", "batch message count exceeds limit"⟩
    else do
      let messages ← textMessages maxMessageBytes (count + 1) lines
      return line :: messages

def parseTextMpub (maxMessageBytes : ℕ) : Except ApiError (List (List UInt8)) :=
  textMessages maxMessageBytes 0 (body.splitOn newline)

/-! ### Requests -/

/-- A publish with its body on the wire. -/
inductive PublishRequest where
  | pub (body : List UInt8)
  | dpub (body : List UInt8)
  | mpub (body : List UInt8)
  | httpPub (body : List UInt8)
  | httpBinaryMpub (body : List UInt8)
  | httpTextMpub (body : List UInt8)
  deriving DecidableEq, Repr

/-- The body of a TCP command. -/
def readCommandBody (code name : String) (maximum : ℕ) (body : List UInt8) :
    Except ApiError (List UInt8) :=
  if body.length = 0 then .error ⟨code, s!"{name} invalid body size 0"⟩
  else if maximum < body.length then .error ⟨code, s!"{name} body too big {body.length} > {maximum}"⟩
  else .ok body

/-- The body of an HTTP request. -/
def readPublishBody (maximum : ℕ) (body : List UInt8) : Except ApiError (List UInt8) :=
  if maximum < body.length then .error ⟨"E_BAD_BODY", "body exceeds configured limit"⟩
  else .ok body

def refuseEmpty (messages : List (List UInt8)) : Except ApiError (List (List UInt8)) :=
  if messages = [] then .error ⟨"E_BAD_BODY", "batch contains no messages"⟩ else .ok messages

/-- The messages of a request. -/
def PublishRequest.parse (config : Config) : PublishRequest → Except ApiError (List (List UInt8))
  | .pub body => do
    let body ← readCommandBody "E_BAD_MESSAGE" "PUB" config.maxMessageBytes body
    return [body]
  | .dpub body => do
    let body ← readCommandBody "E_BAD_MESSAGE" "DPUB" config.maxMessageBytes body
    return [body]
  | .mpub body => do
    let body ← readCommandBody "E_BAD_BODY" "MPUB" config.limits.maxBodyBytes body
    (parseMpubBytes body config.maxMessageBytes).mapError MpubError.toApiError
  | .httpPub body => do
    let body ← readPublishBody config.maxMessageBytes body
    if body = [] then throw ⟨"E_BAD_MESSAGE", "message is empty"⟩ else return [body]
  | .httpBinaryMpub body => do
    let body ← readPublishBody config.limits.maxBodyBytes body
    let messages ← (parseMpubBytes body config.maxMessageBytes).mapError MpubError.toApiError
    refuseEmpty messages
  | .httpTextMpub body => do
    let body ← readPublishBody config.limits.maxBodyBytes body
    let messages ← parseTextMpub body config.maxMessageBytes
    refuseEmpty messages

/-! ### Sizes on the wire and in the log -/

theorem encodedBytes_eq (bodies : List (List UInt8)) :
    encodedBytes bodies = 4 + 20 * bodies.length + (bodies.map List.length).sum := by
  rw [encodedBytes]
  induction bodies with
  | nil => rfl
  | cons body bodies ih =>
    simp only [List.map_cons, List.sum_cons, List.length_cons]
    omega

variable {messages : List (List UInt8)} {maxMessageBytes : ℕ}

theorem parseMpubItems_eq_ok {count : ℕ} {bytes behind : List UInt8}
    (h : parseMpubItems maxMessageBytes count bytes = .ok (messages, behind)) :
    messages.length = count ∧
      bytes.length = 4 * count + (messages.map List.length).sum + behind.length := by
  induction count generalizing bytes messages with
  | zero =>
    cases h
    simp
  | succ count ih =>
    rw [parseMpubItems] at h
    dsimp only at h
    split_ifs at h with hshort hlength
    obtain ⟨⟨rest, left⟩, hrest, h⟩ := bind_eq_ok.1 h
    cases h
    obtain ⟨hcount, hbytes⟩ := ih hrest
    simp only [not_or, not_lt, List.length_drop] at hlength
    simp only [List.length_drop] at hbytes
    simp only [List.length_cons, List.map_cons, List.sum_cons, List.length_take, List.length_drop]
    omega

theorem encodedBytes_of_binary {body : List UInt8}
    (h : parseMpubBytes body maxMessageBytes = .ok messages) :
    encodedBytes messages = body.length + 16 * messages.length ∧
      messages.length ≤ maxMpubMessages := by
  rw [parseMpubBytes] at h
  dsimp only at h
  split_ifs at h with hshort hcount
  obtain ⟨⟨parsed, behind⟩, hitems, h⟩ := bind_eq_ok.1 h
  dsimp only at h
  split_ifs at h with hbehind
  cases h
  subst hbehind
  obtain ⟨hlength, hbytes⟩ := parseMpubItems_eq_ok hitems
  rw [encodedBytes_eq]
  simp only [List.length_drop, List.length_nil] at hbytes
  omega

/-- The messages of a text batch are its lines that are not empty. -/
theorem textMessages_eq_ok {count : ℕ} {lines : List (List UInt8)}
    (h : textMessages maxMessageBytes count lines = .ok messages) :
    messages = lines.filter (· ≠ []) := by
  induction lines generalizing count messages with
  | nil =>
    cases h
    rfl
  | cons line lines ih =>
    rw [textMessages] at h
    split_ifs at h with hempty hlarge hcount
    · rw [List.filter_cons_of_neg (by simpa using hempty)]
      exact ih h
    · obtain ⟨rest, hrest, h⟩ := bind_eq_ok.1 h
      cases h
      rw [List.filter_cons_of_pos (by simpa using hempty), ih hrest]

theorem sum_length_lines :
    ((body.splitOn newline).map List.length).sum + body.count newline = body.length := by
  induction body with
  | nil => rfl
  | cons byte body ih =>
    rw [List.splitOn, List.splitOnP_cons_eq_if_modifyHead]
    obtain ⟨first, rest, hlines⟩ := List.exists_cons_of_ne_nil
      (List.splitOnP_ne_nil (· == newline) body)
    rw [List.splitOn, hlines] at ih
    rw [hlines, List.count_cons, List.length_cons]
    by_cases hbyte : byte = newline
    · simp only [hbyte, beq_self_eq_true, if_true, List.map_cons, List.sum_cons, List.length_nil] at ih ⊢
      omega
    · simp only [beq_iff_eq, hbyte, if_false, List.modifyHead_cons, List.map_cons, List.sum_cons,
        List.length_cons] at ih ⊢
      omega

/-- The payload of the record of a text batch, by its bytes on the wire: the bytes that are no line
ends, and twenty for each line that is not empty. -/
def textPayload : ℕ :=
  4 + 20 * ((body.splitOn newline).filter (· ≠ [])).length + (body.length - body.count newline)

theorem sum_length_filter_ne_nil (lines : List (List UInt8)) :
    ((lines.filter (· ≠ [])).map List.length).sum = (lines.map List.length).sum := by
  induction lines with
  | nil => rfl
  | cons line lines ih =>
    by_cases hempty : line = []
    · rw [List.filter_cons_of_neg (by simpa using hempty), ih]
      simp [hempty]
    · rw [List.filter_cons_of_pos (by simpa using hempty)]
      simp only [List.map_cons, List.sum_cons, ih]

theorem encodedBytes_of_text {body : List UInt8} (h : parseTextMpub body maxMessageBytes = .ok messages) :
    encodedBytes messages = textPayload body := by
  have hlines := sum_length_lines body
  rw [textMessages_eq_ok h, encodedBytes_eq, textPayload, sum_length_filter_ne_nil]
  omega

/-! ### Accepted requests -/

theorem readCommandBody_eq_ok {code name : String} {maximum : ℕ} {body result : List UInt8}
    (h : readCommandBody code name maximum body = .ok result) :
    result = body ∧ body.length ≤ maximum := by
  unfold readCommandBody at h
  split_ifs at h with hzero hlarge
  cases h
  exact ⟨rfl, not_lt.1 hlarge⟩

theorem readPublishBody_eq_ok {maximum : ℕ} {body result : List UInt8}
    (h : readPublishBody maximum body = .ok result) : result = body ∧ body.length ≤ maximum := by
  unfold readPublishBody at h
  split_ifs at h with hlarge
  cases h
  exact ⟨rfl, not_lt.1 hlarge⟩

theorem refuseEmpty_eq_ok {result : List (List UInt8)} (h : refuseEmpty messages = .ok result) :
    result = messages := by
  unfold refuseEmpty at h
  split_ifs at h
  cases h
  rfl

theorem mapError_eq_ok {ε ε' α : Type} {f : ε → ε'} {result : Except ε α} {a : α}
    (h : result.mapError f = .ok a) : result = .ok a := by
  cases result with
  | error error => cases h
  | ok value =>
    cases h
    rfl

/-- **The record of a request, by its form.**  A text batch has the size that its lines say, and any
other request stays within the payload that the configuration was checked for. -/
theorem PublishRequest.parse_eq_ok {config : Config} {request : PublishRequest}
    {bodies : List (List UInt8)} (h : request.parse config = .ok bodies) :
    (∃ body, request = .httpTextMpub body ∧ encodedBytes bodies = textPayload body) ∨
      (∀ body, request ≠ .httpTextMpub body) ∧
        (encodedBytes bodies ≤ config.maxMessageBytes + 24 ∨
          encodedBytes bodies ≤ config.limits.maxBodyBytes + 16 * maxMpubMessages) := by
  have hsingle : ∀ body : List UInt8, body.length ≤ config.maxMessageBytes →
      encodedBytes [body] ≤ config.maxMessageBytes + 24 := by
    intro body hbody
    rw [encodedBytes_eq]
    simp only [List.length_cons, List.length_nil, List.map_cons, List.map_nil, List.sum_cons,
      List.sum_nil]
    omega
  cases request with
  | pub body | dpub body =>
    obtain ⟨read, hread, hbodies⟩ := bind_eq_ok.1 h
    cases hbodies
    obtain ⟨rfl, hbody⟩ := readCommandBody_eq_ok hread
    exact Or.inr ⟨nofun, Or.inl (hsingle read hbody)⟩
  | mpub body =>
    obtain ⟨read, hread, hparsed⟩ := bind_eq_ok.1 h
    obtain ⟨rfl, hbody⟩ := readCommandBody_eq_ok hread
    obtain ⟨hbytes, hcount⟩ := encodedBytes_of_binary (mapError_eq_ok hparsed)
    exact Or.inr ⟨nofun, Or.inr (by omega)⟩
  | httpPub body =>
    obtain ⟨read, hread, hbodies⟩ := bind_eq_ok.1 h
    obtain ⟨rfl, hbody⟩ := readPublishBody_eq_ok hread
    split_ifs at hbodies
    cases hbodies
    exact Or.inr ⟨nofun, Or.inl (hsingle read hbody)⟩
  | httpBinaryMpub body =>
    obtain ⟨read, hread, hparsed⟩ := bind_eq_ok.1 h
    obtain ⟨rfl, hbody⟩ := readPublishBody_eq_ok hread
    obtain ⟨messages, hmessages, hbodies⟩ := bind_eq_ok.1 hparsed
    obtain rfl := refuseEmpty_eq_ok hbodies
    obtain ⟨hbytes, hcount⟩ := encodedBytes_of_binary (mapError_eq_ok hmessages)
    exact Or.inr ⟨nofun, Or.inr (by omega)⟩
  | httpTextMpub body =>
    obtain ⟨read, hread, hparsed⟩ := bind_eq_ok.1 h
    obtain ⟨rfl, -⟩ := readPublishBody_eq_ok hread
    obtain ⟨messages, hmessages, hbodies⟩ := bind_eq_ok.1 hparsed
    obtain rfl := refuseEmpty_eq_ok hbodies
    exact Or.inl ⟨read, rfl, encodedBytes_of_text hmessages⟩

/-- Within the absolute limit, the log refuses a record only for its feature level. -/
theorem recordError_eq_none_iff {level payloadLen : ℕ} (hlevel : 1 ≤ level)
    (hlen : payloadLen ≤ maxRecordBytes) :
    recordError level payloadLen = none ↔ 2 ≤ level ∨ payloadLen ≤ legacyMaxRecordBytes := by
  have hmax : ¬maxRecordBytes < payloadLen := not_lt.2 hlen
  unfold recordError RecordKind.requiredWriterFeatureLevel
  dsimp only
  rw [if_neg hmax]
  by_cases hlegacy : legacyMaxRecordBytes < payloadLen
  · rw [if_pos hlegacy]
    split_ifs with hlow
    · simp only [false_iff]
      omega
    · simp only [true_iff]
      omega
  · rw [if_neg hlegacy, if_neg (by omega)]
    simp only [true_iff]
    omega

/-- The checked payload does not saturate when it is within the absolute limit. -/
theorem Config.le_maximumRecordPayload {config : Config}
    (h : config.maximumRecordPayload ≤ maxRecordBytes) :
    config.maxMessageBytes + 24 ≤ config.maximumRecordPayload ∧
      config.limits.maxBodyBytes + 16 * maxMpubMessages ≤ config.maximumRecordPayload := by
  have hword : maxRecordBytes < usizeMax := by decide
  unfold Config.maximumRecordPayload satAdd at h ⊢
  omega

/-- **The log takes the record of an accepted request exactly when the request is not a text batch
whose payload is above the legacy bound at feature level 1.**  The request is encoded in any case. -/
theorem recordError_accepted_iff {config : Config} {maximum : ℕ}
    {stored : Option CompatibilityState} {compatibility : CompatibilityState}
    {request : PublishRequest} {bodies : List (List UInt8)} {topic : String}
    {access : Except BrokerError Unit} {bytes : ℕ}
    (haccepted : config.validateProtocolLimits = .ok ())
    (hprepared : prepareWithCapabilities stored config.featureLevel (binaryCapabilities maximum) =
      .ok compatibility)
    (hparsed : request.parse config = .ok bodies)
    (hvalid : validatePublishRequest topic access config.maxMessageBytes bodies = .ok bytes)
    (crc32c : List UInt8 → UInt32) (firstPosition firstId : ℕ) :
    ∃ entries, encode crc32c firstPosition firstId bodies = .ok entries ∧
      ∀ batch : PublishBatch, batch.entries = entries →
        (recordError compatibility.activeWriterFeatureLevel batch.payloadLen = none ↔
          ∀ body, request = .httpTextMpub body →
            2 ≤ config.featureLevel ∨ textPayload body ≤ legacyMaxRecordBytes) := by
  obtain ⟨-, hpayload, hlegacy, -⟩ := Config.validateProtocolLimits_eq_ok haccepted
  obtain ⟨hactive, hbase⟩ := prepareWithCapabilities_eq_ok hprepared
  obtain ⟨-, -, -, -, hbodies, hrecord, -⟩ := validatePublishRequest_eq_ok_iff.1 hvalid
  obtain ⟨hmessage, hbatch⟩ := Config.le_maximumRecordPayload hpayload
  have hword : maxRecordBytes ≤ u32Max := by decide
  obtain ⟨entries, hentries, hsame⟩ := encode_isOk crc32c firstPosition firstId
    (fun body hbody => (hbodies body hbody).2.trans (by omega))
  refine ⟨entries, hentries, ?_⟩
  rintro batch rfl
  rw [payloadLen_eq_encodedBytes, hsame, hactive, recordError_eq_none_iff hbase hrecord]
  rcases PublishRequest.parse_eq_ok hparsed with ⟨body, rfl, hbytes⟩ | ⟨hother, hbytes⟩
  · rw [hbytes]
    constructor
    · rintro h other ⟨rfl⟩
      exact h
    · exact fun h => h body rfl
  · refine iff_of_true ?_ fun body hbody => absurd hbody (hother body)
    by_cases hlevel : 2 ≤ config.featureLevel
    · exact Or.inl hlevel
    · right
      have := hlegacy (by omega)
      omega

/-! ### A text batch that is refused -/

/-- A text of `count` lines. -/
def textOf (line : List UInt8) (count : ℕ) : List UInt8 :=
  (List.replicate count (line ++ [newline])).flatten

theorem splitOn_textOf {line : List UInt8} (h : newline ∉ line) (count : ℕ) :
    (textOf line count).splitOn newline = List.replicate count line ++ [[]] := by
  induction count with
  | zero => rfl
  | succ count ih =>
    have hline : ∀ byte ∈ line, (byte == newline) = false := by
      intro byte hbyte
      exact beq_false_of_ne fun heq => h (heq ▸ hbyte)
    have htext : textOf line (count + 1) = line ++ newline :: textOf line count := by
      rw [textOf, textOf, List.replicate_succ, List.flatten_cons, List.append_assoc]
      rfl
    rw [htext, List.splitOn, List.splitOnP_append_cons_of_forall_mem hline newline
      (beq_self_eq_true _)]
    rw [List.splitOn] at ih
    rw [ih, List.replicate_succ, List.cons_append]

theorem textMessages_replicate {line : List UInt8} (hempty : line ≠ [])
    (hlength : line.length ≤ maxMessageBytes) (n : ℕ) {count : ℕ} (h : count + n ≤ maxMpubMessages) :
    textMessages maxMessageBytes count (List.replicate n line ++ [[]]) =
      .ok (List.replicate n line) := by
  induction n generalizing count with
  | zero => rfl
  | succ n ih =>
    rw [List.replicate_succ, List.cons_append, textMessages, if_neg hempty,
      if_neg (not_lt.2 hlength), if_neg (by omega), ih (by omega)]
    rfl

theorem length_textOf (line : List UInt8) (count : ℕ) :
    (textOf line count).length = count * (line.length + 1) := by
  rw [textOf, List.length_flatten, List.map_replicate, List.sum_replicate, List.length_append,
    List.length_singleton, smul_eq_mul]

/-- A text of equal lines is accepted by its size, the size of its line and their number. -/
theorem parse_textOf {config : Config} {line : List UInt8} {count : ℕ} (hempty : line ≠ [])
    (hnewline : newline ∉ line) (hline : line.length ≤ config.maxMessageBytes)
    (hbody : count * (line.length + 1) ≤ config.limits.maxBodyBytes) (hpos : 0 < count)
    (hcount : count ≤ maxMpubMessages) :
    (PublishRequest.httpTextMpub (textOf line count)).parse config =
      .ok (List.replicate count line) := by
  have hread : readPublishBody config.limits.maxBodyBytes (textOf line count) =
      .ok (textOf line count) := by
    rw [readPublishBody, length_textOf, if_neg (not_lt.2 hbody)]
  have hmessages : parseTextMpub (textOf line count) config.maxMessageBytes =
      .ok (List.replicate count line) := by
    rw [parseTextMpub, splitOn_textOf hnewline]
    exact textMessages_replicate hempty hline count (by omega)
  rw [PublishRequest.parse]
  refine bind_eq_ok.2 ⟨_, hread, bind_eq_ok.2 ⟨_, hmessages, ?_⟩⟩
  rw [refuseEmpty, if_neg]
  rw [← List.length_eq_zero_iff, List.length_replicate]
  exact hpos.ne'

theorem encodedBytes_replicate (line : List UInt8) (count : ℕ) :
    encodedBytes (List.replicate count line) = 4 + 20 * count + count * line.length := by
  rw [encodedBytes_eq, List.map_replicate, List.sum_replicate, List.length_replicate, smul_eq_mul]

theorem validatePublishRequest_replicate {topic : String} {line : List UInt8} {count bound : ℕ}
    (hname : validateName topic = .ok ()) (hempty : line ≠ []) (hline : line.length ≤ bound)
    (hpos : 0 < count) (hcount : count ≤ maxMessages)
    (hbytes : 4 + 20 * count + count * line.length ≤ maxRecordBytes) :
    validatePublishRequest topic (.ok ()) bound (List.replicate count line) =
      .ok (4 + 20 * count + count * line.length) := by
  rw [validatePublishRequest_eq_ok_iff, encodedBytes_replicate, List.length_replicate, ne_eq,
    ← List.length_eq_zero_iff, List.length_replicate]
  refine ⟨hname, rfl, hpos.ne', hcount, fun body hbody => ?_, hbytes, rfl⟩
  rw [List.eq_of_mem_replicate hbody]
  exact ⟨hempty, hline⟩

/-- The default configuration with a larger limit for batches. -/
def wideConfig : Config :=
  { Config.default with limits := { Limits.default with maxBodyBytes := 71 * 1024 * 1024 } }

/-- The line that is sent as often as a batch may have messages. -/
def wideLine : List UInt8 := List.replicate 1135 65

/-- A text batch of two lines with an empty one between them, under that configuration. -/
theorem recordError_accepted_text :
    ∃ compatibility bytes entries,
      prepareWithCapabilities none wideConfig.featureLevel (binaryCapabilities 2) = .ok compatibility ∧
      (PublishRequest.httpTextMpub [104, 105, 10, 10, 121, 111, 117, 10]).parse wideConfig =
        .ok [[104, 105], [121, 111, 117]] ∧
      validatePublishRequest "events" (.ok ()) wideConfig.maxMessageBytes
        [[104, 105], [121, 111, 117]] = .ok bytes ∧
      encode crc32cSum 1 7 [[104, 105], [121, 111, 117]] = .ok entries ∧
      recordError compatibility.activeWriterFeatureLevel
        (PublishBatch.payloadLen ⟨1, 0, 7, 0, entries⟩) = none := by
  have haccepted : wideConfig.validateProtocolLimits = .ok () := by decide
  have hprepared : prepareWithCapabilities none wideConfig.featureLevel (binaryCapabilities 2) =
      .ok .base := rfl
  have hparsed : (PublishRequest.httpTextMpub [104, 105, 10, 10, 121, 111, 117, 10]).parse wideConfig =
      .ok [[104, 105], [121, 111, 117]] := by decide +kernel
  have hvalid : validatePublishRequest "events" (.ok ()) wideConfig.maxMessageBytes
      [[104, 105], [121, 111, 117]] = .ok 49 := by decide
  obtain ⟨entries, hentries, hrecord⟩ :=
    recordError_accepted_iff haccepted hprepared hparsed hvalid crc32cSum 1 7
  refine ⟨_, _, entries, hprepared, hparsed, hvalid, hentries, (hrecord ⟨1, 0, 7, 0, entries⟩ rfl).2 ?_⟩
  rintro body ⟨⟩
  exact Or.inr (by decide)

/-- A text of 65536 lines of 1135 bytes has 71 MiB, which the configuration allows, and is accepted.
Its record has more than 72 MiB, and the log refuses it at feature level 1. -/
theorem recordError_wide_text :
    wideConfig.validateProtocolLimits = .ok () ∧
      ∃ compatibility bodies bytes,
        prepareWithCapabilities none wideConfig.featureLevel (binaryCapabilities 2) =
          .ok compatibility ∧
        (PublishRequest.httpTextMpub (textOf wideLine 65536)).parse wideConfig = .ok bodies ∧
        validatePublishRequest "events" (.ok ()) wideConfig.maxMessageBytes bodies = .ok bytes ∧
        recordError compatibility.activeWriterFeatureLevel bytes =
          some (.io "record kind PublishBatch with 75694084 payload bytes requires writer feature level 2, active level is 1") := by
  have hline : wideLine.length = 1135 := List.length_replicate
  have hempty : wideLine ≠ [] := by
    rw [← List.length_pos_iff, hline]
    decide
  have hnewline : newline ∉ wideLine := fun h => absurd (List.eq_of_mem_replicate h) (by decide)
  refine ⟨by decide, .base, _, _, rfl,
    parse_textOf hempty hnewline (by rw [hline]; decide) (by rw [hline]; decide) (by decide)
      (by decide),
    validatePublishRequest_replicate (by decide) hempty (by rw [hline]; decide) (by decide)
      (by decide) (by rw [hline]; decide), ?_⟩
  rw [hline]
  decide

end RustQueue.Server
