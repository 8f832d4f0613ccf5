import RustQueue.Lib.BigEndian
import RustQueue.Lib.Numerals
import RustQueue.Lib.Text
import RustQueue.Name
import Mathlib.Data.List.DropRight

/-!
# Commands and message ids on the wire

A client sends a command as a line of words.  `Command.parse` reads such a line, and `encodeMessageHeader`
writes the header of the frame in which a message is delivered, its id in 16 hexadecimal digits.  The
client sends these digits back in FIN, TOUCH and REQ.

The digits of an id are read by the integer parser of the standard library, which also takes a plus sign:

* `parse_line`: a command with an id argument is parsed like the argument;
* `readId_eq_ok`: 16 hexadecimal digits are accepted, and so are 15 of them behind a plus sign;
* `message_id_grammar`: ids round trip, and the arguments that are accepted are 16 hexadecimal digits but for that
  plus sign.
-/

namespace RustQueue.Protocol

open Lib

/-! ### Frames -/

inductive FrameType where
  | response
  | error
  | message
  deriving DecidableEq, Repr

def FrameType.code : FrameType → ℕ
  | .response => 0
  | .error => 1
  | .message => 2

def hexTable : List Char := "0123456789abcdef".toList

/-- The last four bits of the id give the last digit. -/
def encodeHexId : ℕ → ℕ → List UInt8
  | 0, _ => []
  | width + 1, id => encodeHexId width (id >>> 4) ++ [asciiByte (hexTable.getD (id &&& 0xf) '0')]

def messageHeaderBytes : ℕ := 26

def encodeMessageHeader (timestampNs : ℤ) (attempts id bodyLen : ℕ) : List UInt8 :=
  toBytes 4 (4 + satAdd usizeMax messageHeaderBytes bodyLen) ++ toBytes 4 FrameType.message.code ++
    toBytes 8 (ofInt 8 timestampNs) ++ toBytes 2 attempts ++ encodeHexId 16 id

/-! ### Commands -/

inductive Command where
  | identify
  | auth
  | subscribe (topic channel : String)
  | publish (topic : String)
  | multiPublish (topic : String)
  | deferredPublish (topic : String) (delayMs : ℕ)
  | ready (count : ℕ)
  | finish (id : ℕ)
  | requeue (id : ℕ) (delayMs : ℤ)
  | touch (id : ℕ)
  | close
  | noop
  deriving DecidableEq, Repr

inductive CommandError where
  | invalid (reason : String)
  | badTopic
  | badChannel
  deriving DecidableEq, Repr

def parseU64 (value : String) : Except CommandError ℕ :=
  match parseUnsigned 10 u64Max value.toList with
  | some n => .ok n
  | none => .error (.invalid "expected unsigned integer")

def parseI64 (value : String) : Except CommandError ℤ :=
  match parseSigned 10 (2 ^ 63 - 1) (2 ^ 63) value.toList with
  | some n => .ok n
  | none => .error (.invalid "expected integer")

def parseId (value : String) : Except CommandError ℕ :=
  if value.utf8ByteSize ≠ 16 then .error (.invalid "message ID must contain 16 hex bytes")
  else
    match parseUnsigned 16 u64Max value.toList with
    | some n => .ok n
    | none => .error (.invalid "message ID must contain 16 hex bytes")

def checkTopic (topic : String) : Except CommandError Unit :=
  (validateName topic).mapError fun _ => .badTopic

def checkChannel (channel : String) : Except CommandError Unit :=
  (validateName channel).mapError fun _ => .badChannel

def isAsciiWhitespace (c : Char) : Bool :=
  c == ' ' || c == '\t' || c == '\n' || c == '\x0c' || c == '\r'

/-- The words of a line. -/
def splitAsciiWhitespace (line : List Char) : List (List Char) :=
  (line.splitOnP isAsciiWhitespace).filter (· ≠ [])

def isLineEnd (c : Char) : Bool := c == '\r' || c == '\n'

/-- The command with the given words. -/
def parseWords : List String → Except CommandError Command
  | [] => .error (.invalid "empty command")
  | ["IDENTIFY"] => .ok .identify
  | ["AUTH"] => .ok .auth
  | ["SUB", topic, channel] => do
    checkTopic topic
    checkChannel channel
    return .subscribe topic channel
  | ["PUB", topic] => do
    checkTopic topic
    return .publish topic
  | ["MPUB", topic] => do
    checkTopic topic
    return .multiPublish topic
  | ["DPUB", topic, delay] => do
    checkTopic topic
    return .deferredPublish topic (← parseU64 delay)
  | ["RDY"] => .ok (.ready 1)
  | ["RDY", count] => do return .ready (← parseU64 count)
  | ["FIN", id] => do return .finish (← parseId id)
  | ["REQ", id, delay] => do return .requeue (← parseId id) (← parseI64 delay)
  | ["TOUCH", id] => do return .touch (← parseId id)
  | ["CLS"] => .ok .close
  | ["NOP"] => .ok .noop
  | _ => .error (.invalid "unsupported command or arguments")

def Command.parse (line : List UInt8) : Except CommandError Command :=
  match ofUtf8 line with
  | none => .error (.invalid "command is not UTF-8")
  | some text =>
    parseWords ((splitAsciiWhitespace (text.toList.rdropWhile isLineEnd)).map String.ofList)

/-! ### Words -/

/-- A word has a character, and none that separates words. -/
def IsWord (word : List Char) : Prop := word ≠ [] ∧ ∀ c ∈ word, isAsciiWhitespace c = false

instance (word : List Char) : Decidable (IsWord word) :=
  have : Decidable (∀ c ∈ word, isAsciiWhitespace c = false) := List.decidableBAll _ _
  inferInstanceAs (Decidable (word ≠ [] ∧ _))

/-- What may stand at the end of a line. -/
structure LineEnding where
  text : String
  lineEnd : ∀ c ∈ text.toList, isLineEnd c = true

theorem splitAsciiWhitespace_word {word : List Char} (h : IsWord word) :
    splitAsciiWhitespace word = [word] := by
  rw [splitAsciiWhitespace, List.splitOnP_eq_singleton h.2, List.filter_singleton, decide_eq_true h.1]
  rfl

theorem splitAsciiWhitespace_cons {word : List Char} (h : IsWord word) (rest : List Char) :
    splitAsciiWhitespace (word ++ ' ' :: rest) = word :: splitAsciiWhitespace rest := by
  rw [splitAsciiWhitespace, List.splitOnP_append_cons_of_forall_mem h.2 ' ' rfl,
    List.filter_cons_of_pos (by simpa using h.1)]
  rfl

theorem rdropWhile_lineEnd {front word : List Char} (h : IsWord word) (ending : LineEnding) :
    (front ++ word ++ ending.text.toList).rdropWhile isLineEnd = front ++ word := by
  have hending : (front ++ word ++ ending.text.toList).rdropWhile isLineEnd =
      (front ++ word).rdropWhile isLineEnd := by
    rw [List.rdropWhile, List.reverse_append, List.dropWhile_append_of_pos]
    · rfl
    · intro c hc
      exact ending.lineEnd c (List.mem_reverse.1 hc)
  rw [hending]
  refine List.rdropWhile_eq_self_iff.2 fun hne => ?_
  have hlast : (front ++ word).getLast hne ∈ word := by
    rw [List.getLast_append_of_ne_nil _ h.1]
    exact List.getLast_mem h.1
  have hspace := h.2 _ hlast
  simp only [isAsciiWhitespace, Bool.or_eq_false_iff] at hspace
  simp [isLineEnd, hspace]

theorem parse_two {command argument : String} (hcommand : IsWord command.toList)
    (hargument : IsWord argument.toList) (ending : LineEnding) :
    Command.parse (utf8 (command ++ " " ++ argument ++ ending.text)) =
      parseWords [command, argument] := by
  rw [Command.parse, ofUtf8_utf8]
  simp only [String.toList_append]
  rw [rdropWhile_lineEnd hargument, List.append_assoc]
  show parseWords ((splitAsciiWhitespace (command.toList ++ ' ' :: argument.toList)).map _) = _
  rw [splitAsciiWhitespace_cons hcommand, splitAsciiWhitespace_word hargument]
  simp only [List.map_cons, List.map_nil, String.ofList_toList]

theorem parse_three {command first second : String} (hcommand : IsWord command.toList)
    (hfirst : IsWord first.toList) (hsecond : IsWord second.toList) (ending : LineEnding) :
    Command.parse (utf8 (command ++ " " ++ first ++ " " ++ second ++ ending.text)) =
      parseWords [command, first, second] := by
  rw [Command.parse, ofUtf8_utf8]
  simp only [String.toList_append]
  rw [rdropWhile_lineEnd hsecond]
  simp only [List.append_assoc]
  show parseWords ((splitAsciiWhitespace
    (command.toList ++ ' ' :: (first.toList ++ ' ' :: second.toList))).map _) = _
  rw [splitAsciiWhitespace_cons hcommand, splitAsciiWhitespace_cons hfirst,
    splitAsciiWhitespace_word hsecond]
  simp only [List.map_cons, List.map_nil, String.ofList_toList]

/-! ### Commands with an id -/

/-- A delay that REQ accepts. -/
structure Delay where
  text : String
  delayMs : ℤ
  word : IsWord text.toList
  parsed : parseI64 text = .ok delayMs

/-- The commands that name a message. -/
inductive IdCommand where
  | finish
  | touch
  | requeue (delay : Delay)

variable (form : IdCommand)

/-- The line with an id argument, which is any bytes. -/
def IdCommand.line (argument : List UInt8) (ending : LineEnding) : List UInt8 :=
  match form with
  | .finish => utf8 "FIN " ++ (argument ++ utf8 ending.text)
  | .touch => utf8 "TOUCH " ++ (argument ++ utf8 ending.text)
  | .requeue delay => utf8 "REQ " ++ (argument ++ utf8 (" " ++ delay.text ++ ending.text))

/-- The command for an id. -/
def IdCommand.command (id : ℕ) : Command :=
  match form with
  | .finish => .finish id
  | .touch => .touch id
  | .requeue delay => .requeue id delay.delayMs

theorem IdCommand.command_injective : Function.Injective form.command := by
  intro id id' h
  cases form <;> cases h <;> rfl

/-- An argument is bytes without one that separates words. -/
structure Argument where
  bytes : List UInt8
  nonempty : bytes ≠ []
  word : ∀ b ∈ bytes, isAsciiWhitespace (byteChar b) = false

theorem ascii_of_isAsciiWhitespace {c : Char} (h : isAsciiWhitespace c = true) : c.toNat < 128 := by
  simp only [isAsciiWhitespace, Bool.or_eq_true, beq_iff_eq] at h
  rcases h with (((rfl | rfl) | rfl) | rfl) | rfl <;> decide

theorem Argument.isWord (argument : Argument) {text : String} (h : ofUtf8 argument.bytes = some text) :
    IsWord text.toList := by
  have hbytes := utf8_of_ofUtf8 h
  constructor
  · intro hnil
    refine argument.nonempty ?_
    rw [← hbytes, utf8_eq_flatMap, hnil]
    rfl
  · intro c hc
    by_contra hspace
    have hspace' : isAsciiWhitespace c = true := by simpa using hspace
    have hascii := ascii_of_isAsciiWhitespace hspace'
    have hmem : asciiByte c ∈ argument.bytes := hbytes ▸ asciiByte_mem_utf8 hc hascii
    have := argument.word _ hmem
    rw [byteChar_asciiByte hascii] at this
    exact hspace this

/-- What `parse` makes of an id argument, whatever the command. -/
def readId (argument : List UInt8) : Except CommandError ℕ :=
  match ofUtf8 argument with
  | none => .error (.invalid "command is not UTF-8")
  | some text => parseId text

/-- **A command with an id argument is parsed like its argument.** -/
theorem parse_line (argument : Argument) (ending : LineEnding) :
    Command.parse (form.line argument.bytes ending) = (readId argument.bytes).map form.command := by
  cases hargument : ofUtf8 argument.bytes with
  | none =>
    have hline : ofUtf8 (form.line argument.bytes ending) = none := by
      cases form <;>
        simp only [IdCommand.line, ofUtf8_utf8_append, ofUtf8_append_utf8, hargument, Option.map_none]
    rw [Command.parse, hline, readId, hargument]
    rfl
  | some text =>
    have hword := argument.isWord hargument
    have hread : readId argument.bytes = parseId text := by rw [readId, hargument]
    rw [hread, ← utf8_of_ofUtf8 hargument]
    cases form with
    | finish =>
      show Command.parse (utf8 "FIN " ++ (utf8 text ++ utf8 ending.text)) = _
      rw [← utf8_append, ← utf8_append, ← String.append_assoc]
      rw [show ("FIN " ++ text ++ ending.text) = "FIN" ++ " " ++ text ++ ending.text from rfl,
        parse_two (by decide) hword]
      show (parseId text).bind _ = _
      cases parseId text <;> rfl
    | touch =>
      show Command.parse (utf8 "TOUCH " ++ (utf8 text ++ utf8 ending.text)) = _
      rw [← utf8_append, ← utf8_append, ← String.append_assoc]
      rw [show ("TOUCH " ++ text ++ ending.text) = "TOUCH" ++ " " ++ text ++ ending.text from rfl,
        parse_two (by decide) hword]
      show (parseId text).bind _ = _
      cases parseId text <;> rfl
    | requeue delay =>
      show Command.parse (utf8 "REQ " ++ (utf8 text ++ utf8 (" " ++ delay.text ++ ending.text))) = _
      rw [← utf8_append, ← utf8_append]
      simp only [← String.append_assoc]
      rw [show ("REQ " ++ text ++ " " ++ delay.text ++ ending.text) =
        "REQ" ++ " " ++ text ++ " " ++ delay.text ++ ending.text from rfl,
        parse_three (by decide) hword delay.word]
      show ((parseId text).bind fun id => (parseI64 delay.text).bind _) = _
      rw [delay.parsed]
      cases parseId text <;> rfl

/-! ### Which arguments are accepted -/

/-- Sixteen hexadecimal digits. -/
def IsHexId (argument : List UInt8) : Prop :=
  argument.length = 16 ∧ ∀ b ∈ argument, IsDigit 16 (byteChar b)

/-- A plus sign and fifteen hexadecimal digits. -/
def IsPlusId (argument : List UInt8) : Prop :=
  ∃ digits, argument = asciiByte '+' :: digits ∧ digits.length = 15 ∧ ∀ b ∈ digits, IsDigit 16 (byteChar b)

/-- The bytes of a text in lower case. -/
def lowercase (argument : List UInt8) : List Char := argument.map fun b => (byteChar b).toLower

/-- The number that digits denote. -/
def hexValue (digits : List UInt8) : ℕ := value 16 0 (digits.map byteChar)

theorem isDigit_map_byteChar {digits : List UInt8} :
    (∀ c ∈ digits.map byteChar, IsDigit 16 c) ↔ ∀ b ∈ digits, IsDigit 16 (byteChar b) :=
  List.forall_mem_map

theorem hexValue_le {digits : List UInt8} (hlength : digits.length ≤ 16)
    (h : ∀ b ∈ digits, IsDigit 16 (byteChar b)) : hexValue digits ≤ u64Max := by
  have hlt := value_lt (isDigit_map_byteChar.2 h) 0
  rw [List.length_map, Nat.zero_add, Nat.one_mul] at hlt
  have hpow : 16 ^ digits.length ≤ 16 ^ 16 := Nat.pow_le_pow_right (by decide) hlength
  have hmax : u64Max + 1 = 16 ^ 16 := by decide
  unfold hexValue
  omega

variable {argument : List UInt8}

/-- **An id is read** from 16 hexadecimal digits, or from 15 of them behind a plus sign. -/
theorem readId_eq_ok {id : ℕ} :
    readId argument = .ok id ↔
      argument.length = 16 ∧ ∃ digits, (argument = digits ∨ argument = asciiByte '+' :: digits) ∧
        (∀ b ∈ digits, IsDigit 16 (byteChar b)) ∧ id = hexValue digits := by
  constructor
  · intro h
    unfold readId at h
    cases htext : ofUtf8 argument with
    | none => rw [htext] at h; cases h
    | some text =>
      rw [htext] at h
      have hbytes := utf8_of_ofUtf8 htext
      have hid : text.utf8ByteSize = 16 ∧ parseUnsigned 16 u64Max text.toList = some id := by
        simp only [parseId] at h
        split_ifs at h with hsize
        refine ⟨not_not.1 hsize, ?_⟩
        cases hparse : parseUnsigned 16 u64Max text.toList with
        | none => rw [hparse] at h; cases h
        | some n => rw [hparse] at h; cases h; rfl
      obtain ⟨hsize, hparse⟩ := hid
      obtain ⟨digits, -, hshape, hdigits, hvalue, -⟩ := (parseUnsigned_eq_some (by decide)).1 hparse
      have hascii : ∀ c ∈ text.toList, c.toNat < 128 := by
        intro c hc
        rcases hshape with htoList | htoList <;> rw [htoList] at hc
        · exact (hdigits c hc).ascii
        · rcases List.mem_cons.1 hc with rfl | hc
          · decide
          · exact (hdigits c hc).ascii
      have hchars : text.toList = argument.map byteChar := hbytes ▸ toList_eq_map_byteChar hascii
      refine ⟨by rw [← hbytes, length_utf8, hsize], ?_⟩
      rcases hshape with htoList | htoList <;> rw [hchars] at htoList
      · refine ⟨argument, .inl rfl, isDigit_map_byteChar.1 (htoList ▸ hdigits), ?_⟩
        rw [hvalue, hexValue, htoList]
      · cases argument with
        | nil => cases htoList
        | cons b rest =>
          obtain ⟨hplus, hrest⟩ := List.cons.inj htoList
          refine ⟨rest, .inr ?_, isDigit_map_byteChar.1 (hrest ▸ hdigits), ?_⟩
          · rw [← hplus, asciiByte_byteChar]
          · rw [hvalue, hexValue, hrest]
  · rintro ⟨hlength, digits, hshape, hdigits, rfl⟩
    have hascii : ∀ b ∈ argument, b.toNat < 128 := by
      intro b hb
      rcases hshape with rfl | rfl
      · rw [← toNat_byteChar]
        exact (hdigits b hb).ascii
      · rcases List.mem_cons.1 hb with rfl | hb
        · decide
        · rw [← toNat_byteChar]
          exact (hdigits b hb).ascii
    have htext := ofUtf8_ascii hascii
    have hsize : (String.ofList (argument.map byteChar)).utf8ByteSize = 16 := by
      rw [← length_utf8, utf8_of_ofUtf8 htext, hlength]
    have hcount : digits ≠ [] ∧ digits.length ≤ 16 := by
      rcases hshape with rfl | rfl
      · refine ⟨?_, hlength.le⟩
        rintro rfl
        cases hlength
      · refine ⟨?_, ?_⟩
        · rintro rfl
          cases hlength
        · rw [List.length_cons] at hlength
          omega
    have hparse : parseUnsigned 16 u64Max (argument.map byteChar) = some (hexValue digits) := by
      refine (parseUnsigned_eq_some (by decide)).2 ⟨digits.map byteChar, by simpa using hcount.1, ?_,
        isDigit_map_byteChar.2 hdigits, rfl, hexValue_le hcount.2 hdigits⟩
      rcases hshape with rfl | rfl
      · exact .inl rfl
      · exact .inr rfl
    rw [readId, htext]
    simp only [parseId, hsize, ne_eq, not_true_eq_false, if_false, String.toList_ofList, hparse]

theorem readId_of_isHexId (h : IsHexId argument) : readId argument = .ok (hexValue argument) :=
  readId_eq_ok.2 ⟨h.1, argument, .inl rfl, h.2, rfl⟩

theorem readId_of_isPlusId (h : IsPlusId argument) : ∃ id, readId argument = .ok id := by
  obtain ⟨digits, rfl, hlength, hdigits⟩ := h
  exact ⟨_, readId_eq_ok.2 ⟨by rw [List.length_cons, hlength], digits, .inr rfl, hdigits, rfl⟩⟩

theorem isHexId_of_readId {id : ℕ} (h : readId argument = .ok id) (hplus : ¬IsPlusId argument) :
    IsHexId argument ∧ id = hexValue argument := by
  obtain ⟨hlength, digits, rfl | rfl, hdigits, hid⟩ := readId_eq_ok.1 h
  · exact ⟨⟨hlength, hdigits⟩, hid⟩
  · refine absurd ⟨digits, rfl, ?_, hdigits⟩ hplus
    rw [List.length_cons] at hlength
    omega

theorem not_isHexId_of_isPlusId (h : IsPlusId argument) : ¬IsHexId argument := by
  obtain ⟨digits, rfl, -, -⟩ := h
  rintro ⟨-, hhex⟩
  have hplus := hhex _ List.mem_cons_self
  rw [byteChar_asciiByte (by decide)] at hplus
  exact not_isDigit_plus 16 hplus

theorem lowercase_eq_of_hexValue {argument' : List UInt8} (h : IsHexId argument)
    (h' : IsHexId argument') (hvalue : hexValue argument = hexValue argument') :
    lowercase argument = lowercase argument' := by
  have hsame := (value_injective (by rw [List.length_map, List.length_map, h.1, h'.1])
    (isDigit_map_byteChar.2 h.2) (isDigit_map_byteChar.2 h'.2) hvalue).2
  rw [List.map_map, List.map_map] at hsame
  have hlower : ∀ {bytes : List UInt8}, (∀ b ∈ bytes, IsDigit 16 (byteChar b)) →
      lowercase bytes = bytes.map fun b => digitChar ((digitValue (byteChar b)).getD 0) := by
    intro bytes hbytes
    refine List.map_congr_left fun b hb => ?_
    obtain ⟨d, hd, -⟩ := isDigit_iff.1 (hbytes b hb)
    rw [toLower_eq_digitChar hd, hd, Option.getD_some]
  rw [hlower h.2, hlower h'.2]
  have hdigits := congrArg (List.map fun d : Option ℕ => digitChar (d.getD 0)) hsame
  simpa only [List.map_map, Function.comp_def] using hdigits

/-! ### The id that a frame carries -/

/-- The bytes of the id in the header of a message frame. -/
def headerId (header : List UInt8) : List UInt8 := (header.drop 18).take 16

theorem encodeHexId_eq (width id : ℕ) : encodeHexId width id = (digits 16 width id).map asciiByte := by
  induction width generalizing id with
  | zero => rfl
  | succ width ih =>
    have hdiv : id >>> 4 = id / 16 := Nat.shiftRight_eq_div_pow id 4
    have hmod : id &&& 0xf = id % 16 := Nat.and_two_pow_sub_one_eq_mod id 4
    have hdigit : ∀ d < 16, hexTable.getD d '0' = digitChar d := by decide
    rw [encodeHexId, digits, List.map_append, ih, hdiv, hmod, hdigit _ (Nat.mod_lt _ (by decide))]
    rfl

theorem headerId_encodeMessageHeader (timestampNs : ℤ) (attempts id bodyLen : ℕ) :
    headerId (encodeMessageHeader timestampNs attempts id bodyLen) = encodeHexId 16 id := by
  have hfront : (toBytes 4 (4 + satAdd usizeMax messageHeaderBytes bodyLen) ++
      toBytes 4 FrameType.message.code ++ toBytes 8 (ofInt 8 timestampNs) ++ toBytes 2 attempts).length =
        18 := by
    simp only [List.length_append, length_toBytes]
  have hid : (encodeHexId 16 id).length = 16 := by
    rw [encodeHexId_eq, List.length_map, length_digits]
  rw [headerId, encodeMessageHeader, List.drop_append_of_le_length hfront.ge, ← hfront, List.drop_length,
    List.nil_append, List.take_of_length_le hid.le]

theorem byteChar_encodeHexId (width id : ℕ) : (encodeHexId width id).map byteChar = digits 16 width id := by
  rw [encodeHexId_eq, List.map_map]
  conv_rhs => rw [← List.map_id (digits 16 width id)]
  exact List.map_congr_left fun c hc =>
    byteChar_asciiByte (isDigit_of_mem_digits (by decide) (by decide) hc).ascii

theorem isHexId_encodeHexId (id : ℕ) : IsHexId (encodeHexId 16 id) := by
  constructor
  · rw [encodeHexId_eq, List.length_map, length_digits]
  · refine isDigit_map_byteChar.1 ?_
    rw [byteChar_encodeHexId]
    exact fun c hc => isDigit_of_mem_digits (by decide) (by decide) hc

theorem hexValue_encodeHexId {id : ℕ} (h : id ≤ u64Max) : hexValue (encodeHexId 16 id) = id := by
  rw [hexValue, byteChar_encodeHexId, value_digits (by decide) (by decide)]
  exact Nat.mod_eq_of_lt (Nat.lt_succ_of_le h)

theorem not_isAsciiWhitespace_of_isDigit {c : Char} (h : IsDigit 16 c) : isAsciiWhitespace c = false := by
  by_contra hspace
  have hspace' : isAsciiWhitespace c = true := by simpa using hspace
  simp only [isAsciiWhitespace, Bool.or_eq_true, beq_iff_eq] at hspace'
  rcases hspace' with (((rfl | rfl) | rfl) | rfl) | rfl <;> exact absurd h (by decide)

/-- Digits as an argument. -/
def Argument.ofHex (bytes : List UInt8) (h : IsHexId bytes) : Argument where
  bytes := bytes
  nonempty := by
    rintro rfl
    cases h.1
  word b hb := not_isAsciiWhitespace_of_isDigit (h.2 b hb)

/-- An argument that the command accepts. -/
def Accepted (argument : Argument) (ending : LineEnding) : Prop :=
  ∃ command, Command.parse (form.line argument.bytes ending) = .ok command

theorem parse_line_eq_ok {form : IdCommand} {argument : Argument} {ending : LineEnding} {command : Command} :
    Command.parse (form.line argument.bytes ending) = .ok command ↔
      ∃ id, readId argument.bytes = .ok id ∧ form.command id = command := by
  rw [parse_line]
  cases readId argument.bytes with
  | error e => simp [Except.map]
  | ok id => simp [Except.map]

theorem accepted_iff {form : IdCommand} {argument : Argument} {ending : LineEnding} :
    Accepted form argument ending ↔ ∃ id, readId argument.bytes = .ok id := by
  constructor
  · rintro ⟨command, h⟩
    obtain ⟨id, hid, -⟩ := parse_line_eq_ok.1 h
    exact ⟨id, hid⟩
  · rintro ⟨id, hid⟩
    exact ⟨form.command id, parse_line_eq_ok.2 ⟨id, hid, rfl⟩⟩

/-- Hexadecimal digits are accepted, and nothing else but a plus sign with fifteen of them. -/
theorem accepted_iff_isHexId {form : IdCommand} {argument : Argument} {ending : LineEnding} :
    (Accepted form argument ending ↔ IsHexId argument.bytes) ↔ ¬IsPlusId argument.bytes := by
  rw [accepted_iff]
  constructor
  · intro h hplus
    exact not_isHexId_of_isPlusId hplus (h.1 (readId_of_isPlusId hplus))
  · intro hplus
    constructor
    · rintro ⟨id, hid⟩
      exact (isHexId_of_readId hid hplus).1
    · intro hhex
      exact ⟨_, readId_of_isHexId hhex⟩

/-- **Ids on the wire.**  The id of every message frame is read back from its digits.  The arguments that are
accepted are 16 hexadecimal digits, and two of them for the same id are equal up to case, exactly for
arguments other than a plus sign with 15 digits. -/
theorem message_id_grammar (form form' : IdCommand) (ending ending' : LineEnding)
    (argument argument' : Argument) :
    (∀ (timestampNs : ℤ) (attempts : ℕ) (id : UInt64) (bodyLen : ℕ),
      Command.parse
        (form.line (headerId (encodeMessageHeader timestampNs attempts id.toNat bodyLen)) ending) =
          .ok (form.command id.toNat)) ∧
    (((Accepted form argument ending ↔ IsHexId argument.bytes) ∧
        (Accepted form' argument' ending' ↔ IsHexId argument'.bytes) ∧
        ∀ id, Command.parse (form.line argument.bytes ending) = .ok (form.command id) →
          Command.parse (form'.line argument'.bytes ending') = .ok (form'.command id) →
            lowercase argument.bytes = lowercase argument'.bytes) ↔
      ¬IsPlusId argument.bytes ∧ ¬IsPlusId argument'.bytes) := by
  refine ⟨fun timestampNs attempts id bodyLen => ?_, ?_⟩
  · have hid : id.toNat ≤ u64Max := Nat.le_of_lt_succ id.toNat_lt
    rw [headerId_encodeMessageHeader]
    refine (parse_line form (.ofHex _ (isHexId_encodeHexId id.toNat)) ending).trans ?_
    show (readId (encodeHexId 16 id.toNat)).map _ = _
    rw [readId_of_isHexId (isHexId_encodeHexId _), hexValue_encodeHexId hid]
    rfl
  · rw [accepted_iff_isHexId, accepted_iff_isHexId]
    refine ⟨fun h => ⟨h.1, h.2.1⟩, fun h => ⟨h.1, h.2, fun id hid hid' => ?_⟩⟩
    obtain ⟨read, hread, hcommand⟩ := parse_line_eq_ok.1 hid
    obtain ⟨read', hread', hcommand'⟩ := parse_line_eq_ok.1 hid'
    obtain rfl := form.command_injective hcommand
    obtain rfl := form'.command_injective hcommand'
    obtain ⟨hhex, hvalue⟩ := isHexId_of_readId hread h.1
    obtain ⟨hhex', hvalue'⟩ := isHexId_of_readId hread' h.2
    exact lowercase_eq_of_hexValue hhex hhex' (hvalue.symm.trans hvalue')

theorem not_isPlusId_of_isHexId (h : IsHexId argument) : ¬IsPlusId argument :=
  fun hplus => not_isHexId_of_isPlusId hplus h

def crlf : LineEnding := ⟨"\r\n", List.all_eq_true.1 (by decide)⟩

/-- A frame's id comes back through TOUCH, and FIN reads an upper case digit like a lower case one. -/
theorem message_id_grammar_upperCase :
    ∃ (ending : LineEnding) (lower upper : Argument),
      lower.bytes = utf8 "000000000000000f" ∧ upper.bytes = utf8 "000000000000000F" ∧
      Command.parse (IdCommand.touch.line (headerId (encodeMessageHeader 7 2 15 4)) ending) =
        .ok (.touch 15) ∧
      Command.parse (IdCommand.finish.line lower.bytes ending) = .ok (.finish 15) ∧
      Command.parse (IdCommand.finish.line upper.bytes ending) = .ok (.finish 15) ∧
      lowercase lower.bytes = lowercase upper.bytes := by
  have hlower : IsHexId (utf8 "000000000000000f") := ⟨by decide +kernel, by decide +kernel⟩
  have hupper : IsHexId (utf8 "000000000000000F") := ⟨by decide +kernel, by decide +kernel⟩
  have hfinLower : Command.parse (IdCommand.finish.line (utf8 "000000000000000f") crlf) =
      .ok (.finish 15) := by decide +kernel
  have hfinUpper : Command.parse (IdCommand.finish.line (utf8 "000000000000000F") crlf) =
      .ok (.finish 15) := by decide +kernel
  refine ⟨crlf, .ofHex _ hlower, .ofHex _ hupper, rfl, rfl, ?_, hfinLower, hfinUpper, ?_⟩
  · exact (message_id_grammar .touch .touch _ crlf (.ofHex _ hlower) (.ofHex _ hupper)).1 7 2 15 4
  · exact ((message_id_grammar .finish .finish _ _ (.ofHex _ hlower) (.ofHex _ hupper)).2.2
      ⟨not_isPlusId_of_isHexId hlower, not_isPlusId_of_isHexId hupper⟩).2.2 15 hfinLower hfinUpper

/-- The same id in two texts: a plus sign stands for the first zero. -/
theorem message_id_plusSign :
    Command.parse (utf8 "FIN +00000000000000f") = .ok (.finish 15) ∧
      Command.parse (utf8 "FIN 000000000000000f") = .ok (.finish 15) ∧
      ¬IsHexId (utf8 "+00000000000000f") := by
  refine ⟨by decide +kernel, by decide +kernel, ?_⟩
  rintro ⟨-, hdigits⟩
  exact absurd (hdigits 43 (by decide)) (by decide)

end RustQueue.Protocol
