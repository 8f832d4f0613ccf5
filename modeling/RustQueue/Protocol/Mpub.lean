import RustQueue.Server.Publish

/-!
# Batches on the wire

The two parsers for a batch of messages, as loops over offsets into the body: a binary batch has a count and then
the length and the bytes of each message, a text batch has a message on each line.  A slice whose ends are not
offsets of the body stops the program, which is a result of its own here.

* `parseMpubBytes_eq`, `parseTextMpub_eq`: no input does that, and the loops return what
  the parsers of `RustQueue.Server` return, which read from the front of what is left;
* `parseMpubItems_eq_ok_iff`, `textMessages_eq_ok_iff`: the batches that these accept;
* `batches_parsed_exactly`: both parsers accept exactly the batches of their format.
-/

namespace RustQueue.Protocol

open Lib
open Server (ApiError MpubError maxMpubMessages newline parseMpubItems textMessages
  parseMpubItems_eq_ok textMessages_eq_ok)

/-! ### Offsets -/

def isizeMax : ℕ := 2 ^ 63 - 1

/-- A buffer, which never has more than `isize::MAX` bytes. -/
structure Bytes where
  bytes : List UInt8
  fits : bytes.length ≤ isizeMax

namespace Bytes

def len (body : Bytes) : ℕ := body.bytes.length

/-- The bytes between two offsets, or a panic. -/
def slice (body : Bytes) (start stop : ℕ) : Option (List UInt8) :=
  if start ≤ stop ∧ stop ≤ body.len then some ((body.bytes.drop start).take (stop - start)) else none

theorem slice_eq {body : Bytes} {start stop : ℕ} (hstart : start ≤ stop) (hstop : stop ≤ body.len) :
    body.slice start stop = some ((body.bytes.drop start).take (stop - start)) :=
  if_pos ⟨hstart, hstop⟩

theorem satAdd_eq {body : Bytes} {offset n : ℕ} (h : offset ≤ body.len) (hn : n < 2 ^ 32) :
    satAdd usizeMax offset n = offset + n := by
  have hfits : body.len ≤ isizeMax := body.fits
  have hmax : isizeMax + 2 ^ 32 ≤ usizeMax := by decide
  unfold satAdd
  omega

end Bytes

/-! ### Binary batches -/

/-- The messages of a batch, from an offset, and the offset behind them. -/
def mpubLoop (body : Bytes) (maxMessageBytes : ℕ) :
    ℕ → ℕ → List (List UInt8) → Option (Except MpubError (ℕ × List (List UInt8)))
  | 0, offset, messages => some (.ok (offset, messages))
  | count + 1, offset, messages =>
    if body.len - offset < 4 then some (.error (.badMessage "truncated message length"))
    else do
      let length := ofBytes (← body.slice offset (offset + 4))
      let stop := satAdd usizeMax (offset + 4) length
      if length = 0 ∨ maxMessageBytes < length ∨ body.len < stop then
        return .error (.badMessage "invalid message length")
      else
        let message ← body.slice (offset + 4) stop
        mpubLoop body maxMessageBytes count stop (messages ++ [message])

def parseMpubBytes (body : Bytes) (maxMessageBytes : ℕ) :
    Option (Except MpubError (List (List UInt8))) :=
  if body.len < 4 then some (.error (.badBody "missing batch count"))
  else do
    let count := ofBytes (← body.slice 0 4)
    if count = 0 ∨ maxMpubMessages < count then return .error (.badBody "invalid batch count")
    else
      match ← mpubLoop body maxMessageBytes count 4 [] with
      | .error e => return .error e
      | .ok (offset, messages) =>
        if offset ≠ body.len then return .error (.badBody "batch contains trailing bytes")
        else return .ok messages

/-- The loop at an offset does what the parser does with the bytes behind it. -/
theorem mpubLoop_eq (body : Bytes) (maxMessageBytes count : ℕ) {offset : ℕ} (hoffset : offset ≤ body.len)
    (messages : List (List UInt8)) :
    mpubLoop body maxMessageBytes count offset messages =
      some ((parseMpubItems maxMessageBytes count (body.bytes.drop offset)).map fun result =>
        (body.len - result.2.length, messages ++ result.1)) := by
  induction count generalizing offset messages with
  | zero =>
    have hbehind : body.len - (body.bytes.drop offset).length = offset := by
      rw [List.length_drop]
      exact Nat.sub_sub_self hoffset
    simp only [mpubLoop, parseMpubItems, Except.map, hbehind, List.append_nil]
  | succ count ih =>
    have hleft : (body.bytes.drop offset).length = body.len - offset := List.length_drop
    rw [mpubLoop, parseMpubItems]
    dsimp only
    rw [hleft]
    by_cases hshort : body.len - offset < 4
    · rw [if_pos hshort, if_pos hshort]
      rfl
    · have hword : offset + 4 ≤ body.len := by omega
      rw [if_neg hshort, if_neg hshort, Bytes.slice_eq (Nat.le_add_right _ _) hword,
        Nat.add_sub_cancel_left]
      set length := ofBytes ((body.bytes.drop offset).take 4) with hlength
      have hlt : length < 2 ^ 32 := by
        refine (ofBytes_lt _).trans_le ?_
        rw [List.length_take, hleft, Nat.min_eq_left (not_lt.1 hshort)]
        decide
      have hstop : satAdd usizeMax (offset + 4) length = offset + 4 + length :=
        Bytes.satAdd_eq hword hlt
      have hrest : (body.bytes.drop offset).drop 4 = body.bytes.drop (offset + 4) := List.drop_drop
      have hrestLength : (body.bytes.drop (offset + 4)).length = body.len - (offset + 4) :=
        List.length_drop
      show (if length = 0 ∨ maxMessageBytes < length ∨ body.len < satAdd usizeMax (offset + 4) length then _
        else _) = _
      rw [hstop, hrest, hrestLength]
      by_cases hbad : length = 0 ∨ maxMessageBytes < length ∨ body.len < offset + 4 + length
      · rw [if_pos hbad, if_pos (by omega)]
        rfl
      · have hend : offset + 4 + length ≤ body.len := by omega
        rw [if_neg hbad, if_neg (by omega), Bytes.slice_eq (Nat.le_add_right _ _) hend,
          Nat.add_sub_cancel_left]
        show mpubLoop body maxMessageBytes count (offset + 4 + length) _ = _
        rw [ih hend, List.drop_drop]
        cases parseMpubItems maxMessageBytes count (body.bytes.drop (offset + 4 + length)) with
        | error e => rfl
        | ok result =>
          show some (Except.ok (_, _)) = some (Except.ok (_, _))
          rw [List.append_assoc, List.singleton_append]

variable {messages : List (List UInt8)} {maxMessageBytes : ℕ}

theorem length_behind_le {count : ℕ} {bytes behind : List UInt8}
    (h : parseMpubItems maxMessageBytes count bytes = .ok (messages, behind)) :
    behind.length ≤ bytes.length := by
  rw [(parseMpubItems_eq_ok h).2]
  exact Nat.le_add_left _ _

/-- **No binary batch is read outside the body.** -/
theorem parseMpubBytes_eq (body : Bytes) (maxMessageBytes : ℕ) :
    parseMpubBytes body maxMessageBytes = some (Server.parseMpubBytes body.bytes maxMessageBytes) := by
  rw [parseMpubBytes, Server.parseMpubBytes]
  dsimp only
  rw [show body.bytes.length = body.len from rfl]
  by_cases hshort : body.len < 4
  · rw [if_pos hshort, if_pos hshort]
  · have hword : 4 ≤ body.len := not_lt.1 hshort
    have hslice : body.slice 0 4 = some (body.bytes.take 4) := Bytes.slice_eq (Nat.zero_le _) hword
    rw [if_neg hshort, if_neg hshort, hslice]
    show (if ofBytes (body.bytes.take 4) = 0 ∨ maxMpubMessages < ofBytes (body.bytes.take 4) then _
      else _) = _
    by_cases hcount : ofBytes (body.bytes.take 4) = 0 ∨ maxMpubMessages < ofBytes (body.bytes.take 4)
    · rw [if_pos hcount, if_pos hcount]
      rfl
    · rw [if_neg hcount, if_neg hcount, mpubLoop_eq body maxMessageBytes _ hword]
      cases hitems : parseMpubItems maxMessageBytes (ofBytes (body.bytes.take 4)) (body.bytes.drop 4) with
      | error e => rfl
      | ok result =>
        obtain ⟨messages, behind⟩ := result
        have hbehind : body.len - behind.length ≠ body.len ↔ behind ≠ [] := by
          have hle := length_behind_le hitems
          rw [List.length_drop] at hle
          have hlen : body.bytes.length = body.len := rfl
          rw [← List.length_pos_iff_ne_nil]
          omega
        show (if body.len - behind.length ≠ body.len then _ else _) =
          some (if behind = [] then _ else _)
        by_cases hnil : behind = []
        · rw [if_pos hnil, if_neg (by rw [hbehind]; exact not_not.2 hnil)]
          rfl
        · rw [if_neg hnil, if_pos (hbehind.2 hnil)]
          rfl

/-! ### Text batches -/

/-- The offsets of the newlines of some bytes that start at an offset. -/
def newlines (offset : ℕ) (bytes : List UInt8) : List ℕ :=
  (bytes.zipIdx offset).filterMap fun entry => if entry.1 = newline then some entry.2 else none

def textLoop (body : Bytes) (maxMessageBytes : ℕ) :
    List ℕ → ℕ → List (List UInt8) → Option (Except ApiError (List (List UInt8)))
  | [], _, messages => some (.ok messages)
  | stop :: ends, start, messages =>
    if start < stop then
      if maxMessageBytes < stop - start then
        some (.error ⟨"E_BAD_MESSAGE", "message exceeds configured limit"⟩)
      else do
        let message ← body.slice start stop
        let messages := messages ++ [message]
        if maxMpubMessages < messages.length then
          return .error ⟨"E_BAD_BODY", "batch message count exceeds limit"⟩
        else textLoop body maxMessageBytes ends (satAdd usizeMax stop 1) messages
    else textLoop body maxMessageBytes ends (satAdd usizeMax stop 1) messages

def parseTextMpub (body : Bytes) (maxMessageBytes : ℕ) : Option (Except ApiError (List (List UInt8))) :=
  textLoop body maxMessageBytes (newlines 0 body.bytes ++ [body.len]) 0 []

variable {line : List UInt8}

theorem newlines_eq_nil {offset : ℕ} (h : newline ∉ line) : newlines offset line = [] := by
  refine List.filterMap_eq_nil_iff.2 ?_
  rintro ⟨byte, index⟩ hmem
  have hbyte : byte ∈ line := List.fst_mem_of_mem_zipIdx hmem
  exact if_neg fun heq : byte = newline => h (heq ▸ hbyte)

theorem newlines_line {offset : ℕ} {rest : List UInt8} (h : newline ∉ line) :
    newlines offset (line ++ newline :: rest) =
      (offset + line.length) :: newlines (offset + line.length + 1) rest := by
  have hline := @newlines_eq_nil line offset h
  unfold newlines at hline ⊢
  rw [List.zipIdx_append, List.filterMap_append, hline, List.zipIdx_cons, List.filterMap_cons]
  rfl

theorem splitOn_line {rest : List UInt8} (h : newline ∉ line) :
    (line ++ newline :: rest).splitOn newline = line :: rest.splitOn newline := by
  refine List.splitOnP_append_cons_of_forall_mem ?_ newline (by simp) rest
  intro byte hbyte
  simpa using fun heq : byte = newline => h (heq ▸ hbyte)

theorem splitOn_last (h : newline ∉ line) : line.splitOn newline = [line] := by
  refine List.splitOnP_eq_singleton ?_
  intro byte hbyte
  simpa using fun heq : byte = newline => h (heq ▸ hbyte)

/-- A line with its length checked is a message if it is not empty. -/
theorem textMessages_cons {count : ℕ} (lines : List (List UInt8)) (hempty : line ≠ [])
    (hlength : ¬maxMessageBytes < line.length) (hcount : ¬maxMpubMessages < count + 1) :
    textMessages maxMessageBytes count (line :: lines) =
      (textMessages maxMessageBytes (count + 1) lines).map (line :: ·) := by
  rw [textMessages, if_neg hempty, if_neg hlength, if_neg hcount]
  rfl

/-- One turn of the loop, over a line. -/
theorem textLoop_line {body : Bytes} {start : ℕ} {rest : List UInt8}
    (hline : body.bytes.drop start = line ++ rest) (ends : List ℕ) (lines messages : List (List UInt8))
    (hstart : start ≤ body.len)
    (ih : ∀ messages, textLoop body maxMessageBytes ends (start + line.length + 1) messages =
      some ((textMessages maxMessageBytes messages.length lines).map (messages ++ ·))) :
    textLoop body maxMessageBytes ((start + line.length) :: ends) start messages =
      some ((textMessages maxMessageBytes messages.length (line :: lines)).map (messages ++ ·)) := by
  have hstop : start + line.length ≤ body.len := by
    have hlength := congrArg List.length hline
    rw [List.length_drop, List.length_append] at hlength
    have hlen : body.bytes.length = body.len := rfl
    omega
  have hnext : satAdd usizeMax (start + line.length) 1 = start + line.length + 1 :=
    Bytes.satAdd_eq hstop (by decide)
  have hpiece : (body.bytes.drop start).take (start + line.length - start) = line := by
    rw [hline, Nat.add_sub_cancel_left, List.take_left']
    rfl
  rw [textLoop, hnext]
  by_cases hempty : line = []
  · rw [if_neg (by simp [hempty]), ih, textMessages, if_pos hempty]
  · have hpos : 0 < line.length := List.length_pos_iff_ne_nil.2 hempty
    rw [if_pos (by omega), Nat.add_sub_cancel_left]
    by_cases hlarge : maxMessageBytes < line.length
    · rw [if_pos hlarge, textMessages, if_neg hempty, if_pos hlarge]
      rfl
    · rw [if_neg hlarge, Bytes.slice_eq (Nat.le_add_right _ _) hstop, hpiece]
      show (if maxMpubMessages < (messages ++ [line]).length then _ else _) = _
      rw [List.length_append, List.length_singleton]
      by_cases hcount : maxMpubMessages < messages.length + 1
      · rw [if_pos hcount, textMessages, if_neg hempty, if_neg hlarge, if_pos hcount]
        rfl
      · rw [if_neg hcount, ih, textMessages_cons lines hempty hlarge hcount, List.length_append,
          List.length_singleton]
        cases textMessages maxMessageBytes (messages.length + 1) lines with
        | error e => rfl
        | ok result =>
          show some (Except.ok (messages ++ [line] ++ result)) = some (Except.ok (messages ++ line :: result))
          rw [List.append_assoc, List.singleton_append]

/-- The loop over the line ends behind an offset does what the parser does with the lines there. -/
theorem textLoop_eq (body : Bytes) (maxMessageBytes : ℕ) (rest : List UInt8) {start : ℕ}
    (hrest : body.bytes.drop start = rest) (hstart : start ≤ body.len) (messages : List (List UInt8)) :
    textLoop body maxMessageBytes (newlines start rest ++ [body.len]) start messages =
      some ((textMessages maxMessageBytes messages.length (rest.splitOn newline)).map (messages ++ ·)) := by
  by_cases hnewline : newline ∈ rest
  · -- the first line, and then what is left behind its end
    obtain ⟨line, behind, hsplit, hline⟩ := List.eq_append_cons_of_mem hnewline
    rw [hsplit] at hrest ⊢
    have hlength := congrArg List.length hrest
    rw [List.length_drop, List.length_append, List.length_cons] at hlength
    have hnext : start + line.length + 1 ≤ body.len := by
      have hlen : body.bytes.length = body.len := rfl
      omega
    have hbehind : body.bytes.drop (start + line.length + 1) = behind := by
      rw [Nat.add_assoc, ← List.drop_drop, hrest, ← List.drop_drop, List.drop_left']
      · rfl
      · rfl
    rw [newlines_line hline, splitOn_line hline, List.cons_append]
    exact textLoop_line hrest _ _ messages hstart fun messages =>
      textLoop_eq body maxMessageBytes behind hbehind hnext messages
  · have hend : start + rest.length = body.len := by
      have hlength := congrArg List.length hrest
      rw [List.length_drop] at hlength
      have hlen : body.bytes.length = body.len := rfl
      omega
    rw [newlines_eq_nil hnewline, splitOn_last hnewline, List.nil_append, ← hend]
    have hlast : body.bytes.drop start = rest ++ [] := by rw [hrest, List.append_nil]
    refine textLoop_line hlast [] [] messages hstart fun messages => ?_
    simp [textLoop, textMessages, Except.map]
termination_by rest.length
decreasing_by
  rw [hsplit, List.length_append, List.length_cons]
  omega

/-- **No text batch is read outside the body.** -/
theorem parseTextMpub_eq (body : Bytes) (maxMessageBytes : ℕ) :
    parseTextMpub body maxMessageBytes = some (Server.parseTextMpub body.bytes maxMessageBytes) := by
  rw [parseTextMpub, textLoop_eq body maxMessageBytes body.bytes rfl (Nat.zero_le _), Server.parseTextMpub]
  cases textMessages maxMessageBytes 0 (body.bytes.splitOn newline) <;> rfl

/-! ### What is accepted -/

/-- The length and the bytes of each message. -/
def encodeItems (messages : List (List UInt8)) : List UInt8 :=
  messages.flatMap fun message => toBytes 4 message.length ++ message

/-- A binary batch. -/
def encodeMpub (messages : List (List UInt8)) : List UInt8 :=
  toBytes 4 messages.length ++ encodeItems messages

/-- A message that a batch can hold: its length is positive, within the limit, and has four bytes. -/
def Fits (maxMessageBytes : ℕ) (message : List UInt8) : Prop :=
  1 ≤ message.length ∧ message.length ≤ maxMessageBytes ∧ message.length < 2 ^ 32

theorem eq_toBytes_append {bytes : List UInt8} (h : 4 ≤ bytes.length) :
    bytes = toBytes 4 (ofBytes (bytes.take 4)) ++ bytes.drop 4 := by
  have hlength : (bytes.take 4).length = 4 := List.length_take_of_le h
  have hword := toBytes_ofBytes (bytes.take 4)
  rw [hlength] at hword
  rw [hword, List.take_append_drop]

theorem take_toBytes_append (n : ℕ) (rest : List UInt8) : (toBytes 4 n ++ rest).take 4 = toBytes 4 n :=
  List.take_left' (length_toBytes 4 n)

theorem drop_toBytes_append (n : ℕ) (rest : List UInt8) : (toBytes 4 n ++ rest).drop 4 = rest :=
  List.drop_left' (length_toBytes 4 n)

/-- **The items of a batch** are read exactly from their encoding, and the rest is left. -/
theorem parseMpubItems_eq_ok_iff {count : ℕ} {bytes behind : List UInt8} :
    parseMpubItems maxMessageBytes count bytes = .ok (messages, behind) ↔
      messages.length = count ∧ (∀ message ∈ messages, Fits maxMessageBytes message) ∧
        bytes = encodeItems messages ++ behind := by
  induction count generalizing bytes messages with
  | zero =>
    constructor
    · intro h
      cases h
      exact ⟨rfl, by simp, rfl⟩
    · rintro ⟨hcount, -, rfl⟩
      rw [List.length_eq_zero_iff.1 hcount]
      rfl
  | succ count ih =>
    rw [parseMpubItems]
    dsimp only
    constructor
    · intro h
      split_ifs at h with hshort hlength
      obtain ⟨⟨rest, left⟩, hrest, h⟩ := bind_eq_ok.1 h
      cases h
      obtain ⟨hcount, hfits, hbytes⟩ := ih.1 hrest
      simp only [not_or, not_lt] at hshort hlength
      set length := ofBytes (bytes.take 4)
      have hlt : length < 2 ^ 32 := by
        refine (ofBytes_lt _).trans_le ?_
        rw [List.length_take_of_le hshort]
        decide
      have hmessage : ((bytes.drop 4).take length).length = length := List.length_take_of_le hlength.2.2
      refine ⟨by rw [List.length_cons, hcount], ?_, ?_⟩
      · refine List.forall_mem_cons.2 ⟨?_, hfits⟩
        rw [Fits, hmessage]
        exact ⟨Nat.pos_of_ne_zero hlength.1, hlength.2.1, hlt⟩
      · rw [encodeItems, List.flatMap_cons, hmessage, List.append_assoc, List.append_assoc]
        show bytes = toBytes 4 length ++ ((bytes.drop 4).take length ++ (encodeItems rest ++ left))
        rw [← hbytes, List.take_append_drop]
        exact eq_toBytes_append hshort
    · rintro ⟨hcount, hfits, rfl⟩
      cases messages with
      | nil => cases hcount
      | cons message messages =>
        obtain ⟨hmessage, hfits⟩ := List.forall_mem_cons.1 hfits
        have hwire : encodeItems (message :: messages) ++ behind =
            toBytes 4 message.length ++ (message ++ (encodeItems messages ++ behind)) := by
          simp only [encodeItems, List.flatMap_cons, List.append_assoc]
        have hlength : ofBytes (toBytes 4 message.length) = message.length :=
          ofBytes_toBytes_of_lt (by simpa using hmessage.2.2)
        rw [hwire, take_toBytes_append, drop_toBytes_append, hlength]
        have hlong : ¬(toBytes 4 message.length ++ (message ++ (encodeItems messages ++ behind))).length <
            4 := by
          rw [List.length_append, length_toBytes]
          omega
        have hgood : ¬(message.length = 0 ∨ maxMessageBytes < message.length ∨
            (message ++ (encodeItems messages ++ behind)).length < message.length) := by
          rw [List.length_append]
          have := hmessage.1
          have := hmessage.2.1
          omega
        rw [if_neg hlong, if_neg hgood, List.drop_left' rfl, List.take_left' rfl,
          ih.2 ⟨Nat.succ.inj hcount, hfits, rfl⟩]
        rfl

theorem serverParseMpubBytes_eq_ok_iff {body : List UInt8} :
    Server.parseMpubBytes body maxMessageBytes = .ok messages ↔
      body = encodeMpub messages ∧ 1 ≤ messages.length ∧ messages.length ≤ maxMpubMessages ∧
        ∀ message ∈ messages, Fits maxMessageBytes message := by
  rw [Server.parseMpubBytes]
  dsimp only
  constructor
  · intro h
    split_ifs at h with hshort hcount
    obtain ⟨⟨parsed, behind⟩, hitems, h⟩ := bind_eq_ok.1 h
    dsimp only at h
    split_ifs at h with hbehind
    cases h
    subst hbehind
    obtain ⟨hlength, hfits, hbytes⟩ := parseMpubItems_eq_ok_iff.1 hitems
    rw [List.append_nil] at hbytes
    refine ⟨?_, by omega, by omega, hfits⟩
    rw [encodeMpub, hlength, ← hbytes]
    exact eq_toBytes_append (not_lt.1 hshort)
  · rintro ⟨rfl, hpos, hmax, hfits⟩
    have hcount : ofBytes (toBytes 4 messages.length) = messages.length := by
      have hbound : maxMpubMessages < 256 ^ 4 := by decide
      exact ofBytes_toBytes_of_lt (by omega)
    have hlong : ¬(encodeMpub messages).length < 4 := by
      rw [encodeMpub, List.length_append, length_toBytes]
      omega
    have hitems : parseMpubItems maxMessageBytes messages.length (encodeItems messages) =
        .ok (messages, []) :=
      parseMpubItems_eq_ok_iff.2 ⟨rfl, hfits, (List.append_nil _).symm⟩
    rw [if_neg hlong, encodeMpub, take_toBytes_append, drop_toBytes_append, hcount, if_neg (by omega), hitems]
    rfl

/-- **The lines of a text** are accepted if those that are not empty are few and short enough. -/
theorem textMessages_eq_ok_iff {count : ℕ} {lines : List (List UInt8)}
    (hcount : count ≤ maxMpubMessages) :
    textMessages maxMessageBytes count lines = .ok messages ↔
      messages = lines.filter (· ≠ []) ∧ (∀ message ∈ messages, message.length ≤ maxMessageBytes) ∧
        count + messages.length ≤ maxMpubMessages := by
  induction lines generalizing count messages with
  | nil =>
    rw [textMessages]
    constructor
    · intro h
      cases h
      exact ⟨rfl, by simp, hcount⟩
    · rintro ⟨rfl, -, -⟩
      rfl
  | cons line lines ih =>
    rw [textMessages]
    by_cases hempty : line = []
    · rw [if_pos hempty, List.filter_cons_of_neg (by simpa using hempty)]
      exact ih hcount
    · rw [if_neg hempty, List.filter_cons_of_pos (by simpa using hempty)]
      by_cases hlarge : maxMessageBytes < line.length
      · rw [if_pos hlarge]
        refine iff_of_false (by simp) ?_
        rintro ⟨rfl, hshort, -⟩
        exact absurd (hshort line List.mem_cons_self) (not_le.2 hlarge)
      · rw [if_neg hlarge]
        by_cases hmany : maxMpubMessages < count + 1
        · rw [if_pos hmany]
          refine iff_of_false (by simp) ?_
          rintro ⟨rfl, -, hle⟩
          rw [List.length_cons] at hle
          omega
        · rw [if_neg hmany, bind_eq_ok]
          constructor
          · rintro ⟨rest, hrest, h⟩
            cases h
            obtain ⟨hlines, hshort, hle⟩ := (ih (not_lt.1 hmany)).1 hrest
            refine ⟨by rw [hlines], List.forall_mem_cons.2 ⟨not_lt.1 hlarge, hshort⟩, ?_⟩
            rw [List.length_cons]
            omega
          · rintro ⟨rfl, hshort, hle⟩
            refine ⟨lines.filter (· ≠ []), (ih (not_lt.1 hmany)).2 ⟨rfl, ?_, ?_⟩, rfl⟩
            · exact (List.forall_mem_cons.1 hshort).2
            · rw [List.length_cons] at hle
              omega

/-- **Both parsers are exact.**  A binary batch is accepted as messages exactly if it is their encoding, and a
text batch exactly if they are its lines that are not empty; and no body makes either parser read
outside it. -/
theorem batches_parsed_exactly (body : Bytes) (maxMessageBytes : ℕ) :
    (∀ messages, parseMpubBytes body maxMessageBytes = some (.ok messages) ↔
      body.bytes = encodeMpub messages ∧ 1 ≤ messages.length ∧ messages.length ≤ 65536 ∧
        ∀ message ∈ messages,
          1 ≤ message.length ∧ message.length ≤ maxMessageBytes ∧ message.length < 2 ^ 32) ∧
    (∀ messages, parseTextMpub body maxMessageBytes = some (.ok messages) ↔
      messages = (body.bytes.splitOn newline).filter (· ≠ []) ∧
        (∀ message ∈ messages, message.length ≤ maxMessageBytes) ∧ messages.length ≤ 65536) ∧
    parseMpubBytes body maxMessageBytes ≠ none ∧ parseTextMpub body maxMessageBytes ≠ none := by
  rw [parseMpubBytes_eq, parseTextMpub_eq]
  refine ⟨fun messages => ?_, fun messages => ?_, by simp, by simp⟩
  · rw [Option.some.injEq]
    exact serverParseMpubBytes_eq_ok_iff
  · rw [Option.some.injEq, Server.parseTextMpub, textMessages_eq_ok_iff (Nat.zero_le _), Nat.zero_add]
    rfl

end RustQueue.Protocol
