import RustQueue.Lib.Numerals
import RustQueue.Lib.Text
import RustQueue.Name
import RustQueue.Topic.Index

/-!
# Dead-letter topics

A message that was delivered too often, or that is too old, moves to the dead-letter topic of its channel.
The name of that topic is made from the names of the topic and the channel and a configured suffix; if they
are too long together, or one of them is ephemeral, a cut of the topic's name with a checksum takes its place.

The cut leaves the `#` of an ephemeral topic in the middle of the name, unless it is short enough:

* `candidate_of_ephemeral`: the long name of an ephemeral topic is never valid;
* `shortName_valid_iff`: the short name is valid exactly if the cut has no `#`;
* `deadLetterTopic_valid_iff`: which topics have a dead-letter topic.
-/

namespace RustQueue.Server.DeadLetter

open Lib Topic

/-! ### When a message moves -/

inductive DeadLetterReason where
  | attempts
  | retention
  deriving DecidableEq, Repr

/-- The part of the configuration that dead letters depend on. -/
structure DeadLetterPolicy where
  deadLetterSuffix : String
  maxDeliveryAttempts : ℕ
  messageRetentionSeconds : ℕ
  deriving DecidableEq, Repr

structure RemoteDelivery where
  id : ℕ
  timestampNs : ℤ
  attempts : ℕ
  body : List UInt8
  ttlDiscard : Bool
  deriving DecidableEq, Repr

def reason (policy : DeadLetterPolicy) (nowNs : ℤ) (topic : String) (delivery : RemoteDelivery) :
    Option DeadLetterReason :=
  if delivery.ttlDiscard then none
  else if policy.deadLetterSuffix.toList.isSuffixOf topic.toList then none
  else if policy.maxDeliveryAttempts ≤ delivery.attempts then some .attempts
  else if policy.messageRetentionSeconds = 0 then none
  else if satMul u64Max policy.messageRetentionSeconds 1000000000 ≤
      (max (clampI64 (nowNs - delivery.timestampNs)) 0).toNat then some .retention
  else none

/-! ### The name of the topic -/

section

variable (crc32c : List UInt8 → UInt32)

/-- The text up to a byte, or a panic if a character is cut there. -/
def sliceTo (text : String) (stop : ℕ) : Option String := ofUtf8 ((utf8 text).take stop)

/-- The checksum of both names and the suffix. -/
def shortTail (topic channel suffix : String) : String :=
  "." ++ String.ofList (digits 16 8 (crc32c (utf8 (topic ++ "\x00" ++ channel))).toNat) ++ suffix

def deadLetterTopic (topic channel suffix : String) : Option (Except String String) :=
  if suffix.utf8ByteSize = 0 ∨ 16 < suffix.utf8ByteSize ∨ suffix.toList.all nameCharacter = false then
    some (.error "dead-letter suffix is invalid")
  else if validateName (topic ++ "." ++ channel ++ suffix) = .ok () then
    some (.ok (topic ++ "." ++ channel ++ suffix))
  else do
    let tail := shortTail crc32c topic channel suffix
    let keep := min (64 - tail.utf8ByteSize) topic.utf8ByteSize
    let candidate := (← sliceTo topic keep) ++ tail
    if validateName candidate = .ok () then return .ok candidate
    else return .error "cannot derive a valid dead-letter topic name"

end

/-- A name that the server accepts. -/
structure ValidName where
  text : String
  valid : validateName text = .ok ()

/-- A suffix that the server accepts. -/
structure Suffix where
  text : String
  nonempty : 1 ≤ text.toList.length
  short : text.toList.length ≤ 16
  characters : ∀ c ∈ text.toList, nameCharacter c = true

/-! ### Sizes -/

theorem Suffix.ascii (suffix : Suffix) : ∀ c ∈ suffix.text.toList, c.toNat < 128 :=
  fun c hc => nameCharacter_ascii (suffix.characters c hc)

theorem Suffix.size (suffix : Suffix) : suffix.text.utf8ByteSize = suffix.text.toList.length :=
  utf8ByteSize_ascii suffix.ascii

theorem ValidName.characters (name : ValidName) : ∀ c ∈ baseName name.text, nameCharacter c = true :=
  (validateName_eq_ok_iff.1 name.valid).2.2

theorem ValidName.ascii (name : ValidName) : ∀ c ∈ name.text.toList, c.toNat < 128 := by
  intro c hc
  cases hephemeral : isEphemeral name.text with
  | false =>
    rw [← baseName_of_not_isEphemeral hephemeral] at hc
    exact nameCharacter_ascii (name.characters c hc)
  | true =>
    rw [toList_of_isEphemeral hephemeral] at hc
    rcases List.mem_append.1 hc with hbase | hsuffix
    · exact nameCharacter_ascii (name.characters c hbase)
    · have hall : (ephemeralSuffix.toList.all fun c => decide (c.toNat < 128)) = true := by decide
      exact of_decide_eq_true (List.all_eq_true.1 hall c hsuffix)

theorem ValidName.size (name : ValidName) : name.text.utf8ByteSize = name.text.toList.length :=
  utf8ByteSize_ascii name.ascii

theorem nameCharacter_of_isDigit {c : Char} (h : IsDigit 16 c) : nameCharacter c = true := by
  obtain ⟨d, hd, -⟩ := isDigit_iff.1 h
  have halpha : c.isAlphanum = true := by
    unfold digitValue at hd
    unfold Char.isAlphanum Char.isAlpha Char.isUpper Char.isLower Char.isDigit
    simp only [Bool.or_eq_true, Bool.and_eq_true, decide_eq_true_eq]
    split_ifs at hd with hdigit hlower hupper
    · exact .inr hdigit
    · exact .inl (.inr hlower)
    · exact .inl (.inl hupper)
  rw [nameCharacter, halpha]
  rfl

section

variable {crc32c : List UInt8 → UInt32} {topic channel : ValidName} {suffix : Suffix}

theorem toList_shortTail (topic channel suffix : String) :
    (shortTail crc32c topic channel suffix).toList =
      '.' :: (digits 16 8 (crc32c (utf8 (topic ++ "\x00" ++ channel))).toNat ++ suffix.toList) := by
  have hdot : ".".toList = ['.'] := rfl
  rw [shortTail, String.toList_append, String.toList_append, hdot, String.toList_ofList,
    List.singleton_append, List.cons_append]

theorem shortTail_characters (topic channel : String) (suffix : Suffix) :
    ∀ c ∈ (shortTail crc32c topic channel suffix.text).toList, nameCharacter c = true := by
  rw [toList_shortTail]
  intro c hc
  rcases List.mem_cons.1 hc with rfl | hc
  · decide
  · rcases List.mem_append.1 hc with hdigit | hsuffix
    · exact nameCharacter_of_isDigit (isDigit_of_mem_digits (by decide) (by decide) hdigit)
    · exact suffix.characters c hsuffix

theorem length_shortTail (topic channel suffix : String) :
    (shortTail crc32c topic channel suffix).toList.length = 9 + suffix.toList.length := by
  rw [toList_shortTail, List.length_cons, List.length_append, length_digits]
  omega

theorem size_shortTail (topic channel : String) (suffix : Suffix) :
    (shortTail crc32c topic channel suffix.text).utf8ByteSize = 9 + suffix.text.toList.length := by
  rw [utf8ByteSize_ascii fun c hc => nameCharacter_ascii (shortTail_characters topic channel suffix c hc),
    length_shortTail]

/-- The name that is made from a cut of the topic's name. -/
def shortName (crc32c : List UInt8 → UInt32) (topic channel : ValidName) (suffix : Suffix) : String :=
  String.ofList (topic.text.toList.take (55 - suffix.text.toList.length)) ++
    shortTail crc32c topic.text channel.text suffix.text

/-- **The two names that are tried**, for names and a suffix that are accepted. -/
theorem deadLetterTopic_eq (crc32c : List UInt8 → UInt32) (topic channel : ValidName) (suffix : Suffix) :
    deadLetterTopic crc32c topic.text channel.text suffix.text =
      some (if validateName (topic.text ++ "." ++ channel.text ++ suffix.text) = .ok () then
          .ok (topic.text ++ "." ++ channel.text ++ suffix.text)
        else if validateName (shortName crc32c topic channel suffix) = .ok () then
          .ok (shortName crc32c topic channel suffix)
        else .error "cannot derive a valid dead-letter topic name") := by
  have hsuffix : ¬(suffix.text.utf8ByteSize = 0 ∨ 16 < suffix.text.utf8ByteSize ∨
      suffix.text.toList.all nameCharacter = false) := by
    have hall : suffix.text.toList.all nameCharacter = true := List.all_eq_true.2 suffix.characters
    have := suffix.nonempty
    have := suffix.short
    rw [suffix.size, hall]
    simp only [Bool.true_eq_false, or_false]
    omega
  have hcut : ∀ n, topic.text.toList.take (min n topic.text.utf8ByteSize) = topic.text.toList.take n := by
    intro n
    rw [topic.size]
    exact (List.take_eq_take_min).symm
  have hkeep : 64 - (shortTail crc32c topic.text channel.text suffix.text).utf8ByteSize =
      55 - suffix.text.toList.length := by
    rw [size_shortTail]
    omega
  have hslice : sliceTo topic.text
      (min (64 - (shortTail crc32c topic.text channel.text suffix.text).utf8ByteSize)
        topic.text.utf8ByteSize) =
      some (String.ofList (topic.text.toList.take (55 - suffix.text.toList.length))) := by
    rw [sliceTo, ofUtf8_take topic.ascii, hcut, hkeep]
  rw [deadLetterTopic, if_neg hsuffix]
  by_cases hlong : validateName (topic.text ++ "." ++ channel.text ++ suffix.text) = .ok ()
  · rw [if_pos hlong, if_pos hlong]
  · rw [if_neg hlong, if_neg hlong]
    dsimp only
    rw [hslice, Option.bind_eq_bind, Option.bind_some, ← shortName]
    by_cases hshort : validateName (shortName crc32c topic channel suffix) = .ok ()
    · rw [if_pos hshort, if_pos hshort]
      rfl
    · rw [if_neg hshort, if_neg hshort]
      rfl

/-! ### Which names are valid -/

/-- The long name of an ephemeral topic has a `#` before its end. -/
theorem candidate_of_ephemeral (hephemeral : isEphemeral topic.text = true) (channel suffix : String) :
    validateName (topic.text ++ "." ++ channel ++ suffix) ≠ .ok () := by
  intro hvalid
  have hname : (topic.text ++ "." ++ channel ++ suffix).toList =
      baseName topic.text ++ '#' :: ("ephemeral".toList ++ ".".toList ++ channel.toList ++ suffix.toList) := by
    simp only [String.toList_append, toList_of_isEphemeral hephemeral, List.append_assoc]
    rfl
  have hback := congrArg List.length (eq_ephemeral_of_validateName hname hvalid)
  have hdot : ".".toList.length = 1 := rfl
  simp only [List.length_append, hdot] at hback
  omega

theorem toList_shortName (crc32c : List UInt8 → UInt32) (topic channel : ValidName) (suffix : Suffix) :
    (shortName crc32c topic channel suffix).toList =
      topic.text.toList.take (55 - suffix.text.toList.length) ++
        (shortTail crc32c topic.text channel.text suffix.text).toList := by
  rw [shortName, String.toList_append, String.toList_ofList]

theorem shortName_of_plain
    (hcut : ∀ c ∈ topic.text.toList.take (55 - suffix.text.toList.length), nameCharacter c = true) :
    validateName (shortName crc32c topic channel suffix) = .ok () := by
  have hall : ∀ c ∈ (shortName crc32c topic channel suffix).toList, nameCharacter c = true := by
    rw [toList_shortName]
    intro c hc
    rcases List.mem_append.1 hc with hfront | htail
    · exact hcut c hfront
    · exact shortTail_characters _ _ suffix c htail
  refine validateName_of_plain ?_ ?_ hall
  · rw [toList_shortName, toList_shortTail]
    exact List.append_ne_nil_of_right_ne_nil _ (List.cons_ne_nil _ _)
  · have hshort := suffix.short
    rw [utf8ByteSize_ascii fun c hc => nameCharacter_ascii (hall c hc), toList_shortName, List.length_append,
      length_shortTail, List.length_take]
    omega

theorem shortName_of_ephemeral (hephemeral : isEphemeral topic.text = true)
    (hkeep : (baseName topic.text).length + suffix.text.toList.length < 55) :
    validateName (shortName crc32c topic channel suffix) ≠ .ok () := by
  intro hvalid
  obtain ⟨more, hmore⟩ : ∃ more, 55 - suffix.text.toList.length = (baseName topic.text).length + (more + 1) :=
    ⟨55 - suffix.text.toList.length - (baseName topic.text).length - 1, by omega⟩
  have hcut : topic.text.toList.take (55 - suffix.text.toList.length) =
      baseName topic.text ++ '#' :: "ephemeral".toList.take more := by
    rw [hmore, toList_of_isEphemeral hephemeral, List.take_length_add_append]
    rfl
  have hname : (shortName crc32c topic channel suffix).toList = baseName topic.text ++
      '#' :: ("ephemeral".toList.take more ++
        (shortTail crc32c topic.text channel.text suffix.text).toList) := by
    rw [toList_shortName, hcut, List.append_assoc, List.cons_append]
  have hback := congrArg List.length (eq_ephemeral_of_validateName hname hvalid)
  have hnonempty := suffix.nonempty
  have hlength : "ephemeral".toList.length = 9 := rfl
  rw [List.length_append, length_shortTail, hlength] at hback
  omega

theorem shortName_valid_iff :
    validateName (shortName crc32c topic channel suffix) = .ok () ↔
      isEphemeral topic.text = false ∨ 55 ≤ (baseName topic.text).length + suffix.text.toList.length := by
  constructor
  · intro hvalid
    by_contra hnot
    rw [not_or, Bool.not_eq_false, not_le] at hnot
    exact shortName_of_ephemeral hnot.1 hnot.2 hvalid
  · intro h
    refine shortName_of_plain fun c hc => ?_
    cases hephemeral : isEphemeral topic.text with
    | false =>
      rw [← baseName_of_not_isEphemeral hephemeral] at hc
      exact topic.characters c (List.mem_of_mem_take hc)
    | true =>
      have hlong := h.resolve_left (by rw [hephemeral]; decide)
      rw [toList_of_isEphemeral hephemeral, List.take_append_of_le_length (by omega)] at hc
      exact topic.characters c (List.mem_of_mem_take hc)

theorem suffix_candidate (topic channel : String) (suffix : Suffix) :
    suffix.text.toList <:+ (topic ++ "." ++ channel ++ suffix.text).toList := by
  rw [String.toList_append]
  exact List.suffix_append _ _

theorem suffix_shortName (crc32c : List UInt8 → UInt32) (topic channel : ValidName) (suffix : Suffix) :
    suffix.text.toList <:+ (shortName crc32c topic channel suffix).toList := by
  rw [toList_shortName, toList_shortTail, ← List.cons_append, ← List.append_assoc]
  exact List.suffix_append _ _

theorem reason_of_suffix {policy : DeadLetterPolicy} {name : String}
    (h : policy.deadLetterSuffix.toList <:+ name.toList) (nowNs : ℤ) (delivery : RemoteDelivery) :
    reason policy nowNs name delivery = none := by
  rw [reason, if_pos (List.isSuffixOf_iff_suffix.2 h), ite_self]

/-- A dead-letter topic for a channel: a valid name with the suffix, whose own messages stay. -/
structure IsDeadLetterTopic (suffix : Suffix) (name : String) : Prop where
  valid : validateName name = .ok ()
  short : name.utf8ByteSize ≤ 64
  ends : suffix.text.toList <:+ name.toList
  exempt : ∀ (policy : DeadLetterPolicy) nowNs delivery,
    reason { policy with deadLetterSuffix := suffix.text } nowNs name delivery = none

theorem IsDeadLetterTopic.of_valid {name : String} (hvalid : validateName name = .ok ())
    (hsuffix : suffix.text.toList <:+ name.toList) : IsDeadLetterTopic suffix name where
  valid := hvalid
  short := (validateName_eq_ok_iff.1 hvalid).2.1
  ends := hsuffix
  exempt _ := reason_of_suffix hsuffix

end

/-- **Which topics have a dead-letter topic**: all but the ephemeral ones whose name keeps its `#` in the cut. -/
theorem deadLetterTopic_valid_iff (crc32c : List UInt8 → UInt32) (topic channel : ValidName)
    (suffix : Suffix) :
    (∃ name, deadLetterTopic crc32c topic.text channel.text suffix.text = some (.ok name) ∧
      IsDeadLetterTopic suffix name) ↔
      isEphemeral topic.text = false ∨ 55 ≤ (baseName topic.text).length + suffix.text.toList.length := by
  rw [deadLetterTopic_eq]
  constructor
  · rintro ⟨name, hname, -⟩
    rw [Option.some.injEq] at hname
    split_ifs at hname with hlong hshort
    · cases hephemeral : isEphemeral topic.text with
      | false => exact .inl rfl
      | true => exact absurd hlong (candidate_of_ephemeral hephemeral _ _)
    · rw [← shortName_valid_iff]
      exact hshort
  · intro h
    by_cases hlong : validateName (topic.text ++ "." ++ channel.text ++ suffix.text) = .ok ()
    · rw [if_pos hlong]
      exact ⟨_, rfl, .of_valid hlong (suffix_candidate _ _ suffix)⟩
    · have hshort := (@shortName_valid_iff crc32c topic channel suffix).2 h
      rw [if_neg hlong, if_pos hshort]
      exact ⟨_, rfl, .of_valid hshort (suffix_shortName crc32c topic channel suffix)⟩

/-- The other ephemeral topics have none. -/
theorem deadLetterTopic_of_ephemeral (crc32c : List UInt8 → UInt32) (topic channel : ValidName)
    (suffix : Suffix) (hephemeral : isEphemeral topic.text = true)
    (hkeep : (baseName topic.text).length + suffix.text.toList.length < 55) :
    deadLetterTopic crc32c topic.text channel.text suffix.text =
      some (.error "cannot derive a valid dead-letter topic name") := by
  rw [deadLetterTopic_eq, if_neg (candidate_of_ephemeral hephemeral _ _),
    if_neg (shortName_of_ephemeral hephemeral hkeep)]

def jobs : ValidName := ⟨"jobs#ephemeral", by decide⟩

def workers : ValidName := ⟨"workers", by decide⟩

/-- The default suffix. -/
def dlq : Suffix := ⟨".DLQ", by decide, by decide, List.all_eq_true.1 (by decide)⟩

/-- A short ephemeral topic has no dead-letter topic. -/
theorem deadLetterTopic_jobs :
    validateName "jobs#ephemeral" = .ok () ∧ validateName "workers" = .ok () ∧
      ∀ crc32c, deadLetterTopic crc32c "jobs#ephemeral" "workers" ".DLQ" =
        some (.error "cannot derive a valid dead-letter topic name") :=
  ⟨jobs.valid, workers.valid, fun crc32c =>
    deadLetterTopic_of_ephemeral crc32c jobs workers dlq (by decide) (by decide)⟩

end RustQueue.Server.DeadLetter
