import Mathlib.Tactic
import RustQueue.Error
import RustQueue.Lib.PartitionPoint
import RustQueue.Lib.Saturating

/-!
# The message index of a topic

`MessageIndex` finds a message by its position.  The messages of the current segment are
`active`; those of every older segment are described by a `SealedMessages` summary, with the
messages themselves in a sidecar file that is read in pages of `pageMessages` through a cache
shared with all other topics.  A segment path is the base index in its file name.

The cache appears as a predicate `resident` on pages, an argument of every lookup: other
threads insert and evict pages between any two lookups.  A resident page holds what the
sidecar holds, so a lookup can fail to find a stored message only by asking for its page
(`lookup_of_stored`).
-/

namespace RustQueue.Topic

open Lib

/-- Where the body of a message lies. -/
structure PayloadRef where
  path : ℕ
  offset : ℕ
  len : ℕ
  crc32c : ℕ
  deriving DecidableEq, Repr

structure MessageMeta where
  position : ℕ
  id : ℕ
  timestampNs : ℤ
  availableAtMs : ℤ
  logIndex : ℕ
  payload : PayloadRef
  deriving DecidableEq, Repr

/-- The sidecar of a sealed segment, with the messages it describes. -/
structure RecoveryMetadataRef where
  segmentPath : ℕ
  segmentLen : ℕ
  messages : List MessageMeta
  deriving DecidableEq, Repr

structure PageKey where
  segment : ℕ
  page : ℕ
  deriving DecidableEq, Repr

structure PageRequest where
  key : PageKey
  metadata : RecoveryMetadataRef
  firstOrdinal : ℕ
  count : ℕ
  deriving DecidableEq, Repr

inductive Lookup where
  | found (message : MessageMeta)
  | load (request : PageRequest)
  | absent
  deriving DecidableEq, Repr

/-- The summary of a sealed segment. -/
structure SealedMessages where
  metadata : RecoveryMetadataRef
  count : ℕ
  firstPosition : ℕ
  lastPosition : ℕ
  firstId : ℕ
  lastId : ℕ
  firstTimestampNs : ℤ
  lastTimestampNs : ℤ
  lastLogIndex : ℕ
  minAvailableAtMs : ℤ
  maxAvailableAtMs : ℤ
  deriving DecidableEq, Repr

structure MessageIndex where
  sealed : List SealedMessages
  active : List MessageMeta
  totalCount : ℕ
  deriving DecidableEq, Repr

def pageMessages : ℕ := 1024

def i64Max : ℤ := 2 ^ 63 - 1

def i64Min : ℤ := -2 ^ 63

/-- The result of a saturating operation on `i64`. -/
def clampI64 (x : ℤ) : ℤ := max i64Min (min i64Max x)

/-! ### Sidecars -/

/-- The bounds of an entry, which every reader of a sidecar checks. -/
def MessageMeta.InBounds (segmentLen : ℕ) (message : MessageMeta) : Prop :=
  message.position ≠ 0 ∧ message.id ≠ 0 ∧ message.payload.len ≠ 0 ∧
    message.payload.offset + message.payload.len ≤ segmentLen

/-- An entry follows its predecessor. -/
def MessageMeta.Follows (previous message : MessageMeta) : Prop :=
  message.position = satSucc previous.position ∧ previous.id ≤ message.id

instance (segmentLen : ℕ) (message : MessageMeta) : Decidable (message.InBounds segmentLen) := by
  unfold MessageMeta.InBounds
  infer_instance

instance (previous message : MessageMeta) : Decidable (previous.Follows message) := by
  unfold MessageMeta.Follows
  infer_instance

/-- The summary of the messages of one segment, from the first to the last. -/
def SealedMessages.summary (metadata : RecoveryMetadataRef) (messages : List MessageMeta)
    (first last : MessageMeta) : SealedMessages where
  metadata := metadata
  count := messages.length
  firstPosition := first.position
  lastPosition := last.position
  firstId := first.id
  lastId := last.id
  firstTimestampNs := first.timestampNs
  lastTimestampNs := last.timestampNs
  lastLogIndex := last.logIndex
  minAvailableAtMs := (messages.map MessageMeta.availableAtMs).foldl min i64Max
  maxAvailableAtMs := (messages.map MessageMeta.availableAtMs).foldl max i64Min

/-- The check of a sidecar, and the summary it gives.  The source checks the bounds page by
page while it follows the positions, which matters only for the text of the error. -/
def inspect (metadata : RecoveryMetadataRef) : Except BrokerError SealedMessages :=
  match metadata.messages.head?, metadata.messages.getLast? with
  | some first, some last =>
    if ∃ message ∈ metadata.messages, ¬message.InBounds metadata.segmentLen then
      .error (.invalidRecord "topic recovery payload boundary is invalid")
    else if ¬metadata.messages.IsChain MessageMeta.Follows then
      .error (.invalidRecord "topic recovery index range is invalid")
    else .ok (.summary metadata metadata.messages first last)
  | _, _ => .error (.invalidRecord "topic recovery index is empty")

namespace MessageIndex

/-! ### Lookups -/

def new : MessageIndex := ⟨[], [], 0⟩

/-- The page of a sealed position, as it is requested from the sidecar. -/
def pageRequest (segment : SealedMessages) (ordinal : ℕ) : PageRequest :=
  let page := ordinal / pageMessages
  let firstOrdinal := page * pageMessages
  { key := ⟨segment.metadata.segmentPath, page⟩
    metadata := segment.metadata
    firstOrdinal := firstOrdinal
    count := min (segment.count - firstOrdinal) pageMessages }

/-- The entries a page holds once it is loaded. -/
def page (request : PageRequest) : List MessageMeta :=
  (request.metadata.messages.drop request.firstOrdinal).take request.count

variable (index : MessageIndex)

/-- The sealed segment whose range contains the position. -/
def sealedSegment (position : ℕ) : Option SealedMessages :=
  index.sealed[partitionPoint (fun segment => decide (segment.lastPosition < position))
    index.sealed]?.filter fun segment => decide (segment.firstPosition ≤ position)

/-- The lookup of the source, where `get` is the page that the cache holds. -/
def lookupWith (get : PageRequest → Option (List MessageMeta)) (position : ℕ) : Lookup :=
  match index.active.head?.filter fun first => decide (first.position ≤ position) with
  | some first =>
    match index.active[position - first.position]?.filter fun message =>
        decide (message.position = position) with
    | some message => .found message
    | none => .absent
  | none =>
    match index.sealedSegment position with
    | none => .absent
    | some segment =>
      let ordinal := position - segment.firstPosition
      let request := pageRequest segment ordinal
      match (get request).bind (·[ordinal - request.firstOrdinal]?) with
      | some message => if message.position = position then .found message else .absent
      | none => .load request

/-- A lookup at a moment when the cache holds the `resident` pages. -/
def lookup (resident : PageKey → Bool) (position : ℕ) : Lookup :=
  index.lookupWith (fun request => if resident request.key then some (page request) else none) position

/-- A stored message: the lookup finds it when no page is missing. -/
def Stored (position : ℕ) (message : MessageMeta) : Prop :=
  index.lookup (fun _ => true) position = .found message

/-- A stored message is found, or its page is asked for. -/
theorem lookup_of_stored {index : MessageIndex} {position : ℕ} {message : MessageMeta}
    (h : index.Stored position message) (resident : PageKey → Bool) :
    index.lookup resident position = .found message ∨
      ∃ request, index.lookup resident position = .load request ∧ resident request.key = false := by
  unfold Stored lookup lookupWith at h
  unfold lookup lookupWith
  split
  · rename_i first hfirst
    rw [hfirst] at h
    exact Or.inl h
  · rename_i hactive
    rw [hactive] at h
    cases hsegment : index.sealedSegment position with
    | none => simp [hsegment] at h
    | some segment =>
      simp only [hsegment] at h ⊢
      cases hpage : resident (pageRequest segment (position - segment.firstPosition)).key with
      | true => exact Or.inl (by simpa using h)
      | false => exact Or.inr ⟨_, by simp, hpage⟩

/-! ### Messages come in and are sealed -/

/-- The positions of new messages go on from the last active one, or lie behind the sealed
ones. -/
def extendActive (messages : List MessageMeta) : Except BrokerError MessageIndex :=
  let expected := index.active.getLast?.map fun message => satSucc message.position
  if expected = none ∧ ∃ segment ∈ index.sealed.getLast?, ∃ message ∈ messages.head?,
      message.position ≤ segment.lastPosition then
    .error (.invalidRecord "topic message position ranges overlap")
  else if ¬(index.active.getLast?.toList ++ messages).IsChain
      fun previous message => message.position = satSucc previous.position then
    .error (.invalidRecord "topic message positions are not contiguous")
  else
    .ok { index with
      totalCount := satAdd u64Max index.totalCount messages.length
      active := index.active ++ messages }

def pushSealed (segment : SealedMessages) : Except BrokerError MessageIndex :=
  if segment.count = 0 ∨
      segment.lastPosition ≠ satAdd u64Max segment.firstPosition (segment.count - 1) ∨
      (∃ previous ∈ index.sealed.getLast?, segment.firstPosition ≤ previous.lastPosition) ∨
      ∃ message ∈ index.active.head?, message.position ≤ segment.lastPosition then
    .error (.invalidRecord "sealed topic message range is invalid")
  else
    .ok { index with
      totalCount := satAdd u64Max index.totalCount segment.count
      sealed := index.sealed ++ [segment] }

def recoverSealed (metadata : RecoveryMetadataRef) : Except BrokerError MessageIndex := do
  let summary ← inspect metadata
  index.pushSealed summary

def recoverActive (messages : List MessageMeta) : Except BrokerError MessageIndex :=
  index.extendActive messages

def append (messages : List MessageMeta) : Except BrokerError MessageIndex :=
  index.extendActive messages

def activeForPath (path : ℕ) : List MessageMeta :=
  index.active.filter fun message => decide (message.payload.path = path)

/-- The active messages of a segment become a sealed summary. -/
def sealPath (path : ℕ) (metadata : RecoveryMetadataRef) : Except BrokerError MessageIndex :=
  let messages := index.activeForPath path
  match messages.head?, messages.getLast? with
  | some first, some last =>
    { index with
      active := index.active.filter fun message => decide (message.payload.path ≠ path)
      totalCount := index.totalCount - messages.length }.pushSealed
        (.summary metadata messages first last)
  | _, _ => .error (.invalidRecord "sealed segment has no message metadata")

/-! ### Ends and gaps -/

def activeLastPosition : Option ℕ :=
  index.active.getLast?.map MessageMeta.position

def lastPosition (index : MessageIndex) : Option ℕ :=
  index.activeLastPosition.or (index.sealed.getLast?.map SealedMessages.lastPosition)

def lastTimestampNs (index : MessageIndex) : Option ℤ :=
  (index.active.getLast?.map MessageMeta.timestampNs).or
    (index.sealed.getLast?.map SealedMessages.lastTimestampNs)

/-- The first and last positions of the sealed segments and of the active messages. -/
def spans : List (ℕ × ℕ) :=
  (index.sealed.map fun segment => (segment.firstPosition, segment.lastPosition)) ++
    match index.active.head?, index.active.getLast? with
    | some first, some last => [(first.position, last.position)]
    | _, _ => []

/-- The gaps between spans from `next` on. -/
def gapsBetween (lastPosition : ℕ) : ℕ → List (ℕ × ℕ) → List (ℕ × ℕ)
  | next, [] => if next ≤ lastPosition then [(next, lastPosition)] else []
  | next, (first, last) :: rest =>
    if lastPosition < first then if next ≤ lastPosition then [(next, lastPosition)] else []
    else
      (if next < first then [(next, min (first - 1) lastPosition)] else []) ++
        if last < u64Max then gapsBetween lastPosition (last + 1) rest else []

def positionGaps (lastPosition : ℕ) : List (ℕ × ℕ) :=
  gapsBetween lastPosition 1 index.spans

/-! ### Retention boundaries -/

/-- A position at or before the first message that is not older than the cutoff. -/
def retainFromTimestamp (cutoff : ℤ) (nextPosition : ℕ) : ℕ :=
  match index.sealed[partitionPoint (fun segment => decide (segment.lastTimestampNs < cutoff))
      index.sealed]? with
  | some segment => segment.firstPosition
  | none =>
    match index.active[partitionPoint (fun message => decide (message.timestampNs < cutoff))
        index.active]? with
    | some message => message.position
    | none => nextPosition

def removeMissingPaths (existing : List ℕ) : MessageIndex where
  active := index.active
  totalCount := index.totalCount -
    ((index.sealed.filter fun segment =>
      decide (segment.metadata.segmentPath ∉ existing)).map SealedMessages.count).sum
  sealed := index.sealed.filter fun segment => decide (segment.metadata.segmentPath ∈ existing)

/-! ### Searching a sidecar -/

/-- An entry of a sidecar; the source loads its page first if it is not resident. -/
def loadOrdinal (segment : SealedMessages) (ordinal : ℕ) : Except BrokerError MessageMeta :=
  match segment.metadata.messages[ordinal]? with
  | some message => .ok message
  | none => .error (.invalidRecord "topic index page is incomplete")

/-- The binary search for the first entry from `low` on that is not among those at the front.  The
fuel is the length of the interval, which every turn shortens. -/
def searchOrdinal (segment : SealedMessages) (front : MessageMeta → Bool) :
    ℕ → ℕ → ℕ → Except BrokerError ℕ
  | 0, low, _ => .ok low
  | fuel + 1, low, high =>
    if low < high then do
      let ordinal := low + (high - low) / 2
      let message ← loadOrdinal segment ordinal
      if front message then searchOrdinal segment front fuel (ordinal + 1) high
      else searchOrdinal segment front fuel low ordinal
    else .ok low

/-- The position of the message with an id. -/
def positionById (id : ℕ) : Except BrokerError (Option ℕ) :=
  match index.active.find? fun message => decide (message.id = id) with
  | some message => .ok (some message.position)
  | none =>
    match index.sealed[partitionPoint (fun segment => decide (segment.lastId < id))
        index.sealed]?.filter fun segment => decide (segment.firstId ≤ id) with
    | none => .ok none
    | some segment => do
      let low ← searchOrdinal segment (fun message => decide (message.id < id)) segment.count 0
        segment.count
      if segment.count ≤ low then return none
      else
        let message ← loadOrdinal segment low
        return if message.id = id then some message.position else none

/-- The first message behind a position, with its time. -/
def firstMessageAfter (position : ℕ) : Except BrokerError (Option (ℕ × ℤ)) :=
  match index.sealed[partitionPoint (fun segment => decide (segment.lastPosition ≤ position))
      index.sealed]? with
  | some segment => do
    let ordinal := min (satSucc position - segment.firstPosition) (segment.count - 1)
    let message ← loadOrdinal segment ordinal
    return some (message.position, message.timestampNs)
  | none =>
    .ok ((index.active.find? fun message => decide (position < message.position)).map
      fun message => (message.position, message.timestampNs))

/-- How many messages of a sealed segment lie behind a position, from its summary alone. -/
def countSealedAfter (position : ℕ) (segment : SealedMessages) : ℕ :=
  if position < segment.firstPosition then segment.count
  else if position < segment.lastPosition then segment.lastPosition - position
  else 0

def countAfterPosition (position : ℕ) : ℕ :=
  satAdd u64Max (index.sealed.map (countSealedAfter position)).sum
    (index.active.filter fun message => decide (position < message.position)).length

/-! ### Expired messages -/

/-- The loop over the sealed segments: an answer that ends the call, or what was found so far. -/
def expiredSealed (position : ℕ) (cutoffNs : ℤ) (maxMessages : ℕ) :
    Option ℕ × ℕ → List SealedMessages →
      Except BrokerError (Option (ℕ × ℕ) ⊕ (Option ℕ × ℕ))
  | found, [] => .ok (.inr found)
  | (through, messages), segment :: rest =>
    let firstOrdinal := min (satSucc position - segment.firstPosition) segment.count
    if segment.count ≤ firstOrdinal ∨ cutoffNs < segment.firstTimestampNs then
      expiredSealed position cutoffNs maxMessages (through, messages) rest
    else if segment.lastTimestampNs ≤ cutoffNs then
      let expired := segment.count - firstOrdinal
      let take := min expired (maxMessages - messages)
      if take = 0 then .ok (.inr (through, messages))
      else do
        let through ←
          if take = expired then pure segment.lastPosition
          else do
            let message ← loadOrdinal segment (firstOrdinal + take - 1)
            pure message.position
        let messages := satAdd u64Max messages take
        if take < expired ∨ maxMessages ≤ messages then return .inl (some (through, messages))
        else expiredSealed position cutoffNs maxMessages (some through, messages) rest
    else do
      let low ← searchOrdinal segment (fun message => decide (message.timestampNs ≤ cutoffNs))
        (segment.count - firstOrdinal) firstOrdinal segment.count
      if firstOrdinal < low then
        let take := min (low - firstOrdinal) (maxMessages - messages)
        let last ← loadOrdinal segment (firstOrdinal + take - 1)
        return .inl (some (last.position, satAdd u64Max messages take))
      else return .inl (through.map fun through => (through, messages))

/-- The end of the call: the active messages after what the loop has found. -/
def expiredActive (position : ℕ) (cutoffNs : ℤ) (maxMessages : ℕ) (found : Option ℕ × ℕ) :
    Option (ℕ × ℕ) :=
  let firstActive :=
    partitionPoint (fun message => decide (message.position ≤ position)) index.active
  let finish :=
    partitionPoint (fun message => decide (message.timestampNs ≤ cutoffNs)) index.active
  -- the two partition points are independent, and the subtraction is a plain one
  let take := min (wrapSub finish firstActive) (maxMessages - found.2)
  if 0 < take then
    (index.active[wrapSub (wrapAdd firstActive take) 1]?.map MessageMeta.position).map
      fun through => (through, satAdd u64Max found.2 take)
  else found.1.map fun through => (through, found.2)

/-- The last of the messages behind a position that are not newer than the cutoff, and their
number, for at most `maxMessages` of them. -/
def throughTimestampAfter (position : ℕ) (cutoffNs : ℤ) (maxMessages : ℕ) :
    Except BrokerError (Option (ℕ × ℕ)) := do
  let skipped := partitionPoint (fun segment => decide (segment.lastPosition ≤ position)) index.sealed
  match ← expiredSealed position cutoffNs maxMessages (none, 0) (index.sealed.drop skipped) with
  | .inl answer => return answer
  | .inr found => return index.expiredActive position cutoffNs maxMessages found

end MessageIndex

end RustQueue.Topic
