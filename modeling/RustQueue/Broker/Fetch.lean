import RustQueue.Server.Config
import RustQueue.Topic.Commands
import RustQueue.Topic.Delivery

/-!
# Fetching a batch

`reserve_deliveries` calls `reserve_batch` in rounds until it has enough messages or bytes, and hands
the total to the delivery budget of the node.  Other threads change the topic between two rounds
(`FetchAround.others`), and a round may end with a page of the message index to be loaded.

* `reserveDeliveries_fits_iff`: the batch keeps to its byte limit, or has only one message, exactly
  when no round after the first message meets a head message that is too large for what is left.
-/

namespace RustQueue.Broker

open Lib Channel Topic Server

def payloadBytes (items : List ReservedDelivery) : ℕ :=
  (items.map fun item => item.payload.len).foldl (satAdd usizeMax) 0

/-- How the load of an index page ends. -/
inductive PageLoad where
  | loaded
  | wouldBlock
  | failed (error : BrokerError)

/-- What the rounds of a call meet: other threads, management, the pages and clocks of
`reserve_batch`, and the loads of pages. -/
structure FetchAround where
  others : ℕ → Topic → Topic
  access : ℕ → Except BrokerError Unit
  call : ℕ → Surroundings
  load : ℕ → PageLoad

/-- A round ends the call or goes on to the next one. -/
inductive Round where
  | stop (answer : Except BrokerError (List ReservedDelivery)) (topic : Topic)
  | next (items : List ReservedDelivery) (topic : Topic)

/-- The reservations of a batch that is dropped go back to the channel. -/
def giveBack (topic : Topic) (channel : String) (items : List ReservedDelivery) : Topic :=
  topic.cancel channel (items.map fun item => (item.position, item.token))

section Rounds

variable (around : FetchAround) (channel : String) (maxMessages maxBytes : ℕ)

/-- What the answer of `reserve_batch` means for the batch. -/
def afterReserve (round : ℕ) (items : List ReservedDelivery) (topic : Topic) : ReserveBatch → Round
  | .ready reserved =>
    if reserved = [] ∨ maxMessages ≤ items.length + reserved.length ∨
        maxBytes ≤ satAdd usizeMax (payloadBytes items) (payloadBytes reserved) then
      .stop (.ok (items ++ reserved)) topic
    else .next (items ++ reserved) topic
  | .load reserved _ =>
    let items := items ++ reserved
    if maxBytes ≤ payloadBytes items ∨ maxMessages ≤ items.length then .stop (.ok items) topic
    else
      match around.load round with
      | .loaded => .next items topic
      | .wouldBlock => .stop (.ok []) (giveBack topic channel items)
      | .failed error => .stop (.error error) (giveBack topic channel items)

/-- One round, `none` when the channel's scan does not end. -/
def reserveRound (round : ℕ) (topic : Topic) (items : List ReservedDelivery) : Option Round :=
  let remaining := maxMessages - items.length
  if remaining = 0 then some (.stop (.ok items) topic)
  else
    let topic := around.others round topic
    match around.access round with
    | .error error => some (.stop (.error error) (giveBack topic channel items))
    | .ok () =>
      match topic.reserveBatch channel remaining (max (maxBytes - payloadBytes items) 1)
          (around.call round) with
      | none => none
      | some (.error error, topic) => some (.stop (.error error) (giveBack topic channel items))
      | some (.ok answer, topic) =>
        some (afterReserve around channel maxMessages maxBytes round items topic answer)

/-- The rounds, with the number that is left. -/
def reserveRounds : ℕ → ℕ → Topic → List ReservedDelivery →
    Option (Except BrokerError (List ReservedDelivery) × Topic)
  | 0, _, topic, items => some (.ok items, topic)
  | left + 1, round, topic, items =>
    match reserveRound around channel maxMessages maxBytes round topic items with
    | none => none
    | some (.stop answer topic) => some (answer, topic)
    | some (.next items topic) => reserveRounds left (round + 1) topic items

def reserveDeliveries (topic : Topic) : Option (Except BrokerError (List ReservedDelivery) × Topic) :=
  reserveRounds around channel maxMessages maxBytes (maxMessages + 1) 0 topic []

end Rounds

/-! ### The delivery budget -/

def maxPayloadBytes (capacity : ℕ) : ℕ := capacity / 2

/-- The permits that a batch asks for, or the reason why it is refused.  The wait for the permits is
left out. -/
def acquire (capacity payloadBytes : ℕ) : Except BrokerError ℕ :=
  if payloadBytes = 0 then .ok 0
  else if usizeMax < payloadBytes * 2 then
    .error (.invalidRecord "delivery working set overflows usize")
  else if capacity < payloadBytes * 2 then
    .error (.invalidRecord
      s!"delivery working set {payloadBytes * 2} exceeds configured byte budget {capacity}")
  else if u32Max < payloadBytes * 2 then
    .error (.invalidRecord "delivery batch exceeds the byte budget contract")
  else .ok (payloadBytes * 2)

/-! ### The head of a channel -/

/-- The first message that the turns of `reserve_batch` find ready, before anything is reserved. -/
def firstMessage (messages : MessageIndex) (around : Surroundings) (last : ℕ) :
    ℕ → ℕ → ChannelState → ℕ → Option MessageMeta
  | 0, _, _, _ => none
  | left + 1, turn, state, lookups =>
    match state.nextCandidate (around.nowMs turn) last (availableAt messages around) lookups with
    | some (.ready position, state, lookups) =>
      match messages.lookup (around.resident lookups) position with
      | .found message => if around.lease turn then some message else none
      | .load _ | .absent => firstMessage messages around last left (turn + 1) state (lookups + 1)
    | some (.load position, state, lookups) =>
      match messages.lookup (around.resident lookups) position with
      | .load _ => none
      | .found _ | .absent => firstMessage messages around last left (turn + 1) state (lookups + 1)
    | some (.none, _, _) | none => none

/-- The message at the head of a channel, for a call with the given number of turns. -/
def headMessage (topic : Topic) (channel : String) (turns : ℕ) (around : Surroundings) :
    Option MessageMeta :=
  if topic.manifest.deleted ∨ topic.manifest.paused then none
  else topic.channels[channel]?.bind fun runtime =>
    firstMessage topic.messages around topic.deliverablePosition turns 0 runtime.state 0

/-- The message at the head of the channel, if any, fits behind the batch. -/
def HeadFits (maxBytes : ℕ) (items : List ReservedDelivery) (head : Option MessageMeta) : Prop :=
  items ≠ [] → ∀ message ∈ head,
    satAdd usizeMax (payloadBytes items) message.payload.len ≤ maxBytes

/-- In every round that begins with a non-empty batch, the message at the head of the channel fits
into what is left of the byte limit. -/
def HeadsFit (around : FetchAround) (channel : String) (maxMessages maxBytes : ℕ) :
    ℕ → ℕ → Topic → List ReservedDelivery → Prop
  | 0, _, _, _ => True
  | left + 1, round, topic, items =>
    (items.length < maxMessages → around.access round = .ok () →
      HeadFits maxBytes items (headMessage (around.others round topic) channel
        (maxMessages - items.length) (around.call round))) ∧
    ∀ items' topic',
      reserveRound around channel maxMessages maxBytes round topic items = some (.next items' topic') →
      HeadsFit around channel maxMessages maxBytes left (round + 1) topic' items'

/-! ### Bytes of a batch -/

theorem payloadBytes_eq (items : List ReservedDelivery) :
    payloadBytes items = min (items.map fun item => item.payload.len).sum usizeMax := by
  rw [payloadBytes, foldl_satAdd _ _ _ (Nat.zero_le _), Nat.zero_add]

theorem payloadBytes_append (items more : List ReservedDelivery) :
    payloadBytes (items ++ more) = satAdd usizeMax (payloadBytes items) (payloadBytes more) := by
  simp only [payloadBytes_eq, List.map_append, List.sum_append, satAdd]
  omega

theorem payloadBytes_cons (item : ReservedDelivery) (items : List ReservedDelivery) :
    payloadBytes (item :: items) = satAdd usizeMax item.payload.len (payloadBytes items) := by
  simp only [payloadBytes_eq, List.map_cons, List.sum_cons, satAdd]
  omega

/-- A batch of messages with bodies has at least as many bytes as messages. -/
theorem length_le_payloadBytes {items : List ReservedDelivery}
    (h : ∀ item ∈ items, 0 < item.payload.len) :
    min items.length usizeMax ≤ payloadBytes items := by
  rw [payloadBytes_eq]
  refine min_le_min ?_ (Nat.le_refl _)
  induction items with
  | nil => exact Nat.le_refl _
  | cons item items ih =>
    have hitem := h item List.mem_cons_self
    have hitems := ih fun other hother => h other (List.mem_cons_of_mem _ hother)
    simp only [List.length_cons, List.map_cons, List.sum_cons]
    omega

/-! ### One call of `reserve_batch` -/

section Loop

variable {messages : MessageIndex} {around : Surroundings} {last maxBytes : ℕ} {turn : ℕ}
  {batch after : Batch}

/-- The item carries the payload of a message that the index has. -/
def FromIndex (messages : MessageIndex) (item : ReservedDelivery) : Prop :=
  ∃ resident position message,
    messages.lookup resident position = .found message ∧ item.payload = message.payload

/-- What the loop of `reserve_batch` keeps about its bytes. -/
structure Packed (messages : MessageIndex) (maxBytes : ℕ) (batch : Batch) : Prop where
  bytes_eq : batch.bytes = payloadBytes batch.reserved
  fits : batch.reserved.length ≤ 1 ∨ batch.bytes ≤ maxBytes
  found : ∀ item ∈ batch.reserved, FromIndex messages item

theorem Packed.oneTurn {result : Topic.Turn} (hpacked : Packed messages maxBytes batch)
    (h : reserveTurn messages around last maxBytes turn batch = some result) :
    Packed messages maxBytes result.batch ∧ batch.reserved <+: result.batch.reserved := by
  obtain ⟨candidate, state, lookups, -, hcase⟩ := reserveTurn_cases h
  rcases hcase with ⟨-, hreserved, hbytes, -⟩ | ⟨q, message, -, hfound, ⟨rfl, -⟩ | ⟨rfl, hroom⟩⟩
  · refine ⟨⟨?_, ?_, ?_⟩, ?_⟩
    · rw [hbytes, hreserved]
      exact hpacked.bytes_eq
    · rw [hbytes, hreserved]
      exact hpacked.fits
    · rw [hreserved]
      exact hpacked.found
    · rw [hreserved]
  · exact ⟨⟨hpacked.bytes_eq, hpacked.fits, hpacked.found⟩, List.prefix_refl _⟩
  · refine ⟨⟨?_, ?_, ?_⟩, List.prefix_append _ _⟩
    · simp only [Turn.batch, Batch.add, payloadBytes_append, hpacked.bytes_eq]
      simp only [payloadBytes_eq, List.map_cons, List.map_nil, List.sum_singleton, satAdd]
      omega
    · rcases hroom with hfirst | hroom
      · left
        simp [Turn.batch, Batch.add, hfirst]
      · exact Or.inr hroom
    · intro item hitem
      rcases List.mem_append.1 hitem with hold | hnew
      · exact hpacked.found item hold
      · rw [List.mem_singleton.1 hnew]
        exact ⟨_, _, message, hfound, rfl⟩

theorem Packed.loop {left : ℕ} {answer : ReserveBatch} (hpacked : Packed messages maxBytes batch)
    (h : reserveLoop messages around last maxBytes left turn batch = some (answer, after)) :
    Packed messages maxBytes after ∧ batch.reserved <+: after.reserved := by
  induction left generalizing turn batch with
  | zero =>
    cases h
    exact ⟨hpacked, List.prefix_refl _⟩
  | succ left ih =>
    rw [reserveLoop] at h
    split at h
    · cases h
    · rename_i stopped stop hturn
      cases h
      exact hpacked.oneTurn hturn
    · rename_i next hturn
      obtain ⟨hnext, hkept⟩ := hpacked.oneTurn hturn
      obtain ⟨hafter, hkept'⟩ := ih hnext h
      exact ⟨hafter, hkept.trans hkept'⟩

/-- The first message of the loop is the one at the head of the channel. -/
theorem reserveLoop_head {left : ℕ} {answer : ReserveBatch} (hpacked : Packed messages maxBytes batch)
    (hempty : batch.reserved = [])
    (h : reserveLoop messages around last maxBytes left turn batch = some (answer, after)) :
    after.reserved.head?.map (·.payload) =
      (firstMessage messages around last left turn batch.state batch.lookups).map (·.payload) := by
  induction left generalizing turn batch with
  | zero =>
    cases h
    rw [hempty]
    rfl
  | succ left ih =>
    rw [reserveLoop] at h
    rw [firstMessage]
    cases hturn : reserveTurn messages around last maxBytes turn batch with
    | none =>
      rw [hturn] at h
      cases h
    | some result =>
      obtain ⟨hnext, -⟩ := hpacked.oneTurn hturn
      rw [hturn] at h
      unfold reserveTurn at hturn
      cases hcandidate : batch.state.nextCandidate (around.nowMs turn) last
          (availableAt messages around) batch.lookups with
      | none =>
        rw [hcandidate] at hturn
        cases hturn
      | some found =>
        obtain ⟨candidate, state, lookups⟩ := found
        rw [hcandidate] at hturn
        cases candidate with
        | none =>
          cases hturn
          cases h
          simp [hempty]
        | load position =>
          dsimp only at hturn ⊢
          cases hlookup : messages.lookup (around.resident lookups) position with
          | load request =>
            rw [hlookup] at hturn
            cases hturn
            cases h
            simp [hempty]
          | found message =>
            rw [hlookup] at hturn
            cases hturn
            exact ih hnext hempty h
          | absent =>
            rw [hlookup] at hturn
            cases hturn
            exact ih hnext hempty h
        | ready position =>
          dsimp only at hturn ⊢
          cases hlookup : messages.lookup (around.resident lookups) position with
          | load request =>
            rw [hlookup] at hturn
            cases hturn
            exact ih hnext hempty h
          | absent =>
            rw [hlookup] at hturn
            cases hturn
            exact ih hnext hempty h
          | found message =>
            rw [hlookup] at hturn
            dsimp only at hturn ⊢
            rw [if_neg (by simp [hempty])] at hturn
            cases hlease : around.lease turn with
            | false =>
              rw [if_pos hlease] at hturn
              cases hturn
              cases h
              simp [hempty]
            | true =>
              rw [if_neg (by simp [hlease])] at hturn
              cases hturn
              obtain ⟨-, more, hmore⟩ := hnext.loop h
              rw [← hmore]
              simp [Turn.batch, hempty]

end Loop

/-- **One call of `reserve_batch`** stays in its byte limit or reserves one message, begins with the
message at the head of the channel, and reserves messages of the index only. -/
theorem reserveBatch_packed {topic topic' : Topic} {channel : String} {turns maxBytes : ℕ}
    {around : Surroundings} {answer : ReserveBatch}
    (h : topic.reserveBatch channel turns maxBytes around = some (.ok answer, topic')) :
    (answer.reserved.length ≤ 1 ∨ payloadBytes answer.reserved ≤ maxBytes) ∧
      answer.reserved.head?.map (·.payload) =
        (headMessage topic channel turns around).map (·.payload) ∧
      (∀ item ∈ answer.reserved, FromIndex topic.messages item) ∧
      topic'.messages = topic.messages := by
  rw [reserveBatch] at h
  rw [headMessage]
  by_cases hdeleted : topic.manifest.deleted
  · rw [if_pos hdeleted] at h
    cases h
  by_cases hpaused : topic.manifest.paused
  · rw [if_neg hdeleted, if_pos hpaused] at h
    cases h
    rw [if_pos (Or.inr hpaused)]
    exact ⟨Or.inl (Nat.zero_le _), rfl, fun _ hitem => (List.not_mem_nil hitem).elim, rfl⟩
  · rw [if_neg hdeleted, if_neg hpaused] at h
    rw [if_neg (not_or.2 ⟨hdeleted, hpaused⟩)]
    split at h
    · cases h
    · rename_i runtime hruntime
      split at h
      · cases h
      · rename_i reply after hloop
        cases h
        have hstart : Packed topic.messages maxBytes ⟨runtime.state, 0, [], 0⟩ :=
          ⟨rfl, Or.inl (Nat.zero_le _), fun _ hitem => (List.not_mem_nil hitem).elim⟩
        obtain ⟨hpacked, -⟩ := hstart.loop hloop
        rw [reserveLoop_reserved hloop, hruntime]
        refine ⟨?_, reserveLoop_head hstart rfl hloop, hpacked.found, rfl⟩
        rw [← hpacked.bytes_eq]
        exact hpacked.fits

/-! ### The rounds -/

/-- The length of every message that the index has is as `P` says. -/
def Sized (P : ℕ → Prop) (messages : MessageIndex) : Prop :=
  ∀ resident position message, messages.lookup resident position = .found message →
    P message.payload.len

/-- The lengths of the topic's messages are as `P` says, and other threads keep it so. -/
structure Keeps (P : ℕ → Prop) (around : FetchAround) (topic : Topic) : Prop where
  sized : Sized P topic.messages
  others : ∀ round topic, Sized P topic.messages → Sized P (around.others round topic).messages

theorem Sized.item {P : ℕ → Prop} {messages : MessageIndex} (h : Sized P messages)
    {item : ReservedDelivery} (hitem : FromIndex messages item) : P item.payload.len := by
  obtain ⟨resident, position, message, hfound, hpayload⟩ := hitem
  rw [hpayload]
  exact h resident position message hfound

section Rounds

variable {around : FetchAround} {channel : String} {maxMessages maxBytes : ℕ} {round : ℕ}
  {topic topic' : Topic} {items : List ReservedDelivery}

/-- What a round begins with: nothing, or less than the byte limit. -/
def Below (maxBytes : ℕ) (items : List ReservedDelivery) : Prop :=
  items = [] ∨ payloadBytes items < maxBytes

/-- What the call promises of its batch. -/
def WithinLimit (maxBytes : ℕ) (items : List ReservedDelivery) : Prop :=
  payloadBytes items ≤ maxBytes ∨ items.length = 1

theorem Below.withinLimit (h : Below maxBytes items) : WithinLimit maxBytes items := by
  rcases h with rfl | hlt
  · exact Or.inl (Nat.zero_le _)
  · exact Or.inl hlt.le

/-- Everything a round can do: the batch is full, the call fails or gives up, or `reserve_batch`
answers and the batch is judged by what is reserved. -/
theorem reserveRound_cases {result : Round}
    (h : reserveRound around channel maxMessages maxBytes round topic items = some result) :
    (maxMessages ≤ items.length ∧ result = .stop (.ok items) topic) ∨
    (items.length < maxMessages ∧ ∃ error topic', result = .stop (.error error) topic' ∧
      ((∃ e, around.access round = .error e) ∨ ∃ e t, (around.others round topic).reserveBatch channel
        (maxMessages - items.length) (max (maxBytes - payloadBytes items) 1) (around.call round) =
          some (.error e, t))) ∨
    (items.length < maxMessages ∧ around.access round = .ok () ∧ ∃ answer topic',
      (around.others round topic).reserveBatch channel (maxMessages - items.length)
        (max (maxBytes - payloadBytes items) 1) (around.call round) = some (.ok answer, topic') ∧
      afterReserve around channel maxMessages maxBytes round items topic' answer = result) := by
  rw [reserveRound] at h
  dsimp only at h
  split_ifs at h with hfull
  · cases h
    exact Or.inl ⟨by omega, rfl⟩
  · have hroom : items.length < maxMessages := by omega
    split at h
    · rename_i error haccess
      cases h
      exact Or.inr (Or.inl ⟨hroom, error, _, rfl, Or.inl ⟨error, haccess⟩⟩)
    · rename_i haccess
      split at h
      · cases h
      · rename_i error after hcall
        cases h
        exact Or.inr (Or.inl ⟨hroom, error, _, rfl, Or.inr ⟨error, after, hcall⟩⟩)
      · rename_i answer after hcall
        cases h
        exact Or.inr (Or.inr ⟨hroom, haccess, answer, after, hcall, rfl⟩)

/-- What the answer of `reserve_batch` leads to.  Unless the batch is returned with it, the total is
still below the byte limit. -/
theorem afterReserve_cases {answer : ReserveBatch} {result : Round}
    (h : afterReserve around channel maxMessages maxBytes round items topic answer = result) :
    result = .stop (.ok (items ++ answer.reserved)) topic ∨
      payloadBytes (items ++ answer.reserved) < maxBytes ∧
        (result = .next (items ++ answer.reserved) topic ∨
          ∃ topic', result = .stop (.ok []) topic' ∨ ∃ error, result = .stop (.error error) topic') := by
  subst h
  cases answer with
  | ready reserved =>
    simp only [afterReserve, ReserveBatch.reserved, ← payloadBytes_append]
    split_ifs with hdone
    · exact Or.inl rfl
    · rw [not_or, not_or, not_le] at hdone
      exact Or.inr ⟨not_le.1 hdone.2.2, Or.inl rfl⟩
  | load reserved request =>
    simp only [afterReserve, ReserveBatch.reserved]
    split_ifs with hdone
    · exact Or.inl rfl
    · rw [not_or, not_le] at hdone
      refine Or.inr ⟨hdone.1, ?_⟩
      split
      · exact Or.inl rfl
      · exact Or.inr ⟨_, Or.inl rfl⟩
      · exact Or.inr ⟨_, Or.inr ⟨_, rfl⟩⟩

/-- One answer of `reserve_batch` keeps the batch within the limit exactly when the message at the
head of the channel fits: the call itself admits its first message whatever its size, and the others
only within what is left. -/
theorem withinLimit_append_iff {reserved : List ReservedDelivery} {head : Option MessageMeta}
    (hbelow : Below maxBytes items)
    (hfits : reserved.length ≤ 1 ∨
      payloadBytes reserved ≤ max (maxBytes - payloadBytes items) 1)
    (hhead : reserved.head?.map (·.payload) = head.map (·.payload))
    (hbodies : maxBytes = 0 → ∀ item ∈ reserved, 0 < item.payload.len) :
    WithinLimit maxBytes (items ++ reserved) ↔ HeadFits maxBytes items head := by
  by_cases hitems : items = []
  · -- the first round: the limit of the call is the limit of the batch
    subst hitems
    refine iff_of_true ?_ fun hne => absurd rfl hne
    have hlength := fun hzero => length_le_payloadBytes (hbodies hzero)
    have hword : 1 < usizeMax := by decide
    have hempty : reserved.length = 0 → payloadBytes reserved = 0 := by
      intro h
      rw [List.length_eq_zero_iff.1 h]
      rfl
    simp only [payloadBytes, List.map_nil, List.foldl_nil, Nat.sub_zero] at hfits
    simp only [WithinLimit, List.nil_append]
    simp only [payloadBytes] at hlength hempty ⊢
    omega
  · have hlt : payloadBytes items < maxBytes := hbelow.resolve_left hitems
    cases reserved with
    | nil =>
      have hnone : head = none := by simpa using hhead.symm
      subst hnone
      rw [List.append_nil]
      exact iff_of_true hbelow.withinLimit fun _ message hmessage => by cases hmessage
    | cons first rest =>
      obtain ⟨message, rfl, hpayload⟩ : ∃ message, head = some message ∧
          message.payload = first.payload := by
        cases head with
        | none => simp at hhead
        | some message => exact ⟨message, rfl, by simpa using hhead.symm⟩
      have htwo : (items ++ first :: rest).length ≠ 1 := by
        have := List.length_pos_iff.2 hitems
        rw [List.length_append, List.length_cons]
        omega
      have hrest : rest.length = 0 → payloadBytes rest = 0 := by
        intro h
        rw [List.length_eq_zero_iff.1 h]
        rfl
      have hheadfits : HeadFits maxBytes items (some message) ↔
          satAdd usizeMax (payloadBytes items) first.payload.len ≤ maxBytes := by
        rw [← hpayload]
        exact ⟨fun h => h hitems message rfl, fun h _ other hother => by cases hother; exact h⟩
      rw [hheadfits, WithinLimit, or_iff_left htwo, payloadBytes_append, payloadBytes_cons]
      rw [payloadBytes_cons, List.length_cons] at hfits
      unfold satAdd at hfits ⊢
      omega

/-- **All rounds**: a batch that is returned is within the limit exactly when every head message
fits. -/
theorem reserveRounds_withinLimit_iff {left : ℕ} {result : List ReservedDelivery}
    (hkeeps : Keeps (fun len => maxBytes = 0 → 0 < len) around topic) (hbelow : Below maxBytes items)
    (h : reserveRounds around channel maxMessages maxBytes left round topic items =
      some (.ok result, topic')) :
    WithinLimit maxBytes result ↔
      HeadsFit around channel maxMessages maxBytes left round topic items := by
  induction left generalizing round topic items with
  | zero =>
    cases h
    exact iff_of_true hbelow.withinLimit trivial
  | succ left ih =>
    rw [reserveRounds] at h
    rw [HeadsFit]
    cases hround : reserveRound around channel maxMessages maxBytes round topic items with
    | none =>
      rw [hround] at h
      cases h
    | some outcome =>
      rw [hround] at h
      rcases reserveRound_cases hround with ⟨hfull, rfl⟩ | ⟨-, error, after, rfl, -⟩ |
        ⟨hroom, haccess, answer, after, hcall, hafter⟩
      · cases h
        refine iff_of_true hbelow.withinLimit ⟨fun hroom => absurd hroom (by omega), ?_⟩
        intro _ _ hnext
        cases hnext
      · cases h
      · obtain ⟨hfits, hhead, hfound, hmessages⟩ := reserveBatch_packed hcall
        have hsized := hkeeps.others round topic hkeeps.sized
        have hiff := withinLimit_append_iff hbelow hfits hhead
          fun hzero item hitem => hsized.item (hfound item hitem) hzero
        rcases afterReserve_cases hafter with rfl | ⟨hlt, rfl | ⟨dropped, rfl | ⟨error, rfl⟩⟩⟩
        · cases h
          rw [hiff]
          refine ⟨fun hfit => ⟨fun _ _ => hfit, fun _ _ hnext => ?_⟩, fun hfit => hfit.1 hroom haccess⟩
          cases hnext
        · rw [ih ⟨hmessages ▸ hsized, hkeeps.others⟩ (Or.inr hlt) h]
          refine ⟨fun hfit => ⟨fun _ _ => hiff.1 (Or.inl hlt.le), fun _ _ hnext => ?_⟩,
            fun hfit => hfit.2 _ _ rfl⟩
          cases hnext
          exact hfit
        · cases h
          refine iff_of_true (Or.inl (Nat.zero_le _))
            ⟨fun _ _ => hiff.1 (Or.inl hlt.le), fun _ _ hnext => ?_⟩
          cases hnext
        · cases h

/-- The messages of a batch are messages of the topic. -/
theorem reserveRounds_sized {P : ℕ → Prop} {left : ℕ} {result : List ReservedDelivery}
    (hkeeps : Keeps P around topic) (hitems : ∀ item ∈ items, P item.payload.len)
    (h : reserveRounds around channel maxMessages maxBytes left round topic items =
      some (.ok result, topic')) :
    ∀ item ∈ result, P item.payload.len := by
  induction left generalizing round topic items with
  | zero =>
    cases h
    exact hitems
  | succ left ih =>
    rw [reserveRounds] at h
    cases hround : reserveRound around channel maxMessages maxBytes round topic items with
    | none =>
      rw [hround] at h
      cases h
    | some outcome =>
      rw [hround] at h
      rcases reserveRound_cases hround with ⟨hfull, rfl⟩ | ⟨-, error, after, rfl, -⟩ |
        ⟨hroom, haccess, answer, after, hcall, hafter⟩
      · cases h
        exact hitems
      · cases h
      · obtain ⟨-, -, hfound, hmessages⟩ := reserveBatch_packed hcall
        have hsized := hkeeps.others round topic hkeeps.sized
        have hall : ∀ item ∈ items ++ answer.reserved, P item.payload.len := by
          intro item hitem
          rcases List.mem_append.1 hitem with hold | hnew
          · exact hitems item hold
          · exact hsized.item (hfound item hnew)
        rcases afterReserve_cases hafter with rfl | ⟨-, rfl | ⟨dropped, rfl | ⟨error, rfl⟩⟩⟩
        · cases h
          exact hall
        · exact ih ⟨hmessages ▸ hsized, hkeeps.others⟩ hall h
        · cases h
          exact fun _ hitem => (List.not_mem_nil hitem).elim
        · cases h

end Rounds

theorem acquire_eq_ok {capacity bytes : ℕ} (hcapacity : capacity ≤ u32Max)
    (h : bytes * 2 ≤ capacity) : acquire capacity bytes = .ok (bytes * 2) := by
  have hword : u32Max ≤ usizeMax := by decide
  have hcap : ¬u32Max < bytes * 2 := not_lt.2 (h.trans hcapacity)
  rw [acquire]
  by_cases hzero : bytes = 0
  · rw [if_pos hzero, hzero]
  · rw [if_neg hzero, if_neg (by omega), if_neg (by omega), if_neg hcap]

/-- **A batch keeps to the byte limit of its fetch, or has only one message, exactly when every
message that a later round finds at the head of the channel fits behind the batch.**  Then the
delivery budget of an accepted configuration takes the batch, if the stored messages are within the
readable size.  An empty message matters only for a byte limit of zero. -/
theorem reserveDeliveries_fits_iff {around : FetchAround} {channel : String}
    {maxMessages maxBytes : ℕ} {topic topic' : Topic} {items : List ReservedDelivery}
    (hbodies : Keeps (fun len => maxBytes = 0 → 0 < len) around topic)
    (h : reserveDeliveries around channel maxMessages maxBytes topic = some (.ok items, topic')) :
    (payloadBytes items ≤ maxBytes ∨ items.length = 1 ↔
        HeadsFit around channel maxMessages maxBytes (maxMessages + 1) 0 topic []) ∧
      (HeadsFit around channel maxMessages maxBytes (maxMessages + 1) 0 topic [] →
        ∀ config requested, Config.validateProtocolLimits config = .ok () →
          Keeps (· ≤ config.retainedMessageBound) around topic →
          maxBytes = min (max requested 1) (maxPayloadBytes config.limits.nodeDeliveryInflightBytes) →
          acquire config.limits.nodeDeliveryInflightBytes (payloadBytes items) =
            .ok (payloadBytes items * 2)) := by
  have hiff := reserveRounds_withinLimit_iff hbodies (Or.inl rfl) h
  refine ⟨hiff, ?_⟩
  intro hheads config requested haccepted hreadable hlimit
  obtain ⟨-, -, -, hmessage, hconnection, hnode⟩ := Config.validateProtocolLimits_eq_ok haccepted
  refine acquire_eq_ok hnode ?_
  rcases hiff.2 hheads with hbytes | hone
  · have hhalf : maxBytes ≤ config.limits.nodeDeliveryInflightBytes / 2 := by
      rw [hlimit]
      exact Nat.min_le_right _ _
    omega
  · obtain ⟨item, rfl⟩ := List.length_eq_one_iff.1 hone
    have hitem : item.payload.len ≤ config.retainedMessageBound :=
      reserveRounds_sized hreadable (fun _ hnone => (List.not_mem_nil hnone).elim) h item
        (List.mem_singleton.2 rfl)
    have hbytes : payloadBytes [item] ≤ item.payload.len := by
      rw [payloadBytes_eq]
      exact (Nat.min_le_left _ _).trans (by simp)
    omega

/-! ### A batch that is too large -/

/-- A topic with two messages of 60 bytes, in the current segment, and one channel that has
delivered neither. -/
def largeHeads : Topic :=
  let body : List UInt8 := List.replicate 60 1
  { spilledTopic with
    log :=
      { files :=
          { sealed := []
            current := ⟨1, [⟨1, 0, 7, 0, [⟨1, 7, 24, body, 0⟩, ⟨2, 8, 104, body, 0⟩]⟩]⟩
            synced := 1 }
        startIndex := 1 }
    messages :=
      { sealed := []
        active := [⟨1, 7, 0, 0, 1, ⟨1, 72, 60, 0⟩⟩, ⟨2, 8, 0, 0, 1, ⟨1, 152, 60, 0⟩⟩]
        totalCount := 2 }
    deliverablePosition := 2
    durablePosition := 2
    publishedCount := 2 }

/-- No other thread is at work, and every page is resident. -/
def undisturbed : FetchAround where
  others _ topic := topic
  access _ := .ok ()
  call round := { evictedAfter 100 with token := fun turn => 10 * round + turn }
  load _ := .loaded

/-- An accepted configuration with a delivery budget of 200 bytes for messages of up to 60. -/
def narrowConfig : Config :=
  { Config.default with
    limits :=
      { Limits.default with connectionDeliveryInflightBytes := 100, nodeDeliveryInflightBytes := 200 }
    maxMessageBytes := 60 }

/-- Every call of `reserve_batch` has time for one message. -/
def hurried : FetchAround :=
  { undisturbed with
    call := fun round => { undisturbed.call round with lease := fun turn => decide (turn = 0) } }

/-- Two messages are fetched in two rounds and a third finds none: the head of each round fits. -/
theorem reserveDeliveries_fits_two :
    ∃ items topic', reserveDeliveries hurried "workers" 3 150 largeHeads = some (.ok items, topic') ∧
      items.length = 2 ∧ payloadBytes items ≤ 150 ∧
      HeadsFit hurried "workers" 3 150 4 0 largeHeads [] := by
  obtain ⟨topic', hrun⟩ : ∃ topic', reserveDeliveries hurried "workers" 3 150 largeHeads =
      some (.ok [⟨1, 7, 0, 1, 0, ⟨1, 72, 60, 0⟩⟩, ⟨2, 8, 0, 1, 10, ⟨1, 152, 60, 0⟩⟩], topic') := ⟨_, rfl⟩
  have hfits := reserveDeliveries_fits_iff
    ⟨fun _ _ _ _ h => absurd h (by decide), fun _ _ h => h⟩ hrun
  exact ⟨_, topic', hrun, rfl, by decide, hfits.1.1 (Or.inl (by decide))⟩

/-- Two messages of 60 bytes are fetched under a limit of 100 bytes: the second one is the first of
the second call of `reserve_batch`.  The delivery budget refuses the batch. -/
theorem reserveDeliveries_exceeds_limit :
    narrowConfig.validateProtocolLimits = .ok () ∧
      ∃ items topic', reserveDeliveries undisturbed "workers" 64
          (min (max 1024 1) (maxPayloadBytes narrowConfig.limits.nodeDeliveryInflightBytes))
          largeHeads = some (.ok items, topic') ∧
        ¬(payloadBytes items ≤ 100 ∨ items.length = 1) ∧
        acquire narrowConfig.limits.nodeDeliveryInflightBytes (payloadBytes items) =
          .error (.invalidRecord "delivery working set 240 exceeds configured byte budget 200") :=
  ⟨by decide, [⟨1, 7, 0, 1, 0, ⟨1, 72, 60, 0⟩⟩, ⟨2, 8, 0, 1, 10, ⟨1, 152, 60, 0⟩⟩], _, rfl, by decide,
    by decide⟩

end RustQueue.Broker
