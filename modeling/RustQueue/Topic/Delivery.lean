import RustQueue.Channel.Progress
import RustQueue.Channel.Reach
import RustQueue.Topic.State

/-!
# Reserving a batch of deliveries

`reserveBatch` asks a channel for candidates one after the other and hands each of them out.  The
channel looks a candidate up in the message index before it gives it away, and the loop looks it
up a second time to learn its metadata.  The pages of the index are shared with other topics:
`Surroundings` says which of them are resident at each single lookup of a call, next to the clock,
the delivery budget, the deadlines and the tokens.

* `reserveLoop_inReach`: what a call does to the reach of one stored position;
* `reserveBatch_keeps_outstanding_iff`: a call keeps every outstanding position in reach exactly
  when no turn drops one, which happens when the page of a candidate is evicted between its two
  lookups and the channel has no other way back to it.
-/

namespace RustQueue.Topic

open Lib Channel

structure ReservedDelivery where
  position : ℕ
  id : ℕ
  timestampNs : ℤ
  attempts : ℕ
  token : ℕ
  payload : PayloadRef
  deriving DecidableEq, Repr

inductive ReserveBatch where
  | ready (reserved : List ReservedDelivery)
  | load (reserved : List ReservedDelivery) (request : PageRequest)
  deriving DecidableEq, Repr

def ReserveBatch.reserved : ReserveBatch → List ReservedDelivery
  | .ready reserved | .load reserved _ => reserved

/-- What a call meets outside of the topic: the resident pages by lookup, and the clock, the
answer of the delivery budget, the deadline and the fresh token by turn. -/
structure Surroundings where
  resident : ℕ → PageKey → Bool
  nowMs : ℕ → ℤ
  lease : ℕ → Bool
  deadline : ℕ → ℕ
  token : ℕ → ℕ

def availability : Lookup → MessageAvailability
  | .found message => .ready message.availableAtMs
  | .load _ => .missing
  | .absent => .absent

/-- The lookup a channel is given.  Its environment counts the lookups of the call. -/
def availableAt (messages : MessageIndex) (around : Surroundings) (lookups position : ℕ) :
    MessageAvailability × ℕ :=
  (availability (messages.lookup (around.resident lookups) position), lookups + 1)

/-- The variables of the loop. -/
structure Batch where
  state : ChannelState
  lookups : ℕ
  reserved : List ReservedDelivery
  bytes : ℕ

/-- A turn goes on to the next one, or ends the call. -/
inductive Turn where
  | next (batch : Batch)
  | stop (answer : ReserveBatch) (batch : Batch)

/-- The variables a turn leaves. -/
def Turn.batch : Turn → Batch
  | .next batch | .stop _ batch => batch

section Loop

variable (messages : MessageIndex) (around : Surroundings) (last maxBytes : ℕ)

/-- One turn of the loop, `none` when the channel's scan does not end. -/
def reserveTurn (turn : ℕ) (batch : Batch) : Option Turn :=
  match batch.state.nextCandidate (around.nowMs turn) last (availableAt messages around)
      batch.lookups with
  | none => none
  | some (.none, state, lookups) =>
    some (.stop (.ready batch.reserved) { batch with state := state, lookups := lookups })
  | some (.load position, state, lookups) =>
    let batch := { batch with state := state, lookups := lookups + 1 }
    match messages.lookup (around.resident lookups) position with
    | .load request => some (.stop (.load batch.reserved request) batch)
    | .found _ | .absent => some (.next batch)
  | some (.ready position, state, lookups) =>
    let batch := { batch with state := state, lookups := lookups + 1 }
    match messages.lookup (around.resident lookups) position with
    -- the candidate has left the channel and is not put back
    | .load _ | .absent => some (.next batch)
    | .found message =>
      let nextBytes := satAdd usizeMax batch.bytes message.payload.len
      let deferred := { batch with state := state.deferCandidate position }
      if batch.reserved ≠ [] ∧ maxBytes < nextBytes then
        some (.stop (.ready batch.reserved) deferred)
      else if around.lease turn = false then some (.stop (.ready batch.reserved) deferred)
      else
        let (state, attempts) := state.reserveTimestamped position message.id message.timestampNs
          (around.deadline turn) (around.token turn)
        some (.next
          { batch with
            state := state
            bytes := nextBytes
            reserved := batch.reserved ++
              [⟨position, message.id, message.timestampNs, attempts, around.token turn,
                message.payload⟩] })

/-- The loop, with the number of turns that are left. -/
def reserveLoop : ℕ → ℕ → Batch → Option (ReserveBatch × Batch)
  | 0, _, batch => some (.ready batch.reserved, batch)
  | left + 1, turn, batch =>
    match reserveTurn messages around last maxBytes turn batch with
    | none => none
    | some (.stop answer batch) => some (answer, batch)
    | some (.next batch) => reserveLoop left (turn + 1) batch

/-- A turn loses a position: the channel answers it as a candidate, its page is not resident when
it is looked up again, and the channel has no other way to come back to it. -/
def Drops (turn : ℕ) (batch : Batch) (p : ℕ) : Prop :=
  ∃ state lookups,
    batch.state.nextCandidate (around.nowMs turn) last (availableAt messages around)
      batch.lookups = some (.ready p, state, lookups) ∧
    (∃ request, messages.lookup (around.resident lookups) p = .load request) ∧ ¬state.InReach p

/-- Some turn of the loop loses the position. -/
def LoopDrops (p : ℕ) : ℕ → ℕ → Batch → Prop
  | 0, _, _ => False
  | left + 1, turn, batch =>
    Drops messages around last turn batch p ∨
      ∃ batch', reserveTurn messages around last maxBytes turn batch = some (.next batch') ∧
        LoopDrops p left (turn + 1) batch'

end Loop

/-- A call of `reserve_batch`, `none` when the channel's scan does not end. -/
def reserveBatch (topic : Topic) (channelName : String) (maxMessages maxBytes : ℕ)
    (around : Surroundings) : Option (Except BrokerError ReserveBatch × Topic) :=
  if topic.manifest.deleted then some (.error .topicNotFound, topic)
  else if topic.manifest.paused then some (.ok (.ready []), topic)
  else
    match topic.channels[channelName]? with
    | none => some (.error .channelNotFound, topic)
    | some runtime =>
      match reserveLoop topic.messages around topic.deliverablePosition maxBytes maxMessages 0
          ⟨runtime.state, 0, [], 0⟩ with
      | none => none
      | some (answer, batch) =>
        some (.ok answer,
          { topic with
            channels := topic.channels.insert channelName { runtime with state := batch.state } })

/-! ### The reach of one position -/

section Reach

variable {messages : MessageIndex} {around : Surroundings} {last maxBytes : ℕ} {turn p : ℕ}
  {batch : Batch}

/-- The lookup of a channel never reports a stored message as absent. -/
theorem stored_availableAt {message : MessageMeta} (h : messages.Stored p message) :
    ChannelState.Stored (availableAt messages around) p := by
  intro lookups
  rcases MessageIndex.lookup_of_stored h (around.resident lookups) with hfound | ⟨_, hload, _⟩
  · rw [availableAt, hfound]
    exact MessageAvailability.noConfusion
  · rw [availableAt, hload]
    exact MessageAvailability.noConfusion

/-- The variables after a reservation. -/
def Batch.add (batch : Batch) (around : Surroundings) (turn : ℕ) (state : ChannelState)
    (lookups position : ℕ) (message : MessageMeta) : Batch :=
  let (state, attempts) := state.reserveTimestamped position message.id message.timestampNs
    (around.deadline turn) (around.token turn)
  { state := state
    lookups := lookups + 1
    bytes := satAdd usizeMax batch.bytes message.payload.len
    reserved := batch.reserved ++
      [⟨position, message.id, message.timestampNs, attempts, around.token turn, message.payload⟩] }

/-- Everything a turn can do.  It finds no message and leaves the channel as `nextCandidate` does,
or it hands the candidate back and ends the call, or it reserves the candidate. -/
theorem reserveTurn_cases {result : Turn}
    (h : reserveTurn messages around last maxBytes turn batch = some result) :
    ∃ candidate state lookups,
      batch.state.nextCandidate (around.nowMs turn) last (availableAt messages around)
        batch.lookups = some (candidate, state, lookups) ∧
      ((result.batch.state = state ∧ result.batch.reserved = batch.reserved ∧
          result.batch.bytes = batch.bytes ∧
          (∀ answer after, result = .stop answer after → answer.reserved = batch.reserved) ∧
          ∀ q, candidate = .ready q →
            ∀ message, messages.lookup (around.resident lookups) q ≠ .found message) ∨
        ∃ q message, candidate = .ready q ∧
          messages.lookup (around.resident lookups) q = .found message ∧
          (result = .stop (.ready batch.reserved)
              { batch with state := state.deferCandidate q, lookups := lookups + 1 } ∧
              (batch.reserved ≠ [] ∧ maxBytes < satAdd usizeMax batch.bytes message.payload.len ∨
                around.lease turn = false) ∨
            result = .next (batch.add around turn state lookups q message) ∧
              (batch.reserved = [] ∨
                satAdd usizeMax batch.bytes message.payload.len ≤ maxBytes))) := by
  unfold reserveTurn at h
  cases hcandidate : batch.state.nextCandidate (around.nowMs turn) last
      (availableAt messages around) batch.lookups with
  | none =>
    rw [hcandidate] at h
    cases h
  | some found =>
    obtain ⟨candidate, state, lookups⟩ := found
    rw [hcandidate] at h
    refine ⟨candidate, state, lookups, rfl, ?_⟩
    cases candidate with
    | none =>
      cases h
      refine Or.inl ⟨rfl, rfl, rfl, fun answer after hstop => ?_, fun q hq => by cases hq⟩
      cases hstop
      rfl
    | load position =>
      dsimp only at h
      split at h <;> cases h <;>
        refine Or.inl ⟨rfl, rfl, rfl, fun answer after hstop => ?_, fun q hq => by cases hq⟩ <;>
        cases hstop
      rfl
    | ready position =>
      dsimp only at h
      cases hlookup : messages.lookup (around.resident lookups) position with
      | load request =>
        rw [hlookup] at h
        cases h
        refine Or.inl ⟨rfl, rfl, rfl, fun answer after hstop => (by cases hstop), ?_⟩
        intro q hq message hfound
        cases hq
        rw [hlookup] at hfound
        cases hfound
      | absent =>
        rw [hlookup] at h
        cases h
        refine Or.inl ⟨rfl, rfl, rfl, fun answer after hstop => (by cases hstop), ?_⟩
        intro q hq message hfound
        cases hq
        rw [hlookup] at hfound
        cases hfound
      | found message =>
        rw [hlookup] at h
        dsimp only at h
        refine Or.inr ⟨position, message, rfl, hlookup, ?_⟩
        split_ifs at h with hlarge hlease
        · cases h
          exact Or.inl ⟨rfl, Or.inl hlarge⟩
        · cases h
          exact Or.inl ⟨rfl, Or.inr hlease⟩
        · cases h
          refine Or.inr ⟨rfl, ?_⟩
          by_cases hfirst : batch.reserved = []
          · exact Or.inl hfirst
          · exact Or.inr (not_lt.1 fun hlt => hlarge ⟨hfirst, hlt⟩)

/-- What a turn does to the channel: it is as `nextCandidate` leaves it, with no found candidate,
or the candidate is found and handed out or back. -/
theorem reserveTurn_state {result : Turn}
    (h : reserveTurn messages around last maxBytes turn batch = some result) :
    ∃ candidate state lookups,
      batch.state.nextCandidate (around.nowMs turn) last (availableAt messages around)
        batch.lookups = some (candidate, state, lookups) ∧
      ((result.batch.state = state ∧ ∀ q, candidate = .ready q →
          ∀ message, messages.lookup (around.resident lookups) q ≠ .found message) ∨
        ∃ q handout message, candidate = .ready q ∧
          messages.lookup (around.resident lookups) q = .found message ∧
          result.batch.state = state.settle q handout) := by
  obtain ⟨candidate, state, lookups, hcandidate, hcase⟩ := reserveTurn_cases h
  refine ⟨candidate, state, lookups, hcandidate, ?_⟩
  rcases hcase with ⟨hstate, -, -, -, hmissed⟩ | ⟨q, message, hq, hfound, ⟨rfl, -⟩ | ⟨rfl, -⟩⟩
  · exact Or.inl ⟨hstate, hmissed⟩
  · exact Or.inr ⟨q, .defer, message, hq, hfound, rfl⟩
  · exact Or.inr ⟨q, .reserve message.id message.timestampNs (around.deadline turn)
      (around.token turn), message, hq, hfound, rfl⟩

theorem reserveLoop_reserved {left : ℕ} {answer : ReserveBatch} {after : Batch}
    (h : reserveLoop messages around last maxBytes left turn batch = some (answer, after)) :
    answer.reserved = after.reserved := by
  induction left generalizing turn batch with
  | zero =>
    cases h
    rfl
  | succ left ih =>
    rw [reserveLoop] at h
    split at h
    · cases h
    · rename_i stopped stop hturn
      cases h
      obtain ⟨candidate, state, lookups, -, hcase⟩ := reserveTurn_cases hturn
      rcases hcase with ⟨-, hsame, -, hanswer, -⟩ | ⟨q, message, -, -, ⟨hstop, -⟩ | ⟨hstop, -⟩⟩
      · rw [hanswer _ _ rfl]
        exact hsame.symm
      · cases hstop
        rfl
      · cases hstop
    · exact ih h

/-- **One turn** keeps a stored position unsettled, and in reach unless it drops it. -/
theorem reserveTurn_inReach {message : MessageMeta} (hstored : messages.Stored p message)
    (hs : batch.state.Unsettled p) {result : Turn}
    (h : reserveTurn messages around last maxBytes turn batch = some result) :
    result.batch.state.Unsettled p ∧
      (result.batch.state.InReach p ↔
        batch.state.InReach p ∧ ¬Drops messages around last turn batch p) := by
  obtain ⟨candidate, state, lookups, hcandidate, hresult⟩ := reserveTurn_state h
  obtain ⟨hs', hready, hother⟩ :=
    ChannelState.nextCandidate_inReach (stored_availableAt hstored) hs hcandidate
  by_cases hp : candidate = .ready p
  · subst hp
    have hbefore := hready rfl
    rcases hresult with ⟨hstate, hlost⟩ | ⟨q, handout, found, hq, hfound, hstate⟩
    · -- the candidate is stored, so the second lookup asks for its page
      rw [hstate]
      refine ⟨hs', ?_⟩
      obtain ⟨request, hload, -⟩ :=
        (MessageIndex.lookup_of_stored hstored (around.resident lookups)).resolve_left
          (hlost p rfl message)
      have hdrops : Drops messages around last turn batch p ↔ ¬state.InReach p := by
        constructor
        · rintro ⟨state', lookups', heq, -, hgone⟩
          rw [hcandidate] at heq
          cases heq
          exact hgone
        · exact fun hgone => ⟨state, lookups, hcandidate, ⟨request, hload⟩, hgone⟩
      rw [hdrops, not_not]
      exact ⟨fun hreach => ⟨hbefore, hreach⟩, And.right⟩
    · cases hq
      rw [hstate]
      refine ⟨(state.unsettled_settle p p handout).2 hs', ?_⟩
      refine iff_of_true (state.inReach_settle p handout) ⟨hbefore, ?_⟩
      rintro ⟨state', lookups', heq, ⟨request, hload⟩, -⟩
      rw [hcandidate] at heq
      cases heq
      rw [hfound] at hload
      cases hload
  · have hkept : ¬Drops messages around last turn batch p := by
      rintro ⟨state', lookups', heq, -⟩
      rw [hcandidate] at heq
      cases heq
      exact hp rfl
    rw [and_iff_left hkept, ← hother hp]
    rcases hresult with ⟨hstate, -⟩ | ⟨q, handout, found, hq, -, hstate⟩
    · rw [hstate]
      exact ⟨hs', Iff.rfl⟩
    · rw [hstate]
      exact ChannelState.sameReach_settle (fun hqp => hp (by rw [hq, hqp])) state handout hs'

/-- **A whole loop** keeps a stored position in reach exactly when no turn drops it. -/
theorem reserveLoop_inReach {message : MessageMeta} (hstored : messages.Stored p message)
    {left : ℕ} {answer : ReserveBatch} {batch' : Batch} (hs : batch.state.Unsettled p)
    (h : reserveLoop messages around last maxBytes left turn batch = some (answer, batch')) :
    batch'.state.InReach p ↔
      batch.state.InReach p ∧ ¬LoopDrops messages around last maxBytes p left turn batch := by
  induction left generalizing turn batch with
  | zero =>
    cases h
    exact (and_iff_left (by simp [LoopDrops])).symm
  | succ left ih =>
    rw [reserveLoop] at h
    rw [LoopDrops, not_or, ← and_assoc]
    cases hturn : reserveTurn messages around last maxBytes turn batch with
    | none =>
      rw [hturn] at h
      cases h
    | some result =>
      obtain ⟨hs', hreach⟩ := reserveTurn_inReach hstored hs hturn
      rw [hturn] at h
      cases result with
      | stop answer' stopped =>
        cases h
        rw [← hreach]
        exact (and_iff_left (by simp)).symm
      | next batch₁ =>
        rw [ih hs' h, ← hreach]
        simp [Turn.batch]

end Reach

/-! ### A whole call -/

section Call

variable {topic topic' : Topic} {channelName : String} {maxMessages maxBytes : ℕ}
  {around : Surroundings} {answer : Except BrokerError ReserveBatch}

/-- A stored message that the channel has neither acknowledged nor lost track of. -/
def Outstanding (topic : Topic) (channelName : String) (p : ℕ) : Prop :=
  ∃ runtime, topic.channels[channelName]? = some runtime ∧
    (∃ message, topic.messages.Stored p message) ∧ runtime.state.Unsettled p ∧
    runtime.state.InReach p

/-- The channel can still deliver the position without a restart. -/
def CanDeliver (topic : Topic) (channelName : String) (p : ℕ) : Prop :=
  ∃ runtime, topic.channels[channelName]? = some runtime ∧ runtime.state.InReach p

/-- In some turn of the call the page of the position, which is the turn's candidate, is not
resident for the second lookup, and the channel has no other way to come back to it. -/
def EvictsCandidate (topic : Topic) (channelName : String) (maxMessages maxBytes : ℕ)
    (around : Surroundings) (p : ℕ) : Prop :=
  topic.manifest.deleted = false ∧ topic.manifest.paused = false ∧
    ∃ runtime, topic.channels[channelName]? = some runtime ∧
      LoopDrops topic.messages around topic.deliverablePosition maxBytes p maxMessages 0
        ⟨runtime.state, 0, [], 0⟩

/-- **A call returns** as long as positions do not reach the largest word: both loops of every search it
can make end, within a turn for each position offered for redelivery and each deliverable position, and
so does the loop over the batch. -/
theorem reserveBatch_isSome (topic : Topic) (channelName : String) (maxMessages maxBytes : ℕ)
    (around : Surroundings) (hlast : topic.deliverablePosition < u64Max) :
    (∀ (state : ChannelState) (nowMs : ℤ) (lookups : ℕ), ∃ turns answer,
      turns ≤ state.redelivery.card + (topic.deliverablePosition + 1) ∧
      state.SearchEnds nowMs topic.deliverablePosition (availableAt topic.messages around) lookups
        turns answer) ∧
    (topic.reserveBatch channelName maxMessages maxBytes around).isSome := by
  refine ⟨fun state nowMs lookups => ?_, ?_⟩
  · obtain ⟨turns, answer, hturns, hends, -⟩ :=
      state.search_ends nowMs hlast (availableAt topic.messages around) lookups
    exact ⟨turns, answer, by omega, hends⟩
  have hturn : ∀ turn batch, ∃ result, reserveTurn topic.messages around
      topic.deliverablePosition maxBytes turn batch = some result := by
    intro turn batch
    obtain ⟨⟨candidate, state, lookups⟩, hfound⟩ := Option.isSome_iff_exists.1
      (batch.state.nextCandidate_isSome (around.nowMs turn)
        (availableAt topic.messages around) batch.lookups hlast)
    rw [reserveTurn, hfound]
    cases candidate with
    | none => exact ⟨_, rfl⟩
    | load position => dsimp only; split <;> exact ⟨_, rfl⟩
    | ready position =>
      dsimp only
      split
      · exact ⟨_, rfl⟩
      · exact ⟨_, rfl⟩
      · split_ifs <;> exact ⟨_, rfl⟩
  have hloop : ∀ left turn batch, (reserveLoop topic.messages around topic.deliverablePosition
      maxBytes left turn batch).isSome := by
    intro left
    induction left with
    | zero => exact fun _ _ => rfl
    | succ left ih =>
      intro turn batch
      obtain ⟨result, hresult⟩ := hturn turn batch
      rw [reserveLoop, hresult]
      cases result with
      | next batch => exact ih (turn + 1) batch
      | stop answer batch => rfl
  unfold reserveBatch
  split_ifs
  · rfl
  · rfl
  · split
    · rfl
    · rename_i runtime _
      obtain ⟨result, hresult⟩ := Option.isSome_iff_exists.1
        (hloop maxMessages 0 ⟨runtime.state, 0, [], 0⟩)
      rw [hresult]
      rfl

/-- **A call keeps every outstanding position in reach exactly when it evicts no candidate.** -/
theorem reserveBatch_keeps_outstanding_iff
    (h : topic.reserveBatch channelName maxMessages maxBytes around = some (answer, topic')) :
    (∀ p, topic.Outstanding channelName p → topic'.CanDeliver channelName p) ↔
      ∀ p, topic.Outstanding channelName p →
        ¬topic.EvictsCandidate channelName maxMessages maxBytes around p := by
  refine forall_congr' fun p => imp_congr_right fun hp => ?_
  obtain ⟨runtime, hruntime, ⟨message, hstored⟩, hunsettled, hreach⟩ := hp
  unfold reserveBatch at h
  split_ifs at h with hdeleted hpaused
  · cases h
    exact iff_of_true ⟨runtime, hruntime, hreach⟩
      fun ⟨hlive, _⟩ => Bool.noConfusion (hdeleted.symm.trans hlive)
  · cases h
    exact iff_of_true ⟨runtime, hruntime, hreach⟩
      fun ⟨_, hrunning, _⟩ => Bool.noConfusion (hpaused.symm.trans hrunning)
  · rw [hruntime] at h
    dsimp only at h
    cases hloop : reserveLoop topic.messages around topic.deliverablePosition maxBytes maxMessages 0
        ⟨runtime.state, 0, [], 0⟩ with
    | none =>
      rw [hloop] at h
      cases h
    | some result =>
      obtain ⟨answer', batch⟩ := result
      rw [hloop] at h
      cases h
      have hiff := reserveLoop_inReach hstored hunsettled hloop
      constructor
      · rintro ⟨runtime', hruntime', hreach'⟩ ⟨-, -, start, hstart, hdrops⟩
        rw [Std.ExtTreeMap.getElem?_insert_self, Option.some.injEq] at hruntime'
        subst hruntime'
        rw [hruntime, Option.some.injEq] at hstart
        subst hstart
        exact (hiff.1 hreach').2 hdrops
      · intro hevicts
        refine ⟨{ runtime with state := batch.state }, Std.ExtTreeMap.getElem?_insert_self,
          hiff.2 ⟨hreach, fun hdrops => hevicts ⟨?_, ?_, runtime, hruntime, hdrops⟩⟩⟩
        · simpa using hdeleted
        · simpa using hpaused

end Call

/-! ### A lost candidate -/

/-- A topic with one message, in a sealed segment, and one channel that has not delivered it. -/
def spilledTopic : Topic :=
  let message : MessageMeta := ⟨1, 7, 0, 0, 1, ⟨1, 72, 5, 0⟩⟩
  { name := "events"
    manifest := ⟨7, "events", false, false, 2, none, .reliable, none, 0, 0⟩
    log :=
      { files :=
          { sealed := [⟨1, [⟨1, 0, 7, 0, [⟨1, 7, 24, [104, 101, 108, 108, 111], 0⟩]⟩]⟩]
            current := ⟨2, []⟩
            synced := 0 }
        startIndex := 1 }
    maxSegmentBytes := 1024
    featureLevel := 2
    messages :=
      { sealed := [.summary ⟨1, 77, [message]⟩ [message] message message]
        active := []
        totalCount := 1 }
    positionGaps := .none
    deliverablePosition := 1
    durablePosition := 1
    unsyncedMessages := 0
    unsyncedBytes := 0
    unsyncedSince := none
    channels := (∅ : Std.ExtTreeMap String ChannelRuntime).insert "workers"
      ⟨ChannelState.new "workers" 0 false 8, some ⟨[], 0⟩, true⟩
    maxAckGap := 8
    durableChannelCounters := true
    publishedCount := 1 }

/-- Every page is resident for the first `n` lookups of the call, and none after them. -/
def evictedAfter (n : ℕ) : Surroundings where
  resident lookups _ := decide (lookups < n)
  nowMs _ := 0
  lease _ := true
  deadline _ := 60
  token turn := turn

/-- The call on that topic returns, and the search it makes in the channel ends. -/
theorem reserveBatch_isSome_spilled :
    (∃ turns answer, turns ≤ 0 + (1 + 1) ∧
      (ChannelState.new "workers" 0 false 8).SearchEnds 0 1
        (availableAt spilledTopic.messages (evictedAfter 2)) 0 turns answer) ∧
    (spilledTopic.reserveBatch "workers" 1 1024 (evictedAfter 2)).isSome :=
  have hreturns := reserveBatch_isSome spilledTopic "workers" 1 1024 (evictedAfter 2) (by decide)
  ⟨hreturns.1 (ChannelState.new "workers" 0 false 8) 0 0, hreturns.2⟩

/-- A call on that topic returns, and keeps its message or evicts it. -/
theorem reserveBatch_keeps_outstanding_spilled :
    ∃ topic', spilledTopic.reserveBatch "workers" 1 1024 (evictedAfter 2) =
        some (.ok (.ready [⟨1, 7, 0, 1, 0, ⟨1, 72, 5, 0⟩⟩]), topic') ∧
      ((∀ p, spilledTopic.Outstanding "workers" p → topic'.CanDeliver "workers" p) ↔
        ∀ p, spilledTopic.Outstanding "workers" p →
          ¬spilledTopic.EvictsCandidate "workers" 1 1024 (evictedAfter 2) p) :=
  ⟨_, rfl, reserveBatch_keeps_outstanding_iff rfl⟩

/-- The page of the only message is evicted between its two lookups: the call returns nothing,
and the channel cannot deliver the message any more. -/
theorem reserveBatch_loses_outstanding :
    spilledTopic.Outstanding "workers" 1 ∧
      ∃ topic', spilledTopic.reserveBatch "workers" 1 1024 (evictedAfter 1) =
          some (.ok (.ready []), topic') ∧
        ¬topic'.CanDeliver "workers" 1 := by
  refine ⟨⟨_, Std.ExtTreeMap.getElem?_insert_self, ⟨_, rfl⟩, ⟨?_, ?_⟩, Or.inr (Or.inl ?_)⟩, _, rfl, ?_⟩
  · show ¬(1 ≤ 0 ∨ 1 ∈ (∅ : Finset ℕ))
    decide
  · exact Ranges.not_mem_none 1
  · decide
  · rintro ⟨runtime, hruntime, hreach⟩
    rw [Std.ExtTreeMap.getElem?_insert_self, Option.some.injEq] at hruntime
    subst hruntime
    rcases hreach with (hflight | hagain) | hahead | ⟨first, deadline, hdefer, -⟩
    · exact absurd hflight (by decide)
    · exact absurd hagain (by decide)
    · exact absurd hahead (by decide)
    · cases hdefer

end RustQueue.Topic
