import RustQueue.Management.Calls

/-!
# Rejected management calls

A call that is refused before it has prepared its operation leaves the catalog as it was.  A call whose
action is refused after that leaves a pending operation behind, which blocks the topic for everyone
and stays in the catalog across a restart.

* `TopicRefused`, `ChannelRefused`: the requests whose action is refused, by the state before the call
  and the clock;
* `rejected_blocksTopic_iff`: a rejected call leaves its topic as blocked as it was exactly when it is
  not one of those.
-/

namespace RustQueue.Broker

open Lib Topic Management

/-- A topic of the name cannot be created: its predecessor is still in use, or there are too many. -/
def NoRoom (broker : Broker) (moment : Moment) (name : String) : Prop :=
  (name ∈ broker.retiredTopics ∧ moment.inUse name = true) ∨
    (name ∉ broker.topics ∧ broker.settings.maxTopics ≤ broker.topics.size)

/-- The tombstone is in the future at the first reading of the clock and not at a later one. -/
def TombstoneLapses (moment : Moment) (reading : ℕ) (tombstoneUntilMs : Option ℤ) : Prop :=
  ∃ untilMs ∈ tombstoneUntilMs, moment.nowMs 0 < untilMs ∧ untilMs ≤ moment.nowMs reading

/-- The action on a topic is refused. -/
def TopicActionRefused (broker : Broker) (moment : Moment) (command : TopicCommand) : Prop :=
  match command.action with
  | .create => NoRoom broker moment command.topic
  | .delete | .tombstone => TombstoneLapses moment 1 command.tombstoneUntilMs
  | .configure | .pause | .unpause | .empty => False

/-- The call is a new operation, and its action is refused. -/
def TopicRefused (broker : Broker) (moment : Moment) (command : TopicCommand) : Prop :=
  validateName command.topic = .ok () ∧
    (∃ policy, validatePolicy command.action command.policy = .ok policy) ∧
    Fresh broker command.operationId command.topic command.expectedRevision ∧
    TopicActionRefused broker moment command

/-- The topic of the channel cannot take a new channel. -/
def ChannelLimited (broker : Broker) (topic channel : String) : Prop :=
  ∃ state ∈ broker.topics[topic]?, state.manifest.deleted = true ∨
    (channel ∉ state.channels ∧ maxChannelsPerTopic ≤ state.channels.size)

/-- The channel exists and has nothing to deliver, nothing in flight and nothing deferred. -/
def IsIdle (broker : Broker) (moment : Moment) (topic channel : String) : Prop :=
  ∃ state ∈ broker.topics[topic]?, channel ∈ state.channels ∧
    state.channelCounts channel (moment.nowMs 1) = .ok (0, 0, 0)

/-- The action on a channel is refused. -/
def ChannelActionRefused (broker : Broker) (moment : Moment) (command : ChannelCommand) : Prop :=
  match command.action with
  | .create =>
    NoRoom broker moment command.topic ∨ ChannelLimited broker command.topic command.channel
  | .delete =>
    TombstoneLapses moment 2 command.tombstoneUntilMs ∧
      (command.requireIdle = true → IsIdle broker moment command.topic command.channel)
  | .tombstone => TombstoneLapses moment 2 command.tombstoneUntilMs
  | .pause | .unpause | .empty => False

/-- The call is a new operation, and its action is refused. -/
def ChannelRefused (broker : Broker) (moment : Moment) (command : ChannelCommand) : Prop :=
  validateName command.topic = .ok () ∧ validateName command.channel = .ok () ∧
    Fresh broker command.operationId command.topic command.expectedRevision ∧
    ChannelActionRefused broker moment command

/-! ### Creating a topic -/

section Create

variable {broker broker' : Broker} {moment : Moment} {name : String} {policy : Option TopicPolicy}

/-- The broker without a retired topic of the name. -/
def cleaned (broker : Broker) (name : String) : Broker :=
  if name ∈ broker.retiredTopics then broker.dropRetired name else broker

@[simp] theorem cleaned_topics : (cleaned broker name).topics = broker.topics := by
  unfold cleaned
  split_ifs <;> rfl

@[simp] theorem cleaned_settings : (cleaned broker name).settings = broker.settings := by
  unfold cleaned
  split_ifs <;> rfl

theorem cleanupRetiredTopic_eq :
    cleanupRetiredTopic moment name broker =
      if name ∈ broker.retiredTopics ∧ moment.inUse name = true then .error .topicRetiring broker
      else .ok () (cleaned broker name) := by
  unfold cleanupRetiredTopic cleaned
  show (if name ∈ broker.retiredTopics then
      if moment.inUse name = true then throw BrokerError.topicRetiring
      else set (broker.dropRetired name)
    else pure () : Task Unit) broker = _
  by_cases hretired : name ∈ broker.retiredTopics
  · by_cases huse : moment.inUse name = true
    · rw [if_pos hretired, if_pos huse, if_pos ⟨hretired, huse⟩]
      rfl
    · rw [if_pos hretired, if_neg huse, if_neg (fun h => huse h.2), if_pos hretired]
      rfl
  · rw [if_neg hretired, if_neg (fun h => hretired h.1), if_neg hretired]
    rfl

theorem getOrCreateTopicLockedWithPolicy_of_noRoom (h : NoRoom broker moment name) :
    ∃ e b', getOrCreateTopicLockedWithPolicy moment name policy broker = .error e b' ∧
      e.isStorageError = false := by
  unfold getOrCreateTopicLockedWithPolicy
  by_cases hretiring : name ∈ broker.retiredTopics ∧ moment.inUse name = true
  · refine ⟨.topicRetiring, broker, run_bind_eq_error.2 (Or.inl ?_), rfl⟩
    rw [cleanupRetiredTopic_eq, if_pos hretiring]
  · obtain ⟨habsent, hlimit⟩ := h.resolve_left hretiring
    refine ⟨.topicLimit, cleaned broker name, run_bind_eq_error.2 (Or.inr ⟨(), cleaned broker name, ?_, ?_⟩), rfl⟩
    · rw [cleanupRetiredTopic_eq, if_neg hretiring]
    · refine run_bind_eq_error.2 (Or.inr ⟨_, _, rfl, ?_⟩)
      rw [cleaned_topics, cleaned_settings, if_neg habsent, if_pos hlimit]
      rfl

/-- A valid policy can be set, and nothing but the policy changes. -/
theorem setPolicy_of_valid (topic : Topic) {policy : TopicPolicy} (h : policy.validate = .ok policy) :
    ∃ changed topic' writes, topic.setPolicy policy = .ok (changed, topic', writes) ∧
      topic'.manifest.deleted = topic.manifest.deleted ∧ topic'.channels = topic.channels ∧
      topic'.manifest.unroutedFromPosition = topic.manifest.unroutedFromPosition := by
  unfold Topic.setPolicy
  rw [h]
  dsimp only
  split_ifs
  · exact ⟨_, _, _, rfl, rfl, rfl, rfl⟩
  · exact ⟨_, _, _, rfl, rfl, rfl, rfl⟩

/-- A topic that can be created is there afterwards: the one that was, or a new one. -/
theorem getOrCreateTopicLockedWithPolicy_of_room (h : ¬NoRoom broker moment name)
    (hpolicy : ∀ p ∈ policy, p.validate = .ok p) :
    ∃ b', getOrCreateTopicLockedWithPolicy moment name policy broker = .ok () b' ∧
      ((name ∈ broker.topics ∧ b'.topics = broker.topics) ∨
        (name ∉ broker.topics ∧ ∃ state, b'.topics[name]? = some state ∧
          state.manifest.deleted = false ∧ state.channels = ∅ ∧
          state.manifest.unroutedFromPosition = some 1)) := by
  unfold getOrCreateTopicLockedWithPolicy
  rw [NoRoom, not_or] at h
  obtain ⟨hretiring, hlimit⟩ := h
  have hclean : cleanupRetiredTopic moment name broker = .ok () (cleaned broker name) := by
    rw [cleanupRetiredTopic_eq, if_neg hretiring]
  by_cases hmem : name ∈ broker.topics
  · refine ⟨cleaned broker name, run_bind_eq_ok.2 ⟨(), _, hclean, ?_⟩,
      Or.inl ⟨hmem, cleaned_topics⟩⟩
    refine run_bind_eq_ok.2 ⟨_, _, rfl, ?_⟩
    rw [cleaned_topics, if_pos hmem]
    rfl
  · have hfull : ¬broker.settings.maxTopics ≤ broker.topics.size := fun hle => hlimit ⟨hmem, hle⟩
    have hnew : ((cleaned broker name).addTopic name).topics[name]? =
        some (Topic.create name broker.settings.maxSegmentBytes broker.settings.maxAckGap
          broker.settings.featureLevel) := by
      rw [addTopic, getElem?_insert_eq, if_pos rfl, cleaned_settings]
    obtain ⟨b₁, hset, state, hstate, hdeleted, hchannels, hunrouted⟩ : ∃ b₁,
        setInitialPolicy name policy ((cleaned broker name).addTopic name) = .ok () b₁ ∧
        ∃ state, b₁.topics[name]? = some state ∧ state.manifest.deleted = false ∧
          state.channels = ∅ ∧ state.manifest.unroutedFromPosition = some 1 := by
      cases policy with
      | none => exact ⟨_, rfl, _, hnew, rfl, rfl, rfl⟩
      | some p =>
        obtain ⟨changed, state, writes, hok, hdeleted, hchannels, hunrouted⟩ :=
          setPolicy_of_valid (Topic.create name broker.settings.maxSegmentBytes
            broker.settings.maxAckGap broker.settings.featureLevel) (hpolicy p rfl)
        refine ⟨_, run_bind_eq_ok.2 ⟨_, _, onTopic_of_ok hnew hok, rfl⟩, state, ?_, hdeleted,
          hchannels, hunrouted⟩
        rw [withTopic, getElem?_insert_eq, if_pos rfl]
    refine ⟨{ b₁ with registryRevision := satSucc b₁.registryRevision },
      run_bind_eq_ok.2 ⟨(), _, hclean, ?_⟩, Or.inr ⟨hmem, state, hstate, hdeleted, hchannels, hunrouted⟩⟩
    refine run_bind_eq_ok.2 ⟨_, _, rfl, ?_⟩
    rw [cleaned_topics, cleaned_settings, if_neg hmem, if_neg hfull]
    exact run_bind_eq_ok.2 ⟨_, _, rfl, run_bind_eq_ok.2 ⟨_, _, hset, rfl⟩⟩

end Create

/-! ### Operations that do not fail -/

variable {topic : Topic} {channel : String}

theorem persistChannel_of_mem (h : channel ∈ topic.channels) (command : Channel.ChannelCommand) :
    ∃ topic' writes, topic.persistChannel channel command = .ok (topic', writes) ∧
      ∀ other, other ∈ topic.channels → other ∈ topic'.channels := by
  obtain ⟨runtime, hruntime⟩ : ∃ runtime, topic.channels[channel]? = some runtime :=
    Option.isSome_iff_exists.1 (by rwa [Std.ExtTreeMap.isSome_getElem?_iff_mem])
  unfold Topic.persistChannel Topic.onChannel Topic.channel
  rw [hruntime]
  refine ⟨_, _, rfl, fun other hother => ?_⟩
  rw [Topic.setChannel, Std.ExtTreeMap.mem_insert]
  exact Or.inr hother

theorem persistChannel_isOk (h : channel ∈ topic.channels) (command : Channel.ChannelCommand) :
    ∃ topic' writes, topic.persistChannel channel command = .ok (topic', writes) := by
  obtain ⟨topic', writes, hok, -⟩ := persistChannel_of_mem h command
  exact ⟨topic', writes, hok⟩

theorem forEach_persistChannel_isOk (command : Channel.ChannelCommand) {names : List String}
    (h : ∀ name ∈ names, name ∈ topic.channels) :
    ∃ topic' writes, Outcome.forEach (fun topic name => topic.persistChannel name command) topic names =
      .ok (topic', writes) := by
  induction names generalizing topic with
  | nil => exact ⟨topic, [], rfl⟩
  | cons name names ih =>
    obtain ⟨topic₁, writes, hfirst, hkept⟩ :=
      persistChannel_of_mem (h name List.mem_cons_self) command
    have hmem : ∀ other ∈ names, other ∈ topic₁.channels :=
      fun other hother => hkept other (h other (List.mem_cons_of_mem _ hother))
    obtain ⟨topic₂, more, hrest⟩ := ih hmem
    refine ⟨topic₂, writes ++ more, ?_⟩
    rw [Outcome.forEach, hfirst]
    dsimp only [Outcome.andThen]
    rw [hrest]

theorem setUnroutedFromPosition_isOk (topic : Topic) (position : Option ℕ) :
    ∃ topic' writes, topic.setUnroutedFromPosition position = .ok (topic', writes) ∧
      topic'.channels = topic.channels := by
  unfold Topic.setUnroutedFromPosition
  split_ifs
  · exact ⟨_, _, rfl, rfl⟩
  · exact ⟨_, _, rfl, rfl⟩

theorem emptyTopic_isOk {order : List String} (h : ∀ name ∈ order, name ∈ topic.channels) :
    ∃ topic' writes, topic.emptyTopic order = .ok (topic', writes) := by
  obtain ⟨topic₁, writes, hall⟩ := forEach_persistChannel_isOk (.empty topic.lastPosition) h
  unfold Topic.emptyTopic
  dsimp only
  rw [hall]
  dsimp only [Outcome.andThen]
  split_ifs
  · exact ⟨_, _, rfl⟩
  · obtain ⟨topic₂, more, hset, -⟩ :=
      setUnroutedFromPosition_isOk topic₁ (some topic₁.manifest.nextPosition)
    rw [hset]
    exact ⟨_, _, rfl⟩

theorem deleteChannel_isOk (h : channel ∈ topic.channels) :
    ∃ topic' writes, topic.deleteChannel channel = .ok (topic', writes) := by
  obtain ⟨runtime, hruntime⟩ : ∃ runtime, topic.channels[channel]? = some runtime :=
    Option.isSome_iff_exists.1 (by rwa [Std.ExtTreeMap.isSome_getElem?_iff_mem])
  obtain ⟨topic₁, writes, hhold⟩ : ∃ topic₁ writes,
      topic.holdUnrouted (topic.lastDurable runtime) = .ok (topic₁, writes) := by
    unfold Topic.holdUnrouted
    split_ifs
    · obtain ⟨topic₁, writes, hset, -⟩ :=
        setUnroutedFromPosition_isOk topic (some topic.manifest.nextPosition)
      exact ⟨topic₁, writes, hset⟩
    · exact ⟨_, _, rfl⟩
  refine ⟨_, _, bind_eq_ok.2 ⟨runtime, ?_, bind_eq_ok.2 ⟨_, hhold, rfl⟩⟩⟩
  rw [Topic.channel, hruntime]

/-- A new channel is refused only by the topic's own limits, or with a storage error. -/
theorem createChannel_error {cutoff : ℤ} {e : BrokerError}
    (h : topic.createChannel channel cutoff = .error e) (he : e.isStorageError = false) :
    topic.manifest.deleted = true ∨
      (channel ∉ topic.channels ∧ maxChannelsPerTopic ≤ topic.channels.size) := by
  unfold Topic.createChannel at h
  split_ifs at h with hdeleted hmem hlimit
  · exact Or.inl hdeleted
  · exact Or.inr ⟨hmem, hlimit⟩
  obtain hbarrier | ⟨barrier, -, h⟩ := bind_eq_error.1 h
  · obtain hunexpired | ⟨position, -, hmax⟩ := bind_eq_error.1 hbarrier
    · unfold Topic.unexpiredBarrier at hunexpired
      split_ifs at hunexpired
      obtain hstart | ⟨start, -, hpure⟩ := bind_eq_error.1 hunexpired
      · unfold Topic.unroutedStartPosition at hstart
        split at hstart
        · cases hstart
        · cases hstart
          cases he
      · cases hpure
    · cases hmax
  · obtain hrelease | ⟨released, -, hpure⟩ := bind_eq_error.1 h
    · unfold Topic.releaseUnrouted at hrelease
      split_ifs at hrelease
      obtain ⟨topic₁, writes, hset, -⟩ := setUnroutedFromPosition_isOk topic none
      rw [hset] at hrelease
      cases hrelease
    · cases hpure

theorem createChannel_of_limited (cutoff : ℤ) (h : topic.manifest.deleted = true ∨
      (channel ∉ topic.channels ∧ maxChannelsPerTopic ≤ topic.channels.size)) :
    ∃ e, topic.createChannel channel cutoff = .error e ∧ e.isStorageError = false := by
  unfold Topic.createChannel
  by_cases hdeleted : topic.manifest.deleted = true
  · rw [if_pos hdeleted]
    exact ⟨_, rfl, rfl⟩
  · obtain ⟨hmem, hlimit⟩ := h.resolve_left hdeleted
    rw [if_neg hdeleted, if_neg hmem, if_pos hlimit]
    exact ⟨_, rfl, rfl⟩

/-! ### Actions on a topic -/

theorem validate_eq_ok {policy valid : TopicPolicy} (h : policy.validate = .ok valid) :
    valid = policy := by
  unfold TopicPolicy.validate at h
  split at h
  · cases h
    rfl
  · cases h
  · split_ifs at h
    cases h
    rfl
  · cases h

theorem validatePolicy_valid {action : TopicAction} {given policy : Option TopicPolicy}
    (h : validatePolicy action given = .ok policy) : ∀ p ∈ policy, p.validate = .ok p := by
  have hvalid : ∀ p : TopicPolicy, ∀ q, p.validate = .ok q → q.validate = .ok q := by
    intro p q hq
    obtain rfl := validate_eq_ok hq
    exact hq
  unfold validatePolicy at h
  split at h
  · split at h
    · cases h
    · rename_i hq
      cases h
      rintro p ⟨rfl⟩
      exact hvalid _ _ hq
  · cases h
  · split at h
    · cases h
    · rename_i hq
      cases h
      rintro p ⟨rfl⟩
      exact hvalid _ _ hq
  · cases h
  · cases h
    rintro p ⟨⟩

theorem noPolicy_valid : ∀ p ∈ (none : Option TopicPolicy), p.validate = .ok p := by
  intro p hp
  cases hp

/-- A new tombstone is refused at a later reading of the clock exactly when it lapses. -/
theorem tombstoneLapses_of_error {moment : Moment} {reading : ℕ} {value : Option ℤ} {e : BrokerError}
    {untilMs : ℤ} (hchecked : validTombstone value false (moment.nowMs 0) = .ok untilMs)
    (h : validTombstone value false (moment.nowMs reading) = .error e) :
    TombstoneLapses moment reading value := by
  obtain ⟨hvalue, hfuture⟩ := validTombstone_eq_ok.1 hchecked
  have hfuture := hfuture.resolve_left (by decide)
  refine ⟨untilMs, hvalue, hfuture, not_lt.1 fun hlt => ?_⟩
  rw [validTombstone_eq_ok.2 ⟨hvalue, Or.inr hlt⟩] at h
  cases h

theorem TombstoneLapses.checked {moment : Moment} {reading : ℕ} {value : Option ℤ}
    (h : TombstoneLapses moment reading value) :
    (∃ untilMs, validTombstone value false (moment.nowMs 0) = .ok untilMs) ∧
      validTombstone value false (moment.nowMs reading) = .error .invalidTombstone := by
  obtain ⟨untilMs, hvalue, hfuture, hlapsed⟩ := h
  rw [Option.mem_def] at hvalue
  refine ⟨⟨untilMs, validTombstone_eq_ok.2 ⟨hvalue, Or.inr hfuture⟩⟩, ?_⟩
  subst hvalue
  unfold validTombstone
  dsimp only
  rw [if_neg]
  rintro (h | h)
  · cases h
  · exact absurd h (not_lt.2 hlapsed)

section TopicAction

variable {broker broker' : Broker} {moment : Moment} {command : TopicCommand}
  {policy : Option TopicPolicy} {e : BrokerError}

theorem ofExcept_of_ok {α : Type} {result : Except BrokerError α} {a : α} (h : result = .ok a) :
    ofExcept result broker = .ok a broker := by
  rw [h]
  rfl

theorem ofExcept_of_error {α : Type} {result : Except BrokerError α} (h : result = .error e) :
    ofExcept result broker = .error e broker := by
  rw [h]
  rfl

theorem validTombstone_of_check {value : Option ℤ} {nowMs : ℤ}
    (h : (do let _ ← ofExcept (validTombstone value false nowMs) : Task Unit) broker = .ok () broker') :
    ∃ untilMs, validTombstone value false nowMs = .ok untilMs := by
  obtain ⟨untilMs, b₁, hvalid, -⟩ := run_bind_eq_ok.1 h
  cases hresult : validTombstone value false nowMs with
  | error e =>
    rw [hresult] at hvalid
    cases hvalid
  | ok untilMs => exact ⟨untilMs, rfl⟩

theorem mem_of_requireTopic {name : String} (h : requireTopic name broker = .ok () broker') :
    ∃ topic, broker.topics[name]? = some topic := by
  obtain ⟨b, b₁, hget, h⟩ := run_bind_eq_ok.1 h
  cases hget
  split_ifs at h with hmem
  · exact Option.isSome_iff_exists.1 (by rwa [Std.ExtTreeMap.isSome_getElem?_iff_mem])
  · cases h

/-- A sequence whose first step succeeds and whose second cannot fail. -/
theorem not_error_of_ok {α β : Type} {x : Task α} {f : α → Task β} {a : α} {b₁ : Broker}
    (hx : x broker = .ok a b₁) (hf : f a b₁ ≠ .error e broker') :
    (x >>= f) broker ≠ .error e broker' := by
  intro h
  obtain herror | ⟨a', b₂, hok, herror⟩ := run_bind_eq_error.1 h
  · rw [hx] at herror
    cases herror
  · rw [hx] at hok
    cases hok
    exact hf herror

theorem pure_ne_error {α : Type} (a : α) (e : BrokerError) (b' : Broker) :
    (pure a : Task α) broker ≠ .error e b' := by
  intro h
  cases h

variable {operation : Topic → Topic.Outcome}

theorem silent_of_ok {topic' : Topic} {writes : List Write} (h : operation topic = .ok (topic', writes)) :
    silent operation topic = .ok ((), topic', writes) := by
  rw [silent, h]
  rfl

theorem onTopic_silent_isOk {name : String} (h : broker.topics[name]? = some topic)
    (hok : ∃ topic' writes, operation topic = .ok (topic', writes)) :
    ∃ b', onTopic name (silent operation) broker = .ok () b' := by
  obtain ⟨topic', writes, hok⟩ := hok
  exact ⟨_, onTopic_of_ok h (silent_of_ok hok)⟩

/-- An operation on a topic that succeeds, as an action of its own. -/
theorem onTopic_silent_ne_error {name : String} (h : broker.topics[name]? = some topic)
    (hok : ∃ topic' writes, operation topic = .ok (topic', writes)) :
    (do onTopic name (silent operation); return true : Task Bool) broker ≠ .error e broker' := by
  obtain ⟨b₁, hrun⟩ := onTopic_silent_isOk h hok
  exact not_error_of_ok hrun (pure_ne_error true _ _)

theorem deleteTopicLocked_isOk (name : String) :
    ∃ answer b', deleteTopicLocked moment name broker = .ok answer b' := by
  cases htopic : broker.topics[name]? with
  | none => exact ⟨_, _, deleteTopicLocked_of_none moment htopic⟩
  | some topic => exact ⟨_, _, deleteTopicLocked_of_some moment htopic⟩

theorem deleteIf_isOk (delete : Bool) (name : String) :
    ∃ answer b', deleteIf moment delete name broker = .ok answer b' := by
  cases delete with
  | true => exact deleteTopicLocked_isOk name
  | false => exact ⟨false, broker, rfl⟩

theorem tombstone_error {until' : Except BrokerError ℤ} {f : ℤ → Task Bool}
    (hf : ∀ untilMs b e b', f untilMs b ≠ .error e b')
    (h : (ofExcept until' >>= f) broker = .error e broker') : until' = .error e := by
  cases until' with
  | error e' =>
    obtain herror | ⟨_, _, hok, -⟩ := run_bind_eq_error.1 h
    · cases herror
      rfl
    · cases hok
  | ok untilMs => exact absurd h (not_error_of_ok rfl (hf untilMs _ _ _))

/-- **The action of a new call about a topic** fails only when it is refused. -/
theorem actOnTopic_error {operationId topic : String} {fingerprint : Fingerprint}
    (hpolicy : ∀ p ∈ policy, p.validate = .ok p)
    (hchecked : checkTopic moment command false broker = .ok () broker)
    (h : actOnTopic moment command policy false (broker.withPending operationId topic fingerprint) =
      .error e broker') :
    TopicActionRefused broker moment command := by
  have hset : (policy.getD ⟨.reliable, none⟩).validate = .ok (policy.getD ⟨.reliable, none⟩) := by
    cases policy with
    | none => rfl
    | some p => exact hpolicy p rfl
  -- the action meets the topics that the checks have seen
  have hsame : ∀ {name : String} {state : Topic}, broker.topics[name]? = some state →
      (broker.withPending operationId topic fingerprint).topics[name]? = some state := fun h => h
  unfold checkTopic at hchecked
  rw [if_neg (by decide)] at hchecked
  unfold actOnTopic at h
  unfold TopicActionRefused
  cases haction : command.action with
  | create =>
    simp only [haction] at h
    by_contra hroom
    obtain hget | ⟨b, b₁, hget, h⟩ := run_bind_eq_error.1 h
    · cases hget
    cases hget
    have hinitial : ∀ existed : Bool, ∀ p ∈ (if existed then none else policy : Option TopicPolicy),
        p.validate = .ok p := by
      rintro (_ | _) p hp
      · exact hpolicy p hp
      · cases hp
    have hroom' : ¬NoRoom (broker.withPending operationId topic fingerprint) moment command.topic :=
      hroom
    obtain ⟨b₂, hcreated, hthere⟩ := getOrCreateTopicLockedWithPolicy_of_room hroom'
      (hinitial (decide (command.topic ∈ broker.topics)))
    obtain ⟨state, hstate⟩ : ∃ state, b₂.topics[command.topic]? = some state := by
      rcases hthere with ⟨hmem, hkept⟩ | ⟨-, state, hstate, -⟩
      · rw [hkept]
        exact Option.isSome_iff_exists.1 (by rwa [Std.ExtTreeMap.isSome_getElem?_iff_mem])
      · exact ⟨state, hstate⟩
    obtain ⟨changed, state', writes, hpolicySet, -⟩ := setPolicy_of_valid state hset
    refine absurd h (not_error_of_ok hcreated ?_)
    refine not_error_of_ok (onTopic_of_ok hstate hpolicySet) ?_
    exact not_error_of_ok (by rfl) (pure_ne_error _ _ _)
  | configure =>
    simp only [haction] at h hchecked
    obtain ⟨state, hstate⟩ := mem_of_requireTopic hchecked
    obtain ⟨changed, state', writes, hpolicySet, -⟩ := setPolicy_of_valid state hset
    rw [onTopic_of_ok (hsame hstate) hpolicySet] at h
    cases h
  | pause | unpause =>
    simp only [haction] at h hchecked
    obtain ⟨state, hstate⟩ := mem_of_requireTopic hchecked
    exact absurd h (onTopic_silent_ne_error (hsame hstate) ⟨_, _, rfl⟩)
  | empty =>
    simp only [haction] at h hchecked
    obtain ⟨state, hstate⟩ := mem_of_requireTopic hchecked
    exact absurd h (onTopic_silent_ne_error (hsame hstate) (emptyTopic_isOk (moment.order_mem state)))
  | delete | tombstone =>
    simp only [haction] at h hchecked
    obtain ⟨untilMs, hvalid⟩ := validTombstone_of_check hchecked
    refine tombstoneLapses_of_error hvalid (tombstone_error (fun untilMs b e b' => ?_) h)
    refine not_error_of_ok rfl ?_
    obtain ⟨answer, b₂, hdeleted⟩ := deleteIf_isOk _ command.topic
    exact not_error_of_ok hdeleted (pure_ne_error _ _ _)

/-- A refused action fails, and passes the checks before. -/
theorem actOnTopic_of_refused (h : TopicActionRefused broker moment command)
    (policy : Option TopicPolicy) (operationId topic : String) (fingerprint : Fingerprint) :
    checkTopic moment command false broker = .ok () broker ∧
      ∃ e b', actOnTopic moment command policy false
        (broker.withPending operationId topic fingerprint) = .error e b' ∧ e.isStorageError = false := by
  unfold TopicActionRefused at h
  unfold checkTopic actOnTopic
  cases haction : command.action with
  | create =>
    simp only [haction] at h ⊢
    have hroom : NoRoom (broker.withPending operationId topic fingerprint) moment command.topic := h
    obtain ⟨e, b', herror, he⟩ := getOrCreateTopicLockedWithPolicy_of_noRoom hroom
    exact ⟨rfl, e, b', run_bind_eq_error.2 (Or.inr ⟨_, _, rfl, run_bind_eq_error.2 (Or.inl herror)⟩), he⟩
  | configure | pause | unpause | empty =>
    simp only [haction] at h
  | delete | tombstone =>
    simp only [haction] at h ⊢
    obtain ⟨⟨untilMs, hfuture⟩, hlapsed⟩ := h.checked
    exact ⟨run_bind_eq_ok.2 ⟨_, _, ofExcept_of_ok hfuture, rfl⟩, .invalidTombstone, _,
      run_bind_eq_error.2 (Or.inl (ofExcept_of_error hlapsed)), rfl⟩

end TopicAction

/-! ### Actions on a channel -/

section ChannelAction

variable {broker broker' : Broker} {moment : Moment} {command : ChannelCommand} {e : BrokerError}

theorem mem_of_requireChannel {topic : String}
    (h : requireChannel topic channel broker = .ok () broker') :
    ∃ state, broker.topics[topic]? = some state ∧ channel ∈ state.channels := by
  obtain ⟨b, b₁, hget, h⟩ := run_bind_eq_ok.1 h
  cases hget
  cases hstate : broker.topics[topic]? with
  | none =>
    rw [hstate] at h
    cases h
  | some state =>
    rw [hstate] at h
    dsimp only at h
    split_ifs at h with hmem
    · exact ⟨state, rfl, hmem⟩
    · cases h

/-- A new operation passes the check of an idle channel exactly when the channel is idle. -/
theorem checkIdle_eq_ok : checkIdle moment command false broker = .ok () broker ↔
    IsIdle broker moment command.topic command.channel := by
  constructor
  · intro h
    obtain ⟨b, b₁, hget, h⟩ := run_bind_eq_ok.1 h
    cases hget
    cases hstate : broker.topics[command.topic]? with
    | none =>
      rw [hstate] at h
      cases h
    | some state =>
      rw [hstate] at h
      dsimp only at h
      by_cases hmem : command.channel ∈ state.channels
      · rw [if_pos hmem] at h
        cases hcounts : state.channelCounts command.channel (moment.nowMs 1) with
        | error e =>
          rw [hcounts] at h
          cases h
        | ok counts =>
          obtain ⟨depth, inFlight, deferred⟩ := counts
          rw [hcounts] at h
          dsimp only at h
          split_ifs at h with hbusy
          · cases h
          · simp only [not_or, ne_eq, not_not] at hbusy
            obtain ⟨rfl, rfl, rfl⟩ := hbusy
            exact ⟨state, hstate, hmem, hcounts⟩
      · rw [if_neg hmem] at h
        cases h
  · rintro ⟨state, hstate, hmem, hcounts⟩
    refine run_bind_eq_ok.2 ⟨broker, broker, rfl, ?_⟩
    rw [Option.mem_def.1 hstate]
    dsimp only
    rw [if_pos hmem, hcounts]
    rfl

theorem deleteChannelIf_isOk (delete : Bool) (topic channel : String) :
    ∃ answer b', deleteChannelIf delete topic channel broker = .ok answer b' := by
  unfold deleteChannelIf
  by_cases hdelete : delete = true ∧
      ((broker.topics[topic]?).any fun state => decide (channel ∈ state.channels)) = true
  · obtain ⟨state, hstate, hmem⟩ : ∃ state, broker.topics[topic]? = some state ∧
        channel ∈ state.channels := by
      obtain ⟨-, hany⟩ := hdelete
      cases hstate : broker.topics[topic]? with
      | none =>
        rw [hstate] at hany
        cases hany
      | some state =>
        rw [hstate] at hany
        exact ⟨state, rfl, of_decide_eq_true hany⟩
    obtain ⟨state', writes, hdeleted⟩ := deleteChannel_isOk hmem
    refine ⟨true, broker.withTopic topic state' writes, run_bind_eq_ok.2 ⟨broker, broker, rfl, ?_⟩⟩
    rw [if_pos hdelete]
    exact run_bind_eq_ok.2 ⟨(), _, onTopic_of_ok hstate (silent_of_ok hdeleted), rfl⟩
  · refine ⟨false, broker, run_bind_eq_ok.2 ⟨broker, broker, rfl, ?_⟩⟩
    rw [if_neg hdelete]
    rfl

/-- **The action of a new call about a channel** fails, if not with a storage error, only when it is
refused. -/
theorem actOnChannel_error {operationId topic : String} {fingerprint : Fingerprint}
    (hchecked : checkChannel moment command false broker = .ok () broker)
    (h : actOnChannel moment command false (broker.withPending operationId topic fingerprint) =
      .error e broker') (he : e.isStorageError = false) :
    ChannelActionRefused broker moment command := by
  have hsame : ∀ {name : String} {state : Topic}, broker.topics[name]? = some state →
      (broker.withPending operationId topic fingerprint).topics[name]? = some state := fun h => h
  obtain ⟨_, b₁, hnew, hidle⟩ := run_bind_eq_ok.1 hchecked
  obtain rfl : broker = b₁ := ((leaves_checkNewChannel moment command false).of_ok hnew).symm
  unfold checkNewChannel at hnew
  rw [if_neg (by decide)] at hnew
  unfold actOnChannel at h
  unfold ChannelActionRefused
  cases haction : command.action with
  | create =>
    simp only [haction] at h
    by_contra hrefused
    obtain ⟨hroom, hlimited⟩ := not_or.1 hrefused
    have hroom' : ¬NoRoom (broker.withPending operationId topic fingerprint) moment command.topic :=
      hroom
    obtain ⟨b₂, hcreated, hthere⟩ := getOrCreateTopicLockedWithPolicy_of_room hroom' noPolicy_valid
    obtain ⟨state, hstate, hfree⟩ : ∃ state, b₂.topics[command.topic]? = some state ∧
        ¬(state.manifest.deleted = true ∨
          (command.channel ∉ state.channels ∧ maxChannelsPerTopic ≤ state.channels.size)) := by
      rcases hthere with ⟨hmem, hkept⟩ | ⟨-, state, hstate, hlive, hchannels, -⟩
      · obtain ⟨state, hstate⟩ : ∃ state, broker.topics[command.topic]? = some state :=
          Option.isSome_iff_exists.1 (by rwa [Std.ExtTreeMap.isSome_getElem?_iff_mem])
        rw [hkept]
        exact ⟨state, hstate, fun hlimit => hlimited ⟨state, hstate, hlimit⟩⟩
      · refine ⟨state, hstate, ?_⟩
        rw [hlive, hchannels]
        rintro (hdeleted | ⟨-, hlimit⟩)
        · cases hdeleted
        · exact absurd hlimit (by decide)
    refine absurd h (not_error_of_ok hcreated ?_)
    intro h
    obtain herror | ⟨answer, b₃, -, herror⟩ := run_bind_eq_error.1 h
    · cases hcreate : state.createChannel command.channel moment.cutoffNs with
      | ok created =>
        rw [onTopic_of_ok hstate hcreate] at herror
        cases herror
      | error e' =>
        rw [onTopic_of_error hstate hcreate] at herror
        cases herror
        exact hfree (createChannel_error hcreate he)
    · exact absurd herror (not_error_of_ok (by rfl) (pure_ne_error _ _ _))
  | pause | unpause | empty =>
    simp only [haction] at h hnew
    obtain ⟨state, hstate, hmem⟩ := mem_of_requireChannel hnew
    have hpersisted := persistChannel_isOk hmem
    exact absurd h (onTopic_silent_ne_error (hsame hstate) (hpersisted _))
  | delete | tombstone =>
    simp only [haction] at h hnew
    obtain ⟨untilMs, hvalid⟩ := validTombstone_of_check hnew
    have hlapses : TombstoneLapses moment 2 command.tombstoneUntilMs := by
      refine tombstoneLapses_of_error hvalid (tombstone_error (fun untilMs b e b' => ?_) h)
      refine not_error_of_ok rfl ?_
      obtain ⟨answer, b₂, hdeleted⟩ := deleteChannelIf_isOk _ command.topic command.channel
      exact not_error_of_ok hdeleted (pure_ne_error _ _ _)
    first
    | exact hlapses
    | refine ⟨hlapses, fun hrequired => checkIdle_eq_ok.1 ?_⟩
      unfold checkIdleDelete at hidle
      rwa [if_pos ⟨haction, hrequired⟩] at hidle

/-- A refused action fails, and passes the checks before. -/
theorem actOnChannel_of_refused (h : ChannelActionRefused broker moment command)
    (operationId topic : String) (fingerprint : Fingerprint) :
    checkChannel moment command false broker = .ok () broker ∧
      ∃ e b', actOnChannel moment command false
        (broker.withPending operationId topic fingerprint) = .error e b' ∧ e.isStorageError = false := by
  unfold ChannelActionRefused at h
  unfold checkChannel checkNewChannel checkIdleDelete actOnChannel
  rw [if_neg (by decide)]
  cases haction : command.action with
  | create =>
    simp only [haction] at h ⊢
    refine ⟨run_bind_eq_ok.2 ⟨(), broker, rfl, ?_⟩, ?_⟩
    · rw [if_neg (fun hdelete => nomatch hdelete.1)]
      rfl
    by_cases hroom : NoRoom (broker.withPending operationId topic fingerprint) moment command.topic
    · obtain ⟨e, b', herror, he⟩ := getOrCreateTopicLockedWithPolicy_of_noRoom hroom
      exact ⟨e, b', run_bind_eq_error.2 (Or.inl herror), he⟩
    · obtain ⟨state, hstate, hlimited⟩ := h.resolve_left hroom
      obtain ⟨b₂, hcreated, ⟨-, hkept⟩ | ⟨habsent, -⟩⟩ :=
        getOrCreateTopicLockedWithPolicy_of_room hroom noPolicy_valid
      · obtain ⟨e, herror, he⟩ := createChannel_of_limited moment.cutoffNs hlimited
        have hstate : b₂.topics[command.topic]? = some state := by
          rw [hkept]
          exact hstate
        refine ⟨e, b₂, run_bind_eq_error.2 (Or.inr ⟨(), b₂, hcreated, ?_⟩), he⟩
        exact run_bind_eq_error.2 (Or.inl (onTopic_of_error hstate herror))
      · refine absurd ?_ habsent
        exact Std.ExtTreeMap.mem_iff_isSome_getElem?.2 (Option.isSome_of_mem hstate)
  | pause | unpause | empty =>
    simp only [haction] at h
  | delete =>
    simp only [haction] at h ⊢
    obtain ⟨hlapses, hidle⟩ := h
    obtain ⟨⟨untilMs, hfuture⟩, hlapsed⟩ := hlapses.checked
    refine ⟨run_bind_eq_ok.2 ⟨(), broker, ?_, ?_⟩, .invalidTombstone, _,
      run_bind_eq_error.2 (Or.inl (ofExcept_of_error hlapsed)), rfl⟩
    · exact run_bind_eq_ok.2 ⟨_, _, ofExcept_of_ok hfuture, rfl⟩
    · split_ifs with hrequired
      · exact checkIdle_eq_ok.2 (hidle hrequired.2)
      · rfl
  | tombstone =>
    simp only [haction] at h ⊢
    obtain ⟨⟨untilMs, hfuture⟩, hlapsed⟩ := h.checked
    refine ⟨run_bind_eq_ok.2 ⟨(), broker, ?_, ?_⟩, .invalidTombstone, _,
      run_bind_eq_error.2 (Or.inl (ofExcept_of_error hlapsed)), rfl⟩
    · exact run_bind_eq_ok.2 ⟨_, _, ofExcept_of_ok hfuture, rfl⟩
    · rw [if_neg (fun hdelete => nomatch hdelete.1)]
      rfl

end ChannelAction

/-! ### Calls -/

/-- The call is a new operation whose action is refused. -/
def Call.Refused (broker : Broker) (moment : Moment) : Call → Prop
  | .topic command => TopicRefused broker moment command
  | .channel command => ChannelRefused broker moment command

section Rejected

variable {broker broker' : Broker} {moment : Moment} {e : BrokerError}

theorem blocksTopic_withPending (operationId topic : String) (fingerprint : Fingerprint) :
    (broker.withPending operationId topic fingerprint).operations.blocksTopic topic = true := by
  refine OperationCatalog.blocksTopic_eq_true.2 ⟨operationId, ⟨fingerprint, topic, .pending, none⟩, ?_,
    rfl, rfl⟩
  rw [withPending, getElem?_insert_eq, if_pos rfl]

/-- **A new operation whose action fails** stays in the catalog and blocks its topic. -/
theorem manage_of_refused {operationId topic : String} {fingerprint : Fingerprint}
    {expectedRevision : ℕ} {check : Bool → Task Unit} {act : Bool → Task Bool}
    (hact : ∀ replayed, Leaves SameOperations (act replayed))
    (hfresh : Fresh broker operationId topic expectedRevision)
    (hcheck : check false broker = .ok () broker)
    (hfails : ∃ e b', act false (broker.withPending operationId topic fingerprint) = .error e b' ∧
      e.isStorageError = false) :
    ∃ e b', manage operationId topic fingerprint expectedRevision check act broker = .error e b' ∧
      e.isStorageError = false ∧ b'.operations.blocksTopic topic = true := by
  obtain ⟨e, b', hfails, he⟩ := hfails
  refine ⟨e, b', ?_, he, ?_⟩
  · refine run_bind_eq_error.2 (Or.inr ⟨_, _, hfresh.findOperation fingerprint, ?_⟩)
    refine run_bind_eq_error.2 (Or.inr ⟨_, _, hcheck, ?_⟩)
    refine run_bind_eq_error.2 (Or.inr ⟨_, _, hfresh.prepareManagementOperation fingerprint, ?_⟩)
    exact run_bind_eq_error.2 (Or.inl hfails)
  · have hsame : b'.operations = _ := (hact false).of_error hfails
    rw [hsame]
    exact blocksTopic_withPending operationId topic fingerprint

/-- What a failed call leaves of the block on its topic, for any checks and any action. -/
theorem manage_blocksTopic_iff {operationId topic : String} {fingerprint : Fingerprint}
    {expectedRevision : ℕ} {check : Bool → Task Unit} {act : Bool → Task Bool} {Refused : Prop}
    (hcheck : ∀ pending, Leaves Unchanged (check pending))
    (hact : ∀ replayed, Leaves SameOperations (act replayed))
    (hfails : check false broker = .ok () broker →
      act false (broker.withPending operationId topic fingerprint) = .error e broker' → Refused)
    (hrefused : Refused → check false broker = .ok () broker ∧
      ∃ e b', act false (broker.withPending operationId topic fingerprint) = .error e b' ∧
        e.isStorageError = false)
    (h : manage operationId topic fingerprint expectedRevision check act broker = .error e broker')
    (he : e.isStorageError = false) :
    broker'.operations.blocksTopic topic = broker.operations.blocksTopic topic ↔
      ¬(Fresh broker operationId topic expectedRevision ∧ Refused) := by
  constructor
  · rintro hsame ⟨hfresh, hrefusal⟩
    obtain ⟨hchecked, hacted⟩ := hrefused hrefusal
    obtain ⟨e', b', herror, -, hblocks⟩ := manage_of_refused hact hfresh hchecked hacted
    rw [h] at herror
    cases herror
    rw [hblocks, hfresh.free] at hsame
    cases hsame
  · intro hnot
    obtain hsame | ⟨hfresh, hchecked, -, hacted | hstorage⟩ := manage_error hcheck hact h
    · rw [hsame]
    · exact absurd ⟨hfresh, hfails hchecked hacted⟩ hnot
    · rw [he] at hstorage
      cases hstorage

theorem checkedName_eq_ok {name : String} {error : BrokerError} :
    checkedName name error = .ok () ↔ validateName name = .ok () := by
  unfold checkedName
  cases hname : validateName name with
  | error reason => simp
  | ok value => simp

/-- A step that an argument does not pass ends the call where it was. -/
theorem ofExcept_bind_error {α β : Type} {result : Except BrokerError α} {f : α → Task β}
    (h : (ofExcept result >>= f) broker = .error e broker') :
    (broker' = broker ∧ result = .error e) ∨ ∃ a, result = .ok a ∧ f a broker = .error e broker' := by
  cases result with
  | error e' =>
    obtain herror | ⟨a, b₁, hok, -⟩ := run_bind_eq_error.1 h
    · cases herror
      exact Or.inl ⟨rfl, rfl⟩
    · cases hok
  | ok a =>
    obtain herror | ⟨a', b₁, hok, herror⟩ := run_bind_eq_error.1 h
    · cases herror
    · cases hok
      exact Or.inr ⟨a, rfl, herror⟩

theorem manageTopic_blocksTopic_iff {command : TopicCommand}
    (h : manageTopic moment command broker = .error e broker') (he : e.isStorageError = false) :
    broker'.operations.blocksTopic command.topic = broker.operations.blocksTopic command.topic ↔
      ¬TopicRefused broker moment command := by
  obtain ⟨rfl, hname⟩ | ⟨_, hname, hrest⟩ := ofExcept_bind_error h
  · refine iff_of_true rfl fun hrefused => ?_
    rw [checkedName_eq_ok.2 hrefused.1] at hname
    cases hname
  obtain ⟨rfl, hpolicy⟩ | ⟨policy, hpolicy, hmanage⟩ := ofExcept_bind_error hrest
  · refine iff_of_true rfl ?_
    rintro ⟨-, ⟨policy, hvalid⟩, -⟩
    rw [hvalid] at hpolicy
    cases hpolicy
  have hiff := manage_blocksTopic_iff (leaves_checkTopic moment command)
    (leaves_actOnTopic moment command policy)
    (fun hchecked hacted => actOnTopic_error (validatePolicy_valid hpolicy) hchecked hacted)
    (fun hrefused => actOnTopic_of_refused hrefused policy _ _ _) hmanage he
  rw [hiff, TopicRefused]
  exact not_congr ⟨fun ⟨hfresh, hrefused⟩ =>
    ⟨checkedName_eq_ok.1 hname, ⟨policy, hpolicy⟩, hfresh, hrefused⟩,
    fun ⟨_, _, hfresh, hrefused⟩ => ⟨hfresh, hrefused⟩⟩

theorem manageChannel_blocksTopic_iff {command : ChannelCommand}
    (h : manageChannel moment command broker = .error e broker') (he : e.isStorageError = false) :
    broker'.operations.blocksTopic command.topic = broker.operations.blocksTopic command.topic ↔
      ¬ChannelRefused broker moment command := by
  obtain ⟨rfl, hname⟩ | ⟨_, hname, hrest⟩ := ofExcept_bind_error h
  · refine iff_of_true rfl fun hrefused => ?_
    rw [checkedName_eq_ok.2 hrefused.1] at hname
    cases hname
  obtain ⟨rfl, hchannel⟩ | ⟨_, hchannel, hmanage⟩ := ofExcept_bind_error hrest
  · refine iff_of_true rfl fun hrefused => ?_
    rw [checkedName_eq_ok.2 hrefused.2.1] at hchannel
    cases hchannel
  have hiff := manage_blocksTopic_iff (leaves_checkChannel moment command)
    (leaves_actOnChannel moment command)
    (fun hchecked hacted => actOnChannel_error hchecked hacted he)
    (fun hrefused => actOnChannel_of_refused hrefused _ _ _) hmanage he
  rw [hiff, ChannelRefused]
  exact not_congr ⟨fun ⟨hfresh, hrefused⟩ =>
    ⟨checkedName_eq_ok.1 hname, checkedName_eq_ok.1 hchannel, hfresh, hrefused⟩,
    fun ⟨_, _, hfresh, hrefused⟩ => ⟨hfresh, hrefused⟩⟩

/-- **A rejected call leaves its topic as blocked as it was** exactly when it is not a new operation
whose action is refused. -/
theorem rejected_blocksTopic_iff {call : Call} (h : call.run moment broker = .error e broker')
    (he : e.isStorageError = false) :
    broker'.operations.blocksTopic call.topicName = broker.operations.blocksTopic call.topicName ↔
      ¬call.Refused broker moment := by
  cases call with
  | topic command => exact manageTopic_blocksTopic_iff h he
  | channel command => exact manageChannel_blocksTopic_iff h he

/-- Nothing is in use, and the clock stands still. -/
def quietMoment : Moment where
  nowMs := fun _ => 1000
  inUse := fun _ => false
  order := fun _ => []
  order_mem := fun _ _ h => absurd h List.not_mem_nil
  cutoffNs := 0

/-- A broker that has as many topics as it may, and has raised its revision for the topic. -/
def fullBroker : Broker :=
  { (Broker.empty ⟨1, 1024, 16, 1, false⟩).addTopic "orders" with registryRevision := 3 }

def createEvents (expectedRevision : ℕ) : TopicCommand :=
  ⟨"operation-00000001", "events", .create, expectedRevision, none, none⟩

/-- A call for another revision is rejected, and its topic is not blocked. -/
theorem rejected_blocksTopic_conflict :
    ∃ broker', (Call.topic (createEvents 7)).run quietMoment fullBroker =
        .error (.revisionConflict 7 3) broker' ∧
      (broker'.operations.blocksTopic (Call.topic (createEvents 7)).topicName =
          fullBroker.operations.blocksTopic (Call.topic (createEvents 7)).topicName ↔
        ¬(Call.topic (createEvents 7)).Refused fullBroker quietMoment) := by
  have hrun : (Call.topic (createEvents 7)).run quietMoment fullBroker =
      .error (.revisionConflict 7 3) fullBroker := rfl
  exact ⟨fullBroker, hrun, rejected_blocksTopic_iff hrun rfl⟩

/-- **A call above the limit of topics** is rejected, and then no one can use the topic. -/
theorem rejected_blocksTopic_limit :
    ∃ broker', (Call.topic (createEvents 3)).run quietMoment fullBroker = .error .topicLimit broker' ∧
      fullBroker.operations.blocksTopic "events" = false ∧
      broker'.operations.blocksTopic "events" = true ∧
      fullBroker.ensureManagementAccess "events" none 2000 = .ok () ∧
      broker'.ensureManagementAccess "events" none 2000 = .error .managementUnavailable :=
  ⟨fullBroker.withPending "operation-00000001" "events" (.topic "events" .create (some ⟨.reliable, none⟩)),
    rfl, rfl, rfl, rfl, rfl⟩

end Rejected

end RustQueue.Broker
