import RustQueue.Lib.Counts

/-!
# The discovery directory

The directory remembers the last registry of every broker and keeps four indexes beside them: who takes
publishes, who serves consumers, which consumers own a topic, and how many of them have a channel.
Registries come and go one at a time, and each of them changes the indexes by what it lists.

* `Exact`: the indexes are those of the brokers;
* `Exact.index`, `Exact.deindex`: a registry that comes in, and one that goes;
* `Exact.unique`, `exact_rebuild`: there is one exact set of indexes;
* `kept_run`: every call keeps the indexes exact;
* `indexes_exact`: the indexes are exact after every sequence of calls, and those that would be built
  from the brokers alone.
-/

namespace RustQueue.Discovery

open Lib Std

/-! ### Registries -/

structure RegistryTopic where
  name : String
  paused : Bool
  channels : List String
  storedMessages : ℕ
  deriving DecidableEq, Repr

/-- What a broker says of itself.  The compatibility report is compared and not looked into. -/
structure BrokerRegistry (Report : Type) where
  format : ℕ
  revision : ℕ
  nodeId : ℕ
  ready : Bool
  publishReady : Bool
  consumeReady : Bool
  broadcastAddress : String
  tcpPort : ℕ
  httpPort : ℕ
  storedMessages : ℕ
  depth : ℕ
  inFlight : ℕ
  topics : List RegistryTopic
  compatibility : Option Report
  deriving DecidableEq, Repr

structure BrokerRegistryHead where
  format : ℕ
  revision : ℕ
  nodeId : ℕ
  ready : Bool
  publishReady : Bool
  consumeReady : Bool
  deriving DecidableEq, Repr

structure Observation (Report : Type) where
  registry : BrokerRegistry Report
  seenAt : ℕ

section Model

variable {Endpoint Report : Type} [DecidableEq Endpoint]
  {cmp : Endpoint → Endpoint → Ordering}

/-- Who owns what. -/
structure Indexes (Endpoint : Type) where
  topicOwners : ExtTreeMap String (Finset Endpoint)
  channelOwners : ExtTreeMap String (ExtTreeMap String ℕ)
  publishers : Finset Endpoint
  consumers : Finset Endpoint

structure Directory (Endpoint Report : Type) (cmp : Endpoint → Endpoint → Ordering) where
  endpoints : Finset Endpoint
  brokers : ExtTreeMap Endpoint (Observation Report) cmp
  indexes : Indexes Endpoint

def Indexes.empty : Indexes Endpoint := ⟨∅, ∅, ∅, ∅⟩

def Directory.empty [TransCmp cmp] : Directory Endpoint Report cmp := ⟨∅, ∅, .empty⟩

/-- Whether consumers are sent to a broker. -/
def consumeReady (registry : BrokerRegistry Report) : Bool := registry.consumeReady || registry.ready

/-! ### Indexing -/

namespace Indexes

def indexTopic (endpoint : Endpoint) (indexes : Indexes Endpoint) (topic : RegistryTopic) :
    Indexes Endpoint :=
  { indexes with
    topicOwners := indexes.topicOwners.insert topic.name
      (insert endpoint (indexes.topicOwners[topic.name]?.getD ∅))
    channelOwners := indexes.channelOwners.insert topic.name
      (topic.channels.foldl increment (indexes.channelOwners[topic.name]?.getD ∅)) }

def index (indexes : Indexes Endpoint) (endpoint : Endpoint) (registry : BrokerRegistry Report) :
    Indexes Endpoint :=
  let indexes :=
    if registry.publishReady then { indexes with publishers := insert endpoint indexes.publishers }
    else indexes
  if ¬consumeReady registry then indexes
  else
    registry.topics.foldl (indexTopic endpoint)
      { indexes with consumers := insert endpoint indexes.consumers }

def deindexOwners (endpoint : Endpoint) (topic : RegistryTopic)
    (topicOwners : ExtTreeMap String (Finset Endpoint)) : ExtTreeMap String (Finset Endpoint) :=
  match topicOwners[topic.name]? with
  | none => topicOwners
  | some owners =>
    if owners.erase endpoint = ∅ then topicOwners.erase topic.name
    else topicOwners.insert topic.name (owners.erase endpoint)

def deindexChannels (topic : RegistryTopic) (channelOwners : ExtTreeMap String (ExtTreeMap String ℕ)) :
    ExtTreeMap String (ExtTreeMap String ℕ) :=
  match channelOwners[topic.name]? with
  | none => channelOwners
  | some channels =>
    let channels := topic.channels.foldl decrement channels
    if channels.isEmpty then channelOwners.erase topic.name
    else channelOwners.insert topic.name channels

def deindexTopic (endpoint : Endpoint) (indexes : Indexes Endpoint) (topic : RegistryTopic) :
    Indexes Endpoint :=
  { indexes with
    topicOwners := deindexOwners endpoint topic indexes.topicOwners
    channelOwners := deindexChannels topic indexes.channelOwners }

def deindex (indexes : Indexes Endpoint) (endpoint : Endpoint) (registry : BrokerRegistry Report) :
    Indexes Endpoint :=
  let indexes :=
    { indexes with
      publishers := indexes.publishers.erase endpoint
      consumers := indexes.consumers.erase endpoint }
  if ¬consumeReady registry then indexes else registry.topics.foldl (deindexTopic endpoint) indexes

end Indexes

/-! ### The calls -/

namespace Directory

variable [TransCmp cmp]

variable (state : Directory Endpoint Report cmp)

def add (now : ℕ) (endpoint : Endpoint) (registry : BrokerRegistry Report) :
    Directory Endpoint Report cmp :=
  { state with
    indexes := state.indexes.index endpoint registry
    brokers := state.brokers.insert endpoint ⟨registry, now⟩ }

def remove (endpoint : Endpoint) : Directory Endpoint Report cmp :=
  match state.brokers[endpoint]? with
  | none => state
  | some observation =>
    { state with
      brokers := state.brokers.erase endpoint
      indexes := state.indexes.deindex endpoint observation.registry }

def replaceEndpoints (endpoints : Finset Endpoint) : Directory Endpoint Report cmp :=
  let removed := state.brokers.keys.filter fun endpoint => decide (endpoint ∉ endpoints)
  { removed.foldl remove state with endpoints := endpoints }

def observe [DecidableEq Report] (now : ℕ) (endpoint : Endpoint) (registry : BrokerRegistry Report) :
    Directory Endpoint Report cmp :=
  if registry.format ≠ 7 then state
  else
    match state.brokers[endpoint]?.filter fun observation => decide (observation.registry = registry) with
    | some observation =>
      { state with brokers := state.brokers.insert endpoint { observation with seenAt := now } }
    | none => (state.remove endpoint).add now endpoint registry

/-- The registry with the flags of a head. -/
def flagged (registry : BrokerRegistry Report) (head : BrokerRegistryHead) : BrokerRegistry Report :=
  { registry with
    ready := head.ready
    publishReady := head.publishReady
    consumeReady := head.consumeReady }

/-- The answer says whether the whole registry has to be fetched. -/
def observeHead (now : ℕ) (endpoint : Endpoint) (head : BrokerRegistryHead) :
    Directory Endpoint Report cmp × Bool :=
  if head.format ≠ 7 then (state, true)
  else
    match state.brokers[endpoint]? with
    | none => (state, true)
    | some observation =>
      if observation.registry.revision ≠ head.revision ∨ observation.registry.nodeId ≠ head.nodeId then
        (state, true)
      else if observation.registry.ready = head.ready ∧
          observation.registry.publishReady = head.publishReady ∧
          observation.registry.consumeReady = head.consumeReady then
        ({ state with brokers := state.brokers.insert endpoint { observation with seenAt := now } }, false)
      else
        let removed : Directory Endpoint Report cmp :=
          { state with
            brokers := state.brokers.erase endpoint
            indexes := state.indexes.deindex endpoint observation.registry }
        (removed.add now endpoint (flagged observation.registry head), false)

def expire (now maxAge : ℕ) : Directory Endpoint Report cmp :=
  let expired := (state.brokers.toList.filter fun entry =>
    decide (entry.1 ∉ state.endpoints ∨ maxAge < now - entry.2.seenAt)).map Prod.fst
  expired.foldl remove state

end Directory

/-! ### Exactness -/

/-- A registry that lists every topic once, and every channel of a topic once. -/
structure Listed (registry : BrokerRegistry Report) : Prop where
  topics : (registry.topics.map RegistryTopic.name).Nodup
  channels : ∀ topic ∈ registry.topics, topic.channels.Nodup

def servesTopic (topic : String) (registry : BrokerRegistry Report) : Bool :=
  consumeReady registry && registry.topics.any fun listed => decide (listed.name = topic)

def servesChannel (topic channel : String) (registry : BrokerRegistry Report) : Bool :=
  consumeReady registry && registry.topics.any fun listed =>
    decide (listed.name = topic) && decide (channel ∈ listed.channels)

/-- The known endpoints whose registry satisfies `p`. -/
def endpointsWith [TransCmp cmp] (brokers : ExtTreeMap Endpoint (Observation Report) cmp)
    (p : BrokerRegistry Report → Bool) : Finset Endpoint :=
  brokers.keys.toFinset.filter fun endpoint =>
    (brokers[endpoint]?.any fun observation => p observation.registry) = true

/-- What is stored under a topic with these owners. -/
def owned (owners : Finset Endpoint) : Option (Finset Endpoint) :=
  if owners = ∅ then none else some owners

structure Exact [TransCmp cmp] (brokers : ExtTreeMap Endpoint (Observation Report) cmp)
    (indexes : Indexes Endpoint) : Prop where
  publishers : indexes.publishers = endpointsWith brokers BrokerRegistry.publishReady
  consumers : indexes.consumers = endpointsWith brokers consumeReady
  topicOwners : ∀ topic,
    indexes.topicOwners[topic]? = owned (endpointsWith brokers (servesTopic topic))
  channelOwners : ∀ topic channel, (indexes.channelOwners[topic]?.getD ∅)[channel]? =
    counted (endpointsWith brokers (servesChannel topic channel)).card

/-- The indexes built from the brokers alone. -/
def rebuild [TransCmp cmp] (brokers : ExtTreeMap Endpoint (Observation Report) cmp) : Indexes Endpoint :=
  brokers.toList.foldl (fun indexes entry => indexes.index entry.1 entry.2.registry) Indexes.empty

theorem owned_getD (owners : Finset Endpoint) : (owned owners).getD ∅ = owners := by
  unfold owned
  by_cases h : owners = ∅
  · rw [if_pos h, h]
    rfl
  · rw [if_neg h]
    rfl

theorem owned_insert (endpoint : Endpoint) (owners : Finset Endpoint) :
    owned (insert endpoint owners) = some (insert endpoint owners) :=
  if_neg (Finset.insert_ne_empty _ _)

theorem owned_bind_erase (endpoint : Endpoint) (owners : Finset Endpoint) :
    ((owned owners).bind fun owners => owned (owners.erase endpoint)) = owned (owners.erase endpoint) := by
  by_cases h : owners = ∅
  · subst h
    rfl
  · rw [show owned owners = some owners from if_neg h]
    rfl

/-! ### The endpoints with a property -/

section Endpoints

variable [TransCmp cmp] [LawfulEqCmp cmp] {brokers : ExtTreeMap Endpoint (Observation Report) cmp}
  {p : BrokerRegistry Report → Bool} {endpoint : Endpoint} {observation : Observation Report}

theorem mem_endpointsWith {e : Endpoint} : e ∈ endpointsWith brokers p ↔
    ∃ observation, brokers[e]? = some observation ∧ p observation.registry = true := by
  unfold endpointsWith
  rw [Finset.mem_filter, List.mem_toFinset, Option.any_eq_true]
  constructor
  · rintro ⟨-, h⟩
    exact h
  · rintro ⟨observation, hget, hp⟩
    refine ⟨?_, observation, hget, hp⟩
    rw [ExtTreeMap.mem_keys, ExtTreeMap.mem_iff_isSome_getElem?, hget]
    rfl

theorem endpointsWith_insert : endpointsWith (brokers.insert endpoint observation) p =
    if p observation.registry = true then insert endpoint (endpointsWith brokers p)
    else (endpointsWith brokers p).erase endpoint := by
  ext e
  rw [mem_endpointsWith, getElem?_insert_eq]
  by_cases he : endpoint = e
  · subst he
    rw [if_pos rfl]
    by_cases hp : p observation.registry = true
    · simp [hp]
    · simp [hp]
  · rw [if_neg he, ← mem_endpointsWith]
    by_cases hp : p observation.registry = true
    · rw [if_pos hp, Finset.mem_insert, or_iff_right (Ne.symm he)]
    · rw [if_neg hp, Finset.mem_erase, and_iff_right (Ne.symm he)]

theorem endpointsWith_erase :
    endpointsWith (brokers.erase endpoint) p = (endpointsWith brokers p).erase endpoint := by
  ext e
  rw [mem_endpointsWith, getElem?_erase_eq, Finset.mem_erase]
  by_cases he : endpoint = e
  · subst he
    simp
  · rw [if_neg he, ← mem_endpointsWith, and_iff_right (Ne.symm he)]

theorem not_mem_endpointsWith (hfree : brokers[endpoint]? = none) : endpoint ∉ endpointsWith brokers p := by
  rw [mem_endpointsWith, hfree]
  rintro ⟨_, hnone, -⟩
  exact nomatch hnone

theorem mem_endpointsWith_of_get (hget : brokers[endpoint]? = some observation) :
    endpoint ∈ endpointsWith brokers p ↔ p observation.registry = true := by
  rw [mem_endpointsWith, hget]
  simp

theorem endpointsWith_refresh (hget : brokers[endpoint]? = some observation) (now : ℕ) :
    endpointsWith (brokers.insert endpoint { observation with seenAt := now }) p =
      endpointsWith brokers p := by
  rw [endpointsWith_insert]
  by_cases hp : p observation.registry = true
  · rw [if_pos hp]
    exact Finset.insert_eq_self.2 ((mem_endpointsWith_of_get hget).2 hp)
  · rw [if_neg hp]
    exact Finset.erase_eq_of_notMem (mt (mem_endpointsWith_of_get hget).1 hp)

end Endpoints

/-! ### What a registry changes -/

section Changes

variable {endpoint : Endpoint} {indexes : Indexes Endpoint} {registry : BrokerRegistry Report}
  {topic channel : String}

omit [DecidableEq Endpoint] in
theorem servesTopic_of_find? (hready : consumeReady registry = true) : servesTopic topic registry =
    (registry.topics.find? fun listed => decide (listed.name = topic)).isSome := by
  rw [servesTopic, hready, Bool.true_and, List.isSome_find?]

theorem servesChannel_of_find? (hlisted : Listed registry) (hready : consumeReady registry = true) :
    servesChannel topic channel registry =
      (registry.topics.find? fun listed => decide (listed.name = topic)).any
        fun listed => decide (channel ∈ listed.channels) := by
  rw [servesChannel, hready, Bool.true_and, Bool.eq_iff_iff, List.any_eq_true, Option.any_eq_true]
  constructor
  · rintro ⟨listed, hmem, h⟩
    rw [Bool.and_eq_true, decide_eq_true_eq, decide_eq_true_eq] at h
    cases hfind : registry.topics.find? fun listed => decide (listed.name = topic) with
    | none => exact absurd (decide_eq_true h.1) (List.find?_eq_none.1 hfind listed hmem)
    | some found =>
      have hname : found.name = topic := by simpa using List.find?_some hfind
      have heq : found = listed := List.inj_on_of_nodup_map hlisted.topics
        (List.mem_of_find?_eq_some hfind) hmem (hname.trans h.1.symm)
      exact ⟨found, rfl, decide_eq_true (heq ▸ h.2)⟩
  · rintro ⟨found, hfind, hchannel⟩
    exact ⟨found, List.mem_of_find?_eq_some hfind,
      Bool.and_eq_true_iff.2 ⟨by simpa using List.find?_some hfind, hchannel⟩⟩

namespace Indexes

theorem getElem?_foldl_increment {listed : List String} (hlisted : listed.Nodup)
    (channels : ExtTreeMap String ℕ) (c : String) :
    (listed.foldl increment channels)[c]? =
      if c ∈ listed then some (channels[c]?.getD 0 + 1) else channels[c]? :=
  lookup_foldl_of_nodup increment (fun channels c => channels[c]?)
    (fun owners => some (owners.getD 0 + 1)) (fun _ _ _ => getElem?_increment) hlisted channels c

theorem getElem?_foldl_decrement {listed : List String} (hlisted : listed.Nodup)
    (channels : ExtTreeMap String ℕ) (c : String) :
    (listed.foldl decrement channels)[c]? =
      if c ∈ listed then channels[c]?.bind fun owners => counted (owners - 1) else channels[c]? :=
  lookup_foldl_of_nodup decrement (fun channels c => channels[c]?)
    (fun owners => owners.bind fun owners => counted (owners - 1)) (fun _ _ _ => getElem?_decrement)
    hlisted channels c

theorem getElem?_deindexOwners (topic : RegistryTopic)
    (topicOwners : ExtTreeMap String (Finset Endpoint)) (name : String) :
    (deindexOwners endpoint topic topicOwners)[name]? =
      if topic.name = name then topicOwners[name]?.bind fun owners : Finset Endpoint => owned (owners.erase endpoint)
      else topicOwners[name]? := by
  unfold deindexOwners owned
  by_cases hname : topic.name = name
  · subst hname
    rw [if_pos rfl]
    cases hget : topicOwners[topic.name]? with
    | none => exact hget
    | some owners =>
      by_cases howners : owners.erase endpoint = ∅
      · simp [howners]
      · simp [howners]
  · rw [if_neg hname]
    cases hget : topicOwners[topic.name]? with
    | none => rfl
    | some owners =>
      by_cases howners : owners.erase endpoint = ∅
      · simp [howners, getElem?_erase_eq, hname]
      · simp [howners, getElem?_insert_eq, hname]

theorem foldl_decrement_empty (listed : List String) :
    listed.foldl decrement (∅ : ExtTreeMap String ℕ) = ∅ := by
  induction listed with
  | nil => rfl
  | cons channel listed ih =>
    rw [List.foldl_cons, decrement, ExtTreeMap.getElem?_empty]
    exact ih

/-- A topic without a channel map has an empty one. -/
theorem getD_deindexChannels (topic : RegistryTopic)
    (channelOwners : ExtTreeMap String (ExtTreeMap String ℕ)) (name : String) :
    (deindexChannels topic channelOwners)[name]?.getD ∅ =
      if topic.name = name then topic.channels.foldl decrement (channelOwners[name]?.getD ∅)
      else channelOwners[name]?.getD ∅ := by
  unfold deindexChannels
  by_cases hname : topic.name = name
  · subst hname
    rw [if_pos rfl]
    cases hget : channelOwners[topic.name]? with
    | none =>
      rw [Option.getD_none, foldl_decrement_empty]
      simp [hget]
    | some channels =>
      by_cases hempty : (topic.channels.foldl decrement channels).isEmpty = true
      · have hnone : topic.channels.foldl decrement channels = ∅ := ExtTreeMap.isEmpty_iff.1 hempty
        simp [hnone]
      · simp [hempty]
  · rw [if_neg hname]
    cases hget : channelOwners[topic.name]? with
    | none => rfl
    | some channels =>
      by_cases hempty : (topic.channels.foldl decrement channels).isEmpty = true
      · simp [hempty, getElem?_erase_eq, hname]
      · simp [hempty, getElem?_insert_eq, hname]

omit [DecidableEq Endpoint] in
/-- The topics of a registry leave the two sets of endpoints alone. -/
theorem foldl_publishers_consumers (step : Indexes Endpoint → RegistryTopic → Indexes Endpoint)
    (hstep : ∀ indexes topic, (step indexes topic).publishers = indexes.publishers ∧
      (step indexes topic).consumers = indexes.consumers) (topics : List RegistryTopic) :
    (topics.foldl step indexes).publishers = indexes.publishers ∧
      (topics.foldl step indexes).consumers = indexes.consumers := by
  induction topics generalizing indexes with
  | nil => exact ⟨rfl, rfl⟩
  | cons topic topics ih =>
    rw [List.foldl_cons, ih.1, ih.2]
    exact hstep indexes topic

theorem index_publishers_consumers : (indexes.index endpoint registry).publishers =
      (if registry.publishReady = true then insert endpoint indexes.publishers else indexes.publishers) ∧
    (indexes.index endpoint registry).consumers =
      (if consumeReady registry = true then insert endpoint indexes.consumers else indexes.consumers) := by
  have hfold := fun indexes : Indexes Endpoint =>
    @foldl_publishers_consumers _ indexes (indexTopic endpoint) (fun _ _ => ⟨rfl, rfl⟩) registry.topics
  unfold index
  by_cases hpublish : registry.publishReady = true <;>
    by_cases hready : consumeReady registry = true <;> simp [hpublish, hready, hfold]

theorem deindex_publishers_consumers :
    (indexes.deindex endpoint registry).publishers = indexes.publishers.erase endpoint ∧
      (indexes.deindex endpoint registry).consumers = indexes.consumers.erase endpoint := by
  have hfold := fun indexes : Indexes Endpoint =>
    @foldl_publishers_consumers _ indexes (deindexTopic endpoint) (fun _ _ => ⟨rfl, rfl⟩) registry.topics
  unfold deindex
  by_cases hready : consumeReady registry = true <;> simp [hready, hfold]

/-- A broker that serves consumers is indexed topic by topic. -/
theorem index_of_ready (endpoint : Endpoint) (indexes : Indexes Endpoint)
    (hready : consumeReady registry = true) : ∃ start : Indexes Endpoint,
    start.topicOwners = indexes.topicOwners ∧ start.channelOwners = indexes.channelOwners ∧
      indexes.index endpoint registry = registry.topics.foldl (indexTopic endpoint) start := by
  refine ⟨_, ?_, ?_, if_neg (not_not_intro hready)⟩
  · by_cases hpublish : registry.publishReady = true <;> simp [hpublish]
  · by_cases hpublish : registry.publishReady = true <;> simp [hpublish]

theorem index_of_not_ready (hready : ¬consumeReady registry = true) :
    (indexes.index endpoint registry).topicOwners = indexes.topicOwners ∧
      (indexes.index endpoint registry).channelOwners = indexes.channelOwners := by
  unfold index
  by_cases hpublish : registry.publishReady = true <;> simp [hpublish, hready]

theorem index_topicOwners (hlisted : Listed registry) :
    (indexes.index endpoint registry).topicOwners[topic]? =
      if servesTopic topic registry = true then
        some (insert endpoint (indexes.topicOwners[topic]?.getD ∅))
      else indexes.topicOwners[topic]? := by
  by_cases hready : consumeReady registry = true
  · obtain ⟨start, htopics, -, heq⟩ := index_of_ready endpoint indexes hready
    have hlook := lookup_foldl (indexTopic endpoint) RegistryTopic.name
      (fun indexes name => indexes.topicOwners[name]?)
      (fun _ owners => some (insert endpoint (owners.getD ∅)))
      (fun indexes listed name => by
        rw [show (indexTopic endpoint indexes listed).topicOwners = indexes.topicOwners.insert listed.name
          (insert endpoint (indexes.topicOwners[listed.name]?.getD ∅)) from rfl, getElem?_insert_eq]
        by_cases hname : listed.name = name
        · rw [if_pos hname, if_pos hname, hname]
        · rw [if_neg hname, if_neg hname])
      hlisted.topics start topic
    rw [heq, hlook, htopics, servesTopic_of_find? hready]
    cases registry.topics.find? fun listed => decide (listed.name = topic) with
    | none => rfl
    | some found => rfl
  · rw [(index_of_not_ready hready).1, servesTopic, Bool.eq_false_of_not_eq_true hready]
    rfl

theorem index_channelOwners (hlisted : Listed registry) :
    ((indexes.index endpoint registry).channelOwners[topic]?.getD ∅)[channel]? =
      if servesChannel topic channel registry = true then
        some ((indexes.channelOwners[topic]?.getD ∅)[channel]?.getD 0 + 1)
      else (indexes.channelOwners[topic]?.getD ∅)[channel]? := by
  by_cases hready : consumeReady registry = true
  · obtain ⟨start, -, hchannels, heq⟩ := index_of_ready endpoint indexes hready
    have hlook := lookup_foldl (indexTopic endpoint) RegistryTopic.name
      (fun indexes name => indexes.channelOwners[name]?.getD ∅)
      (fun listed channels => listed.channels.foldl increment channels)
      (fun indexes listed name => by
        rw [show (indexTopic endpoint indexes listed).channelOwners =
          indexes.channelOwners.insert listed.name
            (listed.channels.foldl increment (indexes.channelOwners[listed.name]?.getD ∅)) from rfl,
          getElem?_insert_eq]
        by_cases hname : listed.name = name
        · rw [if_pos hname, if_pos hname, hname]
          rfl
        · rw [if_neg hname, if_neg hname])
      hlisted.topics start topic
    rw [heq, hlook, hchannels, servesChannel_of_find? hlisted hready]
    cases hfind : registry.topics.find? fun listed => decide (listed.name = topic) with
    | none => rfl
    | some found =>
      simp only [Option.elim_some, Option.any_some, decide_eq_true_eq]
      exact getElem?_foldl_increment (hlisted.channels found (List.mem_of_find?_eq_some hfind)) _ _
  · rw [(index_of_not_ready hready).2, servesChannel, Bool.eq_false_of_not_eq_true hready]
    rfl

theorem deindex_topicOwners (hlisted : Listed registry) :
    (indexes.deindex endpoint registry).topicOwners[topic]? =
      if servesTopic topic registry = true then
        indexes.topicOwners[topic]?.bind fun owners : Finset Endpoint => owned (owners.erase endpoint)
      else indexes.topicOwners[topic]? := by
  unfold deindex
  by_cases hready : consumeReady registry = true
  · rw [if_neg (not_not_intro hready), servesTopic_of_find? hready]
    rw [lookup_foldl (deindexTopic endpoint) RegistryTopic.name
      (fun indexes name => indexes.topicOwners[name]?)
      (fun _ found => found.bind fun owners : Finset Endpoint => owned (owners.erase endpoint))
      (fun indexes listed name => getElem?_deindexOwners listed indexes.topicOwners name)
      hlisted.topics _ topic]
    cases registry.topics.find? fun listed => decide (listed.name = topic) with
    | none => rfl
    | some found => rfl
  · rw [if_pos hready, servesTopic, Bool.eq_false_of_not_eq_true hready]
    rfl

theorem deindex_channelOwners (hlisted : Listed registry) :
    ((indexes.deindex endpoint registry).channelOwners[topic]?.getD ∅)[channel]? =
      if servesChannel topic channel registry = true then
        (indexes.channelOwners[topic]?.getD ∅)[channel]?.bind fun owners => counted (owners - 1)
      else (indexes.channelOwners[topic]?.getD ∅)[channel]? := by
  unfold deindex
  by_cases hready : consumeReady registry = true
  · rw [if_neg (not_not_intro hready), servesChannel_of_find? hlisted hready]
    rw [lookup_foldl (deindexTopic endpoint) RegistryTopic.name
      (fun indexes name => indexes.channelOwners[name]?.getD ∅)
      (fun listed channels => listed.channels.foldl decrement channels)
      (fun indexes listed name => getD_deindexChannels listed indexes.channelOwners name)
      hlisted.topics _ topic]
    cases hfind : registry.topics.find? fun listed => decide (listed.name = topic) with
    | none => rfl
    | some found =>
      simp only [Option.elim_some, Option.any_some, decide_eq_true_eq]
      exact getElem?_foldl_decrement (hlisted.channels found (List.mem_of_find?_eq_some hfind)) _ _
  · rw [if_pos hready, servesChannel, Bool.eq_false_of_not_eq_true hready]
    rfl

end Indexes

end Changes

/-! ### Registries that come and go -/

section Exactness

variable [TransCmp cmp] [LawfulEqCmp cmp] {brokers : ExtTreeMap Endpoint (Observation Report) cmp}
  {indexes : Indexes Endpoint} {endpoint : Endpoint} {observation : Observation Report}

theorem exact_empty : Exact (∅ : ExtTreeMap Endpoint (Observation Report) cmp) Indexes.empty := by
  have hnone (p : BrokerRegistry Report → Bool) :
      endpointsWith (∅ : ExtTreeMap Endpoint (Observation Report) cmp) p = ∅ := by
    refine Finset.eq_empty_of_forall_notMem fun endpoint => not_mem_endpointsWith ?_
    exact ExtTreeMap.getElem?_empty
  refine ⟨(hnone _).symm, (hnone _).symm, fun topic => ?_, fun topic channel => ?_⟩
  · rw [hnone]
    rfl
  · rw [hnone]
    rfl

section

variable (hexact : Exact brokers indexes)
include hexact

theorem Exact.index (hfree : brokers[endpoint]? = none)
    (hlisted : Listed observation.registry) : Exact (brokers.insert endpoint observation)
      (indexes.index endpoint observation.registry) := by
  have herase (p : BrokerRegistry Report → Bool) :
      (endpointsWith brokers p).erase endpoint = endpointsWith brokers p :=
    Finset.erase_eq_of_notMem (not_mem_endpointsWith hfree)
  obtain ⟨hpublishers, hconsumers⟩ := @Indexes.index_publishers_consumers _ _ _ endpoint indexes
    observation.registry
  refine ⟨?_, ?_, fun topic => ?_, fun topic channel => ?_⟩
  · rw [hpublishers, hexact.publishers, endpointsWith_insert, herase]
  · rw [hconsumers, hexact.consumers, endpointsWith_insert, herase]
  · rw [Indexes.index_topicOwners hlisted, hexact.topicOwners, owned_getD, endpointsWith_insert, herase]
    by_cases hserves : servesTopic topic observation.registry = true
    · rw [if_pos hserves, if_pos hserves, owned_insert]
    · rw [if_neg hserves, if_neg hserves]
  · rw [Indexes.index_channelOwners hlisted, hexact.channelOwners, counted_getD, endpointsWith_insert,
      herase]
    by_cases hserves : servesChannel topic channel observation.registry = true
    · rw [if_pos hserves, if_pos hserves, Finset.card_insert_of_notMem (not_mem_endpointsWith hfree)]
      rfl
    · rw [if_neg hserves, if_neg hserves]

theorem Exact.deindex (hget : brokers[endpoint]? = some observation)
    (hlisted : Listed observation.registry) : Exact (brokers.erase endpoint)
      (indexes.deindex endpoint observation.registry) := by
  have hmem (p : BrokerRegistry Report → Bool) := @mem_endpointsWith_of_get _ _ _ _ _ _ _ p _ _ hget
  obtain ⟨hpublishers, hconsumers⟩ := @Indexes.deindex_publishers_consumers _ _ _ endpoint indexes
    observation.registry
  refine ⟨?_, ?_, fun topic => ?_, fun topic channel => ?_⟩
  · rw [hpublishers, hexact.publishers, endpointsWith_erase]
  · rw [hconsumers, hexact.consumers, endpointsWith_erase]
  · rw [Indexes.deindex_topicOwners hlisted, hexact.topicOwners, owned_bind_erase, endpointsWith_erase]
    by_cases hserves : servesTopic topic observation.registry = true
    · rw [if_pos hserves]
    · rw [if_neg hserves, Finset.erase_eq_of_notMem (mt (hmem _).1 hserves)]
  · rw [Indexes.deindex_channelOwners hlisted, hexact.channelOwners, counted_bind_pred,
      endpointsWith_erase]
    by_cases hserves : servesChannel topic channel observation.registry = true
    · rw [if_pos hserves, Finset.card_erase_of_mem ((hmem _).2 hserves)]
    · rw [if_neg hserves, Finset.erase_eq_of_notMem (mt (hmem _).1 hserves)]

theorem Exact.refresh (hget : brokers[endpoint]? = some observation)
    (now : ℕ) : Exact (brokers.insert endpoint { observation with seenAt := now }) indexes := by
  obtain ⟨hpublishers, hconsumers, htopics, hchannels⟩ := hexact
  refine ⟨?_, ?_, fun topic => ?_, fun topic channel => ?_⟩
  · rw [hpublishers, endpointsWith_refresh hget]
  · rw [hconsumers, endpointsWith_refresh hget]
  · rw [htopics, endpointsWith_refresh hget]
  · rw [hchannels, endpointsWith_refresh hget]

omit [LawfulEqCmp cmp] in
/-- Exact indexes are the same ones, up to topics with an empty channel map. -/
theorem Exact.unique {others : Indexes Endpoint} (hothers : Exact brokers others) :
    indexes.publishers = others.publishers ∧ indexes.consumers = others.consumers ∧
      indexes.topicOwners = others.topicOwners ∧
      ∀ topic : String,
        indexes.channelOwners[topic]?.getD ∅ = others.channelOwners[topic]?.getD ∅ := by
  refine ⟨?_, ?_, ?_, fun topic => ?_⟩
  · rw [hexact.publishers, hothers.publishers]
  · rw [hexact.consumers, hothers.consumers]
  · refine ExtTreeMap.ext_getElem? fun topic => ?_
    rw [hexact.topicOwners, hothers.topicOwners]
  · refine ExtTreeMap.ext_getElem? fun channel => ?_
    rw [hexact.channelOwners, hothers.channelOwners]

end

/-- Indexing one broker after another, all of them new. -/
theorem Exact.foldl_index {entries : List (Endpoint × Observation Report)}
    (hexact : Exact brokers indexes) (hkeys : (entries.map Prod.fst).Nodup)
    (hfree : ∀ entry ∈ entries, brokers[entry.1]? = none)
    (hlisted : ∀ entry ∈ entries, Listed entry.2.registry) :
    Exact (entries.foldl (fun brokers entry => brokers.insert entry.1 entry.2) brokers)
      (entries.foldl (fun indexes entry => indexes.index entry.1 entry.2.registry) indexes) := by
  induction entries generalizing brokers indexes with
  | nil => exact hexact
  | cons entry entries ih =>
    rw [List.map_cons, List.nodup_cons] at hkeys
    rw [List.forall_mem_cons] at hfree hlisted
    refine ih (hexact.index hfree.1 hlisted.1) hkeys.2 (fun other hother => ?_) hlisted.2
    rw [getElem?_insert_eq, if_neg fun heq : entry.1 = other.1 => hkeys.1
      (heq ▸ List.mem_map_of_mem hother)]
    exact hfree.2 other hother

theorem exact_rebuild
    (hlisted : ∀ (endpoint : Endpoint) (observation : Observation Report),
      brokers[endpoint]? = some observation → Listed observation.registry) :
    Exact brokers (rebuild brokers) := by
  have hkeys : (brokers.toList.map Prod.fst).Nodup := by
    rw [ExtTreeMap.map_fst_toList_eq_keys]
    exact ExtTreeMap.nodup_keys
  have hfold := Exact.foldl_index (@exact_empty Endpoint Report _ cmp _ _) hkeys
    (fun _ _ => ExtTreeMap.getElem?_empty) fun entry hmem =>
      hlisted entry.1 entry.2 (ExtTreeMap.mem_toList_iff_getElem?_eq_some.1 hmem)
  rwa [foldl_insert_toList] at hfold

end Exactness

/-! ### Sequences of calls -/

/-- The calls that change the directory, with the times their clocks read. -/
inductive Call (Endpoint Report : Type)
  | replaceEndpoints (endpoints : Finset Endpoint)
  | observe (now : ℕ) (endpoint : Endpoint) (registry : BrokerRegistry Report)
  | observeHead (now : ℕ) (endpoint : Endpoint) (head : BrokerRegistryHead)
  | expire (now maxAge : ℕ)

/-- A call whose registry, if it has one, is listed. -/
def Call.Listed : Call Endpoint Report → Prop
  | .observe _ _ registry => Discovery.Listed registry
  | _ => True

namespace Directory

variable [TransCmp cmp] [DecidableEq Report]

def call (state : Directory Endpoint Report cmp) : Call Endpoint Report → Directory Endpoint Report cmp
  | .replaceEndpoints endpoints => state.replaceEndpoints endpoints
  | .observe now endpoint registry => state.observe now endpoint registry
  | .observeHead now endpoint head => (state.observeHead now endpoint head).1
  | .expire now maxAge => state.expire now maxAge

def run (calls : List (Call Endpoint Report)) : Directory Endpoint Report cmp :=
  calls.foldl call Directory.empty

end Directory

section Runs

variable [TransCmp cmp] [LawfulEqCmp cmp] {state : Directory Endpoint Report cmp}

/-- What every call preserves: the indexes are exact, and what was observed is listed. -/
structure Kept (state : Directory Endpoint Report cmp) : Prop where
  exact : Exact state.brokers state.indexes
  listed : ∀ (endpoint : Endpoint) (observation : Observation Report),
    state.brokers[endpoint]? = some observation → Listed observation.registry

theorem kept_empty : Kept (Directory.empty : Directory Endpoint Report cmp) := by
  refine ⟨exact_empty, fun endpoint observation hget => ?_⟩
  rw [Directory.empty, ExtTreeMap.getElem?_empty] at hget
  exact nomatch hget

variable {endpoint : Endpoint}

theorem Kept.add {now : ℕ} {registry : BrokerRegistry Report} (hkept : Kept state)
    (hfree : state.brokers[endpoint]? = none) (hlisted : Listed registry) :
    Kept (state.add now endpoint registry) := by
  refine ⟨@Exact.index _ _ _ _ _ _ _ _ endpoint ⟨registry, now⟩ hkept.exact hfree hlisted,
    fun other observation hget => ?_⟩
  rw [Directory.add, getElem?_insert_eq] at hget
  by_cases hother : endpoint = other
  · rw [if_pos hother, Option.some_inj] at hget
    exact hget ▸ hlisted
  · rw [if_neg hother] at hget
    exact hkept.listed other observation hget

theorem Kept.erase {observation : Observation Report} (hkept : Kept state)
    (hget : state.brokers[endpoint]? = some observation) :
    Kept { state with
      brokers := state.brokers.erase endpoint
      indexes := state.indexes.deindex endpoint observation.registry } := by
  refine ⟨hkept.exact.deindex hget (hkept.listed endpoint observation hget),
    fun other observation hother => hkept.listed other observation ?_⟩
  rw [getElem?_erase_eq] at hother
  by_cases heq : endpoint = other
  · rw [if_pos heq] at hother
    exact nomatch hother
  · rwa [if_neg heq] at hother

theorem Kept.refresh {now : ℕ} {observation : Observation Report} (hkept : Kept state)
    (hget : state.brokers[endpoint]? = some observation) :
    Kept { state with
      brokers := state.brokers.insert endpoint { observation with seenAt := now } } := by
  refine ⟨hkept.exact.refresh hget now, fun other seen hother => ?_⟩
  rw [getElem?_insert_eq] at hother
  by_cases heq : endpoint = other
  · rw [if_pos heq, Option.some_inj] at hother
    exact hother ▸ hkept.listed endpoint observation hget
  · rw [if_neg heq] at hother
    exact hkept.listed other seen hother

theorem Kept.remove (hkept : Kept state) (endpoint : Endpoint) : Kept (state.remove endpoint) := by
  unfold Directory.remove
  cases hget : state.brokers[endpoint]? with
  | none => exact hkept
  | some observation => exact hkept.erase hget

theorem remove_get_none (state : Directory Endpoint Report cmp) (endpoint : Endpoint) :
    (state.remove endpoint).brokers[endpoint]? = none := by
  unfold Directory.remove
  cases hget : state.brokers[endpoint]? with
  | none => exact hget
  | some observation => rw [getElem?_erase_eq, if_pos rfl]

theorem Kept.foldl_remove (hkept : Kept state) (removed : List Endpoint) :
    Kept (removed.foldl Directory.remove state) := by
  induction removed generalizing state with
  | nil => exact hkept
  | cons endpoint removed ih => exact ih (hkept.remove endpoint)

theorem Kept.observe [DecidableEq Report] {now : ℕ} {registry : BrokerRegistry Report}
    (hkept : Kept state) (hlisted : Listed registry) : Kept (state.observe now endpoint registry) := by
  unfold Directory.observe
  by_cases hformat : registry.format ≠ 7
  · rw [if_pos hformat]
    exact hkept
  rw [if_neg hformat]
  cases hseen : state.brokers[endpoint]?.filter
      fun observation => decide (observation.registry = registry) with
  | none => exact (hkept.remove endpoint).add (remove_get_none state endpoint) hlisted
  | some observation => exact hkept.refresh (Option.filter_eq_some_iff.1 hseen).1

theorem Kept.observeHead {now : ℕ} {head : BrokerRegistryHead} (hkept : Kept state) :
    Kept (state.observeHead now endpoint head).1 := by
  unfold Directory.observeHead
  by_cases hformat : head.format ≠ 7
  · rw [if_pos hformat]
    exact hkept
  rw [if_neg hformat]
  cases hget : state.brokers[endpoint]? with
  | none => exact hkept
  | some observation =>
    have hlisted := hkept.listed endpoint observation hget
    dsimp only
    by_cases hchanged : observation.registry.revision ≠ head.revision ∨
        observation.registry.nodeId ≠ head.nodeId
    · rw [if_pos hchanged]
      exact hkept
    rw [if_neg hchanged]
    by_cases hsame : observation.registry.ready = head.ready ∧
        observation.registry.publishReady = head.publishReady ∧
        observation.registry.consumeReady = head.consumeReady
    · rw [if_pos hsame]
      exact hkept.refresh hget
    · rw [if_neg hsame]
      refine (hkept.erase hget).add ?_ ⟨hlisted.topics, hlisted.channels⟩
      rw [getElem?_erase_eq, if_pos rfl]

theorem Kept.call [DecidableEq Report] {call : Call Endpoint Report} (hkept : Kept state)
    (hlisted : call.Listed) : Kept (state.call call) := by
  cases call with
  | replaceEndpoints endpoints =>
    have hfold := hkept.foldl_remove
      (state.brokers.keys.filter fun endpoint => decide (endpoint ∉ endpoints))
    exact ⟨hfold.exact, hfold.listed⟩
  | observe now endpoint registry => exact hkept.observe hlisted
  | observeHead now endpoint head => exact hkept.observeHead
  | expire now maxAge => exact hkept.foldl_remove _

theorem kept_run [DecidableEq Report] {calls : List (Call Endpoint Report)}
    (hlisted : ∀ call ∈ calls, call.Listed) :
    Kept (Directory.run calls : Directory Endpoint Report cmp) := by
  refine List.foldlRecOn calls Directory.call kept_empty fun state hkept call hmem => ?_
  exact hkept.call (hlisted call hmem)

/-- After every sequence of calls with listed registries the four indexes are those of the brokers: the
endpoints that take publishes and those that serve consumers, the owners of every topic, and the number
of owners of every channel.  They are what indexing the brokers from nothing gives, up to topics with an
empty channel map. -/
theorem indexes_exact [DecidableEq Report] (calls : List (Call Endpoint Report))
    (hlisted : ∀ call ∈ calls, call.Listed) :
    let state : Directory Endpoint Report cmp := Directory.run calls
    Exact state.brokers state.indexes ∧
      state.indexes.publishers = (rebuild state.brokers).publishers ∧
      state.indexes.consumers = (rebuild state.brokers).consumers ∧
      state.indexes.topicOwners = (rebuild state.brokers).topicOwners ∧
      ∀ topic : String, state.indexes.channelOwners[topic]?.getD ∅ =
        (rebuild state.brokers).channelOwners[topic]?.getD ∅ := by
  intro state
  have hkept : Kept state := kept_run hlisted
  exact ⟨hkept.exact, hkept.exact.unique (exact_rebuild hkept.listed)⟩

end Runs

end Model

/-- A broker with one topic and one channel. -/
def servingBroker : BrokerRegistry Unit :=
  ⟨7, 1, 1, false, true, true, "broker", 4150, 4151, 0, 0, 0, [⟨"events", false, ["workers"], 0⟩], none⟩

/-- The broker is counted as an owner, and no longer when its head says it does not serve consumers. -/
theorem indexes_exact_drained :
    (∃ state : Directory ℕ Unit compare,
      state = Directory.run [.observe 0 1 servingBroker] ∧ Exact state.brokers state.indexes ∧
        state.indexes.topicOwners["events"]? = some {1}) ∧
    ∃ state : Directory ℕ Unit compare,
      state = Directory.run [.observe 0 1 servingBroker, .observeHead 1 1 ⟨7, 1, 1, false, true, false⟩] ∧
        Exact state.brokers state.indexes ∧ state.indexes.topicOwners["events"]? = none := by
  have hlisted : Listed servingBroker := ⟨by decide, by decide⟩
  refine ⟨⟨_, rfl, (indexes_exact [.observe 0 1 servingBroker] ?_).1, by decide +kernel⟩,
    ⟨_, rfl, (indexes_exact [.observe 0 1 servingBroker, .observeHead 1 1 ⟨7, 1, 1, false, true, false⟩]
      ?_).1, by decide +kernel⟩⟩
  · simpa [Call.Listed] using hlisted
  · simpa [Call.Listed] using hlisted

end RustQueue.Discovery
