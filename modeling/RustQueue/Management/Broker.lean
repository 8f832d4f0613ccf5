import RustQueue.Management.Catalog
import RustQueue.Management.Fences
import RustQueue.Topic.Counts
import RustQueue.Topic.Opening

/-!
# A broker and its management calls

`Broker` is the part of a broker that management is about: the topics in memory and on disk, the retired
topics, the fences, the catalog of operations and the revision of the registry.  A management call
holds the lifecycle lock, so it is a function of this state; `Task` keeps the state it has reached when
it fails.  Errors of the operating system are left out, as in `Topic.Commands`, and so is the
maintenance that follows a call: the schedule of expirations and the clean-up of the outbox.

A call looks its operation up, checks its request, prepares the operation unless it is pending, acts,
raises the revision and completes the operation (`manage`).  `manageTopic` and `manageChannel` are the
two kinds of calls.
-/

namespace RustQueue

open Lib Topic Management

/-- What a broker is configured with. -/
structure BrokerSettings where
  maxTopics : ℕ
  maxSegmentBytes : ℕ
  maxAckGap : ℕ
  featureLevel : ℕ
  requireManagementFenceSync : Bool

structure Broker where
  settings : BrokerSettings
  topics : Std.ExtTreeMap String Topic
  retiredTopics : Std.ExtTreeMap String Topic
  directories : Std.ExtTreeMap String Topic.Directory
  fences : FenceCatalog
  managementFencesReady : Bool
  operations : OperationCatalog
  registryRevision : ℕ

namespace Broker

/-- A broker on an empty data directory.  The first start raises the revision once. -/
def empty (settings : BrokerSettings) : Broker where
  settings := settings
  topics := ∅
  retiredTopics := ∅
  directories := ∅
  fences := FenceCatalog.empty
  managementFencesReady := !settings.requireManagementFenceSync
  operations := OperationCatalog.empty
  registryRevision := 2

/-- A computation on the broker. -/
abbrev Task := EStateM BrokerError Broker

/-- What a call meets: the clock at each reading, the names whose files or handles are in use, the
order of a hash map, and the time up to which a new channel gets earlier messages. -/
structure Moment where
  nowMs : ℕ → ℤ
  inUse : String → Bool
  order : Topic → List String
  order_mem : ∀ topic name, name ∈ order topic → name ∈ topic.channels
  cutoffNs : ℤ

/-! ### Access -/

variable (broker : Broker)

def ensureManagementAccess (topic : String) (channel : Option String) (nowMs : ℤ) :
    Except BrokerError Unit :=
  if broker.managementFencesReady = false then .error .managementUnavailable
  else if broker.operations.blocksTopic topic then .error .managementUnavailable
  else if broker.fences.topicBlocked topic nowMs then .error .topicTombstoned
  else if channel.any (broker.fences.channelBlocked topic · nowMs) then .error .channelTombstoned
  else .ok ()

def syncManagementFences (snapshot : ManagementFenceSnapshot) (nowMs : ℤ) : Broker :=
  { broker with fences := broker.fences.replace snapshot nowMs, managementFencesReady := true }

/-! ### Topics -/

def bumpRegistry : Task Unit :=
  modify fun broker => { broker with registryRevision := satSucc broker.registryRevision }

/-- A topic after an operation, in memory and on disk. -/
def withTopic (name : String) (topic : Topic) (writes : List Write) : Broker :=
  { broker with
    topics := broker.topics.insert name topic
    directories := broker.directories.modify name (·.applyAll writes) }

/-- An operation on a topic, and what it writes. -/
def onTopic {α : Type} (name : String)
    (operation : Topic → Except BrokerError (α × Topic × List Write)) : Task α := do
  let broker ← get
  match broker.topics[name]? with
  | none => throw .topicNotFound
  | some topic =>
    match operation topic with
    | .error error => throw error
    | .ok (answer, topic, writes) => do
      set (broker.withTopic name topic writes)
      return answer

/-- An operation without an answer. -/
def silent (operation : Topic → Topic.Outcome) (topic : Topic) :
    Except BrokerError (Unit × Topic × List Write) :=
  (operation topic).map fun result => ((), result)

/-- A retired topic is forgotten, and its files go. -/
def dropRetired (name : String) : Broker :=
  { broker with
    retiredTopics := broker.retiredTopics.erase name
    directories := broker.directories.erase name }

variable (moment : Moment)

def cleanupRetiredTopic (name : String) : Task Unit := do
  let broker ← get
  if name ∈ broker.retiredTopics then
    if moment.inUse name then throw .topicRetiring else set (broker.dropRetired name)
  else return ()

/-- A new topic in memory and on disk. -/
def addTopic (name : String) : Broker :=
  { broker with
    topics := broker.topics.insert name (Topic.create name broker.settings.maxSegmentBytes
      broker.settings.maxAckGap broker.settings.featureLevel)
    directories := broker.directories.insert name (.create name) }

def setInitialPolicy (name : String) : Option TopicPolicy → Task Unit
  | none => pure ()
  | some policy => do
    let _ ← onTopic name (·.setPolicy policy)

def getOrCreateTopicLockedWithPolicy (name : String) (initialPolicy : Option TopicPolicy) :
    Task Unit := do
  cleanupRetiredTopic moment name
  let broker ← get
  if name ∈ broker.topics then return ()
  else if broker.settings.maxTopics ≤ broker.topics.size then throw .topicLimit
  else do
    set (broker.addTopic name)
    setInitialPolicy name initialPolicy
    bumpRegistry

def getOrCreateTopicLocked (name : String) : Task Unit :=
  getOrCreateTopicLockedWithPolicy moment name none

/-- A deleted topic leaves the map.  Its files go with it unless they are in use. -/
def removeTopic (name : String) (broker : Broker) : Broker :=
  if moment.inUse name then
    { broker with
      topics := broker.topics.erase name
      retiredTopics := (broker.topics[name]?).elim broker.retiredTopics
        (broker.retiredTopics.insert name) }
  else
    { broker with
      topics := broker.topics.erase name
      directories := broker.directories.erase name }

/-- The answer says whether there was a topic to delete. -/
def deleteTopicLocked (name : String) : Task Bool := do
  let broker ← get
  if name ∈ broker.topics then do
    onTopic name (silent Topic.markDeleted)
    modify (removeTopic moment name)
    return true
  else return false

/-! ### Operations -/

inductive PreparedOperation where
  | new (id : String)
  | pending (id : String)
  | completed (result : ManagementResult)
  deriving DecidableEq, Repr

def ofCatalog {α : Type} (result : Except IoError α) : Task α :=
  match result with
  | .error error => throw (operationCatalogError error)
  | .ok a => pure a

/-- What the call is about: a new operation or one that is pending under some identifier. -/
inductive FoundOperation where
  | completed (result : ManagementResult)
  | pending (id : String)
  | new
  deriving DecidableEq, Repr

def findOperation (operationId topic : String) (fingerprint : Fingerprint) : Task FoundOperation := do
  let broker ← get
  match ← ofCatalog (broker.operations.lookup operationId fingerprint) with
  | .completed result => return .completed result
  | .pending => return .pending operationId
  | .new =>
    match broker.operations.pendingId topic fingerprint with
    | some id => return .pending id
    | none => return .new

def checkRevision (expected : ℕ) : Task Unit := do
  let broker ← get
  if expected = broker.registryRevision then return ()
  else throw (.revisionConflict expected broker.registryRevision)

/-- The operation is stored as pending. -/
def storePending (operationId topic : String) (fingerprint : Fingerprint) : Task Unit := do
  let broker ← get
  let operations ← ofCatalog (broker.operations.prepare operationId fingerprint topic)
  set { broker with operations := operations }

def prepareManagementOperation (operationId : String) (fingerprint : Fingerprint) (topic : String)
    (expectedRevision : ℕ) : Task PreparedOperation := do
  match ← findOperation operationId topic fingerprint with
  | .completed result => return .completed result
  | .pending id => return .pending id
  | .new => do
    let broker ← get
    if broker.operations.blocksTopic topic then throw .operationConflict
    else do
      checkRevision expectedRevision
      storePending operationId topic fingerprint
      return .new operationId

def completeManagementOperation (operationId : String) (result : ManagementResult) : Task Unit := do
  let broker ← get
  match broker.operations.complete operationId result with
  | .error error => throw (.io error.message)
  | .ok operations => set { broker with operations := operations }

/-- The revision of the registry is raised if something has changed, or may have. -/
def raiseRevision (raise : Bool) : Task Unit := if raise then bumpRegistry else pure ()

/-- The action of an operation that is pending under the given identifier, and its completion. -/
def perform (act : Bool → Task Bool) (replayed : Bool) (id : String) : Task ManagementResult := do
  let changed ← act replayed
  raiseRevision (changed || replayed)
  let broker ← get
  completeManagementOperation id ⟨broker.registryRevision, changed⟩
  return ⟨broker.registryRevision, changed⟩

/-- A management call.  The checks learn whether the operation is pending, the action whether it is
replayed. -/
def manage (operationId topic : String) (fingerprint : Fingerprint) (expectedRevision : ℕ)
    (check : Bool → Task Unit) (act : Bool → Task Bool) : Task ManagementResult := do
  match ← findOperation operationId topic fingerprint with
  | .completed result => return result
  | .pending id => do
    check true
    perform act true id
  | .new => do
    check false
    match ← prepareManagementOperation operationId fingerprint topic expectedRevision with
    | .completed result => return result
    | .pending id => perform act true id
    | .new id => perform act false id

/-! ### Calls about a topic -/

def ofExcept {α : Type} (result : Except BrokerError α) : Task α :=
  match result with
  | .error error => throw error
  | .ok a => pure a

def validTombstone (value : Option ℤ) (replayed : Bool) (nowMs : ℤ) : Except BrokerError ℤ :=
  match value with
  | some untilMs =>
    if replayed ∨ nowMs < untilMs then .ok untilMs else .error .invalidTombstone
  | none => .error .invalidTombstone

def requireTopic (name : String) : Task Unit := do
  let broker ← get
  if name ∈ broker.topics then return () else throw .topicNotFound

/-- The policy that a call works with. -/
def validatePolicy (action : TopicAction) (policy : Option TopicPolicy) :
    Except BrokerError (Option TopicPolicy) :=
  match action, policy with
  | .create, policy =>
    match (policy.getD ⟨.reliable, none⟩).validate with
    | .error reason => .error (.invalidTopicPolicy reason)
    | .ok policy => .ok (some policy)
  | .configure, none => .error (.invalidTopicPolicy "CONFIGURE requires a complete topic policy")
  | .configure, some policy =>
    match policy.validate with
    | .error reason => .error (.invalidTopicPolicy reason)
    | .ok policy => .ok (some policy)
  | _, some _ =>
    .error (.invalidTopicPolicy "topic policy is only accepted for CREATE or CONFIGURE")
  | _, none => .ok none

structure TopicCommand where
  operationId : String
  topic : String
  action : TopicAction
  expectedRevision : ℕ
  tombstoneUntilMs : Option ℤ
  policy : Option TopicPolicy
  deriving DecidableEq, Repr

def setTopicFence (topic : String) (untilMs : ℤ) : Task Bool := do
  let broker ← get
  set { broker with fences := (broker.fences.setTopic topic untilMs).2 }
  return (broker.fences.setTopic topic untilMs).1

def clearTopicFence (topic : String) : Task Bool := do
  let broker ← get
  set { broker with fences := (broker.fences.clearTopic topic).2 }
  return (broker.fences.clearTopic topic).1

def checkTopic (command : TopicCommand) (pending : Bool) : Task Unit :=
  if pending then pure ()
  else
    match command.action with
    | .delete | .tombstone => do
      let _ ← ofExcept (validTombstone command.tombstoneUntilMs false (moment.nowMs 0))
    | .pause | .unpause | .empty | .configure => requireTopic command.topic
    | .create => pure ()

/-- A topic is deleted together with its tombstone. -/
def deleteIf (delete : Bool) (topic : String) : Task Bool :=
  if delete then deleteTopicLocked moment topic else pure false

/-- The action of a call; `policy` is the validated one. -/
def actOnTopic (command : TopicCommand) (policy : Option TopicPolicy) (replayed : Bool) : Task Bool :=
  match command.action with
  | .create => do
    let broker ← get
    let existed := decide (command.topic ∈ broker.topics)
    getOrCreateTopicLockedWithPolicy moment command.topic (if existed then none else policy)
    let changed ← onTopic command.topic (·.setPolicy (policy.getD ⟨.reliable, none⟩))
    let cleared ← clearTopicFence command.topic
    return !existed || changed || cleared
  | .configure => onTopic command.topic (·.setPolicy (policy.getD ⟨.reliable, none⟩))
  | .pause => do
    onTopic command.topic (silent (·.setPaused true))
    return true
  | .unpause => do
    onTopic command.topic (silent (·.setPaused false))
    return true
  | .empty => do
    onTopic command.topic (silent fun topic => topic.emptyTopic (moment.order topic))
    return true
  | .delete | .tombstone => do
    let untilMs ← ofExcept (validTombstone command.tombstoneUntilMs replayed (moment.nowMs 1))
    let fenced ← setTopicFence command.topic untilMs
    let deleted ← deleteIf moment (decide (command.action = .delete)) command.topic
    return fenced || deleted

def TopicCommand.fingerprint (command : TopicCommand) (policy : Option TopicPolicy) : Fingerprint :=
  .topic command.topic command.action policy

def checkedName (name : String) (error : BrokerError) : Except BrokerError Unit :=
  match validateName name with
  | .error _ => .error error
  | .ok () => .ok ()

def manageTopic (command : TopicCommand) : Task ManagementResult := do
  ofExcept (checkedName command.topic .invalidTopic)
  let policy ← ofExcept (validatePolicy command.action command.policy)
  manage command.operationId command.topic (command.fingerprint policy) command.expectedRevision
    (checkTopic moment command) (actOnTopic moment command policy)

/-! ### Calls about a channel -/

structure ChannelCommand where
  operationId : String
  topic : String
  channel : String
  action : ChannelAction
  expectedRevision : ℕ
  tombstoneUntilMs : Option ℤ
  requireIdle : Bool
  deriving DecidableEq, Repr

def ChannelCommand.fingerprint (command : ChannelCommand) : Fingerprint :=
  .channel command.topic command.channel command.action command.requireIdle

def setChannelFence (command : ChannelCommand) (untilMs : ℤ) : Task Bool := do
  let broker ← get
  let (changed, fences) := broker.fences.setChannelFence command.topic command.channel untilMs
    command.requireIdle
  set { broker with fences := fences }
  return changed

def clearChannelFence (topic channel : String) : Task Bool := do
  let broker ← get
  set { broker with fences := (broker.fences.clearChannel topic channel).2 }
  return (broker.fences.clearChannel topic channel).1

def requireChannel (topic channel : String) : Task Unit := do
  let broker ← get
  match broker.topics[topic]? with
  | none => throw .topicNotFound
  | some state => if channel ∈ state.channels then return () else throw .channelNotFound

/-- A channel that has to be idle has nothing to deliver, nothing in flight and nothing deferred. -/
def checkIdle (command : ChannelCommand) (pending : Bool) : Task Unit := do
  let broker ← get
  match broker.topics[command.topic]? with
  | none => if pending then return () else throw .topicNotFound
  | some topic =>
    if command.channel ∈ topic.channels then
      match topic.channelCounts command.channel (moment.nowMs 1) with
      | .error error => throw error
      | .ok (depth, inFlight, deferred) =>
        if depth ≠ 0 ∨ inFlight ≠ 0 ∨ deferred ≠ 0 then
          throw (.channelNotIdle depth inFlight deferred)
        else return ()
    else if pending then return () else throw .channelNotFound

/-- The checks that a pending operation has passed. -/
def checkNewChannel (command : ChannelCommand) (pending : Bool) : Task Unit :=
  if pending then pure ()
  else
    match command.action with
    | .delete | .tombstone => do
      let _ ← ofExcept (validTombstone command.tombstoneUntilMs false (moment.nowMs 0))
    | .pause | .unpause | .empty => requireChannel command.topic command.channel
    | .create => pure ()

def checkIdleDelete (command : ChannelCommand) (pending : Bool) : Task Unit :=
  if command.action = .delete ∧ command.requireIdle then checkIdle moment command pending
  else pure ()

def checkChannel (command : ChannelCommand) (pending : Bool) : Task Unit := do
  checkNewChannel moment command pending
  checkIdleDelete moment command pending

/-- The channel is deleted if there is one. -/
def deleteChannelIf (delete : Bool) (topic channel : String) : Task Bool := do
  let broker ← get
  if delete ∧ (broker.topics[topic]?).any fun state => decide (channel ∈ state.channels) then do
    onTopic topic (silent (·.deleteChannel channel))
    return true
  else return false

/-- The action of a call.  A deletion does the same with and without the lock of an idle channel. -/
def actOnChannel (command : ChannelCommand) (replayed : Bool) : Task Bool :=
  match command.action with
  | .create => do
    getOrCreateTopicLocked moment command.topic
    let created ← onTopic command.topic (·.createChannel command.channel moment.cutoffNs)
    let cleared ← clearChannelFence command.topic command.channel
    return created || cleared
  | .pause => do
    onTopic command.topic (silent (·.setChannelPaused command.channel true))
    return true
  | .unpause => do
    onTopic command.topic (silent (·.setChannelPaused command.channel false))
    return true
  | .empty => do
    onTopic command.topic (silent (·.emptyChannel command.channel))
    return true
  | .delete | .tombstone => do
    let untilMs ← ofExcept (validTombstone command.tombstoneUntilMs replayed (moment.nowMs 2))
    let fenced ← setChannelFence command untilMs
    let deleted ← deleteChannelIf (decide (command.action = .delete)) command.topic command.channel
    return fenced || deleted

def manageChannel (command : ChannelCommand) : Task ManagementResult := do
  ofExcept (checkedName command.topic .invalidTopic)
  ofExcept (checkedName command.channel .invalidChannel)
  manage command.operationId command.topic command.fingerprint command.expectedRevision
    (checkChannel moment command) (actOnChannel moment command)

end Broker

end RustQueue
