import RustQueue.Management.Retries

/-!
# Deleted topics

A Delete writes a tombstone and removes the topic, and holds the lifecycle lock meanwhile.  A publisher
checks the pending operations, then the tombstones, then looks for the topic, and takes the lock only
if it has to create it.  Nothing checks the tombstones again under the lock.

* `Activity`, `Event`, `Progress`: a broker with any number of publishers and a Delete, step by step;
* `deleted_stays_absent`: if no publisher is between its checks and its topic when a Delete writes its
  tombstone, then from its answer on there is no live topic of the name, until the tombstone lapses, is
  shortened or is taken away, or a management call creates the topic.
-/

namespace RustQueue.Broker

open Lib Topic Management

/-! ### The other calls that take the lifecycle lock -/

def checkAccess (topic : String) (channel : Option String) (nowMs : ℤ) : Task Unit := do
  let broker ← get
  ofExcept (broker.ensureManagementAccess topic channel nowMs)

variable (moment : Moment)

def createTopic (name : String) : Task Unit := do
  ofExcept (checkedName name .invalidTopic)
  checkAccess name none (moment.nowMs 0)
  getOrCreateTopicLocked moment name

/-- What is checked before the lock is taken is checked again under it. -/
def deleteTopic (name : String) : Task Unit := do
  ofExcept (checkedName name .invalidTopic)
  checkAccess name none (moment.nowMs 0)
  let deleted ← deleteTopicLocked moment name
  raiseRevision deleted

/-- The topic of a new channel. -/
def channelTopic (topic : String) (createTopic : Bool) : Task Unit :=
  if createTopic then getOrCreateTopicLocked moment topic else requireTopic topic

def createChannelInner (topic channel : String) (createTopic : Bool) : Task Unit := do
  ofExcept (checkedName topic .invalidTopic)
  ofExcept (checkedName channel .invalidChannel)
  checkAccess topic (some channel) (moment.nowMs 0)
  channelTopic moment topic createTopic
  let created ← onTopic topic (·.createChannel channel moment.cutoffNs)
  raiseRevision created

/-- A call of the data plane that holds the lifecycle lock from its checks to its end. -/
inductive LockedCall where
  | createTopic (name : String)
  | deleteTopic (name : String)
  | createChannel (topic channel : String) (createTopic : Bool)
  deriving DecidableEq, Repr

def LockedCall.run : LockedCall → Task Unit
  | .createTopic name => Broker.createTopic moment name
  | .deleteTopic name => Broker.deleteTopic moment name
  | .createChannel topic channel create => createChannelInner moment topic channel create

def LockedCall.topicName : LockedCall → String
  | .createTopic name => name
  | .deleteTopic name => name
  | .createChannel topic _ _ => topic

/-! ### The stages of a Delete -/

def beginTopic (command : TopicCommand) : Task Begun := do
  ofExcept (checkedName command.topic .invalidTopic)
  let policy ← ofExcept (validatePolicy command.action command.policy)
  beginOperation command.operationId command.topic (command.fingerprint policy) command.expectedRevision
    (checkTopic moment command)

def writeTombstone (command : TopicCommand) (replayed : Bool) : Task Bool := do
  let untilMs ← ofExcept (validTombstone command.tombstoneUntilMs replayed (moment.nowMs 1))
  setTopicFence command.topic untilMs

/-- **A Delete is its stages**, when nothing happens between them. -/
theorem manageTopic_eq_stages {command : TopicCommand} (h : command.action = .delete) (moment : Moment) :
    manageTopic moment command = (do
      match ← beginTopic moment command with
      | .answered result => return result
      | .works replayed id => do
        let fenced ← writeTombstone moment command replayed
        let deleted ← deleteTopicLocked moment command.topic
        conclude (fenced || deleted) replayed id) := by
  unfold manageTopic beginTopic
  rw [bind_assoc]
  congr 1
  funext _
  rw [bind_assoc]
  congr 1
  funext policy
  rw [manage_eq_begin]
  congr 1
  funext begun
  cases begun with
  | answered result => rfl
  | works replayed id =>
    unfold actOnTopic writeTombstone
    simp only [h, bind_assoc, pure_bind, deleteIf, decide_true, if_true]

/-! ### Publishers and a Delete -/

/-- Where a publisher is on the way to its topic.  One that has it is idle again: what it then does to
the topic creates and deletes none. -/
inductive Publisher where
  | idle
  | checked (topic : String)
  | passed (topic : String)
  | waiting (topic : String)
  deriving DecidableEq, Repr

/-- The publisher creates its topic if it does not find it, whatever the tombstones say by then. -/
def Publisher.Bound (name : String) (publisher : Publisher) : Prop :=
  publisher = .passed name ∨ publisher = .waiting name

inductive Stage where
  | prepared
  | fenced (changed : Bool)
  | removed (changed : Bool)
  deriving DecidableEq, Repr

/-- A Delete that holds the lifecycle lock. -/
structure Deletion where
  command : TopicCommand
  id : String
  replayed : Bool
  stage : Stage
  deriving DecidableEq, Repr

structure Activity where
  broker : Broker
  publishers : ℕ → Publisher
  deletion : Option Deletion

/-- What happens, with the readings of the clock.  A publisher is a group of publishes or a move to a
dead-letter topic; `work` is anything that creates and deletes no topic and sets no fence. -/
inductive Event where
  | checkOperations (publisher : ℕ) (topic : String)
  | checkFences (publisher : ℕ) (nowMs : ℤ)
  | lookUp (publisher : ℕ)
  | create (publisher : ℕ) (moment : Moment)
  | beginDelete (moment : Moment) (command : TopicCommand)
  | writeTombstone (moment : Moment)
  | remove (moment : Moment)
  | finishDelete (result : ManagementResult)
  | abandonDelete
  | locked (moment : Moment) (call : LockedCall)
  | manage (moment : Moment) (call : Call)
  | syncFences (snapshot : ManagementFenceSnapshot) (nowMs : ℤ)
  | cleanup (moment : Moment) (name : String)
  | work
  | restart

/-- The first part of the access check. -/
def operationsAllow (broker : Broker) (topic : String) : Bool :=
  broker.managementFencesReady && !broker.operations.blocksTopic topic

theorem ensureManagementAccess_eq_ok {broker : Broker} {topic : String} {nowMs : ℤ} :
    broker.ensureManagementAccess topic none nowMs = .ok () ↔
      broker.operationsAllow topic = true ∧ broker.fences.topicBlocked topic nowMs = false := by
  unfold ensureManagementAccess operationsAllow
  cases broker.managementFencesReady <;> cases broker.operations.blocksTopic topic <;>
    cases broker.fences.topicBlocked topic nowMs <;> simp

/-- The same topics, each with the same mark, and the same fences. -/
structure SameTopics (broker broker' : Broker) : Prop where
  topics : ∀ name, name ∈ broker'.topics ↔ name ∈ broker.topics
  directories : ∀ name : String, (broker'.directories[name]?).map (·.manifest.deleted) =
    (broker.directories[name]?).map (·.manifest.deleted)
  fences : broker'.fences = broker.fences

/-- A broker that starts again opens the topics that are not marked, and removes the others. -/
structure Restarted (broker broker' : Broker) : Prop where
  topics : ∀ name : String, name ∈ broker'.topics ↔
    ∃ directory ∈ broker.directories[name]?, directory.manifest.deleted = false
  directories : ∀ (name : String) directory, broker'.directories[name]? = some directory →
    directory.manifest.deleted = false ∧ name ∈ broker'.topics
  fences : broker'.fences = broker.fences

namespace Activity

def withPublisher (s : Activity) (i : ℕ) (publisher : Publisher) : Activity :=
  { s with publishers := Function.update s.publishers i publisher }

end Activity

/-- **One step of the whole.**  The steps that create or delete topics wait for the lifecycle lock. -/
inductive Progress : Activity → Event → Activity → Prop
  | checkOperations {s : Activity} {i : ℕ} (topic : String) (h : s.publishers i = .idle) :
    Progress s (.checkOperations i topic)
      (s.withPublisher i (if s.broker.operationsAllow topic then .checked topic else .idle))
  | checkFences {s : Activity} {i : ℕ} {topic : String} (nowMs : ℤ)
    (h : s.publishers i = .checked topic) :
    Progress s (.checkFences i nowMs)
      (s.withPublisher i (if s.broker.fences.topicBlocked topic nowMs then .idle else .passed topic))
  | lookUp {s : Activity} {i : ℕ} {topic : String} (h : s.publishers i = .passed topic) :
    Progress s (.lookUp i) (s.withPublisher i (if topic ∈ s.broker.topics then .idle else .waiting topic))
  | create {s : Activity} {i : ℕ} {topic : String} (moment : Moment)
    (h : s.publishers i = .waiting topic) (hfree : s.deletion = none) :
    Progress s (.create i moment)
      { s.withPublisher i .idle with broker := finalState (getOrCreateTopicLocked moment topic s.broker) }
  | beginDelete {s : Activity} {moment : Moment} {command : TopicCommand} {replayed : Bool}
    {id : String} {broker : Broker} (hfree : s.deletion = none) (haction : command.action = .delete)
    (h : beginTopic moment command s.broker = .ok (.works replayed id) broker) :
    Progress s (.beginDelete moment command)
      { s with broker := broker, deletion := some ⟨command, id, replayed, .prepared⟩ }
  | writeTombstone {s : Activity} {moment : Moment} {command : TopicCommand} {replayed : Bool}
    {id : String} {fenced : Bool} {broker : Broker}
    (hstage : s.deletion = some ⟨command, id, replayed, .prepared⟩)
    (h : Broker.writeTombstone moment command replayed s.broker = .ok fenced broker) :
    Progress s (.writeTombstone moment)
      { s with broker := broker, deletion := some ⟨command, id, replayed, .fenced fenced⟩ }
  | remove {s : Activity} {moment : Moment} {command : TopicCommand} {replayed : Bool}
    {id : String} {fenced deleted : Bool} {broker : Broker}
    (hstage : s.deletion = some ⟨command, id, replayed, .fenced fenced⟩)
    (h : deleteTopicLocked moment command.topic s.broker = .ok deleted broker) :
    Progress s (.remove moment)
      { s with broker := broker, deletion := some ⟨command, id, replayed, .removed (fenced || deleted)⟩ }
  | finishDelete {s : Activity} {command : TopicCommand} {replayed : Bool} {id : String}
    {changed : Bool} {result : ManagementResult} {broker : Broker}
    (hstage : s.deletion = some ⟨command, id, replayed, .removed changed⟩)
    (h : conclude changed replayed id s.broker = .ok result broker) :
    Progress s (.finishDelete result) { s with broker := broker, deletion := none }
  | abandonDelete {s : Activity} : Progress s .abandonDelete { s with deletion := none }
  | locked {s : Activity} (moment : Moment) (call : LockedCall) (hfree : s.deletion = none) :
    Progress s (.locked moment call) { s with broker := finalState (call.run moment s.broker) }
  | manage {s : Activity} (moment : Moment) (call : Call) (hfree : s.deletion = none) :
    Progress s (.manage moment call) { s with broker := finalState (call.run moment s.broker) }
  | syncFences {s : Activity} (snapshot : ManagementFenceSnapshot) (nowMs : ℤ) :
    Progress s (.syncFences snapshot nowMs)
      { s with broker := s.broker.syncManagementFences snapshot nowMs }
  | cleanup {s : Activity} (moment : Moment) (name : String) (hfree : s.deletion = none) :
    Progress s (.cleanup moment name)
      { s with broker := finalState (cleanupRetiredTopic moment name s.broker) }
  | work {s : Activity} {broker : Broker} (h : SameTopics s.broker broker) :
    Progress s .work { s with broker := broker }
  | restart {s : Activity} {broker : Broker} (h : Restarted s.broker broker) :
    Progress s .restart ⟨broker, fun _ => .idle, none⟩

/-! ### Directories and topics -/

/-- A directory without the mark belongs to a topic of the map. -/
def Housed (broker : Broker) : Prop :=
  ∀ (name : String) directory, broker.directories[name]? = some directory →
    directory.manifest.deleted = false → name ∈ broker.topics

/-- There is no live topic of the name, in the map or on disk. -/
def Absent (name : String) (broker : Broker) : Prop :=
  name ∉ broker.topics ∧
    ∀ directory ∈ broker.directories[name]?, directory.manifest.deleted = true

/-- The name is fenced at least until the time. -/
def Fenced (name : String) (untilMs : ℤ) (fences : FenceCatalog) : Prop :=
  ∃ u ∈ fences.topics[name]?, untilMs ≤ u

/-- The topic stays fenced, and absent once it is. -/
def Shut (name : String) (untilMs : ℤ) (broker broker' : Broker) : Prop :=
  (Fenced name untilMs broker.fences → Fenced name untilMs broker'.fences) ∧
    (Absent name broker → Absent name broker')

section Frames

variable {broker : Broker} {name : String} {untilMs : ℤ}

theorem absent_withoutTopic (topic : Topic) : Absent name (broker.withoutTopic moment name topic) := by
  unfold withoutTopic removeTopic
  split_ifs
  · refine ⟨?_, ?_⟩
    · rw [mem_erase_eq]
      exact fun h => h.1 rfl
    · intro directory hdirectory
      rw [Broker.withTopic, Option.mem_def, getElem?_modify_eq, if_pos rfl,
        Option.map_eq_some_iff] at hdirectory
      obtain ⟨before, -, rfl⟩ := hdirectory
      rfl
  · refine ⟨?_, ?_⟩
    · rw [mem_erase_eq]
      exact fun h => h.1 rfl
    · intro directory hdirectory
      rw [Option.mem_def, getElem?_erase_eq, if_pos rfl] at hdirectory
      cases hdirectory

theorem withoutTopic_other (topic : Topic) {other : String} (h : name ≠ other) :
    (other ∈ (broker.withoutTopic moment name topic).topics ↔ other ∈ broker.topics) ∧
      (broker.withoutTopic moment name topic).directories[other]? = broker.directories[other]? := by
  unfold withoutTopic removeTopic Broker.withTopic
  split_ifs
  · refine ⟨?_, ?_⟩
    · rw [mem_erase_eq, mem_insert_eq]
      simp [h]
    · rw [getElem?_modify_eq, if_neg h]
  · refine ⟨?_, ?_⟩
    · rw [mem_erase_eq, mem_insert_eq]
      simp [h]
    · rw [getElem?_erase_eq, if_neg h, getElem?_modify_eq, if_neg h]

theorem housed_frame : Frame (fun b b' => Housed b → Housed b') (fun _ => True) fun _ _ => True where
  refl := fun _ h => h
  trans := fun _ _ _ h h' hb => h' (h hb)
  withTopic := by
    intro broker name topic writes hmem h other directory hget hlive
    rw [Broker.withTopic, mem_insert_eq]
    rw [Broker.withTopic, getElem?_modify_eq] at hget
    split_ifs at hget with heq
    · exact Or.inl heq
    · exact Or.inr (h other directory hget hlive)
  dropRetired := by
    intro broker name h other directory hget hlive
    rw [Broker.dropRetired, getElem?_erase_eq] at hget
    split_ifs at hget with heq
    exact h other directory hget hlive
  addTopic := by
    intro broker name _ h other directory hget hlive
    rw [Broker.addTopic, mem_insert_eq]
    rw [Broker.addTopic, getElem?_insert_eq] at hget
    split_ifs at hget with heq
    · exact Or.inl heq
    · exact Or.inr (h other directory hget hlive)
  withoutTopic := by
    intro broker moment name topic _ h other directory hget hlive
    by_cases heq : name = other
    · subst heq
      have hmarked := (absent_withoutTopic moment topic).2 directory hget
      rw [hlive] at hmarked
      cases hmarked
    · obtain ⟨hmem, hdirectory⟩ := withoutTopic_other moment topic heq
      rw [hdirectory] at hget
      exact hmem.2 (h other directory hget hlive)
  setFences := fun _ _ _ h => h
  setRevision := fun _ _ h => h

theorem shut_frame (name : String) (untilMs : ℤ) :
    Frame (Shut name untilMs) (fun created => created ≠ name)
      fun fences fences' => Fenced name untilMs fences → Fenced name untilMs fences' where
  refl := fun _ => ⟨id, id⟩
  trans := fun _ _ _ h h' => ⟨fun hf => h'.1 (h.1 hf), fun ha => h'.2 (h.2 ha)⟩
  withTopic := by
    intro broker other topic writes hmem
    refine ⟨id, fun ⟨habsent, hmarked⟩ => ?_⟩
    have hne : other ≠ name := fun heq => habsent (heq ▸ hmem)
    refine ⟨?_, ?_⟩
    · rw [Broker.withTopic, mem_insert_eq]
      rintro (heq | h)
      · exact hne heq
      · exact habsent h
    · rw [Broker.withTopic, getElem?_modify_eq, if_neg hne]
      exact hmarked
  dropRetired := by
    intro broker other
    refine ⟨id, fun ⟨habsent, hmarked⟩ => ⟨habsent, ?_⟩⟩
    rw [Broker.dropRetired, getElem?_erase_eq]
    split_ifs
    · rintro directory ⟨⟩
    · exact hmarked
  addTopic := by
    intro broker other hne
    refine ⟨id, fun ⟨habsent, hmarked⟩ => ⟨?_, ?_⟩⟩
    · rw [Broker.addTopic, mem_insert_eq]
      rintro (heq | h)
      · exact hne heq
      · exact habsent h
    · rw [Broker.addTopic, getElem?_insert_eq, if_neg hne]
      exact hmarked
  withoutTopic := by
    intro broker moment other topic htopic
    refine ⟨?_, fun ⟨habsent, hmarked⟩ => ?_⟩
    · unfold Broker.withoutTopic removeTopic
      split_ifs <;> exact id
    · have hne : other ≠ name := by
        rintro rfl
        refine habsent ?_
        rw [Std.ExtTreeMap.mem_iff_isSome_getElem?, htopic]
        rfl
      obtain ⟨hmem, hdirectory⟩ := withoutTopic_other moment topic hne
      refine ⟨fun h => habsent (hmem.1 h), ?_⟩
      rw [hdirectory]
      exact hmarked
  setFences := fun _ _ h => ⟨h, id⟩
  setRevision := fun _ _ => ⟨id, id⟩

end Frames

section Steps

variable {R : Broker → Broker → Prop} {creates : String → Prop}
  {fences : FenceCatalog → FenceCatalog → Prop} {broker : Broker} {name : String} {untilMs : ℤ}

theorem Frame.checkAccess (frame : Frame R creates fences) (topic : String) (channel : Option String)
    (nowMs : ℤ) : Leaves R (checkAccess topic channel nowMs) := by
  refine leaves_get_bind fun broker => ?_
  exact leaves_ofExcept frame.refl (broker.ensureManagementAccess topic channel nowMs) broker

theorem Frame.channelTopic (frame : Frame R creates fences) (moment : Moment) {topic : String}
    (hcreates : creates topic) (createTopic : Bool) :
    Leaves R (channelTopic moment topic createTopic) := by
  cases createTopic with
  | true => exact frame.getOrCreateTopicLockedWithPolicy moment hcreates none
  | false =>
    refine leaves_get_bind fun broker => ?_
    split_ifs <;> exact frame.refl broker

theorem topicBlocked_of_fenced {catalog : FenceCatalog} {nowMs : ℤ} (h : Fenced name untilMs catalog)
    (hnow : nowMs < untilMs) : catalog.topicBlocked name nowMs = true := by
  obtain ⟨u, hu, hle⟩ := h
  unfold FenceCatalog.topicBlocked
  rw [Option.mem_def.1 hu]
  exact decide_eq_true (lt_of_lt_of_le hnow hle)

theorem Frame.locked (frame : Frame R creates fences) (moment : Moment) {call : LockedCall}
    (hcreates : creates call.topicName) : Leaves R (call.run moment) := by
  cases call with
  | createTopic topic =>
    refine (leaves_ofExcept frame.refl _).bind frame.trans fun _ => ?_
    refine (frame.checkAccess _ _ _).bind frame.trans fun _ => ?_
    exact frame.getOrCreateTopicLockedWithPolicy moment hcreates none
  | deleteTopic topic =>
    refine (leaves_ofExcept frame.refl _).bind frame.trans fun _ => ?_
    refine (frame.checkAccess _ _ _).bind frame.trans fun _ => ?_
    exact (frame.deleteTopicLocked moment topic).bind frame.trans fun deleted =>
      frame.raiseRevision deleted
  | createChannel topic channel create =>
    refine (leaves_ofExcept frame.refl _).bind frame.trans fun _ => ?_
    refine (leaves_ofExcept frame.refl _).bind frame.trans fun _ => ?_
    refine (frame.checkAccess _ _ _).bind frame.trans fun _ => ?_
    refine (frame.channelTopic moment hcreates create).bind frame.trans fun _ => ?_
    exact (frame.onTopic topic _).bind frame.trans fun created => frame.raiseRevision created

theorem ensureManagementAccess_of_fenced {channel : Option String} {nowMs : ℤ}
    (h : Fenced name untilMs broker.fences) (hnow : nowMs < untilMs) :
    ∃ e, broker.ensureManagementAccess name channel nowMs = .error e := by
  have hblocked : broker.fences.topicBlocked name nowMs = true := topicBlocked_of_fenced h hnow
  unfold ensureManagementAccess
  split_ifs
  · exact ⟨_, rfl⟩
  · exact ⟨_, rfl⟩
  · exact ⟨_, rfl⟩

theorem finalState_ofExcept_bind {α β : Type} {result : Except BrokerError α} {f : α → Task β}
    (h : ∀ a, result = .ok a → finalState (f a broker) = broker) :
    finalState ((ofExcept result >>= f) broker) = broker := by
  cases result with
  | error e => rfl
  | ok a => exact h a rfl

theorem finalState_checkAccess_bind {β : Type} {f : Unit → Task β} {channel : Option String} {nowMs : ℤ}
    (h : Fenced name untilMs broker.fences) (hnow : nowMs < untilMs) :
    finalState ((Broker.checkAccess name channel nowMs >>= f) broker) = broker := by
  have herror : ∃ e, broker.ensureManagementAccess name channel nowMs = .error e :=
    ensureManagementAccess_of_fenced h hnow
  obtain ⟨e, herror⟩ := herror
  have hchecked : Broker.checkAccess name channel nowMs broker = .error e broker := by
    unfold Broker.checkAccess
    refine run_bind_eq_error.2 (Or.inr ⟨broker, broker, rfl, ?_⟩)
    rw [herror]
    rfl
  rw [run_bind_eq_error.2 (Or.inl hchecked)]
  rfl

theorem LockedCall.finalState_of_fenced {call : LockedCall} {moment : Moment}
    (h : Fenced call.topicName untilMs broker.fences) (hnow : moment.nowMs 0 < untilMs) :
    finalState (call.run moment broker) = broker := by
  cases call with
  | createTopic topic => exact finalState_ofExcept_bind fun _ _ => finalState_checkAccess_bind h hnow
  | deleteTopic topic => exact finalState_ofExcept_bind fun _ _ => finalState_checkAccess_bind h hnow
  | createChannel topic channel create =>
    exact finalState_ofExcept_bind fun _ _ => finalState_ofExcept_bind fun _ _ =>
      finalState_checkAccess_bind h hnow

theorem Frame.beginTopic (frame : Frame R creates fences)
    (hoperations : ∀ (broker : Broker) next, R broker { broker with operations := next })
    (moment : Moment) (command : TopicCommand) : Leaves R (beginTopic moment command) := by
  refine (leaves_ofExcept frame.refl _).bind frame.trans fun _ => ?_
  refine (leaves_ofExcept frame.refl _).bind frame.trans fun _ => ?_
  exact frame.beginOperation hoperations (leaves_checkTopic moment command)

theorem Frame.writeTombstone (frame : Frame R creates fences) (moment : Moment)
    {command : TopicCommand} (hset : ∀ untilMs ∈ command.tombstoneUntilMs, ∀ catalog,
      fences catalog (catalog.setTopic command.topic untilMs).2) (replayed : Bool) :
    Leaves R (writeTombstone moment command replayed) := by
  intro broker
  unfold Broker.writeTombstone
  cases hvalid : validTombstone command.tombstoneUntilMs replayed (moment.nowMs 1) with
  | error e => exact frame.refl broker
  | ok untilMs =>
    have hvalue := (validTombstone_eq_ok.1 hvalid).1
    exact frame.setFences broker _ (hset untilMs hvalue broker.fences)

theorem housed_operations (broker : Broker) (next : OperationCatalog) :
    Housed broker → Housed { broker with operations := next } := id

theorem shut_operations (name : String) (untilMs : ℤ) (broker : Broker) (next : OperationCatalog) :
    Shut name untilMs broker { broker with operations := next } := ⟨id, id⟩

/-- **Every step keeps the directories housed.** -/
theorem Progress.housed {s s' : Activity} {event : Event} (h : Progress s event s')
    (hhoused : Housed s.broker) : Housed s'.broker := by
  cases h with
  | checkOperations => exact hhoused
  | checkFences => exact hhoused
  | lookUp => exact hhoused
  | @create i topic moment =>
    exact housed_frame.getOrCreateTopicLockedWithPolicy moment trivial none s.broker hhoused
  | @beginDelete moment command _ _ _ _ _ hbegin =>
    exact (housed_frame.beginTopic housed_operations moment command).of_ok hbegin hhoused
  | writeTombstone _ hwrite =>
    exact (housed_frame.writeTombstone _ (fun _ _ _ => trivial) _).of_ok hwrite hhoused
  | remove _ hremove => exact (housed_frame.deleteTopicLocked _ _).of_ok hremove hhoused
  | finishDelete _ hconclude =>
    exact (housed_frame.conclude housed_operations _ _ _).of_ok hconclude hhoused
  | abandonDelete => exact hhoused
  | locked moment call => exact housed_frame.locked moment trivial s.broker hhoused
  | manage moment call =>
    cases call with
    | topic command =>
      exact housed_frame.manageTopic housed_operations moment (fun _ => ⟨trivial, fun _ => trivial⟩)
        (fun _ _ _ _ => trivial) s.broker hhoused
    | channel command =>
      exact housed_frame.manageChannel housed_operations moment (fun _ => trivial)
        (fun _ _ _ => trivial) s.broker hhoused
  | syncFences => exact hhoused
  | cleanup moment name => exact housed_frame.cleanupRetiredTopic moment name s.broker hhoused
  | work hsame =>
    intro name directory hget hlive
    have hflag := hsame.directories name
    rw [hget, Option.map_some, hlive] at hflag
    obtain ⟨before, hbefore, hlive'⟩ := Option.map_eq_some_iff.1 hflag.symm
    exact (hsame.topics name).2 (hhoused name before hbefore hlive')
  | restart hrestarted =>
    intro name directory hget _
    exact (hrestarted.directories name directory hget).2

/-! ### The time of a tombstone -/

/-- The call does not create the topic and does not shorten its tombstone. -/
def Call.Spares (name : String) (untilMs : ℤ) : Call → Prop
  | .topic command => command.topic = name → command.action ≠ .create ∧
      (command.action = .delete ∨ command.action = .tombstone →
        ∀ u ∈ command.tombstoneUntilMs, untilMs ≤ u)
  | .channel command => command.topic = name → command.action ≠ .create

/-- The event belongs to the time of a tombstone: the clock has not reached its end, and neither a
snapshot nor a management call takes it away or shortens it. -/
def Event.Within (name : String) (untilMs : ℤ) : Event → Prop
  | .checkFences _ nowMs => nowMs < untilMs
  | .locked moment _ => moment.nowMs 0 < untilMs
  | .beginDelete _ command => command.topic = name → ∀ u ∈ command.tombstoneUntilMs, untilMs ≤ u
  | .manage _ call => call.Spares name untilMs
  | .syncFences snapshot _ => ∃ u ∈ snapshot.topics[name]?, untilMs ≤ u
  | _ => True

/-- What holds from the tombstone on. -/
structure Guarded (name : String) (untilMs : ℤ) (s : Activity) : Prop where
  housed : Housed s.broker
  fenced : Fenced name untilMs s.broker.fences
  unbound : ∀ i, ¬(s.publishers i).Bound name
  longer : ∀ deletion ∈ s.deletion, deletion.command.topic = name →
    ∀ u ∈ deletion.command.tombstoneUntilMs, untilMs ≤ u
  removed : ∀ deletion ∈ s.deletion, deletion.command.topic = name →
    ∀ changed, deletion.stage = .removed changed → Absent name s.broker

theorem fenced_setTopic {catalog : FenceCatalog} {topic : String} {u : ℤ}
    (h : Fenced name untilMs catalog) (hle : topic = name → untilMs ≤ u) :
    Fenced name untilMs (catalog.setTopic topic u).2 := by
  obtain ⟨until', hget, hlater⟩ := h
  unfold FenceCatalog.setTopic Fenced
  rw [getElem?_insert_eq]
  split_ifs with heq
  · exact ⟨u, rfl, hle heq⟩
  · exact ⟨until', hget, hlater⟩

theorem fenced_clearTopic {catalog : FenceCatalog} {topic : String} (h : Fenced name untilMs catalog)
    (hne : topic ≠ name) : Fenced name untilMs (catalog.clearTopic topic).2 := by
  obtain ⟨until', hget, hlater⟩ := h
  refine ⟨until', ?_, hlater⟩
  rw [FenceCatalog.clearTopic, getElem?_erase_eq, if_neg hne]
  exact hget

/-- **A step within the time of the tombstone keeps the topic fenced, and absent once it is.** -/
theorem Progress.shut {s s' : Activity} {event : Event} (h : Progress s event s')
    (hwithin : event.Within name untilMs) (hguarded : Guarded name untilMs s) :
    Shut name untilMs s.broker s'.broker := by
  have frame := shut_frame name untilMs
  have hoperations := shut_operations name untilMs
  cases h with
  | checkOperations => exact frame.refl s.broker
  | checkFences => exact frame.refl s.broker
  | lookUp => exact frame.refl s.broker
  | @create i topic moment hwaiting =>
    have hne : topic ≠ name := by
      rintro rfl
      exact hguarded.unbound i (Or.inr hwaiting)
    exact frame.getOrCreateTopicLockedWithPolicy moment hne none s.broker
  | @beginDelete moment command _ _ _ _ _ hbegin =>
    exact (frame.beginTopic hoperations moment command).of_ok hbegin
  | writeTombstone hstage hwrite =>
    refine (frame.writeTombstone _ (fun u hu catalog hfenced => ?_) _).of_ok hwrite
    exact fenced_setTopic hfenced fun heq => hguarded.longer _ hstage heq u hu
  | remove _ hremove => exact (frame.deleteTopicLocked _ _).of_ok hremove
  | finishDelete _ hconclude => exact (frame.conclude hoperations _ _ _).of_ok hconclude
  | abandonDelete => exact frame.refl s.broker
  | locked moment call =>
    by_cases heq : call.topicName = name
    · have hsame : finalState (call.run moment s.broker) = s.broker :=
        LockedCall.finalState_of_fenced (heq ▸ hguarded.fenced) hwithin
      rw [hsame]
      exact frame.refl s.broker
    · exact frame.locked moment heq s.broker
  | manage moment call =>
    cases call with
    | topic command =>
      refine frame.manageTopic hoperations moment (fun hcreate => ?_)
        (fun hdelete u hu catalog hfenced => ?_) s.broker
      · have hne : command.topic ≠ name := fun heq => (hwithin heq).1 hcreate
        exact ⟨hne, fun catalog hfenced => fenced_clearTopic hfenced hne⟩
      · exact fenced_setTopic hfenced fun heq => (hwithin heq).2 hdelete u hu
    | channel command =>
      refine frame.manageChannel hoperations moment (fun hcreate heq => hwithin heq hcreate)
        (fun catalog next hsame hfenced => ?_) s.broker
      unfold Fenced
      rw [hsame]
      exact hfenced
  | syncFences snapshot nowMs => exact ⟨fun _ => hwithin, id⟩
  | cleanup moment other => exact frame.cleanupRetiredTopic moment other s.broker
  | work hsame =>
    refine ⟨fun hfenced => ?_, fun ⟨habsent, hmarked⟩ => ⟨fun h => habsent ((hsame.topics name).1 h), ?_⟩⟩
    · rw [hsame.fences]
      exact hfenced
    · intro directory hget
      have hflag := hsame.directories name
      rw [Option.mem_def.1 hget, Option.map_some] at hflag
      obtain ⟨before, hbefore, heq⟩ := Option.map_eq_some_iff.1 hflag.symm
      rw [← heq]
      exact hmarked before hbefore
  | @restart next hrestarted =>
    refine ⟨fun hfenced => ?_, fun ⟨_, hmarked⟩ => ?_⟩
    · rw [hrestarted.fences]
      exact hfenced
    · have habsent : name ∉ next.topics := by
        intro hmem
        obtain ⟨directory, hget, hlive⟩ := (hrestarted.topics name).1 hmem
        rw [hmarked directory hget] at hlive
        cases hlive
      exact ⟨habsent, fun directory hget => absurd (hrestarted.directories name directory hget).2 habsent⟩

theorem unbound_withPublisher {s : Activity} {i : ℕ} {publisher : Publisher}
    (h : ∀ j, ¬(s.publishers j).Bound name) (hi : ¬publisher.Bound name) (j : ℕ) :
    ¬((s.withPublisher i publisher).publishers j).Bound name := by
  show ¬(Function.update s.publishers i publisher j).Bound name
  by_cases heq : j = i
  · subst heq
    rw [Function.update_self]
    exact hi
  · rw [Function.update_of_ne heq]
    exact h j

theorem Progress.unbound {s s' : Activity} {event : Event} (h : Progress s event s')
    (hwithin : event.Within name untilMs) (hguarded : Guarded name untilMs s) (i : ℕ) :
    ¬(s'.publishers i).Bound name := by
  have hidle : ¬Publisher.idle.Bound name := by
    rintro (h | h) <;> cases h
  cases h with
  | checkOperations topic =>
    refine unbound_withPublisher hguarded.unbound ?_ i
    split_ifs
    · rintro (h | h) <;> cases h
    · exact hidle
  | @checkFences j topic nowMs =>
    refine unbound_withPublisher hguarded.unbound ?_ i
    split_ifs with hblocked
    · exact hidle
    · rintro (h | h)
      · cases h
        exact hblocked (topicBlocked_of_fenced hguarded.fenced hwithin)
      · cases h
  | @lookUp j topic hpassed =>
    refine unbound_withPublisher hguarded.unbound ?_ i
    split_ifs
    · exact hidle
    · rintro (h | h)
      · cases h
      · cases h
        exact hguarded.unbound j (Or.inl hpassed)
  | create moment => exact unbound_withPublisher hguarded.unbound hidle i
  | restart => exact hidle
  | beginDelete | writeTombstone | remove | finishDelete | abandonDelete | locked | manage | syncFences
    | cleanup | work => exact hguarded.unbound i

/-- The topic of a Delete is absent once the Delete has removed it. -/
theorem absent_of_deleteTopicLocked {moment : Moment} {deleted : Bool} {next : Broker}
    (hhoused : Housed broker) (h : deleteTopicLocked moment name broker = .ok deleted next) :
    Absent name next := by
  cases htopic : broker.topics[name]? with
  | some topic =>
    rw [deleteTopicLocked_of_some moment htopic] at h
    cases h
    exact absent_withoutTopic moment topic
  | none =>
    rw [deleteTopicLocked_of_none moment htopic] at h
    cases h
    have habsent : name ∉ broker.topics := by
      rw [Std.ExtTreeMap.mem_iff_isSome_getElem?, htopic]
      decide
    refine ⟨habsent, fun directory hget => ?_⟩
    cases hmark : directory.manifest.deleted with
    | true => rfl
    | false => exact absurd (hhoused name directory hget hmark) habsent

/-- **What the tombstone guards stays guarded.** -/
theorem Progress.guarded {s s' : Activity} {event : Event} (h : Progress s event s')
    (hwithin : event.Within name untilMs) (hguarded : Guarded name untilMs s) :
    Guarded name untilMs s' := by
  obtain ⟨hfenced, habsent⟩ := h.shut hwithin hguarded
  refine ⟨h.housed hguarded.housed, hfenced hguarded.fenced, h.unbound hwithin hguarded, ?_, ?_⟩
  · cases h with
    | beginDelete =>
      rintro deletion ⟨rfl⟩
      exact hwithin
    | writeTombstone hstage =>
      have hlonger := hguarded.longer _ hstage
      rintro deletion ⟨rfl⟩
      exact hlonger
    | remove hstage =>
      have hlonger := hguarded.longer _ hstage
      rintro deletion ⟨rfl⟩
      exact hlonger
    | finishDelete | abandonDelete | restart =>
      rintro deletion ⟨⟩
    | checkOperations | checkFences | lookUp | create | locked | manage | syncFences | cleanup | work =>
      exact hguarded.longer
  · cases h with
    | beginDelete =>
      rintro deletion ⟨rfl⟩ - changed ⟨⟩
    | writeTombstone =>
      rintro deletion ⟨rfl⟩ - changed ⟨⟩
    | remove _ hremove =>
      rintro deletion ⟨rfl⟩ rfl changed -
      exact absent_of_deleteTopicLocked hguarded.housed hremove
    | finishDelete | abandonDelete | restart =>
      rintro deletion ⟨⟩
    | checkOperations | checkFences | lookUp | create | locked | manage | syncFences | cleanup | work =>
      exact fun deletion hdeletion htopic changed hstage =>
        habsent (hguarded.removed deletion hdeletion htopic changed hstage)

end Steps

/-! ### Runs -/

/-- The events of a run, in order. -/
inductive Runs (s : Activity) : List Event → Activity → Prop
  | nil : Runs s [] s
  | snoc {events : List Event} {event : Event} {s' s'' : Activity} (h : Runs s events s')
    (hstep : Progress s' event s'') : Runs s (events ++ [event]) s''

/-- A broker on an empty data directory, without any call. -/
def Activity.initial (settings : BrokerSettings) : Activity :=
  ⟨Broker.empty settings, fun _ => .idle, none⟩

def Activity.Reachable (s : Activity) : Prop := ∃ settings events, Runs (.initial settings) events s

section Runs

variable {s s' : Activity} {events : List Event} {name : String} {untilMs : ℤ}

theorem Runs.housed (h : Runs s events s') (hhoused : Housed s.broker) : Housed s'.broker := by
  induction h with
  | nil => exact hhoused
  | snoc _ hstep ih => exact hstep.housed ih

theorem Activity.Reachable.housed (h : s.Reachable) : Housed s.broker := by
  obtain ⟨settings, events, hrun⟩ := h
  refine hrun.housed fun name directory hget => ?_
  rw [Activity.initial, Broker.empty, Std.ExtTreeMap.getElem?_empty] at hget
  cases hget

theorem Activity.Reachable.step {event : Event} (h : s.Reachable) (hstep : Progress s event s') :
    s'.Reachable := by
  obtain ⟨settings, events, hrun⟩ := h
  exact ⟨settings, events ++ [event], .snoc hrun hstep⟩

theorem Runs.guarded (h : Runs s events s') (hwithin : ∀ event ∈ events, event.Within name untilMs)
    (hguarded : Guarded name untilMs s) : Guarded name untilMs s' := by
  induction h with
  | nil => exact hguarded
  | snoc _ hstep ih =>
    have hbefore := ih fun event hevent => hwithin event (List.mem_append_left _ hevent)
    exact hstep.guarded (hwithin _ (List.mem_append_right _ List.mem_cons_self)) hbefore

theorem Runs.absent (h : Runs s events s') (hwithin : ∀ event ∈ events, event.Within name untilMs)
    (hguarded : Guarded name untilMs s) (habsent : Absent name s.broker) : Absent name s'.broker := by
  induction h with
  | nil => exact habsent
  | snoc hrun hstep ih =>
    have hwithin' := fun event hevent => hwithin event (List.mem_append_left _ hevent)
    have hguarded' := hrun.guarded hwithin' hguarded
    exact (hstep.shut (hwithin _ (List.mem_append_right _ List.mem_cons_self)) hguarded').2 (ih hwithin')

theorem fenced_of_writeTombstone {moment : Moment} {command : TopicCommand} {replayed fenced : Bool}
    {broker next : Broker} (huntil : command.tombstoneUntilMs = some untilMs)
    (h : writeTombstone moment command replayed broker = .ok fenced next) :
    Fenced command.topic untilMs next.fences := by
  unfold writeTombstone at h
  cases hvalid : validTombstone command.tombstoneUntilMs replayed (moment.nowMs 1) with
  | error e =>
    rw [hvalid] at h
    cases h
  | ok u =>
    rw [hvalid] at h
    cases h
    rw [(validTombstone_eq_ok.1 hvalid).1, Option.some.injEq] at huntil
    refine ⟨u, ?_, huntil.ge⟩
    show (broker.fences.topics.insert command.topic u)[command.topic]? = some u
    rw [getElem?_insert_eq, if_pos rfl]

/-- A tombstone guards its topic if no publisher is bound for it. -/
theorem guarded_of_writeTombstone {moment : Moment} {deletion : Deletion} (hreach : s.Reachable)
    (hdeletion : s.deletion = some deletion) (huntil : deletion.command.tombstoneUntilMs = some untilMs)
    (hunbound : ∀ i, ¬(s.publishers i).Bound deletion.command.topic)
    (h : Progress s (.writeTombstone moment) s') :
    Guarded deletion.command.topic untilMs s' := by
  have hhoused := h.housed hreach.housed
  cases h with
  | writeTombstone hstage hwrite =>
    rw [hdeletion, Option.some.injEq] at hstage
    subst hstage
    refine ⟨hhoused, ?_, hunbound, ?_, ?_⟩
    · exact fenced_of_writeTombstone huntil hwrite
    · rintro _ ⟨rfl⟩ - u hu
      rw [huntil] at hu
      cases hu
      exact le_refl _
    · rintro _ ⟨rfl⟩ - changed ⟨⟩

/-- **A deleted topic stays absent.**  If no publisher is bound for the topic when a Delete writes its
tombstone, then there is no live topic of the name from the Delete's answer on, for the time of the
tombstone. -/
theorem deleted_stays_absent {s₀ s₁ s₂ s₃ s₄ : Activity} {before after : List Event} {moment : Moment}
    {deletion last : Deletion} {untilMs : ℤ} {result : ManagementResult} (hreach : s₀.Reachable)
    (hdeletion : s₀.deletion = some deletion)
    (huntil : deletion.command.tombstoneUntilMs = some untilMs)
    (hunbound : ∀ i, ¬(s₀.publishers i).Bound deletion.command.topic)
    (hwrite : Progress s₀ (.writeTombstone moment) s₁) (hbefore : Runs s₁ before s₂)
    (hlast : s₂.deletion = some last) (hname : last.command.topic = deletion.command.topic)
    (hanswer : Progress s₂ (.finishDelete result) s₃) (hafter : Runs s₃ after s₄)
    (hwithin : ∀ event ∈ before ++ after, event.Within deletion.command.topic untilMs) :
    Absent deletion.command.topic s₄.broker := by
  have hguarded₂ := hbefore.guarded (fun event hevent => hwithin event (List.mem_append_left _ hevent))
    (guarded_of_writeTombstone hreach hdeletion huntil hunbound hwrite)
  have hguarded₃ := hanswer.guarded trivial hguarded₂
  have habsent₃ : Absent deletion.command.topic s₃.broker := by
    refine (hanswer.shut trivial hguarded₂).2 ?_
    cases hanswer with
    | finishDelete hstage =>
      rw [hlast, Option.some.injEq] at hstage
      exact hguarded₂.removed last hlast hname _ (by rw [hstage])
  exact hafter.absent (fun event hevent => hwithin event (List.mem_append_right _ hevent)) hguarded₃
    habsent₃

end Runs

def deleteEvents : TopicCommand := ⟨"operation-00000001", "events", .delete, 3, some 5000, none⟩

/-- The broker with a topic, and then in the stages of its deletion. -/
def withEvents : Broker :=
  finalState ((LockedCall.createTopic "events").run quietMoment (Broker.empty ⟨8, 1024, 16, 1, false⟩))

def preparedBroker : Broker := finalState (beginTopic quietMoment deleteEvents withEvents)

def fencedBroker : Broker := finalState (writeTombstone quietMoment deleteEvents false preparedBroker)

def removedBroker : Broker := finalState (deleteTopicLocked quietMoment "events" fencedBroker)

def finishedBroker : Broker := finalState (conclude true false "operation-00000001" removedBroker)

/-- The activity of a publisher and of the Delete at a stage. -/
def deleting (broker : Broker) (publisher : Publisher) (stage : Stage) : Activity :=
  ⟨broker, Function.update (fun _ => .idle) 0 publisher,
    some ⟨deleteEvents, "operation-00000001", false, stage⟩⟩

def resting (broker : Broker) (publisher : Publisher) : Activity :=
  ⟨broker, Function.update (fun _ => .idle) 0 publisher, none⟩

variable (publisher : Publisher)

theorem progress_beginDelete :
    Progress (resting withEvents publisher) (.beginDelete quietMoment deleteEvents)
      (deleting preparedBroker publisher .prepared) :=
  .beginDelete rfl rfl rfl

theorem progress_writeTombstone :
    Progress (deleting preparedBroker publisher .prepared) (.writeTombstone quietMoment)
      (deleting fencedBroker publisher (.fenced true)) :=
  .writeTombstone rfl rfl

theorem progress_remove :
    Progress (deleting fencedBroker publisher (.fenced true)) (.remove quietMoment)
      (deleting removedBroker publisher (.removed true)) :=
  @Progress.remove _ _ _ _ _ true true _ rfl rfl

theorem progress_finishDelete :
    Progress (deleting removedBroker publisher (.removed true)) (.finishDelete ⟨4, true⟩)
      (resting finishedBroker publisher) :=
  .finishDelete rfl rfl

theorem resting_withPublisher (broker : Broker) (publisher publisher' : Publisher) :
    (resting broker publisher).withPublisher 0 publisher' = resting broker publisher' := by
  simp only [Activity.withPublisher, resting, Function.update_idem]

theorem reachable_withEvents : (resting withEvents .idle).Reachable := by
  have hinitial : Activity.initial ⟨8, 1024, 16, 1, false⟩ =
      resting (Broker.empty ⟨8, 1024, 16, 1, false⟩) .idle := by
    simp only [Activity.initial, resting, Function.update_eq_self]
  have hcreated : Progress (.initial ⟨8, 1024, 16, 1, false⟩)
      (.locked quietMoment (.createTopic "events")) (resting withEvents .idle) := by
    rw [hinitial]
    exact .locked quietMoment (.createTopic "events") rfl
  exact Activity.Reachable.step ⟨_, _, .nil⟩ hcreated

theorem reachable_passed : (resting withEvents (.passed "events")).Reachable := by
  have hchecked : Progress (resting withEvents .idle) (.checkOperations 0 "events")
      (resting withEvents (.checked "events")) := by
    have h := Progress.checkOperations (s := resting withEvents .idle) (i := 0) "events" rfl
    rwa [resting_withPublisher] at h
  have hpassed : Progress (resting withEvents (.checked "events")) (.checkFences 0 1000)
      (resting withEvents (.passed "events")) := by
    have h := Progress.checkFences (s := resting withEvents (.checked "events")) (i := 0) 1000 rfl
    rwa [resting_withPublisher] at h
  exact (reachable_withEvents.step hchecked).step hpassed

/-- The stages of the Delete, after which a later call finds the topic fenced. -/
theorem deleted_stays_absent_events :
    ∃ s, Runs (resting finishedBroker .idle) [.locked quietMoment (.createTopic "events")] s ∧
      Absent "events" s.broker := by
  have hafter : Runs (resting finishedBroker .idle) ([] ++ [.locked quietMoment (.createTopic "events")])
      { resting finishedBroker .idle with
        broker := finalState ((LockedCall.createTopic "events").run quietMoment finishedBroker) } :=
    .snoc .nil (.locked quietMoment (.createTopic "events") rfl)
  have hunbound : ∀ i, ¬((deleting preparedBroker .idle .prepared).publishers i).Bound "events" := by
    intro i
    have hidle : (deleting preparedBroker .idle .prepared).publishers i = .idle := by
      simp only [deleting, Function.update_eq_self]
    rw [hidle]
    rintro (h | h) <;> cases h
  refine ⟨_, hafter, ?_⟩
  refine deleted_stays_absent (reachable_withEvents.step (progress_beginDelete .idle)) rfl rfl hunbound
    (progress_writeTombstone .idle) (.snoc .nil (progress_remove .idle)) rfl rfl
    (progress_finishDelete .idle) hafter ?_
  intro event hevent
  simp only [List.nil_append, List.cons_append, List.mem_cons, List.not_mem_nil, or_false] at hevent
  obtain rfl | rfl := hevent
  · trivial
  · show (1000 : ℤ) < 5000
    decide

/-- **A publisher that has passed its checks brings the topic back** after the Delete's answer, while the
tombstone lasts. -/
theorem deleted_returns :
    (deleting removedBroker (.passed "events") (.removed true)).Reachable ∧
      Progress (deleting removedBroker (.passed "events") (.removed true)) (.finishDelete ⟨4, true⟩)
        (resting finishedBroker (.passed "events")) ∧
      Absent "events" finishedBroker ∧ finishedBroker.fences.topicBlocked "events" 1000 = true ∧
      ∃ s, Runs (resting finishedBroker (.passed "events")) [.lookUp 0, .create 0 quietMoment] s ∧
        "events" ∈ s.broker.topics ∧ s.broker.fences.topicBlocked "events" 1000 = true := by
  have hremoved : (deleting removedBroker (.passed "events") (.removed true)).Reachable :=
    ((reachable_passed.step (progress_beginDelete _)).step (progress_writeTombstone _)).step
      (progress_remove _)
  have hlookUp : Progress (resting finishedBroker (.passed "events")) (.lookUp 0)
      (resting finishedBroker (.waiting "events")) := by
    have h := Progress.lookUp (s := resting finishedBroker (.passed "events")) (i := 0) rfl
    rwa [resting_withPublisher] at h
  have hcreate := Progress.create (s := resting finishedBroker (.waiting "events")) (i := 0) quietMoment
    rfl rfl
  have habsent : Absent "events" finishedBroker := by
    refine ⟨by decide, fun directory hget => ?_⟩
    rw [show finishedBroker.directories["events"]? = none from rfl] at hget
    cases hget
  exact ⟨hremoved, progress_finishDelete _, habsent, rfl, _, .snoc (.snoc .nil hlookUp) hcreate,
    by decide, rfl⟩

end RustQueue.Broker
