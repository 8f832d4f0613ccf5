import RustQueue.Management.Broker

/-!
# What a management call does

The checks of a call change nothing and its action does not touch the catalog of operations.  From this
follows everything that a call can do to the catalog:

* `manage_error`: a call that fails leaves the catalog as it was, or the operation that it has prepared;
* `manage_ok`: a call that succeeds answers from the catalog, or completes the operation that is pending
  or that it has prepared.
-/

namespace RustQueue.Broker

open Lib Topic Management

/-- The catalog is the same. -/
def SameOperations (broker broker' : Broker) : Prop := broker'.operations = broker.operations

theorem SameOperations.refl (broker : Broker) : SameOperations broker broker := rfl

theorem SameOperations.trans (b₁ b₂ b₃ : Broker) (h : SameOperations b₁ b₂)
    (h' : SameOperations b₂ b₃) : SameOperations b₁ b₃ := Eq.trans h' h

/-! ### Frames -/

variable {α : Type}

variable {R : Broker → Broker → Prop}

theorem leaves_ofExcept (hrefl : ∀ b, R b b)
    (result : Except BrokerError α) : Leaves R (ofExcept result) := by
  cases result <;> exact hrefl

theorem leaves_ofCatalog (hrefl : ∀ b, R b b) (result : Except IoError α) :
    Leaves R (ofCatalog result) := by
  cases result <;> exact hrefl

variable {name : String}

variable {broker : Broker} {operation : Topic → Except BrokerError (α × Topic × List Write)}

theorem onTopic_of_none (h : broker.topics[name]? = none) :
    onTopic name operation broker = .error .topicNotFound broker := by
  refine run_bind_eq_error.2 (Or.inr ⟨broker, broker, rfl, ?_⟩)
  rw [h]
  rfl

variable {e : BrokerError}

theorem onTopic_of_error {topic : Topic}
    (h : broker.topics[name]? = some topic) (he : operation topic = .error e) :
    onTopic name operation broker = .error e broker := by
  refine run_bind_eq_error.2 (Or.inr ⟨broker, broker, rfl, ?_⟩)
  rw [h]
  dsimp only
  rw [he]
  rfl

theorem onTopic_of_ok {topic topic' : Topic} {a : α} {writes : List Write}
    (h : broker.topics[name]? = some topic) (hok : operation topic = .ok (a, topic', writes)) :
    onTopic name operation broker = .ok a (broker.withTopic name topic' writes) := by
  refine run_bind_eq_ok.2 ⟨broker, broker, rfl, ?_⟩
  rw [h]
  dsimp only
  rw [hok]
  rfl

theorem validTombstone_eq_ok {value : Option ℤ} {replayed : Bool} {nowMs untilMs : ℤ} :
    validTombstone value replayed nowMs = .ok untilMs ↔
      value = some untilMs ∧ (replayed = true ∨ nowMs < untilMs) := by
  unfold validTombstone
  cases value with
  | none => simp
  | some u =>
    dsimp only
    split_ifs with hvalid
    · constructor
      · rintro ⟨rfl⟩
        exact ⟨rfl, hvalid⟩
      · rintro ⟨⟨rfl⟩, -⟩
        rfl
    · constructor
      · intro h
        cases h
      · rintro ⟨⟨rfl⟩, h⟩
        exact absurd h hvalid

/-- The topic with its mark. -/
def markedDeleted (topic : Topic) : Topic :=
  { topic with manifest := { topic.manifest with deleted := true } }

/-- The broker without the topic, which is marked before it goes. -/
def withoutTopic (broker : Broker) (moment : Moment) (name : String) (topic : Topic) : Broker :=
  removeTopic moment name
    (broker.withTopic name (markedDeleted topic) [.manifest (markedDeleted topic).manifest])

theorem deleteTopicLocked_of_none (moment : Moment) (h : broker.topics[name]? = none) :
    deleteTopicLocked moment name broker = .ok false broker := by
  refine run_bind_eq_ok.2 ⟨broker, broker, rfl, ?_⟩
  rw [if_neg]
  · rfl
  · rw [Std.ExtTreeMap.mem_iff_isSome_getElem?, h]
    decide

theorem deleteTopicLocked_of_some {topic : Topic} (moment : Moment) (h : broker.topics[name]? = some topic) :
    deleteTopicLocked moment name broker = .ok true (broker.withoutTopic moment name topic) := by
  refine run_bind_eq_ok.2 ⟨broker, broker, rfl, ?_⟩
  rw [if_pos (by rw [Std.ExtTreeMap.mem_iff_isSome_getElem?, h]; rfl)]
  have hmarked : silent Topic.markDeleted topic =
      .ok ((), markedDeleted topic, [.manifest (markedDeleted topic).manifest]) := rfl
  exact run_bind_eq_ok.2 ⟨(), _, onTopic_of_ok h hmarked, run_bind_eq_ok.2 ⟨(), _, rfl, rfl⟩⟩

/-- The changes of which the tasks are made, each of which the relation allows: only some topics are
created, and the fences change only in some ways. -/
structure Frame (R : Broker → Broker → Prop) (creates : String → Prop)
    (fences : FenceCatalog → FenceCatalog → Prop) : Prop where
  refl : ∀ broker, R broker broker
  trans : ∀ b₁ b₂ b₃, R b₁ b₂ → R b₂ b₃ → R b₁ b₃
  withTopic : ∀ (broker : Broker) (name : String) topic writes, name ∈ broker.topics →
    R broker (broker.withTopic name topic writes)
  dropRetired : ∀ (broker : Broker) name, R broker (broker.dropRetired name)
  addTopic : ∀ (broker : Broker) name, creates name → R broker (broker.addTopic name)
  withoutTopic : ∀ (broker : Broker) moment (name : String) topic, broker.topics[name]? = some topic →
    R broker (broker.withoutTopic moment name topic)
  setFences : ∀ (broker : Broker) next, fences broker.fences next →
    R broker { broker with fences := next }
  setRevision : ∀ (broker : Broker) revision, R broker { broker with registryRevision := revision }

namespace Frame

variable {R : Broker → Broker → Prop} {creates : String → Prop}
  {fences : FenceCatalog → FenceCatalog → Prop} (frame : Frame R creates fences) (moment : Moment)

include frame

theorem onTopic (name : String) (operation : Topic → Except BrokerError (α × Topic × List Write)) :
    Leaves R (onTopic name operation) := by
  intro broker
  cases htopic : broker.topics[name]? with
  | none =>
    rw [onTopic_of_none htopic]
    exact frame.refl broker
  | some topic =>
    cases hresult : operation topic with
    | error e =>
      rw [onTopic_of_error htopic hresult]
      exact frame.refl broker
    | ok result =>
      rw [onTopic_of_ok htopic hresult]
      refine frame.withTopic broker name _ _ ?_
      rw [Std.ExtTreeMap.mem_iff_isSome_getElem?, htopic]
      rfl

theorem onTopic_answer {β : Type} (name : String)
    (operation : Topic → Except BrokerError (α × Topic × List Write)) (f : α → β) :
    Leaves R (do let a ← Broker.onTopic name operation; return f a) :=
  (frame.onTopic name operation).bind frame.trans fun _ => leaves_pure frame.refl _

theorem cleanupRetiredTopic (name : String) : Leaves R (cleanupRetiredTopic moment name) := by
  refine leaves_get_bind fun broker => ?_
  split_ifs
  · exact frame.refl broker
  · exact frame.dropRetired broker name
  · exact frame.refl broker

theorem bumpRegistry : Leaves R bumpRegistry := fun broker => frame.setRevision broker _

theorem raiseRevision (raise : Bool) : Leaves R (raiseRevision raise) := by
  cases raise with
  | false => exact leaves_pure frame.refl _
  | true => exact frame.bumpRegistry

theorem setInitialPolicy (name : String) (policy : Option TopicPolicy) :
    Leaves R (setInitialPolicy name policy) := by
  cases policy with
  | none => exact leaves_pure frame.refl _
  | some policy => exact frame.onTopic_answer name _ fun _ => ()

theorem getOrCreateTopicLockedWithPolicy (hcreates : creates name) (policy : Option TopicPolicy) :
    Leaves R (getOrCreateTopicLockedWithPolicy moment name policy) := by
  refine (frame.cleanupRetiredTopic moment name).bind frame.trans fun _ =>
    leaves_get_bind fun broker => ?_
  split_ifs
  · exact frame.refl broker
  · exact frame.refl broker
  · have hrest : Leaves R (do Broker.setInitialPolicy name policy; Broker.bumpRegistry) :=
      (frame.setInitialPolicy name policy).bind frame.trans fun _ => frame.bumpRegistry
    exact frame.trans _ _ _ (frame.addTopic broker name hcreates) (hrest (broker.addTopic name))

theorem deleteTopicLocked (name : String) : Leaves R (deleteTopicLocked moment name) := by
  intro broker
  cases htopic : broker.topics[name]? with
  | none =>
    rw [deleteTopicLocked_of_none moment htopic]
    exact frame.refl broker
  | some topic =>
    rw [deleteTopicLocked_of_some moment htopic]
    exact frame.withoutTopic broker moment name topic htopic

theorem deleteIf (delete : Bool) (name : String) : Leaves R (deleteIf moment delete name) := by
  cases delete with
  | true => exact frame.deleteTopicLocked moment name
  | false => exact leaves_pure frame.refl _

theorem deleteChannelIf (delete : Bool) (topic channel : String) :
    Leaves R (deleteChannelIf delete topic channel) := by
  refine leaves_get_bind fun broker => ?_
  split_ifs
  · exact frame.onTopic_answer topic _ (fun _ => true) broker
  · exact frame.refl broker

/-- A fence and a deletion. -/
theorem tombstone {value : Option ℤ} {replayed : Bool} {nowMs : ℤ} {fence : ℤ → Task Bool}
    {delete : Task Bool} (hfence : ∀ untilMs ∈ value, Leaves R (fence untilMs))
    (hdelete : Leaves R delete) :
    Leaves R (do
      let untilMs ← ofExcept (validTombstone value replayed nowMs)
      let fenced ← fence untilMs
      let deleted ← delete
      return fenced || deleted) := by
  cases hvalid : validTombstone value replayed nowMs with
  | error e => exact frame.refl
  | ok untilMs =>
    have hrest : Leaves R (do
        let fenced ← fence untilMs
        let deleted ← delete
        return fenced || deleted) := by
      refine (hfence untilMs (validTombstone_eq_ok.1 hvalid).1).bind frame.trans fun _ => ?_
      exact hdelete.bind frame.trans fun _ => leaves_pure frame.refl _
    exact hrest

/-- A topic may be created if the call creates one, and its fence may change as the call changes it. -/
theorem actOnTopic {command : TopicCommand}
    (hcreate : command.action = .create → creates command.topic ∧
      ∀ catalog, fences catalog (catalog.clearTopic command.topic).2)
    (hdelete : command.action = .delete ∨ command.action = .tombstone →
      ∀ untilMs ∈ command.tombstoneUntilMs, ∀ catalog,
        fences catalog (catalog.setTopic command.topic untilMs).2)
    (policy : Option TopicPolicy) (replayed : Bool) :
    Leaves R (actOnTopic moment command policy replayed) := by
  unfold Broker.actOnTopic
  cases haction : command.action with
  | create =>
    obtain ⟨hcreates, hfence⟩ := hcreate haction
    refine leaves_get_bind fun broker => ?_
    have hrest : ∀ existed : Bool, Leaves R (do
        Broker.getOrCreateTopicLockedWithPolicy moment command.topic (if existed then none else policy)
        let changed ← Broker.onTopic command.topic (·.setPolicy (policy.getD ⟨.reliable, none⟩))
        let cleared ← clearTopicFence command.topic
        return !existed || changed || cleared) := by
      intro existed
      refine (frame.getOrCreateTopicLockedWithPolicy moment hcreates _).bind frame.trans fun _ => ?_
      refine (frame.onTopic _ _).bind frame.trans fun _ => ?_
      exact Leaves.bind frame.trans (fun broker => frame.setFences broker _ (hfence broker.fences))
        fun _ => leaves_pure frame.refl _
    exact hrest _ broker
  | configure => exact frame.onTopic _ _
  | pause => exact frame.onTopic_answer _ _ fun _ => true
  | unpause => exact frame.onTopic_answer _ _ fun _ => true
  | empty => exact frame.onTopic_answer _ _ fun _ => true
  | delete | tombstone =>
    have hfence := hdelete (by simp [haction])
    exact frame.tombstone (fun untilMs huntil broker => frame.setFences broker _
      (hfence untilMs huntil broker.fences)) (frame.deleteIf moment _ _)

theorem actOnChannel {command : ChannelCommand} (hcreate : command.action = .create → creates command.topic)
    (hset : ∀ untilMs catalog, fences catalog
      (catalog.setChannelFence command.topic command.channel untilMs command.requireIdle).2)
    (hclear : ∀ catalog, fences catalog (catalog.clearChannel command.topic command.channel).2)
    (replayed : Bool) : Leaves R (actOnChannel moment command replayed) := by
  unfold Broker.actOnChannel
  cases haction : command.action with
  | create =>
    refine (frame.getOrCreateTopicLockedWithPolicy moment (hcreate haction) _).bind frame.trans
      fun _ => ?_
    refine (frame.onTopic _ _).bind frame.trans fun _ => ?_
    exact Leaves.bind frame.trans (fun broker => frame.setFences broker _ (hclear broker.fences))
      fun _ => leaves_pure frame.refl _
  | pause => exact frame.onTopic_answer _ _ fun _ => true
  | unpause => exact frame.onTopic_answer _ _ fun _ => true
  | empty => exact frame.onTopic_answer _ _ fun _ => true
  | delete | tombstone =>
    exact frame.tombstone (fun untilMs _ broker => frame.setFences broker _ (hset untilMs broker.fences))
      (frame.deleteChannelIf _ _ _)

end Frame

theorem SameOperations.frame : Frame SameOperations (fun _ => True) fun _ _ => True where
  refl := SameOperations.refl
  trans := SameOperations.trans
  withTopic := fun _ _ _ _ _ => rfl
  dropRetired := fun _ _ => rfl
  addTopic := fun _ _ _ => rfl
  withoutTopic := by
    intro broker moment name topic _
    unfold withoutTopic removeTopic
    split_ifs <;> rfl
  setFences := fun _ _ _ => rfl
  setRevision := fun _ _ => rfl

variable (moment : Moment)

theorem leaves_actOnTopic (command : TopicCommand) (policy : Option TopicPolicy) (replayed : Bool) :
    Leaves SameOperations (actOnTopic moment command policy replayed) :=
  SameOperations.frame.actOnTopic moment (fun _ => ⟨trivial, fun _ => trivial⟩)
    (fun _ _ _ _ => trivial) policy replayed

theorem leaves_actOnChannel (command : ChannelCommand) (replayed : Bool) :
    Leaves SameOperations (actOnChannel moment command replayed) :=
  SameOperations.frame.actOnChannel moment (fun _ => trivial) (fun _ _ => trivial)
    (fun _ => trivial) replayed


/-! ### Checks -/

/-- Nothing is different. -/
def Unchanged (broker broker' : Broker) : Prop := broker' = broker

theorem Unchanged.refl (broker : Broker) : Unchanged broker broker := rfl

theorem Unchanged.trans (b₁ b₂ b₃ : Broker) (h : Unchanged b₁ b₂) (h' : Unchanged b₂ b₃) :
    Unchanged b₁ b₃ := Eq.trans h' h

theorem leaves_requireTopic (name : String) : Leaves Unchanged (requireTopic name) := by
  refine leaves_get_bind fun broker => ?_
  split_ifs <;> exact rfl

theorem leaves_requireChannel (topic channel : String) :
    Leaves Unchanged (requireChannel topic channel) := by
  refine leaves_get_bind fun broker => ?_
  cases broker.topics[topic]? with
  | none => exact rfl
  | some state =>
    dsimp only
    split_ifs <;> exact rfl

theorem leaves_checkIdle (command : ChannelCommand) (pending : Bool) :
    Leaves Unchanged (checkIdle moment command pending) := by
  refine leaves_get_bind fun broker => ?_
  cases broker.topics[command.topic]? with
  | none =>
    dsimp only
    split_ifs <;> exact rfl
  | some topic =>
    dsimp only
    split_ifs
    · cases topic.channelCounts command.channel (moment.nowMs 1) with
      | error e => exact rfl
      | ok counts =>
        dsimp only
        split_ifs <;> exact rfl
    · exact rfl
    · exact rfl

theorem leaves_checkTopic (command : TopicCommand) (pending : Bool) :
    Leaves Unchanged (checkTopic moment command pending) := by
  unfold checkTopic
  split_ifs
  · exact leaves_pure .refl _
  · cases command.action <;>
      first
      | exact leaves_pure .refl _
      | exact leaves_requireTopic _
      | exact (leaves_ofExcept .refl _).bind .trans fun _ => leaves_pure .refl _

theorem leaves_checkNewChannel (command : ChannelCommand) (pending : Bool) :
    Leaves Unchanged (checkNewChannel moment command pending) := by
  unfold checkNewChannel
  split_ifs
  · exact leaves_pure .refl _
  · cases command.action <;>
      first
      | exact leaves_pure .refl _
      | exact leaves_requireChannel _ _
      | exact (leaves_ofExcept .refl _).bind .trans fun _ => leaves_pure .refl _

theorem leaves_checkChannel (command : ChannelCommand) (pending : Bool) :
    Leaves Unchanged (checkChannel moment command pending) := by
  refine (leaves_checkNewChannel moment command pending).bind .trans fun _ => ?_
  unfold checkIdleDelete
  split_ifs
  · exact leaves_checkIdle moment command pending
  · exact leaves_pure .refl _

/-! ### The operation of a call -/

/-- The operation is stored as pending. -/
def withPending (broker : Broker) (operationId topic : String) (fingerprint : Fingerprint) : Broker :=
  { broker with
    operations :=
      { broker.operations with
        records := broker.operations.records.insert operationId ⟨fingerprint, topic, .pending, none⟩ } }

/-- The call asks for something that no stored operation asks for, on a topic without a pending
operation, and for the current revision. -/
structure Fresh (broker : Broker) (operationId topic : String) (expectedRevision : ℕ) : Prop where
  valid : validId operationId = true
  unknown : broker.operations.records[operationId]? = none
  free : broker.operations.blocksTopic topic = false
  revision : expectedRevision = broker.registryRevision

section Operation

variable {broker broker' : Broker} {operationId topic : String} {fingerprint : Fingerprint}
  {expectedRevision : ℕ}

/-- What a call learns about its operation. -/
theorem findOperation_eq_ok {found : FoundOperation}
    (h : findOperation operationId topic fingerprint broker = .ok found broker') :
    broker' = broker ∧
      ((∃ result, found = .completed result ∧
          broker.operations.lookup operationId fingerprint = .ok (.completed result)) ∨
        (found = .pending operationId ∧
          broker.operations.lookup operationId fingerprint = .ok .pending) ∨
        (∃ id, found = .pending id ∧ broker.operations.lookup operationId fingerprint = .ok .new ∧
          broker.operations.pendingId topic fingerprint = some id) ∨
        found = .new ∧ broker.operations.lookup operationId fingerprint = .ok .new ∧
          broker.operations.pendingId topic fingerprint = none) := by
  obtain ⟨b, b₁, hget, h⟩ := run_bind_eq_ok.1 h
  cases hget
  obtain ⟨answer, b₂, hlookup, h⟩ := run_bind_eq_ok.1 h
  cases hcatalog : broker.operations.lookup operationId fingerprint with
  | error error =>
    rw [hcatalog] at hlookup
    cases hlookup
  | ok known =>
    rw [hcatalog] at hlookup
    cases hlookup
    cases answer with
    | completed result =>
      cases h
      exact ⟨rfl, Or.inl ⟨result, rfl, rfl⟩⟩
    | pending =>
      cases h
      exact ⟨rfl, Or.inr (Or.inl ⟨rfl, rfl⟩)⟩
    | new =>
      dsimp only at h
      cases hpending : broker.operations.pendingId topic fingerprint with
      | none =>
        rw [hpending] at h
        cases h
        exact ⟨rfl, Or.inr (Or.inr (Or.inr ⟨rfl, rfl, rfl⟩))⟩
      | some id =>
        rw [hpending] at h
        cases h
        exact ⟨rfl, Or.inr (Or.inr (Or.inl ⟨id, rfl, rfl, rfl⟩))⟩

theorem leaves_findOperation : Leaves Unchanged (findOperation operationId topic fingerprint) := by
  refine leaves_get_bind fun broker => ?_
  refine Leaves.bind .trans (leaves_ofCatalog .refl _) (fun known => ?_) broker
  cases known with
  | completed result => exact leaves_pure .refl _
  | pending => exact leaves_pure .refl _
  | new =>
    dsimp only
    cases broker.operations.pendingId topic fingerprint <;> exact leaves_pure .refl _

theorem Fresh.lookup (h : Fresh broker operationId topic expectedRevision) (fingerprint : Fingerprint) :
    broker.operations.lookup operationId fingerprint = .ok .new := by
  unfold OperationCatalog.lookup validateId
  rw [if_pos h.valid, h.unknown]
  rfl

theorem Fresh.pendingId (h : Fresh broker operationId topic expectedRevision)
    (fingerprint : Fingerprint) : broker.operations.pendingId topic fingerprint = none := by
  cases hpending : broker.operations.pendingId topic fingerprint with
  | none => rfl
  | some id =>
    obtain ⟨record, hrecord, htopic, -, hstate⟩ := OperationCatalog.pendingId_eq_some hpending
    have hblocks := OperationCatalog.blocksTopic_eq_true.2 ⟨id, record, hrecord, htopic, hstate⟩
    rw [h.free] at hblocks
    cases hblocks

theorem Fresh.findOperation (h : Fresh broker operationId topic expectedRevision)
    (fingerprint : Fingerprint) :
    findOperation operationId topic fingerprint broker = .ok .new broker := by
  unfold Broker.findOperation
  refine run_bind_eq_ok.2 ⟨broker, broker, rfl, run_bind_eq_ok.2 ⟨.new, broker, ?_, ?_⟩⟩
  · rw [h.lookup]
    rfl
  · dsimp only
    rw [h.pendingId]
    rfl

/-- A prepared operation, from a catalog that does not know it. -/
theorem prepareManagementOperation_eq_ok {prepared : PreparedOperation}
    (hfind : findOperation operationId topic fingerprint broker = .ok .new broker)
    (h : prepareManagementOperation operationId fingerprint topic expectedRevision broker =
      .ok prepared broker') :
    Fresh broker operationId topic expectedRevision ∧ prepared = .new operationId ∧
      broker' = broker.withPending operationId topic fingerprint := by
  obtain ⟨found, b₁, hfound, h⟩ := run_bind_eq_ok.1 h
  rw [hfind] at hfound
  cases hfound
  obtain ⟨-, hknown⟩ := findOperation_eq_ok hfind
  obtain hnew : broker.operations.lookup operationId fingerprint = .ok .new := by
    rcases hknown with ⟨_, heq, -⟩ | ⟨heq, -⟩ | ⟨_, heq, -⟩ | ⟨-, hnew, -⟩
    · cases heq
    · cases heq
    · cases heq
    · exact hnew
  obtain ⟨hvalid, hrecord⟩ := OperationCatalog.lookup_eq_ok hnew
  have hunknown : broker.operations.records[operationId]? = none := by
    rcases hrecord with ⟨-, hnone⟩ | ⟨_, -, -, ⟨heq, -⟩ | ⟨_, heq, -⟩⟩
    · exact hnone
    · cases heq
    · cases heq
  obtain ⟨b, b₂, hget, h⟩ := run_bind_eq_ok.1 h
  cases hget
  cases hfree : broker.operations.blocksTopic topic with
  | true =>
    rw [if_pos hfree] at h
    cases h
  | false =>
    rw [if_neg (by rw [hfree]; decide)] at h
    obtain ⟨_, b₃, hrevision, h⟩ := run_bind_eq_ok.1 h
    obtain ⟨b, b₄, hget, hrevision⟩ := run_bind_eq_ok.1 hrevision
    cases hget
    split_ifs at hrevision with heq
    · cases hrevision
      obtain ⟨_, b₅, hstore, h⟩ := run_bind_eq_ok.1 h
      obtain ⟨b, b₆, hget, hstore⟩ := run_bind_eq_ok.1 hstore
      cases hget
      obtain ⟨operations, b₇, hcatalog, hstore⟩ := run_bind_eq_ok.1 hstore
      cases hprepare : broker.operations.prepare operationId fingerprint topic with
      | error error =>
        rw [hprepare] at hcatalog
        cases hcatalog
      | ok next =>
        rw [hprepare] at hcatalog
        cases hcatalog
        obtain ⟨-, rfl⟩ := OperationCatalog.prepare_eq_ok hprepare
        cases hstore
        cases h
        exact ⟨⟨hvalid, hunknown, hfree, heq⟩, rfl, rfl⟩
    · cases hrevision

/-- What a call leaves that has looked for its operation once more. -/
theorem prepareManagementOperation_ok {prepared : PreparedOperation}
    (h : prepareManagementOperation operationId fingerprint topic expectedRevision broker =
      .ok prepared broker') :
    broker' = broker ∨ (Fresh broker operationId topic expectedRevision ∧
      broker' = broker.withPending operationId topic fingerprint) := by
  obtain ⟨found, b₁, hfind, hrest⟩ := run_bind_eq_ok.1 h
  obtain rfl : b₁ = broker := leaves_findOperation.of_ok hfind
  cases found with
  | completed result =>
    cases hrest
    exact Or.inl rfl
  | pending id =>
    cases hrest
    exact Or.inl rfl
  | new =>
    obtain ⟨hfresh, -, rfl⟩ := prepareManagementOperation_eq_ok hfind h
    exact Or.inr ⟨hfresh, rfl⟩

theorem Fresh.prepareManagementOperation (h : Fresh broker operationId topic expectedRevision)
    (fingerprint : Fingerprint) :
    prepareManagementOperation operationId fingerprint topic expectedRevision broker =
      .ok (.new operationId) (broker.withPending operationId topic fingerprint) := by
  unfold Broker.prepareManagementOperation
  refine run_bind_eq_ok.2 ⟨.new, broker, h.findOperation fingerprint, ?_⟩
  refine run_bind_eq_ok.2 ⟨broker, broker, rfl, ?_⟩
  rw [if_neg (by rw [h.free]; decide)]
  refine run_bind_eq_ok.2 ⟨(), broker, ?_, ?_⟩
  · refine run_bind_eq_ok.2 ⟨broker, broker, rfl, ?_⟩
    rw [if_pos h.revision]
    rfl
  · refine run_bind_eq_ok.2 ⟨(), broker.withPending operationId topic fingerprint, ?_, rfl⟩
    refine run_bind_eq_ok.2 ⟨broker, broker, rfl, run_bind_eq_ok.2 ⟨_, broker, ?_, rfl⟩⟩
    rw [OperationCatalog.prepare, validateId, if_pos h.valid]
    rfl

theorem leaves_checkRevision : Leaves Unchanged (checkRevision expectedRevision) := by
  refine leaves_get_bind fun broker => ?_
  split_ifs <;> exact rfl

theorem storePending_error (h : storePending operationId topic fingerprint broker = .error e broker') :
    broker' = broker := by
  obtain hget | ⟨b, b₁, hget, h⟩ := run_bind_eq_error.1 h
  · cases hget
  cases hget
  obtain hcatalog | ⟨operations, b₂, -, hset⟩ := run_bind_eq_error.1 h
  · have hleaves : Leaves Unchanged
        (ofCatalog (broker.operations.prepare operationId fingerprint topic)) :=
      leaves_ofCatalog .refl _
    exact hleaves.of_error hcatalog
  · cases hset

theorem prepareManagementOperation_error
    (h : prepareManagementOperation operationId fingerprint topic expectedRevision broker =
      .error e broker') : broker' = broker := by
  obtain hfind | ⟨found, b₁, hfind, h⟩ := run_bind_eq_error.1 h
  · exact leaves_findOperation.of_error hfind
  obtain rfl : b₁ = broker := leaves_findOperation.of_ok hfind
  cases found with
  | completed result => cases h
  | pending id => cases h
  | new =>
    obtain hget | ⟨b, b₂, hget, h⟩ := run_bind_eq_error.1 h
    · cases hget
    cases hget
    split_ifs at h with hblocks
    · cases h
      rfl
    · obtain hrevision | ⟨_, b₃, hrevision, hstored⟩ := run_bind_eq_error.1 h
      · exact leaves_checkRevision.of_error hrevision
      obtain rfl : b₃ = b₁ := leaves_checkRevision.of_ok hrevision
      obtain hstore | ⟨_, b₄, -, hreturn⟩ := run_bind_eq_error.1 hstored
      · exact storePending_error hstore
      · cases hreturn

/-! ### The whole call -/

variable {check : Bool → Task Unit} {act : Bool → Task Bool} {id : String} {replayed : Bool}

/-- An operation whose action fails stays as it is.  The catalog fails only with a storage error. -/
theorem perform_error (hact : ∀ replayed, Leaves SameOperations (act replayed))
    (h : perform act replayed id broker = .error e broker') :
    broker'.operations = broker.operations ∧
      (act replayed broker = .error e broker' ∨ e.isStorageError = true) := by
  obtain herror | ⟨changed, b₁, hacted, h⟩ := run_bind_eq_error.1 h
  · exact ⟨(hact replayed).of_error herror, Or.inl herror⟩
  have hsame₁ := (hact replayed).of_ok hacted
  obtain herror | ⟨_, b₂, hraised, h⟩ := run_bind_eq_error.1 h
  · cases hraise : (changed || replayed) <;> rw [hraise] at herror <;> cases herror
  have hsame₂ := (SameOperations.frame.raiseRevision _).of_ok hraised
  obtain hget | ⟨b, b₃, hget, h⟩ := run_bind_eq_error.1 h
  · cases hget
  cases hget
  obtain hcomplete | ⟨_, b₄, -, hreturn⟩ := run_bind_eq_error.1 h
  · obtain hget | ⟨b, b₅, hget, hcomplete⟩ := run_bind_eq_error.1 hcomplete
    · cases hget
    cases hget
    cases hcatalog : b₂.operations.complete id ⟨b₂.registryRevision, changed⟩ with
    | error error =>
      rw [hcatalog] at hcomplete
      cases hcomplete
      exact ⟨Eq.trans hsame₂ hsame₁, Or.inr rfl⟩
    | ok operations =>
      rw [hcatalog] at hcomplete
      cases hcomplete
  · cases hreturn

/-- **A call that fails** leaves the catalog as it was, or leaves the operation that it has prepared: its
action has failed, or the catalog has, with a storage error. -/
theorem manage_error (hcheck : ∀ pending, Leaves Unchanged (check pending))
    (hact : ∀ replayed, Leaves SameOperations (act replayed))
    (h : manage operationId topic fingerprint expectedRevision check act broker = .error e broker') :
    broker'.operations = broker.operations ∨
      (Fresh broker operationId topic expectedRevision ∧ check false broker = .ok () broker ∧
        broker'.operations = (broker.withPending operationId topic fingerprint).operations ∧
        (act false (broker.withPending operationId topic fingerprint) = .error e broker' ∨
          e.isStorageError = true)) := by
  obtain herror | ⟨found, b₁, hfind, hfound⟩ := run_bind_eq_error.1 h
  · have hsame : broker' = broker := leaves_findOperation.of_error herror
    exact Or.inl (by rw [hsame])
  obtain rfl : b₁ = broker := leaves_findOperation.of_ok hfind
  cases found with
  | completed result => cases hfound
  | pending id =>
    obtain herror | ⟨_, b₂, hchecked, hperform⟩ := run_bind_eq_error.1 hfound
    · have hsame : broker' = b₁ := (hcheck true).of_error herror
      exact Or.inl (by rw [hsame])
    obtain rfl : b₂ = b₁ := (hcheck true).of_ok hchecked
    exact Or.inl (perform_error hact hperform).1
  | new =>
    obtain herror | ⟨_, b₂, hchecked, hrest⟩ := run_bind_eq_error.1 hfound
    · have hsame : broker' = b₁ := (hcheck false).of_error herror
      exact Or.inl (by rw [hsame])
    obtain rfl : b₂ = b₁ := (hcheck false).of_ok hchecked
    obtain herror | ⟨prepared, b₃, hprepared, hperform⟩ := run_bind_eq_error.1 hrest
    · rw [prepareManagementOperation_error herror]
      exact Or.inl rfl
    obtain ⟨hfresh, rfl, rfl⟩ := prepareManagementOperation_eq_ok hfind hprepared
    obtain ⟨hsame, hfailed⟩ := perform_error hact hperform
    exact Or.inr ⟨hfresh, hchecked, hsame, hfailed⟩

/-- The operation that a call works on, and the catalog in which it is pending: its own from an earlier
attempt, that of another call which asks for the same, or one that it has just stored. -/
inductive WorksOn (broker : Broker) (operationId topic : String) (fingerprint : Fingerprint)
    (expectedRevision : ℕ) : String → OperationCatalog → Prop
  | resumed (h : broker.operations.lookup operationId fingerprint = .ok .pending) :
    WorksOn broker operationId topic fingerprint expectedRevision operationId broker.operations
  | adopted {id : String} (h : broker.operations.lookup operationId fingerprint = .ok .new)
    (hother : broker.operations.pendingId topic fingerprint = some id) :
    WorksOn broker operationId topic fingerprint expectedRevision id broker.operations
  | prepared (h : Fresh broker operationId topic expectedRevision) :
    WorksOn broker operationId topic fingerprint expectedRevision operationId
      (broker.withPending operationId topic fingerprint).operations

theorem perform_ok {result : ManagementResult} (hact : ∀ replayed, Leaves SameOperations (act replayed))
    (h : perform act replayed id broker = .ok result broker') :
    broker.operations.complete id result = .ok broker'.operations := by
  obtain ⟨changed, b₁, hacted, h⟩ := run_bind_eq_ok.1 h
  have hsame₁ : b₁.operations = broker.operations := (hact replayed).of_ok hacted
  obtain ⟨_, b₂, hraised, h⟩ := run_bind_eq_ok.1 h
  have hsame₂ : b₂.operations = b₁.operations := (SameOperations.frame.raiseRevision _).of_ok hraised
  obtain ⟨b, b₃, hget, h⟩ := run_bind_eq_ok.1 h
  cases hget
  obtain ⟨_, b₄, hcomplete, hreturn⟩ := run_bind_eq_ok.1 h
  cases hreturn
  obtain ⟨b, b₅, hget, hcomplete⟩ := run_bind_eq_ok.1 hcomplete
  cases hget
  rw [← hsame₁, ← hsame₂]
  cases hcatalog : b₂.operations.complete id ⟨b₂.registryRevision, changed⟩ with
  | error error =>
    rw [hcatalog] at hcomplete
    cases hcomplete
  | ok operations =>
    rw [hcatalog] at hcomplete
    cases hcomplete
    rfl

/-- **A call that succeeds** answers from the catalog, or completes the operation that it works on. -/
theorem manage_ok {result : ManagementResult} (hcheck : ∀ pending, Leaves Unchanged (check pending))
    (hact : ∀ replayed, Leaves SameOperations (act replayed))
    (h : manage operationId topic fingerprint expectedRevision check act broker = .ok result broker') :
    (broker' = broker ∧ broker.operations.lookup operationId fingerprint = .ok (.completed result)) ∨
      ∃ id catalog, WorksOn broker operationId topic fingerprint expectedRevision id catalog ∧
        catalog.complete id result = .ok broker'.operations := by
  obtain ⟨found, b₁, hfind, hfound⟩ := run_bind_eq_ok.1 h
  obtain ⟨rfl, hknown⟩ := findOperation_eq_ok hfind
  cases found with
  | completed answer =>
    cases hfound
    rcases hknown with ⟨_, ⟨rfl⟩, hlookup⟩ | ⟨heq, -⟩ | ⟨_, heq, -⟩ | ⟨heq, -⟩
    · exact Or.inl ⟨rfl, hlookup⟩
    · cases heq
    · cases heq
    · cases heq
  | pending id =>
    obtain ⟨_, b₂, hchecked, hperform⟩ := run_bind_eq_ok.1 hfound
    obtain rfl : b₂ = b₁ := (hcheck true).of_ok hchecked
    refine Or.inr ⟨id, b₂.operations, ?_, perform_ok hact hperform⟩
    rcases hknown with ⟨_, heq, -⟩ | ⟨⟨rfl⟩, hlookup⟩ | ⟨_, ⟨rfl⟩, hlookup, hother⟩ | ⟨heq, -⟩
    · cases heq
    · exact .resumed hlookup
    · exact .adopted hlookup hother
    · cases heq
  | new =>
    obtain ⟨_, b₂, hchecked, hrest⟩ := run_bind_eq_ok.1 hfound
    obtain rfl : b₂ = b₁ := (hcheck false).of_ok hchecked
    obtain ⟨prepared, b₃, hprepared, hperform⟩ := run_bind_eq_ok.1 hrest
    obtain ⟨hfresh, rfl, rfl⟩ := prepareManagementOperation_eq_ok hfind hprepared
    exact Or.inr ⟨operationId, _, .prepared hfresh, perform_ok hact hperform⟩

/-- What a management call has found before its action: an answer, or the operation it works on. -/
inductive Begun where
  | answered (result : ManagementResult)
  | works (replayed : Bool) (id : String)
  deriving DecidableEq, Repr

/-- A management call up to its action. -/
def beginOperation (operationId topic : String) (fingerprint : Fingerprint) (expectedRevision : ℕ)
    (check : Bool → Task Unit) : Task Begun := do
  match ← findOperation operationId topic fingerprint with
  | .completed result => return .answered result
  | .pending id => do
    check true
    return .works true id
  | .new => do
    check false
    match ← prepareManagementOperation operationId fingerprint topic expectedRevision with
    | .completed result => return .answered result
    | .pending id => return .works true id
    | .new id => return .works false id

/-- A management call from its action on. -/
def conclude (changed replayed : Bool) (id : String) : Task ManagementResult := do
  raiseRevision (changed || replayed)
  let broker ← get
  completeManagementOperation id ⟨broker.registryRevision, changed⟩
  return ⟨broker.registryRevision, changed⟩

theorem manage_eq_begin (operationId topic : String) (fingerprint : Fingerprint) (expectedRevision : ℕ)
    (check : Bool → Task Unit) (act : Bool → Task Bool) :
    manage operationId topic fingerprint expectedRevision check act = (do
      match ← beginOperation operationId topic fingerprint expectedRevision check with
      | .answered result => return result
      | .works replayed id => do
        let changed ← act replayed
        conclude changed replayed id) := by
  unfold manage beginOperation
  rw [bind_assoc]
  congr 1
  funext found
  cases found with
  | completed result => rfl
  | pending id =>
    dsimp only
    rw [bind_assoc]
    rfl
  | new =>
    dsimp only
    rw [bind_assoc]
    congr 1
    funext _
    rw [bind_assoc]
    congr 1
    funext prepared
    cases prepared <;> rfl

variable {fences : FenceCatalog → FenceCatalog → Prop}

/-- What is allowed besides a change of the catalog, a call leaves before its action. -/
theorem Frame.beginOperation {creates : String → Prop} (frame : Frame R creates fences)
    (hoperations : ∀ (broker : Broker) next, R broker { broker with operations := next })
    (hcheck : ∀ pending, Leaves Unchanged (check pending)) :
    Leaves R (beginOperation operationId topic fingerprint expectedRevision check) := by
  have hunchanged : ∀ broker broker', Unchanged broker broker' → R broker broker' := by
    intro broker broker' hsame
    rw [show broker' = broker from hsame]
    exact frame.refl broker
  have hprepare : Leaves R
      (prepareManagementOperation operationId fingerprint topic expectedRevision) := by
    intro broker
    cases hprepared : prepareManagementOperation operationId fingerprint topic expectedRevision broker with
    | error e b' =>
      rw [prepareManagementOperation_error hprepared]
      exact frame.refl broker
    | ok prepared b' =>
      obtain rfl | ⟨-, rfl⟩ := prepareManagementOperation_ok hprepared
      · exact frame.refl b'
      · exact hoperations broker _
  refine (leaves_findOperation.mono hunchanged).bind frame.trans fun found => ?_
  cases found with
  | completed result => exact leaves_pure frame.refl _
  | pending id =>
    exact ((hcheck true).mono hunchanged).bind frame.trans fun _ => leaves_pure frame.refl _
  | new =>
    refine ((hcheck false).mono hunchanged).bind frame.trans fun _ => ?_
    refine hprepare.bind frame.trans fun prepared => ?_
    cases prepared <;> exact leaves_pure frame.refl _

theorem Frame.conclude {creates : String → Prop} (frame : Frame R creates fences)
    (hoperations : ∀ (broker : Broker) next, R broker { broker with operations := next })
    (changed replayed : Bool) (id : String) : Leaves R (conclude changed replayed id) := by
  have hcomplete : ∀ result, Leaves R (completeManagementOperation id result) := by
    intro result
    refine leaves_get_bind fun broker => ?_
    cases broker.operations.complete id result with
    | error e => exact frame.refl broker
    | ok next => exact hoperations broker next
  refine (frame.raiseRevision _).bind frame.trans fun _ => leaves_get_bind fun broker => ?_
  have hrest := (hcomplete ⟨broker.registryRevision, changed⟩).bind frame.trans fun _ =>
    leaves_pure frame.refl (⟨broker.registryRevision, changed⟩ : ManagementResult)
  exact hrest broker

/-- What the action leaves, the call leaves, if the catalog does not matter. -/
theorem Frame.manage {creates : String → Prop} (frame : Frame R creates fences)
    (hoperations : ∀ (broker : Broker) next, R broker { broker with operations := next })
    (hcheck : ∀ pending, Leaves Unchanged (check pending)) (hact : ∀ replayed, Leaves R (act replayed)) :
    Leaves R (manage operationId topic fingerprint expectedRevision check act) := by
  rw [manage_eq_begin]
  refine (frame.beginOperation hoperations hcheck).bind frame.trans fun begun => ?_
  cases begun with
  | answered result => exact leaves_pure frame.refl _
  | works replayed id =>
    exact (hact replayed).bind frame.trans fun changed => frame.conclude hoperations changed replayed id

end Operation

section FrameOfCalls

variable {R : Broker → Broker → Prop} {creates : String → Prop}
  {fences : FenceCatalog → FenceCatalog → Prop} (frame : Frame R creates fences)
  (hoperations : ∀ (broker : Broker) next, R broker { broker with operations := next })
  (moment : Moment)

include frame hoperations

theorem Frame.manageTopic {command : TopicCommand}
    (hcreate : command.action = .create → creates command.topic ∧
      ∀ catalog, fences catalog (catalog.clearTopic command.topic).2)
    (hdelete : command.action = .delete ∨ command.action = .tombstone →
      ∀ untilMs ∈ command.tombstoneUntilMs, ∀ catalog,
        fences catalog (catalog.setTopic command.topic untilMs).2) :
    Leaves R (manageTopic moment command) := by
  refine (leaves_ofExcept frame.refl _).bind frame.trans fun _ => ?_
  refine (leaves_ofExcept frame.refl _).bind frame.trans fun policy => ?_
  exact frame.manage hoperations (leaves_checkTopic moment command)
    (frame.actOnTopic moment hcreate hdelete policy)

theorem Frame.manageChannel {command : ChannelCommand}
    (hcreate : command.action = .create → creates command.topic)
    (hchannels : ∀ catalog next : FenceCatalog, next.topics = catalog.topics → fences catalog next) :
    Leaves R (manageChannel moment command) := by
  refine (leaves_ofExcept frame.refl _).bind frame.trans fun _ => ?_
  refine (leaves_ofExcept frame.refl _).bind frame.trans fun _ => ?_
  refine frame.manage hoperations (leaves_checkChannel moment command)
    (frame.actOnChannel moment hcreate (fun untilMs catalog => ?_) fun catalog => ?_)
  · unfold FenceCatalog.setChannelFence
    split_ifs <;> exact hchannels catalog _ rfl
  · exact hchannels catalog _ rfl

end FrameOfCalls

/-- A management call. -/
inductive Call where
  | topic (command : TopicCommand)
  | channel (command : ChannelCommand)
  deriving DecidableEq, Repr

namespace Call

def run : Call → Task ManagementResult
  | .topic command => manageTopic moment command
  | .channel command => manageChannel moment command

/-- The topic that the call is about. -/
def topicName : Call → String
  | .topic command => command.topic
  | .channel command => command.topic

def operationId : Call → String
  | .topic command => command.operationId
  | .channel command => command.operationId

def expectedRevision : Call → ℕ
  | .topic command => command.expectedRevision
  | .channel command => command.expectedRevision

/-- What the call asks for, unless its arguments are refused. -/
def fingerprint : Call → Except BrokerError Fingerprint
  | .topic command => do
    checkedName command.topic .invalidTopic
    let policy ← validatePolicy command.action command.policy
    return command.fingerprint policy
  | .channel command => do
    checkedName command.topic .invalidTopic
    checkedName command.channel .invalidChannel
    return command.fingerprint

variable {call : Call} {fingerprint : Fingerprint}

theorem ofExcept_bind_of_ok {β : Type} {result : Except BrokerError α} {a : α} (h : result = .ok a)
    (f : α → Task β) (broker : Broker) : (ofExcept result >>= f) broker = f a broker := by
  rw [h]
  rfl

theorem ofExcept_bind_of_error {β : Type} {result : Except BrokerError α} (h : result = .error e)
    (f : α → Task β) (broker : Broker) : (ofExcept result >>= f) broker = .error e broker := by
  rw [h]
  rfl

/-- A call whose arguments are accepted is an operation, with checks that change nothing and an action
that does not touch the catalog. -/
theorem run_eq_manage (h : call.fingerprint = .ok fingerprint) (moment : Moment) :
    ∃ (check : Bool → Task Unit) (act : Bool → Task Bool),
      (∀ pending, Leaves Unchanged (check pending)) ∧
      (∀ replayed, Leaves SameOperations (act replayed)) ∧
      ∀ broker, call.run moment broker =
        manage call.operationId call.topicName fingerprint call.expectedRevision check act broker := by
  cases call with
  | topic command =>
    obtain ⟨_, hname, h⟩ := bind_eq_ok.1 h
    obtain ⟨policy, hpolicy, h⟩ := bind_eq_ok.1 h
    cases h
    refine ⟨checkTopic moment command, actOnTopic moment command policy,
      leaves_checkTopic moment command, leaves_actOnTopic moment command policy, fun broker => ?_⟩
    exact (ofExcept_bind_of_ok hname _ broker).trans (ofExcept_bind_of_ok hpolicy _ broker)
  | channel command =>
    obtain ⟨_, hname, h⟩ := bind_eq_ok.1 h
    obtain ⟨_, hchannel, h⟩ := bind_eq_ok.1 h
    cases h
    refine ⟨checkChannel moment command, actOnChannel moment command,
      leaves_checkChannel moment command, leaves_actOnChannel moment command, fun broker => ?_⟩
    exact (ofExcept_bind_of_ok hname _ broker).trans (ofExcept_bind_of_ok hchannel _ broker)

theorem run_of_refused (h : call.fingerprint = .error e) (moment : Moment) (broker : Broker) :
    call.run moment broker = .error e broker := by
  cases call with
  | topic command =>
    obtain hname | ⟨_, hname, h⟩ := bind_eq_error.1 h
    · exact ofExcept_bind_of_error hname _ broker
    refine (ofExcept_bind_of_ok hname _ broker).trans ?_
    obtain hpolicy | ⟨policy, -, h⟩ := bind_eq_error.1 h
    · exact ofExcept_bind_of_error hpolicy _ broker
    · cases h
  | channel command =>
    obtain hname | ⟨_, hname, h⟩ := bind_eq_error.1 h
    · exact ofExcept_bind_of_error hname _ broker
    refine (ofExcept_bind_of_ok hname _ broker).trans ?_
    obtain hchannel | ⟨_, -, h⟩ := bind_eq_error.1 h
    · exact ofExcept_bind_of_error hchannel _ broker
    · cases h

end Call

end RustQueue.Broker
