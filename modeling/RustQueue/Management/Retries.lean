import RustQueue.Management.Rejection

/-!
# Retried management calls

A completed operation keeps its result in the catalog, where a retry of the call finds it.  The catalog
forgets the oldest results, and a call that finds another caller's operation pending completes that one
and leaves no record of its own.

* `Advances`: the histories of a catalog, with the number of operations that complete in them;
* `CallStep`, `CallRun`: the same for a broker, with calls that are cut short by the end of the process;
* `retry_answered`: a call that completes its own operation is answered with the same result until
  `maxCompleted` further operations have completed, and nothing changes.
-/

namespace RustQueue.Broker

open Lib Topic Management

/-! ### Histories of the catalog -/

/-- A history of the catalog in which `n` operations complete. -/
inductive Advances (catalog : OperationCatalog) : ℕ → OperationCatalog → Prop
  | refl : Advances catalog 0 catalog
  | prepare {n : ℕ} {before after : OperationCatalog} {id topic : String} {fingerprint : Fingerprint}
    (h : Advances catalog n before) (hnew : before.records[id]? = none)
    (hfree : before.blocksTopic topic = false)
    (hprepare : before.prepare id fingerprint topic = .ok after) : Advances catalog n after
  | complete {n : ℕ} {before after : OperationCatalog} {id : String} {record : OperationRecord}
    {result : ManagementResult} (h : Advances catalog n before)
    (hrecord : before.records[id]? = some record) (hpending : record.state = .pending)
    (hcomplete : before.complete id result = .ok after) : Advances catalog (n + 1) after

namespace Advances

variable {catalog catalog' catalog'' : OperationCatalog} {n m : ℕ}

theorem trans (h : Advances catalog n catalog') (h' : Advances catalog' m catalog'') :
    Advances catalog (n + m) catalog'' := by
  induction h' with
  | refl => exact h
  | prepare _ hnew hfree hprepare ih => exact .prepare ih hnew hfree hprepare
  | complete _ hrecord hpending hcomplete ih => exact .complete ih hrecord hpending hcomplete

theorem wf (h : Advances catalog n catalog') (hwf : catalog.WF) : catalog'.WF := by
  induction h with
  | refl => exact hwf
  | prepare _ hnew hfree hprepare ih => exact ih.prepare hnew hfree hprepare
  | complete _ hrecord hpending hcomplete ih => exact ih.complete hrecord hpending hcomplete

/-- **A result stays in the catalog** until `maxCompleted` further operations have completed. -/
theorem holds {id : String} {fingerprint : Fingerprint} {result : ManagementResult}
    (h : Advances catalog n catalog') (hwf : catalog.WF)
    (hholds : catalog.Holds id fingerprint result 0) (hn : n < maxCompleted) :
    catalog'.Holds id fingerprint result n := by
  induction h with
  | refl => exact hholds
  | prepare _ hnew hfree hprepare ih => exact (ih hn).prepare hnew hprepare
  | complete hbefore hrecord hpending hcomplete ih =>
    have hkept := (OperationCatalog.Holds.complete (hbefore.wf hwf) hrecord hpending hcomplete).2
    exact hkept _ _ _ _ (ih (Nat.lt_of_succ_lt hn)) hn

end Advances

/-! ### Histories of the broker -/

/-- The catalog has the answer to the call. -/
def Call.Completed (call : Call) (broker : Broker) : Prop :=
  ∃ fingerprint result, call.fingerprint = .ok fingerprint ∧
    broker.operations.lookup call.operationId fingerprint = .ok (.completed result)

/-- The call takes over an operation that is pending under another identifier. -/
def Call.Adopts (call : Call) (broker : Broker) : Prop :=
  broker.operations.records[call.operationId]? = none ∧
    ∃ fingerprint other, call.fingerprint = .ok fingerprint ∧
      broker.operations.pendingId call.topicName fingerprint = some other

/-- A step of the broker in which `n` operations complete.  The process may end within a call, after
the operation is stored as pending or as completed; the broker that starts again then has the stored
catalog, and whatever its other files hold. -/
inductive CallStep : Broker → ℕ → Broker → Prop
  | answered {broker broker' : Broker} {moment : Moment} {call : Call} {result : ManagementResult}
    (h : call.run moment broker = .ok result broker') (hknown : call.Completed broker) :
    CallStep broker 0 broker'
  | completed {broker broker' broker'' : Broker} {moment : Moment} {call : Call}
    {result : ManagementResult} (h : call.run moment broker = .ok result broker')
    (hnew : ¬call.Completed broker) (hsame : SameOperations broker' broker'') : CallStep broker 1 broker''
  | failed {broker broker' : Broker} {moment : Moment} {call : Call} {e : BrokerError}
    (h : call.run moment broker = .error e broker') : CallStep broker 0 broker'
  | interrupted {broker broker' broker'' : Broker} {call : Call} {fingerprint : Fingerprint}
    {prepared : PreparedOperation} (hcall : call.fingerprint = .ok fingerprint)
    (h : prepareManagementOperation call.operationId fingerprint call.topicName call.expectedRevision
      broker = .ok prepared broker') (hsame : SameOperations broker' broker'') : CallStep broker 0 broker''
  | other {broker broker' : Broker} (hsame : SameOperations broker broker') : CallStep broker 0 broker'

/-- A run of the broker in which `n` operations complete. -/
inductive CallRun (broker : Broker) : ℕ → Broker → Prop
  | refl : CallRun broker 0 broker
  | step {n m : ℕ} {broker' broker'' : Broker} (h : CallRun broker n broker')
    (hstep : CallStep broker' m broker'') : CallRun broker (n + m) broker''

/-- A broker whose catalog comes from an empty one. -/
def Managed (broker : Broker) : Prop :=
  ∃ (first : Broker) (n : ℕ), first.operations = OperationCatalog.empty ∧ CallRun first n broker

section Histories

variable {broker broker' broker'' : Broker} {call : Call} {moment : Moment} {fingerprint : Fingerprint}
  {result : ManagementResult} {n : ℕ}

theorem Fresh.advances (h : Fresh broker call.operationId call.topicName call.expectedRevision)
    (fingerprint : Fingerprint) : Advances broker.operations 0
      (broker.withPending call.operationId call.topicName fingerprint).operations := by
  refine .prepare .refl h.unknown h.free (bind_eq_ok.2 ⟨(), ?_, rfl⟩)
  rw [validateId, if_pos h.valid]

/-- The operation that a call works on is pending, and asks for what the call asks for. -/
theorem WorksOn.pending {id : String} {catalog : OperationCatalog}
    (h : WorksOn broker call.operationId call.topicName fingerprint call.expectedRevision id catalog) :
    Advances broker.operations 0 catalog ∧ ∃ record, catalog.records[id]? = some record ∧
      record.state = .pending ∧ record.fingerprint = fingerprint := by
  cases h with
  | resumed hlookup =>
    obtain ⟨-, ⟨heq, -⟩ | ⟨record, hrecord, hfingerprint, ⟨-, hpending⟩ | ⟨_, heq, -⟩⟩⟩ :=
      OperationCatalog.lookup_eq_ok hlookup
    · cases heq
    · exact ⟨.refl, record, hrecord, hpending, hfingerprint⟩
    · cases heq
  | adopted _ hother =>
    obtain ⟨record, hrecord, -, hfingerprint, hpending⟩ := OperationCatalog.pendingId_eq_some hother
    exact ⟨.refl, record, hrecord, hpending, hfingerprint⟩
  | prepared hfresh =>
    refine ⟨hfresh.advances fingerprint, ⟨fingerprint, call.topicName, .pending, none⟩, ?_, rfl, rfl⟩
    rw [withPending, getElem?_insert_eq, if_pos rfl]

/-- A call that succeeds without an answer in the catalog completes one operation. -/
theorem Call.run_completes (hcall : call.fingerprint = .ok fingerprint)
    (h : call.run moment broker = .ok result broker') (hnew : ¬call.Completed broker) :
    ∃ id catalog, WorksOn broker call.operationId call.topicName fingerprint call.expectedRevision id
      catalog ∧ catalog.complete id result = .ok broker'.operations := by
  obtain ⟨check, act, hcheck, hact, hrun⟩ := call.run_eq_manage hcall moment
  rw [hrun] at h
  obtain ⟨-, hlookup⟩ | hworks := manage_ok hcheck hact h
  · exact absurd ⟨fingerprint, result, hcall, hlookup⟩ hnew
  · exact hworks

theorem Call.run_of_completed (hcall : call.fingerprint = .ok fingerprint)
    (h : broker.operations.lookup call.operationId fingerprint = .ok (.completed result)) :
    call.run moment broker = .ok result broker := by
  obtain ⟨check, act, -, -, hrun⟩ := call.run_eq_manage hcall moment
  rw [hrun]
  refine run_bind_eq_ok.2 ⟨.completed result, broker, ?_, rfl⟩
  refine run_bind_eq_ok.2 ⟨broker, broker, rfl, run_bind_eq_ok.2 ⟨.completed result, broker, ?_, rfl⟩⟩
  rw [h]
  rfl

theorem Call.run_of_conflict {reason : String} (hcall : call.fingerprint = .ok fingerprint)
    (h : broker.operations.lookup call.operationId fingerprint = .error ⟨.invalidInput, reason⟩) :
    call.run moment broker = .error .operationConflict broker := by
  obtain ⟨check, act, -, -, hrun⟩ := call.run_eq_manage hcall moment
  rw [hrun]
  refine run_bind_eq_error.2 (Or.inl (run_bind_eq_error.2 (Or.inr ⟨broker, broker, rfl, ?_⟩)))
  refine run_bind_eq_error.2 (Or.inl ?_)
  rw [h]
  rfl

theorem Call.fingerprint_of_ok (h : call.run moment broker = .ok result broker') :
    ∃ fingerprint, call.fingerprint = .ok fingerprint := by
  cases hcall : call.fingerprint with
  | ok fingerprint => exact ⟨fingerprint, rfl⟩
  | error e =>
    rw [call.run_of_refused hcall] at h
    cases h

theorem prepareManagementOperation_advances {prepared : PreparedOperation}
    (h : prepareManagementOperation call.operationId fingerprint call.topicName call.expectedRevision
      broker = .ok prepared broker') : Advances broker.operations 0 broker'.operations := by
  obtain rfl | ⟨hfresh, rfl⟩ := prepareManagementOperation_ok h
  · exact .refl
  · exact hfresh.advances fingerprint

theorem Call.advances_of_error {e : BrokerError} (h : call.run moment broker = .error e broker') :
    Advances broker.operations 0 broker'.operations := by
  cases hcall : call.fingerprint with
  | error e' =>
    rw [call.run_of_refused hcall] at h
    cases h
    exact .refl
  | ok fingerprint =>
    obtain ⟨check, act, hcheck, hact, hrun⟩ := call.run_eq_manage hcall moment
    rw [hrun] at h
    obtain hsame | ⟨hfresh, -, hsame, -⟩ := manage_error hcheck hact h
    · rw [hsame]
      exact .refl
    · rw [hsame]
      exact hfresh.advances fingerprint

/-- A call that completes an operation, its own unless it adopts one. -/
theorem Call.advances_of_ok (hcall : call.fingerprint = .ok fingerprint)
    (h : call.run moment broker = .ok result broker') (hnew : ¬call.Completed broker) :
    Advances broker.operations 1 broker'.operations := by
  obtain ⟨id, catalog, hworks, hcomplete⟩ := call.run_completes hcall h hnew
  obtain ⟨hadvances, record, hrecord, hpending, -⟩ := hworks.pending
  exact hadvances.complete hrecord hpending hcomplete

/-- **A step of the broker is a history of its catalog.** -/
theorem CallStep.advances (h : CallStep broker n broker') :
    Advances broker.operations n broker'.operations := by
  cases h with
  | answered hrun hknown =>
    obtain ⟨fingerprint, result, hcall, hlookup⟩ := hknown
    rw [Call.run_of_completed hcall hlookup] at hrun
    cases hrun
    exact .refl
  | completed hrun hnew hsame =>
    obtain ⟨fingerprint, hcall⟩ := Call.fingerprint_of_ok hrun
    rw [hsame]
    exact Call.advances_of_ok hcall hrun hnew
  | failed hrun => exact Call.advances_of_error hrun
  | interrupted hcall hprepare hsame =>
    rw [hsame]
    exact prepareManagementOperation_advances hprepare
  | other hsame =>
    rw [hsame]
    exact .refl

theorem CallRun.advances (h : CallRun broker n broker') : Advances broker.operations n broker'.operations := by
  induction h with
  | refl => exact .refl
  | step _ hstep ih => exact ih.trans hstep.advances

theorem Managed.wf (h : Managed broker) : broker.operations.WF := by
  obtain ⟨first, n, hempty, hrun⟩ := h
  refine hrun.advances.wf ?_
  rw [hempty]
  exact OperationCatalog.empty_wf

/-- A call that completes its own operation leaves the result under its own identifier. -/
theorem Call.holds_of_ok (hcall : call.fingerprint = .ok fingerprint) (hreach : Managed broker)
    (h : call.run moment broker = .ok result broker') (hnew : ¬call.Completed broker)
    (hown : ¬call.Adopts broker) :
    broker'.operations.Holds call.operationId fingerprint result 0 := by
  obtain ⟨id, catalog, hworks, hcomplete⟩ := call.run_completes hcall h hnew
  obtain ⟨hadvances, record, hrecord, hpending, rfl⟩ := hworks.pending
  have hholds := (OperationCatalog.Holds.complete (hadvances.wf hreach.wf) hrecord hpending hcomplete).1
  cases hworks with
  | resumed => exact hholds
  | prepared => exact hholds
  | adopted hlookup hother =>
    obtain ⟨-, ⟨-, hunknown⟩ | ⟨_, -, -, ⟨heq, -⟩ | ⟨_, heq, -⟩⟩⟩ :=
      OperationCatalog.lookup_eq_ok hlookup
    · exact absurd ⟨hunknown, _, _, hcall, hother⟩ hown
    · cases heq
    · cases heq

end Histories

/-- **A call that completes its own operation is idempotent.**  Until `maxCompleted` further operations
have completed, with any number of restarts between, a call with the same identifier is answered with
the same result if it asks for the same, and refused if not, and changes nothing. -/
theorem retry_answered {broker broker₁ broker₁' broker₂ : Broker} {call later : Call}
    {moment : Moment} {fingerprint : Fingerprint} {result : ManagementResult} {n : ℕ}
    (hreach : Managed broker) (hcall : call.fingerprint = .ok fingerprint)
    (hnew : ¬call.Completed broker) (hown : ¬call.Adopts broker)
    (h : call.run moment broker = .ok result broker₁) (hsame : SameOperations broker₁ broker₁')
    (hrun : CallRun broker₁' n broker₂) (hn : n < maxCompleted)
    (hid : later.operationId = call.operationId) (moment' : Moment) :
    (later.fingerprint = .ok fingerprint → later.run moment' broker₂ = .ok result broker₂) ∧
      ∀ fingerprint' ≠ fingerprint, later.fingerprint = .ok fingerprint' →
        later.run moment' broker₂ = .error .operationConflict broker₂ := by
  have hadvances := Call.advances_of_ok hcall h hnew
  have hwf : broker₁'.operations.WF := by
    rw [hsame]
    exact hadvances.wf hreach.wf
  have hholds : broker₁'.operations.Holds call.operationId fingerprint result 0 := by
    rw [hsame]
    exact Call.holds_of_ok hcall hreach h hnew hown
  have hlater := hrun.advances.holds hwf hholds hn
  obtain ⟨hanswer, hconflict⟩ := hlater.lookup (hrun.advances.wf hwf)
  rw [← hid] at hanswer hconflict
  exact ⟨fun hlater => Call.run_of_completed hlater hanswer,
    fun fingerprint' hne hlater => Call.run_of_conflict hlater (hconflict fingerprint' hne)⟩

def newBroker : Broker := Broker.empty ⟨8, 1024, 16, 1, false⟩

def createUnder (id : String) : Call := .topic ⟨id, "events", .create, 2, none, none⟩

def eventsCreation : Fingerprint := .topic "events" .create (some ⟨.reliable, none⟩)

/-- The first call about a topic, and its retry. -/
theorem retry_answered_first :
    ∃ broker₁, (createUnder "operation-00000001").run quietMoment newBroker = .ok ⟨4, true⟩ broker₁ ∧
      (createUnder "operation-00000001").run quietMoment broker₁ = .ok ⟨4, true⟩ broker₁ := by
  have hrun : (createUnder "operation-00000001").run quietMoment newBroker =
      .ok ⟨4, true⟩ (finalState ((createUnder "operation-00000001").run quietMoment newBroker)) := rfl
  refine ⟨_, hrun, ?_⟩
  have hcall : (createUnder "operation-00000001").fingerprint = .ok eventsCreation := rfl
  have hnew : ¬(createUnder "operation-00000001").Completed newBroker := by
    rintro ⟨fingerprint, result, ⟨rfl⟩, hlookup⟩
    cases hlookup
  have hown : ¬(createUnder "operation-00000001").Adopts newBroker := by
    rintro ⟨-, fingerprint, other, ⟨rfl⟩, hother⟩
    cases hother
  exact (retry_answered ⟨newBroker, 0, rfl, .refl⟩ hcall hnew hown hrun (SameOperations.refl _) .refl
    (by decide) rfl quietMoment).1 hcall

/-- The process has ended after it had stored the first call's operation, and the start that followed
has raised the revision. -/
def pendingEvents : Broker :=
  { newBroker.withPending "operation-00000001" "events" eventsCreation with registryRevision := 3 }

theorem pendingEvents_interrupted : CallStep newBroker 0 pendingEvents :=
  .interrupted (show (createUnder "operation-00000001").fingerprint = .ok eventsCreation from rfl)
    (show prepareManagementOperation "operation-00000001" eventsCreation "events" 2 newBroker =
      .ok (.new "operation-00000001") _ from rfl) rfl

/-- **A call that adopts another caller's operation** succeeds, and its retry does not. -/
theorem retry_adopted :
    Managed pendingEvents ∧
      ∃ broker₁, (createUnder "operation-00000002").run quietMoment pendingEvents =
          .ok ⟨5, true⟩ broker₁ ∧
        (createUnder "operation-00000002").run quietMoment broker₁ =
          .error (.revisionConflict 2 5) broker₁ :=
  ⟨⟨newBroker, 0, rfl, .step .refl pendingEvents_interrupted⟩,
    finalState ((createUnder "operation-00000002").run quietMoment pendingEvents), rfl, rfl⟩

end RustQueue.Broker
