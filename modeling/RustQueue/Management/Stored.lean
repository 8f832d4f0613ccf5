import RustQueue.Channel.Store
import RustQueue.Lib.AtomicFile
import RustQueue.Management.Retries

/-!
# The catalog of operations on disk

The catalog is serialized as a whole and replaces its file atomically.  A store that fails leaves the
catalog in memory as it was, while its file may already have the new version; and a crash may bring an
older version back.  Whatever comes to light is a catalog that was stored once.

* `OperationCatalog.History`: the catalogs that preparing and completing can make, with the operations
  completed so far, the oldest first;
* `StoredStep`, `StoredRun`: calls, stores that fail within a call, and restarts;
* `catalog_well_formed`: in every run the catalog in memory and every version on disk is well formed, and
  loading a version gives the catalog that was stored.
-/

namespace RustQueue.Management

open Lib Channel

/-! ### The file -/

/-- What the file of the catalog says. -/
structure CatalogFile where
  format : ℕ
  records : Std.ExtTreeMap String OperationRecord
  completedOrder : List String

/-- A serializer of catalogs. -/
structure CatalogJson where
  toVec : CatalogFile → List UInt8
  fromSlice : List UInt8 → Except IoError CatalogFile

/-- The serializer reads back what it wrote. -/
def CatalogJson.RoundTrips (json : CatalogJson) : Prop :=
  ∀ file, json.fromSlice (json.toVec file) = .ok file

def catalogFormat : ℕ := 1

def OperationCatalog.file (catalog : OperationCatalog) : CatalogFile :=
  ⟨catalogFormat, catalog.records, catalog.completedOrder⟩

/-- The answer says whether the store succeeds. -/
def storeBytesAtomic (file : AtomicFile (List UInt8)) (bytes : List UInt8) (storeEnd : StoreEnd) :
    AtomicFile (List UInt8) × Bool :=
  if maxMetadataBytes < bytes.length then (file, false)
  else (file.store bytes storeEnd, decide (storeEnd = .synced))

def readBounded (bytes : List UInt8) : Except IoError (List UInt8) :=
  if maxMetadataBytes < bytes.length then
    .error ⟨.invalidData, "metadata file exceeds the maximum size"⟩
  else .ok bytes

def loadOptional (json : CatalogJson) : Option (List UInt8) → Except IoError (Option CatalogFile)
  | none => .ok none
  | some bytes => do
    let bytes ← readBounded bytes
    let file ← json.fromSlice bytes
    return some file

namespace OperationCatalog

def load (json : CatalogJson) (content : Option (List UInt8)) : Except IoError OperationCatalog := do
  let found ← loadOptional json content
  let file := found.getD empty.file
  if file.format ≠ catalogFormat ∨
      file.records.toList.any (fun entry => !validId entry.1 || entry.2.topic.isEmpty) then
    .error ⟨.invalidData, "invalid management operation catalog"⟩
  else .ok ⟨file.records, file.completedOrder⟩

/-! ### What operations do to a catalog -/

/-- A catalog made by operations, with the identifiers of those that completed, the oldest first. -/
inductive History : List String → OperationCatalog → Prop
  | empty : History [] .empty
  | prepare {completions : List String} {before after : OperationCatalog} {id topic : String}
    {fingerprint : Fingerprint} (h : History completions before) (hnew : before.records[id]? = none)
    (hfree : before.blocksTopic topic = false) (htopic : topic ≠ "")
    (hprepare : before.prepare id fingerprint topic = .ok after) : History completions after
  | complete {completions : List String} {before after : OperationCatalog} {id : String}
    {record : OperationRecord} {result : ManagementResult} (h : History completions before)
    (hrecord : before.records[id]? = some record) (hpending : record.state = .pending)
    (hcomplete : before.complete id result = .ok after) : History (completions ++ [id]) after

/-- **A well-formed catalog.**  The completed operations are listed in the order of their completion. -/
structure WellFormed (catalog : OperationCatalog) : Prop extends WF catalog where
  oldestFirst : ∃ completions, History completions catalog ∧ catalog.completedOrder <:+ completions

variable {catalog after : OperationCatalog} {completions : List String} {id : String}
  {record : OperationRecord} {result : ManagementResult}

/-- Forgetting an operation adds nothing and keeps what is pending. -/
theorem popExpired_records (catalog : OperationCatalog) :
    (∀ (id : String) record, catalog.popExpired.records[id]? = some record →
      catalog.records[id]? = some record) ∧
    ∀ (id : String) record, catalog.records[id]? = some record → record.state = .pending →
      catalog.popExpired.records[id]? = some record := by
  unfold popExpired
  cases catalog.completedOrder with
  | nil => exact ⟨fun _ _ h => h, fun _ _ h _ => h⟩
  | cons expired rest =>
    dsimp only
    by_cases hdone : (catalog.records[expired]?).any (fun record => decide (record.state = .completed)) = true
    · rw [if_pos hdone]
      refine ⟨fun id record hget => ?_, fun id record hget hpending => ?_⟩
      · rw [getElem?_erase_eq] at hget
        by_cases heq : expired = id
        · rw [if_pos heq] at hget
          exact nomatch hget
        · rwa [if_neg heq] at hget
      · -- what is forgotten is completed
        have hne : expired ≠ id := by
          rintro rfl
          rw [hget, Option.any_some, decide_eq_true_eq, hpending] at hdone
          exact nomatch hdone
        rw [getElem?_erase_eq, if_neg hne, hget]
    · rw [if_neg hdone]
      exact ⟨fun _ _ h => h, fun _ _ h _ => h⟩

/-- What forgetting one operation preserves, trimming preserves. -/
theorem trim_rule {P : OperationCatalog → Prop} (hcatalog : P catalog)
    (hpop : ∀ trimmed : OperationCatalog, P trimmed → P trimmed.popExpired) : P catalog.trim := by
  unfold trim
  generalize List.range (catalog.completedOrder.length - maxCompleted) = rounds
  induction rounds generalizing catalog with
  | nil => exact hcatalog
  | cons _ rounds ih => exact ih (hpop catalog hcatalog)

/-- **Trimming keeps every pending operation**, and adds nothing. -/
theorem trim_records (catalog : OperationCatalog) :
    (∀ (id : String) record, catalog.trim.records[id]? = some record →
      catalog.records[id]? = some record) ∧
    ∀ (id : String) record, catalog.records[id]? = some record → record.state = .pending →
      catalog.trim.records[id]? = some record := by
  refine trim_rule (P := fun trimmed => (∀ (id : String) record, trimmed.records[id]? = some record →
      catalog.records[id]? = some record) ∧
    ∀ (id : String) record, catalog.records[id]? = some record → record.state = .pending →
      trimmed.records[id]? = some record) ⟨fun _ _ h => h, fun _ _ h _ => h⟩ fun trimmed ih => ?_
  obtain ⟨hadds, hkeeps⟩ := trimmed.popExpired_records
  exact ⟨fun id record h => ih.1 id record (hadds id record h),
    fun id record h hpending => hkeeps id record (ih.2 id record h hpending) hpending⟩

theorem trim_suffix (catalog : OperationCatalog) : catalog.trim.completedOrder <:+ catalog.completedOrder := by
  refine trim_rule (P := fun trimmed => trimmed.completedOrder <:+ catalog.completedOrder)
    (List.suffix_refl _) fun trimmed ih => List.IsSuffix.trans ?_ ih
  unfold popExpired
  cases horder : trimmed.completedOrder with
  | nil => simp [horder]
  | cons expired rest => exact List.suffix_cons expired rest

theorem History.wf (h : History completions catalog) : catalog.WF := by
  induction h with
  | empty => exact empty_wf
  | prepare _ hnew hfree _ hprepare ih => exact ih.prepare hnew hfree hprepare
  | complete _ hrecord hpending hcomplete ih => exact ih.complete hrecord hpending hcomplete

/-- The operation that completes is the only one that changes. -/
theorem complete_records (hwf : catalog.WF) (hrecord : catalog.records[id]? = some record)
    (hpending : record.state = .pending) (hcomplete : catalog.complete id result = .ok after) :
    (∀ (other : String) found, after.records[other]? = some found →
      ∃ former, catalog.records[other]? = some former ∧ former.topic = found.topic) ∧
    (∀ (other : String) found, catalog.records[other]? = some found → found.state = .pending →
      other ≠ id → after.records[other]? = some found) ∧
    after.completedOrder <:+ catalog.completedOrder ++ [id] := by
  rw [complete_eq hwf hrecord hpending, Except.ok.injEq] at hcomplete
  subst hcomplete
  obtain ⟨hadds, hkeeps⟩ := (catalog.mark result id).trim_records
  have hmark := @mark_eq catalog id record result hrecord
  refine ⟨fun other found hfound => ?_, fun other found hfound hwaiting hne => ?_, ?_⟩
  · have hmarked := hadds other found hfound
    rw [hmark, getElem?_insert_eq] at hmarked
    by_cases heq : id = other
    · rw [if_pos heq, Option.some_inj] at hmarked
      exact ⟨record, heq ▸ hrecord, by rw [← hmarked]⟩
    · rw [if_neg heq] at hmarked
      exact ⟨found, hmarked, rfl⟩
  · refine hkeeps other found ?_ hwaiting
    rw [hmark, getElem?_insert_eq, if_neg (Ne.symm hne), hfound]
  · have hsuffix := (catalog.mark result id).trim_suffix
    rwa [congrArg completedOrder hmark] at hsuffix

theorem History.topics (h : History completions catalog) (hrecord : catalog.records[id]? = some record) :
    record.topic ≠ "" := by
  induction h generalizing id record with
  | empty =>
    rw [OperationCatalog.empty, Std.ExtTreeMap.getElem?_empty] at hrecord
    cases hrecord
  | @prepare _ before _ prepared topic _ _ _ _ htopic hprepare ih =>
    obtain ⟨-, rfl⟩ := prepare_eq_ok hprepare
    rw [getElem?_insert_eq] at hrecord
    by_cases heq : prepared = id
    · rw [if_pos heq, Option.some_inj] at hrecord
      rw [← hrecord]
      exact htopic
    · rw [if_neg heq] at hrecord
      exact ih hrecord
  | complete hbefore hpendingRecord hpending hcomplete ih =>
    obtain ⟨former, hformer, htopic⟩ :=
      (complete_records hbefore.wf hpendingRecord hpending hcomplete).1 id record hrecord
    rw [← htopic]
    exact ih hformer

theorem History.order_suffix (h : History completions catalog) : catalog.completedOrder <:+ completions := by
  induction h with
  | empty => exact List.suffix_refl _
  | prepare _ _ _ _ hprepare ih =>
    obtain ⟨-, rfl⟩ := prepare_eq_ok hprepare
    exact ih
  | complete hbefore hrecord hpending hcomplete ih =>
    refine (complete_records hbefore.wf hrecord hpending hcomplete).2.2.trans ?_
    exact List.suffix_append_inj_of_length_eq rfl |>.2 ⟨ih, rfl⟩

theorem History.wellFormed (h : History completions catalog) : catalog.WellFormed :=
  ⟨h.wf, completions, h, h.order_suffix⟩

/-- **A catalog that was stored is loaded.** -/
theorem History.load_file (h : History completions catalog) {json : CatalogJson} (hjson : json.RoundTrips)
    (hsize : (json.toVec catalog.file).length ≤ maxMetadataBytes) :
    load json (some (json.toVec catalog.file)) = .ok catalog := by
  have hread : loadOptional json (some (json.toVec catalog.file)) = .ok (some catalog.file) := by
    refine bind_eq_ok.2 ⟨_, if_neg (not_lt.2 hsize), bind_eq_ok.2 ⟨_, hjson catalog.file, rfl⟩⟩
  refine bind_eq_ok.2 ⟨_, hread, if_neg ?_⟩
  rintro (hformat | hinvalid)
  · exact hformat rfl
  · obtain ⟨id, record, hget, hbad⟩ := any_toList.1 hinvalid
    have hvalid := h.wf.ids id record hget
    have htopic := h.topics hget
    simp only [hvalid, Bool.not_true, Bool.false_or, String.isEmpty_iff] at hbad
    exact htopic hbad

end OperationCatalog

end RustQueue.Management

namespace RustQueue.Broker

open Lib Management Channel

/-! ### Runs -/

/-- A broker and the file of its catalog. -/
structure Stored where
  broker : Broker
  file : AtomicFile (List UInt8)

section Steps

variable (json : CatalogJson)

/-- The file after a store that succeeds, if there is one. -/
def FileAfter (before after : OperationCatalog) (file file' : AtomicFile (List UInt8)) : Prop :=
  after = before ∧ file' = file ∨
    storeBytesAtomic file (json.toVec after.file) .synced = (file', true)

/-- A step of the broker and its file.  A call ends with its stores done, or fails at one of its two
stores and leaves the broker as it was before the store; a process that ends within a call, or a machine
that crashes, has done the stores of one of these, and starts with what is on disk. -/
inductive StoredStep : Stored → Stored → Prop
  | call {broker broker' : Broker} {file file' : AtomicFile (List UInt8)} {n : ℕ}
    (h : CallStep broker n broker')
    (hfile : FileAfter json broker.operations broker'.operations file file') :
    StoredStep ⟨broker, file⟩ ⟨broker', file'⟩
  | prepareFails {broker broker' broker'' : Broker} {file file' : AtomicFile (List UInt8)} {call : Call}
    {fingerprint : Fingerprint} {prepared : PreparedOperation} {storeEnd : StoreEnd}
    (hcall : call.fingerprint = .ok fingerprint)
    (h : prepareManagementOperation call.operationId fingerprint call.topicName call.expectedRevision
      broker = .ok prepared broker')
    (hstore : storeBytesAtomic file (json.toVec broker'.operations.file) storeEnd = (file', false))
    (hsame : SameOperations broker broker'') : StoredStep ⟨broker, file⟩ ⟨broker'', file'⟩
  | completeFails {broker broker' : Broker} {file file' file'' : AtomicFile (List UInt8)} {call : Call}
    {fingerprint : Fingerprint} {id : String} {catalog next : OperationCatalog}
    {result : ManagementResult} {storeEnd : StoreEnd} (hcall : call.fingerprint = .ok fingerprint)
    (hworks : WorksOn broker call.operationId call.topicName fingerprint call.expectedRevision id catalog)
    (hfile : FileAfter json broker.operations catalog file file')
    (hcomplete : catalog.complete id result = .ok next)
    (hstore : storeBytesAtomic file' (json.toVec next.file) storeEnd = (file'', false))
    (hoperations : broker'.operations = catalog) : StoredStep ⟨broker, file⟩ ⟨broker', file''⟩
  | restart {broker broker' : Broker} {file file' : AtomicFile (List UInt8)}
    (hrestart : file.Restart file')
    (hload : OperationCatalog.load json file'.content = .ok broker'.operations) :
    StoredStep ⟨broker, file⟩ ⟨broker', file'⟩

/-- A run from an empty catalog. -/
inductive StoredRun : Stored → Prop
  | first {broker : Broker} (hempty : broker.operations = OperationCatalog.empty) :
    StoredRun ⟨broker, .missing⟩
  | step {state state' : Stored} (h : StoredRun state) (hstep : StoredStep json state state') :
    StoredRun state'

end Steps

/-! ### What the steps preserve -/

/-- A catalog made by operations. -/
def Operated (catalog : OperationCatalog) : Prop := ∃ completions, OperationCatalog.History completions catalog

theorem Call.topicName_ne_empty {call : Call} {fingerprint : Fingerprint}
    (hcall : call.fingerprint = .ok fingerprint) : call.topicName ≠ "" := by
  have hempty (error : BrokerError) : checkedName "" error = .error error := by
    have hname : validateName "" = .error .length := by decide
    rw [checkedName, hname]
  cases call with
  | topic command =>
    obtain ⟨_, hname, -⟩ := bind_eq_ok.1 hcall
    intro htopic
    rw [show command.topic = "" from htopic, hempty] at hname
    exact nomatch hname
  | channel command =>
    obtain ⟨_, hname, -⟩ := bind_eq_ok.1 hcall
    intro htopic
    rw [show command.topic = "" from htopic, hempty] at hname
    exact nomatch hname

section Preserved

variable {json : CatalogJson} {broker broker' : Broker} {call : Call} {fingerprint : Fingerprint}
  {catalog next : OperationCatalog} {n : ℕ}

section

variable (h : Operated broker.operations) (hcall : call.fingerprint = .ok fingerprint)
include h hcall

theorem Operated.fresh (hfresh : Fresh broker call.operationId call.topicName call.expectedRevision) :
    Operated (broker.withPending call.operationId call.topicName fingerprint).operations := by
  obtain ⟨completions, hhistory⟩ := h
  have hprepare : broker.operations.prepare call.operationId fingerprint call.topicName =
      .ok (broker.withPending call.operationId call.topicName fingerprint).operations := by
    refine bind_eq_ok.2 ⟨(), ?_, rfl⟩
    rw [validateId, if_pos hfresh.valid]
  exact ⟨completions, hhistory.prepare hfresh.unknown hfresh.free (Call.topicName_ne_empty hcall)
    hprepare⟩

theorem Operated.worksOn {id : String}
    (hworks : WorksOn broker call.operationId call.topicName fingerprint call.expectedRevision id catalog) :
    Operated catalog := by
  cases hworks with
  | resumed => exact h
  | adopted => exact h
  | prepared hfresh => exact h.fresh hcall hfresh

/-- The operation that a call works on can be completed. -/
theorem Operated.complete {id : String} {result : ManagementResult}
    (hworks : WorksOn broker call.operationId call.topicName fingerprint call.expectedRevision id catalog)
    (hcomplete : catalog.complete id result = .ok next) : Operated next := by
  obtain ⟨completions, hhistory⟩ := h.worksOn hcall hworks
  obtain ⟨-, record, hrecord, hpending, -⟩ := hworks.pending
  exact ⟨_, hhistory.complete hrecord hpending hcomplete⟩

theorem Operated.prepareManagementOperation {prepared : PreparedOperation}
    (hprepare : prepareManagementOperation call.operationId fingerprint call.topicName
      call.expectedRevision broker = .ok prepared broker') : Operated broker'.operations := by
  obtain rfl | ⟨hfresh, rfl⟩ := prepareManagementOperation_ok hprepare
  · exact h
  · exact h.fresh hcall hfresh

end

/-- **Every step of the broker makes its catalog by operations.** -/
theorem Operated.callStep (h : Operated broker.operations) (hstep : CallStep broker n broker') :
    Operated broker'.operations := by
  cases hstep with
  | answered hrun hknown =>
    obtain ⟨fingerprint, result, hcall, hlookup⟩ := hknown
    rw [Call.run_of_completed hcall hlookup] at hrun
    cases hrun
    exact h
  | completed hrun hnew hsame =>
    obtain ⟨fingerprint, hcall⟩ := Call.fingerprint_of_ok hrun
    obtain ⟨id, catalog, hworks, hcomplete⟩ := Call.run_completes hcall hrun hnew
    rw [hsame]
    exact h.complete hcall hworks hcomplete
  | @failed _ moment call e hrun =>
    cases hcall : call.fingerprint with
    | error e' =>
      rw [call.run_of_refused hcall] at hrun
      cases hrun
      exact h
    | ok fingerprint =>
      obtain ⟨check, act, hcheck, hact, hmanage⟩ := call.run_eq_manage hcall moment
      rw [hmanage] at hrun
      obtain hsame | ⟨hfresh, -, hsame, -⟩ := manage_error hcheck hact hrun
      · rw [hsame]
        exact h
      · rw [hsame]
        exact h.fresh hcall hfresh
  | interrupted hcall hprepare hsame =>
    rw [hsame]
    exact h.prepareManagementOperation hcall hprepare
  | other hsame =>
    rw [hsame]
    exact h

/-! ### What is on disk -/

/-- A version of the file that is a stored catalog. -/
def StoredVersion (json : CatalogJson) (version : Option (List UInt8)) : Prop :=
  ∀ bytes, version = some bytes → ∃ catalog, Operated catalog ∧
    bytes = json.toVec catalog.file ∧ bytes.length ≤ maxMetadataBytes

variable {file file' : AtomicFile (List UInt8)}

theorem all_storeBytesAtomic {storeEnd : StoreEnd} {stored : Bool} (h : file.All (StoredVersion json))
    (hcatalog : Operated catalog)
    (hstore : storeBytesAtomic file (json.toVec catalog.file) storeEnd = (file', stored)) :
    file'.All (StoredVersion json) := by
  unfold storeBytesAtomic at hstore
  by_cases hsize : maxMetadataBytes < (json.toVec catalog.file).length
  · rw [if_pos hsize] at hstore
    obtain ⟨rfl, -⟩ := Prod.mk.inj hstore
    exact h
  · rw [if_neg hsize] at hstore
    obtain ⟨rfl, -⟩ := Prod.mk.inj hstore
    refine h.store ?_ storeEnd
    rintro bytes ⟨rfl⟩
    exact ⟨catalog, hcatalog, rfl, not_lt.1 hsize⟩

theorem FileAfter.all (hfile : FileAfter json catalog next file file') (h : file.All (StoredVersion json))
    (hnext : Operated next) : file'.All (StoredVersion json) := by
  obtain ⟨-, rfl⟩ | hstore := hfile
  · exact h
  · exact all_storeBytesAtomic h hnext hstore

/-- A version that is a stored catalog is loaded as this catalog, and no file as the empty one. -/
theorem StoredVersion.load {version : Option (List UInt8)} (h : StoredVersion json version)
    (hjson : json.RoundTrips) : ∃ catalog, OperationCatalog.load json version = .ok catalog ∧
      Operated catalog ∧ ∀ bytes, version = some bytes → bytes = json.toVec catalog.file := by
  cases version with
  | none => exact ⟨.empty, rfl, ⟨[], .empty⟩, fun _ hnone => nomatch hnone⟩
  | some bytes =>
    obtain ⟨catalog, ⟨completions, hhistory⟩, rfl, hsize⟩ := h bytes rfl
    exact ⟨catalog, hhistory.load_file hjson hsize, ⟨completions, hhistory⟩,
      fun _ hbytes => (Option.some_inj.1 hbytes).symm⟩

/-- **Every step keeps the catalog in memory and every version on disk made by operations.** -/
theorem StoredStep.preserves {state state' : Stored} (hjson : json.RoundTrips)
    (hstep : StoredStep json state state')
    (h : Operated state.broker.operations ∧ state.file.All (StoredVersion json)) :
    Operated state'.broker.operations ∧ state'.file.All (StoredVersion json) := by
  obtain ⟨hmemory, hdisk⟩ := h
  cases hstep with
  | call hcall hfile =>
    have hnext := hmemory.callStep hcall
    exact ⟨hnext, hfile.all hdisk hnext⟩
  | prepareFails hcall hprepare hstore hsame =>
    refine ⟨?_, all_storeBytesAtomic hdisk (hmemory.prepareManagementOperation hcall hprepare) hstore⟩
    show Operated _
    rw [hsame]
    exact hmemory
  | completeFails hcall hworks hfile hcomplete hstore hoperations =>
    have hcatalog := hmemory.worksOn hcall hworks
    refine ⟨?_, all_storeBytesAtomic (hfile.all hdisk hcatalog)
      (hmemory.complete hcall hworks hcomplete) hstore⟩
    show Operated _
    rw [hoperations]
    exact hcatalog
  | restart hrestart hload =>
    have hversions := hdisk.restart hrestart
    obtain ⟨catalog, hloaded, hcatalog, -⟩ := hversions.1.load hjson
    rw [hload, Except.ok.injEq] at hloaded
    exact ⟨hloaded ▸ hcatalog, hversions⟩

theorem StoredRun.operated {state : Stored} (hjson : json.RoundTrips) (h : StoredRun json state) :
    Operated state.broker.operations ∧ state.file.All (StoredVersion json) := by
  induction h with
  | first hempty =>
    refine ⟨⟨[], ?_⟩, ⟨(fun _ hnone => nomatch hnone), fun version hmem bytes hbytes => ?_⟩⟩
    · show OperationCatalog.History _ _
      rw [hempty]
      exact .empty
    · rw [List.mem_singleton.1 hmem] at hbytes
      exact nomatch hbytes
  | step _ hstep ih => exact hstep.preserves hjson ih

end Preserved

/-- **The catalog of operations is well formed in every run** of calls, failed stores, crashes and
reloads: in memory, and in every version of its file that is or may come to light.  A version on disk is
a catalog, and loading it gives that catalog.  Of the pending operations only the one that completes
changes, and trimming keeps them all. -/
theorem catalog_well_formed {json : CatalogJson} {state : Stored} (hjson : json.RoundTrips)
    (h : StoredRun json state) :
    state.broker.operations.WellFormed ∧
      (state.file.All fun version => ∃ catalog, OperationCatalog.load json version = .ok catalog ∧
        catalog.WellFormed ∧ ∀ bytes, version = some bytes → bytes = json.toVec catalog.file) ∧
      (∀ (catalog : OperationCatalog) (id : String) record, catalog.records[id]? = some record →
        record.state = .pending → catalog.trim.records[id]? = some record) ∧
      ∀ (id : String) record result next, state.broker.operations.records[id]? = some record →
        record.state = .pending → state.broker.operations.complete id result = .ok next →
        ∀ (other : String) found, state.broker.operations.records[other]? = some found →
          found.state = .pending → other ≠ id → next.records[other]? = some found := by
  obtain ⟨⟨completions, hmemory⟩, hdisk⟩ := h.operated hjson
  refine ⟨hmemory.wellFormed, hdisk.imp fun version hversion => ?_,
    fun catalog => (OperationCatalog.trim_records catalog).2, ?_⟩
  · obtain ⟨catalog, hload, ⟨_, hcatalog⟩, hbytes⟩ := hversion.load hjson
    exact ⟨catalog, hload, hcatalog.wellFormed, hbytes⟩
  · intro id record result next hrecord hpending hcomplete
    exact (OperationCatalog.complete_records hmemory.wf hrecord hpending hcomplete).2.1

/-! ### A run -/

section

open Json Json.Codec

def deliveryModeText : Topic.DeliveryMode → String
  | .reliable => "RELIABLE"
  | .ttlDiscard => "TTL_DISCARD"

def policyCodec : Codec Topic.TopicPolicy :=
  (field "delivery_mode" (enum deliveryModeText [.reliable, .ttlDiscard] fun mode => by cases mode <;> rfl)
    |>.also "message_ttl_seconds" optionNat |>.object).map
    (fun (mode, ttl) => ⟨mode, ttl⟩) (fun policy => (policy.deliveryMode, policy.messageTtlSeconds))
    fun _ => rfl

def topicActionText : TopicAction → String
  | .create => "create"
  | .configure => "configure"
  | .pause => "pause"
  | .unpause => "unpause"
  | .empty => "empty"
  | .delete => "delete"
  | .tombstone => "tombstone"

def channelActionText : ChannelAction → String
  | .create => "create"
  | .pause => "pause"
  | .unpause => "unpause"
  | .empty => "empty"
  | .delete => "delete"
  | .tombstone => "tombstone"

def operationStateText : OperationState → String
  | .pending => "pending"
  | .completed => "completed"

def topicActionCodec : Codec TopicAction :=
  enum topicActionText [.create, .configure, .pause, .unpause, .empty, .delete, .tombstone]
    fun action => by cases action <;> rfl

def channelActionCodec : Codec ChannelAction :=
  enum channelActionText [.create, .pause, .unpause, .empty, .delete, .tombstone]
    fun action => by cases action <;> rfl

/-- A fingerprint as the text of a tuple. -/
def fingerprintCodec : Codec Fingerprint :=
  ((wrap "[\"topic\"," (element (element string topicActionCodec) (option policyCodec fun _ => rfl)) "]"
    fun _ => rfl).either
    (wrap "[\"channel\"," (element (element (element string string) channelActionCodec) bool) "]"
      fun _ => rfl) fun _ _ => rfl).map
    (Sum.elim (fun ((topic, action), policy) => .topic topic action policy)
      fun (((topic, channel), action), idle) => .channel topic channel action idle)
    (fun
      | .topic topic action policy => .inl ((topic, action), policy)
      | .channel topic channel action idle => .inr (((topic, channel), action), idle))
    fun fingerprint => by cases fingerprint <;> rfl

def recordCodec : Codec OperationRecord :=
  (field "fingerprint" fingerprintCodec.embedded |>.also "topic" string
    |>.also "state" (enum operationStateText [.pending, .completed] fun state => by cases state <;> rfl)
    |>.also "result" (option ((field "revision" nat |>.also "changed" bool |>.object).map
      (fun (revision, changed) => ManagementResult.mk revision changed)
      (fun result => (result.revision, result.changed)) fun _ => rfl) fun _ => rfl) |>.object).map
    (fun (((fingerprint, topic), state), result) => ⟨fingerprint, topic, state, result⟩)
    (fun record => (((record.fingerprint, record.topic), record.state), record.result)) fun _ => rfl

def catalogCodec : Codec CatalogFile :=
  (field "format" nat |>.also "records" (tree string recordCodec fun _ => rfl)
    |>.also "completed_order" (array string fun _ => rfl) |>.object).map
    (fun ((format, records), order) => ⟨format, records, order⟩)
    (fun file => ((file.format, file.records), file.completedOrder)) fun _ => rfl

/-- The compact text that `serde_json` writes. -/
def compactCatalogJson : CatalogJson :=
  ⟨catalogCodec.toVec, catalogCodec.fromSlice ⟨.invalidData, "invalid management operation catalog"⟩⟩

theorem compactCatalogJson_roundTrips : compactCatalogJson.RoundTrips := by
  intro file
  simp only [compactCatalogJson, fromSlice_toVec]

end

/-- A call that is cut short after its operation was stored, and the start that finds it pending. -/
theorem catalog_well_formed_interrupted :
    ∃ state : Stored, compactCatalogJson.RoundTrips ∧ StoredRun compactCatalogJson state ∧
      state.broker.operations.blocksTopic "events" = true ∧ state.broker.operations.WellFormed := by
  have hjson := compactCatalogJson_roundTrips
  let bytes := compactCatalogJson.toVec pendingEvents.operations.file
  have hsize : bytes.length ≤ maxMetadataBytes := by
    have hshort : bytes.length ≤ 1000 := by decide +kernel
    exact hshort.trans (by decide)
  let file : AtomicFile (List UInt8) := ⟨some bytes, [some bytes]⟩
  have hstore : storeBytesAtomic .missing bytes .synced = (file, true) := if_neg (not_lt.2 hsize)
  have hstored : StoredRun compactCatalogJson ⟨pendingEvents, file⟩ :=
    .step (.first rfl) (.call pendingEvents_interrupted (Or.inr hstore))
  obtain ⟨⟨completions, hhistory⟩, -⟩ := hstored.operated hjson
  have hload : OperationCatalog.load compactCatalogJson (some bytes) = .ok pendingEvents.operations :=
    hhistory.load_file hjson hsize
  let restarted : Broker := { pendingEvents with registryRevision := 4 }
  have hrestarted : StoredRun compactCatalogJson ⟨restarted, file⟩ :=
    hstored.step (.restart .process hload)
  exact ⟨_, hjson, hrestarted, rfl, (catalog_well_formed hjson hrestarted).1⟩

end RustQueue.Broker
