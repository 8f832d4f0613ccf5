import RustQueue.Lib.Maps
import RustQueue.Lib.Result
import RustQueue.Topic.State

/-!
# The catalog of management operations

Every management operation has an identifier, chosen by its caller, and a fingerprint, which says
what is asked for.  The catalog remembers which operations are pending and the results of the last
completed ones.  It is stored as a whole after every change, so that the catalog in memory is the
one on disk.

* `OperationCatalog.WF`: what every stored catalog satisfies, kept by `prepare` and `complete`;
* `OperationCatalog.Holds.complete`: a result stays in the catalog while fewer than `maxCompleted`
  operations complete after it.
-/

namespace RustQueue.Management

open Topic Lib

inductive TopicAction where
  | create
  | configure
  | pause
  | unpause
  | empty
  | delete
  | tombstone
  deriving DecidableEq, Repr

inductive ChannelAction where
  | create
  | pause
  | unpause
  | empty
  | delete
  | tombstone
  deriving DecidableEq, Repr

/-- What an operation asks for.  The source compares the JSON text of these values. -/
inductive Fingerprint where
  | topic (topic : String) (action : TopicAction) (policy : Option TopicPolicy)
  | channel (topic channel : String) (action : ChannelAction) (requireIdle : Bool)
  deriving DecidableEq, Repr

structure ManagementResult where
  revision : ℕ
  changed : Bool
  deriving DecidableEq, Repr

inductive OperationState where
  | pending
  | completed
  deriving DecidableEq, Repr

structure OperationRecord where
  fingerprint : Fingerprint
  topic : String
  state : OperationState
  result : Option ManagementResult
  deriving DecidableEq, Repr

structure OperationCatalog where
  records : Std.ExtTreeMap String OperationRecord
  completedOrder : List String

inductive OperationLookup where
  | new
  | pending
  | completed (result : ManagementResult)
  deriving DecidableEq, Repr

/-- The kinds of an input or output error that the catalog makes. -/
inductive IoErrorKind where
  | invalidInput
  | invalidData
  | notFound
  deriving DecidableEq, Repr

structure IoError where
  kind : IoErrorKind
  message : String
  deriving DecidableEq, Repr

def operationCatalogError (error : IoError) : BrokerError :=
  if error.kind = .invalidInput then .operationConflict else .io error.message

def maxCompleted : ℕ := 8192

def validId (id : String) : Bool :=
  decide (16 ≤ id.utf8ByteSize ∧ id.utf8ByteSize ≤ 128) &&
    id.toList.all fun c => c.isAlphanum || c == '-' || c == '_'

def validateId (id : String) : Except IoError Unit :=
  if validId id then .ok ()
  else .error ⟨.invalidInput, "management operation ID must be 16..=128 safe ASCII characters"⟩

/-- A pending operation that asks for the same. -/
def OperationRecord.matches (record : OperationRecord) (topic : String) (fingerprint : Fingerprint) :
    Bool :=
  decide (record.topic = topic ∧ record.fingerprint = fingerprint ∧ record.state = .pending)

namespace OperationCatalog

variable (catalog : OperationCatalog)

def empty : OperationCatalog := ⟨∅, []⟩

def lookup (id : String) (fingerprint : Fingerprint) : Except IoError OperationLookup := do
  validateId id
  match catalog.records[id]? with
  | none => .ok .new
  | some record =>
    if record.fingerprint ≠ fingerprint then
      .error ⟨.invalidInput, "management operation ID was reused for a different action"⟩
    else
      match record.state, record.result with
      | .pending, _ => .ok .pending
      | .completed, some result => .ok (.completed result)
      | .completed, none =>
        .error ⟨.invalidData, "completed management operation has no result"⟩

def prepare (id : String) (fingerprint : Fingerprint) (topic : String) :
    Except IoError OperationCatalog := do
  validateId id
  return { catalog with records := catalog.records.insert id ⟨fingerprint, topic, .pending, none⟩ }

def pendingId (topic : String) (fingerprint : Fingerprint) : Option String :=
  (catalog.records.toList.find? fun entry => entry.2.matches topic fingerprint).map Prod.fst

def blocksTopic (topic : String) : Bool :=
  catalog.records.toList.any fun entry =>
    decide (entry.2.topic = topic ∧ entry.2.state = .pending)

/-- One matching operation gets its result. -/
def mark (result : ManagementResult) (id : String) : OperationCatalog :=
  match catalog.records[id]? with
  | none => catalog
  | some record =>
    { records := catalog.records.insert id { record with state := .completed, result := some result }
      completedOrder := catalog.completedOrder ++ [id] }

/-- The oldest completed operation is forgotten. -/
def popExpired : OperationCatalog :=
  match catalog.completedOrder with
  | [] => catalog
  | expired :: rest =>
    { records :=
        if (catalog.records[expired]?).any fun record => decide (record.state = .completed) then
          catalog.records.erase expired
        else catalog.records
      completedOrder := rest }

/-- The oldest completed operations are forgotten while there are too many. -/
def trim : OperationCatalog :=
  (List.range (catalog.completedOrder.length - maxCompleted)).foldl (fun catalog _ => catalog.popExpired)
    catalog

/-- All pending operations that ask for the same get the result. -/
def complete (id : String) (result : ManagementResult) : Except IoError OperationCatalog :=
  match catalog.records[id]? with
  | none => .error ⟨.notFound, "management operation disappeared"⟩
  | some record =>
    let matching := (catalog.records.toList.filter fun entry =>
      entry.2.matches record.topic record.fingerprint).map Prod.fst
    .ok (matching.foldl (fun catalog id => catalog.mark result id) catalog).trim

/-! ### Stored catalogs -/

/-- A topic has at most one pending operation, and the order of completion lists the completed
operations, each once and with its result. -/
structure Sound : Prop where
  ids : ∀ (id : String) record, catalog.records[id]? = some record → validId id = true
  results : ∀ (id : String) record, catalog.records[id]? = some record →
    record.state = .completed → record.result.isSome
  order : ∀ id : String, id ∈ catalog.completedOrder ↔
    ∃ record, catalog.records[id]? = some record ∧ record.state = .completed
  nodup : catalog.completedOrder.Nodup
  onePending : ∀ (id id' : String) record record', catalog.records[id]? = some record →
    catalog.records[id']? = some record' → record.state = .pending → record'.state = .pending →
    record.topic = record'.topic → id = id'

/-- What every stored catalog satisfies. -/
structure WF : Prop extends Sound catalog where
  bound : catalog.completedOrder.length ≤ maxCompleted

/-- The operation has completed with a result, and at most `n` operations have completed since. -/
def Holds (id : String) (fingerprint : Fingerprint) (result : ManagementResult) (n : ℕ) : Prop :=
  (∃ topic, catalog.records[id]? = some ⟨fingerprint, topic, .completed, some result⟩) ∧
    ∃ before after, catalog.completedOrder = before ++ id :: after ∧ after.length ≤ n

variable {catalog}

variable {topic : String}

theorem blocksTopic_eq_true :
    catalog.blocksTopic topic = true ↔ ∃ (id : String) (record : OperationRecord),
      catalog.records[id]? = some record ∧ record.topic = topic ∧ record.state = .pending := by
  rw [blocksTopic, any_toList]
  simp only [decide_eq_true_eq]

variable {fingerprint : Fingerprint}

theorem OperationRecord.matches_eq_true {record : OperationRecord} :
    record.matches topic fingerprint = true ↔
      record.topic = topic ∧ record.fingerprint = fingerprint ∧ record.state = .pending :=
  decide_eq_true_iff

theorem pendingId_eq_some {id : String} (h : catalog.pendingId topic fingerprint = some id) :
    ∃ record, catalog.records[id]? = some record ∧ record.topic = topic ∧
      record.fingerprint = fingerprint ∧ record.state = .pending := by
  obtain ⟨⟨found, record⟩, hfind, rfl⟩ := Option.map_eq_some_iff.1 h
  obtain ⟨hget, hmatch⟩ := find?_toList_eq_some hfind
  exact ⟨record, hget, OperationRecord.matches_eq_true.1 hmatch⟩

theorem empty_wf : empty.WF where
  ids _ _ h := by simp [empty] at h
  results _ _ h := by simp [empty] at h
  order _ := by simp [empty]
  nodup := List.nodup_nil
  bound := Nat.zero_le _
  onePending _ _ _ _ h := by simp [empty] at h

/-- What the answer of a lookup says about the catalog. -/
theorem lookup_eq_ok {id : String} {found : OperationLookup} (h : catalog.lookup id fingerprint = .ok found) :
    validId id = true ∧
      (found = .new ∧ catalog.records[id]? = none ∨
        ∃ record, catalog.records[id]? = some record ∧ record.fingerprint = fingerprint ∧
          (found = .pending ∧ record.state = .pending ∨
            ∃ result, found = .completed result ∧ record.state = .completed ∧
              record.result = some result)) := by
  obtain ⟨_, hid, h⟩ := bind_eq_ok.1 h
  unfold validateId at hid
  split_ifs at hid with hvalid
  refine ⟨hvalid, ?_⟩
  cases hrecord : catalog.records[id]? with
  | none =>
    rw [hrecord] at h
    cases h
    exact Or.inl ⟨rfl, rfl⟩
  | some record =>
    rw [hrecord] at h
    dsimp only at h
    split_ifs at h with hfingerprint
    refine Or.inr ⟨record, rfl, not_not.1 hfingerprint, ?_⟩
    split at h
    · rename_i hstate
      cases h
      exact Or.inl ⟨rfl, hstate⟩
    · rename_i hstate hresult
      cases h
      exact Or.inr ⟨_, rfl, hstate, hresult⟩
    · cases h

/-! ### Preparing -/

variable {next : OperationCatalog}

theorem prepare_eq_ok {id : String} (h : catalog.prepare id fingerprint topic = .ok next) :
    validId id = true ∧
      next = { catalog with records := catalog.records.insert id ⟨fingerprint, topic, .pending, none⟩ } := by
  obtain ⟨_, hid, h⟩ := bind_eq_ok.1 h
  unfold validateId at hid
  split_ifs at hid with hvalid
  cases h
  exact ⟨hvalid, rfl⟩

theorem WF.prepare (h : catalog.WF) {id : String}
    (hnew : catalog.records[id]? = none) (hfree : catalog.blocksTopic topic = false)
    (hprepare : catalog.prepare id fingerprint topic = .ok next) : next.WF := by
  obtain ⟨hvalid, rfl⟩ := prepare_eq_ok hprepare
  have hnone : ∀ (other : String) record, catalog.records[other]? = some record →
      record.state = .pending → record.topic ≠ topic := by
    intro other record hrecord hpending htopic
    have := blocksTopic_eq_true.2 ⟨other, record, hrecord, htopic, hpending⟩
    rw [hfree] at this
    cases this
  refine ⟨⟨?_, ?_, ?_, h.nodup, ?_⟩, h.bound⟩
  · intro other record hrecord
    rw [getElem?_insert_eq] at hrecord
    split_ifs at hrecord with heq
    · exact heq ▸ hvalid
    · exact h.ids other record hrecord
  · intro other record hrecord hcompleted
    rw [getElem?_insert_eq] at hrecord
    split_ifs at hrecord with heq
    · cases hrecord
      cases hcompleted
    · exact h.results other record hrecord hcompleted
  · intro other
    rw [h.order other, getElem?_insert_eq]
    split_ifs with heq
    · subst heq
      simp [hnew]
    · exact Iff.rfl
  · intro first second record record' hfirst hsecond hpending hpending' htopic
    rw [getElem?_insert_eq] at hfirst hsecond
    split_ifs at hfirst hsecond with heq heq' heq'
    · exact heq.symm.trans heq'
    · cases hfirst
      exact absurd htopic.symm (hnone second record' hsecond hpending')
    · cases hsecond
      exact absurd htopic (hnone first record hfirst hpending)
    · exact h.onePending first second record record' hfirst hsecond hpending hpending' htopic

theorem Holds.prepare {id other : String} {fingerprint fingerprint' : Fingerprint}
    {result : ManagementResult} {n : ℕ} (h : catalog.Holds id fingerprint result n)
    (hnew : catalog.records[other]? = none)
    (hprepare : catalog.prepare other fingerprint' topic = .ok next) :
    next.Holds id fingerprint result n := by
  obtain ⟨-, rfl⟩ := prepare_eq_ok hprepare
  obtain ⟨⟨topic', hrecord⟩, horder⟩ := h
  refine ⟨⟨topic', ?_⟩, horder⟩
  rw [getElem?_insert_eq, if_neg, hrecord]
  rintro rfl
  rw [hnew] at hrecord
  cases hrecord

/-! ### Completing -/

section Complete

variable {id : String} {record : OperationRecord} {result : ManagementResult}

theorem mark_eq (hrecord : catalog.records[id]? = some record) : catalog.mark result id =
      { records :=
          catalog.records.insert id { record with state := .completed, result := some result }
        completedOrder := catalog.completedOrder ++ [id] } := by
  rw [mark, hrecord]

theorem Sound.mark (h : catalog.Sound) (hrecord : catalog.records[id]? = some record)
    (hpending : record.state = .pending) : (catalog.mark result id).Sound := by
  rw [mark_eq hrecord]
  have hnew : id ∉ catalog.completedOrder := by
    rw [h.order id]
    rintro ⟨other, hother, hcompleted⟩
    rw [hrecord] at hother
    cases hother
    rw [hpending] at hcompleted
    cases hcompleted
  refine ⟨?_, ?_, ?_, ?_, ?_⟩
  · intro other record' hrecord'
    rw [getElem?_insert_eq] at hrecord'
    split_ifs at hrecord' with heq
    · exact heq ▸ h.ids id record hrecord
    · exact h.ids other record' hrecord'
  · intro other record' hrecord' hcompleted
    rw [getElem?_insert_eq] at hrecord'
    split_ifs at hrecord' with heq
    · cases hrecord'
      rfl
    · exact h.results other record' hrecord' hcompleted
  · intro other
    rw [List.mem_append, List.mem_singleton, h.order other, getElem?_insert_eq]
    split_ifs with heq
    · exact iff_of_true (Or.inr heq.symm) ⟨_, rfl, rfl⟩
    · exact or_iff_left (Ne.symm heq)
  · exact List.nodup_append'.2 ⟨h.nodup, List.nodup_singleton id,
      List.disjoint_singleton.2 hnew⟩
  · intro first second record₁ record₂ hfirst hsecond hpending₁ hpending₂ htopic
    rw [getElem?_insert_eq] at hfirst hsecond
    split_ifs at hfirst hsecond with heq heq' heq'
    · exact heq.symm.trans heq'
    · cases hfirst
      cases hpending₁
    · cases hsecond
      cases hpending₂
    · exact h.onePending first second record₁ record₂ hfirst hsecond hpending₁ hpending₂ htopic

theorem Sound.popExpired (h : catalog.Sound) : catalog.popExpired.Sound := by
  unfold OperationCatalog.popExpired
  split
  · exact h
  · rename_i expired rest horder
    obtain ⟨record, hrecord, hcompleted⟩ :=
      (h.order expired).1 (by rw [horder]; exact List.mem_cons_self)
    have hnodup := h.nodup
    rw [horder, List.nodup_cons] at hnodup
    rw [hrecord, Option.any_some, decide_eq_true hcompleted, if_pos rfl]
    have hkept : ∀ (id : String) record, (catalog.records.erase expired)[id]? = some record →
        expired ≠ id ∧ catalog.records[id]? = some record := by
      intro id record hget
      rw [getElem?_erase_eq] at hget
      split_ifs at hget with heq
      exact ⟨heq, hget⟩
    refine ⟨?_, ?_, ?_, hnodup.2, ?_⟩
    · exact fun id record hget => h.ids id record (hkept id record hget).2
    · exact fun id record hget => h.results id record (hkept id record hget).2
    · intro id
      have hmem : id ∈ catalog.completedOrder ↔ id = expired ∨ id ∈ rest := by
        rw [horder, List.mem_cons]
      rw [getElem?_erase_eq]
      split_ifs with heq
      · subst heq
        exact iff_of_false hnodup.1 (by simp)
      · rw [← h.order id, hmem]
        exact (or_iff_right (Ne.symm heq)).symm
    · intro first second record₁ record₂ hfirst hsecond
      exact h.onePending first second record₁ record₂ (hkept _ _ hfirst).2 (hkept _ _ hsecond).2

theorem trim_eq (h : catalog.completedOrder.length ≤ maxCompleted + 1) : catalog.trim =
      if maxCompleted < catalog.completedOrder.length then catalog.popExpired else catalog := by
  unfold trim
  split_ifs with hlong
  · rw [show catalog.completedOrder.length - maxCompleted = 1 by omega]
    rfl
  · rw [show catalog.completedOrder.length - maxCompleted = 0 by omega]
    rfl

theorem Sound.trim (h : catalog.Sound) (hbound : catalog.completedOrder.length ≤ maxCompleted + 1) :
    catalog.trim.WF := by
  rw [trim_eq hbound]
  split_ifs with hlong
  · refine ⟨h.popExpired, ?_⟩
    unfold OperationCatalog.popExpired
    split
    · rename_i horder
      rw [horder] at hlong
      cases hlong
    · rename_i expired rest horder
      rw [horder, List.length_cons] at hbound
      exact Nat.le_of_succ_le_succ hbound
  · exact ⟨h, not_lt.1 hlong⟩

theorem holds_mark (hrecord : catalog.records[id]? = some record) :
    (catalog.mark result id).Holds id record.fingerprint result 0 := by
  rw [mark_eq hrecord]
  refine ⟨⟨record.topic, ?_⟩, catalog.completedOrder, [], rfl, Nat.le_refl _⟩
  rw [getElem?_insert_eq, if_pos rfl]

variable {other : String} {fingerprint : Fingerprint} {result' : ManagementResult} {n : ℕ}

theorem Holds.mark (h : catalog.Holds other fingerprint result' n)
    (hrecord : catalog.records[id]? = some record) (hpending : record.state = .pending) :
    (catalog.mark result id).Holds other fingerprint result' (n + 1) := by
  obtain ⟨⟨topic, hother⟩, before, after, horder, hafter⟩ := h
  rw [mark_eq hrecord]
  refine ⟨⟨topic, ?_⟩, before, after ++ [id], ?_, ?_⟩
  · rw [getElem?_insert_eq, if_neg, hother]
    rintro rfl
    rw [hrecord] at hother
    cases hother
    cases hpending
  · show catalog.completedOrder ++ [id] = before ++ other :: (after ++ [id])
    rw [horder, List.append_assoc, List.cons_append]
  · rw [List.length_append]
    exact Nat.add_le_add_right hafter 1

theorem Holds.trim (h : catalog.Holds other fingerprint result' n) (hnodup : catalog.completedOrder.Nodup)
    (hbound : catalog.completedOrder.length ≤ maxCompleted + 1) (hn : n < maxCompleted) :
    catalog.trim.Holds other fingerprint result' n := by
  rw [trim_eq hbound]
  split_ifs with hlong
  · obtain ⟨⟨topic, hother⟩, before, after, horder, hafter⟩ := h
    cases before with
    | nil =>
      rw [horder, List.nil_append, List.length_cons] at hlong
      omega
    | cons expired before =>
      have hne : expired ≠ other := by
        rintro rfl
        rw [horder, List.cons_append, List.nodup_cons] at hnodup
        exact hnodup.1 (List.mem_append_right _ List.mem_cons_self)
      unfold OperationCatalog.popExpired
      rw [horder]
      refine ⟨⟨topic, ?_⟩, before, after, rfl, hafter⟩
      dsimp only [List.cons_append]
      split_ifs
      · rw [getElem?_erase_eq, if_neg hne, hother]
      · exact hother
  · exact h

theorem complete_eq (h : catalog.WF) (hrecord : catalog.records[id]? = some record)
    (hpending : record.state = .pending) :
    catalog.complete id result = .ok (catalog.mark result id).trim := by
  have honly : (catalog.records.toList.filter fun entry =>
      entry.2.matches record.topic record.fingerprint).map Prod.fst = [id] := by
    refine keys_filter_eq_singleton hrecord
      (OperationRecord.matches_eq_true.2 ⟨rfl, rfl, hpending⟩) ?_
    intro id' record' hrecord' hmatch
    obtain ⟨htopic, -, hpending'⟩ := OperationRecord.matches_eq_true.1 hmatch
    exact h.onePending id' id record' record hrecord' hrecord hpending' hpending htopic
  rw [complete, hrecord]
  dsimp only
  rw [honly]
  rfl

theorem length_mark (h : catalog.WF) (hrecord : catalog.records[id]? = some record) :
    (catalog.mark result id).completedOrder.length ≤ maxCompleted + 1 := by
  rw [mark_eq hrecord, List.length_append]
  exact Nat.add_le_add_right h.bound 1

theorem WF.complete (h : catalog.WF) (hrecord : catalog.records[id]? = some record)
    (hpending : record.state = .pending) (hcomplete : catalog.complete id result = .ok next) :
    next.WF := by
  rw [complete_eq h hrecord hpending, Except.ok.injEq] at hcomplete
  subst hcomplete
  exact (h.toSound.mark hrecord hpending).trim (length_mark h hrecord)

/-- **The operation that completes holds its result, and any other result stays while fewer than
`maxCompleted` operations complete after it.** -/
theorem Holds.complete (h : catalog.WF) (hrecord : catalog.records[id]? = some record)
    (hpending : record.state = .pending) (hcomplete : catalog.complete id result = .ok next) :
    next.Holds id record.fingerprint result 0 ∧
      ∀ (other : String) fingerprint result' n, catalog.Holds other fingerprint result' n →
        n + 1 < maxCompleted → next.Holds other fingerprint result' (n + 1) := by
  rw [complete_eq h hrecord hpending, Except.ok.injEq] at hcomplete
  subst hcomplete
  have hnodup : (catalog.mark result id).completedOrder.Nodup :=
    (h.toSound.mark hrecord hpending).nodup
  have hlength : (catalog.mark result id).completedOrder.length ≤ maxCompleted + 1 :=
    length_mark h hrecord
  exact ⟨(holds_mark hrecord).trim hnodup hlength (by decide),
    fun other fingerprint result' n hother hn =>
      (hother.mark hrecord hpending).trim hnodup hlength hn⟩

end Complete

/-- A held result is the answer of a lookup, and another fingerprint is refused. -/
theorem Holds.lookup {id : String} {result : ManagementResult} {n : ℕ}
    (h : catalog.Holds id fingerprint result n) (hwf : catalog.WF) :
    catalog.lookup id fingerprint = .ok (.completed result) ∧
      ∀ fingerprint' ≠ fingerprint, catalog.lookup id fingerprint' =
        .error ⟨.invalidInput, "management operation ID was reused for a different action"⟩ := by
  obtain ⟨⟨topic, hrecord⟩, -⟩ := h
  have hvalid : validateId id = .ok () := by
    rw [validateId, if_pos (hwf.ids id _ hrecord)]
  constructor
  · rw [OperationCatalog.lookup, hvalid]
    exact bind_eq_ok.2 ⟨(), rfl, by rw [hrecord]; simp⟩
  · intro fingerprint' hne
    rw [OperationCatalog.lookup, hvalid]
    show (match catalog.records[id]? with | none => _ | some _ => _) = _
    rw [hrecord]
    exact if_pos (Ne.symm hne)

end OperationCatalog

end RustQueue.Management
