import RustQueue.Storage.Opening

/-!
# The segment log recovers what was written

A run of the log: operations one after the other, each a change of the state in memory and a
queue of durable writes, which are carried out one at a time.  A crash may come at any point,
loses the bytes behind the last sync of the current segment from any point on, and is followed
by opening what is left, after which the run goes on.

Next to the log a run carries what the result is about: the records that were appended, how
many of them were synced, and the purges that were asked for.

* `LogRun.reopens_after_crash`: in every reachable state, whatever a crash leaves, opening the
  directory succeeds and gives a consecutive run of the appended records that contains every
  synced record that no purge covers, and the next index is above all synced and all purged
  records.
-/

namespace RustQueue.Storage

open Lib LogFiles SegmentLog

open LogEntry (index)

structure LogRun where
  log : SegmentLog
  disk : Disk
  queue : List Write
  appending : Record
  history : List Record
  synced : ℕ
  purges : List ℕ

namespace LogRun

/-- The state after the next write of the queue.  The write of a record adds it to the
history, and a sync covers the whole history, for sealed segments are synced already. -/
def perform (run : LogRun) (write : Write) (rest : List Write) : LogRun :=
  { run with
    disk := run.disk.apply write
    queue := rest
    history :=
      match write with
      | .write _ _ => run.history ++ [run.appending]
      | _ => run.history
    synced :=
      match write with
      | .sync _ => run.history.length
      | _ => run.synced }

/-- An operation that has returned, with its writes still to be carried out. -/
def issue {β : Type} (run : LogRun) (outcome : Outcome β) : LogRun :=
  { run with log := outcome.log, queue := outcome.writes }

/-- A run starts with an empty directory. -/
def start (log : SegmentLog) (writes : List Write) (appending : Record) : LogRun where
  log := log
  disk := Disk.empty.applyAll writes
  queue := []
  appending := appending
  history := []
  synced := 0
  purges := []

/-- The run goes on with what was recovered; the records behind it are lost. -/
def reopened (run : LogRun) (log : SegmentLog) (disk : Disk) : LogRun :=
  { run with
    log := log
    disk := disk
    queue := []
    history := run.history.filter fun record => record.header.index < log.nextIndex }

inductive Step (crc : Crc32c) : LogRun → LogRun → Prop
  | append {run : LogRun} (header : RecordHeader) (payload : List (List UInt8)) (durable : Bool)
      (hidle : run.queue = []) (hfits : header.Fits) (hword : header.index < u64Max) :
      Step crc run
        { run.issue (run.log.appendPartsAtWithLocation run.disk crc header payload durable) with
          appending := ⟨header, payload.flatten⟩ }
  | sync {run : LogRun} (hidle : run.queue = []) : Step crc run (run.issue run.log.sync)
  | sealSegment {run : LogRun} (hidle : run.queue = []) : Step crc run (run.issue (run.log.seal run.disk))
  | purge {run : LogRun} (throughIndex : ℕ) (retained : Finset ℕ) (hidle : run.queue = [])
      (hlast : ∃ last, run.log.lastIndex = some last ∧ throughIndex ≤ last) :
      Step crc run
        { run.issue (run.log.purgePrefixRetaining run.disk throughIndex retained) with
          purges := throughIndex :: run.purges }
  | persist {run : LogRun} (path : ℕ) (metadata : List UInt8) (hidle : run.queue = []) :
      Step crc run (run.issue (run.log.persistRecoveryIndex run.disk crc path metadata))
  | perform {run : LogRun} {write : Write} {rest : List Write} (hqueue : run.queue = write :: rest) :
      Step crc run (run.perform write rest)
  | crash {run : LogRun} (kept : ℕ → ℕ) (lost : ℕ → Bool)
      {maxSegmentBytes startIndex activeWriterFeatureLevel : ℕ} (hmax : IsU64 maxSegmentBytes)
      {log : SegmentLog} {writes : List Write}
      (hopen : openWithFeatureLevel (run.disk.crash kept lost) crc maxSegmentBytes startIndex
        activeWriterFeatureLevel = .ok (log, writes)) :
      Step crc run (run.reopened log ((run.disk.crash kept lost).applyAll writes))

/-- The states of all runs. -/
inductive Reachable (crc : Crc32c) : LogRun → Prop
  | start {maxSegmentBytes startIndex activeWriterFeatureLevel : ℕ} (hmax : IsU64 maxSegmentBytes)
      {log : SegmentLog} {writes : List Write} (appending : Record)
      (hopen : openWithFeatureLevel Disk.empty crc maxSegmentBytes startIndex
        activeWriterFeatureLevel = .ok (log, writes)) :
      Reachable crc (start log writes appending)
  | step {run run' : LogRun} (h : Reachable crc run) (hstep : Step crc run run') : Reachable crc run'

/-! ### The invariant -/

/-- What the histories say of the files: the history is what was removed, all of it purged and
below the files, followed by what is there; what was synced is in front of the unsynced part. -/
structure Ghost (run : LogRun) (files : LogFiles Record) (removed : List Record) : Prop where
  history : run.history = removed ++ files.records
  purged : ∀ record ∈ removed, ∃ through ∈ run.purges, index record ≤ through
  below : ∀ record ∈ removed, ∀ segment ∈ files.segments, index record < segment.base
  synced : run.synced ≤ removed.length + files.sealedRecords.length + files.synced

/-- The directory holds some files, the queue leads from them to what the log describes, and
the histories agree with them. -/
structure Inv (crc : Crc32c) (run : LogRun) (files : LogFiles Record) (spec : RecordLog Record)
    (removed : List Record) : Prop where
  directory : Directory crc run.disk files
  queue : SimulatesAll crc run.appending run.purges run.queue files spec.files
  refines : Refines crc run.log (run.disk.applyAll run.queue) spec
  ghost : Ghost run files removed

variable {crc : Crc32c} {run : LogRun} {files files' : LogFiles Record} {spec : RecordLog Record}
  {removed : List Record}

/-- A write moves the boundary between what was removed and what is there, and adds to the
history what it adds to the files. -/
theorem Ghost.perform {write : Write} {rest : List Write} (h : Ghost run files removed)
    (hwf : files.WF) (hwf' : files'.WF)
    (hwrite : Simulates crc run.appending run.purges write files files') :
    ∃ removed', Ghost (run.perform write rest) files' removed' := by
  have hlength := congrArg List.length h.history
  rw [records, List.length_append, List.length_append] at hlength
  cases hwrite with
  | sync =>
    refine ⟨removed, h.history, h.purged, h.below, ?_⟩
    show run.history.length ≤ removed.length + files.sealedRecords.length + files.current.records.length
    omega
  | @create _ next hsynced hfilled hnext =>
    refine ⟨removed, ?_, h.purged, fun record hrecord segment hsegment => ?_, ?_⟩
    · rw [records_rotate]
      exact h.history
    · rw [segments_rotate, List.mem_append, List.mem_singleton] at hsegment
      rcases hsegment with hold | rfl
      · exact h.below record hrecord segment hold
      · have hcurrent := h.below record hrecord files.current (mem_segments.2 (.inr rfl))
        have hbase : files.current.base < next := hwf'.base_lt_current
          (show files.current ∈ files.sealed ++ [files.current] by simp)
        exact hcurrent.trans hbase
    · have hbound := h.synced
      show run.synced ≤ removed.length + ((files.sealed ++ [files.current]).flatMap Segment.records).length + 0
      rw [List.flatMap_append, List.flatMap_singleton, List.length_append]
      rw [sealedRecords] at hbound
      omega
  | write =>
    refine ⟨removed, ?_, h.purged, fun record hrecord segment hsegment => ?_, h.synced⟩
    · rw [records_push, ← List.append_assoc, ← h.history]
      rfl
    · rcases mem_segments.1 hsegment with hsealed | rfl
      · exact h.below record hrecord segment (mem_segments.2 (.inl hsealed))
      · exact h.below record hrecord files.current (mem_segments.2 (.inr rfl))
  | @remove _ segment rest hsealed hpurged =>
    have hdrop : (files.dropOldest 1).segments = rest ++ [files.current] := by
      rw [segments, dropOldest, hsealed]
      rfl
    have hordered := hwf.ordered
    rw [segments, hsealed, List.cons_append, List.pairwise_cons] at hordered
    have hrecords := records_dropOldest files 1
    rw [hsealed, List.take_succ_cons, List.take_zero, List.flatMap_singleton] at hrecords
    refine ⟨removed ++ segment.records, ?_, fun record hrecord => ?_, fun record hrecord other hother => ?_, ?_⟩
    · rw [List.append_assoc, ← hrecords]
      exact h.history
    · rcases List.mem_append.1 hrecord with hold | hnew
      · exact h.purged record hold
      · exact hpurged record hnew
    · rw [hdrop] at hother
      rcases List.mem_append.1 hrecord with hold | hnew
      · refine h.below record hold other ?_
        rw [segments, hsealed]
        exact List.mem_cons_of_mem _ hother
      · exact hordered.1 other hother record hnew
    · have hbound := h.synced
      show run.synced ≤ (removed ++ segment.records).length +
        ((files.sealed.drop 1).flatMap Segment.records).length + files.synced
      rw [sealedRecords, hsealed, List.flatMap_cons, List.length_append] at hbound
      rw [hsealed, List.length_append]
      show run.synced ≤ _ + (rest.flatMap Segment.records).length + _
      omega
  | storeIndex => exact ⟨removed, h.history, h.purged, h.below, h.synced⟩
  | removeIndex => exact ⟨removed, h.history, h.purged, h.below, h.synced⟩

theorem Inv.idle (h : Inv crc run files spec removed) (hidle : run.queue = []) :
    spec.files = files ∧ Refines crc run.log run.disk spec := by
  have hqueue := h.queue
  have hrefines := h.refines
  rw [hidle] at hqueue hrefines
  cases hqueue
  exact ⟨rfl, hrefines⟩

/-- An operation whose writes lead to what its state describes. -/
theorem Inv.issue {β : Type} (h : Inv crc run files spec removed) {outcome : Outcome β}
    {appending : Record} {purges : List ℕ} {spec' : RecordLog Record}
    (hpurges : ∀ through ∈ run.purges, through ∈ purges)
    (hqueue : SimulatesAll crc appending purges outcome.writes files spec'.files)
    (hrefines : Refines crc outcome.log (run.disk.applyAll outcome.writes) spec') :
    Inv crc { run.issue outcome with appending := appending, purges := purges } files spec' removed where
  directory := h.directory
  queue := hqueue
  refines := hrefines
  ghost :=
    { history := h.ghost.history
      purged := fun record hrecord =>
        let ⟨through, hthrough, hle⟩ := h.ghost.purged record hrecord
        ⟨through, hpurges through hthrough, hle⟩
      below := h.ghost.below
      synced := h.ghost.synced }

theorem Inv.perform (h : Inv crc run files spec removed) {write : Write} {rest : List Write}
    (hqueue : run.queue = write :: rest) :
    ∃ files' removed', Inv crc (run.perform write rest) files' spec removed' := by
  have hsimulates := h.queue
  have hrefines := h.refines
  rw [hqueue] at hsimulates hrefines
  cases hsimulates with
  | cons hwrite hwrites =>
    have hdirectory := h.directory.simulates hwrite
    obtain ⟨removed', hghost⟩ := h.ghost.perform h.directory.wf hdirectory.wf hwrite
    exact ⟨_, removed', hdirectory, hwrites, hrefines, hghost⟩

/-! ### After a crash -/

/-- The next index of a log that was just opened is that of its files. -/
theorem nextIndex_opened (files : LogFiles Record) :
    (RecordLog.mk files files.nextIndex).nextIndex = files.nextIndex := by
  rw [RecordLog.nextIndex, LogFiles.nextIndex]
  cases files.lastIndex <;> rfl

theorem nextIndex_le_cut (hwf : files.WF) {count synced : ℕ} {record : Record}
    (hrecord : record ∈ files.current.records.drop count) :
    (cutFiles files count synced).nextIndex ≤ index record := by
  obtain ⟨first, hfirst⟩ := hwf.consecutive
  have hsplit : files.records = (cutFiles files count synced).records ++ files.current.records.drop count := by
    show _ = (files.sealedRecords ++ files.current.records.take count) ++ _
    rw [List.append_assoc, List.take_append_drop]
    rfl
  rw [hsplit, consecutive_append] at hfirst
  rw [LogFiles.nextIndex, LogFiles.lastIndex]
  cases hlast : (cutFiles files count synced).records.getLast? with
  | none => exact hwf.above files.current (mem_segments.2 (.inr rfl)) record (List.mem_of_mem_drop hrecord)
  | some last =>
    have hend := hfirst.1.getLast? hlast
    have hrest := hfirst.2.mem hrecord
    show index last + 1 ≤ index record
    omega

theorem Ghost.lt_nextIndex (h : Ghost run files removed) {count synced : ℕ}
    (hwf : (cutFiles files count synced).WF) {record : Record} (hrecord : record ∈ removed) :
    index record < (cutFiles files count synced).nextIndex :=
  lt_of_lt_of_le (h.below record hrecord files.current (mem_segments.2 (.inr rfl)))
    hwf.base_le_nextIndex

/-- The history without what a crash has lost. -/
theorem Ghost.filter (h : Ghost run files removed) (hwf : files.WF) {count synced : ℕ}
    (hcut : (cutFiles files count synced).WF) :
    run.history.filter (fun record => record.header.index < (cutFiles files count synced).nextIndex) =
      removed ++ (cutFiles files count synced).records := by
  have hsplit : files.records = (cutFiles files count synced).records ++ files.current.records.drop count := by
    show _ = (files.sealedRecords ++ files.current.records.take count) ++ _
    rw [List.append_assoc, List.take_append_drop]
    rfl
  rw [h.history, hsplit, List.filter_append, List.filter_append, List.filter_eq_self.2,
    List.filter_eq_self.2, List.filter_eq_nil_iff.2, List.append_nil]
  · intro record hrecord
    exact mt of_decide_eq_true (not_lt.2 (nextIndex_le_cut hwf hrecord))
  · intro record hrecord
    exact decide_eq_true (hcut.lt_nextIndex hrecord)
  · intro record hrecord
    exact decide_eq_true (h.lt_nextIndex hcut hrecord)

theorem Inv.reopened (h : Inv crc run files spec removed) {log : SegmentLog} {disk : Disk}
    {count synced : ℕ} (hsynced : files.synced ≤ synced)
    (hrefines : Refines crc log disk
      ⟨cutFiles files count synced, (cutFiles files count synced).nextIndex⟩) :
    Inv crc (run.reopened log disk) (cutFiles files count synced)
      ⟨cutFiles files count synced, (cutFiles files count synced).nextIndex⟩ removed where
  directory := hrefines.directory
  queue := .nil _
  refines := hrefines
  ghost :=
    { history := by
        show List.filter _ run.history = _
        rw [hrefines.memory.nextIndex, nextIndex_opened]
        exact h.ghost.filter h.directory.wf hrefines.directory.wf
      purged := h.ghost.purged
      below := by
        intro record hrecord segment hsegment
        rcases mem_segments.1 hsegment with hsealed | rfl
        · exact h.ghost.below record hrecord segment (mem_segments.2 (.inl hsealed))
        · exact h.ghost.below record hrecord files.current (mem_segments.2 (.inr rfl))
      synced := by
        have hbound := h.ghost.synced
        show run.synced ≤ removed.length + files.sealedRecords.length + synced
        omega }

/-! ### Runs -/

theorem Inv.step (hcrc : crc.Chunked) (h : Inv crc run files spec removed) {run' : LogRun}
    (hstep : Step crc run run') : ∃ files spec removed, Inv crc run' files spec removed := by
  cases hstep with
  | append header payload durable hidle hfits hword =>
    obtain ⟨rfl, hrefines⟩ := h.idle hidle
    obtain ⟨spec', hqueue, hrefines', -⟩ :=
      hrefines.append hcrc header payload durable run.purges hfits hword
    exact ⟨_, spec', removed, h.issue (fun _ hthrough => hthrough) hqueue hrefines'⟩
  | sync hidle =>
    obtain ⟨rfl, hrefines⟩ := h.idle hidle
    have hissue : ∃ spec', SimulatesAll crc run.appending run.purges run.log.sync.writes spec.files
        spec'.files ∧ Refines crc run.log.sync.log (run.disk.applyAll run.log.sync.writes) spec' := by
      rw [SegmentLog.sync]
      split_ifs
      · exact ⟨spec, .nil _, hrefines⟩
      · rw [hrefines.memory.currentPath]
        exact ⟨spec.sync, .cons (.sync _) (.nil _), hrefines.sync⟩
    obtain ⟨spec', hqueue, hrefines'⟩ := hissue
    exact ⟨_, spec', removed, h.issue (fun _ hthrough => hthrough) hqueue hrefines'⟩
  | sealSegment hidle =>
    obtain ⟨rfl, hrefines⟩ := h.idle hidle
    obtain ⟨spec', hqueue, hrefines', -⟩ := hrefines.seal run.appending run.purges
    exact ⟨_, spec', removed, h.issue (fun _ hthrough => hthrough) hqueue hrefines'⟩
  | purge throughIndex retained hidle hlast =>
    obtain ⟨rfl, hrefines⟩ := h.idle hidle
    obtain ⟨spec', hqueue, hrefines', -⟩ :=
      hrefines.purge throughIndex retained run.appending List.mem_cons_self hlast
    exact ⟨_, spec', removed, h.issue (fun _ hthrough => List.mem_cons_of_mem _ hthrough) hqueue hrefines'⟩
  | persist path metadata hidle =>
    obtain ⟨rfl, hrefines⟩ := h.idle hidle
    obtain ⟨hqueue, hrefines'⟩ := hrefines.persistRecoveryIndex path metadata run.appending run.purges
    exact ⟨_, spec, removed, h.issue (fun _ hthrough => hthrough) hqueue hrefines'⟩
  | perform hqueue =>
    obtain ⟨files', removed', hinv⟩ := h.perform hqueue
    exact ⟨files', spec, removed', hinv⟩
  | @crash kept lost maxSegmentBytes startIndex level hmax log writes hopen =>
    obtain ⟨log', writes', count, synced, hcount, hsynced, hopen', hrefines⟩ :=
      h.directory.reopen hcrc kept lost hmax startIndex level
    rw [hopen, Except.ok.injEq, Prod.mk.injEq] at hopen'
    obtain ⟨rfl, rfl⟩ := hopen'
    exact ⟨_, _, removed, h.reopened hsynced hrefines⟩

/-- **Every reachable state** satisfies the invariant. -/
theorem Reachable.inv (hcrc : crc.Chunked) (h : Reachable crc run) :
    ∃ files spec removed, Inv crc run files spec removed := by
  induction h with
  | @start maxSegmentBytes startIndex level hmax log writes appending hopen =>
    obtain ⟨log', writes', hopen', hrefines⟩ := open_empty hcrc hmax startIndex level
    rw [hopen, Except.ok.injEq, Prod.mk.injEq] at hopen'
    obtain ⟨rfl, rfl⟩ := hopen'
    exact ⟨_, _, [], hrefines.directory, .nil _, hrefines,
      ⟨rfl, fun record hrecord => by simp at hrecord, fun record hrecord => by simp at hrecord,
        Nat.zero_le _⟩⟩
  | step _ hstep ih =>
    obtain ⟨files, spec, removed, hinv⟩ := ih
    exact hinv.step hcrc hstep

/-- What opening a directory owes to the run that left it. -/
structure Restored (run : LogRun) (log : SegmentLog) (disk : Disk) (records : List Record) : Prop where
  /-- The records are consecutive and were appended one after the other. -/
  consecutive : ∃ first, Consecutive index first records
  appended : records <:+: run.history
  /-- Every synced record is there that no purge covers. -/
  synced : ∀ record ∈ run.history.take run.synced,
    (∀ through ∈ run.purges, through < record.header.index) → record ∈ records
  /-- The next index follows the last record, or is the base of the last segment. -/
  next : ∃ last, disk.segments.getLast? = some last ∧
    log.nextIndex = records.getLast?.elim last.base fun record => record.header.index + 1
  /-- It is above the records that were synced and those whose segments are gone. -/
  above : ∀ record ∈ run.history,
    record ∈ run.history.take run.synced ∨
      (∀ file ∈ run.disk.segments, record.header.index < file.base) →
    record.header.index < log.nextIndex

/-- **The log recovers exactly what was written**, after a crash at any point of any run. -/
theorem reopens_after_crash (hcrc : crc.Chunked) (h : Reachable crc run) (kept : ℕ → ℕ)
    (lost : ℕ → Bool) {maxSegmentBytes : ℕ} (hmax : IsU64 maxSegmentBytes)
    (startIndex activeWriterFeatureLevel : ℕ) :
    ∃ log writes records,
      openWithFeatureLevel (run.disk.crash kept lost) crc maxSegmentBytes startIndex
        activeWriterFeatureLevel = .ok (log, writes) ∧
      log.readAll ((run.disk.crash kept lost).applyAll writes) crc = .ok records ∧
      Restored run log ((run.disk.crash kept lost).applyAll writes) records := by
  obtain ⟨files, spec, removed, hinv⟩ := h.inv hcrc
  obtain ⟨log, writes, count, synced, hcount, hsynced, hopen, hrefines⟩ :=
    hinv.directory.reopen hcrc kept lost hmax startIndex activeWriterFeatureLevel
  have hwf := hrefines.directory.wf
  have hnext : log.nextIndex = (cutFiles files count synced).nextIndex := by
    rw [hrefines.memory.nextIndex, nextIndex_opened]
  have hsplit : run.history = removed ++ ((cutFiles files count synced).records ++
      files.current.records.drop count) := by
    rw [hinv.ghost.history]
    show _ = removed ++ ((files.sealedRecords ++ files.current.records.take count) ++ _)
    rw [List.append_assoc files.sealedRecords, List.take_append_drop]
    rfl
  -- the synced part of the history ends before the part that is lost
  have hkept : ∀ record ∈ run.history.take run.synced,
      record ∈ removed ∨ record ∈ (cutFiles files count synced).records := by
    intro record hrecord
    have hbound := hinv.ghost.synced
    have hlength : (removed ++ (cutFiles files count synced).records).length =
        removed.length + files.sealedRecords.length + (files.current.records.take count).length := by
      show (removed ++ (files.sealedRecords ++ files.current.records.take count)).length = _
      rw [List.length_append, List.length_append, Nat.add_assoc]
    have hle := hinv.directory.wf.synced_le
    rw [hsplit, ← List.append_assoc, List.take_append_of_le_length] at hrecord
    · exact List.mem_append.1 (List.mem_of_mem_take hrecord)
    · rw [hlength, List.length_take]
      omega
  refine ⟨log, writes, (cutFiles files count synced).records, hopen, hrefines.readAll hcrc, ?_⟩
  refine ⟨hwf.consecutive, ⟨removed, files.current.records.drop count, ?_⟩, ?_, ?_, ?_⟩
  · rw [hsplit, List.append_assoc]
  · intro record hrecord hpurges
    refine (hkept record hrecord).resolve_left fun hremoved => ?_
    obtain ⟨through, hthrough, hle⟩ := hinv.ghost.purged record hremoved
    exact absurd (hpurges through hthrough) (not_lt.2 hle)
  · refine ⟨segmentFile crc (files.cut count).current synced, ?_, ?_⟩
    · rw [hrefines.directory.segments]
      exact List.getLast?_concat
    · rw [hnext, LogFiles.nextIndex, LogFiles.lastIndex]
      cases (cutFiles files count synced).records.getLast? <;> rfl
  · intro record _ hrecord
    rw [hnext]
    rcases hrecord with hsync | hbelow
    · rcases hkept record hsync with hremoved | hthere
      · exact hinv.ghost.lt_nextIndex hwf hremoved
      · exact hwf.lt_nextIndex hthere
    · refine lt_of_lt_of_le (hbelow (segmentFile crc files.current files.synced) ?_) hwf.base_le_nextIndex
      rw [hinv.directory.segments]
      simp

/-- The first record of a log. -/
def firstRecord : Record := ⟨⟨.noop, 0, 1, 0, 0, 0⟩, [7]⟩

/-- One durable append, the crash loses all it can. -/
theorem reopens_after_crash_first :
    ∃ run : LogRun, Reachable Crc32c.castagnoli run ∧ run.history = [firstRecord] ∧ run.synced = 1 ∧
      ∃ log writes records,
        openWithFeatureLevel (run.disk.crash (fun _ => 0) fun _ => true) .castagnoli 100 1 1 =
          .ok (log, writes) ∧
        log.readAll ((run.disk.crash (fun _ => 0) fun _ => true).applyAll writes) .castagnoli = .ok records ∧
        firstRecord ∈ records := by
  have hmax : IsU64 100 := by
    unfold IsU64
    decide
  have hstart : Reachable Crc32c.castagnoli (start (freshLog .castagnoli 100 1 1) [.create 1] firstRecord) :=
    .start hmax firstRecord (open_fresh .castagnoli 100 1 1)
  have hissued := hstart.step (.append firstRecord.header [[7]] true rfl
    ⟨by decide, by unfold IsU64; decide, by unfold IsI64; decide, by unfold IsU64; decide,
      by unfold IsI64; decide⟩ (by decide))
  have hdone := (hissued.step (.perform rfl)).step (.perform rfl)
  obtain ⟨log, writes, records, hopen, hread, hrestored⟩ :=
    reopens_after_crash Crc32c.castagnoli_lawful.chunked hdone (fun _ => 0) (fun _ => true) hmax 1 1
  refine ⟨_, hdone, rfl, rfl, log, writes, records, hopen, hread, ?_⟩
  exact hrestored.synced firstRecord List.mem_cons_self fun through hthrough => by cases hthrough

end LogRun

end RustQueue.Storage
