import RustQueue.Storage.Log
import RustQueue.Storage.Segment

/-!
# The segment log refines the log of records

`Directory` relates the files and sidecars of a directory to the segments of records they hold,
`Memory` relates a `SegmentLog` to them, and `Simulates` says what each durable write does to
the records.  Every operation of `SegmentLog` is shown to make a sequence of such writes, after
which its state describes the directory again.
-/

namespace RustQueue.Storage

open Lib FrameFormat LogFiles

instance : LogEntry Record where
  index record := record.header.index
  encodedLen := Record.encodedLen

open LogEntry (index)

variable {crc : Crc32c}

/-! ### Segments and files -/

/-- The file of a segment of which the first `synced` records are on disk. -/
def segmentFile (crc : Crc32c) (segment : Segment Record) (synced : ℕ) : SegmentFile where
  base := segment.base
  bytes := written (Record.bytes crc) segment.records
  synced := (written (Record.bytes crc) (segment.records.take synced)).length

/-- The file of a segment that is all on disk. -/
def sealedFile (crc : Crc32c) (segment : Segment Record) : SegmentFile :=
  segmentFile crc segment segment.records.length

theorem length_written (crc : Crc32c) (records : List Record) :
    (written (Record.bytes crc) records).length = (records.map Record.encodedLen).sum := by
  rw [written, List.length_flatten, List.map_map]
  congr 1
  exact List.map_congr_left fun record _ => Record.length_bytes crc record

theorem length_segment_bytes (segment : Segment Record) :
    (written (Record.bytes crc) segment.records).length = segment.encodedLen := length_written crc _

theorem sealedFile_synced (segment : Segment Record) :
    (sealedFile crc segment).synced = (sealedFile crc segment).bytes.length := by
  show (written _ (segment.records.take segment.records.length)).length = _
  rw [List.take_length]
  rfl

/-- A sidecar that was stored for a segment. -/
def StoredFor (crc : Crc32c) (segment : Segment Record) (bytes : List UInt8) : Prop :=
  ∃ segmentCrc32c metadata,
    RecoveryIndex.store crc segment.encodedLen segmentCrc32c (locate segment.base 0 segment.records)
      metadata = .ok bytes

/-- A summary that describes a segment. -/
structure Describes (segment : Segment Record) (summary : RecoveryIndexSummary) : Prop where
  segmentLen : summary.segmentLen = segment.encodedLen
  locationCount : summary.locationCount = segment.records.length
  firstIndex : summary.firstIndex = segment.records.head?.elim 0 index
  lastIndex : summary.lastIndex = segment.records.getLast?.elim 0 index

/-- The directory holds the segments, and its sidecars belong to them.  A sidecar of a segment
that is gone may be left. -/
structure Directory (crc : Crc32c) (disk : Disk) (files : LogFiles Record) : Prop where
  wf : files.WF
  fits : ∀ record ∈ files.records, record.Fits
  word : ∀ record ∈ files.records, index record < u64Max
  len : ∀ segment ∈ files.segments, IsU64 segment.encodedLen
  segments : disk.segments =
    files.sealed.map (sealedFile crc) ++ [segmentFile crc files.current files.synced]
  stale : ∀ {path bytes}, disk.indexes path = some bytes → path < files.current.base
  indexes : ∀ segment ∈ files.sealed, ∀ {bytes}, disk.indexes segment.base = some bytes →
    StoredFor crc segment bytes

variable (indexes : Std.ExtTreeMap ℕ RecoveryIndexSummary)

/-- The locations that are kept in memory: those of segments without a sidecar. -/
def residentLocations (segments : List (Segment Record)) : List RecordLocation :=
  segments.flatMap fun segment =>
    if segment.base ∈ indexes then [] else locate segment.base 0 segment.records

/-- What is known of the indexes of a directory: of each segment its sidecar, or else all
locations. -/
structure Tables (crc : Crc32c) (disk : Disk) (log : SegmentLog) (files : LogFiles Record) : Prop where
  resident : log.residentRecords = residentLocations log.sealedIndexes files.segments
  indexed : ∀ {path summary}, log.sealedIndexes[path]? = some summary →
    ∃ segment ∈ files.sealed, segment.base = path ∧ Describes segment summary ∧
      ∃ bytes, disk.indexes path = some bytes ∧ StoredFor crc segment bytes

/-- The state of a log describes the directory and the records in it. -/
structure Memory (crc : Crc32c) (log : SegmentLog) (disk : Disk) (spec : RecordLog Record) :
    Prop where
  maxSegmentBytes : IsU64 log.maxSegmentBytes
  currentPath : log.currentPath = spec.files.current.base
  currentLen : log.currentLen = spec.files.current.encodedLen
  startIndex : log.startIndex = spec.startIndex
  firstIndex : log.firstIndex = spec.files.firstIndex
  lastIndex : log.lastIndex = spec.files.lastIndex
  tables : Tables crc disk log spec.files
  checksums : ∀ segment ∈ spec.files.segments,
    ∃ sum, log.checksums[segment.base]? = some (segment.encodedLen, sum)
  known : ∀ path ∈ log.checksums, ∃ segment ∈ spec.files.segments, segment.base = path

/-! ### What a write does to the records -/

/-- The effect of a durable write on the records of a directory, while the given record is
being appended and the given purges have been asked for. -/
inductive Simulates (crc : Crc32c) (appending : Record) (purges : List ℕ) :
    Write → LogFiles Record → LogFiles Record → Prop
  | sync (files : LogFiles Record) :
      Simulates crc appending purges (.sync files.current.base) files files.sync
  | create {files : LogFiles Record} {next : ℕ} (hsynced : files.synced = files.current.records.length)
      (hfilled : files.current.records ≠ [])
      (hnext : ∀ last, files.lastIndex = some last → next = last + 1) :
      Simulates crc appending purges (.create next) files (files.rotate next)
  | write {files : LogFiles Record} (hfits : appending.Fits) (hword : index appending < u64Max)
      (hnext : ∀ last, files.lastIndex = some last → index appending = last + 1)
      (hbase : files.current.base ≤ index appending)
      (hlen : IsU64 (files.push appending).current.encodedLen) :
      Simulates crc appending purges (.write files.current.base (appending.bytes crc)) files
        (files.push appending)
  | remove {files : LogFiles Record} {segment : Segment Record} {rest : List (Segment Record)}
      (hsealed : files.sealed = segment :: rest)
      (hpurged : ∀ record ∈ segment.records, ∃ through ∈ purges, index record ≤ through) :
      Simulates crc appending purges (.remove segment.base) files (files.dropOldest 1)
  | storeIndex {files : LogFiles Record} {segment : Segment Record} {bytes : List UInt8}
      (hsegment : segment ∈ files.sealed) (hstored : StoredFor crc segment bytes) :
      Simulates crc appending purges (.storeIndex segment.base bytes) files files
  | removeIndex (files : LogFiles Record) (path : ℕ) :
      Simulates crc appending purges (.removeIndex path) files files

/-- The effect of a sequence of writes. -/
inductive SimulatesAll (crc : Crc32c) (appending : Record) (purges : List ℕ) :
    List Write → LogFiles Record → LogFiles Record → Prop
  | nil (files : LogFiles Record) : SimulatesAll crc appending purges [] files files
  | cons {write : Write} {writes : List Write} {files middle last : LogFiles Record}
      (hwrite : Simulates crc appending purges write files middle)
      (hwrites : SimulatesAll crc appending purges writes middle last) :
      SimulatesAll crc appending purges (write :: writes) files last

/-! ### Writes keep the directory -/

variable {disk : Disk} {files files' : LogFiles Record} {appending : Record} {purges : List ℕ}

/-- A change of the last file changes no other. -/
theorem modify_last (hwf : files.WF) {file : SegmentFile}
    (hsegments : disk.segments = files.sealed.map (sealedFile crc) ++ [file])
    (hbase : file.base = files.current.base) (f : SegmentFile → SegmentFile) :
    (disk.modify files.current.base f).segments = files.sealed.map (sealedFile crc) ++ [f file] := by
  rw [Disk.modify]
  dsimp only
  rw [hsegments, List.map_append, List.map_map]
  congr 1
  · refine List.map_congr_left fun segment hsegment => ?_
    exact if_neg (hwf.base_lt_current hsegment).ne
  · rw [List.map_singleton, if_pos hbase]

theorem Directory.modify_current (h : Directory crc disk files) (f : SegmentFile → SegmentFile) :
    (disk.modify files.current.base f).segments =
      files.sealed.map (sealedFile crc) ++ [f (segmentFile crc files.current files.synced)] :=
  modify_last h.wf h.segments rfl f

/-- A file with the greatest base goes to the end of the directory. -/
theorem orderedInsert_last (file : SegmentFile) (segments : List SegmentFile)
    (h : ∀ other ∈ segments, other.base < file.base) :
    segments.orderedInsert (fun a b => a.base ≤ b.base) file = segments ++ [file] := by
  induction segments with
  | nil => rfl
  | cons other segments ih =>
    rw [List.orderedInsert, if_neg (not_le.2 (h other List.mem_cons_self)),
      ih fun x hx => h x (List.mem_cons_of_mem _ hx), List.cons_append]

section

variable (h : Directory crc disk files)
include h

theorem Directory.sync : Directory crc (disk.apply (.sync files.current.base)) files.sync :=
  { h with
    wf := h.wf.sync
    segments := by
      show (disk.modify _ _).segments = _
      rw [h.modify_current]
      congr 2
      show SegmentFile.mk _ _ _ = SegmentFile.mk _ _ _
      congr 1
      rw [LogFiles.sync, List.take_length]
      rfl }

theorem Directory.create {next : ℕ}
    (hsynced : files.synced = files.current.records.length) (hfilled : files.current.records ≠ [])
    (hnext : ∀ last, files.lastIndex = some last → next = last + 1) :
    Directory crc (disk.apply (.create next)) (files.rotate next) := by
  have hwf := h.wf.rotate hfilled hnext
  have hbase : ∀ segment ∈ files.segments, segment.base < next := by
    intro segment hsegment
    exact hwf.base_lt_current (show segment ∈ files.sealed ++ [files.current] from hsegment)
  refine
    { wf := hwf
      fits := ?_
      word := ?_
      len := ?_
      segments := ?_
      stale := ?_
      indexes := ?_ }
  · rw [records_rotate]
    exact h.fits
  · rw [records_rotate]
    exact h.word
  · intro segment hsegment
    rw [segments_rotate, List.mem_append, List.mem_singleton] at hsegment
    rcases hsegment with hold | rfl
    · exact h.len segment hold
    · exact Nat.zero_le _
  · have hcurrent : segmentFile crc files.current files.synced = sealedFile crc files.current := by
      rw [hsynced]
      rfl
    show disk.segments.orderedInsert _ _ = _
    rw [h.segments, hcurrent, orderedInsert_last, LogFiles.rotate, List.map_append]
    · rfl
    · intro file hfile
      rw [← List.map_singleton, ← List.map_append, List.mem_map] at hfile
      obtain ⟨segment, hsegment, rfl⟩ := hfile
      exact hbase segment hsegment
  · intro path bytes hpath
    exact (h.stale hpath).trans (hbase _ (mem_segments.2 (.inr rfl)))
  · intro segment hsegment bytes hbytes
    rcases List.mem_append.1 hsegment with hold | hcurrent
    · exact h.indexes segment hold hbytes
    · rw [List.mem_singleton.1 hcurrent] at hbytes
      exact absurd (h.stale hbytes) (lt_irrefl _)

theorem Directory.write (hfits : appending.Fits) (hword : index appending < u64Max)
    (hnext : ∀ last, files.lastIndex = some last → index appending = last + 1)
    (hbase : files.current.base ≤ index appending)
    (hlen : IsU64 (files.push appending).current.encodedLen) :
    Directory crc (disk.apply (.write files.current.base (appending.bytes crc)))
      (files.push appending) := by
  have hmem : ∀ record ∈ (files.push appending).records, record ∈ files.records ∨ record = appending := by
    intro record hrecord
    rwa [records_push, List.mem_append, List.mem_singleton] at hrecord
  refine
    { wf := h.wf.push hnext hbase
      fits := ?_
      word := ?_
      len := ?_
      segments := ?_
      stale := h.stale
      indexes := h.indexes }
  · intro record hrecord
    rcases hmem record hrecord with hold | rfl
    · exact h.fits record hold
    · exact hfits
  · intro record hrecord
    rcases hmem record hrecord with hold | rfl
    · exact h.word record hold
    · exact hword
  · intro segment hsegment
    rcases mem_segments.1 hsegment with hsealed | rfl
    · exact h.len segment (mem_segments.2 (.inl hsealed))
    · exact hlen
  · show (disk.modify _ _).segments = _
    rw [h.modify_current]
    congr 2
    show SegmentFile.mk _ _ _ = SegmentFile.mk _ _ _
    congr 1
    · show written _ files.current.records ++ appending.bytes crc =
        written _ (files.current.records ++ [appending])
      rw [written_append, written_cons, written_nil, List.append_nil]
    · show (written _ (files.current.records.take files.synced)).length =
        (written _ ((files.current.records ++ [appending]).take files.synced)).length
      rw [List.take_append_of_le_length h.wf.synced_le]

theorem Directory.remove {segment : Segment Record} {rest : List (Segment Record)}
    (hsealed : files.sealed = segment :: rest) :
    Directory crc (disk.apply (.remove segment.base)) (files.dropOldest 1) := by
  have hrecords := records_dropOldest files 1
  have hdrop : (files.dropOldest 1).sealed = rest := by
    rw [LogFiles.dropOldest, hsealed]
    rfl
  have hmem : segment ∈ files.sealed := by
    rw [hsealed]
    exact List.mem_cons_self
  have hrest : ∀ other ∈ rest, other.base ≠ segment.base := by
    have hbases := h.wf.bases
    rw [LogFiles.segments, hsealed, List.cons_append, List.map_cons, List.pairwise_cons] at hbases
    intro other hother
    exact (hbases.1 other.base (List.mem_map_of_mem (List.mem_append_left _ hother))).ne'
  refine
    { wf := h.wf.dropOldest 1
      fits := fun record hrecord => h.fits record (hrecords ▸ List.mem_append_right _ hrecord)
      word := fun record hrecord => h.word record (hrecords ▸ List.mem_append_right _ hrecord)
      len := fun other hother => h.len other (segments_dropOldest_sublist.mem hother)
      segments := ?_
      stale := h.stale
      indexes := fun other hother => h.indexes other (List.mem_of_mem_drop hother) }
  show disk.segments.filter _ = _
  rw [h.segments, hdrop, hsealed, List.map_cons, List.cons_append,
    List.filter_cons_of_neg (by simp [sealedFile, segmentFile]), List.filter_append, List.filter_eq_self.2, List.filter_eq_self.2]
  · rfl
  · intro file hfile
    rw [List.mem_singleton.1 hfile]
    exact decide_eq_true (h.wf.base_lt_current hmem).ne'
  · intro file hfile
    obtain ⟨other, hother, rfl⟩ := List.mem_map.1 hfile
    exact decide_eq_true (hrest other hother)

theorem Directory.storeIndex {segment : Segment Record} {bytes : List UInt8}
    (hsegment : segment ∈ files.sealed)
    (hstored : StoredFor crc segment bytes) :
    Directory crc (disk.apply (.storeIndex segment.base bytes)) files := by
  refine { h with stale := ?_, indexes := ?_ }
  · intro path other hpath
    rw [Disk.apply] at hpath
    dsimp only at hpath
    by_cases heq : path = segment.base
    · rw [heq]
      exact h.wf.base_lt_current hsegment
    · rw [Function.update_of_ne heq] at hpath
      exact h.stale hpath
  · intro other hother found hfound
    rw [Disk.apply] at hfound
    dsimp only at hfound
    by_cases heq : other.base = segment.base
    · rw [heq, Function.update_self, Option.some.injEq] at hfound
      have hsame : other = segment :=
        h.wf.eq_of_base (mem_segments.2 (.inl hother)) (mem_segments.2 (.inl hsegment)) heq
      rw [hsame, ← hfound]
      exact hstored
    · rw [Function.update_of_ne heq] at hfound
      exact h.indexes other hother hfound

theorem Directory.removeIndex (path : ℕ) :
    Directory crc (disk.apply (.removeIndex path)) files := by
  have hkept : ∀ {other bytes}, (disk.apply (.removeIndex path)).indexes other = some bytes →
      disk.indexes other = some bytes := by
    intro other bytes hother
    rw [Disk.apply] at hother
    dsimp only at hother
    by_cases heq : other = path
    · rw [heq, Function.update_self] at hother
      exact absurd hother (by simp)
    · rwa [Function.update_of_ne heq] at hother
  exact
    { h with
      stale := fun hother => h.stale (hkept hother)
      indexes := fun segment hsegment _ hfound => h.indexes segment hsegment (hkept hfound) }

/-- **Every durable write** leaves a directory that holds what the write says. -/
theorem Directory.simulates {write : Write} (hwrite : Simulates crc appending purges write files files') :
    Directory crc (disk.apply write) files' := by
  cases hwrite with
  | sync => exact h.sync
  | create hsynced hfilled hnext => exact h.create hsynced hfilled hnext
  | write hfits hword hnext hbase hlen => exact h.write hfits hword hnext hbase hlen
  | remove hsealed => exact h.remove hsealed
  | storeIndex hsegment hstored => exact h.storeIndex hsegment hstored
  | removeIndex => exact h.removeIndex _

theorem Directory.simulatesAll {writes : List Write}
    (hwrites : SimulatesAll crc appending purges writes files files') :
    Directory crc (disk.applyAll writes) files' := by
  induction hwrites generalizing disk with
  | nil => exact h
  | cons hwrite _ ih => exact ih (h.simulates hwrite)

end

theorem SimulatesAll.append {writes more : List Write} {last : LogFiles Record}
    (h : SimulatesAll crc appending purges writes files files')
    (hmore : SimulatesAll crc appending purges more files' last) :
    SimulatesAll crc appending purges (writes ++ more) files last := by
  induction h with
  | nil => exact hmore
  | cons hwrite _ ih => exact .cons hwrite (ih hmore)

/-! ### Appending -/

/-- A log that describes its directory. -/
structure Refines (crc : Crc32c) (log : SegmentLog) (disk : Disk) (spec : RecordLog Record) :
    Prop where
  directory : Directory crc disk spec.files
  memory : Memory crc log disk spec
  start : spec.files.records = [] → spec.files.current.base ≤ spec.startIndex

variable {log : SegmentLog} {spec : RecordLog Record}

theorem locate_append (path offset : ℕ) (records more : List Record) :
    locate path offset (records ++ more) =
      locate path offset records ++ locate path (offset + (records.map Record.encodedLen).sum) more := by
  induction records generalizing offset with
  | nil => rfl
  | cons record records ih =>
    rw [List.cons_append, locate, locate, ih, List.cons_append, List.map_cons, List.sum_cons,
      Nat.add_assoc]

theorem residentLocations_append (segments more : List (Segment Record)) :
    residentLocations indexes (segments ++ more) =
      residentLocations indexes segments ++ residentLocations indexes more := by
  rw [residentLocations, List.flatMap_append]
  rfl

theorem residentLocations_singleton (segment : Segment Record) :
    residentLocations indexes [segment] =
      if segment.base ∈ indexes then [] else locate segment.base 0 segment.records := by
  rw [residentLocations, List.flatMap_singleton]

theorem Memory.congr_disk {disk' : Disk} (h : Memory crc log disk spec)
    (hindexes : disk'.indexes = disk.indexes) : Memory crc log disk' spec :=
  { h with
    tables :=
      { resident := h.tables.resident
        indexed := by
          rw [hindexes]
          exact h.tables.indexed } }

theorem encodedLen_eq_zero {segment : Segment Record} :
    segment.encodedLen = 0 ↔ segment.records = [] := by
  constructor
  · intro h
    rw [Segment.encodedLen, List.sum_eq_zero_iff] at h
    refine List.eq_nil_iff_forall_not_mem.2 fun record hrecord => ?_
    have hzero : record.encodedLen = 0 := h _ (List.mem_map_of_mem hrecord)
    rw [Record.encodedLen, headerLen] at hzero
    omega
  · intro h
    rw [Segment.encodedLen, h]
    rfl

theorem Memory.nextIndex (h : Memory crc log disk spec) : log.nextIndex = spec.nextIndex := by
  rw [SegmentLog.nextIndex, RecordLog.nextIndex, h.lastIndex, h.startIndex]

theorem Memory.currentLen_eq_zero (h : Memory crc log disk spec) :
    log.currentLen = 0 ↔ spec.files.current.records = [] := by
  rw [h.currentLen, encodedLen_eq_zero]

/-- The next index of a log continues its records, or starts at or behind its base. -/
theorem Refines.next (h : Refines crc log disk spec) :
    (∀ last, spec.files.lastIndex = some last → spec.nextIndex = last + 1) ∧
      spec.files.current.base ≤ spec.nextIndex := by
  constructor
  · intro last hlast
    rw [RecordLog.nextIndex, hlast]
    rfl
  · cases hlast : spec.files.lastIndex with
    | none =>
      rw [RecordLog.nextIndex, hlast]
      exact h.start (lastIndex_eq_none.1 hlast)
    | some last =>
      rw [RecordLog.nextIndex, hlast]
      exact h.directory.wf.base_le last hlast

theorem Refines.jump (h : Refines crc log disk spec) (next : ℕ) :
    Refines crc (log.jump next) disk (spec.jump next) := by
  have hiff : (log.lastIndex = none ∧ log.currentLen = 0 ∧ log.startIndex ≤ next) ↔
      (spec.files.records = [] ∧ spec.startIndex ≤ next) := by
    rw [h.memory.lastIndex, lastIndex_eq_none, h.memory.currentLen_eq_zero, h.memory.startIndex]
    constructor
    · rintro ⟨hrecords, -, hstart⟩
      exact ⟨hrecords, hstart⟩
    · rintro ⟨hrecords, hstart⟩
      exact ⟨hrecords, (List.append_eq_nil_iff.1 hrecords).2, hstart⟩
  by_cases hjump : spec.files.records = [] ∧ spec.startIndex ≤ next
  · rw [SegmentLog.jump, RecordLog.jump, if_pos (hiff.2 hjump), if_pos hjump]
    exact
      { directory := h.directory
        memory := { h.memory with
          startIndex := rfl
          tables := ⟨h.memory.tables.resident, h.memory.tables.indexed⟩ }
        start := fun hrecords => (h.start hrecords).trans hjump.2 }
  · rw [SegmentLog.jump, RecordLog.jump, if_neg (mt hiff.1 hjump), if_neg hjump]
    exact h

theorem Directory.exists_segment (h : Directory crc disk files) {file : SegmentFile}
    (hfile : file ∈ disk.segments) : ∃ segment ∈ files.segments, segment.base = file.base := by
  rw [h.segments, List.mem_append, List.mem_map, List.mem_singleton] at hfile
  rcases hfile with ⟨segment, hsegment, rfl⟩ | rfl
  · exact ⟨segment, mem_segments.2 (.inl hsegment), rfl⟩
  · exact ⟨files.current, mem_segments.2 (.inr rfl), rfl⟩

theorem Directory.file_eq_none (h : Directory crc disk files) {next : ℕ}
    (hnext : ∀ segment ∈ files.segments, segment.base < next) : disk.file next = none := by
  refine List.find?_eq_none.2 fun file hfile => ?_
  obtain ⟨segment, hsegment, hbase⟩ := h.exists_segment hfile
  have hlt := hnext segment hsegment
  rw [hbase] at hlt
  simpa using hlt.ne

theorem Refines.rotate_eq (h : Refines crc log disk spec) {next : ℕ}
    (hfilled : spec.files.current.records ≠ []) (hnext : next = spec.nextIndex) :
    (∀ segment ∈ spec.files.segments, segment.base < next) ∧
      log.rotate disk next =
        { log :=
            { log with
              currentPath := next
              currentLen := 0
              checksums := log.checksums.insert next (0, 0) }
          writes := [.sync spec.files.current.base, .create next]
          result := .ok () } := by
  have hlast : ∀ last, spec.files.sync.lastIndex = some last → next = last + 1 := by
    intro last hlast
    rw [hnext]
    exact h.next.1 last hlast
  have hwf := h.directory.wf.sync.rotate hfilled hlast
  have hbelow : ∀ segment ∈ spec.files.segments, segment.base < next := fun segment hsegment =>
    hwf.base_lt_current (show segment ∈ spec.files.sealed ++ [spec.files.current] from hsegment)
  refine ⟨hbelow, ?_⟩
  rw [SegmentLog.rotate, h.directory.file_eq_none hbelow, h.memory.currentPath]
  rfl

/-- The writes of a rotation, and the state after it. -/
theorem Refines.rotate (h : Refines crc log disk spec) {next : ℕ} (appending : Record)
    (purges : List ℕ) (hfilled : spec.files.current.records ≠ []) (hnext : next = spec.nextIndex) :
    (log.rotate disk next).result = .ok () ∧
      (log.rotate disk next).writes = [.sync spec.files.current.base, .create next] ∧
      Simulates crc appending purges (.create next) spec.files.sync (spec.rotate next).files ∧
      Refines crc (log.rotate disk next).log (disk.applyAll (log.rotate disk next).writes)
        (spec.rotate next) := by
  have hlast : ∀ last, spec.files.sync.lastIndex = some last → next = last + 1 := by
    intro last hlast
    rw [hnext]
    exact h.next.1 last hlast
  have hcreate : Simulates crc appending purges (.create next) spec.files.sync
      (spec.rotate next).files := .create rfl hfilled hlast
  have hsimulates : SimulatesAll crc appending purges [.sync spec.files.current.base, .create next]
      spec.files (spec.rotate next).files := .cons (.sync spec.files) (.cons hcreate (.nil _))
  obtain ⟨hbelow, heq⟩ := h.rotate_eq hfilled hnext
  rw [heq]
  refine ⟨rfl, rfl, hcreate, ⟨h.directory.simulatesAll hsimulates, ?_, ?_⟩⟩
  · refine (show Memory crc _ disk _ from ?_).congr_disk rfl
    exact
      { maxSegmentBytes := h.memory.maxSegmentBytes
        currentPath := rfl
        currentLen := rfl
        startIndex := h.memory.startIndex
        firstIndex := by
          rw [LogFiles.firstIndex, RecordLog.rotate, records_rotate]
          exact h.memory.firstIndex
        lastIndex := by
          rw [LogFiles.lastIndex, RecordLog.rotate, records_rotate]
          exact h.memory.lastIndex
        tables :=
          { resident := by
              have hnew : residentLocations log.sealedIndexes [⟨next, []⟩] = [] := by
                simp [residentLocations, locate]
              rw [RecordLog.rotate, segments_rotate, residentLocations_append, hnew, List.append_nil]
              exact h.memory.tables.resident
            indexed := by
              intro path summary hpath
              obtain ⟨segment, hsegment, hrest⟩ := h.memory.tables.indexed hpath
              exact ⟨segment, List.mem_append_left _ hsegment, hrest⟩ }
        checksums := by
          intro segment hsegment
          rw [RecordLog.rotate, segments_rotate, List.mem_append, List.mem_singleton] at hsegment
          dsimp only
          rw [Std.ExtTreeMap.getElem?_insert]
          rcases hsegment with hold | rfl
          · rw [if_neg (by simpa using (hbelow segment hold).ne')]
            exact h.memory.checksums segment hold
          · rw [if_pos (by simp)]
            exact ⟨0, rfl⟩
        known := by
          intro path hpath
          rw [RecordLog.rotate, segments_rotate]
          rcases Std.ExtTreeMap.mem_insert.1 hpath with heq | hold
          · exact ⟨⟨next, []⟩, by simp, by simpa using heq⟩
          · obtain ⟨segment, hsegment, hbase⟩ := h.memory.known path hold
            exact ⟨segment, List.mem_append_left _ hsegment, hbase⟩ }
  · intro hrecords
    rw [RecordLog.rotate, records_rotate] at hrecords
    exact absurd (List.append_eq_nil_iff.1 hrecords).2 hfilled

theorem Refines.makeRoom (h : Refines crc log disk spec) (record appending : Record)
    (purges : List ℕ) (hnext : index record = spec.nextIndex) :
    let room := log.makeRoom disk (index record) record.encodedLen
    let spec' := spec.makeRoom log.maxSegmentBytes record
    room.result = .ok () ∧
      SimulatesAll crc appending purges room.writes spec.files spec'.files ∧
      Refines crc room.log (disk.applyAll room.writes) spec' ∧
      (spec'.files.current.records = [] ∨
        spec'.files.current.encodedLen + record.encodedLen ≤ room.log.maxSegmentBytes) := by
  dsimp only
  have hiff : (0 < log.currentLen ∧ log.maxSegmentBytes < log.currentLen + record.encodedLen) ↔
      (spec.files.current.records ≠ [] ∧
        log.maxSegmentBytes < spec.files.current.encodedLen + LogEntry.encodedLen record) := by
    rw [Nat.pos_iff_ne_zero, Ne, h.memory.currentLen_eq_zero, h.memory.currentLen]
    rfl
  by_cases hfull : spec.files.current.records ≠ [] ∧
      log.maxSegmentBytes < spec.files.current.encodedLen + LogEntry.encodedLen record
  · rw [SegmentLog.makeRoom, RecordLog.makeRoom, if_pos (hiff.2 hfull), if_pos hfull]
    obtain ⟨hresult, hwrites, hcreate, hrefines⟩ := h.rotate appending purges hfull.1 hnext
    refine ⟨hresult, ?_, hrefines, .inl rfl⟩
    rw [hwrites]
    exact .cons (.sync _) (.cons hcreate (.nil _))
  · rw [SegmentLog.makeRoom, RecordLog.makeRoom, if_neg (mt hiff.1 hfull), if_neg hfull]
    refine ⟨rfl, .nil _, h, ?_⟩
    by_cases hempty : spec.files.current.records = []
    · exact .inl hempty
    · exact .inr (not_lt.1 fun hlt => hfull ⟨hempty, hlt⟩)

theorem encodedLen_push (files : LogFiles Record) (record : Record) :
    (files.push record).current.encodedLen = files.current.encodedLen + record.encodedLen :=
  LogFiles.encodedLen_push files record

theorem Memory.current_not_indexed (h : Memory crc log disk spec) (hwf : spec.files.WF) :
    spec.files.current.base ∉ log.sealedIndexes := by
  intro hmem
  obtain ⟨summary, hsummary⟩ := Option.isSome_iff_exists.1 (Std.ExtTreeMap.isSome_getElem?_iff_mem.2 hmem)
  obtain ⟨segment, hsegment, hbase, -⟩ := h.tables.indexed hsummary
  exact absurd hbase (hwf.base_lt_current hsegment).ne

/-- The state after a record was written. -/
theorem Memory.noteAppended (h : Memory crc log disk spec) (hwf : spec.files.WF) (record : Record)
    (header : List UInt8) (payload : List (List UInt8)) :
    Memory crc (log.noteAppended crc (index record) header payload record.encodedLen) disk
      (spec.push record) where
  maxSegmentBytes := h.maxSegmentBytes
  currentPath := h.currentPath
  currentLen := by
    show log.currentLen + record.encodedLen = (spec.files.push record).current.encodedLen
    rw [encodedLen_push, h.currentLen]
  startIndex := h.startIndex
  firstIndex := by
    show some (log.firstIndex.getD (index record)) = (spec.files.push record).firstIndex
    rw [h.firstIndex, LogFiles.firstIndex, LogFiles.firstIndex, records_push]
    cases spec.files.records <;> rfl
  lastIndex := by
    show some (index record) = (spec.files.push record).lastIndex
    rw [lastIndex_push]
  tables :=
    { resident := by
        have hcurrent := h.current_not_indexed hwf
        show log.residentRecords ++ [_] =
          residentLocations log.sealedIndexes (spec.files.sealed ++ [(spec.files.push record).current])
        rw [h.tables.resident, LogFiles.segments, residentLocations_append, residentLocations_append,
          List.append_assoc]
        congr 1
        rw [residentLocations_singleton, residentLocations_singleton, if_neg hcurrent]
        show _ = if spec.files.current.base ∈ log.sealedIndexes then []
          else locate spec.files.current.base 0 (spec.files.current.records ++ [record])
        rw [if_neg hcurrent, locate_append, h.currentPath, h.currentLen, Nat.zero_add]
        rfl
      indexed := fun hpath => h.tables.indexed hpath }
  checksums := by
    intro segment hsegment
    show ∃ sum, (log.checksums.insert log.currentPath _)[segment.base]? = _
    rw [Std.ExtTreeMap.getElem?_insert, h.currentPath]
    rcases mem_segments.1 hsegment with hsealed | rfl
    · rw [if_neg (by simpa using (hwf.base_lt_current hsealed).ne')]
      exact h.checksums segment (mem_segments.2 (.inl hsealed))
    · rw [if_pos (by simp [RecordLog.push, LogFiles.push])]
      refine ⟨_, congrArg some (Prod.ext ?_ rfl)⟩
      show log.currentLen + record.encodedLen = (spec.files.push record).current.encodedLen
      rw [encodedLen_push, h.currentLen]
  known := by
    intro path hpath
    rcases Std.ExtTreeMap.mem_insert.1 hpath with heq | hold
    · refine ⟨(spec.files.push record).current, mem_segments.2 (.inr rfl), ?_⟩
      rw [← Std.LawfulEqCmp.eq_of_compare heq, h.currentPath]
      rfl
    · obtain ⟨segment, hsegment, hbase⟩ := h.known path hold
      rcases mem_segments.1 hsegment with hsealed | rfl
      · exact ⟨segment, mem_segments.2 (.inl hsealed), hbase⟩
      · exact ⟨(spec.files.push record).current, mem_segments.2 (.inr rfl), hbase⟩

theorem Refines.sync (h : Refines crc log disk spec) :
    Refines crc log (disk.apply (.sync spec.files.current.base)) spec.sync where
  directory := h.directory.sync
  memory := { h.memory with tables := ⟨h.memory.tables.resident, h.memory.tables.indexed⟩ }
  start := h.start

/-- A record with the next index is written behind the others. -/
theorem Refines.push (h : Refines crc log disk spec) {record : Record} (purges : List ℕ)
    (hfits : record.Fits) (hword : index record < u64Max) (hnext : index record = spec.nextIndex)
    (hroom : spec.files.current.records = [] ∨
      spec.files.current.encodedLen + record.encodedLen ≤ log.maxSegmentBytes)
    (header : List UInt8) (payload : List (List UInt8)) :
    Simulates crc record purges (.write spec.files.current.base (record.bytes crc)) spec.files
        (spec.push record).files ∧
      Refines crc (log.noteAppended crc (index record) header payload record.encodedLen)
        (disk.apply (.write spec.files.current.base (record.bytes crc))) (spec.push record) := by
  have hlen : IsU64 (spec.files.push record).current.encodedLen := by
    rw [encodedLen_push]
    rcases hroom with hempty | hsmall
    · have hpayload := hfits.payload
      rw [encodedLen_eq_zero.2 hempty, Record.encodedLen]
      unfold IsU64 u64Max headerLen
      unfold maxRecordBytes at hpayload
      omega
    · exact hsmall.trans h.memory.maxSegmentBytes
  have hlast : ∀ last, spec.files.lastIndex = some last → index record = last + 1 := by
    rw [hnext]
    exact h.next.1
  have hbase : spec.files.current.base ≤ index record := by
    rw [hnext]
    exact h.next.2
  have hsimulates : Simulates crc record purges (.write spec.files.current.base (record.bytes crc))
      spec.files (spec.files.push record) := .write hfits hword hlast hbase hlen
  refine ⟨hsimulates, h.directory.simulates hsimulates,
    (h.memory.noteAppended h.directory.wf record header payload).congr_disk rfl, ?_⟩
  intro hrecords
  rw [RecordLog.push, records_push] at hrecords
  simp at hrecords

/-- The records after an append that passed its checks. -/
def appended (spec : RecordLog Record) (maxSegmentBytes : ℕ) (record : Record) (durable : Bool) :
    RecordLog Record :=
  if durable then ((spec.makeRoom maxSegmentBytes record).push record).sync
  else (spec.makeRoom maxSegmentBytes record).push record

theorem Refines.appendParts (h : Refines crc log disk spec) {record : Record} {bytes : List UInt8}
    {payload : List (List UInt8)} (hbytes : bytes ++ payload.flatten = record.bytes crc)
    (hfits : record.Fits) (hword : index record < u64Max) (hnext : index record = spec.nextIndex)
    (durable : Bool) (purges : List ℕ) :
    let outcome := log.appendParts disk crc record.header bytes payload record.encodedLen durable
    let spec' := appended spec log.maxSegmentBytes record durable
    (∃ location, outcome.result = .ok location) ∧
      SimulatesAll crc record purges outcome.writes spec.files spec'.files ∧
      Refines crc outcome.log (disk.applyAll outcome.writes) spec' := by
  obtain ⟨hresult, hroom, hrefines, hsmall⟩ := h.makeRoom record record purges hnext
  have hnext' : index record = (spec.makeRoom log.maxSegmentBytes record).nextIndex := by
    rw [RecordLog.makeRoom]
    split_ifs
    · rw [RecordLog.nextIndex, RecordLog.rotate, LogFiles.lastIndex, records_rotate]
      exact hnext
    · exact hnext
  obtain ⟨hwrite, hpushed⟩ := hrefines.push purges hfits hword hnext' hsmall bytes payload
  have hpath := hrefines.memory.currentPath
  dsimp only [SegmentLog.appendParts]
  set room := log.makeRoom disk record.header.index record.encodedLen
  have hresult : room.result = .ok () := hresult
  have hpath : room.log.currentPath = _ := hpath
  rw [hresult, hbytes, hpath]
  refine ⟨⟨_, rfl⟩, ?_⟩
  cases durable with
  | false =>
    refine ⟨hroom.append (.cons hwrite (.nil _)), ?_⟩
    dsimp only
    rw [Disk.applyAll, List.foldl_append]
    exact hpushed
  | true =>
    have hsync : Simulates crc record purges
        (.sync (spec.makeRoom log.maxSegmentBytes record).files.current.base)
        ((spec.makeRoom log.maxSegmentBytes record).push record).files
        ((spec.makeRoom log.maxSegmentBytes record).push record).files.sync :=
      .sync ((spec.makeRoom log.maxSegmentBytes record).push record).files
    refine ⟨hroom.append (.cons hwrite (.cons hsync (.nil _))), ?_⟩
    dsimp only
    rw [Disk.applyAll, List.foldl_append]
    exact hpushed.sync

/-- **Appending** is a sequence of writes that leaves the log with one more record, or a refusal
that writes nothing. -/
theorem Refines.append (hcrc : crc.Chunked) (h : Refines crc log disk spec) (header : RecordHeader)
    (payload : List (List UInt8)) (durable : Bool) (purges : List ℕ) (hfits : header.Fits)
    (hword : header.index < u64Max) :
    let record : Record := ⟨header, payload.flatten⟩
    let outcome := log.appendPartsAtWithLocation disk crc header payload durable
    ∃ spec', SimulatesAll crc record purges outcome.writes spec.files spec'.files ∧
      Refines crc outcome.log (disk.applyAll outcome.writes) spec' ∧
      ∀ location, outcome.result = .ok location →
        spec' = spec.append log.maxSegmentBytes record durable := by
  intro record
  have hlen : headerLen + (payload.map List.length).sum = record.encodedLen := by
    rw [Record.encodedLen, List.length_flatten]
  have hjump := h.jump header.index
  have hmax : (log.jump header.index).maxSegmentBytes = log.maxSegmentBytes := by
    rw [SegmentLog.jump]
    split_ifs <;> rfl
  dsimp only [SegmentLog.appendPartsAtWithLocation]
  rw [hlen]
  split_ifs with hisolated hlevel hindex
  · exact ⟨spec, .nil _, h, fun location hresult => by simp at hresult⟩
  · exact ⟨spec, .nil _, h, fun location hresult => by simp at hresult⟩
  · refine ⟨spec.jump header.index, ?_, hjump, fun location hresult => by simp at hresult⟩
    rw [RecordLog.files_jump]
    exact .nil _
  · cases hencode : header.encode crc payload with
    | error reason =>
      refine ⟨spec.jump header.index, ?_, hjump, fun location hresult => by simp at hresult⟩
      rw [RecordLog.files_jump]
      exact .nil _
    | ok bytes =>
      obtain ⟨hbytes, hpayload⟩ := RecordHeader.encode_append hcrc hencode
      rw [not_not, hjump.memory.nextIndex] at hindex
      obtain ⟨⟨location, hresult⟩, hsimulates, hrefines⟩ :=
        hjump.appendParts hbytes ⟨hfits, hpayload⟩ hword hindex durable purges
      have hisolate : ((log.jump header.index).appendParts disk crc header bytes payload
          record.encodedLen durable).isolate = (log.jump header.index).appendParts disk crc header
            bytes payload record.encodedLen durable := by
        rw [Outcome.isolate, hresult]
      rw [RecordLog.files_jump] at hsimulates
      dsimp only
      rw [hisolate]
      refine ⟨_, hsimulates, hrefines, fun _ _ => ?_⟩
      rw [hmax]
      rfl

end RustQueue.Storage
