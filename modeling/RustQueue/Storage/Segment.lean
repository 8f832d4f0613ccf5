import RustQueue.Storage.RecoveryIndex
import Mathlib.Data.Finset.Basic
import Mathlib.Data.List.Sort

/-!
# The segment log as the code has it

A directory of segment files and their sidecars, and `SegmentLog`, the state that is kept in
memory about it.  An operation takes both, and answers with the new state, the durable writes
it makes in their order, and its result.  A segment is named by the base index in its file
name; the names sort as those numbers do, for they are padded to twenty digits.

Left out is what no operation here reads: the number of bytes in use and the report of the
last recovery.
-/

namespace RustQueue.Storage

open Lib

/-! ### The directory -/

/-- A file whose first `synced` bytes have been forced to disk. -/
structure SegmentFile where
  base : ℕ
  bytes : List UInt8
  synced : ℕ
  deriving DecidableEq, Repr

structure Disk where
  segments : List SegmentFile
  indexes : ℕ → Option (List UInt8)

/-- A durable write.  Creations, removals and renames are followed by a sync of the directory
before anything else is written. -/
inductive Write where
  | sync (path : ℕ)
  | create (path : ℕ)
  | write (path : ℕ) (bytes : List UInt8)
  | truncate (path len : ℕ)
  | remove (path : ℕ)
  | storeIndex (path : ℕ) (bytes : List UInt8)
  | removeIndex (path : ℕ)
  deriving DecidableEq, Repr

namespace Disk

def empty : Disk := { segments := [], indexes := fun _ => none }

def file (disk : Disk) (path : ℕ) : Option SegmentFile :=
  disk.segments.find? fun file => file.base = path

def segmentPaths (disk : Disk) : List ℕ := disk.segments.map SegmentFile.base

def modify (disk : Disk) (path : ℕ) (f : SegmentFile → SegmentFile) : Disk :=
  { disk with segments := disk.segments.map fun file => if file.base = path then f file else file }

def apply (disk : Disk) : Write → Disk
  | .sync path => disk.modify path fun file => { file with synced := file.bytes.length }
  | .create path =>
    { disk with
      segments := disk.segments.orderedInsert (fun a b => a.base ≤ b.base) ⟨path, [], 0⟩ }
  | .write path bytes => disk.modify path fun file => { file with bytes := file.bytes ++ bytes }
  | .truncate path len =>
    disk.modify path fun file =>
      { file with bytes := file.bytes.take len, synced := (file.bytes.take len).length }
  | .remove path =>
    { disk with segments := disk.segments.filter fun file => decide (file.base ≠ path) }
  | .storeIndex path bytes => { disk with indexes := Function.update disk.indexes path (some bytes) }
  | .removeIndex path => { disk with indexes := Function.update disk.indexes path none }

def applyAll (disk : Disk) (writes : List Write) : Disk := writes.foldl apply disk

/-- What a crash leaves: of every file the synced bytes and perhaps more, and of the sidecars,
which can all be rebuilt, any. -/
def crash (disk : Disk) (kept : ℕ → ℕ) (lost : ℕ → Bool) : Disk where
  segments := disk.segments.map fun file =>
    { file with bytes := file.bytes.take (max file.synced (kept file.base)) }
  indexes path := if lost path then none else disk.indexes path

end Disk

/-! ### Reading segments -/

/-- Where records lie that are written one behind the other. -/
def locate (path : ℕ) : ℕ → List Record → List RecordLocation
  | _, [] => []
  | offset, record :: records =>
    { index := record.header.index, segment := path, offset := offset,
      encodedLen := record.encodedLen } :: locate path (offset + record.encodedLen) records

/-- The locations of a segment's records, and the length of the segment without a torn tail. -/
def scanSegment (crc : Crc32c) (path : ℕ) (allowTailRepair : Bool) (bytes : List UInt8) :
    Except StorageError (List RecordLocation × ℕ) :=
  match (segmentFormat crc path allowTailRepair).scan 0 0 bytes with
  | .error e => .error e
  | .ok (records, stop) => .ok (locate path 0 records, stop)

def readRecord (crc : Crc32c) (disk : Disk) (location : RecordLocation) :
    Except StorageError Record :=
  let corrupt := StorageError.corrupt location.segment location.offset
  match disk.file location.segment with
  | none => .error (.io "No such file or directory")
  | some file =>
    let bytes := file.bytes.drop location.offset
    let header := bytes.take headerLen
    if header.length < headerLen then .error (.io "failed to fill whole buffer")
    else
      match Record.payloadLen header with
      | .error reason => .error (.io reason)
      | .ok payloadLen =>
        if location.encodedLen ≠ headerLen + payloadLen then
          .error (corrupt "record location length does not match its header")
        else
          match RecordHeader.decode header with
          | .error reason => .error (.io reason)
          | .ok decoded =>
            if decoded.index ≠ location.index then
              .error (corrupt "recovery index points at a different record")
            else
              let payload := (bytes.drop headerLen).take payloadLen
              if payload.length < payloadLen then .error (corrupt "partial record payload")
              else if (crc.append (crc.sum (slice header 0 44)) payload).toNat ≠
                  ofBytes (slice header 44 48) then
                .error (corrupt "record checksum mismatch")
              else .ok { header := decoded, payload := payload }

/-! ### The log in memory -/

structure SegmentLog where
  maxSegmentBytes : ℕ
  residentRecords : List RecordLocation
  sealedIndexes : Std.ExtTreeMap ℕ RecoveryIndexSummary
  currentPath : ℕ
  currentLen : ℕ
  startIndex : ℕ
  firstIndex : Option ℕ
  lastIndex : Option ℕ
  checksums : Std.ExtTreeMap ℕ (ℕ × UInt32)
  isolated : Bool
  activeWriterFeatureLevel : ℕ

/-- The state after an operation, the writes it made, and its result. -/
structure Outcome (β : Type) where
  log : SegmentLog
  writes : List Write
  result : Except StorageError β

/-- A failed operation makes the log unavailable. -/
def Outcome.isolate {β : Type} (outcome : Outcome β) : Outcome β :=
  match outcome.result with
  | .error _ => { outcome with log := { outcome.log with isolated := true } }
  | .ok _ => outcome

namespace SegmentLog

variable (log : SegmentLog) (disk : Disk)

def nextIndex : ℕ := log.lastIndex.elim log.startIndex (· + 1)

def recordIndexRange (path : ℕ) : Option (ℕ × ℕ) :=
  match log.sealedIndexes[path]? with
  | some index =>
    if 0 < index.locationCount then some (index.firstIndex, index.lastIndex) else none
  | none =>
    let locations := log.residentRecords.filter fun location => location.segment = path
    match locations.head?, locations.getLast? with
    | some first, some last => some (first.index, last.index)
    | _, _ => none

def locationsForSegment (path : ℕ) : Except StorageError (List RecordLocation) :=
  match log.sealedIndexes[path]? with
  | some summary => RecoveryIndex.loadLocations path summary (disk.indexes path)
  | none => .ok (log.residentRecords.filter fun location => location.segment = path)

def allLocations : Except StorageError (List RecordLocation) :=
  match disk.segmentPaths.mapM (log.locationsForSegment disk) with
  | .error e => .error e
  | .ok locations => .ok (locations.flatten.mergeSort fun a b => a.index ≤ b.index)

def readAll (crc : Crc32c) : Except StorageError (List Record) :=
  match log.allLocations disk with
  | .error e => .error e
  | .ok locations => locations.mapM (readRecord crc disk)

/-! ### Writing -/

def rotate (nextIndex : ℕ) : Outcome Unit :=
  if (disk.file nextIndex).isSome then
    { log := log, writes := [.sync log.currentPath], result := .error (.io "File exists") }
  else
    { log :=
        { log with
          currentPath := nextIndex
          currentLen := 0
          checksums := log.checksums.insert nextIndex (0, 0) }
      writes := [.sync log.currentPath, .create nextIndex]
      result := .ok () }

/-- The segment is changed before a record that would make it too large. -/
def makeRoom (index encodedLen : ℕ) : Outcome Unit :=
  if 0 < log.currentLen ∧ log.maxSegmentBytes < log.currentLen + encodedLen then
    log.rotate disk index
  else { log := log, writes := [], result := .ok () }

/-- The state with one more record in the current segment. -/
def noteAppended (crc : Crc32c) (index : ℕ) (header : List UInt8) (payload : List (List UInt8))
    (encodedLen : ℕ) : SegmentLog :=
  let checksum := (log.checksums[log.currentPath]?.getD (log.currentLen, 0)).2
  { log with
    currentLen := log.currentLen + encodedLen
    checksums := log.checksums.insert log.currentPath
      (log.currentLen + encodedLen, payload.foldl crc.append (crc.append checksum header))
    residentRecords := log.residentRecords ++
      [{ index := index, segment := log.currentPath, offset := log.currentLen,
         encodedLen := encodedLen }]
    firstIndex := some (log.firstIndex.getD index)
    lastIndex := some index }

def appendParts (crc : Crc32c) (record : RecordHeader) (header : List UInt8)
    (payload : List (List UInt8)) (encodedLen : ℕ) (durable : Bool) : Outcome RecordLocation :=
  let room := log.makeRoom disk record.index encodedLen
  match room.result with
  | .error e => { log := room.log, writes := room.writes, result := .error e }
  | .ok () =>
    { log := room.log.noteAppended crc record.index header payload encodedLen
      writes := room.writes ++ .write room.log.currentPath (header ++ payload.flatten) ::
        (if durable then [.sync room.log.currentPath] else [])
      result := .ok
        { index := record.index, segment := room.log.currentPath, offset := room.log.currentLen,
          encodedLen := encodedLen } }

/-- An empty log may start with a later index than it was opened with. -/
def jump (next : ℕ) : SegmentLog :=
  if log.lastIndex = none ∧ log.currentLen = 0 ∧ log.startIndex ≤ next then
    { log with startIndex := next }
  else log

def appendPartsAtWithLocation (crc : Crc32c) (record : RecordHeader) (payload : List (List UInt8))
    (durable : Bool) : Outcome RecordLocation :=
  let fail (log : SegmentLog) (e : StorageError) : Outcome RecordLocation :=
    { log := log, writes := [], result := .error e }
  let payloadLen := (payload.map List.length).sum
  let required := record.kind.requiredWriterFeatureLevel payloadLen
  if log.isolated then fail log .isolated
  else if log.activeWriterFeatureLevel < required then
    let kind := record.kind.debugName
    let active := log.activeWriterFeatureLevel
    fail log (.io s!"record kind {kind} with {payloadLen} payload bytes requires writer feature level {required}, active level is {active}")
  else
    let log := log.jump record.index
    if record.index ≠ log.nextIndex then
      fail log (.nonContiguous log.nextIndex record.index)
    else
      match record.encode crc payload with
      | .error reason => fail log (.io reason)
      | .ok header =>
        (log.appendParts disk crc record header payload (headerLen + payloadLen) durable).isolate

def sync : Outcome Unit :=
  if log.isolated then { log := log, writes := [], result := .error .isolated }
  else { log := log, writes := [.sync log.currentPath], result := .ok () }

def «seal» : Outcome Unit :=
  if log.isolated then { log := log, writes := [], result := .error .isolated }
  else if 0 < log.currentLen then
    let outcome := log.rotate disk log.nextIndex
    Outcome.isolate { outcome with writes := .sync log.currentPath :: outcome.writes }
  else { log := log, writes := [.sync log.currentPath], result := .ok () }

/-! ### Maintenance -/

def refreshAggregates : SegmentLog :=
  let indexes := log.sealedIndexes.toList.map Prod.snd |>.filter fun index => 0 < index.locationCount
  let resident := log.residentRecords.map RecordLocation.index
  { log with
    firstIndex := (indexes.map RecoveryIndexSummary.firstIndex ++ resident).min?
    lastIndex := (indexes.map RecoveryIndexSummary.lastIndex ++ resident).max? }

/-- The segments that a purge removes, oldest first. -/
def removable (throughIndex : ℕ) (retained : Finset ℕ) : List ℕ :=
  disk.segmentPaths.takeWhile fun path =>
    decide (path ≠ log.currentPath ∧ path ∉ retained) &&
      (log.recordIndexRange path).any fun range => range.2 ≤ throughIndex

/-- The state without the given segments, before the aggregates are computed anew. -/
def withoutSegments (paths : List ℕ) (removedThrough : ℕ) : SegmentLog :=
  { log with
    checksums := paths.foldl (fun checksums path => checksums.erase path) log.checksums
    sealedIndexes := paths.foldl (fun indexes path => indexes.erase path) log.sealedIndexes
    residentRecords := log.residentRecords.filter fun record => removedThrough < record.index }

def afterPurge (paths : List ℕ) (removedThrough throughIndex : ℕ) : SegmentLog :=
  let refreshed := (log.withoutSegments paths removedThrough).refreshAggregates
  { refreshed with startIndex := refreshed.firstIndex.getD (satSucc throughIndex) }

def purgePrefixRetaining (throughIndex : ℕ) (retained : Finset ℕ) : Outcome ℕ :=
  if log.isolated then { log := log, writes := [], result := .error .isolated }
  else
    let removable := log.removable disk throughIndex retained
    if removable = [] then { log := log, writes := [], result := .ok 0 }
    else
      let removedThrough := (removable.getLast?.bind log.recordIndexRange).elim throughIndex Prod.snd
      { log := log.afterPurge removable removedThrough throughIndex
        writes := .sync log.currentPath ::
          removable.flatMap fun path => [.remove path, .removeIndex path]
        result := .ok removable.length }

def persistRecoveryIndex (crc : Crc32c) (path : ℕ) (metadata : List UInt8) : Outcome Unit :=
  let fail (writes : List Write) (e : StorageError) : Outcome Unit :=
    { log := log, writes := writes, result := .error e }
  if log.isolated then fail [] .isolated
  else if path = log.currentPath then fail [] (.io "cannot index the active segment")
  else
    match log.checksums[path]? with
    | none => fail [] (.io "segment checksum is unavailable")
    | some (segmentLen, segmentCrc32c) =>
      match log.locationsForSegment disk path with
      | .error e => fail [] e
      | .ok locations =>
        match RecoveryIndex.store crc segmentLen segmentCrc32c locations metadata with
        | .error e => fail [] e
        | .ok bytes =>
          let writes := [.storeIndex path bytes]
          match RecoveryIndex.loadSummary crc (some bytes) with
          | .error e => fail writes e
          | .ok none => fail writes (.io "persisted recovery index disappeared")
          | .ok (some summary) =>
            { log :=
                { log with
                  sealedIndexes := log.sealedIndexes.insert path summary
                  residentRecords := log.residentRecords.filter fun location =>
                    decide (location.segment ≠ path) }
              writes := writes
              result := .ok () }

/-! ### Opening -/

/-- What `open` has learnt from the segments so far. -/
structure Recovering where
  residentRecords : List RecordLocation
  sealedIndexes : Std.ExtTreeMap ℕ RecoveryIndexSummary
  checksums : Std.ExtTreeMap ℕ (ℕ × UInt32)
  expected : Option ℕ
  firstIndex : Option ℕ
  lastIndex : ℕ
  records : ℕ

def Recovering.init : Recovering where
  residentRecords := []
  sealedIndexes := ∅
  checksums := ∅
  expected := none
  firstIndex := none
  lastIndex := 0
  records := 0

/-- A segment with the given first and last index goes on where the last one ended. -/
def Recovering.advance (state : Recovering) (first last count : ℕ) :
    Except StorageError Recovering :=
  if count = 0 then .ok state
  else if state.expected.any fun expected => first ≠ expected then
    .error (.nonContiguous (state.expected.getD 0) first)
  else if last ≠ satAdd u64Max first count - 1 then
    .error (.nonContiguous (satAdd u64Max first count - 1) last)
  else
    .ok
      { state with
        firstIndex := some (state.firstIndex.getD first)
        expected := some (satSucc last)
        lastIndex := last
        records := state.records + count }

/-- The sidecar of a segment, unless it is missing, damaged or of another length. -/
def usableIndex (crc : Crc32c) (file : SegmentFile) : Option RecoveryIndexSummary :=
  match RecoveryIndex.loadSummary crc (disk.indexes file.base) with
  | .ok (some index) => if file.bytes.length = index.segmentLen then some index else none
  | _ => none

/-- A segment whose records are found by reading it. -/
def recoverScanned (crc : Crc32c) (isLast : Bool) (state : Recovering) (file : SegmentFile) :
    Except StorageError Recovering :=
  match scanSegment crc file.base isLast file.bytes with
  | .error e => .error e
  | .ok (locations, stop) =>
    Recovering.advance
      { state with
        residentRecords := state.residentRecords ++ locations
        checksums := state.checksums.insert file.base
          (stop, crc.append 0 (file.bytes.take stop)) }
      (RecoveryIndex.firstIndexOf locations) (RecoveryIndex.lastIndexOf locations) locations.length

/-- A segment that is no longer written, through its sidecar if there is one. -/
def recoverSealed (crc : Crc32c) (state : Recovering) (file : SegmentFile) :
    Except StorageError Recovering :=
  match usableIndex disk crc file with
  | some index =>
    Recovering.advance
      { state with
        sealedIndexes := state.sealedIndexes.insert file.base index
        checksums := state.checksums.insert file.base
          (index.segmentLen, UInt32.ofNat index.segmentCrc32c) }
      index.firstIndex index.lastIndex index.locationCount
  | none => recoverScanned crc false state file

/-- The length to which a torn tail is cut. -/
def repairs (crc : Crc32c) (file : SegmentFile) : List Write :=
  match scanSegment crc file.base true file.bytes with
  | .ok (_, stop) => if stop < file.bytes.length then [.truncate file.base stop] else []
  | .error _ => []

/-- The log from what its segments say, with the last one repaired. -/
def opened (maxSegmentBytes startIndex activeWriterFeatureLevel : ℕ) (last : SegmentFile)
    (state : Recovering) : SegmentLog :=
  let expected := if state.records = 0 then some last.base else state.expected
  { maxSegmentBytes := max maxSegmentBytes (headerLen + 1)
    residentRecords := state.residentRecords
    sealedIndexes := state.sealedIndexes
    currentPath := last.base
    currentLen := (disk.file last.base).elim 0 fun file => file.bytes.length
    startIndex := expected.getD startIndex
    firstIndex := state.firstIndex
    lastIndex := if 0 < state.records then some state.lastIndex else none
    checksums := state.checksums
    isolated := false
    activeWriterFeatureLevel := activeWriterFeatureLevel }

def openSegments (crc : Crc32c) (maxSegmentBytes startIndex activeWriterFeatureLevel : ℕ)
    (sealed : List SegmentFile) (last : SegmentFile) : Except StorageError (SegmentLog × List Write) :=
  match sealed.foldlM (recoverSealed disk crc) Recovering.init with
  | .error e => .error e
  | .ok state =>
    match recoverScanned crc true state last with
    | .error e => .error e
    | .ok state =>
      let writes := repairs crc last
      .ok (opened (disk.applyAll writes) maxSegmentBytes startIndex activeWriterFeatureLevel last state,
        writes)

def openWithFeatureLevel (crc : Crc32c)
    (maxSegmentBytes startIndex activeWriterFeatureLevel : ℕ) :
    Except StorageError (SegmentLog × List Write) :=
  match disk.segments.getLast? with
  | none =>
    let file := { base := startIndex, bytes := [], synced := 0 }
    (openSegments (disk.apply (.create startIndex)) crc maxSegmentBytes startIndex
      activeWriterFeatureLevel [] file).map fun (log, writes) => (log, .create startIndex :: writes)
  | some last =>
    openSegments disk crc maxSegmentBytes startIndex activeWriterFeatureLevel
      disk.segments.dropLast last

end SegmentLog

end RustQueue.Storage
