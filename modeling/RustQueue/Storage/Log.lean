import RustQueue.Lib.Consecutive
import RustQueue.Lib.Saturating
import Mathlib.Data.Finset.Basic

/-!
# What a segment log is

The log without its bytes: segments of entries, the last of them being written, and the number
of its entries that are known to be on disk.  Any type of entries will do that has an index and
a length.  `LogFiles` is what lies in the directory, and `RecordLog` adds the one thing that is
kept in memory only, the index at which an empty log starts.

The steps `sync`, `rotate`, `push` and `dropOldest` are the durable writes from which all
operations are composed, and a crash is `cut`.  Each of them keeps `LogFiles.WF`: indexes are
consecutive, and the base of a segment lies above everything before it.
-/

namespace RustQueue.Storage

open Lib

/-- What the log has to know of an entry. -/
class LogEntry (α : Type*) where
  index : α → ℕ
  encodedLen : α → ℕ

open LogEntry (index encodedLen)

/-- A segment is named by the index at which it was started. -/
structure Segment (α : Type*) where
  base : ℕ
  records : List α
  deriving DecidableEq, Repr

/-- The segments of a directory, oldest first.  The first `synced` entries of the current one
are on disk, and so is every sealed segment. -/
structure LogFiles (α : Type*) where
  sealed : List (Segment α)
  current : Segment α
  synced : ℕ
  deriving DecidableEq, Repr

/-- A log in memory. -/
structure RecordLog (α : Type*) where
  files : LogFiles α
  startIndex : ℕ
  deriving DecidableEq, Repr

variable {α : Type*} [LogEntry α]

namespace Segment

def firstIndex (segment : Segment α) : Option ℕ := segment.records.head?.map index

def lastIndex (segment : Segment α) : Option ℕ := segment.records.getLast?.map index

def encodedLen (segment : Segment α) : ℕ := (segment.records.map LogEntry.encodedLen).sum

end Segment

namespace LogFiles

variable (files : LogFiles α)

def segments : List (Segment α) := files.sealed ++ [files.current]

def sealedRecords : List α := files.sealed.flatMap Segment.records

def records : List α := files.sealedRecords ++ files.current.records

def firstIndex : Option ℕ := files.records.head?.map index

def lastIndex : Option ℕ := files.records.getLast?.map index

/-- The index with which a log opened on these files goes on. -/
def nextIndex : ℕ := files.lastIndex.elim files.current.base (· + 1)

/-! ### The durable writes -/

def sync : LogFiles α := { files with synced := files.current.records.length }

/-- A new current segment. -/
def rotate (next : ℕ) : LogFiles α where
  sealed := files.sealed ++ [files.current]
  current := { base := next, records := [] }
  synced := 0

/-- An entry at the end of the current segment. -/
def push (record : α) : LogFiles α :=
  { files with current := { files.current with records := files.current.records ++ [record] } }

/-- The first `n` sealed segments are gone. -/
def dropOldest (n : ℕ) : LogFiles α := { files with sealed := files.sealed.drop n }

/-- The current segment is cut behind its first `kept` entries. -/
def cut (kept : ℕ) : LogFiles α where
  sealed := files.sealed
  current := { files.current with records := files.current.records.take kept }
  synced := files.synced

end LogFiles

namespace RecordLog

variable (log : RecordLog α)

def nextIndex : ℕ := log.files.lastIndex.elim log.startIndex (· + 1)

/-! ### The operations of the log -/

/-- An empty log may start with a later index than it was opened with. -/
def jump (next : ℕ) : RecordLog α :=
  if log.files.records = [] ∧ log.startIndex ≤ next then { log with startIndex := next } else log

def sync : RecordLog α := { log with files := log.files.sync }

def rotate (next : ℕ) : RecordLog α := { log with files := log.files.sync.rotate next }

/-- The segment is changed before an entry that would make it too large. -/
def makeRoom (maxSegmentBytes : ℕ) (record : α) : RecordLog α :=
  if log.files.current.records ≠ [] ∧
      maxSegmentBytes < log.files.current.encodedLen + encodedLen record then
    log.rotate (index record)
  else log

def push (record : α) : RecordLog α := { log with files := log.files.push record }

def append (maxSegmentBytes : ℕ) (record : α) (durable : Bool) : RecordLog α :=
  let log := ((log.jump (index record)).makeRoom maxSegmentBytes record).push record
  if durable then log.sync else log

def «seal» : RecordLog α :=
  if log.files.current.records ≠ [] then log.rotate log.nextIndex else log.sync

/-- The sealed segments that a purge removes: a prefix without retained ones. -/
def removable (throughIndex : ℕ) (retained : Finset ℕ) : List (Segment α) :=
  log.files.sealed.takeWhile fun segment =>
    decide (segment.base ∉ retained) && segment.lastIndex.any (· ≤ throughIndex)

def purgePrefixRetaining (throughIndex : ℕ) (retained : Finset ℕ) : RecordLog α :=
  let removable := log.removable throughIndex retained
  if removable.length = 0 then log
  else
    let files := log.files.sync.dropOldest removable.length
    { files := files, startIndex := files.firstIndex.getD (satSucc throughIndex) }

end RecordLog

/-! ### Well-formed directories -/

/-- Every sealed segment has entries, the indexes of all entries are consecutive, and the base
of a segment is above the indexes before it and not above its own. -/
structure LogFiles.WF (files : LogFiles α) : Prop where
  filled : ∀ segment ∈ files.sealed, segment.records ≠ []
  consecutive : ∃ first, Consecutive index first files.records
  above : ∀ segment ∈ files.segments, ∀ record ∈ segment.records, segment.base ≤ index record
  ordered : files.segments.Pairwise fun segment later =>
    ∀ record ∈ segment.records, index record < later.base
  base_le : ∀ last, files.lastIndex = some last → files.current.base ≤ last + 1
  synced_le : files.synced ≤ files.current.records.length

namespace LogFiles

variable {files : LogFiles α} {record : α} {next kept n : ℕ}

variable {segment : Segment α}

omit [LogEntry α] in
theorem mem_segments : segment ∈ files.segments ↔ segment ∈ files.sealed ∨ segment = files.current := by
  rw [segments, List.mem_append, List.mem_singleton]

omit [LogEntry α] in
theorem mem_records : record ∈ files.records ↔ ∃ segment ∈ files.segments, record ∈ segment.records := by
  rw [records, sealedRecords, segments]
  simp [or_and_right, exists_or]

omit [LogEntry α] in
theorem records_eq_flatMap (files : LogFiles α) :
    files.records = files.segments.flatMap Segment.records := by
  simp [records, segments, sealedRecords]

omit [LogEntry α] in
@[simp] theorem records_sync : files.sync.records = files.records := rfl

omit [LogEntry α] in
@[simp] theorem records_rotate : (files.rotate next).records = files.records := by
  simp [rotate, records, sealedRecords]

omit [LogEntry α] in
theorem segments_rotate : (files.rotate next).segments = files.segments ++ [⟨next, []⟩] := rfl

omit [LogEntry α] in
@[simp] theorem records_push : (files.push record).records = files.records ++ [record] := by
  simp [push, records, sealedRecords]

omit [LogEntry α] in
theorem records_cut (files : LogFiles α) (kept : ℕ) :
    (files.cut kept).records = files.sealedRecords ++ files.current.records.take kept := rfl

omit [LogEntry α] in
theorem records_dropOldest (files : LogFiles α) (n : ℕ) :
    files.records = (files.sealed.take n).flatMap Segment.records ++ (files.dropOldest n).records := by
  rw [dropOldest, records, records, sealedRecords, sealedRecords, ← List.append_assoc,
    ← List.flatMap_append, List.take_append_drop]

theorem lastIndex_push : (files.push record).lastIndex = some (index record) := by
  rw [lastIndex, records_push, List.getLast?_append]
  rfl

theorem WF.le_last (h : files.WF) {last : ℕ} (hlast : files.lastIndex = some last)
    (hrecord : record ∈ files.records) : index record ≤ last := by
  obtain ⟨first, hfirst⟩ := h.consecutive
  rw [lastIndex, Option.map_eq_some_iff] at hlast
  obtain ⟨r, hr, hindex⟩ := hlast
  have hend := hfirst.getLast? hr
  have hmem := hfirst.mem hrecord
  omega

theorem lastIndex_eq_none : files.lastIndex = none ↔ files.records = [] := by
  rw [lastIndex, Option.map_eq_none_iff, List.getLast?_eq_none_iff]

theorem exists_lastIndex (h : files.records ≠ []) : ∃ last, files.lastIndex = some last :=
  Option.ne_none_iff_exists'.1 (mt lastIndex_eq_none.1 h)

section

variable (h : files.WF)
include h

theorem WF.lt_nextIndex (hrecord : record ∈ files.records) :
    index record < files.nextIndex := by
  obtain ⟨last, hlast⟩ := exists_lastIndex (List.ne_nil_of_mem hrecord)
  have hle := h.le_last hlast hrecord
  rw [nextIndex, hlast]
  exact Nat.lt_succ_of_le hle

theorem WF.base_le_nextIndex : files.current.base ≤ files.nextIndex := by
  cases hlast : files.lastIndex with
  | none => rw [nextIndex, hlast]; rfl
  | some last =>
    rw [nextIndex, hlast]
    exact h.base_le last hlast

theorem WF.segment_consecutive (hsegment : segment ∈ files.segments) :
    ∃ first, Consecutive index first segment.records := by
  obtain ⟨first, hfirst⟩ := h.consecutive
  obtain ⟨before, after, hsplit⟩ := List.append_of_mem hsegment
  rw [records_eq_flatMap, hsplit, List.flatMap_append, List.flatMap_cons, consecutive_append,
    consecutive_append] at hfirst
  exact ⟨_, hfirst.2.1⟩

theorem WF.bases : (files.segments.map Segment.base).Pairwise (· < ·) := by
  rw [List.pairwise_map, segments, List.pairwise_append]
  have hordered := h.ordered
  rw [segments, List.pairwise_append] at hordered
  have step : ∀ segment ∈ files.sealed, ∀ later : Segment α,
      (∀ record ∈ segment.records, index record < later.base) → segment.base < later.base := by
    intro segment hsegment later hlater
    obtain ⟨record, hrecord⟩ := List.exists_mem_of_ne_nil _ (h.filled segment hsegment)
    exact lt_of_le_of_lt (h.above segment (mem_segments.2 (.inl hsegment)) record hrecord)
      (hlater record hrecord)
  refine ⟨?_, by simp, fun segment hsegment later hlater => ?_⟩
  · exact hordered.1.imp_of_mem fun {segment later} hsegment _ hbelow => step segment hsegment later hbelow
  · exact step segment hsegment later (hordered.2.2 segment hsegment later hlater)

theorem WF.base_lt_current (hsegment : segment ∈ files.sealed) :
    segment.base < files.current.base := by
  have hbases := h.bases
  rw [segments, List.map_append, List.pairwise_append] at hbases
  exact hbases.2.2 _ (List.mem_map_of_mem hsegment) _ (by simp)

theorem WF.eq_of_base {other : Segment α} (hsegment : segment ∈ files.segments)
    (hother : other ∈ files.segments) (hbase : segment.base = other.base) : segment = other := by
  have hinjective : Set.InjOn Segment.base { s | s ∈ files.segments } :=
    List.inj_on_of_nodup_map (h.bases.imp fun hlt => ne_of_lt hlt)
  exact hinjective hsegment hother hbase

/-! ### The writes keep the directory well-formed -/

theorem WF.sync : files.sync.WF :=
  { h with synced_le := le_rfl }

/-- A record with the next index, or any index from the base on if there are no records. -/
theorem WF.push (hnext : ∀ last, files.lastIndex = some last → index record = last + 1)
    (hbase : files.current.base ≤ index record) : (files.push record).WF where
  filled := h.filled
  consecutive := by
    obtain ⟨first, hfirst⟩ := h.consecutive
    rw [records_push]
    refine hfirst.concat fun r hr => hnext _ ?_
    rw [lastIndex, hr]
    rfl
  above segment hsegment r hr := by
    rcases mem_segments.1 hsegment with hsealed | rfl
    · exact h.above segment (mem_segments.2 (.inl hsealed)) r hr
    · rcases List.mem_append.1 hr with hold | hnew
      · exact h.above files.current (mem_segments.2 (.inr rfl)) r hold
      · rw [List.mem_singleton.1 hnew]
        exact hbase
  ordered := by
    have hordered := h.ordered
    rw [segments, List.pairwise_append] at hordered ⊢
    refine ⟨hordered.1, by simp, fun segment hsegment later hlater => ?_⟩
    rw [List.mem_singleton.1 hlater]
    exact hordered.2.2 segment hsegment files.current (List.mem_singleton.2 rfl)
  base_le last hlast := by
    rw [lastIndex_push, Option.some.injEq] at hlast
    rw [← hlast]
    exact hbase.trans (Nat.le_succ _)
  synced_le := by
    have hlen := h.synced_le
    show files.synced ≤ (files.current.records ++ [record]).length
    rw [List.length_append]
    exact hlen.trans (Nat.le_add_right _ _)

theorem WF.rotate (hfilled : files.current.records ≠ [])
    (hnext : ∀ last, files.lastIndex = some last → next = last + 1) : (files.rotate next).WF where
  filled segment hsegment := by
    rcases List.mem_append.1 hsegment with hsealed | hcurrent
    · exact h.filled segment hsealed
    · rw [List.mem_singleton.1 hcurrent]
      exact hfilled
  consecutive := by
    rw [records_rotate]
    exact h.consecutive
  above segment hsegment r hr := by
    rw [segments_rotate, List.mem_append, List.mem_singleton] at hsegment
    rcases hsegment with hold | rfl
    · exact h.above segment hold r hr
    · simp at hr
  ordered := by
    rw [segments_rotate, List.pairwise_append]
    refine ⟨h.ordered, by simp, fun segment hsegment later hlater r hr => ?_⟩
    have hrecord : r ∈ files.records := mem_records.2 ⟨segment, hsegment, hr⟩
    obtain ⟨last, hlast⟩ := exists_lastIndex (List.ne_nil_of_mem hrecord)
    rw [List.mem_singleton.1 hlater, hnext last hlast]
    exact Nat.lt_succ_of_le (h.le_last hlast hrecord)
  base_le last hlast := by
    rw [lastIndex, records_rotate] at hlast
    exact (hnext last hlast).le
  synced_le := le_rfl

end

omit [LogEntry α] in
theorem segments_dropOldest_sublist : (files.dropOldest n).segments.Sublist files.segments := by
  rw [segments, segments]
  exact (List.drop_sublist n files.sealed).append_right _

theorem WF.dropOldest (h : files.WF) (n : ℕ) : (files.dropOldest n).WF where
  filled segment hsegment := h.filled segment (List.mem_of_mem_drop hsegment)
  consecutive := by
    obtain ⟨first, hfirst⟩ := h.consecutive
    rw [records_dropOldest files n, consecutive_append] at hfirst
    exact ⟨_, hfirst.2⟩
  above segment hsegment := h.above segment (segments_dropOldest_sublist.mem hsegment)
  ordered := h.ordered.sublist segments_dropOldest_sublist
  base_le last hlast := by
    refine h.base_le last ?_
    rw [lastIndex, Option.map_eq_some_iff] at hlast ⊢
    obtain ⟨r, hr, hindex⟩ := hlast
    refine ⟨r, ?_, hindex⟩
    rw [records_dropOldest files n, List.getLast?_append, hr]
    rfl
  synced_le := h.synced_le

/-- With entries in the current segment, its base is at most one above the sealed ones. -/
theorem WF.base_le_sealed (h : files.WF) {r : α} (hr : files.sealedRecords.getLast? = some r) :
    files.current.base ≤ index r + 1 := by
  obtain ⟨first, hfirst⟩ := h.consecutive
  rw [records, consecutive_append] at hfirst
  have hend := hfirst.1.getLast? hr
  cases hcurrent : files.current.records with
  | nil =>
    refine h.base_le (index r) ?_
    rw [lastIndex, records, hcurrent, List.append_nil, hr]
    rfl
  | cons a rest =>
    rw [hcurrent, consecutive_cons] at hfirst
    have habove := h.above files.current (mem_segments.2 (.inr rfl)) a (by rw [hcurrent]; simp)
    omega

/-- **A crash** that keeps what is synced leaves a well-formed directory. -/
theorem WF.cut (h : files.WF) (hkept : files.synced ≤ kept) : (files.cut kept).WF where
  filled := h.filled
  consecutive := by
    obtain ⟨first, hfirst⟩ := h.consecutive
    rw [records, consecutive_append] at hfirst
    exact ⟨first, consecutive_append.2 ⟨hfirst.1, hfirst.2.take kept⟩⟩
  above segment hsegment r hr := by
    rcases mem_segments.1 hsegment with hsealed | rfl
    · exact h.above segment (mem_segments.2 (.inl hsealed)) r hr
    · exact h.above files.current (mem_segments.2 (.inr rfl)) r (List.mem_of_mem_take hr)
  ordered := by
    have hordered := h.ordered
    rw [segments, List.pairwise_append] at hordered ⊢
    refine ⟨hordered.1, by simp, fun segment hsegment later hlater => ?_⟩
    rw [List.mem_singleton.1 hlater]
    exact hordered.2.2 segment hsegment files.current (List.mem_singleton.2 rfl)
  base_le last hlast := by
    rw [lastIndex, records_cut, List.getLast?_append, Option.map_eq_some_iff] at hlast
    obtain ⟨r, hr, rfl⟩ := hlast
    cases hcurrent : (files.current.records.take kept).getLast? with
    | none =>
      rw [hcurrent, Option.none_or] at hr
      exact h.base_le_sealed hr
    | some a =>
      rw [hcurrent, Option.some_or, Option.some.injEq] at hr
      subst hr
      have hmem : a ∈ files.current.records := List.mem_of_mem_take (List.mem_of_getLast? hcurrent)
      exact (h.above files.current (mem_segments.2 (.inr rfl)) a hmem).trans (Nat.le_succ _)
  synced_le := by
    have hlen := h.synced_le
    show files.synced ≤ (files.current.records.take kept).length
    rw [List.length_take]
    omega

end LogFiles

/-! ### What the operations do to the files -/

variable (files : LogFiles α)

theorem LogFiles.encodedLen_push (record : α) :
    (files.push record).current.encodedLen = files.current.encodedLen + encodedLen record := by
  show ((files.current.records ++ [record]).map LogEntry.encodedLen).sum = _
  rw [List.map_append, List.sum_append]
  rfl

namespace RecordLog

variable {log : RecordLog α}

omit [LogEntry α] in
@[simp] theorem files_jump (next : ℕ) : (log.jump next).files = log.files := by
  unfold jump
  split_ifs <;> rfl

@[simp] theorem records_makeRoom (maxSegmentBytes : ℕ) (record : α) :
    (log.makeRoom maxSegmentBytes record).files.records = log.files.records := by
  unfold makeRoom
  split_ifs
  · rw [rotate, LogFiles.records_rotate, LogFiles.records_sync]
  · rfl

theorem records_append (maxSegmentBytes : ℕ) (record : α) (durable : Bool) :
    (log.append maxSegmentBytes record durable).files.records = log.files.records ++ [record] := by
  have hpush : (((log.jump (LogEntry.index record)).makeRoom maxSegmentBytes record).push
      record).files.records = log.files.records ++ [record] := by
    rw [push, LogFiles.records_push, records_makeRoom, files_jump]
  unfold append
  cases durable with
  | true => exact hpush
  | false => exact hpush

@[simp] theorem records_seal : log.seal.files.records = log.files.records := by
  unfold «seal»
  split_ifs
  · rw [rotate, LogFiles.records_rotate, LogFiles.records_sync]
  · rfl

end RecordLog

end RustQueue.Storage
