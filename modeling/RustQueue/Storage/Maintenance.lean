import RustQueue.Storage.Refinement
import Mathlib.Data.List.TakeWhile

/-!
# Sealing, purging and indexing refine the log of records

The operations of `SegmentLog` that do not append.  `seal` starts a new segment, a purge removes
the oldest ones, and `persistRecoveryIndex` moves the locations of a segment from memory to its
sidecar.
-/

namespace RustQueue.Storage

open Lib FrameFormat LogFiles RecoveryIndex

open LogEntry (index)

variable {crc : Crc32c} {log : SegmentLog} {disk : Disk} {spec : RecordLog Record}

/-! ### Sealing -/

/-- **Sealing** starts a new segment behind a current one with records. -/
theorem Refines.seal (h : Refines crc log disk spec) (appending : Record) (purges : List ℕ) :
    ∃ spec', SimulatesAll crc appending purges (log.seal disk).writes spec.files spec'.files ∧
      Refines crc (log.seal disk).log (disk.applyAll (log.seal disk).writes) spec' ∧
      ((log.seal disk).result = .ok () → spec' = spec.seal) := by
  rw [SegmentLog.seal]
  by_cases hisolated : log.isolated = true
  · rw [if_pos hisolated]
    exact ⟨spec, .nil _, h, fun hresult => by simp at hresult⟩
  · rw [if_neg hisolated]
    by_cases hfilled : spec.files.current.records = []
    · rw [if_neg (by rw [Nat.pos_iff_ne_zero, Ne, h.memory.currentLen_eq_zero]; simpa using hfilled),
        h.memory.currentPath]
      refine ⟨spec.sync, .cons (.sync _) (.nil _), h.sync, fun _ => ?_⟩
      rw [RecordLog.seal, if_neg (by simpa using hfilled)]
    · rw [if_pos (Nat.pos_iff_ne_zero.2 (mt h.memory.currentLen_eq_zero.1 hfilled))]
      obtain ⟨hresult, hwrites, hcreate, hrefines⟩ :=
        h.rotate appending purges hfilled h.memory.nextIndex
      rw [hwrites] at hrefines
      have hsealed : SimulatesAll crc appending purges
          [.sync spec.files.current.base, .sync spec.files.current.base, .create log.nextIndex]
          spec.files (spec.rotate log.nextIndex).files :=
        .cons (.sync _) (.cons (.sync spec.files.sync) (.cons hcreate (.nil _)))
      dsimp only
      rw [Outcome.isolate]
      dsimp only
      rw [hresult, hwrites, h.memory.currentPath]
      refine ⟨spec.rotate log.nextIndex, hsealed, ⟨h.directory.simulatesAll hsealed, ?_,
        hrefines.start⟩, fun _ => ?_⟩
      · exact hrefines.memory.congr_disk rfl
      · rw [RecordLog.seal, if_pos hfilled, h.memory.nextIndex]

/-! ### Locations of a segment -/

theorem locate_segment {path offset : ℕ} {records : List Record} {location : RecordLocation}
    (h : location ∈ locate path offset records) : location.segment = path := by
  induction records generalizing offset with
  | nil => simp [locate] at h
  | cons record records ih =>
    rw [locate, List.mem_cons] at h
    rcases h with rfl | h
    · rfl
    · exact ih h

theorem map_index_locate (path offset : ℕ) (records : List Record) :
    (locate path offset records).map RecordLocation.index = records.map index := by
  induction records generalizing offset with
  | nil => rfl
  | cons record records ih => rw [locate, List.map_cons, List.map_cons, ih]; rfl

@[simp] theorem length_locate (path offset : ℕ) (records : List Record) :
    (locate path offset records).length = records.length := by
  rw [← List.length_map (f := RecordLocation.index), map_index_locate, List.length_map]

/-- The locations of consecutive records are fit for a sidecar. -/
theorem locate_entry {path first offset : ℕ} {records : List Record} {segmentLen : ℕ}
    (hconsecutive : Consecutive index first records) (hword : ∀ r ∈ records, IsU64 (index r))
    (hlen : offset + (records.map Record.encodedLen).sum ≤ segmentLen) (i : ℕ)
    (location : RecordLocation) (h : (locate path offset records)[i]? = some location) :
    LocationOf path segmentLen (first + i) location := by
  induction records generalizing offset first i with
  | nil => simp [locate] at h
  | cons record records ih =>
    rw [consecutive_cons] at hconsecutive
    rw [List.map_cons, List.sum_cons] at hlen
    rw [locate] at h
    cases i with
    | zero =>
      rw [List.getElem?_cons_zero, Option.some.injEq] at h
      subst h
      exact
        { segment := rfl
          index := hconsecutive.1
          word := hword record List.mem_cons_self
          len := by
            show 0 < record.encodedLen
            rw [Record.encodedLen, headerLen]
            omega
          within := by
            show offset + record.encodedLen ≤ segmentLen
            omega }
    | succ i =>
      rw [List.getElem?_cons_succ] at h
      have hentry := ih hconsecutive.2 (fun r hr => hword r (List.mem_cons_of_mem _ hr)) (by omega) i h
      rwa [Nat.add_assoc, Nat.add_comm 1] at hentry

variable {segment : Segment Record}

theorem Directory.located {files : LogFiles Record} (h : Directory crc disk files)
    (hsegment : segment ∈ files.segments) :
    ∃ first, Located segment.base segment.encodedLen first (locate segment.base 0 segment.records) := by
  obtain ⟨first, hfirst⟩ := h.wf.segment_consecutive hsegment
  refine ⟨first, h.len segment hsegment, locate_entry hfirst (fun record hrecord => ?_) ?_⟩
  · exact (h.word record (mem_records.2 ⟨segment, hsegment, hrecord⟩)).le
  · rw [Nat.zero_add]
    exact le_rfl

variable {segments : List (Segment Record)}

/-- Of the locations in memory, those of one segment. -/
theorem filter_residentLocations (indexes : Std.ExtTreeMap ℕ RecoveryIndexSummary)
    (hnodup : (segments.map Segment.base).Nodup) (hsegment : segment ∈ segments) :
    (residentLocations indexes segments).filter (fun location => location.segment = segment.base) =
      if segment.base ∈ indexes then [] else locate segment.base 0 segment.records := by
  have hother : ∀ other : Segment Record, other.base ≠ segment.base →
      (if other.base ∈ indexes then [] else locate other.base 0 other.records).filter
        (fun location => location.segment = segment.base) = [] := by
    intro other hne
    split_ifs
    · rfl
    · refine List.filter_eq_nil_iff.2 fun location hlocation => ?_
      rw [locate_segment hlocation]
      simpa using hne
  have hself : (if segment.base ∈ indexes then [] else locate segment.base 0 segment.records).filter
        (fun location => location.segment = segment.base) =
      if segment.base ∈ indexes then [] else locate segment.base 0 segment.records := by
    refine List.filter_eq_self.2 fun location hlocation => ?_
    split_ifs at hlocation
    · simp at hlocation
    · rw [locate_segment hlocation]
      simp
  induction segments with
  | nil => simp at hsegment
  | cons head rest ih =>
    rw [List.map_cons, List.nodup_cons] at hnodup
    rw [residentLocations, List.flatMap_cons, List.filter_append]
    rcases List.mem_cons.1 hsegment with rfl | hrest
    · have hnone : (residentLocations indexes rest).filter
          (fun location => location.segment = segment.base) = [] := by
        rw [residentLocations, List.filter_flatMap]
        refine List.flatMap_eq_nil_iff.2 fun other hmem => hother other fun heq => ?_
        exact hnodup.1 (heq ▸ List.mem_map_of_mem hmem)
      rw [hself]
      exact (congrArg _ hnone).trans (List.append_nil _)
    · have hne : head.base ≠ segment.base := fun heq =>
        hnodup.1 (heq ▸ List.mem_map_of_mem hrest)
      rw [hother head hne, List.nil_append]
      exact ih hnodup.2 hrest

/-- The sidecar that is known of a segment is its own. -/
theorem Refines.indexed (h : Refines crc log disk spec) (hsegment : segment ∈ spec.files.segments)
    {summary : RecoveryIndexSummary} (hsummary : log.sealedIndexes[segment.base]? = some summary) :
    Describes segment summary ∧
      ∃ bytes, disk.indexes segment.base = some bytes ∧ StoredFor crc segment bytes := by
  obtain ⟨other, hother, hbase, hrest⟩ := h.memory.tables.indexed hsummary
  have hsame := h.directory.wf.eq_of_base (mem_segments.2 (.inl hother)) hsegment hbase
  rw [hsame] at hrest
  exact hrest

theorem Refines.resident_filter (h : Refines crc log disk spec)
    (hsegment : segment ∈ spec.files.segments) (hnone : log.sealedIndexes[segment.base]? = none) :
    log.residentRecords.filter (fun location => location.segment = segment.base) =
      locate segment.base 0 segment.records := by
  rw [h.memory.tables.resident, filter_residentLocations _
    (h.directory.wf.bases.imp fun hlt => ne_of_lt hlt) hsegment, if_neg]
  rwa [Std.ExtTreeMap.mem_iff_isSome_getElem?, Bool.not_eq_true, Option.isSome_eq_false_iff,
    Option.isNone_iff_eq_none]

theorem firstIndexOf_locate (path : ℕ) (records : List Record) :
    firstIndexOf (locate path 0 records) = records.head?.elim 0 index := by
  cases records <;> rfl

theorem lastIndexOf_locate (path : ℕ) (records : List Record) :
    lastIndexOf (locate path 0 records) = records.getLast?.elim 0 index := by
  have hmap := congrArg List.getLast? (map_index_locate path 0 records)
  rw [List.getLast?_map, List.getLast?_map] at hmap
  rw [lastIndexOf]
  cases hlast : (locate path 0 records).getLast? with
  | none =>
    rw [hlast, Option.map_none, eq_comm, Option.map_eq_none_iff] at hmap
    rw [hmap]
    rfl
  | some location =>
    rw [hlast, Option.map_some, eq_comm, Option.map_eq_some_iff] at hmap
    obtain ⟨record, hrecord, hindex⟩ := hmap
    rw [hrecord]
    exact hindex.symm

/-- A log knows the first and the last index of each segment, with or without its sidecar. -/
theorem Refines.recordIndexRange (h : Refines crc log disk spec) (hsegment : segment ∈ spec.files.segments) :
    log.recordIndexRange segment.base =
      segment.firstIndex.bind fun first => segment.lastIndex.map fun last => (first, last) := by
  rw [SegmentLog.recordIndexRange, Segment.firstIndex, Segment.lastIndex]
  cases hsummary : log.sealedIndexes[segment.base]? with
  | none =>
    dsimp only
    have hmap := map_index_locate segment.base 0 segment.records
    have hhead := congrArg List.head? hmap
    have hlast := congrArg List.getLast? hmap
    rw [List.head?_map, List.head?_map] at hhead
    rw [List.getLast?_map, List.getLast?_map] at hlast
    rw [h.resident_filter hsegment hsummary, ← hhead, ← hlast]
    cases (locate segment.base 0 segment.records).head? <;>
      cases (locate segment.base 0 segment.records).getLast? <;> rfl
  | some summary =>
    obtain ⟨hdescribes, -⟩ := h.indexed hsegment hsummary
    dsimp only
    rw [hdescribes.locationCount, hdescribes.firstIndex, hdescribes.lastIndex]
    cases hrecords : segment.records with
    | nil => rfl
    | cons record records =>
      rw [if_pos (by simp), List.head?_cons, List.getLast?_eq_some_getLast (by simp)]
      rfl

theorem Directory.segmentPaths {files : LogFiles Record} (h : Directory crc disk files) :
    disk.segmentPaths = files.sealed.map Segment.base ++ [files.current.base] := by
  rw [Disk.segmentPaths, h.segments, List.map_append, List.map_map]
  rfl

theorem takeWhile_congr {α : Type*} {p q : α → Bool} {l : List α} (h : ∀ a ∈ l, p a = q a) :
    l.takeWhile p = l.takeWhile q := by
  induction l with
  | nil => rfl
  | cons a l ih =>
    rw [List.takeWhile_cons, List.takeWhile_cons, h a List.mem_cons_self,
      ih fun b hb => h b (List.mem_cons_of_mem _ hb)]

theorem Refines.removable (h : Refines crc log disk spec) (throughIndex : ℕ) (retained : Finset ℕ) :
    log.removable disk throughIndex retained =
      (spec.removable throughIndex retained).map Segment.base := by
  rw [SegmentLog.removable, h.directory.segmentPaths, RecordLog.removable, h.memory.currentPath,
    List.takeWhile_append]
  have hpredicate : ∀ segment ∈ spec.files.sealed,
      (decide (segment.base ≠ spec.files.current.base ∧ segment.base ∉ retained) &&
        (log.recordIndexRange segment.base).any fun range => range.2 ≤ throughIndex) =
      (decide (segment.base ∉ retained) && segment.lastIndex.any (· ≤ throughIndex)) := by
    intro segment hsegment
    have hne := (h.directory.wf.base_lt_current hsegment).ne
    rw [h.recordIndexRange (mem_segments.2 (.inl hsegment)), Segment.firstIndex, Segment.lastIndex]
    cases hrecords : segment.records with
    | nil => simp
    | cons record records => simp [hne, List.getLast?_cons]
  have hcurrent : List.takeWhile (fun path =>
      decide (path ≠ spec.files.current.base ∧ path ∉ retained) &&
        (log.recordIndexRange path).any fun range => range.2 ≤ throughIndex)
      [spec.files.current.base] = [] := by
    simp
  rw [hcurrent, List.append_nil, List.takeWhile_map, ← takeWhile_congr hpredicate]
  split_ifs with hall
  · rw [List.length_map, List.length_map] at hall
    have hself := List.takeWhile_prefix (l := spec.files.sealed) (p := (fun path =>
      decide (path ≠ spec.files.current.base ∧ path ∉ retained) &&
        (log.recordIndexRange path).any fun range => range.2 ≤ throughIndex) ∘ Segment.base)
    exact congrArg (List.map Segment.base) (hself.eq_of_length hall).symm
  · rfl

/-! ### Purging -/

theorem getElem?_foldl_erase {β : Type} (entries : Std.ExtTreeMap ℕ β) (paths : List ℕ) (path : ℕ) :
    (paths.foldl (fun entries path => entries.erase path) entries)[path]? =
      if path ∈ paths then none else entries[path]? := by
  induction paths generalizing entries with
  | nil => simp
  | cons head paths ih =>
    rw [List.foldl_cons, ih, Std.ExtTreeMap.getElem?_erase]
    by_cases hhead : head = path
    · simp [hhead]
    · simp [hhead, Ne.symm hhead]

/-- The oldest segments go one by one, each with its sidecar. -/
theorem simulatesAll_remove {files : LogFiles Record} {removed rest : List (Segment Record)}
    (appending : Record) {purges : List ℕ} (hsealed : files.sealed = removed ++ rest)
    (hpurged : ∀ segment ∈ removed, ∀ record ∈ segment.records,
      ∃ through ∈ purges, index record ≤ through) :
    SimulatesAll crc appending purges
      ((removed.map Segment.base).flatMap fun path => [.remove path, .removeIndex path]) files
      (files.dropOldest removed.length) := by
  induction removed generalizing files with
  | nil => exact .nil _
  | cons segment removed ih =>
    rw [List.cons_append] at hsealed
    have hdrop : (files.dropOldest 1).sealed = removed ++ rest := by
      rw [dropOldest, hsealed]
      rfl
    have hfiles : files.dropOldest (segment :: removed).length =
        (files.dropOldest 1).dropOldest removed.length := by
      rw [dropOldest, dropOldest, dropOldest, List.drop_drop, List.length_cons, Nat.add_comm]
    rw [hfiles]
    exact .cons (.remove hsealed (hpurged segment List.mem_cons_self))
      (.cons (.removeIndex _ _) (ih hdrop fun other hother =>
        hpurged other (List.mem_cons_of_mem _ hother)))

theorem mem_residentLocations {indexes : Std.ExtTreeMap ℕ RecoveryIndexSummary}
    {location : RecordLocation} (h : location ∈ residentLocations indexes segments) :
    ∃ record ∈ segments.flatMap Segment.records, location.index = index record := by
  obtain ⟨segment, hsegment, hlocation⟩ := List.mem_flatMap.1 h
  split_ifs at hlocation
  · simp at hlocation
  · have hindex := List.mem_map_of_mem (f := RecordLocation.index) hlocation
    rw [map_index_locate, List.mem_map] at hindex
    obtain ⟨record, hrecord, heq⟩ := hindex
    exact ⟨record, List.mem_flatMap.2 ⟨segment, hsegment, hrecord⟩, heq.symm⟩

theorem residentLocations_congr {indexes indexes' : Std.ExtTreeMap ℕ RecoveryIndexSummary}
    (h : ∀ segment ∈ segments, segment.base ∈ indexes' ↔ segment.base ∈ indexes) :
    residentLocations indexes' segments = residentLocations indexes segments := by
  rw [residentLocations, residentLocations]
  refine List.flatMap_congr fun segment hsegment => ?_
  simp only [h segment hsegment]

section Refresh

variable {files : LogFiles Record}

/-- A segment with records contributes to the known indexes, whichever end is looked at. -/
theorem Tables.mem (h : Tables crc disk log files) (hwf : files.WF)
    (hsegment : segment ∈ files.segments) {record : Record} (hrecord : record ∈ segment.records)
    (bound : RecoveryIndexSummary → ℕ)
    (hbound : ∀ summary, Describes segment summary → bound summary = index record) :
    index record ∈
      ((log.sealedIndexes.toList.map Prod.snd).filter fun i => 0 < i.locationCount).map bound ++
        log.residentRecords.map RecordLocation.index := by
  rw [List.mem_append]
  cases hsummary : log.sealedIndexes[segment.base]? with
  | some summary =>
    obtain ⟨other, hother, hbase, hdescribes, -⟩ := h.indexed hsummary
    rw [hwf.eq_of_base (mem_segments.2 (.inl hother)) hsegment hbase] at hdescribes
    refine .inl (List.mem_map.2 ⟨summary, List.mem_filter.2 ⟨?_, ?_⟩, hbound summary hdescribes⟩)
    · exact List.mem_map.2 ⟨(segment.base, summary),
        Std.ExtTreeMap.mem_toList_iff_getElem?_eq_some.2 hsummary, rfl⟩
    · simpa [hdescribes.locationCount] using List.length_pos_of_mem hrecord
  | none =>
    have hnot : segment.base ∉ log.sealedIndexes := by
      rw [Std.ExtTreeMap.mem_iff_isSome_getElem?, hsummary]
      simp
    have hindex : index record ∈ (locate segment.base 0 segment.records).map RecordLocation.index := by
      rw [map_index_locate]
      exact List.mem_map_of_mem hrecord
    obtain ⟨location, hlocation, heq⟩ := List.mem_map.1 hindex
    refine .inr (List.mem_map.2 ⟨location, ?_, heq⟩)
    rw [h.resident]
    refine List.mem_flatMap.2 ⟨segment, hsegment, ?_⟩
    rwa [if_neg hnot]

/-- Nothing else is among the known indexes. -/
theorem Tables.mem_records (h : Tables crc disk log files) (bound : RecoveryIndexSummary → ℕ)
    (hbound : ∀ segment summary, Describes segment summary → 0 < summary.locationCount →
      ∃ record ∈ segment.records, bound summary = index record)
    {i : ℕ} (hi : i ∈
      ((log.sealedIndexes.toList.map Prod.snd).filter fun i => 0 < i.locationCount).map bound ++
        log.residentRecords.map RecordLocation.index) : ∃ record ∈ files.records, i = index record := by
  rcases List.mem_append.1 hi with hi | hi
  · obtain ⟨summary, hsummary, rfl⟩ := List.mem_map.1 hi
    obtain ⟨hmem, hcount⟩ := List.mem_filter.1 hsummary
    obtain ⟨⟨path, _⟩, hpath, rfl⟩ := List.mem_map.1 hmem
    obtain ⟨segment, hsegment, -, hdescribes, -⟩ :=
      h.indexed (Std.ExtTreeMap.mem_toList_iff_getElem?_eq_some.1 hpath)
    obtain ⟨record, hrecord, heq⟩ := hbound segment _ hdescribes (by simpa using hcount)
    exact ⟨record, LogFiles.mem_records.2 ⟨segment, mem_segments.2 (.inl hsegment), hrecord⟩, heq⟩
  · obtain ⟨location, hlocation, rfl⟩ := List.mem_map.1 hi
    rw [h.resident] at hlocation
    rw [records_eq_flatMap]
    exact mem_residentLocations hlocation

/-- **The aggregates** that are computed anew are the ends of the log. -/
theorem Tables.refreshAggregates (h : Tables crc disk log files) (hwf : files.WF) :
    log.refreshAggregates.firstIndex = files.firstIndex ∧
      log.refreshAggregates.lastIndex = files.lastIndex := by
  obtain ⟨first, hfirst⟩ := hwf.consecutive
  constructor
  · show List.min? _ = _
    have hsub : ∀ segment summary, Describes segment summary → 0 < summary.locationCount →
        ∃ record ∈ segment.records, summary.firstIndex = index record := by
      intro segment summary hdescribes hcount
      rw [hdescribes.locationCount] at hcount
      obtain ⟨record, records, heq⟩ := List.exists_cons_of_length_pos hcount
      refine ⟨record, by rw [heq]; exact List.mem_cons_self, ?_⟩
      rw [hdescribes.firstIndex, heq]
      rfl
    cases hhead : files.records.head? with
    | none =>
      rw [LogFiles.firstIndex, hhead]
      refine List.min?_eq_none_iff.2 (List.eq_nil_iff_forall_not_mem.2 fun i hi => ?_)
      obtain ⟨record, hrecord, -⟩ := h.mem_records _ hsub hi
      rw [List.head?_eq_none_iff.1 hhead] at hrecord
      simp at hrecord
    | some record =>
      rw [LogFiles.firstIndex, hhead]
      refine List.min?_eq_some_iff.2 ⟨?_, fun i hi => ?_⟩
      · rw [records_eq_flatMap, List.head?_flatMap] at hhead
        obtain ⟨segment, hsegment, hrecord⟩ := List.exists_of_findSome?_eq_some hhead
        refine h.mem hwf hsegment (List.mem_of_head? hrecord) _ fun summary hdescribes => ?_
        rw [hdescribes.firstIndex, hrecord]
        rfl
      · obtain ⟨other, hother, rfl⟩ := h.mem_records _ hsub hi
        rw [List.head?_eq_getElem?] at hhead
        have hindex := hfirst.getElem? hhead
        have hle := hfirst.mem hother
        omega
  · show List.max? _ = _
    have hsub : ∀ segment summary, Describes segment summary → 0 < summary.locationCount →
        ∃ record ∈ segment.records, summary.lastIndex = index record := by
      intro segment summary hdescribes hcount
      rw [hdescribes.locationCount] at hcount
      have hne : segment.records ≠ [] := List.ne_nil_of_length_pos hcount
      refine ⟨segment.records.getLast hne, List.getLast_mem hne, ?_⟩
      rw [hdescribes.lastIndex, List.getLast?_eq_some_getLast hne]
      rfl
    cases hlast : files.records.getLast? with
    | none =>
      rw [LogFiles.lastIndex, hlast]
      refine List.max?_eq_none_iff.2 (List.eq_nil_iff_forall_not_mem.2 fun i hi => ?_)
      obtain ⟨record, hrecord, -⟩ := h.mem_records _ hsub hi
      rw [List.getLast?_eq_none_iff.1 hlast] at hrecord
      simp at hrecord
    | some record =>
      have hend := hfirst.getLast? hlast
      rw [LogFiles.lastIndex, hlast]
      refine List.max?_eq_some_iff.2 ⟨?_, fun i hi => ?_⟩
      · rw [records_eq_flatMap, List.getLast?_flatMap] at hlast
        obtain ⟨segment, hsegment, hrecord⟩ := List.exists_of_findSome?_eq_some hlast
        refine h.mem hwf (List.mem_reverse.1 hsegment) (List.mem_of_getLast? hrecord) _
          fun summary hdescribes => ?_
        rw [hdescribes.lastIndex, hrecord]
        rfl
      · obtain ⟨other, hother, rfl⟩ := h.mem_records _ hsub hi
        have hlt := hfirst.mem hother
        omega

end Refresh

/-- What is removed, and what is left. -/
structure Purged (files : LogFiles Record) (throughIndex : ℕ) (removed rest : List (Segment Record)) :
    Prop where
  sealed : files.sealed = removed ++ rest
  through : ∀ segment ∈ removed, ∃ last, segment.lastIndex = some last ∧ last ≤ throughIndex

theorem purged_removable (spec : RecordLog Record) (throughIndex : ℕ) (retained : Finset ℕ) :
    Purged spec.files throughIndex (spec.removable throughIndex retained)
      (spec.files.sealed.drop (spec.removable throughIndex retained).length) where
  sealed := by
    have hprefix : spec.removable throughIndex retained <+: spec.files.sealed :=
      List.takeWhile_prefix _
    obtain ⟨rest, hrest⟩ := hprefix
    rw [← hrest, List.drop_left]
  through segment hsegment := by
    have hpredicate := List.mem_takeWhile_imp hsegment
    rw [Bool.and_eq_true] at hpredicate
    cases hlast : segment.lastIndex with
    | none => simp [hlast] at hpredicate
    | some last =>
      rw [hlast] at hpredicate
      exact ⟨last, rfl, by simpa using hpredicate.2⟩

section Purge

variable {files : LogFiles Record} {throughIndex : ℕ} {removed rest : List (Segment Record)}

theorem Purged.left (h : Purged files throughIndex removed rest) :
    (files.sync.dropOldest removed.length).sealed = rest ∧
      (files.sync.dropOldest removed.length).segments = rest ++ [files.current] := by
  have hdrop : (files.sync.dropOldest removed.length).sealed = rest := by
    rw [dropOldest, LogFiles.sync, h.sealed, List.drop_left]
  refine ⟨hdrop, ?_⟩
  rw [segments, hdrop]
  rfl

section

variable (h : Purged files throughIndex removed rest) (hwf : files.WF)
include h hwf

theorem Purged.le_through
    (hsegment : segment ∈ removed) {record : Record} (hrecord : record ∈ segment.records) :
    index record ≤ throughIndex := by
  obtain ⟨last, hlast, hle⟩ := h.through segment hsegment
  have hmem : segment ∈ files.segments := mem_segments.2 (.inl (h.sealed ▸ List.mem_append_left _ hsegment))
  obtain ⟨first, hfirst⟩ := hwf.segment_consecutive hmem
  rw [Segment.lastIndex, Option.map_eq_some_iff] at hlast
  obtain ⟨r, hr, rfl⟩ := hlast
  have hend := hfirst.getLast? hr
  have hlt := hfirst.mem hrecord
  omega

/-- The last removed index separates what goes from what stays. -/
theorem Purged.separates {last : ℕ} (hlast : (removed.getLast?.bind Segment.lastIndex) = some last) :
    (∀ record ∈ removed.flatMap Segment.records, index record ≤ last) ∧
      ∀ record ∈ (rest ++ [files.current]).flatMap Segment.records, last < index record := by
  obtain ⟨first, hfirst⟩ := hwf.consecutive
  rw [records_eq_flatMap, segments, h.sealed, List.append_assoc, List.flatMap_append,
    consecutive_append] at hfirst
  obtain ⟨segment, hsegment, hindex⟩ := Option.bind_eq_some_iff.1 hlast
  rw [Segment.lastIndex, Option.map_eq_some_iff] at hindex
  obtain ⟨r, hr, rfl⟩ := hindex
  have hend : (removed.flatMap Segment.records).getLast? = some r := by
    obtain ⟨init, rfl⟩ : ∃ init, removed = init ++ [segment] :=
      ⟨removed.dropLast, (List.dropLast_append_getLast? segment hsegment).symm⟩
    rw [List.flatMap_append, List.flatMap_singleton, List.getLast?_append, hr]
    rfl
  have hcount := hfirst.1.getLast? hend
  refine ⟨fun record hrecord => ?_, fun record hrecord => ?_⟩
  · have := hfirst.1.mem hrecord
    omega
  · have := hfirst.2.mem hrecord
    omega

theorem Purged.base_not_mem
    (hsegment : segment ∈ rest ++ [files.current]) : segment.base ∉ removed.map Segment.base := by
  have hbases := hwf.bases
  rw [segments, h.sealed, List.append_assoc, List.map_append, List.pairwise_append] at hbases
  intro hmem
  exact lt_irrefl _ (hbases.2.2 _ hmem _ (List.mem_map_of_mem hsegment))

end

theorem indexes_applyAll_remove (disk : Disk) (paths : List ℕ) {path : ℕ} (h : path ∉ paths) :
    (disk.applyAll (paths.flatMap fun path => [.remove path, .removeIndex path])).indexes path =
      disk.indexes path := by
  induction paths generalizing disk with
  | nil => rfl
  | cons head paths ih =>
    rw [List.mem_cons, not_or] at h
    have hstep : (disk.applyAll [.remove head, .removeIndex head]).indexes path = disk.indexes path :=
      Function.update_of_ne h.1 _ _
    rw [List.flatMap_cons, Disk.applyAll, List.foldl_append]
    exact (ih _ h.2).trans hstep

variable (hpurged : Purged spec.files throughIndex removed rest) {last : ℕ}
  (hlast : (removed.getLast?.bind Segment.lastIndex) = some last) {disk' : Disk}
  (hdisk : ∀ path ∉ removed.map Segment.base, disk'.indexes path = disk.indexes path)

include hpurged hlast hdisk in
theorem Refines.tables_withoutSegments (h : Refines crc log disk spec) :
    Tables crc disk' (log.withoutSegments (removed.map Segment.base) last)
      (spec.files.sync.dropOldest removed.length) := by
  have hwf := h.directory.wf
  obtain ⟨hdrop, hsegments⟩ := hpurged.left
  obtain ⟨hgone, hkept⟩ := hpurged.separates hwf hlast
  constructor
  · have hcongr : residentLocations (log.withoutSegments (removed.map Segment.base) last).sealedIndexes
        (rest ++ [spec.files.current]) = residentLocations log.sealedIndexes (rest ++ [spec.files.current]) := by
      refine residentLocations_congr fun segment hsegment => ?_
      rw [Std.ExtTreeMap.mem_iff_isSome_getElem?, Std.ExtTreeMap.mem_iff_isSome_getElem?,
        SegmentLog.withoutSegments, getElem?_foldl_erase, if_neg (hpurged.base_not_mem hwf hsegment)]
    rw [hsegments, hcongr]
    show log.residentRecords.filter _ = _
    rw [h.memory.tables.resident, segments, hpurged.sealed, List.append_assoc, residentLocations_append,
      List.filter_append, List.filter_eq_nil_iff.2, List.nil_append, List.filter_eq_self.2]
    · intro location hlocation
      obtain ⟨record, hrecord, heq⟩ := mem_residentLocations hlocation
      rw [heq]
      simpa using hkept record hrecord
    · intro location hlocation
      obtain ⟨record, hrecord, heq⟩ := mem_residentLocations hlocation
      rw [heq]
      simpa using hgone record hrecord
  · intro path summary hpath
    rw [SegmentLog.withoutSegments] at hpath
    dsimp only at hpath
    rw [getElem?_foldl_erase] at hpath
    split_ifs at hpath with hmem
    obtain ⟨segment, hsegment, hbase, hdescribes, bytes, hbytes, hstored⟩ := h.memory.tables.indexed hpath
    refine ⟨segment, ?_, hbase, hdescribes, bytes, (hdisk path hmem).trans hbytes, hstored⟩
    rw [hpurged.sealed, List.mem_append] at hsegment
    rw [hdrop]
    refine hsegment.resolve_left fun hremoved => hmem ?_
    rw [← hbase]
    exact List.mem_map_of_mem hremoved

/-- The records after a purge. -/
def purgedLog (spec : RecordLog Record) (count throughIndex : ℕ) : RecordLog Record where
  files := spec.files.sync.dropOldest count
  startIndex := (spec.files.sync.dropOldest count).firstIndex.getD (satSucc throughIndex)

include hpurged hlast hdisk in
theorem Refines.memory_afterPurge (h : Refines crc log disk spec) :
    Memory crc (log.afterPurge (removed.map Segment.base) last throughIndex) disk'
      (purgedLog spec removed.length throughIndex) := by
  have hwf := h.directory.wf
  have htables := h.tables_withoutSegments hpurged hlast hdisk
  have hsegments : (purgedLog spec removed.length throughIndex).files.segments =
      rest ++ [spec.files.current] := hpurged.left.2
  obtain ⟨hfirst, hend⟩ := htables.refreshAggregates (hwf.sync.dropOldest removed.length)
  exact
    { maxSegmentBytes := h.memory.maxSegmentBytes
      currentPath := h.memory.currentPath
      currentLen := h.memory.currentLen
      startIndex := by
        rw [SegmentLog.afterPurge, purgedLog, hfirst]
      firstIndex := hfirst
      lastIndex := hend
      tables := ⟨htables.resident, htables.indexed⟩
      checksums := by
        intro segment hsegment
        rw [hsegments] at hsegment
        show ∃ sum, (List.foldl _ log.checksums _)[segment.base]? = _
        rw [getElem?_foldl_erase, if_neg (hpurged.base_not_mem hwf hsegment)]
        refine h.memory.checksums segment ?_
        rw [segments, hpurged.sealed, List.append_assoc]
        exact List.mem_append_right _ hsegment
      known := by
        intro path hpath
        rw [Std.ExtTreeMap.mem_iff_isSome_getElem?] at hpath
        change (List.foldl _ log.checksums _)[path]?.isSome = true at hpath
        rw [getElem?_foldl_erase] at hpath
        split_ifs at hpath with hmem
        · simp at hpath
        · obtain ⟨segment, hsegment, hbase⟩ :=
            h.memory.known path (Std.ExtTreeMap.mem_iff_isSome_getElem?.2 hpath)
          refine ⟨segment, ?_, hbase⟩
          rw [segments, hpurged.sealed, List.append_assoc, List.mem_append] at hsegment
          rw [hsegments]
          refine hsegment.resolve_left fun hremoved => hmem ?_
          rw [← hbase]
          exact List.mem_map_of_mem hremoved }

include hpurged in
/-- A log that is empty after a purge starts behind what was purged. -/
theorem Refines.start_afterPurge (h : Refines crc log disk spec)
    (hthrough : ∃ last, log.lastIndex = some last ∧ throughIndex ≤ last)
    (hempty : (purgedLog spec removed.length throughIndex).files.records = []) :
    spec.files.current.base ≤ (purgedLog spec removed.length throughIndex).startIndex := by
  have hwf := h.directory.wf
  obtain ⟨last, hlast, hle⟩ := hthrough
  rw [h.memory.lastIndex] at hlast
  have hrecords := records_dropOldest spec.files.sync removed.length
  have hsealed : spec.files.sync.sealed.take removed.length = removed := by
    rw [LogFiles.sync, hpurged.sealed, List.take_left]
  rw [records_sync, hsealed, show (spec.files.sync.dropOldest removed.length).records = [] from hempty,
    List.append_nil] at hrecords
  have hbound := hwf.base_le last hlast
  rw [LogFiles.lastIndex, Option.map_eq_some_iff] at hlast
  obtain ⟨record, hrecord, rfl⟩ := hlast
  have hmem := List.mem_of_getLast? hrecord
  have hword := h.directory.word record hmem
  rw [hrecords] at hmem
  obtain ⟨segment, hsegment, hin⟩ := List.mem_flatMap.1 hmem
  have hcovered := hpurged.le_through hwf hsegment hin
  have hstart : (purgedLog spec removed.length throughIndex).startIndex = satSucc throughIndex := by
    have hnone : (purgedLog spec removed.length throughIndex).files.firstIndex = none := by
      rw [LogFiles.firstIndex, hempty]
      rfl
    show (purgedLog spec removed.length throughIndex).files.firstIndex.getD _ = _
    rw [hnone]
    rfl
  rw [hstart, satSucc_eq (by omega)]
  omega

end Purge

/-- **Purging** removes the oldest segments one by one. -/
theorem Refines.purge (h : Refines crc log disk spec) (throughIndex : ℕ) (retained : Finset ℕ)
    (appending : Record) {purges : List ℕ} (hissued : throughIndex ∈ purges)
    (hthrough : ∃ last, log.lastIndex = some last ∧ throughIndex ≤ last) :
    let outcome := log.purgePrefixRetaining disk throughIndex retained
    ∃ spec', SimulatesAll crc appending purges outcome.writes spec.files spec'.files ∧
      Refines crc outcome.log (disk.applyAll outcome.writes) spec' ∧
      ∀ count, outcome.result = .ok count →
        spec' = spec.purgePrefixRetaining throughIndex retained := by
  have hwf := h.directory.wf
  have hpurged := purged_removable spec throughIndex retained
  dsimp only [SegmentLog.purgePrefixRetaining]
  rw [h.removable]
  split_ifs with hisolated hnone
  · exact ⟨spec, .nil _, h, fun count hresult => by simp at hresult⟩
  · refine ⟨spec, .nil _, h, fun count _ => ?_⟩
    rw [RecordLog.purgePrefixRetaining, if_pos]
    rw [List.map_eq_nil_iff.1 hnone]
    rfl
  · set removed := spec.removable throughIndex retained with hremoved
    set rest := spec.files.sealed.drop removed.length
    rw [List.map_eq_nil_iff] at hnone
    obtain ⟨segment, hsegment⟩ := Option.ne_none_iff_exists'.1 (mt List.getLast?_eq_none_iff.1 hnone)
    obtain ⟨last, hlast, hle⟩ := hpurged.through segment (List.mem_of_getLast? hsegment)
    have hbind : removed.getLast?.bind Segment.lastIndex = some last := by
      rw [hsegment]
      exact hlast
    have hmem : segment ∈ spec.files.sealed := by
      rw [hpurged.sealed]
      exact List.mem_append_left _ (List.mem_of_getLast? hsegment)
    have hremovedThrough : (((removed.map Segment.base).getLast?.bind log.recordIndexRange).elim
        throughIndex Prod.snd) = last := by
      obtain ⟨first, hfirst⟩ : ∃ first, segment.firstIndex = some first := by
        have hne := hwf.filled segment hmem
        rw [Segment.firstIndex]
        obtain ⟨record, records, heq⟩ := List.exists_cons_of_ne_nil hne
        exact ⟨index record, by rw [heq]; rfl⟩
      rw [List.getLast?_map, hsegment, Option.map_some, Option.bind_some,
        h.recordIndexRange (mem_segments.2 (.inl hmem)), hfirst, hlast]
      rfl
    rw [hremovedThrough, h.memory.currentPath]
    have hremove : SimulatesAll crc appending purges
        ((removed.map Segment.base).flatMap fun path => [.remove path, .removeIndex path])
        spec.files.sync (spec.files.sync.dropOldest removed.length) :=
      simulatesAll_remove appending hpurged.sealed fun s hs record hrecord =>
        ⟨throughIndex, hissued, hpurged.le_through hwf hs hrecord⟩
    have hsimulates : SimulatesAll crc appending purges
        (.sync spec.files.current.base :: ((removed.map Segment.base).flatMap fun path =>
          [.remove path, .removeIndex path]))
        spec.files (purgedLog spec removed.length throughIndex).files := .cons (.sync _) hremove
    refine ⟨purgedLog spec removed.length throughIndex, hsimulates,
      ⟨h.directory.simulatesAll hsimulates, ?_, h.start_afterPurge hpurged hthrough⟩, fun _ _ => ?_⟩
    · refine h.memory_afterPurge hpurged hbind ?_
      exact fun path hpath => indexes_applyAll_remove _ _ hpath
    · rw [RecordLog.purgePrefixRetaining, if_neg (by simpa using hnone)]
      rfl

/-! ### Indexing a segment -/

/-- The locations of a segment are found, in memory or in its sidecar. -/
theorem Refines.locationsForSegment (h : Refines crc log disk spec)
    (hsegment : segment ∈ spec.files.segments) :
    log.locationsForSegment disk segment.base = .ok (locate segment.base 0 segment.records) := by
  rw [SegmentLog.locationsForSegment]
  cases hsummary : log.sealedIndexes[segment.base]? with
  | none =>
    dsimp only
    rw [h.resident_filter hsegment hsummary]
  | some summary =>
    obtain ⟨hdescribes, bytes, hbytes, segmentCrc32c, metadata, hstore⟩ := h.indexed hsegment hsummary
    obtain ⟨first, hlocated⟩ := h.directory.located hsegment
    dsimp only
    rw [hbytes]
    refine loadLocations_store hlocated hstore hdescribes.segmentLen ?_ ?_
    · rw [hdescribes.locationCount, length_locate]
    · rw [hdescribes.firstIndex, firstIndexOf_locate]

theorem describes_summaryOf (segment : Segment Record) (segmentCrc32c : UInt32) (metadata : List UInt8) :
    Describes segment (summaryOf crc segment.encodedLen segmentCrc32c
      (locate segment.base 0 segment.records) metadata) where
  segmentLen := rfl
  locationCount := length_locate _ _ _
  firstIndex := firstIndexOf_locate _ _
  lastIndex := lastIndexOf_locate _ _

/-- Without the locations of one segment. -/
theorem filter_ne_residentLocations (indexes : Std.ExtTreeMap ℕ RecoveryIndexSummary)
    (summary : RecoveryIndexSummary) (segments : List (Segment Record)) (path : ℕ) :
    (residentLocations indexes segments).filter (fun location => decide (location.segment ≠ path)) =
      residentLocations (indexes.insert path summary) segments := by
  rw [residentLocations, residentLocations, List.filter_flatMap]
  refine List.flatMap_congr fun segment _ => ?_
  by_cases hpath : segment.base = path
  · have hinserted : segment.base ∈ indexes.insert path summary := by
      rw [Std.ExtTreeMap.mem_insert]
      simp [hpath]
    rw [if_pos hinserted]
    refine List.filter_eq_nil_iff.2 fun location hlocation => ?_
    split_ifs at hlocation
    · simp at hlocation
    · rw [locate_segment hlocation]
      simpa using hpath
  · have hiff : segment.base ∈ indexes.insert path summary ↔ segment.base ∈ indexes := by
      rw [Std.ExtTreeMap.mem_insert]
      simp [Ne.symm hpath]
    simp only [hiff]
    refine List.filter_eq_self.2 fun location hlocation => ?_
    split_ifs at hlocation
    · simp at hlocation
    · rw [locate_segment hlocation]
      simpa using hpath

/-- A new sidecar for a segment leaves the log describing its directory. -/
theorem Refines.storeIndex (h : Refines crc log disk spec) (hsegment : segment ∈ spec.files.sealed)
    {bytes : List UInt8} (hstored : StoredFor crc segment bytes) :
    Refines crc log (disk.apply (.storeIndex segment.base bytes)) spec where
  directory := h.directory.storeIndex hsegment hstored
  memory :=
    { h.memory with
      tables :=
        { resident := h.memory.tables.resident
          indexed := by
            intro path summary hpath
            obtain ⟨other, hother, hbase, hdescribes, found, hfound, hfor⟩ := h.memory.tables.indexed hpath
            by_cases hsame : path = segment.base
            · have heq := h.directory.wf.eq_of_base (mem_segments.2 (.inl hother))
                (mem_segments.2 (.inl hsegment)) (hbase.trans hsame)
              refine ⟨other, hother, hbase, hdescribes, bytes, ?_, heq ▸ hstored⟩
              rw [hsame]
              exact Function.update_self _ _ _
            · exact ⟨other, hother, hbase, hdescribes, found,
                (Function.update_of_ne hsame _ _).trans hfound, hfor⟩ } }
  start := h.start

/-- **Indexing** a segment stores its sidecar and leaves the records as they are. -/
theorem Refines.persistRecoveryIndex (h : Refines crc log disk spec) (path : ℕ)
    (metadata : List UInt8) (appending : Record) (purges : List ℕ) :
    let outcome := log.persistRecoveryIndex disk crc path metadata
    SimulatesAll crc appending purges outcome.writes spec.files spec.files ∧
      Refines crc outcome.log (disk.applyAll outcome.writes) spec := by
  dsimp only [SegmentLog.persistRecoveryIndex]
  split_ifs with hisolated hcurrent
  · exact ⟨.nil _, h⟩
  · exact ⟨.nil _, h⟩
  · cases hchecksum : log.checksums[path]? with
    | none => exact ⟨.nil _, h⟩
    | some entry =>
      obtain ⟨segmentLen, segmentCrc32c⟩ := entry
      have hmem : path ∈ log.checksums := by
        rw [Std.ExtTreeMap.mem_iff_isSome_getElem?, hchecksum]
        rfl
      obtain ⟨segment, hsegment, rfl⟩ := h.memory.known path hmem
      have hsealed : segment ∈ spec.files.sealed := by
        refine (mem_segments.1 hsegment).resolve_right fun heq => hcurrent ?_
        rw [h.memory.currentPath, heq]
      have hlen : segmentLen = segment.encodedLen := by
        obtain ⟨sum, hsum⟩ := h.memory.checksums segment hsegment
        rw [hsum, Option.some.injEq, Prod.mk.injEq] at hchecksum
        exact hchecksum.1.symm
      dsimp only
      rw [h.locationsForSegment hsegment, hlen]
      dsimp only
      cases hstore : store crc segment.encodedLen segmentCrc32c
          (locate segment.base 0 segment.records) metadata with
      | error e => exact ⟨.nil _, h⟩
      | ok bytes =>
        have hstored : StoredFor crc segment bytes := ⟨segmentCrc32c, metadata, hstore⟩
        have hsimulates : SimulatesAll crc appending purges [.storeIndex segment.base bytes]
            spec.files spec.files := .cons (.storeIndex hsealed hstored) (.nil _)
        have hrefines := h.storeIndex hsealed hstored
        obtain ⟨first, hlocated⟩ := h.directory.located hsegment
        dsimp only
        rw [loadSummary_store hlocated hstore]
        split_ifs with hsize
        · dsimp only
          refine ⟨hsimulates, { hrefines with memory := { hrefines.memory with tables := ?_ } }⟩
          constructor
          · dsimp only
            rw [hrefines.memory.tables.resident]
            exact filter_ne_residentLocations _ _ _ _
          · intro path summary hpath
            dsimp only at hpath
            rw [Std.ExtTreeMap.getElem?_insert] at hpath
            split_ifs at hpath with heq
            · rw [Option.some.injEq] at hpath
              rw [← Std.LawfulEqCmp.eq_of_compare heq, ← hpath]
              exact ⟨segment, hsealed, rfl, describes_summaryOf _ _ _, bytes,
                Function.update_self _ _ _, hstored⟩
            · exact hrefines.memory.tables.indexed hpath
        · exact ⟨hsimulates, hrefines⟩

end RustQueue.Storage
