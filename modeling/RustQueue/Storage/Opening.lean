import RustQueue.Lib.Result
import RustQueue.Storage.Maintenance

/-!
# Opening a directory after a crash

`SegmentLog.openSegments` goes over the segments from the oldest on, trusting a sidecar of the
right length and scanning where there is none, and cuts a torn tail off the last one.  The
invariant `Recovered` says what it has learnt from the segments it has seen.

* `Directory.reopen`: whatever a crash leaves of a directory, opening it succeeds, and the log
  describes the directory without the records that were cut;
* `Refines.readAll`: reading such a log returns its records.
-/

namespace RustQueue.Storage

open Lib FrameFormat LogFiles RecoveryIndex SegmentLog

open LogEntry (index)

variable {crc : Crc32c} {disk : Disk} {files : LogFiles Record}

/-! ### Going over the segments -/

/-- The counters agree with the records seen so far. -/
structure Counted (seen : List Record) (state : Recovering) : Prop where
  records : state.records = seen.length
  firstIndex : state.firstIndex = seen.head?.map index
  last : ∀ record, seen.getLast? = some record →
    state.lastIndex = index record ∧ state.expected = some (index record + 1)
  nothing : seen = [] → state.expected = none

/-- The counters go on over consecutive records. -/
theorem Counted.advance {seen more : List Record} {state : Recovering} (h : Counted seen state)
    (hconsecutive : ∃ first, Consecutive index first (seen ++ more))
    (hword : ∀ record ∈ more, index record < u64Max) :
    ∃ state', state.advance (more.head?.elim 0 index) (more.getLast?.elim 0 index) more.length =
        .ok state' ∧
      Counted (seen ++ more) state' ∧ state'.residentRecords = state.residentRecords ∧
      state'.sealedIndexes = state.sealedIndexes ∧ state'.checksums = state.checksums := by
  obtain ⟨first, hfirst⟩ := hconsecutive
  rw [consecutive_append] at hfirst
  cases hmore : more with
  | nil =>
    refine ⟨state, rfl, ?_, rfl, rfl, rfl⟩
    rw [List.append_nil]
    exact h
  | cons head tail =>
    rw [hmore] at hfirst hword
    obtain ⟨last, hlast⟩ : ∃ last, (head :: tail).getLast? = some last :=
      Option.ne_none_iff_exists'.1 (by simp)
    have hhead : index head = first + seen.length := (consecutive_cons.1 hfirst.2).1
    have hend := hfirst.2.getLast? hlast
    have hmax := hword last (List.mem_of_getLast? hlast)
    have hcount : satAdd u64Max (index head) (head :: tail).length - 1 = index last := by
      rw [satAdd_eq (by omega)]
      omega
    have hexpected : (state.expected.any fun expected => index head ≠ expected) = false := by
      cases hseen : seen.getLast? with
      | none =>
        rw [h.nothing (List.getLast?_eq_none_iff.1 hseen)]
        rfl
      | some record =>
        have hgap := hfirst.1.getLast? hseen
        rw [(h.last record hseen).2, Option.any_some]
        simpa using hhead.trans hgap.symm
    refine ⟨{ state with
        firstIndex := some (state.firstIndex.getD (index head))
        expected := some (satSucc (index last))
        lastIndex := index last
        records := state.records + (head :: tail).length }, ?_, ?_, rfl, rfl, rfl⟩
    · rw [Recovering.advance, hlast, List.head?_cons, Option.elim_some, Option.elim_some,
        if_neg (by simp), hexpected, if_neg (by simp), hcount, if_neg (by simp)]
    · refine ⟨?_, ?_, ?_, fun hnil => by simp at hnil⟩
      · rw [List.length_append, h.records]
      · dsimp only
        rw [h.firstIndex]
        cases seen <;> rfl
      · intro record hrecord
        rw [List.getLast?_append, hlast, Option.some_or, Option.some.injEq] at hrecord
        dsimp only
        rw [← hrecord, satSucc_eq hmax]
        exact ⟨rfl, rfl⟩

/-- What is known after going over some segments. -/
structure Recovered (crc : Crc32c) (disk : Disk) (seen : List (Segment Record))
    (state : Recovering) : Prop where
  counted : Counted (seen.flatMap Segment.records) state
  resident : state.residentRecords = residentLocations state.sealedIndexes seen
  indexed : ∀ {path summary}, state.sealedIndexes[path]? = some summary →
    ∃ segment ∈ seen, segment.base = path ∧ Describes segment summary ∧
      ∃ bytes, disk.indexes path = some bytes ∧ StoredFor crc segment bytes
  checksums : ∀ segment ∈ seen, ∃ sum, state.checksums[segment.base]? = some (segment.encodedLen, sum)
  known : ∀ path ∈ state.checksums, ∃ segment ∈ seen, segment.base = path

theorem recovered_init : Recovered crc disk [] Recovering.init where
  counted := ⟨rfl, rfl, fun record hrecord => by simp at hrecord, fun _ => rfl⟩
  resident := rfl
  indexed hpath := by simp [Recovering.init] at hpath
  checksums segment hsegment := by simp at hsegment
  known path hpath := by simp [Recovering.init] at hpath

section Segments

variable {seen : List (Segment Record)} {segment : Segment Record} {state : Recovering}
  {file : SegmentFile}

/-- What the next segment has to satisfy. -/
structure Next (seen : List (Segment Record)) (segment : Segment Record) : Prop where
  base : ∀ other ∈ seen, other.base ≠ segment.base
  consecutive : ∃ first, Consecutive index first (seen.flatMap Segment.records ++ segment.records)
  word : ∀ record ∈ segment.records, index record < u64Max

theorem flatMap_concat : (seen ++ [segment]).flatMap Segment.records =
    seen.flatMap Segment.records ++ segment.records := by
  rw [List.flatMap_append, List.flatMap_singleton]

section

variable (h : Recovered crc disk seen state) (hnext : Next seen segment)
include h hnext

theorem Recovered.not_indexed :
    segment.base ∉ state.sealedIndexes := by
  intro hmem
  obtain ⟨summary, hsummary⟩ :=
    Option.isSome_iff_exists.1 (Std.ExtTreeMap.isSome_getElem?_iff_mem.2 hmem)
  obtain ⟨other, hother, hbase, -⟩ := h.indexed hsummary
  exact hnext.base other hother hbase

/-- A segment more, with its checksum and with its locations or its sidecar. -/
theorem Recovered.noted (sum : UInt32)
    {resident : List RecordLocation} {indexes : Std.ExtTreeMap ℕ RecoveryIndexSummary}
    (hresident : resident = residentLocations indexes (seen ++ [segment]))
    (hindexed : ∀ {path summary}, indexes[path]? = some summary → ∃ other ∈ seen ++ [segment],
      other.base = path ∧ Describes other summary ∧
        ∃ bytes, disk.indexes path = some bytes ∧ StoredFor crc other bytes) :
    ∃ state', Recovering.advance
        { state with
          residentRecords := resident
          sealedIndexes := indexes
          checksums := state.checksums.insert segment.base (segment.encodedLen, sum) }
        (segment.records.head?.elim 0 index) (segment.records.getLast?.elim 0 index)
        segment.records.length = .ok state' ∧
      Recovered crc disk (seen ++ [segment]) state' := by
  set noted : Recovering :=
    { state with
      residentRecords := resident
      sealedIndexes := indexes
      checksums := state.checksums.insert segment.base (segment.encodedLen, sum) } with hnoted
  have hcounted : Counted (seen.flatMap Segment.records) noted :=
    ⟨h.counted.records, h.counted.firstIndex, h.counted.last, h.counted.nothing⟩
  obtain ⟨state', hadvance, hcounted', hresident', hindexes, hchecksums⟩ :=
    hcounted.advance hnext.consecutive hnext.word
  refine ⟨state', hadvance, ?_, ?_, fun hpath => ?_, fun other hother => ?_, fun path hpath => ?_⟩
  · rw [flatMap_concat]
    exact hcounted'
  · rw [hresident', hindexes]
    exact hresident
  · rw [hindexes] at hpath
    exact hindexed hpath
  · rw [hchecksums, hnoted, Std.ExtTreeMap.getElem?_insert]
    rcases List.mem_append.1 hother with hseen | hself
    · rw [if_neg (by simpa using (hnext.base other hseen).symm)]
      exact h.checksums other hseen
    · rw [List.mem_singleton.1 hself, if_pos (by simp)]
      exact ⟨sum, rfl⟩
  · rw [hchecksums] at hpath
    rcases Std.ExtTreeMap.mem_insert.1 hpath with heq | hold
    · exact ⟨segment, by simp, Std.LawfulEqCmp.eq_of_compare heq⟩
    · obtain ⟨other, hother, hbase⟩ := h.known path hold
      exact ⟨other, List.mem_append_left _ hother, hbase⟩

/-- A segment is scanned. -/
theorem Recovered.scanned
    (file : SegmentFile) {isLast : Bool} (hbase : file.base = segment.base)
    (hscan : scanSegment crc file.base isLast file.bytes =
      .ok (locate segment.base 0 segment.records, segment.encodedLen)) :
    ∃ state', recoverScanned crc isLast state file = .ok state' ∧
      Recovered crc disk (seen ++ [segment]) state' := by
  rw [recoverScanned, hscan]
  dsimp only
  rw [hbase, firstIndexOf_locate, lastIndexOf_locate, length_locate]
  refine h.noted hnext _ ?_ fun hpath => ?_
  · rw [residentLocations_append, h.resident, residentLocations_singleton, if_neg (h.not_indexed hnext)]
  · obtain ⟨other, hother, hrest⟩ := h.indexed hpath
    exact ⟨other, List.mem_append_left _ hother, hrest⟩

/-- A segment is known from its sidecar. -/
theorem Recovered.fromIndex
    (hbase : file.base = segment.base) {summary : RecoveryIndexSummary}
    (husable : usableIndex disk crc file = some summary) (hdescribes : Describes segment summary)
    {bytes : List UInt8} (hbytes : disk.indexes segment.base = some bytes)
    (hstored : StoredFor crc segment bytes) :
    ∃ state', recoverSealed disk crc state file = .ok state' ∧
      Recovered crc disk (seen ++ [segment]) state' := by
  rw [recoverSealed, husable]
  dsimp only
  rw [hbase, hdescribes.segmentLen, hdescribes.firstIndex, hdescribes.lastIndex, hdescribes.locationCount]
  refine h.noted hnext _ ?_ fun {path found} hpath => ?_
  · have hself : segment.base ∈ state.sealedIndexes.insert segment.base summary :=
      Std.ExtTreeMap.mem_insert_self
    have hcongr : residentLocations (state.sealedIndexes.insert segment.base summary) seen =
        residentLocations state.sealedIndexes seen := by
      refine residentLocations_congr fun other hother => ?_
      rw [Std.ExtTreeMap.mem_insert]
      simp [(hnext.base other hother).symm]
    rw [residentLocations_append, h.resident, hcongr, residentLocations_singleton, if_pos hself,
      List.append_nil]
  · rw [Std.ExtTreeMap.getElem?_insert] at hpath
    split_ifs at hpath with heq
    · rw [Option.some.injEq] at hpath
      rw [← Std.LawfulEqCmp.eq_of_compare heq, ← hpath]
      exact ⟨segment, by simp, rfl, hdescribes, bytes, hbytes, hstored⟩
    · obtain ⟨other, hother, hrest⟩ := h.indexed hpath
      exact ⟨other, List.mem_append_left _ hother, hrest⟩

end

/-- A whole segment is scanned, whether it may be repaired or not. -/
theorem scanSegment_written (hcrc : crc.Chunked) (path : ℕ) (allowTailRepair : Bool)
    {records : List Record} (hfits : ∀ record ∈ records, record.Fits) :
    scanSegment crc path allowTailRepair (written (Record.bytes crc) records) =
      .ok (locate path 0 records, (records.map Record.encodedLen).sum) := by
  have hscan := scan_written (recordWriter hcrc path allowTailRepair records.length) records hfits
    0 0 (by omega)
  rw [Nat.zero_add] at hscan
  rw [scanSegment, show written (Record.bytes crc) records =
    written (recordWriter hcrc path allowTailRepair records.length).encode records from rfl, hscan]
  dsimp only
  rw [show written (recordWriter hcrc path allowTailRepair records.length).encode records =
    written (Record.bytes crc) records from rfl, length_written]

theorem scanSegment_take (hcrc : crc.Chunked) (path : ℕ) {records : List Record}
    (hfits : ∀ record ∈ records, record.Fits) (n : ℕ) :
    let kept := framesWithin (Record.bytes crc) records n
    scanSegment crc path true ((written (Record.bytes crc) records).take n) =
      .ok (locate path 0 (records.take kept), ((records.take kept).map Record.encodedLen).sum) := by
  have hscan := scan_take (recordWriter hcrc path true records.length) (fun _ => rfl) (fun _ => rfl)
    records hfits 0 0 n (by rw [Nat.zero_add]; exact framesWithin_le _ _ _)
  rw [Nat.zero_add] at hscan
  dsimp only
  rw [scanSegment, show written (Record.bytes crc) records =
    written (recordWriter hcrc path true records.length).encode records from rfl, hscan]
  dsimp only
  rw [← length_written crc]
  rfl

/-- What a directory has to provide of its sidecars. -/
def IndexesOf (crc : Crc32c) (disk : Disk) (segment : Segment Record) : Prop :=
  ∀ bytes, disk.indexes segment.base = some bytes → StoredFor crc segment bytes

/-- A sealed segment is recovered, through its sidecar or without it. -/
theorem Recovered.sealed (hcrc : crc.Chunked) (h : Recovered crc disk seen state)
    (hnext : Next seen segment) (hfits : ∀ record ∈ segment.records, record.Fits)
    (hlocated : ∃ first, Located segment.base segment.encodedLen first
      (locate segment.base 0 segment.records))
    (hindexes : IndexesOf crc disk segment) :
    ∃ state', recoverSealed disk crc state (sealedFile crc segment) = .ok state' ∧
      Recovered crc disk (seen ++ [segment]) state' := by
  obtain ⟨first, hlocated⟩ := hlocated
  cases husable : usableIndex disk crc (sealedFile crc segment) with
  | none =>
    have hscan := scanSegment_written hcrc segment.base false hfits
    obtain ⟨state', hstate, hrecovered⟩ := h.scanned hnext (sealedFile crc segment) rfl hscan
    refine ⟨state', ?_, hrecovered⟩
    rw [recoverSealed, husable]
    exact hstate
  | some summary =>
    have hload := husable
    rw [usableIndex, show (sealedFile crc segment).base = segment.base from rfl] at hload
    cases hbytes : disk.indexes segment.base with
    | none =>
      rw [hbytes] at hload
      simp [loadSummary] at hload
    | some bytes =>
      have hstored := hindexes bytes hbytes
      obtain ⟨segmentCrc32c, metadata, hstore⟩ := id hstored
      rw [hbytes, loadSummary_store hlocated hstore] at hload
      split_ifs at hload with hsize
      dsimp only at hload
      split_ifs at hload with hlen
      rw [Option.some.injEq] at hload
      have hdescribes : Describes segment summary := by
        rw [← hload]
        exact describes_summaryOf _ _ _
      exact h.fromIndex hnext rfl husable hdescribes hbytes hstored

/-- All sealed segments are recovered. -/
theorem Recovered.allSealed (hcrc : crc.Chunked) {todo : List (Segment Record)}
    (h : Recovered crc disk seen state)
    (hbases : ((seen ++ todo).map Segment.base).Nodup)
    (hconsecutive : ∃ first, Consecutive index first ((seen ++ todo).flatMap Segment.records))
    (hword : ∀ segment ∈ todo, ∀ record ∈ segment.records, index record < u64Max)
    (hfits : ∀ segment ∈ todo, ∀ record ∈ segment.records, record.Fits)
    (hlocated : ∀ segment ∈ todo, ∃ first, Located segment.base segment.encodedLen first
      (locate segment.base 0 segment.records))
    (hindexes : ∀ segment ∈ todo, IndexesOf crc disk segment) :
    ∃ state', (todo.map (sealedFile crc)).foldlM (recoverSealed disk crc) state = .ok state' ∧
      Recovered crc disk (seen ++ todo) state' := by
  induction todo generalizing seen state with
  | nil =>
    rw [List.append_nil]
    exact ⟨state, rfl, h⟩
  | cons segment todo ih =>
    have hassoc : seen ++ segment :: todo = (seen ++ [segment]) ++ todo := by simp
    have hnext : Next seen segment := by
      refine ⟨fun other hother heq => ?_, ?_, hword segment List.mem_cons_self⟩
      · rw [List.map_append, List.nodup_append] at hbases
        exact hbases.2.2 _ (List.mem_map_of_mem hother) _ (by simp) heq
      · obtain ⟨first, hfirst⟩ := hconsecutive
        rw [hassoc, List.flatMap_append, flatMap_concat, consecutive_append] at hfirst
        exact ⟨first, hfirst.1⟩
    obtain ⟨middle, hmiddle, hrecovered⟩ := h.sealed hcrc hnext (hfits segment List.mem_cons_self)
      (hlocated segment List.mem_cons_self) (hindexes segment List.mem_cons_self)
    rw [hassoc] at hbases hconsecutive ⊢
    obtain ⟨state', hstate, hall⟩ := ih hrecovered hbases hconsecutive
      (fun s hs => hword s (List.mem_cons_of_mem _ hs))
      (fun s hs => hfits s (List.mem_cons_of_mem _ hs))
      (fun s hs => hlocated s (List.mem_cons_of_mem _ hs))
      (fun s hs => hindexes s (List.mem_cons_of_mem _ hs))
    refine ⟨state', ?_, hall⟩
    rw [List.map_cons, List.foldlM_cons, hmiddle]
    exact hstate

end Segments

/-! ### What a crash leaves -/

/-- The number of bytes that a crash keeps of the current segment. -/
def keptBytes (crc : Crc32c) (files : LogFiles Record) (kept : ℕ → ℕ) : ℕ :=
  max (segmentFile crc files.current files.synced).synced (kept files.current.base)

/-- The number of records that it keeps as a whole. -/
def keptRecords (crc : Crc32c) (files : LogFiles Record) (kept : ℕ → ℕ) : ℕ :=
  framesWithin (Record.bytes crc) files.current.records (keptBytes crc files kept)

/-- The current segment as a crash leaves it. -/
def tornFile (crc : Crc32c) (files : LogFiles Record) (kept : ℕ → ℕ) : SegmentFile :=
  { segmentFile crc files.current files.synced with
    bytes := (written (Record.bytes crc) files.current.records).take (keptBytes crc files kept) }

theorem Directory.crash_segments (h : Directory crc disk files) (kept : ℕ → ℕ) (lost : ℕ → Bool) :
    (disk.crash kept lost).segments = files.sealed.map (sealedFile crc) ++ [tornFile crc files kept] := by
  rw [Disk.crash]
  dsimp only
  rw [h.segments, List.map_append, List.map_map]
  congr 1
  refine List.map_congr_left fun segment _ => ?_
  have hall : (sealedFile crc segment).bytes.length ≤
      max (sealedFile crc segment).synced (kept (sealedFile crc segment).base) := by
    rw [sealedFile_synced]
    exact le_max_left _ _
  rw [Function.comp_apply, List.take_of_length_le hall]

theorem synced_le_keptRecords (crc : Crc32c) (hwf : files.WF) (kept : ℕ → ℕ) :
    files.synced ≤ keptRecords crc files kept := by
  have hwithin : (files.current.records.take files.synced).length ≤
      framesWithin (Record.bytes crc)
        (files.current.records.take files.synced ++ files.current.records.drop files.synced)
        (keptBytes crc files kept) := le_framesWithin (le_max_left _ _)
  rwa [List.take_append_drop, List.length_take, min_eq_left hwf.synced_le] at hwithin

theorem length_cut_le (crc : Crc32c) (files : LogFiles Record) (kept : ℕ → ℕ) :
    (written (Record.bytes crc) (files.current.records.take (keptRecords crc files kept))).length ≤
      (tornFile crc files kept).bytes.length := by
  have hbytes := length_written_framesWithin_le (Record.bytes crc) files.current.records
    (keptBytes crc files kept)
  have hprefix := congrArg List.length (take_length_written_take (Record.bytes crc)
    files.current.records (keptRecords crc files kept))
  rw [List.length_take] at hprefix
  show _ ≤ (List.take _ _).length
  rw [List.length_take]
  exact le_min hbytes (by omega)

theorem repairs_tornFile (hcrc : crc.Chunked) (hfits : ∀ record ∈ files.current.records, record.Fits)
    (kept : ℕ → ℕ) :
    repairs crc (tornFile crc files kept) =
      let stop := (written (Record.bytes crc)
        (files.current.records.take (keptRecords crc files kept))).length
      if stop < (tornFile crc files kept).bytes.length then [.truncate files.current.base stop] else [] := by
  have hscan : scanSegment crc (tornFile crc files kept).base true (tornFile crc files kept).bytes = _ :=
    scanSegment_take hcrc files.current.base hfits (keptBytes crc files kept)
  rw [repairs, hscan]
  dsimp only
  rw [← length_written crc]
  rfl

theorem crash_indexes {kept : ℕ → ℕ} {lost : ℕ → Bool} {path : ℕ} {bytes : List UInt8}
    (h : (disk.crash kept lost).indexes path = some bytes) : disk.indexes path = some bytes := by
  rw [Disk.crash] at h
  dsimp only at h
  split_ifs at h
  exact h

/-- The segments without the records behind the first `count`, with `synced` of them synced. -/
def cutFiles (files : LogFiles Record) (count synced : ℕ) : LogFiles Record :=
  { files.cut count with synced := synced }

/-- A directory whose current segment has been cut. -/
theorem Directory.cut (h : Directory crc disk files) {count synced : ℕ} (hcount : files.synced ≤ count)
    (hsynced : synced ≤ (files.current.records.take count).length) {disk' : Disk}
    (hindexes : ∀ path bytes, disk'.indexes path = some bytes → disk.indexes path = some bytes)
    (hsegments : disk'.segments = files.sealed.map (sealedFile crc) ++
      [segmentFile crc (files.cut count).current synced]) :
    Directory crc disk' (cutFiles files count synced) := by
  have hrecords : ∀ record ∈ (cutFiles files count synced).records, record ∈ files.records := by
    intro record hrecord
    rw [show (cutFiles files count synced).records = (files.cut count).records from rfl, records_cut,
      List.mem_append] at hrecord
    rw [records, List.mem_append]
    exact hrecord.imp_right List.mem_of_mem_take
  refine
    { wf := { h.wf.cut hcount with synced_le := hsynced }
      fits := fun record hrecord => h.fits record (hrecords record hrecord)
      word := fun record hrecord => h.word record (hrecords record hrecord)
      len := ?_
      segments := hsegments
      stale := fun hpath => h.stale (hindexes _ _ hpath)
      indexes := fun segment hsegment _ hbytes => h.indexes segment hsegment (hindexes _ _ hbytes) }
  intro segment hsegment
  rcases mem_segments.1 hsegment with hsealed | rfl
  · exact h.len segment (mem_segments.2 (.inl hsealed))
  · refine le_trans ?_ (h.len files.current (mem_segments.2 (.inr rfl)))
    exact ((List.take_sublist _ _).map _).sum_le_sum (by simp)

/-- The directory after the repair: the records that were cut are gone, and if something was
cut, the rest has been synced. -/
theorem Directory.repaired (hcrc : crc.Chunked) (h : Directory crc disk files) (kept : ℕ → ℕ)
    (lost : ℕ → Bool) :
    ∃ synced, files.synced ≤ synced ∧
      Directory crc ((disk.crash kept lost).applyAll (repairs crc (tornFile crc files kept)))
        (cutFiles files (keptRecords crc files kept) synced) := by
  have hfits : ∀ record ∈ files.current.records, record.Fits := fun record hrecord =>
    h.fits record (mem_records.2 ⟨_, mem_segments.2 (.inr rfl), hrecord⟩)
  have hsynced := synced_le_keptRecords crc h.wf kept
  have hsegments := h.crash_segments kept lost
  have hcut := length_cut_le crc files kept
  have hprefix := take_length_written_take (Record.bytes crc) files.current.records
    (keptRecords crc files kept)
  have hle := h.wf.synced_le
  rw [repairs_tornFile hcrc hfits]
  dsimp only
  set count := keptRecords crc files kept
  set stop := (written (Record.bytes crc) (files.current.records.take count)).length with hstop
  have hbytes : (tornFile crc files kept).bytes.take stop =
      written (Record.bytes crc) (files.current.records.take count) := by
    have hwithin : stop ≤ keptBytes crc files kept :=
      length_written_framesWithin_le (Record.bytes crc) files.current.records _
    show List.take stop (List.take _ _) = _
    rw [List.take_take, min_eq_left hwithin]
    exact hprefix
  split_ifs with htorn
  · refine ⟨(files.current.records.take count).length, ?_, h.cut hsynced le_rfl
      (fun path bytes (hpath : (disk.crash kept lost).indexes path = some bytes) =>
        crash_indexes hpath) ?_⟩
    · rw [List.length_take]
      omega
    · show (Disk.modify _ _ _).segments = _
      rw [modify_last h.wf hsegments rfl]
      congr 2
      show SegmentFile.mk _ _ _ = SegmentFile.mk _ _ _
      rw [hbytes]
      congr 1
      show _ = (written _ ((files.current.records.take count).take _)).length
      rw [List.take_length]
  · refine ⟨files.synced, le_rfl, h.cut hsynced ?_
      (fun path bytes hpath => crash_indexes hpath) ?_⟩
    · rw [List.length_take]
      omega
    · show (disk.crash kept lost).segments = _
      rw [hsegments]
      congr 2
      have hwhole : (tornFile crc files kept).bytes =
          written (Record.bytes crc) (files.current.records.take count) := by
        rw [← hbytes, List.take_of_length_le (not_lt.1 htorn)]
      show SegmentFile.mk _ (tornFile crc files kept).bytes _ = SegmentFile.mk _ _ _
      rw [hwhole]
      congr 1
      show _ = (written _ ((files.current.records.take count).take files.synced)).length
      rw [List.take_take, min_eq_left hsynced]
      rfl

/-! ### Opening -/

theorem Directory.file (h : Directory crc disk files) {segment : Segment Record}
    (hsegment : segment ∈ files.segments) :
    ∃ file, disk.file segment.base = some file ∧
      file.bytes = written (Record.bytes crc) segment.records := by
  have hfound : (disk.file segment.base).isSome := by
    rw [Disk.file, List.find?_isSome]
    rcases mem_segments.1 hsegment with hsealed | rfl
    · refine ⟨sealedFile crc segment, ?_, by simp [sealedFile, segmentFile]⟩
      rw [h.segments]
      exact List.mem_append_left _ (List.mem_map_of_mem hsealed)
    · refine ⟨segmentFile crc files.current files.synced, ?_, by simp [segmentFile]⟩
      rw [h.segments]
      simp
  obtain ⟨file, hfile⟩ := Option.isSome_iff_exists.1 hfound
  refine ⟨file, hfile, ?_⟩
  have hbase : file.base = segment.base := by simpa using List.find?_some hfile
  have hmem := List.mem_of_find?_eq_some hfile
  rw [h.segments, List.mem_append, List.mem_map, List.mem_singleton] at hmem
  rcases hmem with ⟨other, hother, rfl⟩ | rfl
  · rw [h.wf.eq_of_base hsegment (mem_segments.2 (.inl hother)) hbase.symm]
    rfl
  · rw [h.wf.eq_of_base hsegment (mem_segments.2 (.inr rfl)) hbase.symm]
    rfl

/-- The counters of a directory that has been gone over are its ends. -/
theorem Counted.ends {state : Recovering} (h : Counted files.records state) (startIndex : ℕ) :
    (if 0 < state.records then some state.lastIndex else none) = files.lastIndex ∧
      (if state.records = 0 then some files.current.base else state.expected).getD startIndex =
        files.nextIndex := by
  rw [LogFiles.nextIndex, LogFiles.lastIndex, h.records]
  cases hlast : files.records.getLast? with
  | none =>
    rw [List.getLast?_eq_none_iff.1 hlast]
    exact ⟨rfl, rfl⟩
  | some record =>
    have hpos := List.length_pos_of_mem (List.mem_of_getLast? hlast)
    obtain ⟨hindex, hexpected⟩ := h.last record hlast
    rw [if_pos hpos, if_neg hpos.ne', hindex, hexpected]
    exact ⟨rfl, rfl⟩

/-- **Opening what a crash leaves** succeeds, and the log describes the repaired directory. -/
theorem Directory.openSegments (hcrc : crc.Chunked) (h : Directory crc disk files) (kept : ℕ → ℕ)
    (lost : ℕ → Bool) {maxSegmentBytes : ℕ} (hmax : IsU64 maxSegmentBytes)
    (startIndex activeWriterFeatureLevel : ℕ) :
    ∃ log synced, files.synced ≤ synced ∧
      SegmentLog.openSegments (disk.crash kept lost) crc maxSegmentBytes startIndex
          activeWriterFeatureLevel (files.sealed.map (sealedFile crc)) (tornFile crc files kept) =
        .ok (log, repairs crc (tornFile crc files kept)) ∧
      Refines crc log ((disk.crash kept lost).applyAll (repairs crc (tornFile crc files kept)))
        ⟨cutFiles files (keptRecords crc files kept) synced,
          (cutFiles files (keptRecords crc files kept) synced).nextIndex⟩ := by
  obtain ⟨synced, hsynced, hdirectory⟩ := h.repaired hcrc kept lost
  set count := keptRecords crc files kept with hcount
  set repaired := (disk.crash kept lost).applyAll (repairs crc (tornFile crc files kept)) with hrepaired
  have hsegments : (cutFiles files count synced).segments =
      files.sealed ++ [(files.cut count).current] := rfl
  have hwf := hdirectory.wf
  have hfits : ∀ segment ∈ (cutFiles files count synced).segments, ∀ record ∈ segment.records,
      record.Fits := fun segment hsegment record hrecord =>
    hdirectory.fits record (mem_records.2 ⟨segment, hsegment, hrecord⟩)
  have hword : ∀ segment ∈ (cutFiles files count synced).segments, ∀ record ∈ segment.records,
      index record < u64Max := fun segment hsegment record hrecord =>
    hdirectory.word record (mem_records.2 ⟨segment, hsegment, hrecord⟩)
  have hsealed : ∀ segment ∈ files.sealed, segment ∈ (cutFiles files count synced).segments :=
    fun segment hsegment => mem_segments.2 (.inl hsegment)
  have hnodup := hwf.bases.imp fun {a b} (hlt : a < b) => ne_of_lt hlt
  obtain ⟨first, hfirst⟩ := hwf.consecutive
  rw [records_eq_flatMap, hsegments] at hfirst
  rw [hsegments] at hnodup
  have hfirst' := hfirst
  rw [List.flatMap_append, consecutive_append] at hfirst'
  have hnodup' := hnodup
  rw [List.map_append, List.pairwise_append] at hnodup'
  -- the sealed segments
  have hinit : Recovered crc (disk.crash kept lost) [] Recovering.init := recovered_init
  obtain ⟨middle, hmiddle, hrecovered⟩ :
      ∃ state, (files.sealed.map (sealedFile crc)).foldlM (recoverSealed (disk.crash kept lost) crc)
          Recovering.init = .ok state ∧
        Recovered crc (disk.crash kept lost) files.sealed state :=
    hinit.allSealed hcrc hnodup'.1 ⟨first, hfirst'.1⟩
      (fun s hs => hword s (hsealed s hs)) (fun s hs => hfits s (hsealed s hs))
      (fun s hs => hdirectory.located (hsealed s hs))
      (fun s hs bytes hbytes => h.indexes s hs (crash_indexes hbytes))
  -- the last one
  have hnext : Next files.sealed (files.cut count).current := by
    refine ⟨fun other hother => ?_, ⟨first, ?_⟩, hword _ (mem_segments.2 (.inr rfl))⟩
    · exact (h.wf.base_lt_current hother).ne
    · rw [flatMap_concat] at hfirst
      exact hfirst
  have hscan : scanSegment crc (tornFile crc files kept).base true (tornFile crc files kept).bytes =
      .ok (locate (files.cut count).current.base 0 (files.cut count).current.records,
        (files.cut count).current.encodedLen) :=
    scanSegment_take hcrc files.current.base (fun record hrecord =>
      h.fits record (mem_records.2 ⟨_, mem_segments.2 (.inr rfl), hrecord⟩)) _
  obtain ⟨state, hstate, hall⟩ := hrecovered.scanned hnext (tornFile crc files kept) rfl hscan
  have hcounted : Counted (cutFiles files count synced).records state := by
    rw [records_eq_flatMap]
    exact hall.counted
  obtain ⟨hlast, hexpected⟩ := hcounted.ends startIndex
  obtain ⟨file, hfile, hbytes⟩ := hdirectory.file (mem_segments.2 (.inr rfl))
  refine ⟨opened repaired maxSegmentBytes startIndex activeWriterFeatureLevel
    (tornFile crc files kept) state, synced, hsynced, ?_, hdirectory, ?_, fun _ => ?_⟩
  · rw [SegmentLog.openSegments, hmiddle]
    dsimp only
    rw [hstate]
  · exact
      { maxSegmentBytes := max_le hmax (by decide)
        currentPath := rfl
        currentLen := by
          show Option.elim (repaired.file files.current.base) 0 _ = _
          rw [show repaired.file files.current.base = some file from hfile, Option.elim_some, hbytes]
          exact length_segment_bytes _
        startIndex := hexpected
        firstIndex := hcounted.firstIndex
        lastIndex := hlast
        tables :=
          { resident := hall.resident
            indexed := by
              intro path summary hpath
              obtain ⟨segment, hsegment, hbase, hdescribes, bytes, hfound, hstored⟩ := hall.indexed hpath
              have hindexes : repaired.indexes = (disk.crash kept lost).indexes := by
                rw [hrepaired, repairs_tornFile hcrc fun record hrecord =>
                  h.fits record (mem_records.2 ⟨_, mem_segments.2 (.inr rfl), hrecord⟩)]
                dsimp only
                split_ifs <;> rfl
              refine ⟨segment, ?_, hbase, hdescribes, bytes, by rw [hindexes]; exact hfound, hstored⟩
              refine (List.mem_append.1 hsegment).resolve_right fun hcurrent => ?_
              have hstale := h.stale (crash_indexes hfound)
              rw [← hbase, List.mem_singleton.1 hcurrent] at hstale
              exact lt_irrefl _ hstale }
        checksums := hall.checksums
        known := hall.known }
  · exact hwf.base_le_nextIndex

/-- **Reopening** a directory after a crash. -/
theorem Directory.reopen (hcrc : crc.Chunked) (h : Directory crc disk files) (kept : ℕ → ℕ)
    (lost : ℕ → Bool) {maxSegmentBytes : ℕ} (hmax : IsU64 maxSegmentBytes)
    (startIndex activeWriterFeatureLevel : ℕ) :
    ∃ log writes count synced, files.synced ≤ count ∧ files.synced ≤ synced ∧
      openWithFeatureLevel (disk.crash kept lost) crc maxSegmentBytes startIndex
        activeWriterFeatureLevel = .ok (log, writes) ∧
      Refines crc log ((disk.crash kept lost).applyAll writes)
        ⟨cutFiles files count synced, (cutFiles files count synced).nextIndex⟩ := by
  obtain ⟨log, synced, hsynced, hopen, hrefines⟩ :=
    h.openSegments hcrc kept lost hmax startIndex activeWriterFeatureLevel
  refine ⟨log, _, _, synced, synced_le_keptRecords crc h.wf kept, hsynced, ?_, hrefines⟩
  have hsegments := h.crash_segments kept lost
  rw [openWithFeatureLevel, hsegments, List.getLast?_concat, List.dropLast_concat]
  exact hopen

/-- The directory that opening creates. -/
def freshFiles (startIndex : ℕ) : LogFiles Record where
  sealed := []
  current := { base := startIndex, records := [] }
  synced := 0

theorem directory_fresh (crc : Crc32c) (startIndex : ℕ) :
    Directory crc (Disk.empty.apply (.create startIndex)) (freshFiles startIndex) where
  wf :=
    { filled := fun segment hsegment => by simp [freshFiles] at hsegment
      consecutive := ⟨0, consecutive_nil⟩
      above := fun segment hsegment record hrecord => by
        rw [mem_segments] at hsegment
        rcases hsegment with hsealed | rfl
        · simp [freshFiles] at hsealed
        · simp [freshFiles] at hrecord
      ordered := by simp [freshFiles, segments]
      base_le := fun last hlast => by
        simp [freshFiles, LogFiles.lastIndex, records, sealedRecords] at hlast
      synced_le := le_rfl }
  fits record hrecord := by simp [freshFiles, records, sealedRecords] at hrecord
  word record hrecord := by simp [freshFiles, records, sealedRecords] at hrecord
  len segment hsegment := by
    rw [mem_segments] at hsegment
    rcases hsegment with hsealed | rfl
    · simp [freshFiles] at hsealed
    · exact Nat.zero_le _
  segments := rfl
  stale hpath := by simp [Disk.apply, Disk.empty] at hpath
  indexes segment hsegment := by simp [freshFiles] at hsegment

/-- Opening an empty directory creates the first segment. -/
theorem open_empty (hcrc : crc.Chunked) {maxSegmentBytes : ℕ} (hmax : IsU64 maxSegmentBytes)
    (startIndex activeWriterFeatureLevel : ℕ) :
    ∃ log writes, openWithFeatureLevel Disk.empty crc maxSegmentBytes startIndex
        activeWriterFeatureLevel = .ok (log, writes) ∧
      Refines crc log (Disk.empty.applyAll writes) ⟨freshFiles startIndex, startIndex⟩ := by
  have hfresh := directory_fresh crc startIndex
  obtain ⟨log, synced, -, hopen, hrefines⟩ :=
    hfresh.openSegments hcrc (fun _ => 0) (fun _ => false) hmax startIndex activeWriterFeatureLevel
  have hzero : synced = 0 := Nat.le_zero.1 hrefines.directory.wf.synced_le
  subst hzero
  refine ⟨log, .create startIndex :: repairs crc (tornFile crc (freshFiles startIndex) fun _ => 0),
    ?_, hrefines⟩
  have hmap : openWithFeatureLevel Disk.empty crc maxSegmentBytes startIndex activeWriterFeatureLevel =
      (SegmentLog.openSegments (Disk.empty.apply (.create startIndex)) crc maxSegmentBytes startIndex
        activeWriterFeatureLevel [] ⟨startIndex, [], 0⟩).map
          fun result => (result.1, .create startIndex :: result.2) := rfl
  rw [hmap]
  exact congrArg (Except.map _) hopen

/-! ### The first log -/

theorem scanSegment_nil (crc : Crc32c) (path : ℕ) (allowTailRepair : Bool) :
    scanSegment crc path allowTailRepair [] = .ok ([], 0) := by
  rw [scanSegment, FrameFormat.scan_nil]
  rfl

/-- The log that is opened on an empty directory. -/
def freshLog (crc : Crc32c) (maxSegmentBytes startIndex activeWriterFeatureLevel : ℕ) : SegmentLog where
  maxSegmentBytes := max maxSegmentBytes (headerLen + 1)
  residentRecords := []
  sealedIndexes := ∅
  currentPath := startIndex
  currentLen := 0
  startIndex := startIndex
  firstIndex := none
  lastIndex := none
  checksums := Std.ExtTreeMap.insert ∅ startIndex (0, crc.append 0 [])
  isolated := false
  activeWriterFeatureLevel := activeWriterFeatureLevel

theorem open_fresh (crc : Crc32c) (maxSegmentBytes startIndex activeWriterFeatureLevel : ℕ) :
    openWithFeatureLevel Disk.empty crc maxSegmentBytes startIndex activeWriterFeatureLevel =
      .ok (freshLog crc maxSegmentBytes startIndex activeWriterFeatureLevel, [.create startIndex]) := by
  have hrepairs : repairs crc ⟨startIndex, [], 0⟩ = [] := by
    rw [repairs, scanSegment_nil]
    rfl
  have hscan : ∀ state, recoverScanned crc true state ⟨startIndex, [], 0⟩ =
      .ok { state with
        residentRecords := state.residentRecords ++ []
        checksums := state.checksums.insert startIndex (0, crc.append 0 []) } := by
    intro state
    rw [recoverScanned, scanSegment_nil]
    rfl
  have hfile : (Disk.file ((Disk.empty.apply (.create startIndex)).applyAll []) startIndex) =
      some ⟨startIndex, [], 0⟩ := by
    simp [Disk.file, Disk.apply, Disk.empty, Disk.applyAll]
  have hsegments : openSegments (Disk.empty.apply (.create startIndex)) crc maxSegmentBytes startIndex
      activeWriterFeatureLevel [] ⟨startIndex, [], 0⟩ =
        .ok (freshLog crc maxSegmentBytes startIndex activeWriterFeatureLevel, []) := by
    rw [openSegments, List.foldlM_nil]
    dsimp only [pure, Except.pure]
    rw [hscan, hrepairs]
    dsimp only
    rw [opened, hfile]
    rfl
  exact congrArg (Except.map _) hsegments

/-! ### Reading -/

/-- A record is read from where it was written. -/
theorem readRecord_eq (hcrc : crc.Chunked) {record : Record} (hfits : record.Fits) {file : SegmentFile}
    {path offset : ℕ} {rest : List UInt8} (hfile : disk.file path = some file)
    (hbytes : file.bytes.drop offset = record.bytes crc ++ rest) :
    readRecord crc disk ⟨record.header.index, path, offset, record.encodedLen⟩ = .ok record := by
  have hheader : (record.bytes crc ++ rest).take headerLen = record.header.bytes record.payload.length
      (crc.sum (record.header.fields record.payload.length ++ record.payload)) := by
    rw [Record.bytes, List.append_assoc]
    exact List.take_left' (RecordHeader.length_bytes _ _ _)
  have hpayload : ((record.bytes crc ++ rest).drop headerLen).take record.payload.length =
      record.payload := by
    rw [Record.bytes, List.append_assoc, List.drop_left' (RecordHeader.length_bytes _ _ _)]
    exact List.take_left
  have hfields : ∀ sum, slice (record.header.bytes record.payload.length sum) 0 44 =
      record.header.fields record.payload.length := fun _ => rfl
  have hsum : ∀ sum, slice (record.header.bytes record.payload.length sum) 44 48 =
      toBytes 4 sum.toNat := fun _ => rfl
  rw [readRecord]
  dsimp only
  rw [hfile]
  dsimp only
  rw [hbytes, hheader, RecordHeader.length_bytes, if_neg (lt_irrefl _),
    Record.payloadLen_bytes _ _ hfits.payload]
  dsimp only
  rw [if_neg (by rw [Record.encodedLen]; simp), RecordHeader.decode_bytes hfits.header]
  dsimp only
  rw [if_neg (by simp), hpayload,
    if_neg (lt_irrefl _), hfields, hsum, hcrc, ofBytes_toBytes_u32, if_neg (by simp)]

/-- The records of a segment are read one by one. -/
theorem mapM_readRecord (hcrc : crc.Chunked) {file : SegmentFile} {path : ℕ}
    (hfile : disk.file path = some file) {records : List Record} (hfits : ∀ r ∈ records, r.Fits)
    {offset : ℕ} (hbytes : file.bytes.drop offset = written (Record.bytes crc) records) :
    (locate path offset records).mapM (readRecord crc disk) = .ok records := by
  induction records generalizing offset with
  | nil => rfl
  | cons record records ih =>
    have hrest : file.bytes.drop (offset + record.encodedLen) = written (Record.bytes crc) records := by
      rw [← List.drop_drop, hbytes, written_cons]
      exact List.drop_left' (Record.length_bytes _ _)
    rw [locate, List.mapM_cons, readRecord_eq hcrc (hfits record List.mem_cons_self) hfile hbytes,
      ih (fun r hr => hfits r (List.mem_cons_of_mem _ hr)) hrest]
    rfl

variable {log : SegmentLog} {spec : RecordLog Record}

theorem Refines.readSegment (hcrc : crc.Chunked) (h : Refines crc log disk spec)
    {segment : Segment Record} (hsegment : segment ∈ spec.files.segments) :
    (locate segment.base 0 segment.records).mapM (readRecord crc disk) = .ok segment.records := by
  obtain ⟨file, hfile, hbytes⟩ := h.directory.file hsegment
  refine mapM_readRecord hcrc hfile (fun record hrecord => ?_) hbytes
  exact h.directory.fits record (mem_records.2 ⟨segment, hsegment, hrecord⟩)

/-- **Reading all** of a log returns its records in order. -/
theorem Refines.readAll (hcrc : crc.Chunked) (h : Refines crc log disk spec) :
    log.readAll disk crc = .ok spec.files.records := by
  have hlocations : disk.segmentPaths.mapM (log.locationsForSegment disk) =
      .ok (spec.files.segments.map fun segment => locate segment.base 0 segment.records) := by
    rw [h.directory.segmentPaths, ← List.map_singleton, ← List.map_append, List.mapM_map]
    exact mapM_ok fun segment hsegment => h.locationsForSegment hsegment
  have hsorted : (spec.files.segments.flatMap fun segment =>
      locate segment.base 0 segment.records).Pairwise fun a b => decide (a.index ≤ b.index) = true := by
    have hindexes : (spec.files.segments.flatMap fun segment =>
        locate segment.base 0 segment.records).map RecordLocation.index =
          spec.files.records.map index := by
      rw [records_eq_flatMap, List.map_flatMap, List.map_flatMap]
      exact List.flatMap_congr fun segment _ => map_index_locate _ _ _
    obtain ⟨first, hfirst⟩ := h.directory.wf.consecutive
    rw [Consecutive] at hfirst
    have hpairwise : ((spec.files.segments.flatMap fun segment =>
        locate segment.base 0 segment.records).map RecordLocation.index).Pairwise (· < ·) := by
      rw [hindexes, hfirst]
      exact List.pairwise_lt_range'
    rw [List.pairwise_map] at hpairwise
    exact hpairwise.imp fun hlt => decide_eq_true hlt.le
  rw [SegmentLog.readAll, allLocations, hlocations]
  dsimp only
  rw [← List.flatMap_def, List.mergeSort_of_pairwise hsorted, records_eq_flatMap]
  exact mapM_flatMap_ok fun segment hsegment => h.readSegment hcrc hsegment

end RustQueue.Storage
