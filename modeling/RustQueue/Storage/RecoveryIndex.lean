import RustQueue.Storage.Record

/-!
# The sidecar of a sealed segment

When a segment is sealed, the locations of its records and some bytes of the queue's own
metadata are stored in a file next to it, so that opening the log need not scan the segment.
The sidecar can always be rebuilt, and `loadSummary` and `loadLocations` check what they read.

* `loadSummary_store`: the header of a stored sidecar is read back, unless the file is too
  large for the reader;
* `loadLocations_store`: so are its locations, if they are those of a contiguous run of records.
-/

namespace RustQueue.Storage

open Lib

structure RecordLocation where
  index : ℕ
  segment : ℕ
  offset : ℕ
  encodedLen : ℕ
  deriving DecidableEq, Repr

structure RecoveryIndexSummary where
  segmentLen : ℕ
  segmentCrc32c : ℕ
  bodyCrc32c : ℕ
  locationCount : ℕ
  firstIndex : ℕ
  lastIndex : ℕ
  metadataOffset : ℕ
  metadataLen : ℕ
  deriving DecidableEq, Repr

namespace RecoveryIndex

/-- The magic `RQI7` and the version. -/
def indexMagic : List UInt8 := [0x52, 0x51, 0x49, 0x37, 2]

def indexHeaderLen : ℕ := 64
def locationLen : ℕ := 24
def maxIndexBytes : ℕ := 512 * 1024 * 1024

def encodeLocation (location : RecordLocation) : List UInt8 :=
  toBytes 8 location.index ++ (toBytes 8 location.offset ++ toBytes 8 location.encodedLen)

def firstIndexOf (locations : List RecordLocation) : ℕ :=
  locations.head?.elim 0 RecordLocation.index

def lastIndexOf (locations : List RecordLocation) : ℕ :=
  locations.getLast?.elim 0 RecordLocation.index

/-- The checksum of everything behind the header. -/
def bodyCrc (crc : Crc32c) (locations : List RecordLocation) (metadata : List UInt8) : UInt32 :=
  crc.append (locations.foldl (fun sum location =>
    crc.append (crc.append (crc.append sum (toBytes 8 location.index)) (toBytes 8 location.offset))
      (toBytes 8 location.encodedLen)) 0) metadata

variable (summary : RecoveryIndexSummary)

/-- The first 56 bytes of a sidecar, with the fields as they are. -/
def headerFields (bodyLen : ℕ) : List UInt8 :=
  indexMagic ++ (0 :: 0 :: 0 :: (toBytes 8 summary.segmentLen ++ (toBytes 4 summary.segmentCrc32c ++
    (toBytes 4 summary.locationCount ++ (toBytes 4 summary.metadataLen ++
      (toBytes 4 summary.bodyCrc32c ++ (toBytes 8 summary.firstIndex ++
        (toBytes 8 summary.lastIndex ++ toBytes 8 bodyLen))))))))

/-- The header with its own checksum, padded to 64 bytes. -/
def header (crc : Crc32c) (summary : RecoveryIndexSummary) (bodyLen : ℕ) : List UInt8 :=
  headerFields summary bodyLen ++
    (toBytes 4 (crc.sum (headerFields summary bodyLen)).toNat ++ [0, 0, 0, 0])

/-- What a sidecar for these locations says of itself. -/
def summaryOf (crc : Crc32c) (segmentLen : ℕ) (segmentCrc32c : UInt32)
    (locations : List RecordLocation) (metadata : List UInt8) : RecoveryIndexSummary where
  segmentLen := segmentLen
  segmentCrc32c := segmentCrc32c.toNat
  bodyCrc32c := (bodyCrc crc locations metadata).toNat
  locationCount := locations.length
  firstIndex := firstIndexOf locations
  lastIndex := lastIndexOf locations
  metadataOffset := indexHeaderLen + locations.length * locationLen
  metadataLen := metadata.length

def body (locations : List RecordLocation) (metadata : List UInt8) : List UInt8 :=
  (locations.map encodeLocation).flatten ++ metadata

/-- The bytes of the sidecar that `store` renames into place. -/
def store (crc : Crc32c) (segmentLen : ℕ) (segmentCrc32c : UInt32)
    (locations : List RecordLocation) (metadata : List UInt8) : Except StorageError (List UInt8) :=
  if 2 ^ 32 ≤ locations.length then .error (.io "too many recovery index locations")
  else if 2 ^ 32 ≤ metadata.length then .error (.io "recovery index metadata is too large")
  else
    .ok (header crc (summaryOf crc segmentLen segmentCrc32c locations metadata)
      (locations.length * locationLen + metadata.length) ++ body locations metadata)

def loadSummary (crc : Crc32c) (file : Option (List UInt8)) :
    Except StorageError (Option RecoveryIndexSummary) :=
  match file with
  | none => .ok none
  | some bytes =>
    if ¬(indexHeaderLen ≤ bytes.length ∧ bytes.length ≤ maxIndexBytes) then
      .error (.io "recovery index size is invalid")
    else
      let header := bytes.take indexHeaderLen
      if slice header 0 5 ≠ indexMagic then .error (.io "invalid recovery index header")
      else if (crc.sum (slice header 0 56)).toNat ≠ ofBytes (slice header 56 60) then
        .error (.io "recovery index header checksum mismatch")
      else
        let locationCount := ofBytes (slice header 20 24)
        let metadataLen := ofBytes (slice header 24 28)
        let firstIndex := ofBytes (slice header 32 40)
        let lastIndex := ofBytes (slice header 40 48)
        let metadataOffset := indexHeaderLen + locationCount * locationLen
        if metadataOffset + metadataLen ≠ bytes.length then
          .error (.io "recovery index length mismatch")
        else if ofBytes (slice header 48 56) ≠ bytes.length - indexHeaderLen ∨
            (locationCount = 0 ∧ (firstIndex ≠ 0 ∨ lastIndex ≠ 0)) ∨
            (0 < locationCount ∧ lastIndex ≠ satAdd u64Max firstIndex (locationCount - 1)) then
          .error (.io "recovery index range is invalid")
        else
          .ok (some
            { segmentLen := ofBytes (slice header 8 16)
              segmentCrc32c := ofBytes (slice header 16 20)
              bodyCrc32c := ofBytes (slice header 28 32)
              locationCount := locationCount
              firstIndex := firstIndex
              lastIndex := lastIndex
              metadataOffset := metadataOffset
              metadataLen := metadataLen })

/-- The next `count` locations, `ordinal` of them having been read. -/
def readLocations (segment : ℕ) (summary : RecoveryIndexSummary) :
    ℕ → ℕ → List UInt8 → Except StorageError (List RecordLocation)
  | 0, _, _ => .ok []
  | count + 1, ordinal, bytes =>
    if bytes.length < locationLen then .error (.io "failed to fill whole buffer")
    else
      let index := ofBytes (slice bytes 0 8)
      let offset := ofBytes (slice bytes 8 16)
      let encodedLen := ofBytes (slice bytes 16 24)
      if index ≠ summary.firstIndex + ordinal ∨ encodedLen = 0 ∨
          summary.segmentLen < offset + encodedLen then
        .error (.io "recovery index location is invalid")
      else
        match readLocations segment summary count (ordinal + 1) (bytes.drop locationLen) with
        | .error e => .error e
        | .ok locations =>
          .ok ({ index := index, segment := segment, offset := offset,
                 encodedLen := encodedLen } :: locations)

def loadLocations (segment : ℕ) (summary : RecoveryIndexSummary) (file : Option (List UInt8)) :
    Except StorageError (List RecordLocation) :=
  match file with
  | none => .error (.io "No such file or directory")
  | some bytes => readLocations segment summary summary.locationCount 0 (bytes.drop indexHeaderLen)

/-! ### Reading a stored sidecar back -/

/-- The location of the record with the given index, within a segment of the given length. -/
structure LocationOf (segment segmentLen index : ℕ) (location : RecordLocation) : Prop where
  segment : location.segment = segment
  index : location.index = index
  word : IsU64 location.index
  len : 0 < location.encodedLen
  within : location.offset + location.encodedLen ≤ segmentLen

/-- Locations of consecutive records from index `first` on. -/
structure Located (segment segmentLen first : ℕ) (locations : List RecordLocation) : Prop where
  word : IsU64 segmentLen
  entry : ∀ i location, locations[i]? = some location →
    LocationOf segment segmentLen (first + i) location

variable {crc : Crc32c} {segment segmentLen first : ℕ} {locations : List RecordLocation}
  {location : RecordLocation} {metadata : List UInt8}

theorem Located.tail (h : Located segment segmentLen first (location :: locations)) :
    Located segment segmentLen (first + 1) locations where
  word := h.word
  entry i l hl := by
    rw [Nat.add_assoc, Nat.add_comm 1]
    exact h.entry (i + 1) l hl

@[simp] theorem length_encodeLocation (location : RecordLocation) :
    (encodeLocation location).length = locationLen := by
  simp [encodeLocation, locationLen]

theorem readLocations_encode (h : Located segment summary.segmentLen first locations) (ordinal : ℕ)
    (hfirst : first = summary.firstIndex + ordinal) (rest : List UInt8) :
    readLocations segment summary locations.length ordinal
      ((locations.map encodeLocation).flatten ++ rest) = .ok locations := by
  induction locations generalizing first ordinal with
  | nil => rfl
  | cons location locations ih =>
    obtain ⟨hsegment, hindex, hword, hlen, hwithin⟩ := h.entry 0 location rfl
    have hmax := h.word
    have hoffsetWord : IsU64 location.offset := by
      unfold IsU64 at *
      omega
    have hlenWord : IsU64 location.encodedLen := by
      unfold IsU64 at *
      omega
    rw [List.map_cons, List.flatten_cons, List.append_assoc, List.length_cons, readLocations]
    set tail := (locations.map encodeLocation).flatten ++ rest
    have hlong : ¬(encodeLocation location ++ tail).length < locationLen := by
      rw [List.length_append, length_encodeLocation]
      omega
    have hslice0 : slice (encodeLocation location ++ tail) 0 8 = toBytes 8 location.index := rfl
    have hslice1 : slice (encodeLocation location ++ tail) 8 16 = toBytes 8 location.offset := rfl
    have hslice2 : slice (encodeLocation location ++ tail) 16 24 =
        toBytes 8 location.encodedLen := rfl
    have hdrop : (encodeLocation location ++ tail).drop locationLen = tail :=
      List.drop_left' (length_encodeLocation location)
    rw [if_neg hlong, hslice0, hslice1, hslice2, hdrop, ofBytes_toBytes_u64 hword,
      ofBytes_toBytes_u64 hoffsetWord, ofBytes_toBytes_u64 hlenWord]
    dsimp only
    rw [if_neg (by omega), ih h.tail (ordinal + 1) (by omega), ← hsegment]

theorem Located.lastIndexOf (h : Located segment segmentLen first locations)
    (hpos : 0 < locations.length) :
    firstIndexOf locations = first ∧ RecoveryIndex.lastIndexOf locations = first + (locations.length - 1) ∧
      first + (locations.length - 1) ≤ u64Max := by
  obtain ⟨head, hhead⟩ : ∃ head, locations[0]? = some head :=
    ⟨_, List.getElem?_eq_getElem hpos⟩
  obtain ⟨last, hlast⟩ : ∃ last, locations[locations.length - 1]? = some last :=
    ⟨_, List.getElem?_eq_getElem (Nat.sub_lt hpos Nat.one_pos)⟩
  have hword := (h.entry _ _ hlast).word
  rw [(h.entry _ _ hlast).index] at hword
  refine ⟨?_, ?_, hword⟩
  · rw [firstIndexOf, List.head?_eq_getElem?, hhead]
    exact (h.entry _ _ hhead).index
  · rw [RecoveryIndex.lastIndexOf, List.getLast?_eq_getElem?, hlast]
    exact (h.entry _ _ hlast).index

theorem length_header (bodyLen : ℕ) : (header crc summary bodyLen).length = indexHeaderLen := by
  simp [header, headerFields, indexMagic, indexHeaderLen]

theorem length_body : (body locations metadata).length =
    locations.length * locationLen + metadata.length := by
  have hlengths : (locations.map encodeLocation).map List.length =
      List.replicate locations.length locationLen := by
    rw [List.map_map, List.eq_replicate_iff]
    simp
  rw [body, List.length_append, List.length_flatten, hlengths, List.sum_replicate, smul_eq_mul]

/-- What `store` writes, and when. -/
theorem store_eq_ok {segmentCrc32c : UInt32} {bytes : List UInt8}
    (h : store crc segmentLen segmentCrc32c locations metadata = .ok bytes) :
    locations.length < 2 ^ 32 ∧ metadata.length < 2 ^ 32 ∧
      bytes = header crc (summaryOf crc segmentLen segmentCrc32c locations metadata)
        (locations.length * locationLen + metadata.length) ++ body locations metadata := by
  unfold store at h
  split_ifs at h with hcount hmetadata
  injection h with h
  exact ⟨not_le.1 hcount, not_le.1 hmetadata, h.symm⟩

theorem header_slices (crc : Crc32c) (summary : RecoveryIndexSummary) (bodyLen : ℕ) (rest : List UInt8) :
    let head := (header crc summary bodyLen ++ rest).take indexHeaderLen
    slice head 0 5 = indexMagic ∧ slice head 0 56 = headerFields summary bodyLen ∧
      slice head 56 60 = toBytes 4 (crc.sum (headerFields summary bodyLen)).toNat ∧
      slice head 8 16 = toBytes 8 summary.segmentLen ∧
      slice head 16 20 = toBytes 4 summary.segmentCrc32c ∧
      slice head 20 24 = toBytes 4 summary.locationCount ∧
      slice head 24 28 = toBytes 4 summary.metadataLen ∧
      slice head 28 32 = toBytes 4 summary.bodyCrc32c ∧
      slice head 32 40 = toBytes 8 summary.firstIndex ∧
      slice head 40 48 = toBytes 8 summary.lastIndex ∧ slice head 48 56 = toBytes 8 bodyLen :=
  ⟨rfl, rfl, rfl, rfl, rfl, rfl, rfl, rfl, rfl, rfl, rfl⟩

/-- A summary that a sidecar with `bodyLen` bytes behind its header can carry. -/
structure Fits (summary : RecoveryIndexSummary) (bodyLen : ℕ) : Prop where
  segmentLen : IsU64 summary.segmentLen
  segmentCrc32c : summary.segmentCrc32c < 256 ^ 4
  bodyCrc32c : summary.bodyCrc32c < 256 ^ 4
  locationCount : summary.locationCount < 256 ^ 4
  metadataLen : summary.metadataLen < 256 ^ 4
  firstIndex : IsU64 summary.firstIndex
  lastIndex : IsU64 summary.lastIndex
  metadataOffset : summary.metadataOffset = indexHeaderLen + summary.locationCount * locationLen
  bodyLen : summary.metadataOffset + summary.metadataLen = indexHeaderLen + bodyLen
  none : summary.locationCount = 0 → summary.firstIndex = 0 ∧ summary.lastIndex = 0
  some : 0 < summary.locationCount →
    summary.lastIndex = satAdd u64Max summary.firstIndex (summary.locationCount - 1)

theorem loadSummary_header (crc : Crc32c) {summary : RecoveryIndexSummary} {rest : List UInt8}
    (h : Fits summary rest.length) :
    loadSummary crc (some (header crc summary rest.length ++ rest)) =
      if indexHeaderLen + rest.length ≤ maxIndexBytes then .ok (some summary)
      else .error (.io "recovery index size is invalid") := by
  obtain ⟨hmagic, hfields, hsum, hsegmentLen, hcrc, hcount, hmetadata, hbodyCrc, hfirst, hlast,
    hbodyLen⟩ := header_slices crc summary rest.length rest
  have hword : IsU64 rest.length := by
    have hcount := h.locationCount
    have hmetadata := h.metadataLen
    have hlen := h.bodyLen
    rw [h.metadataOffset] at hlen
    unfold IsU64 u64Max
    unfold locationLen at hlen
    omega
  have hlength : (header crc summary rest.length ++ rest).length = indexHeaderLen + rest.length := by
    rw [List.length_append, length_header]
  have hnone := h.none
  have hsome := h.some
  rw [loadSummary]
  dsimp only
  rw [hlength, hmagic, hfields, hsum, hsegmentLen, hcrc, hcount, hmetadata, hbodyCrc, hfirst, hlast,
    hbodyLen, ofBytes_toBytes_u32, ofBytes_toBytes_u64 h.segmentLen,
    ofBytes_toBytes_of_lt h.segmentCrc32c, ofBytes_toBytes_of_lt h.bodyCrc32c,
    ofBytes_toBytes_of_lt h.locationCount, ofBytes_toBytes_of_lt h.metadataLen,
    ofBytes_toBytes_u64 h.firstIndex, ofBytes_toBytes_u64 h.lastIndex, ofBytes_toBytes_u64 hword,
    ← h.metadataOffset, h.bodyLen]
  by_cases hsize : indexHeaderLen + rest.length ≤ maxIndexBytes
  · rw [if_neg (by simp [hsize]), if_neg (by simp), if_neg (by simp), if_neg (by simp),
      if_neg (by simp; tauto), if_pos hsize]
  · rw [if_pos (by simp [hsize]), if_neg hsize]

/-- The summary of consecutive locations fits its sidecar. -/
theorem Located.fits (crc : Crc32c) (segmentCrc32c : UInt32) (h : Located segment segmentLen first locations)
    (hcount : locations.length < 2 ^ 32) (hmetadata : metadata.length < 2 ^ 32) :
    Fits (summaryOf crc segmentLen segmentCrc32c locations metadata)
      (body locations metadata).length where
  segmentLen := h.word
  segmentCrc32c := segmentCrc32c.toNat_lt
  bodyCrc32c := (bodyCrc crc locations metadata).toNat_lt
  locationCount := hcount
  metadataLen := hmetadata
  firstIndex := by
    rcases Nat.eq_zero_or_pos locations.length with hzero | hpos
    · rw [List.length_eq_zero_iff.1 hzero]
      exact Nat.zero_le _
    · obtain ⟨hfirst, -, hmax⟩ := h.lastIndexOf hpos
      show firstIndexOf locations ≤ u64Max
      omega
  lastIndex := by
    rcases Nat.eq_zero_or_pos locations.length with hzero | hpos
    · rw [List.length_eq_zero_iff.1 hzero]
      exact Nat.zero_le _
    · obtain ⟨-, hlast, hmax⟩ := h.lastIndexOf hpos
      show RecoveryIndex.lastIndexOf locations ≤ u64Max
      omega
  metadataOffset := rfl
  bodyLen := by
    rw [length_body]
    exact Nat.add_assoc _ _ _
  none hzero := by
    rw [List.length_eq_zero_iff.1 hzero]
    exact ⟨rfl, rfl⟩
  some hpos := by
    obtain ⟨hfirst, hlast, hmax⟩ := h.lastIndexOf hpos
    show RecoveryIndex.lastIndexOf locations =
      satAdd u64Max (firstIndexOf locations) (locations.length - 1)
    rw [hfirst, hlast, satAdd_eq hmax]

/-- **The header of a stored sidecar** is read back, unless the file has become too large. -/
theorem loadSummary_store {segmentCrc32c : UInt32} {bytes : List UInt8}
    (hlocated : Located segment segmentLen first locations)
    (h : store crc segmentLen segmentCrc32c locations metadata = .ok bytes) :
    loadSummary crc (some bytes) =
      if bytes.length ≤ maxIndexBytes then
        .ok (some (summaryOf crc segmentLen segmentCrc32c locations metadata))
      else .error (.io "recovery index size is invalid") := by
  obtain ⟨hcount, hmetadata, hbytes⟩ := store_eq_ok h
  have hload := loadSummary_header crc (hlocated.fits crc segmentCrc32c hcount hmetadata)
  rw [hbytes, ← length_body, hload, List.length_append, length_header]

/-- **The locations of a stored sidecar** are read back, with any summary that agrees on them. -/
theorem loadLocations_store {segmentCrc32c : UInt32} {bytes : List UInt8}
    (hlocated : Located segment segmentLen first locations)
    (h : store crc segmentLen segmentCrc32c locations metadata = .ok bytes)
    {summary : RecoveryIndexSummary} (hlen : summary.segmentLen = segmentLen)
    (hcount : summary.locationCount = locations.length)
    (hfirst : summary.firstIndex = firstIndexOf locations) :
    loadLocations segment summary (some bytes) = .ok locations := by
  obtain ⟨-, -, hbytes⟩ := store_eq_ok h
  have hdrop : bytes.drop indexHeaderLen = body locations metadata := by
    rw [hbytes]
    exact List.drop_left' (length_header _ _)
  rw [loadLocations, hdrop, hcount]
  rcases Nat.eq_zero_or_pos locations.length with hzero | hpos
  · rw [List.length_eq_zero_iff.1 hzero]
    rfl
  · rw [← hlen] at hlocated
    refine readLocations_encode summary hlocated 0 ?_ metadata
    rw [hfirst, (hlocated.lastIndexOf hpos).1, Nat.add_zero]

end RecoveryIndex

end RustQueue.Storage
