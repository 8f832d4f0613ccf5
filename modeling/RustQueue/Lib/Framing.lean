import Mathlib.Tactic

/-!
# Files of framed records

A file is a sequence of frames, each a header of fixed length followed by a body whose
length the header gives.  `scan` reads frames from the front until the bytes run out and
says where it stopped; a frame that is cut short is either the end of the scan or an error,
as the format decides.

A `Writer` makes frames that the format reads back, up to a number of them.  The main result is
`scan_take`: a scan of any part of a `written` file, cut at any byte, returns exactly the
records whose frames lie in that part as a whole, and stops behind the last of them.  Where
there are more of them than the format reads, `scan_take_over` says how the scan fails.
-/

namespace RustQueue.Lib

variable {α ε : Type*}

/-- How the frames of a file are read.  Every reader is told the offset of the frame, and
the last one also how many frames came before. -/
structure FrameFormat (α ε : Type*) where
  headerLen : ℕ
  headerLen_pos : 0 < headerLen
  bodyLen : ℕ → List UInt8 → Except ε ℕ
  decode : ℕ → ℕ → List UInt8 → List UInt8 → Except ε α
  tornHeader : ℕ → Except ε Unit
  tornBody : ℕ → Except ε Unit

namespace FrameFormat

/-- The records from the front of the bytes and the offset behind the last one. -/
def scan (F : FrameFormat α ε) (offset ordinal : ℕ) (bytes : List UInt8) :
    Except ε (List α × ℕ) :=
  if bytes.length = 0 then .ok ([], offset)
  else if bytes.length < F.headerLen then
    (F.tornHeader offset).map fun _ => ([], offset)
  else
    match F.bodyLen offset (bytes.take F.headerLen) with
    | .error e => .error e
    | .ok len =>
      if bytes.length < F.headerLen + len then (F.tornBody offset).map fun _ => ([], offset)
      else
        match F.decode offset ordinal (bytes.take F.headerLen)
            ((bytes.drop F.headerLen).take len) with
        | .error e => .error e
        | .ok record =>
          match scan F (offset + (F.headerLen + len)) (ordinal + 1)
              (bytes.drop (F.headerLen + len)) with
          | .error e => .error e
          | .ok (records, stop) => .ok (record :: records, stop)
termination_by bytes.length
decreasing_by
  have := F.headerLen_pos
  rw [List.length_drop]
  omega

/-- The header of some bytes gives their length. -/
structure Headed (F : FrameFormat α ε) (offset : ℕ) (bytes : List UInt8) : Prop where
  long : F.headerLen ≤ bytes.length
  bodyLen : F.bodyLen offset (bytes.take F.headerLen) = .ok (bytes.length - F.headerLen)

/-- The bytes are one frame that reads as the record. -/
structure Frame (F : FrameFormat α ε) (offset ordinal : ℕ) (record : α) (bytes : List UInt8) : Prop
    extends F.Headed offset bytes where
  decode : F.decode offset ordinal (bytes.take F.headerLen) (bytes.drop F.headerLen) = .ok record

/-- A writer whose frames the format reads back, as long as there are fewer than `limit`
and the records are `fit`. -/
structure Writer (F : FrameFormat α ε) (fit : α → Prop) (limit : ℕ) where
  encode : α → List UInt8
  headed : ∀ offset {record}, fit record → F.Headed offset (encode record)
  frame : ∀ offset {ordinal record}, fit record → ordinal < limit →
    F.Frame offset ordinal record (encode record)

/-- The file a writer leaves. -/
def written (encode : α → List UInt8) (records : List α) : List UInt8 :=
  (records.map encode).flatten

variable {encode : α → List UInt8} {record : α} {records : List α}

@[simp] theorem written_nil : written encode [] = [] := rfl

@[simp] theorem written_cons : written encode (record :: records) = encode record ++ written encode records :=
  rfl

theorem written_append (records more : List α) :
    written encode (records ++ more) = written encode records ++ written encode more := by
  rw [written, List.map_append, List.flatten_append]
  rfl

/-- How many frames lie within the first `n` bytes. -/
def framesWithin (encode : α → List UInt8) : List α → ℕ → ℕ
  | [], _ => 0
  | record :: records, n =>
    if (encode record).length ≤ n then
      framesWithin encode records (n - (encode record).length) + 1
    else 0

/-- A part that contains the frames of some records counts all of them. -/
theorem le_framesWithin {more : List α} {n : ℕ} (h : (written encode records).length ≤ n) :
    records.length ≤ framesWithin encode (records ++ more) n := by
  induction records generalizing n with
  | nil => exact Nat.zero_le _
  | cons record records ih =>
    rw [written_cons, List.length_append] at h
    rw [List.cons_append, framesWithin, if_pos (by omega), List.length_cons]
    exact Nat.succ_le_succ (ih (by omega))

theorem framesWithin_le (encode : α → List UInt8) (records : List α) (n : ℕ) :
    framesWithin encode records n ≤ records.length := by
  induction records generalizing n with
  | nil => exact le_rfl
  | cons record records ih =>
    rw [framesWithin]
    split_ifs with hwhole
    · exact Nat.succ_le_succ (ih _)
    · exact Nat.zero_le _

/-- The frames that lie within a part take no more room than it has. -/
theorem length_written_framesWithin_le (encode : α → List UInt8) (records : List α) (n : ℕ) :
    (written encode (records.take (framesWithin encode records n))).length ≤ n := by
  induction records generalizing n with
  | nil => exact Nat.zero_le _
  | cons record records ih =>
    rw [framesWithin]
    split_ifs with hwhole
    · have hrest := ih (n - (encode record).length)
      rw [List.take_succ_cons, written_cons, List.length_append]
      omega
    · exact Nat.zero_le _

/-- A written file starts with the frames of its first records. -/
theorem take_length_written_take (encode : α → List UInt8) (records : List α) (count : ℕ) :
    (written encode records).take (written encode (records.take count)).length =
      written encode (records.take count) := by
  have hsplit : written encode (records.take count ++ records.drop count) = _ := written_append _ _
  rw [List.take_append_drop] at hsplit
  rw [hsplit]
  exact List.take_left

/-! ### Scanning what was written -/

variable {F : FrameFormat α ε} {fit : α → Prop} {limit : ℕ}

theorem scan_nil (offset ordinal : ℕ) : F.scan offset ordinal [] = .ok ([], offset) := by
  rw [scan]
  simp

/-- A frame that is cut short ends the scan. -/
theorem scan_torn {bytes : List UInt8} {offset ordinal n : ℕ} (hheaded : F.Headed offset bytes)
    (hheader : F.tornHeader offset = .ok ()) (hbody : F.tornBody offset = .ok ())
    (hn : n < bytes.length) : F.scan offset ordinal (bytes.take n) = .ok ([], offset) := by
  have hlength : (bytes.take n).length = n := by
    rw [List.length_take]
    omega
  rw [scan, hlength]
  split_ifs with hzero hshort
  · rfl
  · rw [hheader]
    rfl
  · have htake : (bytes.take n).take F.headerLen = bytes.take F.headerLen := by
      rw [List.take_take, min_eq_left (by omega)]
    have hlong := hheaded.long
    rw [htake, hheaded.bodyLen]
    dsimp only
    rw [if_pos (by omega), hbody]
    rfl

/-- A frame that is there as a whole is decoded. -/
theorem scan_headed {bytes rest : List UInt8} {offset : ℕ} (hheaded : F.Headed offset bytes) (ordinal : ℕ) :
    F.scan offset ordinal (bytes ++ rest) =
      match F.decode offset ordinal (bytes.take F.headerLen) (bytes.drop F.headerLen) with
      | .error e => .error e
      | .ok record =>
        match F.scan (offset + bytes.length) (ordinal + 1) rest with
        | .error e => .error e
        | .ok (records, stop) => .ok (record :: records, stop) := by
  have hlong := hheaded.long
  have hpos := F.headerLen_pos
  have hbody : F.headerLen + (bytes.length - F.headerLen) = bytes.length := by omega
  rw [scan, if_neg (by rw [List.length_append]; omega),
    if_neg (by rw [List.length_append]; omega), List.take_append_of_le_length hlong,
    hheaded.bodyLen]
  dsimp only
  rw [if_neg (by rw [List.length_append]; omega), hbody, List.drop_append_of_le_length hlong,
    List.take_left' (by rw [List.length_drop]), List.drop_left]

/-- A whole frame is read, and the scan goes on behind it. -/
theorem scan_frame {bytes rest : List UInt8} {offset ordinal : ℕ} (hframe : F.Frame offset ordinal record bytes) :
    F.scan offset ordinal (bytes ++ rest) =
      match F.scan (offset + bytes.length) (ordinal + 1) rest with
      | .error e => .error e
      | .ok (records, stop) => .ok (record :: records, stop) := by
  rw [scan_headed hframe.toHeaded, hframe.decode]

/-- **A scan of a cut file** returns the records whose frames were kept as a whole. -/
theorem scan_take (W : F.Writer fit limit) (hheader : ∀ o, F.tornHeader o = .ok ())
    (hbody : ∀ o, F.tornBody o = .ok ()) (records : List α) (hfit : ∀ r ∈ records, fit r)
    (offset ordinal n : ℕ) (hlimit : ordinal + framesWithin W.encode records n ≤ limit) :
    F.scan offset ordinal ((written W.encode records).take n) =
      .ok (records.take (framesWithin W.encode records n),
        offset + (written W.encode (records.take (framesWithin W.encode records n))).length) := by
  induction records generalizing offset ordinal n with
  | nil => simp [written, scan_nil, framesWithin]
  | cons record records ih =>
    have hrecord := hfit record List.mem_cons_self
    rw [framesWithin] at hlimit
    rw [written_cons, framesWithin]
    split_ifs at hlimit ⊢ with hwhole
    · rw [List.take_append, List.take_of_length_le hwhole,
        scan_frame (W.frame offset hrecord (by omega)),
        ih (fun r hr => hfit r (List.mem_cons_of_mem _ hr)) _ _ _ (by omega)]
      simp only [List.take_succ_cons, written_cons, List.length_append, Nat.add_assoc]
    · rw [List.take_append_of_le_length (by omega), scan_torn (W.headed offset hrecord)
        (hheader offset) (hbody offset) (not_le.1 hwhole)]
      simp

/-- **A scan of more records than the format reads** fails at the first one too many. -/
theorem scan_take_over (W : F.Writer fit limit) {e : ε}
    (hover : ∀ offset {record}, fit record → F.decode offset limit ((W.encode record).take F.headerLen)
      ((W.encode record).drop F.headerLen) = .error e)
    (records : List α) (hfit : ∀ r ∈ records, fit r) (offset ordinal n : ℕ) (hordinal : ordinal ≤ limit)
    (hlimit : limit < ordinal + framesWithin W.encode records n) :
    F.scan offset ordinal ((written W.encode records).take n) = .error e := by
  induction records generalizing offset ordinal n with
  | nil =>
    rw [framesWithin] at hlimit
    omega
  | cons record records ih =>
    have hrecord := hfit record List.mem_cons_self
    rw [framesWithin] at hlimit
    split_ifs at hlimit with hwhole
    · rw [written_cons, List.take_append, List.take_of_length_le hwhole]
      obtain rfl | hless := hordinal.eq_or_lt
      · rw [scan_headed (W.headed offset hrecord), hover offset hrecord]
      · rw [scan_frame (W.frame offset hrecord hless),
          ih (fun r hr => hfit r (List.mem_cons_of_mem _ hr)) _ _ _ hless (by omega)]
    · omega

/-- A whole file reads back as it was written, whatever the format says of torn frames. -/
theorem scan_written (W : F.Writer fit limit) (records : List α) (hfit : ∀ r ∈ records, fit r)
    (offset ordinal : ℕ) (hlimit : ordinal + records.length ≤ limit) :
    F.scan offset ordinal (written W.encode records) =
      .ok (records, offset + (written W.encode records).length) := by
  induction records generalizing offset ordinal with
  | nil => simp [written, scan_nil]
  | cons record records ih =>
    rw [List.length_cons] at hlimit
    have hframe := W.frame offset (hfit record List.mem_cons_self)
      (show ordinal < limit by omega)
    rw [written_cons, scan_frame hframe,
      ih (fun r hr => hfit r (List.mem_cons_of_mem _ hr)) _ _ (by omega)]
    simp only [List.length_append, Nat.add_assoc]

end FrameFormat

end RustQueue.Lib
