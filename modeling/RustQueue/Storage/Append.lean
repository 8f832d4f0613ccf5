import RustQueue.Storage.Record

/-!
# Writing the parts of a record

A record reaches its segment as a header and the parts of a payload, which are written with vectored writes of at
most 128 slices each.  A write may take only some of the bytes that it is offered, in the middle of a part or beyond
several parts, and it may be interrupted; `turn` is one round of the loop, with the place at which the bytes
go on as an index of a part and an offset in it.

Proved of every writer that keeps to the contract of a write (`VectoredWriter`):

* `advance_between`: after a write of `n` bytes the cursor stands exactly `n` bytes further;
* `writing_kept`, the invariant of the loop: the writer has received the bytes before the cursor, and no index was
  out of bounds;
* `write_parts_exact`: all bytes are written once the writer accepts often enough, and a failure leaves a part of
  them from the start;
* `returned_record`: what a successful call adds to a segment is the record of `Storage.Record`.
-/

namespace RustQueue.Storage.Vectored

/-- The kinds of error that the loop tells apart. -/
inductive WriteErrorKind where
  | interrupted
  | writeZero
  | other
  deriving DecidableEq, Repr

structure WriteError where
  kind : WriteErrorKind
  message : String
  deriving DecidableEq, Repr

/-- A writer, with the contract of a vectored write.  A call that fails may leave bytes behind, unless it was
interrupted. -/
structure VectoredWriter (σ : Type*) where
  received : σ → List UInt8
  writeVectored : List (List UInt8) → σ → Except WriteError ℕ × σ
  accepted : ∀ vectors s n, (writeVectored vectors s).1 = .ok n → n ≤ vectors.flatten.length ∧
    received (writeVectored vectors s).2 = received s ++ vectors.flatten.take n
  interrupted : ∀ vectors s e, (writeVectored vectors s).1 = .error e → e.kind = .interrupted →
    received (writeVectored vectors s).2 = received s
  failed : ∀ vectors s e, (writeVectored vectors s).1 = .error e →
    ∃ n, received (writeVectored vectors s).2 = received s ++ vectors.flatten.take n

/-- `part_index` and `part_offset`. -/
structure PartCursor where
  partIndex : ℕ
  partOffset : ℕ
  deriving DecidableEq, Repr

def maxVectors : ℕ := 128

/-- The slices of one write; none where an index is out of bounds. -/
def vectors (parts : List (List UInt8)) (cursor : PartCursor) : Option (List (List UInt8)) :=
  match parts[cursor.partIndex]? with
  | none => none
  | some part =>
    if part.length < cursor.partOffset then none
    else
      some (part.drop cursor.partOffset ::
        (parts.drop (cursor.partIndex + 1)).take (maxVectors - 1))

/-- The cursor after a write of `remaining` bytes; none where an index is out of bounds. -/
def advance (parts : List (List UInt8)) (remaining : ℕ) (cursor : PartCursor) : Option PartCursor :=
  if remaining = 0 then some cursor
  else
    match hpart : parts[cursor.partIndex]? with
    | none => none
    | some part =>
      -- The subtraction of the source would overflow.
      if part.length < cursor.partOffset then none
      else
        let available := part.length - cursor.partOffset
        if remaining < available then some ⟨cursor.partIndex, cursor.partOffset + remaining⟩
        else advance parts (remaining - available) ⟨cursor.partIndex + 1, 0⟩
termination_by parts.length - cursor.partIndex
decreasing_by
  have := (List.getElem?_eq_some_iff.1 hpart).1
  show parts.length - (cursor.partIndex + 1) < parts.length - cursor.partIndex
  omega

/-- The loop of `write_parts`: on its way, returned, or stopped by an index out of bounds. -/
inductive Writing (σ : Type*) where
  | running (writer : σ) (cursor : PartCursor)
  | returned (result : Except WriteError Unit) (writer : σ)
  | panicked

variable {σ : Type*} (w : VectoredWriter σ) (parts : List (List UInt8))

def turn (s : σ) (cursor : PartCursor) : Writing σ :=
  if cursor.partIndex < parts.length then
    match vectors parts cursor with
    | none => .panicked
    | some offered =>
      let call := w.writeVectored offered s
      match call.1 with
      | .error e => if e.kind = .interrupted then .running call.2 cursor else .returned (.error e) call.2
      | .ok written =>
        if written = 0 then .returned (.error ⟨.writeZero, "failed to write record parts"⟩) call.2
        else
          match advance parts written cursor with
          | none => .panicked
          | some cursor' => .running call.2 cursor'
  else .returned (.ok ()) s

/-- The loop after a number of turns. -/
def writing (s : σ) : ℕ → Writing σ
  | 0 => .running s ⟨0, 0⟩
  | turns + 1 =>
    match writing s turns with
    | .running s' cursor => turn w parts s' cursor
    | ended => ended

/-- The parts that are not empty, with the header in front. -/
def recordParts (header : List UInt8) (payload : List (List UInt8)) : List (List UInt8) :=
  (header :: payload).filter fun part => !part.isEmpty

def writeParts (header : List UInt8) (payload : List (List UInt8)) (s : σ) (turns : ℕ) : Writing σ :=
  writing w (recordParts header payload) s turns

theorem flatten_recordParts (header : List UInt8) (payload : List (List UInt8)) :
    (recordParts header payload).flatten = header ++ payload.flatten := by
  rw [recordParts, List.flatten_filter_not_isEmpty, List.flatten_cons]

theorem ne_nil_of_mem_recordParts {header part : List UInt8} {payload : List (List UInt8)}
    (h : part ∈ recordParts header payload) : part ≠ [] := by
  intro hnil
  subst hnil
  simp [recordParts] at h

/-! ### The cursor -/

variable {parts} {cursor : PartCursor} {sent unsent : List UInt8}

/-- The cursor stands between the bytes that were sent and those that were not. -/
inductive Between (parts : List (List UInt8)) : PartCursor → List UInt8 → List UInt8 → Prop
  | inside {done : List (List UInt8)} {part : List UInt8} {rest : List (List UInt8)} {offset : ℕ}
      (hparts : parts = done ++ part :: rest) (hoffset : offset < part.length) :
      Between parts ⟨done.length, offset⟩ (done.flatten ++ part.take offset)
        (part.drop offset ++ rest.flatten)
  | finished : Between parts ⟨parts.length, 0⟩ parts.flatten []

theorem Between.append (h : Between parts cursor sent unsent) : sent ++ unsent = parts.flatten := by
  cases h with
  | @inside done part rest offset hparts _ =>
    rw [List.append_assoc, ← List.append_assoc (part.take offset), List.take_append_drop, hparts,
      List.flatten_append, List.flatten_cons]
  | finished => rw [List.append_nil]

theorem between_start {done rest : List (List UInt8)} (hparts : parts = done ++ rest)
    (hnonempty : ∀ part ∈ parts, part ≠ []) :
    Between parts ⟨done.length, 0⟩ done.flatten rest.flatten := by
  cases rest with
  | nil =>
    rw [List.append_nil] at hparts
    subst hparts
    exact .finished
  | cons part rest =>
    have hpart : part ≠ [] := hnonempty part (by simp [hparts])
    simpa using Between.inside hparts (List.length_pos_iff.2 hpart)

theorem Between.exists_vectors (h : Between parts cursor sent unsent) (hcursor : cursor.partIndex < parts.length) :
    ∃ offered, vectors parts cursor = some offered ∧ offered.flatten ≠ [] ∧
      offered.flatten <+: unsent := by
  cases h with
  | finished => exact absurd hcursor (lt_irrefl _)
  | @inside done part rest offset hparts hoffset =>
    have hpart : parts[done.length]? = some part := by simp [hparts]
    have hrest : parts.drop (done.length + 1) = rest := by simp [hparts]
    refine ⟨part.drop offset :: rest.take (maxVectors - 1), ?_, ?_, ?_⟩
    · simp only [Vectored.vectors, hpart, hrest, if_neg (not_lt.2 hoffset.le)]
    · intro hnil
      have hempty := congrArg List.length hnil
      simp only [List.flatten_cons, List.length_append, List.length_drop, List.length_nil] at hempty
      omega
    · rw [List.flatten_cons]
      refine (List.prefix_append_right_inj _).2 ⟨(rest.drop (maxVectors - 1)).flatten, ?_⟩
      rw [← List.flatten_append, List.take_append_drop]

/-- One round of the inner loop, inside a part. -/
theorem advance_inside {done : List (List UInt8)} {part : List UInt8} {rest : List (List UInt8)} {offset n : ℕ}
    (hparts : parts = done ++ part :: rest) (hoffset : offset < part.length) (hn : n ≠ 0) :
    advance parts n ⟨done.length, offset⟩ =
      if n < part.length - offset then some ⟨done.length, offset + n⟩
      else advance parts (n - (part.length - offset)) ⟨done.length + 1, 0⟩ := by
  have hpart : parts[done.length]? = some part := by simp [hparts]
  rw [advance, if_neg hn]
  split
  · rename_i hnone
    rw [hpart] at hnone
    cases hnone
  · rename_i found hfound
    obtain rfl : part = found := Option.some.inj (hpart.symm.trans hfound)
    rw [if_neg (not_lt.2 hoffset.le)]

/-- **A write of `n` bytes** moves the cursor over exactly these bytes. -/
theorem advance_between (hnonempty : ∀ part ∈ parts, part ≠ []) {n : ℕ}
    (h : Between parts cursor sent unsent) (hn : n ≤ unsent.length) :
    ∃ cursor', advance parts n cursor = some cursor' ∧
      Between parts cursor' (sent ++ unsent.take n) (unsent.drop n) := by
  -- The induction is on the bytes of the write; a part that is used up has taken at least one.
  induction n using Nat.strong_induction_on generalizing cursor sent unsent with
  | _ n ih =>
    rcases Nat.eq_zero_or_pos n with rfl | hpos
    · refine ⟨cursor, by rw [advance, if_pos rfl], ?_⟩
      simpa using h
    · cases h with
      | finished => exact absurd hn (not_le.2 hpos)
      | @inside done part rest offset hparts hoffset =>
        have hlength : (part.drop offset).length = part.length - offset := List.length_drop
        rw [List.length_append, hlength] at hn
        rw [advance_inside hparts hoffset hpos.ne']
        split_ifs with hshort
        · refine ⟨_, rfl, ?_⟩
          have hle : n ≤ (part.drop offset).length := hlength ▸ hshort.le
          rw [List.take_append_of_le_length hle, List.drop_append_of_le_length hle, List.append_assoc,
            ← List.take_add, List.drop_drop]
          exact .inside hparts (by omega)
        · have hnext := between_start (show parts = (done ++ [part]) ++ rest by simp [hparts]) hnonempty
          rw [List.length_append, List.length_singleton] at hnext
          obtain ⟨cursor', hadvance, hcursor'⟩ :=
            ih (n - (part.length - offset)) (by omega) hnext (by omega)
          refine ⟨cursor', hadvance, ?_⟩
          have hle : (part.drop offset).length ≤ n := hlength ▸ not_lt.1 hshort
          have hsent : done.flatten ++ part.take offset ++ part.drop offset = (done ++ [part]).flatten := by
            rw [List.append_assoc, List.take_append_drop, List.flatten_append, List.flatten_singleton]
          rw [List.take_append, List.drop_append, hlength, List.take_of_length_le hle,
            List.drop_of_length_le hle, List.nil_append, ← List.append_assoc, hsent]
          exact hcursor'

/-! ### One turn -/

variable {w} {s s' : σ} {offered : List (List UInt8)} {turns : ℕ}

/-- The error of a call after which the loop gives up. -/
def VectoredWriter.failure (w : VectoredWriter σ) (offered : List (List UInt8)) (s : σ) :
    Option WriteError :=
  match (w.writeVectored offered s).1 with
  | .error e => if e.kind = .interrupted then none else some e
  | .ok written =>
    if written = 0 then some ⟨.writeZero, "failed to write record parts"⟩ else none

theorem lt_of_vectors (h : vectors parts cursor = some offered) : cursor.partIndex < parts.length := by
  unfold vectors at h
  split at h
  · cases h
  · rename_i hpart
    exact (List.getElem?_eq_some_iff.1 hpart).1

/-- The bytes that a write offers are the next ones, and there is at least one. -/
theorem Between.next_bytes (h : Between parts cursor sent unsent)
    (hoffered : vectors parts cursor = some offered) :
    offered.flatten ≠ [] ∧ offered.flatten <+: unsent := by
  obtain ⟨offered', hoffered', hbytes⟩ := h.exists_vectors (lt_of_vectors hoffered)
  obtain rfl := Option.some.inj (hoffered.symm.trans hoffered')
  exact hbytes

theorem turn_of_failure {e : WriteError} (hoffered : vectors parts cursor = some offered)
    (hfailure : w.failure offered s = some e) :
    turn w parts s cursor = .returned (.error e) (w.writeVectored offered s).2 := by
  rw [turn, if_pos (lt_of_vectors hoffered), hoffered]
  unfold VectoredWriter.failure at hfailure
  cases hanswer : (w.writeVectored offered s).1 with
  | error e' =>
    simp only [hanswer] at hfailure ⊢
    split_ifs at hfailure ⊢
    rw [Option.some.inj hfailure]
  | ok written =>
    simp only [hanswer] at hfailure ⊢
    split_ifs at hfailure ⊢
    rw [Option.some.inj hfailure]

theorem turn_of_interrupted {e : WriteError} (hoffered : vectors parts cursor = some offered)
    (hanswer : (w.writeVectored offered s).1 = .error e) (hkind : e.kind = .interrupted) :
    turn w parts s cursor = .running (w.writeVectored offered s).2 cursor := by
  rw [turn, if_pos (lt_of_vectors hoffered), hoffered]
  simp only [hanswer, if_pos hkind]

theorem turn_of_accepted (hnonempty : ∀ part ∈ parts, part ≠ []) (h : Between parts cursor sent unsent)
    (hoffered : vectors parts cursor = some offered) {n : ℕ}
    (hanswer : (w.writeVectored offered s).1 = .ok n) (hn : n ≠ 0) :
    ∃ cursor', turn w parts s cursor = .running (w.writeVectored offered s).2 cursor' ∧
      Between parts cursor' (sent ++ unsent.take n) (unsent.drop n) ∧ n ≤ unsent.length := by
  have hle := ((w.accepted offered s n hanswer).1).trans (h.next_bytes hoffered).2.length_le
  obtain ⟨cursor', hadvance, hcursor'⟩ := advance_between hnonempty h hle
  refine ⟨cursor', ?_, hcursor', hle⟩
  rw [turn, if_pos (lt_of_vectors hoffered), hoffered]
  simp only [hanswer, if_neg hn, hadvance]

/-! ### The loop -/

/-- What holds after any number of turns: nothing was out of bounds, and what the writer received comes from the
start of the parts, all of it once the loop returned without an error. -/
inductive Kept (w : VectoredWriter σ) (parts : List (List UInt8)) (s : σ) : Writing σ → Prop
  | running {s' : σ} {cursor : PartCursor} {sent unsent : List UInt8}
      (hcursor : Between parts cursor sent unsent) (hreceived : w.received s' = w.received s ++ sent) :
      Kept w parts s (.running s' cursor)
  | written {s' : σ} (hreceived : w.received s' = w.received s ++ parts.flatten) :
      Kept w parts s (.returned (.ok ()) s')
  | failed {s' : σ} {e : WriteError} {sent : List UInt8} (hsent : sent <+: parts.flatten)
      (hreceived : w.received s' = w.received s ++ sent) : Kept w parts s (.returned (.error e) s')

/-- Some of the bytes that were offered come after those that were sent. -/
theorem Between.sent_take (h : Between parts cursor sent unsent)
    (hoffered : vectors parts cursor = some offered) (n : ℕ) :
    sent ++ offered.flatten.take n <+: parts.flatten := by
  rw [← h.append]
  exact (List.prefix_append_right_inj _).2 ((List.take_prefix n _).trans (h.next_bytes hoffered).2)

theorem turn_kept (hnonempty : ∀ part ∈ parts, part ≠ []) (h : Between parts cursor sent unsent)
    (hreceived : w.received s' = w.received s ++ sent) : Kept w parts s (turn w parts s' cursor) := by
  by_cases hcursor : cursor.partIndex < parts.length
  · obtain ⟨offered, hoffered, -⟩ := h.exists_vectors hcursor
    cases hanswer : (w.writeVectored offered s').1 with
    | error e =>
      by_cases hkind : e.kind = .interrupted
      · rw [turn_of_interrupted hoffered hanswer hkind]
        exact .running h ((w.interrupted _ _ e hanswer hkind).trans hreceived)
      · have hfailure : w.failure offered s' = some e := by
          simp only [VectoredWriter.failure, hanswer, if_neg hkind]
        rw [turn_of_failure hoffered hfailure]
        obtain ⟨n, hn⟩ := w.failed _ _ e hanswer
        exact .failed (h.sent_take hoffered n) (by rw [hn, hreceived, List.append_assoc])
    | ok written =>
      obtain ⟨hle, hwritten⟩ := w.accepted _ _ written hanswer
      rw [hreceived, List.append_assoc] at hwritten
      by_cases hzero : written = 0
      · have hfailure : w.failure offered s' = some ⟨.writeZero, "failed to write record parts"⟩ := by
          simp only [VectoredWriter.failure, hanswer, if_pos hzero]
        rw [turn_of_failure hoffered hfailure]
        exact .failed (h.sent_take hoffered written) hwritten
      · obtain ⟨cursor', hturn, hcursor', -⟩ := turn_of_accepted hnonempty h hoffered hanswer hzero
        rw [hturn]
        refine .running hcursor' (hwritten.trans ?_)
        obtain ⟨rest, rfl⟩ := (h.next_bytes hoffered).2
        rw [List.take_append_of_le_length hle]
  · rw [turn, if_neg hcursor]
    cases h with
    | inside hparts _ => exact absurd (by simp [hparts]) hcursor
    | finished => exact .written hreceived

/-- **The invariant of the loop**, after any number of turns. -/
theorem writing_kept (hnonempty : ∀ part ∈ parts, part ≠ []) (s : σ) (turns : ℕ) :
    Kept w parts s (writing w parts s turns) := by
  induction turns with
  | zero => exact .running (between_start (List.nil_append _).symm hnonempty) (by simp)
  | succ turns ih =>
    rw [writing]
    cases hwriting : writing w parts s turns with
    | panicked => rw [hwriting] at ih; cases ih
    | returned result s' => rw [hwriting] at ih; exact ih
    | running s' cursor =>
      rw [hwriting] at ih
      cases ih with
      | running hcursor hreceived => exact turn_kept hnonempty hcursor hreceived

/-! ### Writers that accept -/

/-- The same slices are offered again as long as calls are interrupted, and then some of their bytes are
accepted. -/
inductive VectoredWriter.Accepts (w : VectoredWriter σ) (offered : List (List UInt8)) : σ → Prop
  | now {s : σ} {n : ℕ} (hanswer : (w.writeVectored offered s).1 = .ok n) (hn : n ≠ 0) :
      w.Accepts offered s
  | again {s : σ} {e : WriteError} (hanswer : (w.writeVectored offered s).1 = .error e)
      (hkind : e.kind = .interrupted) (hnext : w.Accepts offered (w.writeVectored offered s).2) :
      w.Accepts offered s

/-- A writer that accepts leaves fewer bytes to send. -/
theorem VectoredWriter.Accepts.progress (hnonempty : ∀ part ∈ parts, part ≠ [])
    (haccepts : w.Accepts offered s') (hoffered : vectors parts cursor = some offered)
    (h : Between parts cursor sent unsent) {turns : ℕ}
    (hrunning : writing w parts s turns = .running s' cursor) :
    ∃ turns' s'' cursor' sent' unsent', writing w parts s turns' = .running s'' cursor' ∧
      Between parts cursor' sent' unsent' ∧ unsent'.length < unsent.length := by
  -- The induction is on the interrupted calls, which leave the cursor where it is.
  induction haccepts generalizing turns with
  | @now s' n hanswer hn =>
    obtain ⟨cursor', hturn, hcursor', hle⟩ := turn_of_accepted hnonempty h hoffered hanswer hn
    refine ⟨turns + 1, (w.writeVectored offered s').2, cursor', _, _, ?_, hcursor', ?_⟩
    · rw [writing, hrunning]
      exact hturn
    · rw [List.length_drop]
      omega
  | @again s' e hanswer hkind _ ih =>
    have hagain : writing w parts s (turns + 1) = .running (w.writeVectored offered s').2 cursor := by
      rw [writing, hrunning]
      exact turn_of_interrupted hoffered hanswer hkind
    exact ih hagain

/-- The loop returns if the writer accepts at every call at which it is asked. -/
theorem writing_returns (hnonempty : ∀ part ∈ parts, part ≠ [])
    (haccepts : ∀ turns s' cursor offered, writing w parts s turns = .running s' cursor →
      vectors parts cursor = some offered → w.Accepts offered s') :
    ∃ turns s', writing w parts s turns = .returned (.ok ()) s' := by
  suffices hrest : ∀ size turns s' cursor sent unsent, writing w parts s turns = .running s' cursor →
      Between parts cursor sent unsent → unsent.length = size →
        ∃ turns s', writing w parts s turns = .returned (.ok ()) s' from
    hrest _ 0 s ⟨0, 0⟩ [] _ rfl (between_start (List.nil_append _).symm hnonempty) rfl
  intro size
  induction size using Nat.strong_induction_on with
  | _ size ih =>
    intro turns s' cursor sent unsent hrunning h hsize
    by_cases hcursor : cursor.partIndex < parts.length
    · obtain ⟨offered, hoffered, -, -⟩ := h.exists_vectors hcursor
      obtain ⟨turns', s'', cursor', sent', unsent', hrunning', h', hless⟩ :=
        (haccepts turns s' cursor offered hrunning hoffered).progress hnonempty hoffered h hrunning
      exact ih _ (hsize ▸ hless) turns' s'' cursor' sent' unsent' hrunning' h' rfl
    · refine ⟨turns + 1, s', ?_⟩
      rw [writing, hrunning]
      exact if_neg hcursor

/-! ### The whole call -/

variable {header : List UInt8} {payload : List (List UInt8)}

theorem writeParts_kept (w : VectoredWriter σ) (header : List UInt8) (payload : List (List UInt8)) (s : σ)
    (turns : ℕ) : Kept w (recordParts header payload) s (writeParts w header payload s turns) :=
  writing_kept (fun _ => ne_nil_of_mem_recordParts) s turns

theorem returned_ok (h : writeParts w header payload s turns = .returned (.ok ()) s') :
    w.received s' = w.received s ++ (header ++ payload.flatten) := by
  have hkept := writeParts_kept w header payload s turns
  rw [h] at hkept
  cases hkept with
  | written hreceived => rw [hreceived, flatten_recordParts]

theorem returned_error {e : WriteError}
    (h : writeParts w header payload s turns = .returned (.error e) s') :
    ∃ sent, sent <+: header ++ payload.flatten ∧ w.received s' = w.received s ++ sent := by
  have hkept := writeParts_kept w header payload s turns
  rw [h] at hkept
  cases hkept with
  | failed hsent hreceived => exact ⟨_, flatten_recordParts header payload ▸ hsent, hreceived⟩

/-- A successful call with the header of a record and the parts of its payload adds the bytes of the record. -/
theorem returned_record {crc : Crc32c} (hcrc : crc.Chunked) {record : RecordHeader}
    (hencode : record.encode crc payload = .ok header)
    (h : writeParts w header payload s turns = .returned (.ok ()) s') :
    w.received s' = w.received s ++ Record.bytes crc ⟨record, payload.flatten⟩ := by
  rw [returned_ok h, (RecordHeader.encode_append hcrc hencode).1]

/-- **Vectored writes are exact.**  For every writer, header and payload: no index is out of bounds; if the writer
accepts bytes often enough, the call returns and the writer has received the header and all parts; and a call that
fails or accepts nothing makes `write_parts` fail, with a part of these bytes received, from their start. -/
theorem write_parts_exact (w : VectoredWriter σ) (header : List UInt8) (payload : List (List UInt8)) (s : σ) :
    (∀ turns, writeParts w header payload s turns ≠ .panicked) ∧
    ((∀ turns s' cursor offered, writeParts w header payload s turns = .running s' cursor →
        vectors (recordParts header payload) cursor = some offered → w.Accepts offered s') →
      ∃ turns s', writeParts w header payload s turns = .returned (.ok ()) s' ∧
        w.received s' = w.received s ++ (header ++ payload.flatten)) ∧
    ∀ turns s' cursor offered e, writeParts w header payload s turns = .running s' cursor →
      vectors (recordParts header payload) cursor = some offered → w.failure offered s' = some e →
        writeParts w header payload s (turns + 1) =
          .returned (.error e) (w.writeVectored offered s').2 ∧
        ∃ sent, sent <+: header ++ payload.flatten ∧
          w.received (w.writeVectored offered s').2 = w.received s ++ sent := by
  refine ⟨fun turns hpanicked => ?_, fun haccepts => ?_, ?_⟩
  · have hkept := writeParts_kept w header payload s turns
    rw [hpanicked] at hkept
    cases hkept
  · obtain ⟨turns, s', hreturned⟩ := writing_returns (fun _ => ne_nil_of_mem_recordParts) haccepts
    exact ⟨turns, s', hreturned, returned_ok hreturned⟩
  · intro turns s' cursor offered e hrunning hoffered hfailure
    have hreturned : writeParts w header payload s (turns + 1) =
        .returned (.error e) (w.writeVectored offered s').2 := by
      show (match writeParts w header payload s turns with
        | .running s' cursor => turn w (recordParts header payload) s' cursor
        | ended => ended) = _
      rw [hrunning]
      exact turn_of_failure hoffered hfailure
    exact ⟨hreturned, returned_error hreturned⟩

/-- A writer that is interrupted at every other call and accepts at most two bytes at the others. -/
def interruptingShortWriter : VectoredWriter (List UInt8 × ℕ) where
  received s := s.1
  writeVectored vectors s :=
    if s.2 % 2 = 0 then (.error ⟨.interrupted, "retry"⟩, (s.1, s.2 + 1))
    else
      let limit := min vectors.flatten.length 2
      (.ok limit, (s.1 ++ vectors.flatten.take limit, s.2 + 1))
  accepted vectors s n h := by
    split_ifs at h ⊢
    obtain rfl := Except.ok.inj h
    exact ⟨min_le_left _ _, rfl⟩
  interrupted vectors s e h hkind := by
    split_ifs at h ⊢
    rfl
  failed vectors s e h := by
    split_ifs at h ⊢
    exact ⟨0, by simp⟩

/-- All bytes arrive, two at a time. -/
theorem write_parts_exact_short :
    ∃ turns s', writeParts interruptingShortWriter (List.replicate headerLen 7) [[1, 2, 3], [], [4]] ([], 0)
        turns = .returned (.ok ()) s' ∧
      interruptingShortWriter.received s' = List.replicate headerLen 7 ++ [1, 2, 3, 4] := by
  refine (write_parts_exact interruptingShortWriter _ _ ([], 0)).2.1 ?_
  intro turns s' cursor offered hrunning hoffered
  have hkept := writeParts_kept interruptingShortWriter (List.replicate headerLen 7) [[1, 2, 3], [], [4]]
    ([], 0) turns
  rw [hrunning] at hkept
  cases hkept with
  | running hcursor _ =>
    have haccepts : ∀ calls output, calls % 2 = 1 →
        interruptingShortWriter.Accepts offered (output, calls) := by
      intro calls output hodd
      refine .now (n := min offered.flatten.length 2) (by simp [interruptingShortWriter, hodd]) ?_
      have := List.length_pos_iff.2 (hcursor.next_bytes hoffered).1
      omega
    rcases Nat.mod_two_eq_zero_or_one s'.2 with heven | hodd
    · refine .again (e := ⟨.interrupted, "retry"⟩) (by simp [interruptingShortWriter, heven]) rfl ?_
      have hnext : (interruptingShortWriter.writeVectored offered s').2 = (s'.1, s'.2 + 1) := by
        simp [interruptingShortWriter, heven]
      rw [hnext]
      exact haccepts _ _ (by omega)
    · exact haccepts _ _ hodd

end RustQueue.Storage.Vectored
