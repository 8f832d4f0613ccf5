import RustQueue.Lib.Result
import RustQueue.Storage.Record
import RustQueue.Topic.Index

/-!
# Reading payloads in batches

The reader groups the references of a batch by file, sorts each group by offset, and reads
neighbouring references with one system call.  The bodies are then cut out of what was read, checked,
and put back into the order in which they were asked for.  The groups come out of a hash map, so that
their order is a parameter of the model.

* `readRangesFrom_spec`: the ranges take up the references in order and cover them;
* `read_payloads_exact`: the answer is, at each index, the bytes of that reference.
-/

namespace RustQueue

/-- The end of a reference. -/
def Topic.PayloadRef.stop (payload : Topic.PayloadRef) : ℕ := payload.offset + payload.len

namespace Broker

open Lib Storage Topic

def maxCoalescedRead : ℕ := 2 * 1024 * 1024

def maxCoalesceGap : ℕ := 64 * 1024

/-- Why a batch is not read.  A slice outside of a buffer is a panic in the source. -/
inductive ReadError where
  | io (reason : String)
  | outOfBounds
  deriving DecidableEq, Repr

/-- A reference with its index in the batch. -/
abbrev Item := ℕ × PayloadRef

structure ReadRange where
  offset : ℕ
  len : ℕ
  indices : List Item
  deriving DecidableEq, Repr

/-! ### Ranges -/

def payloadEnd (payload : PayloadRef) : Except ReadError ℕ :=
  if payload.offset + payload.len ≤ u64Max then .ok (payload.offset + payload.len)
  else .error (.io "payload offset overflow")

/-- The inner loop: the references that are read together with one that starts at `start`, the end of
the range, and the references that are left. -/
def extendRange (start : ℕ) : ℕ → List Item → Except ReadError (ℕ × List Item × List Item)
  | stop, [] => .ok (stop, [], [])
  | stop, item :: rest => do
    let candidateEnd ← payloadEnd item.2
    if satAdd u64Max stop maxCoalesceGap < item.2.offset ∨ maxCoalescedRead < candidateEnd - start then
      return (stop, [], item :: rest)
    else do
      let (stop', taken, left) ← extendRange start (max stop candidateEnd) rest
      return (stop', item :: taken, left)

/-- The outer loop, with at most as many rounds as there are references. -/
def readRangesFrom : ℕ → List Item → Except ReadError (List ReadRange)
  | _, [] => .ok []
  | 0, _ :: _ => .ok []
  | rounds + 1, item :: rest => do
    let stop ← payloadEnd item.2
    let (stop', taken, left) ← extendRange item.2.offset stop rest
    let ranges ← readRangesFrom rounds left
    return ⟨item.2.offset, stop' - item.2.offset, item :: taken⟩ :: ranges

def readRanges (indices : List Item) : Except ReadError (List ReadRange) :=
  readRangesFrom indices.length indices

/-! ### Reading -/

/-- Filling a buffer from a file. -/
def readExactAt (file : List UInt8) (len offset : ℕ) : Except ReadError (List UInt8) :=
  if offset + len ≤ file.length then .ok ((file.drop offset).take len)
  else .error (.io "failed to fill whole buffer")

def verifyPayload (crc : Crc32c) (payload : PayloadRef) (body : List UInt8) : Except ReadError Unit :=
  if (crc.sum body).toNat = payload.crc32c then .ok ()
  else .error (.io s!"payload checksum mismatch at {payload.path}")

/-- The slice of a buffer. -/
def sliceOf (bytes : List UInt8) (first len : ℕ) : Except ReadError (List UInt8) :=
  if first + len ≤ bytes.length then .ok ((bytes.drop first).take len) else .error .outOfBounds

abbrev Output := List (Option (List UInt8))

/-- One body out of a range. -/
def collectPayload (crc : Crc32c) (range : ReadRange) (bytes : List UInt8) (output : Output)
    (item : Item) : Except ReadError Output := do
  let body ← sliceOf bytes (item.2.offset - range.offset) item.2.len
  verifyPayload crc item.2 body
  return output.set item.1 (some body)

def collectPayloads (crc : Crc32c) (range : ReadRange) (bytes : List UInt8) (output : Output) :
    Except ReadError Output :=
  match range.indices with
  | [item] =>
    if maxCoalescedRead < range.len then do
      -- the buffer of an oversized body is handed over as it is
      verifyPayload crc item.2 bytes
      return output.set item.1 (some bytes)
    else collectPayload crc range bytes output item
  | indices => indices.foldlM (collectPayload crc range bytes) output

def readRange (crc : Crc32c) (file : List UInt8) (output : Output) (range : ReadRange) :
    Except ReadError Output := do
  let bytes ← readExactAt file range.len range.offset
  collectPayloads crc range bytes output

def readFileGroup (crc : Crc32c) (file : List UInt8) (indices : List Item) (output : Output) :
    Except ReadError Output := do
  let ranges ← readRanges indices
  ranges.foldlM (readRange crc file) output

/-- The references to one file, sorted by their offset. -/
def group (payloads : List PayloadRef) (path : ℕ) : List Item :=
  ((payloads.zipIdx.map Prod.swap).filter fun item => decide (item.2.path = path)).mergeSort
    fun a b => decide (a.2.offset ≤ b.2.offset)

def readGroup (crc : Crc32c) (files : ℕ → Option (List UInt8)) (payloads : List PayloadRef)
    (output : Output) (path : ℕ) : Except ReadError Output :=
  match files path with
  | none => .error (.io "No such file or directory")
  | some file => readFileGroup crc file (group payloads path) output

/-- A batch, with the order in which the groups come out of the map. -/
def readPayloads (crc : Crc32c) (files : ℕ → Option (List UInt8)) (paths : List ℕ)
    (payloads : List PayloadRef) : Except ReadError (List (List UInt8)) := do
  let output ← paths.foldlM (readGroup crc files payloads) (List.replicate payloads.length none)
  output.mapM fun body =>
    match body with
    | some body => .ok body
    | none => .error (.io "payload batch result missing")

/-! ### Ranges cover their references -/

theorem payloadEnd_eq {payload : PayloadRef} (h : payload.stop ≤ u64Max) :
    payloadEnd payload = .ok payload.stop := if_pos h

/-- One of two references begins inside the other. -/
def Overlaps (a b : PayloadRef) : Prop :=
  a.offset ≤ b.offset ∧ b.offset < a.stop ∨ b.offset ≤ a.offset ∧ a.offset < b.stop

theorem Overlaps.symm {a b : PayloadRef} (h : Overlaps a b) : Overlaps b a := Or.symm h

/-- The inner loop takes references from the front, and its end is that of one of them or the one it
started with. -/
theorem extendRange_spec (start stop : ℕ) {items : List Item}
    (hstop : ∀ item ∈ items, item.2.stop ≤ u64Max) :
    ∃ stop' taken left, extendRange start stop items = .ok (stop', taken, left) ∧
      items = taken ++ left ∧ stop ≤ stop' ∧
      (stop' = stop ∨ ∃ item ∈ taken, stop' = item.2.stop) ∧
      ∀ item ∈ taken, item.2.stop ≤ stop' ∧
        item.2.stop - start ≤ maxCoalescedRead := by
  induction items generalizing stop with
  | nil => exact ⟨stop, [], [], rfl, rfl, le_rfl, Or.inl rfl, by simp⟩
  | cons item rest ih =>
    have hend := payloadEnd_eq (hstop item List.mem_cons_self)
    by_cases hbreak : satAdd u64Max stop maxCoalesceGap < item.2.offset ∨
        maxCoalescedRead < item.2.stop - start
    · refine ⟨stop, [], item :: rest, ?_, rfl, le_rfl, Or.inl rfl, by simp⟩
      rw [extendRange, hend]
      refine bind_eq_ok.2 ⟨_, rfl, ?_⟩
      rw [if_pos hbreak]
      rfl
    · obtain ⟨stop', taken, left, hrest, hsplit, hle, hlast, htaken⟩ :=
        ih (max stop item.2.stop) fun i hi => hstop i (List.mem_cons_of_mem _ hi)
      refine ⟨stop', item :: taken, left, ?_, by rw [hsplit, List.cons_append],
        le_trans (le_max_left _ _) hle, ?_, ?_⟩
      · rw [extendRange, hend]
        refine bind_eq_ok.2 ⟨_, rfl, ?_⟩
        rw [if_neg hbreak, hrest]
        rfl
      · rcases hlast with hlast | ⟨i, hi, hlast⟩
        · rcases max_choice stop item.2.stop with hmax | hmax
          · exact Or.inl (hlast.trans hmax)
          · exact Or.inr ⟨item, List.mem_cons_self, hlast.trans hmax⟩
        · exact Or.inr ⟨i, List.mem_cons_of_mem _ hi, hlast⟩
      · intro i hi
        rcases List.mem_cons.1 hi with rfl | hi
        · exact ⟨le_trans (le_max_right _ _) hle, not_lt.1 (not_or.1 hbreak).2⟩
        · exact htaken i hi

/-- What holds of a range. -/
structure ReadRange.Covers (range : ReadRange) : Prop where
  some : range.indices ≠ []
  inside : ∀ item ∈ range.indices, range.offset ≤ item.2.offset ∧
    item.2.stop ≤ range.offset + range.len
  ends : ∃ item ∈ range.indices, range.offset + range.len = item.2.stop
  single : ∀ item, range.indices = [item] → range.offset = item.2.offset ∧ range.len = item.2.len
  short : range.indices.Pairwise (fun a b => ¬Overlaps a.2 b.2) → 1 < range.indices.length →
    range.len ≤ maxCoalescedRead

/-- A range of one round. -/
theorem covers_extend {item : Item} {taken : List Item} {stop : ℕ}
    (hsorted : ∀ later ∈ taken, item.2.offset ≤ later.2.offset)
    (hstop : item.2.stop ≤ stop)
    (hlast : stop = item.2.stop ∨ ∃ later ∈ taken, stop = later.2.stop)
    (htaken : ∀ later ∈ taken, later.2.stop ≤ stop ∧
      later.2.stop - item.2.offset ≤ maxCoalescedRead) :
    (⟨item.2.offset, stop - item.2.offset, item :: taken⟩ : ReadRange).Covers := by
  have hfirst : item.2.offset ≤ stop := le_trans (Nat.le_add_right _ _) hstop
  have hend : item.2.offset + (stop - item.2.offset) = stop := Nat.add_sub_cancel' hfirst
  refine ⟨by simp, ?_, ?_, ?_, ?_⟩
  · intro i hi
    rw [hend]
    rcases List.mem_cons.1 hi with rfl | hi
    · exact ⟨le_rfl, hstop⟩
    · exact ⟨hsorted i hi, (htaken i hi).1⟩
  · rw [hend]
    rcases hlast with hlast | ⟨later, hlater, hlast⟩
    · exact ⟨item, List.mem_cons_self, hlast⟩
    · exact ⟨later, List.mem_cons_of_mem _ hlater, hlast⟩
  · intro only honly
    obtain ⟨rfl, rfl⟩ := List.cons.inj honly
    refine ⟨rfl, ?_⟩
    rcases hlast with hlast | ⟨later, hlater, -⟩
    · show stop - item.2.offset = item.2.len
      rw [hlast, PayloadRef.stop, Nat.add_sub_cancel_left]
    · simp at hlater
  · intro hdisjoint hmany
    cases taken with
    | nil => simp at hmany
    | cons second taken =>
      -- the first reference ends before the second one begins
      have hapart := (List.pairwise_cons.1 hdisjoint).1 second List.mem_cons_self
      have horder := hsorted second List.mem_cons_self
      obtain ⟨-, hsecond⟩ := htaken second List.mem_cons_self
      have hbefore : item.2.stop ≤ second.2.offset := by
        by_contra hlt
        exact hapart (Or.inl ⟨horder, not_le.1 hlt⟩)
      have hstep : second.2.offset ≤ second.2.stop := Nat.le_add_right _ _
      show stop - item.2.offset ≤ maxCoalescedRead
      rcases hlast with hlast | ⟨later, hlater, hlast⟩
      · omega
      · have := (htaken later hlater).2
        omega

/-- **The ranges** take up the references in order. -/
theorem readRangesFrom_spec {rounds : ℕ} {items : List Item} (hrounds : items.length ≤ rounds)
    (hsorted : items.Pairwise fun a b => a.2.offset ≤ b.2.offset)
    (hstop : ∀ item ∈ items, item.2.stop ≤ u64Max) :
    ∃ ranges, readRangesFrom rounds items = .ok ranges ∧
      ranges.flatMap ReadRange.indices = items ∧ ∀ range ∈ ranges, range.Covers := by
  induction rounds generalizing items with
  | zero =>
    rw [List.length_eq_zero_iff.1 (Nat.le_zero.1 hrounds)]
    exact ⟨[], rfl, rfl, by simp⟩
  | succ rounds ih =>
    cases items with
    | nil => exact ⟨[], rfl, rfl, by simp⟩
    | cons item rest =>
      rw [List.pairwise_cons] at hsorted
      have hend := payloadEnd_eq (hstop item List.mem_cons_self)
      obtain ⟨stop, taken, left, hextend, hsplit, hle, hlast, htaken⟩ :=
        extendRange_spec item.2.offset item.2.stop
          fun i hi => hstop i (List.mem_cons_of_mem _ hi)
      have hrest := hsorted.2
      rw [hsplit, List.pairwise_append] at hrest
      have hlength := congrArg List.length hsplit
      rw [List.length_append] at hlength
      rw [List.length_cons] at hrounds
      obtain ⟨ranges, hranges, hflat, hcovers⟩ := ih (show left.length ≤ rounds by omega) hrest.2.1 fun i hi =>
        hstop i (List.mem_cons_of_mem _ (hsplit ▸ List.mem_append_right _ hi))
      refine ⟨⟨item.2.offset, stop - item.2.offset, item :: taken⟩ :: ranges, ?_, ?_, ?_⟩
      · rw [readRangesFrom, hend]
        refine bind_eq_ok.2 ⟨_, rfl, bind_eq_ok.2 ⟨_, hextend, bind_eq_ok.2 ⟨ranges, hranges, rfl⟩⟩⟩
      · rw [List.flatMap_cons, hflat, hsplit]
        rfl
      · intro range hrange
        rcases List.mem_cons.1 hrange with rfl | hrange
        · exact covers_extend (fun later hlater => hsorted.1 later (hsplit ▸ List.mem_append_left _ hlater))
            hle hlast htaken
        · exact hcovers range hrange

/-! ### Collecting the bodies -/

/-- The bytes of a reference. -/
def bodyOf (files : ℕ → Option (List UInt8)) (payload : PayloadRef) : List UInt8 :=
  (((files payload.path).getD []).drop payload.offset).take payload.len

/-- Every body that has been put into the output is the one that was asked for. -/
def Right (files : ℕ → Option (List UInt8)) (payloads : List PayloadRef) (output : Output) : Prop :=
  output.length = payloads.length ∧
    ∀ (i : ℕ) (body : List UInt8), output[i]? = some (some body) →
      ∃ payload, payloads[i]? = some payload ∧ body = bodyOf files payload

/-- An index has its body. -/
def Filled (output : Output) (i : ℕ) : Prop := ∃ body, output[i]? = some (some body)

/-- The references lie inside their files and their checksums match. -/
structure Readable (crc : Crc32c) (files : ℕ → Option (List UInt8)) (payload : PayloadRef) : Prop where
  inside : ∃ file, files payload.path = some file ∧ payload.stop ≤ file.length ∧ file.length ≤ u64Max
  sum : (crc.sum (bodyOf files payload)).toNat = payload.crc32c

section Collecting

variable {crc : Crc32c} {files : ℕ → Option (List UInt8)} {payloads : List PayloadRef}
  {output output' : Output} {item : Item}

/-- A step of the reader succeeds, and its output is right.  It has the bodies that were there, and those
of some more indices. -/
def Fills (files : ℕ → Option (List UInt8)) (payloads : List PayloadRef) (output : Output)
    (result : Except ReadError Output) (more : ℕ → Prop) : Prop :=
  ∃ output', result = .ok output' ∧ Right files payloads output' ∧ (∀ i, more i → Filled output' i) ∧
    ∀ i, Filled output i → Filled output' i

/-- Steps that each fill some indices. -/
theorem Fills.foldlM {α : Type} {step : Output → α → Except ReadError Output} {more : α → ℕ → Prop}
    {l : List α} (hstep : ∀ a ∈ l, ∀ {output}, Right files payloads output →
      Fills files payloads output (step output a) (more a)) (h : Right files payloads output) :
    Fills files payloads output (l.foldlM step output) fun i => ∃ a ∈ l, more a i := by
  induction l generalizing output with
  | nil => exact ⟨output, rfl, h, by simp, fun _ hi => hi⟩
  | cons a l ih =>
    obtain ⟨middle, hone, hright, hfilled, hkeeps⟩ := hstep a List.mem_cons_self h
    obtain ⟨output', hrest, hright', hall, hkeeps'⟩ :=
      ih (fun b hb => hstep b (List.mem_cons_of_mem _ hb)) hright
    refine ⟨output', ?_, hright', ?_, fun i hi => hkeeps' i (hkeeps i hi)⟩
    · rw [List.foldlM_cons]
      exact bind_eq_ok.2 ⟨middle, hone, hrest⟩
    · rintro i ⟨b, hb, hi⟩
      rcases List.mem_cons.1 hb with rfl | hb
      · exact hkeeps' i (hfilled i hi)
      · exact hall i ⟨b, hb, hi⟩

/-- A body is put into the output. -/
theorem Right.set (h : Right files payloads output) (hitem : payloads[item.1]? = some item.2) :
    Fills files payloads output (.ok (output.set item.1 (some (bodyOf files item.2)))) (· = item.1) := by
  have hlt : item.1 < output.length := by
    rw [h.1]
    exact (List.getElem?_eq_some_iff.1 hitem).1
  refine ⟨_, rfl, ⟨by rw [List.length_set, h.1], fun i body hi => ?_⟩, ?_, ?_⟩
  · rw [List.getElem?_set] at hi
    split_ifs at hi with heq
    · obtain rfl : bodyOf files item.2 = body := by simpa using hi
      exact ⟨item.2, heq ▸ hitem, rfl⟩
    · exact h.2 i body hi
  · rintro _ rfl
    exact ⟨_, List.getElem?_set_self hlt⟩
  · rintro i ⟨body, hi⟩
    by_cases heq : item.1 = i
    · subst heq
      exact ⟨_, List.getElem?_set_self hlt⟩
    · exact ⟨body, by rw [List.getElem?_set_ne heq, hi]⟩

variable {range : ReadRange} {file : List UInt8}

/-- The body of a reference in what was read for a range. -/
theorem sliceOf_eq (hfile : files item.2.path = some file)
    (hend : range.offset + range.len ≤ file.length) (hstart : range.offset ≤ item.2.offset)
    (hstop : item.2.stop ≤ range.offset + range.len) :
    sliceOf ((file.drop range.offset).take range.len) (item.2.offset - range.offset) item.2.len =
      .ok (bodyOf files item.2) := by
  unfold PayloadRef.stop at hstop
  have hlength : ((file.drop range.offset).take range.len).length = range.len := by
    rw [List.length_take, List.length_drop]
    omega
  rw [sliceOf, if_pos (by omega), bodyOf, hfile, Option.getD_some, List.drop_take, List.take_take,
    List.drop_drop, min_eq_left (by omega), Nat.add_sub_cancel' hstart]

/-- One body out of a range. -/
theorem collectPayload_eq (hfile : files item.2.path = some file)
    (hend : range.offset + range.len ≤ file.length) (hstart : range.offset ≤ item.2.offset)
    (hstop : item.2.stop ≤ range.offset + range.len) (hreadable : Readable crc files item.2) :
    collectPayload crc range ((file.drop range.offset).take range.len) output item =
      .ok (output.set item.1 (some (bodyOf files item.2))) := by
  refine bind_eq_ok.2 ⟨_, sliceOf_eq hfile hend hstart hstop, bind_eq_ok.2 ⟨(), ?_, rfl⟩⟩
  exact if_pos hreadable.sum

/-- Handing over the buffer of a single reference is cutting its body out of the buffer. -/
theorem collectPayloads_eq (hcovers : range.Covers) {bytes : List UInt8}
    (hlength : bytes.length = range.len) :
    collectPayloads crc range bytes output = range.indices.foldlM (collectPayload crc range bytes) output := by
  unfold collectPayloads
  split
  · rename_i item hindices
    obtain ⟨hoffset, hlen⟩ := hcovers.single item hindices
    have hslice : sliceOf bytes (item.2.offset - range.offset) item.2.len = .ok bytes := by
      rw [hoffset, Nat.sub_self, sliceOf, if_pos (by omega), List.drop_zero,
        List.take_of_length_le (by omega)]
    have hone : collectPayload crc range bytes output item =
        (do
          verifyPayload crc item.2 bytes
          return output.set item.1 (some bytes)) := by
      rw [collectPayload, hslice]
      rfl
    rw [hindices, List.foldlM_cons, hone, ite_self]
    simp only [List.foldlM_nil, bind_pure]
  · rfl

/-- What one range adds to the output. -/
theorem readRange_spec (hcovers : range.Covers)
    (hitems : ∀ item ∈ range.indices, payloads[item.1]? = some item.2 ∧ Readable crc files item.2 ∧
      files item.2.path = some file) (h : Right files payloads output) :
    Fills files payloads output (readRange crc file output range) fun i =>
      ∃ item ∈ range.indices, i = item.1 := by
  have hend : range.offset + range.len ≤ file.length := by
    obtain ⟨item, hitem, hstop⟩ := hcovers.ends
    obtain ⟨-, hreadable, hfile⟩ := hitems item hitem
    obtain ⟨file', hfile', hinside, -⟩ := hreadable.inside
    rw [hfile, Option.some.injEq] at hfile'
    rw [hstop, hfile']
    exact hinside
  have hlength : ((file.drop range.offset).take range.len).length = range.len := by
    rw [List.length_take, List.length_drop]
    omega
  have hcollect : Fills files payloads output (range.indices.foldlM
      (collectPayload crc range ((file.drop range.offset).take range.len)) output) _ :=
    Fills.foldlM (fun item hitem {output} hright => by
      obtain ⟨hpayload, hreadable, hfile⟩ := hitems item hitem
      obtain ⟨hstart, hstop⟩ := hcovers.inside item hitem
      rw [collectPayload_eq hfile hend hstart hstop hreadable]
      exact hright.set hpayload) h
  rw [← collectPayloads_eq hcovers hlength] at hcollect
  obtain ⟨output', hok, hrest⟩ := hcollect
  exact ⟨output', bind_eq_ok.2 ⟨_, if_pos hend, hok⟩, hrest⟩

/-! ### Groups -/

theorem mem_group {path : ℕ} :
    item ∈ group payloads path ↔ payloads[item.1]? = some item.2 ∧ item.2.path = path := by
  unfold group
  rw [List.mem_mergeSort, List.mem_filter, decide_eq_true_eq]
  refine and_congr_left fun _ => ?_
  rw [List.mem_map]
  constructor
  · rintro ⟨⟨payload, i⟩, hmem, rfl⟩
    exact List.mem_zipIdx_iff_getElem?.1 hmem
  · intro h
    exact ⟨(item.2, item.1), List.mem_zipIdx_iff_getElem?.2 h, rfl⟩

theorem group_sorted (payloads : List PayloadRef) (path : ℕ) :
    (group payloads path).Pairwise fun a b => a.2.offset ≤ b.2.offset := by
  have hsorted : (group payloads path).Pairwise fun a b => decide (a.2.offset ≤ b.2.offset) = true :=
    List.pairwise_mergeSort (by simpa using fun a b c hab hbc => le_trans hab hbc)
      (by simpa using fun a b => le_total _ _) _
  exact hsorted.imp fun h => of_decide_eq_true h

theorem group_perm (payloads : List PayloadRef) (path : ℕ) :
    ((group payloads path).map Prod.snd).Perm
      (payloads.filter fun payload => decide (payload.path = path)) := by
  have hperm := (List.mergeSort_perm ((payloads.zipIdx.map Prod.swap).filter fun item : Item =>
    decide (item.2.path = path)) fun a b => decide (a.2.offset ≤ b.2.offset)).map Prod.snd
  refine hperm.trans (List.Perm.of_eq ?_)
  have hsnd : (payloads.zipIdx.map Prod.swap).map Prod.snd = payloads := by
    rw [List.map_map]
    exact List.zipIdx_map_fst 0 payloads
  conv_rhs => rw [← hsnd, List.filter_map]
  rfl

/-- **The ranges of a file.** -/
theorem readRanges_group (hreadable : ∀ payload ∈ payloads, Readable crc files payload) (path : ℕ) :
    ∃ ranges, readRanges (group payloads path) = .ok ranges ∧
      ranges.flatMap ReadRange.indices = group payloads path ∧ ∀ range ∈ ranges, range.Covers := by
  refine readRangesFrom_spec le_rfl (group_sorted payloads path) fun item hitem => ?_
  obtain ⟨file, -, hinside, hword⟩ :=
    (hreadable item.2 (List.mem_of_getElem? (mem_group.1 hitem).1)).inside
  exact hinside.trans hword

/-- What a group adds to the output. -/
theorem readGroup_spec (hreadable : ∀ payload ∈ payloads, Readable crc files payload) {path : ℕ}
    (hpath : ∃ payload ∈ payloads, payload.path = path) (h : Right files payloads output) :
    Fills files payloads output (readGroup crc files payloads output path) fun i =>
      ∃ item ∈ group payloads path, i = item.1 := by
  obtain ⟨payload, hpayload, rfl⟩ := hpath
  obtain ⟨file, hfile, -, -⟩ := (hreadable payload hpayload).inside
  obtain ⟨ranges, hranges, hflat, hcovers⟩ := readRanges_group hreadable payload.path
  obtain ⟨output', hfold, hright, hfilled, hkeeps⟩ := Fills.foldlM (fun range hrange {output} =>
    @readRange_spec crc files payloads output range file (hcovers range hrange) fun item hitem => by
      have hmem := List.mem_flatMap.2 ⟨range, hrange, hitem⟩
      rw [hflat, mem_group] at hmem
      exact ⟨hmem.1, hreadable item.2 (List.mem_of_getElem? hmem.1), hmem.2 ▸ hfile⟩) h
  refine ⟨output', ?_, hright, fun i hi => hfilled i ?_, hkeeps⟩
  · rw [readGroup, hfile]
    exact bind_eq_ok.2 ⟨ranges, hranges, hfold⟩
  · obtain ⟨item, hitem, rfl⟩ := hi
    rw [← hflat] at hitem
    obtain ⟨range, hrange, hitem⟩ := List.mem_flatMap.1 hitem
    exact ⟨range, hrange, item, hitem, rfl⟩

theorem Right.complete (h : Right files payloads output)
    (hall : ∀ i < payloads.length, Filled output i) :
    output = payloads.map fun payload => some (bodyOf files payload) := by
  refine List.ext_getElem? fun i => ?_
  rw [List.getElem?_map]
  by_cases hi : i < payloads.length
  · obtain ⟨body, hbody⟩ := hall i hi
    obtain ⟨payload, hpayload, rfl⟩ := h.2 i body hbody
    rw [hbody, hpayload]
    rfl
  · rw [List.getElem?_eq_none (not_lt.1 hi), List.getElem?_eq_none (by rw [h.1]; exact not_lt.1 hi)]
    rfl

end Collecting

/-- **Coalesced reads are individual reads.**  Whatever the order of the groups, a batch of references
that lie inside their files and whose checksums match is read without an error and without a slice out
of bounds, and gives the bytes of each reference at its index.  Every range that is read ends where
some reference ends; where the references of a file do not overlap, a range with several of them is not
longer than the limit. -/
theorem read_payloads_exact {crc : Crc32c} {files : ℕ → Option (List UInt8)}
    {payloads : List PayloadRef} (hreadable : ∀ payload ∈ payloads, Readable crc files payload)
    {paths : List ℕ} (hpaths : ∀ path, path ∈ paths ↔ ∃ payload ∈ payloads, payload.path = path) :
    readPayloads crc files paths payloads = .ok (payloads.map (bodyOf files)) ∧
    ∀ path ∈ paths, ∃ file ranges, files path = some file ∧
      readRanges (group payloads path) = .ok ranges ∧
      ∀ range ∈ ranges,
        (∃ payload ∈ payloads, payload.path = path ∧ range.offset + range.len = payload.stop) ∧
        range.offset + range.len ≤ file.length ∧
        ((payloads.filter fun payload => decide (payload.path = path)).Pairwise
            (fun a b => ¬Overlaps a b) →
          1 < range.indices.length → range.len ≤ maxCoalescedRead) := by
  constructor
  · have hstart : Right files payloads (List.replicate payloads.length none) := by
      refine ⟨List.length_replicate, fun i body hi => ?_⟩
      rw [List.getElem?_replicate] at hi
      split_ifs at hi
      simp at hi
    have hfills : Fills files payloads _ (paths.foldlM (readGroup crc files payloads) _) _ :=
      .foldlM (fun path hpath _ => readGroup_spec hreadable ((hpaths path).1 hpath)) hstart
    obtain ⟨output, hfold, hright, hfilled, -⟩ := hfills
    have hcomplete := hright.complete fun i hi => by
      have hget : payloads[i]? = some payloads[i] := List.getElem?_eq_getElem hi
      exact hfilled i ⟨payloads[i].path, (hpaths _).2 ⟨_, List.getElem_mem hi, rfl⟩, (i, payloads[i]),
        mem_group.2 ⟨hget, rfl⟩, rfl⟩
    refine bind_eq_ok.2 ⟨output, hfold, ?_⟩
    rw [hcomplete, List.mapM_map]
    exact mapM_ok fun payload _ => rfl
  · intro path hpath
    obtain ⟨payload, hpayload, rfl⟩ := (hpaths path).1 hpath
    obtain ⟨file, hfile, -, -⟩ := (hreadable payload hpayload).inside
    obtain ⟨ranges, hranges, hflat, hcovers⟩ := readRanges_group hreadable payload.path
    refine ⟨file, ranges, hfile, hranges, fun range hrange => ?_⟩
    obtain ⟨item, hitem, hstop⟩ := (hcovers range hrange).ends
    obtain ⟨hget, hsame⟩ := mem_group.1 (hflat ▸ List.mem_flatMap.2 ⟨range, hrange, hitem⟩)
    have hmem := List.mem_of_getElem? hget
    obtain ⟨file', hfile', hinside, -⟩ := (hreadable item.2 hmem).inside
    rw [hsame, hfile, Option.some.injEq] at hfile'
    refine ⟨⟨item.2, hmem, hsame, hstop⟩, ?_, fun hdisjoint hmany => ?_⟩
    · rw [hstop, hfile']
      exact hinside
    · have hgroup : (group payloads payload.path).Pairwise fun a b => ¬Overlaps a.2 b.2 := by
        refine List.pairwise_map.1 (((group_perm payloads payload.path).pairwise_iff ?_).2 hdisjoint)
        exact fun {a b} hab hba => hab hba.symm
      rw [← hflat, List.pairwise_flatMap] at hgroup
      exact (hcovers range hrange).short (hgroup.1 range hrange) hmany

/-- References to one file, with the checksums of what they name: two that overlap, the later one
first. -/
def overlapping : List PayloadRef :=
  [⟨1, 2, 2, (crc32cSum [3, 4]).toNat⟩, ⟨1, 0, 3, (crc32cSum [1, 2, 3]).toNat⟩]

theorem read_payloads_exact_overlapping :
    ∃ files : ℕ → Option (List UInt8),
      readPayloads .castagnoli files [1] overlapping = .ok [[3, 4], [1, 2, 3]] := by
  let files : ℕ → Option (List UInt8) := fun path => if path = 1 then some [1, 2, 3, 4, 5] else none
  have hreadable : ∀ payload ∈ overlapping, Readable .castagnoli files payload := by
    intro payload hpayload
    simp only [overlapping, List.mem_cons, List.not_mem_nil, or_false] at hpayload
    rcases hpayload with rfl | rfl
    · exact ⟨⟨[1, 2, 3, 4, 5], rfl, by decide, by decide⟩, rfl⟩
    · exact ⟨⟨[1, 2, 3, 4, 5], rfl, by decide, by decide⟩, rfl⟩
  have hpaths : ∀ path, path ∈ [1] ↔ ∃ payload ∈ overlapping, payload.path = path := by
    simp [overlapping, eq_comm]
  exact ⟨files, (read_payloads_exact hreadable hpaths).1⟩

end Broker

end RustQueue
