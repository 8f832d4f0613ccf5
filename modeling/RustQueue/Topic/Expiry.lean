import RustQueue.Lib.Result
import RustQueue.Topic.Contents

/-!
# Expired messages

`expiredAfter` is what `throughTimestampAfter` is for: the run of messages behind a position that
are not newer than the cutoff, cut off at a number of messages.  The index computes it segment by
segment, from the summaries where a segment is expired as a whole and by a search where it is not,
and then by two partition points of the active messages.

The difference of the two partition points is a plain subtraction.  `Underflows` says when it
wraps, and `throughTimestampAfter_iff` that the function meets its specification without
wrapping exactly if no active message up to the position is newer than the cutoff.
-/

namespace RustQueue.Topic

open Lib

/-- The last message of a run and the length of the run. -/
def lastOf (run : List MessageMeta) : Option (ℕ × ℕ) :=
  run.getLast?.map fun last => (last.position, run.length)

/-- The specification: at most `maxMessages` of the messages behind a position up to the first
one that is newer than the cutoff. -/
def expiredAfter (stored : List MessageMeta) (position : ℕ) (cutoffNs : ℤ) (maxMessages : ℕ) :
    Option (ℕ × ℕ) :=
  lastOf ((((stored.filter fun message => decide (position < message.position)).takeWhile
    fun message => decide (message.timestampNs ≤ cutoffNs))).take maxMessages)

/-- Positions grow and times do not fall. -/
def MessageMeta.Earlier (a b : MessageMeta) : Prop :=
  a.position < b.position ∧ a.timestampNs ≤ b.timestampNs

instance (a b : MessageMeta) : Decidable (a.Earlier b) := by
  unfold MessageMeta.Earlier
  infer_instance

/-- The messages of the index are in order of position and of time. -/
structure MessageIndex.Chronological (index : MessageIndex) : Prop where
  described : ∀ segment ∈ index.sealed, segment.Describes
  ordered : index.messages.Pairwise MessageMeta.Earlier
  bounded : ∀ message ∈ index.messages, 0 < message.position ∧ message.position ≤ u64Max

/-! ### Runs in an ordered list -/

section Ordered

variable (position : ℕ) (cutoffNs : ℤ)

/-- The messages behind the position that are not newer than the cutoff. -/
def expired (l : List MessageMeta) : List MessageMeta :=
  (l.filter fun message => decide (position < message.position)).filter
    fun message => decide (message.timestampNs ≤ cutoffNs)

theorem expired_append (l l' : List MessageMeta) :
    expired position cutoffNs (l ++ l') = expired position cutoffNs l ++ expired position cutoffNs l' := by
  simp [expired]

theorem earlier_front {l : List MessageMeta} (h : l.Pairwise MessageMeta.Earlier) :
    l.Pairwise fun a b => decide (b.timestampNs ≤ cutoffNs) = true →
      decide (a.timestampNs ≤ cutoffNs) = true := by
  refine h.imp fun hab hb => ?_
  have := hab.2
  simp only [decide_eq_true_eq] at hb ⊢
  omega

theorem earlier_position {l : List MessageMeta} (h : l.Pairwise MessageMeta.Earlier) :
    l.Pairwise fun a b => decide (b.position ≤ position) = true →
      decide (a.position ≤ position) = true := by
  refine h.imp fun hab hb => ?_
  have := hab.1
  simp only [decide_eq_true_eq] at hb ⊢
  omega

variable {position cutoffNs}

theorem expired_eq_nil {l : List MessageMeta} (h : ∀ message ∈ l, cutoffNs < message.timestampNs) :
    expired position cutoffNs l = [] := by
  refine List.filter_eq_nil_iff.2 fun message hmem => ?_
  have := h message (List.mem_of_mem_filter hmem)
  simp only [decide_eq_true_eq]
  omega

theorem expiredAfter_eq {stored : List MessageMeta} (h : stored.Pairwise MessageMeta.Earlier)
    (maxMessages : ℕ) :
    expiredAfter stored position cutoffNs maxMessages =
      lastOf ((expired position cutoffNs stored).take maxMessages) := by
  have hfront := earlier_front cutoffNs
    (h.filter fun message => decide (position < message.position))
  rw [expiredAfter, takeWhile_eq_take, expired, filter_eq_take hfront]

end Ordered

variable {taken : List MessageMeta}

theorem lastOf_append_take {l : List MessageMeta} {first n : ℕ} {message : MessageMeta} (hn : 0 < n)
    (hget : l[first + n - 1]? = some message) :
    lastOf (taken ++ (l.drop first).take n) = some (message.position, taken.length + n) := by
  have hlt := (List.getElem?_eq_some_iff.1 hget).1
  have hlength : ((l.drop first).take n).length = n := by
    rw [List.length_take, List.length_drop]
    omega
  have hlast : ((l.drop first).take n).getLast? = some message := by
    rw [List.getLast?_eq_getElem?, hlength, List.getElem?_take, if_pos (by omega),
      List.getElem?_drop, show first + (n - 1) = first + n - 1 by omega, hget]
  rw [lastOf, List.getLast?_append, hlast, List.length_append, hlength]
  rfl

/-! ### One sealed segment -/

namespace SealedMessages.Describes

variable {segment : SealedMessages} (h : segment.Describes)
include h

theorem times_mem (hordered : segment.metadata.messages.Pairwise MessageMeta.Earlier)
    {message : MessageMeta} (hmem : message ∈ segment.metadata.messages) :
    segment.firstTimestampNs ≤ message.timestampNs ∧
      message.timestampNs ≤ segment.lastTimestampNs := by
  obtain ⟨first, -, hfirst, -, -, hfirstTime⟩ := h.first_mem
  obtain ⟨last, -, hlast, -, -, hlastTime⟩ := h.last_mem
  rw [hfirstTime, hlastTime]
  exact between_of_pairwise (hordered.imp And.right) hfirst hlast hmem

variable {position first low : ℕ} {cutoffNs : ℤ} (hfirst : position + 1 - segment.firstPosition = first)
include hfirst

/-- The first ordinal behind a position that lies before the end of the segment. -/
theorem firstOrdinal_eq (hbehind : position < segment.lastPosition)
    (hword : segment.lastPosition ≤ u64Max) :
    min (satSucc position - segment.firstPosition) segment.count = first ∧ first < segment.count := by
  have hsucc : satSucc position = position + 1 := satSucc_eq (by omega)
  have hlast := h.lastPosition_eq
  have hcount := h.count_pos
  omega

/-- A segment that is not newer than the cutoff as a whole expires from that ordinal on. -/
theorem expired_whole (hordered : segment.metadata.messages.Pairwise MessageMeta.Earlier)
    (htime : segment.lastTimestampNs ≤ cutoffNs) :
    expired position cutoffNs segment.metadata.messages = segment.metadata.messages.drop first := by
  rw [expired, h.consecutive.filter_lt position, hfirst]
  refine List.filter_eq_self.2 fun message hmem => ?_
  have := (h.times_mem hordered (List.mem_of_mem_drop hmem)).2
  simp only [decide_eq_true_eq]
  omega

/-- Where the search ends, the expired messages of the segment end. -/
theorem expired_part (hle : first ≤ low)
    (hbefore : ∀ i message, first ≤ i → i < low →
      segment.metadata.messages[i]? = some message → message.timestampNs ≤ cutoffNs)
    (hafter : ∀ i message, low ≤ i → i < segment.count →
      segment.metadata.messages[i]? = some message → cutoffNs < message.timestampNs) :
    expired position cutoffNs segment.metadata.messages =
      (segment.metadata.messages.drop first).take (low - first) := by
  have hcount := h.count_eq
  rw [expired, h.consecutive.filter_lt position, hfirst]
  rw [← List.take_append_drop (low - first) (segment.metadata.messages.drop first), List.filter_append]
  have hfront : ∀ message ∈ (segment.metadata.messages.drop first).take (low - first),
      message.timestampNs ≤ cutoffNs := by
    intro message hmem
    obtain ⟨i, hi⟩ := List.mem_iff_getElem?.1 hmem
    rw [List.getElem?_take] at hi
    by_cases hlt : i < low - first
    · rw [if_pos hlt, List.getElem?_drop] at hi
      exact hbefore _ message (by omega) (by omega) hi
    · rw [if_neg hlt] at hi
      cases hi
  have hback : ∀ message ∈ (segment.metadata.messages.drop first).drop (low - first),
      cutoffNs < message.timestampNs := by
    intro message hmem
    obtain ⟨i, hi⟩ := List.mem_iff_getElem?.1 hmem
    rw [List.getElem?_drop, List.getElem?_drop] at hi
    have hlt := (List.getElem?_eq_some_iff.1 hi).1
    exact hafter _ message (by omega) (by omega) hi
  rw [List.filter_eq_self.2 fun message hmem => by simpa using hfront message hmem,
    List.filter_eq_nil_iff.2 fun message hmem => by simpa using hback message hmem,
    List.append_nil, List.take_append_drop]

end SealedMessages.Describes

namespace MessageIndex

/-! ### The loop over the sealed segments -/

section Loop

variable {position maxMessages : ℕ} {cutoffNs : ℤ}

/-- What the loop knows after a run of expired messages. -/
def progress (taken : List MessageMeta) : Option ℕ × ℕ :=
  (taken.getLast?.map MessageMeta.position, taken.length)

theorem progress_map (taken : List MessageMeta) :
    ((progress taken).1.map fun through => (through, (progress taken).2)) = lastOf taken := by
  rw [progress, lastOf, Option.map_map]
  rfl

/-- A run that fills the budget inside a list. -/
theorem lastOf_take_append {l rest : List MessageMeta} {first n : ℕ} {message : MessageMeta}
    (hn : 0 < n) (hget : l[first + n - 1]? = some message) (hmax : taken.length + n = maxMessages) :
    lastOf ((taken ++ (l.drop first ++ rest)).take maxMessages) =
      some (message.position, taken.length + n) := by
  have hlt := (List.getElem?_eq_some_iff.1 hget).1
  have htake : (taken ++ (l.drop first ++ rest)).take maxMessages =
      taken ++ (l.drop first).take n := by
    rw [← hmax, List.take_length_add_append, List.take_append_of_le_length]
    rw [List.length_drop]
    omega
  rw [htake]
  exact lastOf_append_take hn hget

section Turn

variable {segment : SealedMessages} {rest : List SealedMessages} (hsegment : segment.Describes)
  (hordered : segment.metadata.messages.Pairwise MessageMeta.Earlier)
  (hbehind : position < segment.lastPosition) (hword : segment.lastPosition ≤ u64Max)
  (hnew : segment.firstTimestampNs ≤ cutoffNs) (hmax : maxMessages ≤ u64Max)
  (htaken : taken.length < maxMessages)
include hsegment hordered hbehind hword hnew hmax htaken

/-- A turn of the loop over a segment that is expired as a whole. -/
theorem expiredSealed_whole (hlast : segment.lastTimestampNs ≤ cutoffNs) :
    (∃ answer, expiredSealed position cutoffNs maxMessages (progress taken) (segment :: rest) =
        .ok (.inl answer) ∧
      ∀ more, answer = lastOf ((taken ++ (expired position cutoffNs segment.metadata.messages ++
        more)).take maxMessages)) ∨
    (taken ++ expired position cutoffNs segment.metadata.messages).length < maxMessages ∧
      expiredSealed position cutoffNs maxMessages (progress taken) (segment :: rest) =
        expiredSealed position cutoffNs maxMessages
          (progress (taken ++ expired position cutoffNs segment.metadata.messages)) rest := by
  obtain ⟨first, hfirst⟩ : ∃ first, position + 1 - segment.firstPosition = first := ⟨_, rfl⟩
  obtain ⟨hordinal, hlt⟩ := hsegment.firstOrdinal_eq hfirst hbehind hword
  have hcount := hsegment.count_eq
  rw [hsegment.expired_whole hfirst hordered hlast]
  have hlength : (segment.metadata.messages.drop first).length = segment.count - first := by
    rw [List.length_drop, hcount]
  rw [progress, expiredSealed]
  simp only [hordinal]
  rw [if_neg (by omega), if_pos hlast, if_neg (by omega)]
  by_cases hroom : segment.count - first ≤ maxMessages - taken.length
  · -- the rest of the segment fits into the budget
    obtain ⟨last, -, hget, hposition, -⟩ := hsegment.last_mem
    rw [List.getLast?_eq_getElem?] at hget
    have hmessages : satAdd u64Max taken.length (segment.count - first) =
        taken.length + (segment.count - first) := satAdd_eq (by omega)
    rw [Nat.min_eq_left hroom, if_pos rfl]
    simp only [pure_bind, hmessages]
    by_cases hfull : maxMessages ≤ taken.length + (segment.count - first)
    · left
      rw [if_pos (Or.inr hfull)]
      refine ⟨_, rfl, fun more => ?_⟩
      rw [hposition]
      refine (lastOf_take_append (by omega) ?_ (by omega)).symm
      rw [← hget]
      congr 1
      omega
    · right
      rw [if_neg (by omega)]
      refine ⟨?_, ?_⟩
      · rw [List.length_append, hlength]
        omega
      · have hdrop : (segment.metadata.messages.drop first).getLast? = some last := by
          rw [List.getLast?_eq_getElem?, hlength, List.getElem?_drop, ← hget]
          congr 1
          omega
        rw [progress, List.getLast?_append, hdrop, List.length_append, hlength, hposition]
        rfl
  · -- the budget ends inside the segment
    left
    have htake : min (segment.count - first) (maxMessages - taken.length) =
        maxMessages - taken.length := by omega
    obtain ⟨message, hmessage⟩ := hsegment.exists_getElem?
      (show first + (maxMessages - taken.length) - 1 < segment.count by omega)
    rw [htake, if_neg (by omega)]
    simp only [loadOrdinal_eq hmessage, pure, bind, Except.pure, Except.bind]
    rw [if_pos (Or.inl (by omega))]
    refine ⟨_, rfl, fun more => ?_⟩
    rw [satAdd_eq (by omega)]
    exact (lastOf_take_append (by omega) hmessage (by omega)).symm

/-- A turn of the loop over a segment that the cutoff divides ends the call. -/
theorem expiredSealed_part (hlast : cutoffNs < segment.lastTimestampNs) :
    expiredSealed position cutoffNs maxMessages (progress taken) (segment :: rest) =
      .ok (.inl (lastOf ((taken ++ expired position cutoffNs segment.metadata.messages).take
        maxMessages))) := by
  obtain ⟨first, hfirst⟩ : ∃ first, position + 1 - segment.firstPosition = first := ⟨_, rfl⟩
  obtain ⟨hordinal, hlt⟩ := hsegment.firstOrdinal_eq hfirst hbehind hword
  have hcount := hsegment.count_eq
  obtain ⟨low, hlow, hge, hle, hbefore, hafter⟩ :=
    searchOrdinal_spec (earlier_front cutoffNs hordered) (segment.count - first) first segment.count
      le_rfl hlt.le hcount.le
  have hexpired := hsegment.expired_part hfirst hge
    (fun i message h1 h2 hget => by simpa using hbefore i message h1 h2 hget)
    (fun i message h1 h2 hget => by simpa using hafter i message h1 h2 hget)
  rw [progress, expiredSealed]
  simp only [hordinal]
  rw [if_neg (by omega), if_neg (by omega), hlow]
  simp only [bind, Except.bind]
  by_cases hsome : first < low
  · rw [if_pos hsome]
    obtain ⟨message, hmessage⟩ := hsegment.exists_getElem?
      (show first + min (low - first) (maxMessages - taken.length) - 1 < segment.count by omega)
    rw [loadOrdinal_eq hmessage, hexpired]
    have hrun : (taken ++ (segment.metadata.messages.drop first).take (low - first)).take maxMessages =
        taken ++ (segment.metadata.messages.drop first).take
          (min (low - first) (maxMessages - taken.length)) := by
      rw [List.take_append, List.take_of_length_le htaken.le, List.take_take, min_comm]
    rw [hrun, lastOf_append_take (by omega) hmessage]
    simp only [pure, Except.pure]
    rw [satAdd_eq (by omega)]
  · have hnone : low - first = 0 := by omega
    rw [if_neg hsome, hexpired, hnone, List.take_zero, List.append_nil,
      List.take_of_length_le htaken.le, ← progress_map]
    rfl

end Turn

/-- The loop finds the expired messages of all segments, or ends the call with the answer. -/
theorem expiredSealed_spec (cutoffNs : ℤ) (hmax : maxMessages ≤ u64Max) {tail : List MessageMeta}
    (segments : List SealedMessages) (taken : List MessageMeta)
    (hdescribed : ∀ segment ∈ segments, segment.Describes)
    (hbehind : ∀ segment ∈ segments, position < segment.lastPosition)
    (hword : ∀ segment ∈ segments, segment.lastPosition ≤ u64Max)
    (hordered : (segments.flatMap (fun segment => segment.metadata.messages) ++ tail).Pairwise
      MessageMeta.Earlier)
    (htaken : taken.length < maxMessages) :
    ∃ result, expiredSealed position cutoffNs maxMessages (progress taken) segments = .ok result ∧
      (∀ answer, result = .inl answer →
        answer = lastOf ((taken ++ expired position cutoffNs
          (segments.flatMap (fun segment => segment.metadata.messages) ++ tail)).take
            maxMessages)) ∧
      ∀ found, result = .inr found → ∃ run : List MessageMeta,
        run = taken ++ expired position cutoffNs
          (segments.flatMap fun segment => segment.metadata.messages) ∧
        run.length < maxMessages ∧ found = progress run := by
  induction segments generalizing taken with
  | nil =>
    refine ⟨.inr (progress taken), rfl, by simp, fun found hfound => ?_⟩
    cases hfound
    exact ⟨taken, by simp [expired], htaken, rfl⟩
  | cons segment rest ih =>
    have hsegment := hdescribed segment (List.mem_cons_self ..)
    have hsegmentBehind := hbehind segment (List.mem_cons_self ..)
    have hsegmentWord := hword segment (List.mem_cons_self ..)
    rw [List.flatMap_cons, List.append_assoc, List.pairwise_append] at hordered
    obtain ⟨hhere, hlater, hacross⟩ := hordered
    have hnext := fun taken => ih taken
      (fun other hother => hdescribed other (List.mem_cons_of_mem _ hother))
      (fun other hother => hbehind other (List.mem_cons_of_mem _ hother))
      (fun other hother => hword other (List.mem_cons_of_mem _ hother)) hlater
    rw [List.flatMap_cons, List.append_assoc,
      expired_append position cutoffNs segment.metadata.messages (_ ++ tail),
      expired_append position cutoffNs segment.metadata.messages (rest.flatMap _)]
    by_cases hfirst : cutoffNs < segment.firstTimestampNs
    · -- the segment is newer than the cutoff as a whole
      have hempty : expired position cutoffNs segment.metadata.messages = [] :=
        expired_eq_nil fun message hmem => hfirst.trans_le (hsegment.times_mem hhere hmem).1
      have hskip : expiredSealed position cutoffNs maxMessages (progress taken) (segment :: rest) =
          expiredSealed position cutoffNs maxMessages (progress taken) rest := by
        rw [progress, expiredSealed, if_pos (Or.inr hfirst)]
      rw [hempty, hskip, List.nil_append, List.nil_append]
      exact hnext taken htaken
    · by_cases hlast : segment.lastTimestampNs ≤ cutoffNs
      · rcases expiredSealed_whole hsegment hhere hsegmentBehind hsegmentWord (not_lt.1 hfirst) hmax
          htaken hlast with ⟨answer, hanswer, hall⟩ | ⟨hroom, hstep⟩
        · refine ⟨.inl answer, hanswer, fun other hother => ?_, by simp⟩
          cases hother
          exact hall _
        · rw [hstep]
          simp only [← List.append_assoc taken]
          exact hnext _ hroom
      · -- everything behind the segment is newer than the cutoff
        have hempty : expired position cutoffNs
            (rest.flatMap (fun segment => segment.metadata.messages) ++ tail) = [] := by
          obtain ⟨last, hmem, -, -, -, htime⟩ := hsegment.last_mem
          refine expired_eq_nil fun message hmessage => ?_
          have := (hacross last hmem message hmessage).2
          omega
        refine ⟨_, expiredSealed_part hsegment hhere hsegmentBehind hsegmentWord (not_lt.1 hfirst)
          hmax htaken (not_le.1 hlast), fun answer hanswer => ?_, by simp⟩
        cases hanswer
        rw [hempty, List.append_nil]

end Loop

/-! ### The active messages -/

/-- The subtraction of the two partition points of the active messages wraps.  A call that ends
in the sealed segments does not reach it, and has no active message up to its position. -/
def Underflows (index : MessageIndex) (position : ℕ) (cutoffNs : ℤ) : Prop :=
  partitionPoint (fun message => decide (message.timestampNs ≤ cutoffNs)) index.active <
    partitionPoint (fun message => decide (message.position ≤ position)) index.active

namespace Chronological

variable {index : MessageIndex} (h : index.Chronological) {position : ℕ} {cutoffNs : ℤ}
include h

theorem active_ordered : index.active.Pairwise MessageMeta.Earlier :=
  (List.pairwise_append.1 h.ordered).2.1

theorem active_length : index.active.length ≤ u64Max :=
  length_le_of_increasing (h.active_ordered.imp And.left) fun message hmem =>
    h.bounded message (mem_messages.2 (Or.inr hmem))

/-- The subtraction is safe exactly if the active messages up to the position have expired. -/
theorem not_underflows_iff :
    ¬index.Underflows position cutoffNs ↔
      ∀ message ∈ index.active, message.position ≤ position → message.timestampNs ≤ cutoffNs := by
  unfold Underflows
  rw [not_lt]
  constructor
  · intro hle message hmem hposition
    obtain ⟨i, hi⟩ := List.mem_iff_getElem?.1 hmem
    have hlt := lt_partitionPoint (earlier_position position h.active_ordered) hi
      (by simpa using hposition)
    simpa using of_lt_partitionPoint (hlt.trans_le hle) hi
  · intro hall
    by_contra hlt
    rw [not_le] at hlt
    have hbound := hlt.trans_le (partitionPoint_le index.active)
    -- the first message that is newer than the cutoff lies up to the position
    have hget := List.getElem?_eq_getElem hbound
    have hposition := of_lt_partitionPoint hlt hget
    have htime := hall _ (List.getElem_mem hbound) (by simpa using hposition)
    rw [getElem?_partitionPoint] at hget
    have hnot := List.find?_some hget
    simp only [Bool.not_eq_true', decide_eq_false_iff_not] at hnot
    exact hnot htime

/-- The expired active messages lie between the two partition points. -/
theorem expired_active (hsafe : ¬index.Underflows position cutoffNs) :
    expired position cutoffNs index.active =
      (index.active.drop
        (partitionPoint (fun message => decide (message.position ≤ position)) index.active)).take
        (partitionPoint (fun message => decide (message.timestampNs ≤ cutoffNs)) index.active -
          partitionPoint (fun message => decide (message.position ≤ position)) index.active) := by
  have hbehind : (fun message : MessageMeta => decide (position < message.position)) =
      fun message => !decide (message.position ≤ position) := by
    funext message
    rw [← decide_not]
    exact decide_eq_decide.2 not_le.symm
  have hfront : (index.active.take (partitionPoint
      (fun message => decide (message.timestampNs ≤ cutoffNs)) index.active)).Pairwise
        MessageMeta.Earlier :=
    h.active_ordered.sublist (List.take_sublist _ _)
  have hswap : expired position cutoffNs index.active =
      (index.active.filter fun message => decide (message.timestampNs ≤ cutoffNs)).filter
        fun message => decide (position < message.position) := by
    simp only [expired, List.filter_filter, Bool.and_comm]
  rw [hswap, filter_eq_take (earlier_front cutoffNs h.active_ordered), hbehind,
    filter_not_eq_drop (earlier_position position hfront), partitionPoint_take,
    Nat.min_eq_left (not_lt.1 hsafe), List.drop_take]

theorem sealed_ordered : index.sealed.Pairwise fun a b =>
    decide (b.lastPosition ≤ position) = true → decide (a.lastPosition ≤ position) = true := by
  refine (List.pairwise_flatMap.1 (List.pairwise_append.1 h.ordered).1).2.imp_of_mem ?_
  intro a b ha hb hacross hle
  obtain ⟨lastA, hmemA, -, hpositionA, -⟩ := (h.described a ha).last_mem
  obtain ⟨lastB, hmemB, -, hpositionB, -⟩ := (h.described b hb).last_mem
  have := (hacross lastA hmemA lastB hmemB).1
  simp only [decide_eq_true_eq] at hle ⊢
  omega

/-- The sealed segments that the call looks at end behind the position. -/
theorem behind {segment : SealedMessages}
    (hmem : segment ∈ index.sealed.drop
      (partitionPoint (fun segment => decide (segment.lastPosition ≤ position)) index.sealed)) :
    position < segment.lastPosition := by
  rw [← filter_not_eq_drop h.sealed_ordered] at hmem
  have := List.of_mem_filter hmem
  simp only [Bool.not_eq_true', decide_eq_false_iff_not] at this
  omega

/-- The sealed segments that the call skips hold nothing behind the position. -/
theorem expired_skipped :
    expired position cutoffNs ((index.sealed.take (partitionPoint
      (fun segment => decide (segment.lastPosition ≤ position)) index.sealed)).flatMap
        fun segment => segment.metadata.messages) = [] := by
  have hnone : (((index.sealed.take (partitionPoint
      (fun segment => decide (segment.lastPosition ≤ position)) index.sealed)).flatMap
        fun segment => segment.metadata.messages).filter
          fun message => decide (position < message.position)) = [] := by
    refine List.filter_eq_nil_iff.2 fun message hmessage => ?_
    obtain ⟨segment, hsegment, hin⟩ := List.mem_flatMap.1 hmessage
    rw [← filter_eq_take h.sealed_ordered] at hsegment
    obtain ⟨hmem, hlast⟩ := List.mem_filter.1 hsegment
    have := ((h.described segment hmem).position_mem hin).2
    simp only [decide_eq_true_eq] at hlast ⊢
    omega
  rw [expired, hnone, List.filter_nil]

/-- The answer from the sealed run and the active messages. -/
theorem expiredActive_eq {maxMessages : ℕ} (hmax : maxMessages ≤ u64Max)
    (htaken : taken.length < maxMessages) (hsafe : ¬index.Underflows position cutoffNs) :
    index.expiredActive position cutoffNs maxMessages (progress taken) =
      lastOf ((taken ++ expired position cutoffNs index.active).take maxMessages) := by
  have hrun := h.expired_active hsafe
  unfold Underflows at hsafe
  have hlength := h.active_length
  have hbound := partitionPoint_le
    (f := fun message : MessageMeta => decide (message.timestampNs ≤ cutoffNs)) index.active
  unfold expiredActive
  revert hsafe hrun hbound
  generalize partitionPoint (fun message => decide (message.position ≤ position)) index.active =
    firstActive
  generalize partitionPoint (fun message => decide (message.timestampNs ≤ cutoffNs)) index.active =
    finish
  intro hsafe hrun hbound
  rw [hrun, List.take_append, List.take_of_length_le htaken.le, List.take_take, min_comm]
  dsimp only [progress]
  rw [wrapSub_eq (not_lt.1 hsafe) (by omega)]
  by_cases hpositive : 0 < min (finish - firstActive) (maxMessages - taken.length)
  · have hplace : wrapSub (wrapAdd firstActive
        (min (finish - firstActive) (maxMessages - taken.length))) 1 =
          firstActive + min (finish - firstActive) (maxMessages - taken.length) - 1 := by
      rw [wrapAdd_eq (by omega), wrapSub_eq (by omega) (by omega)]
    have hlt : firstActive + min (finish - firstActive) (maxMessages - taken.length) - 1 <
        index.active.length := by omega
    rw [if_pos hpositive, hplace, satAdd_eq (by omega),
      lastOf_append_take hpositive (List.getElem?_eq_getElem hlt), List.getElem?_eq_getElem hlt]
    rfl
  · have hzero : min (finish - firstActive) (maxMessages - taken.length) = 0 := by omega
    rw [if_neg hpositive, hzero, List.take_zero, List.append_nil]
    exact progress_map taken

/-- **Where expiry is exact.**  On an index in order of position and time the call answers the
specification without wrapping exactly if no active message up to the position is newer than the
cutoff. -/
theorem throughTimestampAfter_iff {maxMessages : ℕ} (hpositive : 1 ≤ maxMessages)
    (hmax : maxMessages ≤ u64Max) :
    (index.throughTimestampAfter position cutoffNs maxMessages =
        .ok (expiredAfter index.messages position cutoffNs maxMessages) ∧
      ¬index.Underflows position cutoffNs) ↔
    ∀ message ∈ index.active, message.position ≤ position → message.timestampNs ≤ cutoffNs := by
  rw [← h.not_underflows_iff]
  refine ⟨fun hboth => hboth.2, fun hsafe => ⟨?_, hsafe⟩⟩
  let skipped := partitionPoint (fun segment => decide (segment.lastPosition ≤ position)) index.sealed
  let sealed := (index.sealed.drop skipped).flatMap fun segment => segment.metadata.messages
  have hsplit : index.messages = (index.sealed.take skipped).flatMap
      (fun segment => segment.metadata.messages) ++ (sealed ++ index.active) := by
    rw [← List.append_assoc, ← List.flatMap_append, List.take_append_drop]
    rfl
  have hexpired : expired position cutoffNs index.messages =
      expired position cutoffNs (sealed ++ index.active) := by
    rw [hsplit, expired_append, h.expired_skipped, List.nil_append]
  have hordered : (sealed ++ index.active).Pairwise MessageMeta.Earlier := by
    have := h.ordered
    rw [hsplit] at this
    exact (List.pairwise_append.1 this).2.1
  have hmem : ∀ segment ∈ index.sealed.drop skipped, segment ∈ index.sealed :=
    fun segment hsegment => List.mem_of_mem_drop hsegment
  have hword : ∀ segment ∈ index.sealed.drop skipped, segment.lastPosition ≤ u64Max := by
    intro segment hsegment
    obtain ⟨last, hin, -, hposition, -⟩ := (h.described segment (hmem segment hsegment)).last_mem
    rw [hposition]
    exact (h.bounded last (mem_messages.2 (Or.inl ⟨segment, hmem segment hsegment, hin⟩))).2
  have hloop := expiredSealed_spec cutoffNs hmax (index.sealed.drop skipped) []
    (fun segment hsegment => h.described segment (hmem segment hsegment))
    (fun segment hsegment => h.behind hsegment) hword hordered hpositive
  obtain ⟨result, hresult, hinl, hinr⟩ := hloop
  rw [expiredAfter_eq h.ordered, hexpired, throughTimestampAfter,
    show ((none, 0) : Option ℕ × ℕ) = progress [] from rfl, hresult]
  cases result with
  | inl answer =>
    rw [hinl answer rfl]
    rfl
  | inr found =>
    obtain ⟨run, hrun, hroom, rfl⟩ := hinr found rfl
    rw [List.nil_append] at hrun
    rw [expired_append, ← hrun, ← h.expiredActive_eq hmax hroom hsafe]
    rfl

end Chronological

/-- Three active messages at times 10, 20 and 30. -/
def threeMessages : MessageIndex :=
  ⟨[], [⟨1, 1, 10, 0, 0, ⟨0, 0, 1, 0⟩⟩, ⟨2, 2, 20, 0, 0, ⟨0, 1, 1, 0⟩⟩,
    ⟨3, 3, 30, 0, 0, ⟨0, 2, 1, 0⟩⟩], 3⟩

theorem threeMessages_chronological : threeMessages.Chronological :=
  ⟨by simp [threeMessages], by decide, by decide⟩

/-- The first two messages expire at time 20. -/
theorem throughTimestampAfter_iff_threeMessages :
    1 ≤ 5 ∧ threeMessages.throughTimestampAfter 0 20 5 = .ok (some (2, 2)) := by
  have hiff : (threeMessages.throughTimestampAfter 0 20 5 =
        .ok (expiredAfter threeMessages.messages 0 20 5) ∧ ¬threeMessages.Underflows 0 20) ↔ _ :=
    threeMessages_chronological.throughTimestampAfter_iff (by decide) (by decide)
  exact ⟨by decide, (hiff.2 (by decide)).1⟩

/-- The first two messages have expired, and the cutoff falls back to time 5.  The third message,
which is newer, is handed out as expired. -/
theorem throughTimestampAfter_newer :
    threeMessages.Chronological ∧
      threeMessages.throughTimestampAfter 2 5 1 = .ok (some (3, 1)) ∧
      expiredAfter threeMessages.messages 2 5 1 = none :=
  ⟨threeMessages_chronological, by decide +kernel, by decide⟩

end MessageIndex

end RustQueue.Topic
