import RustQueue.Lib.Consecutive
import RustQueue.Topic.Index

/-!
# What the message index stores

`MessageIndex.messages` lists the stored messages in the order of their positions: those of the
sealed segments, then the active ones.  `WellFormed` says that the summaries describe their
sidecars, that positions and ids grow along the list, and that the counter is its length.

Every query is then a query of the list:

* `lookup_of_mem`, `lookup_absent`: a lookup by position, whatever pages are resident;
* `positionById_of_mem`, `firstMessageAfter_eq`: the searches over sidecars;
* `countAfterPosition_eq`: the count taken from the summaries.
-/

namespace RustQueue.Topic

open Lib

/-- Positions and ids grow together. -/
def MessageMeta.Before (a b : MessageMeta) : Prop := a.position < b.position ∧ a.id < b.id

instance (a b : MessageMeta) : Decidable (a.Before b) := by
  unfold MessageMeta.Before
  infer_instance

/-! ### Sealed segments -/

variable {message : MessageMeta}

variable {segment : SealedMessages}

theorem MessageIndex.loadOrdinal_eq {ordinal : ℕ}
    (hget : segment.metadata.messages[ordinal]? = some message) :
    loadOrdinal segment ordinal = .ok message := by
  rw [loadOrdinal, hget]

/-- The page of an ordinal holds the message at the offset the lookup reads. -/
theorem MessageIndex.page_getElem? (segment : SealedMessages) {ordinal : ℕ} (hlt : ordinal < segment.count) :
    (page (pageRequest segment ordinal))[ordinal - (pageRequest segment ordinal).firstOrdinal]? =
      segment.metadata.messages[ordinal]? := by
  have hfloor : ordinal / pageMessages * pageMessages ≤ ordinal := Nat.div_mul_le_self _ _
  have hceil : ordinal < ordinal / pageMessages * pageMessages + pageMessages :=
    Nat.lt_div_mul_add (by decide)
  simp only [page, pageRequest, List.getElem?_take, List.getElem?_drop]
  rw [if_pos (by omega), Nat.add_sub_cancel' hfloor]

/-- The summary fits the messages of the sidecar. -/
structure SealedMessages.Describes (segment : SealedMessages) : Prop where
  summary : ∃ first last, segment.metadata.messages.head? = some first ∧
    segment.metadata.messages.getLast? = some last ∧
    segment = .summary segment.metadata segment.metadata.messages first last
  consecutive : Consecutive MessageMeta.position segment.firstPosition segment.metadata.messages

namespace SealedMessages.Describes

variable {segment : SealedMessages} (h : segment.Describes)
include h

theorem count_eq : segment.count = segment.metadata.messages.length := by
  obtain ⟨first, last, -, -, heq⟩ := h.summary
  rw [heq]
  rfl

theorem first_mem : ∃ first ∈ segment.metadata.messages,
    segment.metadata.messages.head? = some first ∧ segment.firstPosition = first.position ∧
    segment.firstId = first.id ∧ segment.firstTimestampNs = first.timestampNs := by
  obtain ⟨first, last, hfirst, -, heq⟩ := h.summary
  exact ⟨first, List.mem_of_mem_head? hfirst, hfirst, by rw [heq]; rfl, by rw [heq]; rfl,
    by rw [heq]; rfl⟩

theorem last_mem : ∃ last ∈ segment.metadata.messages,
    segment.metadata.messages.getLast? = some last ∧ segment.lastPosition = last.position ∧
    segment.lastId = last.id ∧ segment.lastTimestampNs = last.timestampNs := by
  obtain ⟨first, last, -, hlast, heq⟩ := h.summary
  exact ⟨last, List.mem_of_getLast? hlast, hlast, by rw [heq]; rfl, by rw [heq]; rfl,
    by rw [heq]; rfl⟩

theorem count_pos : 0 < segment.count := by
  obtain ⟨first, hmem, -⟩ := h.first_mem
  rw [h.count_eq]
  exact List.length_pos_of_mem hmem

theorem lastPosition_eq : segment.lastPosition + 1 = segment.firstPosition + segment.count := by
  obtain ⟨last, -, hlast, heq, -⟩ := h.last_mem
  rw [heq, h.count_eq]
  exact h.consecutive.getLast? hlast

/-- A position of the segment's range is the position of the message at its ordinal. -/
theorem getElem?_iff {ordinal : ℕ} : segment.metadata.messages[ordinal]? = some message ↔
      message ∈ segment.metadata.messages ∧ message.position = segment.firstPosition + ordinal := by
  constructor
  · intro hget
    exact ⟨List.mem_of_getElem? hget, h.consecutive.getElem? hget⟩
  · rintro ⟨hmem, hposition⟩
    obtain ⟨i, hi⟩ := List.mem_iff_getElem?.1 hmem
    have hplace := h.consecutive.getElem? hi
    have heq : ordinal = i := by omega
    rw [heq, hi]

theorem position_mem (hmem : message ∈ segment.metadata.messages) :
    segment.firstPosition ≤ message.position ∧ message.position ≤ segment.lastPosition := by
  have hrange := h.consecutive.mem hmem
  have hlast := h.lastPosition_eq
  have hcount := h.count_eq
  omega

theorem exists_getElem? {ordinal : ℕ} (hlt : ordinal < segment.count) :
    ∃ message, segment.metadata.messages[ordinal]? = some message := by
  rw [h.count_eq] at hlt
  exact ⟨_, List.getElem?_eq_getElem hlt⟩

end SealedMessages.Describes

namespace MessageIndex

/-- The binary search ends at the first entry that is not in front, if the entries in front
come first. -/
theorem searchOrdinal_spec {front : MessageMeta → Bool}
    (hfront : segment.metadata.messages.Pairwise fun a b => front b = true → front a = true)
    (fuel low high : ℕ) (hfuel : high - low ≤ fuel) (hle : low ≤ high)
    (hhigh : high ≤ segment.metadata.messages.length) :
    ∃ r, searchOrdinal segment front fuel low high = .ok r ∧ low ≤ r ∧ r ≤ high ∧
      (∀ i message, low ≤ i → i < r → segment.metadata.messages[i]? = some message →
        front message = true) ∧
      ∀ i message, r ≤ i → i < high → segment.metadata.messages[i]? = some message →
        front message = false := by
  have hmono : ∀ {i j : ℕ} {a b : MessageMeta}, i ≤ j → segment.metadata.messages[i]? = some a →
      segment.metadata.messages[j]? = some b → front b = true → front a = true := by
    intro i j a b hij ha hb hfb
    rcases hij.lt_or_eq with hlt | rfl
    · obtain ⟨hj, rfl⟩ := List.getElem?_eq_some_iff.1 hb
      obtain ⟨hi, rfl⟩ := List.getElem?_eq_some_iff.1 ha
      exact List.pairwise_iff_getElem.1 hfront i j hi hj hlt hfb
    · rw [ha] at hb
      cases hb
      exact hfb
  induction fuel generalizing low high with
  | zero => exact ⟨low, rfl, le_rfl, hle, fun i _ h1 h2 => by omega, fun i _ h1 h2 => by omega⟩
  | succ fuel ih =>
    rw [searchOrdinal]
    by_cases hlt : low < high
    · rw [if_pos hlt]
      have hmid : low + (high - low) / 2 < segment.metadata.messages.length := by omega
      obtain ⟨message, hmessage⟩ : ∃ message,
          segment.metadata.messages[low + (high - low) / 2]? = some message :=
        ⟨_, List.getElem?_eq_getElem hmid⟩
      simp only [loadOrdinal_eq hmessage, bind, Except.bind]
      cases hf : front message with
      | true =>
        rw [if_pos rfl]
        obtain ⟨r, hr, h1, h2, h3, h4⟩ :=
          ih (low + (high - low) / 2 + 1) high (by omega) (by omega) hhigh
        refine ⟨r, hr, by omega, h2, fun i a hi hir ha => ?_, h4⟩
        by_cases him : i ≤ low + (high - low) / 2
        · exact hmono him ha hmessage hf
        · exact h3 i a (by omega) hir ha
      | false =>
        rw [if_neg (by simp)]
        obtain ⟨r, hr, h1, h2, h3, h4⟩ :=
          ih low (low + (high - low) / 2) (by omega) (by omega) (by omega)
        refine ⟨r, hr, h1, by omega, h3, fun i a hi hih ha => ?_⟩
        by_cases him : i < low + (high - low) / 2
        · exact h4 i a hi him ha
        · by_contra hfa
          have := hmono (not_lt.1 him) hmessage ha (by simpa using hfa)
          simp [hf] at this
    · rw [if_neg hlt]
      exact ⟨low, rfl, le_rfl, hle, fun i _ h1 h2 => by omega, fun i _ h1 h2 => by omega⟩

/-- Everything the index stores, in order. -/
def messages (index : MessageIndex) : List MessageMeta :=
  index.sealed.flatMap (fun segment => segment.metadata.messages) ++ index.active

theorem length_le_of_increasing {l : List MessageMeta}
    (hincreasing : l.Pairwise fun a b => a.position < b.position)
    (hbounded : ∀ message ∈ l, 0 < message.position ∧ message.position ≤ u64Max) :
    l.length ≤ u64Max := by
  have hnodup : (l.map MessageMeta.position).Nodup :=
    List.pairwise_map.2 (hincreasing.imp fun hab => hab.ne)
  have hsub : (l.map MessageMeta.position).toFinset ⊆ Finset.Icc 1 u64Max := by
    intro p hp
    rw [List.mem_toFinset, List.mem_map] at hp
    obtain ⟨message, hmem, rfl⟩ := hp
    obtain ⟨hpos, hle⟩ := hbounded message hmem
    exact Finset.mem_Icc.2 ⟨hpos, hle⟩
  have hcard := Finset.card_le_card hsub
  rw [List.toFinset_card_of_nodup hnodup, List.length_map, Nat.card_Icc] at hcard
  omega

/-- The index is in order, and its summaries and its counter are right. -/
structure WellFormed (index : MessageIndex) : Prop where
  described : ∀ segment ∈ index.sealed, segment.Describes
  consecutive : ∃ first, Consecutive MessageMeta.position first index.active
  ordered : index.messages.Pairwise MessageMeta.Before
  bounded : ∀ message ∈ index.messages, 0 < message.position ∧ message.position ≤ u64Max
  total : index.totalCount = index.messages.length

theorem wellFormed_new : MessageIndex.new.WellFormed := by
  refine ⟨?_, ⟨0, consecutive_nil⟩, ?_, ?_, rfl⟩
  all_goals simp [MessageIndex.new, messages]

/-- One segment lies before another, in positions and ids. -/
def Precedes (a b : SealedMessages) : Prop :=
  a.lastPosition < b.firstPosition ∧ a.lastId < b.firstId

theorem mem_messages {index : MessageIndex} : message ∈ index.messages ↔
      (∃ segment ∈ index.sealed, message ∈ segment.metadata.messages) ∨ message ∈ index.active := by
  simp [messages]

namespace WellFormed

variable {index : MessageIndex} (h : index.WellFormed)
include h

theorem active_ordered : index.active.Pairwise MessageMeta.Before :=
  (List.pairwise_append.1 h.ordered).2.1

theorem segment_ordered (hmem : segment ∈ index.sealed) :
    segment.metadata.messages.Pairwise MessageMeta.Before :=
  (List.pairwise_flatMap.1 (List.pairwise_append.1 h.ordered).1).1 segment hmem

theorem before_active (hmem : segment ∈ index.sealed)
    {a b : MessageMeta} (ha : a ∈ segment.metadata.messages) (hb : b ∈ index.active) :
    a.Before b :=
  (List.pairwise_append.1 h.ordered).2.2 a (List.mem_flatMap.2 ⟨segment, hmem, ha⟩) b hb

theorem sealed_precedes : index.sealed.Pairwise Precedes := by
  refine (List.pairwise_flatMap.1 (List.pairwise_append.1 h.ordered).1).2.imp_of_mem ?_
  intro a b ha hb hbefore
  obtain ⟨last, hlast, -, hposition, hid, -⟩ := (h.described a ha).last_mem
  obtain ⟨first, hfirst, -, hposition', hid', -⟩ := (h.described b hb).first_mem
  have := hbefore last hlast first hfirst
  rw [Precedes, hposition, hposition', hid, hid']
  exact this

theorem eq_of_position {a b : MessageMeta} (ha : a ∈ index.messages) (hb : b ∈ index.messages)
    (hposition : a.position = b.position) : a = b := by
  have hnodup : (index.messages.map MessageMeta.position).Nodup :=
    List.pairwise_map.2 (h.ordered.imp fun hab => hab.1.ne)
  exact List.inj_on_of_nodup_map hnodup ha hb hposition

theorem eq_of_id {a b : MessageMeta} (ha : a ∈ index.messages) (hb : b ∈ index.messages)
    (hid : a.id = b.id) : a = b := by
  have hnodup : (index.messages.map MessageMeta.id).Nodup :=
    List.pairwise_map.2 (h.ordered.imp fun hab => hab.2.ne)
  exact List.inj_on_of_nodup_map hnodup ha hb hid

theorem length_le : index.messages.length ≤ u64Max :=
  length_le_of_increasing (h.ordered.imp And.left) h.bounded

/-! ### Lookups by position -/

/-- The sealed segment of a position is the one whose range contains it. -/
theorem sealedSegment_eq (hmem : segment ∈ index.sealed) {p : ℕ}
    (hfirst : segment.firstPosition ≤ p) (hlast : p ≤ segment.lastPosition) :
    index.sealedSegment p = some segment := by
  have hfind : index.sealed[partitionPoint (fun segment => decide (segment.lastPosition < p))
      index.sealed]? = some segment := by
    refine getElem?_partitionPoint_of_pairwise h.sealed_precedes hmem ?_ fun b hb hbefore => ?_
    · simpa using hlast
    · have := hbefore.1
      simp only [decide_eq_true_eq]
      omega
  rw [sealedSegment, hfind]
  simpa using hfirst

theorem active_getElem? {first : MessageMeta} (hfirst : index.active.head? = some first) {p : ℕ}
    (hle : first.position ≤ p) :
    (index.active[p - first.position]?.filter fun message => decide (message.position = p)) =
        some message ↔ message ∈ index.active ∧ message.position = p := by
  obtain ⟨start, hstart⟩ := h.consecutive
  have hzero : index.active[0]? = some first := by
    rwa [List.head?_eq_getElem?] at hfirst
  have hfirst' : first.position = start + 0 := hstart.getElem? hzero
  rw [Option.filter_eq_some_iff]
  constructor
  · rintro ⟨hget, hposition⟩
    exact ⟨List.mem_of_getElem? hget, by simpa using hposition⟩
  · rintro ⟨hmem, rfl⟩
    obtain ⟨i, hi⟩ := List.mem_iff_getElem?.1 hmem
    have hplace := hstart.getElem? hi
    have hoffset : message.position - first.position = i := by omega
    exact ⟨by rw [hoffset, hi], by simp⟩

theorem active_first {first : MessageMeta} (hfirst : index.active.head? = some first)
    (hmem : message ∈ index.active) : first.position ≤ message.position := by
  obtain ⟨start, hstart⟩ := h.consecutive
  rw [List.head?_eq_getElem?] at hfirst
  have hzero : first.position = start + 0 := hstart.getElem? hfirst
  have := (hstart.mem hmem).1
  omega

/-- The messages of a sealed segment are not looked for among the active ones. -/
theorem active_filter_none (hsegment : segment ∈ index.sealed) {p : ℕ} (hlast : p ≤ segment.lastPosition) :
    (index.active.head?.filter fun first => decide (first.position ≤ p)) = none := by
  rw [Option.filter_eq_none_iff]
  intro first hfirst
  obtain ⟨last, hmem, -, hposition, -⟩ := (h.described segment hsegment).last_mem
  have := (h.before_active hsegment hmem (List.mem_of_mem_head? hfirst)).1
  simp only [decide_eq_true_eq]
  omega

/-- A stored message is found, or its page is not resident and is asked for. -/
theorem lookup_of_mem (hmem : message ∈ index.messages) (resident : PageKey → Bool) :
    index.lookup resident message.position = .found message ∨
      ∃ segment ∈ index.sealed, message ∈ segment.metadata.messages ∧
        index.lookup resident message.position =
          .load (pageRequest segment (message.position - segment.firstPosition)) ∧
        resident (pageRequest segment (message.position - segment.firstPosition)).key = false := by
  rcases mem_messages.1 hmem with ⟨segment, hsegment, hin⟩ | hactive
  · obtain ⟨hfirst, hlast⟩ := (h.described segment hsegment).position_mem hin
    have hcount := (h.described segment hsegment).lastPosition_eq
    have hget : segment.metadata.messages[message.position - segment.firstPosition]? =
        some message :=
      (h.described segment hsegment).getElem?_iff.2 ⟨hin, by omega⟩
    have hlt : message.position - segment.firstPosition < segment.count := by omega
    have hpage := page_getElem? segment hlt
    cases hresident :
        resident (pageRequest segment (message.position - segment.firstPosition)).key with
    | true =>
      left
      simp [lookup, lookupWith, h.active_filter_none hsegment hlast, h.sealedSegment_eq hsegment hfirst hlast,
        hresident, hpage, hget]
    | false =>
      refine Or.inr ⟨segment, hsegment, hin, ?_, hresident⟩
      simp [lookup, lookupWith, h.active_filter_none hsegment hlast, h.sealedSegment_eq hsegment hfirst hlast,
        hresident]
  · left
    obtain ⟨first, hfirst⟩ : ∃ first, index.active.head? = some first := by
      cases hhead : index.active.head? with
      | none =>
        rw [List.head?_eq_none_iff.1 hhead] at hactive
        simp at hactive
      | some first => exact ⟨first, rfl⟩
    have hle := h.active_first hfirst hactive
    have hhead : (index.active.head?.filter fun first =>
        decide (first.position ≤ message.position)) = some first :=
      Option.filter_eq_some_iff.2 ⟨hfirst, by simpa using hle⟩
    have hfound := (h.active_getElem? hfirst hle).2 ⟨hactive, rfl⟩
    simp [lookup, lookupWith, hhead, hfound]

/-- Where nothing is stored the lookup says so, whatever pages are resident. -/
theorem lookup_absent {p : ℕ} (habsent : ∀ message ∈ index.messages, message.position ≠ p)
    (resident : PageKey → Bool) : index.lookup resident p = .absent := by
  unfold lookup lookupWith
  cases hhead : index.active.head?.filter fun first => decide (first.position ≤ p) with
  | some first =>
    obtain ⟨hfirst, hle⟩ := Option.filter_eq_some_iff.1 hhead
    have hnone : (index.active[p - first.position]?.filter fun message =>
        decide (message.position = p)) = none := by
      rw [Option.eq_none_iff_forall_ne_some]
      intro message hfound
      obtain ⟨hmem, hposition⟩ := (h.active_getElem? hfirst (by simpa using hle)).1 hfound
      exact habsent message (mem_messages.2 (Or.inr hmem)) hposition
    simp [hnone]
  | none =>
    cases hsegment : index.sealedSegment p with
    | none => rfl
    | some segment =>
      -- every position of a sealed range is taken
      exfalso
      obtain ⟨hget, hfirst⟩ := Option.filter_eq_some_iff.1 hsegment
      have hmem := List.mem_of_getElem? hget
      rw [getElem?_partitionPoint] at hget
      have hlast := List.find?_some hget
      simp only [Bool.not_eq_true', decide_eq_false_iff_not, not_lt, decide_eq_true_eq] at hlast hfirst
      have hcount := (h.described segment hmem).lastPosition_eq
      have hlt : p - segment.firstPosition < segment.count := by omega
      obtain ⟨message, hmessage⟩ := (h.described segment hmem).exists_getElem? hlt
      obtain ⟨hin, hposition⟩ := (h.described segment hmem).getElem?_iff.1 hmessage
      exact habsent message (mem_messages.2 (Or.inl ⟨segment, hmem, hin⟩)) (by omega)

/-! ### Searches over a sidecar -/

theorem id_mem (hsegment : segment ∈ index.sealed) (hmem : message ∈ segment.metadata.messages) :
    segment.firstId ≤ message.id ∧ message.id ≤ segment.lastId := by
  obtain ⟨first, -, hfirst, -, hfirstId, -⟩ := (h.described segment hsegment).first_mem
  obtain ⟨last, -, hlast, -, hlastId, -⟩ := (h.described segment hsegment).last_mem
  rw [hfirstId, hlastId]
  exact between_of_pairwise ((h.segment_ordered hsegment).imp fun hab => hab.2.le) hfirst hlast hmem

theorem before_id (hsegment : segment ∈ index.sealed) (id : ℕ) :
    segment.metadata.messages.Pairwise fun a b =>
      decide (b.id < id) = true → decide (a.id < id) = true := by
  refine (h.segment_ordered hsegment).imp fun hab hb => ?_
  have := hab.2
  simp only [decide_eq_true_eq] at hb ⊢
  omega

/-- The search by id in one segment finds where the id would be. -/
theorem searchId (hsegment : segment ∈ index.sealed) (id : ℕ) :
    ∃ r, searchOrdinal segment (fun message => decide (message.id < id)) segment.count 0
        segment.count = .ok r ∧ r ≤ segment.count ∧
      (∀ i message, i < r → segment.metadata.messages[i]? = some message → message.id < id) ∧
      ∀ i message, r ≤ i → segment.metadata.messages[i]? = some message → id ≤ message.id := by
  have hcount := (h.described segment hsegment).count_eq
  obtain ⟨r, hr, -, hle, hbefore, hafter⟩ :=
    searchOrdinal_spec (h.before_id hsegment id) segment.count 0 segment.count (by omega)
      (by omega) (by omega)
  refine ⟨r, hr, hle, fun i message hi hget => ?_, fun i message hi hget => ?_⟩
  · simpa using hbefore i message (by omega) hi hget
  · have hlt := (List.getElem?_eq_some_iff.1 hget).1
    simpa using hafter i message hi (by omega) hget

theorem positionById_of_mem (hmem : message ∈ index.messages) :
    index.positionById message.id = .ok (some message.position) := by
  unfold positionById
  rcases mem_messages.1 hmem with ⟨segment, hsegment, hin⟩ | hactive
  · have hnone : (index.active.find? fun m => decide (m.id = message.id)) = none := by
      refine List.find?_eq_none.2 fun m hm => ?_
      have := (h.before_active hsegment hin hm).2
      simp only [decide_eq_true_eq]
      omega
    obtain ⟨hfirst, hlast⟩ := h.id_mem hsegment hin
    have hsealed : (index.sealed[partitionPoint (fun segment => decide (segment.lastId < message.id))
        index.sealed]?.filter fun segment => decide (segment.firstId ≤ message.id)) =
          some segment := by
      refine Option.filter_eq_some_iff.2 ⟨?_, by simpa using hfirst⟩
      refine getElem?_partitionPoint_of_pairwise h.sealed_precedes hsegment ?_ fun b hb hbefore => ?_
      · simpa using hlast
      · have := hbefore.2
        simp only [decide_eq_true_eq]
        omega
    obtain ⟨r, hr, hle, hbefore, hafter⟩ := h.searchId hsegment message.id
    -- the search stops at the message itself
    obtain ⟨i, hi⟩ := List.mem_iff_getElem?.1 hin
    have hri : r ≤ i := by
      by_contra hlt
      exact lt_irrefl _ (hbefore i message (not_le.1 hlt) hi)
    have hlength := (List.getElem?_eq_some_iff.1 hi).1
    have hcount := (h.described segment hsegment).count_eq
    obtain ⟨found, hfound⟩ := (h.described segment hsegment).exists_getElem?
      (show r < segment.count by omega)
    have heq : found = message := by
      rcases hri.lt_or_eq with hlt | rfl
      · obtain ⟨h1, hf⟩ := List.getElem?_eq_some_iff.1 hfound
        obtain ⟨h2, hm⟩ := List.getElem?_eq_some_iff.1 hi
        have hbefore' :=
          (List.pairwise_iff_getElem.1 (h.segment_ordered hsegment) r i h1 h2 hlt).2
        rw [hf, hm] at hbefore'
        exact absurd (hafter r found le_rfl hfound) (not_le.2 hbefore')
      · rw [hfound] at hi
        exact Option.some.inj hi
    rw [hnone, hsealed]
    simp only [hr, bind, Except.bind]
    rw [if_neg (by omega), loadOrdinal_eq hfound, heq]
    simp [pure, Except.pure]
  · obtain ⟨found, hfound⟩ : ∃ found,
        index.active.find? (fun m => decide (m.id = message.id)) = some found :=
      Option.isSome_iff_exists.1 (List.find?_isSome.2 ⟨message, hactive, by simp⟩)
    have hid : found.id = message.id := by simpa using List.find?_some hfound
    have heq : found = message :=
      h.eq_of_id (mem_messages.2 (Or.inr (List.mem_of_find?_eq_some hfound))) hmem hid
    rw [hfound, heq]

theorem positionById_none {id : ℕ} (habsent : ∀ message ∈ index.messages, message.id ≠ id) :
    index.positionById id = .ok none := by
  have hnone : (index.active.find? fun m => decide (m.id = id)) = none := by
    refine List.find?_eq_none.2 fun m hm => ?_
    simpa using habsent m (mem_messages.2 (Or.inr hm))
  unfold positionById
  rw [hnone]
  cases hsealed : index.sealed[partitionPoint (fun segment => decide (segment.lastId < id))
      index.sealed]?.filter fun segment => decide (segment.firstId ≤ id) with
  | none => rfl
  | some segment =>
    have hsegment := List.mem_of_getElem? (Option.filter_eq_some_iff.1 hsealed).1
    obtain ⟨r, hr, hle, -, -⟩ := h.searchId hsegment id
    simp only [hr, bind, Except.bind]
    by_cases hcount : segment.count ≤ r
    · rw [if_pos hcount]
      rfl
    · rw [if_neg hcount]
      obtain ⟨found, hfound⟩ := (h.described segment hsegment).exists_getElem? (not_le.1 hcount)
      have hne := habsent found
        (mem_messages.2 (Or.inl ⟨segment, hsegment, List.mem_of_getElem? hfound⟩))
      simp [loadOrdinal_eq hfound, hne, pure, Except.pure]

/-! ### Behind a position -/

/-- The first message of an ordered list behind a position is the least one. -/
theorem find?_of_least {p : ℕ} (hmem : message ∈ index.messages) (hlt : p < message.position)
    (hleast : ∀ other ∈ index.messages, p < other.position → message.position ≤ other.position) :
    index.messages.find? (fun other => decide (p < other.position)) = some message := by
  obtain ⟨found, hfound⟩ : ∃ found,
      index.messages.find? (fun other => decide (p < other.position)) = some found :=
    Option.isSome_iff_exists.1 (List.find?_isSome.2 ⟨message, hmem, by simpa using hlt⟩)
  obtain ⟨hp, front, rest, hsplit, hfront⟩ := List.find?_eq_some_iff_append.1 hfound
  have hfoundmem := List.mem_of_find?_eq_some hfound
  have hle := hleast found hfoundmem (by simpa using hp)
  -- nothing in front of the found message is behind the position
  have hge : found.position ≤ message.position := by
    rw [hsplit] at hmem
    rcases List.mem_append.1 hmem with hin | hin
    · have := hfront message hin
      simp only [Bool.not_eq_true', decide_eq_false_iff_not] at this
      exact absurd hlt this
    · rcases List.mem_cons.1 hin with rfl | hin
      · exact le_rfl
      · have hordered := h.ordered
        rw [hsplit, List.pairwise_append, List.pairwise_cons] at hordered
        exact (hordered.2.1.1 message hin).1.le
  rw [hfound, h.eq_of_position hfoundmem hmem (le_antisymm hge hle)]

theorem firstMessageAfter_eq (p : ℕ) : index.firstMessageAfter p =
      .ok ((index.messages.find? fun message => decide (p < message.position)).map
        fun message => (message.position, message.timestampNs)) := by
  unfold firstMessageAfter
  cases hsealed : index.sealed[partitionPoint (fun segment => decide (segment.lastPosition ≤ p))
      index.sealed]? with
  | none =>
    have hall := getElem?_partitionPoint_eq_none.1 hsealed
    have hfind : (index.sealed.flatMap fun segment => segment.metadata.messages).find?
        (fun message => decide (p < message.position)) = none := by
      refine List.find?_eq_none.2 fun message hmem => ?_
      obtain ⟨segment, hsegment, hin⟩ := List.mem_flatMap.1 hmem
      have hlast := hall segment hsegment
      have := ((h.described segment hsegment).position_mem hin).2
      simp only [decide_eq_true_eq] at hlast ⊢
      omega
    rw [messages, List.find?_append, hfind, Option.none_or]
  | some segment =>
    have hsegment := List.mem_of_getElem? hsealed
    have hdescribed := h.described segment hsegment
    rw [getElem?_partitionPoint] at hsealed
    obtain ⟨hlast, front, rest, hsplit, hfront⟩ := List.find?_eq_some_iff_append.1 hsealed
    simp only [Bool.not_eq_true', decide_eq_false_iff_not, not_le] at hlast
    have hcount := hdescribed.lastPosition_eq
    have hpos := hdescribed.count_pos
    have hbound : segment.lastPosition ≤ u64Max := by
      obtain ⟨last, hmem, -, hposition, -⟩ := hdescribed.last_mem
      rw [hposition]
      exact (h.bounded last (mem_messages.2 (Or.inl ⟨segment, hsegment, hmem⟩))).2
    have hsucc : satSucc p = p + 1 := satSucc_eq (by omega)
    obtain ⟨message, hmessage⟩ := hdescribed.exists_getElem?
      (show min (satSucc p - segment.firstPosition) (segment.count - 1) < segment.count by omega)
    obtain ⟨hin, hposition⟩ := hdescribed.getElem?_iff.1 hmessage
    have hmem : message ∈ index.messages := mem_messages.2 (Or.inl ⟨segment, hsegment, hin⟩)
    have hfind := h.find?_of_least hmem (p := p) (by omega) fun other hother hlt => by
      rcases mem_messages.1 hother with ⟨another, hanother, hinother⟩ | hactive
      · rw [hsplit] at hanother
        have hrange := ((h.described another (hsplit ▸ hanother)).position_mem hinother)
        rcases List.mem_append.1 hanother with hbefore | hafter
        · have := hfront another hbefore
          simp only [Bool.not_not, decide_eq_true_eq] at this
          omega
        · rcases List.mem_cons.1 hafter with rfl | hafter
          · omega
          · have hprecedes := h.sealed_precedes
            rw [hsplit, List.pairwise_append, List.pairwise_cons] at hprecedes
            have := (hprecedes.2.1.1 another hafter).1
            omega
      · have := (h.before_active hsegment hin hactive).1
        omega
    simp only [loadOrdinal_eq hmessage, bind, Except.bind, hfind]
    rfl

theorem countSealedAfter_eq (hsegment : segment ∈ index.sealed) (p : ℕ) :
    countSealedAfter p segment =
      (segment.metadata.messages.filter fun message => decide (p < message.position)).length := by
  have hdescribed := h.described segment hsegment
  have hcount := hdescribed.count_eq
  have hlast := hdescribed.lastPosition_eq
  rw [hdescribed.consecutive.filter_lt p, List.length_drop, ← hcount]
  unfold countSealedAfter
  split_ifs <;> omega

theorem countAfterPosition_eq (p : ℕ) : index.countAfterPosition p =
      (index.messages.filter fun message => decide (p < message.position)).length := by
  have hsum : (index.sealed.map (countSealedAfter p)).sum =
      ((index.sealed.flatMap fun segment => segment.metadata.messages).filter
        fun message => decide (p < message.position)).length := by
    rw [List.filter_flatMap, List.length_flatMap]
    exact congrArg List.sum (List.map_congr_left fun segment hmem => h.countSealedAfter_eq hmem p)
  have hle := h.length_le
  have hfilter := List.length_filter_le (fun message : MessageMeta => decide (p < message.position))
    index.messages
  rw [messages] at hle
  rw [messages, List.filter_append, List.length_append] at hfilter
  rw [countAfterPosition, hsum, messages, List.filter_append, List.length_append]
  exact satAdd_eq (by omega)

end WellFormed

end MessageIndex

end RustQueue.Topic
