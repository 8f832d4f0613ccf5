import RustQueue.Lib.Result
import RustQueue.Topic.Contents

/-!
# The message index over a whole run

`IndexRun` follows one index, the pages its topic has in the cache, every segment it ever
sealed, and the list of messages that have come in and are not removed.  A page load reads any
segment that was sealed at some time, also one that is gone by then, and any page may be evicted
at any time.

`IndexRun.sound` is the invariant: the index is well formed, it stores exactly that list, and a
page in the cache is the page of its segment.  `index_refines_map` says what every query answers.
-/

namespace RustQueue.Topic

open Lib

/-- The pages of one topic in the shared cache. -/
abbrev PageCache := PageKey → Option (List MessageMeta)

namespace PageCache

/-- A page that has been read is put into the cache. -/
def load (cache : PageCache) (request : PageRequest) : PageCache :=
  fun key => if key = request.key then some (MessageIndex.page request) else cache key

/-- The pages of the given segments leave the cache. -/
def invalidate (cache : PageCache) (paths : List ℕ) : PageCache :=
  fun key => if key.segment ∈ paths then none else cache key

/-- Some pages were evicted. -/
def Evicted (cache cache' : PageCache) : Prop :=
  ∀ key, cache' key = none ∨ cache' key = cache key

end PageCache

namespace MessageIndex

/-- A lookup with the pages of a cache. -/
def lookupIn (index : MessageIndex) (cache : PageCache) (position : ℕ) : Lookup :=
  index.lookupWith (fun request => cache request.key) position

/-- Every page in the cache is the page of the segment its key names. -/
def Faithful (segments : List SealedMessages) (cache : PageCache) : Prop :=
  ∀ segment ∈ segments, ∀ ordinal page, cache (pageRequest segment ordinal).key = some page →
    page = MessageIndex.page (pageRequest segment ordinal)

variable {index : MessageIndex} {cache : PageCache}

theorem lookupIn_eq {segments : List SealedMessages} (hcache : Faithful segments cache)
    (hsealed : ∀ segment ∈ index.sealed, segment ∈ segments) (position : ℕ) :
    index.lookupIn cache position = index.lookup (fun key => (cache key).isSome) position := by
  unfold lookupIn lookup lookupWith
  cases hhead : index.active.head?.filter fun first => decide (first.position ≤ position) with
  | some first => rfl
  | none =>
    cases hsegment : index.sealedSegment position with
    | none => rfl
    | some segment =>
      have hmem := hsealed segment (List.mem_of_getElem? (Option.filter_eq_some_iff.1 hsegment).1)
      cases hpage : cache (pageRequest segment (position - segment.firstPosition)).key with
      | none => simp [hpage]
      | some page =>
        rw [hcache segment hmem _ page hpage] at hpage
        have hsome : (cache (pageRequest segment (position - segment.firstPosition)).key).isSome = true := by
          rw [hpage]
          rfl
        dsimp only
        rewrite [if_pos hsome, hpage, Option.bind_some]
        rfl

variable {segment : SealedMessages}

/-- Loading a page of a known segment keeps the cache faithful, since every segment has its own
file. -/
theorem Faithful.load {segments : List SealedMessages} (h : Faithful segments cache)
    (hown : segments.Pairwise fun a b => a.metadata.segmentPath ≠ b.metadata.segmentPath)
    (hknown : segment ∈ segments) (ordinal : ℕ) :
    Faithful segments (cache.load (pageRequest segment ordinal)) := by
  intro other hother ordinal' page hpage
  unfold PageCache.load at hpage
  by_cases hkey : (pageRequest other ordinal').key = (pageRequest segment ordinal).key
  · rw [if_pos hkey] at hpage
    have hnodup : (segments.map fun segment => segment.metadata.segmentPath).Nodup :=
      List.pairwise_map.2 hown
    have hsame : other = segment :=
      List.inj_on_of_nodup_map hnodup hother hknown (congrArg PageKey.segment hkey)
    have hnumber : ordinal' / pageMessages = ordinal / pageMessages :=
      congrArg PageKey.page hkey
    have hrequest : pageRequest other ordinal' = pageRequest segment ordinal := by
      rw [hsame, pageRequest, pageRequest, hnumber]
    rw [hrequest]
    exact (Option.some.inj hpage).symm
  · rw [if_neg hkey] at hpage
    exact h other hother ordinal' page hpage

theorem Faithful.evict {segments : List SealedMessages} {cache' : PageCache}
    (h : Faithful segments cache) (hevicted : cache.Evicted cache') : Faithful segments cache' := by
  intro segment hsegment ordinal page hpage
  rcases hevicted (pageRequest segment ordinal).key with hnone | hkept
  · rw [hnone] at hpage
    cases hpage
  · exact h segment hsegment ordinal page (hkept ▸ hpage)

/-! ### Messages come in -/

/-- New messages go on behind the stored ones. -/
structure Fresh (stored new : List MessageMeta) : Prop where
  ordered : (stored ++ new).Pairwise MessageMeta.Before
  bounded : ∀ message ∈ new, 0 < message.position ∧ message.position ≤ u64Max

/-- Messages whose positions follow one another are numbered without a gap. -/
theorem consecutive_of_follows {l : List MessageMeta}
    (hchain : l.IsChain fun previous message => message.position = satSucc previous.position)
    (hordered : l.Pairwise MessageMeta.Before) :
    ∀ first ∈ l.head?, Consecutive MessageMeta.position first.position l := by
  induction l with
  | nil => simp
  | cons a l ih =>
    rintro first hfirst
    rw [List.head?_cons, Option.mem_some_iff] at hfirst
    subst hfirst
    rw [List.pairwise_cons] at hordered
    refine consecutive_cons.2 ⟨rfl, ?_⟩
    cases l with
    | nil => exact consecutive_nil
    | cons b l =>
      rw [List.isChain_cons_cons] at hchain
      have hlt := (hordered.1 b (List.mem_cons_self ..)).1
      have hnext : b.position = a.position + 1 := by
        have := satSucc_le a.position
        omega
      rw [← hnext]
      exact ih hchain.2 hordered.2 b rfl

variable {index' : MessageIndex}

theorem extendActive_eq_ok {new : List MessageMeta} (h : index.extendActive new = .ok index') :
    (index.active.getLast?.toList ++ new).IsChain
        (fun previous message => message.position = satSucc previous.position) ∧
      index' = { index with
        totalCount := satAdd u64Max index.totalCount new.length
        active := index.active ++ new } := by
  unfold extendActive at h
  by_cases hoverlap : (index.active.getLast?.map fun message => satSucc message.position) = none ∧
      ∃ segment ∈ index.sealed.getLast?, ∃ message ∈ new.head?,
        message.position ≤ segment.lastPosition
  · rw [if_pos hoverlap] at h
    cases h
  · rw [if_neg hoverlap] at h
    by_cases hchain : (index.active.getLast?.toList ++ new).IsChain
        fun previous message => message.position = satSucc previous.position
    · rw [if_neg (not_not.2 hchain)] at h
      cases h
      exact ⟨hchain, rfl⟩
    · rw [if_pos hchain] at h
      cases h

theorem WellFormed.extendActive {new : List MessageMeta} (h : index.WellFormed)
    (hfresh : Fresh index.messages new) (hok : index.extendActive new = .ok index') :
    index'.WellFormed ∧ index'.messages = index.messages ++ new := by
  obtain ⟨hchain, rfl⟩ := extendActive_eq_ok hok
  have hmessages : ({ index with
      totalCount := satAdd u64Max index.totalCount new.length
      active := index.active ++ new } : MessageIndex).messages = index.messages ++ new := by
    simp [messages]
  have hbounded : ∀ message ∈ index.messages ++ new,
      0 < message.position ∧ message.position ≤ u64Max := by
    intro message hmem
    rcases List.mem_append.1 hmem with hmem | hmem
    · exact h.bounded message hmem
    · exact hfresh.bounded message hmem
  have hordered : (index.active ++ new).Pairwise MessageMeta.Before := by
    have := hfresh.ordered
    rw [messages, List.append_assoc] at this
    exact (List.pairwise_append.1 this).2.1
  refine ⟨⟨h.described, ?_, hmessages ▸ hfresh.ordered, hmessages ▸ hbounded, ?_⟩, hmessages⟩
  · obtain ⟨first, hactive⟩ := h.consecutive
    cases hlast : index.active.getLast? with
    | none =>
      rw [hlast] at hchain
      rw [List.getLast?_eq_none_iff.1 hlast, List.nil_append] at hordered ⊢
      cases new with
      | nil => exact ⟨0, consecutive_nil⟩
      | cons message new => exact ⟨_, consecutive_of_follows hchain hordered message rfl⟩
    | some last =>
      -- the new messages go on behind the last active one
      obtain ⟨front, hfront⟩ := List.getLast?_eq_some_iff.1 hlast
      rw [hlast] at hchain
      have htail : (last :: new).Pairwise MessageMeta.Before := by
        rw [hfront, List.append_assoc] at hordered
        exact (List.pairwise_append.1 hordered).2.1
      have hnew := (consecutive_cons.1 (consecutive_of_follows hchain htail last rfl)).2
      have hnext := hactive.getLast? hlast
      exact ⟨first, consecutive_append.2 ⟨hactive, hnext ▸ hnew⟩⟩
  · have hlength := length_le_of_increasing (hfresh.ordered.imp And.left) hbounded
    rw [List.length_append] at hlength
    rw [hmessages, List.length_append, h.total]
    exact satAdd_eq hlength

/-! ### Segments are sealed -/

theorem pushSealed_eq_ok (h : index.pushSealed segment = .ok index') :
    (∀ message ∈ index.active.head?, segment.lastPosition < message.position) ∧
      segment.lastPosition = satAdd u64Max segment.firstPosition (segment.count - 1) ∧
      index' = { index with
        totalCount := satAdd u64Max index.totalCount segment.count
        sealed := index.sealed ++ [segment] } := by
  unfold pushSealed at h
  by_cases hbad : segment.count = 0 ∨
      segment.lastPosition ≠ satAdd u64Max segment.firstPosition (segment.count - 1) ∨
      (∃ previous ∈ index.sealed.getLast?, segment.firstPosition ≤ previous.lastPosition) ∨
      ∃ message ∈ index.active.head?, message.position ≤ segment.lastPosition
  · rw [if_pos hbad] at h
    cases h
  · rw [if_neg hbad] at h
    cases h
    simp only [not_or, not_exists, not_and, ne_eq, not_not, not_le] at hbad
    exact ⟨hbad.2.2.2, hbad.2.1, rfl⟩

/-- A segment goes in between the sealed and the active messages. -/
theorem pushed_wellFormed (hdescribed : ∀ other ∈ index.sealed, other.Describes)
    (hsegment : segment.Describes)
    (hconsecutive : ∃ first, Consecutive MessageMeta.position first index.active)
    {all : List MessageMeta}
    (hall : all = (index.sealed ++ [segment]).flatMap (fun segment => segment.metadata.messages) ++
      index.active) (hordered : all.Pairwise MessageMeta.Before)
    (hbounded : ∀ message ∈ all, 0 < message.position ∧ message.position ≤ u64Max)
    (htotal : index.totalCount + segment.count = all.length) :
    ({ index with
      totalCount := satAdd u64Max index.totalCount segment.count
      sealed := index.sealed ++ [segment] } : MessageIndex).WellFormed := by
  subst hall
  refine ⟨fun other hother => ?_, hconsecutive, hordered, hbounded, ?_⟩
  · rcases List.mem_append.1 hother with hother | hother
    · exact hdescribed other hother
    · rw [List.mem_singleton.1 hother]
      exact hsegment
  · have hlength := length_le_of_increasing (hordered.imp And.left) hbounded
    exact (satAdd_eq (by omega)).trans htotal

variable {metadata : RecoveryMetadataRef}

theorem inspect_eq_ok (h : inspect metadata = .ok segment) :
    ∃ first last, metadata.messages.head? = some first ∧ metadata.messages.getLast? = some last ∧
      metadata.messages.IsChain MessageMeta.Follows ∧
      segment = .summary metadata metadata.messages first last := by
  unfold inspect at h
  cases hfirst : metadata.messages.head? with
  | none => simp [hfirst] at h
  | some first =>
    cases hlast : metadata.messages.getLast? with
    | none => simp [hfirst, hlast] at h
    | some last =>
      simp only [hfirst, hlast] at h
      by_cases hbounds : ∃ message ∈ metadata.messages, ¬message.InBounds metadata.segmentLen
      · rw [if_pos hbounds] at h
        cases h
      · rw [if_neg hbounds] at h
        by_cases hchain : metadata.messages.IsChain MessageMeta.Follows
        · rw [if_neg (not_not.2 hchain)] at h
          cases h
          exact ⟨first, last, rfl, rfl, hchain, rfl⟩
        · rw [if_pos hchain] at h
          cases h

/-- The summary of messages that follow one another describes them. -/
theorem describes_summary {first last : MessageMeta} (hfirst : metadata.messages.head? = some first)
    (hlast : metadata.messages.getLast? = some last)
    (hconsecutive : Consecutive MessageMeta.position first.position metadata.messages) :
    (SealedMessages.summary metadata metadata.messages first last).Describes :=
  ⟨⟨first, last, hfirst, hlast, rfl⟩, hconsecutive⟩

/-- A sidecar that is recovered behind everything stored adds its messages. -/
theorem WellFormed.recoverSealed (h : index.WellFormed) (hempty : index.active = [])
    (hfresh : Fresh index.messages metadata.messages) (hok : index.recoverSealed metadata = .ok index') :
    index'.WellFormed ∧ index'.messages = index.messages ++ metadata.messages ∧
      ∃ segment, segment.Describes ∧ segment.metadata = metadata ∧
        index'.sealed = index.sealed ++ [segment] := by
  obtain ⟨segment, hinspect, hpush⟩ := bind_eq_ok.1 hok
  obtain ⟨first, last, hfirst, hlast, hchain, rfl⟩ := inspect_eq_ok hinspect
  obtain ⟨-, -, rfl⟩ := pushSealed_eq_ok hpush
  have hconsecutive := consecutive_of_follows (hchain.imp fun _ _ hfollows => hfollows.1)
    (List.pairwise_append.1 hfresh.ordered).2.1 first hfirst
  have hdescribes := describes_summary hfirst hlast hconsecutive
  have hall : index.messages ++ metadata.messages =
      (index.sealed ++ [SealedMessages.summary metadata metadata.messages first last]).flatMap
        (fun segment => segment.metadata.messages) ++ index.active := by
    simp [messages, hempty, SealedMessages.summary]
  refine ⟨pushed_wellFormed h.described hdescribes h.consecutive hall hfresh.ordered ?_ ?_,
    hall.symm, _, hdescribes, rfl, rfl⟩
  · intro message hmem
    rcases List.mem_append.1 hmem with hmem | hmem
    · exact h.bounded message hmem
    · exact hfresh.bounded message hmem
  · rw [List.length_append, h.total]
    rfl

/-- In an ordered list a selection that ends before the first of the rest is a front part. -/
theorem eq_filter_append {l : List MessageMeta} (hl : l.Pairwise MessageMeta.Before)
    {f : MessageMeta → Bool} {last : MessageMeta} (hlast : (l.filter f).getLast? = some last)
    (hrest : ∀ message ∈ (l.filter fun message => !f message).head?,
      last.position < message.position) :
    l = l.filter f ++ l.filter fun message => !f message := by
  have hpositions : l.Pairwise fun a b => a.position < b.position := hl.imp And.left
  have hsplit : (l.filter f ++ l.filter fun message => !f message).Pairwise
      fun a b => a.position < b.position := by
    refine List.pairwise_append.2 ⟨hpositions.filter f, hpositions.filter _, fun a ha b hb => ?_⟩
    have hle : a.position ≤ last.position := by
      obtain ⟨front, hfront⟩ := List.getLast?_eq_some_iff.1 hlast
      have hordered := hpositions.filter f
      rw [hfront, List.pairwise_append] at hordered
      rw [hfront] at ha
      rcases List.mem_append.1 ha with ha | ha
      · exact (hordered.2.2 a ha last (List.mem_singleton_self last)).le
      · rw [List.mem_singleton.1 ha]
    cases hhead : (l.filter fun message => !f message).head? with
    | none =>
      rw [List.head?_eq_none_iff.1 hhead] at hb
      simp at hb
    | some first =>
      obtain ⟨rest, hcons⟩ := List.head?_eq_some_iff.1 hhead
      have hordered := hpositions.filter fun message => !f message
      rw [hcons, List.pairwise_cons] at hordered
      rw [hcons] at hb
      have hfirst := hrest first hhead
      rcases List.mem_cons.1 hb with rfl | hb
      · exact hle.trans_lt hfirst
      · exact hle.trans_lt (hfirst.trans (hordered.1 b hb))
  refine List.Perm.eq_of_pairwise (fun a b _ _ hab hba => ?_) hpositions hsplit
    (List.filter_append_perm f l).symm
  exact absurd (hab.trans hba) (lt_irrefl _)

/-- Sealing the active messages of a segment changes what is where and stores nothing new. -/
theorem WellFormed.sealPath {path : ℕ} (h : index.WellFormed)
    (hmetadata : metadata.messages = index.activeForPath path)
    (hok : index.sealPath path metadata = .ok index') :
    index'.WellFormed ∧ index'.messages = index.messages ∧
      ∃ segment, segment.Describes ∧ segment.metadata = metadata ∧
        index'.sealed = index.sealed ++ [segment] ∧
        index'.active = index.active.filter fun message => decide (message.payload.path ≠ path) := by
  unfold MessageIndex.sealPath at hok
  cases hfirst : (index.activeForPath path).head? with
  | none => simp [hfirst] at hok
  | some first =>
    cases hlast : (index.activeForPath path).getLast? with
    | none => simp [hfirst, hlast] at hok
    | some last =>
      simp only [hfirst, hlast] at hok
      obtain ⟨hrest, -, rfl⟩ := pushSealed_eq_ok hok
      have hneg : (index.active.filter fun message => decide (message.payload.path ≠ path)) =
          index.active.filter fun message => !decide (message.payload.path = path) := by
        simp
      -- the messages of the segment are the front of the active ones
      have hsplit : index.active = metadata.messages ++
          index.active.filter fun message => decide (message.payload.path ≠ path) := by
        rw [hneg, hmetadata]
        refine eq_filter_append h.active_ordered hlast fun message hmessage => ?_
        exact hrest message (by rw [hneg]; exact hmessage)
      obtain ⟨start, hstart⟩ := h.consecutive
      rw [hsplit, consecutive_append] at hstart
      rw [← hmetadata] at hfirst hlast
      have hposition : first.position = start + 0 :=
        hstart.1.getElem? (by rwa [List.head?_eq_getElem?] at hfirst)
      have hdescribes : (SealedMessages.summary metadata metadata.messages first last).Describes :=
        describes_summary hfirst hlast (by rw [hposition]; exact hstart.1)
      have hall : index.messages =
          (index.sealed ++ [SealedMessages.summary metadata metadata.messages first last]).flatMap
            (fun segment => segment.metadata.messages) ++
          index.active.filter fun message => decide (message.payload.path ≠ path) := by
        rw [List.flatMap_append, List.flatMap_singleton, List.append_assoc]
        exact congrArg (_ ++ ·) hsplit
      have hlength : metadata.messages.length ≤ index.messages.length := by
        rw [messages, List.length_append, hsplit, List.length_append]
        omega
      have htotal : index.totalCount - metadata.messages.length + metadata.messages.length =
          index.messages.length := by
        have := h.total
        omega
      rw [← hmetadata]
      exact ⟨pushed_wellFormed h.described hdescribes ⟨_, hstart.2⟩ hall h.ordered h.bounded htotal,
        hall.symm, _, hdescribes, rfl, rfl, rfl⟩

/-! ### Segments are removed -/

theorem sum_filter_add_sum_filter_not (l : List SealedMessages) (f : SealedMessages → Bool) :
    ((l.filter f).map SealedMessages.count).sum +
        ((l.filter fun segment => !f segment).map SealedMessages.count).sum =
      (l.map SealedMessages.count).sum := by
  induction l with
  | nil => rfl
  | cons a l ih =>
    cases hf : f a with
    | true => simp [hf]; omega
    | false => simp [hf]; omega

theorem WellFormed.sum_count (h : index.WellFormed) :
    (index.sealed.map SealedMessages.count).sum + index.active.length = index.messages.length := by
  rw [messages, List.length_append, List.length_flatMap]
  congr 2
  exact List.map_congr_left fun segment hmem => (h.described segment hmem).count_eq

/-- The messages of a sealed segment lie in its file. -/
def Placed (segment : SealedMessages) : Prop :=
  ∀ message ∈ segment.metadata.messages, message.payload.path = segment.metadata.segmentPath

theorem messages_removeMissingPaths {existing : List ℕ}
    (hplaced : ∀ segment ∈ index.sealed, Placed segment)
    (hactive : ∀ message ∈ index.active, message.payload.path ∈ existing) :
    (index.removeMissingPaths existing).messages =
      index.messages.filter fun message => decide (message.payload.path ∈ existing) := by
  have hsealed : ∀ l : List SealedMessages, (∀ segment ∈ l, Placed segment) →
      (l.filter fun segment => decide (segment.metadata.segmentPath ∈ existing)).flatMap
          (fun segment => segment.metadata.messages) =
        (l.flatMap fun segment => segment.metadata.messages).filter
          fun message => decide (message.payload.path ∈ existing) := by
    intro l hl
    induction l with
    | nil => rfl
    | cons segment l ih =>
      have hrest := ih fun other hother => hl other (List.mem_cons_of_mem _ hother)
      have hhere := hl segment (List.mem_cons_self ..)
      rw [List.flatMap_cons, List.filter_append, ← hrest]
      by_cases hpath : segment.metadata.segmentPath ∈ existing
      · have hkept : (segment.metadata.messages.filter fun message =>
            decide (message.payload.path ∈ existing)) = segment.metadata.messages :=
          List.filter_eq_self.2 fun message hmem => by simpa [hhere message hmem] using hpath
        rw [List.filter_cons_of_pos (by simpa using hpath), List.flatMap_cons, hkept]
      · have hgone : (segment.metadata.messages.filter fun message =>
            decide (message.payload.path ∈ existing)) = [] :=
          List.filter_eq_nil_iff.2 fun message hmem => by simpa [hhere message hmem] using hpath
        rw [List.filter_cons_of_neg (by simpa using hpath), hgone, List.nil_append]
  have hkept : (index.active.filter fun message => decide (message.payload.path ∈ existing)) =
      index.active :=
    List.filter_eq_self.2 fun message hmem => by simpa using hactive message hmem
  rw [messages, messages, List.filter_append, ← hsealed index.sealed hplaced, hkept]
  rfl

theorem WellFormed.removeMissingPaths {existing : List ℕ} (h : index.WellFormed)
    (hplaced : ∀ segment ∈ index.sealed, Placed segment)
    (hactive : ∀ message ∈ index.active, message.payload.path ∈ existing) :
    (index.removeMissingPaths existing).WellFormed := by
  have hmessages := messages_removeMissingPaths hplaced hactive
  have hdescribed : ∀ segment ∈ (index.removeMissingPaths existing).sealed, segment.Describes :=
    fun segment hmem => h.described segment (List.mem_of_mem_filter hmem)
  refine ⟨hdescribed, h.consecutive, ?_, ?_, ?_⟩
  · rw [hmessages]
    exact h.ordered.filter _
  · intro message hmem
    rw [hmessages] at hmem
    exact h.bounded message (List.mem_of_mem_filter hmem)
  · have hkept : ((index.removeMissingPaths existing).sealed.map SealedMessages.count).sum +
        index.active.length = (index.removeMissingPaths existing).messages.length := by
      rw [messages, List.length_append, List.length_flatMap]
      congr 2
      exact List.map_congr_left fun segment hmem => (hdescribed segment hmem).count_eq
    have hall := h.sum_count
    have hsplit := sum_filter_add_sum_filter_not index.sealed
      fun segment => decide (segment.metadata.segmentPath ∈ existing)
    simp only [MessageIndex.removeMissingPaths, ← decide_not] at hkept hsplit ⊢
    rw [← hkept, h.total]
    omega

/-! ### Runs -/

/-- What a topic does to its index: the index, its pages in the cache, all segments sealed so
far, and the messages that came in and were not removed.  Every segment has its own file. -/
inductive IndexRun :
    MessageIndex → PageCache → List SealedMessages → List MessageMeta → Prop
  | new : IndexRun .new (fun _ => none) [] []
  | append {index index' : MessageIndex} {cache : PageCache} {past : List SealedMessages}
      {stored new : List MessageMeta} (h : IndexRun index cache past stored)
      (fresh : Fresh stored new) (ok : index.append new = .ok index') :
      IndexRun index' cache past (stored ++ new)
  | recoverActive {index index' : MessageIndex} {cache : PageCache} {past : List SealedMessages}
      {stored new : List MessageMeta} (h : IndexRun index cache past stored)
      (fresh : Fresh stored new) (ok : index.recoverActive new = .ok index') :
      IndexRun index' cache past (stored ++ new)
  | recoverSealed {index index' : MessageIndex} {cache : PageCache} {past : List SealedMessages}
      {stored : List MessageMeta} {metadata : RecoveryMetadataRef} {segment : SealedMessages}
      (h : IndexRun index cache past stored) (opening : index.active = [])
      (fresh : Fresh stored metadata.messages)
      (placed : ∀ message ∈ metadata.messages, message.payload.path = metadata.segmentPath)
      (own : ∀ other ∈ past, other.metadata.segmentPath ≠ metadata.segmentPath)
      (ok : index.recoverSealed metadata = .ok index')
      (last : index'.sealed.getLast? = some segment) :
      IndexRun index' cache (past ++ [segment]) (stored ++ metadata.messages)
  | sealPath {index index' : MessageIndex} {cache : PageCache} {past : List SealedMessages}
      {stored : List MessageMeta} {path segmentLen : ℕ} {segment : SealedMessages}
      (h : IndexRun index cache past stored)
      (own : ∀ other ∈ past, other.metadata.segmentPath ≠ path)
      (ok : index.sealPath path ⟨path, segmentLen, index.activeForPath path⟩ = .ok index')
      (last : index'.sealed.getLast? = some segment) :
      IndexRun index' cache (past ++ [segment]) stored
  | load {index : MessageIndex} {cache : PageCache} {past : List SealedMessages}
      {stored : List MessageMeta} {segment : SealedMessages} (h : IndexRun index cache past stored)
      (known : segment ∈ past) (ordinal : ℕ) :
      IndexRun index (cache.load (pageRequest segment ordinal)) past stored
  | evict {index : MessageIndex} {cache cache' : PageCache} {past : List SealedMessages}
      {stored : List MessageMeta} (h : IndexRun index cache past stored)
      (evicted : cache.Evicted cache') : IndexRun index cache' past stored
  | removeMissingPaths {index : MessageIndex} {cache : PageCache} {past : List SealedMessages}
      {stored : List MessageMeta} {existing : List ℕ} (h : IndexRun index cache past stored)
      (active : ∀ message ∈ index.active, message.payload.path ∈ existing) :
      IndexRun (index.removeMissingPaths existing)
        (cache.invalidate ((index.sealed.filter fun segment =>
          decide (segment.metadata.segmentPath ∉ existing)).map fun segment =>
            segment.metadata.segmentPath))
        past (stored.filter fun message => decide (message.payload.path ∈ existing))

/-- What holds after every operation. -/
structure Sound (index : MessageIndex) (cache : PageCache) (past : List SealedMessages)
    (stored : List MessageMeta) : Prop where
  wellFormed : index.WellFormed
  messages : index.messages = stored
  known : ∀ segment ∈ index.sealed, segment ∈ past
  placed : ∀ segment ∈ past, Placed segment
  own : past.Pairwise fun a b => a.metadata.segmentPath ≠ b.metadata.segmentPath
  faithful : Faithful past cache
  loaded : ∀ key page, cache key = some page →
    ∃ segment ∈ past, segment.metadata.segmentPath = key.segment

variable {past : List SealedMessages} {stored : List MessageMeta}

/-- Pages of the segments sealed before stay faithful when a new segment has its own file and no
page yet. -/
theorem Sound.addSegment {stored' : List MessageMeta} (h : Sound index cache past stored)
    (hwellFormed : index'.WellFormed) (hmessages : index'.messages = stored')
    (hsealed : index'.sealed = index.sealed ++ [segment]) (hplaced : Placed segment)
    (hown : ∀ other ∈ past, other.metadata.segmentPath ≠ segment.metadata.segmentPath) :
    Sound index' cache (past ++ [segment]) stored' where
  wellFormed := hwellFormed
  messages := hmessages
  known := by
    intro other hother
    rw [hsealed] at hother
    rcases List.mem_append.1 hother with hother | hother
    · exact List.mem_append_left _ (h.known other hother)
    · exact List.mem_append_right _ hother
  placed := by
    intro other hother
    rcases List.mem_append.1 hother with hother | hother
    · exact h.placed other hother
    · rw [List.mem_singleton.1 hother]
      exact hplaced
  own := by
    refine List.pairwise_append.2 ⟨h.own, List.pairwise_singleton _ _, fun a ha b hb => ?_⟩
    rw [List.mem_singleton.1 hb]
    exact hown a ha
  faithful := by
    intro other hother ordinal page hpage
    rcases List.mem_append.1 hother with hother | hother
    · exact h.faithful other hother ordinal page hpage
    · -- no page of a new file can be in the cache
      rw [List.mem_singleton.1 hother] at hpage
      obtain ⟨known, hknown, hpath⟩ := h.loaded _ _ hpage
      exact absurd hpath (hown known hknown)
  loaded := by
    intro key page hpage
    obtain ⟨known, hknown, hpath⟩ := h.loaded key page hpage
    exact ⟨known, List.mem_append_left _ hknown, hpath⟩

theorem Sound.load (h : Sound index cache past stored) (hknown : segment ∈ past) (ordinal : ℕ) :
    Sound index (cache.load (pageRequest segment ordinal)) past stored where
  wellFormed := h.wellFormed
  messages := h.messages
  known := h.known
  placed := h.placed
  own := h.own
  faithful := h.faithful.load h.own hknown ordinal
  loaded := by
    intro key page hpage
    unfold PageCache.load at hpage
    by_cases hkey : key = (pageRequest segment ordinal).key
    · exact ⟨segment, hknown, by rw [hkey]; rfl⟩
    · rw [if_neg hkey] at hpage
      exact h.loaded key page hpage

theorem Sound.evict {cache' : PageCache} (h : Sound index cache past stored)
    (hevicted : cache.Evicted cache') : Sound index cache' past stored where
  wellFormed := h.wellFormed
  messages := h.messages
  known := h.known
  placed := h.placed
  own := h.own
  faithful := h.faithful.evict hevicted
  loaded := by
    intro key page hpage
    rcases hevicted key with hnone | hkept
    · rw [hnone] at hpage
      cases hpage
    · exact h.loaded key page (hkept ▸ hpage)

theorem evicted_invalidate (cache : PageCache) (paths : List ℕ) :
    cache.Evicted (cache.invalidate paths) := by
  intro key
  unfold PageCache.invalidate
  split_ifs
  · exact Or.inl rfl
  · exact Or.inr rfl

theorem IndexRun.sound (h : IndexRun index cache past stored) : Sound index cache past stored := by
  induction h with
  | new =>
    refine ⟨wellFormed_new, rfl, ?_, ?_, ?_, ?_, ?_⟩
    all_goals simp [MessageIndex.new, Faithful]
  | append _ fresh ok ih | recoverActive _ fresh ok ih =>
    rw [← ih.messages] at fresh ⊢
    obtain ⟨hwellFormed, hmessages⟩ := ih.wellFormed.extendActive fresh ok
    obtain ⟨-, rfl⟩ := extendActive_eq_ok ok
    exact ⟨hwellFormed, hmessages, ih.known, ih.placed, ih.own, ih.faithful, ih.loaded⟩
  | recoverSealed _ opening fresh placed own ok last ih =>
    rw [← ih.messages] at fresh ⊢
    obtain ⟨hwellFormed, hmessages, segment, -, hmetadata, hsealed⟩ :=
      ih.wellFormed.recoverSealed opening fresh ok
    rw [hsealed, List.getLast?_concat, Option.some.injEq] at last
    subst last
    refine ih.addSegment hwellFormed hmessages hsealed ?_ ?_
    · rw [Placed, hmetadata]
      exact placed
    · rw [hmetadata]
      exact own
  | sealPath _ own ok last ih =>
    obtain ⟨hwellFormed, hmessages, segment, -, hmetadata, hsealed, -⟩ :=
      ih.wellFormed.sealPath rfl ok
    rw [hsealed, List.getLast?_concat, Option.some.injEq] at last
    subst last
    refine ih.addSegment hwellFormed (hmessages.trans ih.messages) hsealed ?_ ?_
    · rw [Placed, hmetadata]
      intro message hmem
      simpa using (List.mem_filter.1 hmem).2
    · rw [hmetadata]
      exact own
  | load _ known ordinal ih => exact ih.load known ordinal
  | evict _ evicted ih => exact ih.evict evicted
  | @removeMissingPaths index cache past stored existing _ active ih =>
    have hplaced : ∀ segment ∈ index.sealed, Placed segment :=
      fun segment hmem => ih.placed segment (ih.known segment hmem)
    have hkept := ih.evict (evicted_invalidate cache ((index.sealed.filter fun segment =>
      decide (segment.metadata.segmentPath ∉ existing)).map fun segment =>
        segment.metadata.segmentPath))
    refine ⟨ih.wellFormed.removeMissingPaths hplaced active, ?_, fun segment hmem => ?_, ih.placed,
      ih.own, hkept.faithful, hkept.loaded⟩
    · rw [messages_removeMissingPaths hplaced active, ih.messages]
    · exact ih.known segment (List.mem_of_mem_filter hmem)

/-- **The index is a finite map.**  After any run every query answers from the list of messages
that came in and were not removed, whatever pages are in the cache; a lookup that asks for a page
finds the message once the page is loaded.  The searches read the sidecars, whose pages are
assumed to load. -/
theorem index_refines_map {index : MessageIndex} {cache : PageCache} {past : List SealedMessages}
    {stored : List MessageMeta} (h : IndexRun index cache past stored) :
    stored.Pairwise MessageMeta.Before ∧
    (∀ position message, index.lookupIn cache position = .found message →
      message ∈ stored ∧ message.position = position) ∧
    (∀ position, index.lookupIn cache position = .absent ↔
      ∀ message ∈ stored, message.position ≠ position) ∧
    (∀ position request, index.lookupIn cache position = .load request →
      ∃ message ∈ stored, message.position = position ∧
        index.lookupIn (cache.load request) position = .found message) ∧
    (∀ message ∈ stored, index.positionById message.id = .ok (some message.position)) ∧
    (∀ id, (∀ message ∈ stored, message.id ≠ id) → index.positionById id = .ok none) ∧
    (∀ position, index.firstMessageAfter position =
      .ok ((stored.find? fun message => decide (position < message.position)).map
        fun message => (message.position, message.timestampNs))) ∧
    (∀ position, index.countAfterPosition position =
      (stored.filter fun message => decide (position < message.position)).length) ∧
    index.totalCount = stored.length := by
  have hsound := h.sound
  have hwellFormed := hsound.wellFormed
  -- a position either holds a message or is empty, and the lookup knows which
  have hcases : ∀ position, (∃ message ∈ stored, message.position = position) ∨
      ∀ message ∈ stored, message.position ≠ position := by
    intro position
    by_cases hex : ∃ message ∈ stored, message.position = position
    · exact Or.inl hex
    · exact Or.inr fun message hmem hposition => hex ⟨message, hmem, hposition⟩
  have hmap := hsound.messages
  subst hmap
  have hlookup := lookupIn_eq hsound.faithful hsound.known
  have habsent : ∀ position, (∀ message ∈ index.messages, message.position ≠ position) →
      index.lookupIn cache position = .absent := by
    intro position hnone
    rw [hlookup]
    exact hwellFormed.lookup_absent hnone _
  refine ⟨hwellFormed.ordered, fun position message hfound => ?_, fun position => ?_,
    fun position request hload => ?_, fun message hmem => hwellFormed.positionById_of_mem hmem,
    fun id hnone => hwellFormed.positionById_none hnone, hwellFormed.firstMessageAfter_eq,
    hwellFormed.countAfterPosition_eq, hwellFormed.total⟩
  · rcases hcases position with ⟨other, hmem, rfl⟩ | hnone
    · rw [hlookup] at hfound
      rcases hwellFormed.lookup_of_mem hmem (fun key => (cache key).isSome) with
        hother | ⟨_, _, _, hother, _⟩
      · rw [hother] at hfound
        cases hfound
        exact ⟨hmem, rfl⟩
      · rw [hother] at hfound
        cases hfound
    · rw [habsent position hnone] at hfound
      cases hfound
  · refine ⟨fun habs message hmem hposition => ?_, habsent position⟩
    subst hposition
    rw [hlookup] at habs
    rcases hwellFormed.lookup_of_mem hmem (fun key => (cache key).isSome) with
      hother | ⟨_, _, _, hother, _⟩
    · rw [hother] at habs
      cases habs
    · rw [hother] at habs
      cases habs
  · rcases hcases position with ⟨message, hmem, rfl⟩ | hnone
    · refine ⟨message, hmem, rfl, ?_⟩
      rw [hlookup] at hload
      rcases hwellFormed.lookup_of_mem hmem (fun key => (cache key).isSome) with
        hother | ⟨segment, hsegment, hin, hother, _⟩
      · rw [hother] at hload
        cases hload
      · rw [hother] at hload
        cases hload
        have hloaded := hsound.load (hsound.known segment hsegment)
          (message.position - segment.firstPosition)
        rw [lookupIn_eq hloaded.faithful hloaded.known]
        refine (hwellFormed.lookup_of_mem hmem _).resolve_right ?_
        rintro ⟨another, hanother, hinother, -, hmissing⟩
        -- the message has one segment only, and its page has just been loaded
        obtain ⟨h1, h2⟩ := (hwellFormed.described segment hsegment).position_mem hin
        obtain ⟨h3, h4⟩ := (hwellFormed.described another hanother).position_mem hinother
        have hsame := hwellFormed.sealedSegment_eq hsegment h1 h2
        rw [hwellFormed.sealedSegment_eq hanother h3 h4, Option.some.injEq] at hsame
        subst hsame
        simp [PageCache.load] at hmissing
    · rw [habsent position hnone] at hload
      cases hload

/-- Two messages come in and their segment is sealed; the second is found by its id. -/
theorem index_refines_map_sealed :
    ∃ index past, ∃ first second : MessageMeta, second.id = 8 ∧ second.position = 2 ∧
      IndexRun index (fun _ => none) past [first, second] ∧
      index.positionById 8 = .ok (some 2) := by
  let first : MessageMeta := ⟨1, 7, 0, 0, 0, ⟨0, 10, 5, 0⟩⟩
  let second : MessageMeta := ⟨2, 8, 0, 0, 0, ⟨0, 15, 5, 0⟩⟩
  have hfresh : Fresh [] [first, second] := ⟨by decide, by decide⟩
  have happend : IndexRun ⟨[], [first, second], 2⟩ (fun _ => none) [] [first, second] :=
    IndexRun.new.append hfresh rfl
  have hsealed := happend.sealPath (by simp)
    (show MessageIndex.sealPath _ 0 ⟨0, 20, activeForPath _ 0⟩ = .ok _ from rfl) rfl
  exact ⟨_, _, first, second, rfl, rfl, hsealed,
    (index_refines_map hsealed).2.2.2.2.1 second (by simp)⟩

end MessageIndex

end RustQueue.Topic
