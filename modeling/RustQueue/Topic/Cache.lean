import RustQueue.Topic.IndexRuns

/-!
# The cache of index pages

All topics share one cache of sidecar pages.  Its budget also covers the metadata of active
messages and of reservations, so a page goes in only if it fits beside these; the oldest pages
make room for it.  `CacheOp` is one operation of some thread under the lock of the cache, and
`Cached` is the life of the cache from its creation.

`loadOrdinal` reads one entry of a sidecar through the cache: it checks for the page, reads and
inserts it, and looks it up again, and gives the lock back in between.  `insert_mem_iff` says
when the page goes in, `run_mem_iff` when it stays, by the order of eviction, and `loadOrdinal_iff` when
the call answers.
-/

namespace RustQueue.Topic

open Lib

instance : Ord PageKey := ⟨compareLex (compareOn PageKey.segment) (compareOn PageKey.page)⟩

instance : Std.TransOrd PageKey :=
  inferInstanceAs (Std.TransCmp (compareLex (compareOn PageKey.segment) (compareOn PageKey.page)))

instance : Std.LawfulEqOrd PageKey where
  eq_of_compare {a b} h := by
    obtain ⟨hsegment, hpage⟩ := compareLex_eq_eq.1 h
    obtain ⟨segment, page⟩ := a
    obtain ⟨segment', page'⟩ := b
    simp only [compareOn, Std.LawfulEqCmp.compare_eq_iff_eq] at hsegment hpage
    rw [hsegment, hpage]

/-- The size of `MessageMeta` in memory. -/
def messageMetaBytes : ℕ := 64

def minCacheBytes : ℕ := 1024 * messageMetaBytes

/-- The bytes that a number of messages takes. -/
def metaBytes (messages : ℕ) : ℕ := satMul usizeMax messages messageMetaBytes

def pageBytes (page : List MessageMeta) : ℕ := metaBytes page.length

/-- The pages in the order in which they came, and the bytes of pages, of active messages and of
reservations.  The epoch of changes, which only waiting threads read, is left out. -/
structure CacheState where
  pages : Std.ExtTreeMap PageKey (List MessageMeta)
  order : List PageKey
  bytes : ℕ
  activeBytes : ℕ
  reservedBytes : ℕ
  maxBytes : ℕ

namespace CacheState

def new (cacheBytes : ℕ) : CacheState := ⟨∅, [], 0, 0, 0, max cacheBytes minCacheBytes⟩

variable (state : CacheState)

/-- The bytes in use together with `additional` ones. -/
def usedWith (additional : ℕ) : ℕ :=
  satAdd usizeMax (satAdd usizeMax (satAdd usizeMax state.bytes state.activeBytes)
    state.reservedBytes) additional

/-- The page of a key leaves the cache. -/
def removePage (key : PageKey) : CacheState :=
  match state.pages[key]? with
  | none => state
  | some page =>
    { state with pages := state.pages.erase key, bytes := state.bytes - pageBytes page }

/-- The loop that evicts the oldest pages.  Every turn takes a key off the order, whose length
bounds the fuel. -/
def evictLoop (additional : ℕ) : ℕ → CacheState → CacheState
  | 0, state => state
  | fuel + 1, state =>
    if state.maxBytes < state.usedWith additional then
      match state.order with
      | [] => state
      | oldest :: rest => evictLoop additional fuel ({ state with order := rest }.removePage oldest)
    else state

def evictUntilAvailable (additional : ℕ) : CacheState :=
  evictLoop additional state.order.length state

def get (key : PageKey) (offset : ℕ) : Option MessageMeta :=
  state.pages[key]?.bind (·[offset]?)

def insert (state : CacheState) (key : PageKey) (page : List MessageMeta) : CacheState :=
  if state.maxBytes < pageBytes page ∨ key ∈ state.pages then state
  else
    let state := state.evictUntilAvailable (pageBytes page)
    if state.maxBytes < state.usedWith (pageBytes page) then state
    else
      { state with
        bytes := satAdd usizeMax state.bytes (pageBytes page)
        order := state.order ++ [key]
        pages := state.pages.insert key page }

def invalidate (path : ℕ) : CacheState :=
  let state :=
    (state.pages.keys.filter fun key => decide (key.segment = path)).foldl removePage state
  { state with order := state.order.filter fun key => decide (key.segment ≠ path) }

/-- A reservation for the metadata of new messages, or `none` when it has to wait.  One that is
larger than the whole budget is admitted when nothing else is charged. -/
def tryReserve (messages : ℕ) : Option ℕ × CacheState :=
  let bytes := metaBytes messages
  let state := state.evictUntilAvailable bytes
  let active := satAdd usizeMax state.activeBytes state.reservedBytes
  let activeLimit := state.maxBytes - minCacheBytes
  if (state.maxBytes < state.usedWith bytes ∨ activeLimit < satAdd usizeMax active bytes) ∧
      ¬(state.activeBytes = 0 ∧ state.reservedBytes = 0) then (none, state)
  else
    (some bytes, { state with reservedBytes := satAdd usizeMax state.reservedBytes bytes })

def addRecoveredActive (messages : ℕ) : CacheState :=
  let bytes := metaBytes messages
  let state := state.evictUntilAvailable bytes
  { state with activeBytes := satAdd usizeMax state.activeBytes bytes }

def releaseActive (messages : ℕ) : CacheState :=
  { state with activeBytes := state.activeBytes - metaBytes messages }

/-- Part of a reservation turns into active metadata. -/
def consume (remaining messages : ℕ) : CacheState :=
  let bytes := min (metaBytes messages) remaining
  { state with
    reservedBytes := state.reservedBytes - bytes
    activeBytes := satAdd usizeMax state.activeBytes bytes }

def dropReservation (remaining : ℕ) : CacheState :=
  { state with reservedBytes := state.reservedBytes - remaining }

end CacheState

/-- One operation of a thread under the lock of the cache. -/
inductive CacheOp where
  | load (segment : SealedMessages) (ordinal : ℕ)
  | reserve (messages : ℕ)
  | recovered (messages : ℕ)
  | release (messages : ℕ)
  | consume (remaining messages : ℕ)
  | drop (remaining : ℕ)
  | invalidate (path : ℕ)

namespace CacheState

def apply (state : CacheState) : CacheOp → CacheState
  | .load segment ordinal =>
    state.insert (MessageIndex.pageRequest segment ordinal).key
      (MessageIndex.page (MessageIndex.pageRequest segment ordinal))
  | .reserve messages => (state.tryReserve messages).2
  | .recovered messages => state.addRecoveredActive messages
  | .release messages => state.releaseActive messages
  | .consume remaining messages => state.consume remaining messages
  | .drop remaining => state.dropReservation remaining
  | .invalidate path => state.invalidate path

def run (state : CacheState) (ops : List CacheOp) : CacheState := ops.foldl apply state

/-- The page of an ordinal is read and put in unless it is there.  `reading` is what other threads
do while the page is read. -/
def loadBlocking (state : CacheState) (segment : SealedMessages) (ordinal : ℕ)
    (reading : List CacheOp) : CacheState :=
  if (MessageIndex.pageRequest segment ordinal).key ∈ state.pages then state
  else (state.run reading).apply (.load segment ordinal)

/-- The lookup after the page was loaded. -/
def entry (state : CacheState) (segment : SealedMessages) (ordinal : ℕ) :
    Except BrokerError MessageMeta :=
  let request := MessageIndex.pageRequest segment ordinal
  match state.get request.key (ordinal - request.firstOrdinal) with
  | some message => .ok message
  | none => .error (.invalidRecord "topic index page is incomplete")

/-- The call of one thread.  `after` is what other threads do between the insertion and the
lookup. -/
def loadOrdinal (state : CacheState) (segment : SealedMessages) (ordinal : ℕ)
    (reading after : List CacheOp) : Except BrokerError MessageMeta × CacheState :=
  let state := (state.loadBlocking segment ordinal reading).run after
  (state.entry segment ordinal, state)

/-! ### The books of the cache -/

/-- The pages in the cache, as the lookups see them. -/
def view (state : CacheState) : PageCache := fun key => state.pages[key]?

/-- The bytes of the page of a key. -/
def pageSize (state : CacheState) (key : PageKey) : ℕ := (state.pages[key]?.map pageBytes).getD 0

/-- The order lists the pages, and their bytes cover what is charged for pages. -/
structure Accounted (state : CacheState) : Prop where
  keys : ∀ key, key ∈ state.order ↔ key ∈ state.pages
  nodup : state.order.Nodup
  bytes : state.bytes ≤ ∑ key ∈ state.order.toFinset, state.pageSize key

theorem removePage_eq (state : CacheState) (key : PageKey) : state.removePage key =
      { state with pages := state.pages.erase key, bytes := state.bytes - state.pageSize key } := by
  unfold removePage pageSize
  cases hpage : state.pages[key]? with
  | none =>
    have herase : state.pages.erase key = state.pages := by
      apply Std.ExtTreeMap.ext_getElem?
      intro other
      grind
    simp [herase]
  | some page => rfl

theorem pageSize_removePage (state : CacheState) (key other : PageKey) :
    (state.removePage key).pageSize other = if other = key then 0 else state.pageSize other := by
  rw [removePage_eq]
  unfold pageSize
  by_cases heq : other = key
  · subst heq
    simp
  · have hne : key ≠ other := Ne.symm heq
    simp [heq, hne, Std.ExtTreeMap.getElem?_erase]

theorem removePage_bytes (state : CacheState) (key : PageKey) {keys : Finset PageKey}
    (h : state.bytes ≤ ∑ other ∈ keys, state.pageSize other) :
    (state.removePage key).bytes ≤ ∑ other ∈ keys, (state.removePage key).pageSize other := by
  have hsum : ∑ other ∈ keys, state.pageSize other ≤
      state.pageSize key + ∑ other ∈ keys, (state.removePage key).pageSize other := by
    by_cases hmem : key ∈ keys
    · rw [← Finset.add_sum_erase _ _ hmem, ← Finset.add_sum_erase _ _ hmem]
      have hrest : ∑ other ∈ keys.erase key, (state.removePage key).pageSize other =
          ∑ other ∈ keys.erase key, state.pageSize other :=
        Finset.sum_congr rfl fun other hother => by
          rw [pageSize_removePage, if_neg (Finset.ne_of_mem_erase hother)]
      rw [hrest]
      omega
    · have hsame : ∑ other ∈ keys, (state.removePage key).pageSize other =
          ∑ other ∈ keys, state.pageSize other :=
        Finset.sum_congr rfl fun other hother => by
          have hne : other ≠ key := fun heq => hmem (heq ▸ hother)
          rw [pageSize_removePage, if_neg hne]
      rw [hsame]
      omega
  have hbytes : (state.removePage key).bytes = state.bytes - state.pageSize key := by
    rw [removePage_eq]
  omega

theorem evicted_refl (cache : PageCache) : cache.Evicted cache := fun _ => Or.inr rfl

theorem evicted_trans {a b c : PageCache} (hab : a.Evicted b) (hbc : b.Evicted c) :
    a.Evicted c := by
  intro key
  rcases hbc key with hnone | hkept
  · exact Or.inl hnone
  · rw [hkept]
    exact hab key

theorem evicted_removePage (state : CacheState) (key : PageKey) :
    state.view.Evicted (state.removePage key).view := by
  intro other
  rw [removePage_eq]
  unfold view
  by_cases heq : key = other
  · left
    simp [heq]
  · right
    simp [Std.ExtTreeMap.getElem?_erase, heq]

variable {state : CacheState}

/-- An accounted cache without pages is charged nothing for pages. -/
theorem Accounted.bytes_eq_zero (h : state.Accounted) (hempty : state.order = []) : state.bytes = 0 := by
  have := h.bytes
  rw [hempty] at this
  simpa using this

/-! ### Eviction -/

theorem Accounted.removeOldest (h : state.Accounted) {oldest : PageKey}
    {rest : List PageKey} (horder : state.order = oldest :: rest) :
    ({ state with order := rest }.removePage oldest).Accounted := by
  have hnodup := h.nodup
  rw [horder, List.nodup_cons] at hnodup
  constructor
  · intro key
    have hkeys := h.keys key
    rw [horder, List.mem_cons] at hkeys
    rw [removePage_eq]
    simp only [Std.ExtTreeMap.mem_erase]
    constructor
    · intro hmem
      have hne : oldest ≠ key := fun heq => hnodup.1 (heq ▸ hmem)
      exact ⟨by simpa using hne, hkeys.1 (Or.inr hmem)⟩
    · rintro ⟨hne, hmem⟩
      exact (hkeys.2 hmem).resolve_left fun heq => by simp [heq] at hne
  · rw [removePage_eq]
    exact hnodup.2
  · have hbytes := h.bytes
    rw [horder, List.toFinset_cons] at hbytes
    have hremoved := removePage_bytes { state with order := rest } oldest hbytes
    rw [Finset.sum_insert (by simpa using hnodup.1), pageSize_removePage, if_pos rfl,
      Nat.zero_add] at hremoved
    have horder' : ({ state with order := rest }.removePage oldest).order = rest := by
      rw [removePage_eq]
    rw [horder']
    exact hremoved

/-- What eviction leaves: the same charges for metadata, fewer pages, and room for the bytes asked
for unless no page is left. -/
structure EvictedFor (state : CacheState) (additional : ℕ) (result : CacheState) : Prop where
  accounted : result.Accounted
  activeBytes : result.activeBytes = state.activeBytes
  reservedBytes : result.reservedBytes = state.reservedBytes
  maxBytes : result.maxBytes = state.maxBytes
  evicted : state.view.Evicted result.view
  room : result.maxBytes < result.usedWith additional → result.order = []

theorem evictLoop_spec {additional : ℕ} (fuel : ℕ) (h : state.Accounted) (hfuel : state.order.length ≤ fuel) :
    state.EvictedFor additional (evictLoop additional fuel state) := by
  induction fuel generalizing state with
  | zero =>
    have hempty : state.order = [] := List.length_eq_zero_iff.1 (Nat.le_zero.1 hfuel)
    exact ⟨h, rfl, rfl, rfl, evicted_refl _, fun _ => hempty⟩
  | succ fuel ih =>
    rw [evictLoop]
    by_cases hover : state.maxBytes < state.usedWith additional
    · rw [if_pos hover]
      cases horder : state.order with
      | nil => exact ⟨h, rfl, rfl, rfl, evicted_refl _, fun _ => horder⟩
      | cons oldest rest =>
        have hshort : ({ state with order := rest }.removePage oldest).order.length ≤ fuel := by
          rw [removePage_eq]
          rw [horder, List.length_cons] at hfuel
          exact Nat.le_of_succ_le_succ hfuel
        have hrest := ih (h.removeOldest horder) hshort
        have hfields : ({ state with order := rest }.removePage oldest).activeBytes =
              state.activeBytes ∧
            ({ state with order := rest }.removePage oldest).reservedBytes = state.reservedBytes ∧
            ({ state with order := rest }.removePage oldest).maxBytes = state.maxBytes := by
          rw [removePage_eq]
          exact ⟨rfl, rfl, rfl⟩
        exact ⟨hrest.accounted, hrest.activeBytes.trans hfields.1,
          hrest.reservedBytes.trans hfields.2.1, hrest.maxBytes.trans hfields.2.2,
          evicted_trans (evicted_removePage { state with order := rest } oldest) hrest.evicted,
          hrest.room⟩
    · rw [if_neg hover]
      exact ⟨h, rfl, rfl, rfl, evicted_refl _, fun hroom => absurd hroom hover⟩

theorem evictUntilAvailable_spec (h : state.Accounted) (additional : ℕ) :
    state.EvictedFor additional (state.evictUntilAvailable additional) :=
  evictLoop_spec state.order.length h le_rfl

/-- The keys that came before one, whose pages are evicted first. -/
def older (state : CacheState) (key : PageKey) : List PageKey :=
  state.order.takeWhile fun other => decide (other ≠ key)

/-- Eviction for so many bytes stops in front of the page of the key: without the pages that came
before it there is room. -/
def Spares (state : CacheState) (key : PageKey) (additional : ℕ) : Prop :=
  usedWith { state with bytes := state.bytes - ((state.older key).map state.pageSize).sum } additional ≤
    state.maxBytes

instance (state : CacheState) (key : PageKey) (additional : ℕ) : Decidable (state.Spares key additional) := by
  unfold Spares
  infer_instance

/-- The order of eviction: another page than the oldest is spared if it is spared without that. -/
theorem spares_removeOldest (h : state.Accounted) {oldest key : PageKey}
    {rest : List PageKey} (horder : state.order = oldest :: rest) (hne : oldest ≠ key) (additional : ℕ) :
    ({ state with order := rest }.removePage oldest).Spares key additional ↔ state.Spares key additional := by
  have holder : state.older key = oldest :: rest.takeWhile fun other => decide (other ≠ key) := by
    rw [older, horder]
    exact List.takeWhile_cons_of_pos (p := fun other => decide (other ≠ key)) (decide_eq_true hne)
  have hsizes : (rest.takeWhile fun other => decide (other ≠ key)).map
        ({ state with order := rest }.removePage oldest).pageSize =
      (rest.takeWhile fun other => decide (other ≠ key)).map state.pageSize := by
    refine List.map_congr_left fun other hother => ?_
    rw [pageSize_removePage, if_neg]
    · rfl
    · rintro rfl
      have hnodup := h.nodup
      rw [horder] at hnodup
      exact (List.nodup_cons.1 hnodup).1 (List.takeWhile_subset _ hother)
  have horder' : ({ state with order := rest }.removePage oldest).order = rest := by rw [removePage_eq]
  unfold Spares
  rw [holder, List.map_cons, List.sum_cons, ← Nat.sub_sub, older, horder', hsizes, removePage_eq]
  rfl

variable {key : PageKey}

/-- **What eviction spares.** -/
theorem evictLoop_mem_iff {additional : ℕ} (fuel : ℕ)
    (h : state.Accounted) (hfuel : state.order.length ≤ fuel) :
    key ∈ (evictLoop additional fuel state).pages ↔ key ∈ state.pages ∧ state.Spares key additional := by
  have hempty : ∀ {state : CacheState}, state.Accounted → state.order = [] →
      (key ∈ state.pages ↔ key ∈ state.pages ∧ state.Spares key additional) := by
    intro state h horder
    have hnot : key ∉ state.pages := by
      rw [← h.keys, horder]
      exact List.not_mem_nil
    exact iff_of_false hnot fun hmem => hnot hmem.1
  induction fuel generalizing state with
  | zero => exact hempty h (List.length_eq_zero_iff.1 (Nat.le_zero.1 hfuel))
  | succ fuel ih =>
    rw [evictLoop]
    by_cases hover : state.maxBytes < state.usedWith additional
    · rw [if_pos hover]
      cases horder : state.order with
      | nil => exact hempty h horder
      | cons oldest rest =>
        have hshort : ({ state with order := rest }.removePage oldest).order.length ≤ fuel := by
          rw [removePage_eq]
          rw [horder, List.length_cons] at hfuel
          exact Nat.le_of_succ_le_succ hfuel
        refine (ih (h.removeOldest horder) hshort).trans ?_
        by_cases hkey : oldest = key
        · subst hkey
          refine iff_of_false (fun hmem => ?_) fun hmem => absurd hmem.2 (not_le.2 ?_)
          · rw [removePage_eq] at hmem
            simp at hmem
          · rw [older, horder, List.takeWhile_cons_of_neg (by simp)]
            exact hover
        · rw [spares_removeOldest h horder hkey]
          refine and_congr_left fun _ => ?_
          rw [removePage_eq]
          simp [Std.ExtTreeMap.mem_erase, hkey]
    · rw [if_neg hover]
      refine ⟨fun hmem => ⟨hmem, ?_⟩, And.left⟩
      unfold Spares
      unfold usedWith satAdd at hover ⊢
      dsimp only
      omega

theorem evictUntilAvailable_mem_iff (h : state.Accounted) (key : PageKey) (additional : ℕ) :
    key ∈ (state.evictUntilAvailable additional).pages ↔ key ∈ state.pages ∧ state.Spares key additional :=
  evictLoop_mem_iff state.order.length h le_rfl

/-! ### Insertion -/

/-- A page fits beside the metadata that is charged to the budget. -/
def Fits (state : CacheState) (page : List MessageMeta) : Prop :=
  satAdd usizeMax (satAdd usizeMax (satAdd usizeMax 0 state.activeBytes) state.reservedBytes)
    (pageBytes page) ≤ state.maxBytes

instance (state : CacheState) (page : List MessageMeta) : Decidable (state.Fits page) := by
  unfold Fits
  infer_instance

variable {page : List MessageMeta}

theorem Fits.pageBytes_le (h : state.Fits page) : pageBytes page ≤ state.maxBytes := by
  have hword : pageBytes page ≤ usizeMax := Nat.min_le_right _ _
  unfold Fits satAdd at h
  omega

theorem EvictedFor.over_iff {state result : CacheState} (h : state.EvictedFor (pageBytes page) result) :
    result.maxBytes < result.usedWith (pageBytes page) ↔ ¬state.Fits page := by
  unfold Fits
  rw [not_le, ← h.activeBytes, ← h.reservedBytes, ← h.maxBytes]
  constructor
  · intro hover
    have hzero := h.accounted.bytes_eq_zero (h.room hover)
    rw [usedWith, hzero] at hover
    exact hover
  · intro hover
    unfold usedWith
    unfold satAdd at hover ⊢
    omega

theorem notMem_of_evicted {state result : CacheState} (h : state.view.Evicted result.view)
    (hmem : key ∉ state.pages) : key ∉ result.pages := by
  have hnone : state.pages[key]? = none := by simpa using hmem
  rw [← Std.ExtTreeMap.isSome_getElem?_iff_mem, Bool.not_eq_true, Option.isSome_eq_false_iff,
    Option.isNone_iff_eq_none]
  rcases h key with hgone | hkept
  · exact hgone
  · exact hkept.trans hnone

/-- The state with one more page. -/
def addPage (state : CacheState) (key : PageKey) (page : List MessageMeta) : CacheState :=
  { state with
    bytes := satAdd usizeMax state.bytes (pageBytes page)
    order := state.order ++ [key]
    pages := state.pages.insert key page }

/-- What an insertion does: nothing, or it evicts pages, and adds the page if there is room. -/
theorem insert_cases (state : CacheState) (key : PageKey) (page : List MessageMeta) :
    (state.maxBytes < pageBytes page ∨ key ∈ state.pages) ∧ state.insert key page = state ∨
      (pageBytes page ≤ state.maxBytes ∧ key ∉ state.pages) ∧
        ∃ evicted, state.evictUntilAvailable (pageBytes page) = evicted ∧
          (evicted.maxBytes < evicted.usedWith (pageBytes page) ∧ state.insert key page = evicted ∨
            evicted.usedWith (pageBytes page) ≤ evicted.maxBytes ∧
              state.insert key page = evicted.addPage key page) := by
  unfold insert
  by_cases hskip : state.maxBytes < pageBytes page ∨ key ∈ state.pages
  · exact Or.inl ⟨hskip, if_pos hskip⟩
  · refine Or.inr ⟨⟨not_lt.1 (not_or.1 hskip).1, (not_or.1 hskip).2⟩, _, rfl, ?_⟩
    rw [if_neg hskip]
    by_cases hover : (state.evictUntilAvailable (pageBytes page)).maxBytes <
        (state.evictUntilAvailable (pageBytes page)).usedWith (pageBytes page)
    · exact Or.inl ⟨hover, if_pos hover⟩
    · exact Or.inr ⟨not_lt.1 hover, if_neg hover⟩

/-- **When a page goes in.**  After an insertion the page of the key is in the cache exactly if
it was there or it fits. -/
theorem insert_mem_iff (h : state.Accounted) (key : PageKey) (page : List MessageMeta) :
    key ∈ (state.insert key page).pages ↔ key ∈ state.pages ∨ state.Fits page := by
  have hevicted := evictUntilAvailable_spec h (pageBytes page)
  rcases state.insert_cases key page with ⟨hskip, hinsert⟩ | ⟨⟨-, hmem⟩, evicted, rfl, hcase⟩
  · rw [hinsert]
    exact ⟨Or.inl, fun hor => hor.elim id fun hfits => hskip.resolve_left (not_lt.2 hfits.pageBytes_le)⟩
  · rcases hcase with ⟨hover, hinsert⟩ | ⟨hroom, hinsert⟩
    · rw [hinsert]
      have hgone := notMem_of_evicted hevicted.evicted hmem
      exact iff_of_false hgone (not_or.2 ⟨hmem, hevicted.over_iff.1 hover⟩)
    · have hfits : state.Fits page :=
        not_not.1 fun hnot => absurd hroom (not_le.2 (hevicted.over_iff.2 hnot))
      rw [hinsert]
      exact iff_of_true (by simp [addPage]) (Or.inr hfits)

theorem sum_addPage (hkey : key ∉ state.order) (page : List MessageMeta) :
    ∑ other ∈ (state.addPage key page).order.toFinset, (state.addPage key page).pageSize other =
      pageBytes page + ∑ other ∈ state.order.toFinset, state.pageSize other := by
  have hsize : (state.addPage key page).pageSize key = pageBytes page := by
    simp [addPage, pageSize]
  have horder : (state.addPage key page).order.toFinset = Insert.insert key state.order.toFinset := by
    ext other
    simp [addPage]
  rw [horder, Finset.sum_insert (by simpa using hkey), hsize]
  congr 1
  refine Finset.sum_congr rfl fun other hother => ?_
  have hne : key ≠ other := fun heq => hkey (heq ▸ List.mem_toFinset.1 hother)
  simp [addPage, pageSize, Std.ExtTreeMap.getElem?_insert, hne]

theorem Accounted.addPage (h : state.Accounted)
    (hkey : key ∉ state.pages) (page : List MessageMeta) : (state.addPage key page).Accounted := by
  have hnew : key ∉ state.order := fun hmem => hkey ((h.keys key).1 hmem)
  constructor
  · intro other
    have hkeys := h.keys other
    simp only [CacheState.addPage, List.mem_append, List.mem_singleton, Std.ExtTreeMap.mem_insert,
      Std.compare_eq_iff_eq, hkeys]
    tauto
  · exact List.nodup_append.2 ⟨h.nodup, List.nodup_singleton _, fun a ha b hb heq =>
      hnew (List.mem_singleton.1 hb ▸ heq ▸ ha)⟩
  · have hbytes := h.bytes
    have hadd := satAdd_le usizeMax state.bytes (pageBytes page)
    rw [sum_addPage hnew]
    show satAdd usizeMax state.bytes (pageBytes page) ≤ _
    omega

/-- An insertion evicts pages, and may add the one page. -/
theorem insert_spec (h : state.Accounted) (key : PageKey) (page : List MessageMeta) :
    (state.insert key page).Accounted ∧
      ∃ middle : PageCache, state.view.Evicted middle ∧
        ((state.insert key page).view = middle ∨ (state.insert key page).view =
          fun other => if other = key then some page else middle other) := by
  have hevicted := evictUntilAvailable_spec h (pageBytes page)
  rcases state.insert_cases key page with ⟨-, hinsert⟩ | ⟨⟨-, hmem⟩, evicted, rfl, hcase⟩
  · rw [hinsert]
    exact ⟨h, _, evicted_refl _, Or.inl rfl⟩
  · rcases hcase with ⟨-, hinsert⟩ | ⟨-, hinsert⟩
    · rw [hinsert]
      exact ⟨hevicted.accounted, _, hevicted.evicted, Or.inl rfl⟩
    · rw [hinsert]
      have hgone := notMem_of_evicted hevicted.evicted hmem
      refine ⟨hevicted.accounted.addPage hgone page, _, hevicted.evicted, Or.inr ?_⟩
      funext other
      by_cases hother : key = other
      · simp [view, addPage, hother]
      · simp [view, addPage, Std.ExtTreeMap.getElem?_insert, hother, Ne.symm hother]

/-! ### Invalidation -/

theorem removePages_bytes (state : CacheState) (removed : List PageKey) {keys : Finset PageKey}
    (h : state.bytes ≤ ∑ other ∈ keys, state.pageSize other) :
    (removed.foldl removePage state).bytes ≤
      ∑ other ∈ keys, (removed.foldl removePage state).pageSize other := by
  induction removed generalizing state with
  | nil => exact h
  | cons key removed ih => exact ih _ (removePage_bytes state key h)

theorem removePages_eq (state : CacheState) (removed : List PageKey) :
    (removed.foldl removePage state).order = state.order ∧
      (∀ key, (removed.foldl removePage state).pages[key]? =
        if key ∈ removed then none else state.pages[key]?) ∧
      state.view.Evicted (removed.foldl removePage state).view := by
  induction removed generalizing state with
  | nil => exact ⟨rfl, by simp, evicted_refl _⟩
  | cons key removed ih =>
    obtain ⟨horder, hpages, hevicted⟩ := ih (state.removePage key)
    refine ⟨?_, fun other => ?_, evicted_trans (evicted_removePage state key) hevicted⟩
    · rw [List.foldl_cons, horder, removePage_eq]
    · rw [List.foldl_cons, hpages, removePage_eq]
      by_cases hother : other = key
      · simp [hother]
      · have hne : key ≠ other := Ne.symm hother
        simp [hother, hne, Std.ExtTreeMap.getElem?_erase]

theorem invalidate_spec (h : state.Accounted) (path : ℕ) :
    (state.invalidate path).Accounted ∧ state.view.Evicted (state.invalidate path).view := by
  let removed := state.pages.keys.filter fun key => decide (key.segment = path)
  obtain ⟨horder, hpages, hevicted⟩ := state.removePages_eq removed
  have hremoved : ∀ key, key ∈ removed ↔ key ∈ state.pages ∧ key.segment = path := by
    intro key
    simp [removed]
  have hmem : ∀ key, key ∈ (removed.foldl removePage state).pages ↔
      key ∈ state.pages ∧ key.segment ≠ path := by
    intro key
    rw [← Std.ExtTreeMap.isSome_getElem?_iff_mem, hpages]
    by_cases hkey : key ∈ removed
    · have := (hremoved key).1 hkey
      simp [hkey, this]
    · rw [if_neg hkey, Std.ExtTreeMap.isSome_getElem?_iff_mem]
      have := (hremoved key).not.1 hkey
      tauto
  refine ⟨⟨fun key => ?_, ?_, ?_⟩, hevicted⟩
  · show key ∈ (removed.foldl removePage state).order.filter _ ↔
      key ∈ (removed.foldl removePage state).pages
    rw [horder, List.mem_filter, h.keys key, hmem key]
    simp
  · show ((removed.foldl removePage state).order.filter _).Nodup
    rw [horder]
    exact h.nodup.filter _
  · have hbytes := state.removePages_bytes removed h.bytes
    have hsame : ∑ key ∈ (state.order.filter fun key => decide (key.segment ≠ path)).toFinset,
        (removed.foldl removePage state).pageSize key =
        ∑ key ∈ state.order.toFinset, (removed.foldl removePage state).pageSize key := by
      refine Finset.sum_subset (fun key hkey => ?_) fun key hkey hnot => ?_
      · rw [List.mem_toFinset] at hkey ⊢
        exact List.mem_of_mem_filter hkey
      · have hpath : key.segment = path := by
          by_contra hne
          refine hnot ?_
          rw [List.mem_toFinset] at hkey ⊢
          exact List.mem_filter.2 ⟨hkey, by simpa using hne⟩
        have hin : key ∈ removed :=
          (hremoved key).2 ⟨(h.keys key).1 (List.mem_toFinset.1 hkey), hpath⟩
        rw [pageSize, hpages, if_pos hin]
        rfl
    show (removed.foldl removePage state).bytes ≤
      ∑ key ∈ ((removed.foldl removePage state).order.filter _).toFinset,
        (removed.foldl removePage state).pageSize key
    rw [horder, hsame]
    exact hbytes

/-! ### Runs of the cache -/

/-- One operation keeps the books, and changes the pages by evictions and one load. -/
theorem apply_spec (h : state.Accounted) (op : CacheOp) : (state.apply op).Accounted ∧
      ∃ middle : PageCache, state.view.Evicted middle ∧
        ((state.apply op).view = middle ∨ ∃ segment ordinal, op = .load segment ordinal ∧
          (state.apply op).view = middle.load (MessageIndex.pageRequest segment ordinal)) := by
  cases op with
  | load segment ordinal =>
    obtain ⟨haccounted, middle, hevicted, hview⟩ := insert_spec h
      (MessageIndex.pageRequest segment ordinal).key
      (MessageIndex.page (MessageIndex.pageRequest segment ordinal))
    exact ⟨haccounted, middle, hevicted,
      hview.imp_right fun hview => ⟨segment, ordinal, rfl, hview⟩⟩
  | reserve messages =>
    have hevicted := evictUntilAvailable_spec h (metaBytes messages)
    have haccounted := hevicted.accounted
    simp only [apply, tryReserve]
    split_ifs
    · exact ⟨haccounted, _, hevicted.evicted, Or.inl rfl⟩
    · exact ⟨⟨haccounted.keys, haccounted.nodup, haccounted.bytes⟩, _, hevicted.evicted,
        Or.inl rfl⟩
  | recovered messages =>
    have hevicted := evictUntilAvailable_spec h (metaBytes messages)
    have haccounted := hevicted.accounted
    exact ⟨⟨haccounted.keys, haccounted.nodup, haccounted.bytes⟩, _, hevicted.evicted, Or.inl rfl⟩
  | release messages =>
    exact ⟨⟨h.keys, h.nodup, h.bytes⟩, _, evicted_refl _, Or.inl rfl⟩
  | consume remaining messages =>
    exact ⟨⟨h.keys, h.nodup, h.bytes⟩, _, evicted_refl _, Or.inl rfl⟩
  | drop remaining =>
    exact ⟨⟨h.keys, h.nodup, h.bytes⟩, _, evicted_refl _, Or.inl rfl⟩
  | invalidate path =>
    obtain ⟨haccounted, hevicted⟩ := invalidate_spec h path
    exact ⟨haccounted, _, hevicted, Or.inl rfl⟩

/-- The operation loads known segments only. -/
def Known (segments : List SealedMessages) (op : CacheOp) : Prop :=
  ∀ segment ordinal, op = .load segment ordinal → segment ∈ segments

/-- The life of the cache, with the sealed segments of all topics. -/
inductive Cached (segments : List SealedMessages) : CacheState → Prop
  | new (cacheBytes : ℕ) : Cached segments (new cacheBytes)
  | apply {state : CacheState} (h : Cached segments state) (op : CacheOp)
      (known : Known segments op) : Cached segments (state.apply op)

/-- Every segment has its own file. -/
def OwnFiles (segments : List SealedMessages) : Prop :=
  segments.Pairwise fun a b => a.metadata.segmentPath ≠ b.metadata.segmentPath

section Life

variable {segments : List SealedMessages} {state : CacheState}

theorem Cached.accounted (h : Cached segments state) : state.Accounted := by
  induction h with
  | new cacheBytes => exact ⟨by simp [CacheState.new], List.nodup_nil, Nat.zero_le _⟩
  | apply _ op _ ih => exact (apply_spec ih op).1

theorem Cached.faithful (h : Cached segments state) (hown : OwnFiles segments) :
    MessageIndex.Faithful segments state.view := by
  induction h with
  | new cacheBytes =>
    intro segment _ ordinal page hpage
    simp [view, CacheState.new] at hpage
  | apply hcached op known ih =>
    obtain ⟨-, middle, hevicted, hview⟩ := apply_spec hcached.accounted op
    rcases hview with hview | ⟨segment, ordinal, hop, hview⟩
    · rw [hview]
      exact ih.evict hevicted
    · rw [hview]
      exact (ih.evict hevicted).load hown (known segment ordinal hop) ordinal

theorem Cached.run (h : Cached segments state) (ops : List CacheOp)
    (hknown : ∀ op ∈ ops, Known segments op) : Cached segments (state.run ops) := by
  induction ops generalizing state with
  | nil => exact h
  | cons op ops ih =>
    exact ih (h.apply op (hknown op (List.mem_cons_self ..)))
      fun other hother => hknown other (List.mem_cons_of_mem _ hother)

end Life

/-! ### One entry through the cache -/

/-- The operation leaves the page of the key where it is: what it charges is found in pages that came
before, and it does not invalidate the segment of the key. -/
def Keeps (key : PageKey) (state : CacheState) : CacheOp → Prop
  | .load segment ordinal =>
    let page := MessageIndex.page (MessageIndex.pageRequest segment ordinal)
    state.maxBytes < pageBytes page ∨ (MessageIndex.pageRequest segment ordinal).key ∈ state.pages ∨
      state.Spares key (pageBytes page)
  | .reserve messages | .recovered messages => state.Spares key (metaBytes messages)
  | .release _ | .consume _ _ | .drop _ => True
  | .invalidate path => key.segment ≠ path

/-- The operation loads the page of the key, which fits. -/
def Brings (key : PageKey) (state : CacheState) : CacheOp → Prop
  | .load segment ordinal =>
    (MessageIndex.pageRequest segment ordinal).key = key ∧
      state.Fits (MessageIndex.page (MessageIndex.pageRequest segment ordinal))
  | _ => False

instance (key : PageKey) (state : CacheState) (op : CacheOp) : Decidable (Keeps key state op) := by
  cases op <;> unfold Keeps <;> infer_instance

/-- **One operation**: the page of the key is there afterwards exactly if it was there and is kept, or is
brought. -/
theorem apply_mem_iff (h : state.Accounted) (op : CacheOp) :
    key ∈ (state.apply op).pages ↔ key ∈ state.pages ∧ Keeps key state op ∨ Brings key state op := by
  cases op with
  | load segment ordinal =>
    by_cases hkey : (MessageIndex.pageRequest segment ordinal).key = key
    · subst hkey
      refine (insert_mem_iff h _ _).trans (or_congr ?_ ?_)
      · exact ⟨fun hmem => ⟨hmem, Or.inr (Or.inl hmem)⟩, And.left⟩
      · exact ⟨fun hfits => ⟨rfl, hfits⟩, And.right⟩
    · refine Iff.trans ?_ (or_iff_left fun hbrings => hkey hbrings.1).symm
      have hevicted := evictUntilAvailable_mem_iff h key
        (pageBytes (MessageIndex.page (MessageIndex.pageRequest segment ordinal)))
      show key ∈ (state.insert _ _).pages ↔ _
      rcases state.insert_cases (MessageIndex.pageRequest segment ordinal).key
        (MessageIndex.page (MessageIndex.pageRequest segment ordinal)) with
        ⟨hskip, hinsert⟩ | ⟨⟨hsmall, hnew⟩, evicted, rfl, hcase⟩
      · rw [hinsert]
        exact ⟨fun hmem => ⟨hmem, hskip.imp_right Or.inl⟩, And.left⟩
      · have hkeeps : Keeps key state (.load segment ordinal) ↔ state.Spares key
            (pageBytes (MessageIndex.page (MessageIndex.pageRequest segment ordinal))) :=
          (or_iff_right (not_lt.2 hsmall)).trans (or_iff_right hnew)
        rw [hkeeps, ← hevicted]
        rcases hcase with ⟨-, hinsert⟩ | ⟨-, hinsert⟩
        · rw [hinsert]
        · rw [hinsert, addPage]
          simp [Std.ExtTreeMap.mem_insert, hkey]
  | reserve messages =>
    refine Iff.trans ?_ (or_iff_left id).symm
    refine Iff.trans ?_ (evictUntilAvailable_mem_iff h key (metaBytes messages))
    simp only [apply, tryReserve]
    split_ifs <;> rfl
  | recovered messages =>
    exact (evictUntilAvailable_mem_iff h key (metaBytes messages)).trans (or_iff_left id).symm
  | release messages | consume remaining messages | drop remaining =>
    exact (and_iff_left trivial).symm.trans (or_iff_left id).symm
  | invalidate path =>
    refine Iff.trans ?_ (or_iff_left id).symm
    obtain ⟨-, hpages, -⟩ := state.removePages_eq
      (state.pages.keys.filter fun key => decide (key.segment = path))
    show key ∈ ((state.pages.keys.filter fun key => decide (key.segment = path)).foldl
      removePage state).pages ↔ _
    rw [← Std.ExtTreeMap.isSome_getElem?_iff_mem, hpages, ← Std.ExtTreeMap.isSome_getElem?_iff_mem]
    simp only [List.mem_filter, Std.ExtTreeMap.mem_keys, decide_eq_true_eq, Keeps,
      ← Std.ExtTreeMap.isSome_getElem?_iff_mem]
    split_ifs with hgone
    · simp [hgone.2]
    · tauto

/-- Every operation of a run keeps the page of the key in the state it meets. -/
def KeepsAll (key : PageKey) : CacheState → List CacheOp → Prop
  | _, [] => True
  | state, op :: ops => Keeps key state op ∧ KeepsAll key (state.apply op) ops

instance decidableKeepsAll (key : PageKey) :
    (state : CacheState) → (ops : List CacheOp) → Decidable (KeepsAll key state ops)
  | _, [] => .isTrue trivial
  | state, op :: ops =>
    haveI := decidableKeepsAll key (state.apply op) ops
    inferInstanceAs (Decidable (_ ∧ _))

/-- **A run of operations**: the page of the key is there afterwards exactly if it was there and is kept
all along, or some operation brings it and those behind it keep it. -/
theorem run_mem_iff (h : state.Accounted) (ops : List CacheOp) :
    key ∈ (state.run ops).pages ↔ key ∈ state.pages ∧ KeepsAll key state ops ∨
      ∃ before op behind, ops = before ++ op :: behind ∧ Brings key (state.run before) op ∧
        KeepsAll key ((state.run before).apply op) behind := by
  induction ops generalizing state with
  | nil => simp [run, KeepsAll]
  | cons op ops ih =>
    refine (ih (apply_spec h op).1).trans ?_
    rw [apply_mem_iff h]
    constructor
    · rintro (⟨⟨hmem, hkeeps⟩ | hbrings, hall⟩ | ⟨before, other, behind, rfl, hbrings, hall⟩)
      · exact Or.inl ⟨hmem, hkeeps, hall⟩
      · exact Or.inr ⟨[], op, ops, rfl, hbrings, hall⟩
      · exact Or.inr ⟨op :: before, other, behind, rfl, hbrings, hall⟩
    · rintro (⟨hmem, hkeeps, hall⟩ | ⟨before, other, behind, hsplit, hbrings, hall⟩)
      · exact Or.inl ⟨Or.inl ⟨hmem, hkeeps⟩, hall⟩
      · cases before with
        | nil =>
          cases hsplit
          exact Or.inl ⟨Or.inr hbrings, hall⟩
        | cons first before =>
          cases hsplit
          exact Or.inr ⟨before, other, behind, rfl, hbrings, hall⟩

variable {segments : List SealedMessages}

/-- The lookup answers with the entry exactly if the page is in the cache. -/
theorem entry_iff (h : Cached segments state)
    (hown : OwnFiles segments) {segment : SealedMessages} (hsegment : segment ∈ segments)
    {ordinal : ℕ} (hlt : ordinal < segment.count) {message : MessageMeta}
    (hmessage : segment.metadata.messages[ordinal]? = some message) :
    state.entry segment ordinal = .ok message ↔
      (MessageIndex.pageRequest segment ordinal).key ∈ state.pages := by
  unfold entry get
  rw [← Std.ExtTreeMap.isSome_getElem?_iff_mem]
  cases hpage : state.pages[(MessageIndex.pageRequest segment ordinal).key]? with
  | none => simp [hpage]
  | some page =>
    rw [h.faithful hown segment hsegment ordinal page hpage] at hpage
    simp [hpage, MessageIndex.page_getElem? segment hlt, hmessage]

/-- The page is there after loading exactly if it was there, or was there or fitted when it had
been read. -/
theorem loadBlocking_mem_iff
    (h : Cached segments state) (segment : SealedMessages) (ordinal : ℕ) (reading : List CacheOp)
    (hknown : ∀ op ∈ reading, Known segments op) :
    (MessageIndex.pageRequest segment ordinal).key ∈
        (state.loadBlocking segment ordinal reading).pages ↔
      (MessageIndex.pageRequest segment ordinal).key ∈ state.pages ∨
        (MessageIndex.pageRequest segment ordinal).key ∈ (state.run reading).pages ∨
        (state.run reading).Fits
          (MessageIndex.page (MessageIndex.pageRequest segment ordinal)) := by
  unfold loadBlocking
  by_cases hmem : (MessageIndex.pageRequest segment ordinal).key ∈ state.pages
  · simp [hmem]
  · rw [if_neg hmem]
    have hread := (h.run reading hknown).accounted
    have hiff := insert_mem_iff hread (MessageIndex.pageRequest segment ordinal).key
      (MessageIndex.page (MessageIndex.pageRequest segment ordinal))
    exact hiff.trans ⟨Or.inr, fun hor => hor.resolve_left hmem⟩

theorem Cached.loadBlocking
    (h : Cached segments state) {segment : SealedMessages} (hsegment : segment ∈ segments)
    (ordinal : ℕ) {reading : List CacheOp} (hknown : ∀ op ∈ reading, Known segments op) :
    Cached segments (state.loadBlocking segment ordinal reading) := by
  unfold CacheState.loadBlocking
  split_ifs
  · exact h
  · refine (h.run reading hknown).apply _ fun other place heq => ?_
    cases heq
    exact hsegment

/-- **When an entry is read through the cache.**  Whatever other threads do while the page is read and
before it is looked up, the call answers with the entry of a known sidecar exactly if the page of the entry
was in the cache, or was there or fitted beside the metadata that is charged when it had been read, and
every operation between insertion and lookup keeps it; or if one of these operations brings the page and
those behind it keep it. -/
theorem loadOrdinal_iff (h : Cached segments state) (hown : OwnFiles segments) {segment : SealedMessages}
    (hsegment : segment ∈ segments) (hdescribes : segment.Describes) {ordinal : ℕ}
    (hlt : ordinal < segment.count) {reading after : List CacheOp}
    (hknown : ∀ op ∈ reading ++ after, Known segments op) :
    let request := MessageIndex.pageRequest segment ordinal
    let loaded := state.loadBlocking segment ordinal reading
    ∃ message, segment.metadata.messages[ordinal]? = some message ∧
      ((state.loadOrdinal segment ordinal reading after).1 = .ok message ↔
        (request.key ∈ state.pages ∨ request.key ∈ (state.run reading).pages ∨
            (state.run reading).Fits (MessageIndex.page request)) ∧ KeepsAll request.key loaded after ∨
          ∃ before op behind, after = before ++ op :: behind ∧ Brings request.key (loaded.run before) op ∧
            KeepsAll request.key ((loaded.run before).apply op) behind) := by
  obtain ⟨message, hmessage⟩ := hdescribes.exists_getElem? hlt
  have hreading : ∀ op ∈ reading, Known segments op :=
    fun op hop => hknown op (List.mem_append_left _ hop)
  have hloaded := h.loadBlocking hsegment ordinal hreading
  have hafter := hloaded.run after fun op hop => hknown op (List.mem_append_right _ hop)
  refine ⟨message, hmessage, (entry_iff hafter hown hsegment hlt hmessage).trans ?_⟩
  rw [run_mem_iff hloaded.accounted, loadBlocking_mem_iff h segment ordinal reading hreading]

/-- A sealed segment with one message. -/
def oneMessage : SealedMessages :=
  let message : MessageMeta := ⟨1, 1, 0, 0, 0, ⟨3, 0, 1, 0⟩⟩
  .summary ⟨3, 1, [message]⟩ [message] message message

theorem oneMessage_describes : oneMessage.Describes := ⟨⟨_, _, rfl, rfl, rfl⟩, rfl⟩

/-- A sealed segment of another topic. -/
def otherMessage : SealedMessages :=
  let message : MessageMeta := ⟨1, 2, 0, 0, 0, ⟨4, 0, 1, 0⟩⟩
  .summary ⟨4, 2, [message]⟩ [message] message message

/-- A cache with room for two pages of one message.  While the page is read another thread loads that of
the other topic, and before it is looked up a third one recovers a message, which takes all the room there
was: the page of the other topic came first and goes, and the entry is read. -/
theorem loadOrdinal_iff_pressed : ∃ message, oneMessage.metadata.messages[0]? = some message ∧
      (((new 0).apply (.reserve 1022)).loadOrdinal oneMessage 0 [.load otherMessage 0] [.recovered 1]).1 =
        .ok message := by
  have hcached : Cached [oneMessage, otherMessage] ((new 0).apply (.reserve 1022)) :=
    (Cached.new 0).apply _ (by simp [Known])
  have hown : OwnFiles [oneMessage, otherMessage] := by
    unfold OwnFiles
    decide
  have hknown : ∀ op ∈ [CacheOp.load otherMessage 0] ++ [.recovered 1],
      Known [oneMessage, otherMessage] op := by
    intro op hop segment ordinal heq
    subst heq
    simp only [List.cons_append, List.nil_append, List.mem_cons, CacheOp.load.injEq, reduceCtorEq,
      List.not_mem_nil, or_false] at hop
    rw [hop.1]
    exact List.mem_cons_of_mem _ (List.mem_singleton_self _)
  obtain ⟨message, hmessage, hiff⟩ := loadOrdinal_iff hcached hown List.mem_cons_self
    oneMessage_describes (show 0 < oneMessage.count by decide) hknown
  exact ⟨message, hmessage, hiff.2 (Or.inl ⟨Or.inr (Or.inr (by decide +kernel)), by decide +kernel⟩)⟩

/-- A topic reserves the metadata of a batch as large as the whole budget, which is admitted
since nothing else is charged.  No page fits beside it, and another topic's read fails. -/
theorem loadOrdinal_refused :
    Cached [oneMessage] ((new 0).apply (.reserve 1024)) ∧ oneMessage.Describes ∧
      (((new 0).apply (.reserve 1024)).loadOrdinal oneMessage 0 [] []).1 =
        .error (.invalidRecord "topic index page is incomplete") :=
  ⟨(Cached.new 0).apply (.reserve 1024) (by simp [Known]), oneMessage_describes, by decide +kernel⟩

end CacheState

end RustQueue.Topic
