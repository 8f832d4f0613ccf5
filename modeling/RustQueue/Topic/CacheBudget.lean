import RustQueue.Topic.Cache

/-!
# The budget of the page cache

`Ledger` is the cache next to what its charges are for: the active messages whose metadata is
resident and the unconsumed bytes of the live reservations.  A step is one operation of a thread
under the lock of the cache.  As long as everything charged fits a word, which saturates otherwise,
the books are exact in every state (`Reached.booked`).
-/

namespace RustQueue.Topic

open Lib

namespace CacheState

variable {state : CacheState}

/-! ### Exact books -/

/-- What is charged for pages is exactly what they take. -/
def Exact (state : CacheState) : Prop :=
  state.bytes = ∑ key ∈ state.order.toFinset, state.pageSize key

/-- Removing the pages one after another, no subtraction of bytes saturates. -/
def Removable : CacheState → List PageKey → Prop
  | _, [] => True
  | state, key :: rest => state.pageSize key ≤ state.bytes ∧ Removable (state.removePage key) rest

theorem removePages_exact (removed : List PageKey) (state : CacheState) {keys : Finset PageKey}
    (h : state.bytes = ∑ key ∈ keys, state.pageSize key) (hsub : ∀ key ∈ removed, key ∈ keys)
    (hnodup : removed.Nodup) :
    state.Removable removed ∧ (removed.foldl removePage state).bytes =
      ∑ key ∈ keys \ removed.toFinset, (removed.foldl removePage state).pageSize key := by
  induction removed generalizing state keys with
  | nil => exact ⟨trivial, by simpa using h⟩
  | cons key removed ih =>
    obtain ⟨hnot, hnodup⟩ := List.nodup_cons.1 hnodup
    have hmem : key ∈ keys := hsub key List.mem_cons_self
    have hle : state.pageSize key ≤ state.bytes :=
      h ▸ Finset.single_le_sum (fun _ _ => Nat.zero_le _) hmem
    have hnext : (state.removePage key).bytes =
        ∑ other ∈ keys.erase key, (state.removePage key).pageSize other := by
      have hrest : ∑ other ∈ keys.erase key, (state.removePage key).pageSize other =
          ∑ other ∈ keys.erase key, state.pageSize other :=
        Finset.sum_congr rfl fun other hother => by
          rw [pageSize_removePage, if_neg (Finset.ne_of_mem_erase hother)]
      rw [hrest, removePage_eq]
      show state.bytes - state.pageSize key = _
      rw [h, ← Finset.add_sum_erase _ _ hmem, Nat.add_sub_cancel_left]
    obtain ⟨hremovable, hbytes⟩ := ih _ hnext (fun other hother => Finset.mem_erase.2
      ⟨fun heq => hnot (heq ▸ hother), hsub other (List.mem_cons_of_mem _ hother)⟩) hnodup
    refine ⟨⟨hle, hremovable⟩, hbytes.trans ?_⟩
    congr 1
    ext other
    simp only [Finset.mem_sdiff, Finset.mem_erase, List.toFinset_cons, Finset.mem_insert,
      List.mem_toFinset]
    tauto

theorem removePages_charges (state : CacheState) (removed : List PageKey) :
    (removed.foldl removePage state).activeBytes = state.activeBytes ∧
      (removed.foldl removePage state).reservedBytes = state.reservedBytes := by
  induction removed generalizing state with
  | nil => exact ⟨rfl, rfl⟩
  | cons key removed ih =>
    obtain ⟨hactive, hreserved⟩ := ih (state.removePage key)
    rw [removePage_eq] at hactive hreserved
    exact ⟨by rw [List.foldl_cons, removePage_eq, hactive], by rw [List.foldl_cons, removePage_eq, hreserved]⟩

theorem Exact.evictLoop {additional : ℕ} (fuel : ℕ) {state : CacheState} (hexact : state.Exact)
    (h : state.Accounted) : (evictLoop additional fuel state).Exact := by
  induction fuel generalizing state with
  | zero => exact hexact
  | succ fuel ih =>
    rw [CacheState.evictLoop]
    split_ifs
    · cases horder : state.order with
      | nil => exact hexact
      | cons oldest rest =>
        refine ih ?_ (h.removeOldest horder)
        have hnot : oldest ∉ rest := (List.nodup_cons.1 (horder ▸ h.nodup)).1
        unfold Exact at hexact
        rw [horder] at hexact
        obtain ⟨-, hbytes⟩ := removePages_exact [oldest] { state with order := rest } hexact
          (by simp) (List.nodup_singleton _)
        have hkeys : (oldest :: rest).toFinset \ [oldest].toFinset = rest.toFinset := by
          ext key
          simp only [Finset.mem_sdiff, List.mem_toFinset, List.mem_cons, List.not_mem_nil, or_false]
          grind
        have horder' : ({ state with order := rest }.removePage oldest).order = rest := by
          rw [removePage_eq]
        rw [hkeys] at hbytes
        unfold Exact
        rw [horder']
        exact hbytes
    · exact hexact

theorem Exact.evict (hexact : state.Exact) (h : state.Accounted) (additional : ℕ) :
    (state.evictUntilAvailable additional).Exact :=
  hexact.evictLoop _ h

theorem Exact.invalidate (hexact : state.Exact) (h : state.Accounted) (path : ℕ) :
    (state.invalidate path).Exact := by
  have hkeys : ∀ key ∈ state.pages.keys.filter (fun key => decide (key.segment = path)),
      key ∈ state.order.toFinset := fun key hkey => by
    rw [List.mem_toFinset, h.keys]
    exact Std.ExtTreeMap.mem_keys.1 (List.mem_of_mem_filter hkey)
  obtain ⟨-, hbytes⟩ := removePages_exact _ _ hexact hkeys
    (Std.ExtTreeMap.nodup_keys.filter _)
  obtain ⟨horder, -⟩ := state.removePages_eq
    (state.pages.keys.filter fun key => decide (key.segment = path))
  refine Eq.trans hbytes (Finset.sum_congr ?_ fun _ _ => rfl)
  show _ = (List.filter _ _).toFinset
  rw [horder]
  ext key
  simp only [Finset.mem_sdiff, List.mem_toFinset, List.mem_filter, h.keys, Std.ExtTreeMap.mem_keys,
    decide_eq_true_eq, not_and]
  tauto

/-- The bytes that the cached pages take. -/
def pagesBytes (state : CacheState) : ℕ := ∑ key ∈ state.order.toFinset, state.pageSize key

/-- An insertion keeps the books exact as long as the pages fit a word, and a page that goes in does
not exceed the budget. -/
theorem Exact.insert (hexact : state.Exact) (h : state.Accounted) (key : PageKey)
    (page : List MessageMeta) (hfits : (state.insert key page).pagesBytes + state.activeBytes +
      state.reservedBytes ≤ usizeMax) :
    (state.insert key page).Exact ∧
      (state.insert key page).activeBytes = state.activeBytes ∧
      (state.insert key page).reservedBytes = state.reservedBytes ∧
      (key ∉ state.pages → key ∈ (state.insert key page).pages →
        (state.insert key page).bytes + (state.insert key page).activeBytes +
          (state.insert key page).reservedBytes ≤ (state.insert key page).maxBytes) := by
  have hevicted := evictUntilAvailable_spec h (pageBytes page)
  have hexact' := hexact.evict h (pageBytes page)
  rcases state.insert_cases key page with ⟨-, hinsert⟩ | ⟨⟨-, hmem⟩, evicted, rfl, hcase⟩
  · rw [hinsert]
    exact ⟨hexact, rfl, rfl, fun hnot hin => absurd hin hnot⟩
  · have hgone := notMem_of_evicted hevicted.evicted hmem
    rcases hcase with ⟨-, hinsert⟩ | ⟨hroom, hinsert⟩
    · rw [hinsert]
      exact ⟨hexact', hevicted.activeBytes, hevicted.reservedBytes, fun _ hin => absurd hin hgone⟩
    · rw [hinsert] at hfits ⊢
      have hsum := sum_addPage (fun hin => hgone ((hevicted.accounted.keys key).1 hin)) page
      rw [pagesBytes, hsum, ← hexact', ← hevicted.activeBytes, ← hevicted.reservedBytes] at hfits
      generalize state.evictUntilAvailable (pageBytes page) = evicted at *
      have hbytes : (evicted.addPage key page).bytes = pageBytes page + evicted.bytes :=
        (satAdd_eq (by omega)).trans (Nat.add_comm _ _)
      refine ⟨?_, hevicted.activeBytes, hevicted.reservedBytes, fun _ _ => ?_⟩
      · rw [Exact, hbytes, hsum, hexact']
      · rw [hbytes]
        show _ + evicted.activeBytes + evicted.reservedBytes ≤ evicted.maxBytes
        unfold usedWith satAdd at hroom
        omega

end CacheState

/-! ### The ledger -/

/-- The cache, the number of active messages whose metadata is resident, and what is left of each
live reservation, in bytes. -/
structure Ledger where
  cache : CacheState
  active : ℕ
  live : List ℕ

namespace Ledger

open CacheState

/-- The bytes of the pages, of the resident metadata and of the live reservations. -/
def charged (ledger : Ledger) : ℕ :=
  ledger.cache.pagesBytes + messageMetaBytes * ledger.active + ledger.live.sum

/-- One operation on the cache. -/
inductive Step : Ledger → Ledger → Prop
  | reserve {ledger : Ledger} {messages bytes : ℕ} {cache : CacheState}
      (granted : ledger.cache.tryReserve messages = (some bytes, cache)) :
      Step ledger ⟨cache, ledger.active, bytes :: ledger.live⟩
  | refused {ledger : Ledger} {messages : ℕ} {cache : CacheState}
      (refused : ledger.cache.tryReserve messages = (none, cache)) :
      Step ledger { ledger with cache := cache }
  | consume {ledger : Ledger} {before after : List ℕ} {remaining messages : ℕ}
      (live : ledger.live = before ++ remaining :: after) (enough : metaBytes messages ≤ remaining) :
      Step ledger ⟨ledger.cache.consume remaining messages, ledger.active + messages,
        before ++ (remaining - min (metaBytes messages) remaining) :: after⟩
  | drop {ledger : Ledger} {before after : List ℕ} {remaining : ℕ}
      (live : ledger.live = before ++ remaining :: after) :
      Step ledger ⟨ledger.cache.dropReservation remaining, ledger.active, before ++ after⟩
  | recovered (ledger : Ledger) (messages : ℕ) :
      Step ledger ⟨ledger.cache.addRecoveredActive messages, ledger.active + messages, ledger.live⟩
  | release (ledger : Ledger) {messages : ℕ} (resident : messages ≤ ledger.active) :
      Step ledger ⟨ledger.cache.releaseActive messages, ledger.active - messages, ledger.live⟩
  | insert (ledger : Ledger) (key : PageKey) (page : List MessageMeta) :
      Step ledger { ledger with cache := ledger.cache.insert key page }
  | invalidate (ledger : Ledger) (path : ℕ) :
      Step ledger { ledger with cache := ledger.cache.invalidate path }
  | evict (ledger : Ledger) (additional : ℕ) :
      Step ledger { ledger with cache := ledger.cache.evictUntilAvailable additional }

def new (cacheBytes : ℕ) : Ledger := ⟨.new cacheBytes, 0, []⟩

/-- A cache after any operations, where everything charged fits a word all along. -/
inductive Reached : Ledger → Prop
  | new (cacheBytes : ℕ) : Reached (new cacheBytes)
  | step {ledger ledger' : Ledger} (h : Reached ledger) (step : Step ledger ledger')
      (fits : ledger'.charged ≤ usizeMax) : Reached ledger'

/-- The books of the cache are exact. -/
structure Booked (ledger : Ledger) : Prop where
  accounted : ledger.cache.Accounted
  pages : ledger.cache.Exact
  active : ledger.cache.activeBytes = messageMetaBytes * ledger.active
  reserved : ledger.cache.reservedBytes = ledger.live.sum
  word : ledger.cache.activeBytes ≤ usizeMax

variable {ledger ledger' : Ledger}

theorem metaBytes_eq {messages : ℕ} (h : messageMetaBytes * messages ≤ usizeMax) :
    metaBytes messages = messageMetaBytes * messages := by
  rw [metaBytes, satMul, Nat.mul_comm, min_eq_left h]

theorem Booked.evict (h : ledger.Booked) (additional : ℕ) :
    Booked { ledger with cache := ledger.cache.evictUntilAvailable additional } :=
  have hevicted := evictUntilAvailable_spec h.accounted additional
  ⟨hevicted.accounted, h.pages.evict h.accounted additional, hevicted.activeBytes.trans h.active,
    hevicted.reservedBytes.trans h.reserved, hevicted.activeBytes.trans_le h.word⟩

theorem Booked.recharge (h : ledger.Booked) {activeBytes reservedBytes active : ℕ} {live : List ℕ}
    (hactive : activeBytes = messageMetaBytes * active) (hreserved : reservedBytes = live.sum)
    (hword : activeBytes ≤ usizeMax) :
    Booked ⟨{ ledger.cache with activeBytes := activeBytes, reservedBytes := reservedBytes }, active,
      live⟩ :=
  ⟨⟨h.accounted.keys, h.accounted.nodup, h.accounted.bytes⟩, h.pages, hactive, hreserved, hword⟩

theorem Booked.sum_split (h : ledger.Booked) {before after : List ℕ} {remaining : ℕ}
    (live : ledger.live = before ++ remaining :: after) :
    ledger.cache.reservedBytes = before.sum + remaining + after.sum := by
  rw [h.reserved, live, List.sum_append, List.sum_cons, Nat.add_assoc]

theorem tryReserve_cases {cache cache' : CacheState} {messages : ℕ} {answer : Option ℕ}
    (h : cache.tryReserve messages = (answer, cache')) :
    ∃ evicted, cache.evictUntilAvailable (metaBytes messages) = evicted ∧
      (answer = none ∧ cache' = evicted ∨
        (evicted.usedWith (metaBytes messages) ≤ evicted.maxBytes ∨
          evicted.activeBytes = 0 ∧ evicted.reservedBytes = 0) ∧ answer = some (metaBytes messages) ∧
        cache' = { evicted with
          reservedBytes := satAdd usizeMax evicted.reservedBytes (metaBytes messages) }) := by
  refine ⟨_, rfl, ?_⟩
  unfold tryReserve at h
  dsimp only at h
  split_ifs at h with hover
  · cases h
    exact Or.inl ⟨rfl, rfl⟩
  · cases h
    refine Or.inr ⟨?_, rfl, rfl⟩
    by_contra hnot
    obtain ⟨hroom, hempty⟩ := not_or.1 hnot
    exact hover ⟨Or.inl (not_le.1 hroom), hempty⟩

theorem Booked.step (h : ledger.Booked) (step : Step ledger ledger')
    (fits : ledger'.charged ≤ usizeMax) : ledger'.Booked := by
  have hactive := h.active
  cases step with
  | @reserve messages bytes cache granted =>
    obtain ⟨evicted, rfl, ⟨hnone, -⟩ | ⟨-, hbytes, rfl⟩⟩ := tryReserve_cases granted
    · cases hnone
    · cases hbytes
      have hevicted := h.evict (metaBytes messages)
      refine hevicted.recharge hevicted.active ?_ hevicted.word
      simp only [charged, List.sum_cons] at fits ⊢
      rw [hevicted.reserved, Nat.add_comm]
      exact satAdd_eq (show ledger.live.sum + _ ≤ _ by omega)
  | @refused messages cache refused =>
    obtain ⟨evicted, rfl, ⟨-, rfl⟩ | ⟨-, hsome, -⟩⟩ := tryReserve_cases refused
    · exact h.evict (metaBytes messages)
    · cases hsome
  | @consume before after remaining messages live enough =>
    have hsum := h.sum_split live
    simp only [charged, Nat.mul_add] at fits
    have hmeta : metaBytes messages = messageMetaBytes * messages := metaBytes_eq (by omega)
    have hcharge : satAdd usizeMax ledger.cache.activeBytes (min (metaBytes messages) remaining) =
        messageMetaBytes * (ledger.active + messages) := by
      rw [min_eq_left enough, hactive, hmeta, Nat.mul_add]
      exact satAdd_eq (by omega)
    refine h.recharge hcharge ?_ (satAdd_le_max _ _ _)
    simp only [min_eq_left enough, List.sum_append, List.sum_cons]
    omega
  | @drop before after remaining live =>
    have hsum := h.sum_split live
    refine h.recharge hactive ?_ h.word
    rw [List.sum_append]
    omega
  | recovered messages =>
    have hevicted := h.evict (metaBytes messages)
    simp only [charged, Nat.mul_add] at fits
    refine hevicted.recharge ?_ hevicted.reserved (satAdd_le_max _ _ _)
    rw [hevicted.active, metaBytes_eq (by omega), Nat.mul_add]
    exact satAdd_eq (show messageMetaBytes * ledger.active + _ ≤ _ by omega)
  | @release messages resident =>
    have hword := h.word
    have hle := Nat.mul_le_mul_left messageMetaBytes resident
    refine h.recharge ?_ h.reserved ((Nat.sub_le _ _).trans hword)
    rw [hactive, metaBytes_eq (by omega), Nat.mul_sub]
  | insert key page =>
    obtain ⟨haccounted, -⟩ := insert_spec h.accounted key page
    have hreserved := h.reserved
    simp only [charged] at fits
    obtain ⟨hexact, hactive', hreserved', -⟩ := h.pages.insert h.accounted key page (by omega)
    exact ⟨haccounted, hexact, hactive'.trans hactive, hreserved'.trans hreserved,
      hactive'.trans_le h.word⟩
  | invalidate path =>
    obtain ⟨hsame, hreserved⟩ := ledger.cache.removePages_charges
      (ledger.cache.pages.keys.filter fun key => decide (key.segment = path))
    exact ⟨(invalidate_spec h.accounted path).1, h.pages.invalidate h.accounted path,
      hsame.trans hactive, hreserved.trans h.reserved, hsame.trans_le h.word⟩
  | evict additional => exact h.evict additional

theorem Reached.booked (h : ledger.Reached) : ledger.Booked := by
  induction h with
  | new cacheBytes =>
    exact ⟨⟨by simp [Ledger.new, CacheState.new], List.nodup_nil, Nat.zero_le _⟩, rfl, rfl, rfl,
      Nat.zero_le _⟩
  | step _ step fits ih => exact ih.step step fits

/-- A reservation that is granted over other charges stays within the budget. -/
theorem Booked.reserve_within (h : ledger.Booked) {messages bytes : ℕ} {cache : CacheState}
    (granted : ledger.cache.tryReserve messages = (some bytes, cache))
    (fits : charged ⟨cache, ledger.active, bytes :: ledger.live⟩ ≤ usizeMax)
    (hover : cache.maxBytes < cache.bytes + cache.activeBytes + cache.reservedBytes) :
    ledger.cache.activeBytes = 0 ∧ ledger.cache.reservedBytes = 0 := by
  obtain ⟨evicted, rfl, ⟨hnone, -⟩ | ⟨hroom, hbytes, rfl⟩⟩ := tryReserve_cases granted
  · cases hnone
  · cases hbytes
    have hevicted := evictUntilAvailable_spec h.accounted (metaBytes messages)
    have hbooked := h.evict (metaBytes messages)
    rcases hroom with hroom | ⟨hactive, hreserved⟩
    · have hbytes : (ledger.cache.evictUntilAvailable (metaBytes messages)).bytes =
          (ledger.cache.evictUntilAvailable (metaBytes messages)).pagesBytes := hbooked.pages
      have hactive := hbooked.active
      have hreserved := hbooked.reserved
      simp only [charged, List.sum_cons] at fits
      simp only at hover hactive hreserved
      unfold usedWith satAdd at hroom
      unfold satAdd at hover
      change pagesBytes (ledger.cache.evictUntilAvailable (metaBytes messages)) + _ + _ ≤ _ at fits
      omega
    · exact ⟨hevicted.activeBytes ▸ hactive, hevicted.reservedBytes ▸ hreserved⟩

/-- **The accounts of the cache are conserved.**  As long as everything charged fits a word: the
bytes of pages, of active metadata and of reservations are exact; the order lists the cached pages,
each once; no subtraction saturates, for any pages removed one after another, any messages released
and any part of a live reservation consumed or dropped; a page that goes in stays within the budget;
and a reservation beyond the budget is granted only when nothing else is charged. -/
theorem cache_accounting {ledger : Ledger} (h : ledger.Reached) :
    ledger.cache.bytes = ∑ key ∈ ledger.cache.order.toFinset, ledger.cache.pageSize key ∧
    (∀ key, key ∈ ledger.cache.order ↔ key ∈ ledger.cache.pages) ∧ ledger.cache.order.Nodup ∧
    ledger.cache.activeBytes = messageMetaBytes * ledger.active ∧
    ledger.cache.reservedBytes = ledger.live.sum ∧
    (∀ removed : List PageKey, removed.Nodup → (∀ key ∈ removed, key ∈ ledger.cache.pages) →
      ledger.cache.Removable removed) ∧
    (∀ messages ≤ ledger.active, metaBytes messages ≤ ledger.cache.activeBytes) ∧
    (∀ remaining ∈ ledger.live, remaining ≤ ledger.cache.reservedBytes) ∧
    (∀ key page, charged { ledger with cache := ledger.cache.insert key page } ≤ usizeMax →
      key ∉ ledger.cache.pages → key ∈ (ledger.cache.insert key page).pages →
      (ledger.cache.insert key page).bytes + (ledger.cache.insert key page).activeBytes +
        (ledger.cache.insert key page).reservedBytes ≤ (ledger.cache.insert key page).maxBytes) ∧
    ∀ messages bytes cache, ledger.cache.tryReserve messages = (some bytes, cache) →
      charged ⟨cache, ledger.active, bytes :: ledger.live⟩ ≤ usizeMax →
      cache.maxBytes < cache.bytes + cache.activeBytes + cache.reservedBytes →
      ledger.cache.activeBytes = 0 ∧ ledger.cache.reservedBytes = 0 := by
  have hbooked := h.booked
  refine ⟨hbooked.pages, hbooked.accounted.keys, hbooked.accounted.nodup, hbooked.active,
    hbooked.reserved, fun removed hnodup hcached => ?_, fun messages hle => ?_,
    fun remaining hlive => ?_, fun key page fits hnew hin => ?_,
    fun messages bytes cache granted fits => hbooked.reserve_within granted fits⟩
  · exact (removePages_exact removed _ hbooked.pages
      (fun key hkey => List.mem_toFinset.2 ((hbooked.accounted.keys key).2 (hcached key hkey))) hnodup).1
  · rw [hbooked.active]
    refine le_trans ?_ (Nat.mul_le_mul_left _ hle)
    rw [metaBytes, satMul, Nat.mul_comm]
    exact Nat.min_le_left _ _
  · rw [hbooked.reserved]
    exact List.single_le_sum (fun _ _ => Nat.zero_le _) _ hlive
  · have hactive := hbooked.active
    have hreserved := hbooked.reserved
    simp only [charged] at fits
    exact (hbooked.pages.insert hbooked.accounted key page (by omega)).2.2.2 hnew hin

/-- A batch of ten messages is reserved and four of them become active. -/
theorem cache_accounting_consumed :
    ∃ ledger : Ledger, ledger.active = 4 ∧ ledger.live = [384] ∧ ledger.cache.activeBytes = 256 ∧
      ledger.cache.reservedBytes = 384 := by
  let reserved : CacheState := ((new 0).cache.tryReserve 10).2
  have hreserve : Step (new 0) ⟨reserved, 0, [640]⟩ :=
    .reserve (show (new 0).cache.tryReserve 10 = (some 640, reserved) from
      Prod.ext (by decide +kernel) rfl)
  have hconsume : Step ⟨reserved, 0, [640]⟩ ⟨reserved.consume 640 4, 0 + 4, [] ++ [640 - min (metaBytes 4) 640]⟩ :=
    .consume rfl (by decide +kernel)
  have hreached := ((Reached.new 0).step hreserve (by decide +kernel)).step hconsume (by decide +kernel)
  obtain ⟨-, -, -, hactive, hreserved, -⟩ := cache_accounting hreached
  exact ⟨_, rfl, by decide +kernel, hactive, hreserved⟩

/-- Recovered metadata beyond a word: the charge stops at the largest word, and releasing the
messages in two halves takes off more than is left. -/
theorem accounting_saturates :
    ∃ first second third : Ledger, Step (new 0) first ∧ Step first second ∧ Step second third ∧
      second.cache.activeBytes ≠ messageMetaBytes * second.active ∧
      2 ^ 57 ≤ third.active ∧ third.cache.activeBytes < metaBytes (2 ^ 57) :=
  ⟨_, _, _, .recovered _ (2 ^ 57), .recovered _ (2 ^ 57),
    .release _ (show 2 ^ 57 ≤ _ by decide +kernel), by decide +kernel, by decide +kernel, by decide +kernel⟩

end Ledger

end RustQueue.Topic
