import RustQueue.Lib.Counts
import RustQueue.Lib.Watch
import RustQueue.Proxy.Gateway

/-!
# The backends of the proxy

The pool holds the brokers that discovery has found, how many connections go to each of them, and a watch channel
for each.  A connection takes a lease of the broker with the fewest connections and gives it back when it ends;
every time discovery replaces the list, the leases of the brokers that have gone or have moved are told.

The watch channels are those of a library, so that the pool of the model has the calls that were made on its
senders; what a receiver learns of them is a parameter with the law `Watching`.

A `System` is the pool with the leases that are out.  Each of them carries in the model whether a replacement
has dropped or changed its broker since; the code has no such record.

* `Senders`: the senders of the pool are its own, one per broker, and not dropped;
* `Lent.step`: what one call keeps, for each of the three calls;
* `leases_accounted`: over every run, the counts are the numbers of leases, a lease goes to a broker with the
  fewest, and exactly the leases whose broker was dropped or changed are told.
-/

namespace RustQueue.Proxy

open Std Lib

/-! ### The pool -/

/-- The state of the pool, with the calls that were made on its senders. -/
structure PoolState where
  backends : List Backend
  activeConnections : ExtTreeMap ℕ ℕ
  invalidation : ExtTreeMap ℕ ℕ
  nextTie : ℕ
  watchCalls : List WatchCall

structure BackendLease where
  backend : Backend
  invalidation : Receiver
  deriving DecidableEq, Repr

namespace PoolState

def empty : PoolState := ⟨[], ∅, ∅, 0, []⟩

/-- The connections to a broker, none if it has no entry. -/
def active (pool : PoolState) (node : ℕ) : ℕ := pool.activeConnections[node]?.getD 0

end PoolState

/-- The last entry of a list for each broker. -/
def uniqueBackends (backends : List Backend) : ExtTreeMap ℕ Backend :=
  backends.foldl (fun unique backend => unique.insert backend.nodeId backend) ∅

/-- The number of senders that were created. -/
def created (calls : List WatchCall) : ℕ := calls.count .create

/-- The sender for a broker is created unless there is one. -/
def ensureSender (senders : ExtTreeMap ℕ ℕ × List WatchCall) (node : ℕ) : ExtTreeMap ℕ ℕ × List WatchCall :=
  if node ∈ senders.1 then senders
  else (senders.1.insert node (created senders.2), senders.2 ++ [.create])

namespace PoolState

variable (pool : PoolState)

/-- The brokers of the pool whose entry is not in the new list. -/
def changed (unique : ExtTreeMap ℕ Backend) : List ℕ :=
  (pool.backends.filter fun backend => unique[backend.nodeId]? ≠ some backend).map Backend.nodeId

/-- The senders that go. -/
def droppedSenders (unique : ExtTreeMap ℕ Backend) : List ℕ :=
  (pool.invalidation.toList.filter fun entry => entry.1 ∉ unique).map Prod.snd

/-- The senders that tell their receivers of a replacement. -/
def toldSenders (unique : ExtTreeMap ℕ Backend) : List ℕ :=
  (pool.changed unique).filterMap (pool.invalidation[·]?)

/-- The senders that stay, once the changes are told and the others are dropped. -/
def keptSenders (unique : ExtTreeMap ℕ Backend) : ExtTreeMap ℕ ℕ × List WatchCall :=
  (pool.invalidation.filter fun node _ => decide (node ∈ unique),
    pool.watchCalls ++ ((pool.toldSenders unique).map .sendModify ++ (pool.droppedSenders unique).map .drop))

/-- The senders after a replacement, one for every broker. -/
def replacedSenders (unique : ExtTreeMap ℕ Backend) : ExtTreeMap ℕ ℕ × List WatchCall :=
  unique.keys.foldl ensureSender (pool.keptSenders unique)

def replace (backends : List Backend) : PoolState :=
  let unique := uniqueBackends backends
  { backends := unique.toList.map Prod.snd
    activeConnections :=
      pool.activeConnections.filter fun node active => decide (0 < active ∨ node ∈ unique)
    invalidation := (pool.replacedSenders unique).1
    nextTie := pool.nextTie
    watchCalls := (pool.replacedSenders unique).2 }

/-- The brokers with a number of connections. -/
def candidates (minimum : ℕ) : List Backend :=
  pool.backends.filter fun backend => pool.active backend.nodeId = minimum

def lease : Option (BackendLease × PoolState) := do
  let minimum ← (pool.backends.map fun backend => pool.active backend.nodeId).min?
  let candidates := pool.candidates minimum
  let backend ← candidates[pool.nextTie % candidates.length]?
  let senders := ensureSender (pool.invalidation, pool.watchCalls) backend.nodeId
  some
    ({ backend := backend
       invalidation := ⟨senders.1[backend.nodeId]?.getD 0, senders.2.length⟩ },
     { backends := pool.backends
       activeConnections := increment pool.activeConnections backend.nodeId
       invalidation := senders.1
       nextTie := wrapAdd pool.nextTie 1
       watchCalls := senders.2 })

/-- The drop of a lease. -/
def dropLease (lease : BackendLease) : PoolState :=
  match pool.activeConnections[lease.backend.nodeId]? with
  | none => pool
  | some active =>
    if active - 1 = 0 ∧ ¬(pool.backends.any fun backend => backend.nodeId = lease.backend.nodeId) then
      { pool with activeConnections := pool.activeConnections.erase lease.backend.nodeId }
    else
      { pool with activeConnections := pool.activeConnections.insert lease.backend.nodeId (active - 1) }

end PoolState

/-! ### Runs -/

/-- A lease that is out, and whether its broker was dropped or changed since it was taken. -/
structure Held where
  lease : BackendLease
  revoked : Bool

structure System where
  pool : PoolState
  held : List Held

inductive PoolCall where
  | replace (backends : List Backend)
  | lease
  | drop (index : ℕ)
  deriving DecidableEq, Repr

/-- A replacement of one list by another drops or changes the entry of a broker. -/
def Revokes (before after : List Backend) (node : ℕ) : Prop :=
  ∃ backend ∈ before, backend.nodeId = node ∧ backend ∉ after

instance (before after : List Backend) (node : ℕ) : Decidable (Revokes before after node) := by
  unfold Revokes
  infer_instance

namespace System

def empty : System := ⟨.empty, []⟩

/-- The number of leases of a broker that are out. -/
def live (system : System) (node : ℕ) : ℕ :=
  system.held.countP fun held => held.lease.backend.nodeId = node

def step (system : System) : PoolCall → System
  | .replace backends =>
    let pool := system.pool.replace backends
    ⟨pool, system.held.map fun held =>
      ⟨held.lease, held.revoked ||
        decide (Revokes system.pool.backends pool.backends held.lease.backend.nodeId)⟩⟩
  | .lease =>
    match system.pool.lease with
    | none => system
    | some (lease, pool) => ⟨pool, system.held ++ [⟨lease, false⟩]⟩
  | .drop index =>
    match system.held[index]? with
    | none => system
    | some held => ⟨system.pool.dropLease held.lease, system.held.eraseIdx index⟩

def run (calls : List PoolCall) : System := calls.foldl step empty

end System

/-! ### The list -/

theorem uniqueBackends_concat (backends : List Backend) (backend : Backend) :
    uniqueBackends (backends ++ [backend]) = (uniqueBackends backends).insert backend.nodeId backend := by
  rw [uniqueBackends, uniqueBackends, List.foldl_append]
  rfl

variable {backends : List Backend}

theorem nodeId_of_uniqueBackends {node : ℕ} {backend : Backend}
    (h : (uniqueBackends backends)[node]? = some backend) : backend.nodeId = node := by
  induction backends using List.reverseRecOn with
  | nil => cases h
  | append_singleton backends last ih =>
    rw [uniqueBackends_concat, getElem?_insert_eq] at h
    split_ifs at h with hnode
    · cases h
      exact hnode
    · exact ih h

theorem mem_replace_backends {pool : PoolState} {backend : Backend} :
    backend ∈ (pool.replace backends).backends ↔
      (uniqueBackends backends)[backend.nodeId]? = some backend := by
  show backend ∈ (uniqueBackends backends).toList.map Prod.snd ↔ _
  constructor
  · intro h
    obtain ⟨⟨node, entry⟩, hmem, rfl⟩ := List.mem_map.1 h
    have hget := ExtTreeMap.mem_toList_iff_getElem?_eq_some.1 hmem
    have hnode : entry.nodeId = node := nodeId_of_uniqueBackends hget
    show (uniqueBackends backends)[entry.nodeId]? = some entry
    rw [hnode, hget]
  · intro h
    exact List.mem_map.2 ⟨(backend.nodeId, backend), ExtTreeMap.mem_toList_iff_getElem?_eq_some.2 h, rfl⟩

theorem mem_changed {pool : PoolState} {node : ℕ} :
    node ∈ pool.changed (uniqueBackends backends) ↔
      Revokes pool.backends (pool.replace backends).backends node := by
  rw [PoolState.changed, List.mem_map]
  constructor
  · rintro ⟨backend, hmem, rfl⟩
    obtain ⟨hmem, hentry⟩ := List.mem_filter.1 hmem
    exact ⟨backend, hmem, rfl, fun h => of_decide_eq_true hentry (mem_replace_backends.1 h)⟩
  · rintro ⟨backend, hmem, rfl, hgone⟩
    exact ⟨backend, List.mem_filter.2 ⟨hmem, decide_eq_true fun h => hgone (mem_replace_backends.2 h)⟩, rfl⟩

/-! ### The senders -/

/-- Every sender is one of the created, belongs to one broker and was not dropped; no other was dropped. -/
structure Senders (senders : ExtTreeMap ℕ ℕ × List WatchCall) : Prop where
  known : ∀ {node sender : ℕ}, senders.1[node]? = some sender → sender < created senders.2
  own : ∀ {node node' sender : ℕ}, senders.1[node]? = some sender → senders.1[node']? = some sender →
    node = node'
  isOpen : ∀ {node sender : ℕ}, senders.1[node]? = some sender → .drop sender ∉ senders.2
  born : ∀ {sender : ℕ}, .drop sender ∈ senders.2 → sender < created senders.2

/-- Senders are created, and nothing is done with those that there are. -/
structure Grows (senders senders' : ExtTreeMap ℕ ℕ × List WatchCall) : Prop where
  lookup : ∀ {node sender : ℕ}, senders.1[node]? = some sender → senders'.1[node]? = some sender
  calls : ∃ count, senders'.2 = senders.2 ++ List.replicate count .create

theorem Grows.refl (senders : ExtTreeMap ℕ ℕ × List WatchCall) : Grows senders senders :=
  ⟨fun h => h, 0, (List.append_nil _).symm⟩

theorem Grows.trans {s₁ s₂ s₃ : ExtTreeMap ℕ ℕ × List WatchCall} (h : Grows s₁ s₂) (h' : Grows s₂ s₃) :
    Grows s₁ s₃ where
  lookup hget := h'.lookup (h.lookup hget)
  calls := by
    obtain ⟨count, hcalls⟩ := h.calls
    obtain ⟨count', hcalls'⟩ := h'.calls
    exact ⟨count + count', by rw [hcalls', hcalls, List.append_assoc, List.replicate_add]⟩

section

variable {senders : ExtTreeMap ℕ ℕ × List WatchCall} {node : ℕ}

theorem ensureSender_of_mem (h : node ∈ senders.1) : ensureSender senders node = senders := if_pos h

theorem ensureSender_of_notMem (h : node ∉ senders.1) :
    ensureSender senders node =
      (senders.1.insert node (created senders.2), senders.2 ++ [.create]) := if_neg h

theorem grows_ensureSender : Grows senders (ensureSender senders node) := by
  by_cases h : node ∈ senders.1
  · rw [ensureSender_of_mem h]
    exact .refl _
  · rw [ensureSender_of_notMem h]
    refine ⟨fun {other sender} hget => ?_, 1, rfl⟩
    have hne : node ≠ other := by
      rintro rfl
      exact h (ExtTreeMap.mem_iff_isSome_getElem?.2 (by rw [hget]; rfl))
    rw [getElem?_insert_eq, if_neg hne]
    exact hget

theorem created_concat (calls : List WatchCall) : created (calls ++ [.create]) = created calls + 1 := by
  rw [created, List.count_append, created]
  rfl

theorem drop_mem_concat {calls : List WatchCall} {sender : ℕ} :
    .drop sender ∈ calls ++ [.create] ↔ .drop sender ∈ calls := by
  simp

theorem Senders.ensureSender (hs : Senders senders) : Senders (ensureSender senders node) := by
  by_cases h : node ∈ senders.1
  · rwa [ensureSender_of_mem h]
  · rw [ensureSender_of_notMem h]
    have hcases : ∀ {other sender : ℕ},
        (senders.1.insert node (created senders.2))[other]? = some sender →
          (node = other ∧ sender = created senders.2) ∨ senders.1[other]? = some sender := by
      intro other sender hget
      rw [getElem?_insert_eq] at hget
      split_ifs at hget with heq
      · exact .inl ⟨heq, (Option.some.inj hget).symm⟩
      · exact .inr hget
    refine ⟨fun hget => ?_, fun hget hget' => ?_, fun hget => ?_, fun hmem => ?_⟩
    · rw [created_concat]
      rcases hcases hget with ⟨-, rfl⟩ | hold
      · exact Nat.lt_succ_self _
      · exact (hs.known hold).trans (Nat.lt_succ_self _)
    · rcases hcases hget with ⟨rfl, rfl⟩ | hold
      · rcases hcases hget' with ⟨rfl, -⟩ | hold'
        · rfl
        · exact absurd (hs.known hold') (lt_irrefl _)
      · rcases hcases hget' with ⟨rfl, rfl⟩ | hold'
        · exact absurd (hs.known hold) (lt_irrefl _)
        · exact hs.own hold hold'
    · rw [drop_mem_concat]
      rcases hcases hget with ⟨-, rfl⟩ | hold
      · exact fun hmem => absurd (hs.born hmem) (lt_irrefl _)
      · exact hs.isOpen hold
    · rw [drop_mem_concat] at hmem
      rw [created_concat]
      exact (hs.born hmem).trans (Nat.lt_succ_self _)

theorem Senders.foldl_ensureSender (hs : Senders senders) (nodes : List ℕ) :
    Senders (nodes.foldl Proxy.ensureSender senders) ∧
      Grows senders (nodes.foldl Proxy.ensureSender senders) := by
  induction nodes generalizing senders with
  | nil => exact ⟨hs, .refl _⟩
  | cons node nodes ih =>
    obtain ⟨hsound, hgrows⟩ := ih hs.ensureSender
    exact ⟨hsound, grows_ensureSender.trans hgrows⟩

end

/-! ### What a replacement does to the senders -/

section

variable {pool : PoolState} {unique : ExtTreeMap ℕ Backend} {node sender : ℕ}

theorem keptSenders_eq_some :
    (pool.keptSenders unique).1[node]? = some sender ↔
      pool.invalidation[node]? = some sender ∧ node ∈ unique := by
  rw [PoolState.keptSenders, ExtTreeMap.getElem?_filter', Option.filter_eq_some_iff, decide_eq_true_eq]

theorem created_keptSenders : created (pool.keptSenders unique).2 = created pool.watchCalls := by
  have htold : ((pool.toldSenders unique).map WatchCall.sendModify).count .create = 0 :=
    List.count_eq_zero.2 (by simp)
  have hdropped : ((pool.droppedSenders unique).map WatchCall.drop).count .create = 0 :=
    List.count_eq_zero.2 (by simp)
  unfold PoolState.keptSenders created
  dsimp only
  rw [List.count_append, List.count_append, htold, hdropped, Nat.add_zero]

theorem drop_mem_keptSenders :
    .drop sender ∈ (pool.keptSenders unique).2 ↔
      .drop sender ∈ pool.watchCalls ∨ sender ∈ pool.droppedSenders unique := by
  simp [PoolState.keptSenders]

theorem mem_droppedSenders :
    sender ∈ pool.droppedSenders unique ↔
      ∃ node, pool.invalidation[node]? = some sender ∧ node ∉ unique := by
  rw [PoolState.droppedSenders, List.mem_map]
  constructor
  · rintro ⟨⟨node, sender⟩, hmem, rfl⟩
    obtain ⟨hmem, hgone⟩ := List.mem_filter.1 hmem
    exact ⟨node, ExtTreeMap.mem_toList_iff_getElem?_eq_some.1 hmem, of_decide_eq_true hgone⟩
  · rintro ⟨node, hget, hgone⟩
    exact ⟨(node, sender), List.mem_filter.2 ⟨ExtTreeMap.mem_toList_iff_getElem?_eq_some.2 hget,
      decide_eq_true hgone⟩, rfl⟩

theorem mem_toldSenders :
    sender ∈ pool.toldSenders unique ↔
      ∃ node ∈ pool.changed unique, pool.invalidation[node]? = some sender :=
  List.mem_filterMap

variable (hs : Senders (pool.invalidation, pool.watchCalls))
include hs

theorem Senders.keptSenders : Senders (pool.keptSenders unique) where
  known hget := created_keptSenders.symm ▸ hs.known (keptSenders_eq_some.1 hget).1
  own hget hget' := hs.own (keptSenders_eq_some.1 hget).1 (keptSenders_eq_some.1 hget').1
  isOpen {node sender} hget := by
    obtain ⟨hget, hstays⟩ := keptSenders_eq_some.1 hget
    rw [drop_mem_keptSenders, mem_droppedSenders]
    rintro (hmem | ⟨other, hother, hgone⟩)
    · exact hs.isOpen hget hmem
    · exact hgone (hs.own hget hother ▸ hstays)
  born {sender} hmem := by
    rw [created_keptSenders]
    rcases drop_mem_keptSenders.1 hmem with hmem | hmem
    · exact hs.born hmem
    · obtain ⟨node, hget, -⟩ := mem_droppedSenders.1 hmem
      exact hs.known hget

theorem Senders.replacedSenders :
    Senders (pool.replacedSenders unique) ∧ Grows (pool.keptSenders unique) (pool.replacedSenders unique) :=
  hs.keptSenders.foldl_ensureSender _

end

/-- The calls that a replacement makes. -/
theorem watchCalls_replace {pool : PoolState} (hs : Senders (pool.invalidation, pool.watchCalls))
    (backends : List Backend) :
    ∃ made, (pool.replace backends).watchCalls = pool.watchCalls ++ made ∧
      ∀ sender, (∃ call ∈ made, call.Touches sender) ↔
        sender ∈ pool.toldSenders (uniqueBackends backends) ∨
          sender ∈ pool.droppedSenders (uniqueBackends backends) := by
  obtain ⟨count, hcalls⟩ := (@Senders.replacedSenders pool (uniqueBackends backends) hs).2.calls
  refine ⟨_, hcalls.trans (List.append_assoc _ _ _), fun sender => ?_⟩
  simp only [WatchCall.Touches, List.mem_append, List.mem_map, List.mem_replicate]
  constructor
  · rintro ⟨call, (⟨told, hmem, rfl⟩ | ⟨dropped, hmem, rfl⟩) | ⟨-, rfl⟩, htouches⟩ <;> simp at htouches
    · exact Or.inl (htouches ▸ hmem)
    · exact Or.inr (htouches ▸ hmem)
  · rintro (hmem | hmem)
    · exact ⟨_, Or.inl (Or.inl ⟨sender, hmem, rfl⟩), Or.inl rfl⟩
    · exact ⟨_, Or.inl (Or.inr ⟨sender, hmem, rfl⟩), Or.inr rfl⟩

/-! ### The counts -/

theorem active_replace (pool : PoolState) (backends : List Backend) (node : ℕ) :
    (pool.replace backends).active node = pool.active node := by
  show ((pool.activeConnections.filter _)[node]?).getD 0 = (pool.activeConnections[node]?).getD 0
  rw [ExtTreeMap.getElem?_filter']
  cases pool.activeConnections[node]? with
  | none => rfl
  | some active =>
    rw [Option.filter_some]
    split_ifs with hkept
    · rfl
    · -- only an entry of zero goes
      rw [decide_eq_true_eq, not_or] at hkept
      exact (Nat.eq_zero_of_not_pos hkept.1).symm

theorem active_dropLease (pool : PoolState) (lease : BackendLease) (node : ℕ) :
    (pool.dropLease lease).active node =
      if lease.backend.nodeId = node then pool.active node - 1 else pool.active node := by
  unfold PoolState.dropLease PoolState.active
  cases hactive : pool.activeConnections[lease.backend.nodeId]? with
  | none =>
    split_ifs with hnode
    · rw [← hnode, hactive]
      rfl
    · rfl
  | some active =>
    dsimp only
    split_ifs with hgone hnode hnode
    · rw [getElem?_erase_eq, if_pos hnode, ← hnode, hactive]
      exact hgone.1.symm
    · rw [getElem?_erase_eq, if_neg hnode]
    · rw [getElem?_insert_eq, if_pos hnode, ← hnode, hactive]
      rfl
    · rw [getElem?_insert_eq, if_neg hnode]

/-! ### Leases -/

/-- What a lease is: a broker of the list with the fewest connections, and a receiver of its channel. -/
structure Leased (pool : PoolState) (lease : BackendLease) (pool' : PoolState) : Prop where
  listed : lease.backend ∈ pool.backends
  minimal : ∀ backend ∈ pool.backends, pool.active lease.backend.nodeId ≤ pool.active backend.nodeId
  backends : pool'.backends = pool.backends
  activeConnections : pool'.activeConnections = increment pool.activeConnections lease.backend.nodeId
  senders : (pool'.invalidation, pool'.watchCalls) =
    ensureSender (pool.invalidation, pool.watchCalls) lease.backend.nodeId
  receiver : lease.invalidation =
    ⟨pool'.invalidation[lease.backend.nodeId]?.getD 0, pool'.watchCalls.length⟩

theorem leased_of_lease {pool pool' : PoolState} {lease : BackendLease}
    (h : pool.lease = some (lease, pool')) : Leased pool lease pool' := by
  unfold PoolState.lease at h
  obtain ⟨minimum, hminimum, h⟩ := Option.bind_eq_some_iff.1 h
  obtain ⟨backend, hbackend, h⟩ := Option.bind_eq_some_iff.1 h
  cases h
  obtain ⟨hlisted, hactive⟩ := List.mem_filter.1 (List.mem_of_getElem? hbackend)
  have hactive' : pool.active backend.nodeId = minimum := of_decide_eq_true hactive
  refine ⟨hlisted, fun other hother => ?_, rfl, rfl, rfl, rfl⟩
  show pool.active backend.nodeId ≤ _
  rw [hactive']
  exact (List.min?_eq_some_iff.1 hminimum).2 _ (List.mem_map_of_mem hother)

theorem lease_eq_none_iff {pool : PoolState} : pool.lease = none ↔ pool.backends = [] := by
  unfold PoolState.lease
  constructor
  · intro h
    by_contra hne
    cases hminimum : (pool.backends.map fun backend => pool.active backend.nodeId).min? with
    | none => exact hne (List.map_eq_nil_iff.1 (List.min?_eq_none_iff.1 hminimum))
    | some minimum =>
      -- the minimum is the count of some broker
      obtain ⟨backend, hlisted, hactive⟩ := List.mem_map.1 (List.min?_eq_some_iff.1 hminimum).1
      have hmem : backend ∈ pool.candidates minimum := List.mem_filter.2 ⟨hlisted, decide_eq_true hactive⟩
      have hlt : pool.nextTie % (pool.candidates minimum).length < (pool.candidates minimum).length :=
        Nat.mod_lt _ (List.length_pos_of_mem hmem)
      rw [hminimum, Option.bind_eq_bind, Option.bind_some] at h
      dsimp only at h
      rw [List.getElem?_eq_getElem hlt] at h
      cases h
  · intro h
    rw [h]
    rfl

theorem Leased.active {pool pool' : PoolState} {lease : BackendLease} (h : Leased pool lease pool') (node : ℕ) :
    pool'.active node = if lease.backend.nodeId = node then pool.active node + 1 else pool.active node := by
  rw [PoolState.active, h.activeConnections, getElem?_increment]
  split_ifs with hnode
  · rfl
  · rfl

theorem mem_ensureSender (senders : ExtTreeMap ℕ ℕ × List WatchCall) (node : ℕ) :
    ∃ sender, (ensureSender senders node).1[node]? = some sender := by
  by_cases h : node ∈ senders.1
  · rw [ensureSender_of_mem h]
    exact Option.isSome_iff_exists.1 (ExtTreeMap.mem_iff_isSome_getElem?.1 h)
  · rw [ensureSender_of_notMem h]
    exact ⟨created senders.2, by rw [getElem?_insert_eq, if_pos rfl]⟩

/-- A lease whose broker is still the one it was taken for. -/
structure Fresh (pool : PoolState) (lease : BackendLease) : Prop where
  listed : lease.backend ∈ pool.backends
  sender : pool.invalidation[lease.backend.nodeId]? = some lease.invalidation.sender

/-- Something was done with the sender of the receiver since it subscribed. -/
def Touched (calls : List WatchCall) (receiver : Receiver) : Prop :=
  ∃ call ∈ calls.drop receiver.since, call.Touches receiver.sender

/-- The receiver subscribed to a sender that was not dropped. -/
structure Subscribed (calls : List WatchCall) (receiver : Receiver) : Prop where
  since : receiver.since ≤ calls.length
  wasOpen : .drop receiver.sender ∉ calls.take receiver.since

section

variable {calls made : List WatchCall} {receiver : Receiver}

theorem Subscribed.append (h : Subscribed calls receiver) : Subscribed (calls ++ made) receiver where
  since := h.since.trans (by rw [List.length_append]; omega)
  wasOpen := by
    rw [List.take_append_of_le_length h.since]
    exact h.wasOpen

theorem Subscribed.touched_append (h : Subscribed calls receiver) :
    Touched (calls ++ made) receiver ↔
      Touched calls receiver ∨ ∃ call ∈ made, call.Touches receiver.sender := by
  unfold Touched
  rw [List.drop_append_of_le_length h.since]
  simp only [List.mem_append, or_and_right, exists_or]

theorem Grows.touched {senders senders' : ExtTreeMap ℕ ℕ × List WatchCall} (hgrows : Grows senders senders')
    (h : Subscribed senders.2 receiver) :
    Subscribed senders'.2 receiver ∧ (Touched senders'.2 receiver ↔ Touched senders.2 receiver) := by
  obtain ⟨count, hcalls⟩ := hgrows.calls
  rw [hcalls]
  refine ⟨h.append, h.touched_append.trans (or_iff_left ?_)⟩
  rintro ⟨call, hmem, htouches⟩
  rw [List.eq_of_mem_replicate hmem] at htouches
  rcases htouches with h | h <;> cases h

end

/-- A new lease is fresh, with nothing to see. -/
theorem Leased.fresh {pool pool' : PoolState} {lease : BackendLease} (h : Leased pool lease pool')
    (hs : Senders (pool.invalidation, pool.watchCalls)) :
    Fresh pool' lease ∧ Subscribed pool'.watchCalls lease.invalidation ∧
      ¬Touched pool'.watchCalls lease.invalidation := by
  have hs' : Senders (pool'.invalidation, pool'.watchCalls) := h.senders ▸ hs.ensureSender
  obtain ⟨sender, hsender⟩ := mem_ensureSender (pool.invalidation, pool.watchCalls) lease.backend.nodeId
  rw [← h.senders] at hsender
  have hreceiver : lease.invalidation = ⟨sender, pool'.watchCalls.length⟩ := by
    rw [h.receiver]
    exact congrArg (fun found : Option ℕ => (⟨found.getD 0, _⟩ : Receiver)) hsender
  rw [hreceiver]
  refine ⟨⟨h.backends ▸ h.listed, hreceiver ▸ hsender⟩, ⟨le_rfl, ?_⟩, ?_⟩
  · rw [List.take_length]
    exact hs'.isOpen hsender
  · rintro ⟨call, hmem, -⟩
    rw [List.drop_length] at hmem
    cases hmem

/-- **A replacement touches the sender of a fresh lease exactly if it drops or changes its broker.** -/
theorem Fresh.touched_iff {pool : PoolState} {lease : BackendLease} (h : Fresh pool lease)
    (hs : Senders (pool.invalidation, pool.watchCalls)) :
    (lease.invalidation.sender ∈ pool.toldSenders (uniqueBackends backends) ∨
        lease.invalidation.sender ∈ pool.droppedSenders (uniqueBackends backends)) ↔
      Revokes pool.backends (pool.replace backends).backends lease.backend.nodeId := by
  constructor
  · rintro (htold | hdropped)
    · obtain ⟨node, hchanged, hsender⟩ := mem_toldSenders.1 htold
      rw [hs.own h.sender hsender]
      exact mem_changed.1 hchanged
    · obtain ⟨node, hsender, hgone⟩ := mem_droppedSenders.1 hdropped
      rw [← hs.own h.sender hsender] at hgone
      refine ⟨lease.backend, h.listed, rfl, fun hlisted => hgone ?_⟩
      exact ExtTreeMap.mem_iff_isSome_getElem?.2 (by rw [mem_replace_backends.1 hlisted]; rfl)
  · exact fun hrevoked => Or.inl (mem_toldSenders.2 ⟨_, mem_changed.2 hrevoked, h.sender⟩)

/-- A replacement that leaves the broker as it is leaves the lease fresh. -/
theorem Fresh.replace {pool : PoolState} {lease : BackendLease} (h : Fresh pool lease)
    (hs : Senders (pool.invalidation, pool.watchCalls)) (backends : List Backend)
    (hkept : ¬Revokes pool.backends (pool.replace backends).backends lease.backend.nodeId) :
    Fresh (pool.replace backends) lease := by
  have hlisted : lease.backend ∈ (pool.replace backends).backends := by
    by_contra hgone
    exact hkept ⟨lease.backend, h.listed, rfl, hgone⟩
  have hnode : lease.backend.nodeId ∈ uniqueBackends backends :=
    ExtTreeMap.mem_iff_isSome_getElem?.2 (by rw [mem_replace_backends.1 hlisted]; rfl)
  have hgrows := (@Senders.replacedSenders pool (uniqueBackends backends) hs).2
  exact ⟨hlisted, hgrows.lookup (keptSenders_eq_some.2 ⟨h.sender, hnode⟩)⟩

/-! ### The invariant -/

/-- The leases that are out, as the pool counts and tells them. -/
structure Lent (system : System) : Prop where
  senders : Senders (system.pool.invalidation, system.pool.watchCalls)
  counts : ∀ node, system.pool.active node = system.live node
  subscribed : ∀ held ∈ system.held, Subscribed system.pool.watchCalls held.lease.invalidation
  fresh : ∀ held ∈ system.held, held.revoked = false → Fresh system.pool held.lease
  touched : ∀ held ∈ system.held,
    (Touched system.pool.watchCalls held.lease.invalidation ↔ held.revoked = true)

theorem Lent.empty : Lent .empty where
  senders := ⟨fun h => (by cases h), fun h => (by cases h), fun h => (by cases h), fun h => (by cases h)⟩
  counts _ := rfl
  subscribed _ h := by cases h
  fresh _ h := by cases h
  touched _ h := by cases h

variable {system : System}

theorem Lent.replace (h : Lent system) (backends : List Backend) :
    Lent (system.step (.replace backends)) := by
  obtain ⟨made, hcalls, hmade⟩ := watchCalls_replace h.senders backends
  have hheld : ∀ held ∈ (system.step (.replace backends)).held, ∃ before ∈ system.held,
      held = ⟨before.lease, before.revoked || decide (Revokes system.pool.backends
        (system.pool.replace backends).backends before.lease.backend.nodeId)⟩ := by
    intro held hmem
    obtain ⟨before, hbefore, rfl⟩ := List.mem_map.1 hmem
    exact ⟨before, hbefore, rfl⟩
  refine ⟨h.senders.replacedSenders.1, fun node => ?_, fun held hmem => ?_, fun held hmem hkept => ?_,
    fun held hmem => ?_⟩
  · show (system.pool.replace backends).active node = (system.held.map _).countP _
    rw [active_replace, h.counts, List.countP_map]
    rfl
  · obtain ⟨before, hbefore, rfl⟩ := hheld held hmem
    show Subscribed (system.pool.replace backends).watchCalls _
    rw [hcalls]
    exact (h.subscribed before hbefore).append
  · obtain ⟨before, hbefore, rfl⟩ := hheld held hmem
    obtain ⟨hfresh, hkept⟩ := Bool.or_eq_false_iff.1 hkept
    exact (h.fresh before hbefore hfresh).replace h.senders backends (of_decide_eq_false hkept)
  · obtain ⟨before, hbefore, rfl⟩ := hheld held hmem
    show Touched (system.pool.replace backends).watchCalls _ ↔ _
    rw [hcalls, (h.subscribed before hbefore).touched_append, h.touched before hbefore, hmade,
      Bool.or_eq_true, decide_eq_true_eq]
    cases hrevoked : before.revoked with
    | true => simp
    | false => rw [(h.fresh before hbefore hrevoked).touched_iff h.senders]

theorem Lent.lease (h : Lent system) : Lent (system.step .lease) := by
  cases hlease : system.pool.lease with
  | none =>
    have hstep : system.step .lease = system := by rw [System.step, hlease]
    rwa [hstep]
  | some result =>
    obtain ⟨lease, pool⟩ := result
    have hstep : system.step .lease = ⟨pool, system.held ++ [⟨lease, false⟩]⟩ := by
      rw [System.step, hlease]
    have hleased := leased_of_lease hlease
    have hgrows : Grows (system.pool.invalidation, system.pool.watchCalls)
        (pool.invalidation, pool.watchCalls) := by
      rw [hleased.senders]
      exact grows_ensureSender
    obtain ⟨hnew, hsubscribed, huntouched⟩ := hleased.fresh h.senders
    have hold := fun held hmem => hgrows.touched (h.subscribed held hmem)
    rw [hstep]
    refine ⟨hleased.senders ▸ h.senders.ensureSender, fun node => ?_, fun held hmem => ?_,
      fun held hmem hkept => ?_, fun held hmem => ?_⟩
    · show pool.active node = (system.held ++ [_]).countP _
      rw [hleased.active, h.counts, List.countP_append, List.countP_singleton]
      show (if _ then system.live node + 1 else _) = system.live node + _
      by_cases hnode : lease.backend.nodeId = node
      · rw [if_pos hnode, if_pos (decide_eq_true hnode)]
      · rw [if_neg hnode, if_neg (by simpa using hnode), Nat.add_zero]
    · rcases List.mem_append.1 hmem with hmem | hlast
      · exact (hold held hmem).1
      · rw [List.mem_singleton.1 hlast]
        exact hsubscribed
    · rcases List.mem_append.1 hmem with hmem | hlast
      · have hfresh := h.fresh held hmem hkept
        exact ⟨hleased.backends ▸ hfresh.listed, hgrows.lookup hfresh.sender⟩
      · rw [List.mem_singleton.1 hlast]
        exact hnew
    · rcases List.mem_append.1 hmem with hmem | hlast
      · exact (hold held hmem).2.trans (h.touched held hmem)
      · rw [List.mem_singleton.1 hlast]
        exact iff_of_false huntouched Bool.false_ne_true

theorem dropLease_frame (pool : PoolState) (lease : BackendLease) :
    ∃ counts, pool.dropLease lease = { pool with activeConnections := counts } := by
  unfold PoolState.dropLease
  cases pool.activeConnections[lease.backend.nodeId]? with
  | none => exact ⟨_, rfl⟩
  | some active =>
    dsimp only
    split_ifs
    · exact ⟨_, rfl⟩
    · exact ⟨_, rfl⟩

theorem Lent.drop (h : Lent system) (index : ℕ) : Lent (system.step (.drop index)) := by
  cases hheld : system.held[index]? with
  | none =>
    have hstep : system.step (.drop index) = system := by rw [System.step, hheld]
    rwa [hstep]
  | some dropped =>
    have hstep : system.step (.drop index) =
        ⟨system.pool.dropLease dropped.lease, system.held.eraseIdx index⟩ := by
      rw [System.step, hheld]
    obtain ⟨hindex, hget⟩ := List.getElem?_eq_some_iff.1 hheld
    have hmem : ∀ {held}, held ∈ system.held.eraseIdx index → held ∈ system.held := List.mem_of_mem_eraseIdx
    have hcounts : ∀ node, (system.pool.dropLease dropped.lease).active node =
        (system.held.eraseIdx index).countP fun held => held.lease.backend.nodeId = node := by
      intro node
      have hperm := (List.getElem_cons_eraseIdx_perm hindex).countP_eq
        fun held : Held => decide (held.lease.backend.nodeId = node)
      rw [hget, List.countP_cons] at hperm
      rw [active_dropLease, h.counts, System.live, ← hperm]
      by_cases hnode : dropped.lease.backend.nodeId = node
      · rw [if_pos hnode, if_pos (decide_eq_true hnode), Nat.add_sub_cancel]
      · rw [if_neg hnode, if_neg (by simpa using hnode), Nat.add_zero]
    rw [hstep]
    obtain ⟨counts, hframe⟩ := dropLease_frame system.pool dropped.lease
    rw [hframe] at hcounts ⊢
    exact ⟨h.senders, hcounts, fun held hin => h.subscribed held (hmem hin),
      fun held hin hkept => ⟨(h.fresh held (hmem hin) hkept).listed, (h.fresh held (hmem hin) hkept).sender⟩,
      fun held hin => h.touched held (hmem hin)⟩

/-- **One call keeps the accounts.** -/
theorem Lent.step (h : Lent system) : ∀ call, Lent (system.step call)
  | .replace backends => h.replace backends
  | .lease => h.lease
  | .drop index => h.drop index

theorem Lent.run (calls : List PoolCall) : Lent (System.run calls) := by
  induction calls using List.reverseRecOn with
  | nil => exact .empty
  | append_singleton calls call ih =>
    rw [System.run, List.foldl_append]
    exact ih.step call

/-- **Leases are accounted for exactly.**  After every sequence of replacements, leases and drops: the count of each
broker is the number of its leases that are out; a lease, which there is unless the list is empty, is of a listed
broker with the least count; and a lease that is out has seen a change or a closure exactly if a replacement since
has dropped its broker or changed its entry, whatever library the watch channels are of. -/
theorem leases_accounted (calls : List PoolCall) :
    (∀ node, (System.run calls).pool.active node = (System.run calls).live node) ∧
    ((System.run calls).pool.lease = none ↔ (System.run calls).pool.backends = []) ∧
    (∀ lease pool, (System.run calls).pool.lease = some (lease, pool) →
      lease.backend ∈ (System.run calls).pool.backends ∧
        ∀ backend ∈ (System.run calls).pool.backends,
          (System.run calls).pool.active lease.backend.nodeId ≤
            (System.run calls).pool.active backend.nodeId) ∧
    ∀ hasChanged, Watching hasChanged → (System.run calls).pool.watchCalls.length < 2 ^ 63 →
      ∀ held ∈ (System.run calls).held,
        (hasChanged (System.run calls).pool.watchCalls held.lease.invalidation = true ↔
          held.revoked = true) := by
  have h := Lent.run calls
  refine ⟨h.counts, lease_eq_none_iff, fun lease pool hlease => ?_,
    fun hasChanged hwatching hbound held hheld => ?_⟩
  · have hleased := leased_of_lease hlease
    exact ⟨hleased.listed, hleased.minimal⟩
  · have hsubscribed := h.subscribed held hheld
    rw [hwatching _ _ hbound hsubscribed.since hsubscribed.wasOpen]
    exact h.touched held hheld

def firstBroker : Backend := ⟨"broker-1", 4150, 4151, 1⟩

def secondBroker : Backend := ⟨"broker-2", 4150, 4151, 2⟩

/-- The first broker moves while it has a lease, and the second goes and comes back. -/
def firstMoves : List PoolCall :=
  [.replace [firstBroker, secondBroker], .lease, .lease, .replace [{ firstBroker with tcpPort := 4160 }],
    .replace [{ firstBroker with tcpPort := 4160 }, secondBroker], .lease]

/-- Both leases are counted and told, and the third one is not. -/
theorem leases_accounted_firstMoves :
    (System.run firstMoves).pool.active 1 = 2 ∧ (System.run firstMoves).pool.active 2 = 1 ∧
      (∃ lease pool, (System.run firstMoves).pool.lease = some (lease, pool) ∧
        lease.backend ∈ (System.run firstMoves).pool.backends) ∧
      (System.run firstMoves).held.map (fun held =>
        versionChanged (System.run firstMoves).pool.watchCalls held.lease.invalidation) =
          [true, true, false] := by
  have hlive : (System.run firstMoves).live 1 = 2 ∧ (System.run firstMoves).live 2 = 1 := by decide +kernel
  have hlease : (System.run firstMoves).pool.lease.isSome = true := by decide +kernel
  have hheld : (System.run firstMoves).held.map Held.revoked = [true, true, false] := by decide +kernel
  have hbound : (System.run firstMoves).pool.watchCalls.length < 2 ^ 63 := by decide +kernel
  obtain ⟨hcounts, -, hminimal, htold⟩ := leases_accounted firstMoves
  obtain ⟨⟨lease, pool⟩, hsome⟩ := Option.isSome_iff_exists.1 hlease
  refine ⟨(hcounts 1).trans hlive.1, (hcounts 2).trans hlive.2,
    ⟨lease, pool, hsome, (hminimal lease pool hsome).1⟩, ?_⟩
  rw [← hheld]
  exact List.map_congr_left fun held hmem =>
    Bool.eq_iff_iff.2 (htold versionChanged watching_versions hbound held hmem)

end RustQueue.Proxy
