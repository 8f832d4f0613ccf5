import RustQueue.Broker.Append
import RustQueue.Lib.AtomicFile

/-!
# Message ids across restarts

A node hands out message ids from a block of numbers that its metadata file reserves.  The file is
also rewritten when the registry changes and at every start.  `Life` follows one data directory
through calls, failed stores, crashes and starts, with the ranges of ids handed out so far.

The invariant is that a running node's block ends where its copy of the metadata says, and that no
version of the file that can come to light reserves less.  A start therefore begins behind
everything handed out before.
-/

namespace RustQueue.Broker

open Lib

/-- The metadata file of a node. -/
structure BrokerMeta where
  format : ℕ
  nodeId : ℕ
  nextSequence : ℕ
  registryRevision : ℕ
  deriving DecidableEq, Repr

/-- The error of a store that did not end well. -/
def storeResult (reason : String) : StoreEnd → Except BrokerError Unit
  | .synced => .ok ()
  | .failed | .renamed => .error (.io reason)

/-- What a running node keeps about its ids. -/
structure IdState where
  sequence : Sequence
  «meta» : BrokerMeta
  registryRevision : ℕ
  deriving DecidableEq, Repr

/-- The file and, while the node runs, its state. -/
structure Node where
  running : Option IdState
  file : AtomicFile BrokerMeta

namespace Node

/-- The metadata a start goes on with, or the error it ends with. -/
def loadMeta (nodeId : ℕ) (file : AtomicFile BrokerMeta) (reason : String) (created : StoreEnd) :
    Except BrokerError BrokerMeta × AtomicFile BrokerMeta :=
  match file.content with
  | some stored =>
    if stored.format = 7 ∧ stored.nodeId = nodeId then (.ok stored, file)
    else (.error (.invalidRecord "broker.meta identity or format mismatch"), file)
  | none =>
    let fresh : BrokerMeta := ⟨7, nodeId, 1, 1⟩
    ((storeResult reason created).map fun _ => fresh, file.store fresh created)

/-- A start of the node, as far as its ids are concerned.  `created` and `revised` are the ends of
its two stores. -/
def start (nodeId : ℕ) (file : AtomicFile BrokerMeta) (reason : String)
    (created revised : StoreEnd) : Except BrokerError Unit × Node :=
  if nodeId = 0 ∨ u16Max < nodeId then
    (.error (.invalidRecord "node ID must fit 16 bits"), ⟨none, file⟩)
  else
    match loadMeta nodeId file reason created with
    | (.error error, file) => (.error error, ⟨none, file⟩)
    | (.ok stored, file) =>
      let revision := satSucc stored.registryRevision
      let stored := { stored with registryRevision := revision }
      let file := file.store stored revised
      match storeResult reason revised with
      | .error error => (.error error, ⟨none, file⟩)
      | .ok () =>
        (.ok (), ⟨some ⟨⟨stored.nextSequence, stored.nextSequence⟩, stored, revision⟩, file⟩)

end Node

namespace IdState

/-- The metadata that a reservation stores, if it has to. -/
def reservation (state : IdState) (count : ℕ) : Option BrokerMeta :=
  if maxSequence + 1 < state.sequence.next + count then none
  else if state.sequence.reservedExclusive < state.sequence.next + count then
    some { state.«meta» with
      nextSequence := min (satAdd u64Max state.sequence.next (max sequenceReservation count))
        (maxSequence + 1) }
  else none

/-- The answer of `reserveIds` with what it leaves in memory and on disk. -/
def reserve (nodeId : ℕ) (state : IdState) (file : AtomicFile BrokerMeta) (count : ℕ)
    (reason : String) (stored : StoreEnd) :
    Except BrokerError ℕ × IdState × AtomicFile BrokerMeta :=
  let reserved := state.reservation count
  let file := reserved.elim file fun durable => file.store durable stored
  match reserveIds nodeId state.sequence count (storeResult reason stored) with
  | .error error => (.error error, state, file)
  | .ok (first, sequence) =>
    (.ok first, { state with sequence := sequence, «meta» := reserved.getD state.«meta» }, file)

/-- A change of the registry rewrites the same file. -/
def bumpRegistry (state : IdState) (file : AtomicFile BrokerMeta) (reason : String)
    (stored : StoreEnd) : Except BrokerError Unit × IdState × AtomicFile BrokerMeta :=
  let revision := satSucc (max state.«meta».registryRevision state.registryRevision)
  let durable := { state.«meta» with registryRevision := revision }
  let file := file.store durable stored
  match storeResult reason stored with
  | .error error => (.error error, state, file)
  | .ok () => (.ok (), { state with «meta» := durable, registryRevision := revision }, file)

end IdState

/-! ### Lives of a data directory -/

/-- Everything that happens to the data directory of one node, with the ranges handed out, oldest
first: the first id of each and how many. -/
inductive Life (nodeId : ℕ) : Node → List (ℕ × ℕ) → Prop
  | empty : Life nodeId ⟨none, .missing⟩ []
  | start {file : AtomicFile BrokerMeta} {handed : List (ℕ × ℕ)}
      (h : Life nodeId ⟨none, file⟩ handed) (reason : String) (created revised : StoreEnd) :
      Life nodeId (Node.start nodeId file reason created revised).2 handed
  | reserve {state state' : IdState} {file file' : AtomicFile BrokerMeta} {first : ℕ}
      {handed : List (ℕ × ℕ)} (h : Life nodeId ⟨some state, file⟩ handed) {count : ℕ}
      {reason : String} {stored : StoreEnd}
      (answer : state.reserve nodeId file count reason stored = (.ok first, state', file')) :
      Life nodeId ⟨some state', file'⟩ (handed ++ [(first, count)])
  | refuse {state state' : IdState} {file file' : AtomicFile BrokerMeta} {error : BrokerError}
      {handed : List (ℕ × ℕ)} (h : Life nodeId ⟨some state, file⟩ handed) {count : ℕ}
      {reason : String} {stored : StoreEnd}
      (answer : state.reserve nodeId file count reason stored = (.error error, state', file')) :
      Life nodeId ⟨some state', file'⟩ handed
  | bump {state : IdState} {file : AtomicFile BrokerMeta} {handed : List (ℕ × ℕ)}
      (h : Life nodeId ⟨some state, file⟩ handed) (reason : String) (stored : StoreEnd) :
      Life nodeId ⟨some (state.bumpRegistry file reason stored).2.1,
        (state.bumpRegistry file reason stored).2.2⟩ handed
  | stop {running : Option IdState} {file file' : AtomicFile BrokerMeta} {handed : List (ℕ × ℕ)}
      (h : Life nodeId ⟨running, file⟩ handed) (restart : file.Restart file') :
      Life nodeId ⟨none, file'⟩ handed

/-- All ids handed out are numbers of the node from 1 on, below `limit`. -/
def IdsBelow (nodeId limit : ℕ) (handed : List (ℕ × ℕ)) : Prop :=
  ∀ range ∈ handed, ∀ i < range.2,
    nodeId * 2 ^ 48 + 1 ≤ range.1 + i ∧ range.1 + i < nodeId * 2 ^ 48 + limit

/-- Every id of an earlier range lies below every id of a later one. -/
def Increasing (handed : List (ℕ × ℕ)) : Prop :=
  handed.Pairwise fun a b => ∀ i < a.2, ∀ j < b.2, a.1 + i < b.1 + j

/-- A version of the file that may come to light lies behind everything handed out. -/
def Reserves (nodeId : ℕ) (handed : List (ℕ × ℕ)) : Option BrokerMeta → Prop
  | none => IdsBelow nodeId 1 handed
  | some stored => stored.format = 7 ∧ stored.nodeId = nodeId ∧ 1 ≤ stored.nextSequence ∧
      stored.nextSequence ≤ maxSequence + 1 ∧ IdsBelow nodeId stored.nextSequence handed

/-- A version of the file reserves at least what the node may hand out. -/
def Covers (limit : ℕ) : Option BrokerMeta → Prop
  | none => False
  | some stored => limit ≤ stored.nextSequence

/-- The state of a running node. -/
structure Ready (nodeId : ℕ) (file : AtomicFile BrokerMeta) (handed : List (ℕ × ℕ))
    (state : IdState) : Prop where
  node : nodeId ≤ u16Max
  reserved : state.«meta».nextSequence = state.sequence.reservedExclusive
  identity : state.«meta».format = 7 ∧ state.«meta».nodeId = nodeId
  bounds : 1 ≤ state.sequence.next ∧ state.sequence.next ≤ state.sequence.reservedExclusive ∧
    state.sequence.reservedExclusive ≤ maxSequence + 1
  below : IdsBelow nodeId state.sequence.next handed
  covered : file.All (Covers state.sequence.reservedExclusive)

/-- What holds of a data directory at all times. -/
structure Sequenced (nodeId : ℕ) (node : Node) (handed : List (ℕ × ℕ)) : Prop where
  increasing : Increasing handed
  file : node.file.All (Reserves nodeId handed)
  ready : ∀ state, node.running = some state → Ready nodeId node.file handed state
  node : handed ≠ [] → nodeId ≤ u16Max

theorem IdsBelow.mono {nodeId limit limit' : ℕ} {handed : List (ℕ × ℕ)}
    (h : IdsBelow nodeId limit handed) (hle : limit ≤ limit') : IdsBelow nodeId limit' handed := by
  intro range hmem i hi
  have := h range hmem i hi
  omega

/-! ### What a reservation does -/

/-- The end of the block that a reservation stores. -/
def IdState.blockEnd (state : IdState) (count : ℕ) : ℕ :=
  min (satAdd u64Max state.sequence.next (max sequenceReservation count)) (maxSequence + 1)

variable {state : IdState} {count : ℕ}

theorem IdState.reserve_exhausted (h : maxSequence + 1 < state.sequence.next + count) (nodeId : ℕ)
    (file : AtomicFile BrokerMeta) (reason : String) (stored : StoreEnd) :
    state.reserve nodeId file count reason stored = (.error .sequenceExhausted, state, file) := by
  simp [IdState.reserve, IdState.reservation, reserveIds, h]

/-- A block that suffices is used up further, and nothing is stored. -/
theorem IdState.reserve_within (h : ¬maxSequence + 1 < state.sequence.next + count)
    (hwithin : ¬state.sequence.reservedExclusive < state.sequence.next + count) (nodeId : ℕ)
    (file : AtomicFile BrokerMeta) (reason : String) (stored : StoreEnd) :
    state.reserve nodeId file count reason stored =
      (.ok (messageId nodeId state.sequence.next),
        { state with sequence := { state.sequence with next := state.sequence.next + count } },
        file) := by
  simp only [IdState.reserve, IdState.reservation, reserveIds, Sequence.extend, if_neg h,
    if_neg hwithin]
  rfl

theorem IdState.reserve_block (h : ¬maxSequence + 1 < state.sequence.next + count)
    (hblock : state.sequence.reservedExclusive < state.sequence.next + count) (nodeId : ℕ)
    (file : AtomicFile BrokerMeta) (reason : String) (stored : StoreEnd) :
    let durable := { state.«meta» with nextSequence := state.blockEnd count }
    state.reserve nodeId file count reason stored =
      if stored = .synced then
        (.ok (messageId nodeId state.sequence.next),
          { state with
            sequence := ⟨state.sequence.next + count, state.blockEnd count⟩
            «meta» := durable },
          file.store durable stored)
      else (.error (.io reason), state, file.store durable stored) := by
  simp only [IdState.reserve, IdState.reservation, reserveIds, Sequence.extend, if_neg h,
    if_pos hblock]
  cases stored with
  | synced => rfl
  | failed => rfl
  | renamed => rfl

theorem IdState.le_blockEnd (h : ¬maxSequence + 1 < state.sequence.next + count) :
    state.sequence.next + count ≤ state.blockEnd count ∧
      state.blockEnd count ≤ maxSequence + 1 := by
  have hword : maxSequence + 1 ≤ u64Max := by decide
  have hmax : count ≤ max sequenceReservation count := le_max_right _ _
  unfold IdState.blockEnd satAdd
  omega

/-! ### The invariant -/

section Invariant

variable {nodeId : ℕ} {handed : List (ℕ × ℕ)}

theorem range_eq {next i : ℕ} (hnode : nodeId ≤ u16Max) (hend : next + count ≤ 2 ^ 48) (hi : i < count) :
    messageId nodeId next + i = nodeId * 2 ^ 48 + (next + i) := by
  have hid : nodeId % 2 ^ 16 = nodeId := Nat.mod_eq_of_lt (by unfold u16Max at hnode; omega)
  rw [messageId_eq (by omega), hid, Nat.add_assoc]

theorem IdsBelow.append {next : ℕ} (h : IdsBelow nodeId next handed) (hnode : nodeId ≤ u16Max)
    (hnext : 1 ≤ next) (hend : next + count ≤ 2 ^ 48) :
    IdsBelow nodeId (next + count) (handed ++ [(messageId nodeId next, count)]) := by
  intro range hmem i hi
  rcases List.mem_append.1 hmem with hmem | hmem
  · have := h range hmem i hi
    omega
  · rw [List.mem_singleton.1 hmem] at hi ⊢
    rw [range_eq hnode hend hi]
    dsimp only at hi
    omega

theorem Increasing.append {next : ℕ} (h : Increasing handed) (hbelow : IdsBelow nodeId next handed)
    (hnode : nodeId ≤ u16Max) (hend : next + count ≤ 2 ^ 48) :
    Increasing (handed ++ [(messageId nodeId next, count)]) := by
  refine List.pairwise_append.2 ⟨h, List.pairwise_singleton _ _, fun a ha b hb i hi j hj => ?_⟩
  rw [List.mem_singleton.1 hb] at hj ⊢
  have hlt := (hbelow a ha i hi).2
  rw [range_eq hnode hend hj]
  omega

/-- A version that reserves enough still lies behind everything after a range was handed out. -/
theorem Reserves.append {version : Option BrokerMeta} {next limit : ℕ}
    (h : Reserves nodeId handed version) (hcovers : Covers limit version)
    (hbelow : IdsBelow nodeId (next + count) (handed ++ [(messageId nodeId next, count)]))
    (hlimit : next + count ≤ limit) :
    Reserves nodeId (handed ++ [(messageId nodeId next, count)]) version := by
  cases version with
  | none => exact hcovers.elim
  | some stored =>
    obtain ⟨hformat, hid, hpos, hle, -⟩ := h
    exact ⟨hformat, hid, hpos, hle, hbelow.mono (hlimit.trans hcovers)⟩

variable {file : AtomicFile BrokerMeta}

section

variable (h : Sequenced nodeId ⟨some state, file⟩ handed)
include h

/-- A reservation that is answered keeps the invariant. -/
theorem Sequenced.reserve {state' : IdState} {file' : AtomicFile BrokerMeta} {first : ℕ}
    {reason : String} {stored : StoreEnd}
    (answer : state.reserve nodeId file count reason stored = (.ok first, state', file')) :
    Sequenced nodeId ⟨some state', file'⟩ (handed ++ [(first, count)]) := by
  have hready := h.ready state rfl
  obtain ⟨hpos, hle, hmax⟩ := hready.bounds
  have hlimit : maxSequence + 1 = 2 ^ 48 := rfl
  by_cases hexhausted : maxSequence + 1 < state.sequence.next + count
  · rw [state.reserve_exhausted hexhausted] at answer
    cases answer
  have hend : state.sequence.next + count ≤ 2 ^ 48 := by omega
  have hbelow := hready.below.append hready.node hpos hend
  have hincreasing := h.increasing.append hready.below hready.node hend
  by_cases hblock : state.sequence.reservedExclusive < state.sequence.next + count
  · rw [state.reserve_block hexhausted hblock] at answer
    by_cases hsynced : stored = .synced
    · rw [if_pos hsynced] at answer
      cases answer
      subst hsynced
      obtain ⟨hge, hblockMax⟩ := state.le_blockEnd hexhausted
      refine ⟨hincreasing, file.all_store_synced ?_, fun other hother => ?_,
        fun _ => hready.node⟩
      · exact ⟨hready.identity.1, hready.identity.2, by dsimp only; omega, hblockMax,
          hbelow.mono hge⟩
      · cases hother
        exact ⟨hready.node, rfl, hready.identity, ⟨by dsimp only; omega, hge, hblockMax⟩, hbelow,
          file.all_store_synced le_rfl⟩
    · rw [if_neg hsynced] at answer
      cases answer
  · rw [state.reserve_within hexhausted hblock] at answer
    cases answer
    have hwithin : state.sequence.next + count ≤ state.sequence.reservedExclusive := by omega
    refine ⟨hincreasing, ⟨?_, fun version hmem => ?_⟩, fun other hother => ?_, fun _ => hready.node⟩
    · exact h.file.1.append hready.covered.1 hbelow hwithin
    · exact (h.file.2 version hmem).append (hready.covered.2 version hmem) hbelow hwithin
    · cases hother
      exact ⟨hready.node, hready.reserved, hready.identity, ⟨by dsimp only; omega, hwithin, hmax⟩,
        hbelow, hready.covered⟩

/-- A store of at least what is reserved keeps the invariant of a running node. -/
theorem Sequenced.storeMeta {durable : BrokerMeta}
    (stored : StoreEnd) (hidentity : durable.format = 7 ∧ durable.nodeId = nodeId)
    (hge : state.sequence.reservedExclusive ≤ durable.nextSequence)
    (hmax : durable.nextSequence ≤ maxSequence + 1) :
    Sequenced nodeId ⟨some state, file.store durable stored⟩ handed := by
  have hready := h.ready state rfl
  obtain ⟨hpos, hle, -⟩ := hready.bounds
  refine ⟨h.increasing, h.file.store ?_ stored, fun other hother => ?_, h.node⟩
  · exact ⟨hidentity.1, hidentity.2, by omega, hmax, hready.below.mono (by omega)⟩
  · cases hother
    exact ⟨hready.node, hready.reserved, hready.identity, hready.bounds, hready.below,
      hready.covered.store hge stored⟩

theorem Sequenced.refuse {state' : IdState} {file' : AtomicFile BrokerMeta} {error : BrokerError}
    {reason : String} {stored : StoreEnd}
    (answer : state.reserve nodeId file count reason stored = (.error error, state', file')) :
    Sequenced nodeId ⟨some state', file'⟩ handed := by
  have hready := h.ready state rfl
  by_cases hexhausted : maxSequence + 1 < state.sequence.next + count
  · rw [state.reserve_exhausted hexhausted] at answer
    cases answer
    exact h
  by_cases hblock : state.sequence.reservedExclusive < state.sequence.next + count
  · rw [state.reserve_block hexhausted hblock] at answer
    obtain ⟨hge, hblockMax⟩ := state.le_blockEnd hexhausted
    by_cases hsynced : stored = .synced
    · rw [if_pos hsynced] at answer
      cases answer
    · rw [if_neg hsynced] at answer
      cases answer
      exact h.storeMeta stored hready.identity (by dsimp only; omega) hblockMax
  · rw [state.reserve_within hexhausted hblock] at answer
    cases answer

theorem Sequenced.bump (reason : String) (stored : StoreEnd) :
    Sequenced nodeId ⟨some (state.bumpRegistry file reason stored).2.1,
      (state.bumpRegistry file reason stored).2.2⟩ handed := by
  have hready := h.ready state rfl
  have hmax := hready.bounds.2.2
  let durable : BrokerMeta := { state.«meta» with
    registryRevision := satSucc (max state.«meta».registryRevision state.registryRevision) }
  have hreserved : durable.nextSequence = state.sequence.reservedExclusive := hready.reserved
  have hstored := @Sequenced.storeMeta _ _ _ _ h durable stored hready.identity hreserved.ge
    (hreserved.le.trans hmax)
  cases stored with
  | failed => exact hstored
  | renamed => exact hstored
  | synced =>
    refine ⟨hstored.increasing, hstored.file, fun other hother => ?_, hstored.node⟩
    cases hother
    have hready' := hstored.ready state rfl
    exact ⟨hready'.node, hreserved, hready.identity, hready'.bounds, hready'.below,
      hready'.covered⟩

end

theorem Sequenced.stop {running : Option IdState} {file' : AtomicFile BrokerMeta}
    (h : Sequenced nodeId ⟨running, file⟩ handed) (hrestart : file.Restart file') :
    Sequenced nodeId ⟨none, file'⟩ handed :=
  ⟨h.increasing, h.file.restart hrestart, fun _ hother => (nomatch hother), h.node⟩

/-- Metadata that a start goes on with lies behind everything handed out. -/
theorem loadMeta_spec (h : file.All (Reserves nodeId handed)) (reason : String) (created : StoreEnd) :
    (Node.loadMeta nodeId file reason created).2.All (Reserves nodeId handed) ∧
      ∀ stored, (Node.loadMeta nodeId file reason created).1 = .ok stored →
        Reserves nodeId handed (some stored) := by
  unfold Node.loadMeta
  cases hcontent : file.content with
  | some stored =>
    have hstored := h.1
    rw [hcontent] at hstored
    have hidentity : stored.format = 7 ∧ stored.nodeId = nodeId := ⟨hstored.1, hstored.2.1⟩
    simp only [if_pos hidentity]
    refine ⟨h, fun other hother => ?_⟩
    cases hother
    exact hstored
  | none =>
    have hnone := h.1
    rw [hcontent] at hnone
    have hfresh : Reserves nodeId handed (some ⟨7, nodeId, 1, 1⟩) :=
      ⟨rfl, rfl, le_rfl, Nat.succ_le_succ (Nat.zero_le _), hnone⟩
    refine ⟨h.store hfresh created, fun other hother => ?_⟩
    cases created with
    | synced =>
      cases hother
      exact hfresh
    | failed => cases hother
    | renamed => cases hother

theorem Sequenced.start (h : Sequenced nodeId ⟨none, file⟩ handed) (reason : String)
    (created revised : StoreEnd) :
    Sequenced nodeId (Node.start nodeId file reason created revised).2 handed := by
  obtain ⟨hfile, hmeta⟩ := loadMeta_spec h.file reason created
  unfold Node.start
  by_cases hnode : nodeId = 0 ∨ u16Max < nodeId
  · rw [if_pos hnode]
    exact h
  rw [if_neg hnode]
  rcases hload : Node.loadMeta nodeId file reason created with ⟨result, file'⟩
  rw [hload] at hfile hmeta
  cases result with
  | error error => exact ⟨h.increasing, hfile, fun _ hother => (nomatch hother), h.node⟩
  | ok stored =>
    have hstored := hmeta stored rfl
    have hrevised : Reserves nodeId handed
        (some { stored with registryRevision := satSucc stored.registryRevision }) := hstored
    have hnext := hfile.store hrevised revised
    cases revised with
    | failed => exact ⟨h.increasing, hnext, fun _ hother => (nomatch hother), h.node⟩
    | renamed => exact ⟨h.increasing, hnext, fun _ hother => (nomatch hother), h.node⟩
    | synced =>
      refine ⟨h.increasing, hnext, fun state hstate => ?_, h.node⟩
      cases hstate
      obtain ⟨hformat, hid, hpos, hle, hbelow⟩ := hstored
      exact ⟨by omega, rfl, ⟨hformat, hid⟩, ⟨hpos, le_rfl, hle⟩, hbelow,
        file'.all_store_synced le_rfl⟩

theorem Life.sequenced {node : Node} (h : Life nodeId node handed) :
    Sequenced nodeId node handed := by
  induction h with
  | empty =>
    have hnone : Reserves nodeId [] none := by simp [Reserves, IdsBelow]
    exact ⟨List.Pairwise.nil, ⟨hnone, by simpa [AtomicFile.missing] using hnone⟩,
      fun _ hother => (nomatch hother), fun hne => absurd rfl hne⟩
  | start _ reason created revised ih => exact ih.start reason created revised
  | reserve _ answer ih => exact ih.reserve answer
  | refuse _ answer ih => exact ih.refuse answer
  | bump _ reason stored ih => exact ih.bump reason stored
  | stop _ restart ih => exact ih.stop restart

theorem Reserves.below {version : Option BrokerMeta} (h : Reserves nodeId handed version) :
    IdsBelow nodeId (maxSequence + 1) handed := by
  cases version with
  | none => exact h.mono (Nat.succ_le_succ (Nat.zero_le _))
  | some stored =>
    obtain ⟨-, -, -, hle, hbelow⟩ := h
    exact hbelow.mono hle

theorem IdState.reserve_eq_exhausted (count : ℕ) (file : AtomicFile BrokerMeta) (reason : String)
    (stored : StoreEnd) :
    (state.reserve nodeId file count reason stored).1 = .error .sequenceExhausted ↔
      maxSequence + 1 < state.sequence.next + count := by
  by_cases hexhausted : maxSequence + 1 < state.sequence.next + count
  · simp [state.reserve_exhausted hexhausted, hexhausted]
  by_cases hblock : state.sequence.reservedExclusive < state.sequence.next + count
  · rw [state.reserve_block hexhausted hblock]
    by_cases hsynced : stored = .synced
    · simp [if_pos hsynced, hexhausted]
    · simp [if_neg hsynced, hexhausted]
  · simp [state.reserve_within hexhausted hblock, hexhausted]

end Invariant

/-- **Message ids are unique and increasing.**  Over the whole life of a data directory every id of
an earlier range lies below every id of a later one, and every id is the number of the node above
a sequence number from 1 to the largest.  A running node refuses for exhaustion exactly if fewer
numbers than asked for are left, and then nothing changes. -/
theorem message_ids_increasing {nodeId : ℕ} {node : Node} {handed : List (ℕ × ℕ)}
    (h : Life nodeId node handed) :
    (handed.Pairwise fun a b => ∀ i < a.2, ∀ j < b.2, a.1 + i < b.1 + j) ∧
    (∀ range ∈ handed, ∀ i < range.2, ∃ number, 1 ≤ number ∧ number ≤ maxSequence ∧
      range.1 + i = messageId nodeId number ∧ (range.1 + i) / 2 ^ 48 = nodeId) ∧
    ∀ state, node.running = some state → ∀ count reason stored,
      ((state.reserve nodeId node.file count reason stored).1 = .error .sequenceExhausted ↔
        maxSequence + 1 - state.sequence.next < count) ∧
      ((state.reserve nodeId node.file count reason stored).1 = .error .sequenceExhausted →
        (state.reserve nodeId node.file count reason stored).2 = (state, node.file)) := by
  have hsequenced := h.sequenced
  refine ⟨hsequenced.increasing, fun range hmem i hi => ?_, fun state hstate count reason stored => ?_⟩
  · have hnode := hsequenced.node (List.ne_nil_of_mem hmem)
    obtain ⟨hge, hlt⟩ := hsequenced.file.1.below range hmem i hi
    have hlimit : maxSequence + 1 = 2 ^ 48 := rfl
    have hid : nodeId % 2 ^ 16 = nodeId := Nat.mod_eq_of_lt (by unfold u16Max at hnode; omega)
    refine ⟨range.1 + i - nodeId * 2 ^ 48, by omega, by omega, ?_, by omega⟩
    rw [messageId_eq (by omega), hid]
    omega
  · obtain ⟨hpos, hle, hmax⟩ := (hsequenced.ready state hstate).bounds
    rw [state.reserve_eq_exhausted]
    refine ⟨by omega, fun hexhausted => ?_⟩
    rw [state.reserve_exhausted hexhausted]

/-- A first start and two calls, the second of which finds its numbers in the block of the first.  The
machine goes down, and a call after the next start gets the numbers behind that block. -/
theorem message_ids_increasing_restarted :
    ∃ node, Life 3 node [(messageId 3 1, 2), (messageId 3 3, 5), (messageId 3 1048577, 1)] ∧
      ([(messageId 3 1, 2), (messageId 3 3, 5), (messageId 3 1048577, 1)].Pairwise
        fun a b => ∀ i < a.2, ∀ j < b.2, a.1 + i < b.1 + j) := by
  have hstart : Life 3 ⟨some ⟨⟨1, 1⟩, ⟨7, 3, 1, 2⟩, 2⟩, _⟩ [] := .start .empty "" .synced .synced
  have hblock := @IdState.reserve_block ⟨⟨1, 1⟩, ⟨7, 3, 1, 2⟩, 2⟩ 2 (by decide) (by decide) 3
  have hfirst := hstart.reserve ((hblock _ "" .synced).trans (if_pos rfl))
  have hwithin := @IdState.reserve_within ⟨⟨3, 1048577⟩, ⟨7, 3, 1048577, 2⟩, 2⟩ 5 (by decide) (by decide) 3
  have hsecond := hfirst.reserve (hwithin _ "" .failed)
  have hrestart : Life 3 ⟨some ⟨⟨1048577, 1048577⟩, ⟨7, 3, 1048577, 3⟩, 3⟩, _⟩ _ :=
    (hsecond.stop (.machine List.mem_cons_self)).start "" .synced .synced
  have hanother := @IdState.reserve_block ⟨⟨1048577, 1048577⟩, ⟨7, 3, 1048577, 3⟩, 3⟩ 1 (by decide) (by decide) 3
  have hthird := hrestart.reserve ((hanother _ "" .synced).trans (if_pos rfl))
  exact ⟨_, hthird, (message_ids_increasing hthird).1⟩

end RustQueue.Broker
