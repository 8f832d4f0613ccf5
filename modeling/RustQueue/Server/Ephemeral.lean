import RustQueue.Error
import RustQueue.Lib.Counts

/-!
# The consumers of ephemeral channels

An ephemeral channel lives as long as it has consumers.  A registration is a handshake between the future
of its caller and a task: the task takes the lock, creates the channel, counts the consumer and offers the
caller to commit; only a caller that is still there answers.  Without the answer the task takes the consumer
back, and deletes the channel with the last one.  A consumer leaves by a task of its own.  Both futures can
be dropped while their tasks go on.

`State.step` makes one event of this happen: what runs between two awaits is one event.  The counts lock is
held across the calls of the broker and while the task waits for the answer.

* `Owned`: what holds in every state: the counts are those of the consumers that are counted, and a channel
  without consumers is about to be deleted by the holder of the lock;
* `Owned.step`: every event keeps it;
* `ephemeral_lifetime`: while the lock is free the counts are those of the registered consumers, and their
  channels exist and no others.
-/

namespace RustQueue.Server.Ephemeral

open Lib Std

/-! ### States -/

/-- The future of a registration. -/
inductive Caller where
  | waiting
  | cancelled
  | registered
  | refused (error : BrokerError)
  deriving DecidableEq

/-- The task of a registration. -/
inductive RegisterTask where
  | queued
  | creating
  | offered
  | deleting
  | finished
  | failed (error : BrokerError)
  deriving DecidableEq

/-- The task that takes a registered consumer out, once there is one. -/
inductive UnregisterTask where
  | none
  | queued
  | deleting
  | finished
  deriving DecidableEq

structure Registration (Key : Type) where
  key : Key
  caller : Caller
  task : RegisterTask
  leaving : UnregisterTask

/-- Whose task has the counts lock. -/
inductive Holder where
  | register (i : ℕ)
  | unregister (i : ℕ)
  deriving DecidableEq

/-- The consumers, the lock with the counts, and the ephemeral channels of the broker. -/
structure State (Key : Type) (cmp : Key → Key → Ordering) where
  registrations : List (Registration Key)
  holder : Option Holder
  counts : ExtTreeMap Key ℕ cmp
  channels : Finset Key

/-- What can happen next.  The outcomes of the broker's calls come with their events. -/
inductive Event (Key : Type) where
  | register (key : Key)
  | cancel (i : ℕ)
  | lockRegister (i : ℕ)
  | created (i : ℕ) (outcome : Except BrokerError Unit)
  | receive (i : ℕ)
  | answered (i : ℕ)
  | unregister (i : ℕ)
  | lockUnregister (i : ℕ)
  | deleted (outcome : Except BrokerError Unit)

section Model

variable {Key : Type} [DecidableEq Key] {cmp : Key → Key → Ordering} [TransCmp cmp]

/-! ### Steps -/

namespace State

def initial : State Key cmp := ⟨[], none, ∅, ∅⟩

variable (state : State Key cmp)

def put (i : ℕ) (registration : Registration Key) : State Key cmp :=
  { state with registrations := state.registrations.set i registration }

/-- The consumer is counted, and its caller is asked to commit. -/
def offer (i : ℕ) (registration : Registration Key) : State Key cmp :=
  { state.put i { registration with task := .offered } with
    counts := increment state.counts registration.key
    channels := insert registration.key state.channels }

/-- Whether the consumer to be taken out is the last one of its key. -/
def isLast (key : Key) : Bool := state.counts[key]?.any fun count => decide (count - 1 = 0)

/-- A consumer that did not commit is taken back, and the channel deleted with the last one. -/
def takeBack (i : ℕ) (registration : Registration Key) : State Key cmp :=
  if state.isLast registration.key then
    { state.put i { registration with task := .deleting } with
      counts := decrement state.counts registration.key }
  else
    { state.put i { registration with task := .finished } with
      counts := decrement state.counts registration.key
      holder := none }

/-- A consumer leaves, and the channel is deleted with the last one. -/
def takeOut (i : ℕ) (registration : Registration Key) : State Key cmp :=
  if state.isLast registration.key then
    { state.put i { registration with leaving := .deleting } with
      counts := decrement state.counts registration.key
      holder := some (.unregister i) }
  else
    { state.put i { registration with leaving := .finished } with
      counts := decrement state.counts registration.key
      holder := none }

/-- A deletion that fails leaves the channel. -/
def withoutChannel (key : Key) : Except BrokerError Unit → Finset Key
  | .ok () => state.channels.erase key
  | .error _ => state.channels

def step : Event Key → Option (State Key cmp)
  | .register key => some
    { state with registrations := state.registrations ++ [⟨key, .waiting, .queued, .none⟩] }
  | .cancel i => do
    let registration ← state.registrations[i]?
    if registration.caller = .waiting then state.put i { registration with caller := .cancelled } else none
  | .lockRegister i => do
    let registration ← state.registrations[i]?
    if state.holder = none ∧ registration.task = .queued then
      some { state.put i { registration with task := .creating } with holder := some (.register i) }
    else none
  | .created i outcome => do
    let registration ← state.registrations[i]?
    if registration.task = .creating then
      match outcome with
      | .error error => some { state.put i { registration with task := .failed error } with holder := none }
      | .ok () =>
        let offered := state.offer i registration
        -- the reply cannot be sent to a caller that is gone
        if registration.caller = .waiting then some offered
        else some (offered.takeBack i { registration with task := .offered })
    else none
  | .receive i => do
    let registration ← state.registrations[i]?
    if registration.caller = .waiting then
      match registration.task with
      | .offered => state.put i { registration with caller := .registered }
      | .failed error => state.put i { registration with caller := .refused error }
      | _ => none
    else none
  | .answered i => do
    let registration ← state.registrations[i]?
    if registration.task = .offered then
      match registration.caller with
      | .registered => some { state.put i { registration with task := .finished } with holder := none }
      | .cancelled => some (state.takeBack i registration)
      | _ => none
    else none
  | .unregister i => do
    let registration ← state.registrations[i]?
    if registration.caller = .registered ∧ registration.leaving = .none then
      state.put i { registration with leaving := .queued }
    else none
  | .lockUnregister i => do
    let registration ← state.registrations[i]?
    if state.holder = none ∧ registration.leaving = .queued then some (state.takeOut i registration)
    else none
  | .deleted outcome =>
    match state.holder with
    | some (.register i) => do
      let registration ← state.registrations[i]?
      if registration.task = .deleting then
        some { state.put i { registration with task := .finished } with
          channels := state.withoutChannel registration.key outcome
          holder := none }
      else none
    | some (.unregister i) => do
      let registration ← state.registrations[i]?
      if registration.leaving = .deleting then
        some { state.put i { registration with leaving := .finished } with
          channels := state.withoutChannel registration.key outcome
          holder := none }
      else none
    | none => none

/-- A sequence of events, from a given state. -/
def run (events : List (Event Key)) : Option (State Key cmp) :=
  events.foldlM step state

end State

/-! ### Who is counted -/

/-- The task has the lock. -/
def RegisterTask.isBusy : RegisterTask → Bool
  | .creating | .offered | .deleting => true
  | .queued | .finished | .failed _ => false

def UnregisterTask.hasRun : UnregisterTask → Bool
  | .none | .queued => false
  | .deleting | .finished => true

namespace Registration

variable (registration : Registration Key)

/-- A consumer that was told that it is registered, and that nothing has taken out yet. -/
def isLive : Bool := decide (registration.caller = .registered) && !registration.leaving.hasRun

/-- A consumer that the counts include. -/
def isCounted : Bool :=
  (decide (registration.task = .offered) ||
    decide (registration.task = .finished) && decide (registration.caller = .registered)) &&
    !registration.leaving.hasRun

/-- One of the tasks of the consumer deletes the channel. -/
def isDeleting : Bool :=
  decide (registration.task = .deleting) || decide (registration.leaving = .deleting)

/-- A caller is registered after the offer, and only a registered one leaves. -/
structure Sound : Prop where
  offered : registration.caller = .registered →
    registration.task = .offered ∨ registration.task = .finished
  left : registration.leaving ≠ .none → registration.caller = .registered

variable {registration} (h : registration.Sound)

include h

omit [DecidableEq Key]

theorem Sound.not_registered (hoffered : registration.task ≠ .offered)
    (hfinished : registration.task ≠ .finished) : registration.caller ≠ .registered :=
  fun hcaller => (h.offered hcaller).elim hoffered hfinished

theorem Sound.stays (hcaller : registration.caller ≠ .registered) : registration.leaving = .none := by
  by_contra hleft
  exact hcaller (h.left hleft)

end Registration

/-- The consumers of a key among those that satisfy `p`. -/
def consumers (p : Registration Key → Bool) (registrations : List (Registration Key)) (key : Key) : ℕ :=
  registrations.countP fun registration => decide (registration.key = key) && p registration

/-- The number of live consumers of a key. -/
def live (state : State Key cmp) (key : Key) : ℕ :=
  consumers Registration.isLive state.registrations key

/-- The number of consumers of a key in the counts. -/
def owners (registrations : List (Registration Key)) (key : Key) : ℕ :=
  consumers Registration.isCounted registrations key

def Holder.index : Holder → ℕ
  | .register i | .unregister i => i

/-- **What holds in every state.** -/
structure Owned (state : State Key cmp) : Prop where
  sound : ∀ registration ∈ state.registrations, registration.Sound
  held : ∀ x ∈ state.holder, x.index < state.registrations.length
  busy : ∀ i registration, state.registrations[i]? = some registration →
    (registration.task.isBusy = true ↔ state.holder = some (.register i)) ∧
      (registration.leaving = .deleting ↔ state.holder = some (.unregister i))
  counts : Counts state.counts (owners state.registrations)
  channels : ∀ key, 0 < owners state.registrations key → key ∈ state.channels
  orphans : ∀ key ∈ state.channels, owners state.registrations key = 0 →
    ∃ registration ∈ state.registrations, registration.key = key ∧ registration.isDeleting = true
  deletes : ∀ registration ∈ state.registrations, registration.isDeleting = true →
    owners state.registrations registration.key = 0

section Counting

variable {registrations : List (Registration Key)} {i : ℕ} {before after : Registration Key}
  (hget : registrations[i]? = some before)
include hget

theorem consumers_set {p : Registration Key → Bool} (hkey : after.key = before.key) (key : Key) :
    consumers p (registrations.set i after) key =
      consumers p registrations key - (if before.key = key ∧ p before = true then 1 else 0) +
        if before.key = key ∧ p after = true then 1 else 0 := by
  obtain ⟨hi, rfl⟩ := List.getElem?_eq_some_iff.1 hget
  unfold consumers
  rw [List.countP_set hi]
  simp only [hkey, Bool.and_eq_true, decide_eq_true_eq]

theorem owners_pos (hbefore : before.isCounted = true) : 0 < owners registrations before.key := by
  refine List.countP_pos_iff.2 ⟨before, List.mem_of_getElem? hget, ?_⟩
  rw [Bool.and_eq_true, decide_eq_true_eq]
  exact ⟨rfl, hbefore⟩

/-- A consumer that changes its part in the count changes the number of its key. -/
theorem owners_set (hkey : after.key = before.key) :
    owners (registrations.set i after) = Function.update (owners registrations) before.key
      (owners registrations before.key - before.isCounted.toNat + after.isCounted.toNat) := by
  funext key
  unfold owners
  rw [consumers_set hget hkey]
  by_cases hone : key = before.key
  · subst hone
    rw [Function.update_self]
    cases before.isCounted <;> cases after.isCounted <;> simp
  · rw [Function.update_of_ne hone]
    simp [Ne.symm hone]

/-- A consumer that stays counted, or stays out, changes no number. -/
theorem owners_set_of_eq (hkey : after.key = before.key) (hcounted : after.isCounted = before.isCounted) :
    owners (registrations.set i after) = owners registrations := by
  rw [owners_set hget hkey, hcounted, Function.update_eq_self_iff]
  cases hbefore : before.isCounted with
  | false => rfl
  | true => exact Nat.sub_add_cancel (owners_pos hget hbefore)

end Counting

/-! ### What an event changes -/

section Changes

variable {state : State Key cmp} {i : ℕ} {before after : Registration Key} {holder : Option Holder}
  {counts : ExtTreeMap Key ℕ cmp} {channels : Finset Key}

/-- The lock stays with its holder, or passes between the tasks of one consumer. -/
def Passes (i : ℕ) (holder holder' : Option Holder) : Prop :=
  holder' = holder ∨ (∀ h ∈ holder, h.index = i) ∧ ∀ h ∈ holder', h.index = i

theorem Passes.register_iff {holder' : Option Holder} (h : Passes i holder holder') {j : ℕ} (hj : j ≠ i) :
    (holder' = some (.register j) ↔ holder = some (.register j)) ∧
      (holder' = some (.unregister j) ↔ holder = some (.unregister j)) := by
  rcases h with rfl | ⟨hbefore, hafter⟩
  · exact ⟨Iff.rfl, Iff.rfl⟩
  · refine ⟨iff_of_false ?_ ?_, iff_of_false ?_ ?_⟩
    · exact fun heq => hj (hafter _ heq)
    · exact fun heq => hj (hbefore _ heq)
    · exact fun heq => hj (hafter _ heq)
    · exact fun heq => hj (hbefore _ heq)

/-- The lock is with a task of the consumer when that task says so. -/
def Registration.Busy (registration : Registration Key) (holder : Option Holder) (i : ℕ) : Prop :=
  (registration.task.isBusy = true ↔ holder = some (.register i)) ∧
    (registration.leaving = .deleting ↔ holder = some (.unregister i))

omit [DecidableEq Key] in
theorem Registration.busy_none (htask : after.task.isBusy = false) (hleaving : after.leaving ≠ .deleting) :
    after.Busy none i :=
  ⟨iff_of_false (by simp [htask]) nofun, iff_of_false hleaving nofun⟩

namespace Owned

section

variable (h : Owned state)

include h

theorem index_of_deleting (hget : state.registrations[i]? = some before)
    (hdeleting : before.isDeleting = true) : ∃ x ∈ state.holder, x.index = i := by
  rcases Bool.or_eq_true_iff.1 hdeleting with htask | hleaving
  · have hbusy : before.task.isBusy = true := by
      rw [of_decide_eq_true htask]
      rfl
    exact ⟨_, (h.busy i before hget).1.1 hbusy, rfl⟩
  · exact ⟨_, (h.busy i before hget).2.1 (of_decide_eq_true hleaving), rfl⟩

theorem only_deleting (hholder : ∀ x ∈ state.holder, x.index = i)
    (hget : state.registrations[i]? = some before) (hmem : after ∈ state.registrations)
    (hdeleting : after.isDeleting = true) : after = before := by
  obtain ⟨j, hj⟩ := List.getElem?_of_mem hmem
  obtain ⟨x, hx, rfl⟩ := h.index_of_deleting hj hdeleting
  rw [hholder x hx, hget, Option.some_inj] at hj
  exact hj.symm

/-- The lock is free or with a consumer that does not delete: nobody deletes. -/
theorem none_deleting (hholder : ∀ x ∈ state.holder, x.index = i)
    (hget : state.registrations[i]? = some before) (hbefore : before.isDeleting = false) :
    ∀ registration ∈ state.registrations, registration.isDeleting = false := by
  intro registration hmem
  by_contra hdeleting
  rw [Bool.not_eq_false] at hdeleting
  rw [h.only_deleting hholder hget hmem hdeleting, hbefore] at hdeleting
  exact nomatch hdeleting

/-- Without a task that deletes, the channels are those of the counted consumers. -/
theorem channels_iff (hnone : ∀ registration ∈ state.registrations, registration.isDeleting = false)
    (key : Key) : key ∈ state.channels ↔ 0 < owners state.registrations key := by
  refine ⟨fun hmem => Nat.pos_of_ne_zero fun hzero => ?_, h.channels key⟩
  obtain ⟨registration, hregistration, -, hdeleting⟩ := h.orphans key hmem hzero
  rw [hnone registration hregistration] at hdeleting
  exact nomatch hdeleting

theorem isLast_iff (key : Key) : state.isLast key = true ↔ owners state.registrations key = 1 := by
  unfold State.isLast
  rw [h.counts key]
  cases owners state.registrations key with
  | zero => simp [counted]
  | succ n => simp [counted]

end

/-! An event that changes one consumer. -/

variable (h : Owned state) (hget : state.registrations[i]? = some before)

include h hget

/-- What is left to show of it. -/
theorem replace (hsound : after.Sound) (hpasses : Passes i state.holder holder) (hbusy : after.Busy holder i)
    (hcounts : Counts counts (owners (state.registrations.set i after)))
    (hchannels : ∀ key, 0 < owners (state.registrations.set i after) key → key ∈ channels)
    (horphans : ∀ key ∈ channels, owners (state.registrations.set i after) key = 0 →
      ∃ registration ∈ state.registrations.set i after,
        registration.key = key ∧ registration.isDeleting = true)
    (hdeletes : ∀ registration ∈ state.registrations.set i after, registration.isDeleting = true →
      owners (state.registrations.set i after) registration.key = 0) :
    Owned (⟨state.registrations.set i after, holder, counts, channels⟩ : State Key cmp) := by
  have hi : i < state.registrations.length := (List.getElem?_eq_some_iff.1 hget).1
  refine ⟨fun registration hmem => ?_, fun x hx => ?_, fun j registration hj => ?_, hcounts, hchannels,
    horphans, hdeletes⟩
  · rcases List.mem_or_eq_of_mem_set hmem with hmem | rfl
    · exact h.sound registration hmem
    · exact hsound
  · rw [List.length_set]
    rcases hpasses with rfl | ⟨-, hafter⟩
    · exact h.held x hx
    · rw [hafter x hx]
      exact hi
  · rw [List.getElem?_set] at hj
    by_cases hij : i = j
    · subst hij
      rw [if_pos rfl, if_pos hi, Option.some_inj] at hj
      exact hj ▸ hbusy
    · rw [if_neg hij] at hj
      obtain ⟨hregister, hunregister⟩ := hpasses.register_iff (Ne.symm hij)
      rw [hregister, hunregister]
      exact h.busy j registration hj

/-- Neither who is counted nor who deletes changes. -/
theorem quiet (hkey : after.key = before.key) (hsound : after.Sound)
    (hpasses : Passes i state.holder holder) (hbusy : after.Busy holder i)
    (hcounted : after.isCounted = before.isCounted) (hdeleting : after.isDeleting = before.isDeleting) :
    Owned { state.put i after with holder := holder } := by
  have howners := owners_set_of_eq hget hkey hcounted
  refine h.replace hget hsound hpasses hbusy ?_ ?_ ?_ ?_
  · rw [howners]
    exact h.counts
  · rw [howners]
    exact h.channels
  · rw [howners]
    intro key hmem hzero
    obtain ⟨registration, hregistration, hrkey, hdelete⟩ := h.orphans key hmem hzero
    obtain ⟨j, hj⟩ := List.getElem?_of_mem hregistration
    by_cases hij : i = j
    · -- the consumer itself
      subst hij
      obtain rfl : before = registration := Option.some_inj.1 (hget.symm.trans hj)
      refine ⟨after, List.mem_set (List.getElem?_eq_some_iff.1 hget).1 after, hkey.trans hrkey, ?_⟩
      rw [hdeleting, hdelete]
    · refine ⟨registration, List.mem_of_getElem? (i := j) ?_, hrkey, hdelete⟩
      rw [List.getElem?_set, if_neg hij, hj]
  · rw [howners]
    intro registration hmem hdelete
    rcases List.mem_or_eq_of_mem_set hmem with hmem | rfl
    · exact h.deletes registration hmem hdelete
    · rw [hkey]
      exact h.deletes before (List.mem_of_getElem? hget) (hdeleting ▸ hdelete)

/-- The consumer is counted or counted no more, and deletes its channel if it was the last. -/
theorem recount (hlock : ∀ x ∈ state.holder, x.index = i) (hidle : before.isDeleting = false)
    (hkey : after.key = before.key) (hsound : after.Sound) (hpasses : Passes i state.holder holder)
    (hbusy : after.Busy holder i) {count : ℕ}
    (howners : owners (state.registrations.set i after) =
      Function.update (owners state.registrations) before.key count)
    (hcounts : Counts counts (Function.update (owners state.registrations) before.key count))
    (hchannel : before.key ∈ channels)
    (hothers : ∀ key ≠ before.key, key ∈ channels ↔ key ∈ state.channels)
    (hdeletes : after.isDeleting = true ↔ count = 0) :
    Owned (⟨state.registrations.set i after, holder, counts, channels⟩ : State Key cmp) := by
  have hnone := h.none_deleting hlock hget hidle
  refine h.replace hget hsound hpasses hbusy (howners ▸ hcounts) (fun key hpos => ?_)
    (fun key hmem hzero => ?_) fun registration hmem hdelete => ?_
  · by_cases hne : key = before.key
    · exact hne ▸ hchannel
    · rw [howners, Function.update_of_ne hne] at hpos
      exact (hothers key hne).2 (h.channels key hpos)
  · by_cases hne : key = before.key
    · rw [howners, hne, Function.update_self] at hzero
      exact ⟨after, List.mem_set (List.getElem?_eq_some_iff.1 hget).1 after, hkey.trans hne.symm,
        hdeletes.2 hzero⟩
    · rw [howners, Function.update_of_ne hne] at hzero
      exact absurd ((h.channels_iff hnone key).1 ((hothers key hne).1 hmem)) (by omega)
  · rcases List.mem_or_eq_of_mem_set hmem with hmem | rfl
    · rw [hnone registration hmem] at hdelete
      exact nomatch hdelete
    · rw [howners, hkey, Function.update_self]
      exact hdeletes.1 hdelete

theorem offer [LawfulEqCmp cmp] (htask : before.task = .creating) : Owned (state.offer i before) := by
  have hsound := h.sound before (List.mem_of_getElem? hget)
  have hbusy := h.busy i before hget
  have hlock : state.holder = some (.register i) := hbusy.1.1 (by rw [htask]; rfl)
  have hleaving : before.leaving = .none := hsound.stays (hsound.not_registered (by simp [htask])
    (by simp [htask]))
  refine h.recount hget (by simp [hlock, Holder.index])
    (by simp [Registration.isDeleting, htask, hleaving]) rfl ⟨fun _ => Or.inl rfl, hsound.left⟩
    (Or.inl rfl) ⟨iff_of_true rfl hlock, hbusy.2⟩ ?_
    (h.counts.increment before.key) (Finset.mem_insert_self _ _) (fun key hne => ?_) ?_
  · rw [owners_set hget]
    · simp [Registration.isCounted, htask, hleaving, UnregisterTask.hasRun]
    · rfl
  · rw [Finset.mem_insert, or_iff_right hne]
  · simp [Registration.isDeleting, hleaving]

/-- A consumer is counted no more. -/
theorem release [LawfulEqCmp cmp] (hlock : ∀ x ∈ state.holder, x.index = i)
    (hcounted : before.isCounted = true) (hidle : before.isDeleting = false)
    (hkey : after.key = before.key) (hsound : after.Sound) (hholder : ∀ x ∈ holder, x.index = i)
    (hbusy : after.Busy holder i) (hafter : after.isCounted = false)
    (hdeletes : after.isDeleting = state.isLast before.key) :
    Owned { state.put i after with counts := decrement state.counts before.key, holder := holder } := by
  have hpos := owners_pos hget hcounted
  refine h.recount hget hlock hidle hkey hsound (Or.inr ⟨hlock, hholder⟩) hbusy
    (by rw [owners_set hget hkey, hcounted, hafter]; rfl) (h.counts.decrement before.key)
    (h.channels before.key hpos) (fun _ _ => Iff.rfl) ?_
  rw [hdeletes, h.isLast_iff]
  omega

/-- The channel is deleted, and the lock free. -/
theorem deleted (hlock : ∀ x ∈ state.holder, x.index = i) (hdeleting : before.isDeleting = true)
    (hkey : after.key = before.key) (hsound : after.Sound) (hbusy : after.Busy none i)
    (hcounted : after.isCounted = before.isCounted) (hdelete : after.isDeleting = false) :
    Owned { state.put i after with
      channels := state.withoutChannel before.key (.ok ())
      holder := none } := by
  have howners := owners_set_of_eq hget hkey hcounted
  have hzero := h.deletes before (List.mem_of_getElem? hget) hdeleting
  refine h.replace hget hsound (Or.inr ⟨hlock, fun x hx => nomatch hx⟩) hbusy ?_ ?_ ?_ ?_
  · rw [howners]
    exact h.counts
  · rw [howners]
    intro key hpos
    refine Finset.mem_erase.2 ⟨fun hne => ?_, h.channels key hpos⟩
    rw [hne, hzero] at hpos
    exact nomatch hpos
  · rw [howners]
    intro key hmem hnone
    obtain ⟨hne, hmem⟩ := Finset.mem_erase.1 hmem
    obtain ⟨registration, hregistration, hrkey, hdeletes⟩ := h.orphans key hmem hnone
    rw [h.only_deleting hlock hget hregistration hdeletes] at hrkey
    exact absurd hrkey.symm hne
  · rw [howners]
    intro registration hmem hdeletes
    rcases List.mem_or_eq_of_mem_set hmem with hmem | rfl
    · exact h.deletes registration hmem hdeletes
    · rw [hdelete] at hdeletes
      exact nomatch hdeletes

/-- Without the lock of its registration, the task of a consumer is idle. -/
theorem idle (hlock : state.holder ≠ some (.register i)) : before.task.isBusy = false :=
  Bool.eq_false_of_not_eq_true (mt (h.busy i before hget).1.1 hlock)

theorem not_leaving (hlock : state.holder ≠ some (.unregister i)) : before.leaving ≠ .deleting :=
  mt (h.busy i before hget).2.1 hlock

theorem takeBack [LawfulEqCmp cmp] (htask : before.task = .offered) (hcaller : before.caller ≠ .registered) :
    Owned (state.takeBack i before) := by
  have hsound := h.sound before (List.mem_of_getElem? hget)
  have hleaving : before.leaving = .none := hsound.stays hcaller
  have hlock : state.holder = some (.register i) := (h.busy i before hget).1.1 (by rw [htask]; rfl)
  have hindex : ∀ x ∈ state.holder, x.index = i := by simp [hlock, Holder.index]
  have hcounted : before.isCounted = true := by
    simp [Registration.isCounted, htask, hleaving, UnregisterTask.hasRun]
  have hidle : before.isDeleting = false := by simp [Registration.isDeleting, htask, hleaving]
  unfold State.takeBack
  by_cases hlast : state.isLast before.key = true
  · rw [if_pos hlast]
    refine h.release hget hindex hcounted hidle rfl ⟨fun hregistered => absurd hregistered hcaller,
      hsound.left⟩ hindex ⟨iff_of_true rfl hlock, iff_of_false (by simp [hleaving])
      (by simp [State.put, hlock])⟩ ?_ ?_
    · simp [Registration.isCounted]
    · simp [Registration.isDeleting, hlast]
  · rw [if_neg hlast]
    refine h.release hget hindex hcounted hidle rfl ⟨fun hregistered => absurd hregistered hcaller,
      hsound.left⟩ (fun x hx => nomatch hx) (Registration.busy_none rfl (by simp [hleaving])) ?_ ?_
    · simp [Registration.isCounted, hcaller]
    · simp [Registration.isDeleting, hleaving, hlast]

theorem takeOut [LawfulEqCmp cmp] (hfree : state.holder = none) (hqueued : before.leaving = .queued) :
    Owned (state.takeOut i before) := by
  have hsound := h.sound before (List.mem_of_getElem? hget)
  have hcaller : before.caller = .registered := hsound.left (by simp [hqueued])
  have hbusy : before.task.isBusy = false := h.idle hget (by simp [hfree])
  have htask : before.task = .finished := by
    rcases hsound.offered hcaller with htask | htask
    · rw [htask] at hbusy
      exact nomatch hbusy
    · exact htask
  have hindex : ∀ x ∈ state.holder, x.index = i := by simp [hfree]
  have hcounted : before.isCounted = true := by
    simp [Registration.isCounted, htask, hcaller, hqueued, UnregisterTask.hasRun]
  have hidle : before.isDeleting = false := by simp [Registration.isDeleting, htask, hqueued]
  unfold State.takeOut
  by_cases hlast : state.isLast before.key = true
  · rw [if_pos hlast]
    refine h.release hget hindex hcounted hidle rfl ⟨hsound.offered, fun _ => hcaller⟩
      (by simp [Holder.index]) ⟨iff_of_false (by simp [hbusy]) (by simp), iff_of_true rfl rfl⟩ ?_ ?_
    · simp [Registration.isCounted, UnregisterTask.hasRun]
    · simp [Registration.isDeleting, hlast]
  · rw [if_neg hlast]
    refine h.release hget hindex hcounted hidle rfl ⟨hsound.offered, fun _ => hcaller⟩
      (fun x hx => nomatch hx) (Registration.busy_none hbusy (by simp)) ?_ ?_
    · simp [Registration.isCounted, UnregisterTask.hasRun]
    · simp [Registration.isDeleting, htask, hlast]

theorem giveUp {caller : Caller} (hwaiting : before.caller = .waiting) (hcaller : caller ≠ .registered) :
    Owned (state.put i { before with caller := caller }) := by
  have hleaving := (h.sound before (List.mem_of_getElem? hget)).stays (by simp [hwaiting])
  refine h.quiet hget rfl ⟨fun hregistered => absurd hregistered hcaller, fun hleft => absurd hleaving hleft⟩
    (Or.inl rfl) (h.busy i before hget) ?_ rfl
  simp [Registration.isCounted, hwaiting, hcaller]

theorem lockRegister (hfree : state.holder = none) (htask : before.task = .queued) :
    Owned { state.put i { before with task := .creating } with holder := some (.register i) } := by
  have hsound := h.sound before (List.mem_of_getElem? hget)
  have hcaller := hsound.not_registered (by simp [htask]) (by simp [htask])
  have hleaving : before.leaving ≠ .deleting := h.not_leaving hget (by simp [hfree])
  refine h.quiet hget rfl ⟨fun hregistered => absurd hregistered hcaller, hsound.left⟩
    (Or.inr ⟨by simp [hfree], by simp [Holder.index]⟩)
    ⟨iff_of_true rfl rfl, iff_of_false hleaving (by simp)⟩ ?_ ?_
  · simp [Registration.isCounted, htask]
  · simp [Registration.isDeleting, htask]

/-- The channel is there: the caller is asked to commit, or gone. -/
theorem created [LawfulEqCmp cmp] (htask : before.task = .creating) :
    Owned (if before.caller = .waiting then state.offer i before
      else (state.offer i before).takeBack i { before with task := .offered }) := by
  have hcaller := (h.sound before (List.mem_of_getElem? hget)).not_registered (by simp [htask])
    (by simp [htask])
  have hoffered := h.offer hget htask
  by_cases hwaiting : before.caller = .waiting
  · rw [if_pos hwaiting]
    exact hoffered
  · rw [if_neg hwaiting]
    refine hoffered.takeBack ?_ rfl hcaller
    exact List.getElem?_set_self (List.getElem?_eq_some_iff.1 hget).1

theorem receive (htask : before.task = .offered) :
    Owned (state.put i { before with caller := .registered }) := by
  refine h.quiet hget rfl ⟨fun _ => Or.inl htask, fun _ => rfl⟩ (Or.inl rfl) (h.busy i before hget) ?_ rfl
  simp [Registration.isCounted, htask]

theorem committed (htask : before.task = .offered) (hcaller : before.caller = .registered) :
    Owned { state.put i { before with task := .finished } with holder := none } := by
  have hlock : state.holder = some (.register i) := (h.busy i before hget).1.1 (by rw [htask]; rfl)
  have hleaving : before.leaving ≠ .deleting := h.not_leaving hget (by simp [hlock])
  refine h.quiet hget rfl ⟨fun _ => Or.inr rfl, (h.sound before (List.mem_of_getElem? hget)).left⟩
    (Or.inr ⟨by simp [hlock, Holder.index], by simp⟩) (Registration.busy_none rfl hleaving) ?_ ?_
  · simp [Registration.isCounted, htask, hcaller]
  · simp [Registration.isDeleting, htask]

theorem unregister (hcaller : before.caller = .registered) (hleaving : before.leaving = .none) :
    Owned (state.put i { before with leaving := .queued }) := by
  obtain ⟨hbusy, hdeleting⟩ := h.busy i before hget
  refine h.quiet hget rfl ⟨(h.sound before (List.mem_of_getElem? hget)).offered, fun _ => hcaller⟩
    (Or.inl rfl) ⟨hbusy, iff_of_false (by simp) fun hlock => ?_⟩ ?_ ?_
  · have := hdeleting.2 hlock
    rw [hleaving] at this
    exact nomatch this
  · simp [Registration.isCounted, hleaving, UnregisterTask.hasRun]
  · simp [Registration.isDeleting, hleaving]

theorem deletedByRegister (hlock : state.holder = some (.register i)) (htask : before.task = .deleting) :
    Owned { state.put i { before with task := .finished } with
      channels := state.withoutChannel before.key (.ok ())
      holder := none } := by
  have hsound := h.sound before (List.mem_of_getElem? hget)
  have hcaller := hsound.not_registered (by simp [htask]) (by simp [htask])
  have hleaving : before.leaving = .none := hsound.stays hcaller
  refine h.deleted hget (by simp [hlock, Holder.index]) (by simp [Registration.isDeleting, htask]) rfl
    ⟨fun hregistered => absurd hregistered hcaller, hsound.left⟩
    (Registration.busy_none rfl (by simp [hleaving])) ?_ ?_
  · simp [Registration.isCounted, htask, hcaller]
  · simp [Registration.isDeleting, hleaving]

theorem deletedByUnregister (hlock : state.holder = some (.unregister i))
    (hleaving : before.leaving = .deleting) :
    Owned { state.put i { before with leaving := .finished } with
      channels := state.withoutChannel before.key (.ok ())
      holder := none } := by
  have hsound := h.sound before (List.mem_of_getElem? hget)
  have hbusy : before.task.isBusy = false := h.idle hget (by simp [hlock])
  have htask : before.task ≠ .deleting := by
    intro htask
    rw [htask] at hbusy
    exact nomatch hbusy
  refine h.deleted hget (by simp [hlock, Holder.index]) (by simp [Registration.isDeleting, hleaving]) rfl
    ⟨hsound.offered, fun _ => hsound.left (by simp [hleaving])⟩ (Registration.busy_none hbusy (by simp)) ?_ ?_
  · simp [Registration.isCounted, hleaving, UnregisterTask.hasRun]
  · simp [Registration.isDeleting, htask]

end Owned

end Changes

/-! ### Every event -/

/-- The broker does what it is asked for. -/
def Event.Succeeds : Event Key → Prop
  | .created _ outcome | .deleted outcome => outcome = .ok ()
  | _ => True

section Steps

variable {state state' : State Key cmp}

theorem owned_initial : Owned (State.initial : State Key cmp) where
  sound := fun _ hmem => nomatch hmem
  held := fun _ hnone => nomatch hnone
  busy := fun _ registration hget => nomatch (show none = some registration from hget)
  counts := fun _ => ExtTreeMap.getElem?_empty
  channels := fun _ hpos => nomatch hpos
  orphans := fun _ hmem => nomatch hmem
  deletes := fun _ hmem => nomatch hmem

theorem Owned.register (h : Owned state) (key : Key) : Owned { state with
      registrations := state.registrations ++ [⟨key, .waiting, .queued, .none⟩] } := by
  have howners : owners (state.registrations ++ [⟨key, .waiting, .queued, .none⟩]) =
      owners state.registrations := by
    funext k
    simp [owners, consumers, Registration.isCounted]
  refine ⟨fun registration hmem => ?_, fun x hx => ?_, fun i registration hget => ?_, ?_, ?_, ?_, ?_⟩
  · rcases List.mem_append.1 hmem with hmem | hmem
    · exact h.sound registration hmem
    · rw [List.mem_singleton.1 hmem]
      exact ⟨nofun, fun hleft => absurd rfl hleft⟩
  · rw [List.length_append]
    exact Nat.lt_add_right _ (h.held x hx)
  · rw [List.getElem?_append] at hget
    by_cases hi : i < state.registrations.length
    · rw [if_pos hi] at hget
      exact h.busy i registration hget
    · -- the new one waits, and the lock is with an earlier one
      rw [if_neg hi] at hget
      have hnew := List.mem_singleton.1 (List.mem_of_getElem? hget)
      have hholder : ∀ x ∈ state.holder, x.index ≠ i := fun x hx heq => hi (heq ▸ h.held x hx)
      rw [hnew]
      exact ⟨iff_of_false (by simp [RegisterTask.isBusy]) fun heq => hholder _ heq rfl,
        iff_of_false (by simp) fun heq => hholder _ heq rfl⟩
  · rw [howners]
    exact h.counts
  · rw [howners]
    exact h.channels
  · rw [howners]
    intro k hk hzero
    obtain ⟨registration, hmem, hdeleting⟩ := h.orphans k hk hzero
    exact ⟨registration, List.mem_append_left _ hmem, hdeleting⟩
  · rw [howners]
    intro registration hmem hdeleting
    rcases List.mem_append.1 hmem with hmem | hmem
    · exact h.deletes registration hmem hdeleting
    · rw [List.mem_singleton.1 hmem] at hdeleting
      exact nomatch hdeleting

omit [DecidableEq Key] [TransCmp cmp] in
/-- An event of a consumer happens if there is one and its condition holds. -/
theorem guarded {i : ℕ} {p : Registration Key → Prop} [DecidablePred p]
    {next : Registration Key → Option (State Key cmp)}
    (h : (do let registration ← state.registrations[i]?
             if p registration then next registration else none) = some state') :
    ∃ registration, state.registrations[i]? = some registration ∧ p registration ∧
      next registration = some state' := by
  obtain ⟨registration, hget, h⟩ := Option.bind_eq_some_iff.1 h
  obtain ⟨hp, h⟩ := Option.ite_none_right_eq_some.1 h
  exact ⟨registration, hget, hp, h⟩

/-- **Every event keeps the counts and the channels.** -/
theorem Owned.step [LawfulEqCmp cmp] {event : Event Key} (h : Owned state) (hsucceeds : event.Succeeds)
    (hstep : state.step event = some state') : Owned state' := by
  cases event with
  | register key =>
    cases hstep
    exact h.register key
  | cancel i =>
    obtain ⟨registration, hget, hcaller, hstep⟩ := guarded hstep
    cases hstep
    exact h.giveUp hget hcaller nofun
  | lockRegister i =>
    obtain ⟨registration, hget, ⟨hfree, htask⟩, hstep⟩ := guarded hstep
    cases hstep
    exact h.lockRegister hget hfree htask
  | created i outcome =>
    obtain ⟨registration, hget, htask, hstep⟩ := guarded hstep
    rw [show outcome = .ok () from hsucceeds] at hstep
    have hcreated := h.created hget htask
    dsimp only at hstep
    by_cases hwaiting : registration.caller = .waiting
    · rw [if_pos hwaiting] at hstep hcreated
      cases hstep
      exact hcreated
    · rw [if_neg hwaiting] at hstep hcreated
      cases hstep
      exact hcreated
  | receive i =>
    obtain ⟨registration, hget, hcaller, hstep⟩ := guarded hstep
    cases htask : registration.task with
    | offered =>
      have hreceived := h.receive hget htask
      rw [htask] at hstep hreceived
      cases hstep
      exact hreceived
    | failed error =>
      have hrefused : Owned (state.put i { registration with caller := .refused error }) :=
        h.giveUp hget hcaller nofun
      rw [htask] at hstep hrefused
      cases hstep
      exact hrefused
    | queued => simp [htask] at hstep
    | creating => simp [htask] at hstep
    | deleting => simp [htask] at hstep
    | finished => simp [htask] at hstep
  | answered i =>
    obtain ⟨registration, hget, htask, hstep⟩ := guarded hstep
    cases hcaller : registration.caller with
    | registered =>
      have hcommitted := h.committed hget htask hcaller
      rw [hcaller] at hstep hcommitted
      cases hstep
      exact hcommitted
    | cancelled =>
      rw [hcaller] at hstep
      cases hstep
      exact h.takeBack hget htask (by simp [hcaller])
    | waiting => simp [hcaller] at hstep
    | refused error => simp [hcaller] at hstep
  | unregister i =>
    obtain ⟨registration, hget, ⟨hcaller, hleaving⟩, hstep⟩ := guarded hstep
    cases hstep
    exact h.unregister hget hcaller hleaving
  | lockUnregister i =>
    obtain ⟨registration, hget, ⟨hfree, hqueued⟩, hstep⟩ := guarded hstep
    cases hstep
    exact h.takeOut hget hfree hqueued
  | deleted outcome =>
    have houtcome : outcome = .ok () := hsucceeds
    subst houtcome
    unfold State.step at hstep
    cases hlock : state.holder with
    | none => simp [hlock] at hstep
    | some holder =>
      rw [hlock] at hstep
      cases holder with
      | register i =>
        obtain ⟨registration, hget, htask, hstep⟩ := guarded hstep
        cases hstep
        exact h.deletedByRegister hget hlock htask
      | unregister i =>
        obtain ⟨registration, hget, hleaving, hstep⟩ := guarded hstep
        cases hstep
        exact h.deletedByUnregister hget hlock hleaving

theorem owned_run [LawfulEqCmp cmp] {events : List (Event Key)} (h : Owned state)
    (hsucceed : ∀ event ∈ events, event.Succeeds) (hrun : state.run events = some state') :
    Owned state' := by
  induction events generalizing state with
  | nil =>
    cases hrun
    exact h
  | cons event events ih =>
    obtain ⟨next, hstep, hrun⟩ := Option.bind_eq_some_iff.1 hrun
    rw [List.forall_mem_cons] at hsucceed
    exact ih (h.step hsucceed.1 hstep) hsucceed.2 hrun

/-- While the lock is free the counted consumers are the live ones. -/
theorem Owned.owners_eq_live (h : Owned state) (hfree : state.holder = none) :
    owners state.registrations = live state := by
  funext key
  refine List.countP_congr fun registration hmem => ?_
  have hsound := h.sound registration hmem
  obtain ⟨i, hget⟩ := List.getElem?_of_mem hmem
  have hidle : registration.task.isBusy = false := by
    have := (h.busy i registration hget).1
    simpa [hfree] using this
  have hoffered : registration.task ≠ .offered := by
    intro htask
    rw [htask] at hidle
    exact nomatch hidle
  by_cases hcaller : registration.caller = .registered
  · have htask := (hsound.offered hcaller).resolve_left hoffered
    simp [Registration.isCounted, Registration.isLive, htask, hcaller]
  · simp [Registration.isCounted, Registration.isLive, hoffered, hcaller]

/-- **An ephemeral channel lives as long as its consumers.**  In every run the channel of a live consumer
exists.  While the counts lock is free, the count of a key is the number of its live consumers, with no
entry for none, and the channels that exist are those with a consumer. -/
theorem ephemeral_lifetime [LawfulEqCmp cmp] (events : List (Event Key)) (state : State Key cmp)
    (hsucceed : ∀ event ∈ events, event.Succeeds) (hrun : State.initial.run events = some state) :
    (∀ registration ∈ state.registrations, registration.isLive = true →
      registration.key ∈ state.channels) ∧
    (state.holder = none → ∀ key, state.counts[key]? = counted (live state key) ∧
      (key ∈ state.channels ↔ 0 < live state key)) := by
  have howned : Owned state := owned_run owned_initial hsucceed hrun
  refine ⟨fun registration hmem hlive => ?_, fun hfree key => ?_⟩
  · obtain ⟨i, hget⟩ := List.getElem?_of_mem hmem
    rw [Registration.isLive, Bool.and_eq_true, decide_eq_true_eq] at hlive
    have hcounted : registration.isCounted = true := by
      rcases (howned.sound registration hmem).offered hlive.1 with htask | htask
      · simpa [Registration.isCounted, htask] using hlive.2
      · simpa [Registration.isCounted, htask, hlive.1] using hlive.2
    exact howned.channels registration.key (owners_pos hget hcounted)
  · have hnone : ∀ registration ∈ state.registrations, registration.isDeleting = false := by
      intro registration hmem
      by_contra hdeleting
      obtain ⟨i, hget⟩ := List.getElem?_of_mem hmem
      obtain ⟨x, hx, -⟩ := howned.index_of_deleting hget (Bool.eq_true_of_not_eq_false hdeleting)
      rw [hfree] at hx
      exact nomatch hx
    rw [← howned.owners_eq_live hfree]
    exact ⟨howned.counts key, howned.channels_iff hnone key⟩

end Steps

end Model

/-- A consumer registers, and another one of the same channel is cancelled before its task runs. -/
def cancelledSecond : List (Event ℕ) :=
  [.register 7, .register 7, .lockRegister 0, .created 0 (.ok ()), .receive 0, .answered 0,
    .cancel 1, .lockRegister 1, .created 1 (.ok ())]

/-- The channel stays for the first consumer, and goes with it. -/
theorem ephemeral_lifetime_cancelled :
    (∃ state : State ℕ compare, State.initial.run cancelledSecond = some state ∧ state.holder = none ∧
      state.counts[7]? = some 1 ∧ 7 ∈ state.channels) ∧
    ∃ state : State ℕ compare,
      State.initial.run (cancelledSecond ++ [.unregister 0, .lockUnregister 0, .deleted (.ok ())]) =
        some state ∧ state.holder = none ∧ state.counts[7]? = none ∧ 7 ∉ state.channels := by
  have hsucceed : ∀ event ∈ cancelledSecond ++ [.unregister 0, .lockUnregister 0, .deleted (.ok ())],
      event.Succeeds := by
    simp [cancelledSecond, Event.Succeeds]
  have hfirst : ∃ state : State ℕ compare, State.initial.run cancelledSecond = some state ∧
      state.holder = none ∧ live state 7 = 1 := ⟨_, rfl, rfl, rfl⟩
  have hlast : ∃ state : State ℕ compare,
      State.initial.run (cancelledSecond ++ [.unregister 0, .lockUnregister 0, .deleted (.ok ())]) =
        some state ∧ state.holder = none ∧ live state 7 = 0 := ⟨_, rfl, rfl, rfl⟩
  obtain ⟨state, hrun, hfree, hlive⟩ := hfirst
  obtain ⟨state', hrun', hfree', hlive'⟩ := hlast
  have hone := (ephemeral_lifetime cancelledSecond state
    (fun event hmem => hsucceed event (List.mem_append_left _ hmem)) hrun).2 hfree 7
  have hnone := (ephemeral_lifetime _ state' hsucceed hrun').2 hfree' 7
  rw [hlive] at hone
  rw [hlive'] at hnone
  exact ⟨⟨state, hrun, hfree, hone.1, hone.2.2 Nat.one_pos⟩,
    state', hrun', hfree', hnone.1, fun hmem => absurd (hnone.2.1 hmem) (lt_irrefl 0)⟩

end RustQueue.Server.Ephemeral
