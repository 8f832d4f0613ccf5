import RustQueue.Broker.Tokens
import RustQueue.Lib.Maps
import RustQueue.Server.Session

/-!
# The deliveries of a session

A session keeps the deliveries that it has written to its client, with the deadline and the token of each.
A FIN or a REQ goes to a task of the session, which runs at most `maxPendingChannelOps` broker futures at a
time; until the completion comes back the delivery is pending and its deadline is suspended.  When the
session ends it waits for the completions for a while, aborts the task if they do not come, and releases its
deliveries but those that a broker future of the task was about.

`SessionState` has the functions of the source on the three collections.  `Connection` is a session together
with its task and with the topic of the broker, and `Advance` what any of them does between two awaits.  A
connection starts when its client has subscribed: before that nothing is delivered.  The messages that are
written to the client and the counters of the subscription are left out.

* `Booked`: the deadlines are those of the deliveries that are not pending, and what is pending is in flight;
* `Kept.advance`: what holds of session, task and broker is kept by every step;
* `session_bookkeeping`: the bookkeeping in every state that can be reached, and what is released at the end.
-/

namespace RustQueue.Server.Leases

open Std Lib Channel Topic Broker

/-! ### The collections of a session -/

structure InFlightDelivery where
  deadline : ℕ
  token : ℕ
  deriving DecidableEq, Repr

/-- The entry of a delivery in the index of the deadlines. -/
def InFlightDelivery.key (delivery : InFlightDelivery) (id : ℕ) : DeadlineKey :=
  deadlineKey delivery.deadline id delivery.token

variable {delivery : InFlightDelivery}

theorem InFlightDelivery.key_inj {other : InFlightDelivery} {id id' : ℕ} :
    delivery.key id = other.key id' ↔ id = id' ∧ delivery = other := by
  obtain ⟨deadline, token⟩ := delivery
  obtain ⟨deadline', token'⟩ := other
  simp only [key, deadlineKey, EmbeddingLike.apply_eq_iff_eq, Prod.mk.injEq, mk.injEq]
  tauto

structure SessionState where
  inFlight : ExtTreeMap ℕ InFlightDelivery
  inFlightDeadlines : Finset DeadlineKey
  pendingChannelOps : Finset ℕ

namespace SessionState

variable (state : SessionState)

def deliveryForOperation (id : ℕ) : Option InFlightDelivery :=
  if id ∈ state.pendingChannelOps then none else state.inFlight[id]?

def recordDelivery (id : ℕ) (delivery : InFlightDelivery) : SessionState :=
  let deadlines := match state.inFlight[id]? with
    | some previous => state.inFlightDeadlines.erase (previous.key id)
    | none => state.inFlightDeadlines
  { state with
    inFlight := state.inFlight.insert id delivery
    inFlightDeadlines :=
      if id ∈ state.pendingChannelOps then deadlines else insert (delivery.key id) deadlines }

def markChannelOperationPending (id : ℕ) : SessionState :=
  if id ∈ state.pendingChannelOps then state
  else
    { state with
      pendingChannelOps := insert id state.pendingChannelOps
      inFlightDeadlines := match state.inFlight[id]? with
        | some delivery => state.inFlightDeadlines.erase (delivery.key id)
        | none => state.inFlightDeadlines }

def restoreDeliveryDeadline (id : ℕ) : SessionState :=
  if id ∈ state.pendingChannelOps then state
  else
    match state.inFlight[id]? with
    | some delivery =>
      { state with inFlightDeadlines := insert (delivery.key id) state.inFlightDeadlines }
    | none => state

def removeDelivery (id : ℕ) : Option InFlightDelivery × SessionState :=
  match state.inFlight[id]? with
  | none => (none, state)
  | some delivery =>
    (some delivery,
      { state with
        inFlight := state.inFlight.erase id
        inFlightDeadlines := state.inFlightDeadlines.erase (delivery.key id) })

/-- One turn of the loop over the deadlines that have passed. -/
def expireDeadline (result : Bool × SessionState) (key : DeadlineKey) : Bool × SessionState :=
  let state := { result.2 with inFlightDeadlines := result.2.inFlightDeadlines.erase key }
  let deadline := (ofLex key).1
  let (id, token) := ofLex (ofLex key).2
  if state.inFlight[id]? = some ⟨deadline, token⟩ then
    (true, { state with inFlight := state.inFlight.erase id })
  else (result.1, state)

/-- The deadlines that have passed are taken in their order. -/
def expireClientDeadlines (now : ℕ) : Bool × SessionState :=
  (Channel.dueKeys state.inFlightDeadlines now).foldl expireDeadline (false, state)

/-- The deliveries that a session releases when it ends, in the order of their ids. -/
def releaseableInFlightDeliveries (inFlight : ExtTreeMap ℕ InFlightDelivery) (active : Finset ℕ) :
    List (ℕ × ℕ) :=
  inFlight.toList.filterMap fun entry =>
    if entry.1 ∈ active then none else some (entry.1, entry.2.token)

theorem mem_releaseableInFlightDeliveries {inFlight : ExtTreeMap ℕ InFlightDelivery}
    {active : Finset ℕ} {id token : ℕ} :
    (id, token) ∈ releaseableInFlightDeliveries inFlight active ↔
      (∃ delivery : InFlightDelivery, inFlight[id]? = some delivery ∧ delivery.token = token) ∧
        id ∉ active := by
  unfold releaseableInFlightDeliveries
  rw [List.mem_filterMap]
  constructor
  · rintro ⟨⟨id', delivery⟩, hmem, hkept⟩
    obtain ⟨hactive, hkept⟩ := Option.ite_none_left_eq_some.1 hkept
    cases hkept
    exact ⟨⟨delivery, ExtTreeMap.mem_toList_iff_getElem?_eq_some.1 hmem, rfl⟩, hactive⟩
  · rintro ⟨⟨delivery, hget, rfl⟩, hactive⟩
    exact ⟨(id, delivery), ExtTreeMap.mem_toList_iff_getElem?_eq_some.2 hget,
      Option.ite_none_left_eq_some.2 ⟨hactive, rfl⟩⟩

end SessionState

/-! ### The bookkeeping -/

/-- The index has the deadlines of the deliveries that are not pending, and no others; what is pending is
in flight. -/
structure Booked (state : SessionState) : Prop where
  deadlines : ∀ key, key ∈ state.inFlightDeadlines ↔ ∃ id delivery,
    state.inFlight[id]? = some delivery ∧ id ∉ state.pendingChannelOps ∧ key = delivery.key id
  pending : ∀ id ∈ state.pendingChannelOps, id ∈ state.inFlight

namespace Booked

variable {state : SessionState}

theorem key_mem (h : Booked state) {id : ℕ} :
    delivery.key id ∈ state.inFlightDeadlines ↔
      state.inFlight[id]? = some delivery ∧ id ∉ state.pendingChannelOps := by
  rw [h.deadlines]
  constructor
  · rintro ⟨id', delivery', hget, hpending, hkey⟩
    obtain ⟨rfl, rfl⟩ := InFlightDelivery.key_inj.1 hkey
    exact ⟨hget, hpending⟩
  · rintro ⟨hget, hpending⟩
    exact ⟨id, delivery, hget, hpending, rfl⟩

/-- The bookkeeping may be checked one delivery at a time. -/
theorem of_key (hkey : ∀ id (delivery : InFlightDelivery), delivery.key id ∈ state.inFlightDeadlines ↔
      state.inFlight[id]? = some delivery ∧ id ∉ state.pendingChannelOps)
    (hpending : ∀ id ∈ state.pendingChannelOps, id ∈ state.inFlight) : Booked state where
  deadlines := by
    intro key
    have heq : key = InFlightDelivery.key ⟨(ofLex key).1, (ofLex (ofLex key).2).2⟩
        (ofLex (ofLex key).2).1 := rfl
    constructor
    · intro hmem
      rw [heq, hkey] at hmem
      exact ⟨_, _, hmem.1, hmem.2, heq⟩
    · rintro ⟨id, delivery, hget, hpending, rfl⟩
      exact (hkey id delivery).2 ⟨hget, hpending⟩
  pending := hpending

theorem initial : Booked ⟨∅, ∅, ∅⟩ := of_key (by simp) (by simp)

/-- The index without the deadline of one delivery has those of the others. -/
theorem key_mem_erase (h : Booked state) {id id' : ℕ} {delivery' : InFlightDelivery}
    (hget : state.inFlight[id]? = some delivery) :
    delivery'.key id' ∈ state.inFlightDeadlines.erase (delivery.key id) ↔
      id' ≠ id ∧ state.inFlight[id']? = some delivery' ∧ id' ∉ state.pendingChannelOps := by
  rw [Finset.mem_erase, h.key_mem, ne_eq, InFlightDelivery.key_inj]
  refine ⟨fun hmem => ⟨?_, hmem.2⟩, fun hmem => ⟨fun heq => hmem.1 heq.1, hmem.2⟩⟩
  rintro rfl
  rw [hget] at hmem
  exact hmem.1 ⟨rfl, (Option.some.inj hmem.2.1).symm⟩

theorem recordDelivery (h : Booked state) (id : ℕ) (delivery : InFlightDelivery) :
    Booked (state.recordDelivery id delivery) := by
  refine of_key (fun id' delivery' => ?_) fun id' hmem => mem_insert_eq.2 (Or.inr (h.pending id' hmem))
  -- without the entry that the delivery had
  have hothers : (delivery'.key id' ∈ match state.inFlight[id]? with
      | some previous => state.inFlightDeadlines.erase (previous.key id)
      | none => state.inFlightDeadlines) ↔
      id' ≠ id ∧ state.inFlight[id']? = some delivery' ∧ id' ∉ state.pendingChannelOps := by
    cases hget : state.inFlight[id]? with
    | none =>
      dsimp only
      rw [h.key_mem]
      refine ⟨fun hmem => ⟨?_, hmem⟩, And.right⟩
      rintro rfl
      rw [hget] at hmem
      cases hmem.1
    | some previous => exact h.key_mem_erase hget
  unfold SessionState.recordDelivery
  dsimp only
  rw [getElem?_insert_eq]
  by_cases hpending : id ∈ state.pendingChannelOps
  · rw [if_pos hpending, hothers]
    by_cases hid : id = id'
    · subst hid
      tauto
    · rw [if_neg hid]
      tauto
  · rw [if_neg hpending, Finset.mem_insert, hothers, InFlightDelivery.key_inj]
    by_cases hid : id = id'
    · subst hid
      rw [if_pos rfl, Option.some.injEq]
      tauto
    · rw [if_neg hid]
      tauto

/-- The deadline of a delivery is suspended while an operation is pending. -/
theorem markChannelOperationPending (h : Booked state) {id : ℕ} (hid : id ∈ state.inFlight) :
    Booked (state.markChannelOperationPending id) := by
  unfold SessionState.markChannelOperationPending
  by_cases hpending : id ∈ state.pendingChannelOps
  · rw [if_pos hpending]
    exact h
  · rw [if_neg hpending]
    obtain ⟨delivery, hget⟩ := ExtTreeMap.mem_iff_isSome_getElem?.1 hid |> Option.isSome_iff_exists.1
    rw [hget]
    refine of_key (fun id' delivery' => ?_) fun id' hmem => ?_
    · rw [h.key_mem_erase hget, Finset.mem_insert]
      tauto
    · rcases Finset.mem_insert.1 hmem with rfl | hmem
      · exact hid
      · exact h.pending id' hmem

theorem erase_pending (h : Booked state) {id : ℕ} (hget : state.inFlight[id]? = none) :
    { state with pendingChannelOps := state.pendingChannelOps.erase id } = state := by
  have hpending : id ∉ state.pendingChannelOps := by
    intro hmem
    have hsome := ExtTreeMap.mem_iff_isSome_getElem?.1 (h.pending id hmem)
    rw [hget] at hsome
    cases hsome
  rw [Finset.erase_eq_of_notMem hpending]

/-- An operation that failed: the delivery gets its deadline back. -/
theorem restore (h : Booked state) (id : ℕ) :
    Booked ({ state with pendingChannelOps := state.pendingChannelOps.erase id }
      |>.restoreDeliveryDeadline id) := by
  unfold SessionState.restoreDeliveryDeadline
  dsimp only
  rw [if_neg (Finset.notMem_erase id _)]
  cases hget : state.inFlight[id]? with
  | none =>
    dsimp only
    rw [h.erase_pending hget]
    exact h
  | some delivery =>
    dsimp only
    refine of_key (fun id' delivery' => ?_) fun id' hmem => h.pending id' (Finset.mem_of_mem_erase hmem)
    rw [Finset.mem_insert, h.key_mem, Finset.mem_erase, InFlightDelivery.key_inj]
    by_cases hid : id' = id
    · subst hid
      rw [hget, Option.some.injEq]
      tauto
    · tauto

theorem remove (h : Booked state) (id : ℕ) :
    Booked ({ state with pendingChannelOps := state.pendingChannelOps.erase id }
      |>.removeDelivery id).2 := by
  unfold SessionState.removeDelivery
  dsimp only
  cases hget : state.inFlight[id]? with
  | none =>
    dsimp only
    rw [h.erase_pending hget]
    exact h
  | some delivery =>
    dsimp only
    refine of_key (fun id' delivery' => ?_) fun id' hmem => ?_
    · rw [h.key_mem_erase hget, Finset.mem_erase, getElem?_erase_eq, Option.ite_none_left_eq_some]
      tauto
    · obtain ⟨hne, hmem⟩ := Finset.mem_erase.1 hmem
      exact mem_erase_eq.2 ⟨Ne.symm hne, h.pending id' hmem⟩

/-- A deadline of the index that has passed is that of a delivery, which goes. -/
theorem expireDeadline_eq {expired : Bool} {id : ℕ} (hget : state.inFlight[id]? = some delivery) :
    SessionState.expireDeadline (expired, state) (delivery.key id) =
      (true, { state with
        inFlight := state.inFlight.erase id
        inFlightDeadlines := state.inFlightDeadlines.erase (delivery.key id) }) := by
  unfold SessionState.expireDeadline
  exact if_pos hget

theorem expireDeadline {expired : Bool} (h : Booked state) {key : DeadlineKey}
    (hkey : key ∈ state.inFlightDeadlines) :
    Booked (SessionState.expireDeadline (expired, state) key).2 := by
  obtain ⟨id, delivery, hget, hpending, rfl⟩ := (h.deadlines key).1 hkey
  have hremoved := h.remove id
  rw [Finset.erase_eq_of_notMem hpending, SessionState.removeDelivery, hget] at hremoved
  rw [expireDeadline_eq hget]
  exact hremoved

/-- What is left of a delivery when deadlines have passed: all of it, or nothing if it was not pending. -/
def Passed (now : ℕ) (before after : SessionState) : Prop :=
  after.pendingChannelOps = before.pendingChannelOps ∧ ∀ id,
    after.inFlight[id]? = before.inFlight[id]? ∨
      after.inFlight[id]? = none ∧ id ∉ before.pendingChannelOps ∧
        ∃ delivery, before.inFlight[id]? = some delivery ∧ delivery.deadline ≤ now

/-- The loop over deadlines of the index. -/
theorem expireDeadlines {now : ℕ} {keys : List DeadlineKey} (hnodup : keys.Nodup) {expired : Bool}
    (h : Booked state) (hkeys : ∀ key ∈ keys, key ∈ state.inFlightDeadlines ∧ (ofLex key).1 ≤ now) :
    Booked (keys.foldl SessionState.expireDeadline (expired, state)).2 ∧
      Passed now state (keys.foldl SessionState.expireDeadline (expired, state)).2 := by
  induction keys generalizing state expired with
  | nil => exact ⟨h, rfl, fun id => Or.inl rfl⟩
  | cons key keys ih =>
    obtain ⟨hnot, hrest⟩ := List.nodup_cons.1 hnodup
    obtain ⟨hkey, hdue⟩ := hkeys key List.mem_cons_self
    have hnext := @expireDeadline _ expired h _ hkey
    obtain ⟨id, delivery, hget, hpending, rfl⟩ := (h.deadlines key).1 hkey
    rw [List.foldl_cons]
    rw [expireDeadline_eq hget] at hnext ⊢
    obtain ⟨hbooked, hsame, hleft⟩ := ih hrest hnext fun other hother =>
      ⟨Finset.mem_erase.2 ⟨fun heq => hnot (heq ▸ hother), (hkeys other (List.mem_cons_of_mem _ hother)).1⟩,
        (hkeys other (List.mem_cons_of_mem _ hother)).2⟩
    refine ⟨hbooked, hsame, fun id' => ?_⟩
    have hid' := hleft id'
    dsimp only at hid'
    rw [getElem?_erase_eq] at hid'
    by_cases heq : id = id'
    · subst heq
      rw [if_pos rfl] at hid'
      refine Or.inr ⟨hid'.elim (fun hnone => hnone) And.left, hpending, delivery, hget, hdue⟩
    · rw [if_neg heq] at hid'
      exact hid'

/-- **The deadlines that have passed** take deliveries with them, but none that is pending. -/
theorem expireClientDeadlines (h : Booked state) (now : ℕ) :
    Booked (state.expireClientDeadlines now).2 ∧ Passed now state (state.expireClientDeadlines now).2 := by
  refine expireDeadlines (Channel.nodup_dueKeys _ _) h fun key hkey => ?_
  exact Channel.mem_dueKeys.1 hkey

end Booked

/-! ### Operations and completions -/

inductive ChannelOpKind where
  | finish
  | sampleFinish
  | requeue
  deriving DecidableEq, Repr

def ChannelOpKind.errorCode : ChannelOpKind → String
  | .finish | .sampleFinish => "E_FIN_FAILED"
  | .requeue => "E_REQ_FAILED"

/-- An operation on the subscribed channel. -/
inductive ChannelOp where
  | finish (id token : ℕ) (sampled : Bool)
  | requeue (id token delayMs : ℕ)
  deriving DecidableEq, Repr

namespace ChannelOp

def id : ChannelOp → ℕ
  | .finish id _ _ | .requeue id _ _ => id

def token : ChannelOp → ℕ
  | .finish _ token _ | .requeue _ token _ => token

def kind : ChannelOp → ChannelOpKind
  | .finish _ _ true => .sampleFinish
  | .finish _ _ false => .finish
  | .requeue _ _ _ => .requeue

/-- The request that the future of the operation sends to the worker of the topic at `nowMs`. -/
def request (channel : String) (nowMs : ℤ) : ChannelOp → ChannelRequest
  | .finish id token _ => ⟨channel, .finish id true (some token)⟩
  | .requeue id token delayMs =>
    ⟨channel, .requeue id (clampI64 (nowMs + min (delayMs : ℤ) (2 ^ 63 - 1))) (some token)⟩

end ChannelOp

structure ChannelOpCompletion where
  id : ℕ
  kind : ChannelOpKind
  result : Except BrokerError Unit

/-- What the session does with a completion, and the error that it sends to its client. -/
def applyChannelOpCompletion (completion : ChannelOpCompletion) (state : SessionState) :
    Except ApiError Unit × SessionState :=
  let state := { state with pendingChannelOps := state.pendingChannelOps.erase completion.id }
  match completion.result with
  | .error error =>
    (.error ⟨completion.kind.errorCode, brokerErrorText error⟩,
      state.restoreDeliveryDeadline completion.id)
  | .ok () => (.ok (), (state.removeDelivery completion.id).2)

/-! ### A session, its task and the broker -/

def maxPendingChannelOps : ℕ := 256

/-- How far the broker future of an operation has come.  Its request is with the worker of the topic when it
is submitted; a request that took effect is applied until its group is synced. -/
inductive Progress where
  | started
  | submitted
  | applied
  | answered (result : Except BrokerError Unit)

/-- The worker of the topic has the request and has not answered it. -/
def Progress.withWorker : Progress → Bool
  | .submitted | .applied => true
  | .started | .answered _ => false

/-- The session serves its client, waits for completions, has none left to wait for, has aborted its task,
or has released its deliveries. -/
inductive Phase where
  | serving
  | settling
  | drained
  | aborted
  | released (deliveries : List (ℕ × ℕ))

/-- The task of the session is there. -/
def Phase.TaskRuns : Phase → Prop
  | .serving | .settling | .drained => True
  | .aborted | .released _ => False

/-- The session looks at completions. -/
def Phase.Listens : Phase → Prop
  | .serving | .settling => True
  | .drained | .aborted | .released _ => False

/-- `operations` and `completions` are the queues to and from the task, `running` the broker futures that it
polls, and `active` the ids that it shares with the session.  When the task is aborted its futures are
dropped: `running` has then the requests that the worker of the topic got from them, and `dropped` the
others.  The session does not keep that field and the last two: the deliveries that it has taken from the
broker, and the id and the token of those whose deadline passed. -/
structure Connection where
  traffic : Traffic
  state : SessionState
  operations : List ChannelOp
  running : List (ChannelOp × Progress)
  dropped : List (ChannelOp × Progress)
  active : Finset ℕ
  completions : List ChannelOpCompletion
  phase : Phase
  taken : List Delivery
  expired : List (ℕ × ℕ)

/-- A command about a delivery. -/
inductive DeliveryCommand where
  | finish (id : ℕ)
  | requeue (id : ℕ) (delayMs : ℤ)
  | touch (id : ℕ)

structure ConnectionLimits where
  channel : String
  capacity : ℕ
  maxDeferMs : ℕ

namespace Connection

def initial (traffic : Traffic) : Connection :=
  ⟨traffic, ⟨∅, ∅, ∅⟩, [], [], [], ∅, [], .serving, [], []⟩

variable (connection : Connection) (limits : ConnectionLimits)

/-- The queue to the task has room for every delivery of the session. -/
def send (operation : ChannelOp) : Except BrokerError Connection :=
  if connection.operations.length < max limits.capacity 1 then
    .ok { connection with operations := connection.operations ++ [operation] }
  else .error .channelWorkerLimit

/-- A delivery of a fetch is recorded. -/
def accept (delivery : Delivery) (deadline : ℕ) : Connection :=
  { connection with
    state := connection.state.recordDelivery delivery.id ⟨deadline, delivery.token⟩
    taken := delivery :: connection.taken }

def markPending (id : ℕ) : Connection :=
  { connection with state := connection.state.markChannelOperationPending id }

def setDeadline (id : ℕ) (delivery : InFlightDelivery) (deadline : ℕ) : Connection :=
  { connection with state := connection.state.recordDelivery id { delivery with deadline := deadline } }

/-- A delivery that is not part of the sample is finished without being sent. -/
def finishSampled (delivery : Delivery) (deadline : ℕ) : Except BrokerError Connection := do
  let connection ← connection.send limits (.finish delivery.id delivery.token true)
  pure ((connection.accept delivery deadline).markPending delivery.id)

/-- The part of a FIN or REQ after the subscription was looked up.  `renewed` is the answer of the broker to
the touch that comes first. -/
def operate (code : String) (id : ℕ) (operation : ℕ → ChannelOp) (renewed : Except BrokerError ℕ) :
    Option ApiError × Connection :=
  match connection.state.deliveryForOperation id with
  | none => (some ⟨code, "message is not in flight"⟩, connection)
  | some delivery =>
    match renewed with
    | .error error => (some ⟨code, brokerErrorText error⟩, connection)
    | .ok deadline =>
      match connection.send limits (operation delivery.token) with
      | .error error => (some ⟨code, brokerErrorText error⟩, connection)
      | .ok connection => (none, (connection.setDeadline id delivery deadline).markPending id)

def process (renewed : Except BrokerError ℕ) : DeliveryCommand → Option ApiError × Connection
  | .finish id => connection.operate limits "E_FIN_FAILED" id (fun token => .finish id token false) renewed
  | .requeue id delayMs =>
    let delayMs := (max 0 (min delayMs limits.maxDeferMs)).toNat
    connection.operate limits "E_REQ_FAILED" id (fun token => .requeue id token delayMs) renewed
  | .touch id =>
    match connection.state.deliveryForOperation id with
    | none => (some ⟨"E_TOUCH_FAILED", "message is not in flight"⟩, connection)
    | some delivery =>
      match renewed with
      | .error error => (some ⟨"E_TOUCH_FAILED", brokerErrorText error⟩, connection)
      | .ok deadline => (none, connection.setDeadline id delivery deadline)

/-- The deadlines of the session that have passed at `now`. -/
def expire (now : ℕ) : Connection :=
  let state := (connection.state.expireClientDeadlines now).2
  { connection with
    state := state
    expired := connection.expired ++ ((connection.state.inFlight.toList.filter fun entry =>
      state.inFlight[entry.1]?.isNone).map fun entry => (entry.1, entry.2.token)) }

/-- The end of the session: the deliveries without an active operation are released. -/
def release : Connection :=
  let deliveries := SessionState.releaseableInFlightDeliveries connection.state.inFlight connection.active
  { connection with
    traffic :=
      if deliveries.isEmpty then connection.traffic
      else { connection.traffic with
        topic := connection.traffic.topic.releaseWithTokens limits.channel deliveries }
    phase := .released deliveries }

end Connection

/-- What the broker, the session or its task does between two awaits.  The worker of the topic goes on with
the requests that it has when the task is aborted. -/
inductive Advance (limits : ConnectionLimits) : Connection → Connection → Prop
  | broker {c : Connection} {traffic : Traffic} (step : Broker.Step c.traffic traffic) :
      Advance limits c { c with traffic := traffic }
  | deliver {c : Connection} (serving : c.phase = .serving) (delivery : Delivery) (deadline : ℕ)
      (issued : delivery ∈ c.traffic.issued) (subscribed : delivery.channel = limits.channel)
      (outstanding : delivery.id ∉ c.state.inFlight) :
      Advance limits c (c.accept delivery deadline)
  | sample {c c' : Connection} (serving : c.phase = .serving) (delivery : Delivery) (deadline : ℕ)
      (issued : delivery ∈ c.traffic.issued) (subscribed : delivery.channel = limits.channel)
      (outstanding : delivery.id ∉ c.state.inFlight)
      (result : c.finishSampled limits delivery deadline = .ok c') : Advance limits c c'
  | handedOff {c : Connection} (serving : c.phase = .serving) (id deadline : ℕ)
      (delivery : InFlightDelivery) (found : c.state.inFlight[id]? = some delivery) :
      Advance limits c (c.setDeadline id delivery (min deadline delivery.deadline))
  | command {c : Connection} (serving : c.phase = .serving) (renewed : Except BrokerError ℕ)
      (command : DeliveryCommand) : Advance limits c (c.process limits renewed command).2
  | expire {c : Connection} (serving : c.phase = .serving) (now : ℕ) : Advance limits c (c.expire now)
  | receive {c : Connection} {completion : ChannelOpCompletion} {rest : List ChannelOpCompletion}
      (listens : c.phase.Listens) (waiting : c.state.pendingChannelOps.Nonempty)
      (next : c.completions = completion :: rest) :
      Advance limits c { c with
        state := (applyChannelOpCompletion completion c.state).2
        completions := rest }
  | start {c : Connection} {operation : ChannelOp} {rest : List ChannelOp} (runs : c.phase.TaskRuns)
      (room : c.running.length < maxPendingChannelOps) (next : c.operations = operation :: rest) :
      Advance limits c { c with
        operations := rest
        running := c.running ++ [(operation, .started)]
        active := insert operation.id c.active }
  | submit {c : Connection} {operation : ChannelOp} {before after : List (ChannelOp × Progress)}
      (runs : c.phase.TaskRuns) (polled : c.running = before ++ (operation, .started) :: after) :
      Advance limits c { c with running := before ++ (operation, .submitted) :: after }
  | fail {c : Connection} {operation : ChannelOp} {before after : List (ChannelOp × Progress)}
      (error : BrokerError) (runs : c.phase.TaskRuns)
      (polled : c.running = before ++ (operation, .started) :: after) :
      Advance limits c { c with running := before ++ (operation, .answered (.error error)) :: after }
  | execute {c : Connection} {operation : ChannelOp} {before after : List (ChannelOp × Progress)}
      {topic : Topic} {writes : List Write} (nowMs nowNs : ℤ)
      (queued : c.running = before ++ (operation, .submitted) :: after)
      (result : (operation.request limits.channel nowMs).execute c.traffic.topic nowNs =
        .ok (topic, writes)) :
      Advance limits c { c with
        traffic := { c.traffic with topic := topic, settled := operation.token :: c.traffic.settled }
        running := before ++ (operation, .applied) :: after }
  | refuse {c : Connection} {operation : ChannelOp} {before after : List (ChannelOp × Progress)}
      (error : BrokerError) (queued : c.running = before ++ (operation, .submitted) :: after) :
      Advance limits c { c with running := before ++ (operation, .answered (.error error)) :: after }
  | answer {c : Connection} {operation : ChannelOp} {before after : List (ChannelOp × Progress)}
      (result : Except BrokerError Unit)
      (applied : c.running = before ++ (operation, .applied) :: after) :
      Advance limits c { c with running := before ++ (operation, .answered result) :: after }
  | complete {c : Connection} {operation : ChannelOp} {before after : List (ChannelOp × Progress)}
      {result : Except BrokerError Unit} (runs : c.phase.TaskRuns)
      (answered : c.running = before ++ (operation, .answered result) :: after) :
      Advance limits c { c with
        running := before ++ after
        active := c.active.erase operation.id
        completions := c.completions ++ [⟨operation.id, operation.kind, result⟩] }
  | close {c : Connection} (serving : c.phase = .serving) : Advance limits c { c with phase := .settling }
  | settled {c : Connection} (settling : c.phase = .settling) (done : c.state.pendingChannelOps = ∅) :
      Advance limits c { c with phase := .drained }
  | abort {c : Connection} (settling : c.phase = .settling) :
      Advance limits c { c with
        operations := []
        running := c.running.filter (·.2.withWorker)
        dropped := c.running.filter (!·.2.withWorker)
        phase := .aborted }
  | release {c : Connection}
      (ended : c.phase = .drained ∧ c.operations = [] ∧ c.running = [] ∨ c.phase = .aborted) :
      Advance limits c (c.release limits)

/-- A connection at some time after its client has subscribed. -/
inductive Reached (limits : ConnectionLimits) : Connection → Prop
  | initial (traffic : Traffic) (reachable : Broker.Reachable traffic) :
      Reached limits (.initial traffic)
  | advance {c c' : Connection} (reached : Reached limits c) (step : Advance limits c c') :
      Reached limits c'

/-! ### What holds of a connection -/

variable (state : SessionState)

/-- The token under which the session holds a delivery. -/
def SessionState.heldToken (id : ℕ) : Option ℕ :=
  state.inFlight[id]?.map InFlightDelivery.token

/-- The operation is about a delivery of the session, which is pending. -/
def SessionState.Holds (operation : ChannelOp) : Prop :=
  operation.id ∈ state.pendingChannelOps ∧ state.heldToken operation.id = some operation.token

/-- The request is known to have taken effect. -/
def Progress.TookEffect : Progress → Prop
  | .applied | .answered (.ok _) => True
  | .started | .submitted | .answered (.error _) => False

/-- The broker future of an operation on the delivery was there when the task ended, or is there. -/
def Connection.HadFuture (c : Connection) (id : ℕ) : Prop :=
  ∃ entry ∈ c.running ++ c.dropped, entry.1.id = id

/-- The ids of the operations on their way through the task. -/
def Connection.pipeline (c : Connection) : List ℕ :=
  c.operations.map ChannelOp.id ++ (c.running.map fun entry => entry.1.id) ++
    c.completions.map ChannelOpCompletion.id

/-- An operation is on its way at most once for each delivery; the ids of the broker futures, dropped or not,
are the active ones; what was taken and is in flight under its token is kept by the session until its deadline passes. -/
structure Kept (c : Connection) : Prop where
  booked : Booked c.state
  broker : Broker.Inv c.traffic
  once : c.pipeline.Nodup
  queued : ∀ operation ∈ c.operations, c.state.Holds operation
  futures : ∀ entry ∈ c.running, c.state.Holds entry.1 ∧
    (entry.2.TookEffect → entry.1.token ∈ c.traffic.settled)
  completed : ∀ completion ∈ c.completions, completion.id ∈ c.state.pendingChannelOps ∧
    (completion.result = .ok () →
      ∃ token ∈ c.traffic.settled, c.state.heldToken completion.id = some token)
  active : ∀ id, id ∈ c.active ↔ c.HadFuture id
  none_dropped : c.phase.TaskRuns → c.dropped = []
  taken : ∀ delivery ∈ c.taken, delivery ∈ c.traffic.issued ∧
    (delivery.InFlight c.traffic.topic → c.state.heldToken delivery.id = some delivery.token ∨
      (delivery.id, delivery.token) ∈ c.expired)
  stopped : ¬c.phase.TaskRuns → c.operations = []
  released : ∀ deliveries, c.phase = .released deliveries → ∀ id token,
    (id, token) ∈ deliveries ↔ c.state.heldToken id = some token ∧ id ∉ c.active

section Steps

variable {limits : ConnectionLimits} {c c' : Connection}

theorem heldToken_recordDelivery (id id' : ℕ) (delivery : InFlightDelivery) :
    (state.recordDelivery id delivery).heldToken id' =
      if id = id' then some delivery.token else state.heldToken id' := by
  unfold SessionState.heldToken SessionState.recordDelivery
  dsimp only
  rw [getElem?_insert_eq]
  split_ifs <;> rfl

theorem mem_inFlight_of_heldToken {state : SessionState} {id token : ℕ}
    (h : state.heldToken id = some token) : id ∈ state.inFlight := by
  obtain ⟨delivery, hget, -⟩ := Option.map_eq_some_iff.1 h
  rw [ExtTreeMap.mem_iff_isSome_getElem?, hget]
  rfl

theorem inFlight_markChannelOperationPending (id : ℕ) :
    (state.markChannelOperationPending id).inFlight = state.inFlight := by
  unfold SessionState.markChannelOperationPending
  split_ifs <;> rfl

theorem pending_markChannelOperationPending (id : ℕ) :
    (state.markChannelOperationPending id).pendingChannelOps = insert id state.pendingChannelOps := by
  unfold SessionState.markChannelOperationPending
  by_cases h : id ∈ state.pendingChannelOps
  · rw [if_pos h, Finset.insert_eq_of_mem h]
  · rw [if_neg h]

theorem settled_subset {w w' : Traffic} (step : Broker.Step w w') {token : ℕ}
    (h : token ∈ w.settled) : token ∈ w'.settled := by
  rcases step.kinds with ⟨_, _, -, -, rfl⟩ | ⟨_, _, _, -, rfl⟩ |
    ⟨_, _, _, _, _, _, _, _, -, -, -, -, -, rfl⟩
  · exact h
  · exact List.mem_append_right _ h
  · exact h

theorem initial_kept {traffic : Traffic} (h : Broker.Reachable traffic) (hwrap : traffic.draws ≤ 2 ^ 64) :
    Kept (.initial traffic) where
  booked := .initial
  broker := h.inv hwrap
  once := List.nodup_nil
  queued := fun _ hmem => nomatch hmem
  futures := fun _ hmem => nomatch hmem
  completed := fun _ hmem => nomatch hmem
  active := fun id => by simp [Connection.initial, Connection.HadFuture]
  none_dropped := fun _ => rfl
  taken := fun _ hmem => nomatch hmem
  stopped := fun _ => rfl
  released := fun _ hphase => nomatch hphase

theorem Kept.traffic {traffic : Traffic} (h : Kept c) (step : Broker.Step c.traffic traffic)
    (hwrap : traffic.draws ≤ 2 ^ 64) : Kept { c with traffic := traffic } where
  booked := h.booked
  broker := h.broker.step step hwrap
  once := h.once
  queued := h.queued
  futures := fun entry hmem => ⟨(h.futures entry hmem).1, fun htook =>
    settled_subset step ((h.futures entry hmem).2 htook)⟩
  completed := fun completion hmem => by
    refine ⟨(h.completed completion hmem).1, fun hok => ?_⟩
    obtain ⟨token, hsettled, htoken⟩ := (h.completed completion hmem).2 hok
    exact ⟨token, settled_subset step hsettled, htoken⟩
  active := h.active
  none_dropped := h.none_dropped
  taken := fun delivery hmem => by
    obtain ⟨hissued, hheld⟩ := h.taken delivery hmem
    by_cases hflight : delivery.InFlight c.traffic.topic
    · refine ⟨?_, fun _ => hheld hflight⟩
      rcases step.kinds with ⟨_, _, -, -, rfl⟩ | ⟨_, _, _, -, rfl⟩ |
        ⟨_, _, _, _, _, _, _, _, -, -, -, -, -, rfl⟩
      · exact hissued
      · exact hissued
      · exact List.mem_append_right _ hissued
    · obtain ⟨hissued', hended⟩ := h.broker.step_ended step hwrap hissued hflight
      exact ⟨hissued', fun hflight' => absurd hflight' hended⟩
  stopped := h.stopped
  released := h.released

/-- The session changes its own collections while it serves or settles: the deliveries of the operations
that are on their way stay as they are. -/
theorem Kept.restate {state : SessionState} {completions : List ChannelOpCompletion}
    {expired : List (ℕ × ℕ)} (h : Kept c) (hbooked : Booked state) (hlistens : c.phase.Listens)
    (hcompletions : completions.Sublist c.completions)
    (hpipeline : ∀ id ∈ Connection.pipeline { c with completions := completions },
      id ∈ c.state.pendingChannelOps →
        id ∈ state.pendingChannelOps ∧ state.heldToken id = c.state.heldToken id)
    (hexpired : ∀ pair ∈ c.expired, pair ∈ expired)
    (htaken : ∀ delivery ∈ c.taken, delivery.InFlight c.traffic.topic →
      c.state.heldToken delivery.id = some delivery.token →
        state.heldToken delivery.id = some delivery.token ∨ (delivery.id, delivery.token) ∈ expired) :
    Kept { c with state := state, completions := completions, expired := expired } where
  booked := hbooked
  broker := h.broker
  once := h.once.sublist ((List.Sublist.refl _).append (hcompletions.map _))
  queued := by
    intro operation hmem
    obtain ⟨hpending, htoken⟩ := h.queued operation hmem
    obtain ⟨hpending', hsame⟩ := hpipeline operation.id
      (List.mem_append_left _ (List.mem_append_left _ (List.mem_map_of_mem hmem))) hpending
    exact ⟨hpending', hsame.trans htoken⟩
  futures := by
    intro entry hmem
    obtain ⟨⟨hpending, htoken⟩, htook⟩ := h.futures entry hmem
    obtain ⟨hpending', hsame⟩ := hpipeline entry.1.id (List.mem_append_left _
      (List.mem_append_right _ (List.mem_map.2 ⟨entry, hmem, rfl⟩))) hpending
    exact ⟨⟨hpending', hsame.trans htoken⟩, htook⟩
  completed := by
    intro completion hmem
    obtain ⟨hpending, hok⟩ := h.completed completion (hcompletions.subset hmem)
    obtain ⟨hpending', hsame⟩ := hpipeline completion.id
      (List.mem_append_right _ (List.mem_map_of_mem hmem)) hpending
    refine ⟨hpending', fun hresult => ?_⟩
    obtain ⟨token, hsettled, htoken⟩ := hok hresult
    exact ⟨token, hsettled, hsame.trans htoken⟩
  active := h.active
  none_dropped := h.none_dropped
  taken := by
    intro delivery hmem
    obtain ⟨hissued, hheld⟩ := h.taken delivery hmem
    refine ⟨hissued, fun hflight => ?_⟩
    rcases hheld hflight with htoken | hgone
    · exact htaken delivery hmem hflight htoken
    · exact Or.inr (hexpired _ hgone)
  stopped := h.stopped
  released := by
    intro deliveries hphase
    change c.phase = _ at hphase
    rw [hphase] at hlistens
    exact hlistens.elim

theorem Kept.pending_of_mem_pipeline (h : Kept c) {id : ℕ} (hmem : id ∈ c.pipeline) :
    id ∈ c.state.pendingChannelOps := by
  rcases List.mem_append.1 hmem with hmem | hmem
  · rcases List.mem_append.1 hmem with hmem | hmem
    · obtain ⟨operation, hqueued, rfl⟩ := List.mem_map.1 hmem
      exact (h.queued operation hqueued).1
    · obtain ⟨entry, hrunning, rfl⟩ := List.mem_map.1 hmem
      exact (h.futures entry hrunning).1.1
  · obtain ⟨completion, hcompleted, rfl⟩ := List.mem_map.1 hmem
    exact (h.completed completion hcompleted).1

theorem Kept.setDeadline (h : Kept c) (hserving : c.phase = .serving) {id : ℕ}
    (hget : c.state.inFlight[id]? = some delivery) (deadline : ℕ) :
    Kept (c.setDeadline id delivery deadline) := by
  have hsame : ∀ id', (c.state.recordDelivery id { delivery with deadline := deadline }).heldToken id' =
      c.state.heldToken id' := by
    intro id'
    rw [heldToken_recordDelivery]
    by_cases heq : id = id'
    · subst heq
      rw [if_pos rfl, SessionState.heldToken, hget]
      rfl
    · rw [if_neg heq]
  exact h.restate (h.booked.recordDelivery id _) (by rw [hserving]; trivial) (List.Sublist.refl _)
    (fun id' _ hpending => ⟨hpending, hsame id'⟩) (fun _ hmem => hmem)
    fun delivery' _ _ htoken => Or.inl ((hsame _).trans htoken)

theorem Kept.accept (h : Kept c) (hserving : c.phase = .serving) {delivery : Delivery}
    (hissued : delivery ∈ c.traffic.issued) (houtstanding : delivery.id ∉ c.state.inFlight)
    (deadline : ℕ) : Kept (c.accept delivery deadline) := by
  have hothers : ∀ id ∈ c.state.inFlight,
      (c.state.recordDelivery delivery.id ⟨deadline, delivery.token⟩).heldToken id =
        c.state.heldToken id := by
    intro id hmem
    rw [heldToken_recordDelivery, if_neg]
    rintro rfl
    exact houtstanding hmem
  have hkept := h.restate (h.booked.recordDelivery delivery.id ⟨deadline, delivery.token⟩)
    (by rw [hserving]; trivial) (List.Sublist.refl _)
    (fun id _ hpending => ⟨hpending, hothers id (h.booked.pending id hpending)⟩) (fun _ hmem => hmem)
    fun delivery' _ _ htoken =>
      Or.inl ((hothers _ (mem_inFlight_of_heldToken htoken)).trans htoken)
  refine { hkept with taken := fun delivery' hmem => ?_ }
  rcases List.mem_cons.1 hmem with rfl | hmem
  · refine ⟨hissued, fun _ => Or.inl ?_⟩
    exact (heldToken_recordDelivery _ _ _ _).trans (if_pos rfl)
  · exact hkept.taken delivery' hmem

variable {operation : ChannelOp}

theorem Kept.enqueue (h : Kept c) (hserving : c.phase = .serving)
    (hfree : operation.id ∉ c.state.pendingChannelOps)
    (htoken : c.state.heldToken operation.id = some operation.token) :
    Kept { c with
      operations := c.operations ++ [operation]
      state := c.state.markChannelOperationPending operation.id } := by
  have hsame : ∀ id, (c.state.markChannelOperationPending operation.id).heldToken id =
      c.state.heldToken id := by
    intro id
    rw [SessionState.heldToken, inFlight_markChannelOperationPending, SessionState.heldToken]
  have hpending : ∀ id ∈ c.state.pendingChannelOps,
      id ∈ (c.state.markChannelOperationPending operation.id).pendingChannelOps := by
    intro id hmem
    rw [pending_markChannelOperationPending]
    exact Finset.mem_insert_of_mem hmem
  have hkept := h.restate
    (h.booked.markChannelOperationPending (mem_inFlight_of_heldToken htoken))
    (by rw [hserving]; trivial) (List.Sublist.refl _)
    (fun id _ hmem => ⟨hpending id hmem, hsame id⟩) (fun _ hmem => hmem)
    fun delivery _ _ hheld => Or.inl ((hsame _).trans hheld)
  refine { hkept with once := ?_, queued := fun operation' hmem => ?_, stopped := fun hstopped => ?_ }
  · have hperm : (Connection.pipeline { c with
        operations := c.operations ++ [operation]
        state := c.state.markChannelOperationPending operation.id }).Perm
        (operation.id :: c.pipeline) := by
      unfold Connection.pipeline
      rw [List.map_append, List.append_assoc, List.append_assoc, List.append_assoc]
      exact List.perm_middle
    exact hperm.nodup_iff.2 (List.nodup_cons.2
      ⟨fun hmem => hfree (h.pending_of_mem_pipeline hmem), h.once⟩)
  · rcases List.mem_append.1 hmem with hmem | hmem
    · exact hkept.queued operation' hmem
    · rw [List.mem_singleton.1 hmem]
      refine ⟨?_, (hsame _).trans htoken⟩
      rw [pending_markChannelOperationPending]
      exact Finset.mem_insert_self _ _
  · exact absurd (show c.phase.TaskRuns by rw [hserving]; trivial) hstopped

theorem Kept.expire (h : Kept c) (hserving : c.phase = .serving) (now : ℕ) : Kept (c.expire now) := by
  obtain ⟨hbooked, hpending, hleft⟩ := h.booked.expireClientDeadlines now
  refine h.restate hbooked (by rw [hserving]; trivial) (List.Sublist.refl _)
    (fun id _ hmem => ⟨hpending ▸ hmem, ?_⟩) (fun _ hmem => List.mem_append_left _ hmem)
    fun delivery _ _ htoken => ?_
  · rcases hleft id with hsame | ⟨-, hnot, -⟩
    · rw [SessionState.heldToken, hsame, SessionState.heldToken]
    · exact absurd hmem hnot
  · rcases hleft delivery.id with hsame | ⟨hgone, -, -⟩
    · left
      rw [SessionState.heldToken, hsame]
      exact htoken
    · right
      obtain ⟨entry, hget, hentry⟩ := Option.map_eq_some_iff.1 htoken
      refine List.mem_append_right _ (List.mem_map.2 ⟨(delivery.id, entry), ?_, by rw [hentry]⟩)
      refine List.mem_filter.2 ⟨ExtTreeMap.mem_toList_iff_getElem?_eq_some.2 hget, ?_⟩
      dsimp only
      rw [hgone]
      rfl

/-- What a completion does to the collections: its id is pending no more, and a delivery that was settled is
gone. -/
theorem applyChannelOpCompletion_rule (completion : ChannelOpCompletion) {state : SessionState}
    (h : Booked state) :
    Booked (applyChannelOpCompletion completion state).2 ∧
      (applyChannelOpCompletion completion state).2.pendingChannelOps =
        state.pendingChannelOps.erase completion.id ∧
      ∀ id, (applyChannelOpCompletion completion state).2.heldToken id = state.heldToken id ∨
        id = completion.id ∧ completion.result = .ok () := by
  unfold applyChannelOpCompletion
  cases hresult : completion.result with
  | error error =>
    refine ⟨h.restore completion.id, ?_⟩
    dsimp only
    unfold SessionState.restoreDeliveryDeadline
    dsimp only
    rw [if_neg (Finset.notMem_erase _ _)]
    split <;> exact ⟨rfl, fun id => Or.inl rfl⟩
  | ok done =>
    refine ⟨h.remove completion.id, ?_⟩
    dsimp only
    unfold SessionState.removeDelivery
    dsimp only
    cases hget : state.inFlight[completion.id]? with
    | none => exact ⟨rfl, fun id => Or.inl rfl⟩
    | some delivery =>
      refine ⟨rfl, fun id => ?_⟩
      by_cases heq : completion.id = id
      · exact Or.inr ⟨heq.symm, rfl⟩
      · left
        unfold SessionState.heldToken
        dsimp only
        rw [getElem?_erase_eq, if_neg heq]

theorem Kept.receive (h : Kept c) (hlistens : c.phase.Listens) {completion : ChannelOpCompletion}
    {rest : List ChannelOpCompletion} (hnext : c.completions = completion :: rest) :
    Kept { c with
      state := (applyChannelOpCompletion completion c.state).2
      completions := rest } := by
  obtain ⟨hbooked, hpending, hheld⟩ := applyChannelOpCompletion_rule completion h.booked
  have hcompletion : completion ∈ c.completions := by
    rw [hnext]
    exact List.mem_cons_self
  -- the other operations are about other deliveries
  have hothers : ∀ id ∈ Connection.pipeline { c with completions := rest }, id ≠ completion.id := by
    have honce := h.once
    unfold Connection.pipeline at honce
    rw [hnext, List.map_cons, List.nodup_middle, List.nodup_cons] at honce
    intro id hmem heq
    exact honce.1 (heq ▸ hmem)
  refine h.restate hbooked hlistens (by rw [hnext]; exact List.sublist_cons_self _ _)
    (fun id hmem hid => ?_) (fun _ hmem => hmem) fun delivery hmem hflight htoken => ?_
  · have hne := hothers id hmem
    refine ⟨?_, (hheld id).resolve_right fun hdone => hne hdone.1⟩
    rw [hpending]
    exact Finset.mem_erase.2 ⟨hne, hid⟩
  · rcases hheld delivery.id with hsame | ⟨hid, hok⟩
    · exact Or.inl (hsame.trans htoken)
    · -- the delivery was settled, so that it is not in flight under its token
      obtain ⟨token, hsettled, hcompleted⟩ := (h.completed completion hcompletion).2 hok
      rw [hid, hcompleted] at htoken
      cases htoken
      obtain ⟨entry, hp, hentry, -⟩ := hflight
      exact absurd hentry (h.broker.ended _ hsettled _ _ _ hp)

theorem Kept.start (h : Kept c) (hruns : c.phase.TaskRuns) {rest : List ChannelOp}
    (hnext : c.operations = operation :: rest) :
    Kept { c with
      operations := rest
      running := c.running ++ [(operation, .started)]
      active := insert operation.id c.active } := by
  have hrest : ∀ other ∈ rest, other ∈ c.operations := by
    intro other hmem
    rw [hnext]
    exact List.mem_cons_of_mem _ hmem
  refine { h with
    once := ?_
    queued := fun other hmem => h.queued other (hrest other hmem)
    futures := fun entry hmem => ?_
    active := fun id => ?_
    stopped := fun hstopped => absurd hruns hstopped
    released := fun deliveries hphase => ?_ }
  · have honce := h.once
    unfold Connection.pipeline at honce ⊢
    rw [hnext, List.map_cons, List.cons_append, List.cons_append] at honce
    refine List.Perm.nodup_iff ?_ |>.1 honce
    rw [List.map_append, List.append_assoc, List.append_assoc, List.append_assoc]
    exact List.perm_middle.symm.trans (List.Perm.append_left _ List.perm_middle.symm)
  · rcases List.mem_append.1 hmem with hmem | hmem
    · exact h.futures entry hmem
    · rw [List.mem_singleton.1 hmem]
      exact ⟨h.queued operation (by rw [hnext]; exact List.mem_cons_self), fun htook => htook.elim⟩
  · rw [Finset.mem_insert, h.active]
    simp only [Connection.HadFuture, List.mem_append, List.mem_singleton, or_and_right, exists_or,
      exists_eq_left]
    grind
  · change c.phase = _ at hphase
    rw [hphase] at hruns
    exact hruns.elim

/-- The future of an operation makes progress. -/
theorem Kept.progress (h : Kept c) {progress progress' : Progress}
    {before after : List (ChannelOp × Progress)}
    (hrunning : c.running = before ++ (operation, progress) :: after)
    (htook : progress'.TookEffect → operation.token ∈ c.traffic.settled) :
    Kept { c with running := before ++ (operation, progress') :: after } := by
  have hmem : ∀ entry ∈ before ++ (operation, progress') :: after,
      entry = (operation, progress') ∨ entry ∈ c.running := by
    intro entry hentry
    rw [hrunning]
    simp only [List.mem_append, List.mem_cons] at hentry ⊢
    tauto
  have hids : (before ++ (operation, progress') :: after).map (fun entry => entry.1.id) =
      c.running.map fun entry => entry.1.id := by
    rw [hrunning, List.map_append, List.map_append, List.map_cons, List.map_cons]
  refine { h with once := ?_, futures := fun entry hentry => ?_, active := fun id => ?_ }
  · unfold Connection.pipeline
    dsimp only
    rw [hids]
    exact h.once
  · rcases hmem entry hentry with rfl | hentry
    · refine ⟨(h.futures (operation, progress) ?_).1, htook⟩
      rw [hrunning]
      exact List.mem_append_right _ List.mem_cons_self
    · exact h.futures entry hentry
  · rw [h.active]
    unfold Connection.HadFuture
    rw [← List.mem_map, ← List.mem_map, List.map_append, List.map_append, hids]

theorem Kept.complete (h : Kept c) (hruns : c.phase.TaskRuns)
    {before after : List (ChannelOp × Progress)} {result : Except BrokerError Unit}
    (hanswered : c.running = before ++ (operation, .answered result) :: after) :
    Kept { c with
      running := before ++ after
      active := c.active.erase operation.id
      completions := c.completions ++ [⟨operation.id, operation.kind, result⟩] } := by
  have hentry : (operation, Progress.answered result) ∈ c.running := by
    rw [hanswered]
    exact List.mem_append_right _ List.mem_cons_self
  have hothers : ∀ entry ∈ before ++ after, entry ∈ c.running := by
    intro entry hmem
    rw [hanswered]
    simp only [List.mem_append, List.mem_cons] at hmem ⊢
    tauto
  -- the future is the only one for its delivery
  have hunique : operation.id ∉ (before ++ after).map fun entry => entry.1.id := by
    have honce := (h.once.of_append_left).of_append_right
    rw [hanswered, List.map_append, List.map_cons, List.nodup_middle, List.nodup_cons,
      ← List.map_append] at honce
    exact honce.1
  refine { h with
    once := ?_
    futures := fun entry hmem => h.futures entry (hothers entry hmem)
    completed := fun completion hmem => ?_
    active := fun id => ?_
    released := fun deliveries hphase => ?_ }
  · have honce := h.once
    unfold Connection.pipeline at honce ⊢
    refine List.Perm.nodup_iff ?_ |>.1 honce
    rw [hanswered, List.map_append, List.map_append, List.map_append, List.map_cons]
    simp only [List.append_assoc, List.cons_append]
    refine List.Perm.append_left _ (List.Perm.append_left _ ?_)
    rw [← List.append_assoc]
    exact (List.perm_append_singleton _ _).symm
  · rcases List.mem_append.1 hmem with hmem | hmem
    · exact h.completed completion hmem
    · rw [List.mem_singleton.1 hmem]
      obtain ⟨⟨hpending, htoken⟩, htook⟩ := h.futures _ hentry
      refine ⟨hpending, fun hok => ⟨operation.token, htook ?_, htoken⟩⟩
      change result = _ at hok
      rw [hok]
      trivial
  · unfold Connection.HadFuture
    rw [Finset.mem_erase, h.active, Connection.HadFuture, h.none_dropped hruns, List.append_nil,
      List.append_nil, hanswered]
    constructor
    · rintro ⟨hne, entry, hmem, hid⟩
      simp only [List.mem_append, List.mem_cons] at hmem
      rcases hmem with hmem | rfl | hmem
      · exact ⟨entry, List.mem_append_left _ hmem, hid⟩
      · exact absurd hid.symm hne
      · exact ⟨entry, List.mem_append_right _ hmem, hid⟩
    · rintro ⟨entry, hmem, rfl⟩
      refine ⟨fun heq => hunique (heq ▸ List.mem_map.2 ⟨entry, hmem, rfl⟩), entry, ?_, rfl⟩
      rw [← hanswered]
      exact hothers entry hmem
  · change c.phase = _ at hphase
    rw [hphase] at hruns
    exact hruns.elim

theorem Kept.phase {phase : Phase} (h : Kept c) (hran : c.phase.TaskRuns) (hruns : phase.TaskRuns) :
    Kept { c with phase := phase } where
  __ := h
  none_dropped := fun _ => h.none_dropped hran
  stopped := fun hstopped => absurd hruns hstopped
  released := by
    rintro deliveries rfl
    exact hruns.elim

theorem Kept.abort (h : Kept c) (hran : c.phase.TaskRuns) :
    Kept { c with
      operations := []
      running := c.running.filter (·.2.withWorker)
      dropped := c.running.filter (!·.2.withWorker)
      phase := .aborted } where
  __ := h
  once := by
    refine h.once.sublist ?_
    unfold Connection.pipeline
    rw [List.map_nil, List.nil_append, List.append_assoc]
    exact ((List.filter_sublist.map _).append (List.Sublist.refl _)).trans (List.sublist_append_right _ _)
  queued := fun _ hmem => nomatch hmem
  futures := fun entry hmem => h.futures entry (List.mem_of_mem_filter hmem)
  active := by
    intro id
    rw [h.active, Connection.HadFuture, h.none_dropped hran, List.append_nil]
    unfold Connection.HadFuture
    simp only [List.mem_append, List.mem_filter, ← and_or_left, Bool.not_eq_true',
      Bool.eq_false_or_eq_true, and_true]
  none_dropped := fun hruns => hruns.elim
  stopped := fun _ => rfl
  released := fun _ hphase => nomatch hphase

theorem Kept.release (h : Kept c) (hempty : c.operations = []) (hwrap : c.traffic.draws ≤ 2 ^ 64) :
    Kept (c.release limits) := by
  have htraffic : Kept { c with traffic := (c.release limits).traffic } := by
    unfold Connection.release
    dsimp only
    split_ifs
    · exact h
    · exact h.traffic (.call limits.channel (.release _) rfl) hwrap
  refine { htraffic with
    none_dropped := fun hruns => hruns.elim
    stopped := fun _ => hempty
    released := fun deliveries hphase id token => ?_ }
  cases hphase
  rw [SessionState.mem_releaseableInFlightDeliveries]
  exact and_congr_left fun _ => Option.map_eq_some_iff.symm

/-- What a command about a delivery does: nothing, a new deadline, or an operation in the queue. -/
theorem process_cases (renewed : Except BrokerError ℕ) (command : DeliveryCommand) :
    (c.process limits renewed command).2 = c ∨
      ∃ id delivery deadline, c.state.inFlight[id]? = some delivery ∧
        id ∉ c.state.pendingChannelOps ∧
        ((c.process limits renewed command).2 = c.setDeadline id delivery deadline ∨
          ∃ operation : ChannelOp, operation.id = id ∧ operation.token = delivery.token ∧
            (c.process limits renewed command).2 =
              { c with
                operations := c.operations ++ [operation]
                state := (c.setDeadline id delivery deadline).state.markChannelOperationPending id }) := by
  -- the part that FIN and REQ share
  have hoperate : ∀ code id (operation : ℕ → ChannelOp), (∀ token, (operation token).id = id) →
      (∀ token, (operation token).token = token) →
      (c.operate limits code id operation renewed).2 = c ∨
        ∃ delivery deadline, c.state.inFlight[id]? = some delivery ∧ id ∉ c.state.pendingChannelOps ∧
          (c.operate limits code id operation renewed).2 =
            { c with
              operations := c.operations ++ [operation delivery.token]
              state := (c.setDeadline id delivery deadline).state.markChannelOperationPending id } := by
    intro code id operation hid htoken
    unfold Connection.operate
    cases hdelivery : c.state.deliveryForOperation id with
    | none => exact Or.inl rfl
    | some delivery =>
      obtain ⟨hfree, hget⟩ := Option.ite_none_left_eq_some.1 hdelivery
      cases renewed with
      | error error => exact Or.inl rfl
      | ok deadline =>
        dsimp only
        unfold Connection.send
        split_ifs
        · exact Or.inr ⟨delivery, deadline, hget, hfree, rfl⟩
        · exact Or.inl rfl
  cases command with
  | finish id =>
    rcases hoperate "E_FIN_FAILED" id (fun token => .finish id token false) (fun _ => rfl)
      (fun _ => rfl) with hsame | ⟨delivery, deadline, hget, hfree, heq⟩
    · exact Or.inl hsame
    · exact Or.inr ⟨id, delivery, deadline, hget, hfree, Or.inr ⟨_, rfl, rfl, heq⟩⟩
  | requeue id delayMs =>
    rcases hoperate "E_REQ_FAILED" id
      (fun token => .requeue id token (max 0 (min delayMs limits.maxDeferMs)).toNat) (fun _ => rfl)
      (fun _ => rfl) with hsame | ⟨delivery, deadline, hget, hfree, heq⟩
    · exact Or.inl hsame
    · exact Or.inr ⟨id, delivery, deadline, hget, hfree, Or.inr ⟨_, rfl, rfl, heq⟩⟩
  | touch id =>
    unfold Connection.process
    dsimp only
    cases hdelivery : c.state.deliveryForOperation id with
    | none => exact Or.inl rfl
    | some delivery =>
      obtain ⟨hfree, hget⟩ := Option.ite_none_left_eq_some.1 hdelivery
      cases renewed with
      | error error => exact Or.inl rfl
      | ok deadline => exact Or.inr ⟨id, delivery, deadline, hget, hfree, Or.inl rfl⟩

/-- An operation for a delivery of the session, with a new deadline. -/
theorem Kept.operate (h : Kept c) (hserving : c.phase = .serving) {id deadline : ℕ}
    (hget : c.state.inFlight[id]? = some delivery) (hfree : id ∉ c.state.pendingChannelOps)
    (hid : operation.id = id) (htoken : operation.token = delivery.token) :
    Kept { c with
      operations := c.operations ++ [operation]
      state := (c.setDeadline id delivery deadline).state.markChannelOperationPending id } := by
  subst hid
  refine (h.setDeadline hserving hget deadline).enqueue hserving hfree ?_
  exact (heldToken_recordDelivery _ _ _ _).trans ((if_pos rfl).trans (by rw [htoken]))

theorem Advance.draws_le (step : Advance limits c c') : c.traffic.draws ≤ c'.traffic.draws := by
  cases step with
  | broker step => exact step.draws_le
  | sample serving delivery deadline issued subscribed outstanding result =>
    obtain ⟨sent, hsent, hresult⟩ := bind_eq_ok.1 result
    unfold Connection.send at hsent
    split_ifs at hsent
    cases hsent
    cases pure_eq_ok.1 hresult
    exact le_rfl
  | command serving renewed command =>
    rcases process_cases renewed command with heq | ⟨id, delivery, deadline, -, -, heq | ⟨_, -, -, heq⟩⟩ <;>
      exact (congrArg (fun c => c.traffic.draws) heq).ge
  | release ended =>
    unfold Connection.release
    dsimp only
    split_ifs <;> exact le_rfl
  | _ => exact le_rfl

/-- **One step** of broker, session or task. -/
theorem Kept.advance (h : Kept c) (step : Advance limits c c') (hwrap : c'.traffic.draws ≤ 2 ^ 64) :
    Kept c' := by
  have hbefore := step.draws_le.trans hwrap
  cases step with
  | broker step => exact h.traffic step hwrap
  | deliver serving delivery deadline issued subscribed outstanding =>
    exact h.accept serving issued outstanding deadline
  | sample serving delivery deadline issued subscribed outstanding result =>
    obtain ⟨sent, hsent, hresult⟩ := bind_eq_ok.1 result
    unfold Connection.send at hsent
    split_ifs at hsent
    cases hsent
    cases pure_eq_ok.1 hresult
    have hfree : delivery.id ∉ c.state.pendingChannelOps := fun hmem =>
      outstanding (h.booked.pending _ hmem)
    exact (h.accept serving issued outstanding deadline).enqueue serving
      (show (ChannelOp.finish delivery.id delivery.token true).id ∉ _ from hfree)
      ((heldToken_recordDelivery _ _ _ _).trans (if_pos rfl))
  | handedOff serving id deadline delivery found => exact h.setDeadline serving found _
  | command serving renewed command =>
    rcases process_cases renewed command with heq |
      ⟨id, delivery, deadline, hget, hfree, heq | ⟨operation, hid, htoken, heq⟩⟩
    · rw [heq]
      exact h
    · rw [heq]
      exact h.setDeadline serving hget deadline
    · rw [heq]
      exact h.operate serving hget hfree hid htoken
  | expire serving now => exact h.expire serving now
  | receive listens waiting next => exact h.receive listens next
  | start runs room next => exact h.start runs next
  | submit runs polled => exact h.progress polled fun htook => htook.elim
  | fail error runs polled => exact h.progress polled fun htook => htook.elim
  | @execute operation before after topic writes nowMs nowNs queued result =>
    have hflight : (operation.request limits.channel nowMs).operation.requiresInFlight := by
      cases operation <;> rfl
    have htoken : (operation.request limits.channel nowMs).operation.token = some operation.token := by
      cases operation <;> rfl
    have hstep := step_execute hflight result
    rw [htoken] at hstep
    exact (h.traffic hstep hwrap).progress queued fun _ => List.mem_cons_self
  | refuse error queued => exact h.progress queued fun htook => htook.elim
  | @answer operation before after result applied =>
    refine h.progress applied fun _ => (h.futures (operation, .applied) ?_).2 trivial
    rw [applied]
    exact List.mem_append_right _ List.mem_cons_self
  | complete runs answered => exact h.complete runs answered
  | close serving => exact h.phase (by rw [serving]; trivial) trivial
  | settled settling done => exact h.phase (by rw [settling]; trivial) trivial
  | abort settling => exact h.abort (by rw [settling]; trivial)
  | release ended =>
    refine h.release ?_ hbefore
    rcases ended with ⟨-, hempty, -⟩ | hphase
    · exact hempty
    · exact h.stopped (by rw [hphase]; exact fun hruns => hruns)

theorem Reached.kept (h : Reached limits c) (hwrap : c.traffic.draws ≤ 2 ^ 64) : Kept c := by
  induction h with
  | initial traffic reachable => exact initial_kept reachable hwrap
  | advance _ step ih => exact (ih (step.draws_le.trans hwrap)).advance step hwrap

end Steps

end RustQueue.Server.Leases
