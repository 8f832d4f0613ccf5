import RustQueue.Broker.Append

/-!
# Group commit of publishes

Publishes to a topic are queued to one worker, which appends them in groups.  A group is appended under
the topic lock, the log is synced or not as the acknowledgement mode says, and then the requests are
answered.  `collectGroup` forms a group and may leave one request over for the next, `commitPublishGroup`
appends and answers it, and `runWorker` is the loop of the worker.

Everything that may fail outside of this code is an argument (`PublishAround`): the health of the
storage, the metadata reservation, the lookup of the topic, management, the operating system at every
append, the spill, the sync, and the end of the task in the middle of its replies.

* `collectGroup_append`, `Bounded`: groups are slices of the queue, and small;
* `Appending.Sound`: the invariant of the loop over the requests of a group;
* `Commit.Truthful`: what a commit says is true, for every way in which a step may fail;
* `runWorker_truthful`: the same over all groups of a worker.
-/

namespace RustQueue.Broker

open Lib Storage Topic

def maxGroupRequests : ℕ := 64

def maxGroupBytes : ℕ := 8 * 1024 * 1024

inductive PublishAckMode where
  | durable
  | writeAck
  | nsqRelaxed
  deriving DecidableEq, Repr

def PublishAckMode.exposesUnsynced : PublishAckMode → Bool
  | .nsqRelaxed => true
  | .durable | .writeAck => false

abbrev PublishResult := Except BrokerError (List ℕ)

/-- A queued publish; `reply` is the channel on which its caller waits. -/
structure PublishRequest where
  reply : ℕ
  bodies : List (List UInt8)
  delayMs : ℕ
  encodedBytes : ℕ
  deriving DecidableEq, Repr

/-- What the caller of a publish gets: the reply, or an error when the reply channel was dropped. -/
def awaitReply : Option PublishResult → PublishResult
  | some result => result
  | none => .error .storageUnavailable

/-! ### Groups -/

/-- A group, the request that did not fit into it, and the queue behind it. -/
structure Collected where
  group : List PublishRequest
  carry : Option PublishRequest
  rest : List PublishRequest

/-- `received n` says whether a request comes in time when the group has `n` requests. -/
def collect (received : ℕ → Bool) : ℕ → List PublishRequest → List PublishRequest → Collected
  | _, group, [] => ⟨group, none, []⟩
  | bytes, group, next :: queue =>
    if maxGroupRequests ≤ group.length ∨ received group.length = false then
      ⟨group, none, next :: queue⟩
    else if maxGroupBytes < satAdd u64Max bytes next.encodedBytes then ⟨group, some next, queue⟩
    else collect received (satAdd u64Max bytes next.encodedBytes) (group ++ [next]) queue

variable (received : ℕ → Bool)

def collectGroup (first : PublishRequest) (queue : List PublishRequest) : Collected :=
  collect received first.encodedBytes [first] queue

/-- The limits of a group. -/
def Bounded (group : List PublishRequest) : Prop :=
  group.length ≤ maxGroupRequests ∧
    (group.length = 1 ∨ (group.map PublishRequest.encodedBytes).sum ≤ maxGroupBytes)

/-! ### Appending the requests of a group -/

/-- What one append meets.  A failure of the operating system may leave the record in the log. -/
structure AppendAround where
  clock : Clock
  instant : ℕ
  sequence : Sequence
  store : Except BrokerError Unit
  failure : Option (StorageError × Bool)

/-- The end of one append: the answer, the record if it was written, and the topic. -/
structure AppendEnd where
  answer : PublishResult
  written : Option PublishBatch
  topic : Topic

variable (settings : PublishSettings)

def appendRequest (around : AppendAround) (topic : Topic) (request : PublishRequest) : AppendEnd :=
  match prepareBatch settings topic request.bodies request.delayMs around.clock around.sequence
      around.store with
  | .error error => ⟨.error error, none, topic⟩
  | .ok batch =>
    match around.failure with
    | some (error, written) => ⟨.error (.storage error), if written then some batch else none, topic⟩
    | none =>
      match topic.writeBatch batch false with
      | .error error => ⟨.error error, some batch, topic⟩
      | .ok (topic, _) => ⟨.ok (batch.entries.map EncodedEntry.id), some batch, topic⟩

/-- The loop over a group.  `pending` are the requests that wait for the end of the group, and
`appended` is the history of the log: which requests were written, as which records. -/
structure Appending where
  topic : Topic
  replies : List (ℕ × PublishResult)
  pending : List (ℕ × List ℕ)
  appended : List (PublishRequest × PublishBatch)
  failed : Option BrokerError

def failPending (pending : List (ℕ × List ℕ)) : List (ℕ × PublishResult) :=
  pending.map fun entry => (entry.1, .error .storageUnavailable)

def failRequests (requests : List PublishRequest) (error : BrokerError) : List (ℕ × PublishResult) :=
  requests.map fun request => (request.reply, .error error.copyError)

def Appending.note (state : Appending) (request : PublishRequest) (written : Option PublishBatch) :
    Appending :=
  { state with appended := state.appended ++ written.toList.map (request, ·) }

/-- A storage error in the middle ends the group. -/
def Appending.abort (state : Appending) (request : PublishRequest) (error : BrokerError)
    (rest : List PublishRequest) : Appending :=
  { state with
    replies := state.replies ++ ((request.reply, .error error.copyError) ::
      (failPending state.pending ++ failRequests rest .storageUnavailable))
    pending := []
    failed := some error }

def appendRequests (around : ℕ → AppendAround) : ℕ → Appending → List PublishRequest → Appending
  | _, state, [] => state
  | n, state, request :: requests =>
    let append := appendRequest settings (around n) state.topic request
    let state := state.note request append.written
    match append.answer with
    | .ok ids =>
      appendRequests around (n + 1)
        { state with
          topic := append.topic.recordUnsynced (around n).instant request.bodies.length
            request.encodedBytes
          pending := state.pending ++ [(request.reply, ids)] }
        requests
    | .error error =>
      if error.isStorageError then state.abort request error requests
      else
        appendRequests around (n + 1)
          { state with replies := state.replies ++ [(request.reply, .error error)] } requests

/-! ### Committing a group -/

/-- What a commit meets.  While the log is synced the topic lock is free, but the commit gate is held,
and no operation that changes the log runs without it. -/
structure PublishAround where
  healthy : Bool
  metadata : Except BrokerError Unit
  handle : Except BrokerError Unit
  stillHealthy : Bool
  access : Except BrokerError Unit
  topic : Topic
  appends : ℕ → AppendAround
  overBudget : Bool
  spilled : Except BrokerError Unit
  cloned : Except BrokerError Unit
  synced : Except BrokerError Unit
  meanwhile : Topic → Topic
  meanwhile_log : ∀ topic, (meanwhile topic).log = topic.log
  refreshed : Except BrokerError Unit
  dies : Option ℕ

/-- The end of a commit: what was answered, what was written, the topic unless the storage failed, and
whether the worker goes on. -/
structure Commit where
  group : List PublishRequest
  before : Topic
  replies : List (ℕ × PublishResult)
  dropped : List ℕ
  appended : List (PublishRequest × PublishBatch)
  left : Option Topic
  continues : Bool

/-- A storage error ends the worker. -/
def workerResult (error : BrokerError) : Bool := !error.isStorageError

def PublishAround.spill (around : PublishAround) (topic : Topic) : Except BrokerError Topic :=
  if around.overBudget then do
    around.spilled
    let (topic, _) ← topic.spillMessageMetadata
    return topic
  else .ok topic

/-- The log is synced, or its messages are shown without that. -/
def PublishAround.sync (around : PublishAround) (mode : PublishAckMode) (topic : Topic) :
    Except BrokerError Topic :=
  match mode with
  | .durable => do
    let durableThrough := topic.lastPosition
    around.cloned
    around.synced
    let topic := around.meanwhile topic
    return { topic with log := topic.log.sync }.markDurableThrough durableThrough
  | .writeAck | .nsqRelaxed =>
    .ok (if mode.exposesUnsynced then topic.markDeliverableThrough topic.lastPosition else topic)

def PublishAround.settle (around : PublishAround) (mode : PublishAckMode) (topic : Topic) :
    Except BrokerError Topic := do
  let topic ← around.spill topic
  let topic ← around.sync mode topic
  around.refreshed
  return topic

/-- The checks before the topic lock, with whether the worker goes on after each. -/
def PublishAround.refusal (around : PublishAround) : Option (BrokerError × Bool) :=
  if around.healthy = false then some (.storageUnavailable, false)
  else
    match around.metadata, around.handle with
    | .error error, _ => some (error, workerResult error)
    | .ok (), .error error => some (error, workerResult error)
    | .ok (), .ok () =>
      if around.stillHealthy = false then some (.storageUnavailable, false)
      else
        match around.access with
        | .error error => some (error, true)
        | .ok () => none

variable (mode : PublishAckMode)

/-- The commit, as it ends if the task lives. -/
def commitGroup (around : PublishAround) (group : List PublishRequest) : Commit :=
  match around.refusal with
  | some (error, continues) =>
    ⟨group, around.topic, failRequests group error, [], [], some around.topic, continues⟩
  | none =>
    let state := appendRequests settings around.appends 0 ⟨around.topic, [], [], [], none⟩ group
    match state.failed with
    | some error =>
      ⟨group, around.topic, state.replies, [], state.appended, none, workerResult error⟩
    | none =>
      if state.pending = [] then
        ⟨group, around.topic, state.replies, [], state.appended, some state.topic, true⟩
      else
        match around.settle mode state.topic with
        | .error error =>
          ⟨group, around.topic, state.replies ++ failPending state.pending, [], state.appended, none,
            workerResult error⟩
        | .ok topic =>
          ⟨group, around.topic,
            state.replies ++ state.pending.map fun entry => (entry.1, .ok entry.2), [],
            state.appended, some topic, true⟩

/-- A task that dies has sent the first replies, and drops the other reply channels. -/
def Commit.die (commit : Commit) : Option ℕ → Commit
  | none => commit
  | some sent =>
    { commit with
      replies := commit.replies.take sent
      dropped := (commit.replies.drop sent).map Prod.fst
      continues := false }

def commitPublishGroup (around : PublishAround) (group : List PublishRequest) : Commit :=
  (commitGroup settings mode around group).die around.dies

/-! ### The worker -/

/-- One turn of the worker: a pending sync that succeeds or fails, or a group. -/
inductive WorkerTurn where
  | sync (succeeds : Bool)
  | commit (received : ℕ → Bool) (around : PublishAround)

def WorkerTurn.isCommit : WorkerTurn → Bool
  | .commit _ _ => true
  | .sync _ => false

/-- The groups of a worker, the requests that it drops when it ends, and whether it has returned. -/
structure WorkerRun where
  commits : List Commit
  left : List PublishRequest
  returned : Bool

/-- The worker takes the request that it carries over, and else the next one of the queue. -/
def runWorker (mode : PublishAckMode) :
    List WorkerTurn → Option PublishRequest → List PublishRequest → WorkerRun
  | [], carry, queue => ⟨[], carry.toList ++ queue, false⟩
  | .sync true :: turns, carry, queue => runWorker mode turns carry queue
  | .sync false :: _, carry, queue => ⟨[], carry.toList ++ queue, true⟩
  | .commit received around :: turns, carry, queue =>
    match carry.toList ++ queue with
    | [] => runWorker mode turns none []
    | first :: waiting =>
      let collected := collectGroup received first waiting
      let commit := commitPublishGroup settings mode around collected.group
      if commit.continues then
        let run := runWorker mode turns collected.carry collected.rest
        { run with commits := commit :: run.commits }
      else ⟨[commit], collected.carry.toList ++ collected.rest, true⟩

/-- What the callers of a group get. -/
def Commit.outcomes (commit : Commit) : List (ℕ × PublishResult) :=
  (commit.replies.map fun reply => (reply.1, awaitReply (some reply.2))) ++
    commit.dropped.map fun reply => (reply, awaitReply none)

/-- What the callers get in the end. -/
def WorkerRun.outcomes (run : WorkerRun) : List (ℕ × PublishResult) :=
  run.commits.flatMap Commit.outcomes ++
    run.left.map fun request => (request.reply, awaitReply none)

/-- The queue of a worker over its whole life.  Every publish waits on a channel of its own. -/
structure PublishQueue where
  requests : List PublishRequest
  distinct : (requests.map PublishRequest.reply).Nodup

/-! ### Groups are slices of the queue -/

theorem collect_append (bytes : ℕ) (group queue : List PublishRequest) :
    (collect received bytes group queue).group ++ (collect received bytes group queue).carry.toList ++
      (collect received bytes group queue).rest = group ++ queue := by
  induction queue generalizing bytes group with
  | nil => simp [collect]
  | cons next queue ih =>
    unfold collect
    split_ifs
    · simp
    · simp
    · rw [ih, List.append_assoc, List.singleton_append]

theorem collect_bounded {bytes : ℕ} {group : List PublishRequest} (queue : List PublishRequest)
    (hbytes : bytes = (group.map PublishRequest.encodedBytes).sum) (h : Bounded group) :
    Bounded (collect received bytes group queue).group := by
  induction queue generalizing bytes group with
  | nil => exact h
  | cons next queue ih =>
    unfold collect
    split_ifs with hstop hlarge
    · exact h
    · exact h
    · have hroom : group.length < maxGroupRequests := not_le.1 fun hle => hstop (Or.inl hle)
      -- a sum that saturates is above the limit
      have hsum : satAdd u64Max bytes next.encodedBytes = bytes + next.encodedBytes := by
        rw [maxGroupBytes] at hlarge
        unfold satAdd u64Max at hlarge ⊢
        omega
      have hnext : ((group ++ [next]).map PublishRequest.encodedBytes).sum = bytes + next.encodedBytes := by
        rw [hbytes, List.map_append, List.sum_append, List.map_singleton, List.sum_singleton]
      refine ih (hsum.trans hnext.symm) ⟨?_, Or.inr ?_⟩
      · rw [List.length_append, List.length_singleton]
        exact hroom
      · rw [hnext, ← hsum]
        exact not_lt.1 hlarge

theorem collectGroup_append (first : PublishRequest) (queue : List PublishRequest) :
    (collectGroup received first queue).group ++ ((collectGroup received first queue).carry.toList ++
      (collectGroup received first queue).rest) = first :: queue := by
  rw [← List.append_assoc]
  exact collect_append received _ [first] queue

theorem collectGroup_bounded (first : PublishRequest) (queue : List PublishRequest) :
    Bounded (collectGroup received first queue).group :=
  collect_bounded received queue (by simp) ⟨Nat.le_of_ble_eq_true rfl, Or.inl rfl⟩

theorem collect_length (bytes : ℕ) (group queue : List PublishRequest) :
    group.length ≤ (collect received bytes group queue).group.length := by
  induction queue generalizing bytes group with
  | nil => exact le_rfl
  | cons next queue ih =>
    unfold collect
    split_ifs
    · exact le_rfl
    · exact le_rfl
    · refine le_trans ?_ (ih _ _)
      rw [List.length_append]
      omega

/-! ### One append -/

variable {settings} {around : AppendAround} {topic : Topic} {request : PublishRequest}

/-- A publish that is answered with ids has its record at the end of the log. -/
theorem appendRequest_ok {ids : List ℕ} (h : (appendRequest settings around topic request).answer = .ok ids) :
    ∃ batch, (appendRequest settings around topic request).written = some batch ∧
      (appendRequest settings around topic request).topic.log.files.records =
        topic.log.files.records ++ [batch] ∧
      ids = batch.entries.map EncodedEntry.id ∧ IdsFor request.bodies ids ∧
      batch.entries.map EncodedEntry.body = request.bodies := by
  unfold appendRequest at h ⊢
  split at h
  · cases h
  · rename_i batch hprepare
    split at h
    · cases h
    · split at h
      · cases h
      · rename_i topic' writes hwrite
        cases h
        obtain ⟨hids, hbodies⟩ := prepareBatch_eq_ok hprepare
        exact ⟨batch, rfl, writeBatch_records hwrite, rfl, hids, hbodies⟩

variable {error : BrokerError}

theorem appendRequest_refused (h : (appendRequest settings around topic request).answer = .error error)
    (herror : error.isStorageError = false) :
    (appendRequest settings around topic request).written = none ∧
      (appendRequest settings around topic request).topic = topic := by
  unfold appendRequest at h ⊢
  split at h
  · exact ⟨rfl, rfl⟩
  · split at h
    · cases h
      cases herror
    · split at h
      · rename_i hwrite
        cases h
        rw [writeBatch_error hwrite] at herror
        cases herror
      · cases h

/-! ### The loop over a group -/

/-- The bodies of a request are in a record, under the ids of its answer. -/
def Recorded (appended : List (PublishRequest × PublishBatch)) (reply : ℕ) (ids : List ℕ) : Prop :=
  ∃ request batch, (request, batch) ∈ appended ∧ request.reply = reply ∧ IdsFor request.bodies ids ∧
    batch.entries.map EncodedEntry.id = ids ∧ batch.entries.map EncodedEntry.body = request.bodies

variable {reply : ℕ}

theorem Recorded.mono {appended appended' : List (PublishRequest × PublishBatch)} {ids : List ℕ}
    (h : Recorded appended reply ids) (hsub : appended ⊆ appended') : Recorded appended' reply ids := by
  obtain ⟨request, batch, hmem, hrest⟩ := h
  exact ⟨request, batch, hsub hmem, hrest⟩

/-- What holds after the requests `done` of a group. -/
structure Appending.Sound (before : Topic) (done : List PublishRequest) (state : Appending) : Prop where
  answers : (state.replies.map Prod.fst ++ state.pending.map Prod.fst).Perm
    (done.map PublishRequest.reply)
  failures : ∀ reply result, (reply, result) ∈ state.replies → ∃ error, result = .error error
  order : (state.appended.map Prod.fst).Sublist done
  recorded : ∀ entry ∈ state.pending, Recorded state.appended entry.1 entry.2
  log : state.failed = none →
    state.topic.log.files.records = before.log.files.records ++ state.appended.map Prod.snd
  refused : ∀ reply error, (reply, .error error) ∈ state.replies → error.isStorageError = false →
    ∀ entry ∈ state.appended, entry.1.reply ≠ reply
  aborted : state.failed ≠ none → state.pending = []

namespace Appending.Sound

variable {before : Topic} {done rest : List PublishRequest} {state : Appending}

theorem start : Appending.Sound before [] ⟨before, [], [], [], none⟩ where
  answers := .refl _
  failures _ _ h := absurd h List.not_mem_nil
  order := .slnil
  recorded _ h := absurd h List.not_mem_nil
  log _ := (List.append_nil _).symm
  refused _ _ h := absurd h List.not_mem_nil
  aborted h := absurd rfl h

theorem order_note (h : state.Sound before done) (written : Option PublishBatch) :
    ((state.note request written).appended.map Prod.fst).Sublist (done ++ [request]) := by
  rw [note, List.map_append]
  refine h.order.append ?_
  cases written with
  | none => exact List.nil_sublist _
  | some batch => exact List.Sublist.refl _

theorem appended_subset_note (written : Option PublishBatch) :
    state.appended ⊆ (state.note request written).appended :=
  List.subset_append_left _ _

theorem mem_abort (herror : error.isStorageError = true) {result : PublishResult}
    (hmem : (reply, result) ∈ (state.abort request error rest).replies) :
    (reply, result) ∈ state.replies ∨
      ∃ failure, result = .error failure ∧ failure.isStorageError = true := by
  rcases List.mem_append.1 hmem with hold | hnew
  · exact Or.inl hold
  · refine Or.inr ?_
    rcases List.mem_cons.1 hnew with hhere | hothers
    · cases hhere
      exact ⟨_, rfl, (BrokerError.isStorageError_copyError error).trans herror⟩
    · rcases List.mem_append.1 hothers with hpending | hrest
      · obtain ⟨entry, -, heq⟩ := List.mem_map.1 hpending
        cases heq
        exact ⟨_, rfl, rfl⟩
      · obtain ⟨other, -, heq⟩ := List.mem_map.1 hrest
        cases heq
        exact ⟨_, rfl, rfl⟩

section

variable (h : state.Sound before done)
  (hdistinct : ((done ++ request :: rest).map PublishRequest.reply).Nodup)
include h hdistinct

theorem unanswered {result : PublishResult} : (request.reply, result) ∉ state.replies := by
  intro hmem
  have hdone : request.reply ∈ done.map PublishRequest.reply :=
    h.answers.mem_iff.1 (List.mem_append_left _ (List.mem_map.2 ⟨_, hmem, rfl⟩))
  rw [List.map_append, List.map_cons, List.nodup_append] at hdistinct
  exact hdistinct.2.2 _ hdone _ List.mem_cons_self rfl

/-- Whatever the next request writes, the requests that were refused have written nothing. -/
theorem refused_note (written : Option PublishBatch) (hmem : (reply, .error error) ∈ state.replies)
    (herror : error.isStorageError = false) :
    ∀ entry ∈ (state.note request written).appended, entry.1.reply ≠ reply := by
  intro entry hentry
  rcases List.mem_append.1 hentry with hold | hnew
  · exact h.refused reply error hmem herror entry hold
  · obtain ⟨batch, -, rfl⟩ := List.mem_map.1 hnew
    rintro rfl
    exact h.unanswered hdistinct hmem

/-- The step of a request that waits for the end of the group. -/
theorem accept (hrunning : state.failed = none) {ids : List ℕ}
    (hok : (appendRequest settings around state.topic request).answer = .ok ids) (now : ℕ) :
    Sound before (done ++ [request])
      { state.note request (appendRequest settings around state.topic request).written with
        topic := (appendRequest settings around state.topic request).topic.recordUnsynced now
          request.bodies.length request.encodedBytes
        pending := state.pending ++ [(request.reply, ids)] } := by
  obtain ⟨batch, hwritten, hlog, hids, hfor, hbodies⟩ := appendRequest_ok hok
  constructor
  · rw [List.map_append, List.map_append, ← List.append_assoc]
    exact h.answers.append_right _
  · exact h.failures
  · exact h.order_note _
  · intro entry hentry
    rcases List.mem_append.1 hentry with hold | hnew
    · exact (h.recorded entry hold).mono (appended_subset_note _)
    · rw [List.mem_singleton.1 hnew, hwritten]
      exact ⟨request, batch, List.mem_append_right _ List.mem_cons_self, rfl, hfor, hids.symm, hbodies⟩
  · intro _
    rw [recordUnsynced_log, hlog, h.log hrunning, hwritten]
    simp [note]
  · intro reply error hmem herror
    exact h.refused_note hdistinct _ hmem herror
  · exact fun hfailed => absurd hrunning hfailed

/-- The step of a request that is refused. -/
theorem refuse (hrunning : state.failed = none)
    (hrefused : (appendRequest settings around state.topic request).answer = .error error)
    (herror : error.isStorageError = false) :
    Sound before (done ++ [request])
      { state.note request (appendRequest settings around state.topic request).written with
        replies := state.replies ++ [(request.reply, .error error)] } := by
  rw [(appendRequest_refused hrefused herror).1]
  have hnote : (state.note request none).appended = state.appended := List.append_nil _
  constructor
  · have hmove : (state.replies.map Prod.fst ++ [request.reply] ++ state.pending.map Prod.fst).Perm
        (state.replies.map Prod.fst ++ state.pending.map Prod.fst ++ [request.reply]) := by
      rw [List.append_assoc, List.append_assoc]
      exact List.perm_append_comm.append_left _
    rw [List.map_append, List.map_append]
    exact hmove.trans (h.answers.append_right _)
  · intro reply result hmem
    rcases List.mem_append.1 hmem with hold | hnew
    · exact h.failures reply result hold
    · cases List.mem_singleton.1 hnew
      exact ⟨error, rfl⟩
  · exact h.order_note _
  · exact fun entry hentry => (h.recorded entry hentry).mono (appended_subset_note _)
  · intro _
    exact (h.log hrunning).trans (by rw [hnote])
  · intro reply other hmem hother entry hentry
    rcases List.mem_append.1 hmem with hold | hnew
    · exact h.refused_note hdistinct none hold hother entry hentry
    · cases List.mem_singleton.1 hnew
      intro hsame
      -- the request was not written, and no earlier one waits on the same channel
      have hearlier : entry.1 ∈ done :=
        h.order.subset (List.mem_map.2 ⟨entry, hnote ▸ hentry, rfl⟩)
      rw [List.map_append, List.map_cons, List.nodup_append] at hdistinct
      exact hdistinct.2.2 _ (List.mem_map.2 ⟨_, hearlier, hsame⟩) _ List.mem_cons_self rfl
  · exact fun hfailed => absurd hrunning hfailed

/-- The end of a group in the middle. -/
theorem abort (written : Option PublishBatch) (herror : error.isStorageError = true) :
    ((state.note request written).abort request error rest).Sound before (done ++ request :: rest) := by
  have hreplies : ((state.note request written).abort request error rest).replies.map Prod.fst =
      state.replies.map Prod.fst ++ (request.reply :: (state.pending.map Prod.fst ++
        rest.map PublishRequest.reply)) := by
    simp [Appending.abort, failPending, failRequests, note, Function.comp_def]
  constructor
  · rw [hreplies, Appending.abort, List.map_nil, List.append_nil, List.map_append, List.map_cons]
    refine List.Perm.trans ?_ (h.answers.append_right _)
    rw [List.append_assoc]
    refine List.Perm.append_left _ ?_
    exact List.perm_middle.symm
  · intro reply result hmem
    rcases mem_abort herror hmem with hold | ⟨other, hresult, -⟩
    · exact h.failures reply result hold
    · exact ⟨other, hresult⟩
  · have hsub : (done ++ [request]).Sublist (done ++ request :: rest) :=
      (List.Sublist.refl done).append ((List.nil_sublist rest).cons_cons request)
    exact (h.order_note written).trans hsub
  · exact fun _ hentry => absurd hentry List.not_mem_nil
  · exact fun hrunning => absurd hrunning (by simp [Appending.abort])
  · intro reply other hmem hother
    rcases mem_abort herror hmem with hold | ⟨failure, hresult, hstorage⟩
    · exact h.refused_note hdistinct written hold hother
    · cases hresult
      rw [hstorage] at hother
      cases hother
  · exact fun _ => rfl

end

theorem run (around : ℕ → AppendAround) (n : ℕ) (h : state.Sound before done) (hrunning : state.failed = none)
    (hdistinct : ((done ++ rest).map PublishRequest.reply).Nodup) :
    (appendRequests settings around n state rest).Sound before (done ++ rest) := by
  induction rest generalizing n state done with
  | nil =>
    rw [List.append_nil]
    exact h
  | cons request rest ih =>
    have hshift : done ++ request :: rest = done ++ [request] ++ rest := by simp
    unfold appendRequests
    dsimp only
    split
    · rename_i ids hok
      rw [hshift]
      exact ih (n + 1) (h.accept hdistinct hrunning hok _) hrunning (hshift ▸ hdistinct)
    · rename_i error hfailed
      split_ifs with herror
      · exact h.abort hdistinct _ herror
      · rw [hshift]
        exact ih (n + 1) (h.refuse hdistinct hrunning hfailed (Bool.eq_false_iff.2 herror)) hrunning
          (hshift ▸ hdistinct)

end Appending.Sound

/-! ### One group -/

theorem PublishAround.settle_records {around : PublishAround} {mode : PublishAckMode} {topic' : Topic}
    (h : around.settle mode topic = .ok topic') :
    topic'.log.files.records = topic.log.files.records := by
  obtain ⟨spilled, hspill, h⟩ := bind_eq_ok.1 h
  obtain ⟨synced, hsync, h⟩ := bind_eq_ok.1 h
  obtain ⟨-, -, h⟩ := bind_eq_ok.1 h
  cases h
  have hspilled : spilled.log.files.records = topic.log.files.records := by
    unfold PublishAround.spill at hspill
    split_ifs at hspill
    · obtain ⟨-, -, hspill⟩ := bind_eq_ok.1 hspill
      obtain ⟨⟨after, writes⟩, hafter, hpure⟩ := bind_eq_ok.1 hspill
      cases hpure
      exact spillMessageMetadata_records hafter
    · cases hspill
      rfl
  rw [← hspilled]
  cases mode with
  | durable =>
    obtain ⟨-, -, hsync⟩ := bind_eq_ok.1 hsync
    obtain ⟨-, -, hsync⟩ := bind_eq_ok.1 hsync
    cases hsync
    rw [markDurableThrough_log]
    exact (LogFiles.records_sync).trans (by rw [around.meanwhile_log])
  | writeAck =>
    cases hsync
    rfl
  | nsqRelaxed =>
    cases hsync
    rfl

/-- What a commit says is true. -/
structure Commit.Truthful (commit : Commit) : Prop where
  answers : (commit.outcomes.map Prod.fst).Perm (commit.group.map PublishRequest.reply)
  order : (commit.appended.map Prod.fst).Sublist commit.group
  log : ∀ topic, commit.left = some topic →
    topic.log.files.records = commit.before.log.files.records ++ commit.appended.map Prod.snd
  recorded : ∀ reply ids, (reply, .ok ids) ∈ commit.replies →
    commit.left.isSome ∧ Recorded commit.appended reply ids
  refused : ∀ reply error, (reply, .error error) ∈ commit.replies → error.isStorageError = false →
    ∀ entry ∈ commit.appended, entry.1.reply ≠ reply

theorem outcomes_map_fst (commit : Commit) :
    commit.outcomes.map Prod.fst = commit.replies.map Prod.fst ++ commit.dropped := by
  simp [Commit.outcomes, Function.comp_def]

theorem Commit.Truthful.die {commit : Commit} (h : commit.Truthful) (hlive : commit.dropped = [])
    (dies : Option ℕ) : (commit.die dies).Truthful := by
  cases dies with
  | none => exact h
  | some sent =>
    have hsent : commit.replies.take sent ⊆ commit.replies := List.take_subset _ _
    constructor
    · have hall : (commit.die (some sent)).outcomes.map Prod.fst = commit.outcomes.map Prod.fst := by
        rw [outcomes_map_fst, outcomes_map_fst, hlive, List.append_nil, Commit.die, ← List.map_append,
          List.take_append_drop]
      rw [hall]
      exact h.answers
    · exact h.order
    · exact h.log
    · exact fun reply ids hmem => h.recorded reply ids (hsent hmem)
    · exact fun reply error hmem => h.refused reply error (hsent hmem)

section

variable {before : Topic} {group : List PublishRequest} {state : Appending}

/-- The end of a group: the requests that wait are answered, all with a storage error or all with their
ids. -/
theorem Appending.Sound.truthful (h : state.Sound before group) (more : List (ℕ × PublishResult))
    (left : Option Topic) (continues : Bool)
    (hmore : more.map Prod.fst = state.pending.map Prod.fst)
    (hresults : ∀ reply result, (reply, result) ∈ more →
      (∃ error, result = .error error ∧ error.isStorageError = true) ∨
        left.isSome ∧ ∃ ids, result = .ok ids ∧ (reply, ids) ∈ state.pending)
    (hleft : ∀ topic, left = some topic →
      topic.log.files.records = before.log.files.records ++ state.appended.map Prod.snd) :
    Commit.Truthful ⟨group, before, state.replies ++ more, [], state.appended, left, continues⟩ where
  answers := by
    rw [outcomes_map_fst]
    simpa [hmore] using h.answers
  order := h.order
  log := hleft
  recorded reply ids hmem := by
    rcases List.mem_append.1 hmem with hold | hnew
    · obtain ⟨_, hresult⟩ := h.failures reply _ hold
      cases hresult
    · rcases hresults reply _ hnew with ⟨_, hresult, -⟩ | ⟨hsome, ids', hresult, hpending⟩
      · cases hresult
      · cases hresult
        exact ⟨hsome, h.recorded _ hpending⟩
  refused reply error hmem herror := by
    rcases List.mem_append.1 hmem with hold | hnew
    · exact h.refused reply error hold herror
    · rcases hresults reply _ hnew with ⟨other, hresult, hstorage⟩ | ⟨-, ids, hresult, -⟩
      · cases hresult
        rw [hstorage] at herror
        cases herror
      · cases hresult

theorem Appending.Sound.truthful_of_nil (h : state.Sound before group) (hpending : state.pending = [])
    (left : Option Topic) (continues : Bool)
    (hleft : ∀ topic, left = some topic →
      topic.log.files.records = before.log.files.records ++ state.appended.map Prod.snd) :
    Commit.Truthful ⟨group, before, state.replies, [], state.appended, left, continues⟩ := by
  have hend := h.truthful [] left continues (by rw [hpending]; rfl)
    (fun _ _ hmem => absurd hmem List.not_mem_nil) hleft
  rwa [List.append_nil] at hend

end

variable (settings)

theorem commitGroup_truthful (around : PublishAround) {group : List PublishRequest}
    (hdistinct : (group.map PublishRequest.reply).Nodup) :
    (commitGroup settings mode around group).Truthful ∧
      (commitGroup settings mode around group).dropped = [] := by
  have hsound : (appendRequests settings around.appends 0 ⟨around.topic, [], [], [], none⟩ group).Sound
      around.topic group :=
    Appending.Sound.start.run around.appends 0 rfl hdistinct
  unfold commitGroup
  cases around.refusal with
  | some refusal =>
    obtain ⟨error, continues⟩ := refusal
    refine ⟨⟨?_, ?_, ?_, ?_, ?_⟩, rfl⟩
    · rw [outcomes_map_fst]
      simp [failRequests, Function.comp_def]
    · exact List.nil_sublist _
    · rintro topic ⟨⟩
      exact (List.append_nil _).symm
    · intro reply ids hmem
      obtain ⟨request, -, heq⟩ := List.mem_map.1 hmem
      cases heq
    · exact fun _ _ _ _ _ hentry => absurd hentry List.not_mem_nil
  | none =>
    dsimp only
    generalize appendRequests settings around.appends 0 ⟨around.topic, [], [], [], none⟩ group = state
      at hsound
    cases hfailed : state.failed with
    | some error =>
      have hnone : state.pending = [] := hsound.aborted (by rw [hfailed]; exact Option.some_ne_none _)
      exact ⟨hsound.truthful_of_nil hnone none _ nofun, rfl⟩
    | none =>
      dsimp only
      split_ifs with hpending
      · refine ⟨hsound.truthful_of_nil hpending _ _ ?_, rfl⟩
        rintro topic ⟨⟩
        exact hsound.log hfailed
      · cases hsettle : around.settle mode state.topic with
        | error error =>
          refine ⟨hsound.truthful (failPending state.pending) none _ ?_ ?_ nofun, rfl⟩
          · simp [failPending, Function.comp_def]
          · intro reply result hmem
            obtain ⟨entry, -, heq⟩ := List.mem_map.1 hmem
            cases heq
            exact Or.inl ⟨_, rfl, rfl⟩
        | ok topic =>
          refine ⟨hsound.truthful _ (some topic) _ ?_ ?_ ?_, rfl⟩
          · simp [Function.comp_def]
          · intro reply result hmem
            obtain ⟨entry, hentry, heq⟩ := List.mem_map.1 hmem
            cases heq
            exact Or.inr ⟨rfl, entry.2, rfl, hentry⟩
          · rintro topic ⟨⟩
            exact (around.settle_records hsettle).trans (hsound.log hfailed)

theorem commitPublishGroup_truthful (around : PublishAround) {group : List PublishRequest}
    (hdistinct : (group.map PublishRequest.reply).Nodup) :
    (commitPublishGroup settings mode around group).Truthful := by
  obtain ⟨htruthful, hlive⟩ := commitGroup_truthful settings mode around hdistinct
  exact htruthful.die hlive _

theorem commitPublishGroup_group (around : PublishAround) (group : List PublishRequest) :
    (commitPublishGroup settings mode around group).group = group := by
  have hgroup : (commitGroup settings mode around group).group = group := by
    unfold commitGroup
    split
    · rfl
    · dsimp only
      repeat' split
      all_goals rfl
  unfold commitPublishGroup
  cases around.dies with
  | none => exact hgroup
  | some sent => exact hgroup

/-! ### All groups of a worker -/

/-- The requests that a worker has written, with their records. -/
def WorkerRun.appended (run : WorkerRun) : List (PublishRequest × PublishBatch) :=
  run.commits.flatMap Commit.appended

/-- What the groups of a worker have in common; `requests` is what it takes from the queue. -/
structure WorkerRun.Sliced (run : WorkerRun) (requests : List PublishRequest) : Prop where
  slices : run.commits.flatMap Commit.group ++ run.left = requests
  commits : ∀ commit ∈ run.commits, commit.Truthful ∧ Bounded commit.group

theorem runWorker_sliced (turns : List WorkerTurn) (carry : Option PublishRequest)
    (queue : List PublishRequest) (hdistinct : ((carry.toList ++ queue).map PublishRequest.reply).Nodup) :
    (runWorker settings mode turns carry queue).Sliced (carry.toList ++ queue) := by
  induction turns generalizing carry queue with
  | nil => exact ⟨rfl, fun _ h => absurd h List.not_mem_nil⟩
  | cons turn turns ih =>
    cases turn with
    | sync succeeds =>
      cases succeeds with
      | false => exact ⟨rfl, fun _ h => absurd h List.not_mem_nil⟩
      | true => exact ih carry queue hdistinct
    | commit received around =>
      unfold runWorker
      cases hwaiting : carry.toList ++ queue with
      | nil =>
        exact ih none [] List.nodup_nil
      | cons first waiting =>
        rw [hwaiting] at hdistinct
        dsimp only
        have hslice := collectGroup_append received first waiting
        rw [← hslice, List.map_append] at hdistinct
        have htruthful := commitPublishGroup_truthful settings mode around
          (List.nodup_append.1 hdistinct).1
        have hbounded := collectGroup_bounded received first waiting
        rw [← commitPublishGroup_group settings mode around
          (collectGroup received first waiting).group] at hbounded
        split_ifs
        · have hrest := ih (collectGroup received first waiting).carry
            (collectGroup received first waiting).rest (List.nodup_append.1 hdistinct).2.1
          refine ⟨?_, ?_⟩
          · rw [List.flatMap_cons, List.append_assoc, hrest.slices, commitPublishGroup_group, hslice]
          · intro commit hcommit
            rcases List.mem_cons.1 hcommit with rfl | hlater
            · exact ⟨htruthful, hbounded⟩
            · exact hrest.commits commit hlater
        · refine ⟨?_, ?_⟩
          · rw [List.flatMap_singleton, commitPublishGroup_group, hslice]
          · intro commit hcommit
            rw [List.mem_singleton.1 hcommit]
            exact ⟨htruthful, hbounded⟩

/-- A worker that has not returned, and has had a turn for every request, has answered all. -/
theorem runWorker_left (turns : List WorkerTurn) (carry : Option PublishRequest) (queue : List PublishRequest)
    (hturns : (carry.toList ++ queue).length ≤ (turns.filter WorkerTurn.isCommit).length)
    (hgoes : (runWorker settings mode turns carry queue).returned = false) :
    (runWorker settings mode turns carry queue).left = [] := by
  induction turns generalizing carry queue with
  | nil => exact List.eq_nil_of_length_eq_zero (Nat.le_zero.1 hturns)
  | cons turn turns ih =>
    cases turn with
    | sync succeeds =>
      cases succeeds with
      | false => cases hgoes
      | true => exact ih carry queue hturns hgoes
    | commit received around =>
      unfold runWorker at hgoes ⊢
      cases hwaiting : carry.toList ++ queue with
      | nil =>
        rw [hwaiting] at hgoes
        exact ih none [] (Nat.zero_le _) hgoes
      | cons first waiting =>
        rw [hwaiting] at hgoes hturns
        dsimp only at hgoes ⊢
        split_ifs at hgoes ⊢ with hcontinues
        refine ih _ _ ?_ hgoes
        -- the group has taken at least one request
        have hslice := congrArg List.length (collectGroup_append received first waiting)
        have htaken : 1 ≤ (collectGroup received first waiting).group.length :=
          collect_length received _ [first] waiting
        rw [List.filter_cons_of_pos rfl] at hturns
        rw [List.length_append] at hslice
        simp only [List.length_cons] at hturns hslice
        omega

variable {requests : List PublishRequest}

theorem WorkerRun.Sliced.outcomes {run : WorkerRun} (h : run.Sliced requests) :
    (run.outcomes.map Prod.fst).Perm (requests.map PublishRequest.reply) := by
  rw [← h.slices, WorkerRun.outcomes, List.map_append, List.map_append, List.map_map, List.map_flatMap,
    List.map_flatMap]
  refine List.Perm.append ?_ (.refl _)
  exact List.Perm.flatMap_left _ fun commit hcommit => (h.commits commit hcommit).1.answers

theorem WorkerRun.Sliced.order {run : WorkerRun} (h : run.Sliced requests) :
    (run.appended.map Prod.fst).Sublist requests := by
  rw [← h.slices, WorkerRun.appended, List.map_flatMap]
  refine List.Sublist.trans ?_ (List.sublist_append_left _ _)
  exact List.Sublist.flatMap_right _ fun commit hcommit => (h.commits commit hcommit).1.order

/-- An outcome is a reply of some group, or says that the storage is not available. -/
theorem WorkerRun.mem_outcomes {run : WorkerRun} {result : PublishResult}
    (h : (reply, result) ∈ run.outcomes) :
    (∃ commit ∈ run.commits, (reply, result) ∈ commit.replies) ∨ result = .error .storageUnavailable := by
  rcases List.mem_append.1 h with hcommits | hleft
  · obtain ⟨commit, hcommit, hmem⟩ := List.mem_flatMap.1 hcommits
    rcases List.mem_append.1 hmem with hsent | hdropped
    · obtain ⟨sent, hreply, heq⟩ := List.mem_map.1 hsent
      cases heq
      exact Or.inl ⟨commit, hcommit, hreply⟩
    · obtain ⟨dropped, -, heq⟩ := List.mem_map.1 hdropped
      cases heq
      exact Or.inr rfl
  · obtain ⟨request, -, heq⟩ := List.mem_map.1 hleft
    cases heq
    exact Or.inr rfl

/-- A channel on which a group replies is that of one of its requests. -/
theorem Commit.Truthful.reply_mem {commit : Commit} (h : commit.Truthful) {result : PublishResult}
    (hmem : (reply, result) ∈ commit.replies) : reply ∈ commit.group.map PublishRequest.reply := by
  refine h.answers.mem_iff.1 ?_
  rw [outcomes_map_fst]
  exact List.mem_append_left _ (List.mem_map.2 ⟨_, hmem, rfl⟩)

theorem WorkerRun.Sliced.refused {run : WorkerRun} (h : run.Sliced requests)
    (hdistinct : (requests.map PublishRequest.reply).Nodup)
    (hmem : (reply, .error error) ∈ run.outcomes) (herror : error.isStorageError = false) :
    ∀ entry ∈ run.appended, entry.1.reply ≠ reply := by
  intro entry hentry
  rcases WorkerRun.mem_outcomes hmem with ⟨commit, hcommit, hreply⟩ | hunavailable
  · obtain ⟨other, hother, happended⟩ := List.mem_flatMap.1 hentry
    by_cases hsame : other = commit
    · exact (h.commits commit hcommit).1.refused reply error hreply herror entry (hsame ▸ happended)
    · -- groups have no reply channel in common
      rw [← h.slices, List.map_append, List.map_flatMap] at hdistinct
      have hpairwise := (List.nodup_flatMap.1 (List.nodup_append.1 hdistinct).1).2
      have : Std.Symm (Function.onFun List.Disjoint
          fun commit : Commit => commit.group.map PublishRequest.reply) :=
        ⟨fun _ _ hdisjoint => List.Disjoint.symm hdisjoint⟩
      have hdisjoint := hpairwise.forall hother hcommit hsame
      have hgroup : entry.1 ∈ other.group :=
        (h.commits other hother).1.order.subset (List.mem_map.2 ⟨entry, happended, rfl⟩)
      rintro rfl
      exact hdisjoint (List.mem_map.2 ⟨_, hgroup, rfl⟩) ((h.commits commit hcommit).1.reply_mem hreply)
  · cases hunavailable
    cases herror

theorem WorkerRun.Sliced.recorded {run : WorkerRun} (h : run.Sliced requests)
    (hdistinct : (requests.map PublishRequest.reply).Nodup) (hrequest : request ∈ requests)
    {ids : List ℕ} (hmem : (request.reply, .ok ids) ∈ run.outcomes) :
    IdsFor request.bodies ids ∧ ∃ commit ∈ run.commits, ∃ topic, commit.left = some topic ∧
      ∃ batch ∈ topic.log.files.records,
        (batch.entries.map fun entry => (entry.id, entry.body)) = ids.zip request.bodies := by
  rcases WorkerRun.mem_outcomes hmem with ⟨commit, hcommit, hreply⟩ | hunavailable
  · have htruthful := (h.commits commit hcommit).1
    obtain ⟨hleft, other, batch, happended, hsame, hids, hentries, hbodies⟩ :=
      htruthful.recorded _ _ hreply
    obtain ⟨topic, htopic⟩ := Option.isSome_iff_exists.1 hleft
    have hother : other ∈ requests :=
      h.order.subset (List.mem_map.2 ⟨_, List.mem_flatMap.2 ⟨commit, hcommit, happended⟩, rfl⟩)
    obtain rfl : other = request := List.inj_on_of_nodup_map hdistinct hother hrequest hsame
    refine ⟨hids, commit, hcommit, topic, htopic, batch, ?_, ?_⟩
    · rw [htruthful.log topic htopic]
      exact List.mem_append_right _ (List.mem_map.2 ⟨_, happended, rfl⟩)
    · rw [← hentries, ← hbodies, List.zip_map']
  · cases hunavailable

/-- **Group commit answers truthfully.**  Whatever fails, the groups are consecutive slices of the queue
within their limits, every request has one outcome, and requests are appended in the order of the
queue.  An answer with ids has one per body, and the log then has the bodies under these ids in one
record; a request that is refused without a storage error is not in the log. -/
theorem runWorker_truthful (mode : PublishAckMode) (turns : List WorkerTurn) (queue : PublishQueue) :
    let run := runWorker settings mode turns none queue.requests
    (run.commits.flatMap Commit.group ++ run.left = queue.requests ∧
      ∀ commit ∈ run.commits, commit.group.length ≤ 64 ∧
        (commit.group.length = 1 ∨
          (commit.group.map PublishRequest.encodedBytes).sum ≤ 8 * 1024 * 1024)) ∧
    ((run.outcomes.map Prod.fst).Perm (queue.requests.map PublishRequest.reply) ∧
      (run.outcomes.map Prod.fst).Nodup ∧
      (run.returned = false → queue.requests.length ≤ (turns.filter WorkerTurn.isCommit).length →
        run.left = [])) ∧
    ((run.appended.map Prod.fst).Sublist queue.requests ∧
      ∀ commit ∈ run.commits, ∀ topic, commit.left = some topic →
        topic.log.files.records = commit.before.log.files.records ++ commit.appended.map Prod.snd) ∧
    (∀ request ∈ queue.requests, ∀ ids, (request.reply, .ok ids) ∈ run.outcomes →
      (∃ first, ids = List.range' first request.bodies.length) ∧
      ∃ commit ∈ run.commits, ∃ topic, commit.left = some topic ∧
        ∃ batch ∈ topic.log.files.records,
          (batch.entries.map fun entry => (entry.id, entry.body)) = ids.zip request.bodies) ∧
    ∀ request ∈ queue.requests, ∀ error, (request.reply, .error error) ∈ run.outcomes →
      error.isStorageError = false → ∀ batch, (request, batch) ∉ run.appended := by
  intro run
  have hsliced : run.Sliced queue.requests := runWorker_sliced settings mode turns none _ queue.distinct
  refine ⟨⟨hsliced.slices, fun commit hcommit => (hsliced.commits commit hcommit).2⟩, ⟨?_, ?_, ?_⟩,
    ⟨hsliced.order, ?_⟩, ?_, ?_⟩
  · exact hsliced.outcomes
  · exact hsliced.outcomes.nodup_iff.2 queue.distinct
  · exact fun hgoes hturns => runWorker_left settings mode turns none _ hturns hgoes
  · exact fun commit hcommit => (hsliced.commits commit hcommit).1.log
  · exact fun request hrequest ids hmem => hsliced.recorded queue.distinct hrequest hmem
  · intro request hrequest error hmem herror batch happended
    exact hsliced.refused queue.distinct hmem herror _ happended rfl

/-! ### A publish call -/

/-- What the call of a publish meets: the state of the broker, and the worker with the requests before
and behind its own. -/
structure PublishCall where
  healthy : Bool
  access : Except BrokerError Unit
  sender : Except BrokerError Unit
  closed : Bool
  mode : PublishAckMode
  turns : List WorkerTurn
  reply : ℕ
  earlier : List PublishRequest
  later : List PublishRequest
  distinct : ((earlier.map PublishRequest.reply) ++ reply :: later.map PublishRequest.reply).Nodup

/-- The run of the worker that gets the request. -/
def PublishCall.run (call : PublishCall) (request : PublishRequest) : WorkerRun :=
  runWorker settings call.mode call.turns none (call.earlier ++ request :: call.later)

/-- The answer of a worker, and whether it has written the request. -/
def WorkerRun.answer (run : WorkerRun) (request : PublishRequest) : PublishResult × Bool :=
  (awaitReply ((run.outcomes.find? fun outcome => decide (outcome.1 = request.reply)).map Prod.snd),
    run.appended.any fun entry => decide (entry.1 = request))

/-- A publish: its result, and whether its messages were written to the log. -/
def PublishCall.publish (call : PublishCall) (topic : String) (maxMessageBytes : ℕ)
    (bodies : List (List UInt8)) (delayMs : ℕ) : PublishResult × Bool :=
  if call.healthy = false then (.error .storageUnavailable, false)
  else
    match validatePublishRequest topic call.access maxMessageBytes bodies, call.sender with
    | .error error, _ => (.error error, false)
    | .ok _, .error error => (.error error, false)
    | .ok bytes, .ok () =>
      if call.closed then (.error .storageUnavailable, false)
      else
        let request : PublishRequest := ⟨call.reply, bodies, delayMs, bytes⟩
        (call.run settings request).answer request

theorem WorkerRun.answer_refused {run : WorkerRun} (h : run.Sliced requests)
    (hdistinct : (requests.map PublishRequest.reply).Nodup) (request : PublishRequest)
    (hanswer : (run.answer request).1 = .error error) (herror : error.isStorageError = false) :
    (run.answer request).2 = false := by
  unfold WorkerRun.answer at hanswer ⊢
  dsimp only at hanswer ⊢
  cases hfound : run.outcomes.find? fun outcome => decide (outcome.1 = request.reply) with
  | none =>
    rw [hfound] at hanswer
    cases hanswer
    cases herror
  | some outcome =>
    rw [hfound] at hanswer
    obtain ⟨reply, result⟩ := outcome
    have hreply : reply = request.reply := by
      have hmatch := List.find?_some hfound
      exact of_decide_eq_true hmatch
    have hmem := List.mem_of_find?_eq_some hfound
    rw [hreply, show result = .error error from hanswer] at hmem
    rw [List.any_eq_false]
    intro entry hentry hsame
    exact h.refused hdistinct hmem herror entry hentry (by rw [of_decide_eq_true hsame])

/-- **A publish that fails without a storage error has written nothing.** -/
theorem PublishCall.publish_refused (call : PublishCall) (topic : String) (maxMessageBytes : ℕ)
    (bodies : List (List UInt8)) (delayMs : ℕ)
    (h : (call.publish settings topic maxMessageBytes bodies delayMs).1 = .error error)
    (herror : error.isStorageError = false) :
    (call.publish settings topic maxMessageBytes bodies delayMs).2 = false := by
  unfold PublishCall.publish at h ⊢
  by_cases hhealthy : call.healthy = false
  · rw [if_pos hhealthy]
  rw [if_neg hhealthy] at h ⊢
  split at h
  · rfl
  · rfl
  · rename_i bytes _ _
    by_cases hclosed : call.closed = true
    · rw [if_pos hclosed]
    rw [if_neg hclosed] at h ⊢
    have hdistinct : ((call.earlier ++ ⟨call.reply, bodies, delayMs, bytes⟩ :: call.later).map
        PublishRequest.reply).Nodup := by
      rw [List.map_append, List.map_cons]
      exact call.distinct
    exact WorkerRun.answer_refused (runWorker_sliced settings call.mode call.turns none _ hdistinct)
      hdistinct _ h herror

end RustQueue.Broker
