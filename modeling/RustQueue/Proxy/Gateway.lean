import RustQueue.Server.Session

/-!
# The producer gateway

The gateway takes a publish from a producer and hands it to one broker of its pool.  It goes on to
another broker only when the first one cannot have the messages: the connection broke before the whole
body was sent, or the broker has answered with a code that it gives before it writes.

A connection is what it does (`Connection`): how many bytes it takes, whether it can be flushed, and what
is read from it.  `publish` is the call of the gateway with a history of the brokers that were sent the
command.

* `offer_sound`: the loop over the pool, by induction on the candidates;
* `publish_commits_once`: at most one broker stores the messages of a call.
-/

namespace RustQueue.Proxy

open Broker Server

structure Backend where
  broadcastAddress : String
  tcpPort : ℕ
  httpPort : ℕ
  nodeId : ℕ
  deriving DecidableEq, Repr

/-- A publish of a producer, parsed and as bytes. -/
structure ClientCommand where
  command : PublishCommand
  line : List UInt8
  body : List UInt8

/-- The bytes of a command: the line, four bytes for the size of the body, and the body. -/
def ClientCommand.length (command : ClientCommand) : ℕ := command.line.length + 4 + command.body.length

/-- What is read from a connection in time. -/
inductive Reading where
  | frame (frame : Frame)
  | failed (error : String)
  | timedOut
  deriving DecidableEq, Repr

/-- What a connection does with a command. -/
structure Connection where
  accepted : ℕ
  flushed : Bool
  reading : Reading
  deriving DecidableEq, Repr

inductive Attempt where
  | success
  | retry (error : List UInt8)
  | final (error : List UInt8)
  | ambiguous (detail : String)
  deriving DecidableEq, Repr

inductive PublishFailure where
  | final (error : List UInt8)
  | retryByReconnect
  | ambiguous (error : List UInt8)
  deriving DecidableEq, Repr

def maxPublishAttempts : ℕ := 3

/-- A text starts with a code of plain letters if its bytes do. -/
def startsWith (body : List UInt8) (code : String) : Bool := (textBytes code).isPrefixOf body

def retriableError (body : List UInt8) : Bool :=
  startsWith body "E_DRAINING" || startsWith body "E_CLOSING" || startsWith body "E_THROTTLED" ||
    startsWith body "E_PUB_RETRY"

/-- The whole command is written. -/
def sendBeforeCommit (connection : Connection) (command : ClientCommand) : Bool :=
  decide (command.length ≤ connection.accepted)

def attempt (connection : Connection) (command : ClientCommand) : Attempt :=
  if sendBeforeCommit connection command = false then
    .retry (textBytes "E_PUB_RETRY Broker connection failed before the publish body was complete")
  else if connection.flushed = false then .ambiguous "Broker connection failed after sending the body"
  else
    match connection.reading with
    | .frame frame =>
      if frame = .ok then .success
      else if frame.frameType = 1 then
        if retriableError frame.body then .retry frame.body else .final frame.body
      else .ambiguous "Broker returned an invalid publish response"
    | .failed error => .ambiguous s!"Broker response failed: {error}"
    | .timedOut => .ambiguous "Broker publish response timed out"

/-! ### The call -/

/-- A broker that is picked from the pool: whether there is time for another attempt, whether the broker
can be reached, and its connection. -/
structure Candidate where
  backend : Backend
  inTime : Bool
  connects : Bool
  connection : Connection

/-- A broker that was sent the command. -/
structure Sent where
  backend : Backend
  connection : Connection

/-- The end of a call: the result, the session that is kept, the nodes that were tried, and the history
of the brokers that were sent the command. -/
structure GatewayRun where
  result : Except PublishFailure Unit
  current : Option Backend
  attempted : Finset ℕ
  sent : List Sent

/-- An attempt ends the call, or leaves it to the next broker. -/
def conclude (attempted : Finset ℕ) (sent : List Sent) (backend : Backend) (next : GatewayRun) :
    Attempt → GatewayRun
  | .success => ⟨.ok (), some backend, attempted, sent⟩
  | .retry _ => next
  | .final error => ⟨.error (.final error), none, attempted, sent⟩
  | .ambiguous detail => ⟨.error (.ambiguous (textBytes s!"E_AMBIGUOUS {detail}")), none, attempted, sent⟩

/-- The loop over the brokers of the pool. -/
def offer (command : ClientCommand) : Finset ℕ → List Sent → List Candidate → GatewayRun
  | attempted, sent, [] => ⟨.error .retryByReconnect, none, attempted, sent⟩
  | attempted, sent, candidate :: candidates =>
    if maxPublishAttempts ≤ attempted.card ∨ candidate.inTime = false then
      ⟨.error .retryByReconnect, none, attempted, sent⟩
    else if candidate.backend.nodeId ∈ attempted then offer command attempted sent candidates
    else
      let attempted := insert candidate.backend.nodeId attempted
      if candidate.connects = false then offer command attempted sent candidates
      else
        let sent := sent ++ [⟨candidate.backend, candidate.connection⟩]
        conclude attempted sent candidate.backend (offer command attempted sent candidates)
          (attempt candidate.connection command)

/-- A publish of the gateway.  `current` is the session of the last publish with its connection,
`available` the content of the pool, and `candidates` are the brokers that are picked from it. -/
def publish (available : List Backend) (candidates : List Candidate) (command : ClientCommand)
    (current : Option Sent) : GatewayRun :=
  match current with
  | some session =>
    if session.backend ∈ available then
      conclude {session.backend.nodeId} [session] session.backend
        (offer command {session.backend.nodeId} [session] candidates)
        (attempt session.connection command)
    else offer command ∅ [] candidates
  | none => offer command ∅ [] candidates

/-! ### When the gateway goes on -/

/-- The broker cannot have the messages. -/
def Sent.Retriable (command : ClientCommand) (sent : Sent) : Prop :=
  sent.connection.accepted < command.length ∨
    ∃ frame, sent.connection.reading = .frame frame ∧ frame.frameType = 1 ∧
      retriableError frame.body = true

/-- A broker has answered with OK. -/
def Sent.Accepted (sent : Sent) : Prop := sent.connection.reading = .frame .ok

variable {command : ClientCommand}

theorem retriable_of_retry {sent : Sent} {error : List UInt8}
    (h : attempt sent.connection command = .retry error) : sent.Retriable command := by
  unfold attempt at h
  by_cases hsent : sendBeforeCommit sent.connection command = false
  · exact Or.inl (not_le.1 (of_decide_eq_false hsent))
  rw [if_neg hsent] at h
  split_ifs at h
  split at h
  · rename_i frame hframe
    split_ifs at h with hok herror hretriable
    exact Or.inr ⟨frame, hframe, herror, hretriable⟩
  · cases h
  · cases h

theorem accepted_of_success {sent : Sent}
    (h : attempt sent.connection command = .success) : sent.Accepted := by
  unfold attempt at h
  split_ifs at h
  split at h
  · rename_i frame hframe
    split_ifs at h with hok
    rw [Sent.Accepted, hframe, hok]
  · cases h
  · cases h

/-- What holds of a call that has not ended: it has sent the command to brokers that cannot have the
messages. -/
structure Unsettled (command : ClientCommand) (attempted : Finset ℕ) (sent : List Sent) : Prop where
  few : attempted.card ≤ maxPublishAttempts
  once : (sent.map fun entry => entry.backend.nodeId).Nodup
  tried : ∀ entry ∈ sent, entry.backend.nodeId ∈ attempted
  retriable : ∀ entry ∈ sent, entry.Retriable command

/-- What holds of a call that has ended. -/
structure GatewayRun.Sound (command : ClientCommand) (run : GatewayRun) : Prop where
  few : run.attempted.card ≤ maxPublishAttempts
  once : (run.sent.map fun entry => entry.backend.nodeId).Nodup
  tried : ∀ entry ∈ run.sent, entry.backend.nodeId ∈ run.attempted
  retriable : ∀ entry ∈ run.sent.dropLast, entry.Retriable command
  accepted : run.result = .ok () → ∃ entry ∈ run.sent, entry.Accepted

section

variable {command : ClientCommand} {attempted : Finset ℕ} {sent : List Sent}

theorem Unsettled.start (command : ClientCommand) : Unsettled command ∅ [] where
  few := Nat.zero_le _
  once := List.nodup_nil
  tried _ h := absurd h List.not_mem_nil
  retriable _ h := absurd h List.not_mem_nil

theorem Unsettled.stop (h : Unsettled command attempted sent) (failure : PublishFailure) :
    GatewayRun.Sound command ⟨.error failure, none, attempted, sent⟩ where
  few := h.few
  once := h.once
  tried := h.tried
  retriable entry hentry := h.retriable entry (List.dropLast_subset _ hentry)
  accepted hok := nomatch hok

theorem Unsettled.insert (h : Unsettled command attempted sent) (nodeId : ℕ)
    (hroom : attempted.card < maxPublishAttempts) :
    Unsettled command (Insert.insert nodeId attempted) sent where
  few := (Finset.card_insert_le _ _).trans hroom
  once := h.once
  tried entry hentry := Finset.mem_insert_of_mem (h.tried entry hentry)
  retriable := h.retriable

/-- One attempt, whether it ends the call or not. -/
theorem Unsettled.conclude (h : Unsettled command attempted sent) {entry : Sent}
    (hnew : entry.backend.nodeId ∉ sent.map fun entry => entry.backend.nodeId)
    (htried : entry.backend.nodeId ∈ attempted) {next : GatewayRun}
    (hnext : Unsettled command attempted (sent ++ [entry]) → next.Sound command) :
    (conclude attempted (sent ++ [entry]) entry.backend next
      (attempt entry.connection command)).Sound command := by
  have honce : ((sent ++ [entry]).map fun entry => entry.backend.nodeId).Nodup := by
    rw [List.map_append, List.map_singleton]
    exact List.nodup_append.2 ⟨h.once, List.nodup_singleton _, fun a ha b hb hab =>
      hnew (by rwa [← List.mem_singleton.1 hb, ← hab])⟩
  have htried' : ∀ other ∈ sent ++ [entry], other.backend.nodeId ∈ attempted := by
    intro other hother
    rcases List.mem_append.1 hother with hold | hlast
    · exact h.tried other hold
    · rwa [List.mem_singleton.1 hlast]
  have hretriable : ∀ other ∈ (sent ++ [entry]).dropLast, other.Retriable command := by
    rw [List.dropLast_concat]
    exact h.retriable
  cases hattempt : attempt entry.connection command with
  | success =>
    exact ⟨h.few, honce, htried', hretriable, fun _ =>
      ⟨entry, List.mem_append_right _ List.mem_cons_self, accepted_of_success hattempt⟩⟩
  | retry error =>
    refine hnext ⟨h.few, honce, htried', ?_⟩
    intro other hother
    rcases List.mem_append.1 hother with hold | hlast
    · exact h.retriable other hold
    · rw [List.mem_singleton.1 hlast]
      exact retriable_of_retry hattempt
  | final error => exact ⟨h.few, honce, htried', hretriable, nofun⟩
  | ambiguous detail => exact ⟨h.few, honce, htried', hretriable, nofun⟩

theorem offer_sound (candidates : List Candidate) (h : Unsettled command attempted sent) :
    (offer command attempted sent candidates).Sound command := by
  induction candidates generalizing attempted sent with
  | nil => exact h.stop _
  | cons candidate candidates ih =>
    unfold offer
    split_ifs with hstop hagain hconnects
    · exact h.stop _
    · exact ih h
    all_goals
      have hroom : attempted.card < maxPublishAttempts := not_le.1 fun hle => hstop (Or.inl hle)
      have hinserted := h.insert candidate.backend.nodeId hroom
    · exact ih hinserted
    · refine hinserted.conclude ?_ (Finset.mem_insert_self _ _) ih
      intro hsent
      obtain ⟨entry, hentry, hsame⟩ := List.mem_map.1 hsent
      exact hagain (hsame ▸ h.tried entry hentry)

theorem publish_sound (available : List Backend) (candidates : List Candidate) (command : ClientCommand)
    (current : Option Sent) : (publish available candidates command current).Sound command := by
  unfold publish
  cases current with
  | none => exact offer_sound candidates (.start command)
  | some session =>
    dsimp only
    split_ifs
    · have hfirst := (Unsettled.start command).insert session.backend.nodeId (Nat.zero_lt_succ _)
      exact hfirst.conclude List.not_mem_nil (Finset.mem_insert_self _ _) (offer_sound candidates)
    · exact offer_sound candidates (.start command)

end

/-! ### Who stores the messages -/

/-- A broker on the other end of a connection: its session has the command if the connection took all of
it, and a frame that is read is the answer of the session.  `stored` says whether the broker has written
the messages. -/
def Served (command : ClientCommand) (sent : Sent) (stored : Bool) : Prop :=
  ∃ (settings : PublishSettings) (limits : SessionLimits) (around : SessionAround),
    let done := publishCommand settings limits around command.command command.body
      (decide (command.length ≤ sent.connection.accepted))
    stored = done.stored ∧ ∀ frame, sent.connection.reading = .frame frame → done.reply = some frame

/-- The code of a failed publish is none of those that ask for another broker. -/
theorem retriableError_errorCode (command : PublishCommand) (message : String) :
    retriableError (errorFrame ⟨command.errorCode, message⟩).body = false := by
  unfold errorFrame
  dsimp only
  rw [textBytes_append, textBytes_append, List.append_assoc]
  cases command with
  | publish topic => rfl
  | multiPublish topic => rfl
  | deferredPublish topic delayMs => rfl

theorem retriableError_eq_true {body : List UInt8} (h : retriableError body = true) :
    ∃ code ∈ ["E_DRAINING", "E_CLOSING", "E_THROTTLED", "E_PUB_RETRY"], textBytes code <+: body := by
  unfold retriableError startsWith at h
  simp only [Bool.or_eq_true, List.isPrefixOf_iff_prefix] at h
  simpa [or_assoc] using h

/-- A session that asks for another broker has written nothing. -/
theorem publishCommand_retriable {settings : PublishSettings} {limits : SessionLimits}
    {around : SessionAround} {command : PublishCommand} {body : List UInt8} {complete : Bool} {frame : Frame}
    (hreply : (publishCommand settings limits around command body complete).reply = some frame)
    (htype : frame.frameType = 1) (hcode : retriableError frame.body = true) :
    (publishCommand settings limits around command body complete).stored = false := by
  by_contra hwritten
  rw [Bool.not_eq_false] at hwritten
  rcases publishCommand_stored hwritten hreply with hok | ⟨message, hfailed⟩
  · rw [hok] at htype
    cases htype
  · rw [hfailed, retriableError_errorCode] at hcode
    cases hcode

/-- A broker from which the gateway goes on to another one has not stored the messages. -/
theorem Served.not_stored {sent : Sent} {stored : Bool}
    (h : Served command sent stored) (hretriable : sent.Retriable command) : stored = false := by
  obtain ⟨settings, limits, around, hstored, hreply⟩ := h
  rcases hretriable with hpartial | ⟨frame, hreading, htype, hcode⟩
  · rw [decide_eq_false (not_le.2 hpartial)] at hstored
    exact hstored.trans (publishCommand_incomplete _ _)
  · exact hstored.trans (publishCommand_retriable (hreply frame hreading) htype hcode)

/-- Of brokers that were tried one after the other, only the last one may have stored the messages. -/
theorem count_stored_le {sent : List Sent} {stored : List Bool}
    (h : List.Forall₂ (Served command) sent stored)
    (hretriable : ∀ entry ∈ sent.dropLast, entry.Retriable command) : stored.count true ≤ 1 := by
  induction h with
  | nil => exact Nat.zero_le _
  | @cons entry first rest others hfirst hrest ih =>
    cases rest with
    | nil =>
      cases hrest
      exact List.count_le_length.trans le_rfl
    | cons next rest =>
      rw [List.dropLast_cons_cons] at hretriable
      rw [hfirst.not_stored (hretriable entry List.mem_cons_self), List.count_cons_of_ne (by decide)]
      exact ih fun other hother => hretriable other (List.mem_cons_of_mem _ hother)

/-- **The gateway commits a publish at most once.**  Whatever the connections do, a call goes on to
another broker only from brokers that did not get the whole body, or that have answered with one of four
codes; it tries at most three brokers and none twice; and it succeeds only if a broker has answered with
OK.  A session of a broker gives one of these codes only if it has written nothing, so at most one broker
stores the messages. -/
theorem publish_commits_once (available : List Backend) (candidates : List Candidate)
    (command : ClientCommand) (current : Option Sent) :
    let run := publish available candidates command current
    (∀ entry ∈ run.sent.dropLast, entry.connection.accepted < command.length ∨
      ∃ frame, entry.connection.reading = .frame frame ∧ frame.frameType = 1 ∧
        ∃ code ∈ ["E_DRAINING", "E_CLOSING", "E_THROTTLED", "E_PUB_RETRY"],
          textBytes code <+: frame.body) ∧
    (run.attempted.card ≤ 3 ∧ (∀ entry ∈ run.sent, entry.backend.nodeId ∈ run.attempted) ∧
      (run.sent.map fun entry => entry.backend.nodeId).Nodup) ∧
    (run.result = .ok () → ∃ entry ∈ run.sent, entry.connection.reading = .frame .ok) ∧
    (∀ (settings : PublishSettings) (limits : SessionLimits) (around : SessionAround) (complete : Bool)
      (frame : Frame),
      (publishCommand settings limits around command.command command.body complete).reply = some frame →
      frame.frameType = 1 → retriableError frame.body = true →
      (publishCommand settings limits around command.command command.body complete).stored = false) ∧
    ∀ stored : List Bool, List.Forall₂ (Served command) run.sent stored → stored.count true ≤ 1 := by
  intro run
  have hsound : run.Sound command := publish_sound available candidates command current
  refine ⟨?_, ⟨hsound.few, hsound.tried, hsound.once⟩, hsound.accepted, ?_, ?_⟩
  · intro entry hentry
    rcases hsound.retriable entry hentry with hpartial | ⟨frame, hreading, htype, hcode⟩
    · exact Or.inl hpartial
    · exact Or.inr ⟨frame, hreading, htype, retriableError_eq_true hcode⟩
  · exact fun settings limits around complete frame => publishCommand_retriable
  · exact fun stored hserved => count_stored_le hserved hsound.retriable

end RustQueue.Proxy
