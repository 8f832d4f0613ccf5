import RustQueue.Channel.Run
import RustQueue.Channel.Wal
import RustQueue.Name
import RustQueue.Topic.Directory

/-!
# The operations of a topic on its channels

Each operation is a function of the topic in memory.  It returns the new topic together with the
durable writes it makes, in their order, or an error.  Errors of the operating system are left out:
an error here is one that the code decides on.  Clocks are arguments.

The log of a channel appears as the list of its commands.  How these are framed in bytes, and what
a crash leaves of the bytes, is the subject of `Channel.Durability`.
-/

namespace RustQueue.Topic

open Lib Channel Storage

/-- The new topic and the writes, or an error. -/
abbrev Outcome := Except BrokerError (Topic × List Write)

/-- One operation after another. -/
def Outcome.andThen (first : Outcome) (next : Topic → Outcome) : Outcome :=
  match first with
  | .error error => .error error
  | .ok (topic, writes) =>
    match next topic with
    | .error error => .error error
    | .ok (topic, more) => .ok (topic, writes ++ more)

/-- An operation for each element of a list, in its order. -/
def Outcome.forEach {α : Type*} (operation : Topic → α → Outcome) (topic : Topic) : List α → Outcome
  | [] => .ok (topic, [])
  | a :: rest => (operation topic a).andThen fun topic => forEach operation topic rest

/-! ### The store of a channel -/

def ChannelLog.appendBuffered (log : ChannelLog) (command : ChannelCommand) : ChannelLog where
  pendingWal := log.pendingWal ++ [command]
  commandsSinceCheckpoint := log.commandsSinceCheckpoint + 1

namespace ChannelRuntime

variable (runtime : ChannelRuntime)

/-- The pending commands are written to the log, not yet synced. -/
def prepareSync (name : String) : ChannelRuntime × List Write :=
  match runtime.store with
  | none => (runtime, [])
  | some log =>
    ({ runtime with store := some { log with pendingWal := [] } }, [.appendWal name log.pendingWal])

/-- A command is put behind the pending ones. -/
def appendBuffered (runtime : ChannelRuntime) (command : ChannelCommand) : ChannelRuntime :=
  { runtime with store := runtime.store.map (·.appendBuffered command) }

/-- A command is put behind the pending ones and all of them are synced. -/
def append (name : String) (command : ChannelCommand) : ChannelRuntime × List Write :=
  let (runtime, writes) := (runtime.appendBuffered command).prepareSync name
  (runtime, writes ++ if runtime.store.isSome then [.syncWal name] else [])

def checkpoint (runtime : ChannelRuntime) (name : String) : ChannelRuntime × List Write :=
  match runtime.store with
  | none => (runtime, [])
  | some log =>
    ({ runtime with store := some { log with commandsSinceCheckpoint := 0 } },
      [.replaceCheckpoint name runtime.state.checkpoint, .resetWal name])

def checkpointIfNeeded (name : String) : ChannelRuntime × List Write :=
  if (runtime.store.map ChannelLog.commandsSinceCheckpoint).any (checkpointInterval ≤ ·) then
    runtime.checkpoint name
  else (runtime, [])

def apply (runtime : ChannelRuntime) (command : ChannelCommand) : ChannelRuntime :=
  { runtime with state := runtime.state.apply command }

def expireInFlight (name : String) (now : ℕ) : ℕ × ChannelRuntime × List Write :=
  let positions := runtime.state.expiredPositions now
  if positions = [] then (0, runtime, [])
  else
    let cumulativeCount := satAdd u64Max runtime.state.timeoutCount positions.length
    let (runtime, writes) :=
      if runtime.durableCounters then
        let command := .timeout cumulativeCount
        let (runtime, writes) := runtime.append name command
        let expired := { runtime with state := runtime.state.expirePositions positions }
        (expired.apply command, writes)
      else
        let state := runtime.state.expirePositions positions
        ({ runtime with state := { state with timeoutCount := cumulativeCount } }, [])
    let (runtime, more) := runtime.checkpointIfNeeded name
    (positions.length, runtime, writes ++ more)

end ChannelRuntime

/-! ### Commands -/

variable (topic : Topic)

def channel (name : String) : Except BrokerError ChannelRuntime :=
  match topic.channels[name]? with
  | none => .error .channelNotFound
  | some runtime => .ok runtime

def setChannel (name : String) (runtime : ChannelRuntime) : Topic :=
  { topic with channels := topic.channels.insert name runtime }

/-- An operation on one channel that cannot fail. -/
def onChannel (name : String) (operation : ChannelRuntime → ChannelRuntime × List Write) : Outcome := do
  let runtime ← topic.channel name
  let (runtime, writes) := operation runtime
  return (topic.setChannel name runtime, writes)

/-- The command is durable before it takes effect. -/
def persistChannel (name : String) (command : ChannelCommand) : Outcome :=
  topic.onChannel name fun runtime =>
    let (runtime, writes) := runtime.append name command
    let (runtime, more) := (runtime.apply command).checkpointIfNeeded name
    (runtime, writes ++ more)

def persistChannelBuffered (name : String) (command : ChannelCommand) : Outcome :=
  topic.onChannel name fun runtime => ((runtime.appendBuffered command).apply command, [])

def expireChannelInFlight (name : String) (now : ℕ) : Outcome :=
  topic.onChannel name fun runtime => (runtime.expireInFlight name now).2

def emptyChannel (name : String) : Outcome :=
  topic.persistChannel name (.empty topic.lastPosition)

def setChannelPaused (name : String) (paused : Bool) : Outcome :=
  topic.persistChannel name (.pause paused)

/-! ### Deliveries -/

def ttlNs (seconds : ℕ) : ℤ := min ((satMul u64Max seconds 1000000000 : ℕ) : ℤ) i64Max

def expirationNsForTimestamp (timestampNs : ℤ) : Option ℤ :=
  topic.policy.ttlSeconds.map fun seconds => clampI64 (timestampNs + ttlNs seconds)

/-- Whether the delivery that a call names belongs to an expired message. -/
def deliveryExpired (state : ChannelState) (id : ℕ) (token : Option ℕ) (nowNs : ℤ) : Bool :=
  ((state.inFlightTimestamp id token).bind topic.expirationNsForTimestamp).any (· ≤ nowNs)

/-- The position of the delivery that a call names. -/
def deliveryPosition (state : ChannelState) (id : ℕ) (token : Option ℕ) : Except BrokerError ℕ :=
  match token.elim (state.inFlightPosition id) (state.inFlightPositionWithToken id) with
  | none => .error .messageNotInFlight
  | some position => .ok position

def finishCommand (name : String) (id : ℕ) (requireInFlight : Bool) (token : Option ℕ) (nowNs : ℤ) :
    Except BrokerError ChannelCommand := do
  let position ←
    if requireInFlight then do
      let runtime ← topic.channel name
      if topic.deliveryExpired runtime.state id token nowNs then .error .messageNotInFlight
      else deliveryPosition runtime.state id token
    else do
      match ← topic.messages.positionById id with
      | none => .error .messageNotFound
      | some position => pure position
  return .finish position id

def finishBuffered (name : String) (id : ℕ) (requireInFlight : Bool) (token : Option ℕ) (nowNs : ℤ) :
    Outcome := do
  let command ← topic.finishCommand name id requireInFlight token nowNs
  topic.persistChannelBuffered name command

def requeueCommand (name : String) (id : ℕ) (availableAtMs : ℤ) (token : Option ℕ) (nowNs : ℤ) :
    Except BrokerError ChannelCommand := do
  let runtime ← topic.channel name
  if topic.deliveryExpired runtime.state id token nowNs then .error .messageNotInFlight
  else
    let position ← deliveryPosition runtime.state id token
    return .requeue position id availableAtMs (runtime.state.deliveryAttempts position)
      (if runtime.durableCounters then some runtime.state.nextRequeueCount else none)

def requeueBuffered (name : String) (id : ℕ) (availableAtMs : ℤ) (token : Option ℕ) (nowNs : ℤ) :
    Outcome := do
  let command ← topic.requeueCommand name id availableAtMs token nowNs
  topic.persistChannelBuffered name command

/-- A change of the state of one channel in memory. -/
def modifyState (name : String) (f : ChannelState → ChannelState) : Topic :=
  match topic.channels[name]? with
  | none => topic
  | some runtime => topic.setChannel name { runtime with state := f runtime.state }

def touchWithToken (name : String) (id : ℕ) (token : Option ℕ) (deadline : ℕ) (nowNs : ℤ) :
    Except BrokerError Topic := do
  let runtime ← topic.channel name
  if topic.deliveryExpired runtime.state id token nowNs then .error .messageNotInFlight
  else
    let position ← deliveryPosition runtime.state id token
    if (runtime.state.touchUntil position deadline).1 then
      return topic.modifyState name fun state => (state.touchUntil position deadline).2
    else .error .messageNotInFlight

/-- The positions are found before any deadline moves. -/
def touchDeliveriesWithTokens (name : String) (deliveries : List (ℕ × ℕ)) (deadline : ℕ) (nowNs : ℤ) :
    Except BrokerError Topic := do
  let runtime ← topic.channel name
  if deliveries.any fun delivery =>
      topic.deliveryExpired runtime.state delivery.1 (some delivery.2) nowNs then
    .error .messageNotInFlight
  else
    let positions ← deliveries.mapM fun delivery =>
      deliveryPosition runtime.state delivery.1 (some delivery.2)
    return topic.modifyState name fun state =>
      positions.foldl (fun state position => (state.touchUntil position deadline).2) state

def release (topic : Topic) (name : String) (ids : List ℕ) : Topic :=
  topic.modifyState name fun state =>
    ids.foldl (fun state id => (state.inFlightPosition id).elim state state.release) state

def releaseWithTokens (name : String) (deliveries : List (ℕ × ℕ)) : Topic :=
  topic.modifyState name fun state =>
    deliveries.foldl
      (fun state delivery =>
        (state.inFlightPositionWithToken delivery.1 delivery.2).elim state state.release)
      state

/-- The positions and tokens of some reservations are given back. -/
def cancel (topic : Topic) (name : String) (reservations : List (ℕ × ℕ)) : Topic :=
  topic.modifyState name fun state =>
    reservations.foldl (fun state reservation => state.cancel reservation.1 reservation.2) state

end RustQueue.Topic
