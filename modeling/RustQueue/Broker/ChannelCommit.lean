import RustQueue.Topic.Commands

/-!
# Group commit of channel operations

FIN and REQ requests are queued to one worker per topic, which executes them in groups: every
request of a group takes effect under the topic lock, the logs of the channels are written, and the
requests are answered once the logs are synced.  `commitLoop` is the part under the topic lock.  What
the requests meet outside of the topic is an argument: whether management lets a request pass, and
whether the store of its channel refuses the command.
-/

namespace RustQueue.Broker

open Channel Topic

inductive ChannelOperation where
  | finish (id : ℕ) (requireInFlight : Bool) (token : Option ℕ)
  | requeue (id : ℕ) (availableAtMs : ℤ) (token : Option ℕ)
  deriving DecidableEq, Repr

def ChannelOperation.token : ChannelOperation → Option ℕ
  | .finish _ _ token | .requeue _ _ token => token

/-- The operation is refused when no delivery is in flight, as it is for every queued request. -/
def ChannelOperation.requiresInFlight : ChannelOperation → Bool
  | .finish _ requireInFlight _ => requireInFlight
  | .requeue _ _ _ => true

structure ChannelRequest where
  channel : String
  operation : ChannelOperation
  deriving DecidableEq, Repr

/-- The effect of a request on the topic, and the writes of none. -/
def ChannelRequest.execute (request : ChannelRequest) (topic : Topic) (nowNs : ℤ) : Outcome :=
  match request.operation with
  | .finish id requireInFlight token =>
    topic.finishBuffered request.channel id requireInFlight token nowNs
  | .requeue id availableAtMs token =>
    topic.requeueBuffered request.channel id availableAtMs token nowNs

/-- What the requests of a group meet, by their number. -/
structure GroupAround where
  access : ℕ → Except BrokerError Unit
  refused : ℕ → Bool
  nowNs : ℕ → ℤ

/-- A request that took effect waits for the end of its group, any other is answered. -/
inductive Reply where
  | pending
  | sent (result : Except BrokerError Unit)

/-- The end of a group in the middle: the request at fault gets its error, those behind it
`StorageUnavailable`. -/
def abortGroup (topic : Topic) (error : BrokerError) (rest : List ChannelRequest) :
    List Reply × Topic × Bool :=
  (.sent (.error error.copyError) :: rest.map fun _ => .sent (.error .storageUnavailable), topic,
    false)

/-- The requests of a group under the topic lock.  The last component says that none of them met a
storage error. -/
def commitLoop (around : GroupAround) :
    ℕ → Topic → List ChannelRequest → List Reply × Topic × Bool
  | _, topic, [] => ([], topic, true)
  | n, topic, request :: rest =>
    match around.access n with
    | .error error =>
      let (replies, topic, done) := commitLoop around (n + 1) topic rest
      (.sent (.error error) :: replies, topic, done)
    | .ok () =>
      match request.execute topic (around.nowNs n) with
      | .error error =>
        if error.isStorageError then abortGroup topic error rest
        else
          let (replies, topic, done) := commitLoop around (n + 1) topic rest
          (.sent (.error error) :: replies, topic, done)
      | .ok (applied, _) =>
        if around.refused n then abortGroup topic .storageUnavailable rest
        else
          let (replies, topic, done) := commitLoop around (n + 1) applied rest
          (.pending :: replies, topic, done)

end RustQueue.Broker
