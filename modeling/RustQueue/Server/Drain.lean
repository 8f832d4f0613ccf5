import Mathlib.Tactic

/-!
# Draining a node

A drain request stores two flags, and the status of a drain reads counters and flags one after the
other: the deliveries in flight topic by topic, the bytes held for delivery, the two flags, and at
last the bytes of publishes.  Consumer sessions run next to it.  A session reads the delivery flag,
fetches, and hands what it fetched to its socket; a TCP session reads the flag again when the fetch
is done, a WebSocket session does not.  The writer of a TCP session buffers its output: a message that
was handed to it reaches the client when the buffer is flushed, at a tick or by whatever is written next.

`Step` is one turn of anything in the node, and `Run` a history of such turns.  `Calm` names what
has to be avoided for the status to be reliable; `Orderly` is the invariant of the runs that avoid it.
-/

namespace RustQueue.Server

namespace Drain

/-! ### The node -/

/-- A delivery reserved in a channel.  `session` is the session whose fetch reserved it. -/
structure Delivery where
  token : ℕ
  session : ℕ
  topic : String
  bytes : ℕ
  deriving DecidableEq, Repr

inductive Kind where
  | tcp
  | websocket
  deriving DecidableEq, Repr

/-- Where a session is with its deliveries. -/
inductive Phase where
  /-- No fetch is under way. -/
  | idle
  /-- The flag was set when the fetch began; these are reserved so far. -/
  | fetching (batch : List Delivery)
  /-- The bytes of the batch are held while it is read and until it is handed out. -/
  | held (batch : List Delivery) (hold : ℕ)
  /-- A TCP session found the flag set after the fetch. -/
  | checked (batch : List Delivery) (hold : ℕ)
  /-- These are still to be handed to the socket. -/
  | handing (batch : List Delivery) (hold : ℕ)
  deriving DecidableEq, Repr

namespace Phase

def batch : Phase → List Delivery
  | idle => []
  | fetching batch => batch
  | held batch _ => batch
  | checked batch _ => batch
  | handing batch _ => batch

def hold : Phase → ℕ
  | idle => 0
  | fetching _ => 0
  | held _ hold => hold
  | checked _ hold => hold
  | handing _ hold => hold

end Phase

/-- `buffer` has the messages that were handed to the writer of a TCP session and are not flushed. -/
structure Session where
  kind : Kind
  phase : Phase
  buffer : List Delivery
  deriving DecidableEq, Repr

/-- A TCP session has still to hand the delivery to its writer, or to flush it. -/
def Session.Owes (session : Session) (d : Delivery) : Prop :=
  session.kind = .tcp ∧ (d ∈ session.buffer ∨ ∃ batch hold, session.phase = .handing batch hold ∧ d ∈ batch)

/-- A request for the drain status, after each of its reads. -/
inductive StatusRequest where
  | counting (left : List String) (inFlight : ℕ)
  | counted (inFlight bytes : ℕ)
  | readAccepting (inFlight bytes : ℕ) (draining : Bool)
  | readDelivering (inFlight bytes : ℕ) (draining deliveryFrozen : Bool)
  deriving DecidableEq, Repr

structure Node where
  accepting : Bool
  delivering : Bool
  publishInflightBytes : ℕ
  topics : List String
  inFlight : Finset Delivery
  sessions : List Session
  requests : List StatusRequest

namespace Node

/-- A node that was just started. -/
def started : Node where
  accepting := true
  delivering := true
  publishInflightBytes := 0
  topics := []
  inFlight := ∅
  sessions := []
  requests := []

def setSession (node : Node) (i : ℕ) (session : Session) : Node :=
  { node with sessions := node.sessions.set i session }

/-- A session drops its batch: what was reserved for it is cancelled. -/
def dropBatch (node : Node) (i : ℕ) (session : Session) (buffer : List Delivery) : Node :=
  { node.setSession i ⟨session.kind, .idle, buffer⟩ with
    inFlight := node.inFlight \ session.phase.batch.toFinset }

/-- The counter of bytes held for delivery, which every hold adds to while it lives. -/
def deliveryInflightBytes (node : Node) : ℕ :=
  (node.sessions.map fun session => session.phase.hold).sum

/-- The deliveries in flight in all channels of a topic. -/
def inFlightOf (node : Node) (topic : String) : ℕ :=
  (node.inFlight.filter fun delivery => delivery.topic = topic).card

end Node

/-- A read of a payload can keep two copies of it for a moment. -/
def payloadReadWorkingSetFactor : ℕ := 2

def holdBytes (batch : List Delivery) : ℕ :=
  (batch.map Delivery.bytes).sum * payloadReadWorkingSetFactor

structure DrainRequest where
  enabled : Bool
  freezeDeliveries : Bool
  deriving DecidableEq, Repr

/-- The field `quiesced` of a drain status. -/
def quiesced (draining deliveryFrozen : Bool) (inFlight publishBytes deliveryBytes : ℕ) : Bool :=
  draining && deliveryFrozen && inFlight == 0 && publishBytes == 0 && deliveryBytes == 0

/-! ### Steps -/

/-- What can be told of a step from outside. -/
inductive Label where
  | store (delivering : Bool)
  | reserve (session : ℕ)
  | settle (deliveries : Finset Delivery)
  | write (session : ℕ) (delivery : Delivery)
  | request
  | answer (quiesced : Bool)
  | internal

/-- One turn of a request, of a session or of the broker behind them. -/
inductive Step : Node → Label → Node → Prop
  | storeAccepting (node : Node) (request : DrainRequest) :
      Step node .internal { node with accepting := !request.enabled }
  | storeDelivering (node : Node) (request : DrainRequest) :
      Step node (.store (!request.enabled || !request.freezeDeliveries))
        { node with delivering := !request.enabled || !request.freezeDeliveries }
  | publish (node : Node) (bytes : ℕ) :
      Step node .internal { node with publishInflightBytes := bytes }
  | createTopic (node : Node) (topic : String) :
      Step node .internal { node with topics := topic :: node.topics }
  | deleteTopic (node : Node) (topic : String) (settled : ∀ d ∈ node.inFlight, d.topic ≠ topic) :
      Step node .internal { node with topics := node.topics.filter (· ≠ topic) }
  | connect (node : Node) (kind : Kind) :
      Step node .internal { node with sessions := node.sessions ++ [⟨kind, .idle, []⟩] }
  | start {node : Node} {i : ℕ} {kind : Kind} {buffer : List Delivery}
      (h : node.sessions[i]? = some ⟨kind, .idle, buffer⟩) (delivering : node.delivering = true) :
      Step node .internal (node.setSession i ⟨kind, .fetching [], buffer⟩)
  | reserve {node : Node} {i : ℕ} {kind : Kind} {batch more buffer : List Delivery} {topic : String}
      (h : node.sessions[i]? = some ⟨kind, .fetching batch, buffer⟩) (known : topic ∈ node.topics)
      (fresh : ∀ d ∈ more, d.session = i ∧ d.topic = topic ∧ d ∉ node.inFlight)
      (distinct : (batch ++ more ++ buffer).Nodup)
      (room : kind = .websocket → (batch ++ more).length ≤ 1) :
      Step node (.reserve i)
        { node.setSession i ⟨kind, .fetching (batch ++ more), buffer⟩ with
          inFlight := node.inFlight ∪ more.toFinset }
  | acquire {node : Node} {i : ℕ} {kind : Kind} {batch buffer : List Delivery}
      (h : node.sessions[i]? = some ⟨kind, .fetching batch, buffer⟩) :
      Step node .internal (node.setSession i ⟨kind, .held batch (holdBytes batch), buffer⟩)
  | check {node : Node} {i : ℕ} {batch buffer : List Delivery} {hold : ℕ}
      (h : node.sessions[i]? = some ⟨.tcp, .held batch hold, buffer⟩)
      (delivering : node.delivering = true) :
      Step node .internal (node.setSession i ⟨.tcp, .checked batch hold, buffer⟩)
  | discard {node : Node} {i : ℕ} {batch buffer : List Delivery} {hold : ℕ}
      (h : node.sessions[i]? = some ⟨.tcp, .held batch hold, buffer⟩)
      (frozen : node.delivering = false) :
      Step node .internal (node.dropBatch i ⟨.tcp, .held batch hold, buffer⟩ buffer)
  | touch {node : Node} {i : ℕ} {batch buffer : List Delivery} {hold : ℕ}
      (h : node.sessions[i]? = some ⟨.tcp, .checked batch hold, buffer⟩)
      (outstanding : ∀ d ∈ batch, d ∈ node.inFlight) :
      Step node .internal (node.setSession i ⟨.tcp, .handing batch hold, buffer⟩)
  | deliverOne {node : Node} {i : ℕ} {batch buffer : List Delivery} {hold : ℕ}
      (h : node.sessions[i]? = some ⟨.websocket, .held batch hold, buffer⟩) :
      Step node .internal (node.setSession i ⟨.websocket, .handing batch hold, buffer⟩)
  | send {node : Node} {i : ℕ} {d : Delivery} {batch buffer : List Delivery} {hold : ℕ}
      (h : node.sessions[i]? = some ⟨.websocket, .handing (d :: batch) hold, buffer⟩) :
      Step node (.write i d) (node.setSession i ⟨.websocket, .handing batch hold, buffer⟩)
  | hand {node : Node} {i : ℕ} {d : Delivery} {batch buffer : List Delivery} {hold : ℕ}
      (h : node.sessions[i]? = some ⟨.tcp, .handing (d :: batch) hold, buffer⟩) :
      Step node .internal (node.setSession i ⟨.tcp, .handing batch hold, buffer ++ [d]⟩)
  | flush {node : Node} {i : ℕ} {phase : Phase} {d : Delivery} {buffer : List Delivery}
      (h : node.sessions[i]? = some ⟨.tcp, phase, d :: buffer⟩) :
      Step node (.write i d) (node.setSession i ⟨.tcp, phase, buffer⟩)
  | skip {node : Node} {i : ℕ} {kind : Kind} {d : Delivery} {batch buffer : List Delivery} {hold : ℕ}
      (h : node.sessions[i]? = some ⟨kind, .handing (d :: batch) hold, buffer⟩) :
      Step node .internal (node.setSession i ⟨kind, .handing batch hold, buffer⟩)
  | abandon {node : Node} {i : ℕ} {session : Session} {buffer : List Delivery}
      (h : node.sessions[i]? = some session) (kept : buffer = session.buffer ∨ buffer = []) :
      Step node .internal (node.dropBatch i session buffer)
  | settle (node : Node) (deliveries : Finset Delivery) :
      Step node (.settle deliveries) { node with inFlight := node.inFlight \ deliveries }
  | request (node : Node) :
      Step node .request { node with requests := node.requests ++ [.counting node.topics 0] }
  | count {node : Node} {before after : List StatusRequest} {topic : String} {left : List String}
      {inFlight : ℕ} (h : node.requests = before ++ .counting (topic :: left) inFlight :: after) :
      Step node .internal
        { node with
          requests := before ++ .counting left (inFlight + node.inFlightOf topic) :: after }
  | readBudget {node : Node} {before after : List StatusRequest} {inFlight : ℕ}
      (h : node.requests = before ++ .counting [] inFlight :: after) :
      Step node .internal
        { node with requests := before ++ .counted inFlight node.deliveryInflightBytes :: after }
  | readAccepting {node : Node} {before after : List StatusRequest} {inFlight bytes : ℕ}
      (h : node.requests = before ++ .counted inFlight bytes :: after) :
      Step node .internal
        { node with
          requests := before ++ .readAccepting inFlight bytes (!node.accepting) :: after }
  | readDelivering {node : Node} {before after : List StatusRequest} {inFlight bytes : ℕ}
      {draining : Bool} (h : node.requests = before ++ .readAccepting inFlight bytes draining :: after) :
      Step node .internal
        { node with
          requests := before ++ .readDelivering inFlight bytes draining (!node.delivering) :: after }
  | answer {node : Node} {before after : List StatusRequest} {inFlight bytes : ℕ}
      {draining deliveryFrozen : Bool}
      (h : node.requests = before ++ .readDelivering inFlight bytes draining deliveryFrozen :: after) :
      Step node (.answer (quiesced draining deliveryFrozen inFlight node.publishInflightBytes bytes))
        { node with requests := before ++ after }

/-- A history of steps that `Allowed` admits, oldest first. -/
inductive Run (Allowed : Node → Label → Prop) : Node → List Label → Prop
  | start : Run Allowed .started []
  | step {node node' : Node} {history : List Label} {label : Label} (h : Run Allowed node history)
      (step : Step node label node') (allowed : Allowed node label) :
      Run Allowed node' (history ++ [label])

/-- After an answer that the node is quiesced nothing is written until deliveries are on again. -/
def StaysQuiet (history : List Label) : Prop :=
  ∀ before after, history = before ++ .answer true :: after → .store true ∉ after →
    ∀ session delivery, .write session delivery ∉ after

/-- What makes the status reliable.  A status request begins when deliveries are frozen, no WebSocket
session has a fetch under way, and every message that a TCP session has still to hand out or to flush is in
flight.  From then to its answer no fetch reserves anything, deliveries stay off, and no delivery is settled
under a TCP session that has still to hand it out or to flush it. -/
def Calm (node : Node) : Label → Prop
  | .request => node.delivering = false ∧
      (∀ session ∈ node.sessions, session.kind = .websocket → session.phase = .idle) ∧
      ∀ session ∈ node.sessions, ∀ d, session.Owes d → d ∈ node.inFlight
  | .reserve _ => node.requests = []
  | .store true => node.requests = []
  | .settle deliveries => node.requests ≠ [] →
      ∀ session ∈ node.sessions, ∀ d, session.Owes d → d ∉ deliveries
  | _ => True

/-! ### The sessions of a node -/

/-- Every session of the node, with its number. -/
def Each (node : Node) (P : ℕ → Session → Prop) : Prop :=
  ∀ i session, node.sessions[i]? = some session → P i session

section Sessions

variable {node node' : Node} {i : ℕ} {kind : Kind} {next : Session} {P : ℕ → Session → Prop}

theorem each_of_mem {P : Session → Prop} (h : ∀ session ∈ node.sessions, P session) :
    Each node fun _ session => P session :=
  fun _ session hi => h session (List.mem_of_getElem? hi)

/-- A property that may change as long as it does so at one session only. -/
theorem Each.setSession {Q : ℕ → Session → Prop} (h : Each node P) (hi : Q i next)
    (himp : ∀ j session, j ≠ i → P j session → Q j session) :
    Each (node.setSession i next) Q := by
  intro j session hj
  simp only [Node.setSession, List.getElem?_set] at hj
  by_cases hij : i = j
  · rw [if_pos hij] at hj
    by_cases hlt : i < node.sessions.length
    · rw [if_pos hlt] at hj
      cases hj
      exact hij ▸ hi
    · rw [if_neg hlt] at hj
      cases hj
  · rw [if_neg hij] at hj
    exact himp j session (Ne.symm hij) (h j session hj)

theorem Each.append (h : Each node P) (hnew : ∀ j, P j ⟨kind, .idle, []⟩) :
    Each { node with sessions := node.sessions ++ [⟨kind, .idle, []⟩] } P := by
  intro j session hj
  by_cases hlt : j < node.sessions.length
  · rw [List.getElem?_append_left hlt] at hj
    exact h j session hj
  · rw [List.getElem?_append_right (not_lt.1 hlt)] at hj
    rw [List.mem_singleton.1 (List.mem_of_getElem? hj)]
    exact hnew j

end Sessions

/-! ### The invariant of calm runs -/

/-- What the reads of a request have established for good. -/
def StatusRequest.Seen (node : Node) : StatusRequest → Prop
  | .counting left inFlight => inFlight = 0 → ∀ d ∈ node.inFlight, d.topic ∈ left
  | .counted inFlight _ | .readAccepting inFlight _ _ | .readDelivering inFlight _ _ _ =>
    inFlight = 0 → node.inFlight = ∅

/-- No WebSocket session has a fetch under way. -/
def SocketsIdle (node : Node) : Prop :=
  Each node fun _ session => session.kind = .websocket → session.phase = .idle

/-- What a TCP session has still to hand out or to flush is in flight. -/
def Outstanding (node : Node) : Prop :=
  Each node fun _ session => ∀ d, session.Owes d → d ∈ node.inFlight

structure Orderly (node : Node) : Prop where
  owned : Each node fun i session => ∀ d ∈ session.phase.batch ++ session.buffer, d.session = i
  distinct : Each node fun _ session => (session.phase.batch ++ session.buffer).Nodup
  known : ∀ d ∈ node.inFlight, d.topic ∈ node.topics
  requests : ∀ request ∈ node.requests,
    node.delivering = false ∧ SocketsIdle node ∧ Outstanding node ∧ request.Seen node

/-- A step of a frozen node brings nothing back. -/
structure Winds (node node' : Node) : Prop where
  delivering : node'.delivering = node.delivering
  inFlight : node'.inFlight ⊆ node.inFlight
  sockets : SocketsIdle node'
  outstanding : Outstanding node'

section Orderly

variable {node node' : Node} {i : ℕ} {old next : Session}

theorem StatusRequest.Seen.winds {request : StatusRequest} (h : request.Seen node)
    (hwinds : Winds node node') : request.Seen node' := by
  cases request with
  | counting left inFlight => exact fun hzero d hd => h hzero d (hwinds.inFlight hd)
  | counted | readAccepting | readDelivering =>
    exact fun hzero => Finset.subset_empty.1 ((h hzero) ▸ hwinds.inFlight)

/-- The requests of a node after a step that leaves them alone. -/
theorem Orderly.winds (h : Orderly node) (hrequests : node'.requests = node.requests)
    (hwinds : node.requests ≠ [] → node.delivering = false → SocketsIdle node → Outstanding node →
      Winds node node') :
    ∀ request ∈ node'.requests,
      node'.delivering = false ∧ SocketsIdle node' ∧ Outstanding node' ∧ request.Seen node' := by
  intro request hmem
  rw [hrequests] at hmem
  obtain ⟨hfrozen, hidle, houtstanding, hseen⟩ := h.requests request hmem
  have hw := hwinds (List.ne_nil_of_mem hmem) hfrozen hidle houtstanding
  exact ⟨hw.delivering.trans hfrozen, hw.sockets, hw.outstanding, hseen.winds hw⟩

/-- A session moves on: it owes what it owed, or what is in flight. -/
theorem Orderly.setSession (h : Orderly node) (hi : node.sessions[i]? = some old)
    (howned : ∀ d ∈ next.phase.batch ++ next.buffer, d ∈ old.phase.batch ++ old.buffer)
    (hdistinct : (old.phase.batch ++ old.buffer).Nodup → (next.phase.batch ++ next.buffer).Nodup)
    (hmoves : node.delivering = false → (old.kind = .websocket → old.phase = .idle) →
      (next.kind = .websocket → next.phase = .idle) ∧
        ∀ d, next.Owes d → old.Owes d ∨ d ∈ node.inFlight) :
    Orderly (node.setSession i next) := by
  refine ⟨h.owned.setSession (fun d hd => h.owned i old hi d (howned d hd)) fun _ _ _ h => h,
    h.distinct.setSession (hdistinct (h.distinct i old hi)) fun _ _ _ h => h, h.known,
    h.winds rfl fun _ hfrozen hidle houtstanding => ?_⟩
  obtain ⟨hsocket, howes⟩ := hmoves hfrozen (hidle i old hi)
  refine ⟨rfl, subset_rfl, hidle.setSession hsocket fun _ _ _ h => h,
    houtstanding.setSession (fun d hd => ?_) fun _ _ _ h => h⟩
  exact (howes d hd).elim (houtstanding i old hi d) id

theorem Orderly.settle (h : Orderly node) {deliveries : Finset Delivery}
    (hcalm : node.requests ≠ [] → Each node fun _ session => ∀ d, session.Owes d → d ∉ deliveries) :
    Orderly { node with inFlight := node.inFlight \ deliveries } := by
  refine ⟨h.owned, h.distinct, fun d hd => h.known d (Finset.mem_sdiff.1 hd).1,
    h.winds rfl fun hpending hfrozen hidle houtstanding =>
      ⟨rfl, Finset.sdiff_subset, hidle, fun j session hj d hd => ?_⟩⟩
  exact Finset.mem_sdiff.2 ⟨houtstanding j session hj d hd, hcalm hpending j session hj d hd⟩

theorem Session.Owes.mem {session : Session} {d : Delivery} (h : session.Owes d) :
    d ∈ session.phase.batch ++ session.buffer := by
  rcases h.2 with hbuffer | ⟨batch, hold, hphase, hd⟩
  · exact List.mem_append_right _ hbuffer
  · rw [hphase]
    exact List.mem_append_left _ hd

theorem not_owes_idle {kind : Kind} {d : Delivery} {buffer : List Delivery}
    (h : Session.Owes ⟨kind, .idle, buffer⟩ d) : d ∈ buffer := by
  rcases h.2 with hbuffer | ⟨batch, hold, hphase, -⟩
  · exact hbuffer
  · cases hphase

theorem Orderly.dropBatch (h : Orderly node) (hi : node.sessions[i]? = some old) {buffer : List Delivery}
    (hkept : buffer = old.buffer ∨ buffer = []) : Orderly (node.dropBatch i old buffer) := by
  have hbuffer : buffer.Sublist old.buffer := by
    rcases hkept with rfl | rfl
    · exact List.Sublist.refl _
    · exact List.nil_sublist _
  have hidle : Orderly (node.setSession i ⟨old.kind, .idle, buffer⟩) :=
    h.setSession hi (fun d hd => List.mem_append_right _ (hbuffer.subset hd))
      (fun hdistinct => hdistinct.of_append_right.sublist hbuffer)
      fun _ _ => ⟨fun _ => rfl, fun d hd =>
        Or.inl ⟨hd.1, Or.inl (hbuffer.subset (not_owes_idle hd))⟩⟩
  refine hidle.settle fun _ => Each.setSession
    (P := fun j session => ∀ d ∈ session.phase.batch ++ session.buffer, d.session = j) h.owned ?_ ?_
  -- what is left in the buffer is not in the batch
  · intro d hd hmem
    exact List.disjoint_of_nodup_append (h.distinct i old hi) (List.mem_toFinset.1 hmem)
      (hbuffer.subset (not_owes_idle hd))
  -- another session's deliveries are its own
  · intro j session hj howned d hd hmem
    have hown := h.owned i old hi d (List.mem_append_left _ (List.mem_toFinset.1 hmem))
    exact hj ((howned d hd.mem).symm.trans hown)

theorem Orderly.readOn (h : Orderly node) {before after : List StatusRequest}
    {request request' : StatusRequest} (hrequests : node.requests = before ++ request :: after)
    (hseen : request.Seen node → request'.Seen node) :
    Orderly { node with requests := before ++ request' :: after } := by
  refine ⟨h.owned, h.distinct, h.known, fun other hmem => ?_⟩
  have hold : ∀ r ∈ before ++ request :: after,
      node.delivering = false ∧ SocketsIdle node ∧ Outstanding node ∧ r.Seen node :=
    hrequests ▸ h.requests
  rcases List.mem_append.1 hmem with hmem | hmem
  · exact hold other (List.mem_append_left _ hmem)
  rcases List.mem_cons.1 hmem with rfl | hmem
  · obtain ⟨hfrozen, hidle, houtstanding, hrequest⟩ := hold request (by simp)
    exact ⟨hfrozen, hidle, houtstanding, hseen hrequest⟩
  · exact hold other (by simp [hmem])

theorem counted_topic {topic : String} {left : List String} {inFlight : ℕ}
    (h : StatusRequest.Seen node (.counting (topic :: left) inFlight)) :
    StatusRequest.Seen node (.counting left (inFlight + node.inFlightOf topic)) := by
  intro hzero d hd
  have hnone : node.inFlightOf topic = 0 := by omega
  rcases List.mem_cons.1 (h (by omega) d hd) with htopic | hleft
  · have hmem : d ∈ node.inFlight.filter fun delivery => delivery.topic = topic :=
      Finset.mem_filter.2 ⟨hd, htopic⟩
    rw [Finset.card_eq_zero.1 hnone] at hmem
    exact absurd hmem (Finset.notMem_empty d)
  · exact hleft

theorem counted_all {inFlight : ℕ} (h : StatusRequest.Seen node (.counting [] inFlight)) :
    StatusRequest.Seen node (.counted inFlight node.deliveryInflightBytes) :=
  fun hzero => Finset.eq_empty_of_forall_notMem fun d hd => absurd (h hzero d hd) List.not_mem_nil

theorem no_request {request : StatusRequest} (hnone : node.requests = [])
    (hmem : request ∈ node.requests) : False := by
  rw [hnone] at hmem
  cases hmem

/-- **A calm step keeps the invariant.** -/
theorem Orderly.step (h : Orderly node) {label : Label} (hcalm : Calm node label)
    (step : Step node label node') : Orderly node' := by
  cases step with
  | storeAccepting | publish => exact ⟨h.owned, h.distinct, h.known, h.requests⟩
  | storeDelivering request =>
    refine ⟨h.owned, h.distinct, h.known, fun r hmem => ?_⟩
    cases hdelivering : (!request.enabled || !request.freezeDeliveries) with
    | false => exact ⟨rfl, (h.requests r hmem).2⟩
    | true =>
      rw [hdelivering] at hcalm
      exact absurd (no_request hcalm hmem) id
  | createTopic topic =>
    exact ⟨h.owned, h.distinct, fun d hd => List.mem_cons_of_mem _ (h.known d hd), h.requests⟩
  | deleteTopic topic settled =>
    refine ⟨h.owned, h.distinct, fun d hd => ?_, h.requests⟩
    exact List.mem_filter.2 ⟨h.known d hd, by simpa using settled d hd⟩
  | connect kind =>
    refine ⟨h.owned.append fun j d hd => absurd hd List.not_mem_nil,
      h.distinct.append fun _ => List.nodup_nil, h.known, h.winds rfl fun _ hfrozen hidle houtstanding =>
        ⟨rfl, subset_rfl, hidle.append fun _ _ => rfl, houtstanding.append fun _ d hd => ?_⟩⟩
    exact absurd (not_owes_idle hd) List.not_mem_nil
  | @start i kind buffer hi delivering =>
    refine h.setSession hi (fun d hd => hd) (fun hdistinct => hdistinct) fun hfrozen _ => ?_
    rw [hfrozen] at delivering
    cases delivering
  | @reserve i kind batch more buffer topic hi known fresh distinct room =>
    have howned := h.owned i _ hi
    refine ⟨h.owned.setSession (fun d hd => ?_) fun _ _ _ h => h,
      h.distinct.setSession distinct fun _ _ _ h => h, fun d hd => ?_, fun r hmem => ?_⟩
    · rcases List.mem_append.1 hd with hd | hd
      · rcases List.mem_append.1 hd with hd | hd
        · exact howned d (List.mem_append_left _ hd)
        · exact (fresh d hd).1
      · exact howned d (List.mem_append_right _ hd)
    · rcases Finset.mem_union.1 hd with hd | hd
      · exact h.known d hd
      · exact (fresh d (List.mem_toFinset.1 hd)).2.1 ▸ known
    · exact absurd (no_request hcalm hmem) id
  | @acquire i kind batch buffer hi =>
    refine h.setSession hi (fun d hd => hd) (fun hdistinct => hdistinct) fun _ hidle =>
      ⟨fun hkind => (by cases hidle hkind), fun d hd => Or.inl ⟨hd.1, hd.2.imp_right ?_⟩⟩
    rintro ⟨_, _, hphase, -⟩
    cases hphase
  | @check i batch buffer hold hi delivering =>
    refine h.setSession hi (fun d hd => hd) (fun hdistinct => hdistinct) fun hfrozen _ => ?_
    rw [hfrozen] at delivering
    cases delivering
  | discard hi frozen => exact h.dropBatch hi (Or.inl rfl)
  | @touch i batch buffer hold hi outstanding =>
    refine h.setSession hi (fun d hd => hd) (fun hdistinct => hdistinct) fun _ _ =>
      ⟨fun hkind => (by cases hkind), fun d hd => ?_⟩
    rcases hd.2 with hbuffer | ⟨_, _, hphase, hd⟩
    · exact Or.inl ⟨rfl, Or.inl hbuffer⟩
    · cases hphase
      exact Or.inr (outstanding d hd)
  | deliverOne hi | send hi =>
    refine h.setSession hi (fun d hd => ?_) (fun hdistinct => ?_) fun _ hidle => by cases hidle rfl
    · simp_all [Phase.batch]
    · first
      | exact hdistinct
      | exact (List.nodup_cons.1 hdistinct).2
  | @hand i d batch buffer hold hi =>
    have hperm : (batch ++ (buffer ++ [d])).Perm (d :: batch ++ buffer) := by
      rw [← List.append_assoc]
      exact List.perm_append_singleton d _
    refine h.setSession hi (fun d' hd => hperm.subset hd) (fun hdistinct => hperm.nodup_iff.2 hdistinct)
      fun _ _ => ⟨fun hkind => (by cases hkind), fun d' hd => Or.inl ⟨rfl, ?_⟩⟩
    rcases hd.2 with hbuffer | ⟨_, _, hphase, hd⟩
    · rcases List.mem_append.1 hbuffer with hbuffer | hd
      · exact Or.inl hbuffer
      · exact Or.inr ⟨_, _, rfl, List.mem_cons.2 (Or.inl (List.mem_singleton.1 hd))⟩
    · cases hphase
      exact Or.inr ⟨_, _, rfl, List.mem_cons_of_mem _ hd⟩
  | @flush i phase d buffer hi =>
    have hrest : (phase.batch ++ buffer).Sublist (phase.batch ++ d :: buffer) :=
      (List.Sublist.refl _).append (List.sublist_cons_self _ _)
    exact h.setSession hi (fun d' hd => hrest.subset hd) (fun hdistinct => hdistinct.sublist hrest)
      fun _ _ => ⟨fun hkind => (by cases hkind), fun d' hd =>
        Or.inl ⟨rfl, hd.2.imp_left (List.mem_cons_of_mem _)⟩⟩
  | @skip i kind d batch buffer hold hi =>
    refine h.setSession hi (fun d' hd => List.mem_cons_of_mem _ hd)
      (fun hdistinct => (List.nodup_cons.1 hdistinct).2) fun _ hidle =>
        ⟨fun hkind => (by cases hidle hkind), fun d' hd => Or.inl ⟨hd.1, hd.2.imp_right ?_⟩⟩
    rintro ⟨_, _, hphase, hd⟩
    cases hphase
    exact ⟨_, _, rfl, List.mem_cons_of_mem _ hd⟩
  | abandon hi kept => exact h.dropBatch hi kept
  | settle deliveries => exact h.settle fun hpending => each_of_mem (hcalm hpending)
  | request =>
    refine ⟨h.owned, h.distinct, h.known, fun r hmem => ?_⟩
    rcases List.mem_append.1 hmem with hmem | hmem
    · exact h.requests r hmem
    · rw [List.mem_singleton.1 hmem]
      exact ⟨hcalm.1, each_of_mem hcalm.2.1, each_of_mem hcalm.2.2, fun _ d hd => h.known d hd⟩
  | count hrequests => exact h.readOn hrequests counted_topic
  | readBudget hrequests => exact h.readOn hrequests counted_all
  | readAccepting hrequests => exact h.readOn hrequests fun hseen => hseen
  | readDelivering hrequests => exact h.readOn hrequests fun hseen => hseen
  | @answer before after inFlight bytes draining frozen hrequests =>
    refine ⟨h.owned, h.distinct, h.known, fun r hmem => h.requests r ?_⟩
    rw [hrequests]
    rcases List.mem_append.1 hmem with hmem | hmem
    · exact List.mem_append_left _ hmem
    · exact List.mem_append_right _ (List.mem_cons_of_mem _ hmem)

end Orderly

/-! ### After a reliable answer -/

/-- Nothing is on its way to a socket. -/
structure Stopped (node : Node) : Prop where
  frozen : node.delivering = false
  sockets : SocketsIdle node
  nothing : Each node fun _ session => ∀ d, ¬session.Owes d
  lost : Each node fun _ session => ∀ batch hold, session.phase = .checked batch hold →
    ∀ d ∈ batch, d ∉ node.inFlight

section Stopped

variable {node node' : Node} {i : ℕ} {old next : Session}

theorem Stopped.setSession (h : Stopped node) (hsocket : next.kind = .websocket → next.phase = .idle)
    (hnothing : ∀ d, ¬next.Owes d)
    (hlost : ∀ batch hold, next.phase = .checked batch hold → ∀ d ∈ batch, d ∉ node.inFlight) :
    Stopped (node.setSession i next) :=
  ⟨h.frozen, h.sockets.setSession hsocket fun _ _ _ h => h,
    h.nothing.setSession hnothing fun _ _ _ h => h, h.lost.setSession hlost fun _ _ _ h => h⟩

theorem Stopped.settle (h : Stopped node) (deliveries : Finset Delivery) :
    Stopped { node with inFlight := node.inFlight \ deliveries } :=
  ⟨h.frozen, h.sockets, h.nothing, fun i session hi batch hold hphase d hd hmem =>
    h.lost i session hi batch hold hphase d hd (Finset.mem_sdiff.1 hmem).1⟩

theorem Stopped.dropBatch (h : Stopped node) (hi : node.sessions[i]? = some old) {buffer : List Delivery}
    (hkept : buffer = old.buffer ∨ buffer = []) : Stopped (node.dropBatch i old buffer) := by
  have hidle : Stopped (node.setSession i ⟨old.kind, .idle, buffer⟩) := by
    refine h.setSession (fun _ => rfl) (fun d hd => ?_) nofun
    have hmem := not_owes_idle hd
    rcases hkept with rfl | rfl
    · exact h.nothing i old hi d ⟨hd.1, Or.inl hmem⟩
    · cases hmem
  exact hidle.settle old.phase.batch.toFinset

/-- A stopped node writes nothing and stays stopped until deliveries are on again. -/
theorem Stopped.step (h : Stopped node) (horderly : Orderly node) {label : Label}
    (step : Step node label node') :
    (label ≠ .store true → Stopped node') ∧ ∀ session delivery, label ≠ .write session delivery := by
  have hfrozen := h.frozen
  cases step with
  | storeAccepting | publish | createTopic | deleteTopic | request | count | readBudget
  | readAccepting | readDelivering | answer =>
    exact ⟨fun _ => ⟨h.frozen, h.sockets, h.nothing, h.lost⟩, nofun⟩
  | storeDelivering request =>
    refine ⟨fun hlabel => ⟨?_, h.sockets, h.nothing, h.lost⟩, nofun⟩
    cases hdelivering : (!request.enabled || !request.freezeDeliveries) with
    | false => rfl
    | true => exact absurd (congrArg Label.store hdelivering) hlabel
  | connect kind =>
    refine ⟨fun _ => ⟨h.frozen, h.sockets.append fun _ _ => rfl, h.nothing.append fun _ d hd => ?_,
      h.lost.append nofun⟩, nofun⟩
    exact absurd (not_owes_idle hd) List.not_mem_nil
  | start hi delivering | check hi delivering =>
    rw [hfrozen] at delivering
    cases delivering
  | @reserve i kind batch more buffer topic hi known fresh distinct room =>
    refine ⟨fun _ => ?_, nofun⟩
    have hset : Stopped (node.setSession i ⟨kind, .fetching (batch ++ more), buffer⟩) := by
      refine h.setSession (fun hkind => by cases h.sockets i _ hi hkind)
        (fun d hd => h.nothing i _ hi d ⟨hd.1, hd.2.imp_right ?_⟩) nofun
      rintro ⟨_, _, hphase, -⟩
      cases hphase
    refine ⟨hset.frozen, hset.sockets, hset.nothing, ?_⟩
    refine Each.setSession (P := fun j session => ∀ batch hold, session.phase = .checked batch hold →
      ∀ d ∈ batch, d.session = j ∧ d ∉ node.inFlight) ?_ nofun ?_
    · intro j session hj batch' hold hphase d hd
      exact ⟨horderly.owned j session hj d (List.mem_append_left _ (by rw [hphase]; exact hd)),
        h.lost j session hj batch' hold hphase d hd⟩
    -- what is reserved now belongs to this session, which has nothing checked
    · intro j session hj hchecked batch' hold hphase d hd hmem
      obtain ⟨howner, hlost⟩ := hchecked batch' hold hphase d hd
      rcases Finset.mem_union.1 hmem with hmem | hmem
      · exact hlost hmem
      · exact hj (howner.symm.trans (fresh d (List.mem_toFinset.1 hmem)).1)
  | @acquire i kind batch buffer hi =>
    refine ⟨fun _ => h.setSession (fun hkind => by cases h.sockets _ _ hi hkind)
      (fun d hd => h.nothing i _ hi d ⟨hd.1, hd.2.imp_right ?_⟩) nofun,
      nofun⟩
    rintro ⟨_, _, hphase, -⟩
    cases hphase
  | discard hi => exact ⟨fun _ => h.dropBatch hi (Or.inl rfl), nofun⟩
  | abandon hi kept => exact ⟨fun _ => h.dropBatch hi kept, nofun⟩
  | @touch i batch buffer hold hi outstanding =>
    refine ⟨fun _ => h.setSession (fun hkind => by cases hkind) (fun d hd => ?_)
      nofun, nofun⟩
    rcases hd.2 with hbuffer | ⟨_, _, hphase, hd⟩
    · exact h.nothing i _ hi d ⟨rfl, Or.inl hbuffer⟩
    · cases hphase
      exact h.lost _ _ hi _ _ rfl d hd (outstanding d hd)
  | deliverOne hi | send hi => cases h.sockets _ _ hi rfl
  | @hand i d batch buffer hold hi =>
    exact absurd ⟨rfl, Or.inr ⟨_, _, rfl, List.mem_cons_self⟩⟩ (h.nothing i _ hi d)
  | @flush i phase d buffer hi =>
    exact absurd ⟨rfl, Or.inl List.mem_cons_self⟩ (h.nothing i _ hi d)
  | @skip i kind d batch buffer hold hi =>
    cases kind with
    | websocket => cases h.sockets _ _ hi rfl
    | tcp => exact absurd ⟨rfl, Or.inr ⟨_, _, rfl, List.mem_cons_self⟩⟩ (h.nothing i _ hi d)
  | settle deliveries => exact ⟨fun _ => h.settle deliveries, nofun⟩

/-- An answer that the node is quiesced is given by a stopped node with nothing in flight. -/
theorem Orderly.answer (h : Orderly node) (step : Step node (.answer true) node') :
    node'.inFlight = ∅ ∧ Stopped node' := by
  generalize hlabel : Label.answer true = label at step
  cases step with
  | @answer before after inFlight bytes draining frozen hrequests =>
    injection hlabel with hquiesced
    simp only [quiesced, Bool.true_eq, Bool.and_eq_true, beq_iff_eq] at hquiesced
    obtain ⟨⟨⟨-, hcount⟩, -⟩, -⟩ := hquiesced
    obtain ⟨hfrozen, hidle, houtstanding, hseen⟩ :=
      h.requests _ (hrequests ▸ List.mem_append_right _ List.mem_cons_self)
    have hempty : node.inFlight = ∅ := hseen hcount
    have hnone : ∀ d, d ∉ node.inFlight := fun d => hempty ▸ Finset.notMem_empty d
    exact ⟨hempty, hfrozen, hidle, fun i session hi d hd => hnone d (houtstanding i session hi d hd),
      fun i session hi batch hold hphase d hd => hnone d⟩
  | storeAccepting | storeDelivering | publish | createTopic | deleteTopic | connect | start
  | reserve | acquire | check | discard | touch | deliverOne | send | hand | flush | skip | abandon
  | settle | request | count | readBudget | readAccepting | readDelivering => cases hlabel

end Stopped

/-- An answer that the node is quiesced still stands. -/
def Stands (history : List Label) : Prop :=
  ∃ before after, history = before ++ .answer true :: after ∧ .store true ∉ after

theorem Stands.of_append {history : List Label} {label : Label} (h : Stands (history ++ [label])) :
    label = .answer true ∨ (Stands history ∧ label ≠ .store true) := by
  obtain ⟨before, after, heq, hoff⟩ := h
  rcases List.eq_nil_or_concat after with rfl | ⟨rest, last, rfl⟩
  · exact Or.inl (List.append_inj_right' heq rfl |> List.singleton_inj.1)
  · rw [List.concat_eq_append, ← List.cons_append, ← List.append_assoc] at heq
    obtain ⟨hhistory, hlast⟩ := List.append_inj' heq rfl
    rw [List.concat_eq_append] at hoff
    refine Or.inr ⟨⟨before, rest, hhistory, fun hmem => hoff (List.mem_append_left _ hmem)⟩, ?_⟩
    rw [List.singleton_inj.1 hlast]
    rintro rfl
    exact hoff (List.mem_append_right _ (List.mem_singleton_self _))

theorem StaysQuiet.append {history : List Label} {label : Label} (h : StaysQuiet history)
    (hlabel : Stands history → ∀ session delivery, label ≠ .write session delivery) :
    StaysQuiet (history ++ [label]) := by
  intro before after heq hoff session delivery hmem
  rcases List.eq_nil_or_concat after with rfl | ⟨rest, last, rfl⟩
  · cases hmem
  · rw [List.concat_eq_append] at hoff hmem heq
    rw [← List.cons_append, ← List.append_assoc] at heq
    obtain ⟨hhistory, hlast⟩ := List.append_inj' heq rfl
    have hoff' : .store true ∉ rest := fun hmem => hoff (List.mem_append_left _ hmem)
    rcases List.mem_append.1 hmem with hmem | hmem
    · exact h before rest hhistory hoff' session delivery hmem
    · refine hlabel ⟨before, rest, hhistory, hoff'⟩ session delivery ?_
      rw [List.singleton_inj.1 hlast, List.mem_singleton.1 hmem]

theorem orderly_started : Orderly .started := by
  refine ⟨fun i session hi => ?_, fun i session hi => ?_, fun d hd => ?_, fun r hr => ?_⟩
  · simp [Node.started] at hi
  · simp [Node.started] at hi
  · exact absurd hd (Finset.notMem_empty d)
  · cases hr

theorem Run.quiet {node : Node} {history : List Label} (h : Run Calm node history) :
    Orderly node ∧ StaysQuiet history ∧ (Stands history → Stopped node) := by
  induction h with
  | start =>
    refine ⟨orderly_started, fun before after heq => ?_, fun hstood => ?_⟩
    · simp at heq
    · obtain ⟨before, after, heq, -⟩ := hstood
      simp at heq
  | @step node node' history label _ step calm ih =>
    obtain ⟨horderly, hquiet, hstands⟩ := ih
    refine ⟨horderly.step calm step, hquiet.append fun hstood => ?_, fun hstood => ?_⟩
    · exact ((hstands hstood).step horderly step).2
    · rcases hstood.of_append with rfl | ⟨hstood, hlabel⟩
      · exact (horderly.answer step).2
      · exact ((hstands hstood).step horderly step).1 hlabel

/-- **Quiesced means quiesced, in a calm run.**  When the status says so, no delivery is in flight,
and until deliveries are switched on again no session writes a message to its client. -/
theorem quiesced_of_calm {node : Node} {history : List Label} (h : Run Calm node history) :
    StaysQuiet history ∧ ∀ node', Step node (.answer true) node' → node'.inFlight = ∅ :=
  ⟨h.quiet.2.1, fun _ step => (h.quiet.1.answer step).1⟩

/-- A node with a TCP session and a WebSocket session that is idle.  The TCP session fetches a message,
hands it to its writer and flushes it, and its client finishes it; then the node is frozen and asked. -/
theorem quiesced_of_calm_settled :
    ∃ node history, Run Calm node history ∧ .write 0 ⟨1, 0, "orders", 5⟩ ∈ history ∧
      .answer true ∈ history ∧ StaysQuiet history := by
  let freeze : DrainRequest := ⟨true, true⟩
  let d : Delivery := ⟨1, 0, "orders", 5⟩
  have h1 := (@Run.start Calm).step (.createTopic _ "orders") trivial
  have h2 := h1.step (.connect _ .tcp) trivial
  have h3 := h2.step (.connect _ .websocket) trivial
  have h4 := h3.step (@Step.start _ 0 .tcp [] rfl rfl) trivial
  have h5 := h4.step (@Step.reserve _ 0 .tcp [] [d] [] "orders" rfl (List.mem_singleton.2 rfl)
    (by simp [d, Node.started, Node.setSession]) (List.nodup_singleton d) (by simp)) rfl
  have h6 := h5.step (@Step.acquire _ 0 .tcp [d] [] rfl) trivial
  have h7 := h6.step (@Step.check _ 0 [d] [] 10 rfl rfl) trivial
  have h8 := h7.step (@Step.touch _ 0 [d] [] 10 rfl (by decide)) trivial
  have h9 := h8.step (@Step.hand _ 0 d [] [] 10 rfl) trivial
  have h10 := h9.step (@Step.abandon _ 0 ⟨.tcp, .handing [] 10, [d]⟩ [d] rfl (Or.inl rfl)) trivial
  have h11 := h10.step (@Step.flush _ 0 .idle d [] rfl) trivial
  have h12 := h11.step (.settle _ {d}) fun hpending => absurd rfl hpending
  have h13 := h12.step (.storeAccepting _ freeze) trivial
  have h14 := h13.step (.storeDelivering _ freeze) trivial
  have howes : ∀ session ∈ [(⟨.tcp, .idle, []⟩ : Session), ⟨.websocket, .idle, []⟩],
      ∀ e, ¬session.Owes e := by
    intro session hmem e he
    rcases List.mem_cons.1 hmem with rfl | hmem
    · exact absurd (not_owes_idle he) List.not_mem_nil
    · rw [List.mem_singleton.1 hmem] at he
      cases he.1
  have h15 := h14.step (.request _) ⟨rfl, by decide, fun session hmem e he => absurd he (howes session hmem e)⟩
  have h16 := h15.step (@Step.count _ [] [] "orders" [] 0 rfl) trivial
  have h17 := h16.step (@Step.readBudget _ [] [] 0 rfl) trivial
  have h18 := h17.step (@Step.readAccepting _ [] [] 0 0 rfl) trivial
  have h19 := h18.step (@Step.readDelivering _ [] [] 0 0 true rfl) trivial
  have h20 : Run Calm _ [.internal, .internal, .internal, .internal, .reserve 0, .internal, .internal,
      .internal, .internal, .internal, .write 0 d, .settle {d}, .internal, .store false, .request,
      .internal, .internal, .internal, .internal, .answer true] :=
    h19.step (@Step.answer _ [] [] 0 0 true true rfl) trivial
  exact ⟨_, _, h20, by simp [d], by simp, (quiesced_of_calm h20).1⟩

/-- A WebSocket session waits in a fetch while deliveries are frozen and the node is found quiesced.
Then a message becomes available to the fetch, and the session writes it to its client. -/
theorem quiesced_then_written :
    ∃ node history, Run (fun _ _ => True) node history ∧ ¬StaysQuiet history := by
  let freeze : DrainRequest := ⟨true, true⟩
  let d : Delivery := ⟨1, 0, "orders", 5⟩
  have h1 := (@Run.start fun _ _ => True).step (.createTopic _ "orders") trivial
  have h2 := h1.step (.connect _ .websocket) trivial
  have h3 := h2.step (@Step.start _ 0 .websocket [] rfl rfl) trivial
  have h4 := h3.step (.storeAccepting _ freeze) trivial
  have h5 := h4.step (.storeDelivering _ freeze) trivial
  have h6 := h5.step (.request _) trivial
  have h7 := h6.step (@Step.count _ [] [] "orders" [] 0 rfl) trivial
  have h8 := h7.step (@Step.readBudget _ [] [] 0 rfl) trivial
  have h9 := h8.step (@Step.readAccepting _ [] [] 0 0 rfl) trivial
  have h10 := h9.step (@Step.readDelivering _ [] [] 0 0 true rfl) trivial
  have h11 := h10.step (@Step.answer _ [] [] 0 0 true true rfl) trivial
  have h12 := h11.step (@Step.reserve _ 0 .websocket [] [d] [] "orders" rfl (List.mem_singleton.2 rfl)
    (by simp [d, Node.started, Node.setSession]) (List.nodup_singleton d) (by simp)) trivial
  have h13 := h12.step (@Step.acquire _ 0 .websocket [d] [] rfl) trivial
  have h14 := h13.step (@Step.deliverOne _ 0 [d] [] 10 rfl) trivial
  have h15 := h14.step (@Step.send _ 0 d [] [] 10 rfl) trivial
  refine ⟨_, _, h15, fun hquiet => ?_⟩
  exact hquiet [.internal, .internal, .internal, .internal, .store false, .request, .internal,
    .internal, .internal, .internal] [.reserve 0, .internal, .internal, .write 0 d] rfl (by simp)
    0 d (by simp)

end Drain

end RustQueue.Server
