import RustQueue.Broker.ChannelCommit
import RustQueue.Topic.Flights

/-!
# Delivery tokens

A consumer names a delivery by the id of its message and by the token under which the message was
handed out.  All tokens of a process are drawn from one counter, a 64-bit word that wraps
(`deliveryToken`).  `Traffic` is a topic together with the number of tokens drawn and with two records
that the code does not keep: the deliveries issued so far, and the tokens with which a FIN or a REQ
took effect.  A step is one operation under the topic lock, so that a request may wait in its queue
while its message times out, is handed out again, or finds its channel deleted and created anew.

* `tokens_safe`: what a call that carries tokens can do, in every reachable state, as long as no more
  than `2 ^ 64` tokens have been drawn;
* `run_commitLoop`: the loop of a group commit as a fold over the requests that took effect.
-/

namespace RustQueue.Broker

open Lib Channel Topic

/-- A delivery as it was handed out. -/
structure Delivery where
  channel : String
  position : ℕ
  id : ℕ
  token : ℕ
  deriving DecidableEq, Repr

/-- The delivery is still in flight under its token. -/
def Delivery.InFlight (delivery : Delivery) (topic : Topic) : Prop :=
  ∃ entry, flight topic delivery.channel delivery.position = some entry ∧
    entry.token = delivery.token ∧ entry.id = delivery.id

/-! ### Calls that carry tokens -/

/-- A call of a consumer.  `cancel` names positions, the others name ids. -/
inductive TokenCall where
  | finish (id token : ℕ) (nowNs : ℤ)
  | requeue (id token : ℕ) (availableAtMs nowNs : ℤ)
  | touch (id token deadline : ℕ) (nowNs : ℤ)
  | touchAll (deliveries : List (ℕ × ℕ)) (deadline : ℕ) (nowNs : ℤ)
  | release (deliveries : List (ℕ × ℕ))
  | cancel (reservations : List (ℕ × ℕ))

namespace TokenCall

def tokens : TokenCall → List ℕ
  | .finish _ token _ | .requeue _ token _ _ | .touch _ token _ _ => [token]
  | .touchAll deliveries _ _ | .release deliveries => deliveries.map Prod.snd
  | .cancel reservations => reservations.map Prod.snd

/-- The topic after the call. -/
def run (topic : Topic) (channel : String) : TokenCall → Except BrokerError Topic
  | .finish id token nowNs =>
    (topic.finishBuffered channel id true (some token) nowNs).map Prod.fst
  | .requeue id token availableAtMs nowNs =>
    (topic.requeueBuffered channel id availableAtMs (some token) nowNs).map Prod.fst
  | .touch id token deadline nowNs => topic.touchWithToken channel id (some token) deadline nowNs
  | .touchAll deliveries deadline nowNs =>
    topic.touchDeliveriesWithTokens channel deliveries deadline nowNs
  | .release deliveries => .ok (topic.releaseWithTokens channel deliveries)
  | .cancel reservations => .ok (topic.cancel channel reservations)

/-- Whether a call that succeeds ends its delivery for good. -/
def settles : TokenCall → List ℕ
  | .finish _ token _ | .requeue _ token _ _ => [token]
  | _ => []

end TokenCall

/-! ### Runs -/

/-- What the counter of the process answers after so many draws: it starts at one and wraps. -/
def deliveryToken (draws : ℕ) : ℕ := wrapAdd 1 draws

theorem deliveryToken_inj {a b : ℕ} (ha : a < 2 ^ 64) (hb : b < 2 ^ 64)
    (h : deliveryToken a = deliveryToken b) : a = b := by
  unfold deliveryToken wrapAdd u64Max at h
  omega

structure Traffic where
  topic : Topic
  draws : ℕ
  issued : List Delivery
  settled : List ℕ

/-- One operation under the topic lock. -/
inductive Step : Traffic → Traffic → Prop
  | reserve {w : Traffic} {answer : ReserveBatch} {topic : Topic} (channel : String)
      (maxMessages maxBytes next : ℕ) (around : Surroundings) (draw : ℕ → ℕ)
      (tokens : ∀ turn < maxMessages, around.token turn = deliveryToken (draw turn))
      (drawn : ∀ turn < maxMessages, w.draws ≤ draw turn ∧ draw turn < next)
      (ordered : StrictMono draw) (later : w.draws ≤ next)
      (result : w.topic.reserveBatch channel maxMessages maxBytes around = some (.ok answer, topic)) :
      Step w { w with
        topic := topic
        draws := next
        issued := answer.reserved.map (fun reserved =>
          ⟨channel, reserved.position, reserved.id, reserved.token⟩) ++ w.issued }
  | call {w : Traffic} {topic : Topic} (channel : String) (call : TokenCall)
      (result : call.run w.topic channel = .ok topic) :
      Step w { w with topic := topic, settled := call.settles ++ w.settled }
  | request {w : Traffic} {topic : Topic} {writes : List Write} (request : ChannelRequest)
      (nowNs : ℤ) (result : request.execute w.topic nowNs = .ok (topic, writes))
      (untokened : request.operation.token = none) :
      Step w { w with topic := topic }
  | touch {w : Traffic} {topic : Topic} (channel : String) (id deadline : ℕ) (nowNs : ℤ)
      (result : w.topic.touchWithToken channel id none deadline nowNs = .ok topic) :
      Step w { w with topic := topic }
  | release (w : Traffic) (channel : String) (ids : List ℕ) :
      Step w { w with topic := w.topic.release channel ids }
  | expire {w : Traffic} {topic : Topic} {writes : List Write} (channel : String) (now : ℕ)
      (result : w.topic.expireChannelInFlight channel now = .ok (topic, writes)) :
      Step w { w with topic := topic }
  | command {w : Traffic} {topic : Topic} {writes : List Write} (channel : String)
      (command : ChannelCommand)
      (result : w.topic.persistChannel channel command = .ok (topic, writes) ∨
        w.topic.persistChannelBuffered channel command = .ok (topic, writes)) :
      Step w { w with topic := topic }
  | create {w : Traffic} {topic : Topic} {writes : List Write} {created : Bool} (channel : String)
      (cutoff : ℤ) (result : w.topic.createChannel channel cutoff = .ok (created, topic, writes)) :
      Step w { w with topic := topic }
  | delete {w : Traffic} {topic : Topic} {writes : List Write} (channel : String)
      (result : w.topic.deleteChannel channel = .ok (topic, writes)) :
      Step w { w with topic := topic }
  | elsewhere (w : Traffic) (topic : Topic) (next : ℕ) (same : SameStates w.topic topic)
      (later : w.draws ≤ next) :
      Step w { w with topic := topic, draws := next }

inductive Run : Traffic → Traffic → Prop
  | refl (w : Traffic) : Run w w
  | step {w w' w'' : Traffic} (run : Run w w') (step : Step w' w'') : Run w w''

/-- A topic after any number of operations, from one with nothing in flight. -/
def Reachable (w : Traffic) : Prop :=
  ∃ topic draws, (∀ channel position, flight topic channel position = none) ∧
    Run ⟨topic, draws, [], []⟩ w

/-! ### What a call does -/

section Calls

variable {topic topic' : Topic} {channel : String} {id token p : ℕ} {nowNs : ℤ}

theorem deliveryPosition_eq_ok {state : ChannelState}
    (h : deliveryPosition state id (some token) = .ok p) :
    ∃ entry : InFlight, state.inFlight[p]? = some entry ∧ entry.token = token := by
  unfold deliveryPosition at h
  split at h
  · cases h
  · rename_i position hposition
    cases h
    exact ChannelState.inFlightPositionWithToken_eq_some hposition

variable {command : ChannelCommand}

theorem finishCommand_eq_ok {optional : Option ℕ}
    (h : topic.finishCommand channel id true optional nowNs = .ok command) :
    ∃ runtime position, topic.channels[channel]? = some runtime ∧
      deliveryPosition runtime.state id optional = .ok position ∧
      command = .finish position id := by
  obtain ⟨runtime, hruntime, h⟩ := bind_eq_ok.1 h
  split_ifs at h
  · cases h
  · obtain ⟨position, hposition, h⟩ := bind_eq_ok.1 h
    exact ⟨runtime, position, channel_eq_ok.1 hruntime, hposition, (pure_eq_ok.1 h).symm⟩

theorem requeueCommand_eq_ok {optional : Option ℕ} {availableAtMs : ℤ}
    (h : topic.requeueCommand channel id availableAtMs optional nowNs = .ok command) :
    ∃ runtime position attempts count, topic.channels[channel]? = some runtime ∧
      deliveryPosition runtime.state id optional = .ok position ∧
      command = .requeue position id availableAtMs attempts count := by
  obtain ⟨runtime, hruntime, h⟩ := bind_eq_ok.1 h
  split_ifs at h
  all_goals
    obtain ⟨position, hposition, h⟩ := bind_eq_ok.1 h
    exact ⟨runtime, position, _, _, channel_eq_ok.1 hruntime, hposition, (pure_eq_ok.1 h).symm⟩

theorem persistChannelBuffered_eq_ok {writes : List Write}
    (h : topic.persistChannelBuffered channel command = .ok (topic', writes)) :
    ∃ runtime, topic.channels[channel]? = some runtime ∧
      topic' = topic.setChannel channel ((runtime.appendBuffered command).apply command) := by
  obtain ⟨runtime, hruntime, h⟩ := bind_eq_ok.1 h
  cases pure_eq_ok.1 h
  exact ⟨runtime, channel_eq_ok.1 hruntime, rfl⟩

/-- The effect of a FIN or REQ on the deliveries of its channel: one of them ends. -/
theorem apply_inFlight (state : ChannelState) (command : ChannelCommand)
    (h : command = .finish p id ∨
      ∃ availableAtMs attempts count, command = .requeue p id availableAtMs attempts count) :
    (state.apply command).inFlight = state.inFlight.erase p := by
  rcases h with rfl | ⟨availableAtMs, attempts, count, rfl⟩
  · exact state.acknowledge_inFlight p
  · exact state.removeInFlight_inFlight p

/-- What a call with some tokens may do to its channel.  It puts nothing in flight, it leaves the
deliveries under other tokens as they are, and it does nothing at all unless one of its tokens is in
flight. -/
structure Effect (tokens : List ℕ) (state state' : ChannelState) : Prop where
  flights : state.FlightsFrom state'
  others : ∀ (p : ℕ) (entry : InFlight), state.inFlight[p]? = some entry → entry.token ∉ tokens →
    state'.inFlight[p]? = some entry
  stale : (∀ (p : ℕ) (entry : InFlight), state.inFlight[p]? = some entry → entry.token ∉ tokens) →
    state' = state

theorem Effect.refl (tokens : List ℕ) (state : ChannelState) : Effect tokens state state :=
  ⟨.refl state, fun _ _ h _ => h, fun _ => rfl⟩

variable {tokens : List ℕ}

theorem Effect.trans {s s' s'' : ChannelState} (h : Effect tokens s s') (h' : Effect tokens s' s'') :
    Effect tokens s s'' where
  flights := h.flights.trans h'.flights
  others := fun p entry hp htoken => h'.others p entry (h.others p entry hp htoken) htoken
  stale := fun hstale => by
    have heq := h.stale hstale
    rw [h'.stale (by rw [heq]; exact hstale), heq]

/-- An operation at the position of a delivery whose token the call carries. -/
theorem Effect.of_outside {s s' : ChannelState} {entry : InFlight} (hp : s.inFlight[p]? = some entry)
    (htoken : entry.token ∈ tokens) (hflights : s.FlightsFrom s')
    (houtside : ChannelState.FlightsOutside p s s') : Effect tokens s s' where
  flights := hflights
  others := by
    intro q other hq hother
    by_cases hqp : q = p
    · subst hqp
      rw [hp] at hq
      cases hq
      exact absurd htoken hother
    · rw [houtside q hqp]
      exact hq
  stale := fun hstale => absurd htoken (hstale p entry hp)

theorem Effect.foldl {α : Type*} {f : ChannelState → α → ChannelState} {l : List α}
    (hf : ∀ a ∈ l, ∀ s, Effect tokens s (f s a)) (s : ChannelState) :
    Effect tokens s (l.foldl f s) := by
  induction l generalizing s with
  | nil => exact .refl tokens s
  | cons a l ih =>
    exact (hf a List.mem_cons_self s).trans
      (ih (fun b hb => hf b (List.mem_cons_of_mem _ hb)) (f s a))

theorem effect_release (htoken : token ∈ tokens) (s : ChannelState) :
    Effect tokens s ((s.inFlightPositionWithToken id token).elim s s.release) := by
  cases hposition : s.inFlightPositionWithToken id token with
  | none => exact .refl tokens s
  | some p =>
    obtain ⟨entry, hp, hentry⟩ := ChannelState.inFlightPositionWithToken_eq_some hposition
    refine .of_outside hp (hentry ▸ htoken) (s.flightsFromInvariant.release (.refl s) p) ?_
    rcases s.release_eq p with h | ⟨-, d, i, h⟩
    · exact fun q _ => by simp [h]
    · exact ChannelState.flightsOutside_of_erase (by simp [h])

theorem effect_cancel (htoken : token ∈ tokens) (s : ChannelState) (p : ℕ) :
    Effect tokens s (s.cancel p token) := by
  by_cases hfit : s.inFlight[p]?.map InFlight.token = some token
  · obtain ⟨entry, hp, hentry⟩ := Option.map_eq_some_iff.1 hfit
    refine .of_outside hp (hentry ▸ htoken) (s.flightsFromInvariant.cancel (.refl s) p token) ?_
    rcases s.cancel_eq p token with h | ⟨-, attempts, d, i, h⟩
    · exact fun q _ => by rw [h]
    · exact ChannelState.flightsOutside_of_erase (by rw [h])
  · rw [ChannelState.cancel_of_stale hfit]
    exact .refl tokens s

theorem touchAll_inFlight (positions : List ℕ) (deadline q : ℕ) (s : ChannelState) :
    (positions.foldl (fun state p => (state.touchUntil p deadline).2) s).inFlight[q]? =
      if q ∈ positions then s.inFlight[q]?.map fun entry => { entry with deadline := deadline }
      else s.inFlight[q]? := by
  induction positions generalizing s with
  | nil => simp
  | cons p positions ih =>
    rw [List.foldl_cons, ih, s.touchUntil_inFlight]
    by_cases hqp : q = p
    · subst hqp
      cases s.inFlight[q]? <;> simp
    · simp [hqp]

theorem effect_touchAll {positions : List ℕ} {s : ChannelState}
    (h : ∀ p ∈ positions, ∃ entry : InFlight, s.inFlight[p]? = some entry ∧ entry.token ∈ tokens)
    (deadline : ℕ) :
    Effect tokens s (positions.foldl (fun state p => (state.touchUntil p deadline).2) s) where
  flights := .foldl (fun state p => state.flightsFrom_touchUntil p deadline) s positions
  others := by
    intro q entry hq hentry
    rw [touchAll_inFlight, if_neg, hq]
    intro hmem
    obtain ⟨entry', hq', htoken⟩ := h q hmem
    rw [hq] at hq'
    cases hq'
    exact hentry htoken
  stale := by
    intro hstale
    cases positions with
    | nil => rfl
    | cons p positions =>
      obtain ⟨entry, hp, htoken⟩ := h p List.mem_cons_self
      exact absurd htoken (hstale p entry hp)

/-- The same for the topic: what a call with some tokens may do. -/
structure CallEffect (tokens : List ℕ) (channel : String) (topic topic' : Topic) : Prop where
  flights : FlightsFrom topic topic'
  others : ∀ name p entry, flight topic name p = some entry →
    name ≠ channel ∨ entry.token ∉ tokens → flight topic' name p = some entry
  stale : (∀ p entry, flight topic channel p = some entry → entry.token ∉ tokens) → topic' = topic

theorem setChannel_self {runtime : ChannelRuntime} (h : topic.channels[channel]? = some runtime) :
    topic.setChannel channel runtime = topic := by
  have hsame : topic.channels.insert channel runtime = topic.channels := by
    apply Std.ExtTreeMap.ext_getElem?
    intro name
    grind
  rw [setChannel, hsame]

theorem callEffect_setChannel {runtime runtime' : ChannelRuntime}
    (h : topic.channels[channel]? = some runtime) (heffect : Effect tokens runtime.state runtime'.state)
    (hsame : runtime'.state = runtime.state → runtime' = runtime) :
    CallEffect tokens channel topic (topic.setChannel channel runtime') where
  flights := flightsFrom_setChannel h heffect.flights
  others := by
    intro name p entry hp hother
    rw [flight_setChannel]
    split_ifs with hname
    · subst hname
      rw [flight_of_channel h] at hp
      exact heffect.others p entry hp (hother.resolve_left fun hne => hne rfl)
    · exact hp
  stale := by
    intro hstale
    have hstate : runtime'.state = runtime.state :=
      heffect.stale fun p entry hp => hstale p entry (by rw [flight_of_channel h]; exact hp)
    rw [hsame hstate, setChannel_self h]

theorem callEffect_modifyState {f : ChannelState → ChannelState}
    (hf : ∀ runtime, topic.channels[channel]? = some runtime →
      Effect tokens runtime.state (f runtime.state)) :
    CallEffect tokens channel topic (topic.modifyState channel f) := by
  unfold modifyState
  split
  · exact ⟨.refl topic, fun _ _ _ hp _ => hp, fun _ => rfl⟩
  · rename_i runtime hruntime
    refine callEffect_setChannel hruntime (hf runtime hruntime) fun hstate => ?_
    dsimp only at hstate
    rw [hstate]

/-- A FIN or REQ that takes effect: the delivery it names was in flight, and ends. -/
theorem callEffect_command {runtime : ChannelRuntime} {writes : List Write}
    (hruntime : topic.channels[channel]? = some runtime)
    (hposition : deliveryPosition runtime.state id (some token) = .ok p)
    (hcommand : command = .finish p id ∨
      ∃ availableAtMs attempts count, command = .requeue p id availableAtMs attempts count)
    (h : topic.persistChannelBuffered channel command = .ok (topic', writes)) :
    CallEffect [token] channel topic topic' ∧
      (∃ entry, flight topic channel p = some entry ∧ entry.token = token) ∧
      flight topic' channel p = none := by
  obtain ⟨runtime', hruntime', rfl⟩ := persistChannelBuffered_eq_ok h
  rw [hruntime] at hruntime'
  cases hruntime'
  obtain ⟨entry, hp, hentry⟩ := deliveryPosition_eq_ok hposition
  have herase := apply_inFlight runtime.state command hcommand
  refine ⟨callEffect_setChannel hruntime ?_ fun hstate => ?_, ⟨entry, ?_, hentry⟩, ?_⟩
  · exact .of_outside hp (by simp [hentry]) (runtime.state.flightsFrom_apply command)
      (ChannelState.flightsOutside_of_erase herase)
  · have hgone : runtime.state.inFlight[p]? = none := by
      rw [← show (runtime.state.apply command).inFlight = runtime.state.inFlight from
        congrArg ChannelState.inFlight hstate, herase, Std.ExtTreeMap.getElem?_erase_self]
    rw [hp] at hgone
    cases hgone
  · rw [flight_of_channel hruntime]
    exact hp
  · rw [flight_setChannel, if_pos rfl]
    show (runtime.state.apply command).inFlight[p]? = none
    rw [herase, Std.ExtTreeMap.getElem?_erase_self]

theorem map_fst_eq_ok {α β : Type} {x : Except BrokerError (α × β)} {a : α}
    (h : x.map Prod.fst = .ok a) : ∃ b, x = .ok (a, b) := by
  cases x with
  | error e => cases h
  | ok pair =>
    cases h
    exact ⟨pair.2, rfl⟩

/-- A call that settles a token: its delivery was in flight, and ends. -/
theorem run_settles {call : TokenCall} (h : call.run topic channel = .ok topic')
    (htoken : token ∈ call.settles) :
    ∃ p, (∃ entry, flight topic channel p = some entry ∧ entry.token = token) ∧
      flight topic' channel p = none := by
  cases call with
  | finish id t nowNs =>
    rw [List.mem_singleton.1 htoken]
    obtain ⟨writes, h⟩ := map_fst_eq_ok h
    obtain ⟨command, hcommand, h⟩ := bind_eq_ok.1 h
    obtain ⟨runtime, p, hruntime, hposition, hcommand⟩ := finishCommand_eq_ok hcommand
    exact ⟨p, (callEffect_command hruntime hposition (Or.inl hcommand) h).2⟩
  | requeue id t availableAtMs nowNs =>
    rw [List.mem_singleton.1 htoken]
    obtain ⟨writes, h⟩ := map_fst_eq_ok h
    obtain ⟨command, hcommand, h⟩ := bind_eq_ok.1 h
    obtain ⟨runtime, p, attempts, count, hruntime, hposition, hcommand⟩ :=
      requeueCommand_eq_ok hcommand
    exact ⟨p, (callEffect_command hruntime hposition (Or.inr ⟨_, _, _, hcommand⟩) h).2⟩
  | touch | touchAll | release | cancel => cases htoken

theorem touchWithToken_eq_ok {optional : Option ℕ} {deadline : ℕ}
    (h : topic.touchWithToken channel id optional deadline nowNs = .ok topic') :
    ∃ runtime p, topic.channels[channel]? = some runtime ∧
      deliveryPosition runtime.state id optional = .ok p ∧
      topic' = topic.modifyState channel fun state => (state.touchUntil p deadline).2 := by
  obtain ⟨runtime, hruntime, h⟩ := bind_eq_ok.1 h
  split_ifs at h
  obtain ⟨p, hp, h⟩ := bind_eq_ok.1 h
  split_ifs at h
  exact ⟨runtime, p, channel_eq_ok.1 hruntime, hp, (pure_eq_ok.1 h).symm⟩

/-- A batch touch that succeeds has found every delivery in flight and moves all deadlines. -/
theorem touchDeliveriesWithTokens_eq_ok {deliveries : List (ℕ × ℕ)} {deadline : ℕ}
    (h : topic.touchDeliveriesWithTokens channel deliveries deadline nowNs = .ok topic') :
    ∃ (runtime : ChannelRuntime) (positions : List ℕ), topic.channels[channel]? = some runtime ∧
      (topic' = topic.modifyState channel fun state =>
        positions.foldl (fun state p => (state.touchUntil p deadline).2) state) ∧
      (∀ delivery ∈ deliveries, ∃ p ∈ positions, ∃ entry : InFlight,
        runtime.state.inFlight[p]? = some entry ∧ entry.token = delivery.2) ∧
      ∀ p ∈ positions, ∃ entry : InFlight,
        runtime.state.inFlight[p]? = some entry ∧ entry.token ∈ deliveries.map Prod.snd := by
  obtain ⟨runtime, hruntime, h⟩ := bind_eq_ok.1 h
  split_ifs at h
  obtain ⟨positions, hpositions, h⟩ := bind_eq_ok.1 h
  obtain ⟨hall, honly⟩ := mapM_eq_ok hpositions
  refine ⟨runtime, positions, channel_eq_ok.1 hruntime, (pure_eq_ok.1 h).symm, ?_, ?_⟩
  · intro delivery hmem
    obtain ⟨p, hp, hposition⟩ := hall delivery hmem
    exact ⟨p, hp, deliveryPosition_eq_ok hposition⟩
  · intro p hp
    obtain ⟨delivery, hmem, hposition⟩ := honly p hp
    obtain ⟨entry, hentry, htoken⟩ := deliveryPosition_eq_ok hposition
    exact ⟨entry, hentry, by rw [htoken]; exact List.mem_map_of_mem hmem⟩

/-- **A call that carries tokens**, whatever it is. -/
theorem run_effect {call : TokenCall} (h : call.run topic channel = .ok topic') :
    CallEffect call.tokens channel topic topic' := by
  cases call with
  | finish id t nowNs =>
    obtain ⟨writes, h⟩ := map_fst_eq_ok h
    obtain ⟨command, hcommand, h⟩ := bind_eq_ok.1 h
    obtain ⟨runtime, p, hruntime, hposition, hcommand⟩ := finishCommand_eq_ok hcommand
    exact (callEffect_command hruntime hposition (Or.inl hcommand) h).1
  | requeue id t availableAtMs nowNs =>
    obtain ⟨writes, h⟩ := map_fst_eq_ok h
    obtain ⟨command, hcommand, h⟩ := bind_eq_ok.1 h
    obtain ⟨runtime, p, attempts, count, hruntime, hposition, hcommand⟩ :=
      requeueCommand_eq_ok hcommand
    exact (callEffect_command hruntime hposition (Or.inr ⟨_, _, _, hcommand⟩) h).1
  | touch id t deadline nowNs =>
    obtain ⟨runtime, p, hruntime, hposition, rfl⟩ := touchWithToken_eq_ok h
    refine callEffect_modifyState fun runtime' hruntime' => ?_
    rw [hruntime] at hruntime'
    cases hruntime'
    obtain ⟨entry, hp, hentry⟩ := deliveryPosition_eq_ok hposition
    exact .of_outside hp (by simp [TokenCall.tokens, hentry])
      (runtime.state.flightsFrom_touchUntil p deadline)
      (runtime.state.flightsOutside_touchUntil p deadline)
  | touchAll deliveries deadline nowNs =>
    obtain ⟨runtime, positions, hruntime, rfl, -, honly⟩ := touchDeliveriesWithTokens_eq_ok h
    refine callEffect_modifyState fun runtime' hruntime' => ?_
    rw [hruntime] at hruntime'
    cases hruntime'
    exact effect_touchAll honly deadline
  | release deliveries =>
    cases h
    refine callEffect_modifyState fun runtime _ => Effect.foldl (fun delivery hmem state => ?_) _
    exact effect_release (List.mem_map_of_mem hmem) state
  | cancel reservations =>
    cases h
    refine callEffect_modifyState fun runtime _ => Effect.foldl (fun reservation hmem state => ?_) _
    exact effect_cancel (List.mem_map_of_mem hmem) state reservation.1

end Calls

/-! ### The invariant -/

theorem flightsFrom_execute {topic topic' : Topic} {request : ChannelRequest} {nowNs : ℤ} {writes : List Write}
    (h : request.execute topic nowNs = .ok (topic', writes)) : FlightsFrom topic topic' := by
  unfold ChannelRequest.execute at h
  split at h <;>
  · obtain ⟨command, -, h⟩ := bind_eq_ok.1 h
    exact flightsFrom_persistChannelBuffered h

section Invariant

variable {w w' w'' : Traffic} {topic : Topic} {channel : String}

/-- Every delivery in flight is recorded as issued, each under a token of its own, and a token that
was settled is in flight no more. -/
structure Inv (w : Traffic) : Prop where
  recorded : ∀ name p entry, flight w.topic name p = some entry →
    ⟨name, p, entry.id, entry.token⟩ ∈ w.issued
  distinct : (w.issued.map Delivery.token).Nodup
  drawn : ∀ delivery ∈ w.issued, ∃ draw < w.draws, delivery.token = deliveryToken draw
  nodup : w.settled.Nodup
  ended : ∀ token ∈ w.settled, ∀ name p entry, flight w.topic name p = some entry →
    entry.token ≠ token
  known : ∀ token ∈ w.settled, ∃ draw < w.draws, token = deliveryToken draw

theorem Inv.unique (h : Inv w) {name name' : String} {p p' : ℕ} {entry entry' : InFlight}
    (hp : flight w.topic name p = some entry) (hp' : flight w.topic name' p' = some entry')
    (htoken : entry.token = entry'.token) : name = name' ∧ p = p' := by
  have heq := List.inj_on_of_nodup_map h.distinct (h.recorded _ _ _ hp) (h.recorded _ _ _ hp') htoken
  simp only [Delivery.mk.injEq] at heq
  exact ⟨heq.1, heq.2.1⟩

theorem Inv.quiet (h : Inv w) (hflights : FlightsFrom w.topic topic) {next : ℕ}
    (hnext : w.draws ≤ next) : Inv { w with topic := topic, draws := next } where
  recorded := by
    intro name p entry' hp
    obtain ⟨entry, hp, htoken, hid⟩ := hflights name p entry' hp
    rw [← htoken, ← hid]
    exact h.recorded name p entry hp
  distinct := h.distinct
  drawn := fun delivery hmem => (h.drawn delivery hmem).imp fun _ => And.imp_left hnext.trans_lt'
  nodup := h.nodup
  ended := by
    intro token hmem name p entry' hp
    obtain ⟨entry, hp, htoken, -⟩ := hflights name p entry' hp
    rw [← htoken]
    exact h.ended token hmem name p entry hp
  known := fun token hmem => (h.known token hmem).imp fun _ => And.imp_left hnext.trans_lt'

theorem nodup_settles (call : TokenCall) : call.settles.Nodup := by
  cases call <;> simp [TokenCall.settles]

theorem Inv.call (h : Inv w) {call : TokenCall} (hrun : call.run w.topic channel = .ok topic) :
    Inv { w with topic := topic, settled := call.settles ++ w.settled } := by
  have hflights := (run_effect hrun).flights
  have hquiet := h.quiet hflights le_rfl
  refine ⟨hquiet.recorded, h.distinct, h.drawn, ?_, ?_, ?_⟩
  · -- a settled token is not in flight, so no call settles it again
    refine List.nodup_append'.2 ⟨nodup_settles call, h.nodup, fun token htoken hsettled => ?_⟩
    obtain ⟨p, ⟨entry, hp, rfl⟩, -⟩ := run_settles hrun htoken
    exact h.ended _ hsettled _ _ _ hp rfl
  · intro token hmem name q entry' hq htoken'
    rcases List.mem_append.1 hmem with htoken | hsettled
    · -- the token was in flight at one place, and that place is empty now
      obtain ⟨p, ⟨entry, hp, htoken⟩, hgone⟩ := run_settles hrun htoken
      obtain ⟨entry₀, hq₀, htoken₀, -⟩ := hflights name q entry' hq
      obtain ⟨rfl, rfl⟩ := h.unique hp hq₀ (by rw [htoken, htoken₀, htoken'])
      rw [hgone] at hq
      cases hq
    · exact hquiet.ended token hsettled name q entry' hq htoken'
  · intro token hmem
    rcases List.mem_append.1 hmem with htoken | hsettled
    · obtain ⟨p, ⟨entry, hp, rfl⟩, -⟩ := run_settles hrun htoken
      exact h.drawn _ (h.recorded _ _ _ hp)
    · exact h.known token hsettled

/-- A token that was drawn is not drawn again before the counter wraps. -/
theorem deliveryToken_fresh {token draws draw next : ℕ} (h : ∃ old < draws, token = deliveryToken old)
    (hdraw : draws ≤ draw ∧ draw < next) (hwrap : next ≤ 2 ^ 64) : token ≠ deliveryToken draw := by
  obtain ⟨old, hold, rfl⟩ := h
  intro htoken
  have := deliveryToken_inj (by omega) (by omega) htoken
  omega

/-- A reservation issues deliveries under fresh tokens. -/
theorem Inv.reserve (h : Inv w) {maxMessages maxBytes next : ℕ} {around : Surroundings} {draw : ℕ → ℕ}
    {answer : ReserveBatch}
    (htokens : ∀ turn < maxMessages, around.token turn = deliveryToken (draw turn))
    (hdrawn : ∀ turn < maxMessages, w.draws ≤ draw turn ∧ draw turn < next)
    (hordered : StrictMono draw) (hlater : w.draws ≤ next) (hwrap : next ≤ 2 ^ 64)
    (hresult : w.topic.reserveBatch channel maxMessages maxBytes around = some (.ok answer, topic)) :
    Inv { w with
      topic := topic
      draws := next
      issued := answer.reserved.map (fun reserved =>
        ⟨channel, reserved.position, reserved.id, reserved.token⟩) ++ w.issued } := by
  obtain ⟨hpairs, hturns, hflights⟩ := flight_reserveBatch hresult
  have hfresh : ∀ reserved ∈ answer.reserved, ∃ t < maxMessages,
      reserved.token = deliveryToken (draw t) := by
    intro reserved hmem
    obtain ⟨t, ht, htoken⟩ := hturns reserved hmem
    exact ⟨t, ht, htoken.trans (htokens t ht)⟩
  refine ⟨?_, ?_, ?_, h.nodup, ?_, (h.quiet (.refl _) hlater).known⟩
  · intro name p entry' hp
    rcases hflights name p entry' hp with ⟨entry, hp, htoken, hid⟩ | ⟨rfl, reserved, hmem, rfl, hid, htoken⟩
    · rw [← htoken, ← hid]
      exact List.mem_append_right _ (h.recorded name p entry hp)
    · rw [← htoken, ← hid]
      exact List.mem_append_left _ (List.mem_map_of_mem hmem)
  · rw [List.map_append, List.map_map]
    refine List.nodup_append'.2 ⟨?_, h.distinct, ?_⟩
    · rw [List.nodup_iff_pairwise_ne, List.pairwise_map]
      refine hpairs.imp fun ⟨t, t', hlt, ht', htoken, htoken'⟩ => ?_
      dsimp only [Function.comp_apply]
      rw [htoken, htoken', htokens t (by omega), htokens t' ht']
      exact deliveryToken_fresh ⟨draw t, hordered hlt, rfl⟩ ⟨le_rfl, (hdrawn t' ht').2⟩ hwrap
    · intro token hnew hold
      obtain ⟨reserved, hmem, rfl⟩ := List.mem_map.1 hnew
      obtain ⟨delivery, hdelivery, htoken⟩ := List.mem_map.1 hold
      obtain ⟨t, ht, hreserved⟩ := hfresh reserved hmem
      exact deliveryToken_fresh (h.drawn delivery hdelivery) (hdrawn t ht) hwrap
        (htoken.trans hreserved)
  · intro delivery hmem
    rcases List.mem_append.1 hmem with hnew | hold
    · obtain ⟨reserved, hreserved, rfl⟩ := List.mem_map.1 hnew
      obtain ⟨t, ht, htoken⟩ := hfresh reserved hreserved
      exact ⟨draw t, (hdrawn t ht).2, htoken⟩
    · exact (h.quiet (.refl _) hlater).drawn delivery hold
  · intro token hmem name p entry' hp
    rcases hflights name p entry' hp with ⟨entry, hp, htoken, -⟩ | ⟨-, reserved, hreserved, -, -, htoken⟩
    · rw [← htoken]
      exact h.ended token hmem name p entry hp
    · obtain ⟨t, ht, hdraw⟩ := hfresh reserved hreserved
      rw [← htoken, hdraw]
      exact (deliveryToken_fresh (h.known token hmem) (hdrawn t ht) hwrap).symm

/-- What a step is: it puts nothing in flight, or it is a call that carries tokens, or a
reservation. -/
theorem Step.kinds (step : Step w w') :
    (∃ topic next, FlightsFrom w.topic topic ∧ w.draws ≤ next ∧
        w' = { w with topic := topic, draws := next }) ∨
      (∃ channel call topic, TokenCall.run w.topic channel call = .ok topic ∧
        w' = { w with topic := topic, settled := call.settles ++ w.settled }) ∨
      ∃ (channel : String) (maxMessages maxBytes next : ℕ) (around : Surroundings) (draw : ℕ → ℕ)
        (answer : ReserveBatch) (topic : Topic),
        (∀ turn < maxMessages, around.token turn = deliveryToken (draw turn)) ∧
        (∀ turn < maxMessages, w.draws ≤ draw turn ∧ draw turn < next) ∧
        StrictMono draw ∧ w.draws ≤ next ∧
        w.topic.reserveBatch channel maxMessages maxBytes around = some (.ok answer, topic) ∧
        w' = { w with
          topic := topic
          draws := next
          issued := answer.reserved.map (fun reserved =>
            ⟨channel, reserved.position, reserved.id, reserved.token⟩) ++ w.issued } := by
  cases step with
  | reserve channel maxMessages maxBytes next around draw tokens drawn ordered later result =>
    exact Or.inr (Or.inr ⟨_, _, _, _, _, _, _, _, tokens, drawn, ordered, later, result, rfl⟩)
  | call channel call result => exact Or.inr (Or.inl ⟨channel, call, _, result, rfl⟩)
  | request request nowNs result untokened =>
    exact Or.inl ⟨_, _, flightsFrom_execute result, le_rfl, rfl⟩
  | touch channel id deadline nowNs result =>
    obtain ⟨runtime, p, -, -, rfl⟩ := touchWithToken_eq_ok result
    exact Or.inl ⟨_, _, flightsFrom_modifyState (fun s => s.flightsFrom_touchUntil p deadline) _ _,
      le_rfl, rfl⟩
  | release channel ids =>
    refine Or.inl ⟨_, _, flightsFrom_modifyState (fun state => ?_) _ _, le_rfl, rfl⟩
    refine .foldl (fun s id => ?_) state ids
    cases s.inFlightPosition id with
    | none => exact .refl s
    | some p => exact s.flightsFromInvariant.release (.refl s) p
  | expire channel now result => exact Or.inl ⟨_, _, flightsFrom_expire result, le_rfl, rfl⟩
  | command channel command result =>
    exact Or.inl ⟨_, _, result.elim flightsFrom_persistChannel flightsFrom_persistChannelBuffered,
      le_rfl, rfl⟩
  | create channel cutoff result =>
    exact Or.inl ⟨_, _, flightsFrom_createChannel result, le_rfl, rfl⟩
  | delete channel result => exact Or.inl ⟨_, _, flightsFrom_deleteChannel result, le_rfl, rfl⟩
  | elsewhere topic next same later =>
    refine Or.inl ⟨_, _, fun name p entry hp => ⟨entry, ?_, rfl, rfl⟩, later, rfl⟩
    rw [← flight_of_sameStates same]
    exact hp

theorem Step.draws_le (step : Step w w') : w.draws ≤ w'.draws := by
  rcases step.kinds with ⟨topic, next, hflights, hnext, rfl⟩ | ⟨channel, call, topic, hrun, rfl⟩ |
    ⟨channel, maxMessages, maxBytes, next, around, draw, answer, topic, -, -, -, hlater, -, rfl⟩
  · exact hnext
  · exact le_rfl
  · exact hlater

/-- **One step** keeps the invariant, unless the counter wraps. -/
theorem Inv.step (h : Inv w) (step : Step w w') (hwrap : w'.draws ≤ 2 ^ 64) : Inv w' := by
  rcases step.kinds with ⟨topic, next, hflights, hnext, rfl⟩ | ⟨channel, call, topic, hrun, rfl⟩ |
    ⟨channel, maxMessages, maxBytes, next, around, draw, answer, topic, htokens, hdrawn, hordered, hlater,
      hresult, rfl⟩
  · exact h.quiet hflights hnext
  · exact h.call hrun
  · exact h.reserve htokens hdrawn hordered hlater hwrap hresult

/-- **Every run** keeps the invariant, unless the counter wraps. -/
theorem Inv.run (h : Inv w) (run : Run w w') (hwrap : w'.draws ≤ 2 ^ 64) : Inv w' := by
  induction run with
  | refl => exact h
  | step _ step ih => exact (ih (step.draws_le.trans hwrap)).step step hwrap

theorem Reachable.inv (h : Reachable w) (hwrap : w.draws ≤ 2 ^ 64) : Inv w := by
  obtain ⟨topic, draws, hidle, run⟩ := h
  have hstart : Inv ⟨topic, draws, [], []⟩ := by
    refine ⟨fun name p entry hp => ?_, List.nodup_nil, by simp, List.nodup_nil, by simp, by simp⟩
    rw [hidle] at hp
    cases hp
  exact hstart.run run hwrap

theorem Inv.step_ended (h : Inv w) (step : Step w w') (hwrap : w'.draws ≤ 2 ^ 64) {delivery : Delivery}
    (hmem : delivery ∈ w.issued) (hended : ¬delivery.InFlight w.topic) :
    delivery ∈ w'.issued ∧ ¬delivery.InFlight w'.topic := by
  rcases step.kinds with ⟨topic, next, hflights, hnext, rfl⟩ | ⟨channel, call, topic, hrun, rfl⟩ |
    ⟨channel, maxMessages, maxBytes, next, around, draw, answer, topic, htokens, hdrawn, hordered, hlater,
      hresult, rfl⟩
  · refine ⟨hmem, fun ⟨entry', hp, htoken', hid'⟩ => hended ?_⟩
    obtain ⟨entry, hp, htoken, hid⟩ := hflights _ _ _ hp
    exact ⟨entry, hp, htoken.trans htoken', hid.trans hid'⟩
  · refine ⟨hmem, fun ⟨entry', hp, htoken', hid'⟩ => hended ?_⟩
    obtain ⟨entry, hp, htoken, hid⟩ := (run_effect hrun).flights _ _ _ hp
    exact ⟨entry, hp, htoken.trans htoken', hid.trans hid'⟩
  · obtain ⟨-, hturns, hflights⟩ := flight_reserveBatch hresult
    refine ⟨List.mem_append_right _ hmem, fun ⟨entry', hp, htoken', hid'⟩ => ?_⟩
    rcases hflights _ _ _ hp with ⟨entry, hp, htoken, hid⟩ | ⟨-, reserved, hreserved, -, -, htoken⟩
    · exact hended ⟨entry, hp, htoken.trans htoken', hid.trans hid'⟩
    · -- a new delivery has a token that was not drawn before
      obtain ⟨t, ht, hdraw⟩ := hturns reserved hreserved
      refine deliveryToken_fresh (h.drawn delivery hmem) (hdrawn t ht) hwrap ?_
      rw [← htoken', ← htoken, hdraw, htokens t ht]

theorem Inv.run_ended (h : Inv w) (run : Run w w') (hwrap : w'.draws ≤ 2 ^ 64) {delivery : Delivery}
    (hmem : delivery ∈ w.issued) (hended : ¬delivery.InFlight w.topic) :
    delivery ∈ w'.issued ∧ ¬delivery.InFlight w'.topic := by
  induction run with
  | refl => exact ⟨hmem, hended⟩
  | step run step ih =>
    have hbefore := step.draws_le.trans hwrap
    exact (h.run run hbefore).step_ended step hwrap (ih hbefore).1 (ih hbefore).2

end Invariant

/-! ### Groups -/

section Groups

variable {w w' w'' : Traffic}

theorem Run.trans (h : Run w w') (h' : Run w' w'') : Run w w'' := by
  induction h' with
  | refl => exact h
  | step _ step ih => exact ih.step step

/-- The requests of a group that took effect, those not answered yet, with the time of each. -/
def tookEffect (around : GroupAround) : ℕ → List ChannelRequest → List Reply → List (ChannelRequest × ℤ)
  | n, request :: requests, .pending :: replies =>
    (request, around.nowNs n) :: tookEffect around (n + 1) requests replies
  | n, _ :: requests, .sent _ :: replies => tookEffect around (n + 1) requests replies
  | _, _, _ => []

/-- Requests one after the other, nothing else. -/
def executeAll (topic : Topic) (requests : List (ChannelRequest × ℤ)) : Except BrokerError Topic :=
  requests.foldlM (fun topic request => (request.1.execute topic request.2).map Prod.fst) topic

theorem executeAll_cons (topic : Topic) (request : ChannelRequest × ℤ)
    (requests : List (ChannelRequest × ℤ)) :
    executeAll topic (request :: requests) =
      (request.1.execute topic request.2).bind fun result => executeAll result.1 requests := by
  unfold executeAll
  rw [List.foldlM_cons]
  cases request.1.execute topic request.2 <;> rfl

/-- A group that ends in the middle answers every request that is left. -/
theorem tookEffect_abortGroup (around : GroupAround) (n : ℕ) (topic : Topic) (error : BrokerError)
    (request : ChannelRequest) (rest : List ChannelRequest) :
    tookEffect around n (request :: rest) (abortGroup topic error rest).1 = [] := by
  show tookEffect around (n + 1) rest (rest.map fun _ => .sent (.error .storageUnavailable)) = []
  generalize n + 1 = n
  induction rest generalizing n with
  | nil => rfl
  | cons request rest ih => exact ih (n + 1)

/-- The loop executes the requests that take effect, one after the other. -/
theorem executeAll_commitLoop (around : GroupAround) (n : ℕ) (topic : Topic)
    (requests : List ChannelRequest) :
    executeAll topic (tookEffect around n requests (commitLoop around n topic requests).1) =
      .ok (commitLoop around n topic requests).2.1 := by
  fun_induction commitLoop around n topic requests with
  | case1 n topic => rfl
  | case2 n topic request rest error haccess replies topic' done hloop ih =>
    rw [hloop] at ih
    exact ih
  | case3 n topic request rest haccess error hexecute hstorage =>
    rw [tookEffect_abortGroup]
    rfl
  | case4 n topic request rest haccess error hexecute hother replies topic' done hloop ih =>
    rw [hloop] at ih
    exact ih
  | case5 n topic request rest haccess applied writes hexecute hrefused =>
    rw [tookEffect_abortGroup]
    rfl
  | case6 n topic request rest haccess applied writes hexecute htaken replies topic' done hloop ih =>
    rw [hloop] at ih
    rw [tookEffect, executeAll_cons, hexecute]
    exact ih

theorem step_execute {request : ChannelRequest} {nowNs : ℤ} {topic : Topic} {writes : List Write}
    (hflight : request.operation.requiresInFlight)
    (h : request.execute w.topic nowNs = .ok (topic, writes)) :
    Step w { w with topic := topic, settled := request.operation.token.toList ++ w.settled } := by
  obtain ⟨channel, operation⟩ := request
  cases htoken : operation.token with
  | none => exact .request _ nowNs h htoken
  | some token =>
    cases operation with
    | finish id requireInFlight optional =>
      cases htoken
      cases hflight
      exact .call channel (.finish id token nowNs) (congrArg (Except.map Prod.fst) h)
    | requeue id availableAtMs optional =>
      cases htoken
      exact .call channel (.requeue id token availableAtMs nowNs) (congrArg (Except.map Prod.fst) h)

/-- Requests executed one after the other are a run, a step each. -/
theorem run_executeAll {requests : List (ChannelRequest × ℤ)} {topic : Topic}
    (hflight : ∀ request ∈ requests, request.1.operation.requiresInFlight)
    (h : executeAll w.topic requests = .ok topic) :
    Run w { w with
      topic := topic
      settled := (requests.filterMap (·.1.operation.token)).reverse ++ w.settled } := by
  induction requests generalizing w with
  | nil =>
    cases h
    exact .refl w
  | cons request rest ih =>
    rw [executeAll_cons] at h
    obtain ⟨⟨applied, writes⟩, hexecute, h⟩ := bind_eq_ok.1 h
    have hstep := step_execute (hflight request List.mem_cons_self) hexecute
    have hrun := ih (w := { w with
      topic := applied
      settled := request.1.operation.token.toList ++ w.settled })
      (fun r hr => hflight r (List.mem_cons_of_mem _ hr)) h
    refine ((Run.refl w).step hstep).trans ?_
    convert hrun using 2
    cases htoken : request.1.operation.token <;> simp [htoken]

theorem mem_tookEffect {around : GroupAround} {n : ℕ} {requests : List ChannelRequest}
    {replies : List Reply} {request : ChannelRequest × ℤ}
    (h : request ∈ tookEffect around n requests replies) : request.1 ∈ requests := by
  fun_induction tookEffect around n requests replies with
  | case1 n first requests replies ih =>
    rcases List.mem_cons.1 h with rfl | h
    · exact List.mem_cons_self
    · exact List.mem_cons_of_mem _ (ih h)
  | case2 n first requests result replies ih => exact List.mem_cons_of_mem _ (ih h)
  | case3 => cases h

/-- **The loop of a group commit** leaves the topic as the requests that took effect leave it, executed
one after the other: any other request changes nothing.  It is a run in which each of them is a step of
its own that settles its own token. -/
theorem run_commitLoop (around : GroupAround) (n : ℕ) (requests : List ChannelRequest)
    (hflight : ∀ request ∈ requests, request.operation.requiresInFlight) (w : Traffic) :
    let took := tookEffect around n requests (commitLoop around n w.topic requests).1
    let topic := (commitLoop around n w.topic requests).2.1
    executeAll w.topic took = .ok topic ∧
      Run w { w with
        topic := topic
        settled := (took.filterMap (·.1.operation.token)).reverse ++ w.settled } :=
  ⟨executeAll_commitLoop around n w.topic requests,
    run_executeAll (fun request hmem => hflight request.1 (mem_tookEffect hmem))
      (executeAll_commitLoop around n w.topic requests)⟩

/-- Every page is resident, and the tokens are those after so many draws. -/
def drawnFrom (draws : ℕ) : Surroundings :=
  { evictedAfter 2 with token := fun turn => deliveryToken (draws + turn) }

/-- A FIN and the same FIN again in one group: the first takes effect, the second is refused. -/
theorem run_commitLoop_twice : ∃ w w', Run w w' ∧
    executeAll w.topic [(⟨"workers", .finish 7 true (some 1)⟩, 0)] = .ok w'.topic ∧
    w.settled = [] ∧ w'.settled = [1] := by
  let reserved := (spilledTopic.reserveBatch "workers" 1 1024 (drawnFrom 0)).get rfl
  have hloop := run_commitLoop ⟨fun _ => .ok (), fun _ => false, fun _ => 0⟩ 0
    [⟨"workers", .finish 7 true (some 1)⟩, ⟨"workers", .finish 7 true (some 1)⟩] (by decide)
    ⟨reserved.2, 1, [⟨"workers", 1, 7, 1⟩], []⟩
  exact ⟨_, _, hloop.2, hloop.1, rfl, rfl⟩

end Groups

/-- **Delivery tokens are safe.**  In every reachable state no token has been issued twice and at most
one FIN or REQ has taken effect per token.  A call that carries tokens changes the topic only if the
delivery issued under one of them is in flight in the channel it names, and leaves deliveries under
other tokens as they are.  A delivery that has ended stays so in every later state, and there a call
that carries its token changes nothing.  A batch touch that does not fail extends all of its
deliveries. -/
theorem tokens_safe {w : Traffic} (h : Reachable w) (hwrap : w.draws ≤ 2 ^ 64) :
    (w.issued.map Delivery.token).Nodup ∧ w.settled.Nodup ∧
    (∀ channel call topic, TokenCall.run w.topic channel call = .ok topic →
      (topic ≠ w.topic → ∃ delivery ∈ w.issued, delivery.channel = channel ∧
        delivery.token ∈ call.tokens ∧ delivery.InFlight w.topic) ∧
      ∀ name p entry, flight w.topic name p = some entry → entry.token ∉ call.tokens →
        flight topic name p = some entry) ∧
    (∀ delivery ∈ w.issued, ¬delivery.InFlight w.topic → ∀ w', Run w w' → w'.draws ≤ 2 ^ 64 →
      ¬delivery.InFlight w'.topic ∧
      ∀ channel call topic, (∀ token ∈ call.tokens, token = delivery.token) →
        TokenCall.run w'.topic channel call = .ok topic → topic = w'.topic) ∧
    ∀ channel deliveries deadline nowNs topic,
      w.topic.touchDeliveriesWithTokens channel deliveries deadline nowNs = .ok topic →
      ∀ delivery ∈ deliveries, ∃ p entry, flight w.topic channel p = some entry ∧
        entry.token = delivery.2 ∧
        flight topic channel p = some { entry with deadline := deadline } := by
  have hinv := h.inv hwrap
  refine ⟨hinv.distinct, hinv.nodup, fun channel call topic hrun => ⟨fun hchange => ?_, ?_⟩,
    fun delivery hmem hended w' run hwrap' => ?_, fun channel deliveries deadline nowNs topic htouch => ?_⟩
  · by_contra hnone
    refine hchange ((run_effect hrun).stale fun p entry hp htoken => hnone ?_)
    exact ⟨_, hinv.recorded channel p entry hp, rfl, htoken, entry, hp, rfl, rfl⟩
  · exact fun name p entry hp htoken => (run_effect hrun).others name p entry hp (Or.inr htoken)
  · obtain ⟨hmem', hended'⟩ := hinv.run_ended run hwrap' hmem hended
    refine ⟨hended', fun channel call topic htokens hrun => ?_⟩
    refine (run_effect hrun).stale fun p entry hp htoken => hended' ?_
    -- a delivery in flight under the token is the one that was issued with it
    have hrecorded := (hinv.run run hwrap').recorded channel p entry hp
    have heq := List.inj_on_of_nodup_map (hinv.run run hwrap').distinct hrecorded hmem'
      (htokens _ htoken)
    rw [← heq]
    exact ⟨entry, hp, rfl, rfl⟩
  · intro delivery hmem
    obtain ⟨runtime, positions, hruntime, rfl, hall, -⟩ := touchDeliveriesWithTokens_eq_ok htouch
    obtain ⟨p, hp, entry, hentry, htoken⟩ := hall delivery hmem
    refine ⟨p, entry, by rw [flight_of_channel hruntime]; exact hentry, htoken, ?_⟩
    unfold modifyState
    rw [hruntime]
    dsimp only
    rw [flight_setChannel, if_pos rfl, touchAll_inFlight, if_pos hp, hentry]
    rfl

theorem flight_spilledTopic (channel : String) (position : ℕ) :
    flight spilledTopic channel position = none := by
  unfold flight spilledTopic
  simp only [Std.ExtTreeMap.getElem?_insert]
  split_ifs <;> simp [ChannelState.new]

/-- A message is handed out under token `1`, put back with it, handed out again under token `2` and
finished with that.  While the second delivery is in flight, nothing that carries the first token
changes anything. -/
theorem tokens_safe_finished :
    ∃ w₁ w₂ w₃ : Traffic, Reachable w₁ ∧ Run w₁ w₂ ∧ Run w₂ w₃ ∧
      w₂.issued.map Delivery.token = [2, 1] ∧ (w₂.issued.head?.elim False fun d => d.InFlight w₂.topic) ∧
      (∀ channel call topic, (∀ token ∈ call.tokens, token = 1) →
        TokenCall.run w₂.topic channel call = .ok topic → topic = w₂.topic) ∧
      w₃.settled = [2, 1] ∧ w₃.settled.Nodup := by
  have hidle := flight_spilledTopic
  have hmono : ∀ draws : ℕ, StrictMono fun turn => draws + turn :=
    fun draws _ _ hlt => Nat.add_lt_add_left hlt draws
  have h₁ : Run ⟨spilledTopic, 0, [], []⟩ _ :=
    ((Run.refl _).step (.reserve "workers" 1 1024 1 (drawnFrom 0) (fun turn => 0 + turn)
      (fun _ _ => rfl) (fun _ ht => ⟨Nat.zero_le _, by omega⟩) (hmono 0) (Nat.zero_le _) rfl)).step
        (.call "workers" (.requeue 7 1 0 0) rfl)
  have hnext : ∀ {a b : Traffic}, Run a b → ∀ {c : Traffic}, Step b c → Run b c ∧ Run a c :=
    fun run _ step => ⟨(Run.refl _).step step, run.step step⟩
  have h₂ := hnext h₁ (.reserve "workers" 1 1024 2 (drawnFrom 1) (fun turn => 1 + turn)
    (fun _ _ => rfl) (fun _ ht => ⟨Nat.le_add_right _ _, by omega⟩) (hmono 1) (by decide) rfl)
  have h₃ := hnext h₂.2 (.call "workers" (.finish 7 2 0) rfl)
  refine ⟨_, _, _, ⟨spilledTopic, 0, hidle, h₁⟩, h₂.1, h₃.1, rfl, ⟨_, rfl, rfl, rfl⟩, ?_, rfl, ?_⟩
  · exact ((tokens_safe ⟨spilledTopic, 0, hidle, h₁⟩ (show 1 ≤ 2 ^ 64 by decide)).2.2.2.1
      ⟨"workers", 1, 7, 1⟩ List.mem_cons_self (by rintro ⟨entry, hentry, -⟩; cases hentry) _ h₂.1
      (show 2 ≤ 2 ^ 64 by decide)).2
  · exact (tokens_safe ⟨spilledTopic, 0, hidle, h₃.2⟩ (show 2 ≤ 2 ^ 64 by decide)).2.1

end RustQueue.Broker
