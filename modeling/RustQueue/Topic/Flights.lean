import RustQueue.Lib.Result
import RustQueue.Topic.Delivery
import RustQueue.Topic.Operations

/-!
# The deliveries of a topic

What the operations of a topic do to the deliveries in flight.  `FlightsFrom topic topic'` says that
every delivery of `topic'` is a delivery of `topic` under the same token; it holds for every operation
but a reservation, and `flight_reserveBatch` says what a reservation adds.
-/

namespace RustQueue.Topic

open Lib Channel

/-- The entry of a position in flight. -/
def flight (topic : Topic) (channel : String) (position : ℕ) : Option InFlight :=
  topic.channels[channel]?.bind fun runtime => runtime.state.inFlight[position]?

/-- Two topics whose channels are in the same states. -/
def SameStates (topic topic' : Topic) : Prop :=
  ∀ name : String, (topic'.channels[name]?.map ChannelRuntime.state) =
    topic.channels[name]?.map ChannelRuntime.state

/-! ### The deliveries of a topic -/

section Flights

variable {topic topic' topic'' : Topic} {channel name : String} {p : ℕ}

/-- Every delivery in flight was in flight before, under the same token. -/
def FlightsFrom (topic topic' : Topic) : Prop :=
  ∀ channel p entry', flight topic' channel p = some entry' →
    ∃ entry, flight topic channel p = some entry ∧ entry.token = entry'.token ∧ entry.id = entry'.id

theorem FlightsFrom.refl (topic : Topic) : FlightsFrom topic topic :=
  fun _ _ entry h => ⟨entry, h, rfl, rfl⟩

theorem FlightsFrom.trans (h : FlightsFrom topic topic') (h' : FlightsFrom topic' topic'') :
    FlightsFrom topic topic'' := by
  intro channel p entry'' hp
  obtain ⟨entry', hp', htoken', hid'⟩ := h' channel p entry'' hp
  obtain ⟨entry, hp, htoken, hid⟩ := h channel p entry' hp'
  exact ⟨entry, hp, htoken.trans htoken', hid.trans hid'⟩

theorem flight_of_channel {runtime : ChannelRuntime} (h : topic.channels[name]? = some runtime)
    (p : ℕ) : flight topic name p = runtime.state.inFlight[p]? := by
  rw [flight, h]
  rfl

theorem flight_setChannel (topic : Topic) (name : String) (runtime : ChannelRuntime)
    (channel : String) (p : ℕ) :
    flight (topic.setChannel name runtime) channel p =
      if channel = name then runtime.state.inFlight[p]? else flight topic channel p := by
  unfold flight setChannel
  by_cases h : channel = name
  · simp [h]
  · simp [h, Ne.symm h, Std.ExtTreeMap.getElem?_insert]

theorem flight_of_sameStates (h : SameStates topic topic') (channel : String) (p : ℕ) :
    flight topic' channel p = flight topic channel p := by
  have hstate := h channel
  unfold flight
  cases hnew : topic'.channels[channel]? with
  | none =>
    rw [hnew] at hstate
    cases hold : topic.channels[channel]? with
    | none => rfl
    | some runtime =>
      rw [hold] at hstate
      cases hstate
  | some runtime =>
    rw [hnew] at hstate
    cases hold : topic.channels[channel]? with
    | none =>
      rw [hold] at hstate
      cases hstate
    | some runtime' =>
      rw [hold] at hstate
      exact congrArg (fun state : ChannelState => state.inFlight[p]?) (Option.some.inj hstate)

theorem flightsFrom_setChannel {runtime runtime' : ChannelRuntime}
    (h : topic.channels[name]? = some runtime)
    (hstate : runtime.state.FlightsFrom runtime'.state) :
    FlightsFrom topic (topic.setChannel name runtime') := by
  intro channel p entry' hp
  rw [flight_setChannel] at hp
  split_ifs at hp with hname
  · subst hname
    rw [flight_of_channel h]
    exact hstate p entry' hp
  · exact ⟨entry', hp, rfl, rfl⟩

theorem channel_eq_ok {runtime : ChannelRuntime} :
    topic.channel name = .ok runtime ↔ topic.channels[name]? = some runtime := by
  unfold Topic.channel
  cases topic.channels[name]? <;> simp

theorem flightsFrom_onChannel {operation : ChannelRuntime → ChannelRuntime × List Write}
    {writes : List Write}
    (hoperation : ∀ runtime : ChannelRuntime, runtime.state.FlightsFrom (operation runtime).1.state)
    (h : topic.onChannel name operation = .ok (topic', writes)) : FlightsFrom topic topic' := by
  obtain ⟨runtime, hruntime, h⟩ := bind_eq_ok.1 h
  cases pure_eq_ok.1 h
  exact flightsFrom_setChannel (channel_eq_ok.1 hruntime) (hoperation runtime)

theorem flightsFrom_modifyState {f : ChannelState → ChannelState}
    (hf : ∀ state : ChannelState, state.FlightsFrom (f state)) (topic : Topic) (name : String) :
    FlightsFrom topic (topic.modifyState name f) := by
  unfold modifyState
  split
  · exact .refl topic
  · rename_i runtime hruntime
    exact flightsFrom_setChannel hruntime (hf runtime.state)

end Flights

/-! ### Reservations -/

section Reserve

variable {messages : MessageIndex} {around : Surroundings} {last maxBytes turn : ℕ} {batch : Batch}

/-- What the loop of a reservation has put in flight: what it has reserved, under tokens that were
drawn in its turns. -/
structure Reserved (around : Surroundings) (start : ChannelState) (turn : ℕ) (batch : Batch) :
    Prop where
  flights : ∀ (p : ℕ) (entry' : InFlight), batch.state.inFlight[p]? = some entry' →
    (∃ entry : InFlight, start.inFlight[p]? = some entry ∧ entry.token = entry'.token ∧
      entry.id = entry'.id) ∨
    ∃ reserved ∈ batch.reserved, reserved.position = p ∧ reserved.id = entry'.id ∧
      reserved.token = entry'.token
  ordered : batch.reserved.Pairwise fun earlier later => ∃ t t', t < t' ∧ t' < turn ∧
    earlier.token = around.token t ∧ later.token = around.token t'
  turns : ∀ reserved ∈ batch.reserved, ∃ t < turn, reserved.token = around.token t

theorem Reserved.start (around : Surroundings) (state : ChannelState) :
    Reserved around state 0 ⟨state, 0, [], 0⟩ where
  flights := fun _ entry hp => Or.inl ⟨entry, hp, rfl, rfl⟩
  ordered := .nil
  turns := by simp

theorem Reserved.mono {start : ChannelState} {turn' : ℕ} (h : Reserved around start turn batch)
    (hle : turn ≤ turn') : Reserved around start turn' batch where
  flights := h.flights
  ordered := h.ordered.imp fun ⟨t, t', hlt, ht', htokens⟩ => ⟨t, t', hlt, by omega, htokens⟩
  turns := by
    intro reserved hmem
    obtain ⟨t, ht, htoken⟩ := h.turns reserved hmem
    exact ⟨t, by omega, htoken⟩

theorem Reserved.quiet {start : ChannelState} {after : Batch} (h : Reserved around start turn batch)
    (hstate : batch.state.FlightsFrom after.state) (hreserved : after.reserved = batch.reserved) :
    Reserved around start (turn + 1) after := by
  refine Reserved.mono ⟨?_, hreserved ▸ h.ordered, hreserved ▸ h.turns⟩ (Nat.le_succ turn)
  intro p entry'' hp
  obtain ⟨entry', hp', htoken', hid'⟩ := hstate p entry'' hp
  rcases h.flights p entry' hp' with ⟨entry, hp, htoken, hid⟩ | ⟨reserved, hmem, hpos, hid, htoken⟩
  · exact Or.inl ⟨entry, hp, htoken.trans htoken', hid.trans hid'⟩
  · exact Or.inr ⟨reserved, hreserved ▸ hmem, hpos, hid.trans hid', htoken.trans htoken'⟩

theorem Reserved.add {start state : ChannelState} {lookups q : ℕ} {message : MessageMeta}
    (h : Reserved around start turn batch)
    (hstate : batch.state.FlightsFrom state) :
    Reserved around start (turn + 1) (batch.add around turn state lookups q message) := by
  have hquiet : Reserved around start (turn + 1) { batch with state := state } :=
    h.quiet hstate rfl
  refine ⟨?_, ?_, ?_⟩
  · intro p entry' hp
    have hinsert : (state.inFlight.insert q
        ⟨message.id, message.timestampNs, around.deadline turn, around.token turn⟩)[p]? =
          some entry' := hp
    rw [Std.ExtTreeMap.getElem?_insert] at hinsert
    split_ifs at hinsert with hq
    · cases hinsert
      refine Or.inr ⟨_, List.mem_append_right _ List.mem_cons_self, ?_, rfl, rfl⟩
      exact compare_eq_iff_eq.1 hq
    · rcases hquiet.flights p entry' hinsert with hold | ⟨reserved, hmem, hrest⟩
      · exact Or.inl hold
      · exact Or.inr ⟨reserved, List.mem_append_left _ hmem, hrest⟩
  · refine List.pairwise_append.2 ⟨hquiet.ordered, List.pairwise_singleton _ _, ?_⟩
    intro earlier hearlier later hlater
    obtain ⟨t, ht, htoken⟩ := h.turns earlier hearlier
    rw [List.mem_singleton.1 hlater]
    exact ⟨t, turn, ht, by omega, htoken, rfl⟩
  · intro reserved hmem
    rcases List.mem_append.1 hmem with hmem | hmem
    · exact hquiet.turns reserved hmem
    · rw [List.mem_singleton.1 hmem]
      exact ⟨turn, by omega, rfl⟩

/-- **One turn** of the loop. -/
theorem Reserved.oneTurn {start : ChannelState} {result : Turn} (h : Reserved around start turn batch)
    (hturn : reserveTurn messages around last maxBytes turn batch = some result) :
    Reserved around start (turn + 1) result.batch := by
  obtain ⟨candidate, state, lookups, hcandidate, hcase⟩ := reserveTurn_cases hturn
  have hstate := (ChannelState.flightsFromInvariant _).search.nextCandidate (.refl _) hcandidate
  rcases hcase with ⟨rfl, hreserved, -⟩ | ⟨q, message, -, -, ⟨rfl, -⟩ | ⟨rfl, -⟩⟩
  · exact h.quiet hstate hreserved
  · exact h.quiet (hstate.trans (.of_eq rfl)) rfl
  · exact h.add hstate

/-- **The loop** of a reservation. -/
theorem Reserved.loop {start : ChannelState} {left : ℕ} {answer : ReserveBatch} {after : Batch}
    (h : Reserved around start turn batch)
    (hloop : reserveLoop messages around last maxBytes left turn batch = some (answer, after)) :
    Reserved around start (turn + left) after := by
  induction left generalizing turn batch with
  | zero =>
    cases hloop
    exact h
  | succ left ih =>
    rw [reserveLoop] at hloop
    split at hloop
    · cases hloop
    · rename_i stopped stop hturn
      cases hloop
      exact (h.oneTurn hturn).mono (by omega)
    · rename_i next hturn
      have := ih (h.oneTurn hturn) hloop
      rwa [Nat.add_right_comm, Nat.add_assoc] at this

end Reserve

/-! ### The operations -/

section Operations

variable {topic topic' : Topic} {channel : String}

theorem state_append (runtime : ChannelRuntime) (name : String) (command : ChannelCommand) :
    (runtime.append name command).1.state = runtime.state := by
  unfold ChannelRuntime.append ChannelRuntime.prepareSync
  cases h : (runtime.appendBuffered command).store <;> rfl

theorem state_checkpointIfNeeded (runtime : ChannelRuntime) (name : String) :
    (runtime.checkpointIfNeeded name).1.state = runtime.state := by
  unfold ChannelRuntime.checkpointIfNeeded ChannelRuntime.checkpoint
  split_ifs
  · cases h : runtime.store <;> rfl
  · rfl

variable {writes : List Write}

theorem flightsFrom_persistChannel {command : ChannelCommand}
    (h : topic.persistChannel channel command = .ok (topic', writes)) : FlightsFrom topic topic' := by
  refine flightsFrom_onChannel (fun runtime => ?_) h
  rw [state_checkpointIfNeeded]
  show runtime.state.FlightsFrom ((runtime.append channel command).1.state.apply command)
  rw [state_append]
  exact runtime.state.flightsFrom_apply command

theorem flightsFrom_persistChannelBuffered {command : ChannelCommand}
    (h : topic.persistChannelBuffered channel command = .ok (topic', writes)) :
    FlightsFrom topic topic' :=
  flightsFrom_onChannel (fun runtime => runtime.state.flightsFrom_apply command) h

theorem flightsFrom_expire {now : ℕ}
    (h : topic.expireChannelInFlight channel now = .ok (topic', writes)) :
    FlightsFrom topic topic' := by
  refine flightsFrom_onChannel (fun runtime => ?_) h
  unfold ChannelRuntime.expireInFlight
  dsimp only
  split_ifs
  · exact .refl _
  all_goals
    rw [state_checkpointIfNeeded]
    have hexpired := runtime.state.flightsFromInvariant.expirePositions (.refl _)
      (runtime.state.expiredPositions now)
  · refine ChannelState.FlightsFrom.trans ?_ (.of_eq rfl)
    rw [state_append]
    exact hexpired
  · exact hexpired.trans (.of_eq rfl)

theorem flightsFrom_of_channels (h : topic'.channels = topic.channels) : FlightsFrom topic topic' := by
  intro channel p entry hp
  refine ⟨entry, ?_, rfl, rfl⟩
  unfold flight at hp ⊢
  rwa [h] at hp

theorem setUnroutedFromPosition_channels {position : Option ℕ}
    (h : topic.setUnroutedFromPosition position = .ok (topic', writes)) :
    topic'.channels = topic.channels := by
  unfold setUnroutedFromPosition storeManifest at h
  split_ifs at h <;> cases h <;> rfl

theorem flightsFrom_createChannel {created : Bool} {cutoff : ℤ}
    (h : topic.createChannel channel cutoff = .ok (created, topic', writes)) :
    FlightsFrom topic topic' := by
  unfold createChannel at h
  split_ifs at h
  · cases h
    exact .refl topic
  · obtain ⟨barrier, -, h⟩ := bind_eq_ok.1 h
    obtain ⟨⟨routed, more⟩, hrouted, h⟩ := bind_eq_ok.1 h
    cases pure_eq_ok.1 h
    have hchannels : routed.channels = topic.channels := by
      unfold releaseUnrouted at hrouted
      split_ifs at hrouted
      · exact setUnroutedFromPosition_channels hrouted
      · cases hrouted
        rfl
    refine (flightsFrom_of_channels hchannels).trans fun name p entry hp => ?_
    rw [flight_setChannel] at hp
    by_cases hname : name = channel
    · rw [if_pos hname, ChannelState.setAbsentRanges_inFlight] at hp
      exact absurd hp (by simp [ChannelState.new])
    · rw [if_neg hname] at hp
      exact ⟨entry, hp, rfl, rfl⟩

theorem flightsFrom_deleteChannel (h : topic.deleteChannel channel = .ok (topic', writes)) :
    FlightsFrom topic topic' := by
  obtain ⟨runtime, -, h⟩ := bind_eq_ok.1 h
  obtain ⟨⟨routed, more⟩, hrouted, h⟩ := bind_eq_ok.1 h
  cases pure_eq_ok.1 h
  have hchannels : routed.channels = topic.channels := by
    unfold holdUnrouted at hrouted
    split_ifs at hrouted
    · exact setUnroutedFromPosition_channels hrouted
    · cases hrouted
      rfl
  refine (flightsFrom_of_channels hchannels).trans fun name p entry hp => ?_
  refine ⟨entry, ?_, rfl, rfl⟩
  unfold flight at hp ⊢
  rw [Std.ExtTreeMap.getElem?_erase] at hp
  split_ifs at hp
  · cases hp
  · exact hp

/-- The deliveries after a reservation. -/
theorem flight_reserveBatch {maxMessages maxBytes : ℕ} {around : Surroundings}
    {answer : ReserveBatch}
    (h : topic.reserveBatch channel maxMessages maxBytes around = some (.ok answer, topic')) :
    (answer.reserved.Pairwise fun earlier later => ∃ t t', t < t' ∧ t' < maxMessages ∧
        earlier.token = around.token t ∧ later.token = around.token t') ∧
      (∀ reserved ∈ answer.reserved, ∃ t < maxMessages, reserved.token = around.token t) ∧
      ∀ name p entry', flight topic' name p = some entry' →
        (∃ entry, flight topic name p = some entry ∧ entry.token = entry'.token ∧
          entry.id = entry'.id) ∨
        name = channel ∧ ∃ reserved ∈ answer.reserved, reserved.position = p ∧
          reserved.id = entry'.id ∧ reserved.token = entry'.token := by
  unfold reserveBatch at h
  split_ifs at h
  · cases h
  · cases h
    exact ⟨.nil, by simp [ReserveBatch.reserved], fun _ _ entry hp => Or.inl ⟨entry, hp, rfl, rfl⟩⟩
  · split at h
    · cases h
    · rename_i runtime hruntime
      split at h
      · cases h
      · rename_i answer' batch hloop
        cases h
        have hreserved := Reserved.loop (Reserved.start around runtime.state) hloop
        rw [Nat.zero_add] at hreserved
        rw [reserveLoop_reserved hloop]
        refine ⟨hreserved.ordered, hreserved.turns, fun name p entry' hp => ?_⟩
        change flight (topic.setChannel channel _) name p = some entry' at hp
        rw [flight_setChannel] at hp
        split_ifs at hp with hname
        · subst hname
          rw [flight_of_channel hruntime]
          rcases hreserved.flights p entry' hp with hold | hnew
          · exact Or.inl hold
          · exact Or.inr ⟨rfl, hnew⟩
        · exact Or.inl ⟨entry', hp, rfl, rfl⟩

end Operations

end RustQueue.Topic
