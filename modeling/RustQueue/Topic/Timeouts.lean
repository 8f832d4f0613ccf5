import RustQueue.Lib.Maps
import RustQueue.Topic.Flights

/-!
# Deliveries that time out

A channel finds the delivery of an id, and the deliveries whose deadline has passed, in two indexes
next to the map of the deliveries in flight.  `Mirrored` says that the three describe the same
deliveries.  Every operation keeps it as long as no two deliveries in flight share an id and a
reservation is made at a free position, which is what keeping redelivery and flight apart is for.

`in_flight_indexes_mirror` draws the consequence for a round of timeouts: it moves exactly the
deliveries that are due, and counts each of them once, up to the largest word.
-/

namespace RustQueue.Channel

open Lib

namespace ChannelState

variable {s s' : ChannelState} {p : ℕ}

/-! ### Flight and redelivery are apart -/

/-- No position in flight is offered for redelivery. -/
def Apart (s : ChannelState) : Prop := ∀ p ∈ s.redelivery, p ∉ s.inFlight

theorem Apart.acknowledge (h : s.Apart) (p : ℕ) : (s.acknowledge p).Apart := by
  intro q hq hflight
  rw [acknowledge_redelivery] at hq
  rw [acknowledge_inFlight, mem_erase_eq] at hflight
  exact h q (Finset.mem_of_mem_erase hq) hflight.2

theorem apartInvariant : SearchInvariant Apart where
  cursor h _ _ := h
  forget h _ _ q hq := h q (Finset.mem_of_mem_erase hq)
  advance h := h
  acknowledge h _ := h.acknowledge _

theorem Apart.free {σ : Type*} {nowMs : ℤ} {last : ℕ} {availableAt : σ → ℕ → MessageAvailability × σ}
    {e e' : σ} (h : s.Apart)
    (answer : s.nextCandidate nowMs last availableAt e = some (.ready p, s', e')) :
    p ∉ s'.inFlight ∧ p ∉ s'.redelivery := by
  cases apartInvariant.stop h answer with
  | redelivered inv offered => exact ⟨inv p offered, Finset.notMem_erase _ _⟩
  | fresh inv fresh =>
    simp only [skips, not_or] at fresh
    exact fresh.2.2

theorem Apart.step {answers : ℕ → MessageAvailability → Prop} (h : s.Apart)
    (step : Step answers s s') : s'.Apart := by
  cases step with
  | inMemory local_ =>
    rcases local_.kinds with search | ⟨returned, back⟩
    · cases search with
      | @deliver t _ _ _ _ _ _ position handout _ answer =>
        have hafter := apartInvariant.nextCandidate h answer
        obtain ⟨hflight, hredelivery⟩ := h.free answer
        cases handout with
        | reserve id timestampNs deadline token =>
          intro q hq hin
          have hne : position ≠ q := fun hqp => hredelivery (hqp ▸ hq)
          exact hafter q hq ((mem_insert_eq.1 hin).resolve_left hne)
        | defer =>
          intro q hq
          rcases Finset.mem_insert.1 hq with rfl | hq
          · exact hflight
          · exact hafter q hq
      | idle _ answer => exact apartInvariant.nextCandidate h answer
    · intro q hq hflight
      obtain ⟨hin, hnot⟩ := (back.flight q).1 hflight
      exact ((back.redelivery q).1 hq).elim (fun hq => h q hq hin) hnot
  | apply command =>
    cases command with
    | finish position messageId => exact h.acknowledge position
    | requeue position messageId available attempts count =>
      obtain ⟨d, i, hrem⟩ := s.removeInFlight_eq position
      intro q hq hflight
      simp only [apply, hrem, Finset.mem_insert, mem_erase_eq] at hq hflight
      exact hq.elim (fun hqp => hflight.1 hqp.symm) fun hq => h q hq hflight.2
    | empty through | evict through =>
      obtain ⟨m, d, i, heq, hm⟩ := s.dropThrough_eq through
      intro q hq hflight
      simp only [apply, heq, Finset.mem_filter] at hq hflight
      exact h q hq.1 ((hm q).1 hflight).1
    | pause paused | timeout count => exact h

/-! ### The indexes -/

/-- The two indexes list the deliveries in flight and nothing else. -/
structure Mirrored (s : ChannelState) : Prop where
  ids : ∀ id p, s.inFlightIds[id]? = some p ↔
    ∃ flight : InFlight, s.inFlight[p]? = some flight ∧ flight.id = id
  deadlines : ∀ key, key ∈ s.inFlightDeadlines ↔
    ∃ (p : ℕ) (flight : InFlight), s.inFlight[p]? = some flight ∧ key = deadlineKey flight.deadline p flight.token

/-- No two deliveries in flight carry one id. -/
def DistinctIds (s : ChannelState) : Prop :=
  ∀ (p q : ℕ) (flight other : InFlight), s.inFlight[p]? = some flight → s.inFlight[q]? = some other →
    flight.id = other.id → p = q

/-- Without the deadline of one delivery the index lists those of the others. -/
theorem Mirrored.mem_erase_deadline (h : s.Mirrored) {delivery : InFlight}
    (hdelivery : s.inFlight[p]? = some delivery) (key : DeadlineKey) :
    key ∈ s.inFlightDeadlines.erase (deadlineKey delivery.deadline p delivery.token) ↔
      ∃ (q : ℕ) (flight : InFlight), q ≠ p ∧ s.inFlight[q]? = some flight ∧
        key = deadlineKey flight.deadline q flight.token := by
  rw [Finset.mem_erase, h.deadlines]
  constructor
  · rintro ⟨hne, q, flight, hflight, rfl⟩
    refine ⟨q, flight, ?_, hflight, rfl⟩
    rintro rfl
    rw [hdelivery] at hflight
    cases hflight
    exact hne rfl
  · rintro ⟨q, flight, hqp, hflight, rfl⟩
    exact ⟨fun hkey => hqp (deadlineKey_inj.1 hkey).2.1, q, flight, hflight, rfl⟩

theorem Mirrored.removeInFlight (h : s.Mirrored) (hids : s.DistinctIds) (p : ℕ) :
    (s.removeInFlight p).2.Mirrored := by
  unfold ChannelState.removeInFlight
  split
  · exact h
  · rename_i delivery hdelivery
    refine ⟨fun id q => ?_, fun key => ?_⟩
    · have hid := h.ids id q
      have hdistinct := fun flight => hids p q delivery flight hdelivery
      simp only [getElem?_erase_eq]
      grind
    · simp only [h.mem_erase_deadline hdelivery, getElem?_erase_eq]
      grind

theorem Mirrored.touchUntil (h : s.Mirrored) (p deadline : ℕ) :
    (s.touchUntil p deadline).2.Mirrored := by
  unfold ChannelState.touchUntil
  split
  · exact h
  · rename_i delivery hdelivery
    refine ⟨fun id q => ?_, fun key => ?_⟩
    · have hid := h.ids id q
      simp only [getElem?_insert_eq]
      grind
    · simp only [Finset.mem_insert, h.mem_erase_deadline hdelivery, getElem?_insert_eq]
      grind

theorem Mirrored.reserve (h : s.Mirrored) (hp : p ∉ s.inFlight) {id : ℕ} {ts : ℤ}
    {deadline token : ℕ} (hids : (s.reserveTimestamped p id ts deadline token).1.DistinctIds) :
    (s.reserveTimestamped p id ts deadline token).1.Mirrored := by
  have hnone : s.inFlight[p]? = none := Std.ExtTreeMap.getElem?_eq_none hp
  refine ⟨fun id' q => ?_, fun key => ?_⟩
  · have hid := h.ids id' q
    have hdistinct := fun flight => hids p q ⟨id, ts, deadline, token⟩ flight
    simp only [reserveTimestamped, getElem?_insert_eq, if_true, true_implies] at hdistinct ⊢
    by_cases hpq : p = q
    · subst hpq
      by_cases hnew : id = id'
      · simp [hnew]
      · simpa [hnew, hnone] using hid
    · simp only [hpq, if_false] at hdistinct ⊢
      rw [← hid]
      by_cases hnew : id = id'
      · subst hnew
        refine iff_of_false (by simp [hpq]) fun hold => ?_
        obtain ⟨flight, hflight, hsame⟩ := hid.1 hold
        exact hdistinct flight hflight hsame.symm
      · rw [if_neg hnew]
  · simp only [reserveTimestamped, Finset.mem_insert, h.deadlines, getElem?_insert_eq]
    constructor
    · rintro (rfl | ⟨q, flight, hflight, rfl⟩)
      · exact ⟨p, ⟨id, ts, deadline, token⟩, if_pos rfl, rfl⟩
      · refine ⟨q, flight, ?_, rfl⟩
        rw [if_neg]
        · exact hflight
        · rintro rfl
          rw [hnone] at hflight
          cases hflight
    · rintro ⟨q, flight, hflight, rfl⟩
      split_ifs at hflight with hpq
      · cases hflight
        exact Or.inl (hpq ▸ rfl)
      · exact Or.inr ⟨q, flight, hflight, rfl⟩

theorem DistinctIds.from (h : s.DistinctIds) (hfrom : FlightsFrom s s') : s'.DistinctIds := by
  intro p q flight other hp hq hid
  obtain ⟨flight', hp', -, hid'⟩ := hfrom p flight hp
  obtain ⟨other', hq', -, hid''⟩ := hfrom q other hq
  exact h p q flight' other' hp' hq' (hid'.trans (hid.trans hid''.symm))

theorem mirroredInvariant : FlightInvariant fun s => s.Mirrored ∧ s.DistinctIds where
  of_eq h hflight hids hdeadlines :=
    ⟨⟨by rw [hids, hflight]; exact h.1.ids, by rw [hdeadlines, hflight]; exact h.1.deadlines⟩,
      h.2.from (.of_eq hflight)⟩
  remove h p := ⟨h.1.removeInFlight h.2 p, h.2.from ((flightsFromInvariant _).remove (.refl _) p)⟩

/-! ### Runs -/

/-- A channel after any operations, in which every delivery carries the id of its message. -/
inductive Delivering (ids : ℕ → ℕ) : ChannelState → Prop
  | opened {s : ChannelState} (h : Opening s) : Delivering ids s
  | step {s s' : ChannelState} (h : Delivering ids s) (step : Step (fun _ _ => True) s s')
      (own : ∀ (p : ℕ) (flight : InFlight), s'.inFlight[p]? = some flight → flight.id = ids p) : Delivering ids s'

theorem FlightInvariant.opening {I : ChannelState → Prop} (hI : FlightInvariant I)
    (hempty : ∀ s : ChannelState, s.inFlight = ∅ → s.inFlightIds = ∅ → s.inFlightDeadlines = ∅ → I s)
    (h : Opening s) : I s := by
  induction h with
  | created => exact hempty _ rfl rfl rfl
  | @loaded checkpoint gap s valid commands =>
    have hloaded : I s := by
      rw [fromCheckpoint_eq valid]
      exact hempty _ rfl rfl rfl
    unfold replay
    clear valid
    induction commands generalizing s with
    | nil => exact hloaded
    | cons command commands ih => exact ih (hI.apply hloaded command)
  | absent h ranges ih => exact hI.of_eq ih rfl rfl rfl
  | compacted h ok ih =>
    obtain ⟨r, m, rfl, -⟩ := compactRecoveredDpubs_eq ok
    exact hI.of_eq ih rfl rfl rfl

theorem emptyInvariant : FlightInvariant fun s => s.inFlight = ∅ where
  of_eq h hflight _ _ := hflight.trans h
  remove {s} h p := by
    rw [removeInFlight_inFlight, h]
    exact Std.ExtTreeMap.ext_getElem? fun q => by simp

theorem mirrored_of_empty (hflight : s.inFlight = ∅) (hids : s.inFlightIds = ∅)
    (hdeadlines : s.inFlightDeadlines = ∅) : s.Mirrored ∧ s.DistinctIds := by
  refine ⟨⟨fun id p => ?_, fun key => ?_⟩, fun p q flight other hp => ?_⟩
  · simp [hids, hflight]
  · simp [hdeadlines, hflight]
  · simp [hflight] at hp

/-- What holds of every channel whose deliveries carry ids of their own. -/
structure Faithful (s : ChannelState) : Prop where
  mirrored : s.Mirrored
  distinct : s.DistinctIds
  apart : s.Apart

variable {ids : ℕ → ℕ}

theorem Faithful.step (hids : Function.Injective ids) (h : s.Faithful) (step : Step (fun _ _ => True) s s')
    (own : ∀ (p : ℕ) (flight : InFlight), s'.inFlight[p]? = some flight → flight.id = ids p) :
    s'.Faithful := by
  have hdistinct : s'.DistinctIds := fun p q flight other hp hq hid =>
    hids ((own p flight hp).symm.trans (hid.trans (own q other hq)))
  refine ⟨?_, hdistinct, h.apart.step step⟩
  have hmirrored : s.Mirrored ∧ s.DistinctIds := ⟨h.mirrored, h.distinct⟩
  cases step with
  | apply command => exact (mirroredInvariant.apply hmirrored command).1
  | inMemory local_ =>
    cases local_ with
    | search found =>
      cases found with
      | deliver handout _ answer =>
        have hafter := (mirroredInvariant.search.nextCandidate hmirrored answer).1
        cases handout with
        | reserve => exact hafter.reserve (h.apart.free answer).1 hdistinct
        | defer => exact ⟨hafter.ids, hafter.deadlines⟩
      | idle _ answer => exact (mirroredInvariant.search.nextCandidate hmirrored answer).1
    | cancel position token => exact (mirroredInvariant.cancel hmirrored position token).1
    | release position => exact (mirroredInvariant.release hmirrored position).1
    | releaseAll => exact (mirroredInvariant.expirePositions hmirrored _).1
    | expire now => exact (mirroredInvariant.expirePositions hmirrored _).1
    | touch position deadline => exact h.mirrored.touchUntil position deadline
    | countTimeouts => exact ⟨h.mirrored.ids, h.mirrored.deadlines⟩

theorem Delivering.faithful (hids : Function.Injective ids) (h : Delivering ids s) : s.Faithful := by
  induction h with
  | opened h =>
    obtain ⟨hmirrored, hdistinct⟩ := mirroredInvariant.opening (fun _ => mirrored_of_empty) h
    have hempty := emptyInvariant.opening (fun _ hflight _ _ => hflight) h
    exact ⟨hmirrored, hdistinct, fun p _ hp => by simp [hempty] at hp⟩
  | step _ step own ih => exact ih.step hids step own

/-! ### A round of timeouts -/

theorem Mirrored.mem_expiredPositions (h : s.Mirrored) (now : ℕ) : p ∈ s.expiredPositions now ↔
      ∃ flight : InFlight, s.inFlight[p]? = some flight ∧ flight.deadline ≤ now := by
  simp only [expiredPositions, List.mem_map, mem_dueKeys, h.deadlines]
  constructor
  · rintro ⟨key, ⟨⟨q, flight, hflight, rfl⟩, hdue⟩, rfl⟩
    exact ⟨flight, hflight, hdue⟩
  · rintro ⟨flight, hflight, hdue⟩
    exact ⟨_, ⟨⟨p, flight, hflight, rfl⟩, hdue⟩, rfl⟩

theorem Mirrored.nodup_expiredPositions (h : s.Mirrored) (now : ℕ) : (s.expiredPositions now).Nodup := by
  refine List.Nodup.map_on (fun key hkey key' hkey' heq => ?_) (nodup_dueKeys _ _)
  obtain ⟨p, flight, hflight, rfl⟩ := (h.deadlines key).1 (mem_dueKeys.1 hkey).1
  obtain ⟨q, other, hother, rfl⟩ := (h.deadlines key').1 (mem_dueKeys.1 hkey').1
  obtain rfl : p = q := heq
  rw [hflight] at hother
  cases hother
  rfl

theorem expirePositions_inFlight (s : ChannelState) (ps : List ℕ) (q : ℕ) :
    (s.expirePositions ps).inFlight[q]? = if q ∈ ps then none else s.inFlight[q]? := by
  unfold expirePositions
  induction ps generalizing s with
  | nil => simp
  | cons p ps ih =>
    rw [List.foldl_cons, ih]
    simp only [deferCandidate, removeInFlight_inFlight, getElem?_erase_eq, List.mem_cons]
    grind

end ChannelState

end RustQueue.Channel

namespace RustQueue.Topic.ChannelRuntime

open Lib Channel ChannelState

/-- What a round of timeouts does to a channel, whether or not it logs its counters. -/
theorem expireInFlight_state (runtime : ChannelRuntime) (name : String) (now : ℕ)
    (hword : runtime.state.timeoutCount ≤ u64Max) :
    (runtime.expireInFlight name now).1 = (runtime.state.expiredPositions now).length ∧
      (runtime.expireInFlight name now).2.1.state =
        { runtime.state.expirePositions (runtime.state.expiredPositions now) with
          timeoutCount :=
            satAdd u64Max runtime.state.timeoutCount (runtime.state.expiredPositions now).length } := by
  have hnone : runtime.state.timeoutCount = satAdd u64Max runtime.state.timeoutCount 0 :=
    (min_eq_left hword).symm
  unfold expireInFlight
  dsimp only
  split_ifs with hempty hdurable
  · rw [hempty]
    exact ⟨rfl, by rw [List.length_nil, ← hnone]; rfl⟩
  · refine ⟨rfl, ?_⟩
    have hle : runtime.state.timeoutCount ≤
        satAdd u64Max runtime.state.timeoutCount (runtime.state.expiredPositions now).length :=
      le_min (Nat.le_add_right _ _) hword
    obtain ⟨m, d, i, heq, -⟩ := runtime.state.expirePositions_eq (runtime.state.expiredPositions now)
    rw [state_checkpointIfNeeded, ChannelRuntime.apply, state_append, heq, ChannelState.apply]
    simp only [max_eq_right hle]
  · exact ⟨rfl, by rw [state_checkpointIfNeeded]⟩

end RustQueue.Topic.ChannelRuntime

namespace RustQueue.Topic

open Lib Channel ChannelState

/-- **The in-flight indexes mirror each other.**  In a channel whose messages have ids of their own,
the two indexes list exactly the deliveries in flight, the expired positions are exactly those in
flight whose deadline has passed, and a round of timeouts moves exactly these to redelivery and adds
their number to the timeouts, up to the largest word. -/
theorem in_flight_indexes_mirror {ids : ℕ → ℕ} (hids : Function.Injective ids) {s : ChannelState}
    (h : Delivering ids s) :
    (∀ id p, s.inFlightIds[id]? = some p ↔
      ∃ flight : InFlight, s.inFlight[p]? = some flight ∧ flight.id = id) ∧
    (∀ key, key ∈ s.inFlightDeadlines ↔ ∃ (p : ℕ) (flight : InFlight),
      s.inFlight[p]? = some flight ∧ key = deadlineKey flight.deadline p flight.token) ∧
    ∀ now, (s.expiredPositions now).Nodup ∧
      (∀ p, p ∈ s.expiredPositions now ↔
        ∃ flight : InFlight, s.inFlight[p]? = some flight ∧ flight.deadline ≤ now) ∧
      ∀ (runtime : ChannelRuntime) (name : String), runtime.state = s → s.timeoutCount ≤ u64Max →
        (runtime.expireInFlight name now).1 = (s.expiredPositions now).length ∧
        ∃ after, (runtime.expireInFlight name now).2.1.state = after ∧
          (∀ p : ℕ, after.inFlight[p]? =
            if p ∈ s.expiredPositions now then none else s.inFlight[p]?) ∧
          after.redelivery = s.redelivery ∪ (s.expiredPositions now).toFinset ∧
          after.timeoutCount = min (s.timeoutCount + (s.expiredPositions now).length) u64Max := by
  have hmirrored := (h.faithful hids).mirrored
  refine ⟨hmirrored.ids, hmirrored.deadlines, fun now => ⟨hmirrored.nodup_expiredPositions now,
    fun p => hmirrored.mem_expiredPositions now, ?_⟩⟩
  rintro runtime name rfl hword
  obtain ⟨hcount, hstate⟩ := runtime.expireInFlight_state name now hword
  obtain ⟨m, d, i, heq, -⟩ := runtime.state.expirePositions_eq (runtime.state.expiredPositions now)
  exact ⟨hcount, _, hstate, runtime.state.expirePositions_inFlight _,
    congrArg ChannelState.redelivery heq, rfl⟩

/-- A loaded channel whose count of timeouts is the largest word, with one delivery that is due. -/
def saturated : ChannelState :=
  (load { (new "workers" 0 false 8).checkpoint with timeoutCount := u64Max } 8).stepCursor.settle 1
    (.reserve 7 0 100 1)

theorem delivering_saturated : Delivering (· + 6) saturated := by
  have hload : fromCheckpoint { (new "workers" 0 false 8).checkpoint with timeoutCount := u64Max } 8 =
      .ok (load { (new "workers" 0 false 8).checkpoint with timeoutCount := u64Max } 8) := rfl
  refine .step (.opened (.loaded hload [])) (.inMemory (.search (.deliver (e := ()) (.reserve 7 0 100 1)
    (fun _ _ => trivial) (show nextCandidate _ 10 2 (fun _ _ => (.ready 0, ())) () = _ from rfl)))) ?_
  intro p flight hflight
  have hentry : ((∅ : Std.ExtTreeMap ℕ InFlight).insert 1 ⟨7, 0, 100, 1⟩)[p]? = some flight := hflight
  rw [getElem?_insert_eq] at hentry
  split_ifs at hentry with hp
  · cases hentry
    rw [← hp]
  · simp at hentry

/-- The count of timeouts of a channel that has reached the largest word is not raised. -/
theorem timeouts_not_raised :
    ∃ (ids : ℕ → ℕ) (s : ChannelState) (runtime : ChannelRuntime) (now : ℕ),
      Function.Injective ids ∧ Delivering ids s ∧ runtime.state = s ∧
      (s.expiredPositions now).length = 1 ∧
      (runtime.expireInFlight "workers" now).2.1.state.timeoutCount ≠ s.timeoutCount + 1 :=
  ⟨(· + 6), saturated, ⟨saturated, none, false⟩, 100, add_left_injective 6, delivering_saturated, rfl,
    by decide +kernel, by decide +kernel⟩

/-- The delivery of such a channel is found under its id, and its timeout moves it to redelivery. -/
theorem in_flight_indexes_mirror_saturated :
    ∃ s : ChannelState, s.expiredPositions 100 = [1] ∧ s.inFlightIds[7]? = some 1 ∧
      ∃ after, ((⟨s, none, false⟩ : ChannelRuntime).expireInFlight "workers" 100).2.1.state = after ∧
        after.redelivery = {1} := by
  obtain ⟨hids, -, htimeouts⟩ := in_flight_indexes_mirror (add_left_injective 6) delivering_saturated
  obtain ⟨-, -, hround⟩ := htimeouts 100
  obtain ⟨-, after, hafter, -, hredelivery, -⟩ :=
    hround ⟨saturated, none, false⟩ "workers" rfl (by decide +kernel)
  refine ⟨saturated, by decide +kernel, (hids 7 1).2 ⟨⟨7, 0, 100, 1⟩, rfl, rfl⟩, after, hafter, ?_⟩
  rw [hredelivery]
  decide +kernel

end RustQueue.Topic
