import RustQueue.Channel.Candidate

/-!
# The indexes of the deliveries in flight

Every operation of a channel but a reservation and a touch works on the three in-flight indexes through
`removeInFlight`.  `FlightInvariant` says that a property of the indexes is kept by it, and every other
operation then keeps it as well.

* `indexedInvariant`: the deadline index only lists deliveries in flight;
* `flightsFromInvariant`: no operation but a reservation puts a token in flight.
-/

namespace RustQueue.Channel

open Lib

namespace ChannelState

variable {s s' t : ChannelState} {p : ℕ}

/-- A property of the in-flight indexes that survives the loss of a delivery. -/
structure FlightInvariant (I : ChannelState → Prop) : Prop where
  of_eq : ∀ {s s'}, I s → s'.inFlight = s.inFlight → s'.inFlightIds = s.inFlightIds →
    s'.inFlightDeadlines = s.inFlightDeadlines → I s'
  remove : ∀ {s}, I s → ∀ p, I (s.removeInFlight p).2

namespace FlightInvariant

variable {I : ChannelState → Prop} (hI : FlightInvariant I)
include hI

theorem acknowledge (h : I s) (p : ℕ) : I (s.acknowledge p) := by
  have hclear : I (s.clearPending p) := hI.of_eq (hI.remove h p) rfl rfl rfl
  dsimp only [ChannelState.acknowledge]
  split_ifs
  · exact hclear
  · exact hI.of_eq hclear rfl rfl rfl

theorem dropThrough (h : I s) (through : ℕ) : I (s.dropThrough through) := by
  have hall : ∀ (ps : List ℕ) {s : ChannelState}, I s → I (s.removeAllInFlight ps) := by
    intro ps
    unfold removeAllInFlight
    induction ps with
    | nil => exact fun h => h
    | cons p ps ih => exact fun h => ih (hI.remove h p)
  have hbase : I { s with
      ackFloorPosition := max s.ackFloorPosition through
      acknowledged := s.acknowledged.filter (through < ·)
      requeuedUntil := s.requeuedUntil.filter fun p _ => decide (through < p)
      attempts := s.attempts.filter fun p _ => decide (through < p) } :=
    hI.of_eq h rfl rfl rfl
  exact hI.of_eq (hall _ hbase) rfl rfl rfl

theorem expirePositions (h : I s) (ps : List ℕ) : I (s.expirePositions ps) := by
  unfold ChannelState.expirePositions
  induction ps generalizing s with
  | nil => exact h
  | cons p ps ih => exact ih (hI.of_eq (hI.remove h p) rfl rfl rfl)

theorem cancel (h : I s) (p token : ℕ) : I (s.cancel p token) := by
  unfold ChannelState.cancel
  split_ifs
  · obtain ⟨a, ha⟩ := ((s.removeInFlight p).2.deferCandidate p).uncountAttempt_eq p
    rw [ha]
    exact hI.of_eq (hI.remove h p) rfl rfl rfl
  · exact h

theorem release (h : I s) (p : ℕ) : I (s.release p) := by
  dsimp only [ChannelState.release]
  split_ifs
  · exact hI.of_eq (hI.remove h p) rfl rfl rfl
  · exact hI.remove h p

theorem apply (h : I s) (command : ChannelCommand) : I (s.apply command) := by
  cases command with
  | finish position messageId => exact hI.acknowledge h position
  | requeue position messageId available attempts count =>
    exact hI.of_eq (hI.remove h position) rfl rfl rfl
  | empty through | evict through => exact hI.dropThrough h through
  | pause paused | timeout count => exact hI.of_eq h rfl rfl rfl

/-- Looking for a candidate takes deliveries out of flight at most. -/
theorem search : SearchInvariant I where
  cursor h _ _ := hI.of_eq h rfl rfl rfl
  forget h _ _ := hI.of_eq h rfl rfl rfl
  advance h := hI.of_eq h rfl rfl rfl
  acknowledge h _ := hI.acknowledge h _

end FlightInvariant

/-! ### The deadline index -/

theorem deadlineKey_inj {d t d' p' t' : ℕ} :
    deadlineKey d p t = deadlineKey d' p' t' ↔ d = d' ∧ p = p' ∧ t = t' := by
  simp [deadlineKey]

/-- The deadline index only lists deliveries in flight, under their current deadline. -/
def Indexed (s : ChannelState) : Prop :=
  ∀ d p t, deadlineKey d p t ∈ s.inFlightDeadlines →
    ∃ flight, s.inFlight[p]? = some flight ∧ flight.deadline = d ∧ flight.token = t

theorem Indexed.of_eq (h : s.Indexed) (hflight : s'.inFlight = s.inFlight)
    (hdeadlines : s'.inFlightDeadlines = s.inFlightDeadlines) : s'.Indexed := by
  unfold Indexed
  rwa [hflight, hdeadlines]

theorem Indexed.removeInFlight (h : s.Indexed) (p : ℕ) : (s.removeInFlight p).2.Indexed := by
  unfold ChannelState.removeInFlight
  split
  · exact h
  · rename_i delivery hdelivery
    intro d q t hkey
    rw [Finset.mem_erase] at hkey
    obtain ⟨flight, hget, hd, ht⟩ := h d q t hkey.2
    have hne : q ≠ p := by
      rintro rfl
      obtain rfl : delivery = flight := by simpa [hdelivery] using hget
      exact hkey.1 (deadlineKey_inj.2 ⟨hd.symm, rfl, ht.symm⟩)
    exact ⟨flight, by grind, hd, ht⟩

theorem Indexed.touchUntil (h : s.Indexed) (p deadline : ℕ) :
    (s.touchUntil p deadline).2.Indexed := by
  unfold ChannelState.touchUntil
  split
  · exact h
  · rename_i flight hflight
    intro d q t hkey
    rw [Finset.mem_insert, Finset.mem_erase] at hkey
    rcases hkey with hkey | ⟨hne, hkey⟩
    · obtain ⟨rfl, rfl, rfl⟩ := deadlineKey_inj.1 hkey
      exact ⟨{ flight with deadline := d }, by grind, rfl, rfl⟩
    · obtain ⟨other, hget, hd, ht⟩ := h d q t hkey
      have hqp : q ≠ p := by
        rintro rfl
        obtain rfl : flight = other := by simpa [hflight] using hget
        exact hne (deadlineKey_inj.2 ⟨hd.symm, rfl, ht.symm⟩)
      exact ⟨other, by grind, hd, ht⟩

theorem indexedInvariant : FlightInvariant Indexed where
  of_eq h hflight _ hdeadlines := h.of_eq hflight hdeadlines
  remove h p := h.removeInFlight p

theorem Indexed.reserve (h : s.Indexed) (hp : p ∉ s.inFlight) (id : ℕ) (ts : ℤ)
    (deadline token : ℕ) : (s.reserveTimestamped p id ts deadline token).1.Indexed := by
  intro d q t hkey
  simp only [reserveTimestamped, Finset.mem_insert] at hkey ⊢
  rcases hkey with hkey | hkey
  · obtain ⟨rfl, rfl, rfl⟩ := deadlineKey_inj.1 hkey
    exact ⟨⟨id, ts, d, t⟩, by grind, rfl, rfl⟩
  · obtain ⟨other, hget, hd, ht⟩ := h d q t hkey
    exact ⟨other, by grind, hd, ht⟩

theorem Indexed.expiredPositions (h : s.Indexed) (now : ℕ) :
    ∀ q ∈ s.expiredPositions now, q ∈ s.inFlight := by
  intro q hq
  unfold ChannelState.expiredPositions at hq
  obtain ⟨key, hkey, rfl⟩ := List.mem_map.1 hq
  have hmem := (mem_dueKeys.1 hkey).1
  obtain ⟨flight, hget, -⟩ := h (ofLex key).1 (ofLex (ofLex key).2).1 (ofLex (ofLex key).2).2
    (by simpa [deadlineKey] using hmem)
  grind

/-! ### The tokens in flight -/

/-- Every delivery in flight was in flight before, under the same token. -/
def FlightsFrom (s s' : ChannelState) : Prop :=
  ∀ (p : ℕ) (flight' : InFlight), s'.inFlight[p]? = some flight' →
    ∃ flight : InFlight, s.inFlight[p]? = some flight ∧ flight.token = flight'.token ∧ flight.id = flight'.id

theorem FlightsFrom.refl (s : ChannelState) : FlightsFrom s s :=
  fun _ flight h => ⟨flight, h, rfl, rfl⟩

theorem FlightsFrom.trans (h : FlightsFrom s s') (h' : FlightsFrom s' t) : FlightsFrom s t := by
  intro p flight'' hp
  obtain ⟨flight', hp', htoken', hid'⟩ := h' p flight'' hp
  obtain ⟨flight, hp, htoken, hid⟩ := h p flight' hp'
  exact ⟨flight, hp, htoken.trans htoken', hid.trans hid'⟩

theorem FlightsFrom.of_eq (h : s'.inFlight = s.inFlight) : FlightsFrom s s' :=
  fun _ flight hp => ⟨flight, by rw [← h]; exact hp, rfl, rfl⟩

theorem FlightsFrom.of_erase (h : s'.inFlight = s.inFlight.erase p) : FlightsFrom s s' := by
  intro q flight hq
  rw [h, Std.ExtTreeMap.getElem?_erase] at hq
  split at hq
  · cases hq
  · exact ⟨flight, hq, rfl, rfl⟩

theorem FlightsFrom.mem (h : FlightsFrom s s') (hp : p ∈ s'.inFlight) : p ∈ s.inFlight := by
  obtain ⟨flight, hflight⟩ := Option.isSome_iff_exists.1 (Std.ExtTreeMap.isSome_getElem?_iff_mem.2 hp)
  obtain ⟨before, hbefore, -⟩ := h p flight hflight
  exact Std.ExtTreeMap.isSome_getElem?_iff_mem.1 (by rw [hbefore]; rfl)

theorem FlightsFrom.foldl {α : Type*} {f : ChannelState → α → ChannelState}
    (hf : ∀ s a, FlightsFrom s (f s a)) (s : ChannelState) (l : List α) :
    FlightsFrom s (l.foldl f s) := by
  induction l generalizing s with
  | nil => exact .refl s
  | cons a l ih => exact (hf s a).trans (ih (f s a))

theorem touchUntil_inFlight (s : ChannelState) (p deadline q : ℕ) :
    (s.touchUntil p deadline).2.inFlight[q]? =
      if q = p then s.inFlight[p]?.map fun flight => { flight with deadline := deadline }
      else s.inFlight[q]? := by
  unfold touchUntil
  split
  · rename_i hnone
    split_ifs with hq
    · subst hq
      rw [hnone]
      rfl
    · rfl
  · rename_i flight hflight
    rw [Std.ExtTreeMap.getElem?_insert]
    split_ifs with h₁ h₂ h₂
    · rw [hflight]
      rfl
    · exact absurd (compare_eq_iff_eq.1 h₁).symm h₂
    · exact absurd (compare_eq_iff_eq.2 h₂.symm) h₁
    · rfl

theorem flightsFrom_touchUntil (s : ChannelState) (p deadline : ℕ) :
    FlightsFrom s (s.touchUntil p deadline).2 := by
  intro q flight' hq
  rw [touchUntil_inFlight] at hq
  split_ifs at hq with hqp
  · subst hqp
    obtain ⟨flight, hflight, rfl⟩ := Option.map_eq_some_iff.1 hq
    exact ⟨flight, hflight, rfl, rfl⟩
  · exact ⟨flight', hq, rfl, rfl⟩

theorem flightsFromInvariant (s : ChannelState) : FlightInvariant (FlightsFrom s) where
  of_eq h hflight _ _ := h.trans (.of_eq hflight)
  remove {t} h p := by
    obtain ⟨d, i, heq⟩ := t.removeInFlight_eq p
    exact h.trans (.of_erase (p := p) (by rw [heq]))

theorem flightsFrom_apply (s : ChannelState) (command : ChannelCommand) :
    FlightsFrom s (s.apply command) :=
  s.flightsFromInvariant.apply (.refl s) command

theorem removeInFlight_inFlight (s : ChannelState) (p : ℕ) :
    (s.removeInFlight p).2.inFlight = s.inFlight.erase p := by
  obtain ⟨d, i, h⟩ := s.removeInFlight_eq p
  rw [h]

theorem acknowledge_inFlight (s : ChannelState) (p : ℕ) :
    (s.acknowledge p).inFlight = s.inFlight.erase p := by
  obtain ⟨floor, acked, next, d, i, h, -⟩ := s.acknowledge_eq p
  rw [h]

theorem setAbsentRanges_inFlight (s : ChannelState) (ranges : Ranges) :
    (s.setAbsentRanges ranges).inFlight = s.inFlight := rfl

/-! ### Calls that carry a token -/

/-- A position is found by id and token only if a delivery is in flight there under the token. -/
theorem inFlightPositionWithToken_eq_some {id token : ℕ}
    (h : s.inFlightPositionWithToken id token = some p) :
    ∃ flight : InFlight, s.inFlight[p]? = some flight ∧ flight.token = token := by
  unfold inFlightPositionWithToken at h
  obtain ⟨position, -, h⟩ := Option.bind_eq_some_iff.1 h
  split_ifs at h with htoken
  cases h
  exact Option.map_eq_some_iff.1 htoken

/-- A reservation is given back only while its token is in flight. -/
theorem cancel_of_stale {token : ℕ} (h : s.inFlight[p]?.map InFlight.token ≠ some token) :
    s.cancel p token = s :=
  if_neg h

/-- An operation at one position leaves the deliveries at the others as they are. -/
def FlightsOutside (p : ℕ) (s s' : ChannelState) : Prop :=
  ∀ q, q ≠ p → s'.inFlight[q]? = s.inFlight[q]?

theorem flightsOutside_of_erase (h : s'.inFlight = s.inFlight.erase p) : FlightsOutside p s s' := by
  intro q hq
  rw [h, Std.ExtTreeMap.getElem?_erase, if_neg]
  exact fun heq => hq (compare_eq_iff_eq.1 heq).symm

theorem flightsOutside_touchUntil (s : ChannelState) (p deadline : ℕ) :
    FlightsOutside p s (s.touchUntil p deadline).2 := by
  intro q hq
  rw [touchUntil_inFlight, if_neg hq]

end ChannelState

end RustQueue.Channel
