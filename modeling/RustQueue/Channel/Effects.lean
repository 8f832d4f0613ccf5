import RustQueue.Channel.State

/-!
# What the channel operations change

One equation for each operation says which fields it replaces, so that later proofs never
unfold the operations.  `Acked` is the durable meaning of a position, below the floor or
acknowledged on its own, and `Pending` says that the position is in flight or offered for
redelivery.

* `advanceAckFloor_eq`: the floor only grows, and it passes a position only if that position
  was acknowledged or is absent;
* `advanceAckFloor_ends`, `advanceAckFloor_settled`: the loop ends, and the floor stops where it breaks.
-/

namespace RustQueue.Channel

open Lib

namespace ChannelState

variable (s : ChannelState)

/-- Below the floor, or acknowledged on its own. -/
def Acked (p : ℕ) : Prop := p ≤ s.ackFloorPosition ∨ p ∈ s.acknowledged

/-- In flight, or offered for redelivery. -/
def Pending (p : ℕ) : Prop := p ∈ s.inFlight ∨ p ∈ s.redelivery

/-- In one of the absent ranges. -/
def Absent (p : ℕ) : Prop := p ∈ s.absentRanges

theorem isAbsent_iff {s : ChannelState} {p : ℕ} : s.isAbsent p = true ↔ s.Absent p :=
  Ranges.contains_iff

theorem isUnacknowledged_iff {s : ChannelState} {p : ℕ} :
    s.isUnacknowledged p = true ↔ ¬s.Acked p := by
  simp [isUnacknowledged, Acked]

theorem presentDistance_mono {p q : ℕ} (h : p ≤ q) : s.presentDistance p ≤ s.presentDistance q :=
  s.absentRanges.distance_mono _ h

/-! ### The floor -/

/-- How far a scan of the floor has come: it passed acknowledged and absent positions only, and every
acknowledgement is below the floor or still there. -/
structure Scanned (ranges : Ranges) (floor : ℕ) (acked : Finset ℕ) (state : ℕ × Finset ℕ) : Prop where
  le : floor ≤ state.1
  subset : state.2 ⊆ acked
  passed : ∀ p, floor < p → p ≤ state.1 → p ∈ acked ∨ p ∈ ranges
  kept : ∀ p ∈ acked, p ≤ state.1 ∨ p ∈ state.2

theorem Scanned.turn {ranges : Ranges} {floor : ℕ} {acked : Finset ℕ} {state : ℕ × Finset ℕ}
    (h : Scanned ranges floor acked state) :
    (advanceTurn ranges state).Keeps (Scanned ranges floor acked) (Scanned ranges floor acked) := by
  fun_cases advanceTurn ranges state with
  | case1 | case4 => exact h
  | case2 reached left next hstop last hlast =>
    have hend := Ranges.le_rangeEnd hlast
    have hnext : next ≤ reached + 1 := satSucc_le reached
    have hle : reached ≤ next := le_satSucc reached
    have hreached : floor ≤ reached := h.le
    refine ⟨by dsimp only; omega, h.subset, fun p hp hpl => ?_, fun p hp => ?_⟩
    · by_cases hpr : p ≤ reached
      · exact h.passed p hp hpr
      · exact Or.inr (Ranges.mem_of_rangeEnd hlast (by omega) hpl)
    · exact (h.kept p hp).imp_left fun hpr => hpr.trans (hle.trans hend)
  | case3 reached left next hstop hnone hmem =>
    have hnext : next ≤ reached + 1 := satSucc_le reached
    have hle : reached ≤ next := le_satSucc reached
    refine ⟨h.le.trans hle, (Finset.erase_subset _ _).trans h.subset, fun p hp hpn => ?_, fun p hp => ?_⟩
    · by_cases hpr : p ≤ reached
      · exact h.passed p hp hpr
      · obtain rfl : p = next := by dsimp only at hpn; omega
        exact Or.inl (h.subset hmem)
    · by_cases hpn : p ≤ next
      · exact Or.inl hpn
      · refine Or.inr (Finset.mem_erase.2 ⟨by omega, (h.kept p hp).resolve_left fun hpr => ?_⟩)
        exact hpn (hpr.trans hle)

/-- The three ways the source's loop breaks: at the largest word, or in front of a
position that is neither absent nor acknowledged. -/
def FloorSettled (ranges : Ranges) (floor : ℕ) (acked : Finset ℕ) : Prop :=
  satSucc floor = floor ∨ (satSucc floor ∉ ranges ∧ satSucc floor ∉ acked)

/-- The ranges that end above the floor. -/
private def rangesAbove (ranges : Ranges) (floor : ℕ) : List (ℕ × ℕ) :=
  ranges.toList.filter fun x => decide (floor < x.2)

private theorem rangesAbove_lt {ranges : Ranges} {floor last : ℕ} (hf : floor < last)
    (h : ranges.rangeEnd (satSucc floor) = some last) :
    (rangesAbove ranges last).length < (rangesAbove ranges floor).length := by
  obtain ⟨a, hmem, _, _⟩ := Ranges.rangeEnd_eq_some.1 h
  have hsub : rangesAbove ranges last =
      (rangesAbove ranges floor).filter fun x => decide (last < x.2) := by
    rw [rangesAbove, rangesAbove, List.filter_filter]
    refine List.filter_congr fun x _ => ?_
    by_cases hx : last < x.2
    · simp [hx, hf.trans hx]
    · simp [hx]
  rw [hsub, List.length_filter_lt_length_iff_exists]
  exact ⟨(a, last), by simp [rangesAbove, hmem, hf], by simp⟩

private theorem advanceTurn_lowers (ranges : Ranges) (state : ℕ × Finset ℕ) :
    (advanceTurn ranges state).Lowers
      (fun state => state.2.card + (rangesAbove ranges state.1).length + 1)
      (state.2.card + (rangesAbove ranges state.1).length + 1) := by
  fun_cases advanceTurn ranges state with
  | case1 | case4 => exact Nat.succ_pos _
  | case2 floor acked next hstop last hlast =>
    have hlt : floor < next := lt_of_le_of_ne (le_satSucc floor) (Ne.symm hstop)
    have := rangesAbove_lt (hlt.trans_le (Ranges.le_rangeEnd hlast)) hlast
    simp only [Turn.Lowers]
    omega
  | case3 floor acked next hstop hnone hmem =>
    have hcard := Finset.card_erase_lt_of_mem hmem
    have hle : floor ≤ next := le_satSucc floor
    have hsub : (rangesAbove ranges next).length ≤ (rangesAbove ranges floor).length := by
      refine List.Sublist.length_le (List.monotone_filter_right _ fun x hx => ?_)
      simp only [decide_eq_true_eq] at hx ⊢
      omega
    simp only [Turn.Lowers]
    omega

/-- **The loop of the floor scan ends**, within its bound. -/
theorem advanceAckFloor_ends : ∃ turns ≤ s.advanceFuel, Ends (advanceTurn s.absentRanges) turns
    (s.ackFloorPosition, s.acknowledged)
    (s.advanceAckFloor.ackFloorPosition, s.advanceAckFloor.acknowledged) := by
  have hbound : s.acknowledged.card + (rangesAbove s.absentRanges s.ackFloorPosition).length + 1 ≤
      s.advanceFuel := by
    have : (rangesAbove s.absentRanges s.ackFloorPosition).length ≤ s.absentRanges.toList.length :=
      List.length_filter_le _ _
    unfold advanceFuel
    omega
  obtain ⟨result, hresult⟩ := Option.isSome_iff_exists.1
    (loop_isSome (a := (s.ackFloorPosition, s.acknowledged)) (advanceTurn_lowers s.absentRanges) hbound)
  have hsame : (s.advanceAckFloor.ackFloorPosition, s.advanceAckFloor.acknowledged) = result := by
    simp only [advanceAckFloor, hresult, Option.getD_some]
  rw [hsame]
  exact loop_ends hresult

theorem advanceTurn_settled (ranges : Ranges) (state : ℕ × Finset ℕ) :
    (advanceTurn ranges state).Keeps (fun _ => True) fun result =>
      FloorSettled ranges result.1 result.2 := by
  fun_cases advanceTurn ranges state with
  | case1 floor acked next hstop => exact Or.inl hstop
  | case2 | case3 => trivial
  | case4 floor acked next hstop hnone hmem => exact Or.inr ⟨Ranges.rangeEnd_eq_none.1 hnone, hmem⟩

theorem advanceAckFloor_settled :
    FloorSettled s.absentRanges s.advanceAckFloor.ackFloorPosition s.advanceAckFloor.acknowledged := by
  obtain ⟨_, -, hends⟩ := s.advanceAckFloor_ends
  have hsettled := hends.rule (fun state _ => advanceTurn_settled s.absentRanges state) trivial
  exact hsettled

/-- A floor that is settled is where the scan leaves it. -/
theorem advanceAckFloor_of_settled {s : ChannelState}
    (h : FloorSettled s.absentRanges s.ackFloorPosition s.acknowledged) :
    s.advanceAckFloor.acknowledged = s.acknowledged := by
  have hturn : advanceTurn s.absentRanges (s.ackFloorPosition, s.acknowledged) =
      .leave (s.ackFloorPosition, s.acknowledged) := by
    rcases h with hstop | ⟨hranges, hacked⟩
    · simp [advanceTurn, hstop]
    · simp [advanceTurn, Ranges.rangeEnd_eq_none.2 hranges, hacked]
  simp [advanceAckFloor, advanceFuel, loop, hturn]

/-- The only fields the floor scan replaces, and the acknowledgements it keeps. -/
theorem advanceAckFloor_eq :
    ∃ floor acked, s.advanceAckFloor =
        { s with
          ackFloorPosition := floor
          acknowledged := acked
          nextPosition := max s.nextPosition (satSucc floor) } ∧
      s.ackFloorPosition ≤ floor ∧
      (∀ p, p ≤ floor ∨ p ∈ acked → s.Acked p ∨ s.Absent p) ∧
      ∀ p, s.Acked p → p ≤ floor ∨ p ∈ acked := by
  obtain ⟨_, -, hends⟩ := s.advanceAckFloor_ends
  obtain ⟨h1, h2, h3, h4⟩ := hends.rule (fun _ h => Scanned.turn h)
    ⟨le_rfl, subset_rfl, fun p h1 h2 => absurd h2 (not_le.2 h1), fun p hp => Or.inr hp⟩
  refine ⟨_, _, rfl, h1, fun p hp => ?_, fun p hp => ?_⟩
  · rcases hp with hp | hp
    · by_cases hf : p ≤ s.ackFloorPosition
      · exact Or.inl (Or.inl hf)
      · exact (h3 p (by omega) hp).imp_left Or.inr
    · exact Or.inl (Or.inr (h2 hp))
  · rcases hp with hp | hp
    · exact Or.inl (hp.trans h1)
    · exact h4 p hp

/-! ### In-flight entries -/

/-- Removing a delivery touches the three in-flight indexes only. -/
theorem removeInFlight_eq (p : ℕ) :
    ∃ deadlines ids, (s.removeInFlight p).2 =
      { s with
        inFlight := s.inFlight.erase p
        inFlightDeadlines := deadlines
        inFlightIds := ids } := by
  unfold removeInFlight
  split
  · rename_i hnone
    refine ⟨s.inFlightDeadlines, s.inFlightIds, ?_⟩
    have herase : s.inFlight.erase p = s.inFlight := by
      apply Std.ExtTreeMap.ext_getElem?
      intro q
      grind
    rw [herase]
  · exact ⟨_, _, rfl⟩

theorem removeInFlight_fst (p : ℕ) : (s.removeInFlight p).1 = true ↔ p ∈ s.inFlight := by
  unfold removeInFlight
  split <;> grind

theorem removeAllInFlight_eq (ps : List ℕ) :
    ∃ flights deadlines ids, s.removeAllInFlight ps =
        { s with
          inFlight := flights
          inFlightDeadlines := deadlines
          inFlightIds := ids } ∧
      ∀ q, q ∈ flights ↔ q ∈ s.inFlight ∧ q ∉ ps := by
  induction ps generalizing s with
  | nil => exact ⟨_, _, _, rfl, by simp⟩
  | cons p ps ih =>
    obtain ⟨d, i, hone⟩ := s.removeInFlight_eq p
    obtain ⟨m, d', i', hrest, hm⟩ := ih (s.removeInFlight p).2
    refine ⟨m, d', i', ?_, fun q => ?_⟩
    · rw [removeAllInFlight, List.foldl_cons]
      rw [removeAllInFlight] at hrest
      rw [hrest, hone]
    · rw [hm, hone]
      grind

/-- Expired deliveries leave the in-flight indexes and join the redelivery set. -/
theorem expirePositions_eq (ps : List ℕ) :
    ∃ flights deadlines ids, s.expirePositions ps =
        { s with
          redelivery := s.redelivery ∪ ps.toFinset
          inFlight := flights
          inFlightDeadlines := deadlines
          inFlightIds := ids } ∧
      ∀ q, q ∈ flights ↔ q ∈ s.inFlight ∧ q ∉ ps := by
  induction ps generalizing s with
  | nil => exact ⟨_, _, _, by simp [expirePositions]; rfl, by simp⟩
  | cons p ps ih =>
    obtain ⟨d, i, hone⟩ := s.removeInFlight_eq p
    obtain ⟨m, d', i', hrest, hm⟩ := ih ((s.removeInFlight p).2.deferCandidate p)
    refine ⟨m, d', i', ?_, fun q => ?_⟩
    · rw [expirePositions, List.foldl_cons]
      rw [expirePositions] at hrest
      rw [hrest, hone]
      simp [deferCandidate, Finset.insert_union]
    · rw [hm, hone]
      simp only [deferCandidate]
      grind

/-! ### Acknowledgement and durable commands -/

theorem clearPending_eq (p : ℕ) :
    ∃ deadlines ids, s.clearPending p =
      { s with
        redelivery := s.redelivery.erase p
        requeuedUntil := s.requeuedUntil.erase p
        attempts := s.attempts.erase p
        inFlight := s.inFlight.erase p
        inFlightDeadlines := deadlines
        inFlightIds := ids } := by
  obtain ⟨d, i, hone⟩ := s.removeInFlight_eq p
  exact ⟨d, i, by rw [clearPending, hone]⟩

/-- Acknowledging a position forgets what was pending about it, and acknowledges it and
nothing else that is present. -/
theorem acknowledge_eq (p : ℕ) :
    ∃ floor acked next deadlines ids, s.acknowledge p =
        { s with
          ackFloorPosition := floor
          acknowledged := acked
          nextPosition := next
          redelivery := s.redelivery.erase p
          requeuedUntil := s.requeuedUntil.erase p
          attempts := s.attempts.erase p
          inFlight := s.inFlight.erase p
          inFlightDeadlines := deadlines
          inFlightIds := ids } ∧
      s.ackFloorPosition ≤ floor ∧
      (next = s.nextPosition ∧ floor = s.ackFloorPosition ∨
        next = max s.nextPosition (satSucc floor)) ∧
      (∀ q, q ≤ floor ∨ q ∈ acked → s.Acked q ∨ q = p ∨ s.Absent q) ∧
      ∀ q, s.Acked q ∨ q = p → q ≤ floor ∨ q ∈ acked := by
  obtain ⟨d, i, hclear⟩ := s.clearPending_eq p
  dsimp only [acknowledge]
  split_ifs with hp
  · refine ⟨s.ackFloorPosition, s.acknowledged, s.nextPosition, d, i, hclear, le_rfl,
      Or.inl ⟨rfl, rfl⟩, fun q hq => Or.inl hq, ?_⟩
    rw [hclear] at hp
    rintro q (hq | rfl)
    · exact hq
    · exact Or.inl hp
  · obtain ⟨floor, acked, hadv, h1, h2, h3⟩ :=
      advanceAckFloor_eq
        { s.clearPending p with acknowledged := insert p (s.clearPending p).acknowledged }
    refine ⟨floor, acked, max s.nextPosition (satSucc floor), d, i, ?_, ?_, Or.inr rfl, ?_, ?_⟩
    · rw [hadv, hclear]
    · simpa [hclear] using h1
    · intro q hq
      have := h2 q hq
      simp only [Acked, Absent, hclear, Finset.mem_insert] at this ⊢
      tauto
    · intro q hq
      refine h3 q ?_
      simp only [Acked, hclear, Finset.mem_insert] at hq ⊢
      tauto

theorem dropThrough_eq (through : ℕ) :
    ∃ flights deadlines ids, s.dropThrough through =
        { s with
          ackFloorPosition := max s.ackFloorPosition through
          acknowledged := s.acknowledged.filter (through < ·)
          requeuedUntil := s.requeuedUntil.filter fun p _ => decide (through < p)
          attempts := s.attempts.filter fun p _ => decide (through < p)
          redelivery := s.redelivery.filter (through < ·)
          nextPosition := max s.nextPosition (satSucc through)
          inFlight := flights
          inFlightDeadlines := deadlines
          inFlightIds := ids } ∧
      ∀ q, q ∈ flights ↔ q ∈ s.inFlight ∧ through < q := by
  obtain ⟨m, d, i, hrem, hm⟩ := removeAllInFlight_eq
    { s with
      ackFloorPosition := max s.ackFloorPosition through
      acknowledged := s.acknowledged.filter (through < ·)
      requeuedUntil := s.requeuedUntil.filter fun p _ => decide (through < p)
      attempts := s.attempts.filter fun p _ => decide (through < p) }
    (s.inFlight.keys.filter fun p => decide (p ≤ through))
  refine ⟨m, d, i, by rw [dropThrough, hrem], fun q => ?_⟩
  rw [hm]
  simp only [List.mem_filter, Std.ExtTreeMap.mem_keys, decide_eq_true_eq, not_and, not_le]
  tauto

/-! ### Deliveries that come back -/

theorem uncountAttempt_eq (p : ℕ) :
    ∃ attempts, s.uncountAttempt p = { s with attempts := attempts } := by
  unfold uncountAttempt
  split
  · exact ⟨s.attempts, rfl⟩
  · split_ifs <;> exact ⟨_, rfl⟩

/-- A cancelled delivery goes back to redelivery, and a stale token changes nothing. -/
theorem cancel_eq (p token : ℕ) :
    s.cancel p token = s ∨ p ∈ s.inFlight ∧
      ∃ attempts deadlines ids, s.cancel p token =
        { s with
          redelivery := insert p s.redelivery
          attempts := attempts
          inFlight := s.inFlight.erase p
          inFlightDeadlines := deadlines
          inFlightIds := ids } := by
  unfold cancel
  split_ifs with htoken
  · obtain ⟨d, i, hrem⟩ := s.removeInFlight_eq p
    obtain ⟨a, ha⟩ := ((s.removeInFlight p).2.deferCandidate p).uncountAttempt_eq p
    refine Or.inr ⟨by grind, a, d, i, ?_⟩
    rw [ha, hrem, deferCandidate]
  · exact Or.inl rfl

theorem release_eq (p : ℕ) :
    s.release p = s ∨ p ∈ s.inFlight ∧
      ∃ deadlines ids, s.release p =
        { s with
          redelivery := insert p s.redelivery
          inFlight := s.inFlight.erase p
          inFlightDeadlines := deadlines
          inFlightIds := ids } := by
  by_cases hp : p ∈ s.inFlight
  · obtain ⟨d, i, hrem⟩ := s.removeInFlight_eq p
    refine Or.inr ⟨hp, d, i, ?_⟩
    simp only [release, (s.removeInFlight_fst p).2 hp, if_true]
    rw [hrem, deferCandidate]
  · left
    have hnone : s.inFlight[p]? = none := by grind
    simp [release, removeInFlight, hnone]

theorem touchUntil_eq (p deadline : ℕ) :
    ∃ flights deadlines, (s.touchUntil p deadline).2 =
        { s with inFlight := flights, inFlightDeadlines := deadlines } ∧
      ∀ q, q ∈ flights ↔ q ∈ s.inFlight := by
  unfold touchUntil
  split
  · exact ⟨s.inFlight, s.inFlightDeadlines, rfl, fun q => Iff.rfl⟩
  · exact ⟨_, _, rfl, fun q => by grind⟩

/-! ### Recovery -/

theorem fromCheckpoint_eq {checkpoint : ChannelCheckpoint} {maxAckGap : ℕ} {s : ChannelState}
    (h : fromCheckpoint checkpoint maxAckGap = .ok s) : s = load checkpoint maxAckGap := by
  unfold fromCheckpoint at h
  split_ifs at h
  cases h
  rfl

/-- Installing ranges forgets every trace of the positions they cover and counts these
positions as done. -/
theorem setAbsentRanges_eq (ranges : Ranges) :
    ∃ floor acked, s.setAbsentRanges ranges =
        { s with
          ackFloorPosition := floor
          acknowledged := acked
          redelivery := s.redelivery.filter fun p => ¬ranges.contains p
          requeuedUntil := s.requeuedUntil.filter fun p _ => !ranges.contains p
          attempts := s.attempts.filter fun p _ => !ranges.contains p
          absentRanges := ranges
          nextPosition := max s.nextPosition (satSucc floor) } ∧
      s.ackFloorPosition ≤ floor ∧
      (∀ p, p ≤ floor ∨ p ∈ acked → s.Acked p ∨ p ∈ ranges) ∧
      ∀ p, s.Acked p → p ≤ floor ∨ p ∈ acked ∨ p ∈ ranges := by
  obtain ⟨floor, acked, hadv, h1, h2, h3⟩ := advanceAckFloor_eq
    { s with
      acknowledged := s.acknowledged.filter fun p => ¬ranges.contains p
      redelivery := s.redelivery.filter fun p => ¬ranges.contains p
      requeuedUntil := s.requeuedUntil.filter fun p _ => !ranges.contains p
      attempts := s.attempts.filter fun p _ => !ranges.contains p
      absentRanges := ranges }
  simp only [Acked, Absent, Finset.mem_filter, Ranges.contains_iff] at h2 h3
  refine ⟨floor, acked, by rw [setAbsentRanges, hadv], h1, fun p hp => ?_, fun p hp => ?_⟩
  · have := h2 p hp
    simp only [Acked]
    tauto
  · have := h3 p
    simp only [Acked] at hp
    tauto

/-- Compaction only takes positions out of the requeue map and the redelivery set, and
always out of both. -/
theorem compactRecoveredDpubs_eq {s s' : ChannelState}
    {availableAt : ℕ → Except BrokerError (Option ℤ)}
    (h : s.compactRecoveredDpubs availableAt = .ok s') :
    ∃ redelivery requeued, s' =
        { s with redelivery := redelivery, requeuedUntil := requeued } ∧
      redelivery ⊆ s.redelivery ∧
      (∀ p, p ∈ requeued → p ∈ s.requeuedUntil ∧ requeued[p]? = s.requeuedUntil[p]?) ∧
      ∀ p, p ∈ requeued → p ∈ s.redelivery → p ∈ redelivery := by
  unfold compactRecoveredDpubs at h
  generalize s.requeuedUntil.keys = keys at h
  induction keys generalizing s with
  | nil =>
    cases h
    exact ⟨_, _, rfl, subset_rfl, fun p hp => ⟨hp, rfl⟩, fun p _ hp => hp⟩
  | cons k keys ih =>
    rw [List.foldlM_cons] at h
    obtain ⟨t, ht, hrest⟩ : ∃ t, compactRecoveredDpub availableAt s k = .ok t ∧
        keys.foldlM (compactRecoveredDpub availableAt) t = .ok s' := by
      cases hk : compactRecoveredDpub availableAt s k with
      | error e => rw [hk] at h; cases h
      | ok t => exact ⟨t, rfl, by rw [hk] at h; exact h⟩
    obtain ⟨r, m, hs', h1, h2, h3⟩ := ih hrest
    -- one turn keeps the state or erases one key from both
    have hturn : t = s ∨ t = { s with
        requeuedUntil := s.requeuedUntil.erase k, redelivery := s.redelivery.erase k } := by
      unfold compactRecoveredDpub at ht
      split at ht
      · cases ht; exact Or.inl rfl
      · split_ifs at ht with hk
        · cases ht; exact Or.inl rfl
        · cases hav : availableAt k with
          | error e => rw [hav] at ht; cases ht
          | ok a =>
            rw [hav] at ht
            change (if _ then _ else _) = _ at ht
            split_ifs at ht
            · cases ht; exact Or.inr rfl
            · cases ht; exact Or.inl rfl
    rcases hturn with rfl | rfl
    · exact ⟨r, m, hs', h1, h2, h3⟩
    · refine ⟨r, m, hs', h1.trans (Finset.erase_subset _ _), fun p hp => ?_, fun p hp hr => ?_⟩
      · obtain ⟨hmem, hget⟩ := h2 p hp
        grind
      · obtain ⟨hmem, hget⟩ := h2 p hp
        exact h3 p hp (Finset.mem_erase.2 ⟨by grind, hr⟩)

end ChannelState

end RustQueue.Channel
