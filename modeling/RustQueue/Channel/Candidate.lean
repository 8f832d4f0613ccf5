import RustQueue.Channel.Effects
import RustQueue.Lib.OrderedScan

/-!
# Choosing the next position to deliver

`nextCandidate` looks first through the redelivery set in ascending order and then moves
the cursor `nextPosition` over new positions.  Its lookup is an argument that may answer
differently at every call: it reads and moves on an environment of any type `σ`, since
the index pages it consults are shared with other threads.

Both loops come with a rule for their turns (`redeliveryTurn_rule`, `cursorTurn_rule`): an invariant
is kept, or the loop stops, for a reason.  A call whose loops need more turns than they are given
answers `none`.  `nextCandidate_isSome` says that the call returns whenever `lastPosition` is below the
largest word; at the largest word the source's cursor saturates and may turn for ever.
-/

namespace RustQueue.Channel

open Lib

namespace ChannelState

variable {σ : Type*}

/-! ### The model -/

variable (s : ChannelState)

/-- The rewind of the cursor to the first deferred position once one is due. -/
def rewind (nowMs : ℤ) : ChannelState :=
  match s.deferredScan with
  | none => s
  | some (first, deadline) =>
    if deadline ≤ nowMs then
      { s with
        nextPosition := min s.nextPosition (max first (satSucc s.ackFloorPosition))
        deferredScan := none }
    else s

/-- An absent position leaves the redelivery set. -/
def dropAbsent (position : ℕ) : ChannelState :=
  { s with
    redelivery := s.redelivery.erase position
    requeuedUntil := s.requeuedUntil.erase position
    attempts := s.attempts.erase position }.advanceAckFloor

/-- A due position leaves the redelivery set to be delivered. -/
def takeRedelivery (position : ℕ) : ChannelState :=
  { s with
    redelivery := s.redelivery.erase position
    requeuedUntil := s.requeuedUntil.erase position }

/-- One turn of the loop over the redelivery set.  The first component of a result is the answer, or
`none` when the loop ends without one. -/
def redeliveryTurn (nowMs : ℤ) (availableAt : σ → ℕ → MessageAvailability × σ) :
    Option ℕ × ChannelState × σ →
      Turn (Option ℕ × ChannelState × σ) (Option NextCandidate × ChannelState × σ)
  | (cursor, s, e) =>
    match nextAfter s.redelivery cursor with
    | none => .exit (none, s, e)
    | some position =>
      if s.isAbsent position then .next (some position, s.dropAbsent position, e)
      else if nowMs < s.requeuedUntil[position]?.getD 0 then .next (some position, s, e)
      else
        match availableAt e position with
        | (.ready available, e) =>
          if available ≤ nowMs then .leave (some (.ready position), s.takeRedelivery position, e)
          else .next (some position, s, e)
        | (.missing, e) => .leave (some (.load position), s, e)
        | (.absent, e) => .next (some position, s.acknowledge position, e)

def stepCursor : ChannelState :=
  { s with nextPosition := satSucc s.nextPosition }

/-- The cursor jumps behind an absent range. -/
def jumpAbsent (last : ℕ) : ChannelState :=
  { s with nextPosition := satSucc last }.advanceAckFloor

/-- The cursor passes a message that is not available yet. -/
def deferPosition (position : ℕ) (available : ℤ) : ChannelState :=
  { s with
    deferredScan :=
      match s.deferredScan with
      | some (first, deadline) => some (min first position, min deadline available)
      | none => some (position, available) }

/-- Positions the cursor passes without a lookup. -/
def skips (position : ℕ) : Prop :=
  position ≤ s.ackFloorPosition ∨ position ∈ s.acknowledged ∨ position ∈ s.inFlight ∨
    position ∈ s.redelivery

instance (s : ChannelState) (position : ℕ) : Decidable (s.skips position) := by
  unfold skips
  infer_instance

/-- One turn of the loop over the new positions. -/
def cursorTurn (nowMs : ℤ) (lastPosition : ℕ) (availableAt : σ → ℕ → MessageAvailability × σ) :
    ChannelState × σ → Turn (ChannelState × σ) (NextCandidate × ChannelState × σ)
  | (s, e) =>
    if s.nextPosition ≤ lastPosition then
      match s.absentRangeEnd s.nextPosition with
      | some last => .next (s.jumpAbsent last, e)
      | none =>
        if s.maxAckGap < s.presentDistance s.nextPosition then .leave (.none, s, e)
        else
          let position := s.nextPosition
          if s.skips position then .next (s.stepCursor, e)
          else
            match availableAt e position with
            | (.missing, e) => .leave (.load position, s, e)
            | (.absent, e) => .next (s.stepCursor.acknowledge position, e)
            | (.ready available, e) =>
              if nowMs < available then .next (s.stepCursor.deferPosition position available, e)
              else .leave (.ready position, s.stepCursor, e)
    else .exit (.none, s, e)

/-- The fuel for the cursor: every turn moves it, unless it saturates. -/
def cursorFuel (lastPosition : ℕ) : ℕ := lastPosition + 1 - s.nextPosition

/-- The answer of a search, `none` when one of the loops needs more turns than it is given: as many as
there are positions in the redelivery set, and as the cursor has before it. -/
def nextCandidate (nowMs : ℤ) (lastPosition : ℕ) (availableAt : σ → ℕ → MessageAvailability × σ) (e : σ) :
    Option (NextCandidate × ChannelState × σ) :=
  if s.paused then some (.none, s, e)
  else
    let s := s.rewind nowMs
    match loop (redeliveryTurn nowMs availableAt) s.redelivery.card (none, s, e) with
    | none => none
    | some (some candidate, s, e) => some (candidate, s, e)
    | some (none, s, e) => loop (cursorTurn nowMs lastPosition availableAt) (s.cursorFuel lastPosition) (s, e)

/-! ### The rule of the redelivery scan -/

/-- What every turn of the redelivery scan that continues must keep.  The invariant may
mention the cursor. -/
structure RedeliveryInvariant (nowMs : ℤ) (availableAt : σ → ℕ → MessageAvailability × σ)
    (I : Option ℕ → ChannelState → σ → Prop) : Prop where
  drop : ∀ {c s e p}, I c s e → nextAfter s.redelivery c = some p → s.Absent p →
    I (some p) (s.dropAbsent p) e
  wait : ∀ {c s e p}, I c s e → nextAfter s.redelivery c = some p → ¬s.Absent p →
    nowMs < s.requeuedUntil[p]?.getD 0 → I (some p) s e
  later : ∀ {c s e p a e'}, I c s e → nextAfter s.redelivery c = some p → ¬s.Absent p →
    availableAt e p = (.ready a, e') → nowMs < a → I (some p) s e'
  gone : ∀ {c s e p e'}, I c s e → nextAfter s.redelivery c = some p → ¬s.Absent p →
    availableAt e p = (.absent, e') → I (some p) (s.acknowledge p) e'

/-- Why the redelivery scan stopped, and that the invariant held there. -/
inductive RedeliveryStop (nowMs : ℤ) (availableAt : σ → ℕ → MessageAvailability × σ)
    (I : Option ℕ → ChannelState → σ → Prop) : Option NextCandidate → ChannelState → σ → Prop
  | ended {c s e} (inv : I c s e) (done : above s.redelivery c = ∅) :
      RedeliveryStop nowMs availableAt I none s e
  | taken {c s e p a e'} (inv : I c s e) (next : nextAfter s.redelivery c = some p)
      (present : ¬s.Absent p) (due : s.requeuedUntil[p]?.getD 0 ≤ nowMs)
      (answer : availableAt e p = (.ready a, e')) (available : a ≤ nowMs) :
      RedeliveryStop nowMs availableAt I (some (.ready p)) (s.takeRedelivery p) e'
  | unloaded {c s e p e'} (inv : I c s e) (next : nextAfter s.redelivery c = some p)
      (present : ¬s.Absent p) (answer : availableAt e p = (.missing, e')) :
      RedeliveryStop nowMs availableAt I (some (.load p)) s e'

theorem dropAbsent_redelivery (p : ℕ) : (s.dropAbsent p).redelivery = s.redelivery.erase p := by
  obtain ⟨floor, acked, h, _⟩ := advanceAckFloor_eq
    { s with
      redelivery := s.redelivery.erase p
      requeuedUntil := s.requeuedUntil.erase p
      attempts := s.attempts.erase p }
  rw [dropAbsent, h]

theorem acknowledge_redelivery (p : ℕ) : (s.acknowledge p).redelivery = s.redelivery.erase p := by
  obtain ⟨floor, acked, next, d, i, h, _⟩ := s.acknowledge_eq p
  rw [h]

variable {availableAt : σ → ℕ → MessageAvailability × σ}

theorem redeliveryTurn_rule {nowMs : ℤ} {I : Option ℕ → ChannelState → σ → Prop}
    (hI : RedeliveryInvariant nowMs availableAt I) (turn : Option ℕ × ChannelState × σ)
    (h : I turn.1 turn.2.1 turn.2.2) :
    (redeliveryTurn nowMs availableAt turn).Keeps (fun turn => I turn.1 turn.2.1 turn.2.2) fun result =>
      RedeliveryStop nowMs availableAt I result.1 result.2.1 result.2.2 := by
  fun_cases redeliveryTurn nowMs availableAt turn with
  | case1 c s e hnone => exact .ended h (nextAfter_eq_none.1 hnone)
  | case2 c s e p hp habsent => exact hI.drop h hp (isAbsent_iff.1 habsent)
  | case3 c s e p hp hpresent hwait => exact hI.wait h hp (fun h => hpresent (isAbsent_iff.2 h)) hwait
  | case4 c s e p hp hpresent hdue a e' hanswer ha =>
    exact .taken h hp (fun h => hpresent (isAbsent_iff.2 h)) (not_lt.1 hdue) hanswer ha
  | case5 c s e p hp hpresent hdue a e' hanswer ha =>
    exact hI.later h hp (fun h => hpresent (isAbsent_iff.2 h)) hanswer (not_le.1 ha)
  | case6 c s e p hp hpresent hdue e' hanswer =>
    exact .unloaded h hp (fun h => hpresent (isAbsent_iff.2 h)) hanswer
  | case7 c s e p hp hpresent hdue e' hanswer =>
    exact hI.gone h hp (fun h => hpresent (isAbsent_iff.2 h)) hanswer

/-- Every turn passes a position of the redelivery set. -/
theorem redeliveryTurn_lowers (nowMs : ℤ) (availableAt : σ → ℕ → MessageAvailability × σ)
    (turn : Option ℕ × ChannelState × σ) :
    (redeliveryTurn nowMs availableAt turn).Lowers (fun turn => (above turn.2.1.redelivery turn.1).card)
      (above turn.2.1.redelivery turn.1).card := by
  fun_cases redeliveryTurn nowMs availableAt turn with
  | case1 => trivial
  | case2 c s e p hp =>
    refine card_above_lt hp ?_
    rw [dropAbsent_redelivery]
    exact Finset.erase_subset _ _
  | case3 c s e p hp | case5 c s e p hp => exact card_above_lt hp subset_rfl
  | case4 c s e p hp | case6 c s e p hp => exact Finset.card_pos.2 ⟨p, nextAfter_mem hp⟩
  | case7 c s e p hp =>
    refine card_above_lt hp ?_
    rw [acknowledge_redelivery]
    exact Finset.erase_subset _ _

/-! ### The rule of the cursor scan -/

/-- What every turn of the cursor that continues must keep. -/
structure CursorInvariant (nowMs : ℤ) (lastPosition : ℕ)
    (availableAt : σ → ℕ → MessageAvailability × σ) (I : ChannelState → σ → Prop) : Prop where
  jump : ∀ {s e last}, I s e → s.nextPosition ≤ lastPosition →
    s.absentRangeEnd s.nextPosition = some last → I (s.jumpAbsent last) e
  skip : ∀ {s e}, I s e → s.nextPosition ≤ lastPosition → ¬s.Absent s.nextPosition →
    s.skips s.nextPosition → I s.stepCursor e
  gone : ∀ {s e e'}, I s e → s.nextPosition ≤ lastPosition → ¬s.Absent s.nextPosition →
    ¬s.skips s.nextPosition → availableAt e s.nextPosition = (.absent, e') →
    I (s.stepCursor.acknowledge s.nextPosition) e'
  later : ∀ {s e a e'}, I s e → s.nextPosition ≤ lastPosition → ¬s.Absent s.nextPosition →
    ¬s.skips s.nextPosition → availableAt e s.nextPosition = (.ready a, e') → nowMs < a →
    I (s.stepCursor.deferPosition s.nextPosition a) e'

/-- Why the cursor stopped, and that the invariant held there. -/
inductive CursorStop (nowMs : ℤ) (lastPosition : ℕ)
    (availableAt : σ → ℕ → MessageAvailability × σ) (I : ChannelState → σ → Prop) :
    NextCandidate → ChannelState → σ → Prop
  | passed {s e} (inv : I s e) (done : lastPosition < s.nextPosition) :
      CursorStop nowMs lastPosition availableAt I .none s e
  | window {s e} (inv : I s e) (full : s.maxAckGap < s.presentDistance s.nextPosition) :
      CursorStop nowMs lastPosition availableAt I .none s e
  | unloaded {s e e'} (inv : I s e) (bound : s.nextPosition ≤ lastPosition)
      (present : ¬s.Absent s.nextPosition) (fresh : ¬s.skips s.nextPosition)
      (answer : availableAt e s.nextPosition = (.missing, e')) :
      CursorStop nowMs lastPosition availableAt I (.load s.nextPosition) s e'
  | taken {s e a e'} (inv : I s e) (bound : s.nextPosition ≤ lastPosition)
      (present : ¬s.Absent s.nextPosition) (fresh : ¬s.skips s.nextPosition)
      (room : s.presentDistance s.nextPosition ≤ s.maxAckGap)
      (answer : availableAt e s.nextPosition = (.ready a, e')) (available : a ≤ nowMs) :
      CursorStop nowMs lastPosition availableAt I (.ready s.nextPosition) s.stepCursor e'

theorem not_absent_of_rangeEnd {s : ChannelState} {p : ℕ} (h : s.absentRangeEnd p = none) :
    ¬s.Absent p :=
  Ranges.rangeEnd_eq_none.1 h

theorem cursorTurn_rule {nowMs : ℤ} {lastPosition : ℕ} {I : ChannelState → σ → Prop}
    (hI : CursorInvariant nowMs lastPosition availableAt I) (turn : ChannelState × σ)
    (h : I turn.1 turn.2) :
    (cursorTurn nowMs lastPosition availableAt turn).Keeps (fun turn => I turn.1 turn.2) fun result =>
      CursorStop nowMs lastPosition availableAt I result.1 result.2.1 result.2.2 := by
  fun_cases cursorTurn nowMs lastPosition availableAt turn with
  | case1 s e hmore last hlast => exact hI.jump h hmore hlast
  | case2 s e hmore hnone hfull => exact .window h hfull
  | case3 s e hmore hnone hroom position hskip =>
    exact hI.skip h hmore (not_absent_of_rangeEnd hnone) hskip
  | case4 s e hmore hnone hroom position hfresh e₁ hanswer =>
    exact .unloaded h hmore (not_absent_of_rangeEnd hnone) hfresh hanswer
  | case5 s e hmore hnone hroom position hfresh e₁ hanswer =>
    exact hI.gone h hmore (not_absent_of_rangeEnd hnone) hfresh hanswer
  | case6 s e hmore hnone hroom position hfresh a e₁ hanswer hlater =>
    exact hI.later h hmore (not_absent_of_rangeEnd hnone) hfresh hanswer hlater
  | case7 s e hmore hnone hroom position hfresh a e₁ hanswer hdue =>
    exact .taken h hmore (not_absent_of_rangeEnd hnone) hfresh (not_lt.1 hroom) hanswer (not_lt.1 hdue)
  | case8 s e hdone => exact .passed h (not_le.1 hdone)

/-! ### The whole call -/

/-- An answer of `nextCandidate` on a channel that is not paused comes from one of the two
scans, and an invariant of both holds where it was given. -/
theorem nextCandidate_rule {nowMs : ℤ} {lastPosition : ℕ} {R : Option ℕ → ChannelState → σ → Prop}
    {C : ChannelState → σ → Prop} (hR : RedeliveryInvariant nowMs availableAt R)
    (hC : CursorInvariant nowMs lastPosition availableAt C)
    (hRC : ∀ c s e, R c s e → above s.redelivery c = ∅ → C s e) {s s' : ChannelState} {e e' : σ}
    {candidate : NextCandidate} (hrun : s.paused = false) (hs : R none (s.rewind nowMs) e)
    (h : s.nextCandidate nowMs lastPosition availableAt e = some (candidate, s', e')) :
    RedeliveryStop nowMs availableAt R (some candidate) s' e' ∨
      CursorStop nowMs lastPosition availableAt C candidate s' e' := by
  rw [nextCandidate, hrun] at h
  simp only [Bool.false_eq_true, if_false] at h
  split at h
  · cases h
  all_goals
    rename_i hscan
    obtain ⟨_, -, hends⟩ := loop_ends hscan
    have hstop := hends.rule (redeliveryTurn_rule hR) hs
  · cases h
    exact Or.inl hstop
  · obtain ⟨_, -, hcursor⟩ := loop_ends h
    generalize hnone : (none : Option NextCandidate) = answer at hstop
    cases hstop with
    | ended inv done =>
      have hpassed := hcursor.rule (cursorTurn_rule hC) (hRC _ _ _ inv done)
      exact Or.inr hpassed
    | taken => cases hnone
    | unloaded => cases hnone

theorem nextCandidate_paused {s s' : ChannelState} {nowMs : ℤ} {last : ℕ} {e e' : σ}
    {candidate : NextCandidate} (hpaused : s.paused = true)
    (h : s.nextCandidate nowMs last availableAt e = some (candidate, s', e')) :
    candidate = .none ∧ s' = s := by
  rw [nextCandidate, hpaused] at h
  cases h
  exact ⟨rfl, rfl⟩

/-- An invariant of the state alone, which a search keeps whatever the lookup answers. -/
structure SearchInvariant (I : ChannelState → Prop) : Prop where
  cursor : ∀ {s}, I s → ∀ next deferred, I { s with nextPosition := next, deferredScan := deferred }
  forget : ∀ {s}, I s → ∀ p attempts,
    I { s with
        redelivery := s.redelivery.erase p
        requeuedUntil := s.requeuedUntil.erase p
        attempts := attempts }
  advance : ∀ {s}, I s → I s.advanceAckFloor
  acknowledge : ∀ {s p}, I s → ¬s.Absent p → I (s.acknowledge p)

/-- Where a search stopped, and what the lookup had said about its answer. -/
inductive SearchStop (availableAt : σ → ℕ → MessageAvailability × σ) (I : ChannelState → Prop) :
    NextCandidate → ChannelState → Prop
  | none {t} (inv : I t) : SearchStop availableAt I .none t
  | load {t p e e'} (inv : I t) (answer : availableAt e p = (.missing, e')) :
      SearchStop availableAt I (.load p) t
  | redelivered {t p a e e'} (inv : I t) (offered : p ∈ t.redelivery)
      (answer : availableAt e p = (.ready a, e')) :
      SearchStop availableAt I (.ready p) (t.takeRedelivery p)
  | fresh {t a e e'} (inv : I t) (fresh : ¬t.skips t.nextPosition)
      (answer : availableAt e t.nextPosition = (.ready a, e')) :
      SearchStop availableAt I (.ready t.nextPosition) t.stepCursor

section SearchInvariant

variable {I : ChannelState → Prop} (hI : SearchInvariant I) {s s' : ChannelState} {nowMs : ℤ}
  {last : ℕ} {e e' : σ} {candidate : NextCandidate} (hs : I s)
  (h : s.nextCandidate nowMs last availableAt e = some (candidate, s', e'))
include hI hs h

theorem SearchInvariant.stop : SearchStop availableAt I candidate s' := by
  cases hpaused : s.paused with
  | true =>
    obtain ⟨rfl, rfl⟩ := nextCandidate_paused hpaused h
    exact .none hs
  | false =>
    have hrewind : I (s.rewind nowMs) := by
      unfold rewind
      split
      · exact hs
      · split_ifs
        · exact hI.cursor hs _ _
        · exact hs
    have hR : RedeliveryInvariant nowMs availableAt fun _ t (_ : σ) => I t :=
      { drop := fun hs _ _ => hI.advance (hI.forget hs _ _)
        wait := fun hs _ _ _ => hs
        later := fun hs _ _ _ _ => hs
        gone := fun hs _ hpresent _ => hI.acknowledge hs hpresent }
    have hC : CursorInvariant nowMs last availableAt fun t (_ : σ) => I t :=
      { jump := fun {t _ last} hs _ _ => hI.advance (hI.cursor hs (satSucc last) t.deferredScan)
        skip := fun {t _} hs _ _ _ => hI.cursor hs (satSucc t.nextPosition) t.deferredScan
        gone := fun {t _ _} hs _ hpresent _ _ =>
          hI.acknowledge (hI.cursor hs (satSucc t.nextPosition) t.deferredScan) hpresent
        later := fun {t _ _ _} hs _ _ _ _ _ => hI.cursor hs (satSucc t.nextPosition) _ }
    rcases nextCandidate_rule hR hC (fun _ _ _ hs _ => hs) hpaused hrewind h with hstop | hstop
    · cases hstop with
      | taken inv next _ _ answer =>
        exact .redelivered inv (mem_above.1 (nextAfter_mem next)).1 answer
      | unloaded inv _ _ answer => exact .load inv answer
    · cases hstop with
      | passed inv | window inv => exact .none inv
      | unloaded inv _ _ _ answer => exact .load inv answer
      | taken inv _ _ fresh _ answer => exact .fresh inv fresh answer

theorem SearchInvariant.nextCandidate : I s' := by
  cases hI.stop hs h with
  | none inv | load inv => exact inv
  | @redelivered t p _ _ _ inv => exact hI.forget inv p t.attempts
  | @fresh t _ _ _ inv => exact hI.cursor inv (satSucc t.nextPosition) t.deferredScan

end SearchInvariant

theorem searchInvariant_true : SearchInvariant fun _ => True :=
  ⟨fun _ _ _ => trivial, fun _ _ _ => trivial, fun _ => trivial, fun _ _ => trivial⟩

theorem nextPosition_le_acknowledge (p : ℕ) : s.nextPosition ≤ (s.acknowledge p).nextPosition := by
  obtain ⟨floor, acked, next, d, i, h, _, hnext, _⟩ := s.acknowledge_eq p
  rw [h]
  rcases hnext with ⟨rfl, -⟩ | rfl
  · exact le_rfl
  · exact le_max_left _ _

theorem satSucc_le_jumpAbsent (last : ℕ) : satSucc last ≤ (s.jumpAbsent last).nextPosition := by
  obtain ⟨floor, acked, h, _⟩ := advanceAckFloor_eq { s with nextPosition := satSucc last }
  rw [jumpAbsent, h]
  exact le_max_left _ _

/-- Below the largest word every turn moves the cursor. -/
theorem cursorTurn_lowers {nowMs : ℤ} {lastPosition : ℕ} (hlast : lastPosition < u64Max)
    (turn : ChannelState × σ) :
    (cursorTurn nowMs lastPosition availableAt turn).Lowers (fun turn => turn.1.cursorFuel lastPosition)
      (turn.1.cursorFuel lastPosition) := by
  have hstep : ∀ {s t : ChannelState}, s.nextPosition ≤ lastPosition →
      satSucc s.nextPosition ≤ t.nextPosition → t.cursorFuel lastPosition < s.cursorFuel lastPosition := by
    intro s t hmore ht
    rw [satSucc_eq (by omega)] at ht
    unfold cursorFuel
    omega
  fun_cases cursorTurn nowMs lastPosition availableAt turn with
  | case1 s e hmore last hend =>
    exact hstep hmore ((satSucc_mono (Ranges.le_rangeEnd hend)).trans (s.satSucc_le_jumpAbsent last))
  | case2 s e hmore | case4 s e hmore | case7 s e hmore =>
    exact Nat.sub_pos_of_lt (Nat.lt_succ_of_le hmore)
  | case3 s e hmore | case6 s e hmore => exact hstep hmore le_rfl
  | case5 s e hmore hnone hroom position =>
    exact hstep hmore (s.stepCursor.nextPosition_le_acknowledge position)
  | case8 => trivial

theorem nextCandidate_isSome (nowMs : ℤ) {lastPosition : ℕ}
    (availableAt : σ → ℕ → MessageAvailability × σ) (e : σ) (hlast : lastPosition < u64Max) :
    (s.nextCandidate nowMs lastPosition availableAt e).isSome := by
  have hscan : (loop (redeliveryTurn nowMs availableAt) (s.rewind nowMs).redelivery.card
      (none, s.rewind nowMs, e)).isSome :=
    loop_isSome (redeliveryTurn_lowers nowMs availableAt) (le_of_eq rfl)
  rw [nextCandidate]
  split_ifs
  · rfl
  · dsimp only
    split
    · rename_i hnone
      rw [hnone] at hscan
      cases hscan
    · rfl
    · exact loop_isSome (cursorTurn_lowers hlast) le_rfl

end ChannelState

end RustQueue.Channel
