import RustQueue.Channel.Run

/-!
# No message is stranded

Every position the cursor has passed is done with, in flight, offered for redelivery, or
covered by the rewind point.  `Covered` says so, each operation keeps it, and so it holds
of every reachable channel (`Reachable.covered`).

The second half is about a call that finds nothing: the redelivery scan has seen every
pending position wait, the cursor has stopped at the end of the log or of the window, and
the rewind point lies in the future.  Nothing that could be delivered is due.
-/

namespace RustQueue.Channel

open Lib

namespace ChannelState

variable {σ : Type*} {avail : ℕ → ℤ} {s s' : ChannelState} {p : ℕ}

/-- The rewind point will bring the cursor back to `p` no later than `p` is available. -/
def DeferCovers (avail : ℕ → ℤ) (s : ChannelState) (p : ℕ) : Prop :=
  ∃ first deadline, s.deferredScan = some (first, deadline) ∧ first ≤ p ∧ deadline ≤ avail p

/-- No position behind the cursor is forgotten. -/
def Covered (avail : ℕ → ℤ) (s : ChannelState) : Prop :=
  ∀ p, ¬s.Acked p → ¬s.Absent p → p < s.nextPosition → s.Pending p ∨ s.DeferCovers avail p

/-- A fixed availability time for each position. -/
def FixedTime (avail : ℕ → ℤ) (p : ℕ) (answer : MessageAvailability) : Prop :=
  ∀ a, answer = .ready a → a = avail p

/-- An operation keeps the coverage if it acknowledges no less, moves the cursor over done
positions only and keeps what is pending pending. -/
theorem Covered.of_le (h : s.Covered avail) (hack : ∀ p, s.Acked p → s'.Acked p)
    (habsent : s'.absentRanges = s.absentRanges)
    (hpending : ∀ p, ¬s'.Acked p → ¬s'.Absent p → s.Pending p → s'.Pending p)
    (hnext : ∀ p, p < s'.nextPosition → p < s.nextPosition ∨ s'.Acked p ∨ s'.Absent p ∨ s'.Pending p)
    (hdefer : s'.deferredScan = s.deferredScan) : s'.Covered avail := by
  intro p hp hpresent hlt
  rcases hnext p hlt with hlt | hdone | hdone | hdone
  · refine (h p (fun hs => hp (hack p hs)) (fun hs => hpresent ?_) hlt).imp
      (hpending p hp hpresent) fun hc => ?_
    · rwa [Absent, habsent]
    · rwa [DeferCovers, hdefer]
  · exact absurd hdone hp
  · exact absurd hdone hpresent
  · exact Or.inl hdone

/-- Nothing lies between the floor and a cursor right behind it. -/
theorem covered_of_nextPosition (h : s.nextPosition = satSucc s.ackFloorPosition) :
    s.Covered avail := by
  intro p hp _ hlt
  rw [h] at hlt
  exact absurd (Or.inl (le_of_lt_satSucc hlt)) hp

/-! ### The operations keep the coverage -/

theorem Covered.advanceAckFloor (h : s.Covered avail) : s.advanceAckFloor.Covered avail := by
  obtain ⟨floor, acked, heq, h1, h2, h3⟩ := s.advanceAckFloor_eq
  rw [heq]
  refine h.of_le h3 rfl (fun q _ _ hq => hq) (fun q hq => ?_) rfl
  rcases lt_max_iff.1 hq with hq | hq
  · exact Or.inl hq
  · exact Or.inr (Or.inl (Or.inl (le_of_lt_satSucc hq)))

theorem Covered.acknowledge (h : s.Covered avail) (p : ℕ) : (s.acknowledge p).Covered avail := by
  obtain ⟨floor, acked, next, d, i, heq, h1, hnext, h2, h3⟩ := s.acknowledge_eq p
  rw [heq]
  refine h.of_le (fun q hq => h3 q (Or.inl hq)) rfl (fun q hq _ hpend => ?_) (fun q hq => ?_) rfl
  · have hne : q ≠ p := fun hqp => hq (h3 q (Or.inr hqp))
    simp only [Pending, Finset.mem_erase] at hpend ⊢
    grind
  · change q < next at hq
    rcases hnext with ⟨rfl, -⟩ | rfl
    · exact Or.inl hq
    · rcases lt_max_iff.1 hq with hq | hq
      · exact Or.inl hq
      · exact Or.inr (Or.inl (Or.inl (le_of_lt_satSucc hq)))

theorem Covered.dropThrough (h : s.Covered avail) (t : ℕ) : (s.dropThrough t).Covered avail := by
  obtain ⟨m, d, i, heq, hm⟩ := s.dropThrough_eq t
  rw [heq]
  refine h.of_le (fun q hq => ?_) rfl (fun q hq _ hpend => ?_) (fun q hq => ?_) rfl
  · simp only [Acked, Finset.mem_filter, le_max_iff] at hq ⊢
    by_cases hqt : q ≤ t
    · exact Or.inl (Or.inr hqt)
    · exact hq.imp Or.inl fun hmem => ⟨hmem, by omega⟩
  · have hgt : t < q := by
      simp only [Acked] at hq
      omega
    simpa [Pending, hm, hgt] using hpend
  · rcases lt_max_iff.1 hq with hq | hq
    · exact Or.inl hq
    · have := le_of_lt_satSucc hq
      exact Or.inr (Or.inl (Or.inl (le_max_of_le_right this)))

/-- Moving deliveries from flight to redelivery keeps everything pending. -/
theorem Covered.of_pending (h : s.Covered avail) (hfloor : s'.ackFloorPosition = s.ackFloorPosition)
    (hack : s'.acknowledged = s.acknowledged) (habsent : s'.absentRanges = s.absentRanges)
    (hnext : s'.nextPosition = s.nextPosition) (hdefer : s'.deferredScan = s.deferredScan)
    (hpending : ∀ p, s.Pending p → s'.Pending p) : s'.Covered avail := by
  refine h.of_le (fun q hq => ?_) habsent (fun q _ _ => hpending q) (fun q hq => ?_) hdefer
  · rwa [Acked, hfloor, hack]
  · exact Or.inl (hnext ▸ hq)

theorem Returned.covered {returned : List ℕ} (h : Returned returned s s') (hs : s.Covered avail) :
    s'.Covered avail := by
  have hpending : ∀ q, s.Pending q → s'.Pending q := fun q hq => by
    rw [Pending, h.flight, h.redelivery]
    unfold Pending at hq
    tauto
  obtain ⟨r, a, m, d, i, n, rfl⟩ := h.rest
  exact hs.of_pending rfl rfl rfl rfl rfl hpending

theorem Covered.apply (h : s.Covered avail) (command : ChannelCommand) :
    (s.apply command).Covered avail := by
  cases command with
  | finish position messageId => exact h.acknowledge position
  | requeue position messageId available attempts count =>
    obtain ⟨d, i, hrem⟩ := s.removeInFlight_eq position
    refine h.of_pending ?_ ?_ ?_ ?_ ?_ fun q hq => ?_
    all_goals simp only [ChannelState.apply, hrem]
    simp only [Pending, Finset.mem_insert] at hq ⊢
    grind
  | pause paused => exact h.of_pending rfl rfl rfl rfl rfl fun q hq => hq
  | empty through => exact h.dropThrough through
  | evict through => exact h.dropThrough through
  | timeout count => exact h.of_pending rfl rfl rfl rfl rfl fun q hq => hq

/-! ### The turns of `nextCandidate` keep the coverage -/

section

variable (h : s.Covered avail)
include h

theorem Covered.rewind (nowMs : ℤ) : (s.rewind nowMs).Covered avail := by
  unfold ChannelState.rewind
  split
  · exact h
  · rename_i first deadline hdefer
    split_ifs with hdue
    · -- what the rewind point covered is now at or behind the cursor
      intro p hp hpresent hlt
      simp only [lt_min_iff, lt_max_iff] at hlt
      refine Or.inl ((h p hp hpresent hlt.1).resolve_right ?_)
      rintro ⟨first', deadline', heq, hfirst, -⟩
      obtain ⟨rfl, rfl⟩ : first = first' ∧ deadline = deadline' := by
        simpa [hdefer] using heq
      rcases hlt.2 with hlt | hlt
      · omega
      · exact hp (Or.inl (le_of_lt_satSucc hlt))
    · exact h

theorem Covered.dropAbsent (hp : s.Absent p) : (s.dropAbsent p).Covered avail := by
  refine Covered.advanceAckFloor (s := { s with
      redelivery := s.redelivery.erase p
      requeuedUntil := s.requeuedUntil.erase p
      attempts := s.attempts.erase p })
    (h.of_le (fun q hq => hq) rfl (fun q _ hpresent hq => ?_) (fun q hq => Or.inl hq) rfl)
  have hne : q ≠ p := fun hqp => hpresent (hqp ▸ hp)
  simpa [Pending, hne] using hq

theorem Covered.jumpAbsent {last : ℕ}
    (hend : s.absentRangeEnd s.nextPosition = some last) : (s.jumpAbsent last).Covered avail := by
  refine Covered.advanceAckFloor (s := { s with nextPosition := satSucc last })
    (h.of_le (fun q hq => hq) rfl (fun q _ _ hq => hq) (fun q hq => ?_) rfl)
  have hle : q ≤ last := le_of_lt_satSucc hq
  by_cases hlt : q < s.nextPosition
  · exact Or.inl hlt
  · exact Or.inr (Or.inr (Or.inl (Ranges.mem_of_rangeEnd hend (by omega) hle)))

theorem Covered.skip (hskip : s.skips s.nextPosition) : s.stepCursor.Covered avail := by
  refine h.of_le (fun q hq => hq) rfl (fun q _ _ hq => hq) (fun q hq => ?_) rfl
  by_cases hlt : q < s.nextPosition
  · exact Or.inl hlt
  · obtain rfl : q = s.nextPosition := by
      have : q ≤ s.nextPosition := le_of_lt_satSucc hq
      omega
    right
    unfold skips at hskip
    unfold Acked Pending
    tauto

theorem Covered.gone : (s.stepCursor.acknowledge s.nextPosition).Covered avail := by
  -- the cursor first passes the position, which is then acknowledged
  obtain ⟨floor, acked, next, d, i, heq, h1, hnext, h2, h3⟩ :=
    s.stepCursor.acknowledge_eq s.nextPosition
  rw [heq]
  refine h.of_le (fun q hq => h3 q (Or.inl hq)) rfl (fun q hq _ hpend => ?_) (fun q hq => ?_) rfl
  · have hne : q ≠ s.nextPosition := fun hqp => hq (h3 q (Or.inr hqp))
    simp only [Pending, stepCursor, Finset.mem_erase] at hpend ⊢
    grind
  · change q < next at hq
    have hcase : q < satSucc s.nextPosition ∨ q < satSucc floor := by
      rcases hnext with ⟨rfl, -⟩ | rfl
      · exact Or.inl hq
      · exact lt_max_iff.1 hq
    rcases hcase with hq | hq
    · rcases Nat.lt_or_ge q s.nextPosition with hlt | hge
      · exact Or.inl hlt
      · exact Or.inr (Or.inl (h3 q (Or.inr (by have := le_of_lt_satSucc hq; omega))))
    · exact Or.inr (Or.inl (Or.inl (le_of_lt_satSucc hq)))

theorem Covered.deferPosition {a : ℤ} (ha : a = avail s.nextPosition) :
    (s.stepCursor.deferPosition s.nextPosition a).Covered avail := by
  intro q hq hpresent hlt
  have hle : q ≤ s.nextPosition := le_of_lt_satSucc hlt
  by_cases hlt : q < s.nextPosition
  · refine (h q hq hpresent hlt).imp_right ?_
    rintro ⟨first, deadline, heq, hfirst, hdl⟩
    refine ⟨min first s.nextPosition, min deadline a, ?_, ?_, ?_⟩
    · simp [ChannelState.deferPosition, stepCursor, heq]
    · exact (min_le_left _ _).trans hfirst
    · exact (min_le_left _ _).trans hdl
  · obtain rfl : q = s.nextPosition := by omega
    right
    cases hd : s.deferredScan with
    | none =>
      exact ⟨s.nextPosition, a, by simp [ChannelState.deferPosition, stepCursor, hd], le_rfl, ha.le⟩
    | some scan =>
      obtain ⟨first, deadline⟩ := scan
      refine ⟨min first s.nextPosition, min deadline a, ?_, min_le_right _ _, ?_⟩
      · simp [ChannelState.deferPosition, stepCursor, hd]
      · exact (min_le_right _ _).trans ha.le

end

/-! ### Whole calls -/

/-- The rewind point lies in the future. -/
def DeferLater (s : ChannelState) (nowMs : ℤ) : Prop :=
  ∀ first deadline, s.deferredScan = some (first, deadline) → nowMs < deadline

/-- A position has to wait, for its requeue deadline or for its availability. -/
def Waits (avail : ℕ → ℤ) (nowMs : ℤ) (s : ChannelState) (p : ℕ) : Prop :=
  nowMs < s.requeuedUntil[p]?.getD 0 ∨ nowMs < avail p

/-- The invariant of the redelivery scan: what the cursor has passed waits. -/
structure Scanning (avail : ℕ → ℤ) (nowMs : ℤ) (c : Option ℕ) (s : ChannelState) : Prop where
  covered : s.Covered avail
  later : s.DeferLater nowMs
  passed : ∀ q ∈ s.redelivery, q ∉ above s.redelivery c → s.Waits avail nowMs q

theorem rewind_deferLater (s : ChannelState) (nowMs : ℤ) : (s.rewind nowMs).DeferLater nowMs := by
  intro first deadline hdefer
  cases hd : s.deferredScan with
  | none => simp [ChannelState.rewind, hd] at hdefer
  | some scan =>
    by_cases hdue : scan.2 ≤ nowMs
    · simp [ChannelState.rewind, hd, hdue] at hdefer
    · simp [ChannelState.rewind, hd, hdue] at hdefer
      subst hdefer
      exact not_le.1 hdue

variable {nowMs : ℤ}

/-- A turn that takes at most `p` out of the redelivery set leaves the passed positions
passed. -/
theorem Scanning.passed_erase {c : Option ℕ} (h : Scanning avail nowMs c s)
    (hnext : nextAfter s.redelivery c = some p) (hredelivery : s'.redelivery = s.redelivery.erase p)
    (hrequeued : s'.requeuedUntil = s.requeuedUntil.erase p) :
    ∀ q ∈ s'.redelivery, q ∉ above s'.redelivery (some p) → s'.Waits avail nowMs q := by
  intro q hq hpassed
  rw [hredelivery, Finset.mem_erase] at hq
  have hle : q < p := by
    by_contra hge
    exact hpassed (mem_above.2 ⟨by simp [hredelivery, hq], fun x hx => by simp at hx; omega⟩)
  have hbefore : q ∉ above s.redelivery c := fun hmem => by
    have := nextAfter_le hnext hmem
    omega
  have := h.passed q hq.2 hbefore
  unfold Waits at this ⊢
  rw [hrequeued]
  grind

theorem Scanning.passed_wait {c : Option ℕ} (h : Scanning avail nowMs c s)
    (hnext : nextAfter s.redelivery c = some p) (hwait : s.Waits avail nowMs p) :
    Scanning avail nowMs (some p) s := by
  refine ⟨h.covered, h.later, fun q hq hpassed => ?_⟩
  by_cases hqp : q = p
  · exact hqp ▸ hwait
  · refine h.passed q hq fun hmem => hpassed (mem_above.2 ⟨hq, fun x hx => ?_⟩)
    have := nextAfter_le hnext hmem
    simp at hx
    omega

variable {availableAt : σ → ℕ → MessageAvailability × σ}

theorem scanning_invariant (hfixed : Admissible (FixedTime avail) availableAt) :
    RedeliveryInvariant nowMs availableAt fun c s _ => Scanning avail nowMs c s where
  drop {c s e p} h hnext habsent := by
    refine ⟨h.covered.dropAbsent habsent, ?_, h.passed_erase hnext (s.dropAbsent_redelivery p) ?_⟩
    all_goals
      obtain ⟨floor, acked, heq, -⟩ := advanceAckFloor_eq
        { s with
          redelivery := s.redelivery.erase p
          requeuedUntil := s.requeuedUntil.erase p
          attempts := s.attempts.erase p }
      simp only [ChannelState.dropAbsent, heq]
    exact h.later
  wait h hnext _ hwait := h.passed_wait hnext (Or.inl hwait)
  later h hnext _ hanswer hlater :=
    h.passed_wait hnext (Or.inr (hfixed.answer hanswer _ rfl ▸ hlater))
  gone {c s e p e'} h hnext _ _ := by
    obtain ⟨floor, acked, next, d, i, heq, -⟩ := s.acknowledge_eq p
    exact ⟨h.covered.acknowledge p, by rw [heq]; exact h.later,
      h.passed_erase hnext (s.acknowledge_redelivery p) (by rw [heq])⟩

/-- The invariant of the cursor: everything offered for redelivery waits. -/
structure Moving (avail : ℕ → ℤ) (nowMs : ℤ) (s : ChannelState) : Prop where
  covered : s.Covered avail
  later : s.DeferLater nowMs
  waits : ∀ q ∈ s.redelivery, s.Waits avail nowMs q

theorem moving_invariant {last : ℕ} (hfixed : Admissible (FixedTime avail) availableAt) :
    CursorInvariant nowMs last availableAt fun s _ => Moving avail nowMs s where
  jump {s e last} h _ hend := by
    refine ⟨h.covered.jumpAbsent hend, ?_, ?_⟩
    all_goals
      obtain ⟨floor, acked, heq, -⟩ := advanceAckFloor_eq { s with nextPosition := satSucc last }
      simp only [ChannelState.jumpAbsent, heq]
    · exact h.later
    · exact h.waits
  skip h _ _ hskip := ⟨h.covered.skip hskip, h.later, h.waits⟩
  gone {s e e'} h _ _ _ _ := by
    obtain ⟨floor, acked, next, d, i, heq, -⟩ := s.stepCursor.acknowledge_eq s.nextPosition
    refine ⟨h.covered.gone, by rw [heq]; exact h.later, ?_⟩
    rw [heq]
    intro q hq
    have hmem := Finset.mem_erase.1 hq
    have := h.waits q hmem.2
    unfold Waits at this ⊢
    simp only [stepCursor]
    grind
  later {s e a e'} h _ _ _ hanswer hlater := by
    have ha : a = avail s.nextPosition := hfixed.answer hanswer a rfl
    refine ⟨h.covered.deferPosition ha, fun first deadline hdefer => ?_, h.waits⟩
    cases hd : s.deferredScan with
    | none =>
      simp [ChannelState.deferPosition, stepCursor, hd] at hdefer
      omega
    | some scan =>
      have := h.later scan.1 scan.2 hd
      simp [ChannelState.deferPosition, stepCursor, hd] at hdefer
      omega

theorem nextCandidate_stops {last : ℕ} {e e' : σ} {candidate : NextCandidate}
    (hfixed : Admissible (FixedTime avail) availableAt) (hs : s.Covered avail) (hrun : s.paused = false)
    (h : s.nextCandidate nowMs last availableAt e = some (candidate, s', e')) :
    RedeliveryStop nowMs availableAt (fun c s _ => Scanning avail nowMs c s) (some candidate) s' e' ∨
      CursorStop nowMs last availableAt (fun s _ => Moving avail nowMs s) candidate s' e' := by
  refine nextCandidate_rule (scanning_invariant hfixed) (moving_invariant hfixed) ?_ hrun ?_ h
  · intro c s e h hdone
    exact ⟨h.covered, h.later, fun q hq => h.passed q hq (by simp [hdone])⟩
  · exact ⟨hs.rewind nowMs, s.rewind_deferLater nowMs, fun q hq hnot => absurd hq hnot⟩

/-- Handing out what has just left the redelivery set, or what the cursor has just passed,
keeps everything pending. -/
theorem Covered.settle (h : s.Covered avail) (t : ChannelState) (p : ℕ)
    (hack : ∀ q, t.Acked q ↔ s.Acked q) (habsent : t.absentRanges = s.absentRanges)
    (hdefer : t.deferredScan = s.deferredScan)
    (hnext : ∀ q, q < t.nextPosition → q < s.nextPosition ∨ q = p)
    (hpending : ∀ q, s.Pending q → q ≠ p → t.Pending q) (handout : Handout) :
    (t.settle p handout).Covered avail := by
  have hother : ∀ q, t.Pending q ∨ q = p → (t.settle p handout).Pending q := by
    intro q hq
    cases handout with
    | reserve id ts deadline token =>
      simp only [ChannelState.settle, reserveTimestamped, Pending] at hq ⊢
      grind
    | defer =>
      simp only [ChannelState.settle, deferCandidate, Pending, Finset.mem_insert] at hq ⊢
      tauto
  have hsame : (t.settle p handout).ackFloorPosition = t.ackFloorPosition ∧
      (t.settle p handout).acknowledged = t.acknowledged ∧
      (t.settle p handout).absentRanges = t.absentRanges ∧
      (t.settle p handout).deferredScan = t.deferredScan ∧
      (t.settle p handout).nextPosition = t.nextPosition := by
    cases handout <;> exact ⟨rfl, rfl, rfl, rfl, rfl⟩
  obtain ⟨h1, h2, h3, h4, h5⟩ := hsame
  refine h.of_le (fun q hq => ?_) (h3.trans habsent) (fun q _ _ hq => ?_) (fun q hq => ?_)
    (h4.trans hdefer)
  · unfold Acked
    rw [h1, h2]
    exact (hack q).2 hq
  · by_cases hqp : q = p
    · exact hother q (Or.inr hqp)
    · exact hother q (Or.inl (hpending q hq hqp))
  · rw [h5] at hq
    exact (hnext q hq).imp_right fun hqp => Or.inr (Or.inr (hother q (Or.inr hqp)))

theorem Covered.deliver {last : ℕ} {e e' : σ} (h : s.Covered avail)
    (hfixed : Admissible (FixedTime avail) availableAt)
    (hanswer : s.nextCandidate nowMs last availableAt e = some (.ready p, s', e')) (handout : Handout) :
    (s'.settle p handout).Covered avail := by
  cases hrun : s.paused with
  | true => cases (nextCandidate_paused hrun hanswer).1
  | false =>
    rcases nextCandidate_stops hfixed h hrun hanswer with hstop | hstop
    · cases hstop with
      | @taken c t _ _ _ _ inv =>
        refine inv.covered.settle (t.takeRedelivery p) p (fun q => Iff.rfl) rfl rfl
          (fun q hq => Or.inl hq) (fun q hq hne => ?_) handout
        simpa [Pending, takeRedelivery, hne] using hq
    · cases hstop with
      | @taken t _ _ _ inv =>
        refine inv.covered.settle t.stepCursor t.nextPosition (fun q => Iff.rfl) rfl rfl
          (fun q hq => ?_) (fun q hq _ => hq) handout
        have : q ≤ t.nextPosition := le_of_lt_satSucc hq
        omega

theorem Covered.idle {last : ℕ} {e e' : σ} {candidate : NextCandidate} (h : s.Covered avail)
    (hfixed : Admissible (FixedTime avail) availableAt)
    (hanswer : s.nextCandidate nowMs last availableAt e = some (candidate, s', e'))
    (hnot : ∀ position, candidate ≠ .ready position) : s'.Covered avail := by
  cases hrun : s.paused with
  | true => rwa [(nextCandidate_paused hrun hanswer).2]
  | false =>
    rcases nextCandidate_stops hfixed h hrun hanswer with hstop | hstop
    · cases hstop with
      | taken => exact absurd rfl (hnot _)
      | unloaded inv => exact inv.covered
    · cases hstop with
      | passed inv => exact inv.covered
      | window inv => exact inv.covered
      | unloaded inv => exact inv.covered
      | taken => exact absurd rfl (hnot _)

theorem LocalStep.covered (h : LocalStep (FixedTime avail) s s') (hs : s.Covered avail) :
    s'.Covered avail := by
  rcases h.kinds with hsearch | ⟨returned, hback⟩
  · cases hsearch with
    | deliver handout admissible answer => exact hs.deliver admissible answer handout
    | idle admissible answer notReady => exact hs.idle admissible answer notReady
  · exact hback.covered hs

theorem Step.covered (h : Step (FixedTime avail) s s') (hs : s.Covered avail) :
    s'.Covered avail := by
  cases h with
  | inMemory h => exact h.covered hs
  | apply command held => exact hs.apply command

/-! ### Opened channels -/

theorem apply_nextPosition (h : s.nextPosition = satSucc s.ackFloorPosition) (command : ChannelCommand) :
    (s.apply command).nextPosition = satSucc (s.apply command).ackFloorPosition := by
  have hmax : ∀ {a b : ℕ}, a ≤ b → max (satSucc a) (satSucc b) = satSucc b := fun hab =>
    max_eq_right (satSucc_mono hab)
  have hdrop : ∀ through, (s.dropThrough through).nextPosition =
      satSucc (s.dropThrough through).ackFloorPosition := by
    intro through
    obtain ⟨m, d, i, heq, -⟩ := s.dropThrough_eq through
    rw [heq]
    simp only [h]
    rcases le_total s.ackFloorPosition through with hle | hle
    · rw [hmax hle, max_eq_right hle]
    · rw [max_comm, hmax hle, max_eq_left hle]
  cases command with
  | finish position messageId =>
    obtain ⟨floor, acked, next, d, i, heq, hle, hnext, -⟩ := s.acknowledge_eq position
    simp only [ChannelState.apply, heq]
    rcases hnext with ⟨rfl, rfl⟩ | rfl
    · exact h
    · rw [h, hmax hle]
  | requeue position messageId available attempts count =>
    obtain ⟨d, i, hrem⟩ := s.removeInFlight_eq position
    simpa only [ChannelState.apply, hrem] using h
  | pause paused => exact h
  | empty through => exact hdrop through
  | evict through => exact hdrop through
  | timeout count => exact h

theorem Opening.nextPosition (h : Opening s) : s.nextPosition = satSucc s.ackFloorPosition := by
  induction h with
  | created => rfl
  | @loaded checkpoint gap s valid commands =>
    have hopen : s.nextPosition = satSucc s.ackFloorPosition := by
      rw [fromCheckpoint_eq valid]
      rfl
    unfold replay
    clear valid
    induction commands generalizing s with
    | nil => exact hopen
    | cons command commands ih => exact ih (apply_nextPosition hopen command)
  | @absent s h ranges ih =>
    obtain ⟨floor, acked, heq, hle, -⟩ := s.setAbsentRanges_eq ranges
    rw [heq]
    simp only [ih]
    exact max_eq_right (satSucc_mono hle)
  | compacted h ok ih =>
    obtain ⟨r, m, rfl, -⟩ := compactRecoveredDpubs_eq ok
    exact ih

/-- **Nothing behind the cursor of a reachable channel is forgotten.** -/
theorem Reachable.covered (h : Reachable (FixedTime avail) s) : s.Covered avail := by
  induction h with
  | opened h => exact covered_of_nextPosition h.nextPosition
  | step h step ih => exact step.covered ih

/-! ### A call that finds nothing -/

/-- **When a call finds nothing, nothing is due.** -/
theorem Covered.nothing_due {last : ℕ} {e e' : σ} (h : s.Covered avail)
    (hfixed : Admissible (FixedTime avail) availableAt) (hrun : s.paused = false)
    (hanswer : s.nextCandidate nowMs last availableAt e = some (.none, s', e')) (hlast : p ≤ last)
    (hack : ¬s'.Acked p) (hpresent : ¬s'.Absent p) (hflight : p ∉ s'.inFlight)
    (hwindow : s'.presentDistance p ≤ s'.maxAckGap) : s'.Waits avail nowMs p := by
  -- an empty answer comes from the cursor
  obtain ⟨inv, hend⟩ : Moving avail nowMs s' ∧
      (last < s'.nextPosition ∨ s'.maxAckGap < s'.presentDistance s'.nextPosition) := by
    rcases nextCandidate_stops hfixed h hrun hanswer with hstop | hstop
    · cases hstop
    · cases hstop with
      | passed inv done => exact ⟨inv, Or.inl done⟩
      | window inv full => exact ⟨inv, Or.inr full⟩
  by_cases hredelivery : p ∈ s'.redelivery
  · exact inv.waits p hredelivery
  · have hlt : p < s'.nextPosition := by
      by_contra hge
      rcases hend with hend | hend
      · omega
      · have := s'.presentDistance_mono (not_lt.1 hge)
        omega
    rcases inv.covered p hack hpresent hlt with hpend | ⟨first, deadline, hdefer, -, hdl⟩
    · exact absurd hpend (by simp [Pending, hflight, hredelivery])
    · exact Or.inr ((inv.later first deadline hdefer).trans_le hdl)

/-- **No message is stranded.**  Behind the cursor of a reachable channel every position
that is neither acknowledged nor absent is in flight, offered for redelivery or covered by
the rewind point; and when a call finds nothing, no position it could have delivered is due. -/
theorem no_message_stranded {avail : ℕ → ℤ} {s : ChannelState} (h : Reachable (FixedTime avail) s) :
    (∀ p, s.ackFloorPosition < p → p < s.nextPosition → p ∉ s.acknowledged →
      s.isAbsent p = false →
      p ∈ s.inFlight ∨ p ∈ s.redelivery ∨
        ∃ first deadline, s.deferredScan = some (first, deadline) ∧ first ≤ p ∧
          deadline ≤ avail p) ∧
    ∀ (σ : Type) (availableAt : σ → ℕ → MessageAvailability × σ) (e e' : σ) (nowMs : ℤ)
      (lastPosition : ℕ) (s' : ChannelState), Admissible (FixedTime avail) availableAt →
      s.paused = false →
      s.nextCandidate nowMs lastPosition availableAt e = some (.none, s', e') →
      ∀ p ≤ lastPosition, s'.isUnacknowledged p = true → s'.isAbsent p = false →
        p ∉ s'.inFlight → s'.presentDistance p ≤ s'.maxAckGap →
        ¬(s'.requeuedUntil[p]?.getD 0 ≤ nowMs ∧ avail p ≤ nowMs) := by
  have habsent : ∀ {t : ChannelState} {p}, t.isAbsent p = false → ¬t.Absent p := by
    intro t p hp
    rw [← isAbsent_iff, hp]
    simp
  constructor
  · intro p hfloor hlt hack hpresent
    have := h.covered p (by simp [Acked, hack]; omega) (habsent hpresent) hlt
    simpa [Pending, DeferCovers, or_assoc] using this
  · intro σ availableAt e e' nowMs last s' hfixed hrun hanswer p hlast hun hpresent hflight hwindow
    have := h.covered.nothing_due hfixed hrun hanswer hlast (isUnacknowledged_iff.1 hun)
      (habsent hpresent) hflight hwindow
    unfold Waits at this
    omega

/-- A channel that has passed position 1, available at 50, and delivered position 2. -/
theorem no_message_stranded_deferred :
    ∃ s : ChannelState, s.nextPosition = 3 ∧ s.deferredScan = some (1, 50) ∧
      (1 ∈ s.inFlight ∨ 1 ∈ s.redelivery ∨
        ∃ first deadline, s.deferredScan = some (first, deadline) ∧ first ≤ 1 ∧
          deadline ≤ (50 : ℤ)) := by
  let avail : ℕ → ℤ := fun p => if p = 1 then 50 else 0
  let start : ChannelState := new "workers" 0 false 8
  have hadmissible : Admissible (FixedTime avail)
      (fun (e : Unit) p => (MessageAvailability.ready (avail p), e)) := by
    intro e p a ha
    injection ha with ha
    exact ha.symm
  have hstep : Step (FixedTime avail) start
      (({ start with nextPosition := 3, deferredScan := some (1, 50) } : ChannelState).settle 2
        (.reserve 7 0 100 1)) :=
    .inMemory (.search (.deliver (e := ()) (.reserve 7 0 100 1) hadmissible
      (show start.nextCandidate 10 2 _ () = _ from rfl)))
  have hreach := Reachable.step (.opened (.created "workers" 0 false 8)) hstep
  exact ⟨_, rfl, rfl, (no_message_stranded hreach).1 1 (by decide) (by decide) (by decide) rfl⟩

end ChannelState

end RustQueue.Channel
