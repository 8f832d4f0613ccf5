import RustQueue.Channel.Run

/-!
# Positions a running channel can still deliver

A position is in reach when it is in flight, offered for redelivery, at or behind the
cursor, or behind the rewind point: later calls can then deliver it without a restart.

* `nextCandidate_inReach`: a call of `nextCandidate` changes the reach of no stored position
  except the one it answers as ready, which it takes out of the channel's hands;
* `inReach_settle`: handing that position out, or back, puts it in reach again.
-/

namespace RustQueue.Channel

open Lib

namespace ChannelState

variable {σ : Type*} {s s' : ChannelState} {p : ℕ}

/-- The channel can still deliver the position without a restart. -/
def InReach (s : ChannelState) (p : ℕ) : Prop :=
  s.Pending p ∨ s.nextPosition ≤ p ∨
    ∃ first deadline, s.deferredScan = some (first, deadline) ∧ first ≤ p

/-- Neither acknowledged nor missing from the log. -/
def Unsettled (s : ChannelState) (p : ℕ) : Prop := ¬s.Acked p ∧ ¬s.Absent p

/-- The position stays unsettled and its reach does not change. -/
def SameReach (p : ℕ) (s s' : ChannelState) : Prop :=
  s.Unsettled p → s'.Unsettled p ∧ (s'.InReach p ↔ s.InReach p)

theorem SameReach.trans {t : ChannelState} (h : SameReach p s s') (h' : SameReach p s' t) :
    SameReach p s t := by
  intro hs
  obtain ⟨hs', hiff⟩ := h hs
  obtain ⟨ht, hiff'⟩ := h' hs'
  exact ⟨ht, hiff'.trans hiff⟩

/-- A position above the floor is at or behind every cursor right after the floor. -/
theorem max_satSucc_le_iff {n floor : ℕ} (h : floor < p) : max n (satSucc floor) ≤ p ↔ n ≤ p := by
  rw [max_le_iff]
  exact and_iff_left (satSucc_le_of_lt h)

/-! ### The steps of the two scans -/

theorem sameReach_advanceAckFloor (p : ℕ) (s : ChannelState) :
    SameReach p s s.advanceAckFloor := by
  intro ⟨hack, habsent⟩
  obtain ⟨floor, acked, heq, hle, hsound, _⟩ := s.advanceAckFloor_eq
  have hnew : ¬(p ≤ floor ∨ p ∈ acked) := fun h => (hsound p h).elim hack habsent
  rw [heq]
  refine ⟨⟨hnew, habsent⟩, ?_⟩
  show _ ∨ max s.nextPosition (satSucc floor) ≤ p ∨ _ ↔ _
  rw [max_satSucc_le_iff (by omega)]
  rfl

theorem sameReach_acknowledge {q : ℕ} (hq : q ≠ p) (s : ChannelState) :
    SameReach p s (s.acknowledge q) := by
  intro ⟨hack, habsent⟩
  obtain ⟨floor, acked, next, d, i, heq, hle, hnext, hsound, _⟩ := s.acknowledge_eq q
  have hnew : ¬(p ≤ floor ∨ p ∈ acked) := by
    intro h
    rcases hsound p h with h | h | h
    · exact hack h
    · exact hq h.symm
    · exact habsent h
  have hcursor : next ≤ p ↔ s.nextPosition ≤ p := by
    rcases hnext with ⟨rfl, -⟩ | rfl
    · rfl
    · exact max_satSucc_le_iff (by omega)
  rw [heq]
  refine ⟨⟨hnew, habsent⟩, ?_⟩
  show (p ∈ s.inFlight.erase q ∨ p ∈ s.redelivery.erase q) ∨ next ≤ p ∨ _ ↔ _
  rw [hcursor, Finset.mem_erase, Std.ExtTreeMap.mem_erase]
  simp [InReach, Pending, hq, Ne.symm hq]

theorem sameReach_rewind (p : ℕ) (s : ChannelState) (nowMs : ℤ) : SameReach p s (s.rewind nowMs) := by
  intro ⟨hack, habsent⟩
  have hfloor : s.ackFloorPosition < p := not_le.1 fun h => hack (Or.inl h)
  unfold rewind
  split
  · exact ⟨⟨hack, habsent⟩, Iff.rfl⟩
  · rename_i first deadline hdefer
    split_ifs
    · refine ⟨⟨hack, habsent⟩, ?_⟩
      simp only [InReach, Pending, min_le_iff, max_satSucc_le_iff hfloor, hdefer]
      simp
    · exact ⟨⟨hack, habsent⟩, Iff.rfl⟩

theorem sameReach_dropAbsent {q : ℕ} (hq : q ≠ p) (s : ChannelState) :
    SameReach p s (s.dropAbsent q) := by
  refine SameReach.trans ?_ (sameReach_advanceAckFloor p _)
  intro h
  refine ⟨h, ?_⟩
  simp only [InReach, Pending, Finset.mem_erase, ne_eq, Ne.symm hq, not_false_eq_true, true_and]

theorem sameReach_takeRedelivery {q : ℕ} (hq : q ≠ p) (s : ChannelState) :
    SameReach p s (s.takeRedelivery q) := by
  intro h
  refine ⟨h, ?_⟩
  simp only [InReach, Pending, takeRedelivery, Finset.mem_erase, ne_eq, Ne.symm hq,
    not_false_eq_true, true_and]

/-- Moving the cursor by one changes the reach of the position it passes only. -/
theorem satSucc_le_iff {n : ℕ} (h : n ≠ p) : satSucc n ≤ p ↔ n ≤ p :=
  ⟨fun hle => (le_satSucc n).trans hle, fun hle => satSucc_le_of_lt (lt_of_le_of_ne hle h)⟩

theorem sameReach_stepCursor (h : s.nextPosition = p → s.Pending p) :
    SameReach p s s.stepCursor := by
  intro hs
  refine ⟨hs, ?_⟩
  by_cases hp : s.nextPosition = p
  · exact iff_of_true (Or.inl (h hp)) (Or.inl (h hp))
  · simp only [InReach, Pending, stepCursor, satSucc_le_iff hp]

theorem sameReach_deferCursor (p : ℕ) (s : ChannelState) (available : ℤ) :
    SameReach p s (s.stepCursor.deferPosition s.nextPosition available) := by
  intro hs
  refine ⟨hs, ?_⟩
  -- the cursor leaves its position, which the rewind point then covers
  have hcover : (satSucc s.nextPosition ≤ p ∨ s.nextPosition ≤ p) ↔ s.nextPosition ≤ p :=
    or_iff_right_of_imp fun h => (le_satSucc _).trans h
  simp only [InReach, Pending, deferPosition, stepCursor]
  cases s.deferredScan with
  | none => simp [hcover]
  | some scan =>
    obtain ⟨first, deadline⟩ := scan
    simp only [Option.some.injEq, Prod.mk.injEq, ↓existsAndEq, and_true, min_le_iff,
      exists_eq_left']
    tauto

theorem sameReach_jumpAbsent {last : ℕ} (hrange : s.absentRangeEnd s.nextPosition = some last) :
    SameReach p s (s.jumpAbsent last) := by
  refine SameReach.trans ?_ (sameReach_advanceAckFloor p _)
  intro hs
  refine ⟨hs, ?_⟩
  have hle := Ranges.le_rangeEnd hrange
  have hcursor : satSucc last ≤ p ↔ s.nextPosition ≤ p := by
    refine ⟨fun h => hle.trans ((le_satSucc last).trans h), fun h => satSucc_le_of_lt ?_⟩
    by_contra hlast
    exact hs.2 (Ranges.mem_of_rangeEnd hrange h (not_lt.1 hlast))
  simp only [InReach, Pending, hcursor]

/-! ### A whole call -/

variable {nowMs : ℤ} {lastPosition : ℕ} {availableAt : σ → ℕ → MessageAvailability × σ}

/-- The lookup never says that the position is not stored. -/
def Stored (availableAt : σ → ℕ → MessageAvailability × σ) (p : ℕ) : Prop :=
  ∀ e, (availableAt e p).1 ≠ .absent

theorem Stored.ne {e e' : σ} {q : ℕ} (h : Stored availableAt p)
    (hanswer : availableAt e q = (.absent, e')) : q ≠ p := by
  rintro rfl
  exact h e (by rw [hanswer])

theorem sameReach_redelivery (hstored : Stored availableAt p) (s₀ : ChannelState)
    (h₀ : s₀.Unsettled p) :
    RedeliveryInvariant nowMs availableAt fun _ s (_ : σ) => SameReach p s₀ s where
  drop := by
    intro c s e q h _ habsent
    refine h.trans (sameReach_dropAbsent ?_ s)
    rintro rfl
    exact (h h₀).1.2 habsent
  wait := fun h _ _ _ => h
  later := fun h _ _ _ _ => h
  gone := fun h _ _ hanswer => h.trans (sameReach_acknowledge (hstored.ne hanswer) _)

theorem sameReach_cursor (hstored : Stored availableAt p) (s₀ : ChannelState)
    (h₀ : s₀.Unsettled p) :
    CursorInvariant nowMs lastPosition availableAt fun s (_ : σ) => SameReach p s₀ s where
  jump := fun h _ hrange => h.trans (sameReach_jumpAbsent hrange)
  skip := by
    intro s e h _ _ hskip
    refine h.trans (sameReach_stepCursor fun hp => ?_)
    rw [hp] at hskip
    rcases hskip with hskip | hskip | hskip | hskip
    · exact absurd (Or.inl hskip) (h h₀).1.1
    · exact absurd (Or.inr hskip) (h h₀).1.1
    · exact Or.inl hskip
    · exact Or.inr hskip
  gone := by
    intro s e e' h _ _ _ hanswer
    have hne := hstored.ne hanswer
    exact (h.trans (sameReach_stepCursor fun hp => absurd hp hne)).trans
      (sameReach_acknowledge hne _)
  later := fun h _ _ _ _ _ => h.trans (sameReach_deferCursor p _ _)

/-- **A call keeps every stored position but its answer in reach.**  The answer was in reach
before the call. -/
theorem nextCandidate_inReach {e e' : σ} {candidate : NextCandidate}
    (hstored : Stored availableAt p) (hs : s.Unsettled p)
    (h : s.nextCandidate nowMs lastPosition availableAt e = some (candidate, s', e')) :
    s'.Unsettled p ∧ (candidate = .ready p → s.InReach p) ∧
      (candidate ≠ .ready p → (s'.InReach p ↔ s.InReach p)) := by
  cases hpaused : s.paused with
  | true =>
    obtain ⟨rfl, rfl⟩ := nextCandidate_paused hpaused h
    exact ⟨hs, by simp, fun _ => Iff.rfl⟩
  | false =>
    rcases nextCandidate_rule (sameReach_redelivery hstored s hs) (sameReach_cursor hstored s hs)
      (fun _ _ _ h _ => h) hpaused (sameReach_rewind p s nowMs) h with hstop | hstop
    · generalize hanswer : some candidate = answer at hstop
      cases hstop with
      | ended => cases hanswer
      | @taken c t e₁ q a e₂ inv next =>
        cases hanswer
        obtain ⟨ht, hiff⟩ := inv hs
        refine ⟨ht, fun hq => ?_, fun hq => ?_⟩
        · cases hq
          exact hiff.1 (Or.inl (Or.inr (mem_above.1 (nextAfter_mem next)).1))
        · exact ((inv.trans (sameReach_takeRedelivery (fun hqp => hq (by rw [hqp])) t)) hs).2
      | unloaded inv =>
        cases hanswer
        obtain ⟨ht, hiff⟩ := inv hs
        exact ⟨ht, by simp, fun _ => hiff⟩
    · cases hstop with
      | passed inv | window inv | unloaded inv =>
        obtain ⟨ht, hiff⟩ := inv hs
        exact ⟨ht, by simp, fun _ => hiff⟩
      | @taken t e₁ a e₂ inv =>
        obtain ⟨ht, hiff⟩ := inv hs
        refine ⟨ht, fun hq => ?_, fun hq => ?_⟩
        · exact hiff.1 (Or.inr (Or.inl (NextCandidate.ready.inj hq).le))
        · exact ((inv.trans (sameReach_stepCursor fun hp => absurd (by rw [hp]) hq)) hs).2

/-! ### Handing a position out or back -/

theorem unsettled_settle (s : ChannelState) (p q : ℕ) (handout : Handout) :
    (s.settle q handout).Unsettled p ↔ s.Unsettled p := by
  cases handout <;> rfl

theorem inReach_settle (s : ChannelState) (q : ℕ) (handout : Handout) :
    (s.settle q handout).InReach q := by
  cases handout with
  | reserve id timestampNs deadline token =>
    exact Or.inl (Or.inl (Std.ExtTreeMap.mem_insert_self))
  | defer => exact Or.inl (Or.inr (Finset.mem_insert_self q s.redelivery))

theorem sameReach_settle {q : ℕ} (hq : q ≠ p) (s : ChannelState) (handout : Handout) :
    SameReach p s (s.settle q handout) := by
  intro hs
  refine ⟨(s.unsettled_settle p q handout).2 hs, ?_⟩
  cases handout with
  | reserve id timestampNs deadline token =>
    refine or_congr (or_congr ?_ Iff.rfl) Iff.rfl
    show p ∈ s.inFlight.insert q _ ↔ p ∈ s.inFlight
    rw [Std.ExtTreeMap.mem_insert]
    simp [hq]
  | defer =>
    refine or_congr (or_congr Iff.rfl ?_) Iff.rfl
    show p ∈ insert q s.redelivery ↔ p ∈ s.redelivery
    rw [Finset.mem_insert, or_iff_right (Ne.symm hq)]

end ChannelState

end RustQueue.Channel
