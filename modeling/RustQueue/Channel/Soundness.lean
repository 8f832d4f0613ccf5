import RustQueue.Channel.Run

/-!
# Delivery is sound

The redelivery scan of `nextCandidate` looks at neither the floor nor the acknowledged or
in-flight positions.  What makes its answers right is `Sound`: positions in flight and
positions offered for redelivery are disjoint, and neither kind is acknowledged or absent.

* `LocalStep.grown`, `Sound.apply`: every operation keeps the invariant;
* `Since`: what a call can change about the positions it does not answer;
* `Sound.ready`: a ready position is deliverable;
* `LocalStep.extended`: an operation acknowledges only what is absent or gone, in any state.
-/

namespace RustQueue.Channel

open Lib

namespace ChannelState

variable {σ : Type*} {avail : ℕ → ℤ} {gone : Set ℕ} {s s' t : ChannelState} {p : ℕ}

/-! ### The invariant -/

/-- Deliveries in flight and positions offered for redelivery are disjoint, and neither is
acknowledged or absent. -/
structure Sound (s : ChannelState) : Prop where
  flight : ∀ p ∈ s.inFlight, ¬s.Acked p ∧ ¬s.Absent p
  redelivery : ∀ p ∈ s.redelivery, ¬s.Acked p ∧ ¬s.Absent p ∧ p ∉ s.inFlight
  requeued : ∀ p ∈ s.requeuedUntil, p ∈ s.redelivery
  indexed : s.Indexed

theorem sound_new (name : String) (barrier : ℕ) (ephemeral : Bool) (gap : ℕ) :
    (new name barrier ephemeral gap).Sound where
  flight p hp := by simp [new] at hp
  redelivery p hp := by simp [new] at hp
  requeued p hp := by simp [new] at hp
  indexed d p t hkey := by simp [new] at hkey

/-- An operation that loses pending positions and acknowledges only positions that are not
pending afterwards keeps the invariant. -/
theorem Sound.of_le (h : s.Sound) (hflight : ∀ q ∈ s'.inFlight, q ∈ s.inFlight)
    (hredelivery : ∀ q ∈ s'.redelivery, q ∈ s.redelivery)
    (hrequeued : ∀ q ∈ s'.requeuedUntil, q ∈ s.requeuedUntil ∧ (q ∈ s.redelivery → q ∈ s'.redelivery))
    (habsent : s'.absentRanges = s.absentRanges)
    (hack : ∀ q, s'.Pending q → s'.Acked q → s.Acked q ∨ s.Absent q) (hindex : s'.Indexed) :
    s'.Sound where
  flight q hq := by
    obtain ⟨h1, h2⟩ := h.flight q (hflight q hq)
    refine ⟨fun hk => ?_, by rwa [Absent, habsent]⟩
    exact (hack q (Or.inl hq) hk).elim h1 h2
  redelivery q hq := by
    obtain ⟨h1, h2, h3⟩ := h.redelivery q (hredelivery q hq)
    refine ⟨fun hk => ?_, by rwa [Absent, habsent], fun hf => h3 (hflight q hf)⟩
    exact (hack q (Or.inr hq) hk).elim h1 h2
  requeued q hq := (hrequeued q hq).2 (h.requeued q (hrequeued q hq).1)
  indexed := hindex

theorem Sound.advanceAckFloor (h : s.Sound) : s.advanceAckFloor.Sound := by
  obtain ⟨floor, acked, heq, h1, h2, h3⟩ := s.advanceAckFloor_eq
  rw [heq]
  exact h.of_le (fun q hq => hq) (fun q hq => hq) (fun q hq => ⟨hq, id⟩) rfl
    (fun q _ hq => h2 q hq) (h.indexed.of_eq rfl rfl)

theorem Sound.acknowledge (h : s.Sound) (p : ℕ) : (s.acknowledge p).Sound := by
  have hindex := indexedInvariant.acknowledge h.indexed p
  obtain ⟨floor, acked, next, d, i, heq, h1, hnext, h2, h3⟩ := s.acknowledge_eq p
  rw [heq] at hindex ⊢
  refine h.of_le (fun q hq => ?_) (fun q hq => Finset.mem_of_mem_erase hq) (fun q hq => ?_) rfl
    (fun q hpend hq => ?_) hindex
  · grind
  · refine ⟨by grind, fun hr => Finset.mem_erase.2 ⟨by grind, hr⟩⟩
  · have hne : q ≠ p := by
      rintro rfl
      simp [Pending] at hpend
    rcases h2 q hq with hq | hq | hq
    · exact Or.inl hq
    · exact absurd hq hne
    · exact Or.inr hq

theorem Sound.dropThrough (h : s.Sound) (through : ℕ) : (s.dropThrough through).Sound := by
  have hindex := indexedInvariant.dropThrough h.indexed through
  obtain ⟨m, d, i, heq, hm⟩ := s.dropThrough_eq through
  rw [heq] at hindex ⊢
  refine h.of_le (fun q hq => ((hm q).1 hq).1) (fun q hq => (Finset.mem_filter.1 hq).1)
    (fun q hq => ?_) rfl (fun q hpend hq => ?_) hindex
  · have hmem : q ∈ s.requeuedUntil ∧ through < q := by
      simp only at hq
      grind
    exact ⟨hmem.1, fun hr => Finset.mem_filter.2 ⟨hr, hmem.2⟩⟩
  · have hlt : through < q := by
      rcases hpend with hpend | hpend
      · exact ((hm q).1 hpend).2
      · exact (Finset.mem_filter.1 hpend).2
    simp only [Acked, Finset.mem_filter, le_max_iff] at hq ⊢
    left
    rcases hq with (hq | hq) | hq
    · exact Or.inl hq
    · omega
    · exact Or.inr hq.1

/-- Deliveries that come back from flight may be offered again. -/
theorem Sound.of_returned (h : s.Sound) (returned : List ℕ)
    (hreturned : ∀ q ∈ returned, q ∈ s.inFlight)
    (hflight : ∀ q, q ∈ s'.inFlight ↔ q ∈ s.inFlight ∧ q ∉ returned)
    (hredelivery : ∀ q, q ∈ s'.redelivery ↔ q ∈ s.redelivery ∨ q ∈ returned)
    (hrequeued : ∀ q ∈ s'.requeuedUntil, q ∈ s.requeuedUntil ∨ q ∈ returned)
    (hack : ∀ q, s'.Acked q ↔ s.Acked q) (habsent : s'.absentRanges = s.absentRanges)
    (hindex : s'.Indexed) : s'.Sound where
  flight q hq := by
    rw [hack, Absent, habsent]
    exact h.flight q ((hflight q).1 hq).1
  redelivery q hq := by
    rw [hack, Absent, habsent, hflight]
    rcases (hredelivery q).1 hq with hq | hq
    · obtain ⟨h1, h2, h3⟩ := h.redelivery q hq
      exact ⟨h1, h2, fun hf => h3 hf.1⟩
    · obtain ⟨h1, h2⟩ := h.flight q (hreturned q hq)
      exact ⟨h1, h2, fun hf => hf.2 hq⟩
  requeued q hq := (hredelivery q).2 ((hrequeued q hq).imp_left (h.requeued q))
  indexed := hindex

theorem Returned.sound {returned : List ℕ} (h : Returned returned s s') (hs : s.Sound) : s'.Sound := by
  obtain ⟨r, a, m, d, i, n, heq⟩ := h.rest
  refine hs.of_returned returned (h.held hs.indexed) h.flight h.redelivery ?_ ?_ ?_ (h.indexed hs.indexed)
  all_goals rw [heq]
  · exact fun q hq => Or.inl hq
  · exact fun q => Iff.rfl

/-- Durable commands keep the invariant when a requeue names a position in flight. -/
theorem Sound.apply (h : s.Sound) {command : ChannelCommand} (held : s.Holds command) :
    (s.apply command).Sound := by
  cases command with
  | finish position messageId => exact h.acknowledge position
  | requeue position messageId available attempts count =>
    have hp : position ∈ s.inFlight := held _ _ _ _ _ rfl
    have hindex := indexedInvariant.apply h.indexed (.requeue position messageId available attempts count)
    obtain ⟨d, i, hrem⟩ := s.removeInFlight_eq position
    simp only [ChannelState.apply, hrem] at hindex ⊢
    refine h.of_returned [position] (by simpa using hp) ?_ ?_ ?_ (fun q => Iff.rfl) rfl hindex
    all_goals simp only [List.mem_singleton, Finset.mem_insert]
    all_goals grind
  | pause paused => exact ⟨h.flight, h.redelivery, h.requeued, h.indexed⟩
  | empty through => exact h.dropThrough through
  | evict through => exact h.dropThrough through
  | timeout count => exact ⟨h.flight, h.redelivery, h.requeued, h.indexed⟩

theorem Sound.settle (h : s.Sound) (hack : ¬s.Acked p) (hpresent : ¬s.Absent p)
    (hflight : p ∉ s.inFlight) (hredelivery : p ∉ s.redelivery) (handout : Handout) :
    (s.settle p handout).Sound := by
  cases handout with
  | reserve id ts deadline token =>
    refine ⟨fun q hq => ?_, fun q hq => ?_, h.requeued, h.indexed.reserve hflight id ts deadline token⟩
    · simp only [ChannelState.settle, reserveTimestamped] at hq
      by_cases hqp : q = p
      · subst hqp
        exact ⟨hack, hpresent⟩
      · exact h.flight q (by grind)
    · obtain ⟨h1, h2, h3⟩ := h.redelivery q hq
      refine ⟨h1, h2, fun hf => ?_⟩
      simp only [ChannelState.settle, reserveTimestamped] at hf
      have hqp : q ≠ p := fun hqp => hredelivery (hqp ▸ hq)
      exact h3 (by grind)
  | defer =>
    refine ⟨h.flight, fun q hq => ?_, fun q hq => Finset.mem_insert_of_mem (h.requeued q hq),
      h.indexed.of_eq rfl rfl⟩
    rcases Finset.mem_insert.1 hq with rfl | hq
    · exact ⟨hack, hpresent, hflight⟩
    · exact h.redelivery q hq

/-! ### What a call changes -/

/-- The answers of a topic whose missing messages are `gone`. -/
def Known (avail : ℕ → ℤ) (gone : Set ℕ) (p : ℕ) (answer : MessageAvailability) : Prop :=
  (∀ a, answer = .ready a → a = avail p) ∧ (answer = .absent → p ∈ gone)

/-- What an operation may acknowledge: positions that are absent or gone. -/
structure Extended (gone : Set ℕ) (before s : ChannelState) : Prop where
  absent : s.absentRanges = before.absentRanges
  kept : ∀ q, before.Acked q → s.Acked q
  acked : ∀ q, s.Acked q → before.Acked q ∨ before.Absent q ∨ q ∈ gone

/-- What an operation makes of a sound state. -/
structure Grown (gone : Set ℕ) (before s : ChannelState) : Prop extends Extended gone before s where
  sound : s.Sound

/-- The relation between the state before a call and a state inside it.  A position leaves
the redelivery set only when it is acknowledged or absent. -/
structure Since (gone : Set ℕ) (before s : ChannelState) : Prop extends Grown gone before s where
  gap : s.maxAckGap = before.maxAckGap
  fewer : ∀ q ∈ s.redelivery, q ∈ before.redelivery
  redelivery : ∀ q ∈ before.redelivery,
    (q ∈ s.redelivery ∧ s.requeuedUntil[q]? = before.requeuedUntil[q]?) ∨ s.Acked q ∨ s.Absent q

theorem Extended.refl (s : ChannelState) (gone : Set ℕ) : Extended gone s s :=
  ⟨rfl, fun _ h => h, fun _ h => Or.inl h⟩

theorem Grown.refl (h : s.Sound) (gone : Set ℕ) : Grown gone s s := ⟨.refl s gone, h⟩

theorem Since.refl (h : s.Sound) (gone : Set ℕ) : Since gone s s :=
  ⟨Grown.refl h gone, rfl, fun _ h => h, fun _ hq => Or.inl ⟨hq, rfl⟩⟩

/-- Moving the cursor or the rewind point leaves all of this alone. -/
theorem Since.cursor (h : Since gone s t) (next : ℕ) (deferred : Option (ℕ × ℤ)) :
    Since gone s { t with nextPosition := next, deferredScan := deferred } :=
  ⟨⟨⟨h.absent, h.kept, h.acked⟩, ⟨h.sound.flight, h.sound.redelivery, h.sound.requeued, h.sound.indexed⟩⟩,
    h.gap, h.fewer, h.redelivery⟩

theorem Since.rewind (h : s.Sound) (nowMs : ℤ) : Since gone s (s.rewind nowMs) := by
  unfold ChannelState.rewind
  split
  · exact Since.refl h gone
  · split_ifs
    · exact (Since.refl h gone).cursor _ _
    · exact Since.refl h gone

theorem Extended.advanceAckFloor (h : Extended gone s t) : Extended gone s t.advanceAckFloor := by
  obtain ⟨floor, acked, heq, h1, h2, h3⟩ := t.advanceAckFloor_eq
  rw [heq]
  refine ⟨h.absent, fun q hq => h3 q (h.kept q hq), fun q hq => ?_⟩
  rcases h2 q hq with hq | hq
  · exact h.acked q hq
  · exact Or.inr (Or.inl (by rwa [Absent, ← h.absent]))

theorem Since.advanceAckFloor (h : Since gone s t) : Since gone s t.advanceAckFloor := by
  have hgrown : Grown gone s t.advanceAckFloor := ⟨h.toExtended.advanceAckFloor, h.sound.advanceAckFloor⟩
  obtain ⟨floor, acked, heq, h1, h2, h3⟩ := t.advanceAckFloor_eq
  rw [heq] at hgrown ⊢
  refine ⟨hgrown, h.gap, h.fewer, fun q hq => ?_⟩
  rcases h.redelivery q hq with hq | hq | hq
  · exact Or.inl hq
  · exact Or.inr (Or.inl (h3 q hq))
  · exact Or.inr (Or.inr hq)

theorem Extended.acknowledge (h : Extended gone s t) (hp : p ∈ gone) :
    Extended gone s (t.acknowledge p) := by
  obtain ⟨floor, acked, next, d, i, heq, h1, hnext, h2, h3⟩ := t.acknowledge_eq p
  rw [heq]
  refine ⟨h.absent, fun q hq => h3 q (Or.inl (h.kept q hq)), fun q hq => ?_⟩
  rcases h2 q hq with hq | rfl | hq
  · exact h.acked q hq
  · exact Or.inr (Or.inr hp)
  · exact Or.inr (Or.inl (by rwa [Absent, ← h.absent]))

theorem Since.acknowledge (h : Since gone s t) (hp : p ∈ gone) : Since gone s (t.acknowledge p) := by
  have hgrown : Grown gone s (t.acknowledge p) := ⟨h.toExtended.acknowledge hp, h.sound.acknowledge p⟩
  obtain ⟨floor, acked, next, d, i, heq, h1, hnext, h2, h3⟩ := t.acknowledge_eq p
  rw [heq] at hgrown ⊢
  refine ⟨hgrown, h.gap, fun q hq => h.fewer q (Finset.mem_of_mem_erase hq), fun q hq => ?_⟩
  by_cases hqp : q = p
  · exact Or.inr (Or.inl (h3 q (Or.inr hqp)))
  · rcases h.redelivery q hq with ⟨hr, hget⟩ | hq | hq
    · exact Or.inl ⟨Finset.mem_erase.2 ⟨hqp, hr⟩, by grind⟩
    · exact Or.inr (Or.inl (h3 q (Or.inl hq)))
    · exact Or.inr (Or.inr hq)

/-- Taking a position out of the redelivery set together with its deadline. -/
theorem Sound.erase (h : t.Sound) (p : ℕ) (attempts : Std.ExtTreeMap ℕ ℕ) :
    Sound { t with
      redelivery := t.redelivery.erase p
      requeuedUntil := t.requeuedUntil.erase p
      attempts := attempts } where
  flight := h.flight
  redelivery q hq := h.redelivery q (Finset.mem_of_mem_erase hq)
  requeued q hq := by
    have hq' : q ∈ t.requeuedUntil.erase p := hq
    exact Finset.mem_erase.2 ⟨by grind, h.requeued q (by grind)⟩
  indexed := h.indexed.of_eq rfl rfl

theorem Since.dropAbsent (h : Since gone s t) (hp : t.Absent p) : Since gone s (t.dropAbsent p) := by
  refine Since.advanceAckFloor ⟨⟨⟨h.absent, h.kept, h.acked⟩, h.sound.erase p _⟩, h.gap,
    fun q hq => h.fewer q (Finset.mem_of_mem_erase hq), fun q hq => ?_⟩
  by_cases hqp : q = p
  · exact Or.inr (Or.inr (hqp ▸ hp))
  · refine (h.redelivery q hq).imp_left fun ⟨hr, hget⟩ => ⟨Finset.mem_erase.2 ⟨hqp, hr⟩, ?_⟩
    grind

variable {answers : ℕ → MessageAvailability → Prop} {availableAt : σ → ℕ → MessageAvailability × σ}

section Search

variable (hgone : ∀ p, answers p .absent → p ∈ gone) (hanswers : Admissible answers availableAt)
include hgone hanswers

theorem since_redelivery {nowMs : ℤ} :
    RedeliveryInvariant nowMs availableAt fun _ t _ => Since gone s t where
  drop h _ habsent := h.dropAbsent habsent
  wait h _ _ _ := h
  later h _ _ _ _ := h
  gone h _ _ hanswer := h.acknowledge (hgone _ (hanswers.answer hanswer))

theorem since_cursor {nowMs : ℤ} {last : ℕ} :
    CursorInvariant nowMs last availableAt fun t _ => Since gone s t where
  jump {t _ last} h _ _ := (h.cursor (satSucc last) t.deferredScan).advanceAckFloor
  skip {t _} h _ _ _ := h.cursor (satSucc t.nextPosition) t.deferredScan
  gone {t _ _} h _ _ _ hanswer :=
    (h.cursor (satSucc t.nextPosition) t.deferredScan).acknowledge (hgone _ (hanswers.answer hanswer))
  later {t _ _ _} h _ _ _ _ _ := h.cursor (satSucc t.nextPosition) _

/-! ### What a call answers -/

theorem nextCandidate_since {nowMs : ℤ} {last : ℕ} {e e' : σ} {candidate : NextCandidate}
    (hs : s.Sound) (hrun : s.paused = false)
    (h : s.nextCandidate nowMs last availableAt e = some (candidate, s', e')) :
    RedeliveryStop nowMs availableAt (fun _ t _ => Since gone s t) (some candidate) s' e' ∨
      CursorStop nowMs last availableAt (fun t _ => Since gone s t) candidate s' e' :=
  nextCandidate_rule (since_redelivery hgone hanswers) (since_cursor hgone hanswers)
    (fun _ _ _ h _ => h) hrun (Since.rewind hs nowMs) h

end Search

/-- Everything that makes a ready position deliverable: `before` is the state the call
started in and `after` the state it returns with the position. -/
structure Deliverable (avail : ℕ → ℤ) (nowMs : ℤ) (last p : ℕ) (before after : ChannelState) :
    Prop where
  running : before.paused = false
  unacked : ¬after.Acked p
  present : ¬after.Absent p
  free : p ∉ after.inFlight
  taken : p ∉ after.redelivery
  deadline : ∀ deadline, before.requeuedUntil[p]? = some deadline → deadline ≤ nowMs
  available : avail p ≤ nowMs
  reach : p ∈ before.redelivery ∨ p ≤ last ∧ after.presentDistance p ≤ after.maxAckGap

section Answer

variable {nowMs : ℤ} {last : ℕ} {e e' : σ} {candidate : NextCandidate} (hs : s.Sound)
include hs

/-- A ready position is deliverable, with the time that the lookup said. -/
theorem Sound.found (hgone : ∀ p, answers p .absent → p ∈ gone)
    (hanswers : Admissible answers availableAt)
    (h : s.nextCandidate nowMs last availableAt e = some (.ready p, s', e')) :
    ∃ a, answers p (.ready a) ∧ Deliverable (fun _ => a) nowMs last p s s' ∧ Grown gone s s' := by
  cases hrun : s.paused with
  | true => cases (nextCandidate_paused hrun h).1
  | false =>
    rcases nextCandidate_since hgone hanswers hs hrun h with hstop | hstop
    · cases hstop with
      | @taken c t e₀ _ a _ inv next present due answer available =>
        have hmem : p ∈ t.redelivery := (mem_above.1 (nextAfter_mem next)).1
        obtain ⟨hack, hpresent, hflight⟩ := inv.sound.redelivery p hmem
        have hdeadline : t.requeuedUntil[p]? = s.requeuedUntil[p]? := by
          rcases inv.redelivery p (inv.fewer p hmem) with hkeep | hdone | hdone
          · exact hkeep.2
          · exact absurd hdone hack
          · exact absurd hdone hpresent
        refine ⟨a, hanswers.answer answer, ⟨hrun, hack, hpresent, hflight, Finset.notMem_erase _ _,
          fun d hd => ?_, available, Or.inl (inv.fewer p hmem)⟩, ⟨inv.absent, inv.kept, inv.acked⟩,
          inv.sound.erase p _⟩
        rw [hdeadline, hd] at due
        exact due
    · cases hstop with
      | @taken t e₀ a _ inv bound present fresh room answer available =>
        simp only [skips, not_or] at fresh
        have hack : ¬t.Acked t.nextPosition := by
          simp only [Acked, not_or]
          exact ⟨fresh.1, fresh.2.1⟩
        have hgrown := (inv.cursor (satSucc t.nextPosition) t.deferredScan).toGrown
        refine ⟨a, hanswers.answer answer, ⟨hrun, hack, present, fresh.2.2.1, fresh.2.2.2,
          fun d hd => ?_, available, Or.inr ⟨bound, room⟩⟩, hgrown⟩
        -- a recorded deadline would put the position in the redelivery set of the call
        have hredelivery := hs.requeued t.nextPosition (by grind)
        rcases inv.redelivery _ hredelivery with hkeep | hdone | hdone
        · exact absurd hkeep.1 fresh.2.2.2
        · exact absurd hdone hack
        · exact absurd hdone present

/-- **A ready position is deliverable.** -/
theorem Sound.ready (hknown : Admissible (Known avail gone) availableAt)
    (h : s.nextCandidate nowMs last availableAt e = some (.ready p, s', e')) :
    Deliverable avail nowMs last p s s' ∧ Grown gone s s' := by
  obtain ⟨a, ha, hd, hg⟩ := hs.found (fun p hp => hp.2 rfl) hknown h
  exact ⟨{ hd with available := ha.1 a rfl ▸ hd.available }, hg⟩

theorem Sound.idle (hgone : ∀ p, answers p .absent → p ∈ gone)
    (hanswers : Admissible answers availableAt)
    (h : s.nextCandidate nowMs last availableAt e = some (candidate, s', e'))
    (hnot : ∀ position, candidate ≠ .ready position) : Grown gone s s' := by
  cases hrun : s.paused with
  | true =>
    rw [(nextCandidate_paused hrun h).2]
    exact Grown.refl hs gone
  | false =>
    rcases nextCandidate_since hgone hanswers hs hrun h with hstop | hstop
    · cases hstop with
      | taken => exact absurd rfl (hnot _)
      | unloaded inv => exact inv.toGrown
    · cases hstop with
      | passed inv => exact inv.toGrown
      | window inv => exact inv.toGrown
      | unloaded inv => exact inv.toGrown
      | taken => exact absurd rfl (hnot _)

end Answer

theorem Returned.extended {returned : List ℕ} (h : Returned returned s s') (gone : Set ℕ) :
    Extended gone s s' := by
  obtain ⟨r, a, m, d, i, n, rfl⟩ := h.rest
  exact ⟨rfl, fun _ hq => hq, fun _ hq => Or.inl hq⟩

theorem Extended.settle (h : Extended gone s t) (p : ℕ) (handout : Handout) :
    Extended gone s (t.settle p handout) := by
  cases handout <;> exact ⟨h.absent, h.kept, h.acked⟩

/-- **An operation outside the log keeps the invariant, and acknowledges only what is absent
or gone.** -/
theorem LocalStep.grows (h : LocalStep answers s s') (hgone : ∀ p, answers p .absent → p ∈ gone)
    (hs : s.Sound) : Grown gone s s' := by
  rcases h.kinds with hsearch | ⟨returned, hback⟩
  · cases hsearch with
    | deliver handout admissible answer =>
      obtain ⟨a, -, hd, hg⟩ := hs.found hgone admissible answer
      exact ⟨hg.toExtended.settle _ handout,
        hg.sound.settle hd.unacked hd.present hd.free hd.taken handout⟩
    | idle admissible answer notReady => exact hs.idle hgone admissible answer notReady
  · exact ⟨hback.extended gone, hback.sound hs⟩

theorem LocalStep.grown (h : LocalStep (Known avail gone) s s') (hs : s.Sound) : Grown gone s s' :=
  h.grows (fun _ hp => hp.2 rfl) hs

/-! ### Operations on any state -/

/-- A search acknowledges only what is absent or gone, also where the state is not sound. -/
theorem nextCandidate_extended {nowMs : ℤ} {last : ℕ} {e e' : σ} {candidate : NextCandidate}
    (hanswers : Admissible (Known avail gone) availableAt)
    (h : s.nextCandidate nowMs last availableAt e = some (candidate, s', e')) : Extended gone s s' := by
  have hgone : ∀ {e e' : σ} {p}, availableAt e p = (.absent, e') → p ∈ gone := fun hanswer =>
    (hanswers.answer hanswer).2 rfl
  have hR : RedeliveryInvariant nowMs availableAt fun _ t (_ : σ) => Extended gone s t :=
    { drop := fun h _ _ => Extended.advanceAckFloor ⟨h.absent, h.kept, h.acked⟩
      wait := fun h _ _ _ => h
      later := fun h _ _ _ _ => h
      gone := fun h _ _ hanswer => h.acknowledge (hgone hanswer) }
  have hC : CursorInvariant nowMs last availableAt fun t (_ : σ) => Extended gone s t :=
    { jump := fun h _ _ => Extended.advanceAckFloor ⟨h.absent, h.kept, h.acked⟩
      skip := fun h _ _ _ => ⟨h.absent, h.kept, h.acked⟩
      gone := fun h _ _ _ hanswer =>
        Extended.acknowledge ⟨h.absent, h.kept, h.acked⟩ (hgone hanswer)
      later := fun h _ _ _ _ _ => ⟨h.absent, h.kept, h.acked⟩ }
  have hrewind : Extended gone s (s.rewind nowMs) := by
    unfold ChannelState.rewind
    split
    · exact .refl s gone
    · split_ifs <;> exact ⟨rfl, fun _ hq => hq, fun _ hq => Or.inl hq⟩
  cases hrun : s.paused with
  | true =>
    rw [(nextCandidate_paused hrun h).2]
    exact .refl s gone
  | false =>
    rcases nextCandidate_rule hR hC (fun _ _ _ h _ => h) hrun hrewind h with hstop | hstop
    · cases hstop with
      | taken inv | unloaded inv => exact ⟨inv.absent, inv.kept, inv.acked⟩
    · cases hstop with
      | passed inv | window inv | unloaded inv | taken inv => exact ⟨inv.absent, inv.kept, inv.acked⟩

theorem LocalStep.extended (h : LocalStep (Known avail gone) s s') : Extended gone s s' := by
  rcases h.kinds with hsearch | ⟨returned, hback⟩
  · cases hsearch with
    | deliver handout admissible answer => exact (nextCandidate_extended admissible answer).settle _ handout
    | idle admissible answer _ => exact nextCandidate_extended admissible answer
  · exact hback.extended gone

end ChannelState

end RustQueue.Channel
