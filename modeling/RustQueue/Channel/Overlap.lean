import RustQueue.Channel.World
import RustQueue.Channel.Identity
import RustQueue.Lib.Result

/-!
# An old log over a newer checkpoint

A crash between the rename of a checkpoint and the truncation of the log makes a recovery replay
commands that the checkpoint already reflects.  `Journal` is a live channel with the commands issued
since the last truncation and the positions whose messages the topic no longer holds.  The topic
takes a message away only below the floor of the channel, so what is in flight is still there.

`Journal.reflected` collects what the live state has in common with its log: whatever a command
covers is acknowledged, no counter of a command is above the live one, and whatever the log alone
would offer again is still unacknowledged.
-/

namespace RustQueue.Channel

open Lib ChannelCommand

/-- A requeue that carries no count of its own is not cumulative. -/
def ChannelCommand.Cumulative : ChannelCommand → Prop
  | .requeue _ _ _ _ none => False
  | _ => True

namespace ChannelState

variable {s s' t : ChannelState} {avail : ℕ → ℤ} {gone : Set ℕ} {q : ℕ}

/-- The answers of a topic that finds exactly the messages not in `gone`. -/
def Found (avail : ℕ → ℤ) (gone : Set ℕ) (p : ℕ) (answer : MessageAvailability) : Prop :=
  (∀ a, answer = .ready a → a = avail p ∧ p ∉ gone) ∧ (answer = .absent → p ∈ gone)

/-! ### What a search for a candidate leaves alone -/

/-- Counters and the pause flag are untouched, and nothing new is in flight. -/
structure Untouched (s s' : ChannelState) : Prop where
  paused : s'.paused = s.paused
  requeues : s'.requeueCount = s.requeueCount
  timeouts : s'.timeoutCount = s.timeoutCount
  flight : ∀ q ∈ s'.inFlight, q ∈ s.inFlight

theorem Untouched.refl (s : ChannelState) : Untouched s s := ⟨rfl, rfl, rfl, fun _ h => h⟩

theorem Untouched.trans (h : Untouched s s') (h' : Untouched s' t) : Untouched s t :=
  ⟨h'.paused.trans h.paused, h'.requeues.trans h.requeues, h'.timeouts.trans h.timeouts,
    fun q hq => h.flight q (h'.flight q hq)⟩

theorem untouched_advanceAckFloor (s : ChannelState) : Untouched s s.advanceAckFloor := by
  obtain ⟨floor, acked, heq, -⟩ := s.advanceAckFloor_eq
  rw [heq]
  exact ⟨rfl, rfl, rfl, fun _ h => h⟩

theorem untouched_acknowledge (s : ChannelState) (p : ℕ) : Untouched s (s.acknowledge p) := by
  obtain ⟨floor, acked, next, d, i, heq, -⟩ := s.acknowledge_eq p
  rw [heq]
  exact ⟨rfl, rfl, rfl, fun q hq => Std.ExtTreeMap.mem_of_mem_erase hq⟩

theorem untouchedInvariant (s : ChannelState) : SearchInvariant (Untouched s) where
  cursor h _ _ := h.trans ⟨rfl, rfl, rfl, fun _ h => h⟩
  forget h _ _ := h.trans ⟨rfl, rfl, rfl, fun _ h => h⟩
  advance h := h.trans (untouched_advanceAckFloor _)
  acknowledge h _ := h.trans (untouched_acknowledge _ _)

/-- An operation outside the log moves neither the pause flag nor the requeue counter, and takes
only messages in flight that the topic has. -/
structure Quiet (gone : Set ℕ) (s s' : ChannelState) : Prop where
  paused : s'.paused = s.paused
  requeues : s'.requeueCount = s.requeueCount
  flight : ∀ q ∈ s'.inFlight, q ∈ s.inFlight ∨ q ∉ gone

theorem Untouched.quiet (h : Untouched s s') : Quiet gone s s' :=
  ⟨h.paused, h.requeues, fun q hq => Or.inl (h.flight q hq)⟩

theorem LocalStep.quiet (h : LocalStep (Found avail gone) s s') : Quiet gone s s' := by
  rcases h.kinds with hsearch | ⟨returned, hback⟩
  · cases hsearch with
    | @deliver t _ _ _ _ _ _ position handout admissible answer =>
      have hsame := s.untouchedInvariant.nextCandidate (.refl s) answer
      cases handout with
      | reserve id timestampNs deadline token =>
        refine ⟨hsame.paused, hsame.requeues, fun q hq => ?_⟩
        by_cases hqp : q = position
        · refine Or.inr (hqp ▸ ?_)
          cases searchInvariant_true.stop trivial answer with
          | redelivered _ _ found | fresh _ _ found => exact ((admissible.answer found).1 _ rfl).2
        · refine Or.inl (hsame.flight q ?_)
          have hq' : q ∈ t.inFlight.insert position ⟨id, timestampNs, deadline, token⟩ := hq
          grind
      | defer => exact ⟨hsame.paused, hsame.requeues, fun q hq => Or.inl (hsame.flight q hq)⟩
    | idle _ answer => exact (s.untouchedInvariant.nextCandidate (.refl s) answer).quiet
  · have hflight : ∀ q ∈ s'.inFlight, q ∈ s.inFlight := fun q hq => ((hback.flight q).1 hq).1
    obtain ⟨r, a, m, d, i, n, rfl⟩ := hback.rest
    exact ⟨rfl, rfl, fun q hq => Or.inl (hflight q hq)⟩

/-! ### Counters of a command -/

/-- The counters a command carries are at most those of the state. -/
def Counts (s : ChannelState) : ChannelCommand → Prop
  | .requeue _ _ _ _ (some count) => count ≤ s.requeueCount
  | .timeout count => count ≤ s.timeoutCount
  | _ => True

/-- No counter of the first state is above that of the second. -/
structure CountersLe (s s' : ChannelState) : Prop where
  requeues : s.requeueCount ≤ s'.requeueCount
  timeouts : s.timeoutCount ≤ s'.timeoutCount

theorem Counts.mono {command : ChannelCommand} (h : s.Counts command) (hle : CountersLe s s') :
    s'.Counts command := by
  cases command with
  | requeue position messageId available attempts count =>
    cases count with
    | none => trivial
    | some count => exact h.trans hle.requeues
  | timeout count => exact h.trans hle.timeouts
  | finish | pause | empty | evict => trivial

/-- What one command does to the counters and to the pause flag. -/
theorem apply_counters (s : ChannelState) (command : ChannelCommand) :
    CountersLe s (s.apply command) ∧ (s.apply command).Counts command ∧
      (s.Counts command → (s.apply command).timeoutCount = s.timeoutCount ∧
        (command.Cumulative → (s.apply command).requeueCount = s.requeueCount)) := by
  cases command with
  | finish position messageId =>
    have h := untouched_acknowledge s position
    exact ⟨⟨h.requeues.ge, h.timeouts.ge⟩, trivial, fun _ => ⟨h.timeouts, fun _ => h.requeues⟩⟩
  | requeue position messageId available attempts count =>
    obtain ⟨d, i, hrem⟩ := s.removeInFlight_eq position
    simp only [apply, hrem]
    cases count with
    | some count =>
      exact ⟨⟨le_max_left _ _, le_rfl⟩, le_max_right _ _, fun h => ⟨trivial, fun _ => max_eq_left h⟩⟩
    | none =>
      refine ⟨⟨?_, le_rfl⟩, trivial, fun _ => ⟨trivial, fun h => h.elim⟩⟩
      split_ifs
      · exact le_rfl
      · exact le_satSucc _
  | pause paused => exact ⟨⟨le_rfl, le_rfl⟩, trivial, fun _ => ⟨rfl, fun _ => rfl⟩⟩
  | empty through | evict through =>
    obtain ⟨m, d, i, heq, -⟩ := s.dropThrough_eq through
    simp only [apply, heq]
    exact ⟨⟨le_rfl, le_rfl⟩, trivial, fun _ => ⟨trivial, fun _ => trivial⟩⟩
  | timeout count =>
    exact ⟨⟨le_rfl, le_max_left _ _⟩, le_max_right _ _, fun h => ⟨max_eq_left h, fun _ => rfl⟩⟩

theorem apply_paused (s : ChannelState) (command : ChannelCommand) :
    (∃ paused, command = .pause paused) ∨ (s.apply command).paused = s.paused := by
  cases command with
  | finish position messageId => exact Or.inr (untouched_acknowledge s position).paused
  | requeue position messageId available attempts count =>
    obtain ⟨d, i, hrem⟩ := s.removeInFlight_eq position
    exact Or.inr (by simp only [apply, hrem])
  | pause paused => exact Or.inl ⟨paused, rfl⟩
  | empty through | evict through =>
    obtain ⟨m, d, i, heq, -⟩ := s.dropThrough_eq through
    exact Or.inr (by simp only [apply, heq])
  | timeout count => exact Or.inr rfl

/-- Commands that the counters already reflect do not move them. -/
theorem replay_counters {commands : List ChannelCommand} (h : ∀ c ∈ commands, s.Counts c) :
    CountersLe s (s.replay commands) ∧ (s.replay commands).timeoutCount = s.timeoutCount ∧
      ((∀ c ∈ commands, c.Cumulative) → (s.replay commands).requeueCount = s.requeueCount) := by
  induction commands using List.reverseRecOn with
  | nil => exact ⟨⟨le_rfl, le_rfl⟩, rfl, fun _ => rfl⟩
  | append_singleton commands command ih =>
    obtain ⟨hle, htimeout, hrequeue⟩ := ih fun c hc => h c (List.mem_append_left _ hc)
    have hlast : command ∈ commands ++ [command] := List.mem_append_right _ (List.mem_singleton_self _)
    obtain ⟨hstep, -, hsame⟩ := (s.replay commands).apply_counters command
    obtain ⟨htimeout', hrequeue'⟩ := hsame ((h command hlast).mono hle)
    rw [replay_append]
    refine ⟨⟨hle.requeues.trans hstep.requeues, hle.timeouts.trans hstep.timeouts⟩,
      htimeout'.trans htimeout, fun hall => ?_⟩
    exact (hrequeue' (hall command hlast)).trans
      (hrequeue fun c hc => hall c (List.mem_append_left _ hc))

end ChannelState

/-! ### Journals -/

open ChannelState

/-- A live channel, the positions whose messages the topic does not hold, and the commands issued
since it was opened or the log was last emptied.  A recovered channel starts with no commands here although
its log may still hold the ones it was recovered from. -/
inductive Journal (avail : ℕ → ℤ) : ChannelState → Set ℕ → List ChannelCommand → Prop
  | opened {w : World} (h : World.Reachable avail w) (idle : ∀ q, q ∉ w.state.inFlight) :
      Journal avail w.state w.gone []
  | remove {s : ChannelState} {gone gone' : Set ℕ} {log : List ChannelCommand}
      (h : Journal avail s gone log)
      (settled : ∀ p ∈ gone', p ∈ gone ∨ p ≤ s.ackFloorPosition) : Journal avail s gone' log
  | inMemory {s s' : ChannelState} {gone : Set ℕ} {log : List ChannelCommand}
      (h : Journal avail s gone log) (step : LocalStep (Found avail gone) s s')
      (counted : s.timeoutCount ≤ s'.timeoutCount) : Journal avail s' gone log
  | issue {s : ChannelState} {gone : Set ℕ} {log : List ChannelCommand}
      (h : Journal avail s gone log) (command : ChannelCommand) (held : s.Holds command) :
      Journal avail (s.apply command) gone (log ++ [command])
  | truncate {s : ChannelState} {gone : Set ℕ} {log : List ChannelCommand}
      (h : Journal avail s gone log) : Journal avail s gone []

/-- What the live state reflects of its log. -/
structure Reflected (s : ChannelState) (gone : Set ℕ) (log : List ChannelCommand) : Prop where
  sound : s.Sound
  identified : ∃ name barrierPosition, s.Identified name barrierPosition
  flight : ∀ q ∈ s.inFlight, q ∉ gone
  covered : ∀ command ∈ log, ∀ q, command.Covers q → s.Acked q
  counts : ∀ command ∈ log, s.Counts command
  paused : ∀ t : ChannelState, t.paused = s.paused → (t.replay log).paused = s.paused
  offered : ∀ q ∈ ((new "" 0 false 0).replay log).requeuedUntil,
    ¬s.Acked q ∧ ¬s.Absent q ∧ q ∉ gone

section Reflected

/-- A recovered channel has the identity of its checkpoint. -/
theorem identified_recover {checkpoint : ChannelCheckpoint} {maxAckGap : ℕ}
    {commands : List ChannelCommand} {recorded all : Ranges} {s : ChannelState}
    {availableAt : ℕ → Except BrokerError (Option ℤ)}
    (h : recover checkpoint maxAckGap commands recorded availableAt all = .ok s) :
    s.Identified checkpoint.name checkpoint.barrierPosition := by
  obtain ⟨loaded, hload, -⟩ := bind_eq_ok.1 h
  obtain ⟨t, hcompact, rfl⟩ := recover_eq h
  have hloaded := identified_load hload
  have hreplayed := hloaded.later (later_replay _ commands)
  have hrecorded := hreplayed.later (later_setAbsentRanges _ recorded)
  have hcompacted := hrecorded.later (later_compactRecoveredDpubs hcompact)
  exact hcompacted.later (later_setAbsentRanges _ all)

variable {s s' : ChannelState} {avail : ℕ → ℤ} {gone gone' : Set ℕ} {log : List ChannelCommand}

theorem World.Reachable.identified {w : World} (h : World.Reachable avail w) :
    ∃ name barrierPosition, w.state.Identified name barrierPosition := by
  induction h with
  | created name barrier ephemeral gap ranges =>
    exact ⟨name, barrier, (identified_new name barrier ephemeral gap).later
      (later_setAbsentRanges _ ranges)⟩
  | step _ step ih =>
    obtain ⟨name, barrier, hidentified⟩ := ih
    cases step with
    | lose | sync | checkpoint | truncate => exact ⟨name, barrier, hidentified⟩
    | inMemory h => exact ⟨name, barrier, hidentified.later h.later⟩
    | append command => exact ⟨name, barrier, hidentified.later (later_apply _ command)⟩
    | crash _ _ _ _ opened => exact ⟨_, _, identified_recover opened⟩

theorem Reflected.truncate (h : Reflected s gone log) : Reflected s gone [] :=
  ⟨h.sound, h.identified, h.flight, fun _ hc => absurd hc List.not_mem_nil,
    fun _ hc => absurd hc List.not_mem_nil, fun _ ht => ht, fun q hq => by simp [replay, new] at hq⟩

theorem Reflected.remove (h : Reflected s gone log)
    (settled : ∀ p ∈ gone', p ∈ gone ∨ p ≤ s.ackFloorPosition) : Reflected s gone' log := by
  refine ⟨h.sound, h.identified, fun q hq hgone => ?_, h.covered, h.counts, h.paused,
    fun q hq => ?_⟩
  · rcases settled q hgone with hgone | hle
    · exact h.flight q hq hgone
    · exact (h.sound.flight q hq).1 (Or.inl hle)
  · obtain ⟨hack, habsent, hfound⟩ := h.offered q hq
    exact ⟨hack, habsent, fun hgone => (settled q hgone).elim hfound fun hle => hack (Or.inl hle)⟩

theorem Reflected.inMemory (h : Reflected s gone log) (step : LocalStep (Found avail gone) s s')
    (counted : s.timeoutCount ≤ s'.timeoutCount) : Reflected s' gone log := by
  have hgrown := step.grows (fun p hp => hp.2 rfl) h.sound
  have hquiet := step.quiet
  obtain ⟨name, barrier, hidentified⟩ := h.identified
  refine ⟨hgrown.sound, ⟨name, barrier, hidentified.later step.later⟩, fun q hq => ?_,
    fun c hc q hq => hgrown.kept q (h.covered c hc q hq),
    fun c hc => (h.counts c hc).mono ⟨hquiet.requeues.ge, counted⟩, fun t ht => ?_, fun q hq => ?_⟩
  · exact (hquiet.flight q hq).elim (h.flight q) id
  · rw [hquiet.paused] at ht ⊢
    exact h.paused t ht
  · obtain ⟨hack, habsent, hfound⟩ := h.offered q hq
    refine ⟨fun hq' => ?_, by rwa [Absent, hgrown.absent], hfound⟩
    rcases hgrown.acked q hq' with hq' | hq' | hq'
    · exact hack hq'
    · exact habsent hq'
    · exact hfound hq'

theorem Reflected.issue (h : Reflected s gone log) {command : ChannelCommand}
    (held : s.Holds command) : Reflected (s.apply command) gone (log ++ [command]) := by
  obtain ⟨name, barrier, hidentified⟩ := h.identified
  obtain ⟨hle, hcounts, -⟩ := s.apply_counters command
  have hacked := fun q => s.apply_acked command q
  have habsent : (s.apply command).absentRanges = s.absentRanges := s.apply_absentRanges command
  refine ⟨h.sound.apply held, ⟨name, barrier, hidentified.later (later_apply s command)⟩,
    fun q hq => h.flight q ((flightsFrom_apply s command).mem hq), fun c hc q hq => ?_,
    fun c hc => ?_, fun t ht => ?_, fun q hq => ?_⟩
  · rcases List.mem_append.1 hc with hc | hc
    · exact (hacked q).1 (Or.inl (h.covered c hc q hq))
    · exact (hacked q).1 (Or.inr (List.mem_singleton.1 hc ▸ hq))
  · rcases List.mem_append.1 hc with hc | hc
    · exact (h.counts c hc).mono hle
    · exact List.mem_singleton.1 hc ▸ hcounts
  · rw [replay_append]
    rcases (t.replay log).apply_paused command with ⟨paused, rfl⟩ | hsame
    · rfl
    rcases s.apply_paused command with ⟨paused, rfl⟩ | hsame'
    · rfl
    rw [hsame, hsame']
    exact h.paused t (ht.trans hsame')
  · rw [replay_append, apply_requeued] at hq
    rw [Absent, habsent]
    rcases hq with ⟨hq, hcovers⟩ | hq
    · obtain ⟨hack, hpresent, hfound⟩ := h.offered q hq
      refine ⟨fun hq' => ?_, hpresent, hfound⟩
      rcases (hacked q).2 hq' with hq' | hq' | hq'
      · exact hack hq'
      · exact hcovers hq'
      · exact hpresent hq'
    · have hflight := held.inFlight hq
      obtain ⟨hack, hpresent⟩ := h.sound.flight q hflight
      refine ⟨fun hq' => ?_, hpresent, h.flight q hflight⟩
      rcases (hacked q).2 hq' with hq' | hq' | hq'
      · exact hack hq'
      · exact hq.not_covers hq'
      · exact hpresent hq'

theorem Journal.reflected (h : Journal avail s gone log) : Reflected s gone log := by
  induction h with
  | opened h idle =>
    exact ⟨h.inv.sound, h.identified, fun q hq => absurd hq (idle q),
      fun _ hc => absurd hc List.not_mem_nil, fun _ hc => absurd hc List.not_mem_nil, fun _ ht => ht,
      fun q hq => by simp [replay, new] at hq⟩
  | remove _ settled ih => exact ih.remove settled
  | inMemory _ step counted ih => exact ih.inMemory step counted
  | issue _ command held ih => exact ih.issue held
  | truncate _ ih => exact ih.truncate

end Reflected

/-- **An old log over a newer checkpoint is harmless.**  The checkpoint of a live channel is
accepted, and replaying the commands since the last truncation over it acknowledges the same
positions, keeps the pause flag and the counters, and offers again only what is unacknowledged, so
no acknowledged message is delivered again. -/
theorem replay_over_checkpoint {avail : ℕ → ℤ} {s : ChannelState} {gone : Set ℕ}
    {log : List ChannelCommand} (h : Journal avail s gone log) (maxAckGap : ℕ) :
    ∃ loaded, fromCheckpoint s.checkpoint maxAckGap = .ok loaded ∧
      (∀ p, (loaded.replay log).isUnacknowledged p = s.isUnacknowledged p) ∧
      (loaded.replay log).paused = s.paused ∧
      (loaded.replay log).timeoutCount = s.timeoutCount ∧
      ((∀ command ∈ log, command.Cumulative) →
        (loaded.replay log).requeueCount = s.requeueCount) ∧
      (∀ p, p ∈ (loaded.replay log).requeuedUntil ∨ p ∈ (loaded.replay log).redelivery →
        (loaded.replay log).isUnacknowledged p = true) ∧
      ∀ (σ : Type) (availableAt : σ → ℕ → MessageAvailability × σ) (e e' : σ) (nowMs : ℤ)
        (lastPosition p : ℕ) (s' : ChannelState), Admissible (Known avail gone) availableAt →
        (loaded.replay log).nextCandidate nowMs lastPosition availableAt e =
          some (.ready p, s', e') → s.isUnacknowledged p = true := by
  have hreflected := h.reflected
  obtain ⟨name, barrier, hidentified⟩ := hreflected.identified
  have hsound := hreflected.sound
  have hacked : ∀ p, ((load s.checkpoint maxAckGap).replay log).Acked p ↔ s.Acked p := by
    intro p
    rw [replay_acked rfl]
    constructor
    · rintro (hp | ⟨command, hmem, hcovers⟩)
      · exact hp
      · exact hreflected.covered command hmem p hcovers
    · exact Or.inl
  have hunacked : ∀ p, ((load s.checkpoint maxAckGap).replay log).isUnacknowledged p =
      s.isUnacknowledged p := by
    intro p
    rw [Bool.eq_iff_iff, isUnacknowledged_iff, isUnacknowledged_iff, hacked]
  have hreplayed := (replayed_load s.checkpoint maxAckGap).replay log
  have hoffered : ∀ p ∈ ((load s.checkpoint maxAckGap).replay log).requeuedUntil, ¬s.Acked p := by
    intro p hp
    rcases replay_requeued_transfer (new "" 0 false 0) hp with hp | ⟨hp, -⟩
    · exact (hreflected.offered p hp).1
    · exact (hsound.redelivery p (hsound.requeued p hp)).1
  have hreplayedSound : ((load s.checkpoint maxAckGap).replay log).Sound := by
    refine ⟨fun q hq => absurd hq (hreplayed.idle q), fun q hq => ?_, fun q hq => ?_,
      hreplayed.indexed⟩
    · refine ⟨fun hack => ?_, ?_, hreplayed.idle q⟩
      · exact hoffered q ((hreplayed.paired q).1 hq) ((hacked q).1 hack)
      · rw [Absent, replay_absentRanges]
        exact Ranges.not_mem_none q
    · exact (hreplayed.paired q).2 hq
  obtain ⟨-, htimeouts, hrequeues⟩ :=
    @replay_counters (load s.checkpoint maxAckGap) log hreflected.counts
  refine ⟨_, hidentified.fromCheckpoint_checkpoint maxAckGap, hunacked, ?_, htimeouts, hrequeues,
    fun p hp => ?_, fun σ availableAt e e' nowMs last p s' hknown hready => ?_⟩
  · exact hreflected.paused _ rfl
  · rw [isUnacknowledged_iff, hacked]
    exact hoffered p (hp.elim id (hreplayed.paired p).1)
  · obtain ⟨hdeliverable, hgrown⟩ := hreplayedSound.ready hknown hready
    rw [isUnacknowledged_iff]
    exact fun hack => hdeliverable.unacked (hgrown.kept p ((hacked p).2 hack))

/-- A delivered message is requeued and then finished; the requeue is replayed over the checkpoint
that has the acknowledgement. -/
theorem replay_over_checkpoint_requeued :
    ∃ (s : ChannelState) (log : List ChannelCommand), log.length = 2 ∧
      Journal (fun _ => 0) s {p | p ∈ Ranges.none} log ∧ s.isUnacknowledged 1 = false ∧
      ∃ loaded, fromCheckpoint s.checkpoint 8 = .ok loaded ∧
        (loaded.replay log).isUnacknowledged 1 = false := by
  have hopened : Journal (fun _ => 0) _ {p | p ∈ Ranges.none} [] :=
    .opened (.created "workers" 0 false 8 .none) fun q hq => absurd hq Std.ExtTreeMap.not_mem_empty
  have hfound : Admissible (Found (fun _ => 0) {p | p ∈ Ranges.none})
      (fun (e : Unit) (_ : ℕ) => (MessageAvailability.ready 0, e)) := by
    intro e p
    refine ⟨fun a ha => ⟨by injection ha with ha; exact ha.symm, Ranges.not_mem_none p⟩, ?_⟩
    intro ha
    cases ha
  have hready : (World.created "workers" 0 false 8 .none).state.nextCandidate 5 1
      (fun (e : Unit) (_ : ℕ) => (MessageAvailability.ready 0, e)) () =
      some (.ready 1, (World.created "workers" 0 false 8 .none).state.stepCursor, ()) := rfl
  have hdelivered := hopened.inMemory (.search (.deliver (.reserve 7 0 5 1) hfound hready)) le_rfl
  have hrequeued := hdelivered.issue (.requeue 1 7 9 1 (some 1)) (by
    intro position messageId available attempts count hcommand
    cases hcommand
    exact Std.ExtTreeMap.mem_insert_self)
  have hfinished := hrequeued.issue (.finish 1 7) (by intro _ _ _ _ _ h; cases h)
  obtain ⟨loaded, hload, hsame, -⟩ := replay_over_checkpoint hfinished 8
  exact ⟨_, _, rfl, hfinished, by decide, loaded, hload, (hsame 1).trans (by decide)⟩

end RustQueue.Channel
