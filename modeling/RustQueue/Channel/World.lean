import RustQueue.Channel.Replay

/-!
# A channel across crashes

`World` is a live channel next to what its files hold: the checkpoint, the log, and how
much of the log has been synced.  A checkpoint is written only when the log is synced, the
log is emptied in a later step, and a crash may fall between the two; it keeps the synced
part of the log and any part of the rest, after which the channel is recovered from what
is left.

`gone` collects the positions that the topic was once found not to hold.  A recovery finds
all of them missing again, which the topic guarantees by never giving a recorded position
to another message.

* `World.Inv`: a position acknowledged by the files is acknowledged or absent in memory,
  and a position the files offer again is not acknowledged unless it is gone;
* `Reachable.inv`: the invariant holds in every reachable world, so the live channel is
  always sound, also when an old log has been replayed over a newer checkpoint.
-/

namespace RustQueue.Channel

open Lib ChannelCommand

namespace ChannelState

/-- The recovery of one channel: the log is replayed over the checkpoint, then the ranges
missing below the recorded positions are installed, copied deadlines are dropped, and at
last the ranges missing in the whole topic are installed. -/
def recover (checkpoint : ChannelCheckpoint) (maxAckGap : ℕ) (commands : List ChannelCommand)
    (recorded : Ranges) (availableAt : ℕ → Except BrokerError (Option ℤ)) (all : Ranges) :
    Except BrokerError ChannelState := do
  let s ← fromCheckpoint checkpoint maxAckGap
  let s ← ((s.replay commands).setAbsentRanges recorded).compactRecoveredDpubs availableAt
  return s.setAbsentRanges all

variable {s s' : ChannelState} {q : ℕ}

variable {availableAt : ℕ → Except BrokerError (Option ℤ)}

theorem recover_eq {checkpoint : ChannelCheckpoint} {maxAckGap : ℕ} {commands : List ChannelCommand}
    {recorded all : Ranges} (h : recover checkpoint maxAckGap commands recorded availableAt all = .ok s) :
    ∃ t, (((load checkpoint maxAckGap).replay commands).setAbsentRanges recorded).compactRecoveredDpubs
        availableAt = .ok t ∧ s = t.setAbsentRanges all := by
  unfold recover at h
  cases hload : fromCheckpoint checkpoint maxAckGap with
  | error e => rw [hload] at h; cases h
  | ok s₀ =>
    rw [hload] at h
    rw [← fromCheckpoint_eq hload]
    cases hcompact : ((s₀.replay commands).setAbsentRanges recorded).compactRecoveredDpubs
        availableAt with
    | error e =>
      simp only [bind, Except.bind, hcompact] at h
      cases h
    | ok t =>
      simp only [bind, Except.bind, hcompact, pure, Except.pure] at h
      exact ⟨t, rfl, by cases h; rfl⟩

/-! ### Replayed states -/

/-- The redelivery set and the requeue deadlines name the same positions. -/
def Paired (s : ChannelState) : Prop := ∀ q, q ∈ s.redelivery ↔ q ∈ s.requeuedUntil

theorem Paired.apply (h : s.Paired) (command : ChannelCommand) : (s.apply command).Paired := by
  intro q
  have hq := h q
  cases command with
  | finish position messageId =>
    obtain ⟨floor, acked, next, d, i, heq, -⟩ := s.acknowledge_eq position
    simp only [ChannelState.apply, heq, Finset.mem_erase]
    grind
  | requeue position messageId available attempts count =>
    obtain ⟨d, i, hrem⟩ := s.removeInFlight_eq position
    simp only [ChannelState.apply, hrem, Finset.mem_insert]
    grind
  | empty through | evict through =>
    obtain ⟨m, d, i, heq, -⟩ := s.dropThrough_eq through
    simp only [ChannelState.apply, heq, Finset.mem_filter]
    grind
  | pause paused | timeout count => exact hq

/-- A state that replay can leave: nothing in flight and the two requeue records paired. -/
structure Replayed (s : ChannelState) : Prop where
  idle : ∀ q, q ∉ s.inFlight
  indexed : s.Indexed
  paired : s.Paired

theorem replayed_load (checkpoint : ChannelCheckpoint) (maxAckGap : ℕ) :
    (load checkpoint maxAckGap).Replayed where
  idle q hq := by simp [load] at hq
  indexed d p t hkey := by simp [load] at hkey
  paired q := by simp [load]

theorem Replayed.replay (h : s.Replayed) (commands : List ChannelCommand) :
    (s.replay commands).Replayed := by
  induction commands using List.reverseRecOn with
  | nil => exact h
  | append_singleton commands command ih =>
    rw [replay_append]
    exact ⟨fun q hq => ih.idle q ((flightsFrom_apply _ _).mem hq), indexedInvariant.apply ih.indexed command,
      ih.paired.apply command⟩

/-- Ranges that cover every acknowledged position still offered make the state sound. -/
theorem sound_setAbsentRanges {ranges : Ranges} (hidle : ∀ q, q ∉ s.inFlight) (hindex : s.Indexed)
    (hrequeued : ∀ q ∈ s.requeuedUntil, q ∈ s.redelivery)
    (hfree : ∀ q ∈ s.redelivery, q ∉ ranges → ¬s.Acked q) : (s.setAbsentRanges ranges).Sound := by
  obtain ⟨floor, acked, heq, -, h2, -⟩ := s.setAbsentRanges_eq ranges
  rw [heq]
  refine ⟨fun q hq => absurd hq (hidle q), fun q hq => ?_, fun q hq => ?_, hindex.of_eq rfl rfl⟩
  · simp only [Finset.mem_filter, Ranges.contains_iff] at hq
    refine ⟨fun hack => ?_, hq.2, hidle q⟩
    exact (h2 q hack).elim (hfree q hq.1 hq.2) hq.2
  · have hmem : q ∈ s.requeuedUntil ∧ ranges.contains q = false := by
      simp only at hq
      grind
    refine Finset.mem_filter.2 ⟨hrequeued q hmem.1, ?_⟩
    simp [hmem.2]

theorem setAbsentRanges_acked (s : ChannelState) (ranges : Ranges) (q : ℕ) :
    (s.Acked q → (s.setAbsentRanges ranges).Acked q ∨ q ∈ ranges) ∧
      ((s.setAbsentRanges ranges).Acked q → s.Acked q ∨ q ∈ ranges) := by
  obtain ⟨floor, acked, heq, -, hup, hdown⟩ := s.setAbsentRanges_eq ranges
  rw [heq]
  exact ⟨fun hq => or_assoc.2 (hdown q hq), hup q⟩

theorem setAbsentRanges_fields (s : ChannelState) (ranges : Ranges) :
    (s.setAbsentRanges ranges).inFlight = s.inFlight ∧
      (s.setAbsentRanges ranges).absentRanges = ranges := by
  obtain ⟨floor, acked, heq, -⟩ := s.setAbsentRanges_eq ranges
  rw [heq]
  exact ⟨rfl, rfl⟩

theorem Sound.compactRecoveredDpubs (h : s.Sound) (hok : s.compactRecoveredDpubs availableAt = .ok s') :
    s'.Sound ∧ s'.inFlight = s.inFlight ∧ ∀ q, s'.Acked q ↔ s.Acked q := by
  obtain ⟨r, m, rfl, hsub, hm, hmr⟩ := compactRecoveredDpubs_eq hok
  refine ⟨?_, rfl, fun q => Iff.rfl⟩
  exact h.of_le (fun q hq => hq) (fun q hq => hsub hq) (fun q hq => ⟨(hm q hq).1, hmr q hq⟩) rfl
    (fun q _ hq => Or.inl hq) (h.indexed.of_eq rfl rfl)

theorem le_highWatermark_of_requeued (hq : q ∈ s.requeuedUntil) :
    q ≤ s.recoveredPositionHighWatermark :=
  le_max_of_le_left (le_max_of_le_right (le_maxKey?_getD _ hq))

/-- What a recovery leaves, from what the replayed state was. -/
theorem recover_sound {checkpoint : ChannelCheckpoint} {maxAckGap : ℕ} {commands : List ChannelCommand}
    {recorded all : Ranges} (h : recover checkpoint maxAckGap commands recorded availableAt all = .ok s)
    (hwider : ∀ q ∈ recorded, q ∈ all)
    (hfree : ∀ q ∈ ((load checkpoint maxAckGap).replay commands).requeuedUntil,
      ((load checkpoint maxAckGap).replay commands).Acked q → q ∈ recorded) :
    s.Sound ∧ s.absentRanges = all ∧
      (∀ q, ((load checkpoint maxAckGap).replay commands).Acked q → s.Acked q ∨ q ∈ all) ∧
      ∀ q, s.Acked q → ((load checkpoint maxAckGap).replay commands).Acked q ∨ q ∈ all := by
  obtain ⟨t, hcompact, rfl⟩ := recover_eq h
  obtain ⟨hidle, hindex, hpaired⟩ := (replayed_load checkpoint maxAckGap).replay commands
  generalize (load checkpoint maxAckGap).replay commands = base at *
  have hfirst : (base.setAbsentRanges recorded).Sound :=
    sound_setAbsentRanges hidle hindex (fun q hq => (hpaired q).2 hq)
      fun q hq hnot hack => hnot (hfree q ((hpaired q).1 hq) hack)
  obtain ⟨hmid, hflight, hack⟩ := hfirst.compactRecoveredDpubs hcompact
  have hidle' : ∀ q, q ∉ t.inFlight := fun q => by
    rw [hflight, (base.setAbsentRanges_fields recorded).1]
    exact hidle q
  refine ⟨sound_setAbsentRanges hidle' hmid.indexed hmid.requeued
    fun q hq _ => (hmid.redelivery q hq).1, (t.setAbsentRanges_fields all).2, fun q hq => ?_,
    fun q hq => ?_⟩
  · rcases (base.setAbsentRanges_acked recorded q).1 hq with hq | hq
    · exact (t.setAbsentRanges_acked all q).1 ((hack q).2 hq)
    · exact Or.inr (hwider q hq)
  · rcases (t.setAbsentRanges_acked all q).2 hq with hq | hq
    · exact ((base.setAbsentRanges_acked recorded q).2 ((hack q).1 hq)).imp_right (hwider q)
    · exact Or.inr hq

end ChannelState

/-! ### Worlds -/

/-- A live channel, its files, and the positions found missing so far. -/
structure World where
  state : ChannelState
  checkpoint : ChannelCheckpoint
  log : List ChannelCommand
  synced : ℕ
  gone : Set ℕ

namespace World

open ChannelState

/-- A channel right after its creation. -/
def created (name : String) (barrierPosition : ℕ) (ephemeral : Bool) (maxAckGap : ℕ)
    (ranges : Ranges) : World where
  state := (new name barrierPosition ephemeral maxAckGap).setAbsentRanges ranges
  checkpoint := ((new name barrierPosition ephemeral maxAckGap).setAbsentRanges ranges).checkpoint
  log := []
  synced := 0
  gone := {p | p ∈ ranges}

/-- The state that the checkpoint and the first `n` commands of the log describe. -/
def disk (w : World) (maxAckGap n : ℕ) : ChannelState :=
  (load w.checkpoint maxAckGap).replay (w.log.take n)

/-- One step of the channel, of its files or of the topic around it. -/
inductive Step (avail : ℕ → ℤ) : World → World → Prop
  | lose (w : World) (gone : Set ℕ) (more : w.gone ⊆ gone) : Step avail w { w with gone := gone }
  | inMemory {w : World} {s : ChannelState} (h : LocalStep (Known avail w.gone) w.state s) :
      Step avail w { w with state := s }
  | append (w : World) (command : ChannelCommand) (held : w.state.Holds command) :
      Step avail w
        { w with state := w.state.apply command, log := w.log ++ [command] }
  | sync (w : World) : Step avail w { w with synced := w.log.length }
  | checkpoint (w : World) (all : w.synced = w.log.length) :
      Step avail w { w with checkpoint := w.state.checkpoint }
  | truncate (w : World) (current : w.checkpoint = w.state.checkpoint) :
      Step avail w { w with log := [], synced := 0 }
  | crash (w : World) {survived maxAckGap : ℕ} {recorded all : Ranges}
      {availableAt : ℕ → Except BrokerError (Option ℤ)} {s : ChannelState}
      (kept : w.synced ≤ survived) (part : survived ≤ w.log.length)
      (wider : ∀ p ∈ recorded, p ∈ all)
      (missing : ∀ p ∈ w.gone, 0 < p →
        p ≤ (w.disk maxAckGap survived).recoveredPositionHighWatermark → p ∈ recorded)
      (opened : recover w.checkpoint maxAckGap (w.log.take survived) recorded availableAt all =
        .ok s) :
      Step avail w
        { state := s
          checkpoint := w.checkpoint
          log := w.log.take survived
          synced := survived
          gone := w.gone ∪ {p | p ∈ all} }

/-- The worlds a channel can get into. -/
inductive Reachable (avail : ℕ → ℤ) : World → Prop
  | created (name : String) (barrierPosition : ℕ) (ephemeral : Bool) (maxAckGap : ℕ)
      (ranges : Ranges) : Reachable avail (created name barrierPosition ephemeral maxAckGap ranges)
  | step {w w' : World} (h : Reachable avail w) (step : Step avail w w') : Reachable avail w'

/-! ### The invariant -/

variable {avail : ℕ → ℤ} {w w' : World}

/-- What ties the live channel to its files. -/
structure Inv (w : World) : Prop where
  sound : w.state.Sound
  absent : ∀ q, w.state.Absent q → q ∈ w.gone
  bound : w.synced ≤ w.log.length
  acked : ∀ gap q, (w.disk gap w.log.length).Acked q → w.state.Acked q ∨ w.state.Absent q
  offered : ∀ gap, ∀ q ∈ (w.disk gap w.log.length).requeuedUntil, w.state.Acked q → q ∈ w.gone
  survives : ∀ gap n, w.synced ≤ n → n ≤ w.log.length → ∀ q ∈ (w.disk gap n).requeuedUntil,
    0 < q ∧ ((w.disk gap n).Acked q → q ∈ w.gone)

theorem disk_length (w : World) (gap : ℕ) :
    w.disk gap w.log.length = (load w.checkpoint gap).replay w.log := by
  rw [disk, List.take_length]

theorem Sound.pos_of_redelivery {s : ChannelState} (h : s.Sound) {q : ℕ} (hq : q ∈ s.redelivery) :
    0 < q := by
  have := (h.redelivery q hq).1
  simp only [Acked, not_or, not_le] at this
  omega

theorem inv_of_checkpoint {s : ChannelState} {gone : Set ℕ} (hs : s.Sound)
    (habsent : ∀ q, s.Absent q → q ∈ gone) : Inv ⟨s, s.checkpoint, [], 0, gone⟩ where
  sound := hs
  absent := habsent
  bound := le_rfl
  acked gap q hq := Or.inl hq
  offered gap q hq hack := absurd hack (hs.redelivery q (hs.requeued q hq)).1
  survives gap n _ hn q hq := by
    obtain rfl : n = 0 := by simpa using hn
    have hmem : q ∈ s.redelivery := hs.requeued q hq
    exact ⟨Sound.pos_of_redelivery hs hmem, fun hack => absurd hack (hs.redelivery q hmem).1⟩

theorem inv_created (name : String) (barrier : ℕ) (ephemeral : Bool) (gap : ℕ) (ranges : Ranges) :
    (created name barrier ephemeral gap ranges).Inv := by
  refine inv_of_checkpoint ?_ fun q hq => ?_
  · exact sound_setAbsentRanges (by simp [new]) (sound_new name barrier ephemeral gap).indexed
      (by simp [new]) (by simp [new])
  · rwa [ChannelState.Absent, (setAbsentRanges_fields _ ranges).2] at hq

theorem Inv.lose (h : w.Inv) {gone : Set ℕ} (more : w.gone ⊆ gone) :
    Inv { w with gone := gone } where
  sound := h.sound
  absent q hq := more (h.absent q hq)
  bound := h.bound
  acked := h.acked
  offered gap q hq hack := more (h.offered gap q hq hack)
  survives gap n h1 h2 q hq :=
    ⟨(h.survives gap n h1 h2 q hq).1, fun hack => more ((h.survives gap n h1 h2 q hq).2 hack)⟩

theorem Inv.inMemory (h : w.Inv) {s : ChannelState}
    (hstep : LocalStep (Known avail w.gone) w.state s) : Inv { w with state := s } := by
  have hg := hstep.grown h.sound
  refine ⟨hg.sound, fun q hq => ?_, h.bound, fun gap q hq => ?_, fun gap q hq hack => ?_, h.survives⟩
  · exact h.absent q (by rwa [ChannelState.Absent, ← hg.absent])
  · refine (h.acked gap q hq).imp (hg.kept q) fun habsent => ?_
    rwa [ChannelState.Absent, hg.absent]
  · rcases hg.acked q hack with hack | habsent | hgone
    · exact h.offered gap q hq hack
    · exact h.absent q habsent
    · exact hgone

theorem Inv.not_acked_of_flight (h : w.Inv) {q : ℕ} (hq : q ∈ w.state.inFlight) (gap : ℕ) :
    ¬(w.disk gap w.log.length).Acked q ∧ 0 < q := by
  obtain ⟨h1, h2⟩ := h.sound.flight q hq
  refine ⟨fun hack => (h.acked gap q hack).elim h1 h2, ?_⟩
  simp only [Acked, not_or, not_le] at h1
  omega

theorem disk_append_le (w : World) (s : ChannelState) (command : ChannelCommand) {gap n : ℕ}
    (hn : n ≤ w.log.length) :
    ({ w with state := s, log := w.log ++ [command] } : World).disk gap n = w.disk gap n := by
  simp only [disk, List.take_append_of_le_length hn]

theorem disk_append (w : World) (s : ChannelState) (command : ChannelCommand) (gap : ℕ) :
    ({ w with state := s, log := w.log ++ [command] } : World).disk gap (w.log ++ [command]).length =
      (w.disk gap w.log.length).apply command := by
  rw [disk_length, disk, List.take_length, replay_append]

theorem disk_absent (w : World) (gap n q : ℕ) : ¬(w.disk gap n).Absent q := by
  rw [ChannelState.Absent, disk, replay_absentRanges]
  exact Ranges.not_mem_none q

theorem Inv.append (h : w.Inv) {command : ChannelCommand} (held : w.state.Holds command) :
    Inv { w with state := w.state.apply command, log := w.log ++ [command] } := by
  have habsent : (w.state.apply command).absentRanges = w.state.absentRanges :=
    w.state.apply_absentRanges command
  -- a requeued position is in flight, so neither memory nor the files acknowledge it
  have hrequeues : ∀ q, command.Requeues q → q ∈ w.state.inFlight ∧ ¬command.Covers q :=
    fun q hq => ⟨held.inFlight hq, hq.not_covers⟩
  have hdisk : ∀ gap q, ((w.disk gap w.log.length).apply command).Acked q →
      (w.disk gap w.log.length).Acked q ∨ command.Covers q := by
    intro gap q hq
    rcases ((w.disk gap w.log.length).apply_acked command q).2 hq with hq | hq | hq
    · exact Or.inl hq
    · exact Or.inr hq
    · exact absurd hq (w.disk_absent gap _ q)
  refine ⟨h.sound.apply held, fun q hq => h.absent q (by rwa [ChannelState.Absent, ← habsent]), ?_,
    fun gap q hq => ?_, fun gap q hq hack => ?_, fun gap n h1 h2 q hq => ?_⟩
  · have := h.bound
    simp only [List.length_append]
    omega
  · rw [disk_append] at hq
    obtain ⟨hkeep, -⟩ := w.state.apply_acked command q
    rcases hdisk gap q hq with hq | hq
    · rcases h.acked gap q hq with hq | hq
      · exact Or.inl (hkeep (Or.inl hq))
      · exact Or.inr (by rwa [ChannelState.Absent, habsent])
    · exact Or.inl (hkeep (Or.inr hq))
  · rw [disk_append, apply_requeued] at hq
    rcases (w.state.apply_acked command q).2 hack with hack | hcov | habs
    · rcases hq with ⟨hq, -⟩ | hq
      · exact h.offered gap q hq hack
      · exact absurd hack (h.sound.flight q (hrequeues q hq).1).1
    · rcases hq with ⟨-, hnot⟩ | hq
      · exact absurd hcov hnot
      · exact absurd hcov (hrequeues q hq).2
    · exact h.absent q habs
  · by_cases hn : n ≤ w.log.length
    · rw [disk_append_le w _ command hn] at hq ⊢
      exact h.survives gap n h1 hn q hq
    · obtain rfl : n = (w.log ++ [command]).length := by
        simp only [List.length_append, List.length_singleton] at h2 ⊢
        omega
      rw [disk_append] at hq ⊢
      rw [apply_requeued] at hq
      rcases hq with ⟨hq, hnot⟩ | hq
      · have hold := h.survives gap w.log.length h.bound le_rfl q hq
        exact ⟨hold.1, fun hack => hold.2 ((hdisk gap q hack).resolve_right hnot)⟩
      · have hfree := h.not_acked_of_flight (hrequeues q hq).1 gap
        refine ⟨hfree.2, fun hack => absurd hack fun hack => ?_⟩
        exact (hdisk gap q hack).elim hfree.1 (hrequeues q hq).2

theorem Inv.sync (h : w.Inv) : Inv { w with synced := w.log.length } where
  sound := h.sound
  absent := h.absent
  bound := le_rfl
  acked := h.acked
  offered := h.offered
  survives gap n h1 h2 := h.survives gap n (h.bound.trans h1) h2

/-- The log is replayed over a newer checkpoint: what it offers again was offered before,
or is offered by the live channel. -/
theorem Inv.checkpoint (h : w.Inv) (hall : w.synced = w.log.length) :
    Inv { w with checkpoint := w.state.checkpoint } := by
  have hnew : ∀ gap, ({ w with checkpoint := w.state.checkpoint } : World).disk gap w.log.length =
      (load w.state.checkpoint gap).replay w.log := fun gap => disk_length _ gap
  have hack : ∀ gap q, ((load w.state.checkpoint gap).replay w.log).Acked q →
      w.state.Acked q ∨ w.state.Absent q := by
    intro gap q hq
    rcases (replay_acked rfl).1 hq with hq | hq
    · exact Or.inl hq
    · refine h.acked gap q ?_
      rw [disk_length]
      exact (replay_acked rfl).2 (Or.inr hq)
  have hreq : ∀ gap, ∀ q ∈ ((load w.state.checkpoint gap).replay w.log).requeuedUntil,
      q ∈ (w.disk gap w.log.length).requeuedUntil ∨ q ∈ w.state.redelivery := by
    intro gap q hq
    rw [disk_length]
    rcases replay_requeued_transfer (load w.checkpoint gap) hq with hq | ⟨hq, -⟩
    · exact Or.inl hq
    · exact Or.inr (h.sound.requeued q hq)
  have hoffered : ∀ gap, ∀ q ∈ ((load w.state.checkpoint gap).replay w.log).requeuedUntil,
      w.state.Acked q → q ∈ w.gone := by
    intro gap q hq hstate
    rcases hreq gap q hq with hq | hq
    · exact h.offered gap q hq hstate
    · exact absurd hstate (h.sound.redelivery q hq).1
  refine ⟨h.sound, h.absent, h.bound, fun gap q hq => ?_, fun gap q hq => ?_,
    fun gap n h1 h2 q hq => ?_⟩
  · exact hack gap q (hnew gap ▸ hq)
  · exact hoffered gap q (hnew gap ▸ hq)
  · obtain rfl : n = w.log.length := le_antisymm h2 (hall ▸ h1)
    rw [hnew] at hq ⊢
    refine ⟨?_, fun hq' => ?_⟩
    · rcases hreq gap q hq with hq | hq
      · exact (h.survives gap _ h1 le_rfl q hq).1
      · exact Sound.pos_of_redelivery h.sound hq
    · exact (hack gap q hq').elim (hoffered gap q hq) (h.absent q)

theorem Inv.crash (h : w.Inv) {survived gap : ℕ} {recorded all : Ranges}
    {availableAt : ℕ → Except BrokerError (Option ℤ)} {s : ChannelState}
    (kept : w.synced ≤ survived) (part : survived ≤ w.log.length)
    (wider : ∀ p ∈ recorded, p ∈ all)
    (missing : ∀ p ∈ w.gone, 0 < p →
      p ≤ (w.disk gap survived).recoveredPositionHighWatermark → p ∈ recorded)
    (opened : recover w.checkpoint gap (w.log.take survived) recorded availableAt all = .ok s) :
    Inv ⟨s, w.checkpoint, w.log.take survived, survived, w.gone ∪ {p | p ∈ all}⟩ := by
  have hsurvives := fun g => h.survives g survived kept part
  have hfree : ∀ q ∈ (w.disk gap survived).requeuedUntil, (w.disk gap survived).Acked q →
      q ∈ recorded := fun q hq hack =>
    missing q ((hsurvives gap q hq).2 hack) (hsurvives gap q hq).1 (le_highWatermark_of_requeued hq)
  obtain ⟨hsound, hranges, hdown, hup⟩ := recover_sound opened wider hfree
  -- the files describe the same state as before the crash, cut to what survived
  have hlen : (w.log.take survived).length = survived := by simp [part]
  have hdisk : ∀ g n, n ≤ survived →
      (⟨s, w.checkpoint, w.log.take survived, survived, w.gone ∪ {p | p ∈ all}⟩ : World).disk g n =
        w.disk g n := by
    intro g n hn
    simp only [disk, List.take_take, min_eq_left hn]
  -- neither replay nor acknowledgement reads the window size
  have hgap : ∀ g q, (w.disk g survived).Acked q ↔ (w.disk gap survived).Acked q := fun g q => by
    simp only [disk, replay_acked (show (load w.checkpoint _).absentRanges = .none from rfl)]
    rfl
  refine ⟨hsound, fun q hq => Or.inr (by rwa [ChannelState.Absent, hranges] at hq), hlen.ge,
    fun g q hq => ?_, fun g q hq hack => ?_, fun g n h1 h2 q hq => ?_⟩
  · simp only [hlen] at hq
    rw [hdisk g _ le_rfl, hgap] at hq
    exact (hdown q hq).imp_right fun hmem => by rwa [ChannelState.Absent, hranges]
  · simp only [hlen] at hq
    rw [hdisk g _ le_rfl] at hq
    rcases hup q hack with hack | hmem
    · exact Or.inl ((hsurvives g q hq).2 ((hgap g q).2 hack))
    · exact Or.inr hmem
  · obtain rfl : n = survived := le_antisymm (h2.trans hlen.le) h1
    rw [hdisk g _ le_rfl] at hq ⊢
    exact ⟨(hsurvives g q hq).1, fun hack => Or.inl ((hsurvives g q hq).2 hack)⟩

theorem Step.inv (h : Step avail w w') (hw : w.Inv) : w'.Inv := by
  cases h with
  | lose gone more => exact hw.lose more
  | inMemory h => exact hw.inMemory h
  | append command held => exact hw.append held
  | sync => exact hw.sync
  | checkpoint all => exact hw.checkpoint all
  | truncate current =>
    have := inv_of_checkpoint hw.sound hw.absent
    rwa [← current] at this
  | crash kept part wider missing opened => exact hw.crash kept part wider missing opened

theorem Reachable.inv (h : Reachable avail w) : w.Inv := by
  induction h with
  | created name barrier ephemeral gap ranges => exact inv_created name barrier ephemeral gap ranges
  | step h step ih => exact step.inv ih

/-- **Delivery is sound.**  In every reachable world the positions offered for redelivery
are apart from those in flight, from the acknowledged ones and from those below the floor;
and a ready position belongs to a running channel, is unacknowledged, present and not in
flight, is due by its requeue deadline and its availability time, and, when the cursor took
it, lies in the log and in the acknowledgement window. -/
theorem delivery_sound {avail : ℕ → ℤ} {w : World} (h : Reachable avail w) :
    (∀ p ∈ w.state.redelivery, p ∉ w.state.inFlight ∧ p ∉ w.state.acknowledged ∧
      w.state.ackFloorPosition < p) ∧
    ∀ (σ : Type) (availableAt : σ → ℕ → MessageAvailability × σ) (e e' : σ) (nowMs : ℤ)
      (lastPosition p : ℕ) (s' : ChannelState), Admissible (Known avail w.gone) availableAt →
      w.state.nextCandidate nowMs lastPosition availableAt e = some (.ready p, s', e') →
      w.state.paused = false ∧ s'.ackFloorPosition < p ∧ p ∉ s'.acknowledged ∧
        p ∉ s'.inFlight ∧ s'.isAbsent p = false ∧
        (∀ deadline, w.state.requeuedUntil[p]? = some deadline → deadline ≤ nowMs) ∧
        avail p ≤ nowMs ∧
        (p ∈ w.state.redelivery ∨
          p ≤ lastPosition ∧ s'.presentDistance p ≤ s'.maxAckGap) := by
  have hs := h.inv.sound
  refine ⟨fun p hp => ?_, fun σ availableAt e e' nowMs last p s' hknown hanswer => ?_⟩
  · obtain ⟨hack, -, hflight⟩ := hs.redelivery p hp
    simp only [Acked, not_or, not_le] at hack
    exact ⟨hflight, hack.2, hack.1⟩
  · obtain ⟨hd, -⟩ := hs.ready hknown hanswer
    have hack := hd.unacked
    simp only [Acked, not_or, not_le] at hack
    refine ⟨hd.running, hack.1, hack.2, hd.free, ?_, hd.deadline, hd.available, hd.reach⟩
    rw [← Bool.not_eq_true, isAbsent_iff]
    exact hd.present

/-- A lookup that finds every message due from time 0 on. -/
private def due (e : Unit) (_ : ℕ) : MessageAvailability × Unit := (.ready 0, e)

private theorem due_admissible (gone : Set ℕ) : Admissible (Known (fun _ => 0) gone) due := by
  intro e p
  exact ⟨fun a ha => by injection ha with ha; exact ha.symm, fun ha => by cases ha⟩

/-- Position 1 is delivered and requeued until time 5, the channel is recovered from the command in its
log, and position 1 is redelivered at time 6. -/
theorem delivery_sound_recovered :
    ∃ w s', Reachable (fun _ => 0) w ∧ w.log = [.requeue 1 7 5 1 (some 1)] ∧ 1 ∉ w.state.inFlight ∧
      w.state.nextCandidate 6 2 due () = some (.ready 1, s', ()) ∧ s'.ackFloorPosition < 1 ∧
      1 ∉ s'.inFlight := by
  have hfirst : (created "workers" 0 false 8 .none).state.nextCandidate 4 2 due () =
    some (.ready 1, _, ()) := rfl
  have hheld : Reachable (fun _ => 0) _ := .step (.created "workers" 0 false 8 .none)
    (.inMemory (.search (.deliver (.reserve 7 0 60 0) (due_admissible _) hfirst)))
  have hsynced : Reachable (fun _ => 0) _ := .step (.step hheld (.append _ (.requeue 1 7 5 1 (some 1))
    (by intro _ _ _ _ _ h; cases h; decide +kernel))) (.sync _)
  have hredelivered : ((recover (created "workers" 0 false 8 .none).checkpoint 8
      [.requeue 1 7 5 1 (some 1)] .none (fun _ => .ok (some 0)) .none).toOption.bind fun s =>
        (s.nextCandidate 6 2 due ()).map fun answer => (decide (1 ∈ s.redelivery), answer.1)) =
      some (true, .ready 1) := by decide +kernel
  generalize hopened : recover _ _ _ _ _ _ = opened at hredelivered
  cases opened with
  | error e => cases hredelivered
  | ok s =>
    obtain ⟨⟨candidate, s', _⟩, hanswer, heq⟩ := Option.map_eq_some_iff.1 hredelivered
    simp only [Prod.mk.injEq, decide_eq_true_eq] at heq
    obtain ⟨hmem, rfl⟩ := heq
    have hreach := hsynced.step (.crash _ le_rfl le_rfl (fun _ h => h) (fun _ h _ _ => h) hopened)
    obtain ⟨hoffered, hready⟩ := delivery_sound hreach
    have hready := hready Unit due () () 6 2 1 s' (due_admissible _) hanswer
    exact ⟨_, s', hreach, rfl, (hoffered 1 hmem).1, hanswer, hready.2.1, hready.2.2.2.1⟩

end World

end RustQueue.Channel
