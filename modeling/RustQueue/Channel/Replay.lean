import RustQueue.Channel.Soundness

/-!
# Replaying a channel log

What a log does to a state, position by position.  `Covers` says that a command
acknowledges a position and `Requeues` that it offers the position again.

* `replay_acked`: over a state without absent ranges, replay acknowledges exactly what the
  state or a command of the log acknowledges;
* `replay_requeued_transfer`: a position requeued after replay over one state is requeued
  after replay over any other, unless it was requeued before the log and nothing in the log
  covers it.
-/

namespace RustQueue.Channel

open Lib

namespace ChannelCommand

/-- The command acknowledges the position. -/
def Covers : ChannelCommand → ℕ → Prop
  | .finish position _, q => q = position
  | .empty through, q => q ≤ through
  | .evict through, q => q ≤ through
  | _, _ => False

/-- The command offers the position for redelivery. -/
def Requeues : ChannelCommand → ℕ → Prop
  | .requeue position _ _ _ _, q => q = position
  | _, _ => False

theorem Requeues.not_covers {command : ChannelCommand} {q : ℕ} (h : command.Requeues q) :
    ¬command.Covers q := by
  cases command with
  | requeue => exact id
  | finish | pause | empty | evict | timeout => exact absurd h id

end ChannelCommand

open ChannelCommand

namespace ChannelState

variable {s t : ChannelState} {command : ChannelCommand} {commands : List ChannelCommand} {q : ℕ}

/-! ### One command -/

theorem Holds.inFlight (held : s.Holds command) (h : command.Requeues q) : q ∈ s.inFlight := by
  cases command with
  | requeue position messageId available attempts count => exact h ▸ held _ _ _ _ _ rfl
  | finish | pause | empty | evict | timeout => exact absurd h id

theorem apply_absentRanges (s : ChannelState) (command : ChannelCommand) :
    (s.apply command).absentRanges = s.absentRanges := by
  cases command with
  | finish position messageId =>
    obtain ⟨floor, acked, next, d, i, heq, -⟩ := s.acknowledge_eq position
    simp only [apply, heq]
  | requeue position messageId available attempts count =>
    obtain ⟨d, i, hrem⟩ := s.removeInFlight_eq position
    simp only [apply, hrem]
  | empty through | evict through =>
    obtain ⟨m, d, i, heq, -⟩ := s.dropThrough_eq through
    simp only [apply, heq]
  | pause paused => rfl
  | timeout count => rfl

theorem dropThrough_acked (s : ChannelState) (through q : ℕ) :
    (s.dropThrough through).Acked q ↔ s.Acked q ∨ q ≤ through := by
  obtain ⟨m, d, i, heq, -⟩ := s.dropThrough_eq through
  rw [heq]
  simp only [Acked, Finset.mem_filter, le_max_iff]
  by_cases hq : q ≤ through
  · simp [hq]
  · simp [hq, not_le.1 hq]

theorem apply_acked (s : ChannelState) (command : ChannelCommand) (q : ℕ) :
    (s.Acked q ∨ command.Covers q → (s.apply command).Acked q) ∧
      ((s.apply command).Acked q → s.Acked q ∨ command.Covers q ∨ s.Absent q) := by
  cases command with
  | finish position messageId =>
    obtain ⟨floor, acked, next, d, i, heq, -, -, h2, h3⟩ := s.acknowledge_eq position
    simp only [apply, heq]
    exact ⟨h3 q, h2 q⟩
  | requeue position messageId available attempts count =>
    obtain ⟨d, i, hrem⟩ := s.removeInFlight_eq position
    simp only [apply, hrem, Covers, or_false, false_or]
    exact ⟨id, Or.inl⟩
  | empty through | evict through =>
    simp only [apply, dropThrough_acked, Covers]
    exact ⟨id, fun h => h.elim Or.inl fun h => Or.inr (Or.inl h)⟩
  | pause paused | timeout count =>
    simp only [Covers, or_false, false_or]
    exact ⟨id, Or.inl⟩

theorem apply_requeued (s : ChannelState) (command : ChannelCommand) (q : ℕ) :
    q ∈ (s.apply command).requeuedUntil ↔
      (q ∈ s.requeuedUntil ∧ ¬command.Covers q) ∨ command.Requeues q := by
  cases command with
  | finish position messageId =>
    obtain ⟨floor, acked, next, d, i, heq, -⟩ := s.acknowledge_eq position
    simp only [apply, heq, Covers, Requeues]
    grind
  | requeue position messageId available attempts count =>
    obtain ⟨d, i, hrem⟩ := s.removeInFlight_eq position
    simp only [apply, hrem, Covers, Requeues]
    grind
  | empty through | evict through =>
    obtain ⟨m, d, i, heq, -⟩ := s.dropThrough_eq through
    simp only [apply, heq, Covers, Requeues]
    grind
  | pause paused | timeout count => simp [apply, Covers, Requeues]

/-! ### A whole log -/

theorem replay_append (s : ChannelState) (commands : List ChannelCommand)
    (command : ChannelCommand) :
    s.replay (commands ++ [command]) = (s.replay commands).apply command := by
  simp [replay]

theorem replay_absentRanges (s : ChannelState) (commands : List ChannelCommand) :
    (s.replay commands).absentRanges = s.absentRanges := by
  induction commands using List.reverseRecOn with
  | nil => rfl
  | append_singleton commands command ih => rw [replay_append, apply_absentRanges, ih]

theorem replay_acked (h : s.absentRanges = .none) :
    (s.replay commands).Acked q ↔ s.Acked q ∨ ∃ command ∈ commands, command.Covers q := by
  induction commands using List.reverseRecOn with
  | nil => simp [replay]
  | append_singleton commands command ih =>
    have hpresent : ¬(s.replay commands).Absent q := by
      rw [Absent, replay_absentRanges, h]
      exact Ranges.not_mem_none q
    obtain ⟨h1, h2⟩ := (s.replay commands).apply_acked command q
    rw [replay_append]
    simp only [List.mem_append, List.mem_singleton]
    constructor
    · intro hq
      rcases h2 hq with hq | hq | hq
      · rcases ih.1 hq with hq | ⟨c, hc, hcov⟩
        · exact Or.inl hq
        · exact Or.inr ⟨c, Or.inl hc, hcov⟩
      · exact Or.inr ⟨command, Or.inr rfl, hq⟩
      · exact absurd hq hpresent
    · rintro (hq | ⟨c, hc | rfl, hcov⟩)
      · exact h1 (Or.inl (ih.2 (Or.inl hq)))
      · exact h1 (Or.inl (ih.2 (Or.inr ⟨c, hc, hcov⟩)))
      · exact h1 (Or.inr hcov)

theorem replay_requeued_transfer (t : ChannelState)
    (h : q ∈ (s.replay commands).requeuedUntil) :
    q ∈ (t.replay commands).requeuedUntil ∨
      (q ∈ s.requeuedUntil ∧ ∀ command ∈ commands, ¬command.Covers q) := by
  induction commands using List.reverseRecOn with
  | nil => exact Or.inr ⟨h, by simp⟩
  | append_singleton commands command ih =>
    rw [replay_append, apply_requeued] at h
    rw [replay_append, apply_requeued]
    rcases h with ⟨h, hcov⟩ | h
    · rcases ih h with ih | ⟨ih, hall⟩
      · exact Or.inl (Or.inl ⟨ih, hcov⟩)
      · refine Or.inr ⟨ih, fun c hc => ?_⟩
        rcases List.mem_append.1 hc with hc | hc
        · exact hall c hc
        · exact List.mem_singleton.1 hc ▸ hcov
    · exact Or.inl (Or.inr h)

end ChannelState

end RustQueue.Channel
