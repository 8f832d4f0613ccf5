import Mathlib.Tactic

/-!
# Watch channels

A channel that holds one value: whoever sends replaces it, and a receiver learns that there is a value it
has not seen, or that the sender is gone.  Senders are numbered in the order in which they are created, and
what a receiver learns is a function of the calls made on all senders so far.  The library of the channels is
that function, a parameter; `Watching` is what is asked of it.

* `watching_versions`: channels with a version of 63 bits and a flag for the dropped sender do it.
-/

namespace RustQueue.Lib

/-- A call on a sender. -/
inductive WatchCall where
  | create
  | sendModify (sender : ℕ)
  | drop (sender : ℕ)
  deriving DecidableEq, Repr

/-- A receiver of a sender, with the number of calls that were made when it subscribed. -/
structure Receiver where
  sender : ℕ
  since : ℕ
  deriving DecidableEq, Repr

/-- The call changes the value of a sender, or ends it. -/
def WatchCall.Touches (call : WatchCall) (sender : ℕ) : Prop :=
  call = .sendModify sender ∨ call = .drop sender

/-- A receiver that subscribed to a sender before it was dropped learns of a change or a closure exactly if
its sender has sent or was dropped since, as long as versions do not wrap. -/
def Watching (hasChanged : List WatchCall → Receiver → Bool) : Prop :=
  ∀ calls receiver, calls.length < 2 ^ 63 → receiver.since ≤ calls.length →
    .drop receiver.sender ∉ calls.take receiver.since →
      (hasChanged calls receiver = true ↔ ∃ call ∈ calls.drop receiver.since, call.Touches receiver.sender)

/-! ### Versions -/

/-- The version of a channel after some calls. -/
def watchVersion (calls : List WatchCall) (sender : ℕ) : ℕ := calls.count (.sendModify sender) % 2 ^ 63

/-- A receiver compares versions, and sees that its sender is gone. -/
def versionChanged (calls : List WatchCall) (receiver : Receiver) : Bool :=
  decide (.drop receiver.sender ∈ calls) ||
    decide (watchVersion calls receiver.sender ≠ watchVersion (calls.take receiver.since) receiver.sender)

theorem watching_versions : Watching versionChanged := by
  intro calls receiver hbound _ hopen
  obtain ⟨before, after, hcalls, hbefore⟩ : ∃ before after, calls = before ++ after ∧
      calls.take receiver.since = before := ⟨_, _, (List.take_append_drop _ _).symm, rfl⟩
  have hafter : calls.drop receiver.since = after := by
    have := (List.take_append_drop receiver.since calls).trans hcalls
    rw [hbefore] at this
    exact List.append_cancel_left this
  have hcount : before.count (.sendModify receiver.sender) + after.count (.sendModify receiver.sender) <
      2 ^ 63 := by
    rw [← List.count_append, ← hcalls]
    exact List.count_le_length.trans_lt hbound
  rw [hbefore] at hopen
  rw [versionChanged, Bool.or_eq_true, decide_eq_true_eq, decide_eq_true_eq, hbefore, hafter, watchVersion,
    watchVersion, hcalls, List.count_append, Nat.mod_eq_of_lt hcount, Nat.mod_eq_of_lt (by omega),
    List.mem_append, or_iff_right hopen]
  constructor
  · rintro (hdropped | hversion)
    · exact ⟨_, hdropped, Or.inr rfl⟩
    · exact ⟨_, List.count_pos_iff.1 (by omega), Or.inl rfl⟩
  · rintro ⟨call, hmem, rfl | rfl⟩
    · have := List.count_pos_iff.2 hmem
      omega
    · exact Or.inl hmem

end RustQueue.Lib
