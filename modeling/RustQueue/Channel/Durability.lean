import RustQueue.Channel.Identity
import RustQueue.Channel.Store
import RustQueue.Channel.World
import RustQueue.Lib.Crc32c

/-!
# A durable channel across crashes, byte by byte

`Run` is the life of one durable channel from its creation on: the state in memory, the store
with its files, the phase of the write in progress, and a record of the commands that were
issued and of those that were reported successful.  A step is one write to disk or one
change in memory, so a crash between any two writes is a crash in some reachable run; it
keeps the synced bytes of the log and any number of the bytes behind them.  `reopen` opens
what a crash has left, and the run goes on.

Commands come in groups, buffered, written and synced together, or one at a time; a group
is applied in memory before it is synced and a single command after.  The log is
checkpointed when it has grown to `checkpointInterval` commands, or at any time between two
groups.  A write may fail, which isolates the store until the channel is opened again.

An opened channel counts the commands it has found but is not checkpointed before its next
group.  So each life that ends between the sync of a group and the reset of the log adds a
group to it, and after `reopened` such lives it may hold more commands than a recovery reads.

* `Inv`: the bytes of the files belong to a checkpoint and the logged commands;
* `Inv.reopen`, `Inv.step`: every step keeps it;
* `recovers_after_crash`: exactly which files are opened, and what the opened channel acknowledges;
* `open_fails_after_crashes`: eight crashes in a row after which the files are not opened.
-/

namespace RustQueue.Channel

open Lib ChannelState

/-- The largest group of commands that is synced at once. -/
def maxGroupRequests : ℕ := 1024

/-- How far the write in progress has come. -/
inductive Phase where
  | idle
  | buffering (group : List ChannelCommand)
  | flushed (group : List ChannelCommand)
  | appended (command : ChannelCommand)
  | settled (group : List ChannelCommand)
  | replaced (group : List ChannelCommand)

/-- The topic lock is free, and deliveries may go on. -/
def Phase.Unlocked : Phase → Prop
  | .idle | .flushed _ | .settled _ => True
  | .buffering _ | .appended _ | .replaced _ => False

/-- A channel and what is recorded about its life: `logged` are the commands since the log was last
emptied, `reopened` counts the openings since then, and `missing` are the positions that an
opening found missing. -/
structure Run where
  state : ChannelState
  store : ChannelStore
  phase : Phase
  issued : List ChannelCommand
  reported : List ChannelCommand
  gone : Set ℕ
  logged : List ChannelCommand
  reopened : ℕ
  missing : Set ℕ

namespace Run

variable (crc32c : List UInt8 → UInt32) (json : CheckpointJson) (avail : ℕ → ℤ) (name : String)

/-- One write to disk, or one change in memory, or the start after a crash.  What an opening reads need not
be synced. -/
inductive Step : Run → Run → Prop
  | lose (r : Run) (gone : Set ℕ) (more : r.gone ⊆ gone) : Step r { r with gone := gone }
  | inMemory {r : Run} {s : ChannelState} (unlocked : r.phase.Unlocked)
      (h : LocalStep (Known avail r.gone) r.state s) : Step r { r with state := s }
  | buffer {r : Run} {store : ChannelStore} {command : ChannelCommand}
      (group : List ChannelCommand)
      (begun : r.phase = .buffering group ∨ r.phase = .idle ∧ group = [])
      (room : group.length < maxGroupRequests) (fits : command.Fits) (held : r.state.Holds command)
      (ok : r.store.appendBuffered crc32c command = .ok store) :
      Step r
        { r with
          state := r.state.apply command
          store := store
          phase := .buffering (group ++ [command])
          issued := r.issued ++ [command]
          logged := r.logged ++ [command] }
  | flush {r : Run} {group : List ChannelCommand} (h : r.phase = .buffering group) :
      Step r { r with store := r.store.flushPending, phase := .flushed group }
  | sync {r : Run} {group : List ChannelCommand} (h : r.phase = .flushed group) :
      Step r { r with store := r.store.syncData, phase := .settled group }
  | append {r : Run} {store : ChannelStore} {command : ChannelCommand} (h : r.phase = .idle)
      (fits : command.Fits) (held : r.state.Holds command)
      (ok : r.store.appendBuffered crc32c command = .ok store) :
      Step r
        { r with
          store := store.flushPending
          phase := .appended command
          issued := r.issued ++ [command]
          logged := r.logged ++ [command] }
  | appendSync {r : Run} {command : ChannelCommand} (h : r.phase = .appended command)
      (held : r.state.Holds command) :
      Step r
        { r with
          state := r.state.apply command
          store := r.store.syncData
          phase := .settled [command] }
  | finish {r : Run} {group : List ChannelCommand} (h : r.phase = .settled group)
      (few : r.store.commandsSinceCheckpoint < checkpointInterval) :
      Step r { r with phase := .idle, reported := r.reported ++ group }
  | replace {r : Run} {store : ChannelStore} {group : List ChannelCommand}
      (h : r.phase = .settled group)
      (many : checkpointInterval ≤ r.store.commandsSinceCheckpoint)
      (ok : r.store.replaceCheckpoint crc32c json r.state = .ok store) :
      Step r { r with store := store, phase := .replaced group }
  | force {r : Run} {store : ChannelStore} (h : r.phase = .idle)
      (ok : r.store.replaceCheckpoint crc32c json r.state = .ok store) :
      Step r { r with store := store, phase := .replaced [] }
  | reset {r : Run} {group : List ChannelCommand} (h : r.phase = .replaced group) :
      Step r
        { r with
          store := r.store.resetWal
          phase := .idle
          reported := r.reported ++ group
          logged := []
          reopened := 0 }
  | fail (r : Run) (written : ℕ) :
      Step r { r with store := r.store.isolate written, phase := .idle }
  | reopen {r : Run} {survived maxAckGap length : ℕ} {commands : List ChannelCommand}
      {opened compacted : ChannelState} {store : ChannelStore} {recorded all : Ranges}
      {availableAt : ℕ → Except BrokerError (Option ℤ)} (hsynced : r.store.synced ≤ survived)
      (hpart : survived ≤ r.store.wal.length)
      (found : recoverWal crc32c (r.store.wal.take survived) = .ok (commands, length))
      (ok : ChannelStore.open crc32c json name r.store.checkpointFile (r.store.wal.take survived)
        maxAckGap = .ok (opened, store))
      (wider : ∀ p ∈ recorded, p ∈ all)
      (compact : (opened.setAbsentRanges recorded).compactRecoveredDpubs availableAt = .ok compacted) :
      Step r
        { r with
          state := compacted.setAbsentRanges all
          store := { store with synced := r.store.synced }
          phase := .idle
          gone := r.gone ∪ {p | p ∈ all}
          logged := commands
          reopened := r.reopened + 1
          missing := r.missing ∪ {p | p ∈ all} }

/-- The runs of a durable channel with a valid name. -/
inductive Reachable (barrierPosition : ℕ) : Run → Prop
  | created {maxAckGap : ℕ} {ranges : Ranges} {store : ChannelStore}
      (valid : validateName name = .ok ())
      (ok : ChannelStore.create crc32c json
        ((new name barrierPosition false maxAckGap).setAbsentRanges ranges) = .ok store) :
      Reachable barrierPosition
        { state := (new name barrierPosition false maxAckGap).setAbsentRanges ranges
          store := store
          phase := .idle
          issued := []
          reported := []
          gone := {p | p ∈ ranges}
          logged := []
          reopened := 0
          missing := ∅ }
  | step {r r' : Run} (h : Reachable barrierPosition r)
      (step : Step crc32c json avail name r r') : Reachable barrierPosition r'

/-! ### The invariant -/

/-- The number of commands that a log stays below between two groups, after some openings. -/
def groupStart (reopened : ℕ) : ℕ := checkpointInterval + reopened * maxGroupRequests

/-- A position is acknowledged in memory, or an opening has found it missing. -/
def Done (r : Run) (p : ℕ) : Prop := r.state.Acked p ∨ p ∈ r.missing

/-- What holds of the memory alone: every acknowledgement has a reason. -/
structure Memory (barrierPosition : ℕ) (r : Run) : Prop where
  identified : r.state.Identified name barrierPosition
  absent : ∀ p, r.state.Absent p → p ∈ r.gone
  origin : ∀ p, r.state.Acked p →
    p ≤ barrierPosition ∨ (∃ command ∈ r.issued, command.Covers p) ∨ p ∈ r.gone
  missing : r.missing ⊆ r.gone

/-- The files hold a checkpoint that can be opened and the frames of the logged commands, of
which the first `durable` are synced. -/
structure Files (barrierPosition : ℕ) (store : ChannelStore) (base : ChannelCheckpoint)
    (logged : List ChannelCommand) (durable : ℕ) : Prop where
  file : writeCheckpoint crc32c json base = .ok store.checkpointFile
  named : base.name = name
  barrier : base.barrierPosition = barrierPosition
  accepted : ∀ maxAckGap, fromCheckpoint base maxAckGap = .ok (load base maxAckGap)
  frames : store.wal ++ store.pendingWal = FrameFormat.written (walFrame crc32c) logged
  fits : ∀ command ∈ logged, command.Fits
  count : store.commandsSinceCheckpoint = logged.length
  durable_le : durable ≤ logged.length
  synced : store.synced = (FrameFormat.written (walFrame crc32c) (logged.take durable)).length
  synced_le : store.synced ≤ store.wal.length

/-- What each phase adds. -/
def PhaseInv (r : Run) (base : ChannelCheckpoint) (durable : ℕ) : Phase → Prop
  | .idle => r.store.isolated = true ∨
      r.store.pendingWal = [] ∧ r.logged.length < groupStart r.reopened
  | .buffering group => group.length ≤ maxGroupRequests ∧
      r.logged.length < groupStart r.reopened + group.length ∧ ∀ command ∈ group, command ∈ r.logged
  | .flushed group => r.store.pendingWal = [] ∧ ∀ command ∈ group, command ∈ r.logged
  | .appended command => r.store.pendingWal = [] ∧ command ∈ r.logged
  | .settled group => r.store.pendingWal = [] ∧ durable = r.logged.length ∧
      ∀ command ∈ group, command ∈ r.logged
  | .replaced group => r.store.pendingWal = [] ∧ base = r.state.checkpoint ∧
      ∀ command ∈ group, ∀ p, command.Covers p → r.Done p

/-- The files and the memory belong together: the checkpoint is an earlier state, and what
was reported is in the checkpoint or in the synced part of the log. -/
structure Inv (barrierPosition : ℕ) (r : Run) (base : ChannelCheckpoint) (durable : ℕ) : Prop where
  valid : validateName name = .ok ()
  memory : r.Memory name barrierPosition
  files : Files crc32c json name barrierPosition r.store base r.logged durable
  bound : r.logged.length < groupStart (r.reopened + 1)
  kept : ∀ p, (load base 0).Acked p → r.Done p
  issued : ∀ command ∈ r.logged, command ∈ r.issued
  reported : ∀ command ∈ r.reported, ∀ p, command.Covers p →
    (load base 0).Acked p ∨ (∃ other ∈ r.logged.take durable, other.Covers p) ∨ p ∈ r.missing
  applied : ∀ command ∈ r.logged, r.phase = .appended command ∨ r.store.isolated = true ∨
    ∀ p, command.Covers p → r.Done p
  live : r.phase ≠ .idle → r.store.isolated = false
  phase : PhaseInv r base durable r.phase

theorem groupStart_succ (reopened : ℕ) :
    groupStart (reopened + 1) = groupStart reopened + maxGroupRequests := by
  rw [groupStart, groupStart, Nat.succ_mul, Nat.add_assoc]

variable {crc32c json avail name}
variable {barrierPosition : ℕ} {r r' : Run} {base : ChannelCheckpoint}
  {logged : List ChannelCommand} {durable : ℕ} {command : ChannelCommand}

theorem Memory.inMemory (h : r.Memory name barrierPosition) {s : ChannelState}
    (hstep : LocalStep (Known avail r.gone) r.state s) :
    Memory name barrierPosition { r with state := s } := by
  have hextended := hstep.extended
  refine ⟨h.identified.later hstep.later, fun p hp => ?_, fun p hp => ?_, h.missing⟩
  · exact h.absent p (by rwa [ChannelState.Absent, ← hextended.absent])
  · rcases hextended.acked p hp with hp | hp | hp
    · exact h.origin p hp
    · exact Or.inr (Or.inr (h.absent p hp))
    · exact Or.inr (Or.inr hp)

/-- A command acknowledges what it names and positions that are gone. -/
theorem Memory.apply (h : r.Memory name barrierPosition) (command : ChannelCommand)
    {issued : List ChannelCommand} (hissued : ∀ c ∈ r.issued, c ∈ issued) (hcommand : command ∈ issued)
    (store : ChannelStore) (phase : Phase) (logged : List ChannelCommand) :
    Memory name barrierPosition
      { r with
        state := r.state.apply command, store := store, phase := phase, issued := issued,
        logged := logged } := by
  refine ⟨h.identified.later (later_apply _ command), fun p hp => ?_, fun p hp => ?_, h.missing⟩
  · exact h.absent p (by rwa [ChannelState.Absent, apply_absentRanges] at hp)
  · rcases (r.state.apply_acked command p).2 hp with hp | hp | hp
    · rcases h.origin p hp with hbarrier | ⟨c, hc, hcov⟩ | hgone
      · exact Or.inl hbarrier
      · exact Or.inr (Or.inl ⟨c, hissued c hc, hcov⟩)
      · exact Or.inr (Or.inr hgone)
    · exact Or.inr (Or.inl ⟨command, hcommand, hp⟩)
    · exact Or.inr (Or.inr (h.absent p hp))

/-! ### The writes -/

variable {store store' : ChannelStore}

theorem appendBuffered_eq (h : store.appendBuffered crc32c command = .ok store') :
    store.isolated = false ∧ store' =
      { store with
        pendingWal := store.pendingWal ++ walFrame crc32c command
        commandsSinceCheckpoint := store.commandsSinceCheckpoint + 1 } := by
  unfold ChannelStore.appendBuffered at h
  split_ifs at h with hisolated
  cases h
  exact ⟨by simpa using hisolated, rfl⟩

theorem replaceCheckpoint_eq {state : ChannelState}
    (h : store.replaceCheckpoint crc32c json state = .ok store') :
    store.isolated = false ∧ ∃ file, writeCheckpoint crc32c json state.checkpoint = .ok file ∧
      store' = { store with checkpointFile := file } := by
  unfold ChannelStore.replaceCheckpoint at h
  split_ifs at h with hisolated
  cases hfile : writeCheckpoint crc32c json state.checkpoint with
  | error e => rw [hfile] at h; cases h
  | ok file =>
    rw [hfile] at h
    cases h
    exact ⟨by simpa using hisolated, file, rfl, rfl⟩

section Files

variable (h : Files crc32c json name barrierPosition store base logged durable)
include h

theorem Files.appendBuffered (ok : store.appendBuffered crc32c command = .ok store') (fits : command.Fits) :
    Files crc32c json name barrierPosition store' base (logged ++ [command]) durable := by
  obtain ⟨-, rfl⟩ := appendBuffered_eq ok
  refine ⟨h.file, h.named, h.barrier, h.accepted, ?_, fun c hc => ?_, ?_, ?_, ?_, h.synced_le⟩
  · rw [FrameFormat.written_append, ← h.frames, List.append_assoc]
    simp
  · rcases List.mem_append.1 hc with hc | hc
    · exact h.fits c hc
    · rwa [List.mem_singleton.1 hc]
  · rw [List.length_append, h.count]
    rfl
  · rw [List.length_append]
    exact h.durable_le.trans (Nat.le_add_right _ _)
  · rw [List.take_append_of_le_length h.durable_le]
    exact h.synced

theorem Files.flushPending :
    Files crc32c json name barrierPosition store.flushPending base logged durable := by
  refine ⟨h.file, h.named, h.barrier, h.accepted, ?_, h.fits, h.count, h.durable_le, h.synced, ?_⟩
  · rw [← h.frames]
    exact List.append_nil _
  · show store.synced ≤ (store.wal ++ store.pendingWal).length
    rw [List.length_append]
    exact h.synced_le.trans (Nat.le_add_right _ _)

theorem Files.syncData (hflushed : store.pendingWal = []) :
    Files crc32c json name barrierPosition store.syncData base logged logged.length := by
  have hframes := h.frames
  rw [hflushed, List.append_nil] at hframes
  refine ⟨h.file, h.named, h.barrier, h.accepted, h.frames, h.fits, h.count, le_rfl, ?_, le_rfl⟩
  rw [List.take_length, ← hframes]
  rfl

theorem Files.isolate (written : ℕ) :
    Files crc32c json name barrierPosition (store.isolate written) base logged durable := by
  refine ⟨h.file, h.named, h.barrier, h.accepted, ?_, h.fits, h.count, h.durable_le, h.synced, ?_⟩
  · show store.wal ++ store.pendingWal.take written ++ store.pendingWal.drop written = _
    rw [List.append_assoc, List.take_append_drop, h.frames]
  · show store.synced ≤ (store.wal ++ store.pendingWal.take written).length
    rw [List.length_append]
    exact h.synced_le.trans (Nat.le_add_right _ _)

theorem Files.replaceCheckpoint {state : ChannelState} (hstate : state.Identified name barrierPosition)
    (ok : store.replaceCheckpoint crc32c json state = .ok store') :
    Files crc32c json name barrierPosition store' state.checkpoint logged durable := by
  obtain ⟨-, file, hfile, rfl⟩ := replaceCheckpoint_eq ok
  exact ⟨hfile, hstate.name, hstate.barrier, hstate.fromCheckpoint_checkpoint, h.frames, h.fits, h.count,
    h.durable_le, h.synced, h.synced_le⟩

theorem Files.resetWal (hflushed : store.pendingWal = []) :
    Files crc32c json name barrierPosition store.resetWal base [] 0 := by
  refine ⟨h.file, h.named, h.barrier, h.accepted, ?_, by simp, rfl, le_rfl, rfl, le_rfl⟩
  show [] ++ store.pendingWal = _
  rw [hflushed]
  rfl

/-! ### Opening what is left -/

variable {survived : ℕ}

/-- How many whole commands are left decides whether the log is read. -/
theorem Files.recoverWal (hpart : survived ≤ store.wal.length) : recoverWal crc32c (store.wal.take survived) =
    if FrameFormat.framesWithin (walFrame crc32c) logged survived ≤ maxRecoveryCommands then
      .ok (logged.take (FrameFormat.framesWithin (walFrame crc32c) logged survived),
        (FrameFormat.written (walFrame crc32c)
          (logged.take (FrameFormat.framesWithin (walFrame crc32c) logged survived))).length)
    else .error (.invalidRecord "channel WAL contains too many commands without a checkpoint") := by
  have htake : store.wal.take survived =
      (FrameFormat.written (walFrame crc32c) logged).take survived := by
    rw [← h.frames, List.take_append_of_le_length hpart]
  rw [htake, recoverWal_take crc32c logged h.fits]

/-- **What is left of the files opens as the checkpoint with the whole commands replayed**, if there are
not too many. -/
theorem Files.open (hjson : json.RoundTrips) (valid : validateName name = .ok ()) (maxAckGap : ℕ) :
    ChannelStore.open crc32c json name store.checkpointFile (store.wal.take survived) maxAckGap =
      (Channel.recoverWal crc32c (store.wal.take survived)).map fun recovered =>
        ((load base maxAckGap).replay recovered.1, ⟨store.checkpointFile,
          (store.wal.take survived).take recovered.2, recovered.2, [], recovered.1.length, false⟩) :=
  ChannelStore.open_eq (readCheckpoint_writeCheckpoint hjson h.file) (by rw [h.named]; exact valid)
    h.named (h.accepted maxAckGap)

theorem Files.durable_le_framesWithin (hsynced : store.synced ≤ survived) :
    durable ≤ FrameFormat.framesWithin (walFrame crc32c) logged survived := by
  have hle : (logged.take durable).length ≤ FrameFormat.framesWithin (walFrame crc32c)
      (logged.take durable ++ logged.drop durable) survived := by
    refine FrameFormat.le_framesWithin ?_
    rw [← h.synced]
    exact hsynced
  rwa [List.take_append_drop, List.length_take_of_le h.durable_le] at hle

/-- The files that an opening goes on with. -/
theorem Files.opened {commands : List ChannelCommand} {length : ℕ}
    (hpart : survived ≤ store.wal.length) (hsynced : store.synced ≤ survived)
    (found : Channel.recoverWal crc32c (store.wal.take survived) = .ok (commands, length)) :
    (∃ count, durable ≤ count ∧ commands = logged.take count) ∧
      Files crc32c json name barrierPosition ⟨store.checkpointFile, (store.wal.take survived).take length,
        store.synced, [], commands.length, false⟩ base commands durable := by
  have hdurable := h.durable_le_framesWithin hsynced
  have hframes := h.frames
  rw [h.recoverWal hpart] at found
  split_ifs at found
  obtain ⟨rfl, rfl⟩ := Prod.mk.inj (Except.ok.inj found)
  generalize hcount : FrameFormat.framesWithin (walFrame crc32c) logged survived = count at *
  have hlength := FrameFormat.length_written_framesWithin_le (walFrame crc32c) logged survived
  rw [hcount] at hlength
  have hwal : (store.wal.take survived).take
      (FrameFormat.written (walFrame crc32c) (logged.take count)).length =
        FrameFormat.written (walFrame crc32c) (logged.take count) := by
    have hfront : (store.wal ++ store.pendingWal).take
        (FrameFormat.written (walFrame crc32c) (logged.take count)).length = store.wal.take _ :=
      List.take_append_of_le_length (hlength.trans hpart)
    rw [List.take_take, min_eq_left hlength, ← hfront, hframes, FrameFormat.take_length_written_take]
  have htake : (logged.take count).take durable = logged.take durable := by
    rw [List.take_take, min_eq_left hdurable]
  refine ⟨⟨count, hdurable, rfl⟩, h.file, h.named, h.barrier, h.accepted, ?_,
    fun c hc => h.fits c (List.mem_of_mem_take hc), rfl, ?_, ?_, ?_⟩
  · rw [hwal, List.append_nil]
  · rw [List.length_take]
    exact le_min hdurable h.durable_le
  · rw [htake]
    exact h.synced
  · show store.synced ≤ ((store.wal.take survived).take _).length
    rw [hwal, h.synced, ← htake]
    have hsplit : FrameFormat.written (walFrame crc32c)
        ((logged.take count).take durable ++ (logged.take count).drop durable) = _ :=
      FrameFormat.written_append _ _
    rw [List.take_append_drop] at hsplit
    rw [hsplit, List.length_append]
    exact Nat.le_add_right _ _

end Files

/-! ### The steps keep the invariant -/

/-- An applied command keeps what is done and adds its own positions. -/
theorem done_apply (command : ChannelCommand) {p : ℕ} (h : r.Done p ∨ command.Covers p) :
    (r.state.apply command).Acked p ∨ p ∈ r.missing := by
  rcases h with (hacked | hp) | hcov
  · exact Or.inl ((r.state.apply_acked command p).1 (Or.inl hacked))
  · exact Or.inr hp
  · exact Or.inl ((r.state.apply_acked command p).1 (Or.inr hcov))

/-- Finding positions missing takes back only their acknowledgements, and compaction none. -/
theorem reopened_acked {opened compacted : ChannelState} {recorded all : Ranges}
    {availableAt : ℕ → Except BrokerError (Option ℤ)} (wider : ∀ p ∈ recorded, p ∈ all)
    (compact : (opened.setAbsentRanges recorded).compactRecoveredDpubs availableAt = .ok compacted) (p : ℕ) :
    (opened.Acked p → (compacted.setAbsentRanges all).Acked p ∨ p ∈ all) ∧
      ((compacted.setAbsentRanges all).Acked p → opened.Acked p ∨ p ∈ all) := by
  obtain ⟨redelivery, requeued, rfl, -⟩ := compactRecoveredDpubs_eq compact
  have hfirst := opened.setAbsentRanges_acked recorded p
  constructor
  · intro hp
    rcases hfirst.1 hp with hp | hp
    · exact (setAbsentRanges_acked _ all p).1 hp
    · exact Or.inr (wider p hp)
  · intro hp
    rcases (setAbsentRanges_acked _ all p).2 hp with hp | hp
    · exact (hfirst.2 hp).imp_right (wider p)
    · exact Or.inr hp

section Steps

variable (h : Inv crc32c json name barrierPosition r base durable)
include h

theorem Inv.lose {gone : Set ℕ} (more : r.gone ⊆ gone) :
    Inv crc32c json name barrierPosition { r with gone := gone } base durable :=
  { h with
    memory := ⟨h.memory.identified, fun p hp => more (h.memory.absent p hp),
      fun p hp => (h.memory.origin p hp).imp_right (Or.imp_right fun hp => more hp),
      h.memory.missing.trans more⟩ }

theorem Inv.inMemory {s : ChannelState} (unlocked : r.phase.Unlocked)
    (hstep : LocalStep (Known avail r.gone) r.state s) :
    Inv crc32c json name barrierPosition { r with state := s } base durable := by
  have hkept : ∀ p, r.Done p → Done { r with state := s } p := fun p =>
    Or.imp_left (hstep.extended.kept p)
  refine ⟨h.valid, h.memory.inMemory hstep, h.files, h.bound, fun p hp => hkept p (h.kept p hp),
    h.issued, h.reported, fun c hc => ?_, h.live, ?_⟩
  · exact (h.applied c hc).imp_right (Or.imp_right fun hcov p hp => hkept p (hcov p hp))
  · have hphase := h.phase
    show PhaseInv { r with state := s } base durable r.phase
    generalize r.phase = phase at unlocked hphase ⊢
    cases phase with
    | idle | flushed group | settled group => exact hphase
    | buffering group | appended command | replaced group => exact unlocked.elim

/-- Everything logged is applied, unless a single command is on its way. -/
theorem Inv.all_applied (hphase : ∀ c, r.phase ≠ .appended c) (hlive : r.store.isolated = false) :
    ∀ c ∈ r.logged, ∀ p, c.Covers p → r.Done p := by
  intro c hc
  rcases h.applied c hc with happended | hisolated | hcov
  · exact absurd happended (hphase c)
  · rw [hlive] at hisolated
    cases hisolated
  · exact hcov

theorem Inv.idle (hidle : r.phase = .idle) (hlive : r.store.isolated = false) :
    r.store.pendingWal = [] ∧ r.logged.length < groupStart r.reopened := by
  have hphase := h.phase
  rw [hidle] at hphase
  rcases hphase with hisolated | hroom
  · rw [hlive] at hisolated
    cases hisolated
  · exact hroom

variable {group : List ChannelCommand}

theorem Inv.buffer (begun : r.phase = .buffering group ∨ r.phase = .idle ∧ group = [])
    (room : group.length < maxGroupRequests) (fits : command.Fits)
    (ok : r.store.appendBuffered crc32c command = .ok store) :
    Inv crc32c json name barrierPosition
      { r with
        state := r.state.apply command
        store := store
        phase := .buffering (group ++ [command])
        issued := r.issued ++ [command]
        logged := r.logged ++ [command] } base durable := by
  obtain ⟨hlive, hstore⟩ := appendBuffered_eq ok
  have hgroup : r.logged.length < groupStart r.reopened + group.length ∧ ∀ c ∈ group, c ∈ r.logged := by
    rcases begun with hbegun | ⟨hidle, rfl⟩
    · have hphase := h.phase
      rw [hbegun] at hphase
      exact hphase.2
    · exact ⟨(h.idle hidle hlive).2, by simp⟩
  have hnot : ∀ c, r.phase ≠ .appended c := by
    rintro c hc
    rcases begun with hbegun | ⟨hidle, -⟩
    · rw [hbegun] at hc
      cases hc
    · rw [hidle] at hc
      cases hc
  have hlength : (r.logged ++ [command]).length = r.logged.length + 1 := List.length_append
  refine ⟨h.valid, h.memory.apply command (fun c hc => List.mem_append_left _ hc) (by simp) _ _ _,
    h.files.appendBuffered ok fits, ?_, fun p hp => ?_, fun c hc => ?_, fun c hc p hp => ?_,
    fun c hc => Or.inr (Or.inr fun p hp => ?_), fun _ => ?_, ?_⟩
  · show (r.logged ++ [command]).length < groupStart (r.reopened + 1)
    rw [groupStart_succ]
    omega
  · exact done_apply command (Or.inl (h.kept p hp))
  · rcases List.mem_append.1 hc with hc | hc
    · exact List.mem_append_left _ (h.issued c hc)
    · exact List.mem_append_right _ hc
  · show _ ∨ (∃ other ∈ (r.logged ++ [command]).take durable, _) ∨ _
    rw [List.take_append_of_le_length h.files.durable_le]
    exact h.reported c hc p hp
  · rcases List.mem_append.1 hc with hc | hc
    · exact done_apply command (Or.inl (h.all_applied hnot hlive c hc p hp))
    · rw [List.mem_singleton.1 hc] at hp
      exact done_apply command (Or.inr hp)
  · rw [hstore]
    exact hlive
  · refine ⟨by rw [List.length_append]; exact room, ?_, fun c hc => ?_⟩
    · show (r.logged ++ [command]).length < groupStart r.reopened + (group ++ [command]).length
      rw [hlength, List.length_append, List.length_singleton]
      omega
    · rcases List.mem_append.1 hc with hc | hc
      · exact List.mem_append_left _ (hgroup.2 c hc)
      · exact List.mem_append_right _ hc

theorem Inv.flush (hphase : r.phase = .buffering group) : Inv crc32c json name barrierPosition
      { r with store := r.store.flushPending, phase := .flushed group } base durable := by
  have hlive := h.live (by rw [hphase]; simp)
  have hgroup := h.phase
  rw [hphase] at hgroup
  refine ⟨h.valid, ⟨h.memory.identified, h.memory.absent, h.memory.origin, h.memory.missing⟩,
    h.files.flushPending, h.bound, h.kept, h.issued, h.reported, fun c hc => Or.inr (Or.inr ?_),
    fun _ => hlive, rfl, hgroup.2.2⟩
  exact h.all_applied (by rw [hphase]; simp) hlive c hc

theorem Inv.reported_synced (hcommand : command ∈ r.reported) {p : ℕ} (hp : command.Covers p) :
    (load base 0).Acked p ∨ (∃ other ∈ r.logged.take r.logged.length, other.Covers p) ∨
      p ∈ r.missing := by
  rw [List.take_length]
  exact (h.reported command hcommand p hp).imp_right
    (Or.imp_left fun ⟨d, hd, hcov⟩ => ⟨d, List.mem_of_mem_take hd, hcov⟩)

theorem Inv.sync (hphase : r.phase = .flushed group) : Inv crc32c json name barrierPosition
      { r with store := r.store.syncData, phase := .settled group } base r.logged.length := by
  have hlive := h.live (by rw [hphase]; simp)
  have hgroup := h.phase
  rw [hphase] at hgroup
  refine ⟨h.valid, ⟨h.memory.identified, h.memory.absent, h.memory.origin, h.memory.missing⟩,
    h.files.syncData hgroup.1, h.bound, h.kept, h.issued, fun c hc p hp => h.reported_synced hc hp,
    fun c hc => Or.inr (Or.inr ?_), fun _ => hlive, hgroup.1, rfl, hgroup.2⟩
  exact h.all_applied (by rw [hphase]; simp) hlive c hc

theorem Inv.append (hphase : r.phase = .idle) (fits : command.Fits)
    (ok : r.store.appendBuffered crc32c command = .ok store) :
    Inv crc32c json name barrierPosition
      { r with
        store := store.flushPending
        phase := .appended command
        issued := r.issued ++ [command]
        logged := r.logged ++ [command] } base durable := by
  obtain ⟨hlive, hstore⟩ := appendBuffered_eq ok
  have hroom := (h.idle hphase hlive).2
  refine ⟨h.valid, ⟨h.memory.identified, h.memory.absent, fun p hp => ?_, h.memory.missing⟩,
    (h.files.appendBuffered ok fits).flushPending, ?_, h.kept, fun c hc => ?_, fun c hc p hp => ?_,
    fun c hc => ?_, fun _ => ?_, rfl, by simp⟩
  · refine (h.memory.origin p hp).imp_right (Or.imp_left ?_)
    rintro ⟨c, hc, hcov⟩
    exact ⟨c, List.mem_append_left _ hc, hcov⟩
  · show (r.logged ++ [command]).length < groupStart (r.reopened + 1)
    rw [groupStart_succ, List.length_append, List.length_singleton]
    unfold maxGroupRequests
    omega
  · rcases List.mem_append.1 hc with hc | hc
    · exact List.mem_append_left _ (h.issued c hc)
    · exact List.mem_append_right _ hc
  · show _ ∨ (∃ other ∈ (r.logged ++ [command]).take durable, _) ∨ _
    rw [List.take_append_of_le_length h.files.durable_le]
    exact h.reported c hc p hp
  · rcases List.mem_append.1 hc with hc | hc
    · exact Or.inr (Or.inr (h.all_applied (by rw [hphase]; simp) hlive c hc))
    · exact Or.inl (by rw [List.mem_singleton.1 hc])
  · rw [hstore]
    exact hlive

theorem Inv.appendSync (hphase : r.phase = .appended command) : Inv crc32c json name barrierPosition
      { r with
        state := r.state.apply command
        store := r.store.syncData
        phase := .settled [command] } base r.logged.length := by
  have hlive := h.live (by rw [hphase]; simp)
  have hgroup := h.phase
  rw [hphase] at hgroup
  obtain ⟨hflushed, hlogged⟩ := hgroup
  refine ⟨h.valid, h.memory.apply command (fun c hc => hc) (h.issued command hlogged) _ _ _,
    h.files.syncData hflushed, h.bound, fun p hp => done_apply command (Or.inl (h.kept p hp)), h.issued,
    fun c hc p hp => h.reported_synced hc hp, fun c hc => Or.inr (Or.inr fun p hp => ?_), fun _ => hlive,
    hflushed, rfl, by simpa using hlogged⟩
  rcases h.applied c hc with happended | hisolated | hcov
  · rw [hphase] at happended
    cases happended
    exact done_apply command (Or.inr hp)
  · rw [hlive] at hisolated
    cases hisolated
  · exact done_apply command (Or.inl (hcov p hp))

theorem Inv.finish (hphase : r.phase = .settled group)
    (few : r.store.commandsSinceCheckpoint < checkpointInterval) :
    Inv crc32c json name barrierPosition
      { r with phase := .idle, reported := r.reported ++ group } base durable := by
  have hlive := h.live (by rw [hphase]; simp)
  have hgroup := h.phase
  rw [hphase] at hgroup
  obtain ⟨hflushed, hdurable, hmem⟩ := hgroup
  refine ⟨h.valid, ⟨h.memory.identified, h.memory.absent, h.memory.origin, h.memory.missing⟩, h.files,
    h.bound, h.kept, h.issued, fun c hc p hp => ?_, fun c hc => Or.inr (Or.inr ?_),
    fun hidle => absurd rfl hidle, Or.inr ⟨hflushed, ?_⟩⟩
  · rcases List.mem_append.1 hc with hc | hc
    · exact h.reported c hc p hp
    · rw [hdurable, List.take_length]
      exact Or.inr (Or.inl ⟨c, hmem c hc, hp⟩)
  · exact h.all_applied (by rw [hphase]; simp) hlive c hc
  · rw [h.files.count] at few
    exact Nat.lt_add_right _ few

/-- A checkpoint of the live state covers everything the files held before. -/
theorem Inv.replaceCheckpoint (hphase : ∀ c, r.phase ≠ .appended c) (hflushed : r.store.pendingWal = [])
    (hgroup : ∀ c ∈ group, c ∈ r.logged)
    (ok : r.store.replaceCheckpoint crc32c json r.state = .ok store) :
    Inv crc32c json name barrierPosition { r with store := store, phase := .replaced group }
      r.state.checkpoint durable := by
  have hfiles := h.files.replaceCheckpoint h.memory.identified ok
  obtain ⟨hlive, file, hfile, rfl⟩ := replaceCheckpoint_eq ok
  have happlied := h.all_applied hphase hlive
  refine ⟨h.valid, ⟨h.memory.identified, h.memory.absent, h.memory.origin, h.memory.missing⟩, hfiles,
    h.bound, fun p hp => Or.inl hp, h.issued, fun c hc p hp => ?_,
    fun c hc => Or.inr (Or.inr (happlied c hc)), fun _ => hlive,
    hflushed, rfl, fun c hc => happlied c (hgroup c hc)⟩
  -- the checkpoint acknowledges exactly what the live state does
  have hdone : r.Done p := by
    rcases h.reported c hc p hp with hbase | ⟨d, hd, hcov⟩ | hmissing
    · exact h.kept p hbase
    · exact happlied d (List.mem_of_mem_take hd) p hcov
    · exact Or.inr hmissing
  exact hdone.imp_right Or.inr

theorem Inv.reset (hphase : r.phase = .replaced group) : Inv crc32c json name barrierPosition
      { r with
        store := r.store.resetWal
        phase := .idle
        reported := r.reported ++ group
        logged := []
        reopened := 0 } base 0 := by
  have hlive := h.live (by rw [hphase]; simp)
  have hgroup := h.phase
  rw [hphase] at hgroup
  obtain ⟨hflushed, rfl, hdone⟩ := hgroup
  refine ⟨h.valid, ⟨h.memory.identified, h.memory.absent, h.memory.origin, h.memory.missing⟩,
    h.files.resetWal hflushed, show 0 < groupStart 1 by decide, h.kept, by simp, fun c hc p hp => ?_,
    by simp, fun hidle => absurd rfl hidle, Or.inr ⟨hflushed, show 0 < groupStart 0 by decide⟩⟩
  rcases List.mem_append.1 hc with hc | hc
  · rcases h.reported c hc p hp with hbase | ⟨d, hd, hcov⟩ | hmissing
    · exact Or.inl hbase
    · exact (h.all_applied (by rw [hphase]; simp) hlive d (List.mem_of_mem_take hd) p hcov).imp_right
        Or.inr
    · exact Or.inr (Or.inr hmissing)
  · exact (hdone c hc p hp).imp_right Or.inr

theorem Inv.fail (written : ℕ) : Inv crc32c json name barrierPosition
      { r with store := r.store.isolate written, phase := .idle } base durable :=
  ⟨h.valid, ⟨h.memory.identified, h.memory.absent, h.memory.origin, h.memory.missing⟩,
    h.files.isolate written, h.bound, h.kept, h.issued, h.reported, fun _ _ => Or.inr (Or.inl rfl),
    fun hidle => absurd rfl hidle, Or.inl rfl⟩

/-- What the checkpoint and a part of the log acknowledge has a reason. -/
theorem Inv.replayed_origin {commands : List ChannelCommand} (hcommands : ∀ c ∈ commands, c ∈ r.logged)
    {maxAckGap p : ℕ}
    (hp : ((load base maxAckGap).replay commands).Acked p) :
    p ≤ barrierPosition ∨ (∃ command ∈ r.issued, command.Covers p) ∨ r.Done p ∧ p ∈ r.gone := by
  rw [replay_acked rfl] at hp
  rcases hp with hp | ⟨other, hother, hcov⟩
  · have hdone := h.kept p hp
    rcases id hdone with hacked | hmissing
    · exact (h.memory.origin p hacked).imp_right (Or.imp_right fun hgone => ⟨hdone, hgone⟩)
    · exact Or.inr (Or.inr ⟨hdone, h.memory.missing hmissing⟩)
  · exact Or.inr (Or.inl ⟨other, h.issued other (hcommands other hother), hcov⟩)

/-- **The channel goes on from what a crash has left.** -/
theorem Inv.reopen (hjson : json.RoundTrips)
    {survived maxAckGap length : ℕ} {commands : List ChannelCommand} {opened compacted : ChannelState}
    {recorded all : Ranges} {availableAt : ℕ → Except BrokerError (Option ℤ)}
    (hsynced : r.store.synced ≤ survived) (hpart : survived ≤ r.store.wal.length)
    (found : recoverWal crc32c (r.store.wal.take survived) = .ok (commands, length))
    (ok : ChannelStore.open crc32c json name r.store.checkpointFile (r.store.wal.take survived)
      maxAckGap = .ok (opened, store))
    (wider : ∀ p ∈ recorded, p ∈ all)
    (compact : (opened.setAbsentRanges recorded).compactRecoveredDpubs availableAt = .ok compacted) :
    Inv crc32c json name barrierPosition
      { r with
        state := compacted.setAbsentRanges all
        store := { store with synced := r.store.synced }
        phase := .idle
        gone := r.gone ∪ {p | p ∈ all}
        logged := commands
        reopened := r.reopened + 1
        missing := r.missing ∪ {p | p ∈ all} } base durable := by
  obtain ⟨⟨count, hdurable, hcommands⟩, hfiles⟩ := h.files.opened hpart hsynced found
  have hmem : ∀ c ∈ commands, c ∈ r.logged := fun c hc =>
    List.mem_of_mem_take (by rwa [hcommands] at hc)
  rw [h.files.open hjson h.valid, found] at ok
  obtain ⟨rfl, rfl⟩ := Prod.mk.inj (Except.ok.inj ok)
  have hacked := reopened_acked wider compact
  have hbound : commands.length < groupStart (r.reopened + 1) := by
    refine lt_of_le_of_lt ?_ h.bound
    rw [hcommands]
    exact List.length_take_le' _ _
  refine ⟨h.valid, ⟨?_, fun p hp => ?_, fun p hp => ?_, ?_⟩, hfiles, ?_, fun p hp => ?_,
    fun c hc => h.issued c (hmem c hc), fun c hc p hp => ?_, fun c hc => Or.inr (Or.inr fun p hp => ?_),
    fun hidle => absurd rfl hidle, Or.inr ⟨rfl, hbound⟩⟩
  · have hload := identified_load (h.files.accepted maxAckGap)
    rw [h.files.named, h.files.barrier] at hload
    exact hload.later ((later_replay _ commands).trans ((later_setAbsentRanges _ recorded).trans
      ((later_compactRecoveredDpubs compact).trans (later_setAbsentRanges _ all))))
  · rw [ChannelState.Absent, (setAbsentRanges_fields _ all).2] at hp
    exact Or.inr hp
  · rcases (hacked p).2 hp with hp | hp
    · exact (h.replayed_origin hmem hp).imp_right (Or.imp_right fun hgone => Or.inl hgone.2)
    · exact Or.inr (Or.inr (Or.inr hp))
  · exact Set.union_subset_union_left _ h.memory.missing
  · refine hbound.trans_le ?_
    show groupStart (r.reopened + 1) ≤ groupStart (r.reopened + 1 + 1)
    rw [groupStart_succ (r.reopened + 1)]
    exact Nat.le_add_right _ _
  · exact ((hacked p).1 ((replay_acked rfl).2 (Or.inl hp))).imp_right Or.inr
  · have htake : commands.take durable = r.logged.take durable := by
      rw [hcommands, List.take_take, min_eq_left hdurable]
    show _ ∨ (∃ other ∈ commands.take durable, _) ∨ _
    rw [htake]
    exact (h.reported c hc p hp).imp_right (Or.imp_right Or.inl)
  · exact ((hacked p).1 ((replay_acked rfl).2 (Or.inr ⟨c, hc, hp⟩))).imp_right Or.inr

theorem Inv.step (hjson : json.RoundTrips) (hstep : Step crc32c json avail name r r') :
    ∃ base' durable', Inv crc32c json name barrierPosition r' base' durable' := by
  cases hstep with
  | lose gone more => exact ⟨_, _, h.lose more⟩
  | inMemory unlocked hlocal => exact ⟨_, _, h.inMemory unlocked hlocal⟩
  | buffer group begun room fits held ok => exact ⟨_, _, h.buffer begun room fits ok⟩
  | flush hphase => exact ⟨_, _, h.flush hphase⟩
  | sync hphase => exact ⟨_, _, h.sync hphase⟩
  | append hphase fits held ok => exact ⟨_, _, h.append hphase fits ok⟩
  | appendSync hphase held => exact ⟨_, _, h.appendSync hphase⟩
  | finish hphase few => exact ⟨_, _, h.finish hphase few⟩
  | replace hphase many ok =>
    have hgroup := h.phase
    rw [hphase] at hgroup
    exact ⟨_, _, h.replaceCheckpoint (by rw [hphase]; simp) hgroup.1 hgroup.2.2 ok⟩
  | force hphase ok =>
    have hflushed := (h.idle hphase (replaceCheckpoint_eq ok).1).1
    exact ⟨_, _, h.replaceCheckpoint (by rw [hphase]; simp) hflushed (by simp) ok⟩
  | reset hphase => exact ⟨_, _, h.reset hphase⟩
  | fail written => exact ⟨_, _, h.fail written⟩
  | reopen hsynced hpart found ok wider compact =>
    exact ⟨_, _, h.reopen hjson hsynced hpart found ok wider compact⟩

end Steps

theorem inv_created {maxAckGap : ℕ} {ranges : Ranges} (valid : validateName name = .ok ())
    (ok : ChannelStore.create crc32c json
      ((new name barrierPosition false maxAckGap).setAbsentRanges ranges) = .ok store) :
    Inv crc32c json name barrierPosition
      { state := (new name barrierPosition false maxAckGap).setAbsentRanges ranges
        store := store
        phase := .idle
        issued := []
        reported := []
        gone := {p | p ∈ ranges}
        logged := []
        reopened := 0
        missing := ∅ }
      ((new name barrierPosition false maxAckGap).setAbsentRanges ranges).checkpoint 0 := by
  have hidentified : ((new name barrierPosition false maxAckGap).setAbsentRanges ranges).Identified
      name barrierPosition :=
    (identified_new name barrierPosition false maxAckGap).later (later_setAbsentRanges _ ranges)
  unfold ChannelStore.create at ok
  cases hfile : writeCheckpoint crc32c json
      ((new name barrierPosition false maxAckGap).setAbsentRanges ranges).checkpoint with
  | error e =>
    rw [hfile] at ok
    cases ok
  | ok file =>
    rw [hfile] at ok
    cases ok
    refine ⟨valid, ⟨hidentified, fun p hp => ?_, fun p hp => ?_, Set.empty_subset _⟩,
      ⟨hfile, hidentified.name, hidentified.barrier, hidentified.fromCheckpoint_checkpoint, rfl, by simp,
        rfl, le_rfl, rfl, le_rfl⟩,
      show 0 < groupStart 1 by decide, fun p hp => Or.inl hp, by simp, by simp, by simp,
      fun hidle => absurd rfl hidle, Or.inr ⟨rfl, show 0 < groupStart 0 by decide⟩⟩
    · rwa [ChannelState.Absent, (setAbsentRanges_fields _ ranges).2] at hp
    · rcases (setAbsentRanges_acked _ ranges p).2 hp with hp | hp
      · exact Or.inl (hp.resolve_right (by simp [new]))
      · exact Or.inr (Or.inr hp)

theorem Reachable.inv (h : Reachable crc32c json avail name barrierPosition r) (hjson : json.RoundTrips) :
    ∃ base durable, Inv crc32c json name barrierPosition r base durable := by
  induction h with
  | created valid ok => exact ⟨_, _, inv_created valid ok⟩
  | step _ hstep ih =>
    obtain ⟨base, durable, hinv⟩ := ih
    exact hinv.step hjson hstep

/-! ### Recovery -/

variable (crc32c json avail)

/-- **A durable channel across crashes.**  Of the log, the synced bytes and any number of the bytes
behind them are left.

* The files are opened exactly if at most `maxRecoveryCommands` whole commands are left, which is so
  after fewer than eight openings since the log was last emptied.
* In the opened channel every position of a reported command is acknowledged, unless an earlier opening
  found it missing.
* It acknowledges a position only if the position was below the barrier, an issued command covers it, or
  the running channel had skipped it because it is not stored. -/
theorem recovers_after_crash (hjson : json.RoundTrips)
    (h : Reachable crc32c json avail name barrierPosition r) {survived : ℕ}
    (hsynced : r.store.synced ≤ survived) (hpart : survived ≤ r.store.wal.length) (maxAckGap : ℕ) :
    ((∃ state store, ChannelStore.open crc32c json name r.store.checkpointFile
        (r.store.wal.take survived) maxAckGap = .ok (state, store)) ↔
      FrameFormat.framesWithin (walFrame crc32c) r.logged survived ≤ maxRecoveryCommands) ∧
    (r.reopened < 8 →
      FrameFormat.framesWithin (walFrame crc32c) r.logged survived ≤ maxRecoveryCommands) ∧
    ∀ state store, ChannelStore.open crc32c json name r.store.checkpointFile
        (r.store.wal.take survived) maxAckGap = .ok (state, store) →
      (∀ command ∈ r.reported, ∀ p, command.Covers p → state.Acked p ∨ p ∈ r.missing) ∧
      ∀ p, state.Acked p → p ≤ barrierPosition ∨ (∃ command ∈ r.issued, command.Covers p) ∨
        r.Done p ∧ p ∈ r.gone := by
  obtain ⟨base, durable, hinv⟩ := h.inv hjson
  have hopen : ChannelStore.open crc32c json name r.store.checkpointFile (r.store.wal.take survived)
      maxAckGap = _ := hinv.files.open hjson hinv.valid maxAckGap
  have hrecover := hinv.files.recoverWal hpart
  refine ⟨?_, fun hfew => ?_, fun state store hok => ?_⟩
  · rw [hopen, hrecover]
    split_ifs with hcount
    · exact iff_of_true ⟨_, _, rfl⟩ hcount
    · refine iff_of_false ?_ hcount
      rintro ⟨state, store, hok⟩
      cases hok
  · have hle := FrameFormat.framesWithin_le (walFrame crc32c) r.logged survived
    have hbound := hinv.bound
    unfold groupStart checkpointInterval maxGroupRequests at hbound
    unfold maxRecoveryCommands checkpointInterval
    omega
  · cases hfound : recoverWal crc32c (r.store.wal.take survived) with
    | error e =>
      rw [hopen, hfound] at hok
      cases hok
    | ok recovered =>
      obtain ⟨commands, length⟩ := recovered
      obtain ⟨⟨count, hdurable, hcommands⟩, -⟩ := hinv.files.opened hpart hsynced hfound
      rw [hopen, hfound] at hok
      obtain ⟨rfl, -⟩ := Prod.mk.inj (Except.ok.inj hok)
      refine ⟨fun command hcommand p hp => ?_, fun p hp => ?_⟩
      · rw [replay_acked rfl, hcommands]
        rcases hinv.reported command hcommand p hp with hbase | ⟨other, hother, hcov⟩ | hmissing
        · exact Or.inl (Or.inl hbase)
        · exact Or.inl (Or.inr ⟨other, List.take_subset_take_left r.logged hdurable hother, hcov⟩)
        · exact Or.inr hmissing
      · exact hinv.replayed_origin (fun c hc => List.mem_of_mem_take (by rwa [hcommands] at hc)) hp

/-! ### Crash after crash -/

section Lives

variable {crc32c json avail}

theorem exists_compactRecoveredDpubs (s : ChannelState) :
    ∃ t, s.compactRecoveredDpubs (fun _ => .ok none) = .ok t := by
  unfold ChannelState.compactRecoveredDpubs
  generalize s.requeuedUntil.keys = keys
  induction keys generalizing s with
  | nil => exact ⟨s, rfl⟩
  | cons k keys ih =>
    have hturn : compactRecoveredDpub (fun _ => .ok none) s k = .ok s := by
      unfold compactRecoveredDpub
      split
      · rfl
      · split_ifs
        · rfl
        · rfl
    rw [List.foldlM_cons, hturn]
    exact ih s

/-- A later run with more in its log, where nothing was missing and nothing failed. -/
structure Adds (r r' : Run) (group : List ChannelCommand) : Prop where
  live : r'.store.isolated = false
  logged : r'.logged = r.logged ++ group
  missing : r'.missing = r.missing

variable (h : Reachable crc32c json avail name barrierPosition r)
include h

/-- A group that is written and synced, before it is reported or checkpointed. -/
theorem Reachable.sync_group (hidle : r.phase = .idle) (hlive : r.store.isolated = false)
    (hfits : ∀ c ∈ group, c.Fits ∧ ∃ p id, c = .finish p id) (hroom : group.length ≤ maxGroupRequests)
    (hsome : group ≠ []) :
    ∃ r', Reachable crc32c json avail name barrierPosition r' ∧ Adds r r' group ∧
      r'.phase = .settled group ∧ r'.reopened = r.reopened ∧ r'.reported = r.reported := by
  -- the commands are buffered one by one
  have hbuffered : ∃ r', Reachable crc32c json avail name barrierPosition r' ∧ Adds r r' group ∧
      (r'.phase = .buffering group ∨ r'.phase = .idle ∧ group = []) ∧
      r'.reopened = r.reopened ∧ r'.reported = r.reported := by
    clear hsome
    induction group using List.reverseRecOn with
    | nil => exact ⟨r, h, ⟨hlive, by simp, rfl⟩, Or.inr ⟨hidle, rfl⟩, rfl, rfl⟩
    | append_singleton group command ih =>
      rw [List.length_append, List.length_singleton] at hroom
      obtain ⟨r', h', hadds, hbegun, hreopened, hreported⟩ :=
        ih (fun c hc => hfits c (List.mem_append_left _ hc)) (by omega)
      obtain ⟨hcommand, p, id, rfl⟩ := hfits command (by simp)
      have ok : r'.store.appendBuffered crc32c (.finish p id) = .ok _ :=
        if_neg (by rw [hadds.live]; simp)
      refine ⟨_, h'.step (.buffer group hbegun (by omega) hcommand nofun ok),
        ⟨hadds.live, ?_, hadds.missing⟩, Or.inl rfl, hreopened, hreported⟩
      show r'.logged ++ [_] = _
      rw [hadds.logged, List.append_assoc]
  obtain ⟨r', h', hadds, hbegun, hreopened, hreported⟩ := hbuffered
  have hphase : r'.phase = .buffering group := hbegun.resolve_right fun hnone => hsome hnone.2
  exact ⟨_, (h'.step (.flush hphase)).step (.sync rfl), ⟨hadds.live, hadds.logged, hadds.missing⟩, rfl,
    hreopened, hreported⟩

/-- A group that is reported, where no checkpoint is due. -/
theorem Reachable.finish_group (hjson : json.RoundTrips) (hidle : r.phase = .idle)
    (hlive : r.store.isolated = false)
    (hfits : ∀ c ∈ group, c.Fits ∧ ∃ p id, c = .finish p id) (hroom : group.length ≤ maxGroupRequests)
    (hsome : group ≠ []) (hfew : r.logged.length + group.length < checkpointInterval) :
    ∃ r', Reachable crc32c json avail name barrierPosition r' ∧ Adds r r' group ∧
      r'.phase = .idle ∧ r'.reopened = r.reopened ∧ r'.reported = r.reported ++ group := by
  obtain ⟨r', h', hadds, hphase, hreopened, hreported⟩ := h.sync_group hidle hlive hfits hroom hsome
  obtain ⟨base, durable, hinv⟩ := h'.inv hjson
  refine ⟨_, h'.step (.finish hphase ?_), ⟨hadds.live, hadds.logged, hadds.missing⟩, rfl, hreopened, ?_⟩
  · rwa [hinv.files.count, hadds.logged, List.length_append]
  · show r'.reported ++ group = _
    rw [hreported]

/-- The whole log, as a crash leaves it behind a synced group. -/
theorem Reachable.recoverWal_settled (hjson : json.RoundTrips) (hphase : r.phase = .settled group) :
    FrameFormat.framesWithin (walFrame crc32c) r.logged r.store.wal.length = r.logged.length ∧
      r.store.synced = r.store.wal.length := by
  obtain ⟨base, durable, hinv⟩ := h.inv hjson
  have hsettled := hinv.phase
  rw [hphase] at hsettled
  obtain ⟨hflushed, rfl, -⟩ := hsettled
  have hframes := hinv.files.frames
  rw [hflushed, List.append_nil] at hframes
  refine ⟨le_antisymm (FrameFormat.framesWithin_le _ _ _) ?_, ?_⟩
  · have hall : r.logged.length ≤ FrameFormat.framesWithin (walFrame crc32c) (r.logged ++ []) _ :=
      FrameFormat.le_framesWithin (congrArg List.length hframes).ge
    rwa [List.append_nil] at hall
  · rw [hinv.files.synced, List.take_length, hframes]

/-- A crash between the sync of a group and the next write, and the start after it. -/
theorem Reachable.restart (hjson : json.RoundTrips) (hphase : r.phase = .settled group)
    (hfew : r.logged.length ≤ maxRecoveryCommands) :
    ∃ r', Reachable crc32c json avail name barrierPosition r' ∧ Adds r r' [] ∧ r'.phase = .idle ∧
      r'.reopened = r.reopened + 1 ∧ r'.reported = r.reported := by
  obtain ⟨hcount, hsynced⟩ := h.recoverWal_settled hjson hphase
  obtain ⟨base, durable, hinv⟩ := h.inv hjson
  have hwhole : r.logged.take r.logged.length = r.logged := List.take_length
  have hfound := hinv.files.recoverWal (le_refl r.store.wal.length)
  rw [hcount, if_pos hfew, hwhole] at hfound
  have hopen : ChannelStore.open crc32c json name r.store.checkpointFile
      (r.store.wal.take r.store.wal.length) 16 = _ := hinv.files.open hjson hinv.valid 16
  rw [hfound] at hopen
  obtain ⟨compacted, hcompact⟩ := exists_compactRecoveredDpubs
    (((load base 16).replay r.logged).setAbsentRanges .none)
  refine ⟨_, h.step (.reopen hsynced.le le_rfl hfound hopen (fun p hp => hp) hcompact),
    ⟨rfl, (List.append_nil _).symm, ?_⟩, rfl, rfl, rfl⟩
  show r.missing ∪ {p | p ∈ Ranges.none} = r.missing
  simp [Ranges.not_mem_none]

end Lives

/-- Deliveries that are finished in the order of their positions. -/
def finishes (first count : ℕ) : List ChannelCommand :=
  (List.range' (first + 1) count).map fun n => .finish n n

theorem finishes_append (count more : ℕ) :
    finishes 0 count ++ finishes count more = finishes 0 (count + more) := by
  rw [finishes, finishes, finishes, ← List.map_append, ← List.range'_append_1, Nat.add_comm count]

theorem length_finishes (first count : ℕ) : (finishes first count).length = count := by
  rw [finishes, List.length_map, List.length_range']

/-- Finishes that fill a group. -/
theorem finishes_group {first count : ℕ} (h : first + count ≤ u64Max) (hsome : 0 < count)
    (hroom : count ≤ maxGroupRequests) : (∀ c ∈ finishes first count, c.Fits ∧ ∃ p id, c = .finish p id) ∧
      (finishes first count).length ≤ maxGroupRequests ∧ finishes first count ≠ [] := by
  rw [← List.length_pos_iff, length_finishes]
  refine ⟨fun c hc => ?_, hroom, hsome⟩
  obtain ⟨n, hn, rfl⟩ := List.mem_map.1 hc
  have hn := List.mem_range'_1.1 hn
  have hword : IsU64 n := by
    unfold IsU64
    omega
  exact ⟨⟨hword, hword⟩, n, n, rfl⟩

theorem reachable_workers : ∃ r, Reachable crc32cSum compactJson (fun _ => 0) "workers" 0 r ∧
    r.phase = .idle ∧ r.store.isolated = false ∧ r.logged = [] ∧ r.reopened = 0 ∧ r.reported = [] ∧
    r.missing = ∅ := by
  let s := (new "workers" 0 false 16).setAbsentRanges .none
  have hsize : (compactJson.toVec s.checkpoint).length ≤ 1000 := by decide +kernel
  have hcreate : ChannelStore.create crc32cSum compactJson s =
      .ok ⟨checkpointBytes crc32cSum compactJson s.checkpoint, [], 0, [], 0, false⟩ := by
    unfold ChannelStore.create writeCheckpoint
    rw [checkpointBytes_length, if_neg, if_neg]
    · rfl
    · unfold maxMetadataBytes walHeaderLen
      omega
    · unfold maxCheckpointBytes
      omega
  exact ⟨_, .created (show validateName "workers" = .ok () from rfl) hcreate, rfl, rfl, rfl, rfl, rfl, rfl⟩

/-- One delivery after the other is finished, before a checkpoint is due. -/
theorem reachable_finishes {count : ℕ} (hcount : count < checkpointInterval) :
    ∃ r, Reachable crc32cSum compactJson (fun _ => 0) "workers" 0 r ∧ r.phase = .idle ∧
      r.store.isolated = false ∧ r.logged = finishes 0 count ∧ r.reopened = 0 := by
  induction count with
  | zero =>
    obtain ⟨r, h, hidle, hlive, hlogged, hreopened, -⟩ := reachable_workers
    exact ⟨r, h, hidle, hlive, hlogged, hreopened⟩
  | succ count ih =>
    obtain ⟨r, h, hidle, hlive, hlogged, hreopened⟩ := ih (by omega)
    obtain ⟨hfits, hroom, hsome⟩ := @finishes_group count 1
      (by unfold checkpointInterval at hcount; unfold u64Max; omega) (by decide) (by decide)
    obtain ⟨r', h', hadds, hidle', hreopened', -⟩ := h.finish_group compactJson_roundTrips hidle hlive
      hfits hroom hsome (by rwa [hlogged, length_finishes, length_finishes])
    exact ⟨r', h', hidle', hadds.live, by rw [hadds.logged, hlogged, finishes_append],
      hreopened'.trans hreopened⟩

/-- The log after lives that each end between the sync of a group and the reset of the log. -/
theorem reachable_lives {lives : ℕ} (hlives : lives ≤ 8) :
    ∃ r group, Reachable crc32cSum compactJson (fun _ => 0) "workers" 0 r ∧ r.phase = .settled group ∧
      r.logged = finishes 0 (9215 + 1024 * lives) ∧ r.reopened = lives := by
  induction lives with
  | zero =>
    -- one command less than an interval, and a group on top of it
    obtain ⟨r, h, hidle, hlive, hlogged, hreopened⟩ := @reachable_finishes 8191 (by decide)
    obtain ⟨hfits, hroom, hsome⟩ := @finishes_group 8191 1024 (by decide) (by decide) le_rfl
    obtain ⟨r', h', hadds, hphase, hreopened', -⟩ := h.sync_group hidle hlive hfits hroom hsome
    exact ⟨r', _, h', hphase, by rw [hadds.logged, hlogged, finishes_append], hreopened'.trans hreopened⟩
  | succ lives ih =>
    obtain ⟨r, group, h, hphase, hlogged, hreopened⟩ := ih (by omega)
    obtain ⟨r', h', hadds, hidle, hreopened', -⟩ := h.restart compactJson_roundTrips hphase (by
      rw [hlogged, length_finishes]
      unfold maxRecoveryCommands checkpointInterval
      omega)
    obtain ⟨hfits, hroom, hsome⟩ := @finishes_group (9215 + 1024 * lives) 1024
      (by unfold u64Max; omega) (by decide) le_rfl
    obtain ⟨r'', h'', hadds', hphase', hreopened'', -⟩ := h'.sync_group hidle hadds.live hfits hroom hsome
    refine ⟨r'', _, h'', hphase', ?_, by rw [hreopened'', hreopened', hreopened]⟩
    rw [hadds'.logged, hadds.logged, List.append_nil, hlogged, finishes_append, Nat.mul_succ, Nat.add_assoc]

/-- **Eight crashes in a row, each after the sync of a group that makes a checkpoint due and before the
log is reset, and the files are not opened any more.**  The first life finishes 9215 deliveries and
each later one 1024 more, and all of it is synced. -/
theorem open_fails_after_crashes :
    ∃ r : Run, Reachable crc32cSum compactJson (fun _ => 0) "workers" 0 r ∧ r.reopened = 8 ∧
      r.logged = finishes 0 17407 ∧ r.store.synced = r.store.wal.length ∧
      ∀ maxAckGap, ChannelStore.open crc32cSum compactJson "workers" r.store.checkpointFile
          (r.store.wal.take r.store.wal.length) maxAckGap =
        .error (.invalidRecord "channel WAL contains too many commands without a checkpoint") := by
  obtain ⟨r, group, h, hphase, hlogged, hreopened⟩ := @reachable_lives 8 le_rfl
  obtain ⟨hcount, hsynced⟩ := h.recoverWal_settled compactJson_roundTrips hphase
  obtain ⟨base, durable, hinv⟩ := h.inv compactJson_roundTrips
  refine ⟨r, h, hreopened, hlogged, hsynced, fun maxAckGap => ?_⟩
  have hmany : ¬r.logged.length ≤ maxRecoveryCommands := by
    rw [hlogged, length_finishes]
    decide
  rw [hinv.files.open compactJson_roundTrips hinv.valid, hinv.files.recoverWal le_rfl, hcount,
    if_neg hmany]
  rfl

/-- A finish reported in an earlier life and one reported in this life, out of order, are acknowledged
after the crash that follows. -/
theorem recovers_after_crash_twice :
    ∃ r : Run, compactJson.RoundTrips ∧ Reachable crc32cSum compactJson (fun _ => 0) "workers" 0 r ∧
      r.reopened = 1 ∧ r.reported = [.finish 1 7, .finish 3 9] ∧
      r.logged = [.finish 1 7, .finish 4 5, .finish 3 9] ∧
      ∃ state store, ChannelStore.open crc32cSum compactJson "workers" r.store.checkpointFile
        (r.store.wal.take r.store.wal.length) 16 = .ok (state, store) ∧ state.Acked 1 ∧ state.Acked 3 := by
  have hfits : ∀ p id, p ≤ 9 → id ≤ 9 → ∀ c ∈ [ChannelCommand.finish p id],
      c.Fits ∧ ∃ p id, c = .finish p id := by
    intro p id hp hid c hc
    rw [List.mem_singleton.1 hc]
    refine ⟨?_, p, id, rfl⟩
    constructor <;> (unfold IsU64 u64Max; omega)
  have hjson := compactJson_roundTrips
  obtain ⟨r₀, h₀, hidle₀, hlive₀, hlogged₀, hreopened₀, hreported₀, hmissing₀⟩ := reachable_workers
  -- one finish is reported, the next is synced and not reported before the crash
  obtain ⟨r₁, h₁, hadds₁, hidle₁, hreopened₁, hreported₁⟩ := h₀.finish_group hjson hidle₀ hlive₀
    (hfits 1 7 (by decide) (by decide)) (by decide) (by simp) (by rw [hlogged₀]; decide)
  obtain ⟨r₂, h₂, hadds₂, hphase₂, hreopened₂, hreported₂⟩ := h₁.sync_group hidle₁ hadds₁.live
    (hfits 4 5 (by decide) (by decide)) (by decide) (by simp)
  have hlogged₂ : r₂.logged = [.finish 1 7, .finish 4 5] := by
    rw [hadds₂.logged, hadds₁.logged, hlogged₀]
    rfl
  obtain ⟨r₃, h₃, hadds₃, hidle₃, hreopened₃, hreported₃⟩ := h₂.restart hjson hphase₂
    (by rw [hlogged₂]; decide)
  have hlogged₃ : r₃.logged = [.finish 1 7, .finish 4 5] := by
    rw [hadds₃.logged, hlogged₂]
    rfl
  obtain ⟨r, h, hadds, hidle, hreopened, hreported⟩ := h₃.finish_group hjson hidle₃ hadds₃.live
    (hfits 3 9 (by decide) (by decide)) (by decide) (by simp) (by rw [hlogged₃]; decide)
  have hone : r.reopened = 1 := by rw [hreopened, hreopened₃, hreopened₂, hreopened₁, hreopened₀]
  have hall : r.reported = [.finish 1 7, .finish 3 9] := by
    rw [hreported, hreported₃, hreported₂, hreported₁, hreported₀]
    rfl
  have hnone : ∀ p, p ∉ r.missing := by
    intro p
    rw [hadds.missing, hadds₃.missing, hadds₂.missing, hadds₁.missing, hmissing₀]
    exact Set.notMem_empty p
  obtain ⟨base, durable, hinv⟩ := h.inv hjson
  obtain ⟨hopens, hfew, hstate⟩ := recovers_after_crash crc32cSum compactJson (fun _ => 0) hjson h
    hinv.files.synced_le le_rfl 16
  obtain ⟨state, store, hopen⟩ := hopens.2 (hfew (by rw [hone]; decide))
  obtain ⟨hacked, -⟩ := hstate state store hopen
  refine ⟨r, hjson, h, hone, hall, by rw [hadds.logged, hlogged₃]; rfl, state, store, hopen, ?_, ?_⟩
  · exact (hacked (.finish 1 7) (by rw [hall]; simp) 1 rfl).resolve_right (hnone 1)
  · exact (hacked (.finish 3 9) (by rw [hall]; simp) 3 rfl).resolve_right (hnone 3)

end Run

end RustQueue.Channel
