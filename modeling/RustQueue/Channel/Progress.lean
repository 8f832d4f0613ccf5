import RustQueue.Channel.Candidate

/-!
# The search ends

`SearchEnds` is a call in which both loops of `next_candidate` end, with the number of their turns.  The
redelivery scan looks at no position twice and the cursor moves in every turn below the largest word, so
a call ends within a turn for each position offered for redelivery and each position the cursor has
before it, and its answer is that of `nextCandidate`.
-/

namespace RustQueue.Channel

open Lib

namespace ChannelState

variable {σ : Type*} {nowMs : ℤ} {lastPosition : ℕ} {availableAt : σ → ℕ → MessageAvailability × σ}

theorem redelivery_nextPosition {turns : ℕ} {s s' : ChannelState} {e e' : σ} {found : Option NextCandidate}
    (h : Ends (redeliveryTurn nowMs availableAt) turns (none, s, e) (found, s', e')) :
    s.nextPosition ≤ s'.nextPosition := by
  have hR : RedeliveryInvariant nowMs availableAt fun _ t (_ : σ) => s.nextPosition ≤ t.nextPosition :=
    { drop := fun hle _ _ => hle.trans (le_max_left _ _)
      wait := fun hle _ _ _ => hle
      later := fun hle _ _ _ _ => hle
      gone := fun {_ t _ _ _} hle _ _ _ => hle.trans (t.nextPosition_le_acknowledge _) }
  cases h.rule (redeliveryTurn_rule hR) le_rfl with
  | ended inv | taken inv | unloaded inv => exact inv

/-! ### A call -/

/-- A call of `next_candidate` that ends, with the turns of its two loops: nothing is searched in a
paused channel, and the cursor is not asked when the redelivery scan has an answer. -/
inductive SearchEnds (s : ChannelState) (nowMs : ℤ) (lastPosition : ℕ)
    (availableAt : σ → ℕ → MessageAvailability × σ) (e : σ) : ℕ → NextCandidate × ChannelState × σ → Prop
  | paused (hpaused : s.paused = true) : SearchEnds s nowMs lastPosition availableAt e 0 (.none, s, e)
  | redelivery {turns : ℕ} {candidate : NextCandidate} {t : ChannelState} {e' : σ}
      (hrunning : s.paused = false)
      (scan : Ends (redeliveryTurn nowMs availableAt) turns (none, s.rewind nowMs, e)
        (some candidate, t, e')) :
      SearchEnds s nowMs lastPosition availableAt e turns (candidate, t, e')
  | cursor {turns cursorTurns : ℕ} {t : ChannelState} {e' : σ} {answer : NextCandidate × ChannelState × σ}
      (hrunning : s.paused = false)
      (scan : Ends (redeliveryTurn nowMs availableAt) turns (none, s.rewind nowMs, e) (none, t, e'))
      (rest : Ends (cursorTurn nowMs lastPosition availableAt) cursorTurns (t, e') answer) :
      SearchEnds s nowMs lastPosition availableAt e (turns + cursorTurns) answer

/-- **A search ends** within a turn for each position offered for redelivery and each position the
cursor has before it. -/
theorem search_ends (s : ChannelState) (nowMs : ℤ) (hlast : lastPosition < u64Max)
    (availableAt : σ → ℕ → MessageAvailability × σ) (e : σ) :
    ∃ turns answer, turns ≤ s.redelivery.card + (lastPosition + 1 - (s.rewind nowMs).nextPosition) ∧
      SearchEnds s nowMs lastPosition availableAt e turns answer ∧
      s.nextCandidate nowMs lastPosition availableAt e = some answer := by
  obtain ⟨answer, hanswer⟩ :=
    Option.isSome_iff_exists.1 (s.nextCandidate_isSome nowMs availableAt e hlast)
  have hcall := hanswer
  rw [nextCandidate] at hcall
  have hrewind : (s.rewind nowMs).redelivery.card = s.redelivery.card := by
    unfold rewind
    split
    · rfl
    · split_ifs <;> rfl
  split_ifs at hcall with hpaused
  · obtain rfl := Option.some.inj hcall
    exact ⟨0, _, Nat.zero_le _, .paused hpaused, hanswer⟩
  · rw [Bool.not_eq_true] at hpaused
    dsimp only at hcall
    split at hcall
    · cases hcall
    all_goals
      rename_i hloop
      obtain ⟨turns, hturns, hscan⟩ := loop_ends hloop
    · obtain rfl := Option.some.inj hcall
      exact ⟨turns, _, by omega, .redelivery hpaused hscan, hanswer⟩
    · have hforward := redelivery_nextPosition hscan
      obtain ⟨cursorTurns, hcursor, hrest⟩ := loop_ends hcall
      refine ⟨turns + cursorTurns, answer, ?_, .cursor hpaused hscan hrest, hanswer⟩
      unfold cursorFuel at hcursor
      omega

/-! ### Progress -/

/-- **The search terminates and makes progress.**  The loops of the search end within as many turns as
there are positions offered for redelivery, positions left to the cursor after the rewind and absent
ranges, and with its answer; the loop of the floor scan ends within a turn for each acknowledged
position and each absent range, and one more, in front of a position that is neither absent nor
acknowledged, or at the largest word; and a position that had to be loaded is not asked for again once
its page answers. -/
theorem search_terminates {σ σ' : Type*} (s : ChannelState) (nowMs : ℤ) {lastPosition : ℕ}
    (hlast : lastPosition < u64Max) (availableAt : σ → ℕ → MessageAvailability × σ) (e : σ) :
    (∃ turns answer, turns ≤ s.redelivery.card +
        (lastPosition + 1 - (s.rewind nowMs).nextPosition) + s.absentRanges.toList.length ∧
      SearchEnds s nowMs lastPosition availableAt e turns answer ∧
      s.nextCandidate nowMs lastPosition availableAt e = some answer) ∧
    (∀ t : ChannelState,
      (∃ turns ≤ t.acknowledged.card + t.absentRanges.toList.length + 1,
        Ends (advanceTurn t.absentRanges) turns (t.ackFloorPosition, t.acknowledged)
          (t.advanceAckFloor.ackFloorPosition, t.advanceAckFloor.acknowledged)) ∧
      FloorSettled t.absentRanges t.advanceAckFloor.ackFloorPosition t.advanceAckFloor.acknowledged) ∧
    ∀ p s' e', s.nextCandidate nowMs lastPosition availableAt e = some (.load p, s', e') →
      ∀ (lookup : σ' → ℕ → MessageAvailability × σ'), (∀ f, (lookup f p).1 ≠ .missing) →
        ∀ f last s'' f', s'.nextCandidate nowMs last lookup f ≠ some (.load p, s'', f') := by
  refine ⟨?_, fun t => ⟨t.advanceAckFloor_ends, t.advanceAckFloor_settled⟩,
    fun p s' e' _ lookup hloaded f last s'' f' h => ?_⟩
  · obtain ⟨turns, answer, hturns, hends, hanswer⟩ := s.search_ends nowMs hlast availableAt e
    exact ⟨turns, answer, by omega, hends, hanswer⟩
  · cases searchInvariant_true.stop trivial h with
    | load _ missing => exact hloaded _ (by rw [missing])

/-- Position 1 is put back until 100, positions 2 and 3 are absent. -/
def putBack : ChannelState :=
  { new "workers" 0 false 8 with
    nextPosition := 2
    redelivery := {1}
    requeuedUntil := (∅ : Std.ExtTreeMap ℕ ℤ).insert 1 100
    absentRanges := ⟨[(2, 3)], by simp, by simp⟩ }

/-- The channel passes the position put back and the absent range, asks for the unloaded position
behind them, and does not ask again once its page says that the message is ready. -/
theorem search_terminates_load :
    (∃ turns answer, turns ≤ 1 + (5 + 1 - 2) + 1 ∧
      SearchEnds putBack 0 5 (fun (e : Unit) _ => (.missing, e)) () turns answer ∧
      putBack.nextCandidate 0 5 (fun (e : Unit) _ => (.missing, e)) () = some answer) ∧
    putBack.nextCandidate 0 5 (fun (e : Unit) _ => (.missing, e)) () =
      some (.load 4, putBack.jumpAbsent 3, ()) ∧
    ∀ f last s'' f', (putBack.jumpAbsent 3).nextCandidate 0 last (fun (e : Unit) _ => (.ready 0, e)) f ≠
      some (.load 4, s'', f') :=
  have hload : putBack.nextCandidate 0 5 (fun (e : Unit) _ => (.missing, e)) () =
      some (.load 4, putBack.jumpAbsent 3, ()) := rfl
  have hends := search_terminates putBack 0 (show 5 < u64Max by decide)
    (fun (e : Unit) _ => (.missing, e)) ()
  ⟨hends.1, hload, hends.2.2 4 _ () hload _ fun _ => by simp⟩

end ChannelState

end RustQueue.Channel
