import RustQueue.Name
import RustQueue.Topic.Batch

/-!
# Publishing

The checks that every publish passes before it is queued, and the size of the record it becomes.
-/

namespace RustQueue.Broker

open Storage Topic

/-- The payload of the record of a batch of bodies. -/
def encodedBytes (bodies : List (List UInt8)) : ℕ :=
  4 + (bodies.map fun body => 20 + body.length).sum

/-- The answer is the payload of the record.  A sum that does not fit into a word is refused like
any other sum above the limit. -/
def validatePublishRequest (topic : String) (access : Except BrokerError Unit)
    (maxMessageBytes : ℕ) (bodies : List (List UInt8)) : Except BrokerError ℕ :=
  match validateName topic, access with
  | .error _, _ => .error .invalidTopic
  | .ok (), .error error => .error error
  | .ok (), .ok () =>
    if bodies = [] ∨ maxMessages < bodies.length then .error .batchTooLarge
    else if ∃ body ∈ bodies, body = [] ∨ maxMessageBytes < body.length then .error .messageTooLarge
    else if maxRecordBytes < encodedBytes bodies then .error .batchTooLarge
    else .ok (encodedBytes bodies)

/-- What an accepted batch is like. -/
theorem validatePublishRequest_eq_ok_iff {topic : String} {access : Except BrokerError Unit}
    {maxMessageBytes bytes : ℕ} {bodies : List (List UInt8)} :
    validatePublishRequest topic access maxMessageBytes bodies = .ok bytes ↔
      validateName topic = .ok () ∧ access = .ok () ∧ bodies ≠ [] ∧ bodies.length ≤ maxMessages ∧
        (∀ body ∈ bodies, body ≠ [] ∧ body.length ≤ maxMessageBytes) ∧
        encodedBytes bodies ≤ maxRecordBytes ∧ bytes = encodedBytes bodies := by
  unfold validatePublishRequest
  constructor
  · intro h
    split at h
    · cases h
    · cases h
    · rename_i hname
      split_ifs at h with hcount hbody hlarge
      cases h
      rw [not_or, not_lt] at hcount
      refine ⟨hname, rfl, hcount.1, hcount.2, fun body hmem => ?_, not_lt.1 hlarge, rfl⟩
      refine ⟨fun hempty => hbody ⟨body, hmem, Or.inl hempty⟩, ?_⟩
      exact not_lt.1 fun hlt => hbody ⟨body, hmem, Or.inr hlt⟩
  · rintro ⟨hname, rfl, hsome, hcount, hbodies, hbytes, rfl⟩
    have hbody : ¬∃ body ∈ bodies, body = [] ∨ maxMessageBytes < body.length := by
      rintro ⟨body, hmem, hwrong⟩
      exact hwrong.elim (hbodies body hmem).1 (not_lt.2 (hbodies body hmem).2)
    rw [hname]
    dsimp only
    rw [if_neg (not_or.2 ⟨hsome, not_lt.2 hcount⟩), if_neg hbody, if_neg (not_lt.2 hbytes)]

theorem payloadLen_eq_encodedBytes (batch : PublishBatch) :
    batch.payloadLen = encodedBytes (batch.entries.map (·.body)) := by
  rw [PublishBatch.payloadLen, encodedBytes, List.map_map]
  rfl

theorem encode_isOk (crc32c : List UInt8 → UInt32) (firstPosition firstId : ℕ)
    {bodies : List (List UInt8)} (h : ∀ body ∈ bodies, body.length ≤ Lib.u32Max) :
    ∃ entries, encode crc32c firstPosition firstId bodies = .ok entries ∧
      entries.map (·.body) = bodies := by
  have hfrom : ∀ offset, ∃ entries,
      encodeFrom crc32c firstPosition firstId offset bodies = .ok entries ∧
        entries.map (·.body) = bodies := by
    induction bodies generalizing firstPosition firstId with
    | nil => exact fun _ => ⟨[], rfl, rfl⟩
    | cons body bodies ih =>
      intro offset
      obtain ⟨rest, hrest, hbodies⟩ := ih (Lib.satSucc firstPosition) (Lib.satSucc firstId)
        (fun other hother => h other (List.mem_cons_of_mem _ hother))
        (offset + itemHeader + body.length)
      rw [encodeFrom, if_neg (not_lt.2 (h body List.mem_cons_self))]
      simp only [hrest]
      exact ⟨_, rfl, by rw [List.map_cons, hbodies]⟩
  exact hfrom 4

end RustQueue.Broker
