import Stella.Archive.Model

/-! # What one step of a rollover pass or a spill can do

`PassOutcome` names every effect of `passStep` once, with the guards it stands under.
-/

namespace Stella.Conversation.ConversationArchive

variable {s : ConversationArchive}

@[simp] theorem withJournal_journal (s : ConversationArchive) (journal : Journal) :
    (s.withJournal journal).journal = journal := rfl

variable {w w' : Write}

theorem mem_setWrite {i : Nat} (h : w' ∈ (s.setWrite i w).writes) : w' = w ∨ w' ∈ s.writes :=
  (List.mem_or_eq_of_mem_set h).symm

theorem mem_track (h : w' ∈ (s.track w).writes) : w' = w ∨ w' ∈ s.writes := by
  rcases List.mem_append.mp h with h | h
  · exact .inr h
  · exact .inl (List.mem_singleton.mp h)

variable {put p : Put}

theorem mem_store : p ∈ (s.store put).bucket ↔ p = put ∨ p ∈ s.bucket ∧ p.key ≠ put.key := by
  simp [store]

theorem exists_key_store (h : p ∈ s.bucket) : ∃ p' ∈ (s.store put).bucket, p'.key = p.key := by
  by_cases hKey : p.key = put.key
  · exact ⟨put, mem_store.mpr (.inl rfl), hKey.symm⟩
  · exact ⟨p, mem_store.mpr (.inr ⟨h, hKey⟩), rfl⟩

def segmentPut : Write → Option (Nat × Nat × Put)
  | .recovering _ firstSeq lastSeq put => some (firstSeq, lastSeq, put)
  | .uploading firstSeq lastSeq put => some (firstSeq, lastSeq, put)
  | _ => none

theorem putOf_of_segmentPut {firstSeq lastSeq : Nat}
    (h : segmentPut w = some (firstSeq, lastSeq, put)) : putOf w = some put := by
  cases w <;> simp_all [segmentPut, putOf]

inductive PassOutcome (sha256Hex : String → String) (s : ConversationArchive) : PassInput → ConversationArchive → Prop
  | same (input) : PassOutcome sha256Hex s input s
  /-- a pass starts, with nothing left behind by an earlier one -/
  | begins (now) (hOpen : s.sealed = false) : PassOutcome sha256Hex s (.maybeRollover now) (s.track (.deciding now))
  | recovers (now pending) (hOpen : s.sealed = false) (hPending : s.journal.pendingSegment = some pending) :
      PassOutcome sha256Hex s (.maybeRollover now) (s.track (.recovering now pending.firstSeq pending.lastSeq
        (s.uploadOf pending.r2Key pending.firstSeq pending.lastSeq pending.rows pending.createdAt)))
  /-- a write ends without an effect -/
  | ends (input i) : PassOutcome sha256Hex s input (s.setWrite i .settled)
  | cuts (i dbBytes now cutSeq) (hWrite : s.writes[i]? = some (.deciding now)) :
      PassOutcome sha256Hex s (.decided i dbBytes) (s.setWrite i (.cutting now s.journal.hotMinSeq cutSeq))
  /-- the intent is recorded and the upload starts -/
  | uploads (i now root firstSeq cutSeq lastSeq count bytes)
      (hWrite : s.writes[i]? = some (.cutting now firstSeq cutSeq))
      (hRoot : s.journal.root sha256Hex = some root)
      (hRange : s.journal.cutRange firstSeq cutSeq = some (lastSeq, count, bytes)) :
      PassOutcome sha256Hex s (.prefixed i) (s.recordIntent i now root firstSeq lastSeq count bytes)
  | spills (i writerKey payload root digest) (hWrite : s.writes[i]? = some (.keying writerKey payload)) :
      PassOutcome sha256Hex s (.prefixed i) (s.setWrite i (.spilling ⟨.spill root digest, .spill payload⟩))
  /-- a segment is in the bucket and is committed -/
  | commits (i w firstSeq lastSeq put w') (hWrite : s.writes[i]? = some w)
      (hPut : segmentPut w = some (firstSeq, lastSeq, put)) (hAfter : putOf w' = none) :
      PassOutcome sha256Hex s (.stored i)
        (((s.store put).withJournal (s.journal.commitSegment firstSeq lastSeq)).setWrite i w')
  | records (i put) (hWrite : s.writes[i]? = some (.spilling put)) :
      PassOutcome sha256Hex s (.stored i)
        (((s.store put).withJournal (s.journal.recordSpill put.key)).setWrite i .settled)
  | abandons (i w put) (hWrite : s.writes[i]? = some w) (hPut : putOf w = some put) :
      PassOutcome sha256Hex s (.timedOut i) { s.setWrite i .settled with late := s.late ++ [put] }
  | lands (k put) (hLate : s.late[k]? = some put) :
      PassOutcome sha256Hex s (.landed k) { s.store put with late := s.late.eraseIdx k }

theorem passStep_outcome (sha256Hex : String → String) (s : ConversationArchive) (input : PassInput) :
    PassOutcome sha256Hex s input (s.passStep sha256Hex input) := by
  cases input with
  | maybeRollover now =>
    simp only [passStep, maybeRollover]
    split
    · exact .same _
    · rename_i hClosed
      have hOpen : s.sealed = false := by
        rw [← Bool.not_eq_true]
        exact fun hSealed => hClosed (.inl hSealed)
      split
      · exact .begins now hOpen
      · rename_i hPend
        exact .recovers now _ hOpen hPend
  | decided i dbBytes =>
    simp only [passStep]
    split
    · rename_i hWrite
      simp only [rollover]
      split
      · exact .ends _ i
      · split
        · exact .ends _ i
        · exact .cuts i dbBytes _ _ hWrite
    · exact .same _
  | prefixed i =>
    simp only [passStep]
    split
    · rename_i hWrite
      unfold cut
      split
      · exact .ends _ i
      · rename_i hRoot
        split
        · exact .ends _ i
        · split
          · exact .ends _ i
          · rename_i hRng
            exact .uploads i _ _ _ _ _ _ _ hWrite hRoot hRng
    · rename_i hWrite
      unfold issueSpill
      split
      · exact .ends _ i
      · exact .spills i _ _ _ _ hWrite
    · exact .same _
  | stored i =>
    simp only [passStep, stored]
    split
    · rename_i hWrite
      exact .commits i _ _ _ _ _ hWrite rfl rfl
    · rename_i hWrite
      exact .commits i _ _ _ _ _ hWrite rfl rfl
    · rename_i hWrite
      exact .records i _ hWrite
    · exact .same _
  | failed i =>
    simp only [passStep, failed]
    split
    · exact .ends _ i
    · exact .same _
  | timedOut i =>
    simp only [passStep, timedOut]
    split
    · rename_i put hPut
      obtain ⟨w, hWrite, hW⟩ := Option.bind_eq_some_iff.mp hPut
      exact .abandons i w put hWrite hW
    · exact .same _
  | landed k =>
    simp only [passStep, landed]
    split
    · rename_i put hLate
      exact .lands k put hLate
    · exact .same _

end Stella.Conversation.ConversationArchive
