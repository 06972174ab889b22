import Stella.Library.Gapless
import Stella.Conversation.Socket.Model

/-! # Placing one record

What `collect` does with a record, by where its seq lies: stale, beyond a hole,
beyond a hole with the buffer full, or next, which also drains the buffer.
-/

namespace Stella.Conversation

open Gapless List

namespace ConversationSocket

theorem drainAhead_spec (fuel : Nat) (lastSeq : Int) (ahead applied : List JournalRecord) :
    ∃ more, (drainAhead fuel lastSeq ahead applied).2.2 = applied ++ more ∧
      RunFrom JournalRecord.position (lastSeq + 1) more ∧
      (drainAhead fuel lastSeq ahead applied).1 = lastSeq + more.length ∧ more ⊆ ahead ∧
      (drainAhead fuel lastSeq ahead applied).2.1 ⊆ ahead := by
  induction fuel generalizing lastSeq ahead applied with
  | zero => exact ⟨[], by simp [drainAhead], trivial, by simp [drainAhead], by simp, fun _ h => h⟩
  | succ fuel ih =>
    rw [drainAhead]
    cases hFind : ahead.find? (fun r => r.position == lastSeq + 1) with
    | none => exact ⟨[], by simp, trivial, by simp, by simp, fun _ h => h⟩
    | some next =>
      have hNext : next.position = lastSeq + 1 := by simpa using find?_some hFind
      obtain ⟨more, hApplied, hRun, hLast, hMore, hAhead⟩ :=
        ih next.position (ahead.filter (fun r => r.seq != next.seq)) (applied ++ [next])
      have hFilter : ahead.filter (fun r => r.seq != next.seq) ⊆ ahead := filter_sublist.subset
      refine ⟨next :: more, by simpa using hApplied, ⟨hNext, hNext ▸ hRun⟩, ?_, ?_, List.Subset.trans hAhead hFilter⟩
      · simp only [hLast, length_cons]
        omega
      · exact cons_subset.mpr ⟨mem_of_find?_eq_some hFind, List.Subset.trans hMore hFilter⟩

theorem aheadSet_subset (ahead : List JournalRecord) (record : JournalRecord) :
    aheadSet ahead record ⊆ record :: ahead := by
  unfold aheadSet
  split
  · intro r hr
    obtain ⟨q, hq, rfl⟩ := mem_map.mp hr
    split
    · exact mem_cons_self
    · exact mem_cons_of_mem _ hq
  · intro r hr
    rcases mem_append.mp hr with hr | hr
    · exact mem_cons_of_mem _ hr
    · exact mem_cons.mpr (.inl (mem_singleton.mp hr))

section

variable (s : ConversationSocket)

@[simp] theorem anchored_trace : s.anchored.trace = s.trace := by
  unfold anchored
  split <;> rfl

@[simp] theorem anchored_windowStartSeq :
    s.anchored.windowStartSeq = s.windowStartSeq := by
  unfold anchored
  split <;> rfl

@[simp] theorem anchored_ahead : s.anchored.ahead = s.ahead := by
  unfold anchored
  split <;> rfl

end

section MoveTo

variable (s : ConversationSocket) (lastSeq : Int) (ahead : List JournalRecord)

@[simp] theorem moveTo_lastSeq : (s.moveTo lastSeq ahead).lastSeq = lastSeq := rfl
@[simp] theorem moveTo_ahead : (s.moveTo lastSeq ahead).ahead = ahead := rfl
@[simp] theorem moveTo_headSeq : (s.moveTo lastSeq ahead).headSeq = s.headSeq := rfl
@[simp] theorem moveTo_windowStartSeq : (s.moveTo lastSeq ahead).windowStartSeq = s.windowStartSeq := rfl
@[simp] theorem moveTo_trace : (s.moveTo lastSeq ahead).trace = s.trace := rfl

end MoveTo

theorem anchored_idem (s : ConversationSocket) : s.anchored.anchored = s.anchored := by
  unfold anchored
  split
  · dsimp only
    split <;> rfl
  · rfl

theorem requestGap_pending (env : Env) {s : ConversationSocket} (throughSeq : Int) (h : s.gapPending = true) :
    s.requestGap env throughSeq = (s, true) := by
  unfold requestGap
  rw [if_pos h]

def Overflows (s : ConversationSocket) (record : JournalRecord) : Prop :=
  s.anchored.lastSeq + 1 < record.position ∧ maxBufferedAhead ≤ s.ahead.length

instance (s : ConversationSocket) (record : JournalRecord) : Decidable (s.Overflows record) :=
  inferInstanceAs (Decidable (_ ∧ _))

variable {record : JournalRecord}

theorem collect_stale (env : Env) (s : ConversationSocket) (applied : List JournalRecord)
    (h : record.position ≤ s.anchored.lastSeq) :
    s.collect env applied record = (s.anchored, applied) := by
  unfold collect
  simp only [if_pos h]

theorem collect_ahead (env : Env) (s : ConversationSocket) (applied : List JournalRecord)
    (h : s.anchored.lastSeq + 1 < record.position) (hRoom : ¬ s.Overflows record) :
    s.collect env applied record =
      (((s.anchored.buffer record).requestGap env (record.position - 1)).1, applied) := by
  have hSmall : ¬ maxBufferedAhead ≤ s.anchored.ahead.length := by
    rw [anchored_ahead]
    exact fun hFull => hRoom ⟨h, hFull⟩
  unfold collect
  simp only [if_neg (show ¬ record.position ≤ s.anchored.lastSeq by omega), if_pos h, if_neg hSmall]

theorem collect_overflow (env : Env) (s : ConversationSocket) (applied : List JournalRecord) (h : s.Overflows record) :
    s.collect env applied record = ((s.anchored.resetStream .window).forceReconnect, applied) := by
  unfold collect
  simp only [if_neg (show ¬ record.position ≤ s.anchored.lastSeq by have := h.1; omega), if_pos h.1,
    if_pos (s.anchored_ahead ▸ h.2 : maxBufferedAhead ≤ s.anchored.ahead.length)]

theorem collect_next (env : Env) (s : ConversationSocket) (applied : List JournalRecord)
    (h : record.position = s.anchored.lastSeq + 1) :
    s.collect env applied record =
      (s.anchored.moveTo
          (drainAhead s.anchored.ahead.length record.position s.anchored.ahead (applied ++ [record])).1
          (drainAhead s.anchored.ahead.length record.position s.anchored.ahead (applied ++ [record])).2.1,
        (drainAhead s.anchored.ahead.length record.position s.anchored.ahead (applied ++ [record])).2.2) := by
  unfold collect
  simp only [if_neg (show ¬ record.position ≤ s.anchored.lastSeq by omega),
    if_neg (show ¬ s.anchored.lastSeq + 1 < record.position by omega)]

end ConversationSocket

end Stella.Conversation
