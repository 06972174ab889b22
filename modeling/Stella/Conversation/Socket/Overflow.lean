import Stella.Conversation.Socket.Delivery

/-! # A reset in the middle of a gap reply

When the buffer for early records is full, a gap reply that closes the hole and then names a
record beyond a further one resets the stream half way through its loop.
-/

namespace Stella.Conversation

open Gapless Transition List

namespace ConversationSocket

variable {s : ConversationSocket}

theorem collect_alone (env : Env) (applied : List JournalRecord) {record : JournalRecord}
    (hNonneg : 0 ≤ s.lastSeq) (hNext : record.position = s.lastSeq + 1)
    (hApart : ∀ r ∈ s.ahead, record.position + 1 < r.position) :
    s.collect env applied record = (s.moveTo record.position s.ahead, applied ++ [record]) := by
  have hAnchored : s.anchored = s := if_neg (by omega)
  have hNone : ∀ fuel, drainAhead fuel record.position s.ahead (applied ++ [record]) =
      (record.position, s.ahead, applied ++ [record]) := by
    intro fuel
    cases fuel with
    | zero => rfl
    | succ fuel =>
      have hFind : s.ahead.find? (fun r => r.position == record.position + 1) = none :=
        find?_eq_none.mpr (fun r hr => by have := hApart r hr; simp; omega)
      rw [drainAhead, hFind]
  rw [collect_next env s applied (hAnchored.symm ▸ hNext), hAnchored, hNone]

theorem gapReply_overflow (env : Env) (hNonneg : 0 ≤ s.lastSeq)
    (hFull : maxBufferedAhead ≤ s.ahead.length) {frame : BackfillFrame} (next far : JournalRecord)
    (hRecs : frame.records = [next, far]) (hNext : next.position = s.lastSeq + 1)
    (hFar : next.position + 1 < far.position) (hApart : ∀ r ∈ s.ahead, next.position + 1 < r.position) :
    ∃ t, t <:+ (s.handleGapReply env frame).trace ∧ next ∈ streamOf t ∧ receivedOf t = [] := by
  have hPlaced : s.placeReply env frame =
      (((({ s with gapPending := false } : ConversationSocket).moveTo next.position s.ahead).anchored.resetStream
        .window).forceReconnect).flush [next] := by
    unfold placeReply
    have hAlone := collect_alone (s := { s with gapPending := false }) env [] hNonneg hNext hApart
    have hOver : Overflows (({ s with gapPending := false } : ConversationSocket).moveTo next.position s.ahead) far := by
      refine ⟨?_, hFull⟩
      unfold anchored
      rw [if_neg (by rw [moveTo_lastSeq]; omega)]
      exact hFar
    rw [hRecs]
    simp only [collectAll, hAlone, nil_append, collect_overflow env _ [next] hOver]
  generalize ({ s with gapPending := false } : ConversationSocket).moveTo next.position s.ahead = moved at hPlaced
  obtain ⟨obs, hObs, hSilent⟩ := (quiet_forceReconnect (moved.anchored.resetStream .window)).trace
  have hReset : (moved.anchored.resetStream .window).trace = .event (.reset .window) :: moved.anchored.trace := rfl
  obtain ⟨after, hAfter, -⟩ := (quiet_settleReply env (s.placeReply env frame) s.lastSeq frame.toSeq).trace
  have hEmitted : (s.placeReply env frame).trace =
      .event (.records [next]) :: (moved.anchored.resetStream .window).forceReconnect.trace := by
    rw [hPlaced]
    rfl
  refine ⟨(s.placeReply env frame).trace, ?_, ?_, ?_⟩
  · change _ <:+ ((s.placeReply env frame).settleReply env s.lastSeq frame.toSeq).trace
    rw [hAfter]
    exact suffix_append _ _
  · rw [hEmitted, streamOf_cons rfl]
    exact mem_append_right _ (mem_singleton.mpr rfl)
  · rw [hEmitted, receivedOf_cons rfl, hObs, receivedOf_silent hSilent, hReset]
    rfl

/-- A hole is open below `n` records that were buffered one after the other. -/
structure Holding (n : Nat) (s : ConversationSocket) : Prop where
  socket : s.socket = some ⟨0, .open⟩
  lastSeq : s.lastSeq = 0
  pending : s.gapPending = true
  older : s.olderRequests = []
  held : s.ahead.map JournalRecord.seq = List.range' 3 n

variable {n : Nat}

theorem Holding.step (h : Holding n s) (hRoom : n < maxBufferedAhead) :
    Holding (n + 1) (s.step (⟨0, fun _ => false⟩, .message (some (.record (skippedRow (3 + n)))))) := by
  have hLen : s.ahead.length = n := by simpa using congrArg List.length h.held
  have hStep : s.step (⟨0, fun _ => false⟩, .message (some (.record (skippedRow (3 + n))))) =
      (s.receive ⟨0, fun _ => false⟩ 0 (.record (skippedRow (3 + n)))).buffer (skippedRow (3 + n)) := by
    have hAnchored : (s.receive ⟨0, fun _ => false⟩ 0 (.record (skippedRow (3 + n)))).anchored =
        s.receive ⟨0, fun _ => false⟩ 0 (.record (skippedRow (3 + n))) :=
      if_neg (by change ¬ s.lastSeq < 0; rw [h.lastSeq]; decide)
    have hBeyond : (s.receive ⟨0, fun _ => false⟩ 0 (.record (skippedRow (3 + n)))).anchored.lastSeq + 1 <
        (skippedRow (3 + n)).position := by
      rw [hAnchored]
      change s.lastSeq + 1 < ((3 + n : Nat) : Int)
      rw [h.lastSeq]
      omega
    have hFree : ¬ Overflows (s.receive ⟨0, fun _ => false⟩ 0 (.record (skippedRow (3 + n)))) (skippedRow (3 + n)) :=
      fun hOver => absurd (hLen ▸ hOver.2 : maxBufferedAhead ≤ n) (by omega)
    simp only [ConversationSocket.step, onMessage, h.socket, ne_eq, not_true_eq_false, if_false]
    change (s.receive _ 0 _).applyRecord _ _ = _
    unfold applyRecord
    have hPend : ((s.receive ⟨0, fun _ => false⟩ 0 (.record (skippedRow (3 + n)))).buffer
        (skippedRow (3 + n))).gapPending = true := h.pending
    rw [collect_ahead _ _ [] hBeyond hFree, hAnchored, requestGap_pending _ _ hPend]
    rfl
  rw [hStep]
  refine ⟨h.socket, h.lastSeq, h.pending, h.older, ?_⟩
  change (aheadSet s.ahead (skippedRow (3 + n))).map JournalRecord.seq = _
  have hNew : s.ahead.any (fun r => r.seq == (skippedRow (3 + n)).seq) = false := by
    rw [any_eq_false]
    intro r hr hEq
    have hMem : r.seq ∈ List.range' 3 n := h.held ▸ mem_map_of_mem hr
    have hSeq : r.seq = 3 + n := eq_of_beq hEq
    have := mem_range'_1.mp hMem
    omega
  unfold aheadSet
  rw [if_neg (by rw [hNew]; simp), map_append, h.held, range'_concat]
  simp [skippedRow]

def earlyRecords (n : Nat) : List (Env × Input) :=
  (List.range' 4 n).map (fun seq => (⟨0, fun _ => false⟩, .message (some (.record (skippedRow seq)))))

theorem Holding.run (h : Holding 1 s) (hRoom : n < maxBufferedAhead) :
    Holding (n + 1) (run ConversationSocket.step s (earlyRecords n)) := by
  induction n with
  | zero => exact h
  | succ n ih =>
    have hNext := (ih (by omega)).step hRoom
    rw [show 3 + (n + 1) = 4 + n by omega] at hNext
    rw [earlyRecords, range'_concat, map_append, run_append]
    simpa [earlyRecords] using hNext

def holdingRun : List (Env × Input) :=
  connectWith 0 { epoch := 1, headSeq := 600, windowStartSeq := 0, floorSeq := 0 } ++
    [(⟨0, fun _ => false⟩, .message (some (.record (skippedRow 0)))),
      (⟨0, fun _ => false⟩, .message (some (.record (skippedRow 3))))]

theorem holdingRun_holding : Holding 1 (run ConversationSocket.step (create none 0) holdingRun) :=
  ⟨by decide, by decide, by decide, rfl, by decide⟩

def farReply : BackfillFrame := ⟨.gap 1, 1, 600, true, [skippedRow 1, skippedRow 600]⟩

theorem Holding.farReply_overflow (h : Holding n s) (hFull : maxBufferedAhead ≤ n) :
    ∃ t, t <:+ (s.step (⟨0, fun _ => false⟩, .message (some (.backfill farReply)))).trace ∧
      skippedRow 1 ∈ streamOf t ∧ receivedOf t = [] := by
  have hLen : s.ahead.length = n := by simpa using congrArg List.length h.held
  have hNoOlder : (s.receive ⟨0, fun _ => false⟩ 0 (.backfill farReply)).olderRequestOf farReply.requestId = none := by
    have hOlder : s.olderRequests = [] := h.older
    simp [olderRequestOf, ConversationSocket.receive, observe, hOlder]
  have hStep : s.step (⟨0, fun _ => false⟩, .message (some (.backfill farReply))) =
      (s.receive ⟨0, fun _ => false⟩ 0 (.backfill farReply)).handleGapReply ⟨0, fun _ => false⟩ farReply := by
    simp only [ConversationSocket.step, onMessage, h.socket, ne_eq, not_true_eq_false, if_false, handleFrame,
      handleBackfill, hNoOlder]
  rw [hStep]
  have hLast : (s.receive ⟨0, fun _ => false⟩ 0 (.backfill farReply)).lastSeq = 0 := h.lastSeq
  have hAhead : (s.receive ⟨0, fun _ => false⟩ 0 (.backfill farReply)).ahead = s.ahead := rfl
  refine gapReply_overflow _ (Int.le_of_eq hLast.symm) (by rw [hAhead, hLen]; exact hFull) (skippedRow 1)
    (skippedRow 600) rfl
    (by rw [hLast]; rfl) (by decide) (fun r hr => ?_)
  have hMem : r.seq ∈ List.range' 3 n := h.held ▸ mem_map_of_mem hr
  have hRng := mem_range'_1.mp hMem
  change (1 : Int) + 1 < (r.seq : Int)
  omega

def overflowRun : List (Env × Input) :=
  holdingRun ++ earlyRecords 511 ++ [(⟨0, fun _ => false⟩, .message (some (.backfill farReply)))]

theorem overflowRun_not_delivered :
    ¬ ∀ t, t <:+ (run ConversationSocket.step (create none 0) overflowRun).trace →
      StreamDelivered none (create none 0) t := by
  intro h
  have hFull := holdingRun_holding.run (n := 511) (by decide)
  obtain ⟨t, hSuffix, hMem, hNone⟩ := hFull.farReply_overflow (by decide)
  rw [overflowRun, run_append, run_append, run_cons, run_nil] at h
  have hFresh := (h t hSuffix).fresh _ hMem
  rw [hNone] at hFresh
  cases hFresh

end ConversationSocket

end Stella.Conversation
