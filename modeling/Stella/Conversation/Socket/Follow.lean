import Stella.Conversation.Socket.Collect
import Stella.Conversation.Socket.Trace

/-! # Records that follow the cursor

With nothing buffered, a `ready` that keeps the stream, a record next to the
cursor and a gap reply that starts there each have one outcome, which these
lemmas name field by field.
-/

namespace Stella.Conversation

open Gapless

namespace ConversationSocket

def Moored (s : ConversationSocket) : Prop := s.lastSeq < 0 → s.windowStartSeq = s.lastSeq + 1

variable {s : ConversationSocket}

theorem Moored.anchored (h : s.Moored) : s.anchored = s := by
  unfold ConversationSocket.anchored
  split
  · next hFresh =>
    have hWin : s.windowStartSeq - 1 = s.lastSeq := by
      have hEq := h hFresh
      omega
    rw [hWin]
  · rfl

variable {record : JournalRecord}

theorem collect_follows (env : Env) (hMoored : s.Moored) (hAhead : s.ahead = [])
    (applied : List JournalRecord) (hNext : record.position = s.lastSeq + 1) :
    s.collect env applied record = (s.moveTo record.position [], applied ++ [record]) := by
  have hAt := hMoored.anchored
  rw [collect_next env s applied (by rw [hAt]; exact hNext), hAt, hAhead]
  rfl

theorem collectAll_follows (env : Env) (hMoored : s.Moored) (hAhead : s.ahead = [])
    (hLast : -1 ≤ s.lastSeq) (applied : List JournalRecord) {records : List JournalRecord}
    (hRun : RunFrom JournalRecord.position (s.lastSeq + 1) records) :
    s.collectAll env applied records = (s.moveTo (s.lastSeq + records.length) [], applied ++ records) := by
  induction records generalizing s applied with
  | nil =>
    unfold collectAll
    rw [List.append_nil, List.length_nil, ← hAhead]
    simp [moveTo]
  | cons record rest ih =>
    have hNext : record.position = s.lastSeq + 1 := hRun.1
    have hMoved : (s.moveTo record.position []).Moored := by
      intro hFresh
      rw [moveTo_lastSeq] at hFresh
      omega
    have hRest : RunFrom JournalRecord.position ((s.moveTo record.position []).lastSeq + 1) rest := by
      rw [moveTo_lastSeq, hNext]
      exact hRun.2
    unfold collectAll
    rw [collect_follows env hMoored hAhead applied hNext]
    dsimp only
    rw [ih hMoved rfl (by rw [moveTo_lastSeq]; omega) (applied ++ [record]) hRest, List.append_assoc]
    have hEnd : (s.moveTo record.position []).lastSeq + (rest.length : Int) =
        s.lastSeq + ((record :: rest).length : Int) := by
      rw [moveTo_lastSeq, hNext, List.length_cons]
      omega
    rw [hEnd]
    rfl

def graceArmed (headSeq lastSeq : Int) : Bool := !(decide (headSeq < 0) || decide (headSeq ≤ lastSeq))

theorem applyRecord_follows (env : Env) (hMoored : s.Moored) (hAhead : s.ahead = []) (hNext : record.position = s.lastSeq + 1) :
    s.applyRecord env record = { s with
      lastSeq := record.position, headSeq := max s.headSeq record.position, ahead := [],
      resumeTimer := graceArmed (max s.headSeq record.position) record.position,
      trace := .event (.records [record]) :: s.trace } := by
  unfold applyRecord
  rw [collect_follows env hMoored hAhead [] hNext]
  rfl

variable {frame : BackfillFrame}

theorem placeReply_follows (env : Env) (hMoored : s.Moored) (hAhead : s.ahead = [])
    (hLast : -1 ≤ s.lastSeq) (hNe : frame.records ≠ [])
    (hRun : RunFrom JournalRecord.position (s.lastSeq + 1) frame.records) :
    s.placeReply env frame = { s with
      gapPending := false, lastSeq := s.lastSeq + frame.records.length,
      headSeq := max s.headSeq (s.lastSeq + frame.records.length), ahead := [],
      resumeTimer := graceArmed (max s.headSeq (s.lastSeq + frame.records.length)) (s.lastSeq + frame.records.length),
      trace := .event (.records frame.records) :: s.trace } := by
  have hMoored' : ({ s with gapPending := false } : ConversationSocket).Moored := hMoored
  unfold placeReply
  rw [collectAll_follows env hMoored' hAhead hLast [] hRun]
  dsimp only
  unfold flush
  rw [List.nil_append, if_neg (by simpa using hNe)]
  rfl

theorem handleBackfill_follows (env : Env) (hMoored : s.Moored) (hAhead : s.ahead = [])
    (hOlder : s.olderRequests = []) (hLast : -1 ≤ s.lastSeq) (hNe : frame.records ≠ [])
    (hRun : RunFrom JournalRecord.position (s.lastSeq + 1) frame.records)
    (hTo : frame.toSeq ≤ s.lastSeq + frame.records.length) :
    s.handleBackfill env frame = { s with
      gapPending := false, lastSeq := s.lastSeq + frame.records.length,
      headSeq := max s.headSeq (s.lastSeq + frame.records.length), ahead := [], noProgressBackfills := 0,
      resumeTimer := graceArmed (max s.headSeq (s.lastSeq + frame.records.length)) (s.lastSeq + frame.records.length),
      trace := .event (.records frame.records) :: s.trace } := by
  have hNone : s.olderRequestOf frame.requestId = none := by
    unfold olderRequestOf
    rw [hOlder]
    rfl
  unfold handleBackfill
  rw [hNone]
  dsimp only
  unfold handleGapReply
  rw [placeReply_follows env hMoored hAhead hLast hNe hRun]
  unfold settleReply throughSeq
  dsimp only
  rw [List.foldl_nil, if_pos hTo]

variable {env : Env}

theorem resumeGraceElapsed_behind (hLast : 0 ≤ s.lastSeq) (hPend : s.gapPending = false) (hBehind : s.lastSeq < s.headSeq) :
    s.resumeGraceElapsed env =
      let taken := s.disarmResume.takeBudget env 0
      if !taken.2 then taken.1
      else
        let asking := taken.1.markPending.nextRequest
        (asking.send env (.backfill (.gap asking.requestCounter) (s.lastSeq + 1)
          (min s.headSeq (s.lastSeq + 1 + maxResumeRecords - 1)))).1 := by
  have hRng : s.disarmResume.resumeRange =
      (s.lastSeq + 1, min s.headSeq (s.lastSeq + 1 + maxResumeRecords - 1)) := by
    unfold resumeRange disarmResume
    dsimp only
    rw [if_pos hLast]
  have hIn : ¬ min s.headSeq (s.lastSeq + 1 + maxResumeRecords - 1) < s.lastSeq + 1 := by
    have hRecs : (maxResumeRecords : Int) = 2000 := rfl
    omega
  unfold resumeGraceElapsed
  simp only [hRng]
  have hOpen : ¬ s.disarmResume.headSeq ≤ s.disarmResume.lastSeq := by
    change ¬ s.headSeq ≤ s.lastSeq
    omega
  have hFree : s.disarmResume.gapPending = false := hPend
  rw [if_neg hOpen, hFree, if_neg Bool.false_ne_true, if_neg hIn]

theorem resumeGraceElapsed_asks (hSends : env.sendThrows = fun _ => false)
    {id : Nat} (hSock : s.socket = some ⟨id, .open⟩) (hPend : s.gapPending = false) (hLast : 0 ≤ s.lastSeq)
    (hBehind : s.lastSeq < s.headSeq) (hTok : (s.budget.take env.now 0).2 = true) :
    s.resumeGraceElapsed env = { s with
      resumeTimer := false, budget := (s.budget.take env.now 0).1, gapPending := true,
      requestCounter := s.requestCounter + 1,
      trace := .sent id (.backfill (.gap (s.requestCounter + 1)) (s.lastSeq + 1)
        (min s.headSeq (s.lastSeq + 1 + maxResumeRecords - 1))) :: s.trace } := by
  rw [resumeGraceElapsed_behind hLast hPend hBehind]
  unfold takeBudget send
  simp [disarmResume, markPending, nextRequest, hTok, hSock, hSends, observe]

theorem resumeGraceElapsed_refused (hLast : 0 ≤ s.lastSeq)
    (hPend : s.gapPending = false) (hBehind : s.lastSeq < s.headSeq)
    (hTok : (s.budget.take env.now 0).2 = false) :
    s.resumeGraceElapsed env = { s with resumeTimer := false, budget := (s.budget.take env.now 0).1 } := by
  rw [resumeGraceElapsed_behind hLast hPend hBehind]
  unfold takeBudget
  simp [disarmResume, hTok]

theorem adopted_keeps (env : Env) (s : ConversationSocket) (ready : ReadyFrame) :
    ∃ period timer, s.adopted env ready = { s with
      liveSinceMs := env.now, authRetryUsed := false, reauthInFlight := false, headSeq := ready.headSeq,
      windowStartSeq := ready.windowStartSeq, floorSeq := ready.floorSeq, reauthPeriodMs := period,
      reauthTimer := timer, epoch := some ready.epoch } := by
  unfold adopted adoptReady learnReauthPeriod
  dsimp only
  split
  · exact ⟨_, _, rfl⟩
  · exact ⟨_, _, rfl⟩

theorem handleReady_follows (env : Env) {ready : ReadyFrame}
    (hEpoch : s.epochChanged ready = false) (hWin : s.unbridgeable ready = false)
    (hNear : s.tooFarBehind ready = false) :
    ∃ (period : Int) (timer : Bool) (told : Option (Option String)), s.handleReady env ready = { s with
      liveSinceMs := env.now, authRetryUsed := false, reauthInFlight := false, headSeq := ready.headSeq,
      windowStartSeq := ready.windowStartSeq, floorSeq := ready.floorSeq, reauthPeriodMs := period,
      reauthTimer := timer, epoch := some ready.epoch, status := .live,
      resumeTimer := graceArmed ready.headSeq s.lastSeq,
      trace := (told.map (fun message => Observation.event (.status .live message true))).toList ++
        .event (.ready ready) :: s.trace } := by
  obtain ⟨period, timer, hAdopted⟩ := adopted_keeps env s ready
  have hKept : (s.adopted env ready).tooFarBehind ready = false := by
    rw [hAdopted]
    exact hNear
  unfold handleReady
  rw [hEpoch, hWin, if_neg Bool.false_ne_true, if_neg Bool.false_ne_true]
  unfold openStream
  rw [hKept, if_neg Bool.false_ne_true, hAdopted]
  unfold setStatus
  split
  · next hEq =>
    refine ⟨period, timer, none, ?_⟩
    have hLive : s.status = .live := hEq.1
    unfold armResumeGrace onEvent observe graceArmed
    simp [hLive]
  · exact ⟨period, timer, some none, rfl⟩

section

variable (s : ConversationSocket)

theorem connect_keeps :
    s.connect.socket = s.socket ∧ ∃ told, s.connect.trace = told ++ s.trace := by
  unfold connect
  split
  · exact ⟨rfl, [], rfl⟩
  · unfold setStatus
    split
    · exact ⟨rfl, [], rfl⟩
    · exact ⟨rfl, [_], rfl⟩

theorem forceReconnect_socket : s.forceReconnect.socket = none := by
  unfold forceReconnect
  dsimp only
  split
  · exact (connect_keeps _).1
  · rfl

theorem forceReconnect_trace : ∃ told, s.forceReconnect.trace = told ++ s.trace := by
  unfold forceReconnect
  dsimp only
  split
  · exact (connect_keeps _).2
  · exact ⟨[], rfl⟩

end

end ConversationSocket

end Stella.Conversation
