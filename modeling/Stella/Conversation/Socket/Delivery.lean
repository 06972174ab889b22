import Stella.Conversation.Socket.Quiet
import Stella.Conversation.Socket.Collect

/-! # Exactly-once, in-order delivery

Between two `reset` events the socket emits one run of consecutive seqs.
-/

namespace Stella.Conversation

open Gapless Transition List

/-- What is asked of the stream at one moment: what was emitted since the last reset is
consecutive and was received since then, and its first record is the one the window of
the last `ready` promised, or the one after the cursor the socket was created with. -/
structure StreamDelivered (initialCursor : Option ConversationSocketCursor) (start : ConversationSocket)
    (trace : List Observation) : Prop where
  consecutive : Consecutive JournalRecord.position (streamOf trace)
  fresh : ∀ r ∈ streamOf trace, r ∈ receivedOf trace
  first : ∀ records older, trace = .event (.records records) :: older → streamOf older = [] →
    ∀ r ∈ records.head?, r.position = lastReadyWindow start.windowStartSeq older ∨
      (neverReset older ∧ ∃ cursor ∈ initialCursor, r.position = cursor.lastSeq + 1)

namespace ConversationSocket

variable (initialCursor : Option ConversationSocketCursor) (start : ConversationSocket)

/-- A stream may open at `first`: the announced window, or just above the initial cursor. -/
def Anchor (s : ConversationSocket) (first : Int) : Prop :=
  first = s.windowStartSeq ∨ (neverReset s.trace ∧ ∃ cursor ∈ initialCursor, first = cursor.lastSeq + 1)

/-- The stream invariant while `applied` is placed but not yet emitted. -/
structure Delivering (s : ConversationSocket) (applied : List JournalRecord) : Prop where
  run : RunFrom JournalRecord.position (s.lastSeq + 1 - (streamOf s.trace ++ applied).length)
    (streamOf s.trace ++ applied)
  placed : streamOf s.trace ++ applied ≠ [] → 0 ≤ s.lastSeq
  applied_fresh : ∀ r ∈ applied, r ∈ receivedOf s.trace
  ahead_fresh : ∀ r ∈ s.ahead, r ∈ receivedOf s.trace
  window : s.windowStartSeq = lastReadyWindow start.windowStartSeq s.trace
  anchor : streamOf s.trace = [] → (applied = [] ∧ s.lastSeq < 0) ∨
    Anchor initialCursor s (s.lastSeq + 1 - applied.length)
  moments : ∀ t, t <:+ s.trace → StreamDelivered initialCursor start t

variable {initialCursor start}

variable {o : Observation} {trace : List Observation}

theorem streamDelivered_cons (hReset : o.isReset = false) (hEmitted : o.emittedRecords = [])
    (h : StreamDelivered initialCursor start trace) :
    StreamDelivered initialCursor start (o :: trace) := by
  have hStream : streamOf (o :: trace) = streamOf trace := by rw [streamOf_cons hReset, hEmitted, append_nil]
  refine ⟨hStream ▸ h.consecutive, ?_, ?_⟩
  · rw [hStream, receivedOf_cons hReset]
    exact fun r hr => mem_append_right _ (h.fresh r hr)
  · rintro records older hEq - r hr
    obtain ⟨rfl, rfl⟩ := cons_eq_cons.mp hEq
    simp [show records = [] from hEmitted] at hr

theorem moments_cons
    (h : ∀ t, t <:+ trace → StreamDelivered initialCursor start t)
    (ho : StreamDelivered initialCursor start (o :: trace)) :
    ∀ t, t <:+ o :: trace → StreamDelivered initialCursor start t := by
  intro t ht
  rcases suffix_cons_iff.mp ht with rfl | ht
  · exact ho
  · exact h t ht

theorem moments_silent {obs : List Observation} (hObs : ∀ o ∈ obs, o.Silent)
    (h : ∀ t, t <:+ trace → StreamDelivered initialCursor start t) :
    ∀ t, t <:+ obs ++ trace → StreamDelivered initialCursor start t := by
  induction obs with
  | nil => exact h
  | cons o obs ih =>
    have hTail := ih (fun p hp => hObs p (mem_cons_of_mem _ hp))
    have hHead := hObs o mem_cons_self
    exact moments_cons hTail (streamDelivered_cons hHead.1 hHead.2.1 (hTail _ suffix_rfl))

theorem delivering_reset {s : ConversationSocket} (reason : ResetReason)
    (hWin : s.windowStartSeq = lastReadyWindow start.windowStartSeq s.trace)
    (hMoments : ∀ t, t <:+ s.trace → StreamDelivered initialCursor start t) :
    Delivering initialCursor start (s.resetStream reason) [] := by
  refine ⟨by simp [resetStream, onEvent, observe], by simp [resetStream, onEvent, observe], by simp,
    by simp [resetStream, onEvent, observe], ?_, fun _ => .inl ⟨rfl, by simp [resetStream, onEvent, observe]⟩, ?_⟩
  · simpa [resetStream, onEvent, observe] using hWin
  · refine moments_cons hMoments ⟨by simp [List.IsChain.nil], by simp, ?_⟩
    rintro records older hEq
    cases hEq

namespace Delivering

variable {s : ConversationSocket} {applied : List JournalRecord}

section

variable (h : Delivering initialCursor start s applied)
include h

theorem quiet {t : ConversationSocket} (hQuiet : Quiet s t) :
    Delivering initialCursor start t applied := by
  obtain ⟨obs, hObs, hSilent⟩ := hQuiet.trace
  have hStream : streamOf t.trace = streamOf s.trace := by rw [hObs, streamOf_silent hSilent]
  have hReceived : receivedOf t.trace = receivedOf s.trace := by rw [hObs, receivedOf_silent hSilent]
  have hNever : neverReset t.trace ↔ neverReset s.trace := by rw [hObs, neverReset_silent hSilent]
  refine ⟨?_, ?_, ?_, ?_, ?_, ?_, ?_⟩
  · rw [hStream, hQuiet.lastSeq]
    exact h.run
  · rw [hStream, hQuiet.lastSeq]
    exact h.placed
  · rw [hReceived]
    exact h.applied_fresh
  · rw [hReceived]
    exact fun r hr => h.ahead_fresh r (hQuiet.ahead hr)
  · rw [hQuiet.windowStartSeq, hObs, lastReadyWindow_silent hSilent]
    exact h.window
  · rw [hStream, Anchor, hQuiet.windowStartSeq, hQuiet.lastSeq, hNever]
    exact h.anchor
  · rw [hObs]
    exact moments_silent hSilent h.moments

theorem anchored :
    Delivering initialCursor start s.anchored applied ∧
      (streamOf s.trace = [] → Anchor initialCursor s.anchored (s.anchored.lastSeq + 1 - applied.length)) := by
  unfold ConversationSocket.anchored
  split
  · rename_i hNeg
    have hNone : streamOf s.trace ++ applied = [] := by
      by_contra hSome
      have := h.placed hSome
      omega
    obtain ⟨hStream, rfl⟩ := append_eq_nil_iff.mp hNone
    have hAnchor : Anchor initialCursor { s with lastSeq := s.windowStartSeq - 1 }
        (s.windowStartSeq - 1 + 1 - ([] : List JournalRecord).length) :=
      .inl (by simp)
    exact ⟨⟨by simp [hStream], by simp [hStream], h.applied_fresh, h.ahead_fresh, h.window,
      fun _ => .inr hAnchor, h.moments⟩, fun _ => hAnchor⟩
  · rename_i hNonneg
    refine ⟨h, fun hStream => ?_⟩
    rcases h.anchor hStream with ⟨_, hNeg⟩ | hAnchor
    · exact absurd hNeg hNonneg
    · exact hAnchor

theorem flush :
    Delivering initialCursor start (s.flush applied) [] := by
  unfold ConversationSocket.flush
  split
  · rename_i hEmpty
    rwa [List.isEmpty_iff.mp hEmpty] at h
  · rename_i hEmpty
    have hNe : applied ≠ [] := by simpa using hEmpty
    refine Delivering.quiet ?_ (quiet_armResumeGrace _)
    have hStream : streamOf (.event (.records applied) :: s.trace) = streamOf s.trace ++ applied :=
      streamOf_cons rfl _
    have hReceived : receivedOf (.event (.records applied) :: s.trace) = receivedOf s.trace :=
      receivedOf_cons rfl _
    refine ⟨?_, ?_, by simp, ?_, h.window, ?_, moments_cons h.moments ⟨?_, ?_, ?_⟩⟩
    · simpa [onEvent, observe, hStream] using h.run
    · intro _
      exact h.placed (by simp [hNe])
    · simpa [onEvent, observe, hReceived] using h.ahead_fresh
    · intro hNone
      have : streamOf s.trace ++ applied = [] := hStream ▸ hNone
      exact absurd (append_eq_nil_iff.mp this).2 hNe
    · rw [hStream]
      exact runFrom_consecutive h.run
    · rw [hStream, hReceived]
      intro r hr
      rcases mem_append.mp hr with hr | hr
      · exact (h.moments _ suffix_rfl).fresh r hr
      · exact h.applied_fresh r hr
    · rintro records older hEq hNone r hr
      obtain ⟨hHead, rfl⟩ := cons_eq_cons.mp hEq
      cases hHead
      rcases h.anchor hNone with ⟨hNil, _⟩ | hAnchor
      · exact absurd hNil hNe
      · have hRun := h.run
        rw [hNone, nil_append] at hRun
        cases applied with
        | nil => exact absurd rfl hNe
        | cons a applied =>
          obtain rfl : a = r := by simpa using hr
          rw [hRun.1]
          rcases hAnchor with hWin | hCursor
          · exact .inl (hWin.trans h.window)
          · exact .inr hCursor

end

end Delivering

namespace Delivering

variable {s : ConversationSocket} {applied : List JournalRecord}

theorem collect (h : Delivering initialCursor start s applied) (env : Env) {record : JournalRecord}
    (hFresh : record ∈ receivedOf s.trace) (hRoom : ¬ s.Overflows record) :
    Delivering initialCursor start (s.collect env applied record).1 (s.collect env applied record).2 := by
  obtain ⟨hA, hAnchor⟩ := h.anchored
  have hTrace := s.anchored_trace
  rcases Int.lt_trichotomy record.position (s.anchored.lastSeq + 1) with hLt | hEq | hGt
  · rw [collect_stale env s applied (by omega)]
    exact hA
  · rw [collect_next env s applied hEq]
    obtain ⟨more, hApplied, hRun, hLast, hMore, hAhead⟩ :=
      drainAhead_spec s.anchored.ahead.length record.position s.anchored.ahead (applied ++ [record])
    have hWhole : RunFrom JournalRecord.position
        (s.anchored.lastSeq + 1 - (streamOf s.trace ++ applied).length)
        (streamOf s.trace ++ applied ++ (record :: more)) := by
      have hPlaced := hTrace ▸ hA.run
      refine (runFrom_append _ _ _).mpr ⟨hPlaced, ?_, ?_⟩
      · omega
      · rwa [show s.anchored.lastSeq + 1 - ((streamOf s.trace ++ applied).length : Int) +
            (streamOf s.trace ++ applied).length + 1 = record.position + 1 by omega]
    have hList : streamOf s.trace ++ (applied ++ [record] ++ more) =
        streamOf s.trace ++ applied ++ (record :: more) := by simp
    have hStart : record.position + more.length + 1 -
        ((streamOf s.trace ++ applied ++ (record :: more)).length : Int) =
        s.anchored.lastSeq + 1 - (streamOf s.trace ++ applied).length := by
      simp only [length_append, length_cons]
      omega
    refine ⟨?_, ?_, ?_, ?_, hA.window, ?_, hA.moments⟩
    · rw [moveTo_lastSeq, moveTo_trace, hApplied, hLast, hTrace, hList, hStart]
      exact hWhole
    · intro _
      rw [moveTo_lastSeq, hLast]
      have := record.position_nonneg
      omega
    · intro r hr
      rw [moveTo_trace, hTrace]
      rw [hApplied] at hr
      rcases mem_append.mp hr with hr | hr
      · rcases mem_append.mp hr with hr | hr
        · exact hTrace ▸ hA.applied_fresh r hr
        · exact mem_singleton.mp hr ▸ hFresh
      · exact hTrace ▸ hA.ahead_fresh r (hMore hr)
    · exact fun r hr => hA.ahead_fresh r (hAhead hr)
    · intro hNone
      refine .inr ?_
      have hFirst := hAnchor (hTrace ▸ hNone)
      dsimp only [Anchor, moveTo_windowStartSeq, moveTo_trace] at hFirst ⊢
      rw [hApplied, moveTo_lastSeq, hLast]
      rwa [show record.position + more.length + 1 - ((applied ++ [record] ++ more).length : Int) =
        s.anchored.lastSeq + 1 - applied.length by
          simp only [length_append, length_singleton]
          omega]
  · rw [collect_ahead env s applied hGt hRoom]
    refine Delivering.quiet ?_ (quiet_requestGap env _ _)
    refine ⟨hA.run, hA.placed, hA.applied_fresh, ?_, hA.window, hA.anchor, hA.moments⟩
    intro r hr
    rcases mem_cons.mp (aheadSet_subset _ _ hr) with rfl | hr
    · exact hTrace.symm ▸ hFresh
    · exact hA.ahead_fresh r hr

end Delivering

theorem collect_receivedOf (env : Env) (s : ConversationSocket) (applied : List JournalRecord)
    {record : JournalRecord} (hRoom : ¬ s.Overflows record) :
    receivedOf (s.collect env applied record).1.trace = receivedOf s.trace := by
  rcases Int.lt_trichotomy record.position (s.anchored.lastSeq + 1) with hLt | hEq | hGt
  · rw [collect_stale env s applied (by omega)]
    exact congrArg receivedOf (anchored_trace s)
  · rw [collect_next env s applied hEq]
    exact congrArg receivedOf (anchored_trace s)
  · rw [collect_ahead env s applied hGt hRoom]
    obtain ⟨obs, hObs, hSilent⟩ :=
      (quiet_requestGap env (s.anchored.buffer record) (record.position - 1)).trace
    rw [hObs, receivedOf_silent hSilent]
    exact congrArg receivedOf (anchored_trace s)

/-- The reply is placed without loss: if it meets a record beyond a hole while the buffer is
full, then nothing of it was applied before and nothing after it reaches into the window. -/
def Fits (env : Env) : ConversationSocket → List JournalRecord → List JournalRecord → Prop
  | _, _, [] => True
  | s, applied, record :: rest =>
    if s.Overflows record then applied.isEmpty = true ∧ ∀ later ∈ rest, later.position < s.windowStartSeq
    else Fits env (s.collect env applied record).1 (s.collect env applied record).2 rest

instance decidableFits (env : Env) : ∀ (s : ConversationSocket) (applied records : List JournalRecord),
    Decidable (Fits env s applied records)
  | _, _, [] => .isTrue trivial
  | s, applied, record :: rest =>
    if h : s.Overflows record then
      decidable_of_iff (applied.isEmpty = true ∧ ∀ later ∈ rest, later.position < s.windowStartSeq)
        (by rw [Fits, if_pos h])
    else
      have := decidableFits env (s.collect env applied record).1 (s.collect env applied record).2 rest
      decidable_of_iff (Fits env (s.collect env applied record).1 (s.collect env applied record).2 rest)
        (by rw [Fits, if_neg h])

namespace Delivering

variable {s : ConversationSocket} {applied : List JournalRecord}

variable {records : List JournalRecord}

theorem collectAll_below (env : Env) (h : Delivering initialCursor start s [])
    (hAnchored : s.anchored.lastSeq = s.windowStartSeq - 1)
    (hBelow : ∀ later ∈ records, later.position < s.windowStartSeq) :
    Delivering initialCursor start (s.collectAll env [] records).1 (s.collectAll env [] records).2 := by
  induction records generalizing s with
  | nil => exact h
  | cons record rest ih =>
    have hRec := hBelow record mem_cons_self
    simp only [ConversationSocket.collectAll]
    rw [collect_stale env s [] (by omega)]
    refine ih h.anchored.1 ?_ ?_
    · rw [anchored_idem, anchored_windowStartSeq, hAnchored]
    · rw [anchored_windowStartSeq]
      exact fun later hLater => hBelow later (mem_cons_of_mem _ hLater)

theorem collectAll (env : Env) (h : Delivering initialCursor start s applied)
    (hFresh : ∀ r ∈ records, r ∈ receivedOf s.trace) (hFits : Fits env s applied records) :
    Delivering initialCursor start (s.collectAll env applied records).1
      (s.collectAll env applied records).2 := by
  induction records generalizing s applied with
  | nil => exact h
  | cons record rest ih =>
    rw [Fits] at hFits
    simp only [ConversationSocket.collectAll]
    split at hFits
    · rename_i hOver
      obtain ⟨hEmpty, hBelow⟩ := hFits
      obtain rfl := List.isEmpty_iff.mp hEmpty
      rw [collect_overflow env s [] hOver]
      have hA := h.anchored.1
      have hReset := (delivering_reset .window hA.window hA.moments).quiet (quiet_forceReconnect _)
      have hQuiet := quiet_forceReconnect (s.anchored.resetStream .window)
      have hLast : (s.anchored.resetStream .window).forceReconnect.lastSeq = -1 := hQuiet.lastSeq
      have hWin : (s.anchored.resetStream .window).forceReconnect.windowStartSeq = s.windowStartSeq :=
        hQuiet.windowStartSeq.trans (anchored_windowStartSeq s)
      refine hReset.collectAll_below env ?_ (hWin ▸ hBelow)
      rw [ConversationSocket.anchored, if_pos (hLast ▸ by decide)]
    · rename_i hRoom
      refine ih (h.collect env (hFresh record mem_cons_self) hRoom) ?_ hFits
      rw [collect_receivedOf env s applied hRoom]
      exact fun r hr => hFresh r (mem_cons_of_mem _ hr)

theorem receive (h : Delivering initialCursor start s []) (env : Env) (id : Nat) (frame : ServerFrame)
    (hReady : ∀ ready, frame ≠ .ready ready) : Delivering initialCursor start (s.receive env id frame) [] := by
  have hWin : (Observation.received id frame).readyWindow = none := by
    cases frame with
    | ready ready => exact absurd rfl (hReady ready)
    | _ => rfl
  have hStream : streamOf (.received id frame :: s.trace) = streamOf s.trace := by
    rw [streamOf_cons rfl]
    exact append_nil _
  have hReceived : ∀ r ∈ receivedOf s.trace, r ∈ receivedOf (.received id frame :: s.trace) := by
    rw [receivedOf_cons rfl]
    exact fun r hr => mem_append_right _ hr
  refine ⟨?_, ?_, by simp, fun r hr => hReceived r (h.ahead_fresh r hr), ?_, ?_, ?_⟩
  · simpa [ConversationSocket.receive, observe, hStream] using h.run
  · simpa [ConversationSocket.receive, observe, hStream] using h.placed
  · change s.windowStartSeq = lastReadyWindow start.windowStartSeq (.received id frame :: s.trace)
    rw [lastReadyWindow, hWin]
    exact h.window
  · intro hNone
    rcases h.anchor (hStream ▸ hNone) with hLeft | hWin' | ⟨hNever, hCursor⟩
    · exact .inl hLeft
    · exact .inr (.inl hWin')
    · exact .inr (.inr ⟨(neverReset_cons _ _).mpr ⟨rfl, hNever⟩, hCursor⟩)
  · exact moments_cons h.moments (streamDelivered_cons rfl rfl (h.moments _ suffix_rfl))

end Delivering

theorem receivedOf_receive (env : Env) (s : ConversationSocket) (id : Nat) (frame : ServerFrame) :
    ∀ r ∈ (Observation.received id frame).receivedRecords, r ∈ receivedOf (s.receive env id frame).trace := by
  intro r hr
  change r ∈ receivedOf (.received id frame :: s.trace)
  rw [receivedOf_cons rfl]
  exact mem_append_left _ hr

/-- The `ready` restarts the stream, by a changed epoch, a window out of reach or a long absence. -/
def Restarts (s : ConversationSocket) (ready : ReadyFrame) : Prop :=
  s.epochChanged ready = true ∨ s.unbridgeable ready = true ∨ s.tooFarBehind ready = true

/-- A `ready` that neither restarts the stream nor meets one that has begun to emit announces
the window the stream is already anchored at, unless that anchor is the initial cursor. -/
def ReadyAgrees (initialCursor : Option ConversationSocketCursor) (s : ConversationSocket)
    (ready : ReadyFrame) : Prop :=
  s.Restarts ready ∨ s.lastSeq < 0 ∨ streamOf s.trace ≠ [] ∨ ready.windowStartSeq = s.lastSeq + 1 ∨
    (neverReset s.trace ∧ ∃ cursor ∈ initialCursor, s.lastSeq = cursor.lastSeq)

/-- The condition on one step: a gap reply fits the buffer, and a `ready` agrees with the stream. -/
def KeepsStream (initialCursor : Option ConversationSocketCursor) (s : ConversationSocket)
    (stimulus : Env × Input) : Prop :=
  match stimulus.2, s.socket with
  | .message (some (.ready ready)), some ⟨_, .open⟩ => ReadyAgrees initialCursor s ready
  | .message (some (.backfill frame)), some ⟨id, .open⟩ =>
    s.olderRequestOf frame.requestId = none →
      Fits stimulus.1 { s.receive stimulus.1 id (.backfill frame) with gapPending := false } [] frame.records
  | _, _ => True

theorem quiet_announce (s : ConversationSocket) (ready : ReadyFrame) :
    Quiet s ((s.onEvent (.ready ready)).setStatus .live none true).armResumeGrace :=
  (Quiet.observe s (o := .event (.ready ready)) ⟨rfl, rfl, rfl, rfl⟩).trans
    ((quiet_setStatus _ _ _ _).trans (quiet_armResumeGrace _))

namespace Delivering

variable {s : ConversationSocket}

theorem adopt (h : Delivering initialCursor start s []) (id : Nat) (env : Env) {ready : ReadyFrame}
    (hAgrees : s.lastSeq < 0 ∨ streamOf s.trace ≠ [] ∨ ready.windowStartSeq = s.lastSeq + 1 ∨
      (neverReset s.trace ∧ ∃ cursor ∈ initialCursor, s.lastSeq = cursor.lastSeq)) :
    Delivering initialCursor start
      { s.receive env id (.ready ready) with windowStartSeq := ready.windowStartSeq } [] := by
  have hStream : streamOf (.received id (.ready ready) :: s.trace) = streamOf s.trace := by
    rw [streamOf_cons rfl]
    exact append_nil _
  have hReceived : ∀ r ∈ receivedOf s.trace, r ∈ receivedOf (.received id (.ready ready) :: s.trace) := by
    rw [receivedOf_cons rfl]
    exact fun r hr => mem_append_right _ hr
  refine ⟨?_, ?_, by simp, fun r hr => hReceived r (h.ahead_fresh r hr), rfl, ?_, ?_⟩
  · simpa [ConversationSocket.receive, observe, hStream] using h.run
  · simpa [ConversationSocket.receive, observe, hStream] using h.placed
  · intro hNone
    rcases hAgrees with hNeg | hSome | hWin | ⟨hNever, cursor, hCursor, hLast⟩
    · exact .inl ⟨rfl, hNeg⟩
    · exact absurd (hStream ▸ hNone) hSome
    · exact .inr (.inl (by simpa [ConversationSocket.receive, observe] using hWin.symm))
    · refine .inr (.inr ⟨(neverReset_cons _ _).mpr ⟨rfl, hNever⟩, cursor, hCursor, ?_⟩)
      simpa [ConversationSocket.receive, observe] using hLast
  · exact moments_cons h.moments (streamDelivered_cons rfl rfl (h.moments _ suffix_rfl))

theorem openStream (h : Delivering initialCursor start s []) (ready : ReadyFrame) :
    Delivering initialCursor start (s.openStream ready) [] := by
  unfold ConversationSocket.openStream
  split
  · exact (delivering_reset .window h.window h.moments).quiet (quiet_forceReconnect _)
  · exact h.quiet (quiet_announce s ready)

end Delivering

theorem quiet_learnReauthPeriod (s : ConversationSocket) (ready : ReadyFrame) :
    Quiet s (s.learnReauthPeriod ready) := by
  unfold learnReauthPeriod
  dsimp only
  split
  · exact .of_eq rfl rfl rfl rfl
  · exact .refl s

theorem quiet_adopted (env : Env) (s : ConversationSocket) (ready : ReadyFrame) :
    Quiet { s with windowStartSeq := ready.windowStartSeq } (s.adopted env ready) := by
  have h : Quiet { s with windowStartSeq := ready.windowStartSeq } (s.adoptReady env ready) :=
    .of_eq rfl rfl rfl rfl
  exact (h.trans (quiet_learnReauthPeriod _ ready)).trans (.of_eq rfl rfl rfl rfl)

namespace Delivering

variable {s : ConversationSocket}

section

variable (h : Delivering initialCursor start s [])
include h

theorem handleReady (env : Env) (id : Nat) {ready : ReadyFrame}
    (hAgrees : ReadyAgrees initialCursor s ready) :
    Delivering initialCursor start ((s.receive env id (.ready ready)).handleReady env ready) [] := by
  have hQuiet := quiet_adopted env (s.receive env id (.ready ready)) ready
  have hRestart : ∀ reason, Delivering initialCursor start
      (((s.receive env id (.ready ready)).adopted env ready).resetStream reason) [] := by
    intro reason
    obtain ⟨obs, hObs, hSilent⟩ := hQuiet.trace
    refine delivering_reset reason ?_ ?_
    · rw [hQuiet.windowStartSeq, hObs, lastReadyWindow_silent hSilent]
      rfl
    · rw [hObs]
      refine moments_silent hSilent (moments_cons h.moments ?_)
      exact streamDelivered_cons rfl rfl (h.moments _ suffix_rfl)
  unfold ConversationSocket.handleReady
  split
  · exact (hRestart .epoch).openStream ready
  · rename_i hEpoch
    split
    · exact (hRestart .window).openStream ready
    · rename_i hBridge
      unfold ConversationSocket.openStream
      split
      · exact (hRestart .window).quiet (quiet_forceReconnect _)
      · rename_i hFar
        have hKeeps : ¬ s.Restarts ready := by
          rintro (hE | hB | hF)
          · exact hEpoch hE
          · exact hBridge hB
          · apply hFar
            unfold tooFarBehind at hF ⊢
            rwa [hQuiet.lastSeq]
        have hAdopt := (h.adopt id env (hAgrees.resolve_left hKeeps)).quiet hQuiet
        exact hAdopt.quiet (quiet_announce _ ready)

theorem applyRecord (env : Env) (id : Nat) (record : JournalRecord) :
    Delivering initialCursor start ((s.receive env id (.record record)).applyRecord env record) [] := by
  have hReceive := h.receive env id (.record record) (by simp)
  by_cases hOver : (s.receive env id (.record record)).Overflows record
  · unfold ConversationSocket.applyRecord
    rw [collect_overflow env _ [] hOver]
    have hA := hReceive.anchored.1
    exact ((delivering_reset .window hA.window hA.moments).quiet (quiet_forceReconnect _)).flush
  · refine (hReceive.collect env ?_ hOver).flush
    exact receivedOf_receive env s id _ record (mem_singleton.mpr rfl)

theorem handleGapReply (env : Env) (id : Nat) {frame : BackfillFrame}
    (hFits : Fits env { s.receive env id (.backfill frame) with gapPending := false } [] frame.records) :
    Delivering initialCursor start ((s.receive env id (.backfill frame)).handleGapReply env frame) [] := by
  have hReceive : Delivering initialCursor start
      { s.receive env id (.backfill frame) with gapPending := false } [] :=
    (h.receive env id (.backfill frame) (by simp)).quiet (.of_eq rfl rfl rfl rfl)
  have hPlaced := hReceive.collectAll env (receivedOf_receive env s id (.backfill frame)) hFits
  exact hPlaced.flush.quiet (quiet_settleReply env _ _ _)

theorem handleFrame (env : Env) {id : Nat}
    (hSock : s.socket = some ⟨id, .open⟩) {frame : ServerFrame}
    (hKeeps : KeepsStream initialCursor s (env, .message (some frame))) :
    Delivering initialCursor start ((s.receive env id frame).handleFrame env frame) [] := by
  simp only [KeepsStream, hSock] at hKeeps
  cases frame with
  | ready ready => exact h.handleReady env id hKeeps
  | record record => exact h.applyRecord env id record
  | backfill frame =>
    change Delivering initialCursor start ((s.receive env id (.backfill frame)).handleBackfill env frame) []
    unfold ConversationSocket.handleBackfill
    split
    · exact (h.receive env id _ (by simp)).quiet (quiet_handleOlder env _ _ frame)
    · rename_i hNone
      exact h.handleGapReply env id (hKeeps hNone)
  | gap fromSeq toSeq =>
    exact (h.receive env id (.gap fromSeq toSeq) (by simp)).quiet (.observe _ ⟨rfl, rfl, rfl, rfl⟩)
  | reset reason =>
    have hReceive := h.receive env id (.reset reason) (by simp)
    exact delivering_reset reason hReceive.window hReceive.moments
  | tool frame =>
    exact (h.receive env id (.tool frame) (by simp)).quiet (.observe _ ⟨rfl, rfl, rfl, rfl⟩)
  | agents => exact (h.receive env id .agents (by simp)).quiet (.observe _ ⟨rfl, rfl, rfl, rfl⟩)
  | authExpiring => exact (h.receive env id .authExpiring (by simp)).quiet (quiet_reauthenticate _)
  | error message retryable =>
    exact (h.receive env id (.error message retryable) (by simp)).quiet (quiet_setStatus _ _ _ _)

theorem step (stimulus : Env × Input)
    (hKeeps : KeepsStream initialCursor s stimulus) :
    Delivering initialCursor start (s.step stimulus) [] := by
  obtain ⟨env, input⟩ := stimulus
  by_cases hFrame : ∃ frame, input = .message (some frame)
  · obtain ⟨frame, rfl⟩ := hFrame
    change Delivering initialCursor start (s.onMessage env (some frame)) []
    unfold ConversationSocket.onMessage
    split
    · exact h
    · rename_i ws hSock
      split
      · exact h
      · rename_i hOpen
        obtain ⟨id, readyState⟩ := ws
        obtain rfl : readyState = .open := by simpa using hOpen
        exact h.handleFrame env hSock hKeeps
  · exact h.quiet (quiet_step s env input (fun frame hEq => hFrame ⟨frame, hEq⟩))

end

end Delivering

theorem create_lastSeq (now : Int) :
    (create initialCursor now).lastSeq < 0 ∨
      ∃ cursor ∈ initialCursor, (create initialCursor now).lastSeq = cursor.lastSeq := by
  cases initialCursor with
  | none => exact .inl (by simp [create])
  | some cursor =>
    by_cases hValid : cursor.Valid
    · exact .inr ⟨cursor, rfl, by simp [create, hValid]⟩
    · exact .inl (by simp [create, hValid])

theorem create_trace (now : Int) : (create initialCursor now).trace = [] ∧ (create initialCursor now).ahead = [] := by
  unfold create
  split
  · exact ⟨rfl, rfl⟩
  · split <;> exact ⟨rfl, rfl⟩

theorem delivering_create (now : Int) :
    Delivering initialCursor (create initialCursor now) (create initialCursor now) [] := by
  obtain ⟨hTrace, hAhead⟩ := @create_trace initialCursor now
  refine ⟨by simp [hTrace, streamOf, sinceReset, emitted], by simp [hTrace, streamOf, sinceReset, emitted],
    by simp, by simp [hAhead], by rw [hTrace]; rfl, fun _ => ?_, ?_⟩
  · rcases @create_lastSeq initialCursor now with hNeg | ⟨cursor, hCursor, hLast⟩
    · exact .inl ⟨rfl, hNeg⟩
    · exact .inr (.inr ⟨by simp [hTrace, neverReset], cursor, hCursor, by simp [hLast]⟩)
  · intro t ht
    obtain rfl : t = [] := by simpa [hTrace] using ht
    exact ⟨List.IsChain.nil, by simp [streamOf, sinceReset, emitted], by rintro _ _ ⟨⟩⟩

/-- Along every run whose gap replies fit the buffer and whose `ready`s agree with the stream,
at every moment the records emitted since the last reset are one run of consecutive seqs,
begin where the cursor or the window says, and were all received since that reset. -/
theorem stream_delivered (initialCursor : Option ConversationSocketCursor) (now : Int)
    (inputs : List (Env × Input))
    (h : Along ConversationSocket.step (KeepsStream initialCursor) (create initialCursor now) inputs) :
    ∀ t, t <:+ (run ConversationSocket.step (create initialCursor now) inputs).trace →
      StreamDelivered initialCursor (create initialCursor now) t := by
  have hStep : ∀ (s : ConversationSocket) (stimulus : Env × Input),
      Delivering initialCursor (create initialCursor now) s [] → KeepsStream initialCursor s stimulus →
      Delivering initialCursor (create initialCursor now) (s.step stimulus) [] :=
    fun _ stimulus hDelivering hKeeps => hDelivering.step stimulus hKeeps
  exact (run_invariant hStep (delivering_create now) h).moments

def deliveryRun : List (Env × Input) :=
  connectWith 0 { epoch := 1, headSeq := 2, windowStartSeq := 0, floorSeq := 0 } ++
    [(⟨0, fun _ => false⟩, .message (some (.record (skippedRow 2)))),
      (⟨0, fun _ => false⟩, .message (some (.backfill ⟨.gap 1, 0, 1, true, [skippedRow 0, skippedRow 1]⟩)))]

theorem stream_delivered_deliveryRun :
    (streamOf (run ConversationSocket.step (create none 0) deliveryRun).trace).map JournalRecord.seq = [0, 1, 2] ∧
      StreamDelivered none (create none 0) (run ConversationSocket.step (create none 0) deliveryRun).trace := by
  refine ⟨by decide, stream_delivered none 0 deliveryRun ?_ _ suffix_rfl⟩
  exact ⟨trivial, trivial, trivial, .inr (.inl (by decide)), trivial, fun _ => by decide, trivial⟩

end ConversationSocket

end Stella.Conversation
