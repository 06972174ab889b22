import Stella.Library.Transition
import Stella.TurnStates.Kept

/-! # Turn states stay restorable

In every run in which no operation is prepared anew under a drain that still lists its retirement.
-/

namespace Stella.TurnStates

open Stella.Rows Stella.Transition List

namespace Registry

variable (digests : Digests) (w : Registry)

structure Restorable : Prop where
  stored : ∀ candidate ∈ w.named, ∀ archive, candidate.native = some archive → archive.key ∈ w.store
  cursors : ∀ thread ∈ w.threads, (thread.candidates.map TurnStateCandidate.historyCursor).Nodup
  retired : ∀ key ∈ w.dropped, ∃ record ∈ w.retirements, key ∈ record.objectKeys

/-- Confirming puts the candidate with the operation and the cursor in the place of the
committed state and of all candidates, and does nothing where there is none. -/
structure Confirms (w later : Registry) (ownerGeneration threadId historyCursor operationId : String) : Prop where
  replaces : ∀ thread, lookup ThreadRecord.threadId w.threads threadId = some thread →
    thread.ownerGeneration = ownerGeneration → ∀ candidate ∈ thread.candidates, candidate.operationId = operationId →
      candidate.historyCursor = historyCursor → lookup ThreadRecord.threadId later.threads threadId =
        some { thread with committed := some candidate, candidates := [] }
  refuses : (∀ thread, lookup ThreadRecord.threadId w.threads threadId = some thread →
    thread.ownerGeneration = ownerGeneration → ∀ candidate ∈ thread.candidates, candidate.operationId = operationId →
      candidate.historyCursor ≠ historyCursor) → later = w
  others : ∀ id, id ≠ threadId →
    lookup ThreadRecord.threadId later.threads id = lookup ThreadRecord.threadId w.threads id

structure Sound (input : TurnStateInput) : Prop where
  confirms : ∀ ownerGeneration threadId historyCursor operationId now,
    input = .confirm ownerGeneration threadId historyCursor operationId now →
      w.Confirms (w.step digests input) ownerGeneration threadId historyCursor operationId
  /-- An archive that stops being named counts as dropped, -/
  drops : ∀ candidate ∈ w.named, candidate ∉ (w.step digests input).named → ∀ archive, candidate.native = some archive →
    archive.key ∈ (w.step digests input).dropped
  /-- until it was seen absent. -/
  absent : ∀ key ∈ w.dropped, key ∉ (w.step digests input).dropped → key ∉ (w.step digests input).store

variable {digests w}

theorem Kept.restorable (h : w.Kept) : w.Restorable where
  stored candidate hNamed archive hArch := ((h.held.stored candidate hNamed).native archive hArch).1
  cursors thread hThr := (h.threads thread hThr).cursors
  retired key hKey := by
    obtain ⟨record, hRec, hIn⟩ := h.held.dropped key hKey
    exact ⟨record, lookup_mem hRec, hIn⟩

/-! ## What a step changes -/

structure Keeps (w later : Registry) : Prop where
  named : ∀ candidate ∈ w.named, candidate ∈ later.named
  dropped : ∀ key ∈ w.dropped, key ∈ later.dropped

theorem keeps_of_eq {later : Registry} (hThreads : later.threads = w.threads) (hDrop : later.dropped = w.dropped) :
    w.Keeps later := by
  refine ⟨fun candidate hCand => ?_, fun key hKey => hDrop ▸ hKey⟩
  rw [named, hThreads]
  exact hCand

theorem mem_upsert_threads (h : w.Kept) (thread : ThreadRecord) {other : ThreadRecord} (hOther : other ∈ w.threads)
    (hAway : other.threadId ≠ thread.threadId) : other ∈ upsert ThreadRecord.threadId w.threads thread := by
  have hRow : lookup ThreadRecord.threadId (upsert ThreadRecord.threadId w.threads thread) other.threadId = some other := by
    rw [lookup_upsert, if_neg hAway]
    exact lookup_of_mem h.threadIds hOther
  exact lookup_mem hRow

theorem mem_upsert_self (threads : List ThreadRecord) (thread : ThreadRecord) :
    thread ∈ upsert ThreadRecord.threadId threads thread := by
  have hRow : lookup ThreadRecord.threadId (upsert ThreadRecord.threadId threads thread) thread.threadId = some thread := by
    rw [lookup_upsert, if_pos rfl]
  exact lookup_mem hRow

theorem Kept.commit_keeps (h : w.Kept) (operationId : String) : w.Keeps (w.commitTurnStateOperation digests operationId) := by
  unfold commitTurnStateOperation
  split
  · exact keeps_of_eq rfl rfl
  next operation hOp =>
  dsimp only
  split
  · exact keeps_of_eq rfl rfl
  split
  · exact keeps_of_eq rfl rfl
  split
  · exact keeps_of_eq rfl rfl
  split
  · exact keeps_of_eq rfl rfl
  split
  · exact keeps_of_eq rfl rfl
  split
  · exact keeps_of_eq rfl rfl
  refine ⟨fun candidate hCand => ?_, fun _ hKey => hKey⟩
  obtain ⟨thread, hThr, hMem⟩ := mem_flatMap.mp hCand
  by_cases hHere : thread.threadId = operation.identity.threadId
  · have hEq : w.threadOf operation = thread := by
      unfold Registry.threadOf
      rw [← hHere, lookup_of_mem h.threadIds hThr, Option.getD_some]
    refine mem_flatMap.mpr ⟨_, mem_upsert_self _ _, ?_⟩
    rw [hEq, ThreadRecord.named, ← append_assoc]
    exact mem_append_left _ hMem
  · refine mem_flatMap.mpr ⟨thread, mem_upsert_threads h _ hThr ?_, hMem⟩
    rw [show ThreadRecord.threadId { w.threadOf operation with candidates := _ } = (w.threadOf operation).threadId from rfl,
      threadOf_threadId]
    exact hHere

theorem clear_keeps (place : Nat) (drain : Drain) (retirement : RetirementRecord) (rest : List RetirementRecord) :
    w.Keeps (w.clear place drain retirement rest) := by
  unfold clear
  split
  · exact keeps_of_eq rfl rfl
  split
  · exact keeps_of_eq rfl rfl
  split
  · exact keeps_of_eq rfl rfl
  split <;> exact keeps_of_eq rfl rfl

theorem Kept.step_cases (h : w.Kept) (input : TurnStateInput) :
    (∃ ownerGeneration threadId historyCursor operationId now,
      input = .confirm ownerGeneration threadId historyCursor operationId now) ∨
    (∃ place throws, input = .head place throws) ∨ w.Keeps (w.step digests input) := by
  cases input with
  | prepare args =>
    refine .inr (.inr ?_)
    unfold Registry.step prepareTurnStateOperation
    dsimp only
    split
    · exact keeps_of_eq rfl rfl
    split <;> exact keeps_of_eq rfl rfl
  | upload key => exact .inr (.inr (keeps_of_eq rfl rfl))
  | markUploaded operationId archive =>
    refine .inr (.inr ?_)
    unfold Registry.step markTurnStateObjectUploaded
    dsimp only
    split
    · split
      · split <;> exact keeps_of_eq rfl rfl
      · exact keeps_of_eq rfl rfl
    · exact keeps_of_eq rfl rfl
  | commit operationId => exact .inr (.inr (h.commit_keeps operationId))
  | publish ownerGeneration threadId historyCursor operationId =>
    refine .inr (.inr ?_)
    unfold Registry.step publishTurnStateWorkspace
    dsimp only
    split
    · split <;> exact keeps_of_eq rfl rfl
    · exact keeps_of_eq rfl rfl
  | confirm ownerGeneration threadId historyCursor operationId now => exact .inl ⟨_, _, _, _, _, rfl⟩
  | drain ownerGeneration limit => exact .inr (.inr (keeps_of_eq rfl rfl))
  | delete place takesEffect throws =>
    refine .inr (.inr ?_)
    unfold Registry.step
    dsimp only
    split <;> exact keeps_of_eq rfl rfl
  | head place throws => exact .inr (.inl ⟨_, _, rfl⟩)
  | clear place =>
    refine .inr (.inr ?_)
    unfold Registry.step
    dsimp only
    split
    · exact clear_keeps _ _ _ _
    · exact keeps_of_eq rfl rfl
  | restart => exact .inr (.inr (keeps_of_eq rfl rfl))

theorem head_named (place : Nat) (throws : Bool) : (w.step digests (.head place throws)).named = w.named := by
  unfold step
  dsimp only
  split
  · split <;> rfl
  · rfl

theorem head_absent (place : Nat) (throws : Bool) {key : ObjectKey} (hKey : key ∈ w.dropped)
    (hGone : key ∉ (w.step digests (.head place throws)).dropped) : key ∉ (w.step digests (.head place throws)).store := by
  unfold step at hGone ⊢
  dsimp only at hGone ⊢
  split at hGone
  · next hPlace =>
    split at hGone
    · exact absurd hKey hGone
    · next hAbsent =>
      rw [if_neg hAbsent]
      simp only [Bool.or_eq_true, decide_eq_true_eq, not_or] at hAbsent
      intro hStill
      refine hGone (mem_erase.mpr ⟨hKey, fun hEq => hAbsent.2 ?_⟩)
      exact (show key = _ from hEq) ▸ hStill
  · exact absurd hKey hGone

theorem Kept.confirms (h : w.Kept) (ownerGeneration threadId historyCursor operationId : String) (now : Int) :
    w.Confirms (w.confirmTurnStateRestore ownerGeneration threadId historyCursor operationId now) ownerGeneration threadId
      historyCursor operationId := by
  obtain ⟨hEq, hNone⟩ | ⟨thread, restore, later, hThr, hOwner, hRestore, hOp, hCursor, -, hRetires, hConfirm⟩ :=
    h.confirm_cases ownerGeneration threadId historyCursor operationId now
  · rw [hEq]
    exact ⟨fun thread hThr hOwner candidate hCand hOp hCursor =>
      absurd hCursor (hNone thread hThr hOwner candidate hCand hOp), fun _ => rfl, fun _ _ => rfl⟩
  rw [hConfirm]
  have hId : thread.threadId = threadId := lookup_key hThr
  refine ⟨fun other hOther _ candidate hCand hEq _ => ?_, fun hNone => ?_, fun id hAway => ?_⟩
  · obtain rfl : thread = other := Option.some.inj (hThr.symm.trans hOther)
    obtain rfl : candidate = restore := (h.threads thread (lookup_mem hThr)).unique (mem_append_right _ hCand)
      (mem_append_right _ hRestore) (hEq.trans hOp.symm)
    exact (lookup_upsert _ _ _).trans (if_pos hId.symm)
  · exact absurd hCursor (hNone thread hThr hOwner restore hRestore hOp)
  · refine (lookup_upsert _ _ _).trans ?_
    rw [if_neg fun hEq => hAway (hEq.trans hId), hRetires.threads]

theorem Kept.confirm_drops (h : w.Kept) (ownerGeneration threadId historyCursor operationId : String) (now : Int)
    {candidate : TurnStateCandidate} (hNamed : candidate ∈ w.named)
    (hGone : candidate ∉ (w.confirmTurnStateRestore ownerGeneration threadId historyCursor operationId now).named)
    {archive : TurnStateArchive} (hArch : candidate.native = some archive) :
    archive.key ∈ (w.confirmTurnStateRestore ownerGeneration threadId historyCursor operationId now).dropped := by
  obtain ⟨hEq, -⟩ | ⟨thread, restore, later, hThr, -, hRestore, -, -, -, hRetires, hConfirm⟩ :=
    h.confirm_cases ownerGeneration threadId historyCursor operationId now
  · rw [hEq] at hGone
    exact absurd hNamed hGone
  rw [hConfirm] at hGone ⊢
  have hKept := h.threads thread (lookup_mem hThr)
  obtain ⟨other, hOther, hMem⟩ := mem_flatMap.mp hNamed
  -- Other threads keep what they name, so the candidate was named by this one.
  by_cases hHere : other.threadId = thread.threadId
  · obtain rfl : other = thread := Option.some.inj
      ((lookup_of_mem h.threadIds hOther).symm.trans (hHere ▸ lookup_of_mem h.threadIds (lookup_mem hThr)))
    have hRet : candidate ∈ retiredFor other restore := by
      rcases mem_append.mp hMem with hComm | hCand
      · exact mem_append_left _ hComm
      · refine mem_append_right _ (mem_filter.mpr ⟨hCand, decide_eq_true fun hEq => hGone ?_⟩)
        rw [hKept.unique hMem (mem_append_right _ hRestore) hEq]
        exact mem_flatMap.mpr ⟨_, mem_upsert_self _ _, mem_append_left _ (mem_singleton_self _)⟩
    refine hRetires.dropped _ (mem_flatMap.mpr ⟨candidate, hRet, ?_⟩)
    rw [hArch]
    exact mem_singleton_self _
  · refine absurd (mem_flatMap.mpr ⟨other, ?_, hMem⟩) hGone
    have hStays := mem_upsert_threads h { thread with committed := some restore, candidates := [] } hOther hHere
    rw [← hRetires.threads] at hStays
    exact hStays

theorem Kept.confirm_dropped (h : w.Kept) (ownerGeneration threadId historyCursor operationId : String) (now : Int)
    {key : ObjectKey}
    (hKey : key ∈ w.dropped) : key ∈ (w.confirmTurnStateRestore ownerGeneration threadId historyCursor operationId now).dropped := by
  obtain ⟨hEq, -⟩ | ⟨thread, restore, later, -, -, -, -, -, -, hRetires, hConfirm⟩ :=
    h.confirm_cases ownerGeneration threadId historyCursor operationId now
  · rw [hEq]
    exact hKey
  · rw [hConfirm]
    exact hRetires.kept key hKey

theorem Kept.sound (h : w.Kept) (input : TurnStateInput) : w.Sound digests input where
  confirms := by
    rintro ownerGeneration threadId historyCursor operationId now rfl
    exact h.confirms ownerGeneration threadId historyCursor operationId now
  drops candidate hNamed hGone archive hArch := by
    obtain ⟨_, _, _, _, _, rfl⟩ | ⟨place, throws, rfl⟩ | hKeeps := @Kept.step_cases digests w h input
    · exact h.confirm_drops _ _ _ _ _ hNamed hGone hArch
    · rw [head_named] at hGone
      exact absurd hNamed hGone
    · exact absurd (hKeeps.named candidate hNamed) hGone
  absent key hKey hGone := by
    obtain ⟨_, _, _, _, _, rfl⟩ | ⟨place, throws, rfl⟩ | hKeeps := @Kept.step_cases digests w h input
    · exact absurd (h.confirm_dropped _ _ _ _ _ hKey) hGone
    · exact head_absent place throws hKey hGone
    · exact absurd (hKeeps.dropped key hKey) hGone

/-! ## Runs -/

/-- In every run, what a thread names can be restored, and what it named before is retired until it was seen absent. -/
theorem restorable_of_run {inputs : List TurnStateInput} (hRun : Along (Registry.step digests) (Undisturbed digests) {} inputs) :
    (run (Registry.step digests) {} inputs).Restorable ∧
      ∀ input, (run (Registry.step digests) {} inputs).Sound digests input := by
  have hStep : ∀ w input, Kept w → w.Undisturbed digests input → (w.step digests input).Kept :=
    fun _ _ h hUndisturbed => h.step hUndisturbed
  have hKept := run_invariant hStep kept_start hRun
  exact ⟨hKept.restorable, hKept.sound⟩

/-- In every run each operation is named once in all threads, by the thread it was prepared for. -/
theorem named_once_of_run {inputs : List TurnStateInput} (hRun : Along (Registry.step digests) (Undisturbed digests) {} inputs) :
    let w := run (Registry.step digests) {} inputs
    ∀ thread ∈ w.threads, ∀ candidate ∈ thread.named,
      (∃ operation, lookup OperationRecord.operationId w.operations candidate.operationId = some operation ∧
        operation.identity.threadId = thread.threadId) ∧
      ∀ other ∈ w.threads, ∀ again ∈ other.named, again.operationId = candidate.operationId → other = thread ∧ again = candidate := by
  intro w thread hThread candidate hNamed
  have hStep : ∀ w input, Kept w → w.Undisturbed digests input → (w.step digests input).Kept :=
    fun _ _ h hUndisturbed => h.step hUndisturbed
  have hKept : w.Kept := run_invariant hStep kept_start hRun
  obtain ⟨operation, hOperation, -⟩ := (hKept.held.stored candidate (mem_flatMap.mpr ⟨thread, hThread, hNamed⟩)).committed
  have hOwn := (hKept.threads thread hThread).own candidate hNamed operation hOperation
  refine ⟨⟨operation, hOperation, hOwn⟩, fun other hOther again hAgain hEq => ?_⟩
  have hTheirs := (hKept.threads other hOther).own again hAgain operation (hEq ▸ hOperation)
  obtain rfl : other = thread := Option.some.inj ((lookup_of_mem hKept.threadIds hOther).symm.trans
    ((hTheirs.symm.trans hOwn) ▸ lookup_of_mem hKept.threadIds hThread))
  exact ⟨rfl, (hKept.threads other hOther).unique hAgain hNamed hEq⟩

/-! ### Two drains of one retirement -/

def plainDigests : Digests where
  operationId args := args.historyCursor
  receipt operation _ := operation.operationId
  publicationReceipt operation := operation.operationId

def plainArgs (historyCursor : String) : PrepareArgs where
  identity := ⟨"generation", "thread", historyCursor, 1⟩
  requestFingerprint := "request"
  historyCursor := historyCursor
  manifestId := some "manifest"
  nativeOnly := false
  nativeCheckpoint := some "checkpoint"
  createdAt := 0

def plainArchive (historyCursor : String) : TurnStateArchive where
  key := ⟨"thread", historyCursor, 1, historyCursor⟩
  sizeBytes := 1
  sha256 := "sha"
  etag := "etag"

def operationRun (historyCursor : String) : List TurnStateInput :=
  [.prepare (plainArgs historyCursor), .upload (plainArchive historyCursor).key, .markUploaded historyCursor (plainArchive historyCursor),
    .commit historyCursor]

def retiringRun : List TurnStateInput :=
  operationRun "first" ++ operationRun "second" ++ [.confirm "generation" "thread" "second" "second" 1]

def overlappingRun : List TurnStateInput :=
  retiringRun ++ [.drain "generation" 32, .drain "generation" 32, .delete 0 true false, .head 0 false, .clear 0] ++
    operationRun "first" ++ [.delete 1 true false]

def drainedRun : List TurnStateInput :=
  retiringRun ++ [.drain "generation" 32, .delete 0 true false, .head 0 false, .clear 0] ++ operationRun "first"

theorem drainedRun_undisturbed : Along (Registry.step plainDigests) (Undisturbed plainDigests) {} drainedRun := by
  decide

theorem named_once_of_drainedRun : let w := run (Registry.step plainDigests) {} drainedRun
    w.named ≠ [] ∧ ∀ thread ∈ w.threads, ∀ candidate ∈ thread.named, ∀ other ∈ w.threads, ∀ again ∈ other.named,
      again.operationId = candidate.operationId → other = thread ∧ again = candidate :=
  ⟨by decide, fun thread hThread candidate hNamed => (named_once_of_run drainedRun_undisturbed thread hThread candidate hNamed).2⟩

theorem restorable_of_drainedRun : (run (Registry.step plainDigests) {} drainedRun).Restorable ∧
    (run (Registry.step plainDigests) {} drainedRun).Sound plainDigests (.confirm "generation" "thread" "first" "first" 2) := by
  obtain ⟨hRestorable, hSound⟩ := restorable_of_run drainedRun_undisturbed
  exact ⟨hRestorable, hSound _⟩

/-- The archive of a candidate is deleted. -/
theorem overlappingRun_loses : ¬ (run (Registry.step plainDigests) {} overlappingRun).Restorable := by
  intro h
  have hGone : ∃ candidate ∈ (run (Registry.step plainDigests) {} overlappingRun).named, candidate.native = some (plainArchive "first") ∧
      (plainArchive "first").key ∉ (run (Registry.step plainDigests) {} overlappingRun).store := by decide
  obtain ⟨candidate, hNamed, hArchive, hGone⟩ := hGone
  exact hGone (h.stored candidate hNamed _ hArchive)

end Registry

end Stella.TurnStates
