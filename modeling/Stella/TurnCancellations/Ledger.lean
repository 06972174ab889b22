import Mathlib.Data.List.Perm.Subperm
import Mathlib.Data.List.Sort
import Stella.AgentActivity.Lifecycle
import Stella.Library.Transition
import Stella.World.Path

/-! # The ledger of exact turn cancellations

`execution-placement-turn-cancellation.ts`: the cancellations of turns that may not have reached
their conversation yet, as one stored list.
-/

namespace Stella.TurnCancellations

open List

open AgentActivity (trim)
open Transition

def maxPendingExactTurnCancellations : Nat := 128
def maxAcknowledgedExactTurnCancellations : Nat := 128

structure ExactTurnCancellationRequest where
  turnId : String
  cancelRequestId : String
  ownerId : String
  ownerGeneration : String
  attemptGeneration : Option Int

inductive CancellationState
  | pending
  | acknowledged
  deriving DecidableEq

structure ExactTurnCancellation extends ExactTurnCancellationRequest where
  state : CancellationState
  persistedAt : Int
  acknowledgedAt : Option Int

inductive StageExactTurnCancellationResult
  | staged (cancellation : ExactTurnCancellation)
  | replayed (cancellation : ExactTurnCancellation)
  | conflict
  | saturated

def boundedIdentity (value : String) (maxLength : Nat) : Option String :=
  let normalized := trim value
  if normalized ≠ "" ∧ World.utf16Length normalized.toList ≤ maxLength then some normalized else none

def parseExactTurnCancellationRequest (input : ExactTurnCancellationRequest) : Option ExactTurnCancellationRequest := do
  let turnId ← boundedIdentity input.turnId 128
  let cancelRequestId ← boundedIdentity input.cancelRequestId 128
  let ownerId ← boundedIdentity input.ownerId 512
  let ownerGeneration ← boundedIdentity input.ownerGeneration 512
  guard (∀ generation ∈ input.attemptGeneration, 1 ≤ generation ∧ generation ≤ Json.maxSafeInteger)
  some { turnId, cancelRequestId, ownerId, ownerGeneration, attemptGeneration := input.attemptGeneration }

/-- A request as the callers make it: one that parses. -/
abbrev ParsedRequest := { request : ExactTurnCancellationRequest // (parseExactTurnCancellationRequest request).isSome = true }

def sameCancellation (left right : ExactTurnCancellationRequest) : Bool :=
  left.turnId = right.turnId && left.cancelRequestId = right.cancelRequestId && left.ownerId = right.ownerId &&
    left.ownerGeneration = right.ownerGeneration && left.attemptGeneration = right.attemptGeneration

abbrev Ledger := List ExactTurnCancellation

def normalizeLedger (stored : Ledger) : Ledger :=
  stored.filter fun entry => (parseExactTurnCancellationRequest entry.toExactTurnCancellationRequest).isSome

namespace ExactTurnCancellation

variable (entry : ExactTurnCancellation)

def isPending : Bool := entry.state = .pending
def isAcknowledged : Bool := entry.state = .acknowledged

/-- `entry.acknowledgedAt ?? entry.persistedAt`. -/
def stamp : Int := entry.acknowledgedAt.getD entry.persistedAt

end ExactTurnCancellation

def boundedLedger (entries : Ledger) : Ledger :=
  let pending := entries.filter ExactTurnCancellation.isPending
  let acknowledged := (entries.filter ExactTurnCancellation.isAcknowledged).insertionSort fun left right => right.stamp ≤ left.stamp
  pending ++ acknowledged.take maxAcknowledgedExactTurnCancellations

namespace Ledger

variable (stored : Ledger)

def stage (request : ExactTurnCancellationRequest) (now : Int) : StageExactTurnCancellationResult × Ledger :=
  let entries := normalizeLedger stored
  match entries.find? (fun entry => entry.turnId = request.turnId) with
  | some existing =>
    if sameCancellation existing.toExactTurnCancellationRequest request then (.replayed existing, stored) else (.conflict, stored)
  | none =>
    if (entries.find? fun entry => entry.cancelRequestId = request.cancelRequestId).isSome then (.conflict, stored)
    else if maxPendingExactTurnCancellations ≤ (entries.filter ExactTurnCancellation.isPending).length then (.saturated, stored)
    else
      let cancellation := { request with state := .pending, persistedAt := now, acknowledgedAt := none }
      (.staged cancellation, boundedLedger (entries ++ [cancellation]))

def acknowledge (request : ExactTurnCancellationRequest) (now : Int) : Bool × Ledger :=
  let entries := normalizeLedger stored
  match entries.findIdx? (fun entry => entry.turnId = request.turnId) with
  | none => (false, stored)
  | some index =>
    if (entries[index]?).any (fun entry => sameCancellation entry.toExactTurnCancellationRequest request) then
      (true, boundedLedger (entries.modify index fun entry => { entry with state := .acknowledged, acknowledgedAt := some now }))
    else (false, stored)

end Ledger

inductive LedgerOp
  | stage (request : ParsedRequest) (now : Int)
  | acknowledge (request : ParsedRequest) (now : Int)

def ledgerStep (stored : Ledger) : LedgerOp → Ledger
  | .stage request now => (stored.stage request now).2
  | .acknowledge request now => (stored.acknowledge request now).2

/-! ## What is kept -/

structure Sound (stored : Ledger) : Prop where
  turnIds : (stored.map fun entry => entry.turnId).Nodup
  cancelRequestIds : (stored.map fun entry => entry.cancelRequestId).Nodup
  pending : (stored.filter ExactTurnCancellation.isPending).length ≤ maxPendingExactTurnCancellations
  acknowledged : (stored.filter ExactTurnCancellation.isAcknowledged).length ≤ maxAcknowledgedExactTurnCancellations

structure Kept (stored : Ledger) : Prop where
  sound : Sound stored
  parsed : ∀ entry ∈ stored, (parseExactTurnCancellationRequest entry.toExactTurnCancellationRequest).isSome = true

def ExactTurnCancellation.acknowledge (entry : ExactTurnCancellation) (now : Int) : ExactTurnCancellation :=
  { entry with state := .acknowledged, acknowledgedAt := some now }

theorem sameCancellation_iff {left right : ExactTurnCancellationRequest} : sameCancellation left right = true ↔ left = right := by
  cases left
  cases right
  simp [sameCancellation, and_assoc]

theorem isAcknowledged_eq (entry : ExactTurnCancellation) : entry.isAcknowledged = !entry.isPending := by
  unfold ExactTurnCancellation.isAcknowledged ExactTurnCancellation.isPending
  cases entry.state <;> rfl

theorem normalizeLedger_eq {stored : Ledger} (h : Kept stored) : normalizeLedger stored = stored := filter_eq_self.mpr h.parsed

section Bounds

variable {entries : Ledger}

theorem mem_boundedLedger {entry : ExactTurnCancellation} (h : entry ∈ boundedLedger entries) : entry ∈ entries := by
  rcases mem_append.mp h with hPend | hAck
  · exact (mem_filter.mp hPend).1
  · exact (mem_filter.mp ((mem_insertionSort _).mp (mem_of_mem_take hAck))).1

section

variable (entries : Ledger)

theorem boundedLedger_subperm : (boundedLedger entries).Subperm entries := by
  have hSort := perm_insertionSort (fun left right => right.stamp ≤ left.stamp) (entries.filter ExactTurnCancellation.isAcknowledged)
  have hTaken := ((take_sublist maxAcknowledgedExactTurnCancellations _).subperm.trans hSort.subperm)
  have hAll : (entries.filter ExactTurnCancellation.isPending ++ entries.filter ExactTurnCancellation.isAcknowledged).Perm entries := by
    rw [funext isAcknowledged_eq]
    exact filter_append_perm ExactTurnCancellation.isPending entries
  exact ((subperm_append_left _).mpr hTaken).trans hAll.subperm

theorem filter_pending_boundedLedger :
    (boundedLedger entries).filter ExactTurnCancellation.isPending = entries.filter ExactTurnCancellation.isPending := by
  have hNone : ∀ entry ∈ ((entries.filter ExactTurnCancellation.isAcknowledged).insertionSort
      fun left right => right.stamp ≤ left.stamp).take maxAcknowledgedExactTurnCancellations, ¬ entry.isPending = true := by
    intro entry hEnt
    have hAck := (mem_filter.mp ((mem_insertionSort _).mp (mem_of_mem_take hEnt))).2
    rw [isAcknowledged_eq] at hAck
    simpa using hAck
  unfold boundedLedger
  rw [filter_append, filter_filter, filter_eq_nil_iff.mpr hNone, append_nil]
  simp

theorem filter_acknowledged_boundedLedger : (boundedLedger entries).filter ExactTurnCancellation.isAcknowledged =
    ((entries.filter ExactTurnCancellation.isAcknowledged).insertionSort fun left right => right.stamp ≤ left.stamp).take
      maxAcknowledgedExactTurnCancellations := by
  have hNone : ∀ entry ∈ entries.filter ExactTurnCancellation.isPending, ¬ entry.isAcknowledged = true := by
    intro entry hEnt
    rw [isAcknowledged_eq, (mem_filter.mp hEnt).2]
    simp
  have hAll : ∀ entry ∈ ((entries.filter ExactTurnCancellation.isAcknowledged).insertionSort
      fun left right => right.stamp ≤ left.stamp).take maxAcknowledgedExactTurnCancellations, entry.isAcknowledged = true :=
    fun entry hEnt => (mem_filter.mp ((mem_insertionSort _).mp (mem_of_mem_take hEnt))).2
  unfold boundedLedger
  rw [filter_append, filter_eq_nil_iff.mpr hNone, nil_append, filter_eq_self.mpr hAll]

end

theorem nodup_boundedLedger {f : ExactTurnCancellation → String} (h : (entries.map f).Nodup) :
    ((boundedLedger entries).map f).Nodup := by
  obtain ⟨kept, hPerm, hSublist⟩ := boundedLedger_subperm entries
  exact (hPerm.map f).nodup_iff.mp ((hSublist.map f).nodup h)

theorem kept_boundedLedger (hTurns : (entries.map fun entry => entry.turnId).Nodup)
    (hRequests : (entries.map fun entry => entry.cancelRequestId).Nodup)
    (hPend : (entries.filter ExactTurnCancellation.isPending).length ≤ maxPendingExactTurnCancellations)
    (hParsed : ∀ entry ∈ entries, (parseExactTurnCancellationRequest entry.toExactTurnCancellationRequest).isSome = true) :
    Kept (boundedLedger entries) where
  sound := {
    turnIds := nodup_boundedLedger hTurns
    cancelRequestIds := nodup_boundedLedger hRequests
    pending := by
      rw [filter_pending_boundedLedger]
      exact hPend
    acknowledged := by
      rw [filter_acknowledged_boundedLedger]
      exact length_take_le _ _ }
  parsed entry hEnt := hParsed entry (mem_boundedLedger hEnt)

theorem mem_boundedLedger_or {entry : ExactTurnCancellation} (h : entry ∈ entries) : entry ∈ boundedLedger entries ∨
    entry.state = .acknowledged ∧
      ((boundedLedger entries).filter ExactTurnCancellation.isAcknowledged).length = maxAcknowledgedExactTurnCancellations := by
  by_cases hPend : entry.isPending = true
  · exact .inl (mem_append_left _ (mem_filter.mpr ⟨h, hPend⟩))
  · have hAck : entry.isAcknowledged = true := by
      rw [isAcknowledged_eq]
      simpa using hPend
    have hSort := (mem_insertionSort (fun left right : ExactTurnCancellation => right.stamp ≤ left.stamp)).mpr
      (mem_filter.mpr ⟨h, hAck⟩)
    rw [filter_acknowledged_boundedLedger, length_take]
    rcases Nat.le_total ((entries.filter ExactTurnCancellation.isAcknowledged).insertionSort
        fun left right => right.stamp ≤ left.stamp).length maxAcknowledgedExactTurnCancellations with hFits | hFull
    · left
      refine mem_append_right _ ?_
      rw [take_of_length_le hFits]
      exact hSort
    · exact .inr ⟨of_decide_eq_true hAck, Nat.min_eq_left hFull⟩

end Bounds

/-! ## One operation -/

section Step

variable {stored : Ledger} {request : ExactTurnCancellationRequest} {now : Int}

section

variable (h : Kept stored)
include h

theorem stage_cases (request : ExactTurnCancellationRequest) (now : Int) :
    (∃ existing ∈ stored, existing.toExactTurnCancellationRequest = request ∧ stored.stage request now = (.replayed existing, stored)) ∨
    stored.stage request now = (.conflict, stored) ∨ stored.stage request now = (.saturated, stored) ∨
    ((∀ entry ∈ stored, entry.turnId ≠ request.turnId) ∧ (∀ entry ∈ stored, entry.cancelRequestId ≠ request.cancelRequestId) ∧
      (stored.filter ExactTurnCancellation.isPending).length < maxPendingExactTurnCancellations ∧
      stored.stage request now = (.staged { request with state := .pending, persistedAt := now, acknowledgedAt := none },
        boundedLedger (stored ++ [{ request with state := .pending, persistedAt := now, acknowledgedAt := none }]))) := by
  unfold Ledger.stage
  rw [normalizeLedger_eq h]
  dsimp only
  split
  · next existing hFound =>
    split
    · next hEq => exact .inl ⟨existing, mem_of_find?_eq_some hFound, sameCancellation_iff.mp hEq, rfl⟩
    · exact .inr (.inl rfl)
  · next hTurn =>
    split
    · exact .inr (.inl rfl)
    · next hReq =>
      split
      · exact .inr (.inr (.inl rfl))
      · next hRoom =>
        rw [Option.not_isSome_iff_eq_none] at hReq
        refine .inr (.inr (.inr ⟨fun entry hEnt => ?_, fun entry hEnt => ?_, not_le.mp hRoom, rfl⟩))
        · simpa using find?_eq_none.mp hTurn entry hEnt
        · simpa using find?_eq_none.mp hReq entry hEnt

theorem acknowledge_cases (request : ExactTurnCancellationRequest) (now : Int) :
    (stored.acknowledge request now = (false, stored) ∧ ∀ entry ∈ stored, entry.toExactTurnCancellationRequest ≠ request) ∨
    ∃ before entry after, stored = before ++ entry :: after ∧ entry.toExactTurnCancellationRequest = request ∧
      stored.acknowledge request now = (true, boundedLedger (before ++ entry.acknowledge now :: after)) := by
  unfold Ledger.acknowledge
  rw [normalizeLedger_eq h]
  dsimp only
  split
  · next hNone =>
    refine .inl ⟨rfl, fun entry hEnt hReq => ?_⟩
    have hOther := findIdx?_eq_none_iff.mp hNone entry hEnt
    rw [hReq] at hOther
    simp at hOther
  · next index hIndex =>
    obtain ⟨hLt, hTurn, -⟩ := findIdx?_eq_some_iff_getElem.mp hIndex
    rw [getElem?_eq_getElem hLt, Option.any_some]
    split
    · next hEq =>
      refine .inr ⟨stored.take index, stored[index], stored.drop (index + 1), ?_, sameCancellation_iff.mp hEq, ?_⟩
      · rw [getElem_cons_drop, take_append_drop]
      · rw [modify_eq_take_cons_drop hLt]
        rfl
    · next hOther =>
      refine .inl ⟨rfl, fun entry hEnt hReq => hOther (sameCancellation_iff.mpr ?_)⟩
      have hEq : stored[index] = entry := by
        refine inj_on_of_nodup_map h.sound.turnIds (getElem_mem hLt) hEnt ?_
        rw [hReq]
        exact of_decide_eq_true hTurn
      rw [hEq, hReq]

theorem Kept.stage (hParsed : (parseExactTurnCancellationRequest request).isSome = true) :
    Kept (stored.stage request now).2 := by
  obtain ⟨existing, -, -, hReplayed⟩ | hConflict | hSaturated | ⟨hTurn, hReq, hRoom, hStaged⟩ := stage_cases h request now
  · rw [hReplayed]
    exact h
  · rw [hConflict]
    exact h
  · rw [hSaturated]
    exact h
  · rw [hStaged]
    refine kept_boundedLedger ?_ ?_ ?_ fun entry hEnt => ?_
    · rw [map_append, nodup_append]
      refine ⟨h.sound.turnIds, nodup_singleton _, fun id hId other hOther hEq => ?_⟩
      obtain ⟨entry, hEnt, rfl⟩ := mem_map.mp hId
      exact hTurn entry hEnt (hEq.trans (mem_singleton.mp hOther))
    · rw [map_append, nodup_append]
      refine ⟨h.sound.cancelRequestIds, nodup_singleton _, fun id hId other hOther hEq => ?_⟩
      obtain ⟨entry, hEnt, rfl⟩ := mem_map.mp hId
      exact hReq entry hEnt (hEq.trans (mem_singleton.mp hOther))
    · rw [filter_append, length_append]
      have hOne := length_filter_le ExactTurnCancellation.isPending
        [{ request with state := .pending, persistedAt := now, acknowledgedAt := none }]
      rw [length_singleton] at hOne
      omega
    · rcases mem_append.mp hEnt with hOld | hNew
      · exact h.parsed entry hOld
      · rw [mem_singleton.mp hNew]
        exact hParsed

theorem Kept.acknowledge : Kept (stored.acknowledge request now).2 := by
  obtain ⟨hRef, -⟩ | ⟨before, entry, after, hStored, -, hAck⟩ := acknowledge_cases h request now
  · rw [hRef]
    exact h
  · rw [hAck]
    have hSound := h.sound
    rw [hStored] at hSound
    refine kept_boundedLedger ?_ ?_ ?_ fun other hOther => ?_
    · have hTurns := hSound.turnIds
      rw [map_append, map_cons] at hTurns ⊢
      exact hTurns
    · have hRequests := hSound.cancelRequestIds
      rw [map_append, map_cons] at hRequests ⊢
      exact hRequests
    · refine le_trans ?_ hSound.pending
      have hGone : (entry.acknowledge now).isPending = false := rfl
      rw [filter_append, filter_append, filter_cons_of_neg (by rw [hGone]; exact Bool.false_ne_true),
        length_append, length_append]
      have hRest := ((sublist_cons_self entry after).filter ExactTurnCancellation.isPending).length_le
      omega
    · have hParsed : ∀ kept ∈ before ++ entry :: after,
          (parseExactTurnCancellationRequest kept.toExactTurnCancellationRequest).isSome = true := hStored ▸ h.parsed
      rcases mem_append.mp hOther with hBef | hRest
      · exact hParsed other (mem_append_left _ hBef)
      · rcases mem_cons.mp hRest with rfl | hAfter
        · exact hParsed entry (mem_append_right _ mem_cons_self)
        · exact hParsed other (mem_append_right _ (mem_cons_of_mem _ hAfter))

theorem Kept.step (op : LedgerOp) : Kept (ledgerStep stored op) := by
  cases op with
  | stage request now => exact h.stage request.2
  | acknowledge request now => exact h.acknowledge

end

def SameEntry (entry later : ExactTurnCancellation) : Prop :=
  later.toExactTurnCancellationRequest = entry.toExactTurnCancellationRequest ∧ later.persistedAt = entry.persistedAt

def LedgerOp.Acknowledges (op : LedgerOp) (entry : ExactTurnCancellation) : Prop :=
  ∃ request now, op = .acknowledge request now ∧ request.1 = entry.toExactTurnCancellationRequest

def Full (stored : Ledger) : Prop :=
  (stored.filter ExactTurnCancellation.isAcknowledged).length = maxAcknowledgedExactTurnCancellations

theorem step_entry (h : Kept stored) (op : LedgerOp) {entry : ExactTurnCancellation} (hEnt : entry ∈ stored) :
    entry ∈ ledgerStep stored op ∨ entry.state = .acknowledged ∧ Full (ledgerStep stored op) ∨
      op.Acknowledges entry ∧ ((∃ now, entry.acknowledge now ∈ ledgerStep stored op) ∨ Full (ledgerStep stored op)) := by
  cases op with
  | stage request now =>
    change entry ∈ (stored.stage request.1 now).2 ∨ entry.state = .acknowledged ∧ Full (stored.stage request.1 now).2 ∨ _
    obtain ⟨existing, -, -, hReplayed⟩ | hConflict | hSaturated | ⟨-, -, -, hStaged⟩ := stage_cases h request.1 now
    · rw [hReplayed]
      exact .inl hEnt
    · rw [hConflict]
      exact .inl hEnt
    · rw [hSaturated]
      exact .inl hEnt
    · rw [hStaged]
      exact (mem_boundedLedger_or (mem_append_left _ hEnt)).imp_right Or.inl
  | acknowledge request now =>
    change entry ∈ (stored.acknowledge request.1 now).2 ∨ entry.state = .acknowledged ∧ Full (stored.acknowledge request.1 now).2 ∨
      _ ∧ ((∃ at', entry.acknowledge at' ∈ (stored.acknowledge request.1 now).2) ∨ Full (stored.acknowledge request.1 now).2)
    obtain ⟨hRef, -⟩ | ⟨before, target, after, rfl, hTgt, hAck⟩ := acknowledge_cases h request.1 now
    · rw [hRef]
      exact .inl hEnt
    · rw [hAck]
      have hOther : ∀ kept, kept ∈ before ∨ kept ∈ after → kept ∈ before ++ target.acknowledge now :: after := by
        rintro kept (hBef | hAfter)
        · exact mem_append_left _ hBef
        · exact mem_append_right _ (mem_cons_of_mem _ hAfter)
      rcases mem_append.mp hEnt with hBef | hRest
      · exact (mem_boundedLedger_or (hOther entry (.inl hBef))).imp_right Or.inl
      · rcases mem_cons.mp hRest with rfl | hAfter
        · refine .inr (.inr ⟨⟨request, now, rfl, hTgt.symm⟩, ?_⟩)
          have hNew : entry.acknowledge now ∈ before ++ entry.acknowledge now :: after :=
            mem_append_right _ mem_cons_self
          exact (mem_boundedLedger_or hNew).imp (fun hKept => ⟨now, hKept⟩) And.right
        · exact (mem_boundedLedger_or (hOther entry (.inr hAfter))).imp_right Or.inl

theorem step_same (h : Kept stored) (op : LedgerOp) {entry later : ExactTurnCancellation} (hEnt : entry ∈ stored)
    (hLater : later ∈ ledgerStep stored op) (hTurn : later.turnId = entry.turnId) : SameEntry entry later := by
  have hOld : ∀ kept ∈ stored, kept.turnId = entry.turnId → kept = entry := fun kept hKept hEq =>
    inj_on_of_nodup_map h.sound.turnIds hKept hEnt hEq
  cases op with
  | stage request now =>
    change later ∈ (stored.stage request.1 now).2 at hLater
    obtain ⟨existing, -, -, hReplayed⟩ | hConflict | hSaturated | ⟨hNew, -, -, hStaged⟩ := stage_cases h request.1 now
    · rw [hReplayed] at hLater
      rw [hOld later hLater hTurn]
      exact ⟨rfl, rfl⟩
    · rw [hConflict] at hLater
      rw [hOld later hLater hTurn]
      exact ⟨rfl, rfl⟩
    · rw [hSaturated] at hLater
      rw [hOld later hLater hTurn]
      exact ⟨rfl, rfl⟩
    · rw [hStaged] at hLater
      rcases mem_append.mp (mem_boundedLedger hLater) with hKept | hStagedNow
      · rw [hOld later hKept hTurn]
        exact ⟨rfl, rfl⟩
      · rw [mem_singleton.mp hStagedNow] at hTurn
        exact absurd hTurn.symm (hNew entry hEnt)
  | acknowledge request now =>
    change later ∈ (stored.acknowledge request.1 now).2 at hLater
    obtain ⟨hRef, -⟩ | ⟨before, target, after, hStored, -, hAck⟩ := acknowledge_cases h request.1 now
    · rw [hRef] at hLater
      rw [hOld later hLater hTurn]
      exact ⟨rfl, rfl⟩
    · rw [hAck] at hLater
      have hKept : ∀ kept, kept ∈ before ∨ kept ∈ after → kept ∈ stored := by
        rw [hStored]
        rintro kept (hBef | hAfter)
        · exact mem_append_left _ hBef
        · exact mem_append_right _ (mem_cons_of_mem _ hAfter)
      rcases mem_append.mp (mem_boundedLedger hLater) with hBef | hRest
      · rw [hOld later (hKept later (.inl hBef)) hTurn]
        exact ⟨rfl, rfl⟩
      · rcases mem_cons.mp hRest with rfl | hAfter
        · have hTgt : target ∈ stored := hStored ▸ mem_append_right _ mem_cons_self
          rw [← hOld target hTgt hTurn]
          exact ⟨rfl, rfl⟩
        · rw [hOld later (hKept later (.inr hAfter)) hTurn]
          exact ⟨rfl, rfl⟩

theorem replays_of_mem (h : Kept stored) {entry : ExactTurnCancellation} (hEnt : entry ∈ stored) (now : Int) :
    stored.stage entry.toExactTurnCancellationRequest now = (.replayed entry, stored) ∧
      (stored.acknowledge entry.toExactTurnCancellationRequest now).1 = true := by
  constructor
  · have hFound : stored.find? (fun other => other.turnId = entry.turnId) = some entry := by
      have hSome : (stored.find? (fun other => other.turnId = entry.turnId)).isSome = true :=
        find?_isSome.mpr ⟨entry, hEnt, decide_eq_true rfl⟩
      obtain ⟨found, hFound⟩ := Option.isSome_iff_exists.mp hSome
      have hTurn := find?_some hFound
      rw [hFound, inj_on_of_nodup_map h.sound.turnIds (mem_of_find?_eq_some hFound) hEnt (of_decide_eq_true hTurn)]
    unfold Ledger.stage
    rw [normalizeLedger_eq h]
    dsimp only
    rw [hFound]
    exact if_pos (sameCancellation_iff.mpr rfl)
  · obtain ⟨-, hOther⟩ | ⟨_, _, _, -, -, hAck⟩ := acknowledge_cases h entry.toExactTurnCancellationRequest now
    · exact absurd rfl (hOther entry hEnt)
    · rw [hAck]

end Step

/-! ## Runs -/

def Refused (stored : Ledger) : LedgerOp → Prop
  | .stage request now => (stored.stage request.1 now).1 = .conflict ∨ (stored.stage request.1 now).1 = .saturated
  | .acknowledge request now => (stored.acknowledge request.1 now).1 = false

def HoldsAfter (turnId : String) (stored : Ledger) (op : LedgerOp) : Prop := ∃ entry ∈ ledgerStep stored op, entry.turnId = turnId

theorem kept_run (ops : List LedgerOp) : Kept (run ledgerStep [] ops) :=
  run_invariant_always (fun _ op h => h.step op) ops {
    sound := ⟨nodup_nil, nodup_nil, Nat.zero_le _, Nat.zero_le _⟩
    parsed := forall_mem_nil _ }

theorem step_of_refused {stored : Ledger} (h : Kept stored) {op : LedgerOp} (hRef : Refused stored op) :
    ledgerStep stored op = stored := by
  cases op with
  | stage request now =>
    change (stored.stage request.1 now).2 = stored
    obtain ⟨existing, -, -, hReplayed⟩ | hConflict | hSaturated | ⟨-, -, -, hStaged⟩ := stage_cases h request.1 now
    · rw [hReplayed]
    · rw [hConflict]
    · rw [hSaturated]
    · rw [Refused, hStaged] at hRef
      rcases hRef with hConflict | hSaturated
      · cases hConflict
      · cases hSaturated
  | acknowledge request now =>
    change (stored.acknowledge request.1 now).2 = stored
    obtain ⟨hFalse, -⟩ | ⟨_, _, _, -, -, hAck⟩ := acknowledge_cases h request.1 now
    · rw [hFalse]
    · rw [Refused, hAck] at hRef
      cases hRef

theorem same_run {stored : Ledger} (h : Kept stored) {entry : ExactTurnCancellation} (hEnt : entry ∈ stored) {more : List LedgerOp}
    (hHolds : Along ledgerStep (HoldsAfter entry.turnId) stored more) :
    ∃ later ∈ run ledgerStep stored more, SameEntry entry later := by
  induction more generalizing stored entry with
  | nil => exact ⟨entry, hEnt, rfl, rfl⟩
  | cons op more ih =>
    obtain ⟨⟨next, hNext, hTurn⟩, hRest⟩ := hHolds
    have hEq := step_same h op hEnt hNext hTurn
    rw [← hTurn] at hRest
    obtain ⟨later, hLater, hLaterSame⟩ := ih (h.step op) hNext hRest
    exact ⟨later, hLater, hLaterSame.1.trans hEq.1, hLaterSame.2.trans hEq.2⟩

theorem accepted_mem {stored : Ledger} (h : Kept stored) {request : ExactTurnCancellationRequest} {now : Int}
    {cancellation : ExactTurnCancellation} (hAcc : (stored.stage request now).1 = .staged cancellation ∨
      (stored.stage request now).1 = .replayed cancellation) :
    cancellation ∈ (stored.stage request now).2 ∧ cancellation.toExactTurnCancellationRequest = request := by
  obtain ⟨existing, hExist, hEq, hReplayed⟩ | hConflict | hSaturated | ⟨-, -, -, hStaged⟩ := stage_cases h request now
  · rw [hReplayed] at hAcc ⊢
    rcases hAcc with hIs | hIs
    · cases hIs
    · cases hIs
      exact ⟨hExist, hEq⟩
  · rw [hConflict] at hAcc
    rcases hAcc with hIs | hIs <;> cases hIs
  · rw [hSaturated] at hAcc
    rcases hAcc with hIs | hIs <;> cases hIs
  · rw [hStaged] at hAcc ⊢
    rcases hAcc with hIs | hIs
    · cases hIs
      refine ⟨?_, rfl⟩
      have hPend : ∀ {entries : Ledger} {entry : ExactTurnCancellation}, entry ∈ entries → entry.isPending = true →
          entry ∈ boundedLedger entries := fun hEnt hIs => mem_append_left _ (mem_filter.mpr ⟨hEnt, hIs⟩)
      exact hPend (mem_append_right _ (mem_singleton.mpr rfl)) rfl
    · cases hIs

/-- No pending cancellation is lost over any run, and what was accepted is answered with its own entry for as long as the
ledger has it. -/
theorem exact_of_run (ops : List LedgerOp) :
    let stored := run ledgerStep [] ops
    Sound stored ∧
    (∀ op, ∀ entry ∈ stored, entry.state = .pending → entry ∈ ledgerStep stored op ∨ op.Acknowledges entry) ∧
    (∀ op, ∀ entry ∈ stored, (∃ later ∈ ledgerStep stored op, SameEntry entry later) ∨
      (entry.state = .acknowledged ∨ op.Acknowledges entry) ∧ Full (ledgerStep stored op)) ∧
    (∀ op, Refused stored op → ledgerStep stored op = stored) ∧
    ∀ (request : ParsedRequest) (now : Int) (cancellation : ExactTurnCancellation),
      (stored.stage request.1 now).1 = .staged cancellation ∨ (stored.stage request.1 now).1 = .replayed cancellation →
      ∀ more, Along ledgerStep (HoldsAfter request.1.turnId) (stored.stage request.1 now).2 more →
        let later := run ledgerStep (stored.stage request.1 now).2 more
        ∃ entry, SameEntry cancellation entry ∧ ∀ again, later.stage request.1 again = (.replayed entry, later) ∧
          (later.acknowledge request.1 again).1 = true := by
  intro stored
  have hKept : Kept stored := kept_run ops
  refine ⟨hKept.sound, fun op entry hEntry hPending => ?_, fun op entry hEntry => ?_, fun op => step_of_refused hKept,
    fun request now cancellation hAccepted more hHolds => ?_⟩
  · obtain hStays | ⟨hAcknowledged, -⟩ | ⟨hActs, -⟩ := step_entry hKept op hEntry
    · exact Or.inl hStays
    · rw [hPending] at hAcknowledged
      cases hAcknowledged
    · exact Or.inr hActs
  · obtain hStays | ⟨hAcknowledged, hFull⟩ | ⟨hActs, ⟨now, hLater⟩ | hFull⟩ := step_entry hKept op hEntry
    · exact Or.inl ⟨entry, hStays, rfl, rfl⟩
    · exact Or.inr ⟨Or.inl hAcknowledged, hFull⟩
    · exact Or.inl ⟨_, hLater, rfl, rfl⟩
    · exact Or.inr ⟨Or.inr hActs, hFull⟩
  · have hNext : Kept (stored.stage request.1 now).2 := hKept.stage request.2
    obtain ⟨hMem, hRequest⟩ := accepted_mem hKept hAccepted
    have hTurn : cancellation.turnId = request.1.turnId := congrArg ExactTurnCancellationRequest.turnId hRequest
    rw [← hTurn] at hHolds
    obtain ⟨entry, hEntry, hSame⟩ := same_run hNext hMem hHolds
    refine ⟨entry, hSame, fun again => ?_⟩
    have hReplays := replays_of_mem (run_invariant_always (fun _ op h => h.step op) more hNext) hEntry again
    rw [hSame.1, hRequest] at hReplays
    exact hReplays

/-! ## A ledger that has forgotten -/

def turnName (n : Nat) : List Char := if n = 0 then ['z'] else List.replicate n 'x'

def requestOf (n : Nat) : ExactTurnCancellationRequest :=
  ⟨String.ofList (turnName n), String.ofList (turnName n), "owner", "1", none⟩

def entryOf (n : Nat) : ExactTurnCancellation := { requestOf n with state := .acknowledged, persistedAt := n, acknowledgedAt := some n }

/-- The last `n` turns, each staged and acknowledged, the newest first. -/
def filled (n : Nat) : Ledger := (List.range n).reverse.map entryOf

variable {n m : Nat}

theorem turnName_injective (h : turnName n = turnName m) : n = m := by
  unfold turnName at h
  split at h
  · next hZero =>
    split at h
    · next hOther => rw [hZero, hOther]
    · have hHead : 'z' ∈ List.replicate m 'x' := h ▸ mem_singleton.mpr rfl
      cases eq_of_mem_replicate hHead
  · split at h
    · have hHead : 'z' ∈ List.replicate n 'x' := h ▸ mem_singleton.mpr rfl
      cases eq_of_mem_replicate hHead
    · simpa using congrArg List.length h

theorem requestOf_turnId_ne (h : n ≠ m) : (requestOf n).turnId ≠ (requestOf m).turnId := fun hEq =>
  h (turnName_injective (String.ofList_injective hEq))

theorem trim_turnName (n : Nat) : AgentActivity.trim (String.ofList (turnName n)) = String.ofList (turnName n) := by
  have hPlain : ∀ {name : List Char}, (∀ c ∈ name, AgentActivity.isSpace c = false) →
      AgentActivity.trim (String.ofList name) = String.ofList name := by
    intro name hName
    have hKept : ∀ {text : List Char}, (∀ c ∈ text, AgentActivity.isSpace c = false) →
        text.dropWhile AgentActivity.isSpace = text := by
      intro text hText
      cases text with
      | nil => rfl
      | cons c text => exact dropWhile_cons_of_neg (by rw [hText c mem_cons_self]; exact Bool.false_ne_true)
    unfold AgentActivity.trim
    rw [String.toList_ofList, hKept hName, hKept fun c hc => hName c (mem_reverse.mp hc), reverse_reverse]
  refine hPlain fun c hc => ?_
  unfold turnName at hc
  split at hc
  · rw [mem_singleton.mp hc]
    rfl
  · rw [eq_of_mem_replicate hc]
    rfl

theorem requestOf_parsed (h : n ≤ 128) : (parseExactTurnCancellationRequest (requestOf n)).isSome = true := by
  have hTurn : boundedIdentity (String.ofList (turnName n)) 128 = some (String.ofList (turnName n)) := by
    unfold boundedIdentity
    rw [trim_turnName]
    refine if_pos ⟨fun hEmpty => ?_, ?_⟩
    · have hNil := (congrArg String.toList hEmpty).symm.trans String.toList_ofList
      unfold turnName at hNil
      split at hNil
      · cases hNil
      · next hSome => exact hSome (by simpa using (congrArg List.length hNil).symm)
    · rw [String.toList_ofList]
      unfold turnName
      split
      · decide
      · rw [World.utf16Length, map_replicate, sum_replicate_nat]
        change n * 1 ≤ 128
        omega
  have hOwner : boundedIdentity "owner" 512 = some "owner" := by decide +kernel
  have hGen : boundedIdentity "1" 512 = some "1" := by decide +kernel
  unfold parseExactTurnCancellationRequest requestOf
  dsimp only
  rw [hTurn, hOwner, hGen]
  rfl

theorem filled_succ (n : Nat) : filled (n + 1) = entryOf n :: filled n := by
  unfold filled
  rw [range_succ, reverse_append]
  rfl

theorem mem_filled {entry : ExactTurnCancellation} (h : entry ∈ filled n) : ∃ m < n, entry = entryOf m := by
  obtain ⟨m, hMem, rfl⟩ := mem_map.mp h
  exact ⟨m, mem_range.mp (mem_reverse.mp hMem), rfl⟩

theorem filter_pending_filled (n : Nat) : (filled n).filter ExactTurnCancellation.isPending = [] :=
  filter_eq_nil_iff.mpr fun entry hEnt => by
    obtain ⟨m, -, rfl⟩ := mem_filled hEnt
    exact Bool.false_ne_true

theorem boundedLedger_filled (n : Nat) : boundedLedger (filled n) = (filled n).take 128 := by
  have hAll : (filled n).filter ExactTurnCancellation.isAcknowledged = filled n := filter_eq_self.mpr fun entry hEnt => by
    obtain ⟨m, -, rfl⟩ := mem_filled hEnt
    rfl
  have hSort : (filled n).Pairwise fun left right => right.stamp ≤ left.stamp := by
    unfold filled
    rw [pairwise_map, pairwise_reverse]
    exact pairwise_lt_range.imp fun hLt => Int.ofNat_le.mpr (Nat.le_of_lt hLt)
  unfold boundedLedger
  rw [filter_pending_filled, hAll, hSort.insertionSort_eq]
  rfl

theorem filled_parsed (h : n ≤ 129) {entry : ExactTurnCancellation} (hEnt : entry ∈ filled n) :
    (parseExactTurnCancellationRequest entry.toExactTurnCancellationRequest).isSome = true := by
  obtain ⟨m, hLt, rfl⟩ := mem_filled hEnt
  exact requestOf_parsed (by omega)

def stagedOf (n : Nat) : ExactTurnCancellation := { requestOf n with state := .pending, persistedAt := n, acknowledgedAt := none }

theorem stage_new {stored : Ledger} {request : ExactTurnCancellationRequest} {now : Int} (hNorm : normalizeLedger stored = stored)
    (hTurn : ∀ entry ∈ stored, entry.turnId ≠ request.turnId)
    (hReq : ∀ entry ∈ stored, entry.cancelRequestId ≠ request.cancelRequestId)
    (hRoom : (stored.filter ExactTurnCancellation.isPending).length < maxPendingExactTurnCancellations) :
    stored.stage request now = (.staged { request with state := .pending, persistedAt := now, acknowledgedAt := none },
      boundedLedger (stored ++ [{ request with state := .pending, persistedAt := now, acknowledgedAt := none }])) := by
  have hTurns : stored.find? (fun entry => entry.turnId = request.turnId) = none :=
    find?_eq_none.mpr fun entry hEnt hEq => hTurn entry hEnt (of_decide_eq_true hEq)
  have hRequests : stored.find? (fun entry => entry.cancelRequestId = request.cancelRequestId) = none :=
    find?_eq_none.mpr fun entry hEnt hEq => hReq entry hEnt (of_decide_eq_true hEq)
  unfold Ledger.stage
  rw [hNorm]
  dsimp only
  rw [hTurns]
  dsimp only
  rw [hRequests, if_neg (by simp), if_neg (not_le.mpr hRoom)]

theorem stage_filled (h : n ≤ 128) :
    (filled n).stage (requestOf n) n = (.staged (stagedOf n), stagedOf n :: filled n) := by
  have hNorm : normalizeLedger (filled n) = filled n := filter_eq_self.mpr fun entry hEnt => filled_parsed (by omega) hEnt
  have hOther : ∀ entry ∈ filled n, entry.turnId ≠ (requestOf n).turnId := by
    intro entry hEnt
    obtain ⟨m, hLt, rfl⟩ := mem_filled hEnt
    exact requestOf_turnId_ne hLt.ne
  have hBounded : boundedLedger (filled n ++ [stagedOf n]) = stagedOf n :: filled n := by
    have hFilled := boundedLedger_filled n
    have hShort : (filled n).take 128 = filled n := take_of_length_le (by simpa [filled] using h)
    unfold boundedLedger at hFilled ⊢
    rw [filter_pending_filled, nil_append] at hFilled
    rw [filter_append, filter_append, filter_pending_filled]
    change [stagedOf n] ++ List.take maxAcknowledgedExactTurnCancellations (List.insertionSort _ (_ ++ [])) = _
    rw [append_nil, hFilled, hShort]
    rfl
  rw [stage_new hNorm hOther (fun entry hEnt => by
    obtain ⟨m, hLt, rfl⟩ := mem_filled hEnt
    exact requestOf_turnId_ne hLt.ne) (by rw [filter_pending_filled]; decide)]
  exact congrArg (Prod.mk _) hBounded

theorem acknowledge_filled (h : n ≤ 128) :
    (Ledger.acknowledge (stagedOf n :: filled n) (requestOf n) n).2 = (filled (n + 1)).take 128 := by
  have hNorm : normalizeLedger (stagedOf n :: filled n) = stagedOf n :: filled n := filter_eq_self.mpr fun entry hEnt => by
    rcases mem_cons.mp hEnt with rfl | hOld
    · exact requestOf_parsed h
    · exact filled_parsed (by omega) hOld
  have hFound : (stagedOf n :: filled n).findIdx? (fun entry => entry.turnId = (requestOf n).turnId) = some 0 := by
    rw [findIdx?_cons]
    exact if_pos (decide_eq_true rfl)
  unfold Ledger.acknowledge
  rw [hNorm]
  dsimp only
  rw [hFound]
  dsimp only
  have hEq : sameCancellation (stagedOf n).toExactTurnCancellationRequest (requestOf n) = true := sameCancellation_iff.mpr rfl
  rw [getElem?_cons_zero, Option.any_some, hEq, if_pos rfl, ← boundedLedger_filled, filled_succ]
  rfl

def parsedOf (n : Nat) : ParsedRequest := ⟨requestOf (min n 128), requestOf_parsed (Nat.min_le_right n 128)⟩

/-- Each of the turns up to `n` is staged and acknowledged. -/
def acknowledgedRun (n : Nat) : List LedgerOp := (List.range n).flatMap fun m => [.stage (parsedOf m) m, .acknowledge (parsedOf m) m]

theorem run_acknowledgedRun (h : n ≤ 129) : run ledgerStep [] (acknowledgedRun n) = (filled n).take 128 := by
  induction n with
  | zero => rfl
  | succ n ih =>
    have hReq : (parsedOf n).1 = requestOf n := congrArg requestOf (Nat.min_eq_left (by omega))
    have hShort : (filled n).take 128 = filled n := take_of_length_le (by simp [filled]; omega)
    have hRun : acknowledgedRun (n + 1) = acknowledgedRun n ++ [.stage (parsedOf n) n, .acknowledge (parsedOf n) n] := by
      unfold acknowledgedRun
      rw [range_succ, flatMap_append, flatMap_singleton]
    rw [hRun, run_append, ih (by omega), hShort]
    change (((filled n).stage (parsedOf n).1 n).2.acknowledge (parsedOf n).1 n).2 = _
    rw [hReq, stage_filled (by omega), acknowledge_filled (by omega)]

/-- Asked for again after its acknowledgement, the first cancellation is still the answer. -/
theorem acknowledged_replayed : let stored := (Ledger.stage [] (parsedOf 0).1 0).2
    let later := run ledgerStep stored [.acknowledge (parsedOf 0) 0]
    ∃ entry, SameEntry (stagedOf 0) entry ∧ ∀ again, later.stage (parsedOf 0).1 again = (.replayed entry, later) ∧
      (later.acknowledge (parsedOf 0).1 again).1 = true := by
  have hStaged : Ledger.stage [] (parsedOf 0).1 0 = (.staged (stagedOf 0), [stagedOf 0]) := stage_filled (Nat.zero_le 128)
  refine (exact_of_run []).2.2.2.2 (parsedOf 0) 0 (stagedOf 0) (Or.inl (congrArg Prod.fst hStaged)) _ ⟨?_, trivial⟩
  refine ⟨entryOf 0, ?_, rfl⟩
  change entryOf 0 ∈ (Ledger.acknowledge (Ledger.stage [] (parsedOf 0).1 0).2 (parsedOf 0).1 0).2
  rw [hStaged]
  exact (acknowledge_filled (Nat.zero_le 128)).symm ▸ mem_singleton.mpr rfl

/-- After 128 more turns, staging the first one again makes a new entry. -/
theorem acknowledgedRun_not_replayed :
    ((acknowledgedRun 129).head? = some (.stage (parsedOf 0) 0) ∧ (Ledger.stage [] (parsedOf 0).1 0).1 = .staged (stagedOf 0)) ∧
      ((run ledgerStep [] (acknowledgedRun 129)).stage (parsedOf 0).1 200).1 = .staged { stagedOf 0 with persistedAt := 200 } := by
  refine ⟨⟨rfl, congrArg Prod.fst (stage_filled (Nat.zero_le 128))⟩, ?_⟩
  have hForgotten : ∀ entry ∈ (filled 129).take 128, ∃ m, 0 < m ∧ m < 129 ∧ entry = entryOf m := by
    intro entry hEntry
    have hSplit : filled 129 = ((List.range' 1 128).reverse.map entryOf) ++ [entryOf 0] := by
      unfold filled
      rw [range_eq_range', range'_succ, reverse_cons, map_append]
      rfl
    rw [hSplit, take_left' (by rw [length_map, length_reverse, length_range'])] at hEntry
    obtain ⟨m, hMem, rfl⟩ := mem_map.mp hEntry
    have hRange := mem_range'_1.mp (mem_reverse.mp hMem)
    exact ⟨m, by omega, by omega, rfl⟩
  have hKept : Kept ((filled 129).take 128) := run_acknowledgedRun (n := 129) le_rfl ▸ kept_run _
  rw [run_acknowledgedRun le_rfl]
  have hOther : ∀ entry ∈ (filled 129).take 128, entry.turnId ≠ (parsedOf 0).1.turnId := by
    intro entry hEntry
    obtain ⟨m, hPos, -, rfl⟩ := hForgotten entry hEntry
    exact requestOf_turnId_ne hPos.ne'
  rw [stage_new (normalizeLedger_eq hKept) hOther (fun entry hEntry => by
    obtain ⟨m, hPos, -, rfl⟩ := hForgotten entry hEntry
    exact requestOf_turnId_ne hPos.ne') (by
      rw [filter_eq_nil_iff.mpr fun entry hEntry => by
        obtain ⟨m, -, -, rfl⟩ := hForgotten entry hEntry
        exact Bool.false_ne_true]
      decide)]
  rfl

end Stella.TurnCancellations
