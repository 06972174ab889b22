import Stella.TurnStates.Model

/-! # What turn states are held

An archive that a thread names belongs to an operation that is committed and not retired, and a
drain deletes only what it listed as retired.
-/

namespace Stella.TurnStates

open Stella.Rows List

theorem ObjectRecord.key_retiring (record : ObjectRecord) (keys : List ObjectKey) :
    (if record.key ∈ keys then { record with state := .retiring } else record).key = record.key := by
  split <;> rfl

section

variable (named : TurnStateCandidate → Prop) (operations : List OperationRecord) (store dropped : List ObjectKey)

structure Stored (candidate : TurnStateCandidate) : Prop where
  committed : ∃ operation, lookup OperationRecord.operationId operations candidate.operationId = some operation ∧
    operation.state = .committed
  native : ∀ archive, candidate.native = some archive → archive.key ∈ store ∧ archive.key.operationId = candidate.operationId

structure Reserved (record : ObjectRecord) : Prop where
  key : record.key.operationId = record.operationId
  descriptor : ∀ archive, record.descriptor = some archive → archive.key = record.key
  prepared : record.state = .uploaded ∨ record.descriptor = none →
    ∃ operation, lookup OperationRecord.operationId operations record.operationId = some operation ∧
      operation.state = .prepared ∧ operation.objectKey = some record.key
  uploaded : record.state = .uploaded → record.key ∈ store

structure Retired (record : RetirementRecord) : Prop where
  unnamed : ∀ candidate, named candidate → candidate.operationId ≠ record.operationId
  committed : ∀ operation, lookup OperationRecord.operationId operations record.operationId = some operation →
    operation.state = .committed
  keys : ∀ key ∈ record.objectKeys, key.operationId = record.operationId

structure Drained (drain : Drain) : Prop where
  retired : ∀ record ∈ drain.listed, Retired named operations record
  keys : ∀ key ∈ drain.keys, ∃ record ∈ drain.listed, key ∈ record.objectKeys
  /-- What the drain is past at its first retirement was seen absent. -/
  seen : drain.empty = true → ∀ record ∈ drain.listed.head?, ∀ key ∈ record.objectKeys, key ∉ drain.keys → key ∉ dropped

end

variable {named others : TurnStateCandidate → Prop} {operations : List OperationRecord} {dropped : List ObjectKey}

section

variable (hSub : ∀ candidate, others candidate → named candidate)
include hSub

theorem Retired.mono {record : RetirementRecord}
    (h : Retired named operations record) : Retired others operations record :=
  ⟨fun candidate hNamed => h.unnamed candidate (hSub candidate hNamed), h.committed, h.keys⟩

theorem Drained.mono {drain : Drain}
    (h : Drained named operations dropped drain) : Drained others operations dropped drain :=
  ⟨fun record hRec => (h.retired record hRec).mono hSub, h.keys, h.seen⟩

end

namespace Registry

structure Held (named : TurnStateCandidate → Prop) (w : Registry) : Prop where
  stored : ∀ candidate, named candidate → Stored w.operations w.store candidate
  operations : ∀ id operation, lookup OperationRecord.operationId w.operations id = some operation →
    ∀ key ∈ operation.objectKey, key.operationId = id
  objects : ∀ key record, lookup ObjectRecord.key w.objects key = some record → Reserved w.operations w.store record
  retirements : ∀ record ∈ w.retirements, Retired named w.operations record ∧
    ∃ operation, lookup OperationRecord.operationId w.operations record.operationId = some operation
  drains : ∀ drain ∈ w.drains, Drained named w.operations w.dropped drain
  dropped : ∀ key ∈ w.dropped, ∃ record,
    lookup RetirementRecord.operationId w.retirements key.operationId = some record ∧ key ∈ record.objectKeys

variable {w : Registry}

theorem Held.mono (hSub : ∀ candidate, others candidate → named candidate)
    (h : w.Held named) : w.Held others where
  stored candidate hNamed := h.stored candidate (hSub candidate hNamed)
  operations := h.operations
  objects := h.objects
  retirements record hRec := ⟨(h.retirements record hRec).1.mono hSub, (h.retirements record hRec).2⟩
  drains drain hDrain := (h.drains drain hDrain).mono hSub
  dropped := h.dropped

/-! ## Retiring -/

def Without (named : TurnStateCandidate → Prop) (retired : List TurnStateCandidate) (candidate : TurnStateCandidate) : Prop :=
  named candidate ∧ ∀ other ∈ retired, candidate.operationId ≠ other.operationId

structure Retires (w later : Registry) (keys : List ObjectKey) : Prop where
  threads : later.threads = w.threads
  operations : later.operations = w.operations
  store : later.store = w.store
  kept : ∀ key ∈ w.dropped, key ∈ later.dropped
  dropped : ∀ key ∈ keys, key ∈ later.dropped

theorem Held.retire (h : w.Held named) {candidate : TurnStateCandidate} (hNamed : named candidate)
    (ownerGeneration threadId : String) (now : Int) :
    ∃ later, w.retireOperationObjects candidate.operationId (candidate.native.toList.map TurnStateArchive.key) ownerGeneration
        threadId now = some later ∧
      later.Held (Without named [candidate]) ∧ w.Retires later (candidate.native.toList.map TurnStateArchive.key) := by
  have hSub : ∀ other, Without named [candidate] other → named other := fun other hOther => hOther.1
  obtain ⟨operation, hOp, hComm⟩ := (h.stored candidate hNamed).committed
  have hKeys : ∀ key ∈ candidate.native.toList.map TurnStateArchive.key, key.operationId = candidate.operationId := by
    intro key hKey
    obtain ⟨archive, hArch, rfl⟩ := mem_map.mp hKey
    exact ((h.stored candidate hNamed).native archive (by simpa using hArch)).2
  generalize candidate.native.toList.map TurnStateArchive.key = keys at hKeys ⊢
  unfold retireOperationObjects
  split
  · next hNone =>
    refine ⟨w, rfl, h.mono hSub, rfl, rfl, rfl, fun _ hKey => hKey, ?_⟩
    rw [hNone]
    exact fun key hKey => absurd hKey not_mem_nil
  -- A named operation is on no record of retirements.
  have hNew : lookup RetirementRecord.operationId w.retirements candidate.operationId = none := by
    rw [lookup_eq_none]
    exact fun record hRec hEq => (h.retirements record hRec).1.unnamed candidate hNamed hEq.symm
  rw [hNew]
  refine ⟨_, rfl, ?_, rfl, rfl, rfl, fun key hKey => mem_append_left _ hKey, fun key hKey => mem_append_right _ hKey⟩
  have hFresh : ∀ record, Retired named w.operations record → ∀ key ∈ record.objectKeys, key ∉ keys := by
    intro record hRec key hKey hMem
    exact hRec.unnamed candidate hNamed ((hKeys key hMem).symm.trans (hRec.keys key hKey))
  exact
    { stored := fun other hOther => h.stored other hOther.1
      operations := h.operations
      objects := by
        intro key record hRec
        rw [lookup_map fun r _ => by rw [ObjectRecord.key_retiring]] at hRec
        obtain ⟨old, hOld, rfl⟩ := Option.map_eq_some_iff.mp hRec
        have hResv := h.objects key old hOld
        split
        · exact ⟨hResv.key, hResv.descriptor, fun hOpen => hResv.prepared (.inr (hOpen.resolve_left (by simp))), by simp⟩
        · exact hResv
      retirements := by
        intro record hRec
        rcases mem_upsert hRec with rfl | ⟨hOld, -⟩
        · refine ⟨⟨fun other hOther => hOther.2 candidate (mem_singleton_self _), fun other hOther => ?_, fun key hKey => ?_⟩,
            operation, hOp⟩
          · rw [← Option.some.inj (hOp.symm.trans hOther)]
            exact hComm
          · exact hKeys key (by simpa using hKey)
        · obtain ⟨hRet, hExists⟩ := h.retirements record hOld
          exact ⟨hRet.mono hSub, hExists⟩
      drains := by
        intro drain hDrain
        have hDrained := h.drains drain hDrain
        refine ⟨fun record hRec => ?_, hDrained.keys, fun hEmpty record hRec key hKey hPast hDrop => ?_⟩
        · exact (hDrained.retired record hRec).mono hSub
        · rcases mem_append.mp hDrop with hOld | hMem
          · exact hDrained.seen hEmpty record hRec key hKey hPast hOld
          · exact hFresh record (hDrained.retired record (mem_of_mem_head? hRec)) key hKey hMem
      dropped := by
        intro key hKey
        rw [lookup_upsert]
        rcases mem_append.mp hKey with hOld | hMem
        · obtain ⟨record, hRec, hIn⟩ := h.dropped key hOld
          have hAway : key.operationId ≠ candidate.operationId := by
            intro hEq
            rw [hEq, hNew] at hRec
            cases hRec
          rw [if_neg hAway]
          exact ⟨record, hRec, hIn⟩
        · rw [if_pos (hKeys key hMem)]
          exact ⟨_, rfl, by simpa using hMem⟩ }

theorem Held.retireThread (ownerGeneration threadId : String) (now : Int) {retired : List TurnStateCandidate}
    (hDistinct : (retired.map TurnStateCandidate.operationId).Nodup) {w : Registry} {named : TurnStateCandidate → Prop}
    (h : w.Held named) (hNamed : ∀ candidate ∈ retired, named candidate) :
    ∃ later, retireThreadCandidates ownerGeneration threadId now w retired = some later ∧
      later.Held (Without named retired) ∧
      w.Retires later (retired.flatMap fun candidate => candidate.native.toList.map TurnStateArchive.key) := by
  induction retired generalizing w named with
  | nil => exact ⟨w, rfl, h.mono fun other hOther => hOther.1, rfl, rfl, rfl, fun _ hKey => hKey, nofun⟩
  | cons candidate rest ih =>
    rw [map_cons, nodup_cons] at hDistinct
    obtain ⟨mid, hMid, hHeld, hFirst⟩ := h.retire (hNamed candidate mem_cons_self) ownerGeneration threadId now
    have hRest : ∀ other ∈ rest, Without named [candidate] other := by
      intro other hOther
      refine ⟨hNamed other (mem_cons_of_mem _ hOther), fun first hOne hEq => ?_⟩
      rw [mem_singleton.mp hOne] at hEq
      exact hDistinct.1 (hEq ▸ mem_map_of_mem hOther)
    obtain ⟨later, hLater, hHeld, hThen⟩ := ih hDistinct.2 hHeld hRest
    refine ⟨later, ?_, hHeld.mono ?_, hThen.threads.trans hFirst.threads, hThen.operations.trans hFirst.operations,
      hThen.store.trans hFirst.store, fun key hKey => hThen.kept key (hFirst.kept key hKey), fun key hKey => ?_⟩
    · rw [retireThreadCandidates, hMid]
      exact hLater
    · rintro other ⟨hOther, hAway⟩
      rw [forall_mem_cons] at hAway
      exact ⟨⟨hOther, fun first hOne => mem_singleton.mp hOne ▸ hAway.1⟩, hAway.2⟩
    · rw [flatMap_cons] at hKey
      rcases mem_append.mp hKey with hHere | hThere
      · exact hThen.kept key (hFirst.dropped key hHere)
      · exact hThen.dropped key hThere

end Registry

end Stella.TurnStates
