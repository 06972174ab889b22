import Stella.TurnStates.Held

/-! # What every step keeps

The steps of a registry one by one, each with what it does to the records of the others.
-/

namespace Stella.TurnStates

open Stella.Rows

namespace Registry

variable (digests : Digests) (w : Registry)

def Undisturbed : TurnStateInput → Prop
  | .prepare args => lookup OperationRecord.operationId w.operations (digests.operationId args) = none →
    ∀ drain ∈ w.drains, ∀ record ∈ drain.listed, record.operationId ≠ digests.operationId args
  | _ => True

instance decidableUndisturbed : ∀ input, Decidable (w.Undisturbed digests input)
  | .prepare args => inferInstanceAs (Decidable (lookup OperationRecord.operationId w.operations (digests.operationId args) = none →
    ∀ drain ∈ w.drains, ∀ record ∈ drain.listed, record.operationId ≠ digests.operationId args))
  | .upload _ | .markUploaded _ _ | .commit _ | .publish _ _ _ _ | .confirm _ _ _ _ _ | .drain _ _ | .delete _ _ _ | .head _ _ |
    .clear _ | .restart => .isTrue trivial

structure ThreadKept (operations : List OperationRecord) (thread : ThreadRecord) : Prop where
  distinct : (thread.named.map TurnStateCandidate.operationId).Nodup
  cursors : (thread.candidates.map TurnStateCandidate.historyCursor).Nodup
  own : ∀ candidate ∈ thread.named, ∀ operation,
    lookup OperationRecord.operationId operations candidate.operationId = some operation →
      operation.identity.threadId = thread.threadId

structure Kept : Prop where
  held : w.Held (· ∈ w.named)
  threadIds : (w.threads.map ThreadRecord.threadId).Nodup
  threads : ∀ thread ∈ w.threads, ThreadKept w.operations thread

variable {digests w}

/-! ## Operations and objects -/

variable {args : PrepareArgs}

theorem operationOf_objectKey {key : ObjectKey} (h : objectKeyOf digests args = some key) :
    key.operationId = digests.operationId args := by
  unfold objectKeyOf at h
  obtain ⟨_, _, rfl⟩ := Option.map_eq_some_iff.mp h
  rfl

theorem lookup_reserving {key : ObjectKey} {record : ObjectRecord}
    (h : lookup ObjectRecord.key (match objectKeyOf digests args with
      | some key => upsert ObjectRecord.key w.objects ⟨digests.operationId args, key, .reserved, none⟩
      | none => w.objects) key = some record) :
    lookup ObjectRecord.key w.objects key = some record ∨
      (objectKeyOf digests args = some key ∧ record = ⟨digests.operationId args, key, .reserved, none⟩) := by
  split at h
  · next reserved hResv =>
    rw [lookup_upsert] at h
    split at h
    · next hEq =>
      have hKey : key = reserved := hEq
      exact .inr ⟨hKey ▸ hResv, hKey ▸ (Option.some.inj h).symm⟩
    · exact .inl h
  · exact .inl h

theorem Kept.prepare (h : w.Kept) (hUndist : w.Undisturbed digests (.prepare args)) :
    (w.prepareTurnStateOperation digests args).Kept := by
  unfold prepareTurnStateOperation
  split
  · exact h
  · next hNew =>
    split
    · exact h
    have hOld : ∀ id operation, lookup OperationRecord.operationId (w.operations ++ [operationOf digests args]) id = some operation →
        lookup OperationRecord.operationId w.operations id = some operation ∨
          (id = digests.operationId args ∧ operation = operationOf digests args) := by
      intro id operation hOp
      rw [lookup_append, Option.or_eq_some_iff] at hOp
      rcases hOp with hOld | ⟨-, hHere⟩
      · exact .inl hOld
      · exact .inr ⟨(lookup_key hHere).symm.trans (congrArg _ (List.mem_singleton.mp (lookup_mem hHere))),
          List.mem_singleton.mp (lookup_mem hHere)⟩
    have hComm : ∀ id, id ≠ digests.operationId args → ∀ operation,
        lookup OperationRecord.operationId (w.operations ++ [operationOf digests args]) id = some operation →
          lookup OperationRecord.operationId w.operations id = some operation :=
      fun id hAway operation hOp => (hOld id operation hOp).resolve_right fun hHere => hAway hHere.1
    have hNamed : ∀ id operation, lookup OperationRecord.operationId w.operations id = some operation →
        id ≠ digests.operationId args := by
      rintro id operation hOp rfl
      rw [hNew] at hOp
      cases hOp
    refine ⟨⟨fun candidate hCand => ?_, fun id operation hOp key hKey => ?_, fun key record hRec => ?_,
      fun record hRec => ?_, fun drain hDrain => ?_, h.held.dropped⟩, h.threadIds, fun thread hThr => ?_⟩
    · obtain ⟨operation, hOp, hSt⟩ := (h.held.stored candidate hCand).committed
      exact ⟨⟨operation, lookup_append_of_some hOp, hSt⟩, (h.held.stored candidate hCand).native⟩
    · rcases hOld id operation hOp with hBef | ⟨rfl, rfl⟩
      · exact h.held.operations id operation hBef key hKey
      · exact operationOf_objectKey hKey
    · rcases lookup_reserving hRec with hBef | ⟨hResv, rfl⟩
      · have hKept := h.held.objects key record hBef
        refine ⟨hKept.key, hKept.descriptor, fun hOpen => ?_, hKept.uploaded⟩
        obtain ⟨operation, hOp, hRest⟩ := hKept.prepared hOpen
        exact ⟨operation, lookup_append_of_some hOp, hRest⟩
      · refine ⟨operationOf_objectKey hResv, by simp, fun _ => ⟨operationOf digests args, ?_, rfl, hResv⟩, by simp⟩
        rw [lookup_append, hNew]
        simp [lookup, operationOf]
    · obtain ⟨hRet, operation, hOp⟩ := h.held.retirements record hRec
      exact ⟨⟨hRet.unnamed, fun other hOther => hRet.committed other (hComm _ (hNamed _ _ hOp) _ hOther),
        hRet.keys⟩, operation, lookup_append_of_some hOp⟩
    · have hDrained := h.held.drains drain hDrain
      refine ⟨fun record hRec => ?_, hDrained.keys, hDrained.seen⟩
      have hRet := hDrained.retired record hRec
      exact ⟨hRet.unnamed,
        fun other hOther => hRet.committed other (hComm _ (hUndist hNew drain hDrain record hRec) _ hOther),
        hRet.keys⟩
    · have hKept := h.threads thread hThr
      refine ⟨hKept.distinct, hKept.cursors, fun candidate hCand operation hOp => ?_⟩
      obtain ⟨known, hKnown, -⟩ := (h.held.stored candidate (List.mem_flatMap_of_mem hThr hCand)).committed
      exact hKept.own candidate hCand operation (hComm _ (hNamed _ _ hKnown) _ hOp)

theorem Kept.upload (h : w.Kept) (key : ObjectKey) : ({ w with store := w.store.insert key } : Registry).Kept := by
  have hMem : ∀ other ∈ w.store, other ∈ w.store.insert key := fun _ hOther => List.mem_insert_of_mem hOther
  refine ⟨⟨fun candidate hCand => ?_, h.held.operations, fun key record hRec => ?_, h.held.retirements, h.held.drains,
    h.held.dropped⟩, h.threadIds, h.threads⟩
  · have hStored := h.held.stored candidate hCand
    exact ⟨hStored.committed, fun archive hArch => ⟨hMem _ (hStored.native archive hArch).1, (hStored.native archive hArch).2⟩⟩
  · have hKept := h.held.objects key record hRec
    exact ⟨hKept.key, hKept.descriptor, hKept.prepared, fun hUploaded => hMem _ (hKept.uploaded hUploaded)⟩

variable {archive : TurnStateArchive}

theorem Kept.markUploaded (h : w.Kept) (hThere : archive.key ∈ w.store) (operationId : String) :
    (w.markTurnStateObjectUploaded operationId archive).Kept := by
  unfold markTurnStateObjectUploaded
  split
  · next operation existing hOp hExist =>
    split
    · exact h
    · next hPass =>
      simp only [Bool.or_eq_true, decide_eq_true_eq, not_or, not_not, ne_eq, Bool.not_eq_true, Option.isSome_eq_false_iff,
        Option.isNone_iff_eq_none] at hPass
      refine ⟨⟨h.held.stored, h.held.operations, fun key record hRec => ?_, h.held.retirements, h.held.drains, h.held.dropped⟩,
        h.threadIds, h.threads⟩
      obtain ⟨old, hOld, rfl⟩ := of_lookup_modify hRec fun _ => rfl
      have hKept := h.held.objects key old hOld
      split
      · next hAt =>
        rw [hAt, hExist] at hOld
        obtain rfl : existing = old := Option.some.inj hOld
        have hKey : archive.key = existing.key := (lookup_key hExist).symm
        refine ⟨hKept.key, fun other hOther => ?_, fun _ => hKept.prepared (.inr hPass.2), fun _ => hKey ▸ hThere⟩
        rw [← Option.some.inj hOther]
        exact hKey
      · exact hKept
  · exact h

/-! ## Committing and publishing -/

theorem threadOf_threadId (operation : OperationRecord) : (w.threadOf operation).threadId = operation.identity.threadId := by
  unfold threadOf
  cases hThr : lookup ThreadRecord.threadId w.threads operation.identity.threadId with
  | none => rfl
  | some thread => exact lookup_key hThr

variable {operation : OperationRecord}

theorem threadOf_named {candidate : TurnStateCandidate}
    (h : candidate ∈ (w.threadOf operation).named) : candidate ∈ w.named := by
  unfold threadOf at h
  cases hThr : lookup ThreadRecord.threadId w.threads operation.identity.threadId with
  | none =>
    rw [hThr] at h
    cases h
  | some thread =>
    rw [hThr] at h
    exact List.mem_flatMap_of_mem (lookup_mem hThr) h

theorem Kept.threadOf (h : w.Kept) (operation : OperationRecord) : ThreadKept w.operations (w.threadOf operation) := by
  unfold Registry.threadOf
  cases hThr : lookup ThreadRecord.threadId w.threads operation.identity.threadId with
  | none => exact ⟨List.nodup_nil, List.nodup_nil, nofun⟩
  | some thread => exact h.threads thread (lookup_mem hThr)

theorem uploadedOf_eq (h : w.uploadedOf operation = some archive) :
    ∃ key record, operation.objectKey = some key ∧ lookup ObjectRecord.key w.objects key = some record ∧
      record.state = .uploaded ∧ record.descriptor = some archive := by
  unfold uploadedOf at h
  obtain ⟨record, hRec, hArch⟩ := Option.bind_eq_some_iff.mp h
  obtain ⟨key, hKey, hLookup⟩ := Option.bind_eq_some_iff.mp hRec
  split at hArch
  · next hSt => exact ⟨key, record, hKey, hLookup, hSt, hArch⟩
  · cases hArch

theorem Kept.uploadedOf (h : w.Kept) {operationId : String}
    (hOp : lookup OperationRecord.operationId w.operations operationId = some operation)
    (hArch : w.uploadedOf operation = some archive) : archive.key ∈ w.store ∧ archive.key.operationId = operationId := by
  obtain ⟨key, record, hKey, hRec, hSt, hDescriptor⟩ := uploadedOf_eq hArch
  have hResv := h.held.objects key record hRec
  rw [hResv.descriptor archive hDescriptor]
  exact ⟨hResv.uploaded hSt, (congrArg _ (lookup_key hRec)).trans (h.held.operations _ _ hOp key hKey)⟩

theorem Kept.commit (h : w.Kept) (operationId : String) : (w.commitTurnStateOperation digests operationId).Kept := by
  unfold commitTurnStateOperation
  split
  · exact h
  next operation hOp =>
  have hId : operation.operationId = operationId := lookup_key hOp
  have hThr := h.threadOf operation
  have hThreadId := threadOf_threadId (w := w) operation
  have hIn : ∀ candidate ∈ (w.threadOf operation).named, candidate ∈ w.named := fun _ => threadOf_named
  generalize w.threadOf operation = thread at hThr hThreadId hIn
  dsimp only
  split
  · exact h
  split
  · exact h
  split
  · exact h
  next hOpen =>
  split
  · exact h
  next hUploaded =>
  split
  · exact h
  next hCursor =>
  split
  · exact h
  -- The operation is prepared, so it is neither named nor retired.
  have hUnnamed : ∀ candidate ∈ w.named, candidate.operationId ≠ operationId := by
    intro candidate hCand hEq
    obtain ⟨known, hKnown, hSt⟩ := (h.held.stored candidate hCand).committed
    rw [hEq, hOp] at hKnown
    exact hOpen (Option.some.inj hKnown ▸ hSt)
  have hOps : ∀ id later, lookup OperationRecord.operationId (modify OperationRecord.operationId w.operations operationId fun old =>
        { old with state := .committed, receipt := some (candidateOf digests operation (w.uploadedOf operation)).receipt }) id =
          some later →
      ∃ old, lookup OperationRecord.operationId w.operations id = some old ∧ later.identity = old.identity ∧
        later.objectKey = old.objectKey ∧ (old.state = .committed → later.state = .committed) := by
    intro id later hLater
    obtain ⟨old, hOld, rfl⟩ := of_lookup_modify hLater fun _ => rfl
    refine ⟨old, hOld, ?_⟩
    split
    · exact ⟨rfl, rfl, fun _ => rfl⟩
    · exact ⟨rfl, rfl, fun hSt => hSt⟩
  have hExists : ∀ id old, lookup OperationRecord.operationId w.operations id = some old → old.state = .committed ∨
      id = operationId →
      ∃ later, lookup OperationRecord.operationId (modify OperationRecord.operationId w.operations operationId fun old =>
        { old with state := .committed, receipt := some (candidateOf digests operation (w.uploadedOf operation)).receipt }) id =
          some later ∧ later.state = .committed := by
    intro id old hOld hComm
    refine ⟨_, lookup_modify_of_some hOld ?_ _, ?_⟩
    · exact fun _ => rfl
    split
    · rfl
    · next hAway => exact hComm.resolve_right hAway
  have hNamed : ∀ candidate ∈ (upsert ThreadRecord.threadId w.threads
        { thread with candidates := thread.candidates ++ [candidateOf digests operation (w.uploadedOf operation)] }).flatMap
          ThreadRecord.named,
      candidate ∈ w.named ∨ candidate = candidateOf digests operation (w.uploadedOf operation) := by
    intro candidate hCand
    obtain ⟨other, hOther, hMem⟩ := List.mem_flatMap.mp hCand
    rcases mem_upsert hOther with rfl | ⟨hOld, -⟩
    · rw [ThreadRecord.named, ← List.append_assoc] at hMem
      rcases List.mem_append.mp hMem with hBef | hNew
      · exact .inl (hIn candidate hBef)
      · exact .inr (List.mem_singleton.mp hNew)
    · exact .inl (List.mem_flatMap_of_mem hOld hMem)
  have hRet : ∀ record, Retired (· ∈ w.named) w.operations record → Retired _ _ record := fun record hRet =>
    { unnamed := by
        intro candidate hCand
        rcases hNamed candidate hCand with hBef | rfl
        · exact hRet.unnamed candidate hBef
        · intro hEq
          have hHere : lookup OperationRecord.operationId w.operations record.operationId = some operation := by
            rw [← hEq, candidateOf, hId]
            exact hOp
          exact hOpen (hRet.committed operation hHere)
      committed := by
        intro later hLater
        obtain ⟨old, hOld, -, -, hSt⟩ := hOps _ later hLater
        exact hSt (hRet.committed old hOld)
      keys := hRet.keys }
  refine ⟨⟨fun candidate hCand => ?_, fun id later hLater key hKey => ?_, fun key record hRec => ?_,
    fun record hRec => ?_, fun drain hDrain => ?_, h.held.dropped⟩, upsert_keys_nodup h.threadIds _, fun other hOther => ?_⟩
  · rcases hNamed candidate hCand with hBef | rfl
    · have hStored := h.held.stored candidate hBef
      obtain ⟨old, hOld, hSt⟩ := hStored.committed
      exact ⟨hExists _ old hOld (.inl hSt), hStored.native⟩
    · subst hId
      exact ⟨hExists _ operation hOp (.inr rfl), fun archive hArch => h.uploadedOf hOp hArch⟩
  · obtain ⟨old, hOld, -, hEq, -⟩ := hOps id later hLater
    exact h.held.operations id old hOld key (hEq ▸ hKey)
  · have hOld : ∃ old, lookup ObjectRecord.key w.objects key = some old ∧
        record = if operation.objectKey = some key then { old with state := .referenced } else old := by
      split at hRec
      · next objectKey hObj =>
        obtain ⟨old, hOld, rfl⟩ := of_lookup_modify hRec fun _ => rfl
        refine ⟨old, hOld, if_congr ?_ rfl rfl⟩
        rw [hObj, Option.some.injEq]
        exact eq_comm
      · next hObj =>
        rw [hObj]
        exact ⟨record, hRec, rfl⟩
    obtain ⟨old, hOld, rfl⟩ := hOld
    have hResv := h.held.objects key old hOld
    by_cases hObj : operation.objectKey = some key
    · rw [if_pos hObj]
      refine ⟨hResv.key, hResv.descriptor, fun hStill => ?_, by simp⟩
      simp only [hObj, Option.isSome_some, Bool.true_and, Bool.not_eq_true, Option.isNone_eq_false_iff] at hUploaded
      obtain ⟨archive, hArch⟩ := Option.isSome_iff_exists.mp hUploaded
      obtain ⟨here, record, hHere, hRec, -, hDescriptor⟩ := uploadedOf_eq hArch
      rw [hObj, Option.some.injEq] at hHere
      rw [← hHere, hOld] at hRec
      rw [← Option.some.inj hRec] at hDescriptor
      have hNone : old.descriptor = none := hStill.resolve_left (by simp)
      rw [hNone] at hDescriptor
      cases hDescriptor
    · rw [if_neg hObj]
      refine ⟨hResv.key, hResv.descriptor, fun hStill => ?_, hResv.uploaded⟩
      obtain ⟨known, hKnown, hSt, hKey⟩ := hResv.prepared hStill
      have hAway : old.operationId ≠ operationId := by
        intro hEq
        rw [hEq, hOp] at hKnown
        rw [← Option.some.inj hKnown, lookup_key hOld] at hKey
        exact hObj hKey
      refine ⟨known, ?_, hSt, hKey⟩
      refine (lookup_modify_of_some hKnown ?_ operationId).trans ?_
      · exact fun _ => rfl
      · rw [if_neg hAway]
  · obtain ⟨hOld, known, hKnown⟩ := h.held.retirements record hRec
    obtain ⟨later, hLater, -⟩ := hExists _ known hKnown (.inl (hOld.committed known hKnown))
    exact ⟨hRet record hOld, later, hLater⟩
  · have hDrained := h.held.drains drain hDrain
    exact ⟨fun record hRec => hRet record (hDrained.retired record hRec), hDrained.keys, hDrained.seen⟩
  · rcases mem_upsert hOther with rfl | ⟨hOld, -⟩
    · refine ⟨?_, ?_, fun candidate hCand later hLater => ?_⟩
      · rw [ThreadRecord.named, ← List.append_assoc, List.map_append, List.nodup_append]
        refine ⟨hThr.distinct, List.pairwise_singleton _ _, fun id hBef other hNew hEq => ?_⟩
        obtain ⟨candidate, hCand, rfl⟩ := List.mem_map.mp hBef
        rw [List.map_singleton, List.mem_singleton] at hNew
        exact hUnnamed candidate (hIn candidate hCand) (hEq.trans (hNew.trans hId))
      · rw [List.map_append, List.nodup_append]
        refine ⟨hThr.cursors, List.pairwise_singleton _ _, fun cursor hBef other hNew hEq => ?_⟩
        obtain ⟨candidate, hCand, rfl⟩ := List.mem_map.mp hBef
        rw [List.map_singleton, List.mem_singleton] at hNew
        exact hCursor (List.any_eq_true.mpr ⟨candidate, hCand, decide_eq_true (hEq.trans hNew)⟩)
      · obtain ⟨old, hOld, hIdent, -⟩ := hOps _ later hLater
        rw [hIdent]
        rw [ThreadRecord.named, ← List.append_assoc] at hCand
        rcases List.mem_append.mp hCand with hBef | hNew
        · exact hThr.own candidate hBef old hOld
        · rw [List.mem_singleton.mp hNew, candidateOf, hId, hOp] at hOld
          rw [← Option.some.inj hOld]
          exact hThreadId.symm
    · have hKept := h.threads other hOld
      refine ⟨hKept.distinct, hKept.cursors, fun candidate hCand later hLater => ?_⟩
      obtain ⟨old, hBef, hIdent, -⟩ := hOps _ later hLater
      rw [hIdent]
      exact hKept.own candidate hCand old hBef

theorem Kept.publish (h : w.Kept) (ownerGeneration threadId historyCursor operationId : String) :
    (w.publishTurnStateWorkspace digests ownerGeneration threadId historyCursor operationId).Kept := by
  unfold publishTurnStateWorkspace
  split
  · split
    · exact h
    next operation _ _ _ =>
    have hOps : ∀ id later, lookup OperationRecord.operationId (modify OperationRecord.operationId w.operations operationId fun old =>
          { old with publicationReceipt := some (digests.publicationReceipt old) }) id = some later →
        ∃ old, lookup OperationRecord.operationId w.operations id = some old ∧ later.identity = old.identity ∧
          later.objectKey = old.objectKey ∧ later.state = old.state := by
      intro id later hLater
      obtain ⟨old, hOld, rfl⟩ := of_lookup_modify hLater fun _ => rfl
      refine ⟨old, hOld, ?_⟩
      split <;> exact ⟨rfl, rfl, rfl⟩
    have hExists : ∀ id old, lookup OperationRecord.operationId w.operations id = some old →
        ∃ later, lookup OperationRecord.operationId (modify OperationRecord.operationId w.operations operationId fun old =>
          { old with publicationReceipt := some (digests.publicationReceipt old) }) id = some later ∧
          later.objectKey = old.objectKey ∧ later.state = old.state := by
      intro id old hOld
      refine ⟨_, lookup_modify_of_some hOld ?_ _, ?_⟩
      · exact fun _ => rfl
      split <;> exact ⟨rfl, rfl⟩
    have hRet : ∀ record, Retired (· ∈ w.named) w.operations record →
        Retired (· ∈ w.named) (modify OperationRecord.operationId w.operations operationId fun old =>
          { old with publicationReceipt := some (digests.publicationReceipt old) }) record := by
      intro record hRet
      refine ⟨hRet.unnamed, fun later hLater => ?_, hRet.keys⟩
      obtain ⟨old, hOld, -, -, hSt⟩ := hOps _ later hLater
      exact hSt.trans (hRet.committed old hOld)
    refine ⟨⟨fun candidate hCand => ?_, fun id later hLater key hKey => ?_, fun key record hRec => ?_,
      fun record hRec => ?_, fun drain hDrain => ?_, h.held.dropped⟩, h.threadIds, fun thread hThr => ?_⟩
    · have hStored := h.held.stored candidate hCand
      obtain ⟨old, hOld, hComm⟩ := hStored.committed
      obtain ⟨later, hLater, -, hSt⟩ := hExists _ old hOld
      exact ⟨⟨later, hLater, hSt.trans hComm⟩, hStored.native⟩
    · obtain ⟨old, hOld, -, hEq, -⟩ := hOps id later hLater
      exact h.held.operations id old hOld key (hEq ▸ hKey)
    · have hResv := h.held.objects key record hRec
      refine ⟨hResv.key, hResv.descriptor, fun hOpen => ?_, hResv.uploaded⟩
      obtain ⟨old, hOld, hPrepared, hKey⟩ := hResv.prepared hOpen
      obtain ⟨later, hLater, hEq, hSt⟩ := hExists _ old hOld
      exact ⟨later, hLater, hSt.trans hPrepared, hEq.trans hKey⟩
    · obtain ⟨hOld, known, hKnown⟩ := h.held.retirements record hRec
      obtain ⟨later, hLater, -⟩ := hExists _ known hKnown
      exact ⟨hRet record hOld, later, hLater⟩
    · have hDrained := h.held.drains drain hDrain
      exact ⟨fun record hRec => hRet record (hDrained.retired record hRec), hDrained.keys, hDrained.seen⟩
    · have hKept := h.threads thread hThr
      refine ⟨hKept.distinct, hKept.cursors, fun candidate hCand later hLater => ?_⟩
      obtain ⟨old, hOld, hIdent, -⟩ := hOps _ later hLater
      exact (congrArg _ hIdent).trans (hKept.own candidate hCand old hOld)
  · exact h

/-! ## Confirming -/

def retiredFor (thread : ThreadRecord) (restore : TurnStateCandidate) : List TurnStateCandidate :=
  thread.committed.toList ++ thread.candidates.filter fun candidate => candidate.operationId ≠ restore.operationId

theorem retiredFor_sublist (thread : ThreadRecord) (restore : TurnStateCandidate) :
    (retiredFor thread restore).Sublist thread.named := List.filter_sublist.append_left _

variable {operations : List OperationRecord}

variable {thread : ThreadRecord}

theorem ThreadKept.unique (h : ThreadKept operations thread)
    {a b : TurnStateCandidate} (hA : a ∈ thread.named) (hB : b ∈ thread.named) (hEq : a.operationId = b.operationId) : a = b :=
  Option.some.inj ((lookup_of_mem h.distinct hA).symm.trans (hEq ▸ lookup_of_mem h.distinct hB))

theorem ThreadKept.away (h : ThreadKept operations thread)
    {restore : TurnStateCandidate} (hRestore : restore ∈ thread.candidates) :
    ∀ other ∈ retiredFor thread restore, restore.operationId ≠ other.operationId := by
  intro other hOther hEq
  rcases List.mem_append.mp hOther with hComm | hCand
  · have hNd := h.distinct
    rw [ThreadRecord.named, List.map_append, List.nodup_append] at hNd
    exact hNd.2.2 _ (List.mem_map_of_mem hComm) _ (List.mem_map_of_mem hRestore) hEq.symm
  · exact of_decide_eq_true (List.mem_filter.mp hCand).2 hEq.symm

theorem Kept.confirm_cases (h : w.Kept) (ownerGeneration threadId historyCursor operationId : String) (now : Int) :
    (w.confirmTurnStateRestore ownerGeneration threadId historyCursor operationId now = w ∧
      ∀ thread, lookup ThreadRecord.threadId w.threads threadId = some thread → thread.ownerGeneration = ownerGeneration →
        ∀ candidate ∈ thread.candidates, candidate.operationId = operationId → candidate.historyCursor ≠ historyCursor) ∨
    ∃ thread restore later, lookup ThreadRecord.threadId w.threads threadId = some thread ∧
      thread.ownerGeneration = ownerGeneration ∧ restore ∈ thread.candidates ∧ restore.operationId = operationId ∧
      restore.historyCursor = historyCursor ∧ later.Held (Without (· ∈ w.named) (retiredFor thread restore)) ∧
      w.Retires later ((retiredFor thread restore).flatMap fun candidate => candidate.native.toList.map TurnStateArchive.key) ∧
      w.confirmTurnStateRestore ownerGeneration threadId historyCursor operationId now =
        { later with
          threads := upsert ThreadRecord.threadId later.threads { thread with committed := some restore, candidates := [] } } := by
  unfold confirmTurnStateRestore
  split
  · next hNone => exact .inl ⟨rfl, fun thread hThr => absurd (hNone.symm.trans hThr) (by simp)⟩
  next thread hThr =>
  have hKept := h.threads thread (lookup_mem hThr)
  dsimp only
  split
  · next hRef =>
    refine .inl ⟨rfl, fun other hOther hOwner candidate hCand hOp hCursor => ?_⟩
    rw [← Option.some.inj (hThr.symm.trans hOther)] at hOwner hCand
    simp only [hOwner, ne_eq, not_true_eq_false, decide_false, Bool.false_or, Option.any_eq_true, Bool.and_eq_true,
      decide_eq_true_eq] at hRef
    obtain ⟨committed, hComm, hEq, -⟩ := hRef
    refine hKept.away hCand committed (List.mem_append_left _ (by simpa using hComm)) (hOp.trans hEq.symm)
  next hPass =>
  simp only [Bool.or_eq_true, decide_eq_true_eq, not_or, not_not, ne_eq, Bool.not_eq_true] at hPass
  split
  · next hNone =>
    refine .inl ⟨rfl, fun other hOther _ candidate hCand hOp hCursor => ?_⟩
    rw [← Option.some.inj (hThr.symm.trans hOther)] at hCand
    exact List.find?_eq_none.mp hNone candidate hCand (by simp [hOp, hCursor])
  next restore hRestore =>
  have hMem := List.mem_of_find?_eq_some hRestore
  have hExact := List.find?_some hRestore
  simp only [Bool.and_eq_true, decide_eq_true_eq] at hExact
  have hNamed : ∀ candidate ∈ retiredFor thread restore, candidate ∈ w.named := fun candidate hCand =>
    List.mem_flatMap_of_mem (lookup_mem hThr) ((retiredFor_sublist thread restore).subset hCand)
  obtain ⟨later, hLater, hHeld, hRetires⟩ := h.held.retireThread thread.ownerGeneration thread.threadId now
    (hKept.distinct.sublist ((retiredFor_sublist thread restore).map _)) hNamed
  rw [show thread.committed.toList ++ thread.candidates.filter (fun candidate => candidate.operationId ≠ restore.operationId) =
    retiredFor thread restore from rfl, hLater]
  refine .inr ⟨thread, restore, later, hThr, hPass.1, hMem, hExact.1, hExact.2, hHeld, hRetires, ?_⟩
  have hThere : (lookup ThreadRecord.threadId later.threads threadId).isSome = true := by
    rw [hRetires.threads, hThr]
    rfl
  have hId : thread.threadId = threadId := lookup_key hThr
  rw [upsert, show ThreadRecord.threadId { thread with committed := some restore, candidates := [] } = threadId from hId,
    if_pos hThere]

theorem Kept.confirm (h : w.Kept) (ownerGeneration threadId historyCursor operationId : String) (now : Int) :
    (w.confirmTurnStateRestore ownerGeneration threadId historyCursor operationId now).Kept := by
  obtain ⟨hEq, -⟩ | ⟨thread, restore, later, hThr, -, hRestore, -, -, hHeld, hRetires, hConfirm⟩ :=
    h.confirm_cases ownerGeneration threadId historyCursor operationId now
  · rw [hEq]
    exact h
  rw [hConfirm]
  have hIn := lookup_mem hThr
  have hKept := h.threads thread hIn
  have hRestoreNamed : restore ∈ thread.named := List.mem_append_right _ hRestore
  have hNamed : ∀ candidate ∈ (upsert ThreadRecord.threadId later.threads
        { thread with committed := some restore, candidates := [] }).flatMap ThreadRecord.named,
      Without (· ∈ w.named) (retiredFor thread restore) candidate := by
    intro candidate hCand
    obtain ⟨other, hOther, hMem⟩ := List.mem_flatMap.mp hCand
    rcases mem_upsert hOther with rfl | ⟨hOld, hAway⟩
    · rw [show candidate = restore by simpa [ThreadRecord.named] using hMem]
      exact ⟨List.mem_flatMap_of_mem hIn hRestoreNamed, hKept.away hRestore⟩
    · rw [hRetires.threads] at hOld
      have hHere : candidate ∈ w.named := List.mem_flatMap_of_mem hOld hMem
      refine ⟨hHere, fun retired hRet hEq => hAway ?_⟩
      -- An operation is of one thread.
      obtain ⟨operation, hOp, -⟩ := (h.held.stored candidate hHere).committed
      exact ((h.threads other hOld).own candidate hMem operation hOp).symm.trans
        (hKept.own retired ((retiredFor_sublist thread restore).subset hRet) operation (hEq ▸ hOp))
  have hHeld := hHeld.mono hNamed
  refine ⟨⟨hHeld.stored, hHeld.operations, hHeld.objects, hHeld.retirements, hHeld.drains, hHeld.dropped⟩, ?_,
    fun other hOther => ?_⟩
  · exact upsert_keys_nodup (hRetires.threads ▸ h.threadIds) _
  · have hOps : later.operations = w.operations := hRetires.operations
    rcases mem_upsert hOther with rfl | ⟨hOld, -⟩
    · refine ⟨List.pairwise_singleton _ _, List.nodup_nil, fun candidate hCand operation hOp => ?_⟩
      rw [show candidate = restore by simpa [ThreadRecord.named] using hCand] at hOp
      exact hKept.own restore hRestoreNamed operation (hOps ▸ hOp)
    · rw [hRetires.threads] at hOld
      have hOther := h.threads other hOld
      exact ⟨hOther.distinct, hOther.cursors, fun candidate hCand operation hOp =>
        hOther.own candidate hCand operation (hOps ▸ hOp)⟩

/-! ## Drains -/

theorem Kept.withDrain (h : w.Kept) (place : Nat) {drain : Drain} (hDrain : Drained (· ∈ w.named) w.operations w.dropped drain) :
    (w.withDrain place drain).Kept where
  held :=
    { h.held with
      drains := fun other hOther => (List.mem_or_eq_of_mem_set hOther).elim (h.held.drains other) fun hEq => hEq ▸ hDrain }
  threadIds := h.threadIds
  threads := h.threads

theorem drained_at {named : TurnStateCandidate → Prop} (dropped : List ObjectKey)
    {listed : List RetirementRecord} (h : ∀ record ∈ listed, Retired named operations record) :
    Drained named operations dropped (Drain.at listed) := by
  cases listed with
  | nil => exact ⟨h, nofun, nofun⟩
  | cons record rest =>
    refine ⟨h, fun key hKey => ⟨record, List.mem_cons_self, hKey⟩, fun _ head hHead key hKey hPast => ?_⟩
    obtain rfl : record = head := Option.some.inj hHead
    exact absurd hKey hPast

theorem Kept.drain (h : w.Kept) (ownerGeneration : String) (limit : Nat) : (w.drain ownerGeneration limit).Kept where
  held :=
    { h.held with
      drains := by
        intro drain hDrain
        rcases List.mem_append.mp hDrain with hOld | hNew
        · exact h.held.drains drain hOld
        · rw [List.mem_singleton.mp hNew]
          refine drained_at _ fun record hRec => (h.held.retirements record ?_).1
          exact List.mem_of_mem_filter ((List.mem_insertionSort _).mp (List.mem_of_mem_take hRec)) }
  threadIds := h.threadIds
  threads := h.threads

section

variable (h : w.Kept)
include h

theorem Kept.deleteKey {drain : Drain} (hDrain : drain ∈ w.drains) {key : ObjectKey} (hKey : key ∈ drain.keys) :
    ({ w with store := erase id w.store key } : Registry).Kept := by
  have hDrained := h.held.drains drain hDrain
  obtain ⟨retirement, hList, hIn⟩ := hDrained.keys key hKey
  have hRet := hDrained.retired retirement hList
  have hOwn := hRet.keys key hIn
  refine ⟨{ h.held with stored := fun candidate hCand => ?_, objects := fun other record hRec => ?_ }, h.threadIds, h.threads⟩
  · have hStored := h.held.stored candidate hCand
    refine ⟨hStored.committed, fun archive hArch => ⟨mem_erase.mpr ⟨(hStored.native archive hArch).1, fun hEq => ?_⟩,
      (hStored.native archive hArch).2⟩⟩
    have hEq : archive.key = key := hEq
    refine hRet.unnamed candidate hCand ?_
    rw [← (hStored.native archive hArch).2, hEq, hOwn]
  · have hResv := h.held.objects other record hRec
    refine ⟨hResv.key, hResv.descriptor, hResv.prepared, fun hUploaded =>
      mem_erase.mpr ⟨hResv.uploaded hUploaded, fun hEq => ?_⟩⟩
    have hEq : record.key = key := hEq
    obtain ⟨operation, hOp, hPrepared, -⟩ := hResv.prepared (.inl hUploaded)
    rw [← hResv.key, hEq, hOwn] at hOp
    rw [hRet.committed operation hOp] at hPrepared
    cases hPrepared

theorem Kept.undrop (key : ObjectKey) : ({ w with dropped := erase id w.dropped key } : Registry).Kept where
  held :=
    { h.held with
      drains := fun drain hDrain =>
        have hDrained := h.held.drains drain hDrain
        ⟨hDrained.retired, hDrained.keys, fun hEmpty record hRec other hOther hPast hDrop =>
          hDrained.seen hEmpty record hRec other hOther hPast (mem_erase.mp hDrop).1⟩
      dropped := fun other hOther => h.held.dropped other (mem_erase.mp hOther).1 }
  threadIds := h.threadIds
  threads := h.threads

theorem Kept.forget {retirement : RetirementRecord}
    (hCur : lookup RetirementRecord.operationId w.retirements retirement.operationId = some retirement)
    (hAbsent : ∀ key ∈ retirement.objectKeys, key ∉ w.dropped) :
    ({ w with
      objects := w.objects.filter fun object => object.key ∉ retirement.objectKeys
      operations := erase OperationRecord.operationId w.operations retirement.operationId
      retirements := erase RetirementRecord.operationId w.retirements retirement.operationId } : Registry).Kept := by
  have hRetirement := (h.held.retirements retirement (lookup_mem hCur)).1
  have hBef : ∀ id operation,
      lookup OperationRecord.operationId (erase OperationRecord.operationId w.operations retirement.operationId) id = some operation →
        lookup OperationRecord.operationId w.operations id = some operation := by
    intro id operation hOp
    rw [lookup_erase] at hOp
    split at hOp
    · cases hOp
    · exact hOp
  have hAfter : ∀ id operation, id ≠ retirement.operationId → lookup OperationRecord.operationId w.operations id = some operation →
      lookup OperationRecord.operationId (erase OperationRecord.operationId w.operations retirement.operationId) id = some operation := by
    intro id operation hAway hOp
    rw [lookup_erase, if_neg hAway]
    exact hOp
  have hRet : ∀ record, Retired (· ∈ w.named) w.operations record →
      Retired (· ∈ w.named) (erase OperationRecord.operationId w.operations retirement.operationId) record := fun record hRet =>
    ⟨hRet.unnamed, fun operation hOp => hRet.committed operation (hBef _ operation hOp), hRet.keys⟩
  refine ⟨⟨fun candidate hCand => ?_, fun id operation hOp => h.held.operations id operation (hBef id operation hOp),
    fun key record hRec => ?_, fun record hRec => ?_, fun drain hDrain => ?_, fun key hKey => ?_⟩, h.threadIds,
    fun thread hThr => ?_⟩
  · have hStored := h.held.stored candidate hCand
    obtain ⟨operation, hOp, hSt⟩ := hStored.committed
    exact ⟨⟨operation, hAfter _ operation (hRetirement.unnamed candidate hCand) hOp, hSt⟩, hStored.native⟩
  · have hResv := h.held.objects key record ?_
    · refine ⟨hResv.key, hResv.descriptor, fun hOpen => ?_, hResv.uploaded⟩
      obtain ⟨operation, hOp, hPrepared, hKey⟩ := hResv.prepared hOpen
      refine ⟨operation, hAfter _ operation (fun hEq => ?_) hOp, hPrepared, hKey⟩
      rw [hRetirement.committed operation (hEq ▸ hOp)] at hPrepared
      cases hPrepared
    · have hStays : key ∉ retirement.objectKeys := by
        have hMem := (List.mem_filter.mp (lookup_mem hRec)).2
        rw [lookup_key hRec] at hMem
        exact of_decide_eq_true hMem
      rwa [lookup_filter_of_forall fun other _ hOther => decide_eq_true (hOther ▸ hStays)] at hRec
  · obtain ⟨hIn, hAway⟩ := mem_erase.mp hRec
    obtain ⟨hOld, operation, hOp⟩ := h.held.retirements record hIn
    exact ⟨hRet record hOld, operation, hAfter _ operation hAway hOp⟩
  · have hDrained := h.held.drains drain hDrain
    exact ⟨fun record hRec => hRet record (hDrained.retired record hRec), hDrained.keys, hDrained.seen⟩
  · obtain ⟨record, hRec, hIn⟩ := h.held.dropped key hKey
    have hAway : key.operationId ≠ retirement.operationId := by
      intro hEq
      rw [hEq, hCur] at hRec
      exact hAbsent key (Option.some.inj hRec ▸ hIn) hKey
    refine ⟨record, ?_, hIn⟩
    rw [lookup_erase, if_neg hAway]
    exact hRec
  · have hKept := h.threads thread hThr
    exact ⟨hKept.distinct, hKept.cursors, fun candidate hCand operation hOp =>
      hKept.own candidate hCand operation (hBef _ operation hOp)⟩

theorem Kept.delete (place : Nat) (takesEffect throws : Bool) :
    (w.step digests (.delete place takesEffect throws)).Kept := by
  unfold step
  dsimp only
  split
  · next listed key more empty hPlace =>
    have hDrain := List.mem_of_getElem? hPlace
    have hDrained := h.held.drains _ hDrain
    have hNext : Drained (· ∈ w.named) w.operations w.dropped
        (if throws then ⟨listed, more, .deleting, false⟩ else ⟨listed, key :: more, .heading, empty⟩) := by
      split
      · exact ⟨hDrained.retired, fun other hOther => hDrained.keys other (List.mem_cons_of_mem _ hOther), nofun⟩
      · exact ⟨hDrained.retired, hDrained.keys, hDrained.seen⟩
    cases takesEffect with
    | true => exact (h.deleteKey hDrain List.mem_cons_self).withDrain place hNext
    | false => exact h.withDrain place hNext
  · exact h

theorem Kept.head (place : Nat) (throws : Bool) : (w.step digests (.head place throws)).Kept := by
  unfold step
  dsimp only
  split
  · next listed key more empty hPlace =>
    have hDrained := h.held.drains _ (List.mem_of_getElem? hPlace)
    have hKeys : ∀ other ∈ more, ∃ record ∈ listed, other ∈ record.objectKeys := fun other hOther =>
      hDrained.keys other (List.mem_cons_of_mem _ hOther)
    split
    · exact h.withDrain place ⟨hDrained.retired, hKeys, nofun⟩
    · refine (h.undrop key).withDrain place ⟨hDrained.retired, hKeys, fun hEmpty record hRec other hOther hPast hDrop => ?_⟩
      obtain ⟨hStill, hAway⟩ := mem_erase.mp hDrop
      exact hDrained.seen hEmpty record hRec other hOther (List.not_mem_cons_of_ne_of_not_mem hAway hPast) hStill
  · exact h

theorem Kept.clear (place : Nat) : (w.step digests (.clear place)).Kept := by
  unfold step
  dsimp only
  split
  · next retirement rest stage empty hPlace =>
    have hDrain := List.mem_of_getElem? hPlace
    have hDrained := h.held.drains _ hDrain
    have hRest : (w.withDrain place (Drain.at rest)).Kept :=
      h.withDrain place (drained_at _ fun record hRec => hDrained.retired record (List.mem_cons_of_mem _ hRec))
    unfold Registry.clear
    split
    · exact hRest
    next hEmpty =>
    split
    · exact hRest
    next current hCur =>
    split
    · exact hRest
    next hEq =>
    split
    · exact h.withDrain place (drained_at _ (by simp))
    rw [ne_eq, not_not] at hEq
    rw [hEq] at hCur ⊢
    have hForget := h.forget hCur fun key hKey =>
      hDrained.seen (by simpa using hEmpty) retirement rfl key hKey List.not_mem_nil
    exact hForget.withDrain place
      (drained_at _ fun record hRec => (hForget.held.drains _ hDrain).retired record (List.mem_cons_of_mem _ hRec))
  · exact h

theorem Kept.step {input : TurnStateInput} (hUndist : w.Undisturbed digests input) :
    (w.step digests input).Kept := by
  cases input with
  | prepare args => exact h.prepare hUndist
  | upload key => exact h.upload key
  | markUploaded operationId archive =>
    unfold Registry.step
    dsimp only
    split
    · next hThere => exact h.markUploaded hThere operationId
    · exact h
  | commit operationId => exact h.commit operationId
  | publish ownerGeneration threadId historyCursor operationId => exact h.publish ownerGeneration threadId historyCursor operationId
  | confirm ownerGeneration threadId historyCursor operationId now =>
    exact h.confirm ownerGeneration threadId historyCursor operationId now
  | drain ownerGeneration limit => exact h.drain ownerGeneration limit
  | delete place takesEffect throws => exact h.delete place takesEffect throws
  | head place throws => exact h.head place throws
  | clear place => exact h.clear place
  | restart => exact ⟨{ h.held with drains := List.forall_mem_nil _ }, h.threadIds, h.threads⟩

end

theorem kept_start : ({} : Registry).Kept where
  held := {
    stored := List.forall_mem_nil _
    operations := fun _ operation hFound => absurd hFound.symm (Option.some_ne_none operation)
    objects := fun _ record hFound => absurd hFound.symm (Option.some_ne_none record)
    retirements := List.forall_mem_nil _
    drains := List.forall_mem_nil _
    dropped := List.forall_mem_nil _ }
  threadIds := List.nodup_nil
  threads := List.forall_mem_nil _

end Registry

end Stella.TurnStates
