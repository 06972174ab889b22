import Mathlib
import Stella.AgentActivity.Lifecycle
import Stella.Library.Fallible
import Stella.Library.Rows
import Stella.Library.Transition

/-! # Control receipts of cloud agents

`putCloudAgentThreadControl`: a receipt says how far an attempt of an agent's thread has come, and
receipts are delivered late, twice and in any order.
-/

namespace Stella.AgentControls

open AgentActivity (trim trim_trim)

inductive CloudAgentControlStatus
  | running | completed | failed | canceled
  deriving DecidableEq

structure ControlReceipt where
  threadId : String
  ownerGeneration : String
  cloudConversationId : String
  originConversationId : String
  attemptGeneration : Int
  threadUpdatedAt : Int
  status : CloudAgentControlStatus

structure CloudAgentThreadControlRecord extends ControlReceipt where
  createdAt : Int
  updatedAt : Int

abbrev ThreadKey := String × String

def CloudAgentThreadControlRecord.key (row : CloudAgentThreadControlRecord) : ThreadKey := (row.threadId, row.ownerGeneration)

abbrev Controls := List CloudAgentThreadControlRecord

abbrev Run := Fallible String Controls

/-- What `work` has written before it throws is rolled back. -/
def withImmediateTransaction {α : Type} (work : Run α) : Run α := fun controls =>
  match work controls with
  | (.ok result, controls') => (.ok result, controls')
  | (.error error, _) => (.error error, controls)

def getCloudAgentThreadControl (threadIdInput ownerGenerationInput : String) (controls : Controls) :
    Option CloudAgentThreadControlRecord :=
  let threadId := trim threadIdInput
  let ownerGeneration := trim ownerGenerationInput
  if threadId = "" ∨ ownerGeneration = "" then none
  else Rows.lookup CloudAgentThreadControlRecord.key controls (threadId, ownerGeneration)

/-- `INSERT … ON CONFLICT(thread_id, owner_generation) DO UPDATE`. -/
def writeControl (row : CloudAgentThreadControlRecord) (controls : Controls) : Controls :=
  if (Rows.lookup CloudAgentThreadControlRecord.key controls row.key).isSome then
    Rows.modify CloudAgentThreadControlRecord.key controls row.key fun existing =>
      { existing with
        attemptGeneration := row.attemptGeneration
        threadUpdatedAt := row.threadUpdatedAt
        status := row.status
        updatedAt := row.updatedAt }
  else controls ++ [row]

def isSafeInteger (value : Int) : Bool := -Json.maxSafeInteger ≤ value && value ≤ Json.maxSafeInteger

def ControlReceipt.trimmed (record : ControlReceipt) : ControlReceipt :=
  { record with
    threadId := trim record.threadId
    ownerGeneration := trim record.ownerGeneration
    cloudConversationId := trim record.cloudConversationId
    originConversationId := trim record.originConversationId }

def ControlReceipt.isValid (record : ControlReceipt) : Bool :=
  record.trimmed.threadId ≠ "" && record.trimmed.ownerGeneration ≠ "" && record.trimmed.cloudConversationId ≠ "" &&
    record.trimmed.originConversationId ≠ "" && isSafeInteger record.attemptGeneration && 1 ≤ record.attemptGeneration &&
    isSafeInteger record.threadUpdatedAt && 0 ≤ record.threadUpdatedAt

def replaces (record : ControlReceipt) (existing : CloudAgentThreadControlRecord) : Except String Bool :=
  if existing.attemptGeneration < record.attemptGeneration then .ok true
  else if record.attemptGeneration < existing.attemptGeneration then .ok false
  else if record.status = existing.status then .ok (existing.threadUpdatedAt ≤ record.threadUpdatedAt)
  else if existing.status = .running ∧ record.status ≠ .running then .ok true
  else if existing.status ≠ .running ∧ record.status = .running then .ok false
  else .error "Cloud agent control receipt has conflicting terminal states."

def mergeControl (record : ControlReceipt) (row : CloudAgentThreadControlRecord) : Run CloudAgentThreadControlRecord := do
  let controls ← Fallible.get
  let existing := getCloudAgentThreadControl row.threadId row.ownerGeneration controls
  if existing.any fun existing =>
      existing.cloudConversationId ≠ row.cloudConversationId || existing.originConversationId ≠ row.originConversationId then
    Fallible.throw "Cloud agent control receipt cannot be rebound to another conversation."
  else
    let replace ← Fallible.answered (match existing with
      | none => .ok true
      | some existing => replaces record existing)
    Fallible.modify (if replace then writeControl row else id)
    let stored ← Fallible.get
    match getCloudAgentThreadControl row.threadId row.ownerGeneration stored with
    | none => Fallible.throw "Cloud agent control receipt was not stored."
    | some stored => pure stored

def ControlReceipt.row (record : ControlReceipt) (now : Int) : CloudAgentThreadControlRecord :=
  { record.trimmed with createdAt := now, updatedAt := now }

def putCloudAgentThreadControl (now : Int) (record : ControlReceipt) : Run CloudAgentThreadControlRecord :=
  if ¬ record.isValid then Fallible.throw "Invalid cloud agent control receipt."
  else withImmediateTransaction (mergeControl record (record.row now))

variable {controls : Controls} {now : Int} {record : ControlReceipt}

/-! ## One receipt -/

def overwritten (row : CloudAgentThreadControlRecord) : Option CloudAgentThreadControlRecord → CloudAgentThreadControlRecord
  | none => row
  | some existing => { existing with
      attemptGeneration := row.attemptGeneration
      threadUpdatedAt := row.threadUpdatedAt
      status := row.status
      updatedAt := row.updatedAt }

theorem lookup_writeControl (row : CloudAgentThreadControlRecord) (controls : Controls) (key : ThreadKey) :
    Rows.lookup CloudAgentThreadControlRecord.key (writeControl row controls) key =
      if key = row.key then some (overwritten row (Rows.lookup CloudAgentThreadControlRecord.key controls key))
      else Rows.lookup CloudAgentThreadControlRecord.key controls key := by
  unfold writeControl
  split
  · next hThere =>
    have hKey : ∀ existing : CloudAgentThreadControlRecord, (overwritten row (some existing)).key = existing.key := fun _ => rfl
    change Rows.lookup _ (Rows.modify _ controls row.key fun existing => overwritten row (some existing)) key = _
    rw [Rows.lookup_modify hKey]
    split
    · next hEq =>
      obtain ⟨existing, hExist⟩ := Option.isSome_iff_exists.mp hThere
      rw [hEq, hExist]
      rfl
    · exact Option.map_id'
  · next hNone =>
    rw [Option.not_isSome_iff_eq_none] at hNone
    rw [Rows.lookup_append]
    split
    · next hEq =>
      rw [hEq, hNone, Option.none_or]
      simp [Rows.lookup, overwritten]
    · next hOther => simp [Rows.lookup, Ne.symm hOther]

theorem getCloudAgentThreadControl_row (hValid : record.isValid = true) (now : Int) (controls : Controls) :
    getCloudAgentThreadControl (record.row now).threadId (record.row now).ownerGeneration controls =
      Rows.lookup CloudAgentThreadControlRecord.key controls (record.row now).key := by
  have hTexts : record.trimmed.threadId ≠ "" ∧ record.trimmed.ownerGeneration ≠ "" := by
    simp only [ControlReceipt.isValid, Bool.and_eq_true, decide_eq_true_eq] at hValid
    exact ⟨hValid.1.1.1.1.1.1.1, hValid.1.1.1.1.1.1.2⟩
  have hThr : trim (record.row now).threadId = record.trimmed.threadId := trim_trim _
  have hGen : trim (record.row now).ownerGeneration = record.trimmed.ownerGeneration := trim_trim _
  unfold getCloudAgentThreadControl
  dsimp only
  rw [hThr, hGen, if_neg (not_or.mpr hTexts)]
  rfl

def Bound (row existing : CloudAgentThreadControlRecord) : Prop :=
  existing.cloudConversationId = row.cloudConversationId ∧ existing.originConversationId = row.originConversationId

theorem put_cases (now : Int) (record : ControlReceipt) (controls : Controls) {stored : Option CloudAgentThreadControlRecord}
    (hStored : Rows.lookup CloudAgentThreadControlRecord.key controls (record.row now).key = stored) :
    (∃ message, putCloudAgentThreadControl now record controls = (.error message, controls) ∧
      (record.isValid = false ∨ ∃ existing, stored = some existing ∧
        (¬ Bound (record.row now) existing ∨ ∃ message, replaces record existing = .error message))) ∨
    (∃ existing, stored = some existing ∧ Bound (record.row now) existing ∧ replaces record existing = .ok false ∧
      putCloudAgentThreadControl now record controls = (.ok existing, controls)) ∨
    ((∀ existing, stored = some existing → Bound (record.row now) existing ∧ replaces record existing = .ok true) ∧
      putCloudAgentThreadControl now record controls =
        (.ok (overwritten (record.row now) stored), writeControl (record.row now) controls)) := by
  unfold putCloudAgentThreadControl
  by_cases hValid : record.isValid = true
  swap
  · rw [if_pos hValid]
    exact .inl ⟨_, rfl, .inl (Bool.not_eq_true _ ▸ hValid)⟩
  rw [if_neg (not_not.mpr hValid)]
  have hGet := getCloudAgentThreadControl_row hValid now
  have hWritten : Rows.lookup CloudAgentThreadControlRecord.key (writeControl (record.row now) controls) (record.row now).key =
      some (overwritten (record.row now) stored) := by
    rw [lookup_writeControl, if_pos rfl, hStored]
  unfold withImmediateTransaction mergeControl
  simp only [Fallible.bind_run, Fallible.get_run, hGet, hStored]
  cases stored with
  | none =>
    refine .inr (.inr ⟨fun existing hNone => (by cases hNone), ?_⟩)
    simp [hWritten]
  | some existing =>
    by_cases hBound : Bound (record.row now) existing
    · have hEq : (existing.cloudConversationId ≠ (record.row now).cloudConversationId ||
          existing.originConversationId ≠ (record.row now).originConversationId) = false := by simp [hBound.1, hBound.2]
      rw [Option.any_some, hEq, if_neg Bool.false_ne_true]
      cases hReplaces : replaces record existing with
      | error message => exact .inl ⟨message, by simp [hReplaces], .inr ⟨existing, rfl, .inr ⟨message, hReplaces⟩⟩⟩
      | ok replace =>
        cases replace with
        | false => exact .inr (.inl ⟨existing, rfl, hBound, hReplaces, by simp [hReplaces, hStored]⟩)
        | true =>
          refine .inr (.inr ⟨fun other hOther => ?_, by simp [hReplaces, hWritten]⟩)
          obtain rfl := Option.some.inj hOther
          exact ⟨hBound, hReplaces⟩
    · have hOther : (existing.cloudConversationId ≠ (record.row now).cloudConversationId ||
          existing.originConversationId ≠ (record.row now).originConversationId) = true := by
        rw [Bool.or_eq_true, decide_eq_true_eq, decide_eq_true_eq]
        exact not_and_or.mp hBound
      rw [Option.any_some, hOther, if_pos rfl]
      exact .inl ⟨_, rfl, .inr ⟨existing, rfl, .inl hBound⟩⟩

/-! ## The order of receipts -/

structure Merged where
  attemptGeneration : Int
  status : CloudAgentControlStatus
  threadUpdatedAt : Int

def ControlReceipt.merged (record : ControlReceipt) : Merged := ⟨record.attemptGeneration, record.status, record.threadUpdatedAt⟩

def ControlReceipt.terminal (record : ControlReceipt) : Bool := record.status ≠ .running

def ControlReceipt.rank (record : ControlReceipt) : ℤ ×ₗ Bool := toLex (record.attemptGeneration, record.terminal)

def ControlReceipt.order (record : ControlReceipt) : (ℤ ×ₗ Bool) ×ₗ ℤ := toLex (record.rank, record.threadUpdatedAt)

variable {a b : ControlReceipt}

theorem rank_le_of_order (h : a.order ≤ b.order) : a.rank ≤ b.rank := by
  obtain hLess | ⟨hEq, -⟩ := Prod.Lex.toLex_le_toLex.mp h
  · exact hLess.le
  · exact hEq.le

theorem rank_eq_iff :
    a.rank = b.rank ↔ a.attemptGeneration = b.attemptGeneration ∧ a.terminal = b.terminal := by
  unfold ControlReceipt.rank
  rw [toLex_inj, Prod.mk.injEq]

variable {existing : CloudAgentThreadControlRecord}

theorem order_of_replaces {replace : Bool} (h : replaces record existing = .ok replace) :
    if replace then existing.order ≤ record.order else record.order < existing.order := by
  unfold replaces at h
  unfold ControlReceipt.order
  split at h
  · next hLater =>
    obtain rfl := Except.ok.inj h
    exact Prod.Lex.toLex_le_toLex.mpr (.inl (Prod.Lex.toLex_lt_toLex.mpr (.inl hLater)))
  · next hNotLater =>
    split at h
    · next hEarlier =>
      obtain rfl := Except.ok.inj h
      exact Prod.Lex.toLex_lt_toLex.mpr (.inl (Prod.Lex.toLex_lt_toLex.mpr (.inl hEarlier)))
    · next hNotEarlier =>
      have hGen : record.attemptGeneration = existing.attemptGeneration := by omega
      split at h
      · next hStat =>
        have hRank : record.rank = existing.rank := by
          rw [rank_eq_iff]
          exact ⟨hGen, by rw [ControlReceipt.terminal, hStat, ControlReceipt.terminal]⟩
        obtain rfl := Except.ok.inj h
        by_cases hTime : existing.threadUpdatedAt ≤ record.threadUpdatedAt
        · rw [if_pos (decide_eq_true hTime)]
          exact Prod.Lex.toLex_le_toLex.mpr (.inr ⟨hRank.symm, hTime⟩)
        · rw [if_neg (by simpa using hTime)]
          exact Prod.Lex.toLex_lt_toLex.mpr (.inr ⟨hRank, not_le.mp hTime⟩)
      · split at h
        · next hEnds =>
          obtain rfl := Except.ok.inj h
          have hUp : existing.terminal < record.terminal := by
            simp [ControlReceipt.terminal, hEnds.1, hEnds.2]
          exact Prod.Lex.toLex_le_toLex.mpr (.inl (Prod.Lex.toLex_lt_toLex.mpr (.inr ⟨hGen.symm, hUp⟩)))
        · split at h
          · next hBack =>
            obtain rfl := Except.ok.inj h
            have hDown : record.terminal < existing.terminal := by
              simp [ControlReceipt.terminal, hBack.1, hBack.2]
            exact Prod.Lex.toLex_lt_toLex.mpr (.inl (Prod.Lex.toLex_lt_toLex.mpr (.inr ⟨hGen, hDown⟩)))
          · cases h

theorem conflict_of_replaces {message : String} (h : replaces record existing = .error message) :
    record.attemptGeneration = existing.attemptGeneration ∧ record.status ≠ .running ∧ existing.status ≠ .running ∧
      record.status ≠ existing.status := by
  unfold replaces at h
  split at h
  · cases h
  · next hNotLater =>
    split at h
    · cases h
    · next hNotEarlier =>
      split at h
      · cases h
      · next hStat =>
        split at h
        · cases h
        · next hEnds =>
          split at h
          · cases h
          · next hBack =>
            have hGen : record.attemptGeneration = existing.attemptGeneration := by omega
            by_cases hRuns : existing.status = .running
            · by_cases hToo : record.status = .running
              · exact absurd (hToo.trans hRuns.symm) hStat
              · exact absurd ⟨hRuns, hToo⟩ hEnds
            · by_cases hToo : record.status = .running
              · exact absurd ⟨hRuns, hToo⟩ hBack
              · exact ⟨hGen, hToo, hRuns, hStat⟩

/-! ## Deliveries -/

def deliver (controls : Controls) (deliveries : List (Int × ControlReceipt)) : Controls :=
  Transition.run (fun controls delivery => (putCloudAgentThreadControl delivery.1 delivery.2 controls).2) controls deliveries

def Controls.of (controls : Controls) (key : ThreadKey) : Option CloudAgentThreadControlRecord :=
  Rows.lookup CloudAgentThreadControlRecord.key controls key

/-- The receipts are valid and of one thread with its conversations, and no attempt has two terminal states. -/
structure Agreeing (key : ThreadKey) (cloudConversationId originConversationId : String) (receipts : Set ControlReceipt) : Prop where
  valid : ∀ r ∈ receipts, r.isValid = true
  own : ∀ r ∈ receipts, (r.trimmed.threadId, r.trimmed.ownerGeneration) = key
  bound : ∀ r ∈ receipts, r.trimmed.cloudConversationId = cloudConversationId ∧ r.trimmed.originConversationId = originConversationId
  once : ∀ r ∈ receipts, ∀ r' ∈ receipts, r.attemptGeneration = r'.attemptGeneration → r.status ≠ .running → r'.status ≠ .running →
    r.status = r'.status

structure Greatest (cloudConversationId originConversationId : String) (receipts : Set ControlReceipt)
    (stored : Option CloudAgentThreadControlRecord) : Prop where
  absent : stored = none → receipts = ∅
  bound : ∀ row, stored = some row → row.cloudConversationId = cloudConversationId ∧ row.originConversationId = originConversationId
  least : ∀ row, stored = some row → ∃ r ∈ receipts, r.merged = row.merged
  upper : ∀ row, stored = some row → ∀ r ∈ receipts, r.order ≤ row.order

theorem order_eq_of_merged (h : a.merged = b.merged) : a.order = b.order := by
  obtain ⟨hGen, hStat, hTime⟩ := Merged.mk.inj h
  unfold ControlReceipt.order ControlReceipt.rank ControlReceipt.terminal
  rw [hGen, hStat, hTime]

variable {key : ThreadKey} {cloudConversationId originConversationId : String} {receipts seen : Set ControlReceipt}

section

variable (hAgree : Agreeing key cloudConversationId originConversationId receipts)
include hAgree

theorem Greatest.put (hSeen : seen ⊆ receipts)
    (hRec : record ∈ receipts) (h : Greatest cloudConversationId originConversationId seen (controls.of key)) (now : Int) :
    Greatest cloudConversationId originConversationId (insert record seen)
      (Controls.of (putCloudAgentThreadControl now record controls).2 key) := by
  have hKey : (record.row now).key = key := hAgree.own record hRec
  have hBound := hAgree.bound record hRec
  have hAt : Rows.lookup CloudAgentThreadControlRecord.key controls (record.row now).key = controls.of key := by rw [hKey]; rfl
  obtain ⟨message, -, hRef⟩ | ⟨existing, hExist, -, hReplaces, hPut⟩ | ⟨hReplaces, hPut⟩ := put_cases now record controls hAt
  · exfalso
    obtain hInvalid | ⟨existing, hExist, hOther | ⟨message, hConflict⟩⟩ := hRef
    · rw [hAgree.valid record hRec] at hInvalid
      cases hInvalid
    · have hEq := h.bound existing hExist
      exact hOther ⟨hEq.1.trans hBound.1.symm, hEq.2.trans hBound.2.symm⟩
    · obtain ⟨hGen, hEnded, hEndedToo, hDiffer⟩ := conflict_of_replaces hConflict
      obtain ⟨r, hR, hMerged⟩ := h.least existing hExist
      obtain ⟨hRGeneration, hRStatus, -⟩ := Merged.mk.inj hMerged
      have hOnce := hAgree.once record hRec r (hSeen hR) (hGen.trans hRGeneration.symm) hEnded (hRStatus ▸ hEndedToo)
      exact hDiffer (hOnce.trans hRStatus)
  · have hBelow := order_of_replaces hReplaces
    rw [if_neg Bool.false_ne_true] at hBelow
    rw [hPut]
    refine ⟨fun hNone => ?_, h.bound, fun row hRow => ?_, fun row hRow r hR => ?_⟩
    · rw [hExist] at hNone
      cases hNone
    · obtain ⟨r, hR, hMerged⟩ := h.least row hRow
      exact ⟨r, Set.mem_insert_of_mem _ hR, hMerged⟩
    · obtain rfl | hOld := hR
      · obtain rfl := Option.some.inj (hExist.symm.trans hRow)
        exact hBelow.le
      · exact h.upper row hRow r hOld
  · have hNext : Controls.of (putCloudAgentThreadControl now record controls).2 key =
        some (overwritten (record.row now) (controls.of key)) := by
      rw [hPut]
      unfold Controls.of
      rw [lookup_writeControl, if_pos hKey.symm]
    have hMerged : ∀ stored, (overwritten (record.row now) stored).merged = record.merged := by
      intro stored
      cases stored <;> rfl
    rw [hNext]
    refine ⟨fun hNone => (by cases hNone), fun row hRow => ?_, fun row hRow => ?_, fun row hRow r hR => ?_⟩
    · obtain rfl := Option.some.inj hRow
      cases hStored : controls.of key with
      | none => exact hBound
      | some existing => exact h.bound existing hStored
    · obtain rfl := Option.some.inj hRow
      exact ⟨record, Set.mem_insert _ _, (hMerged _).symm⟩
    · obtain rfl := Option.some.inj hRow
      have hOrder : (overwritten (record.row now) (controls.of key)).order = record.order := order_eq_of_merged (hMerged _)
      rw [hOrder]
      obtain rfl | hOld := hR
      · exact le_rfl
      · cases hStored : controls.of key with
        | none =>
          rw [h.absent hStored] at hOld
          cases hOld
        | some existing =>
          have hAbove := order_of_replaces (hReplaces existing hStored).2
          rw [if_pos rfl] at hAbove
          exact (h.upper existing hStored r hOld).trans hAbove

theorem Greatest.deliver
    {deliveries : List (Int × ControlReceipt)} (hDeliveries : ∀ d ∈ deliveries, d.2 ∈ receipts) (hSeen : seen ⊆ receipts)
    (h : Greatest cloudConversationId originConversationId seen (controls.of key)) :
    Greatest cloudConversationId originConversationId (seen ∪ {r | ∃ d ∈ deliveries, d.2 = r})
      (Controls.of (AgentControls.deliver controls deliveries) key) := by
  induction deliveries generalizing controls seen with
  | nil =>
    have hEq : seen ∪ {r | ∃ d ∈ ([] : List (Int × ControlReceipt)), d.2 = r} = seen := by
      ext r
      simp
    rw [hEq]
    exact h
  | cons d deliveries ih =>
    have hFirst : d.2 ∈ receipts := hDeliveries d List.mem_cons_self
    have hNext := ih (fun d' hD' => hDeliveries d' (List.mem_cons_of_mem _ hD')) (Set.insert_subset hFirst hSeen)
      (h.put hAgree hSeen hFirst d.1)
    have hSet : insert d.2 seen ∪ {r | ∃ d ∈ deliveries, d.2 = r} = seen ∪ {r | ∃ d' ∈ d :: deliveries, d'.2 = r} := by
      ext r
      simp only [Set.mem_union, Set.mem_insert_iff, Set.mem_ofPred_eq, List.mem_cons, exists_eq_or_imp]
      rw [eq_comm (a := r)]
      tauto
    rw [hSet] at hNext
    exact hNext

theorem Greatest.merged_eq (hSeen : seen ⊆ receipts)
    {stored stored' : Option CloudAgentThreadControlRecord} (h : Greatest cloudConversationId originConversationId seen stored)
    (h' : Greatest cloudConversationId originConversationId seen stored') :
    stored.map (fun row => row.merged) = stored'.map (fun row => row.merged) := by
  cases stored with
  | none =>
    cases stored' with
    | none => rfl
    | some row =>
      obtain ⟨r, hR, -⟩ := h'.least row rfl
      rw [h.absent rfl] at hR
      cases hR
  | some row =>
    obtain ⟨r, hR, hMerged⟩ := h.least row rfl
    cases stored' with
    | none =>
      rw [h'.absent rfl] at hR
      cases hR
    | some row' =>
      obtain ⟨r', hR', hMerged'⟩ := h'.least row' rfl
      have hOrder : r.order = r'.order := by
        apply le_antisymm
        · exact (h'.upper row' rfl r hR).trans (order_eq_of_merged hMerged').ge
        · exact (h.upper row rfl r' hR').trans (order_eq_of_merged hMerged).ge
      obtain ⟨hRank, hTime⟩ := Prod.mk.inj (toLex_inj.mp hOrder)
      obtain ⟨hGen, hTerm⟩ := rank_eq_iff.mp hRank
      have hStat : r.status = r'.status := by
        by_cases hRuns : r.status = .running
        · have hToo : r'.status = .running := by
            simpa [ControlReceipt.terminal, hRuns] using hTerm
          rw [hRuns, hToo]
        · have hEnded : r'.status ≠ .running := by
            intro hToo
            exact hRuns (by simpa [ControlReceipt.terminal, hToo] using hTerm)
          exact hAgree.once r (hSeen hR) r' (hSeen hR') hGen hRuns hEnded
      have hEq : r.merged = r'.merged := by
        unfold ControlReceipt.merged
        rw [hGen, hStat, hTime]
      rw [Option.map_some, Option.map_some, ← hMerged, ← hMerged', hEq]

end

/-! ## Any receipts -/

def Controls.rank (controls : Controls) (key : ThreadKey) : WithBot (ℤ ×ₗ Bool) := (controls.of key).map (fun row => row.rank)

theorem rank_put (controls : Controls) (now : Int) (record : ControlReceipt) (key : ThreadKey) :
    controls.rank key ≤ Controls.rank (putCloudAgentThreadControl now record controls).2 key := by
  obtain ⟨message, hPut, -⟩ | ⟨existing, -, -, -, hPut⟩ | ⟨hReplaces, hPut⟩ := put_cases now record controls rfl
  · rw [hPut]
  · rw [hPut]
  · rw [hPut]
    unfold Controls.rank Controls.of
    rw [lookup_writeControl]
    split
    · next hEq =>
      rw [hEq]
      cases hStored : Rows.lookup CloudAgentThreadControlRecord.key controls (record.row now).key with
      | none => exact bot_le
      | some existing =>
        have hAbove := order_of_replaces (hReplaces existing hStored).2
        rw [if_pos rfl] at hAbove
        exact WithBot.coe_le_coe.mpr (rank_le_of_order hAbove)
    · exact le_rfl

theorem rank_deliver (controls : Controls) (deliveries : List (Int × ControlReceipt)) (key : ThreadKey) :
    controls.rank key ≤ (deliver controls deliveries).rank key := by
  induction deliveries generalizing controls with
  | nil => exact le_rfl
  | cons d deliveries ih => exact (rank_put controls d.1 d.2 key).trans (ih _)

/-- The receipts of a thread leave the same attempt, status and time in every order and with any repetitions; no delivery
lowers the rank, and a refused one changes nothing. -/
theorem merge_of_deliveries (hAgree : Agreeing key cloudConversationId originConversationId receipts)
    (hNew : controls.of key = none)
    {xs ys : List (Int × ControlReceipt)} (hXs : ∀ r, (∃ d ∈ xs, d.2 = r) ↔ r ∈ receipts)
    (hYs : ∀ r, (∃ d ∈ ys, d.2 = r) ↔ r ∈ receipts) :
    ((deliver controls xs).of key).map (fun row => row.merged) = ((deliver controls ys).of key).map (fun row => row.merged) ∧
    (∀ front back, (deliver controls front).rank key ≤ (deliver controls (front ++ back)).rank key) ∧
    ∀ (before : Controls) (now : Int) (record : ControlReceipt) (message : String),
      (putCloudAgentThreadControl now record before).1 = .error message →
      (putCloudAgentThreadControl now record before).2 = before := by
  have hStart : Greatest cloudConversationId originConversationId ∅ (controls.of key) := by
    rw [hNew]
    exact ⟨fun _ => rfl, fun _ hRow => (by cases hRow), fun _ hRow => (by cases hRow), fun _ hRow => (by cases hRow)⟩
  have hEnd : ∀ zs : List (Int × ControlReceipt), (∀ r, (∃ d ∈ zs, d.2 = r) ↔ r ∈ receipts) →
      Greatest cloudConversationId originConversationId receipts ((deliver controls zs).of key) := by
    intro zs hZs
    have hAll : ∅ ∪ {r | ∃ d ∈ zs, d.2 = r} = receipts := by
      ext r
      rw [Set.empty_union]
      exact hZs r
    rw [← hAll]
    exact hStart.deliver hAgree (fun d hD => (hZs d.2).mp ⟨d, hD, rfl⟩) (Set.empty_subset _)
  refine ⟨(hEnd xs hXs).merged_eq hAgree subset_rfl (hEnd ys hYs), fun front back => ?_, fun before now record message hRefused => ?_⟩
  · unfold deliver
    rw [Transition.run_append]
    exact rank_deliver _ back key
  · obtain ⟨message, hPut, -⟩ | ⟨existing, -, -, -, hPut⟩ | ⟨-, hPut⟩ := put_cases now record before rfl
    · rw [hPut]
    · rw [hPut] at hRefused
      cases hRefused
    · rw [hPut] at hRefused
      cases hRefused

def begun : ControlReceipt := ⟨"thread", "generation", "cloud", " origin", 1, 5, .running⟩
def ended : ControlReceipt := ⟨"thread ", "generation", "cloud", "origin", 1, 3, .completed⟩

theorem merge_of_deliveries_late : ((deliver [] [(7, begun), (8, ended)]).of ("thread", "generation")).map (fun row => row.merged) =
    ((deliver [] [(7, ended), (8, begun), (9, ended)]).of ("thread", "generation")).map (fun row => row.merged) := by
  have hReceipts : ∀ r, r ∈ ({begun, ended} : Set ControlReceipt) ↔ r = begun ∨ r = ended := fun r => Iff.rfl
  have hAgree : Agreeing ("thread", "generation") "cloud" "origin" {begun, ended} := by
    refine ⟨?_, ?_, ?_, ?_⟩
    · rintro r (rfl | rfl) <;> decide
    · rintro r (rfl | rfl) <;> decide
    · rintro r (rfl | rfl) <;> decide
    · rintro r (rfl | rfl) r' (rfl | rfl) <;> decide
  refine (merge_of_deliveries hAgree rfl ?_ ?_).1
  · intro r
    rw [hReceipts]
    simp [eq_comm]
  · intro r
    rw [hReceipts]
    simp only [List.mem_cons, List.not_mem_nil, or_false, exists_eq_or_imp, exists_eq_left]
    rw [eq_comm (a := ended), eq_comm (a := begun)]
    tauto

end Stella.AgentControls
