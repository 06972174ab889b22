import Stella.Gateway.Ledger
import Stella.Library.Transition
import Mathlib.Data.List.Nodup

/-! # Reservations and the executions they are granted to

A reservation is a row under a request id; the execution that it was granted to settles by that
id, whoever's row stands there by then.
-/

namespace Stella.Gateway

open Stella.Rows Stella.Transition

/-! ## The tables alone -/

def OwnerResultRow.unsettled (r : OwnerResultRow) : Bool := r.status ≤ 0

def heldIn (jti : String) (rows : List OwnerResultRow) : Nat :=
  ((rows.filter (fun r => r.jti = jti && r.unsettled)).map (fun r => r.reserved)).sum

def unsettledIn (jti : String) (rows : List OwnerResultRow) : Nat :=
  rows.countP (fun r => r.jti = jti && r.unsettled)

theorem heldIn_perm {jti : String} {rows rows' : List OwnerResultRow} (h : rows.Perm rows') :
    heldIn jti rows = heldIn jti rows' :=
  ((h.filter _).map _).sum_eq

theorem heldIn_cons (jti : String) (r : OwnerResultRow) (rows : List OwnerResultRow) :
    heldIn jti (r :: rows) = (if r.jti = jti ∧ r.unsettled = true then r.reserved else 0) + heldIn jti rows := by
  unfold heldIn
  rw [List.filter_cons]
  by_cases hIn : r.jti = jti ∧ r.unsettled = true
  · rw [if_pos hIn, if_pos (by simpa using hIn), List.map_cons, List.sum_cons]
  · rw [if_neg hIn, if_neg (by simpa using hIn), Nat.zero_add]

theorem unsettledIn_cons (jti : String) (r : OwnerResultRow) (rows : List OwnerResultRow) :
    unsettledIn jti (r :: rows) = unsettledIn jti rows + if r.jti = jti ∧ r.unsettled = true then 1 else 0 := by
  unfold unsettledIn
  rw [List.countP_cons]
  simp only [Bool.and_eq_true, decide_eq_true_eq]

theorem reserve_jti (estimate : Nat) (resumingAbandoned : Bool) (row : LedgerRow) :
    (row.reserve estimate resumingAbandoned).jti = row.jti := rfl

theorem settle_jti (reserved charged : Nat) (refundRequest : Bool) (row : LedgerRow) :
    (row.settle reserved charged refundRequest).jti = row.jti := rfl

def LedgerReserveArgs.result (args : LedgerReserveArgs) (now : Int) : OwnerResultRow :=
  ⟨⟨args.requestId, 0, none, clampMicroCents args.estimatedMicroCents, now⟩, args.jti⟩

structure OwnerLedgerStore.Balanced (s : OwnerLedgerStore) : Prop where
  jtis : (s.ledger.map LedgerRow.jti).Nodup
  keys : (s.results.map OwnerResultRow.key).Nodup
  owned : ∀ r ∈ s.results, r.jti ∈ s.ledger.map LedgerRow.jti
  forms : ∀ r ∈ s.results, (r.status = 0 ∧ r.body = none) ∨ (0 < r.status ∧ r.body.isSome = true)
  sums : ∀ row ∈ s.ledger, row.reserved = heldIn row.jti s.results

namespace OwnerLedgerStore

variable {s : OwnerLedgerStore}

variable {row : LedgerRow}

theorem Balanced.ledgerRow_mem (h : s.Balanced) (hRow : row ∈ s.ledger) :
    s.ledgerRow row.jti = some row := lookup_of_mem h.jtis hRow

theorem Balanced.ledgerRow_result (h : s.Balanced) {r : OwnerResultRow} (hMem : r ∈ s.results) :
    ∃ row, s.ledgerRow r.jti = some row := by
  obtain ⟨row, hRow, hJti⟩ := List.mem_map.mp (h.owned r hMem)
  exact ⟨row, hJti ▸ h.ledgerRow_mem hRow⟩

variable {jti requestId : String}

theorem result_key {r : OwnerResultRow} (h : s.result jti requestId = some r) :
    r.jti = jti ∧ r.requestId = requestId := by
  have hKey := lookup_key h
  exact ⟨congrArg Prod.fst hKey, congrArg Prod.snd hKey⟩

variable {f : LedgerRow → LedgerRow}

theorem mem_updateLedger
    (h : row ∈ (s.updateLedger jti f).ledger) : ∃ old ∈ s.ledger, row = if old.jti = jti then f old else old := by
  obtain ⟨old, hOld, rfl⟩ := List.mem_map.mp h
  exact ⟨old, hOld, rfl⟩

variable {existing : OwnerResultRow}

section

variable (h : s.Balanced)
include h

theorem Balanced.close
    (hRow : s.result jti requestId = some existing) (hOpen : existing.unsettled = true)
    (hJti : ∀ row, (f row).jti = row.jti) (hF : ∀ row, (f row).reserved = row.reserved - existing.reserved)
    {results : List OwnerResultRow} (hKeys : (results.map OwnerResultRow.key).Nodup)
    (hMem : ∀ r ∈ results, r ∈ s.results ∨
      r.jti ∈ s.ledger.map LedgerRow.jti ∧ 0 < r.status ∧ r.body.isSome = true)
    (hHeld : ∀ other, heldIn other results = heldIn other (erase OwnerResultRow.key s.results (jti, requestId))) :
    ({ s.updateLedger jti f with results } : OwnerLedgerStore).Balanced where
  jtis := by
    have hEq : (s.updateLedger jti f).ledger.map LedgerRow.jti = s.ledger.map LedgerRow.jti := map_key_modify hJti _ _
    rw [hEq]
    exact h.jtis
  keys := hKeys
  owned r hR := by
    have hEq : (s.updateLedger jti f).ledger.map LedgerRow.jti = s.ledger.map LedgerRow.jti := map_key_modify hJti _ _
    rw [hEq]
    obtain hOld | ⟨hOwned, -⟩ := hMem r hR
    · exact h.owned r hOld
    · exact hOwned
  forms r hR := by
    obtain hOld | ⟨-, hForm⟩ := hMem r hR
    · exact h.forms r hOld
    · exact .inr hForm
  sums row hR := by
    obtain ⟨old, hOld, rfl⟩ := mem_updateLedger hR
    have hOldSum := h.sums old hOld
    rw [heldIn_perm (perm_cons_erase h.keys hRow), heldIn_cons, (result_key hRow).1] at hOldSum
    by_cases hAt : old.jti = jti
    · rw [if_pos hAt, hJti, hF, hHeld, hOldSum, if_pos ⟨hAt.symm, hOpen⟩]
      exact Nat.add_sub_cancel_left _ _
    · rw [if_neg hAt, hHeld, hOldSum, if_neg fun hBoth => hAt hBoth.1.symm, Nat.zero_add]

theorem Balanced.delete
    (hRow : s.result jti requestId = some existing) (hOpen : existing.unsettled = true)
    (hJti : ∀ row, (f row).jti = row.jti) (hF : ∀ row, (f row).reserved = row.reserved - existing.reserved) :
    ((s.updateLedger jti f).deleteResult jti requestId).Balanced :=
  h.close hRow hOpen hJti hF ((List.filter_sublist.map _).nodup h.keys)
    (fun _ hR => .inl (List.mem_of_mem_filter hR)) fun _ => rfl

theorem Balanced.cache
    (hRow : s.result jti requestId = some existing) (hOpen : existing.unsettled = true)
    (hJti : ∀ row, (f row).jti = row.jti) (hF : ∀ row, (f row).reserved = row.reserved - existing.reserved)
    {result : Int × String} (hRes : 0 < result.1) :
    ((s.updateLedger jti f).cacheResult jti requestId result).Balanced := by
  refine h.close hRow hOpen hJti hF ?_ ?_ ?_
  · have hEq : (modify OwnerResultRow.key s.results (jti, requestId) (fun r => r.cache result)).map OwnerResultRow.key =
        s.results.map OwnerResultRow.key := map_key_modify (f := fun r : OwnerResultRow => r.cache result) (fun _ => rfl) _ _
    exact hEq ▸ h.keys
  · intro r hR
    obtain ⟨old, hOld, rfl⟩ := List.mem_map.mp hR
    by_cases hAt : old.key = (jti, requestId)
    · rw [if_pos hAt]
      exact .inr ⟨h.owned old hOld, hRes, rfl⟩
    · rw [if_neg hAt]
      exact .inl hOld
  · intro other
    have hPerm : (modify OwnerResultRow.key s.results (jti, requestId) (fun r => r.cache result)).Perm
        (existing.cache result :: erase OwnerResultRow.key s.results (jti, requestId)) := modify_perm h.keys hRow _
    refine (heldIn_perm hPerm).trans ?_
    rw [heldIn_cons, if_neg, Nat.zero_add]
    rintro ⟨-, hUnset⟩
    exact absurd (of_decide_eq_true hUnset) (Int.not_le.mpr hRes)

theorem Balanced.ensureRow (args : LedgerReserveArgs) : (s.ensureRow args).Balanced := by
  unfold OwnerLedgerStore.ensureRow
  cases hRow : s.ledgerRow args.jti with
  | some _ => exact h
  | none =>
    have hFresh : args.jti ∉ s.ledger.map LedgerRow.jti := by
      intro hMem
      obtain ⟨row, hIn, hJti⟩ := List.mem_map.mp hMem
      have hFound := h.ledgerRow_mem hIn
      rw [hJti, hRow] at hFound
      cases hFound
    dsimp only
    refine ⟨?_, h.keys, ?_, h.forms, ?_⟩
    · rw [List.map_append, List.nodup_append]
      refine ⟨h.jtis, List.pairwise_singleton _ _, fun a hA b hB hEq => hFresh ?_⟩
      obtain rfl : b = args.jti := List.mem_singleton.mp hB
      exact hEq ▸ hA
    · intro r hR
      rw [List.map_append]
      exact List.mem_append_left _ (h.owned r hR)
    · intro row hIn
      obtain hOld | hNew := List.mem_append.mp hIn
      · exact h.sums row hOld
      · obtain rfl := List.mem_singleton.mp hNew
        have hNone : s.results.filter (fun r => r.jti = args.jti && r.unsettled) = [] := by
          rw [List.filter_eq_nil_iff]
          intro r hR hBoth
          have hJti : r.jti = args.jti := of_decide_eq_true (Bool.and_eq_true_iff.mp hBoth).1
          exact hFresh (hJti ▸ h.owned r hR)
        exact (congrArg (fun rows => (List.map (fun r : OwnerResultRow => r.reserved) rows).sum) hNone).symm

end

theorem ensureRow_ledgerRow (s : OwnerLedgerStore) (args : LedgerReserveArgs) :
    (s.ensureRow args).ledgerRow args.jti = some ((s.ledgerRow args.jti).getD args.row) := by
  unfold OwnerLedgerStore.ensureRow
  cases hRow : s.ledgerRow args.jti with
  | some row => exact hRow
  | none =>
    unfold ledgerRow at hRow ⊢
    dsimp only
    rw [lookup_append, hRow]
    simp [lookup, LedgerReserveArgs.row]

theorem result_ensureRow (s : OwnerLedgerStore) (args : LedgerReserveArgs) : (s.ensureRow args).results = s.results := by
  unfold OwnerLedgerStore.ensureRow
  split <;> rfl

section

variable (h : s.Balanced)
include h

theorem Balanced.insert {args : LedgerReserveArgs} (now : Int) (hNone : s.result args.jti args.requestId = none)
    (hOwned : args.jti ∈ s.ledger.map LedgerRow.jti) (resumingAbandoned : Bool) :
    ((s.insertResult (args.result now)).updateLedger args.jti
      (fun r => r.reserve (clampMicroCents args.estimatedMicroCents) resumingAbandoned)).Balanced := by
  have hPerm : (s.results ++ [args.result now]).Perm (args.result now :: s.results) := List.perm_append_singleton _ _
  have hEq : ((s.insertResult (args.result now)).updateLedger args.jti
      (fun r => r.reserve (clampMicroCents args.estimatedMicroCents) resumingAbandoned)).ledger.map LedgerRow.jti =
        s.ledger.map LedgerRow.jti :=
    map_key_modify (f := fun r : LedgerRow => r.reserve (clampMicroCents args.estimatedMicroCents) resumingAbandoned)
      (fun _ => rfl) _ _
  refine ⟨hEq ▸ h.jtis, ?_, ?_, ?_, ?_⟩
  · refine (hPerm.map OwnerResultRow.key).nodup_iff.mpr (List.nodup_cons.mpr ⟨fun hMem => ?_, h.keys⟩)
    obtain ⟨r, hR, hKey⟩ := List.mem_map.mp hMem
    have hFound := lookup_of_mem h.keys hR
    rw [hKey] at hFound
    exact Option.some_ne_none r (hFound.symm.trans hNone)
  · intro r hR
    rw [hEq]
    obtain hOld | hNew := List.mem_append.mp hR
    · exact h.owned r hOld
    · obtain rfl := List.mem_singleton.mp hNew
      exact hOwned
  · intro r hR
    obtain hOld | hNew := List.mem_append.mp hR
    · exact h.forms r hOld
    · obtain rfl := List.mem_singleton.mp hNew
      exact .inl ⟨rfl, rfl⟩
  · intro row hRow
    obtain ⟨old, hOld, rfl⟩ := mem_updateLedger hRow
    have hHeld : ∀ jti, heldIn jti ((s.insertResult (args.result now)).results) =
        (if args.jti = jti then clampMicroCents args.estimatedMicroCents else 0) + heldIn jti s.results := by
      intro jti
      refine (heldIn_perm hPerm).trans ?_
      rw [heldIn_cons]
      by_cases hJti : args.jti = jti
      · rw [if_pos hJti, if_pos ⟨hJti, rfl⟩]
        rfl
      · rw [if_neg hJti, if_neg fun hBoth => hJti hBoth.1]
    have hSum := h.sums old hOld
    by_cases hAt : old.jti = args.jti
    · rw [if_pos hAt]
      have hNew := hHeld old.jti
      rw [if_pos hAt.symm, ← hSum, Nat.add_comm] at hNew
      exact hNew.symm
    · rw [if_neg hAt]
      have hNew := hHeld old.jti
      rw [if_neg (Ne.symm hAt), ← hSum, Nat.zero_add] at hNew
      exact hNew.symm

theorem Balanced.stays {now : Int} (hRow : row ∈ s.ledger) :
    row ∈ (s.alarm now).ledger ↔
      row.jti ∉ (s.ledger.filter (fun r => r.expiresAt ≤ now - gatewayResultCacheTtlMs)).map LedgerRow.jti := by
  constructor
  · intro hKept hDrop
    obtain ⟨other, hOther, hJti⟩ := List.mem_map.mp hDrop
    obtain ⟨hIn, hExp⟩ := List.mem_filter.mp hOther
    obtain rfl : other = row := List.inj_on_of_nodup_map h.jtis hIn hRow hJti
    have hNot := (List.mem_filter.mp hKept).2
    rw [hExp] at hNot
    cases hNot
  · intro hAway
    refine List.mem_filter.mpr ⟨hRow, ?_⟩
    rw [Bool.not_eq_true']
    exact Bool.eq_false_iff.mpr fun hExp => hAway (List.mem_map_of_mem (List.mem_filter.mpr ⟨hRow, hExp⟩))

theorem Balanced.results_alarm (now : Int) :
    (s.alarm now).results = s.results.filter (fun r => r.jti ∈ (s.alarm now).ledger.map LedgerRow.jti) := by
  refine List.filter_congr fun r hR => ?_
  obtain ⟨row, hRow, hJti⟩ := List.mem_map.mp (h.owned r hR)
  rw [← hJti, Bool.eq_iff_iff, decide_eq_true_iff, Bool.not_eq_true']
  constructor
  · intro hNot
    refine List.mem_map_of_mem ((h.stays hRow).mpr fun hDrop => ?_)
    rw [List.contains_iff_mem.mpr hDrop] at hNot
    cases hNot
  · intro hStays
    obtain ⟨other, hOther, hEq⟩ := List.mem_map.mp hStays
    obtain rfl : other = row := List.inj_on_of_nodup_map h.jtis (List.mem_of_mem_filter hOther) hRow hEq
    exact Bool.eq_false_iff.mpr fun hDrop => (h.stays hRow).mp hOther (List.contains_iff_mem.mp hDrop)

theorem Balanced.alarm (now : Int) : (s.alarm now).Balanced := by
  refine ⟨(List.filter_sublist.map _).nodup h.jtis, (List.filter_sublist.map _).nodup h.keys, ?_,
    fun r hR => h.forms r (List.mem_of_mem_filter hR), ?_⟩
  · intro r hR
    rw [h.results_alarm] at hR
    exact of_decide_eq_true (List.mem_filter.mp hR).2
  · intro row hRow
    have hEq : (s.alarm now).results.filter (fun r => r.jti = row.jti && r.unsettled) =
        s.results.filter (fun r => r.jti = row.jti && r.unsettled) := by
      rw [h.results_alarm, List.filter_filter]
      refine List.filter_congr fun r _ => ?_
      by_cases hJti : r.jti = row.jti
      · rw [hJti, decide_eq_true (List.mem_map_of_mem hRow), Bool.and_true]
      · simp [hJti]
    rw [h.sums row (List.mem_of_mem_filter hRow)]
    exact (congrArg (fun rows => (List.map (fun r : OwnerResultRow => r.reserved) rows).sum) hEq).symm

end

/-! ## What a call does -/

def requestsOf (s : OwnerLedgerStore) (jti : String) : Nat := ((s.ledgerRow jti).map LedgerRow.requests).getD 0

structure Clear (s : OwnerLedgerStore) (now : Int) (args : LedgerReserveArgs) (base : OwnerLedgerStore) (row : LedgerRow)
    (resumingAbandoned : Bool) : Prop where
  balanced : base.Balanced
  row : base.ledgerRow args.jti = some row
  results : base.results = erase OwnerResultRow.key s.results (args.jti, args.requestId)
  requests : ∀ jti, base.requestsOf jti = s.requestsOf jti
  rows : ∀ other ∈ base.ledger, other.requests = 0 ∨
    ∃ old ∈ s.ledger, old.requests = other.requests ∧ old.maxRequests = other.maxRequests
  resumes : resumingAbandoned = true → ∃ existing, s.result args.jti args.requestId = some existing ∧
    existing.unsettled = true ∧ inFlightAbandonAfterMs < now - existing.createdAt
  fresh : resumingAbandoned = false → s.result args.jti args.requestId = none

theorem result_erase {rows : List OwnerResultRow} (k : String × String) :
    lookup OwnerResultRow.key (erase OwnerResultRow.key rows k) k = none := by
  rw [lookup_erase, if_pos rfl]

theorem Balanced.ensureRow_eq (h : s.Balanced) {args : LedgerReserveArgs}
    (hRow : s.result args.jti args.requestId = some existing) : s.ensureRow args = s := by
  obtain ⟨row, hLedger⟩ := h.ledgerRow_result (lookup_mem hRow)
  rw [(result_key hRow).1] at hLedger
  unfold OwnerLedgerStore.ensureRow
  rw [hLedger]

theorem requestsOf_ensureRow (s : OwnerLedgerStore) (args : LedgerReserveArgs) (jti : String) :
    (s.ensureRow args).requestsOf jti = s.requestsOf jti := by
  unfold OwnerLedgerStore.ensureRow
  cases hRow : s.ledgerRow args.jti with
  | some row => rfl
  | none =>
    unfold requestsOf ledgerRow
    dsimp only
    rw [lookup_append]
    cases hOld : lookup LedgerRow.jti s.ledger jti with
    | some _ => rfl
    | none =>
      rw [Option.none_or]
      unfold lookup
      rw [List.find?_cons]
      split <;> rfl

theorem requestsOf_updateLedger (s : OwnerLedgerStore)
    (hJti : ∀ row, (f row).jti = row.jti) (hF : ∀ row, (f row).requests = row.requests) (other : String) :
    (s.updateLedger jti f).requestsOf other = s.requestsOf other := by
  unfold requestsOf ledgerRow updateLedger
  rw [lookup_modify hJti, Option.map_map]
  refine congrArg (fun o => Option.getD o 0) ?_
  cases lookup LedgerRow.jti s.ledger other with
  | none => rfl
  | some row =>
    rw [Option.map_some, Option.map_some, Function.comp_apply]
    split
    · rw [hF]
    · rfl

theorem requestsOf_updated (hRow : s.ledgerRow jti = some row)
    (hJti : ∀ row, (f row).jti = row.jti) : (s.updateLedger jti f).requestsOf jti = (f row).requests := by
  unfold ledgerRow at hRow
  unfold requestsOf ledgerRow updateLedger
  rw [lookup_modify hJti, hRow, Option.map_some, if_pos rfl]
  rfl

theorem requestsOf_other {other : String} (h : other ≠ jti)
    (hJti : ∀ row, (f row).jti = row.jti) : (s.updateLedger jti f).requestsOf other = s.requestsOf other := by
  unfold requestsOf ledgerRow updateLedger
  rw [lookup_modify hJti]
  cases lookup LedgerRow.jti s.ledger other with
  | none => rfl
  | some row => rw [Option.map_some, if_neg h]

theorem Balanced.reserveSync_cases (h : s.Balanced) (now : Int) (args : LedgerReserveArgs) :
    (∃ existing body, s.result args.jti args.requestId = some existing ∧ existing.body = some body ∧
      s.reserveSync now args = (s, .replay existing.status body)) ∨
    (∃ existing, s.result args.jti args.requestId = some existing ∧ existing.unsettled = true ∧
      s.reserveSync now args = (s, .inFlight)) ∨
    ∃ base row resumingAbandoned, s.Clear now args base row resumingAbandoned ∧
      s.reserveSync now args = base.grant row resumingAbandoned now args := by
  unfold reserveSync
  have hRes : (s.ensureRow args).result args.jti args.requestId = s.result args.jti args.requestId :=
    congrArg (fun rows => lookup OwnerResultRow.key rows (args.jti, args.requestId)) (result_ensureRow s args)
  dsimp only
  rw [hRes]
  cases hExist : s.result args.jti args.requestId with
  | none =>
    refine .inr (.inr ⟨_, _, _, ⟨h.ensureRow args, ensureRow_ledgerRow s args, ?_, requestsOf_ensureRow s args, ?_,
      fun hNo => absurd hNo Bool.false_ne_true, fun _ => hExist⟩, rfl⟩)
    · rw [result_ensureRow]
      refine (erase_eq_self fun r hR hKey => ?_).symm
      have hFound := lookup_of_mem h.keys hR
      rw [hKey] at hFound
      exact Option.some_ne_none r (hFound.symm.trans hExist)
    · intro other hOther
      unfold OwnerLedgerStore.ensureRow at hOther
      split at hOther
      · exact .inr ⟨other, hOther, rfl, rfl⟩
      · obtain hOld | hNew := List.mem_append.mp hOther
        · exact .inr ⟨other, hOld, rfl, rfl⟩
        · obtain rfl := List.mem_singleton.mp hNew
          exact .inl rfl
  | some existing =>
    rw [h.ensureRow_eq hExist]
    dsimp only
    obtain ⟨hStat, hBody⟩ | ⟨hStat, hBody⟩ := h.forms existing (lookup_mem hExist)
    · rw [hBody, Option.filter_none]
      dsimp only
      have hOpen : existing.unsettled = true := decide_eq_true (Int.le_of_eq hStat)
      by_cases hYoung : now - existing.createdAt ≤ inFlightAbandonAfterMs
      · exact .inr (.inl ⟨existing, rfl, hOpen, by rw [if_pos hYoung]⟩)
      · rw [if_neg hYoung]
        obtain ⟨row, hLedger⟩ := h.ledgerRow_result (lookup_mem hExist)
        rw [(result_key hExist).1] at hLedger
        have hReleased : ((s.updateLedger args.jti (fun r => r.release existing.reserved)).deleteResult args.jti
            args.requestId).ledgerRow args.jti = some (row.release existing.reserved) := by
          unfold ledgerRow at hLedger ⊢
          unfold deleteResult updateLedger
          dsimp only
          rw [lookup_modify (f := fun r : LedgerRow => r.release existing.reserved) (fun _ => rfl), hLedger, Option.map_some,
            if_pos rfl]
        refine .inr (.inr ⟨_, row.release existing.reserved, true,
          ⟨h.delete hExist hOpen (f := fun r : LedgerRow => r.release existing.reserved) (fun _ => rfl) fun _ => rfl,
            hReleased, rfl, ?_, ?_, fun _ => ⟨existing, hExist, hOpen, Int.not_le.mp hYoung⟩,
            fun hNo => absurd hNo.symm Bool.false_ne_true⟩, ?_⟩)
        · exact requestsOf_updateLedger s (f := fun r : LedgerRow => r.release existing.reserved) (fun _ => rfl) fun _ => rfl
        · intro other hOther
          obtain ⟨old, hOld, rfl⟩ := mem_updateLedger hOther
          refine .inr ⟨old, hOld, ?_⟩
          split <;> exact ⟨rfl, rfl⟩
        · rw [hReleased, Option.getD_some]
    · obtain ⟨body, hSome⟩ := Option.isSome_iff_exists.mp hBody
      rw [hSome, Option.filter_some, if_pos (decide_eq_true hStat)]
      exact .inl ⟨existing, body, rfl, hSome, rfl⟩

structure Settled (s : OwnerLedgerStore) (jti : String) (args : LedgerSettleArgs) (pending : OwnerResultRow)
    (s' : OwnerLedgerStore) : Prop where
  balanced : s'.Balanced
  ledger : s'.ledger = (s.updateLedger jti
    (fun r => r.settle pending.reserved (clampMicroCents args.chargedMicroCents) args.refundRequest)).ledger
  unsettled : (s'.results.filter OwnerResultRow.unsettled).Perm
    ((erase OwnerResultRow.key s.results (jti, args.requestId)).filter OwnerResultRow.unsettled)
  others : ∀ r ∈ s.results, r.key ≠ (jti, args.requestId) → r ∈ s'.results
  cached : ∀ result ∈ args.cacheable, ∃ r ∈ s'.results, r.key = (jti, args.requestId) ∧ r.status = result.1 ∧
    r.body = some result.2

theorem Balanced.settle_cases (h : s.Balanced) (jti : String) (args : LedgerSettleArgs) :
    (∃ pending, s.result jti args.requestId = some pending ∧ pending.unsettled = true ∧
      (s.settle jti args).2.ok = true ∧ (s.settle jti args).2.cached = args.cacheable.isSome ∧
      s.Settled jti args pending (s.settle jti args).1) ∨
    ((∀ pending ∈ s.result jti args.requestId, pending.unsettled = false) ∧
      (s.settle jti args).1 = s ∧ (s.settle jti args).2.ok = false ∧ (s.settle jti args).2.cached = false) := by
  unfold settle
  cases hPend : s.result jti args.requestId with
  | none =>
    refine .inr ⟨fun _ hNone => absurd hNone (Option.not_mem_none _), ?_⟩
    rw [Option.filter_none]
    cases s.ledgerRow jti <;> exact ⟨rfl, rfl, rfl⟩
  | some pending =>
    by_cases hOpen : pending.unsettled = true
    · obtain ⟨row, hLedger⟩ := h.ledgerRow_result (lookup_mem hPend)
      rw [(result_key hPend).1] at hLedger
      have hStat : decide (pending.status ≤ 0) = true := hOpen
      rw [hLedger, Option.filter_some, if_pos hStat]
      dsimp only
      refine .inl ⟨pending, rfl, hOpen, rfl, rfl, ?_⟩
      cases hCache : args.cacheable with
      | none =>
        refine ⟨?_, rfl, List.Perm.refl _, ?_, fun result hNone => absurd hNone (by rw [hCache]; exact Option.not_mem_none _)⟩
        · exact h.delete hPend hOpen (f := fun r : LedgerRow => r.settle _ _ _) (fun _ => rfl) fun _ => rfl
        · exact fun r hR hKey => List.mem_filter.mpr ⟨hR, decide_eq_true hKey⟩
      | some result =>
        have hStat : 0 < result.1 := by
          have hBoth := (Option.filter_eq_some_iff.mp hCache).2
          exact of_decide_eq_true (Bool.and_eq_true_iff.mp hBoth).1
        have hPerm : (modify OwnerResultRow.key s.results (jti, args.requestId) (fun r => r.cache result)).Perm
            (pending.cache result :: erase OwnerResultRow.key s.results (jti, args.requestId)) :=
          modify_perm h.keys hPend _
        have hNot : ¬ (pending.cache result).unsettled = true := fun hUnset =>
          absurd (of_decide_eq_true hUnset) (Int.not_le.mpr hStat)
        refine ⟨?_, rfl, ?_, ?_, ?_⟩
        · exact h.cache hPend hOpen (f := fun r : LedgerRow => r.settle _ _ _) (fun _ => rfl) (fun _ => rfl) hStat
        · have hFiltered := hPerm.filter OwnerResultRow.unsettled
          rwa [List.filter_cons_of_neg hNot] at hFiltered
        · exact fun r hR hKey => hPerm.mem_iff.mpr
            (List.mem_cons_of_mem _ (List.mem_filter.mpr ⟨hR, decide_eq_true hKey⟩))
        · intro other hOther
          rw [hCache] at hOther
          obtain rfl := Option.some.inj hOther
          have hKey : pending.key = (jti, args.requestId) := lookup_key hPend
          exact ⟨pending.cache result, hPerm.mem_iff.mpr List.mem_cons_self, hKey, rfl, rfl⟩
    · refine .inr ⟨fun other hOther => ?_, ?_⟩
      · obtain rfl := Option.some.inj hOther
        exact Bool.eq_false_iff.mpr hOpen
      · have hStat : ¬ decide (pending.status ≤ 0) = true := hOpen
        rw [Option.filter_some, if_neg hStat]
        cases s.ledgerRow jti <;> exact ⟨rfl, rfl, rfl⟩

end OwnerLedgerStore

end Stella.Gateway
