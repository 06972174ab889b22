import Stella.Gateway.Ledger

/-! # The accounts of a shared ledger

What the owner's store holds under one `jti` is the ledger of that capability: every
statement on the shared tables is, for its own `jti`, the statement on the ledger's
own tables, and for any other it is none.
-/

namespace Stella.Gateway

open Stella.Rows

def OwnerLedgerStore.account (s : OwnerLedgerStore) (jti : String) : CapabilityLedger where
  ledger := s.ledger.filter (fun r => r.jti = jti)
  results := (s.results.filter (fun r => r.jti = jti)).map OwnerResultRow.toResultRow

namespace OwnerLedgerStore

variable {s : OwnerLedgerStore}

/-! ## Statement by statement -/

theorem account_ledgerRow (jti : String) : (s.account jti).ledgerRow = s.ledgerRow jti := List.head?_filter

variable {jti : String}

theorem mem_jti {r : OwnerResultRow} (h : r ∈ s.results.filter (fun r => r.jti = jti)) : r.jti = jti :=
  of_decide_eq_true (List.mem_filter.mp h).2

variable {requestId : String}

theorem key_iff {r : OwnerResultRow} (h : r ∈ s.results.filter (fun r => r.jti = jti)) :
    r.toResultRow.requestId = requestId ↔ r.key = (jti, requestId) := by
  have hJti := mem_jti h
  constructor
  · intro hId
    exact Prod.ext hJti hId
  · exact fun hKey => congrArg Prod.snd hKey

theorem account_result (jti requestId : String) :
    (s.account jti).result requestId = (s.result jti requestId).map OwnerResultRow.toResultRow := by
  have hFind : lookup OwnerResultRow.key (s.results.filter (fun r => r.jti = jti)) (jti, requestId) =
      s.result jti requestId := by
    unfold lookup result
    rw [List.find?_filter]
    refine congrArg (fun p => List.find? p s.results) (funext fun r => ?_)
    by_cases hKey : r.key = (jti, requestId)
    · have hJti : r.jti = jti := congrArg Prod.fst hKey
      simp [hKey, hJti]
    · simp [hKey]
  rw [← hFind]
  exact lookup_map fun r hr => key_iff hr

theorem account_updateLedger (f : LedgerRow → LedgerRow) (hF : ∀ r, (f r).jti = r.jti) (jti : String) :
    (s.updateLedger jti f).account jti = (s.account jti).updateLedger f := by
  have hLedger : (modify LedgerRow.jti s.ledger jti f).filter (fun r => r.jti = jti) =
      (s.ledger.filter (fun r => r.jti = jti)).map f := by
    rw [modify_filter fun r => by rw [hF]]
    exact modify_eq_map fun r hr => of_decide_eq_true (List.mem_filter.mp hr).2
  exact congrArg (fun rows => (⟨rows, _⟩ : CapabilityLedger)) hLedger

variable {other : String}

theorem account_updateLedger_other (f : LedgerRow → LedgerRow) (hF : ∀ r, (f r).jti = r.jti)
    (h : other ≠ jti) : (s.updateLedger jti f).account other = s.account other := by
  have hLedger : (modify LedgerRow.jti s.ledger jti f).filter (fun r => r.jti = other) =
      s.ledger.filter (fun r => r.jti = other) := by
    rw [modify_filter fun r => by rw [hF]]
    refine modify_eq_self fun r hr hAt => h ?_
    rw [← hAt]
    exact (of_decide_eq_true (List.mem_filter.mp hr).2).symm
  exact congrArg (fun rows => (⟨rows, _⟩ : CapabilityLedger)) hLedger

theorem account_deleteResult (jti requestId : String) :
    (s.deleteResult jti requestId).account jti = (s.account jti).deleteResult requestId := by
  have hResults : ((erase OwnerResultRow.key s.results (jti, requestId)).filter (fun r => r.jti = jti)).map
      OwnerResultRow.toResultRow = erase ResultRow.requestId (s.account jti).results requestId := by
    rw [erase_filter]
    exact map_erase fun r hr => key_iff hr
  exact congrArg (fun rows => (⟨_, rows⟩ : CapabilityLedger)) hResults

theorem account_deleteResult_other (h : other ≠ jti) :
    (s.deleteResult jti requestId).account other = s.account other := by
  have hResults : (erase OwnerResultRow.key s.results (jti, requestId)).filter (fun r => r.jti = other) =
      s.results.filter (fun r => r.jti = other) := by
    rw [erase_filter]
    refine erase_eq_self fun r hr hAt => h ?_
    rw [← mem_jti hr]
    exact congrArg Prod.fst hAt
  exact congrArg (fun rows => (⟨_, List.map OwnerResultRow.toResultRow rows⟩ : CapabilityLedger)) hResults

theorem account_insertResult (row : OwnerResultRow) :
    (s.insertResult row).account row.jti = (s.account row.jti).insertResult row.toResultRow := by
  have hResults : ((s.results ++ [row]).filter (fun r => r.jti = row.jti)).map OwnerResultRow.toResultRow =
      (s.account row.jti).results ++ [row.toResultRow] := by
    rw [List.filter_append, List.filter_cons_of_pos (by simp), List.filter_nil, List.map_append]
    rfl
  exact congrArg (fun rows => (⟨_, rows⟩ : CapabilityLedger)) hResults

theorem account_insertResult_other {row : OwnerResultRow} (h : other ≠ row.jti) :
    (s.insertResult row).account other = s.account other := by
  have hResults : (s.results ++ [row]).filter (fun r => r.jti = other) = s.results.filter (fun r => r.jti = other) := by
    rw [List.filter_append, List.filter_cons_of_neg (by simpa using Ne.symm h), List.filter_nil, List.append_nil]
  exact congrArg (fun rows => (⟨_, List.map OwnerResultRow.toResultRow rows⟩ : CapabilityLedger)) hResults

theorem account_ensureRow (args : LedgerReserveArgs) :
    (s.ensureRow args).account args.jti = (s.account args.jti).ensureRow args := by
  unfold ensureRow CapabilityLedger.ensureRow
  rw [account_ledgerRow]
  cases s.ledgerRow args.jti with
  | some _ => rfl
  | none =>
    have hLedger : (s.ledger ++ [args.row]).filter (fun r => r.jti = args.jti) =
        (s.account args.jti).ledger ++ [args.row] := by
      rw [List.filter_append, List.filter_cons_of_pos (by simp [LedgerReserveArgs.row]), List.filter_nil]
      rfl
    exact congrArg (fun rows => (⟨rows, _⟩ : CapabilityLedger)) hLedger

variable {args : LedgerReserveArgs}

theorem account_ensureRow_other (h : other ≠ args.jti) :
    (s.ensureRow args).account other = s.account other := by
  unfold ensureRow
  cases s.ledgerRow args.jti with
  | some _ => rfl
  | none =>
    have hLedger : (s.ledger ++ [args.row]).filter (fun r => r.jti = other) = s.ledger.filter (fun r => r.jti = other) := by
      rw [List.filter_append, List.filter_cons_of_neg (by simp [LedgerReserveArgs.row, Ne.symm h]), List.filter_nil,
        List.append_nil]
    exact congrArg (fun rows => (⟨rows, _⟩ : CapabilityLedger)) hLedger

theorem account_cache (jti requestId : String) (result : Int × String) :
    (s.cacheResult jti requestId result).account jti = (s.account jti).cacheResult requestId result := by
  have hJti : ∀ r : OwnerResultRow, decide ((r.cache result).jti = jti) = decide (r.jti = jti) := fun _ => rfl
  have hResults : ((modify OwnerResultRow.key s.results (jti, requestId) (fun r => r.cache result)).filter
      (fun r => r.jti = jti)).map OwnerResultRow.toResultRow =
        modify ResultRow.requestId (s.account jti).results requestId (fun r => r.cache result) := by
    rw [modify_filter hJti]
    exact map_modify (fun r hr => key_iff hr) fun _ => rfl
  exact congrArg (fun rows => (⟨_, rows⟩ : CapabilityLedger)) hResults

theorem account_cache_other (h : other ≠ jti) (result : Int × String) :
    (s.cacheResult jti requestId result).account other = s.account other := by
  have hJti : ∀ r : OwnerResultRow, decide ((r.cache result).jti = other) = decide (r.jti = other) := fun _ => rfl
  have hResults : (modify OwnerResultRow.key s.results (jti, requestId) (fun r => r.cache result)).filter
      (fun r => r.jti = other) = s.results.filter (fun r => r.jti = other) := by
    rw [modify_filter hJti]
    refine modify_eq_self fun r hr hAt => h ?_
    rw [← mem_jti hr]
    exact congrArg Prod.fst hAt
  exact congrArg (fun rows => (⟨_, List.map OwnerResultRow.toResultRow rows⟩ : CapabilityLedger)) hResults

/-! ## Call by call -/

theorem account_grant (row : LedgerRow) (resumingAbandoned : Bool) (now : Int) (args : LedgerReserveArgs) :
    ((s.grant row resumingAbandoned now args).1.account args.jti, (s.grant row resumingAbandoned now args).2) =
      (s.account args.jti).grant row resumingAbandoned now args := by
  unfold grant CapabilityLedger.grant
  dsimp only
  cases row.refusal resumingAbandoned (clampMicroCents args.estimatedMicroCents) with
  | some refusal => rfl
  | none =>
    refine Prod.ext ?_ rfl
    dsimp only
    rw [account_updateLedger (fun r => r.reserve _ resumingAbandoned) fun _ => rfl]
    exact congrArg (CapabilityLedger.updateLedger · _) (account_insertResult ⟨_, args.jti⟩)

theorem account_grant_other {row : LedgerRow} {resumingAbandoned : Bool} {now : Int} (h : other ≠ args.jti) :
    (s.grant row resumingAbandoned now args).1.account other = s.account other := by
  unfold grant
  dsimp only
  cases row.refusal resumingAbandoned (clampMicroCents args.estimatedMicroCents) with
  | some refusal => rfl
  | none =>
    dsimp only
    rw [account_updateLedger_other (fun r => r.reserve _ resumingAbandoned) (fun _ => rfl) h, account_insertResult_other h]

theorem account_reserveSync (now : Int) (args : LedgerReserveArgs) :
    ((s.reserveSync now args).1.account args.jti, (s.reserveSync now args).2) =
      (s.account args.jti).reserve now args := by
  unfold reserveSync CapabilityLedger.reserve
  dsimp only
  rw [← account_ensureRow, account_ledgerRow, account_result]
  cases (s.ensureRow args).result args.jti args.requestId with
  | none => exact account_grant _ _ _ _
  | some existing =>
    dsimp only [Option.map_some]
    cases existing.body.filter (fun _ => 0 < existing.status) with
    | some body => rfl
    | none =>
      dsimp only
      by_cases hYoung : now - existing.createdAt ≤ inFlightAbandonAfterMs
      · rw [if_pos hYoung, if_pos hYoung]
      · rw [if_neg hYoung, if_neg hYoung, ← account_updateLedger (fun r => r.release existing.reserved) fun _ => rfl,
          ← account_deleteResult, account_ledgerRow]
        exact account_grant _ _ _ _

theorem account_reserveSync_other {now : Int} (h : other ≠ args.jti) :
    (s.reserveSync now args).1.account other = s.account other := by
  unfold reserveSync
  dsimp only
  cases (s.ensureRow args).result args.jti args.requestId with
  | none => rw [account_grant_other h, account_ensureRow_other h]
  | some existing =>
    dsimp only
    cases existing.body.filter (fun _ => 0 < existing.status) with
    | some body => exact account_ensureRow_other h
    | none =>
      dsimp only
      by_cases hYoung : now - existing.createdAt ≤ inFlightAbandonAfterMs
      · rw [if_pos hYoung, account_ensureRow_other h]
      · rw [if_neg hYoung, account_grant_other h, account_deleteResult_other h,
          account_updateLedger_other (fun r => r.release existing.reserved) (fun _ => rfl) h, account_ensureRow_other h]

theorem account_settle (jti : String) (args : LedgerSettleArgs) :
    ((s.settle jti args).1.account jti, (s.settle jti args).2) = (s.account jti).settle args := by
  unfold settle CapabilityLedger.settle
  rw [account_ledgerRow, account_result]
  cases s.ledgerRow jti with
  | none => rfl
  | some row =>
    cases s.result jti args.requestId with
    | none => rfl
    | some pending =>
      rw [Option.map_some]
      by_cases hOpen : pending.status ≤ 0
      · rw [Option.filter_some, Option.filter_some, if_pos (decide_eq_true hOpen), if_pos (decide_eq_true hOpen)]
        dsimp only
        rw [← account_updateLedger (fun r => r.settle pending.reserved (clampMicroCents args.chargedMicroCents) args.refundRequest)
          fun _ => rfl]
        cases args.cacheable with
        | some result =>
          dsimp only
          rw [← account_cache, account_ledgerRow]
        | none =>
          dsimp only
          rw [← account_deleteResult, account_ledgerRow]
      · rw [Option.filter_some, Option.filter_some, if_neg (by simpa using hOpen), if_neg (by simpa using hOpen)]

theorem account_settle_other (h : other ≠ jti) (args : LedgerSettleArgs) :
    (s.settle jti args).1.account other = s.account other := by
  unfold settle
  split
  · dsimp only
    cases args.cacheable with
    | some result => rw [account_cache_other h, account_updateLedger_other (fun r => r.settle _ _ _) (fun _ => rfl) h]
    | none => rw [account_deleteResult_other h, account_updateLedger_other (fun r => r.settle _ _ _) (fun _ => rfl) h]
  · rfl

end OwnerLedgerStore

/-! ## All the calls -/

inductive LedgerCall
  | reserve (now : Int) (args : LedgerReserveArgs)
  | settle (jti : String) (args : LedgerSettleArgs)

inductive LedgerAnswer
  | reserved (result : LedgerReserveResult)
  | settled (result : LedgerSettleResult)

def LedgerCall.jti : LedgerCall → String
  | .reserve _ args => args.jti
  | .settle jti _ => jti

def CapabilityLedger.call (l : CapabilityLedger) : LedgerCall → CapabilityLedger × LedgerAnswer
  | .reserve now args => ((l.reserve now args).1, .reserved (l.reserve now args).2)
  | .settle _ args => ((l.settle args).1, .settled (l.settle args).2)

def OwnerLedgerStore.call (s : OwnerLedgerStore) : LedgerCall → OwnerLedgerStore × LedgerAnswer
  | .reserve now args => ((s.reserveSync now args).1, .reserved (s.reserveSync now args).2)
  | .settle jti args => ((s.settle jti args).1, .settled (s.settle jti args).2)

def OwnerLedgerStore.answers (s : OwnerLedgerStore) : List LedgerCall → List LedgerAnswer
  | [] => []
  | call :: calls => (s.call call).2 :: OwnerLedgerStore.answers (s.call call).1 calls

def CapabilityLedger.answers (ledgers : String → CapabilityLedger) : List LedgerCall → List LedgerAnswer
  | [] => []
  | call :: calls =>
    ((ledgers call.jti).call call).2 ::
      CapabilityLedger.answers (Function.update ledgers call.jti ((ledgers call.jti).call call).1) calls

namespace OwnerLedgerStore

variable {s : OwnerLedgerStore}

theorem account_call (call : LedgerCall) :
    ((s.call call).1.account call.jti, (s.call call).2) = (s.account call.jti).call call := by
  cases call with
  | reserve now args =>
    have hBoth := account_reserveSync now args (s := s)
    have hStore : (s.reserveSync now args).1.account args.jti = ((s.account args.jti).reserve now args).1 :=
      congrArg Prod.fst hBoth
    have hAns : (s.reserveSync now args).2 = ((s.account args.jti).reserve now args).2 := congrArg Prod.snd hBoth
    exact Prod.ext hStore (congrArg LedgerAnswer.reserved hAns)
  | settle jti args =>
    have hBoth := account_settle jti args (s := s)
    have hStore : (s.settle jti args).1.account jti = ((s.account jti).settle args).1 := congrArg Prod.fst hBoth
    have hAns : (s.settle jti args).2 = ((s.account jti).settle args).2 := congrArg Prod.snd hBoth
    exact Prod.ext hStore (congrArg LedgerAnswer.settled hAns)

theorem account_call_other {call : LedgerCall} {other : String} (h : other ≠ call.jti) :
    (s.call call).1.account other = s.account other := by
  cases call with
  | reserve now args => exact account_reserveSync_other h
  | settle jti args => exact account_settle_other h args

theorem accounts_call (call : LedgerCall) :
    (s.call call).1.account = Function.update s.account call.jti ((s.account call.jti).call call).1 := by
  funext jti
  by_cases hJti : jti = call.jti
  · subst hJti
    rw [Function.update_self]
    exact congrArg Prod.fst (account_call call)
  · rw [Function.update_of_ne hJti, account_call_other hJti]

theorem answers_account (calls : List LedgerCall) : s.answers calls = CapabilityLedger.answers s.account calls := by
  induction calls generalizing s with
  | nil => rfl
  | cons call calls ih =>
    have hAns : (s.call call).2 = ((s.account call.jti).call call).2 := congrArg Prod.snd (account_call call)
    rw [answers, CapabilityLedger.answers, hAns, ih, accounts_call]

/-- From empty tables on. -/
theorem answers_eq (calls : List LedgerCall) :
    answers {} calls = CapabilityLedger.answers (fun _ => {}) calls := answers_account calls

end OwnerLedgerStore

end Stella.Gateway
