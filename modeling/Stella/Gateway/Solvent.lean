import Stella.Gateway.Reservations
import Mathlib.Data.List.Dedup

/-! # The capability ledger neither leaks nor overspends

Every unsettled row belongs to one execution, the last that its id was reserved for.
-/

namespace Stella.Gateway

open Stella.Rows Stella.Transition List

inductive ExecutionState
  | open
  /-- Its id was reserved again, or refused, after the abandon limit. -/
  | superseded
  | settled (refunded : Bool)
  /-- Its account is gone. -/
  | dropped
  deriving DecidableEq

structure Execution where
  jti : String
  requestId : String
  reserved : Nat
  grantedAt : Int
  state : ExecutionState
  deriving DecidableEq

namespace Execution

variable (x : Execution)

def key : String × String := (x.jti, x.requestId)

def isOpen : Bool := x.state = .open

def isKept : Bool := x.state = .settled false

def mark : (String × String) × Nat × Int := (x.key, x.reserved, x.grantedAt)

end Execution

def OwnerResultRow.mark (r : OwnerResultRow) : (String × String) × Nat × Int := (r.key, r.reserved, r.createdAt)

structure LedgerWorld where
  store : OwnerLedgerStore := {}
  clock : Int := 0
  executions : List Execution := []

inductive LedgerInput
  | reserve (elapsed : Nat) (args : LedgerReserveArgs)
  /-- The execution at this place settles, under the id it was reserved for. -/
  | settle (elapsed : Nat) (place : Nat) (chargedMicroCents : Option ℚ) (refundRequest : Bool) (result : Option (Int × String))
  | alarm (elapsed : Nat)

namespace LedgerWorld

variable (w : LedgerWorld)

def supersede (key : String × String) (x : Execution) : Execution :=
  if x.key = key ∧ x.state = .open then { x with state := .superseded } else x

def recordReserve (now : Int) (args : LedgerReserveArgs) : LedgerReserveResult → List Execution
  | .reserved _ =>
    w.executions.map (supersede (args.jti, args.requestId)) ++
      [⟨args.jti, args.requestId, clampMicroCents args.estimatedMicroCents, now, .open⟩]
  | .budgetExhausted _ | .requestLimit _ => w.executions.map (supersede (args.jti, args.requestId))
  | .replay _ _ | .inFlight => w.executions

def step : LedgerInput → LedgerWorld
  | .reserve elapsed args =>
    let now := w.clock + elapsed
    let (store, result) := w.store.reserveSync now args
    ⟨store, now, w.recordReserve now args result⟩
  | .settle elapsed place charged refund result =>
    match w.executions[place]? with
    | none => { w with clock := w.clock + elapsed }
    | some x =>
      let (store, settled) := w.store.settle x.jti ⟨x.requestId, charged, refund, result⟩
      ⟨store, w.clock + elapsed,
        if settled.ok then w.executions.set place { x with state := .settled refund } else w.executions⟩
  | .alarm elapsed =>
    let now := w.clock + elapsed
    let store := w.store.alarm now
    ⟨store, now, w.executions.map (fun x =>
      if x.jti ∈ store.ledger.map LedgerRow.jti then x else { x with state := .dropped })⟩

def OwnSettle : LedgerInput → Prop
  | .settle _ place _ _ _ =>
    ∀ x ∈ w.executions[place]?, ∀ r ∈ w.store.result x.jti x.requestId, r.unsettled = true → x.state = .open
  | _ => True

/-! ## What a ledger promises -/

def countedIds (jti : String) : List String :=
  ((w.executions.filter (fun x => x.jti = jti && (x.isOpen || x.isKept))).map Execution.requestId).dedup

structure Holds : Prop where
  sums : ∀ row ∈ w.store.ledger, row.reserved = heldIn row.jti w.store.results
  limited : ∀ row ∈ w.store.ledger, ∀ most ∈ row.maxRequests,
    w.countedIds row.jti = [] ∨ ((w.countedIds row.jti).length : Int) ≤ most

structure Sound (input : LedgerInput) : Prop where
  budget : ∀ elapsed args remaining, input = .reserve elapsed args →
    (w.store.reserveSync (w.clock + elapsed) args).2 = .reserved remaining →
      ∀ row ∈ (w.step input).store.ledgerRow args.jti, row.remaining = none ∨ (row.spent + row.reserved : Int) ≤ row.budget
  alone : ∀ elapsed args remaining, input = .reserve elapsed args →
    (w.store.reserveSync (w.clock + elapsed) args).2 = .reserved remaining →
      ∀ x ∈ w.executions, x.key = (args.jti, args.requestId) → x.state = .open ∨ x.state = .superseded →
        inFlightAbandonAfterMs < w.clock + elapsed - x.grantedAt
  others : ∀ elapsed place charged refund result, input = .settle elapsed place charged refund result →
    ∀ (other : Nat) (y : Execution), other ≠ place → w.executions[other]? = some y → y.state = .open →
      ∃ r ∈ (w.step input).store.results, r.unsettled = true ∧ r.mark = y.mark
  releases : ∀ elapsed place charged refund result, input = .settle elapsed place charged refund result →
    ∀ x ∈ w.executions[place]?, ∀ row ∈ w.store.ledger, ∃ row' ∈ (w.step input).store.ledger, row'.jti = row.jti ∧
      row'.reserved + (if x.jti = row.jti ∧ x.state = .open then x.reserved else 0) = row.reserved
  stored : ∀ elapsed place charged refund status body, input = .settle elapsed place charged refund (some (status, body)) →
    ∀ x ∈ w.executions[place]?, (w.store.settle x.jti ⟨x.requestId, charged, refund, some (status, body)⟩).2.cached = true →
      ∃ r ∈ (w.step input).store.results, r.key = x.key ∧ r.status = status ∧ r.body = some body
  stays : ∀ r ∈ w.store.results, 0 < r.status →
    r ∈ (w.step input).store.results ∨ r.jti ∉ (w.step input).store.ledger.map LedgerRow.jti
  replayed : ∀ r ∈ w.store.results, 0 < r.status → ∀ elapsed args, input = .reserve elapsed args →
    r.key = (args.jti, args.requestId) → (w.step input).store = w.store ∧
      ∃ body, r.body = some body ∧ (w.store.reserveSync (w.clock + elapsed) args).2 = .replay r.status body
  uncharged : ∀ r ∈ w.store.results, 0 < r.status →
    ∀ elapsed place charged refund result, input = .settle elapsed place charged refund result →
      ∀ x ∈ w.executions[place]?, x.key = r.key → (w.step input).store = w.store

/-! ## Rows and the executions that hold them -/

def keptIn (jti : String) (executions : List Execution) : Nat := executions.countP (fun x => x.jti = jti && x.isKept)

structure Booked : Prop where
  balanced : w.store.Balanced
  held : ((w.store.results.filter OwnerResultRow.unsettled).map OwnerResultRow.mark).Perm
    ((w.executions.filter Execution.isOpen).map Execution.mark)
  stale : ∀ x ∈ w.executions, x.state = .superseded → inFlightAbandonAfterMs < w.clock - x.grantedAt
  counted : ∀ jti, unsettledIn jti w.store.results + keptIn jti w.executions ≤ w.store.requestsOf jti
  within : ∀ row ∈ w.store.ledger, ∀ most ∈ row.maxRequests, row.requests = 0 ∨ (row.requests : Int) ≤ most

variable {w}

theorem filter_mark {α μ : Type} {key : α → μ} {mark : α → μ × Nat × Int} (hMark : ∀ a, (mark a).1 = key a) (p : μ → Bool)
    (l : List α) : (l.filter (fun a => p (key a))).map mark = (l.map mark).filter (fun m => p m.1) := by
  rw [filter_map]
  refine congrArg (List.map mark) (filter_congr fun a _ => ?_)
  rw [Function.comp_apply, hMark]

theorem unsettled_where (p : String × String → Bool) (rows : List OwnerResultRow) :
    ((rows.filter (fun r => p r.key)).filter OwnerResultRow.unsettled).map OwnerResultRow.mark =
      ((rows.filter OwnerResultRow.unsettled).map OwnerResultRow.mark).filter (fun m => p m.1) := by
  have hMark : ∀ r : OwnerResultRow, r.mark.1 = r.key := fun _ => rfl
  rw [← filter_mark hMark, filter_filter, filter_filter]
  exact congrArg (List.map _) (filter_congr fun _ _ => Bool.and_comm _ _)

theorem open_where {p : String × String → Bool} {f : Execution → Execution}
    (hKept : ∀ x, p x.key = true → x.isOpen = true → f x = x)
    (hLost : ∀ x, (p x.key = false ∨ x.isOpen = false) → (f x).isOpen = false) (executions : List Execution) :
    ((executions.map f).filter Execution.isOpen).map Execution.mark =
      ((executions.filter Execution.isOpen).map Execution.mark).filter (fun m => p m.1) := by
  have hMark : ∀ x : Execution, x.mark.1 = x.key := fun _ => rfl
  rw [← filter_mark hMark, filter_filter]
  induction executions with
  | nil => rfl
  | cons x executions ih =>
    rw [map_cons]
    by_cases hBoth : p x.key = true ∧ x.isOpen = true
    · rw [hKept x hBoth.1 hBoth.2, filter_cons_of_pos hBoth.2, filter_cons_of_pos (by rw [hBoth.1, hBoth.2]; rfl),
        map_cons, map_cons, ih]
    · have hOut : p x.key = false ∨ x.isOpen = false := by
        rw [not_and_or] at hBoth
        exact hBoth.imp Bool.eq_false_iff.mpr Bool.eq_false_iff.mpr
      rw [filter_cons_of_neg (by rw [hLost x hOut]; exact Bool.false_ne_true),
        filter_cons_of_neg (by simpa using hBoth), ih]

theorem keptIn_perm {jti : String} {executions executions' : List Execution} (h : executions.Perm executions') :
    keptIn jti executions = keptIn jti executions' := h.countP_eq _

theorem keptIn_cons (jti : String) (x : Execution) (executions : List Execution) :
    keptIn jti (x :: executions) = keptIn jti executions + if x.jti = jti ∧ x.isKept = true then 1 else 0 := by
  unfold keptIn
  rw [countP_cons]
  simp only [Bool.and_eq_true, decide_eq_true_eq]

theorem Booked.row_of_open (h : w.Booked) {x : Execution} (hX : x ∈ w.executions) (hOpen : x.state = .open) :
    ∃ r ∈ w.store.results, r.unsettled = true ∧ r.mark = x.mark := by
  have hMem : x.mark ∈ (w.executions.filter Execution.isOpen).map Execution.mark :=
    mem_map_of_mem (mem_filter.mpr ⟨hX, decide_eq_true hOpen⟩)
  obtain ⟨r, hR, hMark⟩ := mem_map.mp (h.held.mem_iff.mpr hMem)
  obtain ⟨hIn, hUnset⟩ := mem_filter.mp hR
  exact ⟨r, hIn, hUnset, hMark⟩

variable {r : OwnerResultRow}

theorem Booked.mark_eq (h : w.Booked) {x : Execution} (hX : x ∈ w.executions) (hOpen : x.state = .open)
    (hR : w.store.result x.jti x.requestId = some r) : r.mark = x.mark ∧ r.unsettled = true := by
  obtain ⟨other, hOther, hUnsettled, hMark⟩ := h.row_of_open hX hOpen
  have hFound := lookup_of_mem h.balanced.keys hOther
  have hKey : other.key = (x.jti, x.requestId) := congrArg Prod.fst hMark
  rw [hKey] at hFound
  obtain rfl : other = r := Option.some.inj (hFound.symm.trans hR)
  exact ⟨hMark, hUnsettled⟩

/-! ## Reserving -/

theorem supersede_kept (jti : String) (key : String × String) (executions : List Execution) :
    keptIn jti (executions.map (supersede key)) = keptIn jti executions := by
  unfold keptIn
  rw [countP_map]
  refine countP_congr fun x _ => ?_
  rw [Function.comp_apply]
  unfold supersede
  split
  · next hOpen => simp [Execution.isKept, hOpen.2]
  · rfl

theorem supersede_held (key : String × String) (executions : List Execution) :
    ((executions.map (supersede key)).filter Execution.isOpen).map Execution.mark =
      ((executions.filter Execution.isOpen).map Execution.mark).filter (fun m => m.1 ≠ key) := by
  refine open_where (p := fun k => k ≠ key) ?_ ?_ executions
  · intro x hKey _
    exact if_neg fun hBoth => of_decide_eq_true hKey hBoth.1
  · intro x hOut
    unfold supersede
    split
    · rfl
    · next hNot =>
      refine hOut.elim (fun hKey => ?_) id
      have hAt : x.key = key := by simpa using hKey
      exact Bool.eq_false_iff.mpr fun hOpen => hNot ⟨hAt, of_decide_eq_true hOpen⟩

variable {elapsed : Nat} {args : LedgerReserveArgs} {base : OwnerLedgerStore} {row : LedgerRow} {resumingAbandoned : Bool}

theorem Booked.clear (h : w.Booked) (hClear : w.store.Clear (w.clock + elapsed) args base row resumingAbandoned) :
    Booked ⟨base, w.clock + elapsed, w.executions.map (supersede (args.jti, args.requestId))⟩ where
  balanced := hClear.balanced
  held := by
    dsimp only
    rw [hClear.results, supersede_held]
    unfold erase
    rw [unsettled_where fun k => k ≠ (args.jti, args.requestId)]
    exact h.held.filter _
  stale x hX hState := by
    obtain ⟨old, hOld, rfl⟩ := mem_map.mp hX
    dsimp only
    unfold supersede at hState ⊢
    split
    · next hOpen =>
      -- Its row has been given up, so it was past the limit.
      cases resumingAbandoned with
      | true =>
        obtain ⟨existing, hExisting, -, hAge⟩ := hClear.resumes rfl
        have hKey : (old.jti, old.requestId) = (args.jti, args.requestId) := hOpen.1
        rw [← (Prod.mk.inj hKey).1, ← (Prod.mk.inj hKey).2] at hExisting
        have hMark := (h.mark_eq hOld hOpen.2 hExisting).1
        have hAt : existing.createdAt = old.grantedAt := congrArg (fun m => m.2.2) hMark
        rw [← hAt]
        exact hAge
      | false =>
        obtain ⟨r, hR, -, hMark⟩ := h.row_of_open hOld hOpen.2
        have hFound := lookup_of_mem h.balanced.keys hR
        have hKey : r.key = (args.jti, args.requestId) := (congrArg Prod.fst hMark).trans hOpen.1
        rw [hKey] at hFound
        exact absurd (hFound.symm.trans (hClear.fresh rfl)) (Option.some_ne_none r)
    · next hNot =>
      rw [if_neg hNot] at hState
      have hOldStale := h.stale old hOld hState
      omega
  counted jti := by
    dsimp only
    rw [hClear.requests, supersede_kept, hClear.results]
    refine Nat.le_trans (Nat.add_le_add_right ?_ _) (h.counted jti)
    exact filter_sublist.countP_le
  within other hOther most hMost := by
    obtain hZero | ⟨old, hOld, hRequests, hMax⟩ := hClear.rows other hOther
    · exact Or.inl hZero
    · rw [← hMax] at hMost
      rw [← hRequests]
      exact h.within old hOld most hMost

variable {estimate : Nat}

theorem refusal_none
    (h : row.refusal resumingAbandoned estimate = none) :
    (resumingAbandoned = false → ∀ most ∈ row.maxRequests, (row.requests : Int) < most) ∧
      (row.remaining = none ∨ (row.spent + row.reserved + estimate : Int) ≤ row.budget) := by
  unfold LedgerRow.refusal at h
  split at h
  · cases h
  · next hUnlimited =>
    refine ⟨fun hFresh most hMost => ?_, ?_⟩
    · rw [hMost, Option.filter_some, hFresh] at hUnlimited
      by_contra hFull
      rw [if_pos (by simpa using Int.not_lt.mp hFull)] at hUnlimited
      cases hUnlimited
    · cases hRemaining : row.remaining with
      | none => exact .inl rfl
      | some remaining =>
        rw [hRemaining] at h
        dsimp only at h
        by_cases hOver : row.budget < row.spent + row.reserved + estimate
        · rw [if_pos hOver] at h
          cases h
        · exact .inr (Int.not_lt.mp hOver)

theorem Booked.grant (h : w.Booked) (hClear : w.store.Clear (w.clock + elapsed) args base row resumingAbandoned)
    (hGranted : row.refusal resumingAbandoned (clampMicroCents args.estimatedMicroCents) = none) :
    Booked ⟨(base.insertResult (args.result (w.clock + elapsed))).updateLedger args.jti
        (fun r => r.reserve (clampMicroCents args.estimatedMicroCents) resumingAbandoned), w.clock + elapsed,
      w.executions.map (supersede (args.jti, args.requestId)) ++
        [⟨args.jti, args.requestId, clampMicroCents args.estimatedMicroCents, w.clock + elapsed, .open⟩]⟩ := by
  have hBase := h.clear hClear
  have hNone : base.result args.jti args.requestId = none := by
    unfold OwnerLedgerStore.result
    rw [hClear.results]
    exact OwnerLedgerStore.result_erase _
  have hRow : row ∈ base.ledger ∧ row.jti = args.jti := ⟨lookup_mem hClear.row, lookup_key hClear.row⟩
  refine ⟨hClear.balanced.insert _ hNone (mem_map.mpr ⟨row, hRow⟩) _, ?_, ?_, ?_, ?_⟩
  · have hBoth := hBase.held.append_right [(args.result (w.clock + elapsed)).mark]
    have hNew : (args.result (w.clock + elapsed)).unsettled = true := rfl
    dsimp only at hBoth ⊢
    rw [filter_append, map_append, filter_cons_of_pos rfl, filter_nil]
    unfold OwnerLedgerStore.updateLedger OwnerLedgerStore.insertResult
    rw [filter_append, map_append, filter_cons_of_pos hNew, filter_nil]
    exact hBoth
  · intro x hX hState
    obtain hOld | hNew := mem_append.mp hX
    · exact hBase.stale x hOld hState
    · obtain rfl := mem_singleton.mp hNew
      cases hState
  · intro jti
    have hResults : unsettledIn jti (base.results ++ [args.result (w.clock + elapsed)]) =
        unsettledIn jti base.results + if args.jti = jti then 1 else 0 := by
      refine ((perm_append_singleton _ _).countP_eq _).trans ((unsettledIn_cons _ _ _).trans ?_)
      simp only [LedgerReserveArgs.result, OwnerResultRow.unsettled, Int.le_refl, decide_true, and_true]
    have hKept : keptIn jti (w.executions.map (supersede (args.jti, args.requestId)) ++
        [⟨args.jti, args.requestId, clampMicroCents args.estimatedMicroCents, w.clock + elapsed, .open⟩]) =
          keptIn jti w.executions := by
      refine (keptIn_perm (perm_append_singleton _ _)).trans ((keptIn_cons _ _ _).trans ?_)
      rw [if_neg (by simp [Execution.isKept]), Nat.add_zero, supersede_kept]
    have hGoal : unsettledIn jti (base.results ++ [args.result (w.clock + elapsed)]) + keptIn jti w.executions ≤
        ((base.insertResult (args.result (w.clock + elapsed))).updateLedger args.jti
          (fun r => r.reserve (clampMicroCents args.estimatedMicroCents) resumingAbandoned)).requestsOf jti := by
      rw [hResults]
      by_cases hJti : args.jti = jti
      · subst hJti
        have hInserted : (base.insertResult (args.result (w.clock + elapsed))).ledgerRow args.jti = some row := hClear.row
        have hRequests : row.requests = w.store.requestsOf args.jti := by
          rw [← hClear.requests, OwnerLedgerStore.requestsOf, hClear.row]
          rfl
        rw [if_pos rfl, OwnerLedgerStore.requestsOf_updated hInserted (reserve_jti _ _), LedgerRow.reserve]
        dsimp only
        have hCounted := h.counted args.jti
        cases resumingAbandoned with
        | false =>
          -- A request that is counted anew.
          have hFewer : unsettledIn args.jti base.results ≤ unsettledIn args.jti w.store.results := by
            rw [hClear.results]
            exact filter_sublist.countP_le
          rw [if_neg Bool.false_ne_true]
          omega
        | true =>
          -- The row it takes the place of was counted.
          obtain ⟨existing, hExisting, hUnsettled, -⟩ := hClear.resumes rfl
          have hOne : unsettledIn args.jti w.store.results = unsettledIn args.jti base.results + 1 := by
            rw [hClear.results]
            refine ((perm_cons_erase h.balanced.keys hExisting).countP_eq _).trans ((unsettledIn_cons _ _ _).trans ?_)
            rw [if_pos ⟨(OwnerLedgerStore.result_key hExisting).1, hUnsettled⟩]
          rw [if_pos rfl]
          omega
      · rw [if_neg hJti, OwnerLedgerStore.requestsOf_other (Ne.symm hJti) (reserve_jti _ _)]
        have hCounted := hBase.counted jti
        dsimp only at hCounted
        rw [supersede_kept] at hCounted
        exact hCounted
    exact hKept ▸ hGoal
  · intro other hOther most hMost
    obtain ⟨old, hOld, rfl⟩ := OwnerLedgerStore.mem_updateLedger hOther
    by_cases hJti : old.jti = args.jti
    · have hSame : old = row := by
        have hFound := hClear.balanced.ledgerRow_mem hOld
        rw [hJti, hClear.row] at hFound
        exact (Option.some.inj hFound).symm
      subst hSame
      rw [if_pos hJti] at hMost ⊢
      have hMost' : most ∈ old.maxRequests := hMost
      rw [LedgerRow.reserve]
      dsimp only
      cases resumingAbandoned with
      | false =>
        have hRoom := (refusal_none hGranted).1 rfl most hMost'
        rw [if_neg Bool.false_ne_true]
        exact Or.inr (by push_cast; omega)
      | true =>
        rw [if_pos rfl]
        exact hBase.within old hOld most hMost'
    · rw [if_neg hJti] at hMost ⊢
      exact hBase.within old hOld most hMost

/-! ## Settling and dropping -/

variable {place : Nat}

theorem Booked.settled (h : w.Booked) {x : Execution} (hX : w.executions[place]? = some x) (hOpen : x.state = .open)
    {args : LedgerSettleArgs} (hId : args.requestId = x.requestId) {pending : OwnerResultRow}
    (hPending : w.store.result x.jti args.requestId = some pending) {store : OwnerLedgerStore}
    (hSettled : w.store.Settled x.jti args pending store) :
    Booked ⟨store, w.clock + elapsed, w.executions.set place { x with state := .settled args.refundRequest }⟩ := by
  have hMem : x ∈ w.executions := mem_of_getElem? hX
  have hPlace : place < w.executions.length := (List.getElem?_eq_some_iff.mp hX).1
  have hMark := (h.mark_eq hMem hOpen (hId ▸ hPending)).1
  have hUnsettled := (h.mark_eq hMem hOpen (hId ▸ hPending)).2
  have hRows := perm_cons_erase h.balanced.keys hPending
  have hOld : w.executions.Perm (x :: w.executions.eraseIdx place) := perm_cons_eraseIdx hX
  have hNew : (w.executions.set place { x with state := .settled args.refundRequest }).Perm
      ({ x with state := .settled args.refundRequest } :: w.executions.eraseIdx place) := set_perm_cons_eraseIdx hPlace _
  refine ⟨hSettled.balanced, ?_, ?_, ?_, ?_⟩
  · have hBefore := h.held
    have hLeft := (hRows.filter OwnerResultRow.unsettled).map OwnerResultRow.mark
    have hRight := (hOld.filter Execution.isOpen).map Execution.mark
    rw [filter_cons_of_pos hUnsettled, map_cons, hMark] at hLeft
    have hIsOpen : x.isOpen = true := decide_eq_true hOpen
    rw [filter_cons_of_pos hIsOpen, map_cons] at hRight
    have hRest := (hLeft.symm.trans (hBefore.trans hRight)).cons_inv
    have hAfter := (hNew.filter Execution.isOpen).map Execution.mark
    rw [filter_cons_of_neg (by simp [Execution.isOpen])] at hAfter
    exact (hSettled.unsettled.map OwnerResultRow.mark).trans (hRest.trans hAfter.symm)
  · intro y hY hState
    obtain hHead | hTail := mem_cons.mp (hNew.mem_iff.mp hY)
    · rw [hHead] at hState
      cases hState
    · have hStale := h.stale y (mem_of_mem_eraseIdx hTail) hState
      dsimp only
      omega
  · intro jti
    dsimp only
    have hCounted := h.counted jti
    have hUnsettledOld : unsettledIn jti w.store.results = unsettledIn jti store.results + if x.jti = jti then 1 else 0 := by
      have hCount : ∀ rows : List OwnerResultRow, unsettledIn jti rows =
          (rows.filter OwnerResultRow.unsettled).countP (fun r => r.jti = jti) := by
        intro rows
        rw [countP_filter]
        rfl
      rw [hCount store.results, hSettled.unsettled.countP_eq, ← hCount]
      refine (hRows.countP_eq _).trans ((unsettledIn_cons _ _ _).trans ?_)
      rw [(OwnerLedgerStore.result_key hPending).1]
      simp only [hUnsettled, and_true]
    have hKeptOld : keptIn jti w.executions = keptIn jti (w.executions.eraseIdx place) := by
      rw [keptIn_perm hOld, keptIn_cons, if_neg (by simp [Execution.isKept, hOpen]), Nat.add_zero]
    have hKeptNew : keptIn jti (w.executions.set place { x with state := .settled args.refundRequest }) =
        keptIn jti (w.executions.eraseIdx place) + if x.jti = jti ∧ args.refundRequest = false then 1 else 0 := by
      rw [keptIn_perm hNew, keptIn_cons]
      simp [Execution.isKept]
    have hRequests : store.requestsOf jti = (w.store.updateLedger x.jti (fun r =>
        r.settle pending.reserved (clampMicroCents args.chargedMicroCents) args.refundRequest)).requestsOf jti :=
      congrArg (fun rows => ((lookup LedgerRow.jti rows jti).map LedgerRow.requests).getD 0) hSettled.ledger
    rw [hKeptNew, hRequests]
    by_cases hJti : x.jti = jti
    · subst hJti
      obtain ⟨row, hRow⟩ := h.balanced.ledgerRow_result (lookup_mem hPending)
      rw [(OwnerLedgerStore.result_key hPending).1] at hRow
      have hOldRequests : w.store.requestsOf x.jti = row.requests := by
        rw [OwnerLedgerStore.requestsOf, hRow]
        rfl
      rw [OwnerLedgerStore.requestsOf_updated hRow (settle_jti _ _ _), LedgerRow.settle]
      dsimp only
      rw [if_pos rfl] at hUnsettledOld
      cases args.refundRequest with
      | false =>
        rw [if_pos ⟨rfl, rfl⟩, if_neg Bool.false_ne_true]
        omega
      | true =>
        rw [if_neg (by simp), if_pos rfl]
        omega
    · rw [OwnerLedgerStore.requestsOf_other (Ne.symm hJti) (settle_jti _ _ _), if_neg fun hBoth => hJti hBoth.1]
      rw [if_neg hJti] at hUnsettledOld
      omega
  · intro row hRow most hMost
    rw [hSettled.ledger] at hRow
    obtain ⟨old, hOldRow, rfl⟩ := OwnerLedgerStore.mem_updateLedger hRow
    have hWithin := h.within old hOldRow
    by_cases hJti : old.jti = x.jti
    · rw [if_pos hJti] at hMost ⊢
      refine (hWithin most hMost).imp (fun hZero => ?_) fun hMostly => ?_
      · rw [LedgerRow.settle, hZero]
        exact Nat.zero_sub _
      · have hLess : (old.settle pending.reserved (clampMicroCents args.chargedMicroCents) args.refundRequest).requests ≤
            old.requests := Nat.sub_le _ _
        omega
    · rw [if_neg hJti] at hMost ⊢
      exact hWithin most hMost

theorem Booked.later (h : w.Booked) (elapsed : Nat) : Booked { w with clock := w.clock + elapsed } where
  balanced := h.balanced
  held := h.held
  stale x hX hSt := by
    have hStale := h.stale x hX hSt
    dsimp only
    omega
  counted := h.counted
  within := h.within

theorem Booked.alarm (h : w.Booked) (elapsed : Nat) : (w.step (.alarm elapsed)).Booked := by
  have hBalanced := h.balanced.alarm (w.clock + elapsed)
  have hRows := h.balanced.results_alarm (w.clock + elapsed)
  refine ⟨hBalanced, ?_, ?_, ?_, ?_⟩
  · have hLeft := unsettled_where (fun k => k.1 ∈ (w.store.alarm (w.clock + elapsed)).ledger.map LedgerRow.jti) w.store.results
    have hRight : (((w.step (.alarm elapsed)).executions).filter Execution.isOpen).map Execution.mark =
        ((w.executions.filter Execution.isOpen).map Execution.mark).filter
          (fun m => m.1.1 ∈ (w.store.alarm (w.clock + elapsed)).ledger.map LedgerRow.jti) := by
      refine open_where (p := fun k => k.1 ∈ (w.store.alarm (w.clock + elapsed)).ledger.map LedgerRow.jti) ?_ ?_ _
      · exact fun x hStays _ => if_pos (of_decide_eq_true hStays)
      · intro x hOut
        split
        · next hStays => exact hOut.resolve_left fun hGone => of_decide_eq_false hGone hStays
        · rfl
    rw [hRight]
    change ((w.store.alarm (w.clock + elapsed)).results.filter _ |>.map _).Perm _
    rw [hRows]
    exact hLeft ▸ h.held.filter _
  · intro x hX hSt
    obtain ⟨old, hOld, rfl⟩ := mem_map.mp hX
    split at hSt
    · next hStays =>
      rw [if_pos hStays]
      have hStale := h.stale old hOld hSt
      change inFlightAbandonAfterMs < w.clock + elapsed - old.grantedAt
      omega
    · cases hSt
  · intro jti
    have hCounted := h.counted jti
    have hFewer : unsettledIn jti (w.store.alarm (w.clock + elapsed)).results ≤ unsettledIn jti w.store.results :=
      filter_sublist.countP_le
    change unsettledIn jti (w.store.alarm (w.clock + elapsed)).results + keptIn jti (List.map _ w.executions) ≤
      (w.store.alarm (w.clock + elapsed)).requestsOf jti
    by_cases hStays : jti ∈ (w.store.alarm (w.clock + elapsed)).ledger.map LedgerRow.jti
    · have hKept : keptIn jti (w.executions.map (fun x =>
          if x.jti ∈ (w.store.alarm (w.clock + elapsed)).ledger.map LedgerRow.jti then x
          else { x with state := .dropped })) = keptIn jti w.executions := by
        unfold keptIn
        rw [countP_map]
        refine countP_congr fun x _ => ?_
        rw [Function.comp_apply]
        split
        · rfl
        · next hGone =>
          have hOther : x.jti ≠ jti := fun hEq => hGone (hEq ▸ hStays)
          simp [hOther]
      obtain ⟨row, hRow, hJti⟩ := mem_map.mp hStays
      have hEq : (w.store.alarm (w.clock + elapsed)).requestsOf jti = w.store.requestsOf jti := by
        unfold OwnerLedgerStore.requestsOf
        rw [← hJti, hBalanced.ledgerRow_mem hRow, h.balanced.ledgerRow_mem (mem_of_mem_filter hRow)]
      rw [hKept, hEq]
      omega
    · have hNone : unsettledIn jti (w.store.alarm (w.clock + elapsed)).results = 0 := by
        refine countP_eq_zero.mpr fun r hR hBoth => hStays ?_
        have hJti : r.jti = jti := of_decide_eq_true (Bool.and_eq_true_iff.mp hBoth).1
        exact hJti ▸ hBalanced.owned r hR
      have hKept : keptIn jti (w.executions.map (fun x =>
          if x.jti ∈ (w.store.alarm (w.clock + elapsed)).ledger.map LedgerRow.jti then x
          else { x with state := .dropped })) = 0 := by
        refine countP_eq_zero.mpr fun x hX hBoth => ?_
        obtain ⟨old, -, rfl⟩ := mem_map.mp hX
        obtain ⟨hJti, hIs⟩ := Bool.and_eq_true_iff.mp hBoth
        split at hJti
        · next hIn => exact hStays (of_decide_eq_true hJti ▸ hIn)
        · next hGone =>
          rw [if_neg hGone] at hIs
          cases hIs
      rw [hNone, hKept]
      exact Nat.zero_le _
  · intro row hRow most hMost
    exact h.within row (mem_of_mem_filter hRow) most hMost

/-! ## A step and a run -/

theorem refusal_some {refusal : LedgerReserveResult}
    (h : row.refusal resumingAbandoned estimate = some refusal) :
    (∃ remaining, refusal = .budgetExhausted remaining) ∨ ∃ most, refusal = .requestLimit most := by
  unfold LedgerRow.refusal at h
  split at h
  · exact .inr ⟨_, (Option.some.inj h).symm⟩
  · split at h
    · split at h
      · exact .inl ⟨_, (Option.some.inj h).symm⟩
      · cases h
    · cases h

theorem step_reserve (elapsed : Nat) (args : LedgerReserveArgs) :
    w.step (.reserve elapsed args) = ⟨(w.store.reserveSync (w.clock + elapsed) args).1, w.clock + elapsed,
      w.recordReserve (w.clock + elapsed) args (w.store.reserveSync (w.clock + elapsed) args).2⟩ := rfl

theorem step_settle {x : Execution} (h : w.executions[place]? = some x) (elapsed : Nat) (charged : Option ℚ)
    (refund : Bool) (result : Option (Int × String)) :
    w.step (.settle elapsed place charged refund result) =
      ⟨(w.store.settle x.jti ⟨x.requestId, charged, refund, result⟩).1, w.clock + elapsed,
        if (w.store.settle x.jti ⟨x.requestId, charged, refund, result⟩).2.ok then
          w.executions.set place { x with state := .settled refund }
        else w.executions⟩ := by
  unfold step
  dsimp only
  rw [h]

theorem step_settle_none (h : w.executions[place]? = none) (elapsed : Nat) (charged : Option ℚ)
    (refund : Bool) (result : Option (Int × String)) :
    w.step (.settle elapsed place charged refund result) = { w with clock := w.clock + elapsed } := by
  unfold step
  dsimp only
  rw [h]

theorem Booked.reserve_cases (h : w.Booked) (elapsed : Nat) (args : LedgerReserveArgs) :
    (w.step (.reserve elapsed args) = { w with clock := w.clock + elapsed } ∧
      ∀ remaining, (w.store.reserveSync (w.clock + elapsed) args).2 ≠ .reserved remaining) ∨
    ∃ base row resumingAbandoned, w.store.Clear (w.clock + elapsed) args base row resumingAbandoned ∧
      ((w.step (.reserve elapsed args) =
          ⟨base, w.clock + elapsed, w.executions.map (supersede (args.jti, args.requestId))⟩ ∧
        ∀ remaining, (w.store.reserveSync (w.clock + elapsed) args).2 ≠ .reserved remaining) ∨
      (row.refusal resumingAbandoned (clampMicroCents args.estimatedMicroCents) = none ∧
        w.step (.reserve elapsed args) =
          ⟨(base.insertResult (args.result (w.clock + elapsed))).updateLedger args.jti
              (fun r => r.reserve (clampMicroCents args.estimatedMicroCents) resumingAbandoned), w.clock + elapsed,
            w.executions.map (supersede (args.jti, args.requestId)) ++
              [⟨args.jti, args.requestId, clampMicroCents args.estimatedMicroCents, w.clock + elapsed, .open⟩]⟩)) := by
  rw [step_reserve]
  obtain ⟨existing, body, -, -, hReplay⟩ | ⟨existing, -, -, hBusy⟩ | ⟨base, row, resumingAbandoned, hClear, hGrant⟩ :=
    h.balanced.reserveSync_cases (w.clock + elapsed) args
  · rw [hReplay]
    exact .inl ⟨rfl, fun _ hNo => by cases hNo⟩
  · rw [hBusy]
    exact .inl ⟨rfl, fun _ hNo => by cases hNo⟩
  · refine .inr ⟨base, row, resumingAbandoned, hClear, ?_⟩
    rw [hGrant]
    unfold OwnerLedgerStore.grant
    dsimp only
    cases hRefusal : row.refusal resumingAbandoned (clampMicroCents args.estimatedMicroCents) with
    | some refusal =>
      obtain ⟨remaining, rfl⟩ | ⟨most, rfl⟩ := refusal_some hRefusal
      · exact .inl ⟨rfl, fun _ hNo => by cases hNo⟩
      · exact .inl ⟨rfl, fun _ hNo => by cases hNo⟩
    | none => exact .inr ⟨rfl, rfl⟩

variable {input : LedgerInput}

theorem Booked.step (h : w.Booked) (hOwn : w.OwnSettle input) : (w.step input).Booked := by
  cases input with
  | reserve elapsed args =>
    obtain ⟨hStep, -⟩ | ⟨base, row, resumingAbandoned, hClear, ⟨hStep, -⟩ | ⟨hGranted, hStep⟩⟩ := h.reserve_cases elapsed args
    · rw [hStep]
      exact h.later elapsed
    · rw [hStep]
      exact h.clear hClear
    · rw [hStep]
      exact h.grant hClear hGranted
  | settle elapsed place charged refund result =>
    cases hX : w.executions[place]? with
    | none =>
      rw [step_settle_none hX]
      exact h.later elapsed
    | some x =>
      rw [step_settle hX]
      obtain ⟨pending, hPend, hUnset, hOk, -, hSettled⟩ | ⟨-, hEq, hOk, -⟩ :=
        h.balanced.settle_cases x.jti ⟨x.requestId, charged, refund, result⟩
      · rw [hOk, if_pos rfl]
        exact h.settled hX (hOwn x hX pending hPend hUnset) rfl hPend hSettled
      · rw [hOk, if_neg Bool.false_ne_true, hEq]
        exact h.later elapsed
  | alarm elapsed => exact h.alarm elapsed

theorem booked_empty : Booked {} where
  balanced := ⟨nodup_nil, nodup_nil, by simp, by simp, by simp⟩
  held := List.Perm.refl _
  stale := by simp
  counted _ := Nat.le_refl 0
  within := by simp

theorem Booked.holds (h : w.Booked) : w.Holds where
  sums := h.balanced.sums
  limited row hRow most hMost := by
    have hCnt : (w.countedIds row.jti).length ≤ row.requests := by
      have hOpen : unsettledIn row.jti w.store.results = w.executions.countP (fun x => x.jti = row.jti && x.isOpen) := by
        have hBoth := h.held.countP_eq (fun m => m.1.1 = row.jti)
        rw [countP_map, countP_map, countP_filter, countP_filter] at hBoth
        exact hBoth
      have hSum : w.executions.countP (fun x => x.jti = row.jti && (x.isOpen || x.isKept)) ≤
          w.executions.countP (fun x => x.jti = row.jti && x.isOpen) + keptIn row.jti w.executions := by
        unfold keptIn
        induction w.executions with
        | nil => exact Nat.le_refl 0
        | cons x executions ih =>
          rw [countP_cons, countP_cons, countP_cons]
          cases decide (x.jti = row.jti) <;> cases x.isOpen <;> cases x.isKept <;> simp <;> omega
      have hCounted := h.counted row.jti
      rw [OwnerLedgerStore.requestsOf, h.balanced.ledgerRow_mem hRow, Option.map_some, Option.getD_some] at hCounted
      calc (w.countedIds row.jti).length
          ≤ ((w.executions.filter (fun x => x.jti = row.jti && (x.isOpen || x.isKept))).map Execution.requestId).length :=
            (dedup_sublist _).length_le
        _ = w.executions.countP (fun x => x.jti = row.jti && (x.isOpen || x.isKept)) := by
            rw [length_map, countP_eq_length_filter]
        _ ≤ row.requests := by omega
    obtain hZero | hMostly := h.within row hRow most hMost
    · rw [hZero] at hCnt
      exact .inl (length_eq_zero_iff.mp (Nat.le_zero.mp hCnt))
    · exact .inr (by omega)

theorem Booked.not_clear (h : w.Booked) (hR : r ∈ w.store.results) (hStat : 0 < r.status) {now : Int}
    (hClear : w.store.Clear now args base row resumingAbandoned) : r.key ≠ (args.jti, args.requestId) := by
  intro hKey
  have hFound := lookup_of_mem h.balanced.keys hR
  rw [hKey] at hFound
  cases resumingAbandoned with
  | true =>
    obtain ⟨existing, hExist, hUnset, -⟩ := hClear.resumes rfl
    obtain rfl : r = existing := Option.some.inj (hFound.symm.trans hExist)
    exact absurd (of_decide_eq_true hUnset) (Int.not_le.mpr hStat)
  | false => exact Option.some_ne_none r (hFound.symm.trans (hClear.fresh rfl))

theorem Booked.sound (h : w.Booked) (hOwn : w.OwnSettle input) : w.Sound input where
  budget elapsed args remaining hInput hResv row hRow := by
    subst hInput
    obtain ⟨-, hNot⟩ | ⟨base, old, resumingAbandoned, hClear, ⟨-, hNot⟩ | ⟨hGranted, hStep⟩⟩ := h.reserve_cases elapsed args
    · exact absurd hResv (hNot remaining)
    · exact absurd hResv (hNot remaining)
    · rw [hStep] at hRow
      have hLookup : (base.updateLedger args.jti (fun r =>
          r.reserve (clampMicroCents args.estimatedMicroCents) resumingAbandoned)).ledgerRow args.jti =
            some (old.reserve (clampMicroCents args.estimatedMicroCents) resumingAbandoned) := by
        unfold OwnerLedgerStore.ledgerRow OwnerLedgerStore.updateLedger
        have hOld : lookup LedgerRow.jti base.ledger args.jti = some old := hClear.row
        rw [lookup_modify (reserve_jti _ _), hOld, Option.map_some, if_pos rfl]
      obtain rfl := Option.some.inj (hLookup.symm.trans hRow)
      refine (refusal_none hGranted).2.imp (fun hUnlimited => ?_) fun hRoom => ?_
      · unfold LedgerRow.remaining at hUnlimited
        unfold LedgerRow.remaining LedgerRow.reserve
        split at hUnlimited
        · next hIs => exact if_pos hIs
        · cases hUnlimited
      · rw [LedgerRow.reserve]
        push_cast
        omega
  alone elapsed args remaining hInput hResv x hX hKey hSt := by
    subst hInput
    obtain ⟨-, hNot⟩ | ⟨base, old, resumingAbandoned, hClear, -⟩ := h.reserve_cases elapsed args
    · exact absurd hResv (hNot remaining)
    · have hStale := (h.clear hClear).stale (supersede (args.jti, args.requestId) x) (mem_map_of_mem hX)
      unfold supersede at hStale
      obtain hOpen | hSuperseded := hSt
      · rw [if_pos ⟨hKey, hOpen⟩] at hStale
        exact hStale rfl
      · rw [if_neg (by simp [hSuperseded])] at hStale
        exact hStale hSuperseded
  others elapsed place charged refund result hInput other y hOther hY hOpen := by
    subst hInput
    have hBooked := h.step hOwn
    refine hBooked.row_of_open (x := y) ?_ hOpen
    cases hX : w.executions[place]? with
    | none =>
      rw [step_settle_none hX]
      exact mem_of_getElem? hY
    | some x =>
      rw [step_settle hX]
      dsimp only
      split
      · refine mem_of_getElem? (i := other) ?_
        rw [getElem?_set_ne (Ne.symm hOther)]
        exact hY
      · exact mem_of_getElem? hY
  releases elapsed place charged refund result hInput x hX row hRow := by
    subst hInput
    have hX' : w.executions[place]? = some x := hX
    rw [step_settle hX']
    dsimp only
    obtain ⟨pending, hPend, hUnset, hOk, -, hSettled⟩ | ⟨hNone, hEq, hOk, -⟩ :=
      h.balanced.settle_cases x.jti ⟨x.requestId, charged, refund, result⟩
    · have hOpen := hOwn x hX pending hPend hUnset
      have hMark := (h.mark_eq (mem_of_getElem? hX') hOpen hPend).1
      have hResv : pending.reserved = x.reserved := congrArg (fun m => m.2.1) hMark
      refine ⟨if row.jti = x.jti then row.settle pending.reserved (clampMicroCents charged) refund else row, ?_, ?_, ?_⟩
      · rw [hSettled.ledger]
        exact mem_map_of_mem hRow
      · split <;> rfl
      · by_cases hJti : row.jti = x.jti
        · have hLess : pending.reserved ≤ row.reserved := by
            rw [h.balanced.sums row hRow, heldIn_perm (perm_cons_erase h.balanced.keys hPend), heldIn_cons,
              if_pos ⟨(OwnerLedgerStore.result_key hPend).1.trans hJti.symm, hUnset⟩]
            exact Nat.le_add_right _ _
          rw [if_pos hJti, if_pos ⟨hJti.symm, hOpen⟩, LedgerRow.settle, ← hResv]
          exact Nat.sub_add_cancel hLess
        · rw [if_neg hJti, if_neg fun hBoth => hJti hBoth.1.symm, Nat.add_zero]
    · rw [hEq]
      refine ⟨row, hRow, rfl, ?_⟩
      have hClosed : ¬ (x.jti = row.jti ∧ x.state = .open) := by
        rintro ⟨-, hOpen⟩
        obtain ⟨r, hR, hUnset, hMark⟩ := h.row_of_open (mem_of_getElem? hX') hOpen
        have hFound := lookup_of_mem h.balanced.keys hR
        have hKey : r.key = (x.jti, x.requestId) := congrArg Prod.fst hMark
        rw [hKey] at hFound
        rw [hNone r hFound] at hUnset
        cases hUnset
      rw [if_neg hClosed, Nat.add_zero]
  stored elapsed place charged refund status body hInput x hX hCached := by
    subst hInput
    have hX' : w.executions[place]? = some x := hX
    rw [step_settle hX']
    obtain ⟨pending, hPend, hUnset, hOk, hCache, hSettled⟩ | ⟨-, -, -, hNot⟩ :=
      h.balanced.settle_cases x.jti ⟨x.requestId, charged, refund, some (status, body)⟩
    · rw [hCached] at hCache
      obtain ⟨result, hRes⟩ := Option.isSome_iff_exists.mp hCache.symm
      obtain rfl : (status, body) = result := Option.some.inj (Option.filter_eq_some_iff.mp hRes).1
      exact hSettled.cached _ hRes
    · rw [hNot] at hCached
      cases hCached
  stays r hR hStat := by
    cases input with
    | reserve elapsed args =>
      refine .inl ?_
      obtain ⟨hStep, -⟩ | ⟨base, row, resumingAbandoned, hClear, hBoth⟩ := h.reserve_cases elapsed args
      · rw [hStep]
        exact hR
      · have hStays : r ∈ base.results := by
          rw [hClear.results]
          exact mem_filter.mpr ⟨hR, decide_eq_true fun hKey => h.not_clear hR hStat hClear hKey⟩
        obtain ⟨hStep, -⟩ | ⟨-, hStep⟩ := hBoth
        · rw [hStep]
          exact hStays
        · rw [hStep]
          exact mem_append_left _ hStays
    | settle elapsed place charged refund result =>
      refine .inl ?_
      cases hX : w.executions[place]? with
      | none =>
        rw [step_settle_none hX]
        exact hR
      | some x =>
        rw [step_settle hX]
        obtain ⟨pending, hPend, hUnset, -, -, hSettled⟩ | ⟨-, hEq, -, -⟩ :=
          h.balanced.settle_cases x.jti ⟨x.requestId, charged, refund, result⟩
        · refine hSettled.others r hR fun hKey => ?_
          have hFound := lookup_of_mem h.balanced.keys hR
          rw [hKey] at hFound
          obtain rfl : r = pending := Option.some.inj (hFound.symm.trans hPend)
          exact absurd (of_decide_eq_true hUnset) (Int.not_le.mpr hStat)
        · rw [hEq]
          exact hR
    | alarm elapsed =>
      change r ∈ (w.store.alarm (w.clock + elapsed)).results ∨
        r.jti ∉ (w.store.alarm (w.clock + elapsed)).ledger.map LedgerRow.jti
      rw [h.balanced.results_alarm]
      by_cases hStays : r.jti ∈ (w.store.alarm (w.clock + elapsed)).ledger.map LedgerRow.jti
      · exact .inl (mem_filter.mpr ⟨hR, decide_eq_true hStays⟩)
      · exact .inr hStays
  replayed r hR hStat elapsed args hInput hKey := by
    subst hInput
    have hFound := lookup_of_mem h.balanced.keys hR
    rw [hKey] at hFound
    rw [step_reserve]
    obtain ⟨existing, body, hExist, hBody, hReplay⟩ | ⟨existing, hExist, hUnset, -⟩ | ⟨base, row, resumingAbandoned, hClear, -⟩ :=
      h.balanced.reserveSync_cases (w.clock + elapsed) args
    · obtain rfl : r = existing := Option.some.inj (hFound.symm.trans hExist)
      rw [hReplay]
      exact ⟨rfl, body, hBody, rfl⟩
    · obtain rfl : r = existing := Option.some.inj (hFound.symm.trans hExist)
      exact absurd (of_decide_eq_true hUnset) (Int.not_le.mpr hStat)
    · exact absurd hKey (h.not_clear hR hStat hClear)
  uncharged r hR hStat elapsed place charged refund result hInput x hX hKey := by
    subst hInput
    rw [step_settle hX]
    obtain ⟨pending, hPend, hUnset, -, -, -⟩ | ⟨-, hEq, -, -⟩ :=
      h.balanced.settle_cases x.jti ⟨x.requestId, charged, refund, result⟩
    · have hFound := lookup_of_mem h.balanced.keys hR
      rw [← hKey] at hFound
      obtain rfl : r = pending := Option.some.inj (hFound.symm.trans hPend)
      exact absurd (of_decide_eq_true hUnset) (Int.not_le.mpr hStat)
    · exact hEq

/-! ## Runs -/

/-- In a run without a settle that finds another execution's row, the accounts hold and the next such call is sound. -/
theorem sound_of_run {inputs : List LedgerInput} (h : Along step OwnSettle {} inputs) :
    (run step {} inputs).Holds ∧ ∀ input, (run step {} inputs).OwnSettle input → (run step {} inputs).Sound input := by
  have hBooked : (run step {} inputs).Booked :=
    run_invariant (fun _ _ hBefore hOwn => hBefore.step hOwn) booked_empty h
  exact ⟨hBooked.holds, fun input hOwn => hBooked.sound hOwn⟩

def oneRequest : LedgerReserveArgs := ⟨"capability", 100, some 1, 1000, "request", some 10⟩

def settledRun : List LedgerInput :=
  [.reserve 5 oneRequest, .settle 7 0 (some 8) false (some (200, "done")), .reserve 3 oneRequest]

theorem sound_of_settledRun : (run step {} settledRun).Holds ∧
    ∀ input, (run step {} settledRun).OwnSettle input → (run step {} settledRun).Sound input := by
  refine sound_of_run ⟨trivial, fun x hX _ _ _ => ?_, trivial, trivial⟩
  have hFirst : (step {} (.reserve 5 oneRequest)).executions[0]? = some ⟨"capability", "request", 10, 5, .open⟩ := by
    decide +kernel
  obtain rfl := Option.some.inj (hFirst.symm.trans hX)
  rfl

def lateRun : List LedgerInput := [.reserve 0 oneRequest, .reserve 2760001 oneRequest]

theorem lateRun_releases : ¬ (run step {} lateRun).Sound (.settle 1 0 (some 8) false none) := by
  intro h
  have hSecond : (run step {} lateRun).executions[1]? = some ⟨"capability", "request", 10, 2760001, .open⟩ := by
    decide +kernel
  have hNone : ((run step {} lateRun).step (.settle 1 0 (some 8) false none)).store.results = [] := by
    decide +kernel
  obtain ⟨r, hR, -⟩ := h.others 1 0 (some 8) false none rfl 1 _ Nat.one_ne_zero hSecond rfl
  rw [hNone] at hR
  cases hR

end LedgerWorld

end Stella.Gateway
