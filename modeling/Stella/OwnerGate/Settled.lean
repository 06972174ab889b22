import Stella.OwnerGate.Table

/-! # A settled dispatch

What may become of a row from one segment to the next, and when a settled row stays as it is.
-/

namespace Stella.OwnerGate

open Stella.Transition List

def DispatchRow.Terminal (row : DispatchRow) : Prop := isTerminalDispatchState row.state = true

instance (row : DispatchRow) : Decidable row.Terminal := inferInstanceAs (Decidable (_ = true))

structure Evolves (row row' : DispatchRow) : Prop where
  revision : row.revision ≤ row'.revision
  bumped : row'.state ≠ row.state → row.revision < row'.revision
  payload : row.payloadJson = none → row'.payloadJson = none
  settled : row.Terminal → row'.state = row.state
  clean : row'.Terminal → row.Terminal ∨ row'.payloadJson = none

theorem Evolves.refl (row : DispatchRow) : Evolves row row :=
  ⟨le_rfl, fun h => absurd rfl h, id, fun _ => rfl, Or.inl⟩

theorem Evolves.trans {a b c : DispatchRow} (hab : Evolves a b) (hbc : Evolves b c) : Evolves a c where
  revision := hab.revision.trans hbc.revision
  bumped hNe := by
    by_cases hSt : b.state = a.state
    · exact hab.revision.trans_lt (hbc.bumped (hSt ▸ hNe))
    · exact (hab.bumped hSt).trans_le hbc.revision
  payload h := hbc.payload (hab.payload h)
  settled h := by
    have hb : b.state = a.state := hab.settled h
    have hTerm : b.Terminal := by rw [DispatchRow.Terminal, hb]; exact h
    exact (hbc.settled hTerm).trans hb
  clean h := by
    obtain hb | hc := hbc.clean h
    · exact (hab.clean hb).imp_right hbc.payload
    · exact .inr hc

namespace Gate

/-- Every row of `g` is a row of `g'` that has evolved, and the other way round. -/
structure Onward (g g' : Gate) : Prop where
  ids : g'.ids = g.ids
  forth : ∀ id row, g.dispatchRow id = some row → ∃ row', g'.dispatchRow id = some row' ∧ Evolves row row'
  back : ∀ id row', g'.dispatchRow id = some row' → ∃ row, g.dispatchRow id = some row ∧ Evolves row row'

variable {g : Gate}

theorem Onward.of_dispatches {g' : Gate} (hEq : g'.dispatches = g.dispatches) : Onward g g' where
  ids := by rw [Gate.ids, hEq, Gate.ids]
  forth id row h := ⟨row, by rw [dispatchRow_congr hEq, h], .refl row⟩
  back id row h := ⟨row, by rw [← dispatchRow_congr hEq, h], .refl row⟩

theorem Onward.refl (g : Gate) : Onward g g := .of_dispatches rfl

theorem Onward.trans {a b c : Gate} (hab : Onward a b) (hbc : Onward b c) : Onward a c where
  ids := hbc.ids.trans hab.ids
  forth id row h := by
    obtain ⟨row₁, h₁, hE₁⟩ := hab.forth id row h
    obtain ⟨row₂, h₂, hE₂⟩ := hbc.forth id row₁ h₁
    exact ⟨row₂, h₂, hE₁.trans hE₂⟩
  back id row h := by
    obtain ⟨row₁, h₁, hE₁⟩ := hbc.back id row h
    obtain ⟨row₂, h₂, hE₂⟩ := hab.back id row₁ h₁
    exact ⟨row₂, h₂, hE₂.trans hE₁⟩

variable {patch : DispatchRow → DispatchRow}

theorem onward_update {id : String} (hKeeps : Keeps patch)
    (hEvolves : ∀ row, g.dispatchRow id = some row → Evolves row (patch row)) : Onward g (g.update id patch) where
  ids := g.update_ids hKeeps id
  forth other row h := by
    rw [g.dispatchRow_update hKeeps]
    split
    · next hEq =>
      subst hEq
      exact ⟨patch row, by simp [h], hEvolves row h⟩
    · exact ⟨row, h, .refl row⟩
  back other row h := by
    rw [g.dispatchRow_update hKeeps] at h
    split at h
    · next hEq =>
      subst hEq
      obtain ⟨stored, hStored, rfl⟩ := Option.map_eq_some_iff.mp h
      exact ⟨stored, hStored, hEvolves stored hStored⟩
    · exact ⟨row, h, .refl row⟩

def Unsettled (g : Gate) (id : String) : Prop := ∀ row, g.dispatchRow id = some row → ¬ row.Terminal

structure Quiet (patch : DispatchRow → DispatchRow) : Prop where
  id : Keeps patch
  state : ∀ row, (patch row).state = row.state
  revision : ∀ row, (patch row).revision = row.revision
  payload : ∀ row, row.payloadJson = none → (patch row).payloadJson = none

theorem Quiet.onward (h : Quiet patch) (g : Gate) (id : String) :
    Onward g (g.update id patch) :=
  onward_update h.id fun row _ =>
    { revision := (h.revision row).ge
      bumped := fun hNe => absurd (h.state row) hNe
      payload := h.payload row
      settled := fun _ => h.state row
      clean := fun hT => .inl (by rw [DispatchRow.Terminal, ← h.state row]; exact hT) }

theorem Quiet.onward_patchDispatch (h : Quiet patch) (g : Gate)
    (row : DispatchRow) (now : Nat) : Onward g (g.patchDispatch row patch now) := by
  have hKeeps : Keeps (patched patch now) := h.id
  refine onward_update hKeeps fun stored _ => ?_
  exact
    { revision := by simp [h.revision]
      bumped := fun hNe => absurd (h.state stored) hNe
      payload := h.payload stored
      settled := fun _ => h.state stored
      clean := fun hT => .inl (by rw [DispatchRow.Terminal, ← h.state stored]; exact hT) }

theorem onward_patchDispatch {row : DispatchRow} {now : Nat}
    (hUnset : g.Unsettled row.dispatchId) (hKeeps : Keeps patch)
    (hRev : ∀ stored, (patch stored).revision = stored.revision)
    (hPay : ∀ stored, stored.payloadJson = none → (patch stored).payloadJson = none)
    (hClean : ∀ stored, g.dispatchRow row.dispatchId = some stored →
      isTerminalDispatchState (patch stored).state = true → (patch stored).payloadJson = none) :
    Onward g (g.patchDispatch row patch now) := by
  have hPatched : Keeps (patched patch now) := hKeeps
  refine onward_update hPatched fun stored hStored => ?_
  exact
    { revision := by simp [hRev]
      bumped := fun _ => by simp [hRev]
      payload := hPay stored
      settled := fun hT => absurd hT (hUnset stored hStored)
      clean := fun hT => .inr (hClean stored hStored hT) }

theorem quiet_gatePatch (held : Bool) : Quiet (gatePatch held) :=
  ⟨fun _ => rfl, fun _ => rfl, fun _ => rfl, fun _ h => h⟩

theorem quiet_attemptPatch : Quiet attemptPatch := ⟨fun _ => rfl, fun _ => rfl, fun _ => rfl, fun _ h => h⟩

theorem quiet_turnPatch (turnId : String) : Quiet (turnPatch turnId) :=
  ⟨fun _ => rfl, fun _ => rfl, fun _ => rfl, fun _ h => h⟩

theorem quiet_retryPatch (code message : String) (now : Nat) : Quiet (retryPatch code message now) :=
  ⟨fun _ => rfl, fun _ => rfl, fun _ => rfl, fun _ h => h⟩

theorem quiet_dropPayloadPatch : Quiet dropPayloadPatch :=
  ⟨fun _ => rfl, fun _ => rfl, fun _ => rfl, fun _ _ => rfl⟩

theorem onward_releaseGate (g : Gate) (row : DispatchRow) : Onward g (g.releaseGate row) := by
  unfold releaseGate
  split
  · exact (quiet_gatePatch false).onward g row.dispatchId
  · exact .refl g

structure Settling (patch : DispatchRow → DispatchRow) : Prop where
  id : Keeps patch
  revision : ∀ row, (patch row).revision = row.revision
  payload : ∀ row, row.payloadJson = none → (patch row).payloadJson = none
  clean : ∀ row, isTerminalDispatchState (patch row).state = true → (patch row).payloadJson = none

theorem Settling.onward (h : Settling patch) {row : DispatchRow}
    (now : Nat) (hUnset : g.Unsettled row.dispatchId) : Onward g (g.patchDispatch row patch now) :=
  onward_patchDispatch hUnset h.id h.revision h.payload (fun stored _ => h.clean stored)

end Gate

/-! ## Rows the alarm still holds -/

def After.rows : After → List DispatchRow
  | .alarm _ rest => rest
  | _ => []

def Task.rows : Task → List DispatchRow
  | .cloud _ _ _ after => after.rows
  | .reporting _ after => after.rows
  | _ => []

namespace Gate

def held (g : Gate) : List DispatchRow := (g.expiring.elim [] Prod.snd) ++ g.tasks.flatMap Task.rows

/-- What a handler that goes on with `after` makes of `g`. -/
structure Leads (g : Gate) (after : After) (g' : Gate) : Prop where
  onward : Onward g g'
  held : ∀ row ∈ g'.held, row ∈ g.held ∨ row ∈ after.rows

variable {g g' : Gate} {after : After}

variable {g₁ : Gate}

theorem Leads.of_onward (h : Onward g g₁) (hTasks : g₁.tasks = g.tasks)
    (hExpiring : g₁.expiring = g.expiring) (hLeads : Leads g₁ after g') : Leads g after g' where
  onward := h.trans hLeads.onward
  held row hRow := by
    have hHeld : g₁.held = g.held := by rw [Gate.held, Gate.held, hTasks, hExpiring]
    rw [← hHeld]
    exact hLeads.held row hRow

theorem Leads.of_same (g₁ : Gate) (hRows : g₁.dispatches = g.dispatches)
    (hTasks : g₁.tasks = g.tasks) (hExpiring : g₁.expiring = g.expiring) (h : Leads g₁ after g') :
    Leads g after g' :=
  .of_onward (.of_dispatches hRows) hTasks hExpiring h

theorem leads_goOn (g : Gate) (out : Outside) (after : After) : Leads g after (g.goOn out after) where
  onward := .of_dispatches (by simp)
  held row hRow := by
    cases after with
    | returns => exact .inl hRow
    | schedule now =>
      left
      simpa [goOn, Gate.held] using hRow
    | alarm now rest =>
      simp only [goOn, Gate.held, Option.elim_some, mem_append] at hRow
      obtain hRest | hTask := hRow
      · exact .inr hRest
      · exact .inl (mem_append_right _ hTask)

variable {task : Task}

theorem leads_park (hRows : task.rows = after.rows) :
    Leads g after (g.park task) where
  onward := .of_dispatches rfl
  held row hRow := by
    simp only [Gate.held, park_tasks, park_expiring, flatMap_append, flatMap_cons, flatMap_nil,
      append_nil, hRows, ← append_assoc, mem_append] at hRow ⊢
    exact hRow

theorem leads_settle (g : Gate) (out : Outside) (before next : DispatchRow) (after : After) :
    Leads g after (g.settle out before next after) := by
  unfold settle
  split
  · exact leads_park rfl
  · exact .of_onward (onward_releaseGate g next) (by simp) (by simp) (leads_goOn _ out after)

variable {out : Outside} {row : DispatchRow} {patch : DispatchRow → DispatchRow} {now : Nat}

theorem leads_patchAndSettle (h : Onward g (g.patchDispatch row patch now)) :
    Leads g after (g.patchAndSettle out row patch now after) :=
  .of_onward h rfl rfl (leads_settle _ out row _ after)

def retries (status : Nat) (row : DispatchRow) : Prop := status = 503 ∧ row.cloudAttempts < dispatchCloudMaxAttempts

instance (status : Nat) (row : DispatchRow) : Decidable (retries status row) := inferInstanceAs (Decidable (_ ∧ _))

theorem leads_cloudRefusal {status : Nat} {code message : String} (hUnsettled : ¬ retries status row → g.Unsettled row.dispatchId) :
    Leads g after (g.cloudRefusal out row status code message now after) := by
  unfold cloudRefusal
  split
  · refine .of_onward ((quiet_retryPatch code message now).onward_patchDispatch g row now) rfl rfl ?_
    exact .of_same _ (by simp) (by simp) (by simp) (leads_goOn _ out after)
  · next hRetries =>
    apply leads_patchAndSettle
    have hSettling : Settling (refusalPatch code message) :=
      ⟨fun _ => rfl, fun _ => rfl, fun _ _ => rfl, fun _ _ => rfl⟩
    exact hSettling.onward now (hUnsettled hRetries)

theorem leads_send (g : Gate) (via : Via) (row : DispatchRow) (now : Nat) (after : After) :
    Leads g after (g.send via row now after) :=
  .of_same _ (note_dispatches g _) rfl rfl (leads_park rfl)

theorem leads_sendChat (g : Gate) (out : Outside) (row : DispatchRow) (turnId : String) (now : Nat)
    (after : After) : Leads g after (g.sendChat out row turnId now after) := by
  unfold sendChat
  split
  · exact .of_onward ((quiet_turnPatch turnId).onward g row.dispatchId) rfl rfl (leads_send _ _ row now after)
  · split
    · refine .of_same _ (putHandoff_dispatches g row.dispatchId (.retired turnId)) rfl rfl ?_
      exact .of_onward (onward_releaseGate _ _) (by simp) (by simp) (leads_goOn _ out after)
    · exact leads_goOn g out after

theorem leads_startCloudChat
    (hUnset : g.retiredChat row = true → g.Unsettled row.dispatchId) :
    Leads g after (g.startCloudChat out row now after) := by
  unfold startCloudChat
  split
  · split
    · exact .of_same _ (putHandoff_dispatches g row.dispatchId (.allocating out.uuid)) rfl rfl (leads_park rfl)
    · exact leads_send g _ row now after
  · exact leads_park rfl
  · exact leads_sendChat g out row _ now after
  · next hRet => exact leads_cloudRefusal fun _ => hUnset (by simp [retiredChat, hRet])

theorem leads_startCloudAgent (g : Gate) (out : Outside) (row : DispatchRow) (payload : DispatchPayload)
    (now : Nat) (after : After) : Leads g after (g.startCloudAgent out row payload now after) := by
  unfold startCloudAgent
  split
  · exact leads_goOn g out after
  · split
    · exact leads_send g _ row now after
    · exact leads_send g _ row now after

theorem retiredChat_congr {row' : DispatchRow} (hHandoffs : g'.handoffs = g.handoffs)
    (hId : row'.dispatchId = row.dispatchId) : g'.retiredChat row' = g.retiredChat row := by
  unfold retiredChat handoff
  rw [hHandoffs, hId]

/-- The cloud branch of `row` fails without a call. -/
def failsAtOnce (g : Gate) (row : DispatchRow) : Bool :=
  row.state = .cloudCommitted && (cloudUnsupportedCapabilities row.request.requiredCapabilities ≠ [] ||
    row.payloadJson = none || (row.request.kind = .chat && g.retiredChat row))

variable {id : String}

theorem Unsettled.of_onward (h : g.Unsettled id)
    (hStates : ∀ row', g'.dispatchRow id = some row' → ∃ row, g.dispatchRow id = some row ∧ row'.state = row.state) :
    g'.Unsettled id := by
  intro row' hRow' hTerm
  obtain ⟨row, hRow, hSt⟩ := hStates row' hRow'
  apply h row hRow
  rw [DispatchRow.Terminal, ← hSt]
  exact hTerm

theorem Quiet.unsettled (hQuiet : Quiet patch)
    (h : g.Unsettled id) : (g.update id patch).Unsettled id := by
  refine h.of_onward fun row' hRow' => ?_
  rw [g.dispatchRow_update hQuiet.id, if_pos rfl] at hRow'
  obtain ⟨row, hRow, rfl⟩ := Option.map_eq_some_iff.mp hRow'
  exact ⟨row, hRow, hQuiet.state row⟩

theorem leads_runCloudBranch
    (hUnset : g.failsAtOnce row = true → g.Unsettled row.dispatchId)
    (hPay : row.payloadJson = none → ∀ stored, g.dispatchRow row.dispatchId = some stored →
      stored.payloadJson = none) : Leads g after (g.runCloudBranch out row now after) := by
  unfold runCloudBranch
  split
  · exact leads_goOn g out after
  · next hSt =>
    have hComm : row.state = .cloudCommitted := by simpa using hSt
    split
    · next hUnsupported =>
      apply leads_patchAndSettle
      have hSettling : Settling
          (unsupportedPatch (cloudUnsupportedCapabilities row.request.requiredCapabilities)) :=
        ⟨fun _ => rfl, fun _ => rfl, fun _ _ => rfl, fun _ _ => rfl⟩
      exact hSettling.onward now (hUnset (by simp [failsAtOnce, hComm, hUnsupported]))
    · split
      · next hNone =>
        apply leads_patchAndSettle
        exact onward_patchDispatch (hUnset (by simp [failsAtOnce, hComm, hNone])) (fun _ => rfl)
          (fun _ => rfl) (fun _ h => h) (fun stored hStored _ => hPay hNone stored hStored)
      · next payload hSome =>
        refine .of_onward (quiet_attemptPatch.onward g row.dispatchId) rfl rfl ?_
        unfold attempt
        split
        · next hKind =>
          refine leads_startCloudChat fun hRet => ?_
          have hId := (g.update row.dispatchId attemptPatch).current_id row
          rw [retiredChat_congr (g.update_handoffs row.dispatchId attemptPatch) hId] at hRet
          rw [hId]
          exact quiet_attemptPatch.unsettled (hUnset (by simp [failsAtOnce, hComm, hKind, hRet]))
        · exact leads_startCloudAgent _ out _ payload now after

theorem settling_blockedPatch (refusal : Refusal) : Settling (blockedPatch refusal) :=
  ⟨fun _ => rfl, fun _ => rfl, fun _ _ => rfl, fun _ _ => rfl⟩

theorem settling_committedPatch (reason : String) (now : Nat) : Settling (committedPatch reason now) :=
  ⟨fun _ => rfl, fun _ => rfl, fun _ h => h, fun _ h => absurd h Bool.false_ne_true⟩

theorem Settling.unsettled (h : Settling patch) (g : Gate)
    (row : DispatchRow) (now : Nat) (hSt : ∀ stored, isTerminalDispatchState (patch stored).state = false) :
    (g.patchDispatch row patch now).Unsettled row.dispatchId := by
  intro stored hStored hTerm
  rw [g.dispatchRow_patchDispatch h.id, if_pos rfl] at hStored
  obtain ⟨old, hOld, rfl⟩ := Option.map_eq_some_iff.mp hStored
  have hNot := hSt old
  rw [DispatchRow.Terminal, patched_state, hNot] at hTerm
  exact Bool.noConfusion hTerm

theorem current_payload (g : Gate) (row : DispatchRow) (hNone : (g.current row).payloadJson = none)
    (stored : DispatchRow) (hStored : g.dispatchRow (g.current row).dispatchId = some stored) :
    stored.payloadJson = none := by
  rw [current_id] at hStored
  rw [← current_of_some hStored]
  exact hNone

variable {reason : String}

theorem leads_commitToCloud (hUnsettled : g.Unsettled row.dispatchId) :
    Leads g after (g.commitToCloud out row now reason after) := by
  unfold commitToCloud
  refine .of_onward ((settling_committedPatch reason now).onward now hUnsettled) rfl rfl ?_
  apply leads_runCloudBranch
  · intro _
    rw [current_id]
    exact (settling_committedPatch reason now).unsettled g row now (fun _ => rfl)
  · exact current_payload _ row

theorem leads_resolveUnaccepted (hUnsettled : g.Unsettled row.dispatchId) :
    Leads g after (g.resolveUnaccepted out row now reason after) := by
  have hWithdrawn : (g.withdrawOffers row.dispatchId none).Unsettled row.dispatchId := hUnsettled
  unfold resolveUnaccepted
  split
  · exact leads_goOn g out after
  · refine .of_same _ (show (g.withdrawOffers row.dispatchId none).dispatches = g.dispatches from rfl) rfl rfl ?_
    split
    · split
      · exact leads_patchAndSettle ((settling_blockedPatch _).onward now hWithdrawn)
      · exact leads_commitToCloud hWithdrawn
    · exact leads_patchAndSettle ((settling_blockedPatch _).onward now hWithdrawn)

/-! ## The rows handlers hold across an await -/

def movesRow (g : Gate) (row : DispatchRow) (now : Nat) : Bool :=
  row.offerLapsed now || (row.retryDue now && g.failsAtOnce row) ||
    (!row.retryDue now && leased row.state && row.leaseLapsed now)

def movesTask (g : Gate) (task : Task) (answer : Answer) : Option DispatchRow :=
  match task, answer with
  | .cloud (.admitting _) row _ _, .refused status _ _ => if retries status row then none else some row
  | .cloud (.admitting _) row _ _, .unregistered => some row
  | .cloud (.admitting _) row _ _, .ok _ _ => if g.retiredChat row then some row else none
  | .cloud (.sent _ (.pi _)) row _ _, .ok _ _ => some row
  | .cloud (.accepted _ (.session _) _ _) row _ _, .read => some row
  | .cloud (.accepted _ (.pi _) _ _) row _ _, .read => some row
  | .cloud (.refused _ status _ _) row _ _, .read => if retries status row then none else some row
  | _, _ => none

def movedBlindly (g : Gate) : Event → Option DispatchRow
  | .turn _ =>
    match g.expiring with
    | some (now, row :: _) => if g.movesRow row now then some row else none
    | _ => none
  | .resume _ task answer =>
    if g.expiring.isSome then none else g.tasks[task]?.bind (fun parked => g.movesTask parked answer)
  | _ => none

def RereadsSettled (g : Gate) (event : Event) : Prop :=
  ∀ row ∈ g.movedBlindly event, ∀ stored ∈ g.dispatchRow row.dispatchId, ¬ stored.Terminal

instance (g : Gate) (event : Event) : Decidable (RereadsSettled g event) := by
  unfold RereadsSettled
  infer_instance

theorem leads_expireRow
    (hUnset : g.movesRow row now = true → g.Unsettled row.dispatchId)
    (hPay : row.payloadJson = none → ∀ stored, g.dispatchRow row.dispatchId = some stored →
      stored.payloadJson = none) : Leads g after (g.expireRow out row now after) := by
  unfold expireRow
  split
  · next hOffer => exact leads_resolveUnaccepted (hUnset (by simp [movesRow, hOffer]))
  · split
    · next hRetry =>
      exact leads_runCloudBranch (fun hFails => hUnset (by simp [movesRow, hRetry, hFails])) hPay
    · next hRetry =>
      split
      · next hClaim =>
        refine leads_resolveUnaccepted (hUnset ?_)
        simp [movesRow, hRetry, hClaim.1, hClaim.2, leased]
      · split
        · next hLease =>
          have hSettling : Settling (reconcilePatch row.state) :=
            ⟨fun _ => rfl, fun _ => rfl, fun _ h => h, fun _ h => absurd h Bool.false_ne_true⟩
          refine .of_onward (hSettling.onward now (hUnset ?_)) rfl rfl (leads_goOn _ out after)
          simp [movesRow, hRetry, hLease.1, hLease.2]
        · split
          · exact .of_onward (quiet_dropPayloadPatch.onward g row.dispatchId) rfl rfl (leads_goOn _ out after)
          · exact leads_goOn g out after

/-! ## Handlers that read their row in the segment they patch it -/

theorem unsettled_of_read (hRow : g.dispatchRow id = some row)
    (hSt : isTerminalDispatchState row.state = false) : g.Unsettled row.dispatchId := by
  intro stored hStored hTerm
  rw [dispatchRow_id hRow] at hStored
  obtain rfl : row = stored := Option.some.inj (hRow.symm.trans hStored)
  rw [DispatchRow.Terminal, hSt] at hTerm
  exact Bool.noConfusion hTerm

theorem Leads.refl (g : Gate) : Leads g .returns g := ⟨.refl g, fun _ h => .inl h⟩

theorem leads_schedule (g : Gate) (out : Outside) (now : Nat) (preserve : Bool) :
    Leads g .returns (g.scheduleAlarm out now preserve) :=
  .of_same (g.scheduleAlarm out now preserve) (by simp) (by simp) (by simp) (.refl _)

theorem Leads.returns (h : Leads g after g') (hRows : after.rows = []) :
    Leads g .returns g' :=
  ⟨h.onward, fun row hRow => (h.held row hRow).imp_right fun hMem => by simp [hRows] at hMem⟩

variable {attachment : Attachment}

theorem leads_handleClaim
    {claimRequestId : String} (hRow : g.dispatchRow id = some row) :
    Leads g .returns (g.handleClaim out attachment row claimRequestId now) := by
  unfold handleClaim
  split
  · exact .refl g
  · split
    · exact .refl g
    · next hOffering =>
      split
      · exact .refl g
      · have hSt : row.state = .offering := by
          by_contra hNe
          exact hOffering (.inl hNe)
        have hUnset := unsettled_of_read hRow (by rw [hSt]; rfl)
        have hSettling : Settling (claimedPatch attachment now) :=
          ⟨fun _ => rfl, fun _ => rfl, fun _ h => h, fun _ h => absurd h Bool.false_ne_true⟩
        refine .of_same ((g.setOffer row.dispatchId attachment.deviceId .claimed).withdrawOffers row.dispatchId
          (some attachment.deviceId)) rfl rfl rfl ?_
        exact .of_onward (hSettling.onward now hUnset) rfl rfl (leads_schedule _ out now true)

theorem settling_completedPatch (outcome : Outcome) (resultJson errorCode errorMessage : Option String) :
    Settling (completedPatch outcome resultJson errorCode errorMessage) :=
  ⟨fun _ => rfl, fun _ => rfl, fun _ _ => rfl, fun _ _ => rfl⟩

variable {state : DispatchState}

theorem settling_leasePatch (startedAt : Option Nat) (now : Nat)
    (hSt : isTerminalDispatchState state = false) : Settling (leasePatch state startedAt now) :=
  ⟨fun _ => rfl, fun _ => rfl, fun _ h => h, fun _ h => absurd (hSt.symm.trans h) Bool.false_ne_true⟩

theorem owned_not_terminal (h : owned state = true ∨ state = .cancelPending) :
    isTerminalDispatchState state = false := by
  cases state <;> simp_all [owned, isTerminalDispatchState]

theorem renewedState_not_terminal (h : isTerminalDispatchState row.state = false) :
    isTerminalDispatchState (renewedState row) = false := by
  unfold renewedState
  split
  · split <;> rfl
  · exact h

theorem leads_handleRelease (hUnsettled : g.Unsettled row.dispatchId) :
    Leads g .returns (g.handleRelease out attachment row reason now) := by
  have hSettling : Settling releasedPatch :=
    ⟨fun _ => rfl, fun _ => rfl, fun _ h => h, fun _ h => absurd h Bool.false_ne_true⟩
  refine .of_onward (hSettling.onward now hUnsettled) rfl rfl ?_
  refine .of_same ((g.patchDispatch row releasedPatch now).setOffer row.dispatchId attachment.deviceId
    .withdrawn) rfl rfl rfl ?_
  apply leads_resolveUnaccepted
  rw [current_id]
  exact hSettling.unsettled g row now (fun _ => rfl)

theorem leads_handleOwnedFrame
    {frame : Frame} (hRow : g.dispatchRow id = some row) :
    Leads g .returns (g.handleOwnedFrame out attachment row frame now) := by
  have hRead : isTerminalDispatchState row.state = false → g.Unsettled row.dispatchId := unsettled_of_read hRow
  cases frame with
  | claim claimRequestId => exact .refl g
  | release reason =>
    simp only [handleOwnedFrame]
    split
    · exact .refl g
    · next hSt =>
      have hClaimed : row.state = .computerClaimed := by simpa using hSt
      exact leads_handleRelease (hRead (by rw [hClaimed]; rfl))
  | ack =>
    simp only [handleOwnedFrame]
    split
    · exact .refl g
    · next hGuard =>
      have hClaimed : row.state = .computerClaimed := by
        by_contra hNe
        exact hGuard (.inl hNe)
      have hSettling : Settling (ackPatch now) :=
        ⟨fun _ => rfl, fun _ => rfl, fun _ _ => rfl, fun _ _ => rfl⟩
      refine .of_onward (hSettling.onward now (hRead (by rw [hClaimed]; rfl))) rfl rfl ?_
      exact .of_same _ (note_dispatches _ _) rfl rfl (.refl _)
  | running =>
    simp only [handleOwnedFrame]
    split
    · exact .refl g
    · next hOwned =>
      have hNot := owned_not_terminal (.inl (by simpa using hOwned))
      exact .of_onward ((settling_leasePatch _ now rfl).onward now (hRead hNot)) rfl rfl (.refl _)
  | renew =>
    simp only [handleOwnedFrame]
    split
    · exact .refl g
    · next hOwned =>
      have hNot := owned_not_terminal (not_not.mp hOwned)
      have hSettling := settling_leasePatch none now (renewedState_not_terminal hNot)
      exact .of_onward (hSettling.onward now (hRead hNot)) rfl rfl (.refl _)
  | complete outcome resultJson errorCode errorMessage =>
    simp only [handleOwnedFrame]
    split
    · exact .refl g
    · next hOwned =>
      have hNot := owned_not_terminal (not_not.mp hOwned)
      have hSettling := settling_completedPatch outcome resultJson errorCode errorMessage
      exact (leads_patchAndSettle (hSettling.onward now (hRead hNot))).returns rfl

theorem leads_handleExecutorFrame (g : Gate) (out : Outside) (attachment : Attachment) (id : String)
    (frame : Frame) (now : Nat) : Leads g .returns (g.handleExecutorFrame out attachment id frame now) := by
  unfold handleExecutorFrame
  split
  · exact .refl g
  · next row hRow =>
    split
    · exact leads_handleClaim hRow
    · split
      · exact leads_handleOwnedFrame hRow
      · exact .refl g

theorem leads_dispatchStatus (g : Gate) (out : Outside) (id : String) (now : Nat) :
    Leads g .returns (g.dispatchStatus out id now) := by
  unfold dispatchStatus
  split
  · exact .refl g
  · next row hRow =>
    split
    · exact .refl g
    · next receipt hReceipt =>
      split
      · exact .refl g
      · next hSt =>
        have hSettling : Settling (receiptPatch receipt) :=
          ⟨fun _ => rfl, fun _ => rfl, fun _ _ => rfl, fun _ _ => rfl⟩
        have hUnset := unsettled_of_read hRow (by simpa using hSt)
        exact (leads_patchAndSettle (hSettling.onward now hUnset)).returns rfl

theorem keepReceipt_eq (g : Gate) (receipt : CloudDispatchTerminal) : ∃ terminals,
    g.keepReceipt receipt = { g with terminals := terminals } := by
  unfold keepReceipt
  split
  · exact ⟨g.terminals, rfl⟩
  · exact ⟨_, rfl⟩

theorem leads_recordCloudDispatchTerminal (g : Gate) (out : Outside) (receipt : CloudDispatchTerminal) (now : Nat) :
    Leads g .returns (g.recordCloudDispatchTerminal out receipt now) := by
  obtain ⟨terminals, hKept⟩ := g.keepReceipt_eq receipt
  unfold recordCloudDispatchTerminal
  rw [hKept]
  split
  · exact .of_same ({ g with terminals := terminals }) rfl rfl rfl (.refl _)
  · exact .of_same ({ g with terminals := terminals }) rfl rfl rfl (leads_dispatchStatus _ out _ now)

theorem leads_stopRunning {cancelRequestId : String} (hUnsettled : g.Unsettled row.dispatchId) :
    Leads g .returns (g.stopRunning out row cancelRequestId reason now) := by
  have hSettling : Settling (cancelPendingPatch cancelRequestId reason) :=
    ⟨fun _ => rfl, fun _ => rfl, fun _ h => h, fun _ h => absurd h Bool.false_ne_true⟩
  unfold stopRunning
  split
  · exact .of_onward (hSettling.onward now hUnsettled) rfl rfl (leads_park rfl)
  · exact .of_onward (hSettling.onward now hUnsettled) rfl rfl (leads_schedule _ out now true)

theorem leads_cancelDispatch (g : Gate) (out : Outside) (id cancelRequestId reason : String) (now : Nat) :
    Leads g .returns (g.cancelDispatch out id cancelRequestId reason now) := by
  unfold cancelDispatch
  split
  · exact .refl g
  · next row hRow =>
    split
    · exact .refl g
    · split
      · split
        · exact .of_same _ (note_dispatches g _) rfl rfl (.refl _)
        · exact .refl g
      · next hSt =>
        have hUnset := unsettled_of_read hRow (by simpa using hSt)
        split
        · have hSettling : Settling (canceledPatch cancelRequestId reason) :=
            ⟨fun _ => rfl, fun _ => rfl, fun _ _ => rfl, fun _ _ => rfl⟩
          refine Leads.of_same ((g.withdrawOffers id none).note (.canceled id)) rfl rfl rfl ?_
          have hStill : ((g.withdrawOffers id none).note (.canceled id)).Unsettled row.dispatchId := hUnset
          exact (leads_patchAndSettle (hSettling.onward now hStill)).returns rfl
        · refine Leads.of_same (g.withdrawOffers id none) rfl rfl rfl ?_
          exact leads_stopRunning hUnset

theorem leads_unregister (g : Gate) (turnId : String) : Leads g .returns (g.unregister turnId) := by
  unfold unregister
  split
  · exact .refl g
  · next entry hEnt =>
    refine .of_same _ (putHandoff_dispatches g entry.1 (.retired turnId)) rfl rfl ?_
    exact .of_onward ((quiet_gatePatch false).onward _ entry.1) rfl rfl (.refl _)

/-! ## Parked handlers and whole segments -/

variable {answer : Answer}

theorem leads_admitted {turnId : String} (hResult : g.admitted out turnId row now after answer = some g')
    (hUnsettled : (g.movesTask (.cloud (.admitting turnId) row now after) answer).isSome →
      g.Unsettled row.dispatchId) : Leads g after g' := by
  have hGate := quiet_gatePatch true
  cases answer with
  | threw => cases hResult; exact leads_goOn g out after
  | refused status code message =>
    cases hResult
    exact leads_cloudRefusal fun hRetries => hUnsettled (by simp [movesTask, hRetries])
  | unregistered =>
    cases hResult
    refine .of_onward (hGate.onward g row.dispatchId) rfl rfl ?_
    exact leads_cloudRefusal fun _ => hGate.unsettled (hUnsettled (by simp [movesTask]))
  | ok sentTurn sentThread =>
    simp only [admitted] at hResult
    split at hResult
    · next hRetired =>
      cases hResult
      refine .of_onward (hGate.onward g row.dispatchId) rfl rfl ?_
      exact leads_cloudRefusal fun _ => hGate.unsettled (hUnsettled (by simp [movesTask, hRetired]))
    · cases hResult
      refine .of_onward (hGate.onward g row.dispatchId) rfl rfl ?_
      exact .of_same _ (putHandoff_dispatches _ row.dispatchId (.registered turnId)) rfl rfl
        (leads_sendChat _ out _ turnId now after)
  | read => cases hResult

theorem leads_startRefused (g : Gate) (out : Outside) (start : Nat) (via : Via) (row : DispatchRow) (now : Nat)
    (after : After) (status : Nat) (code message : String) :
    Leads g after (g.startRefused out start via row now after status code message) := by
  unfold startRefused
  split
  · exact .of_same _ (note_dispatches g (.refused row.dispatchId start)) rfl rfl (leads_park rfl)
  · next turnId hRetires =>
    split
    · refine .of_same _ (note_dispatches g (.refused row.dispatchId start)) rfl rfl ?_
      exact .of_same _ (putHandoff_dispatches _ row.dispatchId (.retired turnId)) rfl rfl (leads_park rfl)
    · exact .of_same _ (note_dispatches g (.refused row.dispatchId start)) rfl rfl (leads_goOn _ out after)

theorem settling_runningPatch (turnId threadId : Option String) (now : Nat) :
    Settling (runningPatch turnId threadId now) :=
  ⟨fun _ => rfl, fun _ => rfl, fun _ _ => rfl, fun _ _ => rfl⟩

variable {start : Nat} {via : Via}

theorem leads_answered (hResult : g.answered out start via row now after answer = some g')
    (hUnsettled : (g.movesTask (.cloud (.sent start via) row now after) answer).isSome →
      g.Unsettled row.dispatchId) : Leads g after g' := by
  cases answer with
  | threw => cases hResult; exact leads_goOn g out after
  | ok turnId threadId =>
    cases via with
    | chat turn => cases hResult; exact leads_park rfl
    | session thread => cases hResult; exact leads_park rfl
    | pi thread =>
      cases hResult
      have hStill : g.Unsettled row.dispatchId := hUnsettled (by simp [movesTask])
      have hReleased : (g.releaseGate row).Unsettled row.dispatchId := by
        unfold releaseGate
        split
        · exact (quiet_gatePatch false).unsettled hStill
        · exact hStill
      refine .of_onward (onward_releaseGate g row) (by simp) (by simp) ?_
      exact .of_onward ((settling_runningPatch _ _ now).onward now hReleased) rfl rfl (leads_goOn _ out after)
  | refused status code message =>
    cases via with
    | chat turn => cases hResult; exact leads_startRefused g out start _ row now after status code message
    | session thread => cases hResult; exact leads_startRefused g out start _ row now after status code message
    | pi thread => cases hResult
  | unregistered => cases hResult
  | read => cases hResult

theorem leads_bodyRead {turnId threadId : Option String}
    (hRes : g.bodyRead out via turnId threadId row now after answer = some g')
    (hUnset : (g.movesTask (.cloud (.accepted start via turnId threadId) row now after) answer).isSome →
      g.Unsettled row.dispatchId) : Leads g after g' := by
  have hRuns : ∀ turn thread, g.Unsettled row.dispatchId →
      Leads g after ((g.patchDispatch row (runningPatch turn thread now) now).goOn out after) := fun turn thread h =>
    .of_onward ((settling_runningPatch turn thread now).onward now h) rfl rfl (leads_goOn _ out after)
  cases answer with
  | threw => cases hRes; exact leads_goOn g out after
  | read =>
    cases via with
    | session thread => cases hRes; exact hRuns _ _ (hUnset (by simp [movesTask]))
    | pi thread => cases hRes; exact hRuns _ _ (hUnset (by simp [movesTask]))
    | chat registered =>
      simp only [bodyRead] at hRes
      split at hRes
      · cases hRes; exact leads_goOn g out after
      · split at hRes
        · cases hRes; exact leads_goOn g out after
        · next hComm =>
          cases hRes
          refine hRuns _ _ fun stored hStored hTerm => hComm ?_
          rw [hStored, Option.any_some, decide_eq_true_eq]
          rintro hSt
          rw [DispatchRow.Terminal, hSt] at hTerm
          exact Bool.noConfusion hTerm
  | ok turn thread => cases hRes
  | refused status code message => cases hRes
  | unregistered => cases hRes

theorem resume_onward
    (hRes : g.resume out task answer = some g')
    (hUnset : ∀ row ∈ g.movesTask task answer, g.Unsettled row.dispatchId) :
    Onward g g' ∧ ∀ row ∈ g'.held, row ∈ g.held ∨ row ∈ task.rows ∨ row ∈ g.dispatches := by
  have hLead : ∀ {after : After}, Leads g after g' → (∀ row ∈ after.rows, row ∈ task.rows) →
      Onward g g' ∧ ∀ row ∈ g'.held, row ∈ g.held ∨ row ∈ task.rows ∨ row ∈ g.dispatches :=
    fun h hRows => ⟨h.onward, fun row hRow => (h.held row hRow).imp_right fun hMem => .inl (hRows row hMem)⟩
  have hMoves : ∀ stage row now after, task = .cloud stage row now after →
      (g.movesTask task answer).isSome → g.Unsettled row.dispatchId := by
    rintro stage row now after rfl hSome
    obtain ⟨moved, hMoved⟩ := Option.isSome_iff_exists.mp hSome
    have hEq : moved = row := by
      unfold movesTask at hMoved
      split at hMoved <;> simp_all
    exact hEq ▸ hUnset moved hMoved
  cases task with
  | cloud stage row now after =>
    have hStill := hMoves stage row now after rfl
    cases stage with
    | admitting turnId => exact hLead (leads_admitted hRes hStill) fun _ h => h
    | sent start via => exact hLead (leads_answered hRes hStill) fun _ h => h
    | accepted start via turnId threadId =>
      exact hLead (leads_bodyRead hRes hStill) fun _ h => h
    | refused start status code message =>
      cases answer with
      | read =>
        cases hRes
        refine hLead (leads_cloudRefusal fun hRetries => hStill ?_) fun _ h => h
        simp [movesTask, hRetries]
      | threw => cases hRes
      | ok turn thread => cases hRes
      | refused status code message => cases hRes
      | unregistered => cases hRes
  | reporting row after =>
    cases answer with
    | read =>
      cases hRes
      exact hLead (.of_onward (onward_releaseGate g row) (by simp) (by simp) (leads_goOn _ out after)) fun _ h => h
    | threw => cases hRes
    | ok turn thread => cases hRes
    | refused status code message => cases hRes
    | unregistered => cases hRes
  | stopping now =>
    cases answer with
    | read =>
      cases hRes
      exact hLead (leads_schedule g out now true) (by simp [After.rows])
    | threw => cases hRes
    | ok turn thread => cases hRes
    | refused status code message => cases hRes
    | unregistered => cases hRes
  | waking now =>
    have hSelected : ∀ base : Gate, base.dispatches = g.dispatches → base.tasks = g.tasks →
        Onward g (base.expire now) ∧ ∀ row ∈ (base.expire now).held,
          row ∈ g.held ∨ row ∈ (Task.waking now).rows ∨ row ∈ g.dispatches := by
      intro base hRows hTasks
      refine ⟨.of_dispatches hRows, fun row hRow => ?_⟩
      simp only [expire, Gate.held, Option.elim_some, mem_append, hTasks] at hRow
      obtain hSelected | hTask := hRow
      · right; right
        have hSort := mem_of_mem_take hSelected
        rw [mem_insertionSort] at hSort
        exact hRows ▸ mem_of_mem_filter hSort
      · exact .inl (mem_append_right _ hTask)
    cases answer with
    | read =>
      simp only [resume] at hRes
      split at hRes
      · cases hRes; exact hSelected _ (by simp) (by simp)
      · cases hRes; exact hSelected g rfl rfl
    | threw => cases hRes; exact hLead (leads_schedule g out now false) (by simp [After.rows])
    | ok turn thread => cases hRes
    | refused status code message => cases hRes
    | unregistered => cases hRes
  | woken now =>
    cases answer with
    | read => cases hRes; exact hLead (leads_schedule g out now false) (by simp [After.rows])
    | threw => cases hRes
    | ok turn thread => cases hRes
    | refused status code message => cases hRes
    | unregistered => cases hRes

/-! ## Runs -/

/-- What holds between segments: one row for an id, no payload in a settled
row, and no payload where the alarm saw none. -/
structure Orderly (g : Gate) : Prop where
  ids : g.ids.Nodup
  clean : ∀ id row, g.dispatchRow id = some row → row.Terminal → row.payloadJson = none
  held : ∀ row ∈ g.held, ∃ stored, g.dispatchRow row.dispatchId = some stored ∧
    (row.payloadJson = none → stored.payloadJson = none)

theorem Orderly.onward (h : Orderly g) (hOn : Onward g g')
    (hHeld : ∀ row ∈ g'.held, row ∈ g.held ∨ row ∈ g.dispatches) : Orderly g' where
  ids := by rw [hOn.ids]; exact h.ids
  clean id row' hRow' hTerm := by
    obtain ⟨row, hRow, hEvolves⟩ := hOn.back id row' hRow'
    obtain hSettled | hNone := hEvolves.clean hTerm
    · exact hEvolves.payload (h.clean id row hRow hSettled)
    · exact hNone
  held row hRow := by
    have hStored : ∃ stored, g.dispatchRow row.dispatchId = some stored ∧
        (row.payloadJson = none → stored.payloadJson = none) := by
      obtain hOld | hNew := hHeld row hRow
      · exact h.held row hOld
      · exact ⟨row, dispatchRow_of_mem h.ids hNew, id⟩
    obtain ⟨stored, hStored, hPay⟩ := hStored
    obtain ⟨stored', hStored', hEvolves⟩ := hOn.forth _ stored hStored
    exact ⟨stored', hStored', fun hNone => hEvolves.payload (hPay hNone)⟩

variable {submission : Submission}

theorem committed_clean {fallback : Fallback} (hRow : submission.committed out now fallback reason = some row) :
    row.Terminal → row.payloadJson = none := by
  unfold Submission.committed at hRow
  split at hRow
  · cases hRow
  · cases hRow; exact fun h => absurd h Bool.false_ne_true

theorem submission_row_clean
    (hRow : submission.row out now = some row) : row.Terminal → row.payloadJson = none := by
  unfold Submission.row at hRow
  split at hRow
  · exact committed_clean hRow
  · obtain ⟨deviceId, -, rfl⟩ := Option.map_eq_some_iff.mp hRow
    exact fun _ => rfl
  · cases hRow; exact fun _ => rfl
  · split at hRow
    · cases hRow
    · split at hRow
      · cases hRow; exact fun h => absurd h Bool.false_ne_true
      · split at hRow
        · exact committed_clean hRow
        · cases hRow; exact fun _ => rfl

theorem Orderly.insert (h : Orderly g) (hFresh : g.dispatchRow row.dispatchId = none)
    (hClean : row.Terminal → row.payloadJson = none) :
    Orderly { g with dispatches := g.dispatches ++ [row] } := by
  have hOld : ∀ id stored, g.dispatchRow id = some stored →
      { g with dispatches := g.dispatches ++ [row] }.dispatchRow id = some stored := by
    intro id stored hStored
    rw [g.dispatchRow_append, hStored, Option.some_or]
  refine ⟨?_, ?_, ?_⟩
  · exact nodup_ids_append h.ids hFresh
  · intro id stored hStored hTerm
    rw [g.dispatchRow_append] at hStored
    cases hRow : g.dispatchRow id with
    | some old =>
      rw [hRow, Option.some_or] at hStored
      obtain rfl := Option.some.inj hStored
      exact h.clean id _ hRow hTerm
    | none =>
      rw [hRow, Option.none_or] at hStored
      have hMem := mem_of_find?_eq_some hStored
      rw [mem_singleton] at hMem
      exact hMem ▸ hClean (hMem ▸ hTerm)
  · intro held hHeld
    obtain ⟨stored, hStored, hPay⟩ := h.held held hHeld
    exact ⟨stored, hOld _ stored hStored, hPay⟩

theorem leads_route (out : Outside) (candidates : List Attachment) (now : Nat)
    (hRow : g.dispatchRow row.dispatchId = some row) : Leads g .returns (g.route out row candidates now) := by
  unfold route
  split
  · exact .of_same (g.openOffers row candidates) rfl rfl rfl (leads_schedule _ out now true)
  · split
    · next hSt =>
      refine Leads.returns (leads_runCloudBranch (fun _ => ?_) ?_) rfl
      · exact unsettled_of_read hRow (by rw [hSt]; rfl)
      · intro hNone stored hStored
        obtain rfl : row = stored := Option.some.inj (hRow.symm.trans hStored)
        exact hNone
    · exact leads_schedule g out now true

structure Keeping (g g' : Gate) : Prop where
  forth : ∀ id row, g.dispatchRow id = some row → ∃ row', g'.dispatchRow id = some row' ∧ Evolves row row'
  orderly : Orderly g → Orderly g'

theorem Leads.keeping (h : Leads g₁ after g')
    (hRows : g₁.dispatches = g.dispatches) (hHeld : ∀ row, row ∈ g₁.held ∨ row ∈ after.rows → row ∈ g.held) :
    Keeping g g' := by
  have hOn : Onward g g' := (Onward.of_dispatches hRows).trans h.onward
  exact ⟨hOn.forth, fun hOrderly => hOrderly.onward hOn fun row hRow => .inl (hHeld row (h.held row hRow))⟩

theorem keeping_submit (out : Outside) (submission : Submission) (now : Nat)
    (hFresh : g.dispatchRow submission.dispatchId = none) : Keeping g (g.submit out submission now) := by
  have hRefl : Keeping g g := ⟨fun _ row h => ⟨row, h, .refl row⟩, id⟩
  unfold submit
  split
  · exact hRefl
  · split
    · exact hRefl
    · next row hRow =>
      have hClean := submission_row_clean hRow
      rw [← submission_row_id hRow] at hFresh
      have hInserted : { g with dispatches := g.dispatches ++ [row] }.dispatchRow row.dispatchId = some row := by
        rw [g.dispatchRow_append, hFresh, Option.none_or]
        exact find?_cons_of_pos (by simp)
      have hLeads := leads_route out submission.candidates now hInserted
      constructor
      · intro id stored hStored
        have hBeside : { g with dispatches := g.dispatches ++ [row] }.dispatchRow id = some stored := by
          rw [g.dispatchRow_append, hStored, Option.some_or]
        exact hLeads.onward.forth id stored hBeside
      · intro hOrderly
        refine (hOrderly.insert hFresh hClean).onward hLeads.onward fun held hHeld => ?_
        exact (hLeads.held held hHeld).imp_right fun hMem => by simp [After.rows] at hMem

theorem keeping_step {event : Event} (hOrderly : Orderly g) (hRereads : g.RereadsSettled event) :
    Keeping g (g.step event) := by
  have hRefl : Keeping g g := ⟨fun _ row h => ⟨row, h, .refl row⟩, id⟩
  have hSimple : ∀ {g₁ g' : Gate}, Leads g₁ .returns g' → g₁.dispatches = g.dispatches → g₁.tasks = g.tasks →
      g₁.expiring = g.expiring → Keeping g g' := by
    intro g₁ g' h hRows hTasks hExpiring
    have hHeld : g₁.held = g.held := by rw [held, held, hTasks, hExpiring]
    refine h.keeping hRows fun row hRow => ?_
    rw [hHeld] at hRow
    exact hRow.resolve_right (by simp [After.rows])
  unfold step segment
  split
  · next out =>
    split
    · exact hRefl
    · next now hExpiring =>
      have hLeads : Leads { g with expiring := none } .returns ({ g with expiring := none }.park (.woken now)) :=
        leads_park rfl
      refine hLeads.keeping rfl fun row hRow => ?_
      obtain hMem | hMem := hRow
      · exact mem_append_right _ (by simpa [held] using hMem)
      · simp [After.rows] at hMem
    · next now row rest hExpiring =>
      have hMem : row ∈ g.held := by simp [held, hExpiring]
      obtain ⟨stored, hStored, hPay⟩ := hOrderly.held row hMem
      have hLeads : Leads { g with expiring := none } (.alarm now rest)
          ({ g with expiring := none }.expireRow out row now (.alarm now rest)) := by
        refine leads_expireRow (fun hMoves => ?_) ?_
        · intro stored' hStored'
          have hMoves' : g.movesRow row now = true := hMoves
          have hBlind : row ∈ g.movedBlindly (.turn out) := by simp [movedBlindly, hExpiring, hMoves']
          exact hRereads row hBlind stored' hStored'
        · intro hNone stored' hStored'
          obtain rfl : stored = stored' := Option.some.inj (hStored.symm.trans hStored')
          exact hPay hNone
      refine hLeads.keeping rfl fun row' hRow' => ?_
      obtain hOld | hRest := hRow'
      · exact mem_append_right _ (by simpa [held] using hOld)
      · simp only [held, hExpiring, Option.elim_some, mem_append]
        exact .inl (mem_cons_of_mem _ hRest)
  · next hNotTurn =>
    split
    · exact hRefl
    · next hIdle =>
      split
      · split
        · exact hRefl
        · next out submission now hFresh =>
          rw [Bool.not_eq_true, Option.isSome_eq_false_iff, Option.isNone_iff_eq_none] at hFresh
          obtain ⟨hForth, hKeeps⟩ := keeping_submit (g := g.tick now) out submission now hFresh
          exact ⟨hForth, fun h => hKeeps ⟨h.ids, h.clean, h.held⟩⟩
      · exact hSimple (leads_handleExecutorFrame _ _ _ _ _ _) rfl rfl rfl
      · exact hSimple (leads_cancelDispatch _ _ _ _ _ _) rfl rfl rfl
      · exact hSimple (leads_dispatchStatus _ _ _ _) rfl rfl rfl
      · exact hSimple (leads_recordCloudDispatchTerminal _ _ _ _) rfl rfl rfl
      · exact hSimple (leads_unregister g _) rfl rfl rfl
      · exact hSimple (leads_schedule _ _ _ _) rfl rfl rfl
      · split
        · next now hDue =>
          have hLeads : Leads { g.tick now with alarm := none } .returns
              ({ g.tick now with alarm := none }.park (.waking now)) := leads_park rfl
          exact hSimple hLeads rfl rfl rfl
        · exact hRefl
      · next out task answer =>
        split
        · exact hRefl
        · next parked hParked =>
          have hSubset : ∀ row, row ∈ { g with tasks := g.tasks.eraseIdx task }.held → row ∈ g.held := by
            intro row hRow
            simp only [held, mem_append, mem_flatMap] at hRow ⊢
            exact hRow.imp_right fun ⟨t, hT, hRow⟩ => ⟨t, mem_of_mem_eraseIdx hT, hRow⟩
          have hTaskRows : ∀ row ∈ parked.rows, row ∈ g.held := fun row hRow =>
            mem_append_right _ (mem_flatMap.mpr ⟨parked, mem_of_getElem? hParked, hRow⟩)
          cases hRes : ({ g with tasks := g.tasks.eraseIdx task } : Gate).resume out parked answer with
          | none => exact hRefl
          | some g' =>
            obtain ⟨hOn, hHeld⟩ := resume_onward hRes fun row hMoves stored hStored => by
              refine hRereads row ?_ stored hStored
              have hMoves' : g.movesTask parked answer = some row := hMoves
              simp [movedBlindly, hIdle, hParked, hMoves']
            have hTaken : Onward g { g with tasks := g.tasks.eraseIdx task } := .of_dispatches rfl
            have hFrom : Onward g g' := hTaken.trans hOn
            refine ⟨hFrom.forth, fun h => h.onward hFrom fun row hRow => ?_⟩
            obtain hOld | hTask | hNew := hHeld row hRow
            · exact .inl (hSubset row hOld)
            · exact .inl (hTaskRows row hTask)
            · exact .inr hNew
      · next out => exact absurd rfl (hNotTurn out)

theorem orderly_empty : Orderly empty := ⟨nodup_nil, by simp [dispatchRow, empty], by simp [held, empty]⟩

variable {events : List Event}

theorem orderly_of_run (hOrderly : Orderly g)
    (hRun : Along step RereadsSettled g events) : Orderly (run step g events) := by
  have hStep : ∀ (g : Gate) (event : Event), Orderly g → RereadsSettled g event → Orderly (g.step event) :=
    fun _ _ h hRereads => (keeping_step h hRereads).orderly h
  exact run_invariant hStep hOrderly hRun

theorem evolves_of_run (hOrderly : Orderly g)
    (hRun : Along step RereadsSettled g events)
    (hRow : g.dispatchRow id = some row) :
    ∃ row', (run step g events).dispatchRow id = some row' ∧ Evolves row row' := by
  induction events generalizing g row with
  | nil => exact ⟨row, hRow, .refl row⟩
  | cons event events ih =>
    obtain ⟨hRereads, hRest⟩ := hRun
    have hKeeping := keeping_step hOrderly hRereads
    obtain ⟨row₁, hRow₁, hEvolves₁⟩ := hKeeping.forth id row hRow
    obtain ⟨row₂, hRow₂, hEvolves₂⟩ := ih (hKeeping.orderly hOrderly) hRest hRow₁
    exact ⟨row₂, hRow₂, hEvolves₁.trans hEvolves₂⟩

def StaysSettled (g g' : Gate) : Prop :=
  ∀ id row, g.dispatchRow id = some row → ∃ row', g'.dispatchRow id = some row' ∧
    (row.Terminal → row'.state = row.state ∧ row'.payloadJson = none) ∧
    row.revision ≤ row'.revision ∧ (row'.state ≠ row.state → row.revision < row'.revision)

/-- In a run in which no handler moves a dispatch settled since it read it,
a settled dispatch stays settled. -/
theorem staysSettled_of_run {events later : List Event}
    (hRun : Along step RereadsSettled empty (events ++ later)) :
    StaysSettled (run step empty events) (run step empty (events ++ later)) := by
  rw [along_append] at hRun
  rw [run_append]
  have hOrderly := orderly_of_run orderly_empty hRun.1
  have hLater := orderly_of_run hOrderly hRun.2
  intro id row hRow
  obtain ⟨row', hRow', hEvolves⟩ := evolves_of_run hOrderly hRun.2 hRow
  refine ⟨row', hRow', fun hTerminal => ?_, hEvolves.revision, hEvolves.bumped⟩
  have hState := hEvolves.settled hTerminal
  refine ⟨hState, hLater.clean id row' hRow' ?_⟩
  rw [DispatchRow.Terminal, hState]
  exact hTerminal

def quietOutside : Outside := ⟨[], some true, .other, "thr-1", true, false, none, true, false⟩

def cloudAgentRequest : DispatchSubmitRequest :=
  ⟨"key-0001", .agent, .browser, .portable, .cloud, none, none, none, "conversation", none, none, [.agent],
    ⟨"prompt", none⟩⟩

def stoppedWhileStarting : List Event :=
  [.submit quietOutside ⟨"dsp:1", cloudAgentRequest, "generation", false, [], none⟩ 0,
    .cancel quietOutside "dsp:1" "cancel-1" "" 1]

def startAnswered : List Event := [.resume quietOutside 0 (.ok none none), .resume quietOutside 0 .read]

/-- The stopped dispatch runs again. -/
theorem stopped_then_running : ¬ StaysSettled (run step empty stoppedWhileStarting)
    (run step empty (stoppedWhileStarting ++ startAnswered)) := by
  have hCanceled : ((run step empty stoppedWhileStarting).dispatchRow "dsp:1").map DispatchRow.state =
      some .canceled := by decide
  have hRunning : ((run step empty (stoppedWhileStarting ++ startAnswered)).dispatchRow "dsp:1").map
      DispatchRow.state = some .cloudRunning := by decide
  obtain ⟨row, hRow, hState⟩ := Option.map_eq_some_iff.mp hCanceled
  obtain ⟨row', hRow', hState'⟩ := Option.map_eq_some_iff.mp hRunning
  intro h
  obtain ⟨found, hFound, hSettled, -⟩ := h "dsp:1" row hRow
  obtain rfl := Option.some.inj (hRow'.symm.trans hFound)
  have hTerminal : row.Terminal := by rw [DispatchRow.Terminal, hState]; rfl
  have hSame := (hSettled hTerminal).1
  rw [hState, hState'] at hSame
  exact DispatchState.noConfusion hSame

def stoppedAgain : List Event := [.cancel quietOutside "dsp:1" "cancel-1" "" 2, .status quietOutside "dsp:1" 3]

/-- A stop, the same stop again and a status read meet the condition. -/
theorem staysSettled_of_stops : Along step RereadsSettled empty (stoppedWhileStarting ++ stoppedAgain) ∧
    StaysSettled (run step empty stoppedWhileStarting) (run step empty (stoppedWhileStarting ++ stoppedAgain)) :=
  ⟨by decide, staysSettled_of_run (by decide)⟩

end Gate

end Stella.OwnerGate
