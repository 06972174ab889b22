import Stella.Media.Settled

/-! # Every interleaving of starts, cancels, webhooks, polls and deadlines

A start goes on from its staging and a poll writes its answer from what was read before.
-/

namespace Stella.Media

open Stella.Rows Stella.Transition List

namespace MediaWorld

variable (price : String → String → String → Option Int) (w : MediaWorld)

structure Settled : Prop where
  quiet : ∀ row ∈ w.db.rows, row.ended = true → (∀ job ∈ w.db.polls, job.jobId ≠ row.jobId) ∧ row.jobId ∉ w.db.expires
  armed : ∀ row ∈ w.db.rows, row.ended = false → row.jobId ∈ w.db.expires
  submittedOnce : w.submitted.Nodup
  chargedOnce : (w.db.charges.map MediaCharge.jobId).Nodup
  charged : ∀ charge ∈ w.db.charges, ∃ row ∈ w.db.rows, row.jobId = charge.jobId ∧ row.status = .succeeded
  shared : ∀ a ∈ w.joined, ∀ b ∈ w.joined, a.key = b.key → a.hash = b.hash → a.jobId = b.jobId

structure Sound (input : MediaInput) : Prop where
  stays : ∀ row ∈ w.db.rows, row.ended = true →
    ∃ row' ∈ (w.step price input).db.rows, row'.jobId = row.jobId ∧ row'.status = row.status
  submits : (w.step price input).submitted = w.submitted ∨
    ∃ row ∈ w.db.rows, row.ended = false ∧ (w.step price input).submitted = w.submitted ++ [row.jobId]

def Undisturbed : MediaInput → Prop
  | .staged place (.stored _) => ∀ call ∈ w.starts[place]?, call.stage = .staging →
    ∀ row ∈ w.db.getRow call.jobId, row.status = .canceled ∨ row.ended = false
  | .asked place (.pending _) => ∀ call ∈ w.polls[place]?, call.stage = .asking →
    ∀ row ∈ w.db.getRow call.row.jobId, row.ended = false
  | _ => True

instance decidableUndisturbed : ∀ input, Decidable (w.Undisturbed input)
  | .staged place (.stored _) => inferInstanceAs (Decidable (∀ call ∈ w.starts[place]?, call.stage = .staging →
      ∀ row ∈ w.db.getRow call.jobId, row.status = .canceled ∨ row.ended = false))
  | .asked place (.pending _) => inferInstanceAs (Decidable (∀ call ∈ w.polls[place]?, call.stage = .asking →
      ∀ row ∈ w.db.getRow call.row.jobId, row.ended = false))
  | .staged _ (.threw _) | .asked _ (.succeeded _) | .asked _ (.failed _) | .asked _ .threw => .isTrue trivial
  | .startJob _ _ | .submitted _ _ | .cancelJob _ | .cancelByKey _ | .falWebhook _ _ _ _ | .runPoll _ _ | .stored _ _
  | .pollOver _ | .runExpire _ | .restart => .isTrue trivial

/-! ## The invariant -/

structure Kept (w : MediaWorld) : Prop where
  db : w.db.Kept
  started : ∀ call ∈ w.starts, (w.db.getRow call.jobId).isSome = true
  startedOnce : (w.starts.map StartCall.jobId).Nodup
  submitted : ∀ jobId ∈ w.submitted, (w.db.getRow jobId).isSome = true
  submittedOnce : w.submitted.Nodup
  staging : ∀ call ∈ w.starts, call.stage = .staging → call.jobId ∉ w.submitted
  polled : ∀ call ∈ w.polls, (w.db.getRow call.row.jobId).isSome = true
  joined : ∀ start ∈ w.joined, (start.jobId, some start.key) ∈ w.db.rows.map JobRow.named

variable {price w}

theorem kept_empty : Kept {} where
  db :=
    { ids := nodup_nil
      keys := fun _ h => absurd h not_mem_nil
      polls := fun _ h => absurd h not_mem_nil
      expires := fun _ h => absurd h not_mem_nil
      armed := fun _ _ h => nomatch h
      charged := fun _ h => absurd h not_mem_nil
      chargedOnce := nodup_nil }
  started _ h := absurd h not_mem_nil
  startedOnce := nodup_nil
  submitted _ h := absurd h not_mem_nil
  submittedOnce := nodup_nil
  staging _ h := absurd h not_mem_nil
  polled _ h := absurd h not_mem_nil
  joined _ h := absurd h not_mem_nil

theorem Kept.settled (h : w.Kept) : w.Settled where
  quiet row hRow hEnded := by
    have hFound := lookup_of_mem h.db.ids hRow
    refine ⟨fun job hJob hEq => ?_, fun hIn => ?_⟩
    · obtain ⟨other, hOther, hNot⟩ := h.db.polls job hJob
      rw [hEq] at hOther
      obtain rfl := Option.some.inj (hFound.symm.trans hOther)
      rw [hEnded] at hNot
      cases hNot
    · obtain ⟨other, hOther, hNot⟩ := h.db.expires row.jobId hIn
      obtain rfl := Option.some.inj (hFound.symm.trans hOther)
      rw [hEnded] at hNot
      cases hNot
  armed row hRow hNot := h.db.armed row.jobId row (lookup_of_mem h.db.ids hRow) hNot
  submittedOnce := h.submittedOnce
  chargedOnce := h.db.chargedOnce
  charged charge hCharge := by
    obtain ⟨row, hRow, hDone⟩ := h.db.charged charge hCharge
    exact ⟨row, lookup_mem hRow, lookup_key hRow, hDone⟩
  shared a hA b hB hKey _ :=
    congrArg Prod.fst (h.db.keys _ (h.joined a hA) _ (h.joined b hB) rfl (congrArg some hKey))

theorem Kept.withDb (h : w.Kept) {db : MediaDb} (hDb : db.Kept) (hOn : w.db.Onward db) : (w.withDb db).Kept where
  db := hDb
  started call hCall := hOn.known _ (h.started call hCall)
  startedOnce := h.startedOnce
  submitted jobId hId := hOn.known _ (h.submitted jobId hId)
  submittedOnce := h.submittedOnce
  staging := h.staging
  polled call hCall := hOn.known _ (h.polled call hCall)
  joined start hStart := hOn.names _ (h.joined start hStart)

theorem Kept.failJob (h : w.Kept) (jobId : String) (error : MediaJobError) :
    (w.withDb (w.db.failJob jobId error)).Kept ∧ w.db.Onward (w.db.failJob jobId error) := by
  obtain ⟨hDb, hOn⟩ := h.db.failJob jobId error
  exact ⟨h.withDb hDb hOn, hOn⟩

variable {place : Nat} {call : StartCall}

variable {stage : StartStage}

theorem mem_withStart (hCall : w.starts[place]? = some call)
    {other : StartCall} (hOther : other ∈ (w.withStart place call stage).starts) :
    other = { call with stage } ∨ other ∈ w.starts := by
  have hPlace := (List.getElem?_eq_some_iff.mp hCall).1
  obtain hNew | hOld := mem_cons.mp ((set_perm_cons_eraseIdx hPlace { call with stage }).mem_iff.mp hOther)
  · exact .inl hNew
  · exact .inr (mem_of_mem_eraseIdx hOld)

theorem jobIds_withStart (hCall : w.starts[place]? = some call) (stage : StartStage) :
    (w.withStart place call stage).starts.map StartCall.jobId = w.starts.map StartCall.jobId := by
  unfold MediaWorld.withStart
  rw [map_set]
  refine ext_getElem? fun i => ?_
  rw [getElem?_set]
  split
  · next hAt =>
    subst hAt
    rw [getElem?_map, hCall]
    simp [(List.getElem?_eq_some_iff.mp hCall).1]
  · rfl

theorem Kept.withStart (h : w.Kept) (hCall : w.starts[place]? = some call) (hStage : stage ≠ .staging) :
    (w.withStart place call stage).Kept where
  db := h.db
  started other hOther := by
    obtain rfl | hOld := mem_withStart hCall hOther
    · exact h.started call (mem_of_getElem? hCall)
    · exact h.started other hOld
  startedOnce := by
    rw [jobIds_withStart hCall]
    exact h.startedOnce
  submitted := h.submitted
  submittedOnce := h.submittedOnce
  staging other hOther hStaging := by
    obtain rfl | hOld := mem_withStart hCall hOther
    · exact absurd hStaging hStage
    · exact h.staging other hOld hStaging
  polled := h.polled
  joined := h.joined

theorem Kept.endStart (h : w.Kept) (hCall : w.starts[place]? = some call) :
    (w.endStart place call).Kept := by
  have hDone := h.withStart hCall (fun hNo : StartStage.done = .staging => nomatch hNo)
  exact ⟨hDone.db, hDone.started, hDone.startedOnce, hDone.submitted, hDone.submittedOnce, hDone.staging,
    hDone.polled, hDone.joined⟩

/-! ## Starts -/

theorem Kept.reattach (h : w.Kept) {request : GenerateRequest} {existing : JobRow}
    (hExist : (request.clientRequestKey.bind fun key =>
      w.db.rows.find? (fun row => row.clientRequestKey = some key)) = some existing) :
    Kept { w with joined := w.joined ++
      request.clientRequestKey.toList.map fun key => ⟨key, request.hash, existing.jobId⟩ } := by
  refine ⟨h.db, h.started, h.startedOnce, h.submitted, h.submittedOnce, h.staging, h.polled, fun start hStart => ?_⟩
  obtain hOld | hNew := mem_append.mp hStart
  · exact h.joined start hOld
  · obtain ⟨key, hKey, hFind⟩ := Option.bind_eq_some_iff.mp hExist
    rw [hKey] at hNew
    obtain rfl := mem_singleton.mp hNew
    have hKeyed : decide (existing.clientRequestKey = some key) = true :=
      find?_some (p := fun row : JobRow => decide (row.clientRequestKey = some key)) hFind
    have hNamed : existing.named = (existing.jobId, some key) :=
      congrArg (Prod.mk existing.jobId) (of_decide_eq_true hKeyed)
    exact mem_map.mpr ⟨existing, mem_of_find?_eq_some hFind, hNamed⟩

variable {row : JobRow}

theorem Kept.insertJob (h : w.Kept) (hNew : w.db.getRow row.jobId = none) (hOpen : row.ended = false)
    (hKey : ∀ other ∈ w.db.rows, row.clientRequestKey.isSome = true → other.clientRequestKey ≠ row.clientRequestKey)
    (inFlight : List String) (hash : String) :
    Kept { w with
      db := w.db.insertJob row
      inFlight
      starts := w.starts ++ [⟨row.jobId, .staging⟩]
      joined := w.joined ++ row.clientRequestKey.toList.map fun key => ⟨key, hash, row.jobId⟩ } := by
  have hOn : w.db.Onward (w.db.insertJob row) := MediaDb.onward_insertJob row
  refine ⟨h.db.insertJob hNew hOpen hKey, fun call hCall => ?_, ?_, fun jobId hId => hOn.known _ (h.submitted jobId hId),
    h.submittedOnce, fun call hCall hStaging => ?_, fun call hCall => hOn.known _ (h.polled call hCall),
    fun start hStart => ?_⟩
  · obtain hOld | hLast := mem_append.mp hCall
    · exact hOn.known _ (h.started call hOld)
    · obtain rfl := mem_singleton.mp hLast
      dsimp only
      rw [MediaDb.getRow_insertJob, hNew, if_pos rfl]
      rfl
  · rw [map_append, nodup_append]
    refine ⟨h.startedOnce, pairwise_singleton _ _, fun a hA b hB hEq => ?_⟩
    obtain ⟨call, hCall, rfl⟩ := mem_map.mp hA
    have hKnown := h.started call hCall
    rw [hEq, mem_singleton.mp hB, hNew] at hKnown
    cases hKnown
  · obtain hOld | hLast := mem_append.mp hCall
    · exact h.staging call hOld hStaging
    · obtain rfl := mem_singleton.mp hLast
      intro hIn
      have hKnown := h.submitted _ hIn
      rw [hNew] at hKnown
      cases hKnown
  · obtain hOld | hLast := mem_append.mp hStart
    · exact hOn.names _ (h.joined start hOld)
    · obtain ⟨key, hIn, rfl⟩ := mem_map.mp hLast
      have hNamed : row.named = (row.jobId, some key) := congrArg (Prod.mk row.jobId) (Option.mem_toList.mp hIn)
      refine mem_map.mpr ⟨row, ?_, hNamed⟩
      exact mem_append_right _ (mem_singleton.mpr rfl)

theorem Kept.startJob (h : w.Kept) (request : GenerateRequest) (admitted : Bool) :
    (w.startJob request admitted).Kept ∧ w.db.Onward (w.startJob request admitted).db := by
  unfold MediaWorld.startJob
  split
  · next existing hExist =>
    split
    · exact ⟨h.reattach hExist, MediaDb.Onward.refl _⟩
    · exact ⟨h, MediaDb.Onward.refl _⟩
  · next hNone =>
    split
    · exact ⟨h, MediaDb.Onward.refl _⟩
    · next hAdmitted =>
      have hNew : w.db.getRow request.jobId = none := by
        cases hRow : w.db.getRow request.jobId with
        | none => rfl
        | some row =>
          rw [hRow] at hAdmitted
          simp at hAdmitted
      have hKey : ∀ other ∈ w.db.rows, request.clientRequestKey.isSome = true →
          other.clientRequestKey ≠ request.clientRequestKey := by
        intro other hOther hSome hEq
        obtain ⟨key, hIs⟩ := Option.isSome_iff_exists.mp hSome
        rw [hIs, Option.bind_some] at hNone
        exact find?_eq_none.mp hNone other hOther (decide_eq_true (hEq.trans hIs))
      exact ⟨Kept.insertJob h hNew rfl hKey (w.inFlight.insert request.jobId) request.hash, MediaDb.onward_insertJob _⟩

theorem named_input (input : String) (row : JobRow) : ({ row with input } : JobRow).named = row.named := rfl

theorem Kept.staged (h : w.Kept) (hCall : w.starts[place]? = some call)
    (hStaging : call.stage = .staging) (outcome : StageOutcome) :
    (w.staged place call outcome).Kept ∧ w.db.Onward (w.staged place call outcome).db := by
  cases outcome with
  | threw error =>
    obtain ⟨hDb, hOn⟩ := h.failJob call.jobId error
    exact ⟨hDb.endStart hCall, hOn⟩
  | stored input =>
    have hOn : w.db.Onward (w.db.update call.jobId fun row => { row with input }) :=
      MediaDb.onward_update (named_input input) fun _ _ _ => rfl
    have hDb := h.withDb (h.db.update (named_input input) (fun _ _ => rfl) fun _ _ _ => rfl) hOn
    unfold MediaWorld.staged
    dsimp only
    split
    · exact ⟨hDb.endStart hCall, hOn⟩
    · have hMid := hDb.withStart hCall (fun hNo : StartStage.submitting = .staging => nomatch hNo)
      refine ⟨⟨hMid.db, hMid.started, hMid.startedOnce, fun jobId hId => ?_, ?_, fun other hOther hOtherStaging hIn => ?_,
        hMid.polled, hMid.joined⟩, hOn⟩
      · obtain hOld | hLast := mem_append.mp hId
        · exact hMid.submitted jobId hOld
        · rw [mem_singleton.mp hLast]
          exact hDb.started call (mem_of_getElem? hCall)
      · refine nodup_append.mpr ⟨hMid.submittedOnce, pairwise_singleton _ _, fun a hA b hB hEq => ?_⟩
        rw [hEq, mem_singleton.mp hB] at hA
        exact h.staging call (mem_of_getElem? hCall) hStaging hA
      · obtain hOld | hLast := mem_append.mp hIn
        · exact hMid.staging other hOther hOtherStaging hOld
        · have hPlace := (List.getElem?_eq_some_iff.mp hCall).1
          have hOwn : ({ call with stage := .submitting } : StartCall) ∈ w.starts.set place { call with stage := .submitting } :=
            List.mem_set hPlace _
          have hFound := lookup_of_mem hMid.startedOnce hOther
          rw [mem_singleton.mp hLast] at hFound
          have hEq := hFound.symm.trans (lookup_of_mem hMid.startedOnce (r := { call with stage := .submitting }) hOwn)
          rw [Option.some.inj hEq] at hOtherStaging
          cases hOtherStaging

theorem named_submit (requestId : String) (inProgress : Bool) (row : JobRow) :
    (row.submit requestId inProgress).named = row.named := rfl

theorem named_assume (row : JobRow) : row.assume.named = row.named := rfl

theorem ended_of_submitting {status : MediaStatus} (hOpen : status.terminal = false) :
    (if row.status = .submitting then status else row.status).terminal = row.ended ∧
      (row.ended = true → (if row.status = .submitting then status else row.status) = row.status) := by
  unfold JobRow.ended
  by_cases hSubmitting : row.status = .submitting
  · rw [if_pos hSubmitting, hSubmitting]
    exact ⟨hOpen, fun hEnded => nomatch hEnded⟩
  · rw [if_neg hSubmitting]
    exact ⟨rfl, fun _ => rfl⟩

theorem Kept.submitAnswered (h : w.Kept) (hCall : w.starts[place]? = some call)
    (outcome : SubmitOutcome) :
    (w.submitAnswered place call outcome).Kept ∧ w.db.Onward (w.submitAnswered place call outcome).db := by
  cases outcome with
  | accepted requestId inProgress =>
    have hOpen : (if inProgress then MediaStatus.running else .queued).terminal = false := by cases inProgress <;> rfl
    have hOn : w.db.Onward (w.db.update call.jobId (JobRow.submit requestId inProgress)) :=
      MediaDb.onward_update (named_submit requestId inProgress) fun _ _ hEnded => (ended_of_submitting hOpen).2 hEnded
    have hDb : (w.db.update call.jobId (JobRow.submit requestId inProgress)).Kept :=
      h.db.update (named_submit requestId inProgress) (fun _ _ => (ended_of_submitting hOpen).1)
        fun _ _ hEnded => (ended_of_submitting hOpen).2 hEnded
    exact ⟨(h.withDb hDb hOn).endStart hCall, hOn⟩
  | refused error =>
    obtain ⟨hDb, hOn⟩ := h.failJob call.jobId error
    exact ⟨hDb.endStart hCall, hOn⟩
  | ambiguous =>
    have hOpen : MediaStatus.running.terminal = false := rfl
    have hOn : w.db.Onward (w.db.update call.jobId JobRow.assume) :=
      MediaDb.onward_update named_assume fun _ _ hEnded => (ended_of_submitting hOpen).2 hEnded
    have hDb : (w.db.update call.jobId JobRow.assume).Kept :=
      h.db.update named_assume (fun _ _ => (ended_of_submitting hOpen).1) fun _ _ hEnded => (ended_of_submitting hOpen).2 hEnded
    exact ⟨(h.withDb hDb hOn).endStart hCall, hOn⟩

/-! ## Webhooks, polls and deadlines -/

theorem named_request (requestId : Option String) (row : JobRow) :
    ({ row with providerRequestId := row.providerRequestId <|> requestId } : JobRow).named = row.named := rfl

section

variable (h : w.Kept)
include h

variable {jobId : String}

theorem Kept.schedulePoll (hRow : w.db.getRow jobId = some row)
    (hOpen : row.ended = false) (payload : PollPayload) :
    (w.withDb (w.db.schedulePoll jobId payload)).Kept ∧ w.db.Onward (w.db.schedulePoll jobId payload) := by
  have hOn : w.db.Onward (w.db.schedulePoll jobId payload) := ⟨fun _ h => h, fun _ h => h, fun _ row h _ => ⟨row, h, rfl⟩⟩
  exact ⟨h.withDb (h.db.schedulePoll hRow hOpen payload) hOn, hOn⟩

theorem Kept.falWebhook (jobId token : String) (requestId : Option String) (event : WebhookEvent) :
    (w.falWebhook jobId token requestId event).Kept ∧ w.db.Onward (w.falWebhook jobId token requestId event).db := by
  unfold MediaWorld.falWebhook
  cases hRow : w.db.getRow jobId with
  | none => exact ⟨h, MediaDb.Onward.refl _⟩
  | some row =>
    dsimp only
    split
    · exact ⟨h, MediaDb.Onward.refl _⟩
    · next hMay =>
      split
      · exact ⟨h, MediaDb.Onward.refl _⟩
      · have hOpen : row.ended = false := by
          rw [Bool.or_eq_true, not_or] at hMay
          exact Bool.not_eq_true _ ▸ hMay.2
        have hOn : w.db.Onward (w.db.update jobId fun row =>
            { row with providerRequestId := row.providerRequestId <|> requestId }) :=
          MediaDb.onward_update (named_request requestId) fun _ _ _ => rfl
        have hDb := h.withDb (h.db.update (named_request requestId) (fun _ _ => rfl) fun _ _ _ => rfl) hOn
        cases event with
        | ok result =>
          have hFound : (w.db.update jobId fun row =>
              { row with providerRequestId := row.providerRequestId <|> requestId }).getRow jobId =
                some { row with providerRequestId := row.providerRequestId <|> requestId } := by
            rw [MediaDb.getRow_update (named_request requestId), hRow, Option.map_some, if_pos rfl]
          obtain ⟨hArmed, hOn'⟩ := hDb.schedulePoll hFound hOpen ((result.map PollPayload.result).getD (.attempt 0))
          exact ⟨hArmed, hOn.trans hOn'⟩
        | error error =>
          obtain ⟨hFailed, hOn'⟩ := hDb.failJob jobId error
          exact ⟨hFailed, hOn.trans hOn'⟩

theorem Kept.withPolls {polls : List PollCall}
    (hPolled : ∀ call ∈ polls, (w.db.getRow call.row.jobId).isSome = true) : Kept { w with polls } :=
  ⟨h.db, h.started, h.startedOnce, h.submitted, h.submittedOnce, h.staging, hPolled, h.joined⟩

theorem Kept.addPoll (hRow : w.db.getRow jobId = some row) (attempt : Nat)
    (stage : PollStage) : Kept { w with polls := w.polls ++ [⟨row, attempt, stage⟩] } := by
  refine h.withPolls fun call hCall => ?_
  obtain hOld | hNew := mem_append.mp hCall
  · exact h.polled call hOld
  · have hKey : row.jobId = jobId := lookup_key hRow
    rw [mem_singleton.mp hNew, hKey, hRow]
    rfl

theorem Kept.setPoll (place : Nat) {call : PollCall} (hPolled : (w.db.getRow call.row.jobId).isSome = true) :
    Kept { w with polls := w.polls.set place call } := by
  refine h.withPolls fun other hOther => ?_
  obtain hOld | rfl := mem_or_eq_of_mem_set hOther
  · exact h.polled other hOld
  · exact hPolled

theorem Kept.runPoll (jobId : String) (payload : PollPayload) :
    (w.runPoll jobId payload).Kept ∧ w.db.Onward (w.runPoll jobId payload).db := by
  unfold MediaWorld.runPoll
  cases hRow : w.db.getRow jobId with
  | none => exact ⟨h, MediaDb.Onward.refl _⟩
  | some row =>
    dsimp only
    split
    · exact ⟨h, MediaDb.Onward.refl _⟩
    · next hNot =>
      have hOpen : row.ended = false := Bool.not_eq_true _ ▸ hNot
      cases payload with
      | result result => exact ⟨h.addPoll hRow _ _, MediaDb.Onward.refl _⟩
      | attempt attempt =>
        dsimp only
        split
        · exact ⟨h.addPoll hRow _ _, MediaDb.Onward.refl _⟩
        · split
          · exact h.schedulePoll hRow hOpen _
          · split
            · exact h.failJob jobId submissionLost
            · exact ⟨h, MediaDb.Onward.refl _⟩

end

theorem named_running (row : JobRow) : ({ row with status := .running } : JobRow).named = row.named := rfl

theorem Kept.asked (h : w.Kept) {call : PollCall} (hCall : w.polls[place]? = some call) {outcome : PollOutcome}
    (hOpen : ∀ running, outcome = .pending running → ∀ row ∈ w.db.getRow call.row.jobId, row.ended = false) :
    (w.asked place call outcome).Kept ∧ w.db.Onward (w.asked place call outcome).db := by
  have hPolled := h.polled call (mem_of_getElem? hCall)
  cases outcome with
  | succeeded payload => exact ⟨h.setPoll place hPolled, MediaDb.Onward.refl _⟩
  | failed error =>
    obtain ⟨hDb, hOn⟩ := h.failJob call.row.jobId error
    exact ⟨hDb.setPoll place (hOn.known _ hPolled), hOn⟩
  | threw => exact ⟨h.setPoll place hPolled, MediaDb.Onward.refl _⟩
  | pending running =>
    obtain ⟨row, hRow⟩ := Option.isSome_iff_exists.mp hPolled
    have hNot := hOpen running rfl row hRow
    unfold MediaWorld.asked
    dsimp only
    split
    · have hOther : ∀ other, w.db.getRow call.row.jobId = some other → other.ended = false := by
        intro other hOther
        obtain rfl := Option.some.inj (hRow.symm.trans hOther)
        exact hNot
      have hStat : ∀ other, w.db.getRow call.row.jobId = some other → other.ended = true →
          ({ other with status := .running } : JobRow).status = other.status := by
        intro other hOwn hEnded
        rw [hOther other hOwn] at hEnded
        cases hEnded
      have hOn := MediaDb.onward_update named_running hStat
      have hDb := h.withDb (h.db.update named_running (fun other hOwn => (hOther other hOwn).symm) hStat) hOn
      have hFound : (w.db.update call.row.jobId fun row => { row with status := .running }).getRow call.row.jobId =
          some { row with status := .running } := by
        rw [MediaDb.getRow_update named_running, hRow, Option.map_some, if_pos rfl]
      obtain ⟨hArmed, hOn'⟩ := hDb.schedulePoll hFound rfl (.attempt (call.attempt + 1))
      exact ⟨hArmed.setPoll place (hOn'.known _ (hOn.known _ hPolled)), hOn.trans hOn'⟩
    · obtain ⟨hArmed, hOn⟩ := h.schedulePoll hRow hNot (.attempt (call.attempt + 1))
      exact ⟨hArmed.setPoll place (hOn.known _ hPolled), hOn⟩

theorem Kept.runExpire (h : w.Kept) (jobId : String) :
    (w.runExpire jobId).Kept ∧ w.db.Onward (w.runExpire jobId).db := by
  have hOn : w.db.Onward { w.db with expires := erase id w.db.expires jobId } :=
    ⟨fun _ h => h, fun _ h => h, fun _ row h _ => ⟨row, h, rfl⟩⟩
  unfold MediaWorld.runExpire
  cases hRow : w.db.getRow jobId with
  | none =>
    have hEnded : ∀ row, w.db.getRow jobId = some row → row.ended = true := by
      intro row hSome
      rw [hRow] at hSome
      cases hSome
    exact ⟨h.withDb (h.db.dropExpire hEnded) hOn, hOn⟩
  | some row =>
    dsimp only
    split
    · next hIs =>
      have hEnded : ∀ other, w.db.getRow jobId = some other → other.ended = true := by
        intro other hOther
        obtain rfl := Option.some.inj (hRow.symm.trans hOther)
        exact hIs
      exact ⟨h.withDb (h.db.dropExpire hEnded) hOn, hOn⟩
    · exact h.failJob jobId ⟨"Media generation took too long.", some "timeout"⟩

theorem Kept.stored (h : w.Kept) {attempt : Nat} {payload : String}
    (hCall : w.polls[place]? = some ⟨row, attempt, .storing payload⟩) (output : Option String) :
    (w.step price (.stored place output)).Kept ∧ w.db.Onward (w.step price (.stored place output)).db := by
  have hPolled := h.polled _ (mem_of_getElem? hCall)
  unfold step
  dsimp only
  rw [hCall]
  cases output with
  | none => exact ⟨h.setPoll place hPolled, MediaDb.Onward.refl _⟩
  | some output =>
    obtain ⟨hDb, hOn⟩ := h.db.completeJob price row payload output
    exact ⟨(h.withDb hDb hOn).setPoll place (hOn.known _ hPolled), hOn⟩

/-! ## Runs -/

variable {input : MediaInput}

theorem Kept.step (h : w.Kept) (hUndist : w.Undisturbed input) :
    (w.step price input).Kept ∧ w.db.Onward (w.step price input).db := by
  cases input with
  | startJob request admitted => exact h.startJob request admitted
  | staged place outcome =>
    unfold MediaWorld.step
    dsimp only
    split
    · next hCall => exact h.staged hCall rfl outcome
    · exact ⟨h, MediaDb.Onward.refl _⟩
  | submitted place outcome =>
    unfold MediaWorld.step
    dsimp only
    split
    · next hCall => exact h.submitAnswered hCall outcome
    · exact ⟨h, MediaDb.Onward.refl _⟩
  | cancelJob jobId =>
    obtain ⟨hDb, hOn⟩ := h.db.cancelJob jobId
    exact ⟨h.withDb hDb hOn, hOn⟩
  | cancelByKey key =>
    unfold MediaWorld.step
    dsimp only
    split
    · next row _ =>
      obtain ⟨hDb, hOn⟩ := h.db.cancelJob row.jobId
      exact ⟨h.withDb hDb hOn, hOn⟩
    · exact ⟨h, MediaDb.Onward.refl _⟩
  | falWebhook jobId token requestId event => exact h.falWebhook jobId token requestId event
  | runPoll jobId payload => exact h.runPoll jobId payload
  | asked place outcome =>
    unfold MediaWorld.step
    dsimp only
    split
    · next row attempt hCall =>
      refine h.asked hCall fun running hPend other hOther => ?_
      subst hPend
      exact hUndist _ hCall rfl other hOther
    · exact ⟨h, MediaDb.Onward.refl _⟩
  | stored place output =>
    cases hCall : w.polls[place]? with
    | none =>
      unfold MediaWorld.step
      dsimp only
      rw [hCall]
      exact ⟨h, MediaDb.Onward.refl _⟩
    | some call =>
      obtain ⟨row, attempt, stage⟩ := call
      cases stage with
      | storing payload => exact h.stored hCall output
      | asking =>
        unfold MediaWorld.step
        dsimp only
        rw [hCall]
        exact ⟨h, MediaDb.Onward.refl _⟩
      | done =>
        unfold MediaWorld.step
        dsimp only
        rw [hCall]
        exact ⟨h, MediaDb.Onward.refl _⟩
  | pollOver jobId =>
    have hOn : w.db.Onward { w.db with polls := erase PollJob.jobId w.db.polls jobId } :=
      ⟨fun _ h => h, fun _ h => h, fun _ row h _ => ⟨row, h, rfl⟩⟩
    exact ⟨h.withDb (h.db.dropPoll jobId) hOn, hOn⟩
  | runExpire jobId => exact h.runExpire jobId
  | restart =>
    exact ⟨⟨h.db, fun _ hCall => absurd hCall not_mem_nil, nodup_nil, h.submitted, h.submittedOnce,
      fun _ hCall => absurd hCall not_mem_nil, fun _ hCall => absurd hCall not_mem_nil, h.joined⟩,
      MediaDb.Onward.refl _⟩

theorem Kept.staged_submits (h : w.Kept) (hCall : w.starts[place]? = some call) (input : String)
    (hOpen : ∀ row ∈ w.db.getRow call.jobId, row.status = .canceled ∨ row.ended = false) :
    (w.staged place call (.stored input)).submitted = w.submitted ∨ ∃ row ∈ w.db.rows, row.ended = false ∧
      (w.staged place call (.stored input)).submitted = w.submitted ++ [row.jobId] := by
  obtain ⟨row, hRow⟩ := Option.isSome_iff_exists.mp (h.started call (mem_of_getElem? hCall))
  unfold MediaWorld.staged
  dsimp only
  split
  · exact .inl rfl
  · next hGoesOn =>
    have hNot : row.status ≠ .canceled := by
      intro hCanceled
      refine hGoesOn ?_
      change ((w.db.update call.jobId fun row => { row with input }).getRow call.jobId).any _ = true
      rw [MediaDb.getRow_update (named_input input), hRow, Option.map_some, if_pos rfl, Option.any_some]
      exact decide_eq_true hCanceled
    have hKey : row.jobId = call.jobId := lookup_key hRow
    refine .inr ⟨row, lookup_mem hRow, (hOpen row hRow).resolve_left hNot, ?_⟩
    rw [hKey]
    rfl

theorem submitted_startJob (request : GenerateRequest) (admitted : Bool) :
    (w.startJob request admitted).submitted = w.submitted := by
  unfold MediaWorld.startJob
  split
  · split <;> rfl
  · split <;> rfl

theorem submitted_falWebhook (jobId token : String) (requestId : Option String) (event : WebhookEvent) :
    (w.falWebhook jobId token requestId event).submitted = w.submitted := by
  unfold MediaWorld.falWebhook
  cases w.db.getRow jobId with
  | none => rfl
  | some row =>
    dsimp only
    split
    · rfl
    · split
      · rfl
      · cases event <;> rfl

theorem submitted_runPoll (jobId : String) (payload : PollPayload) :
    (w.runPoll jobId payload).submitted = w.submitted := by
  unfold MediaWorld.runPoll
  cases w.db.getRow jobId with
  | none => rfl
  | some row =>
    dsimp only
    split
    · rfl
    · cases payload with
      | result result => rfl
      | attempt attempt =>
        dsimp only
        split
        · rfl
        · split
          · rfl
          · split <;> rfl

theorem submitted_runExpire (jobId : String) : (w.runExpire jobId).submitted = w.submitted := by
  unfold MediaWorld.runExpire
  cases w.db.getRow jobId with
  | none => rfl
  | some row =>
    dsimp only
    split <;> rfl

theorem Kept.submits (h : w.Kept) (hUndist : w.Undisturbed input) :
    (w.step price input).submitted = w.submitted ∨
      ∃ row ∈ w.db.rows, row.ended = false ∧ (w.step price input).submitted = w.submitted ++ [row.jobId] := by
  cases input with
  | startJob request admitted => exact .inl (submitted_startJob request admitted)
  | staged place outcome =>
    unfold MediaWorld.step
    dsimp only
    split
    · next jobId hCall =>
      cases outcome with
      | threw error => exact .inl rfl
      | stored input => exact h.staged_submits hCall input (hUndist _ hCall rfl)
    · exact .inl rfl
  | submitted place outcome =>
    unfold MediaWorld.step
    dsimp only
    split
    · cases outcome <;> exact .inl rfl
    · exact .inl rfl
  | cancelJob jobId => exact .inl rfl
  | cancelByKey key =>
    unfold MediaWorld.step
    dsimp only
    split <;> exact .inl rfl
  | falWebhook jobId token requestId event => exact .inl (submitted_falWebhook jobId token requestId event)
  | runPoll jobId payload => exact .inl (submitted_runPoll jobId payload)
  | asked place outcome =>
    unfold MediaWorld.step
    dsimp only
    split
    · cases outcome <;> exact .inl rfl
    · exact .inl rfl
  | stored place output =>
    unfold MediaWorld.step
    dsimp only
    split <;> exact .inl rfl
  | pollOver jobId => exact .inl rfl
  | runExpire jobId => exact .inl (submitted_runExpire jobId)
  | restart => exact .inl rfl

theorem Kept.sound (h : w.Kept) (hUndist : w.Undisturbed input) : w.Sound price input where
  stays row hRow hEnded := by
    obtain ⟨row', hRow', hEq⟩ := (h.step hUndist).2.stays row.jobId row (lookup_of_mem h.db.ids hRow) hEnded
    exact ⟨row', lookup_mem hRow', lookup_key hRow', hEq⟩
  submits := h.submits hUndist

/-- In every run in which no start and no pending poll goes on after its row has ended, each job is submitted, ended and
charged once. -/
theorem once_of_run {inputs : List MediaInput} (hRun : Along (MediaWorld.step price) Undisturbed {} inputs) :
    (run (MediaWorld.step price) {} inputs).Settled ∧ ∀ input, (run (MediaWorld.step price) {} inputs).Undisturbed input →
      (run (MediaWorld.step price) {} inputs).Sound price input := by
  have hStep : ∀ w input, Kept w → w.Undisturbed input → (w.step price input).Kept :=
    fun _ _ h hUndisturbed => (h.step hUndisturbed).1
  have hKept : (run (MediaWorld.step price) {} inputs).Kept := run_invariant hStep kept_empty hRun
  exact ⟨hKept.settled, fun input hUndisturbed => hKept.sound hUndisturbed⟩

/-! ### A job that comes back -/

def oneJob : GenerateRequest := ⟨"job", some "key", "fal-ai/veo3", "input", "hash", "token"⟩

def askingRun : List MediaInput :=
  [.startJob oneJob true, .staged 0 (.stored "staged"), .submitted 0 (.accepted "request" false), .runPoll "job" (.attempt 0)]

def flatPrice (_ _ _ : String) : Option Int := some 3

theorem askingRun_undisturbed : Along (MediaWorld.step flatPrice) Undisturbed {} askingRun := by
  decide

/-- Asked before anything ended the job, the answer is written soundly. -/
theorem once_of_askingRun : (run (MediaWorld.step flatPrice) {} askingRun).Settled ∧
    (run (MediaWorld.step flatPrice) {} askingRun).Sound flatPrice (.asked 0 (.pending true)) := by
  obtain ⟨hSettled, hSound⟩ := once_of_run askingRun_undisturbed
  exact ⟨hSettled, hSound (.asked 0 (.pending true)) (by decide)⟩

/-- The user cancels while the poll asks; the answer makes the canceled job run again. -/
theorem canceledRun_returns : ¬ (run (MediaWorld.step flatPrice) {} (askingRun ++ [.cancelJob "job"])).Sound
    flatPrice (.asked 0 (.pending true)) := by
  intro hSound
  have hStays := hSound.stays
  revert hStays
  decide

end MediaWorld

end Stella.Media
