import Stella.Library.Transition
import Stella.UserAsks.Kept

/-! # A closed question stays closed

In every run in which an escalation finds, when the push service has answered it, what it read
before.
-/

namespace Stella.UserAsks

open Stella.Rows Stella.Transition

namespace AskStore

variable {δ α : Type} (env : AskEnv δ α) (w : AskStore δ α)

structure Settled : Prop where
  once : (w.accepted.map Acceptance.serial).Nodup
  current : ∀ acceptance ∈ w.accepted, acceptance.given = acceptance.revision
  disarmed : ∀ row ∈ w.asks, userAskIsOpen row.state = false → ∀ armed ∈ w.jobs, armed.askId = row.askId →
    armed.job = .deliverLateJob
  /-- The pushes of an hour are at most as many as each limit that they were sent under allows. -/
  rolling : ∀ (since : Int) (limit : Nat),
    (∀ push ∈ w.recorded, since ≤ push.sentAt → push.sentAt ≤ since + pushWindowMs → push.limit ≤ limit) →
      (w.recorded.countP fun push => since ≤ push.sentAt && push.sentAt ≤ since + pushWindowMs) ≤ limit

structure Sound (input : AskInput δ α) : Prop where
  closed : ∀ row ∈ w.asks, userAskIsOpen row.state = false → row ∈ (w.step env input).asks ∨
    (input = ⟨input.elapsed, .sweep⟩ ∧ ∀ other ∈ (w.step env input).asks, other.askId ≠ row.askId)
  grows : ∀ row ∈ w.asks, ∀ next ∈ (w.step env input).asks, next.serial = row.serial →
    row.revision ≤ next.revision ∧ row.escalationLevel ≤ next.escalationLevel

def Touches (call : PushCall) (outcome : PushOutcome) : Prop :=
  call.path = .escalate → breakthroughLevel ≤ call.level ∧ outcome = .sent

instance decidableTouches (call : PushCall) (outcome : PushOutcome) : Decidable (Touches call outcome) :=
  inferInstanceAs (Decidable (call.path = .escalate → breakthroughLevel ≤ call.level ∧ outcome = .sent))

def Stands (call : PushCall) (outcome : PushOutcome) : Prop :=
  (outcome = .sent → call.recordedBefore = w.recorded.length) ∧ ∀ row ∈ w.asks, row.askId = call.askId →
    (Touches call outcome → userAskIsOpen row.state = true) ∧
    (call.path = .cloud false → outcome ≠ .noPushTarget → row.escalationLevel ≤ call.level)

instance decidableStands (call : PushCall) (outcome : PushOutcome) : Decidable (w.Stands call outcome) :=
  inferInstanceAs (Decidable ((outcome = .sent → call.recordedBefore = w.recorded.length) ∧ ∀ row ∈ w.asks, row.askId = call.askId →
    (Touches call outcome → userAskIsOpen row.state = true) ∧
    (call.path = .cloud false → outcome ≠ .noPushTarget → row.escalationLevel ≤ call.level)))

def Undisturbed (input : AskInput δ α) : Prop :=
  match input.action with
  | .resume place outcome => ∀ call ∈ w.calls[place]?, w.Stands call outcome
  | _ => True

instance decidableUndisturbed (input : AskInput δ α) : Decidable (w.Undisturbed input) := by
  unfold Undisturbed
  split <;> infer_instance

variable {env w} {askId : String}

theorem Kept.settled (h : w.Kept) : w.Settled where
  once := h.once
  current acceptance hAccept := (h.current acceptance hAccept).1
  disarmed := h.disarmed
  rolling since _ hLimit := h.limited.rolling since hLimit

/-! ## The operations -/

structure Advances (w later : AskStore δ α) : Prop where
  kept : later.Kept
  grows : w.Grows later

theorem Kept.same (h : w.Kept) : w.Advances w := ⟨h, grows_of_asks rfl⟩

theorem Kept.row_eq (h : w.Kept) {row other : AskRow δ} (hRow : w.readRow askId = some row) (hOther : other ∈ w.asks)
    (hId : other.askId = askId) : other = row := by
  have hFound := lookup_of_mem h.askIds hOther
  rw [hId] at hFound
  exact Option.some.inj (hFound.symm.trans hRow)

theorem Kept.rows_open (h : w.Kept) {row : AskRow δ} (hRow : w.readRow askId = some row) (hOpen : userAskIsOpen row.state = true) :
    ∀ other ∈ w.asks, other.askId = askId → userAskIsOpen other.state = true :=
  fun _ hOther hId => h.row_eq hRow hOther hId ▸ hOpen

theorem Kept.serial_eq (h : w.Kept) {row other : AskRow δ} (hRow : row ∈ w.asks) (hOther : other ∈ w.asks)
    (hSerial : other.serial = row.serial) : other = row :=
  Option.some.inj ((lookup_of_mem h.serials hOther).symm.trans (hSerial ▸ lookup_of_mem h.serials hRow))

theorem Kept.close (h : w.Kept) {row : AskRow δ} (hRow : w.readRow askId = some row) (hOpen : userAskIsOpen row.state = true)
    {state : UserAskState} (hSt : userAskIsOpen state = false) (answers : List (StoredAnswer α)) {accepted : List Acceptance}
    (hAcc : accepted = w.accepted ∨ accepted = w.accepted ++ [⟨row.serial, row.revision, row.revision⟩]) :
    w.Advances (({ w with answers, accepted } : AskStore δ α).closeAsk askId state) := by
  have hIn : row ∈ w.asks := lookup_mem hRow
  have hRowId : row.askId = askId := lookup_key hRow
  have hRows := h.rows_open hRow hOpen
  have hAdmits := h.admits_closing state hRows
  refine ⟨?_, hAdmits.grows⟩
  have hCases : ∀ other ∈ modify AskRow.askId w.asks askId (w.closing state),
      other = w.closing state row ∨ (other ∈ w.asks ∧ other.askId ≠ askId) := by
    intro other hOther
    rcases mem_update hOther with ⟨old, hOld, hId, rfl⟩ | hOther
    · exact .inl (h.row_eq hRow hOld hId ▸ rfl)
    · exact .inr hOther
  have hNew : ∀ acceptance ∈ accepted, acceptance ∈ w.accepted ∨ acceptance = ⟨row.serial, row.revision, row.revision⟩ := by
    intro acceptance hAccept
    rcases hAcc with rfl | rfl
    · exact .inl hAccept
    · exact (List.mem_append.mp hAccept).imp_right List.mem_singleton.mp
  exact
    { askIds := (map_key_modify hAdmits.id w.asks askId).symm ▸ h.askIds
      serials := (map_serial_update hAdmits).symm ▸ h.serials
      known := fun other hOther => by
        rcases hCases other hOther with rfl | ⟨hOld, -⟩
        · exact h.known row hIn
        · exact h.known other hOld
      levels := fun other hOther => by
        rcases hCases other hOther with rfl | ⟨hOld, -⟩
        · exact h.levels row hIn
        · exact h.levels other hOld
      once := by
        rcases hAcc with rfl | rfl
        · exact h.once
        · show ((w.accepted ++ [_]).map Acceptance.serial).Nodup
          rw [List.map_append, List.nodup_append]
          refine ⟨h.once, List.pairwise_singleton _ _, fun serial hSerial other hOther hEq => ?_⟩
          obtain ⟨acceptance, hAccept, rfl⟩ := List.mem_map.mp hSerial
          rw [List.map_singleton, List.mem_singleton] at hOther
          exact h.unanswered row hIn hOpen acceptance hAccept (hEq.trans hOther)
      current := fun acceptance hAccept => by
        rcases hNew acceptance hAccept with hOld | rfl
        · exact h.current acceptance hOld
        · exact ⟨rfl, h.known row hIn⟩
      unanswered := fun other hOther hStill acceptance hAccept => by
        rcases hCases other hOther with rfl | ⟨hOld, hAway⟩
        · exact absurd (hSt.symm.trans hStill) nofun
        rcases hNew acceptance hAccept with hBef | rfl
        · exact h.unanswered other hOld hStill acceptance hBef
        · intro hEq
          rw [h.serial_eq hIn hOld hEq.symm] at hAway
          exact hAway hRowId
      disarmed := fun other hOther hClosed armed hArmed hId => by
        obtain ⟨hBef, hOwn⟩ := closeAsk_jobs hArmed
        rcases hCases other hOther with rfl | ⟨hOld, -⟩
        · exact hOwn (hId.trans hRowId)
        · exact h.disarmed other hOld hClosed armed hBef hId
      pushed := fun push hPush => ⟨(h.pushed push hPush).1, fun other hOther hClosed hId => by
        rcases hCases other hOther with rfl | ⟨hOld, -⟩
        · exact (h.pushed push hPush).1
        · exact (h.pushed push hPush).2 other hOld hClosed hId⟩
      waiting := fun call hCall => ⟨(h.waiting call hCall).1, fun other hOther hClosed hId => by
        rcases hCases other hOther with rfl | ⟨hOld, -⟩
        · exact (h.waiting call hCall).1.2
        · exact (h.waiting call hCall).2.1 other hOld hClosed hId, (h.waiting call hCall).2.2⟩
      retained := h.retained
      limited := h.limited }

theorem Kept.answer (h : w.Kept) (askId : String) (answer : UserAskAnswer α) : w.Advances (w.answerAsk env askId answer) := by
  unfold answerAsk
  split
  · exact h.same
  next row hRow =>
  split
  · exact h.same
  next hPass =>
  simp only [Bool.or_eq_true, decide_eq_true_eq, Bool.not_eq_true', not_or, ne_eq, not_not, Bool.not_eq_true,
    Bool.not_eq_false] at hPass
  have hClosed : ∀ late : Bool, userAskIsOpen (if late then UserAskState.answeredLate else .answered) = false := by decide
  have hAdv := h.close hRow hPass.1.1.2 (hClosed (decide (row.state = .defaulted)))
    (w.answers ++ [⟨askId, answer.answer, decide (row.state = .defaulted), w.clock, answer.revision⟩])
    (.inr (congrArg (fun given => w.accepted ++ [⟨row.serial, given, row.revision⟩]) hPass.1.2))
  dsimp only
  generalize (if decide (row.state = .defaulted) = true then UserAskState.answeredLate else .answered) = state at hAdv ⊢
  split
  · exact ⟨hAdv.kept.schedule (fun _ _ _ _ => rfl) _, hAdv.grows⟩
  · exact hAdv

theorem Kept.cancel (h : w.Kept) (askId : String) : w.Advances (w.cancelAsk askId) := by
  unfold cancelAsk
  split
  · exact h.same
  next row hRow =>
  split
  · next hOpen => exact h.close hRow hOpen rfl w.answers (.inl rfl)
  · exact h.same

theorem Kept.expire (h : w.Kept) (askId : String) : w.Advances (w.expireAsk askId) := by
  unfold expireAsk
  split
  · exact h.same
  next row hRow =>
  split
  · exact h.same
  next hPass =>
  simp only [Bool.or_eq_true, Bool.not_eq_true', decide_eq_true_eq, not_or, Bool.not_eq_false] at hPass
  exact h.close hRow hPass.1 rfl w.answers (.inl rfl)

theorem Kept.register (h : w.Kept) (args : RegisterArgs δ) : w.Advances (w.registerAsk env args) := by
  unfold registerAsk
  split
  · exact h.same
  next hNew =>
  split
  · exact h.same
  simp only [Bool.or_eq_true, not_or, Bool.not_eq_true, Option.isSome_eq_false_iff, Option.isNone_iff_eq_none] at hNew
  have hFree : ∀ row ∈ w.asks, row.askId ≠ args.askId := lookup_eq_none.mp hNew.1
  dsimp only
  have hId : (w.rowOf args).askId = args.askId := rfl
  have hSerial : (w.rowOf args).serial = w.nextSerial := rfl
  have hLevel : (w.rowOf args).escalationLevel = 1 := rfl
  have hOpen : userAskIsOpen (w.rowOf args).state = true := rfl
  generalize w.rowOf args = ask at hId hSerial hLevel hOpen ⊢
  have hClosed : ∀ row ∈ w.asks ++ [ask], userAskIsOpen row.state = false → row ∈ w.asks := by
    intro row hRow hSt
    rcases List.mem_append.mp hRow with hOld | hHere
    · exact hOld
    · rw [List.mem_singleton.mp hHere, hOpen] at hSt
      cases hSt
  have hKept : ({ w with asks := w.asks ++ [ask], nextSerial := w.nextSerial + 1 } : AskStore δ α).Kept :=
    { h with
      askIds := by
        rw [List.map_append, List.nodup_append]
        refine ⟨h.askIds, List.pairwise_singleton _ _, fun id hBef other hOther hEq => ?_⟩
        obtain ⟨row, hRow, rfl⟩ := List.mem_map.mp hBef
        rw [List.map_singleton, List.mem_singleton] at hOther
        exact hFree row hRow (hEq.trans (hOther.trans hId))
      serials := by
        rw [List.map_append, List.nodup_append]
        refine ⟨h.serials, List.pairwise_singleton _ _, fun serial hBef other hOther hEq => ?_⟩
        obtain ⟨row, hRow, rfl⟩ := List.mem_map.mp hBef
        rw [List.map_singleton, List.mem_singleton] at hOther
        exact absurd (hEq.trans (hOther.trans hSerial)) (Nat.ne_of_lt (h.known row hRow))
      known := fun row hRow => by
        rcases List.mem_append.mp hRow with hOld | hHere
        · exact Nat.lt_succ_of_lt (h.known row hOld)
        · rw [List.mem_singleton.mp hHere, hSerial]
          exact Nat.lt_succ_self _
      levels := fun row hRow => by
        rcases List.mem_append.mp hRow with hOld | hHere
        · exact h.levels row hOld
        · rw [List.mem_singleton.mp hHere, hLevel]
          decide
      current := fun acceptance hAccept =>
        ⟨(h.current acceptance hAccept).1, Nat.lt_succ_of_lt (h.current acceptance hAccept).2⟩
      unanswered := fun row hRow hSt acceptance hAccept => by
        rcases List.mem_append.mp hRow with hOld | hHere
        · exact h.unanswered row hOld hSt acceptance hAccept
        · rw [List.mem_singleton.mp hHere, hSerial]
          exact Nat.ne_of_lt (h.current acceptance hAccept).2
      disarmed := fun row hRow hSt => h.disarmed row (hClosed row hRow hSt) hSt
      pushed := fun push hPush => ⟨(h.pushed push hPush).1, fun row hRow hSt =>
        (h.pushed push hPush).2 row (hClosed row hRow hSt) hSt⟩
      waiting := fun call hCall => ⟨(h.waiting call hCall).1, fun row hRow hSt =>
        (h.waiting call hCall).2.1 row (hClosed row hRow hSt) hSt, (h.waiting call hCall).2.2⟩ }
  have hGrows : w.Grows ({ w with asks := w.asks ++ [ask], nextSerial := w.nextSerial + 1 } : AskStore δ α) := fun row hRow =>
    ⟨row, List.mem_append_left _ hRow, rfl, fun _ => rfl, Nat.le_refl _, Nat.le_refl _⟩
  have hArm : ∀ (store : AskStore δ α) (job : AskJob), store.asks = w.asks ++ [ask] → ∀ row ∈ store.asks, row.askId = args.askId →
      userAskIsOpen row.state = false → job = .deliverLateJob := by
    intro store job hAsks row hRow hEq hSt
    rw [hAsks] at hRow
    exact absurd hEq (hFree row (hClosed row hRow hSt))
  cases !args.blocking && env.userAskHasDefaults args.detail with
  | true =>
    have hDefault := hKept.schedule (hArm _ .defaultJob rfl) ask.deadlineAt
    have hExpire := hDefault.schedule (hArm _ .expireJob rfl) ask.expiresAt
    cases isCloudOrigin args.originDeviceId with
    | true => exact ⟨hExpire.schedule (hArm _ .cloudEscalateJob rfl) _, hGrows⟩
    | false => exact ⟨hExpire, hGrows⟩
  | false =>
    have hExpire := hKept.schedule (hArm _ .expireJob rfl) ask.expiresAt
    cases isCloudOrigin args.originDeviceId with
    | true => exact ⟨hExpire.schedule (hArm _ .cloudEscalateJob rfl) _, hGrows⟩
    | false => exact ⟨hExpire, hGrows⟩

theorem Kept.default (h : w.Kept) (askId : String) : w.Advances (w.defaultAsk env askId) := by
  unfold defaultAsk
  split
  · exact h.same
  next row hRow =>
  split
  · exact h.same
  next hPass =>
  simp only [ne_eq, Bool.or_eq_true, decide_eq_true_eq, not_or, not_not] at hPass
  have hAdmits : w.Admits askId fun row =>
      { row with state := .defaulted, revision := row.revision + 1, nextEscalationAt := none, updatedAt := w.clock } :=
    { id := fun _ => rfl
      serial := fun _ => rfl
      wasOpen := fun other hOther hId => by
        rw [h.row_eq hRow hOther hId, hPass.1.1]
        rfl
      revision := fun _ => Nat.le_succ _
      level := fun other hOther _ => ⟨Nat.le_refl _, h.levels other hOther⟩ }
  exact ⟨(h.update hAdmits fun _ _ _ => rfl).cancelJob _ _, hAdmits.grows⟩

/-! ## Escalations -/

theorem Kept.sendAskPush (h : w.Kept) {level : Nat} (hLevel : level ≤ 4)
    (hOpen : ∀ row ∈ w.asks, row.askId = askId → userAskIsOpen row.state = true)
    (hRoom : w.pushesInWindow w.clock < w.policy.maxPerHour) (path : PushPath) : (w.sendAskPush askId level path).Kept :=
  { h with
    waiting := fun call hCall => by
      rcases List.mem_append.mp hCall with hOld | hNew
      · exact h.waiting call hOld
      rw [List.mem_singleton.mp hNew]
      refine ⟨⟨hLevel, Int.le_refl _⟩, fun row hRow hClosed hId => ?_, Nat.le_refl _, fun _ => ?_⟩
      · exact absurd (hClosed.symm.trans (hOpen row hRow hId)) nofun
      · refine Nat.lt_of_le_of_lt (h.retained _ ?_) hRoom
        show w.clock - pushRetentionMs ≤ w.clock - pushWindowMs
        unfold pushRetentionMs pushWindowMs
        omega }

theorem clampUrgency_le (level : Nat) : clampUrgency level ≤ 4 := Nat.min_le_left _ _

theorem effectiveEscalationCeiling_le (policy : UserAskEscalationPolicy) {requested : Nat} (hRequested : requested ≤ 4)
    (minute : Int) :
    effectiveEscalationCeiling policy requested minute ≤ 4 := (Nat.min_le_left _ _).trans hRequested

theorem Kept.escalate (h : w.Kept) (askId : String) (requested : Nat) (deviceId : Option String) (localMinuteOfDay : Option Int) :
    w.Advances (w.escalateAsk env askId requested deviceId localMinuteOfDay) := by
  unfold escalateAsk
  split
  · exact h.same
  next row hRow =>
  split
  · exact h.same
  split
  · exact h.same
  next hPass =>
  rw [Bool.not_eq_true', Bool.not_eq_false] at hPass
  dsimp only
  generalize (if localMinuteOfDay.isSome = true then offsetFromLocalMinute w.clock localMinuteOfDay else row.localOffsetMinutes) =
    offset
  have hAllowed := effectiveEscalationCeiling_le w.policy (clampUrgency_le requested) (w.quietHoursMinute env offset)
  generalize effectiveEscalationCeiling w.policy (clampUrgency requested) (w.quietHoursMinute env offset) = allowed at hAllowed ⊢
  have hRows := h.rows_open hRow hPass
  have hAdmits : w.Admits askId fun row =>
      { row with
        localOffsetMinutes := offset
        escalationLevel := max allowed (clampUrgency row.escalationLevel)
        revision := row.revision + 1
        nextEscalationAt := if breakthroughLevel ≤ allowed then some (w.clock + escalationStepMs) else none
        updatedAt := w.clock } :=
    { id := fun _ => rfl
      serial := fun _ => rfl
      wasOpen := hRows
      revision := fun _ => Nat.le_succ _
      level := fun other hOther _ => by
        have hLevel := h.levels other hOther
        unfold clampUrgency
        dsimp only
        omega }
  have hKept := h.update hAdmits hRows
  split
  · exact ⟨hKept.cancelJob _ _, hAdmits.grows⟩
  split
  · exact ⟨hKept.cancelJob _ _, hAdmits.grows⟩
  next hRoom =>
  refine ⟨hKept.sendAskPush hAllowed (fun other hOther hId => ?_) (Nat.lt_of_not_le hRoom) _, hAdmits.grows⟩
  rcases mem_update hOther with ⟨old, hOld, hOldId, rfl⟩ | ⟨-, hAway⟩
  · exact hRows old hOld hOldId
  · exact absurd hId hAway

theorem Kept.repeatBreakthrough (h : w.Kept) (askId : String) : w.Advances (w.repeatBreakthrough env askId) := by
  unfold AskStore.repeatBreakthrough
  split
  · exact h.same
  next row hRow =>
  split
  · exact h.same
  next hPass =>
  simp only [ne_eq, Bool.or_eq_true, decide_eq_true_eq, not_or, not_not] at hPass
  have hOpen : userAskIsOpen row.state = true := by
    rw [hPass.1]
    rfl
  have hRows := h.rows_open hRow hOpen
  dsimp only
  split
  · have hAdmits : w.Admits askId fun row => { row with nextEscalationAt := none, updatedAt := w.clock } :=
      ⟨fun _ => rfl, fun _ => rfl, hRows, fun _ => Nat.le_refl _, fun other hOther _ => ⟨Nat.le_refl _, h.levels other hOther⟩⟩
    exact ⟨h.update hAdmits hRows, hAdmits.grows⟩
  · next hRoom =>
    simp only [Bool.or_eq_true, decide_eq_true_eq, not_or] at hRoom
    exact ⟨h.sendAskPush (Nat.le_refl _) hRows (Nat.lt_of_not_le hRoom.2) _, grows_of_asks rfl⟩

theorem Kept.escalateCloud (h : w.Kept) (askId : String) : w.Advances (w.escalateCloudAsk env askId) := by
  unfold escalateCloudAsk
  split
  · exact h.same
  next row hRow =>
  split
  · exact h.same
  next hPass =>
  simp only [ne_eq, Bool.or_eq_true, decide_eq_true_eq, not_or, not_not] at hPass
  have hOpen : userAskIsOpen row.state = true := by
    rw [hPass.1]
    rfl
  have hRows := h.rows_open hRow hOpen
  dsimp only
  have hCeiling := effectiveEscalationCeiling_le w.policy (clampUrgency_le row.urgency) (w.quietHoursMinute env row.localOffsetMinutes)
  generalize effectiveEscalationCeiling w.policy (clampUrgency row.urgency) (w.quietHoursMinute env row.localOffsetMinutes) = ceiling
    at hCeiling ⊢
  have hLevel : (nextEscalationLevel (clampUrgency row.escalationLevel) ceiling).getD (clampUrgency row.escalationLevel) ≤ 4 := by
    have hCur := clampUrgency_le row.escalationLevel
    unfold nextEscalationLevel
    split
    · exact hCur
    · rw [Option.getD_some]
      omega
  split
  · refine ⟨h.schedule (fun other hOther hId hClosed => ?_) _, grows_of_asks rfl⟩
    exact absurd (hClosed.symm.trans (hRows other hOther hId)) nofun
  · next hRoom =>
    simp only [Bool.or_eq_true, decide_eq_true_eq, not_or] at hRoom
    exact ⟨h.sendAskPush hLevel hRows (Nat.lt_of_not_le hRoom.2) _, grows_of_asks rfl⟩

/-! ## What a call does when the push service has answered -/

theorem Kept.recordPush (h : w.Kept) {call : PushCall} (hCall : call ∈ w.calls) (hAlone : call.recordedBefore = w.recorded.length) :
    (w.recordPush call).Kept := by
  obtain ⟨⟨hLevel, hNow⟩, hAfter, -, hRoom⟩ := h.waiting call hCall
  exact
    { h with
      pushed := fun push hPush => by
        rcases List.mem_append.mp hPush with hOld | hNew
        · exact h.pushed push hOld
        · rw [List.mem_singleton.mp hNew]
          exact ⟨hNow, hAfter⟩
      waiting := fun other hOther => by
        obtain ⟨hTimes, hLater, hBef, -⟩ := h.waiting other hOther
        refine ⟨hTimes, hLater, Nat.le_succ_of_le hBef, fun hEq => ?_⟩
        exact absurd hEq (Nat.ne_of_lt (Nat.lt_succ_of_le hBef))
      retained := fun since hSince => by
        have hBef := h.retained since hSince
        show (Recorded.mk call.now call.limit :: w.recorded).countP (fun push => since ≤ push.sentAt) ≤
          (w.pushes ++ [PushRow.mk call.askId call.level call.now]).countP fun push => since ≤ push.sentAt
        rw [List.countP_cons, List.countP_append, List.countP_singleton]
        exact Nat.add_le_add_right hBef _
      limited := ⟨hRoom hAlone, h.limited⟩ }

theorem Kept.fewerCalls (h : w.Kept) (place : Nat) : ({ w with calls := w.calls.eraseIdx place } : AskStore δ α).Kept :=
  { h with waiting := fun call hCall => h.waiting call (List.mem_of_mem_eraseIdx hCall) }

theorem Kept.goOn (h : w.Kept) {call : PushCall} {outcome : PushOutcome} (hLevel : call.level ≤ 4)
    (hOpen : Touches call outcome → ∀ row ∈ w.asks, row.askId = call.askId → userAskIsOpen row.state = true)
    (hRaised : call.path = .cloud false → outcome ≠ .noPushTarget → ∀ row ∈ w.asks, row.askId = call.askId →
      row.escalationLevel ≤ call.level) : w.Advances (w.goOn call outcome) := by
  have hSchedule : ∀ {store : AskStore δ α} (job : AskJob), store.Kept → Touches call outcome → (∀ row ∈ store.asks,
      row.askId = call.askId → userAskIsOpen row.state = true) → (store.schedule job call.askId (call.now + escalationStepMs)).Kept :=
    fun job hKept _ hRows => hKept.schedule
      (fun row hRow hId hClosed => absurd (hClosed.symm.trans (hRows row hRow hId)) nofun) _
  have hNoted : ∀ next : Option Int, Touches call outcome → w.Admits call.askId fun row =>
      { row with nextEscalationAt := next, updatedAt := call.now } := fun next hTouches =>
    ⟨fun _ => rfl, fun _ => rfl, hOpen hTouches, fun _ => Nat.le_refl _, fun row hRow _ => ⟨Nat.le_refl _, h.levels row hRow⟩⟩
  have hStill : ∀ {f : AskRow δ → AskRow δ}, (∀ row, (f row).state = row.state) → Touches call outcome →
      ∀ row ∈ (w.update call.askId f).asks, row.askId = call.askId → userAskIsOpen row.state = true := by
    intro f hSt hTouches row hRow hId
    rcases mem_update hRow with ⟨old, hOld, hOldId, rfl⟩ | ⟨-, hAway⟩
    · rw [hSt]
      exact hOpen hTouches old hOld hOldId
    · exact absurd hId hAway
  unfold AskStore.goOn
  cases hPath : call.path with
  | escalate =>
    dsimp only
    split
    · next hSent =>
      simp only [Bool.and_eq_true, decide_eq_true_eq] at hSent
      have hTouches : Touches call outcome := fun _ => hSent
      exact ⟨hSchedule _ h hTouches (hOpen hTouches), grows_of_asks rfl⟩
    · exact ⟨h.cancelJob _ _, grows_of_asks rfl⟩
  | repeatBreakthrough =>
    have hTouches : Touches call outcome := fun hEq => nomatch hPath.symm.trans hEq
    dsimp only
    split
    · exact ⟨h.update (hNoted none hTouches) (hOpen hTouches), (hNoted none hTouches).grows⟩
    · have hAdmits := hNoted (some (call.now + escalationStepMs)) hTouches
      exact ⟨hSchedule _ (h.update hAdmits (hOpen hTouches)) hTouches (hStill (fun _ => rfl) hTouches), hAdmits.grows⟩
  | cloud repeatOnly =>
    have hTouches : Touches call outcome := fun hEq => nomatch hPath.symm.trans hEq
    dsimp only
    split
    · exact ⟨h.update (hNoted none hTouches) (hOpen hTouches), (hNoted none hTouches).grows⟩
    next hTgt =>
    cases repeatOnly with
    | true =>
      have hAdmits := hNoted (some (call.now + escalationStepMs)) hTouches
      exact ⟨hSchedule _ (h.update hAdmits (hOpen hTouches)) hTouches (hStill (fun _ => rfl) hTouches), hAdmits.grows⟩
    | false =>
      have hAdmits : w.Admits call.askId fun row =>
          { row with
            escalationLevel := call.level, revision := row.revision + 1
            nextEscalationAt := some (call.now + escalationStepMs), updatedAt := call.now } :=
        ⟨fun _ => rfl, fun _ => rfl, hOpen hTouches, fun _ => Nat.le_succ _,
          fun row hRow hId => ⟨hRaised hPath hTgt row hRow hId, hLevel⟩⟩
      exact ⟨hSchedule _ (h.update hAdmits (hOpen hTouches)) hTouches (hStill (fun _ => rfl) hTouches), hAdmits.grows⟩

theorem Kept.resume (h : w.Kept) (place : Nat) {outcome : PushOutcome} (hStands : ∀ call ∈ w.calls[place]?, w.Stands call outcome) :
    w.Advances (w.act env (.resume place outcome)) := by
  unfold act
  dsimp only
  split
  · next call hCall =>
    obtain ⟨hAlone, hRows⟩ := hStands call hCall
    have hIn := List.mem_of_getElem? hCall
    have hLevel := (h.waiting call hIn).1.1
    have hOpen : Touches call outcome → ∀ row ∈ w.asks, row.askId = call.askId → userAskIsOpen row.state = true :=
      fun hTouches row hRow hId => (hRows row hRow hId).1 hTouches
    have hRaised : call.path = .cloud false → outcome ≠ .noPushTarget → ∀ row ∈ w.asks, row.askId = call.askId →
        row.escalationLevel ≤ call.level := fun hPath hTgt row hRow hId => (hRows row hRow hId).2 hPath hTgt
    unfold AskStore.resume
    split
    · next hSent =>
      have hKept := (h.recordPush hIn (hAlone hSent)).fewerCalls place
      have hAdv := hKept.goOn hLevel hOpen hRaised
      exact ⟨hAdv.kept, hAdv.grows⟩
    · have hAdv := (h.fewerCalls place).goOn hLevel hOpen hRaised
      exact ⟨hAdv.kept, hAdv.grows⟩
  · exact h.same

/-! ## The sweep -/

theorem Kept.closeExpired (h : w.Kept) {rows : List (AskRow δ)}
    (hRows : ∀ row ∈ rows, row ∈ w.asks ∧ userAskIsOpen row.state = true)
    (hIds : (rows.map AskRow.askId).Nodup) :
    w.Advances (closeExpired w rows) ∧ (AskStore.closeExpired w rows).clock = w.clock := by
  induction rows generalizing w with
  | nil => exact ⟨h.same, rfl⟩
  | cons row rest ih =>
    rw [List.map_cons, List.nodup_cons] at hIds
    obtain ⟨hIn, hOpen⟩ := hRows row List.mem_cons_self
    have hFirst := @Kept.close _ _ _ _ h _ (lookup_of_mem h.askIds hIn) hOpen .expired rfl w.answers _ (.inl rfl)
    have hRest : ∀ other ∈ rest, other ∈ (w.closeAsk row.askId .expired).asks ∧ userAskIsOpen other.state = true := by
      intro other hOther
      obtain ⟨hOld, hStill⟩ := hRows other (List.mem_cons_of_mem _ hOther)
      have hAway : other.askId ≠ row.askId := fun hEq => hIds.1 (hEq ▸ List.mem_map_of_mem hOther)
      refine ⟨?_, hStill⟩
      rw [closeAsk_asks]
      exact List.mem_map.mpr ⟨other, hOld, if_neg hAway⟩
    obtain ⟨hThen, hClock⟩ := ih hFirst.kept hRest hIds.2
    exact ⟨⟨hThen.kept, hFirst.grows.trans hThen.grows⟩, hClock⟩

def forget (w : AskStore δ α) : AskStore δ α :=
  { w with
    answers := w.answers.filter fun answer => answer.askId ∉ w.forgotten
    pushes := w.pushes.filter fun push => push.askId ∉ w.forgotten && w.clock - pushRetentionMs ≤ push.sentAt
    asks := w.asks.filter fun row => row.askId ∉ w.forgotten }

theorem mem_forget {row : AskRow δ} : row ∈ w.forget.asks ↔ row ∈ w.asks ∧ row.askId ∉ w.forgotten := by
  unfold forget
  rw [List.mem_filter, decide_eq_true_iff]

theorem Kept.forget (h : w.Kept) : w.forget.Kept := by
  have hAsks : ∀ row ∈ w.forget.asks, row ∈ w.asks := fun row hRow => (mem_forget.mp hRow).1
  exact
    { h with
      askIds := h.askIds.sublist (List.filter_sublist.map _)
      serials := h.serials.sublist (List.filter_sublist.map _)
      known := fun row hRow => h.known row (hAsks row hRow)
      levels := fun row hRow => h.levels row (hAsks row hRow)
      unanswered := fun row hRow => h.unanswered row (hAsks row hRow)
      disarmed := fun row hRow => h.disarmed row (hAsks row hRow)
      pushed := fun push hPush => by
        obtain ⟨hNow, hClosed⟩ := h.pushed push (List.mem_of_mem_filter hPush)
        exact ⟨hNow, fun row hRow => hClosed row (hAsks row hRow)⟩
      waiting := fun call hCall => ⟨(h.waiting call hCall).1, fun row hRow => (h.waiting call hCall).2.1 row (hAsks row hRow),
        (h.waiting call hCall).2.2⟩
      retained := fun since hSince => by
        refine (h.retained since hSince).trans ?_
        show w.pushes.countP (fun push => since ≤ push.sentAt) ≤ (w.pushes.filter _).countP fun push => since ≤ push.sentAt
        rw [List.countP_filter]
        refine List.countP_mono_left fun push hPush hLate => ?_
        simp only [decide_eq_true_eq] at hLate
        have hSince : w.clock - pushRetentionMs ≤ since := hSince
        have hKeeps : push.askId ∉ w.forgotten := by
          intro hForgotten
          obtain ⟨row, hRow, hId⟩ := List.mem_map.mp hForgotten
          obtain ⟨hIn, hOld⟩ := List.mem_filter.mp hRow
          simp only [Bool.and_eq_true, Bool.not_eq_true', decide_eq_true_eq] at hOld
          have hBef := (h.pushed push hPush).2 row hIn hOld.1 hId
          unfold pushRetentionMs at hSince
          unfold retentionMs at hOld
          omega
        simp only [Bool.and_eq_true, decide_eq_true_eq]
        exact ⟨hLate, hKeeps, by omega⟩ }

theorem Kept.sweep (h : w.Kept) : ∃ mid : AskStore δ α, w.Advances mid ∧ w.sweep = mid.forget ∧ w.sweep.Kept := by
  have hExp := @Kept.closeExpired _ _ _ h (w.asks.filter fun row => userAskIsOpen row.state && row.expiresAt ≤ w.clock)
    (fun row hRow => by
      obtain ⟨hIn, hDue⟩ := List.mem_filter.mp hRow
      rw [Bool.and_eq_true] at hDue
      exact ⟨hIn, hDue.1⟩)
    (h.askIds.sublist (List.filter_sublist.map _))
  exact ⟨_, hExp.1, rfl, hExp.1.kept.forget⟩

/-! ## Runs -/

theorem Kept.tick (h : w.Kept) (elapsed : Nat) : ({ w with clock := w.clock + elapsed } : AskStore δ α).Kept :=
  { h with
    pushed := fun push hPush => ⟨(h.pushed push hPush).1.trans (Int.le_add_of_nonneg_right (Int.natCast_nonneg _)),
      (h.pushed push hPush).2⟩
    waiting := fun call hCall =>
      ⟨⟨(h.waiting call hCall).1.1, (h.waiting call hCall).1.2.trans (Int.le_add_of_nonneg_right (Int.natCast_nonneg _))⟩,
        (h.waiting call hCall).2⟩
    retained := fun since hSince => h.retained since (Int.le_trans (by
      show w.clock - pushRetentionMs ≤ w.clock + elapsed - pushRetentionMs
      omega) hSince) }

theorem Kept.step_cases (h : w.Kept) {input : AskInput δ α} (hUndist : w.Undisturbed input) :
    w.Advances (w.step env input) ∨
      (input = ⟨input.elapsed, .sweep⟩ ∧ ∃ mid : AskStore δ α, w.Advances mid ∧ w.step env input = mid.forget ∧
        (w.step env input).Kept) := by
  obtain ⟨elapsed, action⟩ := input
  have hTick := h.tick elapsed
  unfold AskStore.step
  cases action with
  | sweep =>
    obtain ⟨mid, hMid, hSweep, hKept⟩ := hTick.sweep
    exact .inr ⟨rfl, mid, ⟨hMid.kept, hMid.grows⟩, hSweep, hKept⟩
  | register args =>
    have hAdv := @Kept.register _ _ env _ hTick args
    exact .inl ⟨hAdv.kept, hAdv.grows⟩
  | answer askId answer =>
    have hAdv := @Kept.answer _ _ env _ hTick askId answer
    exact .inl ⟨hAdv.kept, hAdv.grows⟩
  | cancel askId =>
    have hAdv := hTick.cancel askId
    exact .inl ⟨hAdv.kept, hAdv.grows⟩
  | escalate askId level deviceId localMinuteOfDay =>
    have hAdv := @Kept.escalate _ _ env _ hTick askId level deviceId localMinuteOfDay
    exact .inl ⟨hAdv.kept, hAdv.grows⟩
  | repeatBreakthrough askId =>
    have hAdv := @Kept.repeatBreakthrough _ _ env _ hTick askId
    exact .inl ⟨hAdv.kept, hAdv.grows⟩
  | escalateCloud askId =>
    have hAdv := @Kept.escalateCloud _ _ env _ hTick askId
    exact .inl ⟨hAdv.kept, hAdv.grows⟩
  | default askId =>
    have hAdv := @Kept.default _ _ env _ hTick askId
    exact .inl ⟨hAdv.kept, hAdv.grows⟩
  | expire askId =>
    have hAdv := hTick.expire askId
    exact .inl ⟨hAdv.kept, hAdv.grows⟩
  | resume place outcome =>
    have hStands : ∀ call ∈ w.calls[place]?, w.Stands call outcome := hUndist
    have hAdv := @Kept.resume _ _ env _ hTick place outcome hStands
    exact .inl ⟨hAdv.kept, hAdv.grows⟩
  | policy policy => exact .inl ⟨{ hTick with }, grows_of_asks rfl⟩
  | settle job askId => exact .inl ⟨hTick.cancelJob job askId, grows_of_asks rfl⟩
  | restart => exact .inl ⟨{ hTick with waiting := nofun }, grows_of_asks rfl⟩

theorem Kept.step (h : w.Kept) {input : AskInput δ α} (hUndist : w.Undisturbed input) : (w.step env input).Kept := by
  obtain hAdv | ⟨-, mid, -, -, hKept⟩ := @Kept.step_cases _ _ env _ h _ hUndist
  · exact hAdv.kept
  · exact hKept

theorem Advances.sound {later : AskStore δ α} (h : w.Advances later) {row : AskRow δ} (hRow : row ∈ w.asks) :
    (userAskIsOpen row.state = false → row ∈ later.asks) ∧ ∀ next ∈ later.asks, next.serial = row.serial →
      row.revision ≤ next.revision ∧ row.escalationLevel ≤ next.escalationLevel := by
  obtain ⟨mine, hMine, hSerial, hClosed, hRev, hLevel⟩ := h.grows row hRow
  refine ⟨fun hSt => hClosed hSt ▸ hMine, fun next hNext hEq => ?_⟩
  rw [h.kept.serial_eq hMine hNext (hEq.trans hSerial.symm)]
  exact ⟨hRev, hLevel⟩

theorem Kept.sound (h : w.Kept) {input : AskInput δ α} (hUndist : w.Undisturbed input) : w.Sound env input := by
  obtain hAdv | ⟨hSweep, mid, hMid, hForget, -⟩ := @Kept.step_cases _ _ env _ h _ hUndist
  · exact ⟨fun row hRow hSt => .inl ((hAdv.sound hRow).1 hSt), fun row hRow => (hAdv.sound hRow).2⟩
  · refine ⟨fun row hRow hSt => ?_, fun row hRow next hNext => ?_⟩
    · rw [hForget]
      have hStays := (hMid.sound hRow).1 hSt
      by_cases hForgotten : row.askId ∈ mid.forgotten
      · refine .inr ⟨hSweep, fun other hOther hEq => ?_⟩
        rw [← hEq] at hForgotten
        exact (mem_forget.mp hOther).2 hForgotten
      · exact .inl (mem_forget.mpr ⟨hStays, hForgotten⟩)
    · rw [hForget] at hNext
      exact (hMid.sound hRow).2 next (mem_forget.mp hNext).1

theorem kept_start : ({} : AskStore δ α).Kept where
  askIds := List.nodup_nil
  serials := List.nodup_nil
  known _ hRow := absurd hRow List.not_mem_nil
  levels _ hRow := absurd hRow List.not_mem_nil
  once := List.nodup_nil
  current _ hAccept := absurd hAccept List.not_mem_nil
  unanswered _ hRow := absurd hRow List.not_mem_nil
  disarmed _ hRow := absurd hRow List.not_mem_nil
  pushed _ hPush := absurd hPush List.not_mem_nil
  waiting _ hCall := absurd hCall List.not_mem_nil
  retained since _ := by
    rw [List.countP_nil]
    exact Nat.zero_le _
  limited := trivial

def plainEnv : AskEnv Bool Unit where
  userAskHasDefaults := id
  validateAnswer _ _ := true
  minuteOfDayInZone _ _ := none
  cloudThreadId := "orchestrator"

def escalatingRun : List (AskInput Bool Unit) :=
  [⟨0, .policy { ceiling := 4, quietHours := ⟨false, 0, 0⟩ }⟩,
    ⟨0, .register ⟨"ask", "call", "thread", "device", some 4, true, none, none, false⟩⟩, ⟨1, .escalate "ask" 4 (some "device") none⟩]

def answeringRun : List (AskInput Bool Unit) :=
  escalatingRun ++ [⟨1, .answer "ask" ⟨"ask", 2, ()⟩⟩, ⟨1, .resume 0 .sent⟩]

def standingRun : List (AskInput Bool Unit) :=
  escalatingRun ++ [⟨1, .resume 0 .sent⟩, ⟨1, .answer "ask" ⟨"ask", 2, ()⟩⟩]

theorem standingRun_undisturbed : Along (AskStore.step plainEnv) Undisturbed {} standingRun := by
  refine ⟨trivial, trivial, trivial, ?_, trivial, trivial⟩
  decide

end AskStore

end Stella.UserAsks
