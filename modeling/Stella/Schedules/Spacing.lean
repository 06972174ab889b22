import Mathlib.Order.Bounds.Basic
import Stella.Schedules.Model

/-! # How far apart a schedule's runs are

A schedule is accepted for the first two run times after the moment it is sent.
-/

namespace Stella.Schedules

/-- The run times a schedule lists; a schedule without an anchor is anchored at `since`. -/
def runTimes (listed : String → Option String → Nat → Prop) (since : Nat) : LocalCronSchedule → Set Nat
  | .atMs ms => {m | m = ms}
  | .every everyMs anchorMs => {m | ∃ k, m = anchorMs.getD since + k * everyMs}
  | .cron expr tz => {m | listed expr tz m}

/-- The library's `nextRun` is the least listed time strictly after its argument. -/
def Lists (cron : CronLib) (listed : String → Option String → Nat → Prop) : Prop :=
  ∀ expr tz, cron.reads expr tz = true → ∀ now next, cron.nextRun expr tz now = some next ↔ IsLeast {m | listed expr tz m ∧ now < m} next

/-- From `now` on, the two next run times after any time are at least the minimum interval apart. -/
def Spaced (listed : String → Option String → Nat → Prop) (schedule : LocalCronSchedule) (now : Nat) : Prop :=
  ∀ t, now ≤ t → ∀ first second, IsLeast {m | m ∈ runTimes listed t schedule ∧ t < m} first →
    IsLeast {m | m ∈ runTimes listed t schedule ∧ first < m} second → first + minIntervalMs ≤ second

/-- Any two times that a cron expression lists behind the first one after `now` are the minimum interval apart. -/
def LaterApart (listed : String → Option String → Nat → Prop) (schedule : LocalCronSchedule) (now : Nat) : Prop :=
  match schedule with
  | .cron expr tz => ∀ first, IsLeast {m | listed expr tz m ∧ now < m} first →
      ∀ a b, listed expr tz a → listed expr tz b → first < a → a < b → a + minIntervalMs ≤ b
  | _ => True

inductive Accepted (cron : CronLib) (now : Nat) (schedule : LocalCronSchedule) : Prop
  | create (db db' : Db) (input : Db.CreateInput) (isAnonymous : Bool) (scheduleId : String)
      (hNew : Rows.lookup Receipt.requestId db.receipts input.requestId = none) (hSchedule : input.schedule = schedule)
      (hCreated : Db.createSchedule cron db now input isAnonymous scheduleId = some db')
  | update (db db' : Db) (input : Db.UpdateInput) (isAnonymous : Bool)
      (hNew : Rows.lookup Receipt.requestId db.receipts input.requestId = none) (hSchedule : input.schedule = some schedule)
      (hUpdated : Db.updateSchedule cron db now input isAnonymous = some db')

variable {cron : CronLib} {listed : String → Option String → Nat → Prop} {schedule : LocalCronSchedule} {now : Nat}

theorem Accepted.allowed (h : Accepted cron now schedule) : assertAllowed cron schedule now = .ok () := by
  cases h with
  | create db db' input isAnonymous scheduleId hNew hSchedule hCreated =>
    unfold Db.createSchedule Db.withReceipt at hCreated
    split at hCreated
    · cases hCreated
    · rw [hNew] at hCreated
      obtain ⟨written, hWritten, -⟩ := Option.map_eq_some_iff.mp hCreated
      dsimp only at hWritten
      rw [hSchedule] at hWritten
      split at hWritten
      · next hAllowed _ => exact hAllowed
      · cases hWritten
  | update db db' input isAnonymous hNew hSchedule hUpdated =>
    unfold Db.updateSchedule Db.withReceipt at hUpdated
    split at hUpdated
    · cases hUpdated
    · rw [hNew] at hUpdated
      obtain ⟨written, hWritten, -⟩ := Option.map_eq_some_iff.mp hUpdated
      obtain ⟨row, -, hRow⟩ := Option.bind_eq_some_iff.mp hWritten
      obtain ⟨moved, hMoved, -⟩ := Option.bind_eq_some_iff.mp hRow
      unfold Db.movedTo at hMoved
      rw [hSchedule] at hMoved
      dsimp only at hMoved
      split at hMoved
      · cases hMoved
      · next hAllowed => exact hAllowed

theorem firstGap_of_allowed (hLists : Lists cron listed) {expr : String} {tz : Option String}
    (hAllowed : assertAllowed cron (.cron expr tz) now = .ok ()) {first second : Nat}
    (hFirst : IsLeast {m | listed expr tz m ∧ now < m} first)
    (hSnd : IsLeast {m | listed expr tz m ∧ first < m} second) : first + minIntervalMs ≤ second := by
  unfold assertAllowed intervalMs at hAllowed
  dsimp only at hAllowed
  split at hAllowed
  · cases hAllowed
  · next interval hInterval =>
    split at hInterval
    · cases hInterval
    · next hReads =>
      have hReads : cron.reads expr tz = true := by simpa using hReads
      rw [(hLists expr tz hReads now first).mpr hFirst, Option.bind_some, (hLists expr tz hReads first second).mpr hSnd,
        Option.map_some] at hInterval
      obtain rfl := Option.some.inj (Except.ok.inj hInterval)
      split at hAllowed
      · cases hAllowed
      · next hLong =>
        have := hSnd.1.2
        omega
  · next hNone =>
    split at hNone
    · cases hNone
    · next hReads =>
      have hReads : cron.reads expr tz = true := by simpa using hReads
      rw [(hLists expr tz hReads now first).mpr hFirst, Option.bind_some, (hLists expr tz hReads first second).mpr hSnd] at hNone
      cases hNone

theorem exists_isLeast {p : Nat → Prop} {m : Nat} (h : p m) : ∃ least, IsLeast {m | p m} least := by
  classical
  exact ⟨Nat.find ⟨m, h⟩, Nat.find_spec ⟨m, h⟩, fun _ hM => Nat.find_min' ⟨m, h⟩ hM⟩

/-- An accepted schedule keeps the minimum interval if and only if a cron expression also keeps it behind its first run. -/
theorem spaced_iff (hLists : Lists cron listed) (h : Accepted cron now schedule) :
    Spaced listed schedule now ↔ LaterApart listed schedule now := by
  have hAllowed := h.allowed
  cases schedule with
  | atMs ms =>
    refine ⟨fun _ => trivial, fun _ t _ first second hFirst hSecond => ?_⟩
    have hOne : first = ms := hFirst.1.1
    have hTwo : second = ms := hSecond.1.1
    have hAfter : first < second := hSecond.1.2
    omega
  | every everyMs anchorMs =>
    refine ⟨fun _ => trivial, fun _ t _ first second hFirst hSecond => ?_⟩
    have hLong : minIntervalMs ≤ everyMs := by
      by_contra hShort
      unfold assertAllowed intervalMs at hAllowed
      dsimp only at hAllowed
      rw [if_pos (not_le.mp hShort)] at hAllowed
      cases hAllowed
    obtain ⟨i, rfl⟩ := hFirst.1.1
    obtain ⟨j, rfl⟩ := hSecond.1.1
    have hAfter : anchorMs.getD t + i * everyMs < anchorMs.getD t + j * everyMs := hSecond.1.2
    have hLess : i < j := Nat.lt_of_mul_lt_mul_right (Nat.lt_of_add_lt_add_left hAfter)
    have hStep : (i + 1) * everyMs ≤ j * everyMs := Nat.mul_le_mul_right everyMs hLess
    rw [Nat.succ_mul] at hStep
    omega
  | cron expr tz =>
    constructor
    · intro hSpaced first hFirst a b hA hB hBehind hAB
      have hNow : now < first := hFirst.1.2
      obtain ⟨second, hSecond⟩ := exists_isLeast (p := fun m => listed expr tz m ∧ a < m) ⟨hB, hAB⟩
      have hNext : IsLeast {m | listed expr tz m ∧ a - 1 < m} a :=
        ⟨⟨hA, by omega⟩, fun m hM => by have := hM.2; omega⟩
      have hGap := hSpaced (a - 1) (by omega) a second hNext hSecond
      exact hGap.trans (hSecond.2 ⟨hB, hAB⟩)
    · intro hApart t hLater x y hX hY
      obtain ⟨first, hFirst⟩ := exists_isLeast (p := fun m => listed expr tz m ∧ now < m) ⟨hX.1.1, hLater.trans_lt hX.1.2⟩
      rcases Nat.lt_or_ge first x with hBehind | hAt
      · exact hApart first hFirst x y hX.1.1 hY.1.1 hBehind hY.1.2
      · have hSame : x = first := le_antisymm hAt (hFirst.2 ⟨hX.1.1, hLater.trans_lt hX.1.2⟩)
        subst hSame
        exact firstGap_of_allowed hLists hAllowed hFirst hY

/-! ## Gaps of a minute and of an hour -/

/-- The times of `0,59 * * * *`. -/
def onTheHour (_ : String) (_ : Option String) (m : Nat) : Prop := m % 3600000 = 0 ∨ m % 3600000 = 3540000

def onTheHourLib : CronLib where
  reads _ _ := true
  nextRun _ _ now := some (if now % 3600000 < 3540000 then now - now % 3600000 + 3540000 else now - now % 3600000 + 3600000)
  after := by
    intro expr tz now next hNext
    have hNext := Option.some.inj hNext
    split at hNext <;> omega

theorem lists_onTheHour : Lists onTheHourLib onTheHour := by
  intro expr tz hReads now next
  have hLeast : IsLeast {m | onTheHour expr tz m ∧ now < m}
      (if now % 3600000 < 3540000 then now - now % 3600000 + 3540000 else now - now % 3600000 + 3600000) := by
    unfold onTheHour
    constructor
    · change (_ % 3600000 = 0 ∨ _ % 3600000 = 3540000) ∧ now < _
      split <;> omega
    · rintro m ⟨hList, hAfter⟩
      split <;> omega
  constructor
  · intro hNext
    rw [← Option.some.inj hNext]
    exact hLeast
  · intro hNext
    exact congrArg some (hLeast.unique hNext)

def hourAndBefore : LocalCronSchedule := .cron "0,59 * * * *" none

theorem accepted_hourAndBefore : Accepted onTheHourLib 3570000 hourAndBefore :=
  .create emptyDb _ ⟨"request", "", hourAndBefore, none⟩ false "schedule" rfl rfl rfl

theorem spaced_iff_hourAndBefore : Spaced onTheHour hourAndBefore 3570000 ↔ LaterApart onTheHour hourAndBefore 3570000 :=
  spaced_iff lists_onTheHour accepted_hourAndBefore

/-- Sent half a minute before the hour, the runs a minute apart are not seen. -/
theorem shortGap_accepted : Accepted onTheHourLib 3570000 hourAndBefore ∧ ¬ Spaced onTheHour hourAndBefore 3570000 := by
  refine ⟨.create emptyDb _ ⟨"request", "", hourAndBefore, none⟩ false "schedule" rfl rfl rfl, fun hSpaced => ?_⟩
  have hFirst := (lists_onTheHour "0,59 * * * *" none rfl 7139999 7140000).mp (by decide)
  have hSecond := (lists_onTheHour "0,59 * * * *" none rfl 7140000 7200000).mp (by decide)
  exact absurd (hSpaced 7139999 (by decide) 7140000 7200000 hFirst hSecond) (by decide)

end Stella.Schedules
