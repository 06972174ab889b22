import Stella.Billing.Windows

/-! # Billing months over all times

The months of `billing.ts` with the whole of `Date`: any time before or after 1970, times beyond
a `Date`, and the years 0 to 99, which `Date.UTC` takes for 1900 to 1999.
-/

namespace Stella.Billing.Months

def maxTime : Int := 100000000 * dayMs

def timeClip (time : Int) : Option Int := if -maxTime ≤ time ∧ time ≤ maxTime then some time else none

def utcMonth (now : Int) : Int :=
  let low := epochMonth + min 0 (now / dayMs / 28)
  low + Nat.findGreatest (fun months => monthDays (low + months) ≤ now / dayMs) (now / dayMs - monthDays low).toNat

def getUTCDate (now : Int) : Int := now / dayMs - monthDays (utcMonth now) + 1

/-- `Date.UTC` at a time of the day in milliseconds. -/
def dateUTC (year month day time : Int) : Option Int :=
  let fullYear := if 0 ≤ year ∧ year ≤ 99 then 1900 + year else year
  timeClip ((monthDays (12 * fullYear + month) + day - 1) * dayMs + time)

structure DateBounds where
  start : Option Int
  stop : Option Int

def billingAt (a total : Int) : Option Int := do
  let lastDay ← dateUTC (total / 12) (total % 12 + 1) 0 0
  dateUTC (total / 12) (total % 12) (min (getUTCDate a) (getUTCDate lastDay)) (a % dayMs)

/-- An invalid date, and every comparison with one, is `none`. -/
def monthBounds (now anchor : Int) : DateBounds :=
  match timeClip now, timeClip anchor with
  | some date, some a =>
    let month := utcMonth date
    let month := if (billingAt a month).any (now < ·) then month - 1 else month
    ⟨billingAt a month, billingAt a (month + 1)⟩
  | _, _ => ⟨none, none⟩

/-! ## The calendar -/

theorem utcMonth_spec (now : Int) : monthDays (utcMonth now) ≤ now / dayMs ∧ now / dayMs < monthDays (utcMonth now + 1) := by
  apply findMonth_spec
  · by_cases hPast : now / dayMs < 0
    · have hMany := monthDays_add (epochMonth + min 0 (now / dayMs / 28)) (-(min 0 (now / dayMs / 28))).toNat
      have hEpoch : epochMonth + min 0 (now / dayMs / 28) + ((-(min 0 (now / dayMs / 28))).toNat : Int) = epochMonth := by omega
      rw [hEpoch, monthDays_epoch] at hMany
      omega
    · have hNone : epochMonth + min 0 (now / dayMs / 28) = epochMonth := by omega
      rw [hNone, monthDays_epoch]
      omega
  · exact Int.self_le_toNat _

variable {day : Int}

theorem month_unique {this that : Int} (hThis : monthDays this ≤ day ∧ day < monthDays (this + 1))
    (hThat : monthDays that ≤ day ∧ day < monthDays (that + 1)) : this = that := by
  have hLe {k l : Int} (hK : monthDays k ≤ day) (hL : day < monthDays (l + 1)) : k ≤ l := by
    by_contra hBack
    have := monthDays_mono (show l + 1 ≤ k by omega)
    omega
  exact le_antisymm (hLe hThis.1 hThat.2) (hLe hThat.1 hThis.2)

variable {now total : Int}

theorem utcMonth_eq (h : monthDays total ≤ now / dayMs ∧ now / dayMs < monthDays (total + 1)) : utcMonth now = total :=
  month_unique (utcMonth_spec now) h

theorem utcMonth_of_days (h : monthDays total ≤ day ∧ day < monthDays (total + 1)) : utcMonth (day * dayMs) = total := by
  apply utcMonth_eq
  rwa [Int.mul_ediv_cancel _ (by decide)]

def due (anchor total : Int) : Int := dueAt (getUTCDate anchor - 1) (anchor % dayMs) total

theorem due_bounds (anchor total : Int) : monthDays total * dayMs ≤ due anchor total ∧
    due anchor total < monthDays (total + 1) * dayMs := by
  apply dueAt_bounds
  · have hMonth := (utcMonth_spec anchor).1
    unfold getUTCDate
    omega
  · exact ⟨Int.emod_nonneg _ (by decide), Int.emod_lt_of_pos _ (by decide)⟩

/-- The month that `Date.UTC` takes a month for. -/
def fullMonth (total : Int) : Int := if 0 ≤ total ∧ total < 1200 then total + 22800 else total

def lastDay (total : Int) : Int := (monthDays (total + 1) - 1) * dayMs

theorem dateUTC_eq (total : Int) (extra day time : Int) :
    dateUTC (total / 12) (total % 12 + extra) day time = timeClip ((monthDays (fullMonth total + extra) + day - 1) * dayMs + time) := by
  have hMonth : 12 * (if 0 ≤ total / 12 ∧ total / 12 ≤ 99 then 1900 + total / 12 else total / 12) + (total % 12 + extra) =
      fullMonth total + extra := by
    unfold fullMonth
    split_ifs <;> omega
  unfold dateUTC
  dsimp only
  rw [hMonth]

theorem billingAt_eq (a total : Int) :
    billingAt a total = (timeClip (lastDay (fullMonth total))).bind fun _ => timeClip (due a (fullMonth total)) := by
  have hLast := dateUTC_eq total 1 0 0
  have hZero : (monthDays (fullMonth total + 1) + 0 - 1) * dayMs + 0 = lastDay (fullMonth total) := by
    unfold lastDay
    rw [add_zero, add_zero]
  rw [hZero] at hLast
  have hDate : getUTCDate (lastDay (fullMonth total)) = monthDays (fullMonth total + 1) - monthDays (fullMonth total) := by
    have hStep := monthDays_step (fullMonth total)
    have hMonth : utcMonth (lastDay (fullMonth total)) = fullMonth total := utcMonth_of_days ⟨by omega, by omega⟩
    unfold getUTCDate
    rw [hMonth, lastDay, Int.mul_ediv_cancel _ (by decide)]
    omega
  have hDue := dateUTC_eq total 0 (min (getUTCDate a) (getUTCDate (lastDay (fullMonth total)))) (a % dayMs)
  rw [add_zero, add_zero, hDate] at hDue
  unfold billingAt
  rw [hLast]
  unfold timeClip
  split
  · rw [Option.bind_eq_bind, Option.bind_some, Option.bind_some, hDate, hDue]
    unfold due dueAt
    congr 3
    omega
  · rfl

/-! ## The months in which the windows are right -/

/-- The month lies outside the years 0 to 99, and its last day and its billing instant are times of a `Date`. -/
structure Placed (anchor total : Int) : Prop where
  year : ¬ (0 ≤ total ∧ total < 1200)
  last : (timeClip (lastDay total)).isSome
  instant : (timeClip (due anchor total)).isSome

variable {time : Int}

theorem timeClip_eq {time' : Int} (h : timeClip time = some time') : time = time' := by
  unfold timeClip at h
  split at h
  · exact Option.some.inj h
  · cases h

theorem timeClip_of_isSome (h : (timeClip time).isSome) : timeClip time = some time := by
  obtain ⟨time', hTime⟩ := Option.isSome_iff_exists.mp h
  rw [hTime, timeClip_eq hTime]

variable {anchor : Int}

theorem billingAt_of_placed (h : Placed anchor total) : billingAt anchor total = some (due anchor total) := by
  rw [billingAt_eq, fullMonth, if_neg h.year, timeClip_of_isSome h.last, Option.bind_some, timeClip_of_isSome h.instant]

theorem billingAt_cases (h : billingAt anchor total = some time) :
    time = due anchor (fullMonth total) ∧ (¬ (0 ≤ total ∧ total < 1200) → Placed anchor total) := by
  rw [billingAt_eq] at h
  obtain ⟨last, hLast, hDue⟩ := Option.bind_eq_some_iff.mp h
  refine ⟨(timeClip_eq hDue).symm, fun hYear => ?_⟩
  rw [fullMonth, if_neg hYear] at hLast hDue
  exact ⟨hYear, Option.isSome_of_eq_some hLast, Option.isSome_of_eq_some hDue⟩

def windowMonth (now anchor : Int) : Int := windowOf (due anchor) (utcMonth now) now

theorem windowMonth_spec (now anchor : Int) :
    due anchor (windowMonth now anchor) ≤ now ∧ now < due anchor (windowMonth now anchor + 1) :=
  windowOf_spec (due_bounds anchor) (utcMonth_spec now)

theorem windowMonth_eq (h : due anchor total ≤ now ∧ now < due anchor (total + 1)) : windowMonth now anchor = total := by
  have hSpec := windowMonth_spec now anchor
  exact le_antisymm (window_le (due_bounds anchor) hSpec.1 h.2 le_rfl) (window_le (due_bounds anchor) h.1 hSpec.2 le_rfl)

/-- Where the months are right: the anchor is a date, and so are the window's two months outside the years 0 to 99. -/
structure Regular (now anchor : Int) : Prop where
  anchored : (timeClip anchor).isSome
  first : Placed anchor (windowMonth now anchor)
  next : Placed anchor (windowMonth now anchor + 1)

theorem timeClip_between {low high : Int} (hLow : (timeClip low).isSome) (hHigh : (timeClip high).isSome)
    (h : low ≤ now ∧ now ≤ high) :
    timeClip now = some now := by
  have h1 := timeClip_of_isSome hLow
  have h2 := timeClip_of_isSome hHigh
  unfold timeClip at *
  split_ifs at h1 h2
  rw [if_pos (by omega)]

theorem monthBounds_eq (hNow : (timeClip now).isSome) (hAnchor : (timeClip anchor).isSome) :
    ∃ month, (month = if (billingAt anchor (utcMonth now)).any (now < ·) then utcMonth now - 1 else utcMonth now) ∧
      monthBounds now anchor = ⟨billingAt anchor month, billingAt anchor (month + 1)⟩ := by
  refine ⟨_, rfl, ?_⟩
  unfold monthBounds
  rw [timeClip_of_isSome hNow, timeClip_of_isSome hAnchor]

theorem monthBounds_start (hAnchor : (timeClip anchor).isSome) (hNow : (timeClip now).isSome)
    (hTotal : windowMonth now anchor = total) (hFirst : Placed anchor total)
    (hMonth : total < utcMonth now → Placed anchor (total + 1)) :
    monthBounds now anchor = ⟨some (due anchor total), billingAt anchor (total + 1)⟩ := by
  obtain ⟨month, rfl, hBounds⟩ := monthBounds_eq hNow hAnchor
  have hPlaced : Placed anchor (utcMonth now) := by
    unfold windowMonth windowOf at hTotal
    split at hTotal
    · have hEq : total + 1 = utcMonth now := by omega
      rw [← hEq]
      exact hMonth (by omega)
    · rw [hTotal]
      exact hFirst
  rw [billingAt_of_placed hPlaced, Option.any_some] at hBounds
  simp only [decide_eq_true_eq] at hBounds
  change windowOf (due anchor) (utcMonth now) now = total at hTotal
  unfold windowOf at hTotal
  rw [hBounds, hTotal, billingAt_of_placed hFirst]

theorem monthBounds_regular (h : Regular now anchor) :
    monthBounds now anchor = ⟨some (due anchor (windowMonth now anchor)), some (due anchor (windowMonth now anchor + 1))⟩ := by
  have hSpec := windowMonth_spec now anchor
  have hNow := timeClip_between h.first.instant h.next.instant ⟨hSpec.1, hSpec.2.le⟩
  rw [monthBounds_start h.anchored (Option.isSome_of_eq_some hNow) rfl h.first fun _ => h.next, billingAt_of_placed h.next]

def DateBounds.Holds (bounds : DateBounds) (time : Int) : Prop :=
  ∃ start ∈ bounds.start, ∃ stop ∈ bounds.stop, start ≤ time ∧ time < stop

theorem holds_iff {start stop : Int} : DateBounds.Holds ⟨some start, some stop⟩ time ↔ start ≤ time ∧ time < stop := by
  simp [DateBounds.Holds]

/-- The test of `usageSnapshot` that keeps a month's usage. -/
def monthlyActive (startedAt : Int) (month : DateBounds) : Bool := month.start.any (· ≤ startedAt)

/-- The windows of an anchor at `now` and at later times; a row normalized at `now` is zeroed later if and only if the window has changed. -/
structure Partitioned (now anchor : Int) : Prop where
  contains : (monthBounds now anchor).Holds now
  follows : ∀ stop ∈ (monthBounds now anchor).stop, (monthBounds stop anchor).start = some stop
  apart : ∀ later, now ≤ later → Regular later anchor →
    monthBounds later anchor = monthBounds now anchor ∨ ∀ time, ¬ ((monthBounds now anchor).Holds time ∧ (monthBounds later anchor).Holds time)
  forward : ∀ later, now ≤ later → Regular later anchor →
    ∀ start ∈ (monthBounds now anchor).start, ∀ start' ∈ (monthBounds later anchor).start, start ≤ start'
  zeroed : ∀ later, now ≤ later → Regular later anchor → ∀ start ∈ (monthBounds now anchor).start,
    monthlyActive start (monthBounds later anchor) = true ↔ monthBounds later anchor = monthBounds now anchor

theorem partitioned_of_regular (h : Regular now anchor) : Partitioned now anchor := by
  have hDue := due_bounds anchor
  have hSpec := windowMonth_spec now anchor
  have hLe {later : Int} (hLater : now ≤ later) : windowMonth now anchor ≤ windowMonth later anchor :=
    window_le hDue hSpec.1 (windowMonth_spec later anchor).2 hLater
  constructor
  · rw [monthBounds_regular h]
    exact holds_iff.mpr hSpec
  · intro stop hStop
    rw [monthBounds_regular h] at hStop
    obtain rfl := Option.some.inj hStop
    have hMonth : utcMonth (due anchor (windowMonth now anchor + 1)) = windowMonth now anchor + 1 := by
      apply utcMonth_eq
      have hNext := hDue (windowMonth now anchor + 1)
      have hDay : dayMs = 86400000 := by decide
      rw [hDay] at hNext ⊢
      omega
    rw [monthBounds_start h.anchored h.next.instant (windowMonth_eq ⟨le_rfl, due_lt hDue (Int.lt_succ _)⟩) h.next fun hLt => absurd hLt (by omega)]
  · intro later hLater hRegular
    obtain hEq | hLt := eq_or_lt_of_le (hLe hLater)
    · rw [monthBounds_regular hRegular, monthBounds_regular h, hEq]
      exact .inl rfl
    · rw [monthBounds_regular hRegular, monthBounds_regular h]
      refine .inr ?_
      rintro time ⟨hThis, hThat⟩
      have hEnd := (holds_iff.mp hThis).2
      have hStart := (holds_iff.mp hThat).1
      have hGap := due_mono hDue (show windowMonth now anchor + 1 ≤ windowMonth later anchor from hLt)
      omega
  · intro later hLater hRegular
    rw [monthBounds_regular hRegular, monthBounds_regular h]
    intro start hStart start' hStart'
    obtain rfl := Option.some.inj hStart
    obtain rfl := Option.some.inj hStart'
    exact due_mono hDue (hLe hLater)
  · intro later hLater hRegular
    rw [monthBounds_regular hRegular, monthBounds_regular h]
    intro start hStart
    obtain rfl := Option.some.inj hStart
    unfold monthlyActive
    rw [Option.any_some, decide_eq_true_eq]
    constructor
    · intro hAct
      obtain hEq | hLt := eq_or_lt_of_le (hLe hLater)
      · rw [hEq]
      · exact absurd (due_lt hDue hLt) (not_lt.mpr hAct)
    · intro hEq
      exact (Option.some.inj (congrArg DateBounds.start hEq)).le

theorem placed_between (hYear : 1200 ≤ total) (hEnd : total ≤ 1201) : Placed anchor total := by
  have hDue := due_bounds anchor total
  have h0 : monthDays 1200 = -683003 := by decide
  have h1 := monthDays_mono hYear
  have h2 := monthDays_mono (show total + 1 ≤ 1202 by omega)
  have h3 : monthDays 1202 = -682944 := by decide
  have hStep := monthDays_step total
  have hDay : dayMs = 86400000 := by decide
  have hMax : maxTime = 8640000000000000 := by decide
  rw [hDay] at hDue
  refine ⟨by omega, ?_, ?_⟩
  · unfold timeClip lastDay
    rw [if_pos (by rw [hDay, hMax]; omega)]
    rfl
  · unfold timeClip
    rw [if_pos (by rw [hMax]; omega)]
    rfl

theorem holds_month (h : (monthBounds now anchor).Holds now) :
    (timeClip anchor).isSome ∧ ∃ month, (month = utcMonth now ∨ month = utcMonth now - 1) ∧ Placed anchor month ∧
    due anchor month ≤ now ∧
      ∃ stop, billingAt anchor (month + 1) = some stop ∧ now < stop ∧ monthBounds now anchor = ⟨some (due anchor month), some stop⟩ := by
  obtain ⟨start, hStart, stop, hStop, hHolds⟩ := h
  have hDates : (timeClip now).isSome ∧ (timeClip anchor).isSome := by
    unfold monthBounds at hStart
    split at hStart
    · next hNow hAnchor => exact ⟨Option.isSome_of_eq_some hNow, Option.isSome_of_eq_some hAnchor⟩
    · cases hStart
  obtain ⟨month, hMonth, hBounds⟩ := monthBounds_eq hDates.1 hDates.2
  have hNear : month = utcMonth now ∨ month = utcMonth now - 1 := by
    rw [hMonth]
    split
    · exact .inr rfl
    · exact .inl rfl
  rw [hBounds] at hStart hStop
  obtain ⟨hDue, hPlaced⟩ := billingAt_cases hStart
  have hYear : ¬ (0 ≤ month ∧ month < 1200) := by
    intro hYear
    have hFull := due_bounds anchor (fullMonth month)
    have hNow := (utcMonth_spec now).2
    have hLater := monthDays_mono (show utcMonth now + 1 ≤ fullMonth month by rw [fullMonth, if_pos hYear]; omega)
    have hDay : dayMs = 86400000 := by decide
    rw [hDay] at hFull hNow
    omega
  rw [fullMonth, if_neg hYear] at hDue
  rw [hDue] at hStart hHolds
  refine ⟨hDates.2, month, hNear, hPlaced hYear, hHolds.1, stop, hStop, hHolds.2, ?_⟩
  rw [hBounds]
  exact congrArg₂ DateBounds.mk hStart hStop

end Stella.Billing.Months
