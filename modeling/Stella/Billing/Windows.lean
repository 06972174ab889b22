import Stella.Billing.Usage

/-! # Windows only open up as time passes

The starts of the calendar windows do not go back, so a window that has expired has
not become active again; with the account unchanged, what is left never shrinks.
-/

namespace Stella.Billing

/-! ## The calendar -/

variable {now later : Int}

theorem weekStart_mono (h : now ≤ later) : (weekBounds now).start ≤ (weekBounds later).start := by
  have hDay : now / dayMs ≤ later / dayMs := Int.ediv_le_ediv (by decide) h
  have hStart : ∀ day : Int, day - ((day + 4) % 7 + 6) % 7 = (day + 3) / 7 * 7 - 3 := fun day => by omega
  unfold weekBounds
  dsimp only
  rw [hStart, hStart]
  apply Int.mul_le_mul_of_nonneg_right
  · omega
  · decide

theorem daysBefore_le {year month : Int} (hLow : 0 ≤ month) (hHigh : month ≤ 10) :
    daysBefore year month + 28 ≤ daysBefore year (month + 1) := by
  have hCases : month = 0 ∨ month = 1 ∨ month = 2 ∨ month = 3 ∨ month = 4 ∨ month = 5 ∨ month = 6 ∨ month = 7 ∨
      month = 8 ∨ month = 9 ∨ month = 10 := by omega
  unfold daysBefore
  obtain rfl | rfl | rfl | rfl | rfl | rfl | rfl | rfl | rfl | rfl | rfl := hCases
  all_goals cases leapYear year <;> decide

theorem leapDays_step (year : Int) :
    year / 4 - year / 100 + year / 400 =
      (year - 1) / 4 - (year - 1) / 100 + (year - 1) / 400 + if leapYear year then 1 else 0 := by
  unfold leapYear
  by_cases h4 : year % 4 = 0
  · by_cases h100 : year % 100 = 0
    · by_cases h400 : year % 400 = 0
      · simp only [h4, h100, h400, decide_true, ne_eq, not_true_eq_false, decide_false, Bool.false_or, Bool.and_true, if_true]
        omega
      · simp only [h4, h100, h400, decide_true, ne_eq, not_true_eq_false, decide_false, Bool.false_or, Bool.and_false,
          Bool.false_eq_true, if_false]
        omega
    · simp only [h4, h100, decide_true, ne_eq, not_false_eq_true, Bool.true_or, Bool.and_true, if_true]
      omega
  · simp only [h4, decide_false, Bool.false_and, Bool.false_eq_true, if_false]
    omega

theorem monthDays_step (total : Int) : monthDays total + 28 ≤ monthDays (total + 1) := by
  unfold monthDays
  dsimp only
  by_cases hLast : total % 12 = 11
  · have hYear : (total + 1) / 12 = total / 12 + 1 := by omega
    have hMonth : (total + 1) % 12 = 0 := by omega
    have hLeap := leapDays_step (total / 12)
    have hPast : total / 12 + 1 - 1 = total / 12 := by omega
    rw [hYear, hMonth, hLast, hPast]
    have hDecember : daysBefore (total / 12) 11 = 334 + if leapYear (total / 12) then 1 else 0 := by
      unfold daysBefore
      cases leapYear (total / 12) <;> decide
    have hJanuary : daysBefore (total / 12 + 1) 0 = 0 := by
      unfold daysBefore
      cases leapYear (total / 12 + 1) <;> decide
    rw [hDecember, hJanuary]
    omega
  · have hYear : (total + 1) / 12 = total / 12 := by omega
    have hMonth : (total + 1) % 12 = total % 12 + 1 := by omega
    have hDays := @daysBefore_le (total / 12) (total % 12) (by omega) (by omega)
    rw [hYear, hMonth]
    omega

theorem monthDays_add (total : Int) (months : Nat) : monthDays total + 28 * months ≤ monthDays (total + months) := by
  induction months with
  | zero => simp
  | succ months ih =>
    have hStep := monthDays_step (total + months)
    have hNext : total + ((months + 1 : Nat) : Int) = total + months + 1 := by omega
    rw [hNext]
    omega

theorem monthDays_epoch : monthDays epochMonth = 0 := by decide

theorem monthDays_mono {total : Int} (h : total ≤ later) : monthDays total ≤ monthDays later := by
  obtain ⟨months, rfl⟩ := Int.le.dest h
  have hAdd := monthDays_add total months
  omega

theorem findMonth_spec {low day : Int} (h : monthDays low ≤ day) {bound : Nat} (hBound : day - monthDays low ≤ bound) :
    monthDays (low + Nat.findGreatest (fun months : Nat => monthDays (low + months) ≤ day) bound) ≤ day ∧
      day < monthDays (low + Nat.findGreatest (fun months : Nat => monthDays (low + months) ≤ day) bound + 1) := by
  refine ⟨Nat.findGreatest_spec (P := fun months : Nat => monthDays (low + months) ≤ day) (Nat.zero_le _) (by simpa using h), ?_⟩
  generalize hAt : Nat.findGreatest (fun months : Nat => monthDays (low + months) ≤ day) bound = months
  have hNext : low + (months : Int) + 1 = low + ((months + 1 : Nat) : Int) := by omega
  rw [hNext]
  by_cases hEnd : months + 1 ≤ bound
  · have hLt : Nat.findGreatest (fun months : Nat => monthDays (low + months) ≤ day) bound < months + 1 := by
      rw [hAt]
      exact Nat.lt_succ_self months
    exact not_le.mp (Nat.findGreatest_is_greatest hLt hEnd)
  · have hMany := monthDays_add low (months + 1)
    omega

theorem monthOf_spec (h : 0 ≤ now) :
    monthDays (monthOf now) ≤ now / dayMs ∧ now / dayMs < monthDays (monthOf now + 1) := by
  have hDay : 0 ≤ now / dayMs := Int.ediv_nonneg h (by decide)
  apply findMonth_spec
  · rw [monthDays_epoch]
    exact hDay
  · rw [monthDays_epoch]
    omega

/-! ## The instants of a billing day

Each month has one instant `due` at which its window begins.
-/

def dueAt (date time total : Int) : Int := (monthDays total + min date (monthDays (total + 1) - monthDays total - 1)) * dayMs + time

def windowOf (due : Int → Int) (month now : Int) : Int := if now < due month then month - 1 else month

theorem dueAt_bounds {date time : Int} (hDate : 0 ≤ date) (hTime : 0 ≤ time ∧ time < dayMs) (total : Int) :
    monthDays total * dayMs ≤ dueAt date time total ∧ dueAt date time total < monthDays (total + 1) * dayMs := by
  have hStep := monthDays_step total
  have hDay : dayMs = 86400000 := by decide
  unfold dueAt
  rw [hDay] at hTime ⊢
  omega

section

variable {due : Int → Int} (hDue : ∀ total, monthDays total * dayMs ≤ due total ∧ due total < monthDays (total + 1) * dayMs)
include hDue

variable {total : Int}

theorem due_lt {later : Int} (h : total < later) : due total < due later := by
  have hDays : monthDays (total + 1) * dayMs ≤ monthDays later * dayMs :=
    Int.mul_le_mul_of_nonneg_right (monthDays_mono (by omega)) (by decide)
  have hEnd := (hDue total).2
  have hStart := (hDue later).1
  omega

theorem due_mono {later : Int} (h : total ≤ later) : due total ≤ due later := by
  obtain rfl | hLt := eq_or_lt_of_le h
  · exact le_refl _
  · exact (due_lt hDue hLt).le

theorem windowOf_spec {month now : Int} (h : monthDays month ≤ now / dayMs ∧ now / dayMs < monthDays (month + 1)) :
    due (windowOf due month now) ≤ now ∧ now < due (windowOf due month now + 1) := by
  have hDay : dayMs = 86400000 := by decide
  have hPast := (hDue (month - 1)).2
  have hNext := (hDue (month + 1)).1
  have hEq : month - 1 + 1 = month := by omega
  rw [hDay] at h hPast hNext
  unfold windowOf
  split
  · next hBef =>
    rw [hEq] at hPast ⊢
    refine ⟨?_, hBef⟩
    omega
  · next hNot =>
    refine ⟨by omega, ?_⟩
    omega

theorem window_le {this that now later : Int} (hThis : due this ≤ now) (hThat : later < due (that + 1)) (h : now ≤ later) :
    this ≤ that := by
  by_contra hBack
  have hGap := due_mono hDue (show that + 1 ≤ this by omega)
  omega

end

variable {anchor : Int}

theorem anchorAt_bounds (h : 0 ≤ anchor) (total : Int) :
    monthDays total * dayMs ≤ anchorAt anchor total ∧ anchorAt anchor total < monthDays (total + 1) * dayMs :=
  dueAt_bounds (Int.sub_nonneg.mpr (monthOf_spec h).1) ⟨Int.emod_nonneg _ (by decide), Int.emod_lt_of_pos _ (by decide)⟩ total

theorem monthStart_mono (hNow : 0 ≤ now) (hAnchor : 0 ≤ anchor) (h : now ≤ later) :
    (monthBounds now anchor).start ≤ (monthBounds later anchor).start := by
  have hDue := anchorAt_bounds hAnchor
  have hThis := windowOf_spec hDue (monthOf_spec hNow)
  have hThat := windowOf_spec hDue (monthOf_spec (hNow.trans h))
  exact due_mono hDue (window_le hDue hThis.1 hThat.2 h)

theorem monthStart_self (h : 0 ≤ now) : (monthBounds now now).start = now := by
  obtain ⟨hLow, hHigh⟩ := monthOf_spec h
  have hSelf : anchorAt now (monthOf now) = now := by
    have hDivMod := Int.emod_add_mul_ediv now dayMs
    unfold anchorAt
    dsimp only
    have hMin : min (now / dayMs - monthDays (monthOf now)) (monthDays (monthOf now + 1) - monthDays (monthOf now) - 1) =
        now / dayMs - monthDays (monthOf now) := by omega
    rw [hMin]
    have hSum : monthDays (monthOf now) + (now / dayMs - monthDays (monthOf now)) = now / dayMs := by omega
    rw [hSum, Int.mul_comm]
    omega
  change anchorAt now (windowOf (anchorAt now) (monthOf now) now) = now
  unfold windowOf
  rw [hSelf, if_neg (lt_irrefl now)]
  exact hSelf

theorem accountMonth_mono (row : AccountRow) (hNow : 0 ≤ now) (h : now ≤ later) :
    (monthBounds now (row.anchor now)).start ≤ (monthBounds later (row.anchor later)).start := by
  unfold AccountRow.anchor
  split
  · next hAnchor => exact monthStart_mono hNow hAnchor.le h
  · rw [monthStart_self hNow, monthStart_self (hNow.trans h)]
    exact h

end Stella.Billing
