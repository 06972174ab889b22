import Mathlib.Data.Nat.Find
import Mathlib.Tactic.Common

/-! # Calendar windows

The weekly and the monthly window of `billing.ts` over instants in milliseconds
since 1970. A month is counted from year zero; `monthDays` is the day its first
day falls on, as `Date.UTC` has it.
-/

namespace Stella.Billing

def dayMs : Int := 24 * 60 * 60 * 1000

structure Bounds where
  start : Int
  stop : Int

def weekBounds (now : Int) : Bounds :=
  let day := now / dayMs
  let start := day - ((day + 4) % 7 + 6) % 7
  ⟨start * dayMs, start * dayMs + 7 * dayMs⟩

def leapYear (year : Int) : Bool := year % 4 = 0 && (year % 100 ≠ 0 || year % 400 = 0)

def daysBefore (year month : Int) : Int :=
  let days := if month ≤ 0 then 0 else if month = 1 then 31 else if month = 2 then 59 else if month = 3 then 90
    else if month = 4 then 120 else if month = 5 then 151 else if month = 6 then 181 else if month = 7 then 212
    else if month = 8 then 243 else if month = 9 then 273 else if month = 10 then 304 else 334
  if 2 ≤ month ∧ leapYear year = true then days + 1 else days

def monthDays (total : Int) : Int :=
  let year := total / 12
  let past := year - 1
  365 * (year - 1970) + (past / 4 - past / 100 + past / 400 - 477) + daysBefore year (total % 12)

def epochMonth : Int := 12 * 1970

def monthOf (now : Int) : Int :=
  epochMonth + Nat.findGreatest (fun months => monthDays (epochMonth + months) ≤ now / dayMs) (now / dayMs).toNat

/-- Where the billing day of `anchor` falls in a month, that month's last day at the latest. -/
def anchorAt (anchor total : Int) : Int :=
  let date := anchor / dayMs - monthDays (monthOf anchor)
  (monthDays total + min date (monthDays (total + 1) - monthDays total - 1)) * dayMs + anchor % dayMs

def monthBounds (now anchor : Int) : Bounds :=
  let total := if now < anchorAt anchor (monthOf now) then monthOf now - 1 else monthOf now
  ⟨anchorAt anchor total, anchorAt anchor (total + 1)⟩

end Stella.Billing
