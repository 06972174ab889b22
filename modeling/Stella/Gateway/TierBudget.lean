import Stella.Gateway.Ledger
import Mathlib.Algebra.Order.BigOperators.Group.List

/-! # The budget of a tier

`tier-budget.ts` keeps one bucket of reserved amounts for each minute of the last day.
-/

namespace Stella.Gateway.TierBudget

open List

def minuteMs : Int := 60000
def hourMinutes : Int := 60
def dayMinutes : Int := 24 * hourMinutes

inductive Window
  | hourly
  | daily

def Window.minutes : Window → Int
  | .hourly => hourMinutes
  | .daily => dayMinutes

structure Bucket where
  minute : Int
  reserved : Nat

structure ReserveArgs where
  estimateMicroCents : Option ℚ
  hourlyCeiling : ℚ
  dailyCeiling : ℚ
  now : Int

def ReserveArgs.ceiling (args : ReserveArgs) : Window → ℚ
  | .hourly => args.hourlyCeiling
  | .daily => args.dailyCeiling

inductive ReserveResult
  | granted (minute : Int)
  | refused (window : Window) (resetAt : Int)

def rowsWithin (buckets : List Bucket) (minute : Int) (window : Window) : List Bucket :=
  buckets.filter fun bucket => minute - window.minutes + 1 ≤ bucket.minute && 0 < bucket.reserved

def windowTotal (buckets : List Bucket) (minute : Int) (window : Window) : Nat := ((rowsWithin buckets minute window).map Bucket.reserved).sum

def resetAt (buckets : List Bucket) (minute : Int) (window : Window) : Int :=
  (((rowsWithin buckets minute window).map Bucket.minute).min?.getD minute + window.minutes) * minuteMs

def exceeds (buckets : List Bucket) (minute : Int) (estimate : Nat) (window : Window) (ceiling : ℚ) : Bool :=
  0 ≤ ceiling && ceiling < windowTotal buckets minute window + estimate

/-- The `INSERT … ON CONFLICT` of a granted reservation. -/
def addReserved (buckets : List Bucket) (minute : Int) (estimate : Nat) : List Bucket :=
  if buckets.any (·.minute = minute) then
    buckets.map fun bucket => if bucket.minute = minute then { bucket with reserved := bucket.reserved + estimate } else bucket
  else buckets ++ [⟨minute, estimate⟩]

def reserve (buckets : List Bucket) (args : ReserveArgs) : List Bucket × ReserveResult :=
  let minute := args.now / minuteMs
  let estimate := clampMicroCents args.estimateMicroCents
  let kept := buckets.filter fun bucket => minute - dayMinutes + 1 ≤ bucket.minute
  if exceeds kept minute estimate .hourly args.hourlyCeiling then (kept, .refused .hourly (resetAt kept minute .hourly))
  else if exceeds kept minute estimate .daily args.dailyCeiling then (kept, .refused .daily (resetAt kept minute .daily))
  else (addReserved kept minute estimate, .granted minute)

/-- Subtraction of naturals is the `MAX(0, …)` of the update. -/
def settle (buckets : List Bucket) (estimateMicroCents actualMicroCents : Option ℚ) (minute : Int) : List Bucket :=
  buckets.map fun bucket =>
    if bucket.minute = minute then
      { bucket with reserved := bucket.reserved + clampMicroCents actualMicroCents - clampMicroCents estimateMicroCents }
    else bucket

/-! ## Runs -/

structure Grant where
  minute : Int
  estimateMicroCents : Option ℚ
  actualMicroCents : Option (Option ℚ) := none

def Grant.amount (grant : Grant) : Nat := clampMicroCents (grant.actualMicroCents.getD grant.estimateMicroCents)

structure Budget where
  buckets : List Bucket
  now : Int
  grants : List Grant

inductive Call
  | reserve (args : ReserveArgs)
  | settle (grant : Nat) (actualMicroCents : Option ℚ)

def Budget.step (b : Budget) : Call → Budget
  | .reserve args =>
    if args.now < b.now then b
    else match TierBudget.reserve b.buckets args with
      | (buckets, .granted minute) => ⟨buckets, args.now, b.grants ++ [{ minute, estimateMicroCents := args.estimateMicroCents }]⟩
      | (buckets, .refused _ _) => ⟨buckets, args.now, b.grants⟩
  | .settle index actualMicroCents =>
    match b.grants[index]? with
    | some grant =>
      if grant.actualMicroCents.isNone then
        ⟨TierBudget.settle b.buckets grant.estimateMicroCents actualMicroCents grant.minute, b.now,
          b.grants.set index { grant with actualMicroCents := some actualMicroCents }⟩
      else b
    | none => b

def run (start : Int) (calls : List Call) : Budget := calls.foldl Budget.step ⟨[], start, []⟩

def amountIn (grants : List Grant) (minute : Int) : Nat := (grants.map fun grant => if grant.minute = minute then grant.amount else 0).sum

/-! ## Sums over buckets and grants -/

variable {buckets : List Bucket} {grants : List Grant} {minute : Int} {estimate : Nat} {window : Window}

theorem windowTotal_eq (buckets : List Bucket) (minute : Int) (window : Window) :
    windowTotal buckets minute window =
      (buckets.map fun bucket => if minute - window.minutes + 1 ≤ bucket.minute then bucket.reserved else 0).sum := by
  unfold windowTotal rowsWithin
  induction buckets with
  | nil => rfl
  | cons bucket rest ih =>
    rw [filter_cons, map_cons, sum_cons, ← ih]
    by_cases hIn : minute - window.minutes + 1 ≤ bucket.minute
    · by_cases hZero : bucket.reserved = 0
      · simp [hIn, hZero]
      · simp [hIn, Nat.pos_of_ne_zero hZero]
    · simp [hIn]

theorem sum_addReserved (hKeys : (buckets.map Bucket.minute).Nodup) {from' : Int} (hFrom : from' ≤ minute) :
    ((addReserved buckets minute estimate).map fun bucket => if from' ≤ bucket.minute then bucket.reserved else 0).sum =
      (buckets.map fun bucket => if from' ≤ bucket.minute then bucket.reserved else 0).sum + estimate := by
  unfold addReserved
  split
  · next hAny =>
    induction buckets with
    | nil => cases hAny
    | cons bucket rest ih =>
      obtain ⟨hFresh, hRest⟩ := nodup_cons.mp hKeys
      rw [map_cons, map_cons, sum_cons, map_cons, sum_cons]
      by_cases hHere : bucket.minute = minute
      · have hEq : (rest.map fun bucket => if bucket.minute = minute then { bucket with reserved := bucket.reserved + estimate } else bucket) = rest := by
          refine (map_congr_left fun other hOther => if_neg ?_).trans (map_id rest)
          rintro rfl
          exact hFresh (hHere ▸ mem_map_of_mem hOther)
        rw [hEq, if_pos hHere, if_pos (by rw [hHere]; exact hFrom), if_pos (by rw [hHere]; exact hFrom)]
        exact Nat.add_right_comm _ _ _
      · have hLater : (rest.any fun bucket => bucket.minute = minute) = true := by simpa [hHere] using hAny
        rw [ih hRest hLater, if_neg hHere]
        omega
  · rw [map_append, sum_append]
    simp [hFrom]

theorem minute_addReserved : (addReserved buckets minute estimate).map Bucket.minute =
    if buckets.any (·.minute = minute) then buckets.map Bucket.minute else buckets.map Bucket.minute ++ [minute] := by
  unfold addReserved
  split
  · rw [map_map]
    apply map_congr_left
    intro bucket _
    dsimp only [Function.comp]
    split <;> rfl
  · rw [map_append]
    rfl

theorem amountIn_append (grant : Grant) (minute : Int) :
    amountIn (grants ++ [grant]) minute = amountIn grants minute + if grant.minute = minute then grant.amount else 0 := by
  simp [amountIn]

theorem amountIn_set {index : Nat} {grant grant' : Grant} (hGrant : grants[index]? = some grant)
    (hEq : grant'.minute = grant.minute) (minute : Int) :
    amountIn (grants.set index grant') minute + (if grant.minute = minute then grant.amount else 0) =
      amountIn grants minute + if grant.minute = minute then grant'.amount else 0 := by
  induction grants generalizing index with
  | nil => cases hGrant
  | cons first rest ih =>
    cases index with
    | zero =>
      obtain rfl := Option.some.inj hGrant
      rw [set_cons_zero, amountIn, amountIn, map_cons, sum_cons, map_cons, sum_cons, hEq]
      omega
    | succ index =>
      have hRest := ih hGrant
      rw [set_cons_succ]
      unfold amountIn at hRest ⊢
      rw [map_cons, sum_cons, map_cons, sum_cons]
      omega

/-! ## What every run keeps -/

structure Kept (b : Budget) : Prop where
  keys : (b.buckets.map Bucket.minute).Nodup
  conserved : ∀ bucket ∈ b.buckets, bucket.reserved = amountIn b.grants bucket.minute
  past : ∀ grant ∈ b.grants, grant.minute ≤ b.now / minuteMs
  stored : ∀ grant ∈ b.grants, b.now / minuteMs - dayMinutes + 1 ≤ grant.minute → grant.minute ∈ b.buckets.map Bucket.minute

variable {b : Budget}

theorem Kept.advance (h : Kept b) {now : Int} (hNow : b.now ≤ now) :
    Kept ⟨b.buckets.filter fun bucket => now / minuteMs - dayMinutes + 1 ≤ bucket.minute, now, b.grants⟩ := by
  have hMinute : b.now / minuteMs ≤ now / minuteMs := Int.ediv_le_ediv (by decide) hNow
  constructor
  · exact h.keys.sublist (filter_sublist.map _)
  · exact fun bucket hBucket => h.conserved bucket (mem_of_mem_filter hBucket)
  · exact fun grant hGrant => (h.past grant hGrant).trans hMinute
  · intro grant hGrant hRecent
    dsimp only at hRecent
    obtain ⟨bucket, hBucket, hEq⟩ := mem_map.mp (h.stored grant hGrant (by omega))
    refine mem_map.mpr ⟨bucket, mem_filter.mpr ⟨hBucket, ?_⟩, hEq⟩
    rw [hEq]
    exact decide_eq_true hRecent

theorem Kept.granted (h : Kept b) (estimateMicroCents : Option ℚ) :
    Kept ⟨addReserved b.buckets (b.now / minuteMs) (clampMicroCents estimateMicroCents), b.now,
      b.grants ++ [{ minute := b.now / minuteMs, estimateMicroCents }]⟩ := by
  have hAmount : Grant.amount { minute := b.now / minuteMs, estimateMicroCents } = clampMicroCents estimateMicroCents := rfl
  have hIn {other : Int} (hOther : other = b.now / minuteMs ∨ other ∈ b.buckets.map Bucket.minute) :
      other ∈ (addReserved b.buckets (b.now / minuteMs) (clampMicroCents estimateMicroCents)).map Bucket.minute := by
    rw [minute_addReserved]
    split
    · next hAny =>
      rcases hOther with rfl | hOld
      · obtain ⟨bucket, hBucket, hEq⟩ := any_eq_true.mp hAny
        exact mem_map.mpr ⟨bucket, hBucket, of_decide_eq_true hEq⟩
      · exact hOld
    · rcases hOther with rfl | hOld
      · exact mem_append_right _ (mem_singleton_self _)
      · exact mem_append_left _ hOld
  constructor
  · dsimp only
    rw [minute_addReserved]
    split
    · exact h.keys
    · next hNew =>
      refine nodup_append.mpr ⟨h.keys, pairwise_singleton _ _, ?_⟩
      rintro other hOther _ hNow rfl
      obtain ⟨bucket, hBucket, hEq⟩ := mem_map.mp hOther
      exact hNew (any_eq_true.mpr ⟨bucket, hBucket, decide_eq_true (hEq.trans (mem_singleton.mp hNow))⟩)
  · intro bucket hBucket
    dsimp only at hBucket ⊢
    rw [amountIn_append, hAmount]
    unfold addReserved at hBucket
    split at hBucket
    · obtain ⟨old, hOld, rfl⟩ := mem_map.mp hBucket
      have hAmountOld := h.conserved old hOld
      split
      · next hHere => rw [if_pos hHere.symm, hAmountOld]
      · next hAway => rw [if_neg (Ne.symm hAway), hAmountOld, Nat.add_zero]
    · next hNew =>
      rcases mem_append.mp hBucket with hOld | hOne
      · have hAway : ¬ b.now / minuteMs = bucket.minute := fun hEq =>
          hNew (any_eq_true.mpr ⟨bucket, hOld, decide_eq_true hEq.symm⟩)
        rw [if_neg hAway, h.conserved bucket hOld, Nat.add_zero]
      · obtain rfl := mem_singleton.mp hOne
        -- A grant of this minute would have kept its bucket.
        have hNone : amountIn b.grants (b.now / minuteMs) = 0 := by
          refine sum_eq_zero fun amount hMem => ?_
          obtain ⟨grant, hGrant, rfl⟩ := mem_map.mp hMem
          refine if_neg fun hEq => hNew ?_
          have hDay : dayMinutes = 1440 := by decide
          obtain ⟨bucket, hBucket, hMinute⟩ := mem_map.mp (h.stored grant hGrant (by omega))
          exact any_eq_true.mpr ⟨bucket, hBucket, decide_eq_true (hMinute.trans hEq)⟩
        rw [if_pos rfl, hNone, Nat.zero_add]
  · intro grant hGrant
    rcases mem_append.mp hGrant with hOld | hNew
    · exact h.past grant hOld
    · rw [mem_singleton.mp hNew]
  · intro grant hGrant hRecent
    rcases mem_append.mp hGrant with hOld | hNew
    · exact hIn (.inr (h.stored grant hOld hRecent))
    · exact hIn (.inl (by rw [mem_singleton.mp hNew]))

theorem Kept.settle (h : Kept b) {index : Nat} {grant : Grant} (hGrant : b.grants[index]? = some grant)
    (hOpen : grant.actualMicroCents = none)
    (actualMicroCents : Option ℚ) :
    Kept ⟨TierBudget.settle b.buckets grant.estimateMicroCents actualMicroCents grant.minute, b.now,
      b.grants.set index { grant with actualMicroCents := some actualMicroCents }⟩ := by
  have hAmount : grant.amount = clampMicroCents grant.estimateMicroCents := by
    unfold Grant.amount
    rw [hOpen]
    rfl
  have hSettled : Grant.amount { grant with actualMicroCents := some actualMicroCents } = clampMicroCents actualMicroCents := rfl
  have hMinutes : (TierBudget.settle b.buckets grant.estimateMicroCents actualMicroCents grant.minute).map Bucket.minute = b.buckets.map Bucket.minute := by
    unfold TierBudget.settle
    rw [map_map]
    apply map_congr_left
    intro bucket _
    dsimp only [Function.comp]
    split <;> rfl
  have hOne {other : Grant} (hOther : other ∈ b.grants.set index { grant with actualMicroCents := some actualMicroCents }) :
      ∃ old ∈ b.grants, old.minute = other.minute := by
    rcases mem_or_eq_of_mem_set hOther with hOld | rfl
    · exact ⟨other, hOld, rfl⟩
    · exact ⟨grant, mem_of_getElem? hGrant, rfl⟩
  constructor
  · dsimp only
    rw [hMinutes]
    exact h.keys
  · intro bucket hBucket
    obtain ⟨old, hOld, rfl⟩ := mem_map.mp hBucket
    have hConserved := h.conserved old hOld
    have hSum := @amountIn_set _ _ _ { grant with actualMicroCents := some actualMicroCents } hGrant rfl old.minute
    rw [hAmount, hSettled] at hSum
    dsimp only
    split
    · next hHere =>
      rw [if_pos hHere.symm, if_pos hHere.symm] at hSum
      change old.reserved + _ - _ = amountIn _ old.minute
      omega
    · next hAway =>
      rw [if_neg (Ne.symm hAway), if_neg (Ne.symm hAway)] at hSum
      omega
  · intro other hOther
    obtain ⟨old, hOld, hEq⟩ := hOne hOther
    rw [← hEq]
    exact h.past old hOld
  · intro other hOther hRecent
    obtain ⟨old, hOld, hEq⟩ := hOne hOther
    dsimp only at hRecent ⊢
    rw [hMinutes, ← hEq]
    exact h.stored old hOld (by rw [hEq]; exact hRecent)

theorem reserve_cases (buckets : List Bucket) (args : ReserveArgs) :
    let minute := args.now / minuteMs
    let kept := buckets.filter fun bucket => minute - dayMinutes + 1 ≤ bucket.minute
    let estimate := clampMicroCents args.estimateMicroCents
    (∃ window, reserve buckets args = (kept, .refused window (resetAt kept minute window))) ∨
      reserve buckets args = (addReserved kept minute estimate, .granted minute) ∧
        ∀ window, exceeds kept minute estimate window (args.ceiling window) = false := by
  dsimp only
  unfold reserve
  dsimp only
  split
  · exact .inl ⟨.hourly, rfl⟩
  · next hHourly =>
    split
    · exact .inl ⟨.daily, rfl⟩
    · next hDaily =>
      refine .inr ⟨rfl, ?_⟩
      rintro (_ | _)
      · exact Bool.eq_false_iff.mpr hHourly
      · exact Bool.eq_false_iff.mpr hDaily

theorem Kept.step (h : Kept b) (call : Call) : Kept (b.step call) := by
  cases call with
  | reserve args =>
    dsimp only [Budget.step]
    split
    · exact h
    · next hNow =>
      have hKept := h.advance (not_lt.mp hNow)
      rcases reserve_cases b.buckets args with ⟨window, hRef⟩ | ⟨hGranted, -⟩
      · rw [hRef]
        exact hKept
      · rw [hGranted]
        exact hKept.granted args.estimateMicroCents
  | settle index actualMicroCents =>
    dsimp only [Budget.step]
    split
    · next grant hGrant =>
      split
      · next hOpen => exact h.settle hGrant (Option.isNone_iff_eq_none.mp hOpen) actualMicroCents
      · exact h
    · exact h

theorem kept_run (start : Int) (calls : List Call) : Kept (run start calls) := by
  apply foldlRecOn calls Budget.step (motive := Kept)
  · exact ⟨nodup_nil, nofun, nofun, nofun⟩
  · exact fun b hKept call _ => hKept.step call

theorem total_granted (h : (buckets.map Bucket.minute).Nodup) {ceiling : ℚ} (hCeiling : 0 ≤ ceiling)
    (hFits : exceeds buckets minute estimate window ceiling = false) :
    (windowTotal (addReserved buckets minute estimate) minute window : ℚ) ≤ ceiling := by
  have hWin : minute - window.minutes + 1 ≤ minute := by
    have hMinutes : 1 ≤ window.minutes := by cases window <;> decide
    omega
  rw [windowTotal_eq, sum_addReserved h hWin, ← windowTotal_eq, Nat.cast_add]
  unfold exceeds at hFits
  rw [Bool.and_eq_false_iff, decide_eq_false_iff_not, decide_eq_false_iff_not] at hFits
  rcases hFits with hNone | hOver
  · exact absurd hCeiling hNone
  · exact not_lt.mp hOver

theorem total_reset (hSome : 0 < windowTotal buckets minute window) :
    windowTotal buckets (resetAt buckets minute window / minuteMs) window < windowTotal buckets minute window := by
  unfold resetAt
  rw [Int.mul_ediv_cancel _ (by decide)]
  cases hOldest : ((rowsWithin buckets minute window).map Bucket.minute).min? with
  | none =>
    rw [min?_eq_none_iff, map_eq_nil_iff] at hOldest
    rw [windowTotal, hOldest] at hSome
    cases hSome
  | some oldest =>
    obtain ⟨hMem, hLeast⟩ := min?_eq_some_iff.mp hOldest
    obtain ⟨first, hFirst, rfl⟩ := mem_map.mp hMem
    obtain ⟨hStored, hWith⟩ := mem_filter.mp hFirst
    rw [Bool.and_eq_true, decide_eq_true_eq, decide_eq_true_eq] at hWith
    rw [windowTotal_eq, windowTotal_eq, Option.getD_some]
    apply sum_lt_sum
    · intro bucket _
      split
      · next hIn => rw [if_pos (by omega)]
      · exact Nat.zero_le _
    · refine ⟨first, hStored, ?_⟩
      rw [if_neg (by omega), if_pos hWith.1]
      exact hWith.2

structure Sound (b : Budget) : Prop where
  conserved : ∀ bucket ∈ b.buckets, bucket.reserved = amountIn b.grants bucket.minute
  stored : ∀ grant ∈ b.grants, b.now / minuteMs - dayMinutes + 1 ≤ grant.minute → grant.minute ∈ b.buckets.map Bucket.minute
  capped : ∀ args minute, (reserve b.buckets args).2 = .granted minute → ∀ window, 0 ≤ args.ceiling window →
    (windowTotal (reserve b.buckets args).1 minute window : ℚ) ≤ args.ceiling window
  refused : ∀ args window reset, (reserve b.buckets args).2 = .refused window reset →
    (∀ bucket, args.now / minuteMs - dayMinutes + 1 ≤ bucket.minute → (bucket ∈ (reserve b.buckets args).1 ↔ bucket ∈ b.buckets)) ∧
      (0 < windowTotal (reserve b.buckets args).1 (args.now / minuteMs) window →
        windowTotal (reserve b.buckets args).1 (reset / minuteMs) window <
          windowTotal (reserve b.buckets args).1 (args.now / minuteMs) window)

end Stella.Gateway.TierBudget
