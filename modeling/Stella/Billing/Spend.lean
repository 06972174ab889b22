import Stella.Billing.Windows

/-! # What an account has left to spend

Time only opens windows up, a charge takes at most its cost, and a purchase takes
nothing: each through a comparison of the snapshots before and after.
-/

namespace Stella.Billing

structure PlanConfig.Loaded (plan : PlanConfig) : Prop where
  rolling : 0 ≤ plan.rollingLimitUsd
  weekly : 0 ≤ plan.weeklyLimitUsd
  monthly : 0 ≤ plan.monthlyLimitUsd
  lifetime : ∀ usd ∈ plan.lifetimeLimitUsd, 0 ≤ usd

structure Config.Loaded (config : Config) : Prop where
  plans : ∀ plan, (config.plans plan).Loaded
  anonymous : config.anonymous.Loaded

theorem Config.Loaded.planConfig {config : Config} (h : config.Loaded) (row : AccountRow) :
    (config.planConfig row).Loaded := by
  unfold Config.planConfig
  split
  · exact h.anonymous
  · exact h.plans row.plan

structure AccountRow.Counted (row : AccountRow) : Prop where
  rolling : 0 ≤ row.rollingUsed
  weekly : 0 ≤ row.weeklyUsed
  monthly : 0 ≤ row.monthlyUsed
  total : 0 ≤ row.totalUsed

/-- Every window has lost at most `cost`. -/
structure UsageSnapshot.Covers (cost : Int) (before after : UsageSnapshot) : Prop where
  rolling : before.rolling.left - cost ≤ after.rolling.left
  weekly : before.weekly.left - cost ≤ after.weekly.left
  monthly : before.monthly.left - cost ≤ after.monthly.left
  lifetime : ∀ window ∈ after.lifetime, ∃ was ∈ before.lifetime, was.left - cost ≤ window.left

theorem UsageSnapshot.Covers.room {cost : Int} {before after : UsageSnapshot} (h : before.Covers cost after) :
    before.room - cost ≤ after.room := by
  have hWindows : min (min before.rolling.left before.weekly.left) before.monthly.left - cost ≤
      min (min after.rolling.left after.weekly.left) after.monthly.left := by
    have hRolling := h.rolling
    have hWeekly := h.weekly
    have hMonthly := h.monthly
    omega
  unfold UsageSnapshot.room
  dsimp only
  split
  · next hBef =>
    split
    · exact hWindows
    · next window hAfter =>
      obtain ⟨was, hWas, -⟩ := h.lifetime window hAfter
      cases hBef.symm.trans hWas
  · next was hBef =>
    split
    · omega
    · next window hAfter =>
      obtain ⟨was', hWas, hLeft⟩ := h.lifetime window hAfter
      obtain rfl := Option.some.inj (hBef.symm.trans hWas)
      omega

/-! ## Time -/

theorem le_zeroed {a b : Bool} (h : b = true → a = true) {used : Int} (hUsed : 0 ≤ used) :
    (if b then used else 0) ≤ if a then used else 0 := by
  cases b with
  | false =>
    rw [if_neg Bool.false_ne_true]
    split
    · exact hUsed
    · exact le_refl 0
  | true => rw [if_pos rfl, if_pos (h rfl)]

theorem covers_later {config : Config} {row : AccountRow} (hRow : row.Counted) {now later : Int} (hNow : 0 ≤ now)
    (h : now ≤ later) : (usageSnapshot config row now).Covers 0 (usageSnapshot config row later) := by
  have hWeek := weekStart_mono h
  have hMonth := accountMonth_mono row hNow h
  have hLess : ∀ {limit less more : Int}, less ≤ more → limit - more - 0 ≤ limit - less := fun hLess => by omega
  constructor
  · refine hLess (le_zeroed (fun hAct => ?_) hRow.rolling)
    rw [Bool.and_eq_true, decide_eq_true_eq, decide_eq_true_eq] at hAct ⊢
    omega
  · refine hLess (le_zeroed (fun hAct => ?_) hRow.weekly)
    rw [decide_eq_true_eq] at hAct ⊢
    omega
  · refine hLess (le_zeroed (fun hAct => ?_) hRow.monthly)
    rw [decide_eq_true_eq] at hAct ⊢
    omega
  · intro window hWin
    exact ⟨window, hWin, by omega⟩

theorem remainingSpend_later {config : Config} {row : AccountRow} (hRow : row.Counted) {now later : Int} (hNow : 0 ≤ now)
    (h : now ≤ later) : remainingSpend config row now ≤ remainingSpend config row later := by
  have hRoom := (@covers_later config row hRow now later hNow h).room
  unfold remainingSpend includedHeadroom
  omega

/-! ## A charge -/

section Charge

variable {config : Config} {row : AccountRow} {now cost : Int}

theorem limit_congr {after : AccountRow} (hAnonymous : after.isAnonymous = row.isAnonymous) (hPlan : after.plan = row.plan)
    (hLevel : after.identity = row.identity) (usd : ℚ) : config.limit after usd = config.limit row usd := by
  unfold Config.limit Config.share
  rw [hAnonymous, hPlan, hLevel]

theorem planConfig_congr {after : AccountRow} (hAnonymous : after.isAnonymous = row.isAnonymous)
    (hPlan : after.plan = row.plan) : config.planConfig after = config.planConfig row := by
  unfold Config.planConfig
  rw [hAnonymous, hPlan]

theorem zeroed_charged (a b : Bool) {used : Int} (hCost : 0 ≤ cost) (hUsed : 0 ≤ used) :
    (if b then (if a then used else 0) + cost else 0) ≤ (if a then used else 0) + cost := by
  cases a <;> cases b <;> simp <;> omega

theorem covers_charged (hRow : row.Counted) (hCost : 0 ≤ cost)
    (hLevel : (Db.chargedRow config row now cost).identity = row.identity) :
    (usageSnapshot config row now).Covers cost (usageSnapshot config (Db.chargedRow config row now cost) now) := by
  have hPlan : config.planConfig (Db.chargedRow config row now cost) = config.planConfig row := planConfig_congr rfl rfl
  have hLimit : ∀ usd, config.limit (Db.chargedRow config row now cost) usd = config.limit row usd :=
    limit_congr rfl rfl hLevel
  have hMore : ∀ {limit less more : Int}, more ≤ less + cost → limit - less - cost ≤ limit - more :=
    fun hMore => by omega
  constructor
  · simp only [usageSnapshot, Window.left, hPlan, hLimit]
    exact hMore (zeroed_charged _ _ hCost hRow.rolling)
  · simp only [usageSnapshot, Window.left, hPlan, hLimit]
    exact hMore (zeroed_charged _ _ hCost hRow.weekly)
  · simp only [usageSnapshot, Window.left, hPlan, hLimit]
    exact hMore (zeroed_charged _ _ hCost hRow.monthly)
  · intro window hWin
    simp only [usageSnapshot, hPlan, hLimit] at hWin ⊢
    obtain ⟨usd, hUsd, rfl⟩ := Option.map_eq_some_iff.mp hWin
    refine ⟨_, Option.map_eq_some_iff.mpr ⟨usd, hUsd, rfl⟩, ?_⟩
    exact hMore (le_refl (row.totalUsed + cost))

theorem remainingSpend_charged (hRow : row.Counted) (hCost : 0 ≤ cost) (hMode : row.usageMode = .default)
    (hCredit : 0 ≤ row.creditBalance) :
    remainingSpend config row now - cost ≤ remainingSpend config (Db.chargedRow config row now cost) now := by
  have hBalance : (Db.chargedRow config row now cost).creditBalance = row.creditBalance -
      min (max 0 row.creditBalance) (max 0 (cost - includedHeadroom (usageSnapshot config row now))) := by
    have hDefault : ¬ row.usageMode = .unlimited := by
      rw [hMode]
      decide
    change row.creditBalance - (if row.usageMode = .unlimited then 0 else _) = _
    rw [if_neg hDefault]
  by_cases hLevel : (Db.chargedRow config row now cost).identity = row.identity
  · have hRoom := (covers_charged hRow hCost hLevel).room
    unfold remainingSpend
    rw [hBalance]
    unfold includedHeadroom
    omega
  · -- the account does not pay any more: its credit is used up, and with it all that was left
    have hUsedUp : 0 < row.creditBalance ∧ (Db.chargedRow config row now cost).creditBalance ≤ 0 := by
      by_contra hNot
      apply hLevel
      have hPaying : (Db.chargedRow config row now cost).isPaying = row.isPaying := by
        have hEq : decide (0 < (Db.chargedRow config row now cost).creditBalance) = decide (0 < row.creditBalance) := by
          rw [decide_eq_decide]
          constructor
          · rw [hBalance]
            omega
          · intro hPositive
            exact not_le.mp (fun hNone => hNot ⟨hPositive, hNone⟩)
        unfold AccountRow.isPaying
        rw [hEq]
        rfl
      unfold AccountRow.identity
      rw [hPaying]
      rfl
    rw [hBalance] at hUsedUp
    have hAfter : 0 ≤ remainingSpend config (Db.chargedRow config row now cost) now := by
      unfold remainingSpend includedHeadroom
      omega
    have hSpent : remainingSpend config row now ≤ cost := by
      unfold remainingSpend
      omega
    omega

theorem counted_charged (hRow : row.Counted) (hCost : 0 ≤ cost) : (Db.chargedRow config row now cost).Counted := by
  have hZeroed : ∀ (a : Bool) {used : Int}, 0 ≤ used → 0 ≤ (if a then used else 0) + cost := by
    intro a used hUsed
    cases a <;> simp <;> omega
  exact ⟨hZeroed _ hRow.rolling, hZeroed _ hRow.weekly, hZeroed _ hRow.monthly, add_nonneg hRow.total hCost⟩

theorem charged_credit (hCredit : 0 ≤ row.creditBalance) : 0 ≤ (Db.chargedRow config row now cost).creditBalance := by
  change 0 ≤ row.creditBalance - (if row.usageMode = .unlimited then 0 else _)
  split <;> omega

end Charge

/-! ## A purchase -/

theorem limit_credited {config : Config} {row after : AccountRow} (hShare : config.freeEmailAllowanceShare ≤ 1)
    (hAnonymous : after.isAnonymous = row.isAnonymous) (hPlan : after.plan = row.plan)
    (hStat : after.subscriptionStatus = row.subscriptionStatus) (hLevel : after.identityLevel = row.identityLevel)
    (hCredit : row.creditBalance ≤ after.creditBalance) {usd : ℚ} (hUsd : 0 ≤ usd) :
    config.limit row usd ≤ config.limit after usd := by
  have hPaying : row.isPaying = true → after.isPaying = true := by
    unfold AccountRow.isPaying
    rw [hPlan, hStat]
    simp only [Bool.or_eq_true, decide_eq_true_eq]
    exact fun h => h.imp_right (fun hPositive => hPositive.trans_le hCredit)
  have hShares : config.share row ≤ config.share after := by
    unfold Config.share
    by_cases hAfter : (!after.isAnonymous && decide (after.plan = .free) && decide (after.identity = 1)) = true
    · have hBef : (!row.isAnonymous && decide (row.plan = .free) && decide (row.identity = 1)) = true := by
        rw [hAnonymous, hPlan] at hAfter
        rw [Bool.and_eq_true, decide_eq_true_eq] at hAfter ⊢
        refine ⟨hAfter.1, ?_⟩
        obtain ⟨-, hOne⟩ := hAfter
        unfold AccountRow.identity at hOne ⊢
        rw [hAnonymous, hLevel] at hOne
        cases hWas : row.isPaying with
        | true =>
          rw [hPaying hWas] at hOne
          exact hWas ▸ hOne
        | false =>
          cases hIs : after.isPaying with
          | false =>
            rw [hIs] at hOne
            exact hOne
          | true =>
            rw [hIs] at hOne
            split at hOne
            · cases hOne
            · cases hOne
      rw [if_pos hAfter, if_pos hBef]
    · rw [if_neg hAfter]
      split
      · exact hShare
      · exact le_refl 1
  unfold Config.limit
  have hScale : (0 : ℚ) ≤ microCentsPerUsd := by
    unfold microCentsPerUsd
    norm_num
  apply Int.floor_le_floor
  gcongr

def creditedRow (row : AccountRow) (now amount : Int) : AccountRow :=
  { row with creditBalance := row.creditBalance + amount, creditPurchased := row.creditPurchased + amount, updatedAt := now }

theorem remainingSpend_credited {config : Config} (hLoaded : config.Loaded) (hShare : config.freeEmailAllowanceShare ≤ 1)
    (row : AccountRow) {amount : Int} (hAmount : 0 ≤ amount) (now : Int) :
    remainingSpend config row now ≤ remainingSpend config (creditedRow row now amount) now := by
  have hPlan := hLoaded.planConfig row
  have hLimit : ∀ usd : ℚ, 0 ≤ usd → config.limit row usd ≤ config.limit (creditedRow row now amount) usd := by
    intro usd hUsd
    apply limit_credited hShare
    · rfl
    · rfl
    · rfl
    · rfl
    · exact Int.le_add_of_nonneg_right hAmount
    · exact hUsd
  have hCovers : (usageSnapshot config row now).Covers 0 (usageSnapshot config (creditedRow row now amount) now) := by
    have hLess : ∀ {limit more used : Int}, limit ≤ more → limit - used - 0 ≤ more - used := fun hLess => by omega
    constructor
    · exact hLess (hLimit _ hPlan.rolling)
    · exact hLess (hLimit _ hPlan.weekly)
    · exact hLess (hLimit _ hPlan.monthly)
    · intro window hWin
      obtain ⟨usd, hUsd, rfl⟩ := Option.map_eq_some_iff.mp hWin
      exact ⟨_, Option.map_eq_some_iff.mpr ⟨usd, hUsd, rfl⟩, hLess (hLimit usd (hPlan.lifetime usd hUsd))⟩
  have hRoom := hCovers.room
  have hCredit : (creditedRow row now amount).creditBalance = row.creditBalance + amount := rfl
  unfold remainingSpend includedHeadroom
  rw [hCredit]
  omega

end Stella.Billing
