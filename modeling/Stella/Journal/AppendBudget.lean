import Stella.Library.Transition
import Stella.Library.Tumbling

/-! # The append budget

The fixed window of `appendBudget`: it starts with the first request after the last one is
over, and a request that is not committed leaves it as it is.
-/

namespace Stella.Conversation

open Tumbling Transition List

/-- The row of `append_window`. -/
structure AppendWindow where
  startedAt : Int
  requests : Nat
  bytes : Nat

structure AppendLimits where
  windowMs : Nat
  maxRequests : Nat
  maxBytes : Nat

structure AppendBudgetAnswer where
  allowed : Bool
  retryAfterMs : Int

namespace AppendLimits

variable (limits : AppendLimits)

def expired (current : Option AppendWindow) (now : Int) : Bool :=
  current.all fun window => limits.windowMs ≤ now - window.startedAt

def charged (current : Option AppendWindow) (now : Int) (bytes : Nat) : AppendWindow :=
  match current with
  | some window =>
    if limits.expired current now then ⟨now, 1, bytes⟩ else ⟨window.startedAt, window.requests + 1, window.bytes + bytes⟩
  | none => ⟨now, 1, bytes⟩

def fits (window : AppendWindow) : Bool := window.requests ≤ limits.maxRequests && window.bytes ≤ limits.maxBytes

def appendBudget (current : Option AppendWindow) (now : Int) (bytes : Nat) (commit : Bool) :
    Option AppendWindow × AppendBudgetAnswer :=
  let window := limits.charged current now bytes
  if limits.fits window then (if commit then some window else current, ⟨true, 0⟩)
  else (current, ⟨false, max 1000 (window.startedAt + limits.windowMs - now)⟩)

end AppendLimits

structure AppendCharges where
  window : Option AppendWindow := none
  clock : Int := 0
  committed : List (Int × Nat) := []

structure AppendCall where
  elapsed : Nat
  bytes : Nat
  commit : Bool

namespace AppendCharges

variable (limits : AppendLimits) (w : AppendCharges)

def now (call : AppendCall) : Int := w.clock + call.elapsed

def answer (call : AppendCall) : AppendBudgetAnswer := (limits.appendBudget w.window (w.now call) call.bytes call.commit).2

def step (call : AppendCall) : AppendCharges where
  window := (limits.appendBudget w.window (w.now call) call.bytes call.commit).1
  clock := w.now call
  committed := if call.commit && (w.answer limits call).allowed then (w.now call, call.bytes) :: w.committed else w.committed

structure Bounded : Prop where
  requests : ∀ since, (within limits.windowMs since w.committed).length ≤ 2 * limits.maxRequests
  bytes : ∀ since, ((within limits.windowMs since w.committed).map Prod.snd).sum ≤ 2 * limits.maxBytes
  /-- A request that fits a fresh window is accepted from a time on that is at most a window away, whatever is called before. -/
  frees : 1 ≤ limits.maxRequests → ∃ free ≤ w.clock + limits.windowMs, ∀ calls : List AppendCall,
    Along (step limits) (fun w call => w.now call < free) w calls → ∀ call : AppendCall,
      free ≤ (run (step limits) w calls).now call → call.bytes ≤ limits.maxBytes →
        ((run (step limits) w calls).answer limits call).allowed = true
  unchanged : ∀ call, call.commit = false ∨ (w.answer limits call).allowed = false →
    (w.step limits call).window = w.window ∧ (w.step limits call).committed = w.committed

/-! ## What a call does -/

variable {limits} {w}

theorem allowed_iff (call : AppendCall) : (w.answer limits call).allowed = true ↔
    limits.fits (limits.charged w.window (w.now call) call.bytes) = true := by
  unfold answer AppendLimits.appendBudget
  dsimp only
  split <;> simp_all

variable {call : AppendCall}

theorem step_of_kept (h : call.commit = false ∨ (w.answer limits call).allowed = false) :
    (w.step limits call).window = w.window ∧ (w.step limits call).committed = w.committed := by
  have hAllowed := @allowed_iff limits w call
  unfold step
  dsimp only
  constructor
  · unfold AppendLimits.appendBudget
    dsimp only
    split
    · rename_i hFits
      rw [hAllowed.mpr hFits] at h
      rw [show call.commit = false by simpa using h]
      rfl
    · rfl
  · rcases h with h | h <;> simp [h]

theorem step_of_committed (hCommit : call.commit = true) (h : (w.answer limits call).allowed = true) :
    w.step limits call = ⟨some (limits.charged w.window (w.now call) call.bytes), w.now call,
      (w.now call, call.bytes) :: w.committed⟩ := by
  have hFits := (allowed_iff call).mp h
  unfold step
  rw [hCommit, h]
  unfold AppendLimits.appendBudget
  dsimp only
  rw [if_pos hFits]
  rfl

/-! ## The invariant -/

structure Kept (limits : AppendLimits) (w : AppendCharges) (windows : List (Window Nat)) : Prop where
  committed : w.committed = windows.flatMap Window.items
  spaced : 0 < limits.windowMs → Spaced limits.windowMs windows
  current : w.window = windows.head?.map fun window => ⟨window.start, window.items.length, total id window.items⟩
  fits : ∀ window ∈ windows, window.items.length ≤ limits.maxRequests ∧ total id window.items ≤ limits.maxBytes
  started : ∀ window ∈ windows, window.start ≤ w.clock

variable {windows : List (Window Nat)}

theorem Kept.fresh (h : Kept limits w windows)
    (hCommit : call.commit = true) (hAllowed : (w.answer limits call).allowed = true)
    (hExp : limits.expired w.window (w.now call) = true) :
    Kept limits (w.step limits call) (⟨w.now call, [(w.now call, call.bytes)]⟩ :: windows) := by
  have hCharged : limits.charged w.window (w.now call) call.bytes = ⟨w.now call, 1, call.bytes⟩ := by
    unfold AppendLimits.charged
    split
    · rw [if_pos hExp]
    · rfl
  have hFits := (allowed_iff call).mp hAllowed
  have hClock : w.clock ≤ w.now call := Int.le_add_of_nonneg_right (Int.natCast_nonneg _)
  rw [hCharged] at hFits
  rw [step_of_committed hCommit hAllowed, hCharged]
  refine ⟨?_, fun hMs => ⟨?_, ?_, h.spaced hMs⟩, rfl, ?_, ?_⟩
  · rw [h.committed, flatMap_cons]
    rfl
  · intro item hItem
    rw [mem_singleton.mp hItem]
    exact ⟨Int.le_refl _, by dsimp only; omega⟩
  · intro other hOther
    cases windows with
    | nil => cases hOther
    | cons head earlier =>
      have hHead : limits.windowMs ≤ w.now call - head.start := by
        rw [h.current] at hExp
        simpa [AppendLimits.expired] using hExp
      dsimp only
      rcases mem_cons.mp hOther with rfl | hEarlier
      · omega
      · have hSpace := (h.spaced hMs).2.1 other hEarlier
        have hStart := h.started head mem_cons_self
        omega
  · intro window hWin
    rcases mem_cons.mp hWin with rfl | hEarlier
    · simpa [AppendLimits.fits, total] using hFits
    · exact h.fits window hEarlier
  · intro window hWin
    rcases mem_cons.mp hWin with rfl | hEarlier
    · exact Int.le_refl _
    · exact Int.le_trans (h.started window hEarlier) hClock

theorem Kept.joined {head : Window Nat} {earlier : List (Window Nat)} (h : Kept limits w (head :: earlier))
    (hCommit : call.commit = true) (hAllowed : (w.answer limits call).allowed = true)
    (hLive : limits.expired w.window (w.now call) = false) :
    Kept limits (w.step limits call) (⟨head.start, (w.now call, call.bytes) :: head.items⟩ :: earlier) := by
  have hCur : w.window = some ⟨head.start, head.items.length, total id head.items⟩ := h.current
  have hCharged : limits.charged w.window (w.now call) call.bytes =
      ⟨head.start, head.items.length + 1, total id head.items + call.bytes⟩ := by
    unfold AppendLimits.charged
    rw [hLive, hCur]
    rfl
  have hBytes : total id ((w.now call, call.bytes) :: head.items) = total id head.items + call.bytes := by
    rw [show (w.now call, call.bytes) :: head.items = [(w.now call, call.bytes)] ++ head.items from rfl, total_append,
      Nat.add_comm]
    rfl
  have hFits := (allowed_iff call).mp hAllowed
  have hClock : w.clock ≤ w.now call := Int.le_add_of_nonneg_right (Int.natCast_nonneg _)
  have hStart := h.started head mem_cons_self
  have hInside : w.now call - head.start < limits.windowMs := by
    rw [hCur] at hLive
    simpa [AppendLimits.expired] using hLive
  rw [hCharged] at hFits
  rw [step_of_committed hCommit hAllowed, hCharged]
  refine ⟨?_, fun hMs => ⟨?_, (h.spaced hMs).2.1, (h.spaced hMs).2.2⟩, ?_, ?_, ?_⟩
  · rw [h.committed, flatMap_cons, flatMap_cons]
    rfl
  · intro item hItem
    rcases mem_cons.mp hItem with rfl | hEarlier
    · constructor <;> dsimp only <;> omega
    · exact (h.spaced hMs).1 item hEarlier
  · rw [← hBytes]
    rfl
  · intro window hWin
    rcases mem_cons.mp hWin with rfl | hEarlier
    · rw [hBytes]
      simpa [AppendLimits.fits] using hFits
    · exact h.fits window (mem_cons_of_mem _ hEarlier)
  · intro window hWin
    rcases mem_cons.mp hWin with rfl | hEarlier
    · exact Int.le_trans hStart hClock
    · exact Int.le_trans (h.started window (mem_cons_of_mem _ hEarlier)) hClock

theorem Kept.step (h : Kept limits w windows) (call : AppendCall) :
    ∃ windows', Kept limits (w.step limits call) windows' := by
  by_cases hComm : call.commit = true ∧ (w.answer limits call).allowed = true
  · cases hExp : limits.expired w.window (w.now call) with
    | true => exact ⟨_, h.fresh hComm.1 hComm.2 hExp⟩
    | false =>
      cases windows with
      | nil =>
        rw [h.current] at hExp
        cases hExp
      | cons head earlier => exact ⟨_, h.joined hComm.1 hComm.2 hExp⟩
  · have hEq : call.commit = false ∨ (w.answer limits call).allowed = false := by
      simpa only [not_and_or, Bool.not_eq_true] using hComm
    have hClock : w.clock ≤ (w.step limits call).clock := Int.le_add_of_nonneg_right (Int.natCast_nonneg _)
    obtain ⟨hWin, hItems⟩ := step_of_kept hEq
    exact ⟨windows, hItems ▸ h.committed, h.spaced, hWin ▸ h.current, h.fits, fun window hMem =>
      Int.le_trans (h.started window hMem) hClock⟩

theorem kept_of_run (clock : Int) (calls : List AppendCall) :
    ∃ windows, Kept limits (run (AppendCharges.step limits) { clock } calls) windows := by
  have hStep : ∀ (w : AppendCharges) call, (∃ windows, Kept limits w windows) →
      ∃ windows, Kept limits (w.step limits call) windows :=
    fun _ call ⟨_, h⟩ => h.step call
  exact run_invariant_always hStep calls
    ⟨[], rfl, fun _ => trivial, rfl, fun _ h => absurd h not_mem_nil, fun _ h => absurd h not_mem_nil⟩

/-! ## When the window is over -/

def Until (limits : AppendLimits) (free : Int) (w : AppendCharges) : Prop :=
  match w.window with
  | some window => window.startedAt + limits.windowMs = free
  | none => free ≤ w.clock

theorem Until.step {free : Int} (h : Until limits free w) (hBef : w.now call < free) :
    Until limits free (w.step limits call) := by
  unfold Until at h
  cases hWin : w.window with
  | none =>
    -- With no window it is free now.
    rw [hWin] at h
    have hClock : w.clock ≤ w.now call := Int.le_add_of_nonneg_right (Int.natCast_nonneg _)
    exact absurd (Int.lt_of_lt_of_le hBef (Int.le_trans h hClock)) (Int.lt_irrefl _)
  | some window =>
    rw [hWin] at h
    dsimp only at h
    by_cases hComm : call.commit = true ∧ (w.answer limits call).allowed = true
    · have hLive : limits.expired (some window) (w.now call) = false := by
        simp only [AppendLimits.expired, Option.all_some, decide_eq_false_iff_not]
        omega
      rw [step_of_committed hComm.1 hComm.2, hWin]
      simpa [Until, AppendLimits.charged, hLive] using h
    · have hEq : call.commit = false ∨ (w.answer limits call).allowed = false := by
        simpa only [not_and_or, Bool.not_eq_true] using hComm
      unfold Until
      rw [(step_of_kept hEq).1, hWin]
      exact h

theorem Until.allowed {free : Int} (h : Until limits free w) (hRequests : 1 ≤ limits.maxRequests)
    (hFree : free ≤ w.now call) (hBytes : call.bytes ≤ limits.maxBytes) : (w.answer limits call).allowed = true := by
  rw [allowed_iff]
  unfold Until at h
  cases hWin : w.window with
  | none => simp [AppendLimits.charged, AppendLimits.fits, hRequests, hBytes]
  | some window =>
    rw [hWin] at h
    dsimp only at h
    have hExp : limits.expired (some window) (w.now call) = true := by
      simp only [AppendLimits.expired, Option.all_some, decide_eq_true_eq]
      omega
    simp [AppendLimits.charged, AppendLimits.fits, hExp, hRequests, hBytes]

def free (limits : AppendLimits) (w : AppendCharges) : Int :=
  w.window.elim w.clock fun window => window.startedAt + limits.windowMs

theorem until_free : Until limits (w.free limits) w := by
  unfold Until free
  cases w.window <;> simp

/-! ## The bounds -/

theorem Kept.bounded (h : Kept limits w windows) : Bounded limits w := by
  have hAny : ∀ since, 0 < limits.windowMs ∨ within limits.windowMs since w.committed = [] := by
    intro since
    refine (Nat.eq_zero_or_pos limits.windowMs).symm.imp_right fun hZero => filter_eq_nil_iff.mpr fun item _ => ?_
    rw [hZero]
    simp
  constructor
  · intro since
    rcases hAny since with hMs | hNone
    · rw [h.committed, ← total_one]
      exact total_within_le_two_mul (h.spaced hMs) since fun window hWin => by
        rw [total_one]
        exact (h.fits window hWin).1
    · rw [hNone]
      exact Nat.zero_le _
  · intro since
    rcases hAny since with hMs | hNone
    · rw [h.committed]
      exact @total_within_le_two_mul _ _ id _ _ (h.spaced hMs) since fun window hWin => (h.fits window hWin).2
    · rw [hNone]
      exact Nat.zero_le _
  · intro hRequests
    refine ⟨w.free limits, ?_, fun calls hBef call hFree hBytes => ?_⟩
    · have hStarted := h.started
      unfold free
      rw [h.current]
      cases windows with
      | nil => exact Int.le_add_of_nonneg_right (Int.natCast_nonneg _)
      | cons head earlier => exact Int.add_le_add_right (hStarted head mem_cons_self) _
    · have hStep : ∀ (w' : AppendCharges) call, Until limits (w.free limits) w' → w'.now call < w.free limits →
          Until limits (w.free limits) (w'.step limits call) := fun _ _ h hBef => h.step hBef
      have hUntil := run_invariant hStep until_free hBef
      exact hUntil.allowed hRequests hFree hBytes
  · exact fun call hEq => step_of_kept hEq

theorem bounded_of_run (clock : Int) (calls : List AppendCall) :
    Bounded limits (run (AppendCharges.step limits) { clock } calls) :=
  let ⟨_, h⟩ := kept_of_run clock calls
  h.bounded

end AppendCharges

end Stella.Conversation
