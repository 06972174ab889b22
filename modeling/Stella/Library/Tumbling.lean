import Mathlib.Algebra.BigOperators.Group.List.Basic
import Mathlib.Algebra.GroupWithZero.Nat
import Mathlib.Data.Int.Basic

/-! # Windows of a fixed length, one after another

A window starts with its first item and takes what comes before its length is over; the next one
starts later than that.
-/

namespace Stella.Tumbling

open List

variable {α : Type*}

structure Window (α : Type*) where
  start : Int
  /-- With the times they came at. -/
  items : List (Int × α)

/-- The items that came in the interval of this length from `since` on. -/
def within (length : Nat) (since : Int) (items : List (Int × α)) : List (Int × α) :=
  items.filter fun item => since ≤ item.1 && item.1 < since + length

def Spaced (length : Nat) : List (Window α) → Prop
  | [] => True
  | window :: earlier => (∀ item ∈ window.items, window.start ≤ item.1 ∧ item.1 < window.start + length) ∧
      (∀ other ∈ earlier, other.start + length ≤ window.start) ∧ Spaced length earlier

variable {length : Nat}

theorem Spaced.items {windows : List (Window α)} (h : Spaced length windows) {window : Window α} (hWin : window ∈ windows) :
    ∀ item ∈ window.items, window.start ≤ item.1 ∧ item.1 < window.start + length := by
  induction windows with
  | nil => cases hWin
  | cons first earlier ih =>
    rcases mem_cons.mp hWin with rfl | hEarlier
    · exact h.1
    · exact ih h.2.2 hEarlier

theorem within_eq_nil {windows : List (Window α)} (h : Spaced length windows) {since : Int}
    (hOver : ∀ window ∈ windows, window.start + length ≤ since) :
    within length since (windows.flatMap Window.items) = [] := by
  refine filter_eq_nil_iff.mpr fun item hItem => ?_
  obtain ⟨window, hWin, hMem⟩ := mem_flatMap.mp hItem
  have hTime := h.items hWin item hMem
  have hEnd := hOver window hWin
  simp only [Bool.and_eq_true, decide_eq_true_eq]
  omega

section

variable {size : α → Nat} {cap : Nat}

def total (size : α → Nat) (items : List (Int × α)) : Nat := (items.map fun item => size item.2).sum

theorem total_one (items : List (Int × α)) : total (fun _ => 1) items = items.length := by
  simp [total]

theorem total_append (xs ys : List (Int × α)) : total size (xs ++ ys) = total size xs + total size ys := by
  unfold total
  rw [map_append, sum_append]

theorem total_filter_le (p : Int × α → Bool) (items : List (Int × α)) : total size (items.filter p) ≤ total size items := by
  induction items with
  | nil => exact Nat.le_refl _
  | cons item rest ih =>
    unfold total at ih ⊢
    rw [filter_cons]
    split
    · rw [map_cons, map_cons, sum_cons, sum_cons]
      exact Nat.add_le_add_left ih _
    · rw [map_cons, sum_cons]
      exact ih.trans (Nat.le_add_left _ _)

theorem total_within_cons (window : Window α) (earlier : List (Window α)) (since : Int) :
    total size (within length since ((window :: earlier).flatMap Window.items)) =
      total size (within length since window.items) + total size (within length since (earlier.flatMap Window.items)) := by
  unfold within
  rw [flatMap_cons, filter_append, total_append]

theorem total_within_le {windows : List (Window α)} (h : Spaced length windows) {since : Int}
    (hBef : ∀ window ∈ windows, window.start ≤ since) (hCap : ∀ window ∈ windows, total size window.items ≤ cap) :
    total size (within length since (windows.flatMap Window.items)) ≤ cap := by
  cases windows with
  | nil => exact Nat.zero_le _
  | cons window earlier =>
    have hStart := hBef window mem_cons_self
    have hRest : within length since (earlier.flatMap Window.items) = [] :=
      within_eq_nil h.2.2 fun other hOther => Int.le_trans (h.2.1 other hOther) hStart
    rw [total_within_cons, hRest]
    exact (total_filter_le _ _).trans (hCap window mem_cons_self)

theorem total_within_le_two_mul {windows : List (Window α)} (h : Spaced length windows) (since : Int)
    (hCap : ∀ window ∈ windows, total size window.items ≤ cap) :
    total size (within length since (windows.flatMap Window.items)) ≤ 2 * cap := by
  induction windows with
  | nil => exact Nat.zero_le _
  | cons window earlier ih =>
    have hHere := hCap window mem_cons_self
    have hEarlier : ∀ other ∈ earlier, total size other.items ≤ cap := fun other hOther =>
      hCap other (mem_cons_of_mem _ hOther)
    rw [total_within_cons]
    by_cases hStart : window.start < since + length
    · have hFirst := @total_filter_le _ size (fun item => since ≤ item.1 && item.1 < since + length) window.items
      have hRest := @total_within_le _ _ _ _ _ h.2.2 since (fun other hOther => by
        have hSpace := h.2.1 other hOther
        omega) hEarlier
      unfold within at hRest ⊢
      omega
    · -- The window starts when the interval is over.
      have hNone : within length since window.items = [] := by
        refine filter_eq_nil_iff.mpr fun item hItem => ?_
        have hTime := h.1 item hItem
        simp only [Bool.and_eq_true, decide_eq_true_eq]
        omega
      rw [hNone]
      exact (Nat.zero_add _).trans_le (ih h.2.2 hEarlier)

end

end Stella.Tumbling
