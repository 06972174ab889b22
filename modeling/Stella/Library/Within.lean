import Mathlib.Algebra.GroupWithZero.Nat
import Mathlib.Algebra.Order.BigOperators.Group.List
import Mathlib.Data.List.Infix

/-! # The longest prefix within a budget

Each element of a list has a weight. The elements from the front are taken while
their weights fit the budget, and no longer prefix fits it.
-/

namespace Stella.Within

variable {α β : Type*} (weight : α → Nat)

def takeWithin : Nat → List α → List α
  | _, [] => []
  | budget, a :: as => if weight a ≤ budget then a :: takeWithin (budget - weight a) as else []

def total (as : List α) : Nat := (as.map weight).sum

variable {weight} {budget : Nat} {as bs : List α}

@[simp] theorem total_nil : total weight [] = 0 := rfl

@[simp] theorem total_cons (a : α) (as : List α) : total weight (a :: as) = weight a + total weight as := by
  simp [total]

@[simp] theorem total_append (as bs : List α) : total weight (as ++ bs) = total weight as + total weight bs := by
  simp [total]

theorem total_reverse (as : List α) : total weight as.reverse = total weight as := by
  unfold total
  rw [List.map_reverse, List.sum_reverse]

theorem prefix_takeWithin (budget : Nat) (as : List α) : takeWithin weight budget as <+: as := by
  induction as generalizing budget with
  | nil => exact List.prefix_rfl
  | cons a as ih =>
    unfold takeWithin
    split
    · exact (List.prefix_cons_inj a).mpr (ih _)
    · exact List.nil_prefix

theorem total_takeWithin (budget : Nat) (as : List α) : total weight (takeWithin weight budget as) ≤ budget := by
  induction as generalizing budget with
  | nil => exact Nat.zero_le budget
  | cons a as ih =>
    unfold takeWithin
    split
    · next hFits =>
      have := ih (budget - weight a)
      rw [total_cons]
      omega
    · exact Nat.zero_le budget

theorem lt_total_of_longer (h : bs <+: as) (hLonger : (takeWithin weight budget as).length < bs.length) :
    budget < total weight bs := by
  induction as generalizing budget bs with
  | nil =>
    rw [List.prefix_nil.mp h] at hLonger
    cases hLonger
  | cons a as ih =>
    cases bs with
    | nil => cases hLonger
    | cons b bs =>
      obtain ⟨rfl, hRest⟩ := List.cons_prefix_cons.mp h
      rw [total_cons]
      unfold takeWithin at hLonger
      split at hLonger
      · next hFits =>
        have := ih hRest (Nat.lt_of_succ_lt_succ hLonger)
        omega
      · omega

theorem lt_total_of_heavier {size : α → Nat} (h : bs <+: as) (hHeavier : total size (takeWithin weight budget as) < total size bs) :
    budget < total weight bs := by
  by_contra hFits
  have hShort : bs.length ≤ (takeWithin weight budget as).length := by
    by_contra hLonger
    exact hFits (lt_total_of_longer h (not_le.mp hLonger))
  obtain ⟨rest, hRest⟩ := List.prefix_of_prefix_length_le h (prefix_takeWithin budget as) hShort
  rw [← hRest, total_append] at hHeavier
  omega

theorem takeWithin_map (f : β → α) (budget : Nat) (bs : List β) :
    takeWithin weight budget (bs.map f) = (takeWithin (fun b => weight (f b)) budget bs).map f := by
  induction bs generalizing budget with
  | nil => rfl
  | cons b bs ih =>
    rw [List.map_cons, takeWithin, takeWithin, ih]
    split <;> rfl

end Stella.Within
