import Mathlib.Data.List.Sort

/-! # Keyset paging

A table read page by page: each page holds the rows above a cursor, in the order
of their keys, and the next cursor is the key of the page's last row.
-/

namespace Stella.Paging

open List

variable {α κ : Type*} [LinearOrder κ] (key : α → κ)

def Rising (rows : List α) : Prop := rows.Pairwise (fun a b => key a < key b)

variable {key}

theorem Rising.filter_above {front back : List α} {row : α} (h : Rising key (front ++ row :: back)) :
    (front ++ row :: back).filter (fun a => key row < key a) = back := by
  obtain ⟨-, hTail, hFront⟩ := pairwise_append.mp h
  obtain ⟨hBack, -⟩ := pairwise_cons.mp hTail
  have hNone : front.filter (fun a => key row < key a) = [] := by
    rw [filter_eq_nil_iff]
    intro a hMem
    simpa using le_of_lt (hFront a hMem row mem_cons_self)
  have hAll : back.filter (fun a => key row < key a) = back := by
    rw [filter_eq_self]
    intro a hMem
    simpa using hBack a hMem
  rw [filter_append, hNone, nil_append, filter_cons_of_neg (by simp), hAll]

theorem Rising.filter_below {front back : List α} {row : α} (h : Rising key (front ++ row :: back)) :
    (front ++ row :: back).filter (fun a => key a < key row) = front := by
  obtain ⟨-, hTail, hFront⟩ := pairwise_append.mp h
  obtain ⟨hBack, -⟩ := pairwise_cons.mp hTail
  have hAll : front.filter (fun a => key a < key row) = front := by
    rw [filter_eq_self]
    intro a hMem
    simpa using hFront a hMem row mem_cons_self
  have hNone : back.filter (fun a => key a < key row) = [] := by
    rw [filter_eq_nil_iff]
    intro a hMem
    simpa using le_of_lt (hBack a hMem)
  rw [filter_append, hAll, filter_cons_of_neg (by simp), hNone, append_nil]

theorem Rising.filter_from {front back : List α} {row : α} (h : Rising key (front ++ row :: back)) :
    (front ++ row :: back).filter (fun a => key row ≤ key a) = row :: back := by
  obtain ⟨-, hTail, hFront⟩ := pairwise_append.mp h
  obtain ⟨hBack, -⟩ := pairwise_cons.mp hTail
  have hNone : front.filter (fun a => key row ≤ key a) = [] := by
    rw [filter_eq_nil_iff]
    intro a hMem
    simpa using hFront a hMem row mem_cons_self
  have hAll : back.filter (fun a => key row ≤ key a) = back := by
    rw [filter_eq_self]
    intro a hMem
    simpa using le_of_lt (hBack a hMem)
  rw [filter_append, hNone, nil_append, filter_cons_of_pos (by simp), hAll]

theorem Rising.filter_upto {front back : List α} {row : α} (h : Rising key (front ++ row :: back)) :
    (front ++ row :: back).filter (fun a => key a ≤ key row) = front ++ [row] := by
  obtain ⟨-, hTail, hFront⟩ := pairwise_append.mp h
  obtain ⟨hBack, -⟩ := pairwise_cons.mp hTail
  have hAll : front.filter (fun a => key a ≤ key row) = front := by
    rw [filter_eq_self]
    intro a hMem
    simpa using le_of_lt (hFront a hMem row mem_cons_self)
  have hNone : back.filter (fun a => key a ≤ key row) = [] := by
    rw [filter_eq_nil_iff]
    intro a hMem
    simpa using hBack a hMem
  rw [filter_append, hAll, filter_cons_of_pos (by simp), hNone]

theorem Rising.inj {rows : List α} (h : Rising key rows) {a b : α} (hA : a ∈ rows) (hB : b ∈ rows) (hKey : key a = key b) :
    a = b :=
  inj_on_of_nodup_map (pairwise_map.mpr (h.imp ne_of_lt)) hA hB hKey

theorem Rising.filter {rows : List α} (h : Rising key rows) (p : α → Bool) : Rising key (rows.filter p) :=
  List.Pairwise.filter p h

theorem Rising.eq_of_perm {xs ys : List α} (hXs : Rising key xs) (hYs : Rising key ys) (h : xs.Perm ys) : xs = ys :=
  h.eq_of_pairwise (fun _ _ _ _ hAB hBA => absurd (lt_trans hAB hBA) (lt_irrefl _)) hXs hYs

variable (key)

theorem rising_insertionSort {rows : List α} (h : (rows.map key).Nodup) :
    Rising key (rows.insertionSort (fun a b => key a ≤ key b)) := by
  have : Std.Total (fun a b : α => key a ≤ key b) := ⟨fun a b => le_total (key a) (key b)⟩
  have : IsTrans α (fun a b => key a ≤ key b) := ⟨fun _ _ _ hAB hBC => le_trans hAB hBC⟩
  have hSort := pairwise_insertionSort (fun a b => key a ≤ key b) rows
  have hDistinct : (rows.insertionSort (fun a b => key a ≤ key b)).Pairwise (fun a b => key a ≠ key b) :=
    pairwise_map.mp (((perm_insertionSort _ rows).map key).nodup_iff.mpr h)
  exact (hSort.and hDistinct).imp (fun hBoth => lt_of_le_of_ne hBoth.1 hBoth.2)

theorem insertionSort_filter {rows : List α} (h : (rows.map key).Nodup) (p : α → Bool) :
    (rows.filter p).insertionSort (fun a b => key a ≤ key b) =
      (rows.insertionSort (fun a b => key a ≤ key b)).filter p := by
  refine (rising_insertionSort key ((filter_sublist.map key).nodup h)).eq_of_perm
    ((rising_insertionSort key h).filter p) ?_
  exact (perm_insertionSort _ _).trans ((perm_insertionSort _ rows).filter p).symm

/-! ## Putting pages together -/

theorem drop_append_drop {xs : List α} {k n : Nat} (h : k ≤ n) : (xs.take n).drop k ++ xs.drop n = xs.drop k := by
  have hDrop : xs.drop n = (xs.drop k).drop (n - k) := by
    rw [drop_drop, Nat.add_sub_cancel' h]
  rw [drop_take, hDrop, take_append_drop]

theorem cut_at {xs : List α} {n : Nat} (h : n < xs.length) :
    ∃ c back, xs.drop n = c :: back ∧ xs = xs.take n ++ c :: back ∧ (xs.take n).length = n := by
  refine ⟨_, _, drop_eq_getElem_cons h, ?_, length_take_of_le (le_of_lt h)⟩
  rw [← drop_eq_getElem_cons h, take_append_drop]

theorem joined_iff {whole front page : List α} {k n m : Nat} (hK : k ≤ n) (hN : n ≤ m) (hM : m ≤ whole.length)
    (hFront : front.length = n - k) :
    front ++ page = (whole.take m).drop k ↔ front = (whole.take n).drop k ∧ page = (whole.take m).drop n := by
  have hTake : (whole.take m).take n = whole.take n := by rw [take_take, Nat.min_eq_left hN]
  rw [← drop_append_drop hK, hTake]
  constructor
  · intro hJoined
    refine append_inj hJoined ?_
    rw [hFront, length_drop, length_take, Nat.min_eq_left (Nat.le_trans hN hM)]
  · rintro ⟨rfl, rfl⟩
    rfl

end Stella.Paging
