import Stella.Library.Paging
import Stella.World.Model

/-! # Listing the live manifest

All pages of a listing are the rows its pattern selects, in path order.
-/

namespace Stella.World

open Paging List

structure Dirents.Keyed (dirents : Dirents) : Prop where
  nodup : dirents.keys.Nodup
  named : ∀ path ∈ dirents.keys, path ≠ []

namespace WorldSqlStore

variable {store : WorldSqlStore}

def selected (store : WorldSqlStore) (under : Text) : List (Text × Node) :=
  (store.live.dirents.filter (fun row => listed under row.1)).insertionSort (fun a b => a.1 ≤ b.1)

def rowEntry (row : Text × Node) : WorldEntry := ⟨row.1, row.2⟩

theorem rising_selected (hKeyed : store.live.dirents.Keyed) (under : Text) :
    Rising Prod.fst (store.selected under) :=
  rising_insertionSort Prod.fst ((filter_sublist.map Prod.fst).nodup hKeyed.nodup)

theorem mem_dirents_iff (hKeyed : store.live.dirents.Keyed) (path : Text) (node : Node) :
    (path, node) ∈ store.live.dirents ↔ store.entryRow path = some node :=
  InsertionMap.mem_iff_get? hKeyed.nodup path node

theorem mem_selected (hKeyed : store.live.dirents.Keyed) (under path : Text) (node : Node) :
    (path, node) ∈ store.selected under ↔ store.entryRow path = some node ∧ listed under path = true := by
  unfold selected entryRow
  rw [mem_insertionSort, mem_filter, InsertionMap.mem_iff_get? hKeyed.nodup]

theorem length_selected_le (under : Text) : (store.selected under).length ≤ store.live.dirents.length := by
  unfold selected
  rw [length_insertionSort]
  exact length_filter_le _ _

theorem rows_above (hKeyed : store.live.dirents.Keyed) (under cursor : Text) :
    (store.live.dirents.filter (fun row => listed under row.1 && decide (cursor < row.1))).insertionSort
      (fun a b => a.1 ≤ b.1) = (store.selected under).filter (fun row => cursor < row.1) := by
  unfold selected
  rw [← insertionSort_filter Prod.fst ((filter_sublist.map Prod.fst).nodup hKeyed.nodup), filter_filter]
  simp only [Bool.and_comm]

variable {input under : Text}

theorem list_eq (hKeyed : store.live.dirents.Keyed)
    (hUnder : normalizeWorldPath input true = .ok under) {cursor : Option Text} {above : Text}
    (hCursor : (cursor.filter (· ≠ [])).elim (.ok []) (normalizeWorldPath · false) = .ok above) (limit : Int)
    {rows : List (Text × Node)} (hRows : rows = (store.selected under).filter (fun row => above < row.1))
    {count : Nat} (hCnt : count = (max 1 (min 10000 limit)).toNat) :
    store.list input cursor limit = .ok ((rows.take count).map rowEntry,
      if count < rows.length then ((rows.take count).map rowEntry).getLast?.map WorldEntry.path else none) := by
  have hMore : count < (rows.take (count + 1)).length ↔ count < rows.length := by
    rw [length_take]
    omega
  unfold list
  rw [hUnder]
  dsimp only
  rw [hCursor]
  dsimp only
  rw [rows_above hKeyed, ← hRows, ← hCnt, take_take, min_eq_left (Nat.le_succ _)]
  simp only [hMore]
  rfl

theorem rowEntry_path (row : Text × Node) : (rowEntry row).path = row.1 := rfl

variable {path : Text}

theorem normalizeWorldPath_of_normal (h : isNormalPath path = true) :
    normalizeWorldPath path false = .ok path := by
  unfold normalizeWorldPath
  simp [h]

theorem ne_nil_of_normal (h : isNormalPath path = true) : path ≠ [] := by
  rintro rfl
  simp [isNormalPath] at h

def Pageable (store : WorldSqlStore) (under : Text) : Prop :=
  ∀ row ∈ store.selected under, (∃ other ∈ store.selected under, row.1 < other.1) → isNormalPath row.1 = true

theorem pages_invalid (hUnder : normalizeWorldPath input true = .ok under) (limit : Int)
    {fuel : Nat} (hFuel : 0 < fuel) (hSome : path ≠ []) (hNorm : ¬ isNormalPath path = true) :
    store.pages input limit fuel (some path) = .error (.invalidPath path) := by
  obtain ⟨turns, rfl⟩ := Nat.exists_eq_add_one.mpr hFuel
  rw [pages]
  unfold list
  rw [hUnder]
  dsimp only
  rw [Option.filter_some_pos (by simpa using hSome), Option.elim_some]
  unfold normalizeWorldPath
  rw [if_neg (by simp [hSome]), if_neg hNorm]

theorem cursor_of_normal (h : isNormalPath path = true) :
    ((some path : Option Text).filter (· ≠ [])).elim (.ok []) (normalizeWorldPath · false) = .ok path := by
  rw [Option.filter_some_pos (by simpa using ne_nil_of_normal h)]
  exact normalizeWorldPath_of_normal h

theorem pages_spec (hKeyed : store.live.dirents.Keyed)
    (hUnder : normalizeWorldPath input true = .ok under) (limit : Int) (fuel : Nat) (cursor : Option Text) (above : Text)
    (hCursor : (cursor.filter (· ≠ [])).elim (.ok []) (normalizeWorldPath · false) = .ok above)
    (hFuel : ((store.selected under).filter (fun row => above < row.1)).length < fuel) :
    (∀ entries, store.pages input limit fuel cursor = .ok entries →
      entries = ((store.selected under).filter (fun row => above < row.1)).map rowEntry) ∧
    (store.Pageable under → ∃ entries, store.pages input limit fuel cursor = .ok entries) := by
  induction fuel generalizing cursor above with
  | zero => exact absurd hFuel (Nat.not_lt_zero _)
  | succ fuel ih =>
    generalize hRows : (store.selected under).filter (fun row => above < row.1) = rows at hFuel ⊢
    obtain ⟨count, hCnt⟩ : ∃ count, count = (max 1 (min 10000 limit)).toNat := ⟨_, rfl⟩
    have hSome : 1 ≤ count := by omega
    have hList := list_eq hKeyed hUnder hCursor limit hRows.symm hCnt
    rw [pages, hList]
    split_ifs with hMore
    · obtain ⟨front, last, hTake⟩ : ∃ front last, rows.take count = front ++ [last] := by
        rcases eq_nil_or_concat (rows.take count) with hNil | ⟨front, last, hConcat⟩
        · have hLen := congrArg List.length hNil
          rw [length_take, length_nil] at hLen
          omega
        · exact ⟨front, last, hConcat.trans (concat_eq_append ..)⟩
      have hSplit : rows = front ++ last :: rows.drop count := by
        rw [← singleton_append, ← append_assoc, ← hTake, take_append_drop]
      have hLast : last ∈ store.selected under ∧ above < last.1 := by
        have hMem : last ∈ rows := by
          rw [hSplit]
          exact mem_append_right _ mem_cons_self
        rw [← hRows] at hMem
        simpa using hMem
      have hRising : Rising Prod.fst rows := hRows ▸ (rising_selected hKeyed under).filter _
      have hNext : (store.selected under).filter (fun row => last.1 < row.1) = rows.drop count := by
        rw [hSplit] at hRising
        have hAbove := hRising.filter_above
        rw [← hSplit, ← hRows, filter_filter] at hAbove
        rw [hRows] at hAbove
        rw [← hAbove]
        refine filter_congr (fun row _ => ?_)
        rw [Bool.eq_iff_iff]
        simp only [decide_eq_true_eq, Bool.and_eq_true]
        exact ⟨fun h => ⟨h, lt_trans hLast.2 h⟩, fun h => h.1⟩
      rw [hTake]
      simp only [map_append, map_cons, map_nil, getLast?_concat, Option.map_some]
      by_cases hNorm : isNormalPath last.1 = true
      · obtain ⟨hExact, hGoes⟩ := ih (some last.1) last.1 (cursor_of_normal hNorm)
          (by rw [hNext, length_drop]; omega)
        rw [hNext] at hExact
        refine ⟨fun entries hEnts => ?_, fun hAll => ?_⟩
        · cases hPages : store.pages input limit fuel (some last.1) with
          | error e =>
            rw [rowEntry_path, hPages] at hEnts
            cases hEnts
          | ok more =>
            rw [rowEntry_path, hPages] at hEnts
            rw [← Except.ok.inj hEnts, hExact more hPages]
            conv_rhs => rw [hSplit]
            simp
        · obtain ⟨more, hMore⟩ := hGoes hAll
          rw [rowEntry_path, hMore]
          exact ⟨_, rfl⟩
      · have hSomePath : last.1 ≠ [] := fun hEmpty => not_lt_nil above (hEmpty ▸ hLast.2)
        rw [rowEntry_path, pages_invalid hUnder limit (by omega) hSomePath hNorm]
        refine ⟨fun entries hEnts => (by cases hEnts), fun hAll => absurd (hAll last hLast.1 ?_) hNorm⟩
        obtain ⟨other, hOther⟩ := exists_mem_of_ne_nil (rows.drop count) (by
          rw [ne_eq, drop_eq_nil_iff]
          omega)
        rw [← hNext, mem_filter, decide_eq_true_eq] at hOther
        exact ⟨other, hOther⟩
    · have hAll : rows.take count = rows := take_of_length_le (not_lt.mp hMore)
      rw [hAll]
      exact ⟨fun entries hEnts => (Except.ok.inj hEnts).symm, fun _ => ⟨_, rfl⟩⟩

variable {entries : List WorldEntry}

theorem pages_one_ok (hKeyed : store.live.dirents.Keyed)
    (hUnder : normalizeWorldPath input true = .ok under) (fuel : Nat) (cursor : Option Text) (above : Text)
    (hCursor : (cursor.filter (· ≠ [])).elim (.ok []) (normalizeWorldPath · false) = .ok above)
    (hFuel : ((store.selected under).filter (fun row => above < row.1)).length < fuel)
    (h : store.pages input 1 fuel cursor = .ok entries) :
    ∀ row ∈ store.selected under, above < row.1 → (∃ other ∈ store.selected under, row.1 < other.1) →
      isNormalPath row.1 = true := by
  induction fuel generalizing cursor above entries with
  | zero => exact absurd hFuel (Nat.not_lt_zero _)
  | succ fuel ih =>
    intro row hRow hAbove hMore
    have hMem : ∀ r, r ∈ store.selected under → above < r.1 →
        r ∈ (store.selected under).filter (fun row => above < row.1) :=
      fun r hR hLt => mem_filter.mpr ⟨hR, decide_eq_true hLt⟩
    have hRising := (rising_selected hKeyed under).filter (fun row => decide (above < row.1))
    rw [pages, list_eq hKeyed hUnder hCursor 1 rfl rfl] at h
    have hOne : (max 1 (min 10000 (1 : Int))).toNat = 1 := rfl
    rw [hOne] at h
    cases hRows : (store.selected under).filter (fun row => above < row.1) with
    | nil =>
      have hNone := hMem row hRow hAbove
      rw [hRows] at hNone
      cases hNone
    | cons first rest =>
      rw [hRows] at h hFuel hMem hRising
      have hNext : (store.selected under).filter (fun r => first.1 < r.1) = rest := by
        have hAfter := (show Rising Prod.fst ([] ++ first :: rest) from hRising).filter_above
        rw [nil_append, ← hRows, filter_filter] at hAfter
        rw [← hAfter]
        refine filter_congr (fun r _ => ?_)
        have hFirst : above < first.1 := by
          have hIn : first ∈ (store.selected under).filter (fun row => above < row.1) := hRows ▸ mem_cons_self
          exact of_decide_eq_true (mem_filter.mp hIn).2
        rw [Bool.eq_iff_iff]
        simp only [decide_eq_true_eq, Bool.and_eq_true]
        exact ⟨fun hLt => ⟨hLt, lt_trans hFirst hLt⟩, fun hLt => hLt.1⟩
      obtain ⟨other, hOther, hLess⟩ := hMore
      have hTwo : 1 < (first :: rest).length := by
        rcases mem_cons.mp (hMem row hRow hAbove) with rfl | hRest
        · have hIn : other ∈ rest := hNext ▸ mem_filter.mpr ⟨hOther, decide_eq_true hLess⟩
          exact Nat.succ_lt_succ (length_pos_of_mem hIn)
        · exact Nat.succ_lt_succ (length_pos_of_mem hRest)
      rw [if_pos hTwo] at h
      have hSomePath : first.1 ≠ [] := by
        have hIn : first ∈ (store.selected under).filter (fun row => above < row.1) := hRows ▸ mem_cons_self
        exact fun hEmpty => not_lt_nil above (hEmpty ▸ of_decide_eq_true (mem_filter.mp hIn).2)
      simp only [take_succ_cons, take_zero, map_cons, map_nil, getLast?_singleton,
        Option.map_some, rowEntry_path] at h
      rw [length_cons] at hFuel hTwo
      have hNorm : isNormalPath first.1 = true := by
        by_contra hBad
        rw [pages_invalid hUnder 1 (by omega) hSomePath hBad] at h
        cases h
      rcases mem_cons.mp (hMem row hRow hAbove) with rfl | hRest
      · exact hNorm
      · cases hPages : store.pages input 1 fuel (some first.1) with
        | error e =>
          rw [hPages] at h
          cases h
        | ok more =>
          rw [← hNext, mem_filter, decide_eq_true_eq] at hRest
          exact ih (some first.1) first.1 (cursor_of_normal hNorm) (by rw [hNext]; omega) hPages row hRow hRest.2
            ⟨other, hOther, hLess⟩

theorem selected_above_root (hKeyed : store.live.dirents.Keyed) (under : Text) :
    (store.selected under).filter (fun row => [] < row.1) = store.selected under := by
  rw [filter_eq_self]
  intro row hMem
  have hRow := ((mem_selected hKeyed under row.1 row.2).mp hMem).1
  have hPath := hKeyed.named row.1 (InsertionMap.mem_keys_iff.mpr (Option.isSome_of_eq_some hRow))
  cases hRow : row.1 with
  | nil => exact absurd hRow hPath
  | cons c path => simp

theorem fuel_enough (hKeyed : store.live.dirents.Keyed) (under : Text) :
    ((store.selected under).filter (fun row => [] < row.1)).length < store.live.dirents.length + 1 := by
  rw [selected_above_root hKeyed]
  exact Nat.lt_succ_of_le (length_selected_le under)

theorem pages_all (hKeyed : store.live.dirents.Keyed)
    (hUnder : normalizeWorldPath input true = .ok under) (limit : Int) :
    (∀ entries, store.pages input limit (store.live.dirents.length + 1) none = .ok entries →
      entries = (store.selected under).map rowEntry) ∧
    (store.Pageable under →
      store.pages input limit (store.live.dirents.length + 1) none = .ok ((store.selected under).map rowEntry)) := by
  have hSpec := pages_spec hKeyed hUnder limit (store.live.dirents.length + 1) none [] rfl
    (fuel_enough hKeyed under)
  rw [selected_above_root hKeyed] at hSpec
  refine ⟨hSpec.1, fun hNorm => ?_⟩
  obtain ⟨entries, hEnts⟩ := hSpec.2 hNorm
  rw [hEnts, hSpec.1 entries hEnts]

theorem pageable_of_pages (hKeyed : store.live.dirents.Keyed)
    (hUnder : normalizeWorldPath input true = .ok under)
    (h : store.pages input 1 (store.live.dirents.length + 1) none = .ok entries) : store.Pageable under := by
  intro row hRow
  refine pages_one_ok hKeyed hUnder _ none [] rfl (fuel_enough hKeyed under) h row hRow ?_
  have hAll := selected_above_root hKeyed under
  rw [filter_eq_self] at hAll
  exact of_decide_eq_true (hAll row hRow)

theorem allEntries_eq (hKeyed : store.live.dirents.Keyed) (hUnder : isNormalPath under = true)
    (h : store.allEntries under = .ok entries) :
    entries = (store.selected under).map rowEntry :=
  (pages_all hKeyed (by unfold normalizeWorldPath; simp [hUnder]) 10000).1 entries h

theorem allEntries_of_pageable (hKeyed : store.live.dirents.Keyed) (hUnder : isNormalPath under = true)
    (hPage : store.Pageable under) : store.allEntries under = .ok ((store.selected under).map rowEntry) :=
  (pages_all hKeyed (by unfold normalizeWorldPath; simp [hUnder]) 10000).2 hPage

end WorldSqlStore

end Stella.World
