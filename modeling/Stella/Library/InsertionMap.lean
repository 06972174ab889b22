import Mathlib.Data.List.Nodup
import Mathlib.Data.List.Perm.Subperm

/-! # Maps in insertion order

A finite map as the list of its entries. `set` keeps the place of a key that is
there and appends one that is not; iteration is in the order of first insertion.
-/

namespace Stella

open List

abbrev InsertionMap (α β : Type*) := List (α × β)

namespace InsertionMap

variable {α β : Type*} [DecidableEq α]

def get? : InsertionMap α β → α → Option β
  | [], _ => none
  | (k, v) :: m, key => if k = key then some v else get? m key

def set : InsertionMap α β → α → β → InsertionMap α β
  | [], key, value => [(key, value)]
  | (k, v) :: m, key, value => if k = key then (k, value) :: m else (k, v) :: set m key value

def has (m : InsertionMap α β) (key : α) : Bool := (get? m key).isSome

def erase (m : InsertionMap α β) (key : α) : InsertionMap α β := m.filter (fun entry => entry.1 ≠ key)

def keys (m : InsertionMap α β) : List α := m.map Prod.fst

@[simp] theorem get?_nil (key : α) : get? ([] : InsertionMap α β) key = none := rfl

@[simp] theorem get?_set_self (m : InsertionMap α β) (key : α) (value : β) : get? (set m key value) key = some value := by
  induction m with
  | nil => exact if_pos rfl
  | cons entry m ih =>
    unfold set
    split
    · exact if_pos ‹_›
    · rw [get?, if_neg ‹_›, ih]

variable {key other : α}

@[simp] theorem get?_set_of_ne (m : InsertionMap α β) (value : β) (h : key ≠ other) :
    get? (set m key value) other = get? m other := by
  induction m with
  | nil => exact if_neg h
  | cons entry m ih =>
    obtain ⟨k, v⟩ := entry
    unfold set
    split
    · rename_i hKey
      have hOther : k ≠ other := hKey ▸ h
      rw [get?, get?, if_neg hOther, if_neg hOther]
    · rw [get?, get?, ih]

variable {m : InsertionMap α β} {value : β}

theorem mem_keys_set (h : other ∈ (set m key value).keys) :
    other = key ∨ other ∈ m.keys := by
  induction m with
  | nil => exact .inl (mem_singleton.mp h)
  | cons entry m ih =>
    unfold set at h
    split at h
    · exact .inr h
    · rcases mem_cons.mp h with rfl | hRest
      · exact .inr mem_cons_self
      · exact (ih hRest).imp_right (mem_cons_of_mem _)

theorem nodup_keys_set (h : m.keys.Nodup) (key : α) (value : β) : (set m key value).keys.Nodup := by
  induction m with
  | nil => exact nodup_singleton key
  | cons entry m ih =>
    obtain ⟨hHead, hRest⟩ := nodup_cons.mp h
    unfold set
    split
    · exact h
    · rename_i hKey
      refine nodup_cons.mpr ⟨fun hMem => ?_, ih hRest⟩
      rcases mem_keys_set hMem with hEq | hOld
      · exact hKey hEq
      · exact hHead hOld

@[simp] theorem get?_erase_self (m : InsertionMap α β) (key : α) : get? (erase m key) key = none := by
  induction m with
  | nil => rfl
  | cons entry m ih =>
    by_cases hKey : entry.1 = key
    · rw [erase, filter_cons_of_neg (by simpa using hKey)]
      exact ih
    · rw [erase, filter_cons_of_pos (by simpa using hKey), get?, if_neg hKey]
      exact ih

@[simp] theorem get?_erase_of_ne (m : InsertionMap α β) (h : key ≠ other) :
    get? (erase m key) other = get? m other := by
  induction m with
  | nil => rfl
  | cons entry m ih =>
    by_cases hKey : entry.1 = key
    · rw [erase, filter_cons_of_neg (by simpa using hKey), get?, if_neg (hKey ▸ h)]
      exact ih
    · rw [erase, filter_cons_of_pos (by simpa using hKey), get?, get?]
      exact congrArg (ite (entry.1 = other) (some entry.2)) ih

theorem get?_foldl_erase (gone : List α) (m : InsertionMap α β) (key : α) :
    get? (gone.foldl erase m) key = if key ∈ gone then none else get? m key := by
  induction gone generalizing m with
  | nil => simp
  | cons other rest ih =>
    rw [foldl_cons, ih]
    rcases eq_or_ne other key with rfl | hOther
    · simp
    · rw [get?_erase_of_ne _ hOther]
      simp [hOther.symm]

theorem foldl_erase_sublist (gone : List α) (m : InsertionMap α β) : (gone.foldl erase m).Sublist m := by
  induction gone generalizing m with
  | nil => exact List.Sublist.refl m
  | cons other rest ih => exact (ih (m.erase other)).trans filter_sublist

theorem set_eq_append (m : InsertionMap α β) (key : α) (value : β) : set m key value =
    m.takeWhile (fun entry => entry.1 ≠ key) ++ (key, value) :: (m.dropWhile (fun entry => entry.1 ≠ key)).tail := by
  induction m with
  | nil => rfl
  | cons entry m ih =>
    unfold set
    split
    · next hKey =>
      rw [takeWhile_cons_of_neg (by simpa using hKey), dropWhile_cons_of_neg (by simpa using hKey), ← hKey]
      rfl
    · next hKey =>
      rw [takeWhile_cons_of_pos (by simpa using hKey), dropWhile_cons_of_pos (by simpa using hKey), ih]
      rfl

theorem dropWhile_of_get? (h : get? m key = some value) :
    m.dropWhile (fun entry => entry.1 ≠ key) = (key, value) :: (m.dropWhile (fun entry => entry.1 ≠ key)).tail := by
  induction m with
  | nil => cases h
  | cons entry m ih =>
    rw [get?] at h
    split at h
    · next hKey =>
      rw [dropWhile_cons_of_neg (by simpa using hKey), ← hKey, ← Option.some.inj h]
      rfl
    · next hKey =>
      rw [dropWhile_cons_of_pos (by simpa using hKey)]
      exact ih h

theorem get?_filter_key (m : InsertionMap α β) (keep : α → Bool) (key : α) :
    get? (m.filter (fun entry => keep entry.1)) key = if keep key = true then get? m key else none := by
  induction m with
  | nil => simp
  | cons entry m ih =>
    by_cases hKeep : keep entry.1 = true
    · rw [filter_cons_of_pos (by simpa using hKeep), get?, get?]
      change (if entry.1 = key then some entry.2 else get? (m.filter (fun entry => keep entry.1)) key) = _
      rw [ih]
      by_cases hKey : entry.1 = key
      · rw [if_pos hKey, if_pos hKey, ← hKey, if_pos hKeep]
      · rw [if_neg hKey, if_neg hKey]
    · rw [filter_cons_of_neg (by simpa using hKeep), ih, get?]
      by_cases hKey : entry.1 = key
      · rw [← hKey, if_neg hKeep, if_neg hKeep]
      · rw [if_neg hKey]

theorem mem_of_get? (h : get? m key = some value) : (key, value) ∈ m := by
  induction m with
  | nil => cases h
  | cons entry m ih =>
    rw [get?] at h
    split at h
    · rename_i hKey
      obtain rfl := Option.some.inj h
      rw [← hKey]
      exact mem_cons_self
    · exact mem_cons_of_mem _ (ih h)

theorem nodup_keys_erase (h : m.keys.Nodup) (key : α) : (erase m key).keys.Nodup :=
  (filter_sublist.map Prod.fst).nodup h

theorem mem_keys_erase (h : other ∈ (erase m key).keys) : other ∈ m.keys :=
  (filter_sublist.map Prod.fst).subset h

theorem has_eq_isSome (m : InsertionMap α β) (key : α) : m.has key = (get? m key).isSome := rfl

theorem mem_iff_get? (h : m.keys.Nodup) (key : α) (value : β) :
    (key, value) ∈ m ↔ get? m key = some value := by
  induction m with
  | nil => simp
  | cons entry m ih =>
    obtain ⟨k, v⟩ := entry
    obtain ⟨hHead, hRest⟩ := nodup_cons.mp h
    rw [mem_cons, get?, ih hRest, Prod.mk.injEq]
    split
    · rename_i hKey
      subst hKey
      have hGone : get? m k ≠ some value := fun hGet =>
        hHead (mem_map.mpr ⟨(k, value), (ih hRest).mpr hGet, rfl⟩)
      simp [hGone, eq_comm]
    · rename_i hKey
      simp [Ne.symm hKey]

theorem mem_keys_iff : key ∈ m.keys ↔ (get? m key).isSome = true := by
  induction m with
  | nil => simp [keys]
  | cons entry m ih =>
    obtain ⟨k, v⟩ := entry
    change key ∈ k :: keys m ↔ _
    rw [mem_cons, get?, ih]
    split
    · simp_all
    · rename_i hKey
      simp [Ne.symm hKey]

omit [DecidableEq α] in
theorem length_le_of_keys_subset (h : m.keys.Nodup) {bound : List α} (hSub : m.keys ⊆ bound) :
    m.length ≤ bound.length := by
  rw [← length_map (f := Prod.fst)]
  exact (subperm_of_subset h hSub).length_le

end InsertionMap

end Stella
