import Mathlib.Data.List.Perm.Basic

/-! # Tables

A table is a list of rows with a key. A row is read by its key and rewritten in
place; what is read afterwards is what was there before, rewritten at that key.
-/

namespace Stella.Rows

variable {κ ρ : Type*} [DecidableEq κ] (key : ρ → κ)

def lookup (rows : List ρ) (k : κ) : Option ρ := rows.find? (fun r => key r = k)

def modify (rows : List ρ) (k : κ) (f : ρ → ρ) : List ρ := rows.map (fun r => if key r = k then f r else r)

def erase (rows : List ρ) (k : κ) : List ρ := rows.filter (fun r => key r ≠ k)

def upsert (rows : List ρ) (row : ρ) : List ρ :=
  if (lookup key rows (key row)).isSome then modify key rows (key row) (fun _ => row) else rows ++ [row]

variable {key}

variable {r : ρ}

theorem lookup_key {rows : List ρ} {k : κ} (h : lookup key rows k = some r) : key r = k := by
  simpa using List.find?_some h

theorem lookup_mem {rows : List ρ} {k : κ} (h : lookup key rows k = some r) : r ∈ rows :=
  List.mem_of_find?_eq_some h

variable {f : ρ → ρ}

theorem lookup_modify (hKey : ∀ r, key (f r) = key r) (rows : List ρ) (k j : κ) :
    lookup key (modify key rows k f) j = (lookup key rows j).map (fun r => if j = k then f r else r) := by
  induction rows with
  | nil => rfl
  | cons r rows ih =>
    have hEq : key (if key r = k then f r else r) = key r := by
      split
      · exact hKey r
      · rfl
    unfold lookup modify at ih ⊢
    rw [List.map_cons]
    by_cases hAt : key r = j
    · rw [List.find?_cons_of_pos (by simpa [hEq] using hAt), List.find?_cons_of_pos (by simpa using hAt), hAt]
      rfl
    · rw [List.find?_cons_of_neg (by simpa [hEq] using hAt), List.find?_cons_of_neg (by simpa using hAt)]
      exact ih

theorem lookup_append (rows more : List ρ) (k : κ) :
    lookup key (rows ++ more) k = (lookup key rows k).or (lookup key more k) := List.find?_append

theorem lookup_append_of_some {rows more : List ρ} {k : κ} (h : lookup key rows k = some r) :
    lookup key (rows ++ more) k = some r := by
  rw [lookup_append, h]
  rfl

theorem lookup_erase (rows : List ρ) (k j : κ) :
    lookup key (erase key rows k) j = if j = k then none else lookup key rows j := by
  unfold lookup erase
  rw [List.find?_filter]
  split
  · next hAt =>
    rw [List.find?_eq_none]
    intro r _ hBoth
    simp only [decide_not, Bool.not_eq_true', decide_eq_false_iff_not, decide_eq_true_eq] at hBoth
    exact hBoth.1 (hBoth.2.trans hAt)
  · next hAway =>
    refine congrArg (fun p => List.find? p rows) (funext fun r => ?_)
    by_cases hKey : key r = j
    · simp [hKey, hAway]
    · simp [hKey]

/-! ## Parts of a table, and tables under other keys -/

variable {p : ρ → Bool}

theorem modify_filter (h : ∀ r, p (f r) = p r) (rows : List ρ) (k : κ) :
    (modify key rows k f).filter p = modify key (rows.filter p) k f := by
  unfold modify
  rw [List.filter_map]
  refine congrArg (List.map _) (List.filter_congr fun r _ => ?_)
  rw [Function.comp_apply]
  split
  · exact h r
  · rfl

theorem modify_eq_map {rows : List ρ} {k : κ} (h : ∀ r ∈ rows, key r = k) :
    modify key rows k f = rows.map f :=
  List.map_congr_left fun r hr => if_pos (h r hr)

theorem modify_eq_self {rows : List ρ} {k : κ} (h : ∀ r ∈ rows, key r ≠ k) : modify key rows k f = rows := by
  unfold modify
  rw [List.map_congr_left fun r hr => if_neg (h r hr), List.map_id']

theorem erase_filter (p : ρ → Bool) (rows : List ρ) (k : κ) :
    (erase key rows k).filter p = erase key (rows.filter p) k := by
  unfold erase
  rw [List.filter_filter, List.filter_filter]
  exact List.filter_congr fun r _ => Bool.and_comm _ _

theorem erase_eq_self {rows : List ρ} {k : κ} (h : ∀ r ∈ rows, key r ≠ k) : erase key rows k = rows :=
  List.filter_eq_self.mpr fun r hr => decide_eq_true (h r hr)

theorem lookup_eq_none {rows : List ρ} {k : κ} : lookup key rows k = none ↔ ∀ r ∈ rows, key r ≠ k := by
  unfold lookup
  rw [List.find?_eq_none]
  simp only [decide_eq_true_eq, ne_eq]

theorem erase_append_self {rows : List ρ} {k : κ} (hFree : lookup key rows k = none) (hKey : key r = k) :
    erase key (rows ++ [r]) k = rows := by
  have hRows : erase key rows k = rows := erase_eq_self (lookup_eq_none.mp hFree)
  unfold erase at hRows ⊢
  rw [List.filter_append, hRows, List.filter_cons_of_neg (by simpa using hKey), List.filter_nil, List.append_nil]

section

variable {κ' ρ' : Type*} [DecidableEq κ'] {key' : ρ' → κ'} {g : ρ → ρ'} {rows : List ρ} {k : κ} {k' : κ'}

theorem lookup_map (h : ∀ r ∈ rows, key' (g r) = k' ↔ key r = k) :
    lookup key' (rows.map g) k' = (lookup key rows k).map g := by
  unfold lookup
  induction rows with
  | nil => rfl
  | cons r rows ih =>
    have hRest := ih fun other hOther => h other (List.mem_cons_of_mem _ hOther)
    have hHead := h r List.mem_cons_self
    rw [List.map_cons]
    by_cases hAt : key r = k
    · rw [List.find?_cons_of_pos (by simpa using hHead.mpr hAt), List.find?_cons_of_pos (by simpa using hAt)]
      rfl
    · rw [List.find?_cons_of_neg (by simpa using fun hEq => hAt (hHead.mp hEq)),
        List.find?_cons_of_neg (by simpa using hAt)]
      exact hRest

theorem map_modify {f : ρ → ρ} {f' : ρ' → ρ'} (h : ∀ r ∈ rows, key' (g r) = k' ↔ key r = k) (hF : ∀ r, g (f r) = f' (g r)) :
    (modify key rows k f).map g = modify key' (rows.map g) k' f' := by
  unfold modify
  rw [List.map_map, List.map_map]
  refine List.map_congr_left fun r hr => ?_
  rw [Function.comp_apply, Function.comp_apply]
  by_cases hAt : key r = k
  · rw [if_pos hAt, if_pos ((h r hr).mpr hAt), hF]
  · rw [if_neg hAt, if_neg fun hEq => hAt ((h r hr).mp hEq)]

theorem map_erase (h : ∀ r ∈ rows, key' (g r) = k' ↔ key r = k) :
    (erase key rows k).map g = erase key' (rows.map g) k' := by
  unfold erase
  rw [List.filter_map]
  refine congrArg (List.map g) (List.filter_congr fun r hr => ?_)
  exact decide_eq_decide.mpr (not_congr (h r hr).symm)

end

theorem lookup_filter_of_some {rows : List ρ} {k : κ} (h : lookup key rows k = some r)
    (hStays : p r = true) : lookup key (rows.filter p) k = some r := by
  induction rows with
  | nil => cases h
  | cons a rows ih =>
    unfold lookup at h ih ⊢
    by_cases hAt : key a = k
    · rw [List.find?_cons_of_pos (by simpa using hAt)] at h
      obtain rfl := Option.some.inj h
      rw [List.filter_cons_of_pos hStays, List.find?_cons_of_pos (by simpa using hAt)]
    · rw [List.find?_cons_of_neg (by simpa using hAt)] at h
      by_cases hKept : p a = true
      · rw [List.filter_cons_of_pos hKept, List.find?_cons_of_neg (by simpa using hAt)]
        exact ih h
      · rw [List.filter_cons_of_neg hKept]
        exact ih h

theorem lookup_filter_of_forall {rows : List ρ} {k : κ} (h : ∀ r ∈ rows, key r = k → p r = true) :
    lookup key (rows.filter p) k = lookup key rows k := by
  cases hRow : lookup key rows k with
  | none => exact lookup_eq_none.mpr fun r hr => lookup_eq_none.mp hRow r (List.mem_of_mem_filter hr)
  | some r => exact lookup_filter_of_some hRow (h r (lookup_mem hRow) (lookup_key hRow))

theorem perm_cons_eraseIdx {rows : List ρ} {i : Nat} (h : rows[i]? = some r) :
    rows.Perm (r :: rows.eraseIdx i) := by
  induction rows generalizing i with
  | nil => simp at h
  | cons a rows ih =>
    cases i with
    | zero =>
      rw [List.getElem?_cons_zero, Option.some.injEq] at h
      rw [h, List.eraseIdx_cons_zero]
    | succ i =>
      rw [List.getElem?_cons_succ] at h
      rw [List.eraseIdx_cons_succ]
      exact ((ih h).cons a).trans (List.Perm.swap r a _)

/-! ## Tables with one row a key -/

theorem lookup_of_mem {rows : List ρ} (hNd : (rows.map key).Nodup) (h : r ∈ rows) :
    lookup key rows (key r) = some r := by
  induction rows with
  | nil => cases h
  | cons a rows ih =>
    obtain ⟨hAway, hRest⟩ := List.nodup_cons.mp hNd
    unfold lookup at ih ⊢
    obtain rfl | hOld := List.mem_cons.mp h
    · exact List.find?_cons_of_pos (decide_eq_true rfl)
    · have hOther : key a ≠ key r := fun hEq => hAway (hEq ▸ List.mem_map_of_mem hOld)
      rw [List.find?_cons_of_neg (by simpa using hOther)]
      exact ih hRest hOld

theorem perm_cons_erase {rows : List ρ} (hNd : (rows.map key).Nodup) {k : κ} (h : lookup key rows k = some r) :
    rows.Perm (r :: erase key rows k) := by
  induction rows with
  | nil => cases h
  | cons a rows ih =>
    obtain ⟨hAway, hRest⟩ := List.nodup_cons.mp hNd
    unfold lookup at ih h
    unfold erase at ih ⊢
    by_cases hAt : key a = k
    · rw [List.find?_cons_of_pos (by simpa using hAt), Option.some.injEq] at h
      subst h
      have hOthers : rows.filter (fun r => key r ≠ k) = rows := by
        refine List.filter_eq_self.mpr fun other hOther => decide_eq_true fun hEq => hAway ?_
        rw [hAt, ← hEq]
        exact List.mem_map_of_mem hOther
      rw [List.filter_cons_of_neg (by simpa using hAt), hOthers]
    · rw [List.find?_cons_of_neg (by simpa using hAt)] at h
      rw [List.filter_cons_of_pos (by simpa using hAt)]
      exact ((ih hRest h).cons a).trans (List.Perm.swap r a _)

theorem modify_perm {rows : List ρ} (hNd : (rows.map key).Nodup) {k : κ} (h : lookup key rows k = some r)
    (f : ρ → ρ) : (modify key rows k f).Perm (f r :: erase key rows k) := by
  have hMap : (modify key rows k f).Perm (modify key (r :: erase key rows k) k f) :=
    (perm_cons_erase hNd h).map fun a => if key a = k then f a else a
  have hOthers : modify key (erase key rows k) k f = erase key rows k :=
    modify_eq_self fun a ha => of_decide_eq_true (List.mem_filter.mp ha).2
  have hHead : modify key (r :: erase key rows k) k f = f r :: modify key (erase key rows k) k f := by
    rw [modify, List.map_cons, if_pos (lookup_key h)]
    rfl
  rwa [hHead, hOthers] at hMap

theorem map_key_modify (hKey : ∀ r, key (f r) = key r) (rows : List ρ) (k : κ) :
    (modify key rows k f).map key = rows.map key := by
  rw [modify, List.map_map]
  refine List.map_congr_left fun r _ => ?_
  rw [Function.comp_apply]
  split
  · exact hKey r
  · rfl

theorem modify_const {rows : List ρ} {row : ρ} :
    modify key rows (key row) (fun _ => row) = modify key rows (key row) (fun r => if key r = key row then row else r) := by
  refine List.map_congr_left fun r _ => ?_
  by_cases hAt : key r = key row
  · rw [if_pos hAt, if_pos hAt]
    exact (if_pos hAt).symm
  · rw [if_neg hAt, if_neg hAt]

theorem key_of_const (row r : ρ) : key (if key r = key row then row else r) = key r := by
  split
  · next hAt => exact hAt.symm
  · rfl

theorem lookup_upsert (rows : List ρ) (row : ρ) (k : κ) :
    lookup key (upsert key rows row) k = if k = key row then some row else lookup key rows k := by
  unfold upsert
  cases hRow : lookup key rows (key row) with
  | none =>
    rw [if_neg (by simp), lookup_append]
    by_cases hAt : k = key row
    · rw [if_pos hAt, hAt, hRow]
      simp [lookup]
    · have hNew : lookup key [row] k = none := by simpa [lookup] using fun hEq => hAt hEq.symm
      rw [if_neg hAt, hNew, Option.or_none]
  | some old =>
    rw [if_pos (by simp), modify_const, lookup_modify (key_of_const row)]
    by_cases hAt : k = key row
    · rw [if_pos hAt, hAt, hRow, Option.map_some, if_pos rfl, if_pos (lookup_key hRow)]
    · rw [if_neg hAt]
      simp only [if_neg hAt, Option.map_id']

theorem upsert_keys_nodup {rows : List ρ} (h : (rows.map key).Nodup) (row : ρ) :
    ((upsert key rows row).map key).Nodup := by
  unfold upsert
  cases hRow : lookup key rows (key row) with
  | none =>
    rw [if_neg (by simp), List.map_append, List.nodup_append]
    refine ⟨h, List.pairwise_singleton _ _, fun a hA b hB hEq => ?_⟩
    obtain rfl : b = key row := List.mem_singleton.mp hB
    obtain ⟨other, hOther, hKey⟩ := List.mem_map.mp hA
    exact lookup_eq_none.mp hRow other hOther (hKey.trans hEq)
  | some old =>
    rw [if_pos (by simp), modify_const, map_key_modify (key_of_const row)]
    exact h

theorem of_lookup_modify {rows : List ρ} {k j : κ} (h : lookup key (modify key rows k f) j = some r)
    (hKey : ∀ r, key (f r) = key r) : ∃ old, lookup key rows j = some old ∧ r = if j = k then f old else old := by
  rw [lookup_modify hKey] at h
  obtain ⟨old, hOld, hRow⟩ := Option.map_eq_some_iff.mp h
  exact ⟨old, hOld, hRow.symm⟩

theorem lookup_modify_of_some {rows : List ρ} {j : κ} (h : lookup key rows j = some r)
    (hKey : ∀ r, key (f r) = key r) (k : κ) : lookup key (modify key rows k f) j = some (if j = k then f r else r) := by
  rw [lookup_modify hKey, h, Option.map_some]

theorem mem_modify {rows : List ρ} {k : κ} (h : r ∈ modify key rows k f) :
    (∃ old ∈ rows, key old = k ∧ r = f old) ∨ (r ∈ rows ∧ key r ≠ k) := by
  obtain ⟨old, hOld, rfl⟩ := List.mem_map.mp h
  by_cases hAt : key old = k
  · exact .inl ⟨old, hOld, hAt, if_pos hAt⟩
  · rw [if_neg hAt]
    exact .inr ⟨hOld, hAt⟩

theorem mem_upsert {rows : List ρ} {row : ρ} (h : r ∈ upsert key rows row) : r = row ∨ (r ∈ rows ∧ key r ≠ key row) := by
  unfold upsert at h
  split at h
  · rcases mem_modify h with ⟨old, -, -, hRow⟩ | hOther
    · exact .inl hRow
    · exact .inr hOther
  · next hNew =>
    rcases List.mem_append.mp h with hOld | hRow
    · exact .inr ⟨hOld, lookup_eq_none.mp (by simpa using hNew) r hOld⟩
    · exact .inl (List.mem_singleton.mp hRow)

theorem mem_erase {rows : List ρ} {k : κ} : r ∈ erase key rows k ↔ r ∈ rows ∧ key r ≠ k := by
  unfold erase
  rw [List.mem_filter, decide_eq_true_iff]

/-- Every row of the one table is in the other, with `P` from the old to the new. -/
def Kept (key : ρ → κ) (P : ρ → ρ → Prop) (rows rows' : List ρ) : Prop :=
  ∀ k r, lookup key rows k = some r → ∃ r', lookup key rows' k = some r' ∧ P r r'

variable {P : ρ → ρ → Prop}

theorem Kept.refl (hRefl : ∀ r, P r r) (rows : List ρ) : Kept key P rows rows :=
  fun _ r h => ⟨r, h, hRefl r⟩

theorem Kept.modify (hRefl : ∀ r, P r r) {rows : List ρ} {k : κ} (hKey : ∀ r, key (f r) = key r)
    (h : ∀ r, lookup key rows k = some r → P r (f r)) : Kept key P rows (modify key rows k f) := by
  intro j r hRow
  by_cases hAt : j = k
  · refine ⟨f r, ?_, h r (hAt ▸ hRow)⟩
    rw [lookup_modify hKey, hRow, Option.map_some, if_pos hAt]
  · refine ⟨r, ?_, hRefl r⟩
    rw [lookup_modify hKey, hRow, Option.map_some, if_neg hAt]

theorem Kept.append (hRefl : ∀ r, P r r) (rows more : List ρ) : Kept key P rows (rows ++ more) :=
  fun _ r h => ⟨r, lookup_append_of_some h, hRefl r⟩

end Stella.Rows
