import Stella.World.Subtree

/-! # What a path operation touches

An operation on a path is meant for the path's subtree. It keeps to it exactly
when the pattern selects nothing else, neither among the entries there are nor,
for a rename, among those it makes on its way.
-/

namespace Stella.World

open List

theorem ne_nil_of_isNormal {path : Text} (h : isNormalPath path = true) : path ≠ [] :=
  WorldSqlStore.ne_nil_of_normal h

theorem pathWithin_append {path suffix : Text} (hPath : path ≠ []) (h : suffix = [] ∨ suffix.head? = some '/') :
    pathWithin (path ++ suffix) path = true :=
  (pathWithin_iff hPath).mpr ⟨suffix, rfl, h⟩

theorem listed_of_within {path q : Text} (h : pathWithin q path = true) : WorldSqlStore.listed path q = true := by
  by_cases hRoot : path = []
  · simp [WorldSqlStore.listed, hRoot]
  · obtain ⟨suffix, rfl, rfl | hSlash⟩ := (pathWithin_iff hRoot).mp h
    · simp [WorldSqlStore.listed]
    · obtain ⟨rest, rfl⟩ := head?_eq_some_iff.mp hSlash
      have hRest : Sql.like ['/', '%'] ('/' :: rest) = true := by
        rw [Sql.like_cons_cons (by decide), Sql.like_percent]
        simp
      simp [WorldSqlStore.listed, Sql.like_append_self path hRest]

theorem not_mem_ancestors_append (path suffix : Text) : path ++ suffix ∉ ancestors path := by
  intro hMem
  obtain ⟨rest, hEq⟩ := (mem_ancestors _ _).mp hMem
  have hLen := congrArg List.length hEq
  simp only [length_append, length_cons] at hLen
  omega

theorem not_within_of_ancestor {path source a : Text} (hSrc : source ≠ []) (hOut : pathWithin path source = false)
    (hA : a ∈ ancestors path) : pathWithin a source = false := by
  rw [Bool.eq_false_iff] at hOut ⊢
  intro hWith
  obtain ⟨rest, hPath⟩ := (mem_ancestors _ _).mp hA
  obtain ⟨suffix, rfl, hHead⟩ := (pathWithin_iff hSrc).mp hWith
  refine hOut ((pathWithin_iff hSrc).mpr ⟨suffix ++ '/' :: rest, by rw [hPath, append_assoc], .inr ?_⟩)
  rcases hHead with rfl | hSlash
  · rfl
  · rw [head?_append, hSlash]
    rfl

theorem ancestors_ne_nil {path a : Text} (h : isNormalPath path = true) (hA : a ∈ ancestors path) : a ≠ [] := by
  rintro rfl
  obtain ⟨rest, rfl⟩ := (mem_ancestors _ _).mp hA
  simp [isNormalPath] at h

namespace Mutation

variable {m later : Mutation} {now : Int} {p t : Text}

theorem nextPath_append (source dest suffix : Text) : nextPath source dest (source ++ suffix) = dest ++ suffix := by
  unfold nextPath
  rw [sliceUnits_append]

def sources (m : Mutation) (p : Text) : List WorldEntry := (m.store.selected p).map WorldSqlStore.rowEntry

theorem mem_sources (hKeyed : m.Keyed) (p : Text) (entry : WorldEntry) :
    entry ∈ m.sources p ↔ m.entryRow entry.path = some entry.node ∧ WorldSqlStore.listed p entry.path = true := by
  unfold sources
  rw [mem_map]
  constructor
  · rintro ⟨row, hRow, rfl⟩
    exact (WorldSqlStore.mem_selected hKeyed p row.1 row.2).mp hRow
  · intro h
    exact ⟨(entry.path, entry.node), (WorldSqlStore.mem_selected hKeyed p _ _).mpr h, rfl⟩

theorem Parented.kept {missing : List Text} {made : Mutation} (h : Parented now missing m made) (hKeyed : m.Keyed) :
    ∀ entry ∈ m.sources p, made.entryRow entry.path = some entry.node := by
  intro entry hEnt
  have hRow := ((mem_sources hKeyed p entry).mp hEnt).1
  rw [h.rows, if_neg, hRow]
  rintro ⟨-, hNone⟩
  rw [hRow] at hNone
  cases hNone

structure Renamed (now : Int) (p t : Text) (m later : Mutation) : Prop where
  stored : isWorldDrivePath t = false
  outside : pathWithin t p = false
  found : m.sources p ≠ []
  steps : ∃ made moved, Parented now (ancestors t) m made ∧ Moved p t (m.sources p) made moved ∧ Removed moved p true later

theorem rename_ok (hKeyed : m.Keyed) (hP : isNormalPath p = true) (hT : isNormalPath t = true)
    (h : m.rename now p t = (.ok (), later)) : Renamed now p t m later := by
  unfold rename at h
  rw [WorldSqlStore.normalizeWorldPath_of_normal hP, WorldSqlStore.normalizeWorldPath_of_normal hT] at h
  dsimp only at h
  split at h
  · cases (Prod.mk.inj h).1
  rename_i hStored
  split at h
  · cases (Prod.mk.inj h).1
  rename_i hOutside
  cases hAll : m.store.allEntries p with
  | error e =>
    rw [hAll] at h
    cases (Prod.mk.inj h).1
  | ok entries =>
    rw [hAll] at h
    dsimp only at h
    obtain rfl : entries = m.sources p := WorldSqlStore.allEntries_eq hKeyed hP hAll
    split at h
    · cases (Prod.mk.inj h).1
    rename_i hFound
    split at h
    · cases (Prod.mk.inj h).1
    cases hParents : ensureParents now (ancestors t) m with
    | mk result made =>
      rw [hParents] at h
      cases result with
      | error e => cases (Prod.mk.inj h).1
      | ok _ =>
        dsimp only at h
        have hMade := ensureParents_ok now (nodup_ancestors t) (fun a hA => ancestors_ne_nil hT hA) hKeyed hParents
        cases hMoves : moveEntries p t (m.sources p) made with
        | mk result moved =>
          rw [hMoves] at h
          cases result with
          | error e => cases (Prod.mk.inj h).1
          | ok _ =>
            have hMoved := moveEntries_ok (ne_nil_of_isNormal hT) hMade.keyed (hMade.kept hKeyed) hMoves
            exact ⟨Bool.eq_false_iff.mpr hStored, Bool.eq_false_iff.mpr hOutside, hFound, made, moved, hMade, hMoved,
              remove_ok hMoved.keyed hP h⟩

structure RenameFree (m : Mutation) (p t : Text) : Prop where
  found : ∃ q, (m.entryRow q).isSome = true ∧ pathWithin q p = true
  stored : isWorldDrivePath t = false
  dirs : ∀ a ∈ ancestors t, ∀ node, m.entryRow a = some node → node.kind = .dir
  free : ∀ q, (m.entryRow q).isSome = true → pathWithin q p = true → m.entryRow (nextPath p t q) = none

def Creates (m : Mutation) (p t q : Text) : Prop :=
  (q ∈ ancestors t ∧ m.entryRow q = none) ∨
    ∃ r, (m.entryRow r).isSome = true ∧ pathWithin r p = true ∧ q = nextPath p t r

def Lists (m : Mutation) (p : Text) : Prop :=
  ∀ q, (m.entryRow q).isSome = true → WorldSqlStore.listed p q = true → pathWithin q p = true

theorem source_within (hKeyed : m.Keyed) (hP : p ≠ []) (hLists : m.Lists p) {entry : WorldEntry}
    (hEnt : entry ∈ m.sources p) : ∃ suffix, entry.path = p ++ suffix ∧
      (suffix = [] ∨ suffix.head? = some '/') ∧ m.entryRow (p ++ suffix) = some entry.node := by
  obtain ⟨hRow, hList⟩ := (mem_sources hKeyed p entry).mp hEnt
  obtain ⟨suffix, hPath, hSuf⟩ := (pathWithin_iff hP).mp (hLists _ (Option.isSome_of_eq_some hRow) hList)
  exact ⟨suffix, hPath, hSuf, hPath ▸ hRow⟩

theorem Renamed.renameFree (h : Renamed now p t m later) (hKeyed : m.Keyed) (hP : p ≠ []) (hLists : m.Lists p) :
    m.RenameFree p t := by
  obtain ⟨hStored, -, hFound, made, moved, hMade, hMoved, -⟩ := h
  refine ⟨?_, hStored, hMade.dirs, fun q hRow hWith => ?_⟩
  · obtain ⟨entry, hEnt⟩ := exists_mem_of_ne_nil _ hFound
    obtain ⟨suffix, -, hSuf, hRow⟩ := source_within hKeyed hP hLists hEnt
    exact ⟨p ++ suffix, Option.isSome_of_eq_some hRow, pathWithin_append hP hSuf⟩
  · obtain ⟨node, hNode⟩ := Option.isSome_iff_exists.mp hRow
    have hMem : (⟨q, node⟩ : WorldEntry) ∈ m.sources p :=
      (mem_sources hKeyed p ⟨q, node⟩).mpr ⟨hNode, listed_of_within hWith⟩
    have hNone := hMoved.free _ hMem
    rw [hMade.rows] at hNone
    split at hNone
    · cases hNone
    · exact hNone

/-- The row of a path once `p` has been moved to `t`. -/
def movedRow (m : Mutation) (now : Int) (p t q : Text) : Option Node :=
  if pathWithin q t = true ∧ (m.entryRow (p ++ q.drop t.length)).isSome = true then m.entryRow (p ++ q.drop t.length)
  else if pathWithin q p = true then none
  else if q ∈ ancestors t ∧ m.entryRow q = none then some (newDir now)
  else m.entryRow q

theorem movedRow_next (hT : t ≠ []) (now : Int) {suffix : Text} (hSuf : suffix = [] ∨ suffix.head? = some '/')
    (hRow : (m.entryRow (p ++ suffix)).isSome = true) :
    m.movedRow now p t (t ++ suffix) = m.entryRow (p ++ suffix) := by
  unfold movedRow
  rw [drop_left, if_pos ⟨pathWithin_append hT hSuf, hRow⟩]

theorem movedRow_other (hP : p ≠ []) (hT : t ≠ []) (now : Int) {q : Text}
    (h : ∀ r, (m.entryRow r).isSome = true → pathWithin r p = true → q ≠ nextPath p t r) :
    m.movedRow now p t q = if pathWithin q p = true then none
      else if q ∈ ancestors t ∧ m.entryRow q = none then some (newDir now) else m.entryRow q := by
  unfold movedRow
  rw [if_neg]
  rintro ⟨hWith, hRow⟩
  obtain ⟨suffix, rfl, hSuf⟩ := (pathWithin_iff hT).mp hWith
  rw [drop_left] at hRow
  exact h _ hRow (pathWithin_append hP hSuf) (nextPath_append p t suffix).symm

theorem Renamed.rows (h : Renamed now p t m later) (hKeyed : m.Keyed) (hP : p ≠ []) (hT : t ≠ []) (hLists : m.Lists p)
    (hCreates : ∀ q, m.Creates p t q → WorldSqlStore.listed p q = false) (q : Text) :
    later.entryRow q = m.movedRow now p t q := by
  obtain ⟨-, -, -, made, moved, hMade, hMoved, hRem⟩ := h
  rw [hRem.rows, hMoved.rows]
  cases hFind : (m.sources p).find? (fun entry => nextPath p t entry.path = q) with
  | some entry =>
    dsimp only
    obtain ⟨suffix, hPath, hSuf, hRow⟩ := source_within hKeyed hP hLists (mem_of_find?_eq_some hFind)
    have hNext : nextPath p t entry.path = q := by simpa using find?_some hFind
    rw [hPath, nextPath_append] at hNext
    have hSome := Option.isSome_of_eq_some hRow
    have hOut := hCreates q (.inr ⟨p ++ suffix, hSome, pathWithin_append hP hSuf, by rw [nextPath_append, hNext]⟩)
    rw [if_neg (by simp [hOut]), ← hNext, movedRow_next hT now hSuf hSome, hRow]
  | none =>
    dsimp only
    have hNoSource : ∀ r, (m.entryRow r).isSome = true → pathWithin r p = true → q ≠ nextPath p t r := by
      intro r hRow hWith hEq
      obtain ⟨node, hNode⟩ := Option.isSome_iff_exists.mp hRow
      have hMem : (⟨r, node⟩ : WorldEntry) ∈ m.sources p :=
        (mem_sources hKeyed p ⟨r, node⟩).mpr ⟨hNode, listed_of_within hWith⟩
      have hNot := find?_eq_none.mp hFind _ hMem
      exact hNot (decide_eq_true hEq.symm)
    rw [hMade.rows, movedRow_other hP hT now hNoSource]
    by_cases hWith : pathWithin q p = true
    · rw [if_pos (listed_of_within hWith), if_pos hWith]
    · rw [if_neg hWith]
      by_cases hNew : q ∈ ancestors t ∧ m.entryRow q = none
      · rw [if_neg (by simp [hCreates q (.inl hNew)])]
      · rw [if_neg hNew]
        split
        · rename_i hList
          cases hRow : m.entryRow q with
          | none => rfl
          | some node => exact absurd (hLists q (Option.isSome_of_eq_some hRow) hList) hWith
        · rfl

theorem pageable_of_subset {store after : WorldSqlStore} {path : Text} (h : store.Pageable path)
    (hSub : ∀ row ∈ after.selected path, row ∈ store.selected path) : after.Pageable path := by
  rintro row hRow ⟨other, hOther, hLess⟩
  exact h row (hSub row hRow) ⟨other, hSub other hOther, hLess⟩

theorem rename_goes (hKeyed : m.Keyed) (hP : isNormalPath p = true) (hT : isNormalPath t = true)
    (hAbsent : m.entryRow t = none) (hOut : pathWithin t p = false) (hFree : m.RenameFree p t)
    (hPage : m.store.Pageable p) (hLists : m.Lists p)
    (hEnd : ∀ moved : Mutation, moved.Keyed →
      (∀ q, moved.entryRow q = m.entryRow q ∨ m.Creates p t q) → moved.store.Pageable p) :
    ∃ later, m.rename now p t = (.ok (), later) := by
  have hPath := ne_nil_of_isNormal hP
  obtain ⟨found, hFound, hFoundIn⟩ := hFree.found
  obtain ⟨node, hNode⟩ := Option.isSome_iff_exists.mp hFound
  have hFoundMem : (⟨found, node⟩ : WorldEntry) ∈ m.sources p :=
    (mem_sources hKeyed p ⟨found, node⟩).mpr ⟨hNode, listed_of_within hFoundIn⟩
  have hSome : m.sources p ≠ [] := ne_nil_of_mem hFoundMem
  obtain ⟨made, hParents⟩ := ensureParents_goes now (nodup_ancestors t) hFree.dirs
  have hMade := ensureParents_ok now (nodup_ancestors t) (fun a hA => ancestors_ne_nil hT hA) hKeyed hParents
  have hTargets : ∀ entry ∈ m.sources p, made.entryRow (nextPath p t entry.path) = none := by
    intro entry hEnt
    obtain ⟨suffix, hAt, hSuf, hRow⟩ := source_within hKeyed hPath hLists hEnt
    have hTgt := hFree.free _ (Option.isSome_of_eq_some hRow) (pathWithin_append hPath hSuf)
    rw [hAt, hMade.rows, if_neg, hTgt]
    rintro ⟨hMem, -⟩
    rw [nextPath_append] at hMem
    exact not_mem_ancestors_append t suffix hMem
  have hApart : ((m.sources p).map (fun entry => nextPath p t entry.path)).Nodup := by
    have hPaths : ((m.sources p).map WorldEntry.path).Nodup := by
      have hKeys := (WorldSqlStore.rising_selected hKeyed p).imp (fun hLt => ne_of_lt hLt)
      unfold sources
      rw [map_map]
      exact pairwise_map.mpr hKeys
    refine pairwise_map.mpr ((pairwise_map.mp hPaths).imp_of_mem ?_)
    intro a b hA hB hOther hEq
    obtain ⟨suffixA, hAtA, -⟩ := source_within hKeyed hPath hLists hA
    obtain ⟨suffixB, hAtB, -⟩ := source_within hKeyed hPath hLists hB
    rw [hAtA, hAtB, nextPath_append, nextPath_append] at hEq
    exact hOther (by rw [hAtA, hAtB, append_cancel_left hEq])
  obtain ⟨moved, hMoves⟩ := moveEntries_goes (hMade.kept hKeyed) hTargets hApart
  have hMoved := moveEntries_ok (ne_nil_of_isNormal hT) hMade.keyed (hMade.kept hKeyed) hMoves
  have hEq : ∀ q, moved.entryRow q = m.entryRow q ∨ m.Creates p t q := by
    intro q
    rw [hMoved.rows]
    cases hFind : (m.sources p).find? (fun entry => nextPath p t entry.path = q) with
    | some entry =>
      obtain ⟨suffix, hAt, hSuf, hRow⟩ := source_within hKeyed hPath hLists (mem_of_find?_eq_some hFind)
      have hNext : nextPath p t entry.path = q := by simpa using find?_some hFind
      exact .inr (.inr ⟨entry.path, by rw [hAt, hRow]; rfl, hAt ▸ pathWithin_append hPath hSuf, hNext.symm⟩)
    | none =>
      dsimp only
      rw [hMade.rows]
      by_cases hNew : q ∈ ancestors t ∧ m.entryRow q = none
      · exact .inr (.inl hNew)
      · rw [if_neg hNew]
        exact .inl rfl
  have hStill : (moved.entryRow found).isSome = true := by
    have hRow := hMade.kept hKeyed _ hFoundMem
    rw [hMoved.rows]
    cases hFind : (m.sources p).find? (fun entry => nextPath p t entry.path = found) with
    | some entry => rfl
    | none => exact Option.isSome_of_eq_some hRow
  obtain ⟨later, hRemove⟩ : ∃ later, moved.remove p true = (.ok (), later) :=
    remove_goes hMoved.keyed hP (hEnd moved hMoved.keyed hEq) ⟨found, hStill, listed_of_within hFoundIn⟩
      (fun hPlain => by cases hPlain)
  refine ⟨later, ?_⟩
  unfold rename
  rw [WorldSqlStore.normalizeWorldPath_of_normal hP, WorldSqlStore.normalizeWorldPath_of_normal hT]
  dsimp only
  rw [if_neg (by simp [hFree.stored]), if_neg (by simp [hOut]),
    WorldSqlStore.allEntries_of_pageable hKeyed hP hPage]
  dsimp only
  rw [show (m.store.selected p).map WorldSqlStore.rowEntry = m.sources p from rfl, if_neg hSome,
    if_neg (Option.not_isSome_iff_eq_none.mpr hAbsent), hParents]
  dsimp only
  rw [hMoves]
  exact hRemove

theorem pageable_moved (hKeyed : m.Keyed) (hPage : m.store.Pageable p)
    (hCreates : ∀ q, m.Creates p t q → WorldSqlStore.listed p q = false) {moved : Mutation} (hMoved : moved.Keyed)
    (hEq : ∀ q, moved.entryRow q = m.entryRow q ∨ m.Creates p t q) : moved.store.Pageable p := by
  refine pageable_of_subset hPage (fun row hRow => ?_)
  obtain ⟨hNode, hList⟩ := (WorldSqlStore.mem_selected hMoved p row.1 row.2).mp hRow
  refine (WorldSqlStore.mem_selected hKeyed p row.1 row.2).mpr ⟨?_, hList⟩
  rcases hEq row.1 with hOld | hNew
  · exact hOld.symm.trans hNode
  · rw [hCreates row.1 hNew] at hList
    cases hList

end Mutation

end Stella.World
