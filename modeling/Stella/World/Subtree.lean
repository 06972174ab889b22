import Stella.World.Listing

/-! # The subtree under a path

`list`, `remove` and `rename` choose their entries with a `LIKE` pattern made from the path.
-/

namespace Stella.World

open List

namespace Mutation

variable {m : Mutation}

abbrev entryRow (m : Mutation) (path : Text) : Option Node := m.store.entryRow path

abbrev Keyed (m : Mutation) : Prop := m.store.live.dirents.Keyed

theorem entryRow_upsert (m : Mutation) (path q : Text) (node : Node) :
    (m.upsert path node).entryRow q = if q = path then some node else m.entryRow q := by
  change InsertionMap.get? (m.store.live.dirents.set path node) q = _
  split
  · rename_i hEq
    rw [hEq, InsertionMap.get?_set_self]
  · rename_i hOther
    exact InsertionMap.get?_set_of_ne _ _ (Ne.symm hOther)

theorem entryRow_delete (m : Mutation) (path q : Text) :
    (m.delete path).entryRow q = if q = path then none else m.entryRow q := by
  change InsertionMap.get? (m.store.live.dirents.erase path) q = _
  split
  · rename_i hEq
    rw [hEq, InsertionMap.get?_erase_self]
  · rename_i hOther
    exact InsertionMap.get?_erase_of_ne _ (Ne.symm hOther)

variable {path : Text}

theorem Keyed.upsert (h : m.Keyed) (hPath : path ≠ []) (node : Node) : (m.upsert path node).Keyed where
  nodup := InsertionMap.nodup_keys_set h.nodup path node
  named := fun q hMem => by
    rcases InsertionMap.mem_keys_set hMem with rfl | hOld
    · exact hPath
    · exact h.named q hOld

theorem Keyed.delete (h : m.Keyed) (path : Text) : (m.delete path).Keyed where
  nodup := InsertionMap.nodup_keys_erase h.nodup path
  named := fun q hMem => h.named q (InsertionMap.mem_keys_erase hMem)

theorem entryRow_deleteAll (entries : List WorldEntry) (m : Mutation) (q : Text) :
    (entries.foldl (fun m entry => m.delete entry.path) m).entryRow q =
      if q ∈ entries.map WorldEntry.path then none else m.entryRow q := by
  induction entries generalizing m with
  | nil => simp
  | cons entry entries ih =>
    rw [foldl_cons, ih, entryRow_delete, map_cons]
    by_cases hHead : q = entry.path
    · simp [hHead]
    · simp [hHead]

theorem Keyed.deleteAll (h : m.Keyed) (entries : List WorldEntry) :
    (entries.foldl (fun m entry => m.delete entry.path) m).Keyed := by
  induction entries generalizing m with
  | nil => exact h
  | cons entry entries ih => exact ih (h.delete entry.path)

variable {isRecursive : Bool} {later : Mutation}

theorem remove_error {input : Text} {e : WorldError}
    (h : m.remove input isRecursive = (.error e, later)) : later = m := by
  unfold remove at h
  split at h
  · exact (Prod.mk.inj h).2.symm
  · split at h
    · exact (Prod.mk.inj h).2.symm
    · split at h
      · exact (Prod.mk.inj h).2.symm
      · split at h
        · exact (Prod.mk.inj h).2.symm
        · cases (Prod.mk.inj h).1

structure Removed (m : Mutation) (path : Text) (isRecursive : Bool) (later : Mutation) : Prop where
  some : ∃ q, (m.entryRow q).isSome = true ∧ WorldSqlStore.listed path q = true
  alone : isRecursive = false → ∀ q, (m.entryRow q).isSome = true → WorldSqlStore.listed path q = true → q = path
  rows : ∀ q, later.entryRow q = if WorldSqlStore.listed path q = true then none else m.entryRow q
  keyed : later.Keyed

theorem remove_ok (hKeyed : m.Keyed) (hPath : isNormalPath path = true)
    (h : m.remove path isRecursive = (.ok (), later)) : Removed m path isRecursive later := by
  unfold remove at h
  rw [WorldSqlStore.normalizeWorldPath_of_normal hPath] at h
  dsimp only at h
  cases hAll : m.store.allEntries path with
  | error e =>
    rw [hAll] at h
    cases (Prod.mk.inj h).1
  | ok entries =>
    rw [hAll] at h
    dsimp only at h
    have hEntries := WorldSqlStore.allEntries_eq hKeyed hPath hAll
    have hMem : ∀ q, q ∈ entries.map WorldEntry.path ↔
        (m.entryRow q).isSome = true ∧ WorldSqlStore.listed path q = true := by
      intro q
      rw [hEntries, map_map, mem_map, Option.isSome_iff_exists]
      constructor
      · rintro ⟨row, hRow, rfl⟩
        have hListed := (WorldSqlStore.mem_selected hKeyed path row.1 row.2).mp hRow
        exact ⟨⟨row.2, hListed.1⟩, hListed.2⟩
      · rintro ⟨⟨node, hNode⟩, hListed⟩
        exact ⟨(q, node), (WorldSqlStore.mem_selected hKeyed path q node).mpr ⟨hNode, hListed⟩, rfl⟩
    split at h
    · cases (Prod.mk.inj h).1
    · rename_i hSome
      split at h
      · cases (Prod.mk.inj h).1
      · rename_i hAlone
        obtain rfl := (Prod.mk.inj h).2
        refine ⟨?_, fun hPlain q hRow hListed => ?_, fun q => ?_, hKeyed.deleteAll _⟩
        · obtain ⟨entry, hEntry⟩ := exists_mem_of_ne_nil entries hSome
          exact ⟨entry.path, (hMem entry.path).mp (mem_map_of_mem hEntry)⟩
        · obtain ⟨entry, hEntry, rfl⟩ := mem_map.mp ((hMem q).mpr ⟨hRow, hListed⟩)
          by_contra hOther
          exact hAlone ⟨hPlain, any_eq_true.mpr ⟨entry, hEntry, by simpa using hOther⟩⟩
        · rw [entryRow_deleteAll]
          have hSorted : q ∈ ((entries.insertionSort (fun a b => utf16Length b.path ≤ utf16Length a.path)).map
              WorldEntry.path) ↔ q ∈ entries.map WorldEntry.path :=
            ((perm_insertionSort _ entries).map WorldEntry.path).mem_iff
          simp only [hSorted, hMem]
          by_cases hListed : WorldSqlStore.listed path q = true
          · cases hRow : m.entryRow q <;> simp [hListed]
          · simp [hListed]

theorem remove_goes (hKeyed : m.Keyed) (hPath : isNormalPath path = true)
    (hPage : m.store.Pageable path)
    (hSome : ∃ q, (m.entryRow q).isSome = true ∧ WorldSqlStore.listed path q = true)
    (hAlone : isRecursive = false → ∀ q, (m.entryRow q).isSome = true → WorldSqlStore.listed path q = true → q = path) :
    ∃ later, m.remove path isRecursive = (.ok (), later) := by
  have hRows : ∀ row ∈ m.store.selected path, (m.entryRow row.1).isSome = true ∧
      WorldSqlStore.listed path row.1 = true := by
    intro row hRow
    have hList := (WorldSqlStore.mem_selected hKeyed path row.1 row.2).mp hRow
    exact ⟨Option.isSome_of_eq_some hList.1, hList.2⟩
  unfold remove
  rw [WorldSqlStore.normalizeWorldPath_of_normal hPath]
  dsimp only
  rw [WorldSqlStore.allEntries_of_pageable hKeyed hPath hPage]
  dsimp only
  rw [if_neg, if_neg]
  · exact ⟨_, rfl⟩
  · rintro ⟨hPlain, hAny⟩
    obtain ⟨entry, hEnt, hOther⟩ := any_eq_true.mp hAny
    obtain ⟨row, hRow, rfl⟩ := mem_map.mp hEnt
    exact (of_decide_eq_true hOther) (hAlone hPlain row.1 (hRows row hRow).1 (hRows row hRow).2)
  · intro hNone
    obtain ⟨q, hRow, hList⟩ := hSome
    obtain ⟨node, hNode⟩ := Option.isSome_iff_exists.mp hRow
    have hMem := (WorldSqlStore.mem_selected hKeyed path q node).mpr ⟨hNode, hList⟩
    rw [map_eq_nil_iff.mp hNone] at hMem
    cases hMem

/-- The directory `ensureParents` makes. -/
def newDir (now : Int) : Node := ⟨.dir, 0o755, now, 0, none, none⟩

structure Parented (now : Int) (missing : List Text) (m later : Mutation) : Prop where
  dirs : ∀ a ∈ missing, ∀ node, m.entryRow a = some node → node.kind = .dir
  rows : ∀ q, later.entryRow q = if q ∈ missing ∧ m.entryRow q = none then some (newDir now) else m.entryRow q
  keyed : later.Keyed

variable {parents : List Text}

theorem ensureParents_ok (now : Int) (hNd : parents.Nodup) (hNamed : ∀ a ∈ parents, a ≠ [])
    {m : Mutation} (hKeyed : m.Keyed) (h : ensureParents now parents m = (.ok (), later)) :
    Parented now parents m later := by
  induction parents generalizing m with
  | nil =>
    obtain rfl := (Prod.mk.inj h).2
    exact ⟨by simp, by simp, hKeyed⟩
  | cons current rest ih =>
    obtain ⟨hCur, hRest⟩ := nodup_cons.mp hNd
    rw [forall_mem_cons] at hNamed
    unfold ensureParents at h
    cases hRow : m.store.entryRow current with
    | some node =>
      rw [hRow] at h
      dsimp only at h
      split at h
      · cases (Prod.mk.inj h).1
      · rename_i hDir
        obtain ⟨hDirs, hRows, hLater⟩ := ih hRest hNamed.2 hKeyed h
        refine ⟨?_, fun q => ?_, hLater⟩
        · rw [forall_mem_cons]
          refine ⟨fun other hOther => ?_, hDirs⟩
          obtain rfl := Option.some.inj (hRow.symm.trans hOther)
          exact not_not.mp hDir
        · rw [hRows]
          by_cases hEq : q = current
          · subst hEq
            simp [hRow]
          · simp [hEq]
    | none =>
      rw [hRow] at h
      dsimp only at h
      obtain ⟨hDirs, hRows, hLater⟩ := ih hRest hNamed.2 (hKeyed.upsert hNamed.1 _) h
      refine ⟨?_, fun q => ?_, hLater⟩
      · rw [forall_mem_cons]
        refine ⟨fun node hNode => absurd (hRow.symm.trans hNode) (by simp), fun a hA node hNode => ?_⟩
        have hOther : a ≠ current := fun hEq => hCur (hEq ▸ hA)
        exact hDirs a hA node (by rw [entryRow_upsert, if_neg hOther, hNode])
      · have hNone : m.entryRow current = none := hRow
        rw [hRows, entryRow_upsert]
        by_cases hEq : q = current
        · subst hEq
          simp [hCur, hNone, newDir]
        · simp [hEq]

theorem ensureParents_goes (now : Int) (hNd : parents.Nodup) {m : Mutation}
    (hDirs : ∀ a ∈ parents, ∀ node, m.entryRow a = some node → node.kind = .dir) :
    ∃ later, ensureParents now parents m = (.ok (), later) := by
  induction parents generalizing m with
  | nil => exact ⟨m, rfl⟩
  | cons current rest ih =>
    obtain ⟨hCur, hRest⟩ := nodup_cons.mp hNd
    rw [forall_mem_cons] at hDirs
    unfold ensureParents
    cases hRow : m.store.entryRow current with
    | some node =>
      dsimp only
      rw [if_neg (not_not.mpr (hDirs.1 node hRow))]
      exact ih hRest hDirs.2
    | none =>
      dsimp only
      refine ih hRest (fun a hA node hNode => hDirs.2 a hA node ?_)
      have hOther : a ≠ current := fun hEq => hCur (hEq ▸ hA)
      rwa [entryRow_upsert, if_neg hOther] at hNode

def nextPath (source dest path : Text) : Text := dest ++ sliceUnits (utf16Length source) path

structure Moved (source dest : Text) (entries : List WorldEntry) (m later : Mutation) : Prop where
  free : ∀ entry ∈ entries, m.entryRow (nextPath source dest entry.path) = none
  rows : ∀ q, later.entryRow q =
    match entries.find? (fun entry => nextPath source dest entry.path = q) with
    | some entry => some entry.node
    | none => m.entryRow q
  keyed : later.Keyed

variable {source dest : Text} {entries : List WorldEntry}

theorem moveEntries_ok (hDest : dest ≠ []) {m : Mutation}
    (hKeyed : m.Keyed) (hRows : ∀ entry ∈ entries, m.entryRow entry.path = some entry.node)
    (h : moveEntries source dest entries m = (.ok (), later)) : Moved source dest entries m later := by
  induction entries generalizing m with
  | nil =>
    obtain rfl := (Prod.mk.inj h).2
    exact ⟨by simp, by simp, hKeyed⟩
  | cons entry rest ih =>
    rw [forall_mem_cons] at hRows
    unfold moveEntries at h
    rw [show m.store.entryRow entry.path = some entry.node from hRows.1] at h
    dsimp only at h
    split at h
    · cases (Prod.mk.inj h).1
    · rename_i hFree
      rw [InsertionMap.has_eq_isSome, Option.not_isSome_iff_eq_none] at hFree
      have hNone : m.entryRow (nextPath source dest entry.path) = none := hFree
      have hNext : nextPath source dest entry.path ≠ [] := fun hNil => hDest (append_eq_nil_iff.mp hNil).1
      have hKept : ∀ other ∈ rest,
          (m.upsert (nextPath source dest entry.path) entry.node).entryRow other.path = some other.node := by
        intro other hOther
        have hRow := hRows.2 other hOther
        rw [entryRow_upsert, if_neg]
        · exact hRow
        · intro hEq
          rw [hEq, hNone] at hRow
          cases hRow
      obtain ⟨hFrees, hAfter, hLater⟩ := ih (hKeyed.upsert hNext _) hKept h
      refine ⟨?_, fun q => ?_, hLater⟩
      · rw [forall_mem_cons]
        refine ⟨hNone, fun other hOther => ?_⟩
        have hOtherFree := hFrees other hOther
        rw [entryRow_upsert] at hOtherFree
        split at hOtherFree
        · cases hOtherFree
        · exact hOtherFree
      · rw [hAfter, find?_cons]
        by_cases hEq : nextPath source dest entry.path = q
        · have hOthers : rest.find? (fun other => nextPath source dest other.path = q) = none := by
            rw [find?_eq_none]
            intro other hOther hTaken
            have hOtherFree := hFrees other hOther
            rw [of_decide_eq_true hTaken, entryRow_upsert, if_pos hEq.symm] at hOtherFree
            cases hOtherFree
          rw [hOthers, entryRow_upsert, if_pos hEq.symm]
          simp [hEq]
        · rw [entryRow_upsert, if_neg (Ne.symm hEq)]
          simp [hEq]

theorem moveEntries_goes {m : Mutation}
    (hRows : ∀ entry ∈ entries, m.entryRow entry.path = some entry.node)
    (hFree : ∀ entry ∈ entries, m.entryRow (nextPath source dest entry.path) = none)
    (hApart : (entries.map (fun entry => nextPath source dest entry.path)).Nodup) :
    ∃ later, moveEntries source dest entries m = (.ok (), later) := by
  induction entries generalizing m with
  | nil => exact ⟨m, rfl⟩
  | cons entry rest ih =>
    rw [forall_mem_cons] at hRows hFree
    obtain ⟨hHead, hRest⟩ := nodup_cons.mp hApart
    unfold moveEntries
    rw [show m.store.entryRow entry.path = some entry.node from hRows.1]
    dsimp only
    rw [if_neg]
    · have hOther : ∀ other ∈ rest, nextPath source dest other.path ≠ nextPath source dest entry.path :=
        fun other hMem hEq => hHead (mem_map.mpr ⟨other, hMem, hEq⟩)
      refine ih (fun other hMem => ?_) (fun other hMem => ?_) hRest
      · have hRow := hRows.2 other hMem
        change (m.upsert (nextPath source dest entry.path) entry.node).entryRow other.path = _
        rw [entryRow_upsert, if_neg]
        · exact hRow
        · intro hEq
          rw [hEq, hFree.1] at hRow
          cases hRow
      · change (m.upsert (nextPath source dest entry.path) entry.node).entryRow _ = _
        rw [entryRow_upsert, if_neg (hOther other hMem)]
        exact hFree.2 other hMem
    · have hNone := hFree.1
      change ¬ InsertionMap.has m.store.live.dirents (nextPath source dest entry.path) = true
      rw [InsertionMap.has_eq_isSome]
      change ¬ (m.entryRow (nextPath source dest entry.path)).isSome = true
      simp [hNone]

end Mutation

end Stella.World
