import Stella.World.Touches

/-! # Operations that keep to a subtree

The store's operations on a path, as a caller meets them: `list` over all its pages, `remove` and
`rename`.
-/

namespace Stella.World

namespace WorldSqlStore

variable {store : WorldSqlStore} {now : Int} {p t : Text}

abbrev start (store : WorldSqlStore) : Mutation := ⟨store, []⟩

theorem mutate_dirents {α : Type} (operation : Mutation → Except WorldError α × Mutation) :
    (store.mutate operation).2.live.dirents = (operation store.start).2.store.live.dirents := by
  unfold mutate
  split
  · rename_i hRes
    rw [hRes]
  · rename_i hRes
    rw [hRes]
    split <;> rfl

theorem mutate_entryRow {α : Type} (operation : Mutation → Except WorldError α × Mutation) (q : Text) :
    (store.mutate operation).2.entryRow q = (operation store.start).2.entryRow q :=
  congrArg (InsertionMap.get? · q) (mutate_dirents operation)

theorem mutate_ok_iff {α : Type} (operation : Mutation → Except WorldError α × Mutation) :
    (∃ done, (store.mutate operation).1 = .ok done) ↔ ∃ value later, operation store.start = (.ok value, later) := by
  unfold mutate
  cases hRes : operation store.start with
  | mk result later =>
    cases result with
    | error e => simp
    | ok value =>
      dsimp only
      split <;> simp

def subtree (store : WorldSqlStore) (p : Text) : List WorldEntry :=
  ((store.live.dirents.filter (fun row => pathWithin row.1 p)).insertionSort (fun a b => a.1 ≤ b.1)).map rowEntry

structure RemovesSubtree (store : WorldSqlStore) (p : Text) : Prop where
  all : ∀ q, (store.remove p true).2.entryRow q = if pathWithin q p = true then none else store.entryRow q
  one : (∃ done, (store.remove p false).1 = .ok done) ↔
    (store.entryRow p).isSome = true ∧ ∀ q, (store.entryRow q).isSome = true → pathWithin q p = true → q = p
  only : (∃ done, (store.remove p false).1 = .ok done) →
    ∀ q, (store.remove p false).2.entryRow q = if q = p then none else store.entryRow q

structure RenamesSubtree (store : WorldSqlStore) (now : Int) (p t : Text) : Prop where
  goes : store.start.RenameFree p t → ∃ done, (store.rename now p t).1 = .ok done
  moves : (∃ done, (store.rename now p t).1 = .ok done) →
    ∀ q, (store.rename now p t).2.entryRow q = store.start.movedRow now p t q

/-- All pages of a listing, a removal and a rename touch the subtree of `p` and nothing else. -/
structure TouchesSubtree (store : WorldSqlStore) (now : Int) (p t : Text) : Prop where
  lists : ∀ limit, store.pages p limit (store.live.dirents.length + 1) none = .ok (store.subtree p)
  removes : p ≠ [] → RemovesSubtree store p
  renames : p ≠ [] → store.entryRow t = none → pathWithin t p = false → RenamesSubtree store now p t

/-- The pattern of `p` selects no entry outside the subtree, and none that the rename to `t` makes. -/
structure SubtreeOnly (store : WorldSqlStore) (p t : Text) : Prop where
  normal : ∀ q, (store.entryRow q).isSome = true → pathWithin q p = true →
    (∃ r, (store.entryRow r).isSome = true ∧ pathWithin r p = true ∧ q < r) → isNormalPath q = true
  lists : store.start.Lists p
  creates : p ≠ [] → store.entryRow t = none → pathWithin t p = false → store.start.RenameFree p t →
    ∀ q, store.start.Creates p t q → listed p q = false

section

variable (hKeyed : store.live.dirents.Keyed)
include hKeyed

theorem mem_subtree (p : Text) (entry : WorldEntry) :
    entry ∈ store.subtree p ↔ store.entryRow entry.path = some entry.node ∧ pathWithin entry.path p = true := by
  unfold subtree
  rw [List.mem_map]
  constructor
  · rintro ⟨row, hRow, rfl⟩
    rw [List.mem_insertionSort, List.mem_filter] at hRow
    exact ⟨(mem_dirents_iff hKeyed row.1 row.2).mp hRow.1, hRow.2⟩
  · rintro ⟨hRow, hWith⟩
    refine ⟨(entry.path, entry.node), ?_, rfl⟩
    rw [List.mem_insertionSort, List.mem_filter]
    exact ⟨(mem_dirents_iff hKeyed _ _).mpr hRow, hWith⟩

theorem selected_eq_subtree (hLists : store.start.Lists p) :
    (store.selected p).map rowEntry = store.subtree p := by
  unfold selected subtree
  congr 2
  refine List.filter_congr (fun row hRow => ?_)
  rw [Bool.eq_iff_iff]
  have hSome := Option.isSome_of_eq_some ((mem_dirents_iff hKeyed row.1 row.2).mp hRow)
  exact ⟨hLists row.1 hSome, listed_of_within⟩

theorem pageable_iff (hLists : store.start.Lists p) :
    store.Pageable p ↔ ∀ q, (store.entryRow q).isSome = true → pathWithin q p = true →
      (∃ r, (store.entryRow r).isSome = true ∧ pathWithin r p = true ∧ q < r) → isNormalPath q = true := by
  constructor
  · rintro hPage q hRow hWith ⟨r, hOther, hOtherWithin, hLess⟩
    obtain ⟨node, hNode⟩ := Option.isSome_iff_exists.mp hRow
    obtain ⟨other, hOtherNode⟩ := Option.isSome_iff_exists.mp hOther
    exact hPage (q, node) ((mem_selected hKeyed p q node).mpr ⟨hNode, listed_of_within hWith⟩)
      ⟨(r, other), (mem_selected hKeyed p r other).mpr ⟨hOtherNode, listed_of_within hOtherWithin⟩, hLess⟩
  · rintro hNorm row hRow ⟨other, hOther, hLess⟩
    obtain ⟨hNode, hList⟩ := (mem_selected hKeyed p row.1 row.2).mp hRow
    obtain ⟨hOtherNode, hOtherListed⟩ := (mem_selected hKeyed p other.1 other.2).mp hOther
    have hSome := Option.isSome_of_eq_some hNode
    have hOtherSome := Option.isSome_of_eq_some hOtherNode
    exact hNorm row.1 hSome (hLists _ hSome hList) ⟨other.1, hOtherSome, hLists _ hOtherSome hOtherListed, hLess⟩

theorem removesSubtree (hP : isNormalPath p = true) (hPage : store.Pageable p)
    (hLists : store.start.Lists p) : RemovesSubtree store p where
  all := fun q => by
    unfold remove
    rw [mutate_entryRow]
    cases hRes : Mutation.remove p true store.start with
    | mk result later =>
      cases result with
      | ok _ =>
        rw [(Mutation.remove_ok hKeyed hP hRes).rows]
        by_cases hWith : pathWithin q p = true
        · rw [if_pos (listed_of_within hWith), if_pos hWith]
        · rw [if_neg hWith]
          split
          · rename_i hList
            by_contra hRow
            exact hWith (hLists q (Option.isSome_iff_ne_none.mpr (Ne.symm hRow)) hList)
          · rfl
      | error e =>
        rw [Mutation.remove_error hRes]
        split
        · rename_i hWith
          by_contra hRow
          obtain ⟨after, hAfter⟩ : ∃ after, store.start.remove p true = (.ok (), after) :=
            Mutation.remove_goes hKeyed hP hPage
              ⟨q, Option.isSome_iff_ne_none.mpr hRow, listed_of_within hWith⟩ (fun hPlain => by cases hPlain)
          rw [hRes] at hAfter
          cases (Prod.mk.inj hAfter).1
        · rfl
  one := by
    unfold remove
    rw [mutate_ok_iff]
    constructor
    · rintro ⟨⟨⟩, later, hRes⟩
      obtain ⟨⟨q, hRow, hList⟩, hAlone, -, -⟩ := Mutation.remove_ok hKeyed hP hRes
      have hOwn := hAlone rfl q hRow hList
      subst hOwn
      exact ⟨hRow, fun r hOther hWith => hAlone rfl r hOther (listed_of_within hWith)⟩
    · rintro ⟨hRow, hAlone⟩
      have hOwn : listed p p = true := listed_of_within (by simp [pathWithin])
      obtain ⟨later, hRes⟩ : ∃ later, store.start.remove p false = (.ok (), later) :=
        Mutation.remove_goes hKeyed hP hPage ⟨p, hRow, hOwn⟩
          (fun _ q hOther hList => hAlone q hOther (hLists q hOther hList))
      exact ⟨(), later, hRes⟩
  only := by
    unfold remove
    rw [mutate_ok_iff]
    rintro ⟨⟨⟩, later, hRes⟩ q
    rw [mutate_entryRow, hRes, (Mutation.remove_ok hKeyed hP hRes).rows]
    by_cases hOwn : q = p
    · rw [if_pos hOwn, if_pos (listed_of_within (by simp [pathWithin, hOwn]))]
    · rw [if_neg hOwn]
      split
      · rename_i hList
        by_contra hRow
        exact hOwn ((Mutation.remove_ok hKeyed hP hRes).alone rfl q (Option.isSome_iff_ne_none.mpr (Ne.symm hRow)) hList)
      · rfl

theorem renamesSubtree (hP : isNormalPath p = true) (hT : isNormalPath t = true)
    (hAbsent : store.entryRow t = none) (hOut : pathWithin t p = false) (hPage : store.Pageable p)
    (hLists : store.start.Lists p)
    (hCreates : store.start.RenameFree p t → ∀ q, store.start.Creates p t q → listed p q = false) :
    RenamesSubtree store now p t where
  goes := fun hFree => by
    unfold rename
    rw [mutate_ok_iff]
    obtain ⟨later, hRes⟩ : ∃ later, store.start.rename now p t = (.ok (), later) :=
      Mutation.rename_goes hKeyed hP hT hAbsent hOut hFree hPage hLists
        (fun _ hMoved => Mutation.pageable_moved hKeyed hPage (hCreates hFree) hMoved)
    exact ⟨(), later, hRes⟩
  moves := by
    unfold rename
    rw [mutate_ok_iff]
    rintro ⟨⟨⟩, later, hRes⟩ q
    rw [mutate_entryRow, hRes]
    have hRenamed := Mutation.rename_ok hKeyed hP hT hRes
    exact hRenamed.rows hKeyed (ne_nil_of_normal hP) (ne_nil_of_normal hT) hLists
      (hCreates (hRenamed.renameFree hKeyed (ne_nil_of_normal hP) hLists)) q

end

/-- The operations on a path keep to its subtree exactly when its pattern does. -/
theorem touchesSubtree_iff (hKeyed : store.live.dirents.Keyed) (hP : p = [] ∨ isNormalPath p = true)
    (hT : isNormalPath t = true) : TouchesSubtree store now p t ↔ SubtreeOnly store p t := by
  have hUnder : normalizeWorldPath p true = .ok p := by
    unfold normalizeWorldPath
    rcases hP with rfl | hNormal
    · rfl
    · simp [hNormal]
  constructor
  · rintro ⟨hPages, -, hRenames⟩
    have hSelected := (pages_all hKeyed hUnder 1).1 _ (hPages 1)
    have hLists : store.start.Lists p := by
      intro q hRow hListed
      obtain ⟨node, hNode⟩ := Option.isSome_iff_exists.mp hRow
      have hMem : (⟨q, node⟩ : WorldEntry) ∈ (store.selected p).map rowEntry :=
        List.mem_map_of_mem ((mem_selected hKeyed p q node).mpr ⟨hNode, hListed⟩)
      rw [← hSelected] at hMem
      exact ((mem_subtree hKeyed p _).mp hMem).2
    refine ⟨(pageable_iff hKeyed hLists).mp (pageable_of_pages hKeyed hUnder (hPages 1)), hLists, ?_⟩
    intro hPath hAbsent hOut hFree q hCreates
    obtain ⟨hGoes, hMoves⟩ := hRenames hPath hAbsent hOut
    have hDone := hGoes hFree
    have hRow := hMoves hDone q
    unfold rename at hDone hRow
    rw [mutate_ok_iff] at hDone
    obtain ⟨⟨⟩, later, hResult⟩ := hDone
    rw [mutate_entryRow, hResult] at hRow
    obtain ⟨-, -, -, made, moved, -, -, hRemoved⟩ := Mutation.rename_ok hKeyed (hP.resolve_left hPath) hT hResult
    rw [Bool.eq_false_iff]
    intro hListed
    rw [hRemoved.rows, if_pos hListed] at hRow
    have hTarget := ne_nil_of_normal hT
    rcases hCreates with ⟨hParent, hNone⟩ | ⟨r, hSource, hWithin, rfl⟩
    · have hNew : ∀ r, (store.start.entryRow r).isSome = true → pathWithin r p = true →
          q ≠ Mutation.nextPath p t r := by
        intro r _ hWithin hEq
        obtain ⟨suffix, rfl, -⟩ := (pathWithin_iff hPath).mp hWithin
        rw [Mutation.nextPath_append] at hEq
        exact not_mem_ancestors_append t suffix (hEq ▸ hParent)
      rw [Mutation.movedRow_other hPath hTarget now hNew, not_within_of_ancestor hPath hOut hParent,
        if_neg (by simp), if_pos ⟨hParent, hNone⟩] at hRow
      cases hRow
    · obtain ⟨suffix, rfl, hSuffix⟩ := (pathWithin_iff hPath).mp hWithin
      rw [Mutation.nextPath_append, Mutation.movedRow_next hTarget now hSuffix hSource] at hRow
      rw [← hRow] at hSource
      cases hSource
  · rintro ⟨hNormal, hLists, hCreates⟩
    have hPageable := (pageable_iff hKeyed hLists).mpr hNormal
    refine ⟨fun limit => ?_, fun hPath => ?_, fun hPath hAbsent hOut => ?_⟩
    · rw [(pages_all hKeyed hUnder limit).2 hPageable, selected_eq_subtree hKeyed hLists]
    · exact removesSubtree hKeyed (hP.resolve_left hPath) hPageable hLists
    · exact renamesSubtree hKeyed (hP.resolve_left hPath) hT hAbsent hOut hPageable hLists
        (hCreates hPath hAbsent hOut)

/-- A world with the directories `a_b` and `axb`, and a file in the second. -/
def likenessWorld : WorldSqlStore where
  live :=
    { manifestId := .live 0
      parentManifestId := none
      historyCursor := none
      revision := some 1
      dirents := [("a_b".toList, ⟨.dir, 0o755, 0, 0, none, none⟩), ("axb".toList, ⟨.dir, 0o755, 0, 0, none, none⟩),
        ("axb/f".toList, ⟨.file, 0o644, 0, 3, some "abc", none⟩)]
      tombstones := [] }
  others := []
  revision := 1
  changes := []
  changeFloor := 0
  blobs := [("abc", ⟨3, .sqlite⟩)]
  pins := []
  serial := 1

theorem likenessWorld_keyed : likenessWorld.live.dirents.Keyed := ⟨by decide, by decide⟩

theorem likenessWorld_rows {q : Text} (h : (likenessWorld.entryRow q).isSome = true) :
    q ∈ ["a_b".toList, "axb".toList, "axb/f".toList] := InsertionMap.mem_keys_iff.mpr h

theorem likenessWorld_fileOnly : SubtreeOnly likenessWorld "axb/f".toList "axb/g".toList where
  normal := fun q hRow _ _ => by
    have hAll : ∀ q ∈ ["a_b".toList, "axb".toList, "axb/f".toList], isNormalPath q = true := by decide
    exact hAll q (likenessWorld_rows hRow)
  lists := fun q hRow hList => by
    have hAll : ∀ q ∈ ["a_b".toList, "axb".toList, "axb/f".toList], listed "axb/f".toList q = true →
        pathWithin q "axb/f".toList = true := by decide
    exact hAll q (likenessWorld_rows hRow) hList
  creates := fun _ _ _ _ q hCreates => by
    rcases hCreates with ⟨hParent, hNone⟩ | ⟨r, hRow, hWith, rfl⟩
    · have hAll : ∀ q ∈ ancestors "axb/g".toList, likenessWorld.entryRow q ≠ none := by decide
      exact absurd hNone (hAll q hParent)
    · have hAll : ∀ r ∈ ["a_b".toList, "axb".toList, "axb/f".toList], pathWithin r "axb/f".toList = true →
          listed "axb/f".toList (Mutation.nextPath "axb/f".toList "axb/g".toList r) = false := by decide
      exact hAll r (likenessWorld_rows hRow) hWith

/-- Operations on the file's path keep to the file. -/
theorem touchesSubtree_iff_file : TouchesSubtree likenessWorld 0 "axb/f".toList "axb/g".toList :=
  (touchesSubtree_iff likenessWorld_keyed (Or.inr (by decide)) (by decide)).mpr likenessWorld_fileOnly

/-- Removing `a_b` takes the file `axb/f` along: an underscore is like any character. -/
theorem remove_takes_likeness : likenessWorld.live.dirents.Keyed ∧ isNormalPath "a_b".toList = true ∧
    pathWithin "axb/f".toList "a_b".toList = false ∧ (likenessWorld.entryRow "axb/f".toList).isSome = true ∧
    (likenessWorld.remove "a_b".toList true).2.entryRow "axb/f".toList = none ∧
    ¬ TouchesSubtree likenessWorld 0 "a_b".toList "c".toList := by
  refine ⟨likenessWorld_keyed, by decide, by decide, by decide, by decide, fun h => ?_⟩
  exact absurd ((h.removes (by decide)).all "axb/f".toList) (by decide)

end WorldSqlStore

end Stella.World
