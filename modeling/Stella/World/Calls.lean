import Stella.Library.Transition
import Stella.World.Exact
import Stella.World.Tree

/-! # The tree over every run of calls

A call that completes keeps the live manifest a tree, unless it puts something
other than a directory where entries stay below, or renames with a pattern that
reaches past the renamed subtree.
-/

namespace Stella.World

open Transition List

namespace WorldSqlStore

variable {store after : WorldSqlStore} {now : Int}

def IsTree (store : WorldSqlStore) : Prop :=
  ∀ q, (store.entryRow q).isSome = true → parentPath q ≠ [] →
    ∃ node, store.entryRow (parentPath q) = some node ∧ node.kind = .dir

theorem isTree_of_rooted (h : store.start.Rooted) : store.IsTree :=
  fun q hRow hNested => h.dirs q _ hRow (parentPath_mem hNested)

def EmptiesBelow (store : WorldSqlStore) (entries : List WorldListingEntry) (gone : Text → Prop) : Prop :=
  ∀ entry ∈ entries, entry.kind ≠ .dir → ∀ q, (store.entryRow q).isSome = true → entry.path ∈ ancestors q → gone q

def KeepsTree (store : WorldSqlStore) : Call → Prop
  | .rename _ fromInput _ => store.start.Lists fromInput
  | .pushChanges _ entries deleted => store.EmptiesBelow entries (· ∈ deleted)
  | .pushDiff _ entries deleted => store.EmptiesBelow entries (fun q => ∃ d ∈ deleted, pathWithin q d = true)
  | .commitShell _ _ _ _ entries deleted => store.EmptiesBelow entries (fun q => ∃ d ∈ deleted, pathWithin q d = true)
  | _ => True

variable {m : Mutation}

theorem rooted_of_dirents (h : m.Rooted) (hEq : after.live.dirents = m.store.live.dirents) :
    after.start.Rooted := by
  have hRow : ∀ q, after.start.entryRow q = m.entryRow q := fun q => by
    change InsertionMap.get? after.live.dirents q = InsertionMap.get? m.store.live.dirents q
    rw [hEq]
  refine ⟨?_, fun q a hSome hA => ?_⟩
  · change after.live.dirents.Keyed
    rw [hEq]
    exact h.keyed
  · rw [hRow] at hSome
    obtain ⟨node, hNode, hDir⟩ := h.dirs q a hSome hA
    exact ⟨node, by rw [hRow, hNode], hDir⟩

theorem mutate_ok {α : Type} {operation : Mutation → Except WorldError α × Mutation} {done : α × Nat}
    (h : store.mutate operation = (.ok done, after)) :
    ∃ m, operation store.start = (.ok done.1, m) ∧ after.live.dirents = m.store.live.dirents := by
  unfold mutate at h
  cases hRes : operation store.start with
  | mk result m =>
    rw [show operation ⟨store, []⟩ = (result, m) from hRes] at h
    cases result with
    | error e => cases (Prod.mk.inj h).1
    | ok value =>
      refine ⟨m, ?_, ?_⟩
      · dsimp only at h
        split at h
        · rw [← Except.ok.inj (Prod.mk.inj h).1]
        · rw [← Except.ok.inj (Prod.mk.inj h).1]
      · dsimp only at h
        split at h
        · rw [← (Prod.mk.inj h).2]
        · rw [← (Prod.mk.inj h).2]

theorem outcome_ok {α : Type} {result : Except WorldError α × WorldSqlStore} (h : (outcome result).1 = .ok ()) :
    ∃ value, result = (.ok value, (outcome result).2) := by
  obtain ⟨inner, left⟩ := result
  cases inner with
  | error e => cases h
  | ok value => exact ⟨value, rfl⟩

theorem normalizeWorldPath_ok {input path : Text} (h : normalizeWorldPath input false = .ok path) :
    path = input ∧ isNormalPath input = true := by
  unfold normalizeWorldPath at h
  rw [if_neg (by simp)] at h
  split at h
  · rename_i hNorm
    exact ⟨(Except.ok.inj h).symm, hNorm⟩
  · cases h

theorem normalizeAll_ok {input paths : List Text} (h : normalizeAll input = .ok paths) :
    paths = input ∧ ∀ path ∈ input, isNormalPath path = true := by
  induction input generalizing paths with
  | nil => exact ⟨(Except.ok.inj h).symm, by simp⟩
  | cons path rest ih =>
    unfold normalizeAll at h
    cases hHead : normalizeWorldPath path false with
    | error e =>
      rw [hHead] at h
      cases h
    | ok normal =>
      obtain ⟨rfl, hNorm⟩ := normalizeWorldPath_ok hHead
      cases hRest : normalizeAll rest with
      | error e =>
        rw [hHead, hRest] at h
        cases h
      | ok normals =>
        rw [hHead, hRest] at h
        obtain ⟨rfl, hNormals⟩ := ih hRest
        refine ⟨(Except.ok.inj h).symm, ?_⟩
        rw [forall_mem_cons]
        exact ⟨hNorm, hNormals⟩

variable {entry : WorldListingEntry}

theorem node_kind {node : Node} (h : entry.node now = .ok node) : node.kind = entry.kind := by
  unfold WorldListingEntry.node at h
  split at h
  · split at h
    · cases h
    · rw [← Except.ok.inj h]
  · cases h

structure Screened (input : List WorldListingEntry) (entries : List (Text × Node)) : Prop where
  given : ∀ entry ∈ entries, isNormalPath entry.1 = true ∧ isWorldDrivePath entry.1 = false ∧
    ∃ listed ∈ input, listed.path = entry.1 ∧ listed.kind = entry.2.kind

variable {input : List WorldListingEntry} {entries : List (Text × Node)}

theorem Screened.cons
    (h : Screened input entries) : Screened (entry :: input) entries where
  given := fun put hPut => by
    obtain ⟨hNorm, hOut, listed, hMem, hList⟩ := h.given put hPut
    exact ⟨hNorm, hOut, listed, mem_cons_of_mem _ hMem, hList⟩

theorem Screened.put
    (h : Screened input entries) {node : Node} (hNode : entry.node now = .ok node)
    (hNorm : isNormalPath entry.path = true) (hOut : ¬ isWorldDrivePath entry.path = true) :
    Screened (entry :: input) ((entry.path, node) :: entries) where
  given := by
    rw [forall_mem_cons]
    refine ⟨⟨hNorm, Bool.eq_false_iff.mpr hOut, entry, mem_cons_self, rfl, (node_kind hNode).symm⟩, ?_⟩
    exact h.cons.given

theorem screened_changes {missing : List String}
    (h : store.screenChanges now input = .ok (entries, missing)) : Screened input entries := by
  induction input generalizing entries missing with
  | nil =>
    obtain ⟨rfl, -⟩ := Prod.mk.inj (Except.ok.inj h)
    exact ⟨by simp⟩
  | cons entry rest ih =>
    unfold screenChanges at h
    cases hPath : normalizeWorldPath entry.path false with
    | error e =>
      rw [hPath] at h
      cases h
    | ok path =>
      obtain ⟨rfl, hNorm⟩ := normalizeWorldPath_ok hPath
      rw [hPath] at h
      dsimp only at h
      split at h
      · exact (ih h).cons
      rename_i hOut
      cases hNode : entry.node now with
      | error e =>
        rw [hNode] at h
        cases h
      | ok node =>
        rw [hNode] at h
        dsimp only at h
        split at h
        · exact (ih h).cons
        split at h
        · cases h
        cases hRest : store.screenChanges now rest with
        | error e =>
          rw [hRest] at h
          cases h
        | ok later =>
          rw [hRest] at h
          obtain ⟨rfl, -⟩ := Prod.mk.inj (Except.ok.inj h)
          exact (ih hRest).put hNode hNorm hOut

theorem screened_diff {missing : List String}
    (h : store.screenDiff now input = .ok (entries, missing)) : Screened input entries := by
  induction input generalizing entries missing with
  | nil =>
    obtain ⟨rfl, -⟩ := Prod.mk.inj (Except.ok.inj h)
    exact ⟨by simp⟩
  | cons entry rest ih =>
    unfold screenDiff at h
    cases hPath : normalizeWorldPath entry.path false with
    | error e =>
      rw [hPath] at h
      cases h
    | ok path =>
      obtain ⟨rfl, hNorm⟩ := normalizeWorldPath_ok hPath
      rw [hPath] at h
      dsimp only at h
      split at h
      · cases h
      rename_i hOut
      cases hNode : entry.node now with
      | error e =>
        rw [hNode] at h
        cases h
      | ok node =>
        rw [hNode] at h
        dsimp only at h
        split at h
        · cases h
        cases hRest : store.screenDiff now rest with
        | error e =>
          rw [hRest] at h
          cases h
        | ok later =>
          rw [hRest] at h
          obtain ⟨rfl, -⟩ := Prod.mk.inj (Except.ok.inj h)
          exact (ih hRest).put hNode hNorm hOut

theorem longestFirst_sorted (paths : List Text) :
    (longestFirst paths).Pairwise (fun a b => utf16Length b ≤ utf16Length a) := by
  have : Std.Total (fun a b : Text => utf16Length b ≤ utf16Length a) := ⟨fun a b => le_total _ _⟩
  have : IsTrans Text (fun a b => utf16Length b ≤ utf16Length a) := ⟨fun _ _ _ hAB hBC => le_trans hBC hAB⟩
  exact pairwise_insertionSort _ paths

theorem shortestFirst_sorted (entries : List (Text × Node)) :
    (shortestFirst entries).Pairwise (fun a b => utf16Length a.1 ≤ utf16Length b.1) := by
  have : Std.Total (fun a b : Text × Node => utf16Length a.1 ≤ utf16Length b.1) := ⟨fun a b => le_total _ _⟩
  have : IsTrans (Text × Node) (fun a b => utf16Length a.1 ≤ utf16Length b.1) := ⟨fun _ _ _ hAB hBC => le_trans hAB hBC⟩
  exact pairwise_insertionSort _ entries

theorem mem_shortestFirst (entries : List (Text × Node)) (entry : Text × Node) :
    entry ∈ shortestFirst entries ↔ entry ∈ entries := (perm_insertionSort _ entries).mem_iff

theorem mem_longestFirst (paths : List Text) (path : Text) : path ∈ longestFirst paths ↔ path ∈ paths :=
  (perm_insertionSort _ paths).mem_iff

theorem not_drive_of_below {path q : Text} (hOut : isWorldDrivePath path = false) (hBelow : path ∈ ancestors q) :
    isWorldDrivePath q = false := by
  unfold isWorldDrivePath at hOut ⊢
  rw [Bool.eq_false_iff] at hOut ⊢
  intro hWith
  obtain ⟨suffix, rfl, hSuf⟩ := (pathWithin_iff (by decide)).mp hWith
  rcases ancestors_append hSuf hBelow with hTop | ⟨lead, rest, rfl, -, hLead⟩
  · have hNone : ancestors worldDriveDir = [] := by decide
    rw [hNone] at hTop
    cases hTop
  · exact hOut (pathWithin_append (by decide) hLead)

variable {later : Mutation}

theorem rooted_puts {made : Mutation}
    (hScreened : Screened input entries) (hMade : made.Rooted)
    (hEmpties : ∀ entry ∈ input, entry.kind ≠ .dir → isWorldDrivePath entry.path = false →
      made.Childless entry.path)
    (hPuts : made.putNodes now (shortestFirst entries) = (.ok (), later)) : later.Rooted := by
  refine hMade.putNodes (shortestFirst_sorted entries) (fun entry hEnt => ?_) hPuts
  obtain ⟨-, hOut, listed, hMem, hPath, hKind⟩ := hScreened.given entry ((mem_shortestFirst _ _).mp hEnt)
  by_cases hDir : entry.2.kind = .dir
  · exact .inl hDir
  · refine .inr ?_
    rw [← hPath] at hOut ⊢
    exact hEmpties listed hMem (hKind ▸ hDir) hOut

theorem rooted_writeFile (h : m.Rooted) {input : Text} {bytes : FileBytes} {mode mtime : Option Int}
    {bucketWorks : Bool} {entry : WorldEntry}
    (hOk : m.writeFile now input bytes mode mtime bucketWorks = (.ok entry, later)) : later.Rooted := by
  unfold Mutation.writeFile at hOk
  cases hPath : normalizeWorldPath input false with
  | error e =>
    rw [hPath] at hOk
    cases (Prod.mk.inj hOk).1
  | ok path =>
    rw [hPath] at hOk
    dsimp only at hOk
    split at hOk
    · cases (Prod.mk.inj hOk).1
    split at hOk
    · cases (Prod.mk.inj hOk).1
    rename_i hFile
    split at hOk
    · cases (Prod.mk.inj hOk).1
    split at hOk
    · cases (Prod.mk.inj hOk).1
    split at hOk
    · cases (Prod.mk.inj hOk).1
    have hChildless : m.Childless path := by
      refine h.childless ?_
      rintro ⟨node, hRow, hDir⟩
      have hRow : m.store.entryRow path = some node := hRow
      rw [hRow, Option.any_some, decide_eq_true_eq, hDir] at hFile
      exact hFile (by decide)
    cases hBlob : m.storeBlob bytes bucketWorks with
    | mk result stored =>
      rw [hBlob] at hOk
      cases result with
      | error e => cases (Prod.mk.inj hOk).1
      | ok _ =>
        have hEq : stored.store.live.dirents = m.store.live.dirents := by
          unfold Mutation.storeBlob at hBlob
          dsimp only at hBlob
          split_ifs at hBlob <;> rw [← (Prod.mk.inj hBlob).2]
        have hRow : ∀ q, stored.entryRow q = m.entryRow q := fun q => by
          change InsertionMap.get? stored.store.live.dirents q = InsertionMap.get? m.store.live.dirents q
          rw [hEq]
        have hStored : stored.Rooted := by
          refine ⟨?_, fun q a hSome hA => ?_⟩
          · change stored.store.live.dirents.Keyed
            rw [hEq]
            exact h.keyed
          · obtain ⟨node, hNode, hDir⟩ := h.dirs q a (hRow q ▸ hSome) hA
            exact ⟨node, by rw [hRow, hNode], hDir⟩
        dsimp only at hOk
        split at hOk
        · cases (Prod.mk.inj hOk).1
        rename_i hPut
        rw [← (Prod.mk.inj hOk).2]
        refine hStored.putNode (.inr (fun q hSome => ?_)) (Mutation.putNode_ok hStored.keyed hPut)
        exact hChildless q (hRow q ▸ hSome)

theorem rooted_mkdir (h : m.Rooted) {input : Text} {mode : Option Int}
    (hOk : m.mkdir now input mode = (.ok (), later)) : later.Rooted := by
  unfold Mutation.mkdir at hOk
  split at hOk
  · cases (Prod.mk.inj hOk).1
  split at hOk
  · split at hOk
    · cases (Prod.mk.inj hOk).1
    · rwa [← (Prod.mk.inj hOk).2]
  · exact h.putNode (.inl rfl) (Mutation.putNode_ok h.keyed hOk)

theorem rooted_symlink (h : m.Rooted) {input target : Text}
    (hOk : m.symlink now input target = (.ok (), later)) : later.Rooted := by
  unfold Mutation.symlink at hOk
  split at hOk
  · cases (Prod.mk.inj hOk).1
  split at hOk
  · cases (Prod.mk.inj hOk).1
  rename_i hAbsent
  refine h.putNode (.inr (h.childless ?_)) (Mutation.putNode_ok h.keyed hOk)
  rintro ⟨node, hRow, -⟩
  exact hAbsent (Option.isSome_of_eq_some hRow)

theorem rename_normal {fromInput toInput : Text}
    (h : m.rename now fromInput toInput = (.ok (), later)) :
    isNormalPath fromInput = true ∧ isNormalPath toInput = true := by
  unfold Mutation.rename at h
  split at h
  · cases (Prod.mk.inj h).1
  · cases (Prod.mk.inj h).1
  · rename_i hFrom hTo
    exact ⟨(normalizeWorldPath_ok hFrom).2, (normalizeWorldPath_ok hTo).2⟩

structure Unchanged (store after : WorldSqlStore) : Prop where
  entries : after.live.dirents = store.live.dirents
  revision : after.revision = store.revision
  changes : after.changes = store.changes
  changeFloor : after.changeFloor = store.changeFloor

theorem Unchanged.refl (store : WorldSqlStore) : Unchanged store store := ⟨rfl, rfl, rfl, rfl⟩

theorem Unchanged.trans {store middle after : WorldSqlStore} (hFirst : Unchanged store middle)
    (hThen : Unchanged middle after) : Unchanged store after where
  entries := hThen.entries.trans hFirst.entries
  revision := hThen.revision.trans hFirst.revision
  changes := hThen.changes.trans hFirst.changes
  changeFloor := hThen.changeFloor.trans hFirst.changeFloor

theorem dropLoose_unchanged (limit : Nat) (store : WorldSqlStore) : Unchanged store (dropLoose limit store).1 := by
  induction limit generalizing store with
  | zero => exact Unchanged.refl store
  | succ limit ih =>
    unfold dropLoose
    split
    · exact Unchanged.refl store
    · refine Unchanged.trans ?_ (ih _)
      exact ⟨rfl, rfl, rfl, rfl⟩

theorem dropBlobs_unchanged (bucketWorks : String → Bool) (blobs : List (String × BlobRow)) (store : WorldSqlStore) :
    Unchanged store (dropBlobs bucketWorks blobs store).2 := by
  induction blobs generalizing store with
  | nil => exact Unchanged.refl store
  | cons blob rest ih =>
    unfold dropBlobs
    split
    · exact Unchanged.refl store
    · refine Unchanged.trans ?_ (ih _)
      exact ⟨rfl, rfl, rfl, rfl⟩

theorem collectGarbage_unchanged (limit : Nat) (bucketWorks : String → Bool) :
    Unchanged store (store.collectGarbage now limit bucketWorks).2 := by
  have hLoose := dropLoose_unchanged limit { store with pins := store.pins.filter (fun pin => now < pin.2) }
  have hStart : Unchanged store { store with pins := store.pins.filter (fun pin => now < pin.2) } := ⟨rfl, rfl, rfl, rfl⟩
  unfold collectGarbage
  dsimp only
  split
  · rename_i hDrop
    exact hStart.trans (hLoose.trans (congrArg Prod.snd hDrop ▸ dropBlobs_unchanged _ _ _))
  · rename_i hDrop
    exact hStart.trans (hLoose.trans (congrArg Prod.snd hDrop ▸ dropBlobs_unchanged _ _ _))

theorem checkpoint_unchanged (historyCursor : String) (bucketWorks : String → Bool) :
    Unchanged store (store.checkpoint now historyCursor bucketWorks).2 := by
  have hStart : Unchanged store (store.sealLive historyCursor) := ⟨rfl, rfl, rfl, rfl⟩
  unfold checkpoint
  split
  · rename_i hCollect
    exact hStart.trans (congrArg Prod.snd hCollect ▸ collectGarbage_unchanged _ _)
  · rename_i hCollect
    exact hStart.trans (congrArg Prod.snd hCollect ▸ collectGarbage_unchanged _ _)

theorem checkpoint_dirents (historyCursor : String) (bucketWorks : String → Bool) :
    (store.checkpoint now historyCursor bucketWorks).2.live.dirents = store.live.dirents :=
  (checkpoint_unchanged historyCursor bucketWorks).entries

section

variable (h : store.start.Rooted)
include h

theorem rooted_pushChanges {gone : List Text}
    (hEmpties : store.EmptiesBelow input (· ∈ gone)) {result : PushResult}
    (hOk : store.pushChanges now input gone = (.ok result, after)) : after.start.Rooted := by
  unfold pushChanges at hOk
  dsimp only at hOk
  cases hScreen : store.screenChanges now input with
  | error e =>
    rw [hScreen] at hOk
    cases (Prod.mk.inj hOk).1
  | ok screened =>
    obtain ⟨entries, missing⟩ := screened
    rw [hScreen] at hOk
    dsimp only at hOk
    split at hOk
    · rwa [← (Prod.mk.inj hOk).2]
    cases hAll : normalizeAll gone with
    | error e =>
      rw [hAll] at hOk
      cases (Prod.mk.inj hOk).1
    | ok normals =>
      obtain ⟨rfl, -⟩ := normalizeAll_ok hAll
      rw [hAll] at hOk
      dsimp only at hOk
      split at hOk
      · rwa [← (Prod.mk.inj hOk).2]
      split at hOk
      · cases (Prod.mk.inj hOk).1
      split at hOk
      · cases (Prod.mk.inj hOk).1
      rename_i hMutate
      obtain ⟨m, hApply, hEq⟩ := mutate_ok hMutate
      rw [← (Prod.mk.inj hOk).2]
      refine rooted_of_dirents ?_ hEq
      cases hDel : store.start.deleteKnown (longestFirst (normals.eraseDups.filter (fun path => !isWorldDrivePath path))) with
      | mk deleted made =>
        rw [hDel] at hApply
        cases deleted with
        | error e => cases (Prod.mk.inj hApply).1
        | ok _ =>
          obtain ⟨hMade, hChildless⟩ := h.deleteKnown (longestFirst_sorted _) hDel
          refine rooted_puts (screened_changes hScreen) hMade (fun entry hEnt hKind hOut => ?_) hApply
          refine hChildless entry.path (fun q hRow hBelow => ?_)
          rw [mem_longestFirst, mem_filter, mem_eraseDups]
          exact ⟨hEmpties entry hEnt hKind q hRow hBelow, by simp [not_drive_of_below hOut hBelow]⟩

theorem rooted_pushDiff {gone : List Text}
    (hEmpties : store.EmptiesBelow input (fun q => ∃ d ∈ gone, pathWithin q d = true)) {result : List String × Nat}
    (hOk : store.pushDiff now input gone = (.ok result, after)) : after.start.Rooted := by
  unfold pushDiff at hOk
  dsimp only at hOk
  cases hScreen : store.screenDiff now input with
  | error e =>
    rw [hScreen] at hOk
    cases (Prod.mk.inj hOk).1
  | ok screened =>
    obtain ⟨entries, missing⟩ := screened
    rw [hScreen] at hOk
    dsimp only at hOk
    split at hOk
    · rwa [← (Prod.mk.inj hOk).2]
    split at hOk
    · cases (Prod.mk.inj hOk).1
    cases hAll : normalizeAll gone with
    | error e =>
      rw [hAll] at hOk
      cases (Prod.mk.inj hOk).1
    | ok normals =>
      obtain ⟨rfl, hNormals⟩ := normalizeAll_ok hAll
      rw [hAll] at hOk
      dsimp only at hOk
      split at hOk
      · cases (Prod.mk.inj hOk).1
      split at hOk
      · cases (Prod.mk.inj hOk).1
      rename_i hMutate
      obtain ⟨m, hApply, hEq⟩ := mutate_ok hMutate
      rw [← (Prod.mk.inj hOk).2]
      refine rooted_of_dirents ?_ hEq
      cases hDel : store.start.deleteSubtrees (longestFirst normals) with
      | mk deleted made =>
        rw [hDel] at hApply
        cases deleted with
        | error e => cases (Prod.mk.inj hApply).1
        | ok _ =>
          have hNamed : ∀ d ∈ longestFirst normals, d ≠ [] :=
            fun d hD => ne_nil_of_normal (hNormals d ((mem_longestFirst _ _).mp hD))
          obtain ⟨hMade, hChildless⟩ := h.deleteSubtrees hNamed hDel
          refine rooted_puts (screened_diff hScreen) hMade (fun entry hEnt hKind _ => ?_) hApply
          refine hChildless entry.path (fun q hRow hBelow => ?_)
          obtain ⟨d, hD, hWith⟩ := hEmpties entry hEnt hKind q hRow hBelow
          exact ⟨d, (mem_longestFirst _ _).mpr hD, hWith⟩

theorem rooted_commitShell {baseRevision : Option Nat} {readPaths readChildren : List Text}
    {entries : List WorldListingEntry} {deleted : List Text}
    (hEmpties : store.EmptiesBelow entries (fun q => ∃ d ∈ deleted, pathWithin q d = true)) {result : CommitResult}
    (hOk : store.commitShell now baseRevision readPaths readChildren entries deleted = (.ok result, after)) :
    after.start.Rooted := by
  unfold commitShell at hOk
  split at hOk
  · cases (Prod.mk.inj hOk).1
  dsimp only at hOk
  split at hOk
  · rwa [← (Prod.mk.inj hOk).2]
  split at hOk
  · rwa [← (Prod.mk.inj hOk).2]
  split at hOk
  · rwa [← (Prod.mk.inj hOk).2]
  split at hOk
  · cases (Prod.mk.inj hOk).1
  rename_i hPush
  rw [← (Prod.mk.inj hOk).2]
  exact rooted_pushDiff h hEmpties hPush

theorem rooted_call {c : Call} (hOk : (store.call c).1 = .ok ()) (hKeeps : store.KeepsTree c) :
    (store.call c).2.start.Rooted := by
  cases c with
  | writeFile now input bytes mode mtime bucketWorks =>
    obtain ⟨done, hDone⟩ := outcome_ok hOk
    obtain ⟨m, hBody, hEq⟩ := mutate_ok hDone
    exact rooted_of_dirents (rooted_writeFile h hBody) hEq
  | mkdir now input mode =>
    obtain ⟨done, hDone⟩ := outcome_ok hOk
    obtain ⟨m, hBody, hEq⟩ := mutate_ok hDone
    exact rooted_of_dirents (rooted_mkdir h hBody) hEq
  | remove input isRecursive =>
    obtain ⟨done, hDone⟩ := outcome_ok hOk
    obtain ⟨m, hBody, hEq⟩ := mutate_ok hDone
    exact rooted_of_dirents (h.removed (Mutation.remove_ok h.keyed (Mutation.remove_normal hBody) hBody)) hEq
  | rename now fromInput toInput =>
    obtain ⟨done, hDone⟩ := outcome_ok hOk
    obtain ⟨m, hBody, hEq⟩ := mutate_ok hDone
    obtain ⟨hFrom, hTo⟩ := rename_normal hBody
    have hRenamed := Mutation.rename_ok h.keyed hFrom hTo hBody
    exact rooted_of_dirents (h.renamed (ne_nil_of_normal hFrom) hKeeps hRenamed) hEq
  | symlink now input target =>
    obtain ⟨done, hDone⟩ := outcome_ok hOk
    obtain ⟨m, hBody, hEq⟩ := mutate_ok hDone
    exact rooted_of_dirents (rooted_symlink h hBody) hEq
  | pushChanges now entries deleted =>
    obtain ⟨done, hDone⟩ := outcome_ok hOk
    exact rooted_pushChanges h hKeeps hDone
  | pushDiff now entries deleted =>
    obtain ⟨done, hDone⟩ := outcome_ok hOk
    exact rooted_pushDiff h hKeeps hDone
  | commitShell now baseRevision readPaths readChildren entries deleted =>
    obtain ⟨done, hDone⟩ := outcome_ok hOk
    exact rooted_commitShell h hKeeps hDone
  | checkpoint now historyCursor bucketWorks =>
    exact rooted_of_dirents h (checkpoint_dirents historyCursor bucketWorks)

end

def step (store : WorldSqlStore) (c : Call) : WorldSqlStore := (store.call c).2

theorem initialized_rooted : initialized.start.Rooted where
  keyed := ⟨nodup_nil, fun _ hMem => by cases hMem⟩
  dirs := fun _ _ hRow _ => by cases hRow

/-- The live world is a tree in every state that calls reach, if each completes and keeps it one. -/
theorem isTree_of_run {calls : List Call}
    (hRun : Along step (fun store c => (store.call c).1 = .ok () ∧ store.KeepsTree c) initialized calls) :
    (run step initialized calls).IsTree := by
  have hStep : ∀ (store : WorldSqlStore) (c : Call), store.start.Rooted →
      ((store.call c).1 = .ok () ∧ store.KeepsTree c) → (step store c).start.Rooted :=
    fun store c h hKeeps => rooted_call h hKeeps.1 hKeeps.2
  exact isTree_of_rooted (run_invariant hStep initialized_rooted hRun)

def linkOverDir (deleted : List Text) : List Call :=
  [.writeFile 0 "d/x".toList ⟨1, "abc"⟩ none none true,
    .pushChanges 1 [{ path := "d".toList, kind := .symlink, mode := some 0o777, size := some 1, target := some ['t'] }]
      deleted]

theorem linkOverDir_keeps : Along step (fun store c => (store.call c).1 = .ok () ∧ store.KeepsTree c) initialized
    (linkOverDir ["d/x".toList]) := by
  refine ⟨⟨by decide, trivial⟩, ⟨by decide, ?_⟩, trivial⟩
  intro entry hEnt _ q hRow hBelow
  obtain rfl := mem_singleton.mp hEnt
  have hAll : ∀ q ∈ ["d".toList, "d/x".toList], "d".toList ∈ ancestors q → q ∈ ["d/x".toList] := by decide
  exact hAll q (InsertionMap.mem_keys_iff.mpr hRow) hBelow

/-- A container that deletes the file before its link leaves a tree. -/
theorem isTree_of_run_link : (run step initialized (linkOverDir ["d/x".toList])).IsTree :=
  isTree_of_run linkOverDir_keeps

/-- One that does not know the file leaves the file below its link. -/
theorem linkOverDir_not_tree : Along step (fun store c => (store.call c).1 = .ok ()) initialized (linkOverDir []) ∧
    ¬ (run step initialized (linkOverDir [])).IsTree := by
  refine ⟨⟨by decide, by decide, trivial⟩, fun h => ?_⟩
  obtain ⟨node, hRow, hDir⟩ := h "d/x".toList (by decide) (by decide)
  have hLink : ((run step initialized (linkOverDir [])).entryRow (parentPath "d/x".toList)).map Node.kind =
      some .symlink := by decide
  rw [hRow, Option.map_some, hDir] at hLink
  cases hLink

end WorldSqlStore

end Stella.World
