import Stella.World.Calls

/-! # The statements of a mutation

Every mutation is made of a few statements. What each of them keeps, the body of
a mutation keeps, whether it throws or not, and so does a call that runs it.
-/

namespace Stella.World

structure Mutation.Closed (P : Node → Prop) (I : Mutation → Prop) : Prop where
  upsert : ∀ m path node, path ≠ [] → P node → I m → I (m.upsert path node)
  delete : ∀ m path, I m → I (m.delete path)
  clearTombstone : ∀ m path, I m → I (m.clearTombstone path)
  unpin : ∀ m node, I m → I (m.unpin node)
  rows : ∀ m q node, I m → m.entryRow q = some node → P node

namespace Mutation

variable {P : Node → Prop} {I : Mutation → Prop} {m : Mutation} {now : Int}

theorem Closed.deleteAll (hI : Closed P I) (h : I m) (entries : List WorldEntry) :
    I (entries.foldl (fun m entry => m.delete entry.path) m) := by
  induction entries generalizing m with
  | nil => exact h
  | cons entry rest ih => exact ih (hI.delete m entry.path h)

theorem Closed.ensureParents (hI : Closed P I) (hDir : P (newDir now)) (h : I m) {parents : List Text}
    (hNamed : ∀ a ∈ parents, a ≠ []) :
    I (ensureParents now parents m).2 := by
  induction parents generalizing m with
  | nil => exact h
  | cons current rest ih =>
    rw [List.forall_mem_cons] at hNamed
    unfold Mutation.ensureParents
    split
    · split
      · exact h
      · exact ih h hNamed.2
    · exact ih (hI.upsert m current _ hNamed.1 hDir h) hNamed.2

theorem Closed.putNode (hI : Closed P I) (hDir : P (newDir now)) (h : I m) (path : Text) {node : Node} (hNode : P node) :
    I (m.putNode now path node).2 := by
  unfold Mutation.putNode
  split
  · exact h
  rename_i hNorm
  rw [Bool.not_eq_true', Bool.not_eq_false] at hNorm
  split
  · exact h
  have hParents : I (Mutation.ensureParents now (ancestors path) m).2 :=
    hI.ensureParents hDir h (fun a hA => ancestors_ne_nil hNorm hA)
  split
  · rename_i hRes
    rwa [hRes] at hParents
  · rename_i made hRes
    rw [hRes] at hParents
    exact hI.clearTombstone _ path (hI.upsert _ path node (ne_nil_of_isNormal hNorm) hNode hParents)

theorem Closed.remove (hI : Closed P I) (h : I m) (input : Text) (isRecursive : Bool) : I (m.remove input isRecursive).2 := by
  unfold Mutation.remove
  split
  · exact h
  split
  · exact h
  split
  · exact h
  split
  · exact h
  · exact hI.deleteAll h _

theorem Closed.moveEntries (hI : Closed P I) (h : I m) (source : Text) {dest : Text} (hDest : dest ≠ [])
    (entries : List WorldEntry) : I (moveEntries source dest entries m).2 := by
  induction entries generalizing m with
  | nil => exact h
  | cons entry rest ih =>
    unfold Mutation.moveEntries
    dsimp only
    split
    · exact ih h
    · rename_i hRow
      split
      · exact h
      · exact ih (hI.upsert m _ _ (fun hNil => hDest (List.append_eq_nil_iff.mp hNil).1) (hI.rows m _ _ h hRow) h)

section

variable (hI : Closed P I)
include hI

theorem Closed.rename (hDir : P (newDir now)) (h : I m) (fromInput toInput : Text) :
    I (m.rename now fromInput toInput).2 := by
  unfold Mutation.rename
  split
  · exact h
  · exact h
  rename_i source dest _ hDest
  obtain ⟨rfl, hNorm⟩ := WorldSqlStore.normalizeWorldPath_ok hDest
  split
  · exact h
  split
  · exact h
  split
  · exact h
  rename_i entries _
  split
  · exact h
  split
  · exact h
  have hParents : I (Mutation.ensureParents now (ancestors dest) m).2 :=
    hI.ensureParents hDir h (fun a hA => ancestors_ne_nil hNorm hA)
  split
  · rename_i hRes
    rwa [hRes] at hParents
  · rename_i made hRes
    rw [hRes] at hParents
    have hMoves := hI.moveEntries hParents source (ne_nil_of_isNormal hNorm) entries
    split
    · rename_i hMoved
      rwa [hMoved] at hMoves
    · rename_i hMoved
      rw [hMoved] at hMoves
      exact hI.remove hMoves source true

theorem Closed.mkdir (hDir : ∀ node : Node, node.kind = .dir → P node) (h : I m) (input : Text)
    (mode : Option Int) : I (m.mkdir now input mode).2 := by
  unfold Mutation.mkdir
  split
  · exact h
  split
  · split
    · exact h
    · exact h
  · exact hI.putNode (hDir _ rfl) h _ (hDir _ rfl)

theorem Closed.symlink (hPlain : ∀ node : Node, node.kind ≠ .file → P node) (h : I m)
    (input target : Text) : I (m.symlink now input target).2 := by
  unfold Mutation.symlink
  split
  · exact h
  split
  · exact h
  · exact hI.putNode (hPlain _ (fun hKind => by cases hKind)) h _ (hPlain _ (fun hKind => by cases hKind))

theorem Closed.deleteKnown (h : I m) (deleted : List Text) : I (m.deleteKnown deleted).2 := by
  induction deleted generalizing m with
  | nil => exact h
  | cons path rest ih =>
    unfold Mutation.deleteKnown
    split
    · exact ih h
    split
    · exact ih h
    have hRemove := hI.remove h path false
    split
    · rename_i hRes
      rwa [hRes] at hRemove
    · rename_i hRes
      rw [hRes] at hRemove
      exact ih hRemove

theorem Closed.deleteSubtrees (h : I m) (deleted : List Text) : I (m.deleteSubtrees deleted).2 := by
  induction deleted generalizing m with
  | nil => exact h
  | cons path rest ih =>
    unfold Mutation.deleteSubtrees
    split
    · have hRemove := hI.remove h path true
      split
      · rename_i hRes
        rwa [hRes] at hRemove
      · rename_i hRes
        rw [hRes] at hRemove
        exact ih hRemove
    · exact ih h

theorem Closed.putNodes (hDir : P (newDir now)) (h : I m) {entries : List (Text × Node)}
    (hEnts : ∀ entry ∈ entries, P entry.2) : I (m.putNodes now entries).2 := by
  induction entries generalizing m with
  | nil => exact h
  | cons entry rest ih =>
    rw [List.forall_mem_cons] at hEnts
    unfold Mutation.putNodes
    have hPut : I (m.putNode now entry.1 entry.2).2 := hI.putNode hDir h entry.1 hEnts.1
    split
    · rename_i hRes
      rwa [hRes] at hPut
    · rename_i hRes
      rw [hRes] at hPut
      exact ih (hI.unpin _ entry.2 hPut) hEnts.2

end

theorem storeBlob_keeps (hBlobs : ∀ m blobs, I m → I { m with store := { m.store with blobs } }) (h : I m)
    (bytes : FileBytes) (bucketWorks : Bool) :
    I (m.storeBlob bytes bucketWorks).2 := by
  unfold Mutation.storeBlob
  dsimp only
  split
  · exact h
  split
  · exact h
  split
  · split
    · exact hBlobs m _ h
    · exact h
  · exact hBlobs m _ h

theorem Closed.writeFile (hI : Closed (fun _ => True) I)
    (hBlobs : ∀ m blobs, I m → I { m with store := { m.store with blobs } }) (h : I m) (input : Text) (bytes : FileBytes)
    (mode mtime : Option Int)
    (bucketWorks : Bool) : I (m.writeFile now input bytes mode mtime bucketWorks).2 := by
  unfold Mutation.writeFile
  split
  · exact h
  dsimp only
  split
  · exact h
  split
  · exact h
  split
  · exact h
  split
  · exact h
  split
  · exact h
  have hBlob := storeBlob_keeps hBlobs h bytes bucketWorks
  split
  · rename_i hRes
    rwa [hRes] at hBlob
  rename_i path _ _ _ _ _ _ _ made hRes
  rw [hRes] at hBlob
  split
  · rename_i hPut
    exact congrArg Prod.snd hPut ▸ hI.putNode trivial hBlob _ trivial
  · rename_i hPut
    exact congrArg Prod.snd hPut ▸ hI.putNode trivial hBlob _ trivial

end Mutation

namespace WorldSqlStore

open Mutation (Closed newDir)

variable {P : Node → Prop} {I : Mutation → Prop} {J : Except WorldError Unit × WorldSqlStore → Prop}
  {store : WorldSqlStore} {now : Int}

/-- A property of how a call ends that holds when it changes nothing, and after a mutation with a property of its body. -/
structure Ends (store : WorldSqlStore) (I : Mutation → Prop) (J : Except WorldError Unit × WorldSqlStore → Prop) : Prop where
  idle : ∀ result, J (result, store)
  mutate : ∀ {α : Type} (operation : Mutation → Except WorldError α × Mutation), I (operation store.start).2 →
    J (outcome (store.mutate operation))

section

variable (hJ : Ends store I J)
include hJ

variable {input : List WorldListingEntry} {gone : List Text}

theorem Ends.mutated {β : Type} {apply : Mutation → Except WorldError Unit × Mutation} (h : I (apply store.start).2)
    (answer : Nat → β) :
    J (outcome (match store.mutate apply with
      | (.error e, store) => (.error e, store)
      | (.ok ((), revision), after) => (.ok (answer revision), after))) := by
  have hEnd := hJ.mutate apply h
  split
  · rename_i hRes
    exact (congrArg (fun result => J (outcome result)) hRes).mp hEnd
  · rename_i hRes
    exact (congrArg (fun result => J (outcome result)) hRes).mp hEnd

theorem Ends.pushChanges (hI : Closed P I) (hStart : I store.start) (hDir : P (newDir now))
    (hEnts : ∀ puts, store.screenChanges now input = .ok (puts, []) → ∀ put ∈ puts, P put.2) :
    J (outcome (store.pushChanges now input gone)) := by
  unfold WorldSqlStore.pushChanges
  dsimp only
  split
  · exact hJ.idle _
  rename_i entries missing hScreen
  split
  · exact hJ.idle _
  rename_i hMissing
  obtain rfl : missing = [] := not_not.mp hMissing
  split
  · exact hJ.idle _
  rename_i normals _
  split
  · exact hJ.idle _
  split
  · exact hJ.idle _
  refine hJ.mutated ?_ _
  have hDel := hI.deleteKnown hStart (longestFirst (normals.eraseDups.filter (fun path => !isWorldDrivePath path)))
  split
  · rename_i hRes
    rwa [hRes] at hDel
  · rename_i hRes
    rw [hRes] at hDel
    exact hI.putNodes hDir hDel
      (fun entry hEnt => hEnts entries hScreen entry ((mem_shortestFirst _ _).mp hEnt))

theorem Ends.pushDiff (hI : Closed P I) (hStart : I store.start) (hDir : P (newDir now))
    (hEnts : ∀ puts, store.screenDiff now input = .ok (puts, []) → ∀ put ∈ puts, P put.2) :
    J (outcome (store.pushDiff now input gone)) := by
  unfold WorldSqlStore.pushDiff
  dsimp only
  split
  · exact hJ.idle _
  rename_i entries missing hScreen
  split
  · exact hJ.idle _
  rename_i hMissing
  obtain rfl : missing = [] := not_not.mp hMissing
  split
  · exact hJ.idle _
  split
  · exact hJ.idle _
  rename_i normals _
  split
  · exact hJ.idle _
  refine hJ.mutated ?_ _
  have hDel := hI.deleteSubtrees hStart (longestFirst normals)
  split
  · rename_i hRes
    rwa [hRes] at hDel
  · rename_i hRes
    rw [hRes] at hDel
    exact hI.putNodes hDir hDel
      (fun entry hEnt => hEnts entries hScreen entry ((mem_shortestFirst _ _).mp hEnt))

theorem Ends.commitShell (hI : Closed P I) (hStart : I store.start) (hDir : P (newDir now))
    {baseRevision : Option Nat} {readPaths readChildren : List Text} {entries : List WorldListingEntry} {deleted : List Text}
    (hEnts : ∀ puts, store.screenDiff now entries = .ok (puts, []) → ∀ put ∈ puts, P put.2) :
    J (outcome (store.commitShell now baseRevision readPaths readChildren entries deleted)) := by
  unfold WorldSqlStore.commitShell
  split
  · exact hJ.idle _
  dsimp only
  split
  · exact hJ.idle _
  split
  · exact hJ.idle _
  split
  · exact hJ.idle _
  have hPush : J (outcome (store.pushDiff now entries deleted)) := hJ.pushDiff hI hStart hDir hEnts
  split
  · rename_i hRes
    exact (congrArg (fun result => J (outcome result)) hRes).mp hPush
  · rename_i hRes
    exact (congrArg (fun result => J (outcome result)) hRes).mp hPush

theorem Ends.call (hI : Closed (fun _ => True) I)
    (hBlobs : ∀ m blobs, I m → I { m with store := { m.store with blobs } }) (hStart : I store.start)
    (hCheckpoint : ∀ now historyCursor bucketWorks, J (outcome (store.checkpoint now historyCursor bucketWorks))) (c : Call) :
    J (store.call c) := by
  cases c with
  | writeFile now input bytes mode mtime bucketWorks =>
    exact hJ.mutate _ (hI.writeFile hBlobs hStart input bytes mode mtime bucketWorks)
  | mkdir now input mode => exact hJ.mutate _ (hI.mkdir (fun _ _ => trivial) hStart input mode)
  | remove input isRecursive => exact hJ.mutate _ (hI.remove hStart input isRecursive)
  | rename now fromInput toInput => exact hJ.mutate _ (hI.rename trivial hStart fromInput toInput)
  | symlink now input target => exact hJ.mutate _ (hI.symlink (fun _ _ => trivial) hStart input target)
  | pushChanges now entries deleted => exact hJ.pushChanges hI hStart trivial (fun _ _ _ _ => trivial)
  | pushDiff now entries deleted => exact hJ.pushDiff hI hStart trivial (fun _ _ _ _ => trivial)
  | commitShell now baseRevision readPaths readChildren entries deleted =>
    exact hJ.commitShell hI hStart trivial (fun _ _ _ _ => trivial)
  | checkpoint now historyCursor bucketWorks => exact hCheckpoint now historyCursor bucketWorks

end

end WorldSqlStore

end Stella.World
