import Stella.World.Statements

/-! # What the change log tells

A mutation notes every path whose row it changes. A call that completes either
changes nothing the log is about, or takes the next revision and logs these
paths under it, or empties a log grown too long and raises the floor.
-/

namespace Stella.World

namespace Mutation

variable {m : Mutation}

structure Noted (base : WorldSqlStore) (m : Mutation) : Prop where
  rows : ∀ q, m.entryRow q = base.entryRow q ∨ q ∈ m.paths.keys
  revision : m.store.revision = base.revision
  changes : m.store.changes = base.changes
  changeFloor : m.store.changeFloor = base.changeFloor

theorem mem_keys_noteChange (m : Mutation) (path q : Text) (kind : ChangeKind) :
    q ∈ (m.noteChange path kind).paths.keys ↔ q = path ∨ q ∈ m.paths.keys := by
  constructor
  · exact InsertionMap.mem_keys_set
  · intro hMem
    apply InsertionMap.mem_keys_iff.mpr
    change (InsertionMap.get? (m.paths.set path kind) q).isSome = true
    rcases eq_or_ne q path with rfl | hOther
    · rw [InsertionMap.get?_set_self]
      rfl
    · rw [InsertionMap.get?_set_of_ne _ _ hOther.symm]
      exact InsertionMap.mem_keys_iff.mp (hMem.resolve_left hOther)

theorem closed_noted (base : WorldSqlStore) : Closed (fun _ => True) (Noted base) where
  upsert := fun m path node _ _ h => by
    refine ⟨fun q => ?_, h.revision, h.changes, h.changeFloor⟩
    rw [entryRow_upsert]
    have hKeys : q ∈ (m.upsert path node).paths.keys ↔ q = path ∨ q ∈ m.paths.keys := mem_keys_noteChange m path q .upsert
    split
    · rename_i hEq
      exact .inr (hKeys.mpr (.inl hEq))
    · exact (h.rows q).imp_right (fun hMem => hKeys.mpr (.inr hMem))
  delete := fun m path h => by
    refine ⟨fun q => ?_, h.revision, h.changes, h.changeFloor⟩
    rw [entryRow_delete]
    have hKeys : q ∈ (m.delete path).paths.keys ↔ q = path ∨ q ∈ m.paths.keys := mem_keys_noteChange m path q .delete
    split
    · rename_i hEq
      exact .inr (hKeys.mpr (.inl hEq))
    · exact (h.rows q).imp_right (fun hMem => hKeys.mpr (.inr hMem))
  clearTombstone := fun _ _ h => ⟨h.rows, h.revision, h.changes, h.changeFloor⟩
  unpin := fun m node h => by
    unfold Mutation.unpin
    split
    · exact ⟨h.rows, h.revision, h.changes, h.changeFloor⟩
    · exact h
  rows := fun _ _ _ _ _ => trivial

theorem closed_keyed : Closed (fun _ => True) Keyed where
  upsert := fun _ _ node hPath _ h => h.upsert hPath node
  delete := fun _ path h => h.delete path
  clearTombstone := fun _ _ h => h
  unpin := fun _ node h => keyed_unpin h node
  rows := fun _ _ _ _ _ => trivial

theorem noted_start (store : WorldSqlStore) : Noted store store.start := ⟨fun _ => .inl rfl, rfl, rfl, rfl⟩

end Mutation

namespace WorldSqlStore

open Mutation (Closed Noted closed_noted noted_start)

variable {store after : WorldSqlStore} {now : Int}

structure Unlogged (store after : WorldSqlStore) : Prop where
  rows : ∀ q, after.entryRow q = store.entryRow q
  revision : after.revision = store.revision
  changes : after.changes = store.changes
  changeFloor : after.changeFloor = store.changeFloor

structure Appends (store after : WorldSqlStore) (logged : List ChangeRow) : Prop where
  rows : ∀ q, after.entryRow q = store.entryRow q ∨ ∃ c ∈ logged, c.path = q
  revision : after.revision = store.revision + 1
  numbered : ∀ c ∈ logged, c.revision = store.revision + 1
  changes : after.changes = store.changes ++ logged
  changeFloor : after.changeFloor = store.changeFloor

structure Trims (store after : WorldSqlStore) : Prop where
  revision : after.revision = store.revision + 1
  changes : after.changes = []
  changeFloor : after.changeFloor = store.revision + 1

def Logged (store after : WorldSqlStore) : Prop :=
  Unlogged store after ∨ (∃ logged, Appends store after logged) ∨ Trims store after

theorem Unlogged.refl (store : WorldSqlStore) : Unlogged store store := ⟨fun _ => rfl, rfl, rfl, rfl⟩

theorem Unchanged.unlogged (h : Unchanged store after) : Unlogged store after :=
  ⟨fun q => congrArg (InsertionMap.get? · q) h.entries, h.revision, h.changes, h.changeFloor⟩

theorem logged_mutate {α : Type} {operation : Mutation → Except WorldError α × Mutation} {done : α × Nat}
    (hNoted : Noted store (operation store.start).2) (h : store.mutate operation = (.ok done, after)) :
    Logged store after := by
  unfold mutate at h
  cases hRes : operation store.start with
  | mk result m =>
    rw [hRes] at hNoted
    rw [show operation ⟨store, []⟩ = (result, m) from hRes] at h
    cases result with
    | error e => cases (Prod.mk.inj h).1
    | ok value =>
      dsimp only at h hNoted
      split at h
      · rename_i hNone
        obtain rfl := (Prod.mk.inj h).2
        refine .inl ⟨fun q => (hNoted.rows q).resolve_right ?_, hNoted.revision, hNoted.changes, hNoted.changeFloor⟩
        rw [hNone]
        exact List.not_mem_nil
      · obtain rfl := (Prod.mk.inj h).2
        by_cases hLong : worldChangeLogMaxRows <
          (m.store.changes ++ m.paths.map (fun change => (⟨m.store.revision + 1, change.1, change.2⟩ : ChangeRow))).length
        · refine .inr (.inr ⟨congrArg (· + 1) hNoted.revision, ?_, ?_⟩)
          · exact if_pos hLong
          · exact (if_pos hLong).trans (congrArg (· + 1) hNoted.revision)
        · refine .inr (.inl ⟨m.paths.map (fun change => ⟨store.revision + 1, change.1, change.2⟩),
            fun q => (hNoted.rows q).imp_right (fun hMem => ?_), congrArg (· + 1) hNoted.revision, ?_, ?_, ?_⟩)
          · obtain ⟨change, hChg, rfl⟩ := List.mem_map.mp hMem
            exact ⟨_, List.mem_map_of_mem hChg, rfl⟩
          · intro c hMem
            obtain ⟨change, -, rfl⟩ := List.mem_map.mp hMem
            rfl
          · refine (if_neg hLong).trans ?_
            rw [hNoted.changes, hNoted.revision]
          · exact (if_neg hLong).trans hNoted.changeFloor

theorem logged_call {c : Call} (hOk : (store.call c).1 = .ok ()) : Logged store (store.call c).2 := by
  have hEnds : Ends store (Noted store) (fun result => result.1 = .ok () → Logged store result.2) := by
    constructor
    · intro result _
      exact .inl (Unlogged.refl store)
    · intro α operation hNoted hOk
      obtain ⟨done, hDone⟩ := outcome_ok hOk
      exact logged_mutate hNoted hDone
  refine hEnds.call (closed_noted store) (fun _ _ h => ⟨h.rows, h.revision, h.changes, h.changeFloor⟩) (noted_start store) ?_ c hOk
  intro now historyCursor bucketWorks _
  exact .inl (checkpoint_unchanged historyCursor bucketWorks).unlogged

theorem keyed_call (h : store.live.dirents.Keyed) (c : Call) : (store.call c).2.live.dirents.Keyed := by
  have hEnds : Ends store Mutation.Keyed (fun result => result.2.live.dirents.Keyed) := by
    constructor
    · intro result
      exact h
    · intro α operation hKeyed
      change (store.mutate operation).2.live.dirents.Keyed
      rw [mutate_dirents]
      exact hKeyed
  refine hEnds.call Mutation.closed_keyed (fun _ _ hKeyed => hKeyed) h ?_ c
  intro now historyCursor bucketWorks
  change (store.checkpoint now historyCursor bucketWorks).2.live.dirents.Keyed
  rw [checkpoint_dirents]
  exact h

structure LogSound (store : WorldSqlStore) : Prop where
  floor : store.changeFloor ≤ store.revision
  above : ∀ c ∈ store.changes, store.changeFloor < c.revision
  head : ∀ c ∈ store.changes, c.revision ≤ store.revision

def Told (store : WorldSqlStore) (revision : Nat) (path : Text) (row : Option Node) : Prop :=
  store.entryRow path = row ∨ ∃ c ∈ store.changes, revision < c.revision ∧ c.path = path

theorem LogSound.logged (h : LogSound store) (hLogged : Logged store after) : LogSound after := by
  rcases hLogged with hUnlogged | ⟨logged, hAppends⟩ | hTrims
  · obtain ⟨hFloor, hAbove, hHead⟩ := h
    rw [← hUnlogged.revision, ← hUnlogged.changeFloor] at hFloor
    rw [← hUnlogged.changes, ← hUnlogged.changeFloor] at hAbove
    rw [← hUnlogged.changes, ← hUnlogged.revision] at hHead
    exact ⟨hFloor, hAbove, hHead⟩
  · have hFloor := h.floor
    constructor
    · rw [hAppends.changeFloor, hAppends.revision]
      omega
    · intro c hMem
      rw [hAppends.changes, List.mem_append] at hMem
      rw [hAppends.changeFloor]
      rcases hMem with hOld | hNew
      · exact h.above c hOld
      · rw [hAppends.numbered c hNew]
        omega
    · intro c hMem
      rw [hAppends.changes, List.mem_append] at hMem
      rw [hAppends.revision]
      rcases hMem with hOld | hNew
      · exact Nat.le_succ_of_le (h.head c hOld)
      · rw [hAppends.numbered c hNew]
  · constructor
    · rw [hTrims.changeFloor, hTrims.revision]
    · intro c hMem
      rw [hTrims.changes] at hMem
      cases hMem
    · intro c hMem
      rw [hTrims.changes] at hMem
      cases hMem

theorem Logged.revision_le (h : Logged store after) : store.revision ≤ after.revision := by
  rcases h with hUnlogged | ⟨logged, hAppends⟩ | hTrims
  · exact hUnlogged.revision.ge
  · rw [hAppends.revision]
    omega
  · rw [hTrims.revision]
    omega

theorem Logged.floor_le (h : Logged store after) {revision : Nat} (hRev : revision ≤ store.revision)
    (hFloor : after.changeFloor ≤ revision) : store.changeFloor ≤ revision := by
  rcases h with hUnlogged | ⟨logged, hAppends⟩ | hTrims
  · rwa [hUnlogged.changeFloor] at hFloor
  · rwa [hAppends.changeFloor] at hFloor
  · rw [hTrims.changeFloor] at hFloor
    omega

theorem Told.logged {revision : Nat} {path : Text} {row : Option Node} (h : Told store revision path row)
    (hLogged : Logged store after) (hRev : revision ≤ store.revision) (hFloor : after.changeFloor ≤ revision) :
    Told after revision path row := by
  rcases hLogged with hUnlogged | ⟨logged, hAppends⟩ | hTrims
  · unfold Told
    rwa [hUnlogged.rows, hUnlogged.changes]
  · rw [Told, hAppends.changes]
    rcases h with hEq | ⟨c, hMem, hLater⟩
    · rcases hAppends.rows path with hKept | ⟨c, hMem, hPath⟩
      · exact .inl (hKept.trans hEq)
      · refine .inr ⟨c, List.mem_append_right _ hMem, ?_, hPath⟩
        rw [hAppends.numbered c hMem]
        omega
    · exact .inr ⟨c, List.mem_append_left _ hMem, hLater⟩
  · rw [hTrims.changeFloor] at hFloor
    omega

theorem logSound_initialized : LogSound initialized where
  floor := le_rfl
  above := fun _ hMem => by cases hMem
  head := fun _ hMem => by cases hMem

end WorldSqlStore

end Stella.World
