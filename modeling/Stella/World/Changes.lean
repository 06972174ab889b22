import Stella.World.Logged

/-! # Pulling the changes of a world

`changesSince` of `world/store.ts`, and the working copy of a container that follows it.
-/

namespace Stella.World

open Transition List

structure WorldChanges where
  revision : Nat
  entries : List WorldEntry
  deleted : List Text
  resync : Bool

namespace WorldSqlStore

variable {store after : WorldSqlStore}

/-- The loop of `changesSince` over the rows of a revision. -/
def report (store : WorldSqlStore) : List ChangeRow → List WorldEntry × List Text
  | [] => ([], [])
  | row :: rest =>
    let later := store.report rest
    if isWorldDrivePath row.path then later
    else
      match store.entryRow row.path with
      | some node => (⟨row.path, node⟩ :: later.1, later.2)
      | none => (later.1, row.path :: later.2)

/-- `changesSince`; the revision is none when it is no whole number from zero on. -/
def changesSince (store : WorldSqlStore) : Option Nat → Except WorldError WorldChanges
  | none => .error .invalidRevision
  | some revision =>
    if revision < store.changeFloor then .ok ⟨store.revision, [], [], true⟩
    else if store.revision ≤ revision then .ok ⟨store.revision, [], [], false⟩
    else
      match ((store.changes.filter (fun row => revision < row.revision)).map ChangeRow.revision).min? with
      | none => .ok ⟨store.revision, [], [], false⟩
      | some next =>
        let rows := (store.changes.filter (fun row => row.revision = next)).insertionSort (fun a b => a.path ≤ b.path)
        let reported := store.report rows
        .ok ⟨next, reported.1, reported.2, false⟩

def outside (store : WorldSqlStore) (path : Text) : Option Node :=
  if isWorldDrivePath path then none else store.entryRow path

end WorldSqlStore

structure Puller where
  revision : Nat
  entries : InsertionMap Text Node

def WorldSqlStore.exported (store : WorldSqlStore) : Puller :=
  ⟨store.revision, store.live.dirents.filter (fun row => !isWorldDrivePath row.1)⟩

def Puller.follow (p : Puller) (changes : WorldChanges) : Puller where
  revision := changes.revision
  entries := changes.deleted.foldl InsertionMap.erase
    (changes.entries.foldl (fun entries entry => InsertionMap.set entries entry.path entry.node) p.entries)

structure PullState where
  store : WorldSqlStore
  puller : Option Puller
  answer : Option WorldChanges

inductive PullInput
  | call (c : WorldSqlStore.Call)
  | takeExport
  | pull

namespace PullState

/-- The parameter is what a copy becomes that is told `resync`. -/
def step (resynced : Puller → Option Puller) (s : PullState) : PullInput → PullState
  | .call c => { s with store := (s.store.call c).2 }
  | .takeExport => { s with puller := some s.store.exported, answer := none }
  | .pull =>
    match s.puller with
    | none => s
    | some p =>
      match s.store.changesSince (some p.revision) with
      | .error _ => s
      | .ok changes =>
        { s with puller := if changes.resync then resynced (p.follow changes) else some (p.follow changes), answer := some changes }

def create : PullState := ⟨WorldSqlStore.initialized, none, none⟩

def Completes (s : PullState) : PullInput → Prop
  | .call c => (s.store.call c).1 = .ok ()
  | _ => True

instance (s : PullState) : DecidablePred s.Completes
  | .call c => inferInstanceAs (Decidable ((s.store.call c).1 = .ok ()))
  | .takeExport => .isTrue trivial
  | .pull => .isTrue trivial

def Converged (s : PullState) : Prop :=
  ∀ changes, s.answer = some changes → changes.resync = false → changes.revision = s.store.revision →
    ∃ p, s.puller = some p ∧ ∀ q, InsertionMap.get? p.entries q = s.store.outside q

end PullState

namespace WorldSqlStore

variable {store after : WorldSqlStore} {p : Puller}

theorem report_node {rows : List ChangeRow} {entry : WorldEntry} (h : entry ∈ (store.report rows).1) :
    store.entryRow entry.path = some entry.node := by
  induction rows with
  | nil => cases h
  | cons row rest ih =>
    unfold report at h
    dsimp only at h
    split at h
    · exact ih h
    · split at h
      · rename_i node hRow
        rcases mem_cons.mp h with rfl | hLater
        · exact hRow
        · exact ih hLater
      · exact ih h

theorem mem_report (rows : List ChangeRow) (q : Text) :
    (q ∈ (store.report rows).1.map WorldEntry.path ↔
      (∃ row ∈ rows, row.path = q) ∧ isWorldDrivePath q = false ∧ (store.entryRow q).isSome = true) ∧
    (q ∈ (store.report rows).2 ↔
      (∃ row ∈ rows, row.path = q) ∧ isWorldDrivePath q = false ∧ store.entryRow q = none) := by
  induction rows with
  | nil => simp [report]
  | cons row rest ih =>
    obtain ⟨ihEntries, ihDeleted⟩ := ih
    unfold report
    dsimp only
    rcases eq_or_ne row.path q with rfl | hOther
    · by_cases hDrive : isWorldDrivePath row.path = true
      · rw [if_pos hDrive, ihEntries, ihDeleted]
        simp [hDrive]
      · rw [if_neg hDrive]
        cases hRow : store.entryRow row.path with
        | none => simp_all
        | some node => simp_all
    · have hRest : (∃ other ∈ row :: rest, other.path = q) ↔ ∃ other ∈ rest, other.path = q := by
        simp [hOther]
      rw [hRest]
      split
      · exact ⟨ihEntries, ihDeleted⟩
      · split
        · constructor
          · rw [map_cons, mem_cons, ← ihEntries]
            simp [hOther.symm]
          · exact ihDeleted
        · constructor
          · exact ihEntries
          · rw [mem_cons, ← ihDeleted]
            simp [hOther.symm]

theorem get?_overwrite {read : Text → Option Node} {entries : List WorldEntry}
    (hRead : ∀ entry ∈ entries, read entry.path = some entry.node) (copy : InsertionMap Text Node) (q : Text) :
    InsertionMap.get? (entries.foldl (fun copy entry => InsertionMap.set copy entry.path entry.node) copy) q =
      if q ∈ entries.map WorldEntry.path then read q else InsertionMap.get? copy q := by
  induction entries generalizing copy with
  | nil => simp
  | cons entry rest ih =>
    rw [forall_mem_cons] at hRead
    rw [foldl_cons, ih hRead.2, map_cons]
    rcases eq_or_ne entry.path q with rfl | hOther
    · rw [InsertionMap.get?_set_self, if_pos mem_cons_self, ← hRead.1]
      exact ite_self _
    · rw [InsertionMap.get?_set_of_ne _ _ hOther]
      simp [hOther.symm]

theorem follow_report (p : Puller) (rows : List ChangeRow) (revision : Nat) (q : Text) :
    InsertionMap.get? (p.follow ⟨revision, (store.report rows).1, (store.report rows).2, false⟩).entries q =
      if (∃ row ∈ rows, row.path = q) ∧ isWorldDrivePath q = false then store.entryRow q
      else InsertionMap.get? p.entries q := by
  have hMem := @mem_report store rows q
  unfold Puller.follow
  dsimp only
  rw [InsertionMap.get?_foldl_erase, get?_overwrite (fun entry => report_node)]
  by_cases hReported : (∃ row ∈ rows, row.path = q) ∧ isWorldDrivePath q = false
  · rw [if_pos hReported]
    cases hRow : store.entryRow q with
    | none => rw [if_pos (hMem.2.mpr ⟨hReported.1, hReported.2, hRow⟩)]
    | some node =>
      rw [if_neg (fun hGone => by rw [(hMem.2.mp hGone).2.2] at hRow; cases hRow),
        if_pos (hMem.1.mpr ⟨hReported.1, hReported.2, by rw [hRow]; rfl⟩)]
  · rw [if_neg hReported, if_neg (fun hGone => hReported ⟨(hMem.2.mp hGone).1, (hMem.2.mp hGone).2.1⟩),
      if_neg (fun hTaken => hReported ⟨(hMem.1.mp hTaken).1, (hMem.1.mp hTaken).2.1⟩)]

structure Follows (store : WorldSqlStore) (p : Puller) : Prop where
  behind : p.revision ≤ store.revision
  told : store.changeFloor ≤ p.revision → ∀ q, isWorldDrivePath q = false →
    store.Told p.revision q (InsertionMap.get? p.entries q)
  drive : ∀ q, isWorldDrivePath q = true → InsertionMap.get? p.entries q = none

theorem follows_exported (store : WorldSqlStore) : Follows store store.exported := by
  have hRead : ∀ q, InsertionMap.get? store.exported.entries q =
      if (!isWorldDrivePath q) = true then store.entryRow q else none :=
    fun q => InsertionMap.get?_filter_key store.live.dirents (fun q => !isWorldDrivePath q) q
  constructor
  · exact le_rfl
  · intro _ q hOut
    rw [hRead, hOut]
    exact .inl rfl
  · intro q hDrive
    rw [hRead, hDrive]
    rfl

section

variable (h : Follows store p)
include h

theorem Follows.logged (hLogged : Logged store after) : Follows after p where
  behind := h.behind.trans hLogged.revision_le
  told := fun hFloor q hOut =>
    (h.told (hLogged.floor_le h.behind hFloor) q hOut).logged hLogged h.behind hFloor
  drive := h.drive

theorem Follows.current (hSound : LogSound store) (hHead : p.revision = store.revision) (q : Text) :
    InsertionMap.get? p.entries q = store.outside q := by
  unfold outside
  split
  · rename_i hDrive
    exact h.drive q hDrive
  · rename_i hOut
    rcases h.told (hHead ▸ hSound.floor) q (Bool.eq_false_iff.mpr hOut) with hEq | ⟨c, hMem, hLater, -⟩
    · exact hEq.symm
    · have hBound := hSound.head c hMem
      omega

theorem Follows.nothing (hFloor : store.changeFloor ≤ p.revision)
    (hNone : ∀ c ∈ store.changes, ¬ p.revision < c.revision) :
    Follows store (p.follow ⟨store.revision, [], [], false⟩) where
  behind := le_rfl
  told := fun _ q hOut => by
    rcases h.told hFloor q hOut with hEq | ⟨c, hMem, hLater, -⟩
    · exact .inl hEq
    · exact absurd hLater (hNone c hMem)
  drive := h.drive

theorem Follows.pulled (hSound : LogSound store) {changes : WorldChanges}
    (hPull : store.changesSince (some p.revision) = .ok changes) (hGo : changes.resync = false) :
    Follows store (p.follow changes) := by
  unfold changesSince at hPull
  dsimp only at hPull
  split at hPull
  · obtain rfl := Except.ok.inj hPull
    cases hGo
  rename_i hFloor
  rw [not_lt] at hFloor
  split at hPull
  · rename_i hCur
    obtain rfl := Except.ok.inj hPull
    refine h.nothing hFloor (fun c hMem => ?_)
    have hBound := hSound.head c hMem
    omega
  cases hNext : ((store.changes.filter (fun row => p.revision < row.revision)).map ChangeRow.revision).min? with
  | none =>
    rw [hNext] at hPull
    obtain rfl := Except.ok.inj hPull
    refine h.nothing hFloor (fun c hMem hLater => ?_)
    rw [min?_eq_none_iff, map_eq_nil_iff, filter_eq_nil_iff] at hNext
    exact hNext c hMem (decide_eq_true hLater)
  | some next =>
    rw [hNext] at hPull
    obtain rfl := Except.ok.inj hPull
    obtain ⟨hNextMem, hLeast⟩ := min?_eq_some_iff.mp hNext
    obtain ⟨first, hFirst, rfl⟩ := mem_map.mp hNextMem
    rw [mem_filter, decide_eq_true_iff] at hFirst
    have hRows : ∀ q, (∃ row ∈ (store.changes.filter (fun row => row.revision = first.revision)).insertionSort
        (fun a b => a.path ≤ b.path), row.path = q) ↔ ∃ row ∈ store.changes, row.revision = first.revision ∧ row.path = q := by
      intro q
      simp only [mem_insertionSort, mem_filter, decide_eq_true_iff, and_assoc]
    constructor
    · exact hSound.head first hFirst.1
    · intro _ q hOut
      rw [follow_report]
      split
      · exact .inl rfl
      · rename_i hUnreported
        rcases h.told hFloor q hOut with hEq | ⟨c, hMem, hLater, hPath⟩
        · exact .inl hEq
        · -- a row of the path that is not of the reported revision is of a later one
          refine .inr ⟨c, hMem, lt_of_le_of_ne ?_ (fun hEq => ?_), hPath⟩
          · exact hLeast c.revision (mem_map_of_mem (mem_filter.mpr ⟨hMem, decide_eq_true hLater⟩))
          · exact hUnreported ⟨(hRows q).mpr ⟨c, hMem, hEq.symm, hPath⟩, hOut⟩
    · intro q hDrive
      rw [follow_report, if_neg (fun hBoth => by rw [hDrive] at hBoth; cases hBoth.2)]
      exact h.drive q hDrive

end

end WorldSqlStore

namespace PullState

open WorldSqlStore (LogSound Follows)

variable {s : PullState}

structure Tracks (s : PullState) : Prop where
  sound : LogSound s.store
  follows : ∀ p, s.puller = some p → Follows s.store p
  answered : ∀ changes, s.answer = some changes → changes.resync = false →
    ∃ p, s.puller = some p ∧ p.revision = changes.revision

theorem tracks_create : Tracks create where
  sound := WorldSqlStore.logSound_initialized
  follows := fun _ hPuller => by cases hPuller
  answered := fun _ hAns => by cases hAns

theorem Tracks.step (h : s.Tracks) {input : PullInput} (hOk : s.Completes input) :
    (s.step (fun _ => none) input).Tracks := by
  cases input with
  | call c =>
    have hLogged : WorldSqlStore.Logged s.store (s.store.call c).2 := WorldSqlStore.logged_call hOk
    exact ⟨h.sound.logged hLogged, fun p hPuller => (h.follows p hPuller).logged hLogged, h.answered⟩
  | takeExport =>
    refine ⟨h.sound, fun p hPuller => ?_, fun changes hAns => by cases hAns⟩
    obtain rfl := Option.some.inj hPuller
    exact WorldSqlStore.follows_exported s.store
  | pull =>
    cases hPuller : s.puller with
    | none =>
      rw [show s.step (fun _ => none) .pull = s by simp only [PullState.step, hPuller]]
      exact h
    | some p =>
      cases hPull : s.store.changesSince (some p.revision) with
      | error e =>
        rw [show s.step (fun _ => none) .pull = s by simp only [PullState.step, hPuller, hPull]]
        exact h
      | ok changes =>
        have hFollows := h.follows p hPuller
        have hStep : s.step (fun _ => none) .pull =
            { s with puller := if changes.resync then none else some (p.follow changes), answer := some changes } := by
          simp only [PullState.step, hPuller, hPull]
        rw [hStep]
        refine ⟨h.sound, fun later hLater => ?_, fun told hTold hGo => ?_⟩
        · dsimp only at hLater
          split at hLater
          · cases hLater
          · rename_i hGo
            obtain rfl := Option.some.inj hLater
            exact hFollows.pulled h.sound hPull (Bool.eq_false_iff.mpr hGo)
        · obtain rfl := Option.some.inj hTold
          refine ⟨p.follow changes, ?_, rfl⟩
          dsimp only
          rw [hGo]
          rfl

theorem Tracks.converged (h : s.Tracks) : s.Converged := by
  intro changes hAns hGo hHead
  obtain ⟨p, hPuller, hRev⟩ := h.answered changes hAns hGo
  exact ⟨p, hPuller, (h.follows p hPuller).current h.sound (hRev.trans hHead)⟩

/-- In every run of completed calls, exports and pulls, a copy that drops what it has when it is told `resync`
is the live world whenever it has been given the head's revision. -/
theorem copy_converged_of_run {inputs : List PullInput} (hRun : Along (step (fun _ => none)) Completes create inputs) :
    (run (step (fun _ => none)) create inputs).Converged := by
  have hStep : ∀ (s : PullState) (input : PullInput), s.Tracks → s.Completes input →
      (s.step (fun _ => none) input).Tracks := fun s input h hOk => h.step hOk
  exact (run_invariant hStep tracks_create hRun).converged

def remadeRun : List PullInput :=
  [.takeExport, .call (.mkdir 0 "a".toList none), .pull, .call (.remove "a".toList true),
    .call (.mkdir 0 "a/b".toList none), .pull, .pull]

theorem copy_converged_of_run_remade :
    ((run (step (fun _ => none)) create remadeRun).answer.map WorldChanges.revision = some 3 ∧
      (run (step (fun _ => none)) create remadeRun).store.revision = 3) ∧
      (run (step (fun _ => none)) create remadeRun).Converged :=
  ⟨by decide, copy_converged_of_run ⟨trivial, by decide, trivial, by decide, by decide, trivial, trivial, trivial⟩⟩

def toggle (n : Nat) : WorldSqlStore.Call :=
  if n % 2 = 0 then .mkdir 0 "a".toList none else .remove "a".toList true

def flatDir : Node := ⟨.dir, 0o755, 0, 0, none, none⟩

def flat (dirents : Dirents) (revision : Nat) (changes : List ChangeRow) (changeFloor : Nat) : WorldSqlStore :=
  { WorldSqlStore.initialized with
    live := { WorldSqlStore.initialized.live with revision := some revision, dirents }
    revision, changes, changeFloor }

theorem flat_mkdir (revision : Nat) (changes : List ChangeRow) (floor : Nat) :
    Mutation.mkdir 0 "a".toList none (flat [] revision changes floor).start =
      (.ok (), ⟨flat [("a".toList, flatDir)] revision changes floor, [("a".toList, .upsert)]⟩) := rfl

theorem flat_remove (revision : Nat) (changes : List ChangeRow) (floor : Nat) :
    Mutation.remove "a".toList true (flat [("a".toList, flatDir)] revision changes floor).start =
      (.ok (), ⟨flat [] revision changes floor, [("a".toList, .delete)]⟩) := rfl

theorem flat_mutate {operation : Mutation → Except WorldError Unit × Mutation} {before dirents : Dirents} {revision : Nat}
    {changes : List ChangeRow} {kind : ChangeKind}
    (hBody : operation (flat before revision changes 0).start =
      (.ok (), ⟨flat dirents revision changes 0, [("a".toList, kind)]⟩)) :
    WorldSqlStore.outcome ((flat before revision changes 0).mutate operation) =
      (.ok (), if worldChangeLogMaxRows < changes.length + 1 then flat dirents (revision + 1) [] (revision + 1)
        else flat dirents (revision + 1) (changes ++ [⟨revision + 1, "a".toList, kind⟩]) 0) := by
  have hLen : (changes ++ ([("a".toList, kind)] : InsertionMap Text ChangeKind).map
      (fun change => (⟨revision + 1, change.1, change.2⟩ : ChangeRow))).length = changes.length + 1 := by simp
  unfold WorldSqlStore.mutate
  rw [show operation ⟨flat before revision changes 0, []⟩ = _ from hBody]
  dsimp only
  rw [if_neg (by simp)]
  dsimp only [flat]
  by_cases hLong : worldChangeLogMaxRows < changes.length + 1
  · simp only [hLen, if_pos hLong]
    rfl
  · simp only [hLen, if_neg hLong]
    rfl

def toggledRows (n : Nat) : Dirents := if n % 2 = 0 then [] else [("a".toList, flatDir)]

def toggledLog (n : Nat) : List ChangeRow :=
  (List.range n).map (fun k => ⟨k + 1, "a".toList, if k % 2 = 0 then .upsert else .delete⟩)

theorem toggledLog_succ (n : Nat) :
    toggledLog (n + 1) = toggledLog n ++ [⟨n + 1, "a".toList, if n % 2 = 0 then .upsert else .delete⟩] := by
  unfold toggledLog
  rw [range_succ, map_append]
  rfl

theorem toggled_call (n : Nat) : (flat (toggledRows n) n (toggledLog n) 0).call (toggle n) =
    (.ok (), if worldChangeLogMaxRows < n + 1 then flat (toggledRows (n + 1)) (n + 1) [] (n + 1)
      else flat (toggledRows (n + 1)) (n + 1) (toggledLog (n + 1)) 0) := by
  have hLen : (toggledLog n).length = n := by simp [toggledLog]
  rw [toggledLog_succ]
  rcases Nat.mod_two_eq_zero_or_one n with hEven | hOdd
  · have hNext : (n + 1) % 2 ≠ 0 := by omega
    have hCall := flat_mutate (flat_mkdir n (toggledLog n) 0)
    rw [hLen] at hCall
    unfold toggle toggledRows
    rw [if_pos hEven, if_pos hEven, if_pos hEven, if_neg hNext]
    exact hCall
  · have hHere : n % 2 ≠ 0 := by omega
    have hNext : (n + 1) % 2 = 0 := by omega
    have hCall := flat_mutate (flat_remove n (toggledLog n) 0)
    rw [hLen] at hCall
    unfold toggle toggledRows
    rw [if_neg hHere, if_neg hHere, if_neg hHere, if_pos hNext]
    exact hCall

def toggles (n : Nat) : List PullInput := (List.range n).map (fun k => .call (toggle k))

theorem toggles_run (resynced : Puller → Option Puller) (puller : Option Puller) {n : Nat} (hShort : n ≤ worldChangeLogMaxRows) :
    Along (step resynced) Completes ⟨WorldSqlStore.initialized, puller, none⟩ (toggles n) ∧
      run (step resynced) ⟨WorldSqlStore.initialized, puller, none⟩ (toggles n) =
        ⟨flat (toggledRows n) n (toggledLog n) 0, puller, none⟩ := by
  induction n with
  | zero => exact ⟨trivial, rfl⟩
  | succ n ih =>
    obtain ⟨hAlong, hRun⟩ := ih (by omega)
    have hCall := toggled_call n
    rw [if_neg (by omega)] at hCall
    have hSucc : toggles (n + 1) = toggles n ++ [.call (toggle n)] := by
      unfold toggles
      rw [range_succ, map_append]
      rfl
    rw [hSucc, along_append, run_append, hRun]
    refine ⟨⟨hAlong, congrArg Prod.fst hCall, trivial⟩, ?_⟩
    exact congrArg (fun left => (⟨left.2, puller, none⟩ : PullState)) hCall

def staleRun : List PullInput :=
  .takeExport :: (toggles worldChangeLogMaxRows ++ [.call (toggle worldChangeLogMaxRows), .pull, .pull])

theorem stale_pulls {floor : Nat} (hFloor : 0 < floor) (dirents : Dirents) :
    run (step some) ⟨flat dirents floor [] floor, some ⟨0, []⟩, none⟩ [.pull, .pull] =
      ⟨flat dirents floor [] floor, some ⟨floor, []⟩, some ⟨floor, [], [], false⟩⟩ := by
  have hTold : (flat dirents floor [] floor).changesSince (some 0) = .ok ⟨floor, [], [], true⟩ := if_pos hFloor
  have hAgain : (flat dirents floor [] floor).changesSince (some floor) = .ok ⟨floor, [], [], false⟩ :=
    (if_neg (lt_irrefl floor)).trans (if_pos le_rfl)
  have hFirst : step some ⟨flat dirents floor [] floor, some ⟨0, []⟩, none⟩ .pull =
      ⟨flat dirents floor [] floor, some ⟨floor, []⟩, some ⟨floor, [], [], true⟩⟩ := by
    simp only [step, hTold]
    rfl
  rw [run_cons, hFirst, run_cons, run_nil]
  simp only [step, hAgain]
  rfl

theorem stale_run : Along (step some) Completes create staleRun ∧ ∃ floor, run (step some) create staleRun =
    ⟨flat [("a".toList, flatDir)] floor [] floor, some ⟨floor, []⟩, some ⟨floor, [], [], false⟩⟩ := by
  obtain ⟨n, hN⟩ : ∃ n, n = worldChangeLogMaxRows := ⟨_, rfl⟩
  obtain ⟨hAlong, hRun⟩ := toggles_run some (some WorldSqlStore.initialized.exported) hN.le
  have hCall := toggled_call n
  have hRows : toggledRows (n + 1) = [("a".toList, flatDir)] := by
    rw [hN]
    exact if_neg (by decide)
  rw [if_pos (by omega), hRows] at hCall
  have hTake : step some create .takeExport = ⟨WorldSqlStore.initialized, some WorldSqlStore.initialized.exported, none⟩ := rfl
  unfold staleRun
  rw [← hN, along_cons, run_cons, hTake, along_append, run_append, hRun, along_cons, run_cons]
  have hLast : ∀ puller, step some ⟨flat (toggledRows n) n (toggledLog n) 0, puller, none⟩ (.call (toggle n)) =
      ⟨flat [("a".toList, flatDir)] (n + 1) [] (n + 1), puller, none⟩ :=
    fun puller => congrArg (fun left => (⟨left.2, puller, none⟩ : PullState)) hCall
  rw [hLast]
  exact ⟨⟨trivial, hAlong, congrArg Prod.fst hCall, trivial, trivial, trivial⟩, n + 1, stale_pulls (Nat.succ_pos n) _⟩

/-- A copy that keeps its entries and goes on from the revision it is told with `resync` misses what was trimmed. -/
theorem stale_not_converged : Along (step some) Completes create staleRun ∧ ¬ (run (step some) create staleRun).Converged := by
  obtain ⟨hAlong, floor, hRun⟩ := stale_run
  refine ⟨hAlong, fun h => ?_⟩
  rw [hRun] at h
  obtain ⟨p, hPuller, hRows⟩ := h ⟨floor, [], [], false⟩ rfl rfl rfl
  obtain rfl := Option.some.inj hPuller
  have hRow := hRows "a".toList
  cases hRow

end PullState

end Stella.World
