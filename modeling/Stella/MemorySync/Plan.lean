import Mathlib.Data.List.Dedup
import Mathlib.Data.List.Sort
import Stella.Library.InsertionMap

/-! # The plan of a memory sync pass

`planMemorySync` compares each side of a file with what it was when the file was last synced.
A version stands for a file's contents and their sha.
-/

namespace Stella.MemorySync

variable {V : Type*} [DecidableEq V]

structure SyncedPair (V : Type*) where
  local' : V
  cloud : V

abbrev Files (V : Type*) := InsertionMap String V

abbrev SyncBase (V : Type*) := InsertionMap String (SyncedPair V)

inductive MemorySyncAction (V : Type*)
  | push (path : String) (localSha : V) (expectCloud : Option V)
  | pull (path : String) (expectLocal : Option V)
  | deleteCloud (path : String) (expectCloud : V)
  | deleteLocal (path : String) (expectLocal : V)
  | record (path : String) (pair : SyncedPair V)
  | forget (path : String)
  | conflict (path : String) (localSha : V)

def MemorySyncAction.path : MemorySyncAction V → String
  | .push path _ _ | .pull path _ | .deleteCloud path _ | .deleteLocal path _ | .record path _ | .forget path | .conflict path _ => path

/-- The loop body of `planMemorySync`. -/
def planPath (path : String) (was : Option (SyncedPair V)) (here there : Option V) : Option (MemorySyncAction V) :=
  let changedHere := decide (here ≠ was.map SyncedPair.local')
  let changedThere := decide (there ≠ was.map SyncedPair.cloud)
  if !changedHere && !changedThere then none
  else if changedHere && !changedThere then
    match here, was with
    | some here, _ => some (.push path here there)
    | none, some was => some (.deleteCloud path was.cloud)
    | none, none => none
  else if !changedHere then
    match there, was with
    | some _, _ => some (.pull path here)
    | none, some was => some (.deleteLocal path was.local')
    | none, none => none
  else
    match here, there with
    | none, none => some (.forget path)
    | none, some _ => some (.pull path none)
    | some here, none => some (.push path here none)
    | some here, some there => if here = there then some (.record path ⟨here, there⟩) else some (.conflict path here)

def planMemorySync (base : SyncBase V) (local' cloud : Files V) : List (MemorySyncAction V) :=
  let paths := (base.keys ++ local'.keys ++ cloud.keys).dedup.insertionSort (· ≤ ·)
  paths.filterMap fun path => planPath path (base.get? path) (local'.get? path) (cloud.get? path)

def Justified (base : SyncBase V) : MemorySyncAction V → Prop
  | .push path _ expectCloud => ∀ version ∈ expectCloud, ∃ pair, base.get? path = some pair ∧ pair.cloud = version
  | .pull path expectLocal => ∀ version ∈ expectLocal, ∃ pair, base.get? path = some pair ∧ pair.local' = version
  | .deleteCloud path expectCloud => ∃ pair, base.get? path = some pair ∧ pair.cloud = expectCloud
  | .deleteLocal path expectLocal => ∃ pair, base.get? path = some pair ∧ pair.local' = expectLocal
  | _ => True

inductive Plans (path : String) : Option (SyncedPair V) → Option V → Option V → Option (MemorySyncAction V) → Prop
  | settled (was : Option (SyncedPair V)) : Plans path was (was.map SyncedPair.local') (was.map SyncedPair.cloud) none
  | push {was : Option (SyncedPair V)} {here : V} {there : Option V} (hHere : some here ≠ was.map SyncedPair.local')
      (hThere : there = was.map SyncedPair.cloud ∨ there = none) : Plans path was (some here) there (some (.push path here there))
  | pull {was : Option (SyncedPair V)} {here : Option V} {there : V} (hHere : here = was.map SyncedPair.local' ∨ here = none) :
      Plans path was here (some there) (some (.pull path here))
  | deleteCloud (was : SyncedPair V) : Plans path (some was) none (some was.cloud) (some (.deleteCloud path was.cloud))
  | deleteLocal (was : SyncedPair V) : Plans path (some was) (some was.local') none (some (.deleteLocal path was.local'))
  | forget (was : SyncedPair V) : Plans path (some was) none none (some (.forget path))
  | record {was : Option (SyncedPair V)} (version : V) : Plans path was (some version) (some version) (some (.record path ⟨version, version⟩))
  | conflict {was : Option (SyncedPair V)} {here there : V} (hHere : some here ≠ was.map SyncedPair.local') (hDiffer : here ≠ there) :
      Plans path was (some here) (some there) (some (.conflict path here))

theorem planPath_plans (path : String) (was : Option (SyncedPair V)) (here there : Option V) :
    Plans path was here there (planPath path was here there) := by
  unfold planPath
  by_cases hHere : here = was.map SyncedPair.local'
  · by_cases hThere : there = was.map SyncedPair.cloud
    · simp only [hHere, hThere, ne_eq, not_true_eq_false, decide_false, Bool.not_false, Bool.and_self, if_true]
      exact .settled was
    · simp only [hHere, hThere, ne_eq, not_true_eq_false, not_false_eq_true, decide_false, decide_true, Bool.not_false, Bool.not_true,
        Bool.and_false, if_true, if_false, Bool.false_eq_true]
      cases there with
      | some there => exact .pull (.inl rfl)
      | none =>
        cases was with
        | some was => exact .deleteLocal was
        | none => exact absurd rfl hThere
  · by_cases hThere : there = was.map SyncedPair.cloud
    · simp only [hHere, hThere, ne_eq, not_true_eq_false, not_false_eq_true, decide_false, decide_true, Bool.not_false, Bool.not_true,
        Bool.and_true, if_true, if_false, Bool.false_eq_true]
      cases here with
      | some here => exact .push hHere (.inl rfl)
      | none =>
        cases was with
        | some was => exact .deleteCloud was
        | none => exact absurd rfl hHere
    · simp only [hHere, hThere, ne_eq, not_false_eq_true, decide_true, Bool.not_true, Bool.and_false, if_false,
        Bool.false_eq_true]
      cases here with
      | none =>
        cases there with
        | none =>
          cases was with
          | some was => exact .forget was
          | none => exact absurd rfl hHere
        | some there => exact .pull (.inr rfl)
      | some here =>
        cases there with
        | none => exact .push hHere (.inr rfl)
        | some there =>
          dsimp only
          split
          · rename_i hEq
            rw [← hEq]
            exact .record here
          · rename_i hDiffer
            exact .conflict hHere hDiffer

variable {path : String} {here there : Option V} {action : MemorySyncAction V}

theorem planPath_path {was : Option (SyncedPair V)}
    (h : planPath path was here there = some action) : action.path = path := by
  have hPlans := planPath_plans path was here there
  rw [h] at hPlans
  cases hPlans <;> rfl

variable {base : SyncBase V}

theorem planPath_justified
    (h : planPath path (base.get? path) here there = some action) : Justified base action := by
  have hPlans := planPath_plans path (base.get? path) here there
  rw [h] at hPlans
  generalize hWas : base.get? path = was at hPlans
  cases hPlans with
  | push _ hThere =>
    intro version hVersion
    rcases hThere with rfl | rfl
    · rw [← hWas] at hVersion
      exact Option.mem_map.mp hVersion
    · cases hVersion
  | pull hHere =>
    intro version hVersion
    rcases hHere with rfl | rfl
    · rw [← hWas] at hVersion
      exact Option.mem_map.mp hVersion
    · cases hVersion
  | deleteCloud was => exact ⟨was, hWas, rfl⟩
  | deleteLocal was => exact ⟨was, hWas, rfl⟩
  | forget was => trivial
  | record version => trivial
  | conflict _ _ => trivial

theorem planMemorySync_justified {local' cloud : Files V}
    (h : action ∈ planMemorySync base local' cloud) : Justified base action := by
  obtain ⟨path, -, hPlanned⟩ := List.mem_filterMap.mp h
  exact planPath_justified hPlanned

end Stella.MemorySync
