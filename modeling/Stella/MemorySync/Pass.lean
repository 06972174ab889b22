import Stella.MemorySync.Plan

/-! # A memory sync pass

An action reads, may save a copy of this computer's version, and writes by compare-and-set;
other computers and edits may come between these.
-/

namespace Stella.MemorySync

variable {V : Type*} [DecidableEq V]

/-- What the cloud stores of a write, if it does not refuse it, and what a computer writes of a file it reads there. -/
structure Rules (V : Type*) where
  stored : String → V → Option V
  fetched : V → V

/-- What a pass of one computer works on; `conflicts` is the copies under `conflicts/`. -/
structure Desk (V : Type*) where
  local' : Files V
  cloud : Files V
  files : SyncBase V
  refused : Files V
  conflicts : List (String × V)

inductive Phase (V : Type*)
  | next
  | holding (version : V)
  | saved (version : V)

/-- The next step of an action; `none` when it is over, carried out or not. -/
def advance (rules : Rules V) (desk : Desk V) : MemorySyncAction V → Phase V → Desk V × Option (Phase V)
  | .record path pair, _ => ({ desk with files := desk.files.set path pair }, none)
  | .forget path, _ => ({ desk with files := desk.files.erase path }, none)
  | .push path localSha _, .next => (desk, if desk.local'.get? path = some localSha then some (.holding localSha) else none)
  | .push path localSha expectCloud, _ =>
    match rules.stored path localSha with
    | none => ({ desk with refused := desk.refused.set path localSha }, none)
    | some sha =>
      if desk.cloud.get? path ≠ expectCloud then (desk, none)
      else
        ({ desk with
          cloud := desk.cloud.set path sha
          files := desk.files.set path ⟨localSha, sha⟩
          refused := desk.refused.erase path }, none)
  | .pull path _, .next => (desk, (desk.cloud.get? path).map .holding)
  | .pull path expectLocal, .holding remote | .pull path expectLocal, .saved remote =>
    if desk.local'.get? path ≠ expectLocal then (desk, none)
    else
      ({ desk with
        local' := desk.local'.set path (rules.fetched remote)
        files := desk.files.set path ⟨rules.fetched remote, remote⟩ }, none)
  | .deleteCloud path expectCloud, _ =>
    if (desk.cloud.get? path).any (· ≠ expectCloud) then (desk, none)
    else ({ desk with cloud := desk.cloud.erase path, files := desk.files.erase path }, none)
  | .deleteLocal path expectLocal, _ =>
    if (desk.local'.get? path).any (· ≠ expectLocal) then (desk, none)
    else ({ desk with local' := desk.local'.erase path, files := desk.files.erase path }, none)
  | .conflict path _, .next => (desk, (desk.cloud.get? path).map .holding)
  | .conflict path localSha, .holding remote =>
    if desk.local'.get? path ≠ some localSha then (desk, none)
    else if remote = localSha then ({ desk with files := desk.files.set path ⟨localSha, remote⟩ }, none)
    else ({ desk with conflicts := (path, localSha) :: desk.conflicts }, some (.saved remote))
  | .conflict path localSha, .saved remote =>
    if desk.local'.get? path ≠ some localSha then ({ desk with conflicts := desk.conflicts.erase (path, localSha) }, none)
    else
      ({ desk with
        local' := desk.local'.set path (rules.fetched remote)
        files := desk.files.set path ⟨rules.fetched remote, remote⟩ }, none)

def Kept (base : SyncBase V) (conflicts : List (String × V)) (side : SyncedPair V → V) (path : String) (version : V) : Prop :=
  (∃ pair, base.get? path = some pair ∧ side pair = version) ∨ (path, version) ∈ conflicts

structure Guards (base : SyncBase V) (desk next : Desk V) : Prop where
  local' : ∀ path version, desk.local'.get? path = some version → next.local'.get? path ≠ some version →
    Kept base desk.conflicts SyncedPair.local' path version
  cloud : ∀ path version, desk.cloud.get? path = some version → next.cloud.get? path ≠ some version →
    Kept base desk.conflicts SyncedPair.cloud path version

def Saved (conflicts : List (String × V)) (action : MemorySyncAction V) : Phase V → Prop
  | .saved _ => ∀ path localSha, action = .conflict path localSha → (path, localSha) ∈ conflicts
  | _ => True

variable {rules : Rules V} {base : SyncBase V} {desk : Desk V} {action : MemorySyncAction V} {phase : Phase V}

variable {next : Desk V}

omit [DecidableEq V] in
theorem Guards.of_same (hLocal : next.local' = desk.local') (hCloud : next.cloud = desk.cloud) :
    Guards base desk next where
  local' _ _ hHere hGone := absurd (hLocal ▸ hHere) hGone
  cloud _ _ hThere hGone := absurd (hCloud ▸ hThere) hGone

variable {files : Files V} {path other : String} {version new : V} {side : SyncedPair V → V} {conflicts : List (String × V)}

omit [DecidableEq V] in
theorem kept_set (hOld : files.get? other = some version) (hGone : (files.set path new).get? other ≠ some version)
    (hKept : files.get? path = some version → Kept base conflicts side path version) : Kept base conflicts side other version := by
  by_cases hAt : path = other
  · rw [hAt] at hKept
    exact hKept hOld
  · rw [InsertionMap.get?_set_of_ne files new hAt] at hGone
    exact absurd hOld hGone

omit [DecidableEq V] in
theorem kept_erase
    (hOld : files.get? other = some version) (hGone : (files.erase path).get? other ≠ some version)
    (hKept : files.get? path = some version → Kept base conflicts side path version) : Kept base conflicts side other version := by
  by_cases hAt : path = other
  · rw [hAt] at hKept
    exact hKept hOld
  · rw [InsertionMap.get?_erase_of_ne files hAt] at hGone
    exact absurd hOld hGone

omit [DecidableEq V] in
theorem guards_set_local (hLocal : next.local' = desk.local'.set path new)
    (hCloud : next.cloud = desk.cloud)
    (hKept : ∀ version, desk.local'.get? path = some version → Kept base desk.conflicts SyncedPair.local' path version) :
    Guards base desk next where
  local' _ version hHere hGone := kept_set hHere (hLocal ▸ hGone) (hKept version)
  cloud _ _ hThere hGone := absurd (hCloud ▸ hThere) hGone

theorem advance_guards (hJustified : Justified base action) (hSaved : Saved desk.conflicts action phase) :
    Guards base desk (advance rules desk action phase).1 := by
  cases action with
  | record path pair => exact .of_same rfl rfl
  | forget path => exact .of_same rfl rfl
  | push path localSha expectCloud =>
    have hWrite : ∀ held : V, Guards base desk (advance rules desk (.push path localSha expectCloud) (.holding held)).1 := by
      intro held
      rw [advance]
      · split
        · exact .of_same rfl rfl
        · split
          · exact .of_same rfl rfl
          · rename_i sha _ hExpected
            refine ⟨fun other version hHere hGone => absurd hHere hGone, fun other version hThere hGone =>
              kept_set hThere hGone fun hOld => .inl ?_⟩
            exact hJustified version ((not_not.mp hExpected).symm.trans hOld)
      · nofun
    cases phase with
    | next => exact .of_same rfl rfl
    | holding held => exact hWrite held
    | saved held => exact hWrite held
  | pull path expectLocal =>
    have hWrite : ∀ held : V, Guards base desk (advance rules desk (.pull path expectLocal) (.holding held)).1 := by
      intro held
      rw [advance]
      split
      · exact .of_same rfl rfl
      · rename_i hExpected
        exact guards_set_local rfl rfl fun version hOld => .inl (hJustified version ((not_not.mp hExpected).symm.trans hOld))
    cases phase with
    | next => exact .of_same rfl rfl
    | holding held => exact hWrite held
    | saved held => exact hWrite held
  | deleteCloud path expectCloud =>
    rw [advance]
    split
    · exact .of_same rfl rfl
    · rename_i hExpected
      refine ⟨fun other version hHere hGone => absurd hHere hGone, fun other version hThere hGone =>
        kept_erase hThere hGone fun hOld => .inl ?_⟩
      rw [hOld, Option.any_some] at hExpected
      obtain ⟨pair, hBase, hPair⟩ := hJustified
      exact ⟨pair, hBase, hPair.trans (by simpa using hExpected : version = _).symm⟩
  | deleteLocal path expectLocal =>
    rw [advance]
    split
    · exact .of_same rfl rfl
    · rename_i hExpected
      refine ⟨fun other version hHere hGone => kept_erase hHere hGone fun hOld => .inl ?_,
        fun other version hThere hGone => absurd hThere hGone⟩
      rw [hOld, Option.any_some] at hExpected
      obtain ⟨pair, hBase, hPair⟩ := hJustified
      exact ⟨pair, hBase, hPair.trans (by simpa using hExpected : version = _).symm⟩
  | conflict path localSha =>
    cases phase with
    | next => exact .of_same rfl rfl
    | holding remote =>
      rw [advance]
      split
      · exact .of_same rfl rfl
      split
      · exact .of_same rfl rfl
      · exact .of_same rfl rfl
    | saved remote =>
      rw [advance]
      split
      · exact .of_same rfl rfl
      · rename_i hMine
        refine guards_set_local rfl rfl fun version hOld => .inr ?_
        rw [hOld, not_not, Option.some.injEq] at hMine
        rw [hMine]
        exact hSaved path localSha rfl

theorem advance_saved {later : Phase V} (h : (advance rules desk action phase).2 = some later) :
    Saved (advance rules desk action phase).1.conflicts action later := by
  cases later with
  | next => trivial
  | holding version => trivial
  | saved version =>
    rintro path localSha rfl
    cases phase with
    | next =>
      obtain ⟨remote, -, hHolding⟩ := Option.map_eq_some_iff.mp h
      cases hHolding
    | holding remote =>
      rw [advance] at h ⊢
      split at h
      · cases h
      · rename_i hMine
        split at h
        · cases h
        · rename_i hDiffers
          rw [if_neg hMine, if_neg hDiffers]
          exact List.mem_cons_self
    | saved remote =>
      rw [advance] at h
      split at h
      · cases h
      · cases h

end Stella.MemorySync
