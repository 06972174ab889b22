import Stella.Drive.Held
import Mathlib.Data.List.Count
import Mathlib.Data.List.Pairwise

/-! # What a turn writes over, and what it tells of its files

The upload rule is decided on the rows of one moment and holds for the commit as long as no row
of the user comes to a path the turn still has to write.
-/

namespace Stella.Drive

open Stella.Transition List

def Overwrite.Allowed (o : Overwrite) : Prop :=
  o.row.origin = "upload" →
    (∃ f ∈ o.report.files, f.path = o.row.path ∧ f.knownUpdatedAt = some o.row.updatedAt) ∨
      (o.writeKey ≠ none ∧ o.row.writeKey = o.writeKey)

structure TurnResult.Exact (result : TurnResult) : Prop where
  once : ∀ f ∈ result.report.files,
    (result.stored ++ result.skipped.map DriveSkip.path).countP
      (fun p => p = f.path ∨ ⟨f.path, p⟩ ∈ result.renamed) = 1
  apart : result.stored.Nodup

structure TurnsSafe (w : World) : Prop where
  overwrites : ∀ o ∈ w.overwrites, o.Allowed
  results : ∀ result ∈ w.results, result.Exact

def Report.apart (report : Report) : Bool :=
  decide (report.files.flatMap (fun f => [f.path, driveRevisionPath f.path])).Nodup

def World.replaysAtHome (w : World) (report : Report) (writeKey : Option String) : Bool :=
  report.files.all (fun f => w.db.files.all (fun r => decide (f.uploadId ≠ none → r.uploadId = f.uploadId →
    writeKey ≠ none → r.writeKey = writeKey → r.path = f.path ∨ r.path = driveRevisionPath f.path)))

def Task.ruled : Task → Option (TurnCall × List NormalizedReport)
  | .turnKeys call files => some (call, files)
  | .turnWrite call written entry rest _ => some (call, (written ++ entry :: rest).map Entry.file)
  | .turnCheck call written entry rest _ => some (call, (written ++ entry :: rest).map Entry.file)
  | _ => none

def Task.resolving : Task → Option (TurnCall × List NormalizedReport)
  | .resolveHead call resolved file _ rest _ => some (call, resolved ++ file :: rest)
  | _ => none

def World.unruled (w : World) (i : Nat) (path : String) (writeKey : Option String) : Bool :=
  (w.tasks.eraseIdx i).all (fun t => t.ruled.all (fun x =>
    (writeKey ≠ none && x.1.writeKey = writeKey) || x.2.all (fun f => f.path ≠ path)))

def World.uploadsOver (w : World) (call : TurnCall) (entries : List Entry) : List (String × Option String) :=
  (entries.filter (fun e => (w.db.getFile e.file.path).any (fun r => r.origin = "upload"))).map
    (fun e => (e.file.path, call.writeKey))

def World.uploadsInstalled (w : World) (i now : Nat) (quota : DriveQuota) : List (String × Option String) :=
  match w.tasks[i]? with
  | some (.finalizeCheck call stagedBytes finalKey _ (some copied)) =>
    if copied = some stagedBytes ∧ w.finalizeLinks call stagedBytes quota ∧
        (w.finalizedRow call stagedBytes finalKey now).origin = "upload" then [(call.path, none)] else []
  | some (.turnWrite call written entry [] token) =>
    if token ∈ w.landed ∧ entry.file.uploadId = none then
      w.uploadsOver call (w.linkedEntries quota (written ++ [entry])) else []
  | some (.turnCheck call written entry [] (some copied)) =>
    if copied = some entry.file.sizeBytes then w.uploadsOver call (w.linkedEntries quota (written ++ [entry])) else []
  | _ => []

/-- No user's version comes to a path that a turn past its upload rule still has to write; reported paths
are apart from each other's revisions, and redeliveries find their files there. -/
def turnsAlone (w : World) : Input → Bool
  | .turnFiles report writeKey _ _ _ => report.apart && w.replaysAtHome report writeKey
  | .proceed i now quota =>
    ((w.tasks[i]?.bind Task.resolving).all (fun x => w.replaysAtHome x.1.report x.1.writeKey)) &&
      (w.uploadsInstalled i now quota).all (fun x => w.unruled i x.1 x.2)
  | _ => true

/-! ## Accounts -/

def owns (path p : String) : Bool := p = path || p = driveRevisionPath path

structure Accounted (report : Report) (renamed : List DriveRename) (told : List String) : Prop where
  once : ∀ f ∈ report.files, told.countP (owns f.path) = 1
  within : ∀ p ∈ told, ∃ f ∈ report.files, owns f.path p = true
  turned : ∀ f ∈ report.files, driveRevisionPath f.path ∈ told → ⟨f.path, driveRevisionPath f.path⟩ ∈ renamed
  targets : ∀ r ∈ renamed, r.target = driveRevisionPath r.source

section Accounts

variable {report : Report} {renamed : List DriveRename} {told told' : List String} {f g : NormalizedReport} {p : String}

theorem owns_iff {path p : String} : owns path p = true ↔ p = path ∨ p = driveRevisionPath path := by
  simp [owns]

theorem owns_self (path : String) : owns path path = true := owns_iff.mpr (.inl rfl)

theorem owns_revision (path : String) : owns path (driveRevisionPath path) = true := owns_iff.mpr (.inr rfl)

section

variable (h : report.apart = true)
include h

theorem Report.apart_unique (hf : f ∈ report.files) (hg : g ∈ report.files)
    (hOwns : owns f.path p = true) (hOwns' : owns g.path p = true) : f = g := by
  obtain ⟨-, hPairs⟩ := nodup_flatMap.mp (of_decide_eq_true h)
  by_contra hOther
  have hSymm : Std.Symm (Function.onFun List.Disjoint fun f : NormalizedReport => [f.path, driveRevisionPath f.path]) :=
    ⟨fun _ _ hDisjoint _ hLeft hRight => hDisjoint hRight hLeft⟩
  have hDisjoint := hPairs.forall hf hg hOther
  exact hDisjoint (by simpa using owns_iff.mp hOwns) (by simpa using owns_iff.mp hOwns')

theorem Report.apart_revision (hf : f ∈ report.files) : f.path ≠ driveRevisionPath f.path := by
  obtain ⟨hEach, -⟩ := nodup_flatMap.mp (of_decide_eq_true h)
  simpa using hEach f hf

theorem accounted_start : Accounted report [] (report.files.map NormalizedReport.path) where
  once f hf := by
    rw [countP_map]
    have hSame : report.files.countP (owns f.path ∘ NormalizedReport.path) = report.files.countP (· == f) := by
      refine countP_congr fun g hg => ?_
      constructor
      · intro hOwns
        exact beq_iff_eq.mpr (report.apart_unique h hg hf (owns_self g.path) hOwns)
      · intro hEq
        rw [beq_iff_eq.mp hEq]
        exact owns_self f.path
    rw [hSame]
    exact count_eq_one_of_mem (List.Nodup.of_map _ report.distinct) hf
  within p hp := by
    obtain ⟨f, hf, rfl⟩ := mem_map.mp hp
    exact ⟨f, hf, owns_self f.path⟩
  turned f hf hTold := by
    obtain ⟨g, hg, hPath⟩ := mem_map.mp hTold
    obtain rfl := report.apart_unique h hf hg (hPath ▸ owns_revision f.path) (owns_self g.path)
    exact absurd hPath (report.apart_revision h hf)
  targets := nofun

end

theorem Accounted.perm (h : Accounted report renamed told) (hPerm : told.Perm told') :
    Accounted report renamed told' where
  once f hf := (hPerm.countP_eq _).symm.trans (h.once f hf)
  within p hp := h.within p (hPerm.mem_iff.mpr hp)
  turned f hf hTold := h.turned f hf (hPerm.mem_iff.mpr hTold)
  targets := h.targets

theorem Accounted.divert (h : Accounted report renamed (f.path :: told)) (hApart : report.apart = true)
    (hf : f ∈ report.files) : Accounted report (renamed ++ [⟨f.path, driveRevisionPath f.path⟩])
      (driveRevisionPath f.path :: told) where
  once g hg := by
    refine Eq.trans ?_ (h.once g hg)
    rw [countP_cons, countP_cons]
    have hEq : owns g.path (driveRevisionPath f.path) = owns g.path f.path := by
      refine Bool.eq_iff_iff.mpr ⟨fun hOwns => ?_, fun hOwns => ?_⟩
      · rw [report.apart_unique hApart hg hf hOwns (owns_revision f.path)]
        exact owns_self f.path
      · rw [report.apart_unique hApart hg hf hOwns (owns_self f.path)]
        exact owns_revision f.path
    rw [hEq]
  within p hp := by
    obtain rfl | hp := mem_cons.mp hp
    · exact ⟨f, hf, owns_revision f.path⟩
    · exact h.within p (mem_cons_of_mem _ hp)
  turned g hg hTold := by
    obtain hEq | hTold := mem_cons.mp hTold
    · obtain rfl := report.apart_unique hApart hg hf (hEq ▸ owns_revision g.path) (owns_revision f.path)
      exact mem_append_right _ (mem_singleton.mpr rfl)
    · exact mem_append_left _ (h.turned g hg (mem_cons_of_mem _ hTold))
  targets r hr := by
    obtain hr | rfl := mem_append.mp hr |>.imp_right mem_singleton.mp
    · exact h.targets r hr
    · rfl

theorem Accounted.nodup (h : Accounted report renamed told) : told.Nodup := by
  rw [nodup_iff_count_le_one]
  intro p
  by_cases hp : p ∈ told
  · obtain ⟨f, hf, hOwns⟩ := h.within p hp
    rw [← h.once f hf]
    refine countP_mono_left fun q _ hEq => ?_
    rw [beq_iff_eq.mp hEq]
    exact hOwns
  · rw [count_eq_zero_of_not_mem hp]
    exact Nat.zero_le 1

theorem Accounted.exact {stored : List String} {skipped : List DriveSkip}
    (h : Accounted report renamed (stored ++ skipped.map DriveSkip.path)) :
    TurnResult.Exact ⟨report, stored, skipped, renamed⟩ where
  once f hf := by
    refine Eq.trans (countP_congr fun p hp => ?_) (h.once f hf)
    rw [decide_eq_true_iff, owns_iff]
    refine or_congr_right ⟨fun hRenamed => h.targets _ hRenamed, ?_⟩
    rintro rfl
    exact h.turned f hf hp
  apart := (nodup_append.mp h.nodup).1

end Accounts

/-! ## The quota -/

section Quota

variable (db : Db) (quota : DriveQuota) (all : List WriteCandidate)

theorem judge_cases (verdict : WriteVerdict) (file : WriteCandidate) :
    (∃ reason, (db.judge quota all verdict file).accepted = verdict.accepted ∧
      (db.judge quota all verdict file).skipped = verdict.skipped ++ [⟨file.path, reason⟩]) ∨
    ((db.judge quota all verdict file).accepted = verdict.accepted ++ [file] ∧
      (db.judge quota all verdict file).skipped = verdict.skipped) := by
  unfold Db.judge
  split
  · exact .inl ⟨_, rfl, rfl⟩
  · split
    · exact .inl ⟨_, rfl, rfl⟩
    · dsimp only
      generalize (if (db.getFile file.path).map FileRow.sizeBytes = none then verdict.fileCount + 1
        else verdict.fileCount) = count
      split
      · exact .inl ⟨_, rfl, rfl⟩
      · split
        · exact .inl ⟨_, rfl, rfl⟩
        · exact .inr ⟨rfl, rfl⟩

theorem judge_fold (files : List WriteCandidate) (verdict : WriteVerdict) : ∃ accepted skipped,
    (files.foldl (db.judge quota all) verdict).accepted = verdict.accepted ++ accepted ∧
    (files.foldl (db.judge quota all) verdict).skipped = verdict.skipped ++ skipped ∧
    accepted.Sublist files ∧
    (accepted.map WriteCandidate.path ++ skipped.map DriveSkip.path).Perm (files.map WriteCandidate.path) := by
  induction files generalizing verdict with
  | nil => exact ⟨[], [], (append_nil _).symm, (append_nil _).symm, List.Sublist.refl _, List.Perm.refl _⟩
  | cons file files ih =>
    obtain ⟨accepted, skipped, hAcc, hSkipped, hSub, hPerm⟩ := ih (db.judge quota all verdict file)
    rw [foldl_cons, hAcc, hSkipped]
    obtain ⟨reason, hEq, hMore⟩ | ⟨hMore, hEq⟩ := judge_cases db quota all verdict file
    · refine ⟨accepted, ⟨file.path, reason⟩ :: skipped, by rw [hEq], by rw [hMore, append_assoc]; rfl,
        hSub.cons _, ?_⟩
      rw [map_cons, map_cons]
      exact perm_middle.trans (hPerm.cons _)
    · exact ⟨file :: accepted, skipped, by rw [hMore, append_assoc]; rfl, by rw [hEq], hSub.cons_cons _,
        hPerm.cons _⟩

theorem filter_mem_of_sublist {α : Type*} [DecidableEq α] {l l' : List α} (h : l'.Sublist l) (hNd : l.Nodup) :
    l.filter (· ∈ l') = l' := by
  induction h with
  | slnil => rfl
  | @cons l' l a hSub ih =>
    obtain ⟨hOut, hNd⟩ := nodup_cons.mp hNd
    rw [filter_cons_of_neg (by simpa using fun hMem => hOut (hSub.subset hMem))]
    exact ih hNd
  | @cons_cons l' l a hSub ih =>
    obtain ⟨hOut, hNd⟩ := nodup_cons.mp hNd
    rw [filter_cons_of_pos (by simp)]
    refine congrArg (a :: ·) (Eq.trans (filter_congr fun b hb => ?_) (ih hNd))
    have hOther : b ≠ a := fun hEq => hOut (hEq ▸ hb)
    simp [hOther]

theorem partitionWrite_perm {γ : Type*} {l : List γ} (candidate : γ → WriteCandidate)
    (hNd : (l.map (WriteCandidate.path ∘ candidate)).Nodup) :
    ((l.filter (fun x => candidate x ∈ (db.partitionWrite quota (l.map candidate)).accepted)).map
        (WriteCandidate.path ∘ candidate) ++ (db.partitionWrite quota (l.map candidate)).skipped.map DriveSkip.path).Perm
      (l.map (WriteCandidate.path ∘ candidate)) := by
  obtain ⟨accepted, skipped, hAcc, hSkipped, hSub, hPerm⟩ := judge_fold db quota (l.map candidate)
    (l.map candidate) ⟨db.files.length, (db.files.map FileRow.sizeBytes).sum, [], []⟩
  unfold Db.partitionWrite
  rw [hAcc, hSkipped, nil_append, nil_append]
  rw [← map_map] at hNd
  have hKept : (l.filter (fun x => candidate x ∈ accepted)).map candidate = accepted := by
    have hFilter := filter_mem_of_sublist hSub (List.Nodup.of_map _ hNd)
    rwa [filter_map] at hFilter
  rw [← map_map, ← map_map, hKept]
  exact hPerm

end Quota

/-! ## The upload rule -/

def TurnCall.told (call : TurnCall) (paths : List String) : List String :=
  call.replayed ++ call.skipped.map DriveSkip.path ++ paths

structure Resolving (call : TurnCall) (files : List NormalizedReport) : Prop where
  apart : call.report.apart = true
  reported : ∀ f ∈ files, f ∈ call.report.files
  accounted : Accounted call.report call.renamed (call.told (files.map NormalizedReport.path))
  source : call.source ≠ "upload"

def World.Writable (w : World) (call : TurnCall) (path : String) : Prop :=
  ∀ r, w.db.getFile path = some r → Overwrite.Allowed ⟨call.report, call.writeKey, r⟩

structure Cleared (w : World) (call : TurnCall) (files : List NormalizedReport) : Prop where
  accounted : Accounted call.report call.renamed (call.told (files.map NormalizedReport.path))
  source : call.source ≠ "upload"
  writable : ∀ f ∈ files, w.Writable call f.path

variable {writeKey : Option String}

theorem protectedByUpload_eq_false {row : BaselineRow} {known : Option Nat}
    (h : protectedByUpload (some row) known writeKey = false) (hOrig : row.origin = "upload") :
    known = some row.updatedAt ∨ (writeKey ≠ none ∧ row.writeKey = writeKey) := by
  unfold protectedByUpload at h
  rw [Option.any_some, hOrig] at h
  by_cases hKnown : some row.updatedAt = known
  · exact .inl hKnown.symm
  · refine .inr ?_
    simpa [hKnown] using h

variable {w w' : World} {call : TurnCall} {files rest : List NormalizedReport}

variable {path : String}

theorem getFile_path {db : Db} {r : FileRow} (h : db.getFile path = some r) : r.path = path :=
  Rows.lookup_key h

theorem writable_of_unprotected {known : Option Nat}
    (h : protectedByUpload (World.baselineOf w.db path) known call.writeKey = false)
    (hKnown : known = none ∨ ∃ f ∈ call.report.files, f.path = path ∧ f.knownUpdatedAt = known) :
    w.Writable call path := by
  intro r hRow hOrig
  unfold World.baselineOf at h
  rw [hRow] at h
  obtain hAt | hWrite := protectedByUpload_eq_false h hOrig
  · obtain rfl | ⟨f, hf, hPath, hEq⟩ := hKnown
    · cases hAt
    · exact .inl ⟨f, hf, hPath.trans (getFile_path hRow).symm, hEq.trans hAt⟩
  · exact .inr hWrite

theorem rule_fold (hApart : call.report.apart = true) (hReported : ∀ f ∈ rest, f ∈ call.report.files) (ruled : Ruled)
    (hAccounted : Accounted call.report (call.renamed ++ ruled.renamed) (call.told
      (ruled.skipped.map DriveSkip.path ++ ruled.files.map NormalizedReport.path ++ rest.map NormalizedReport.path)))
    (hWritable : ∀ f ∈ ruled.files, w.Writable call f.path) :
    Accounted call.report
      (call.renamed ++ (rest.foldl (ruleFile (World.baselineOf w.db) call.writeKey) ruled).renamed)
      (call.told ((rest.foldl (ruleFile (World.baselineOf w.db) call.writeKey) ruled).skipped.map DriveSkip.path ++
        (rest.foldl (ruleFile (World.baselineOf w.db) call.writeKey) ruled).files.map NormalizedReport.path)) ∧
    ∀ f ∈ (rest.foldl (ruleFile (World.baselineOf w.db) call.writeKey) ruled).files, w.Writable call f.path := by
  induction rest generalizing ruled with
  | nil => exact ⟨by simpa using hAccounted, hWritable⟩
  | cons file rest ih =>
    have hFile := hReported file mem_cons_self
    rw [foldl_cons]
    refine ih (fun f hf => hReported f (mem_cons_of_mem _ hf)) _ ?_ ?_
    · unfold ruleFile
      split
      · exact hAccounted.perm (perm_iff_count.mpr fun p => by simp [TurnCall.told])
      · dsimp only
        split
        · refine hAccounted.perm (perm_iff_count.mpr fun p => ?_)
          simp [TurnCall.told, count_cons]
          omega
        · have hFirst : Accounted call.report (call.renamed ++ ruled.renamed) (file.path ::
              call.told (ruled.skipped.map DriveSkip.path ++ ruled.files.map NormalizedReport.path ++
                rest.map NormalizedReport.path)) := hAccounted.perm
            (perm_iff_count.mpr fun p => by simp [TurnCall.told, count_cons]; omega)
          rw [← append_assoc]
          refine (hFirst.divert hApart hFile).perm (perm_iff_count.mpr fun p => ?_)
          simp [TurnCall.told, count_cons]
          omega
    · unfold ruleFile
      split
      · next hFree =>
        intro f hf
        obtain hf | rfl := mem_append.mp hf |>.imp_right mem_singleton.mp
        · exact hWritable f hf
        · exact writable_of_unprotected (by simpa using hFree) (.inr ⟨f, hFile, rfl, rfl⟩)
      · dsimp only
        split
        · exact hWritable
        · next hFree =>
          intro f hf
          obtain hf | rfl := mem_append.mp hf |>.imp_right mem_singleton.mp
          · exact hWritable f hf
          · exact writable_of_unprotected (by simpa using hFree) (.inl rfl)

/-! ## Steps -/

structure TaskTold (w : World) (t : Task) : Prop where
  resolving : ∀ x, t.resolving = some x → Resolving x.1 x.2
  cleared : ∀ x, t.ruled = some x → Cleared w x.1 x.2

structure Told (w : World) : Prop where
  tasks : ∀ t ∈ w.tasks, TaskTold w t
  safe : TurnsSafe w

structure Quiet (w w' : World) : Prop where
  files : ∀ path r, w'.db.getFile path = some r → w.db.getFile path = some r
  tasks : w'.tasks = w.tasks
  overwrites : w'.overwrites = w.overwrites
  results : w'.results = w.results

theorem Quiet.trans {w'' : World} (h : Quiet w w') (h' : Quiet w' w'') : Quiet w w'' where
  files path r hRow := h.files path r (h'.files path r hRow)
  tasks := h'.tasks.trans h.tasks
  overwrites := h'.overwrites.trans h.overwrites
  results := h'.results.trans h.results

theorem quiet_of_files (hFiles : w'.db.files = w.db.files) (hTasks : w'.tasks = w.tasks)
    (hOverwrites : w'.overwrites = w.overwrites) (hResults : w'.results = w.results) : Quiet w w' where
  files path r hRow := by
    unfold Db.getFile at hRow ⊢
    rwa [hFiles] at hRow
  tasks := hTasks
  overwrites := hOverwrites
  results := hResults

theorem Quiet.refl (w : World) : Quiet w w := quiet_of_files rfl rfl rfl rfl

variable {t : Task}

theorem TaskTold.later (h : TaskTold w t)
    (hFiles : ∀ path r, w'.db.getFile path = some r → w.db.getFile path = some r) : TaskTold w' t where
  resolving := h.resolving
  cleared x hx :=
    ⟨(h.cleared x hx).accounted, (h.cleared x hx).source, fun f hf r hRow => (h.cleared x hx).writable f hf r (hFiles _ r hRow)⟩

theorem Told.quiet (h : Told w) (hQuiet : Quiet w w') : Told w' where
  tasks t ht := (h.tasks t (hQuiet.tasks ▸ ht)).later hQuiet.files
  safe := ⟨hQuiet.overwrites ▸ h.safe.overwrites, hQuiet.results ▸ h.safe.results⟩

theorem Told.drop (h : Told w) (i : Nat) : Told (w.dropTask i) where
  tasks t ht := (h.tasks t (mem_of_mem_eraseIdx ht)).later fun _ _ hRow => hRow
  safe := ⟨h.safe.overwrites, h.safe.results⟩

theorem Told.park (h : Told w) (hTask : TaskTold w t) : Told (w.park t) where
  tasks t' ht' := by
    obtain ht' | rfl := mem_append.mp ht' |>.imp_right mem_singleton.mp
    · exact (h.tasks t' ht').later fun _ _ hRow => hRow
    · exact hTask.later fun _ _ hRow => hRow
  safe := ⟨h.safe.overwrites, h.safe.results⟩

theorem taskTold_plain (hResolving : t.resolving = none) (hRuled : t.ruled = none) : TaskTold w t where
  resolving x hx := by
    rw [hResolving] at hx
    cases hx
  cleared x hx := by
    rw [hRuled] at hx
    cases hx

theorem Told.park_plain (h : Told w) (hResolving : t.resolving = none) (hRuled : t.ruled = none) :
    Told (w.park t) := h.park (taskTold_plain hResolving hRuled)

variable {i : Nat}

theorem Told.resolving (h : Told w) (hTask : w.tasks[i]? = some t) : TaskTold (w.dropTask i) t :=
  (h.tasks t (mem_of_getElem? hTask)).later fun _ _ hRow => hRow

theorem quiet_retire (row : UploadRow) (now : Nat) : Quiet w (w.retirePendingUpload row now) :=
  quiet_of_files rfl rfl rfl rfl

theorem quiet_refuse (uploadId now : Nat) : Quiet w (w.refuse uploadId now) := by
  unfold World.refuse
  split
  · split
    · exact quiet_retire _ _
    · exact Quiet.refl w
  · exact Quiet.refl w

theorem quiet_deleteRow (path : String) (now : Nat) : Quiet w (w.deleteRow path now) := by
  unfold World.deleteRow
  split
  · exact Quiet.refl w
  · refine ⟨fun p r hRow => ?_, rfl, rfl, rfl⟩
    change Rows.lookup FileRow.path (Rows.erase FileRow.path w.db.files path) p = some r at hRow
    rw [Rows.lookup_erase] at hRow
    split at hRow
    · cases hRow
    · exact hRow

theorem quiet_deleteFileRow (path : String) (now : Nat) : Quiet w (w.deleteFileRow path now) := by
  unfold World.deleteFileRow
  split
  · exact Quiet.refl w
  · split
    · exact (quiet_deleteRow path now).trans (quiet_deleteRow _ now)
    · exact quiet_deleteRow path now

theorem quiet_turnDelete (deleted : List (String × Option Nat)) (now : Nat) :
    Quiet w (deleted.foldl (fun w file => w.turnDeleteFile now file) w) := by
  induction deleted generalizing w with
  | nil => exact Quiet.refl w
  | cons file deleted ih =>
    have hFile : Quiet w (w.turnDeleteFile now file) := by
      unfold World.turnDeleteFile
      split
      · split
        · exact quiet_deleteFileRow _ now
        · exact Quiet.refl w
      · exact Quiet.refl w
    exact hFile.trans ih

theorem quiet_requestDeletes (keys : List Key) : ∀ w : World, Quiet w (World.requestDeletes w keys).1 := by
  induction keys with
  | nil => exact Quiet.refl
  | cons key keys ih =>
    intro w
    have hAsk : Quiet w (w.request (.delete key)) := quiet_of_files rfl rfl rfl rfl
    exact hAsk.trans (ih _)

theorem quiet_keyEntries (call : TurnCall) (files : List NormalizedReport) : ∀ w : World,
    Quiet w (World.keyEntries call w files).1 ∧ (World.keyEntries call w files).2.map Entry.file = files := by
  induction files with
  | nil => exact fun w => ⟨Quiet.refl w, rfl⟩
  | cons file files ih =>
    intro w
    obtain ⟨hQuiet, hFiles⟩ := ih (({ w with nextId := w.nextId + 1 } : World).queueCleanup file.path
      (.write w.nextId file.path) (call.startedAt + writeDebtGraceMs))
    have hOwed : Quiet w (({ w with nextId := w.nextId + 1 } : World).queueCleanup file.path
      (.write w.nextId file.path) (call.startedAt + writeDebtGraceMs)) := quiet_of_files rfl rfl rfl rfl
    exact ⟨hOwed.trans hQuiet, congrArg (file :: ·) hFiles⟩

theorem quiet_land (j : Nat) : Quiet w (w.land j) := by
  unfold World.land
  split
  · exact Quiet.refl w
  · split
    · exact quiet_of_files rfl rfl rfl rfl
    · split <;> exact quiet_of_files rfl rfl rfl rfl
    · exact quiet_of_files rfl rfl rfl rfl

/-! ## Commits -/

theorem getFile_install (now : Nat) (row : FileRow) : ∃ createdAt, ∀ path,
    (w.install now row).db.getFile path = if path = row.path then some { row with createdAt } else w.db.getFile path := by
  unfold World.install
  split
  · next existing hRow =>
    refine ⟨existing.createdAt, fun path => ?_⟩
    have hModify : Rows.lookup FileRow.path (Rows.modify FileRow.path w.db.files row.path (fun e =>
        { row with path := e.path, createdAt := e.createdAt })) path =
        (w.db.getFile path).map (fun e => if path = row.path then
          { row with path := e.path, createdAt := e.createdAt } else e) :=
      @Rows.lookup_modify _ _ _ FileRow.path (fun e => { row with path := e.path, createdAt := e.createdAt })
        (fun _ => rfl) w.db.files row.path path
    have hFile : (if path = row.path then some { row with createdAt := existing.createdAt } else w.db.getFile path) =
        (w.db.getFile path).map (fun e => if path = row.path then
          { row with path := e.path, createdAt := e.createdAt } else e) := by
      split
      · next hAt =>
        rw [hAt, hRow, Option.map_some, getFile_path hRow]
      · exact (Option.map_id' (x := w.db.getFile path)).symm
    rw [hFile, ← hModify]
    dsimp only
    split <;> rfl
  · next hNone =>
    refine ⟨row.createdAt, fun path => ?_⟩
    change Rows.lookup FileRow.path (w.db.files ++ [row]) path = _
    rw [Rows.lookup_append]
    split
    · next hAt =>
      change (w.db.getFile path).or _ = _
      rw [hAt, hNone, Option.none_or]
      simp [Rows.lookup]
    · next hAway =>
      have hOther : Rows.lookup FileRow.path [row] path = none := by simp [Rows.lookup, Ne.symm hAway]
      rw [hOther, Option.or_none]
      rfl

theorem install_aside (now : Nat) (row : FileRow) : (w.install now row).tasks = w.tasks ∧
    (w.install now row).results = w.results ∧ (w.install now row).overwrites = w.overwrites := by
  unfold World.install
  split
  · dsimp only
    split <;> exact ⟨rfl, rfl, rfl⟩
  · exact ⟨rfl, rfl, rfl⟩

theorem TaskTold.installs (h : TaskTold w t)
    (hFiles : ∀ path r, w'.db.getFile path = some r → w.db.getFile path = some r ∨
      (r.origin = "upload" → ∀ x, t.ruled = some x →
        (x.1.writeKey ≠ none ∧ r.writeKey = x.1.writeKey) ∨ ∀ f ∈ x.2, f.path ≠ path)) : TaskTold w' t where
  resolving := h.resolving
  cleared x hx := by
    refine ⟨(h.cleared x hx).accounted, (h.cleared x hx).source, fun f hf r hRow hOrig => ?_⟩
    obtain hOld | hNew := hFiles f.path r hRow
    · exact (h.cleared x hx).writable f hf r hOld hOrig
    · obtain hOwn | hAway := hNew hOrig x hx
      · exact .inr hOwn
      · exact absurd rfl (hAway f hf)

structure Links (w w' : World) (call : TurnCall) (entries : List Entry) : Prop where
  files : ∀ path r, w'.db.getFile path = some r → w.db.getFile path = some r ∨
    ((∃ e ∈ entries, e.file.path = path) ∧ r.writeKey = call.writeKey ∧
      (r.origin = "upload" → (w.db.getFile path).any (fun r => r.origin = "upload") = true))
  away : ∀ path, (∀ e ∈ entries, e.file.path ≠ path) → w'.db.getFile path = w.db.getFile path
  tasks : w'.tasks = w.tasks
  results : w'.results = w.results
  overwrites : ∀ o ∈ w'.overwrites, o ∈ w.overwrites ∨ o.Allowed

theorem links_linkEntry {entry : Entry} (hSrc : call.source ≠ "upload") (hWritable : w.Writable call entry.file.path)
    (now : Nat) : Links w (w.linkEntry call now entry) call [entry] := by
  obtain ⟨createdAt, hInstall⟩ := getFile_install (w := w) now (w.turnRow call entry now)
  have hFile : ∀ path, (w.linkEntry call now entry).db.getFile path = if path = entry.file.path then
      some { w.turnRow call entry now with createdAt } else w.db.getFile path := hInstall
  obtain ⟨hTasks, hResults, -⟩ := install_aside (w := w) now (w.turnRow call entry now)
  refine ⟨fun path r hRow => ?_, fun path hAway => ?_, hTasks, hResults, fun o ho => ?_⟩
  · rw [hFile] at hRow
    split at hRow
    · next hAt =>
      obtain rfl := Option.some.inj hRow
      refine .inr ⟨⟨entry, mem_singleton.mpr rfl, hAt.symm⟩, rfl, fun hOrig => ?_⟩
      change ((w.db.getFile entry.file.path).map FileRow.origin).getD call.source = "upload" at hOrig
      rw [hAt]
      cases hAtPath : w.db.getFile entry.file.path with
      | none =>
        rw [hAtPath] at hOrig
        exact absurd hOrig hSrc
      | some r =>
        rw [hAtPath] at hOrig
        exact decide_eq_true hOrig
    · exact .inl hRow
  · rw [hFile, if_neg (Ne.symm (hAway entry (mem_singleton.mpr rfl)))]
  · obtain hOld | hNew := mem_append.mp ho
    · exact .inl hOld
    · obtain ⟨r, hr, rfl⟩ := mem_map.mp hNew
      exact .inr (hWritable r (Option.mem_toList.mp hr))

theorem links_fold {entries : List Entry} (hSrc : call.source ≠ "upload")
    (hPaths : (entries.map (fun e => e.file.path)).Nodup) (hWritable : ∀ e ∈ entries, w.Writable call e.file.path)
    (now : Nat) : Links w (entries.foldl (fun w entry => w.linkEntry call now entry) w) call entries := by
  induction entries generalizing w with
  | nil => exact ⟨fun _ _ hRow => .inl hRow, fun _ _ => rfl, rfl, rfl, fun _ ho => .inl ho⟩
  | cons entry entries ih =>
    rw [map_cons, nodup_cons] at hPaths
    have hOther : ∀ e ∈ entries, entry.file.path ≠ e.file.path := fun e he hEq =>
      hPaths.1 (hEq ▸ mem_map_of_mem he)
    have hFirst := links_linkEntry hSrc (hWritable entry mem_cons_self) now
    have hKept : ∀ e ∈ entries, (w.linkEntry call now entry).db.getFile e.file.path = w.db.getFile e.file.path := by
      refine fun e he => hFirst.away _ fun e' he' => ?_
      rw [mem_singleton.mp he']
      exact hOther e he
    have hRest := ih hPaths.2 fun e he r hRow => hWritable e (mem_cons_of_mem _ he) r (hKept e he ▸ hRow)
    rw [foldl_cons]
    refine ⟨fun path r hRow => ?_, fun path hAway => ?_, hRest.tasks.trans hFirst.tasks,
      hRest.results.trans hFirst.results, fun o ho => ?_⟩
    · obtain hOld | ⟨⟨e, he, rfl⟩, hKey, hOrig⟩ := hRest.files path r hRow
      · obtain hOlder | ⟨⟨e, he, rfl⟩, hKey, hOrig⟩ := hFirst.files path r hOld
        · exact .inl hOlder
        · obtain rfl := mem_singleton.mp he
          exact .inr ⟨⟨e, mem_cons_self, rfl⟩, hKey, hOrig⟩
      · exact .inr ⟨⟨e, mem_cons_of_mem _ he, rfl⟩, hKey, fun hUpload => hKept e he ▸ hOrig hUpload⟩
    · refine (hRest.away path fun e he => hAway e (mem_cons_of_mem _ he)).trans (hFirst.away path fun e he => ?_)
      rw [mem_singleton.mp he]
      exact hAway entry mem_cons_self
    · obtain hOld | hNew := hRest.overwrites o ho
      · exact hFirst.overwrites o hOld
      · exact .inr hNew

theorem quiet_expires (entries : List Entry) (now : Nat) :
    Quiet w (entries.foldl (fun w entry => w.expireUpload entry.debtId now) w) := by
  induction entries generalizing w with
  | nil => exact Quiet.refl w
  | cons e entries ih =>
    have hFirst : Quiet w (w.expireUpload e.debtId now) := quiet_of_files rfl rfl rfl rfl
    exact hFirst.trans ih

theorem quiet_retires (staged : List UploadRow) (now : Nat) :
    Quiet w (staged.foldl (fun w pending => w.retirePendingUpload pending now) w) := by
  induction staged generalizing w with
  | nil => exact Quiet.refl w
  | cons p staged ih => exact (quiet_retire p now).trans ih

theorem Told.turnCommit (h : Told w) {entries : List Entry} (hCleared : Cleared w call (entries.map Entry.file))
    {quota : DriveQuota} (hAlone : ∀ x ∈ w.uploadsOver call (w.linkedEntries quota entries), ∀ t ∈ w.tasks,
      ∀ y, t.ruled = some y → (x.2 ≠ none ∧ y.1.writeKey = x.2) ∨ ∀ f ∈ y.2, f.path ≠ x.1) (now : Nat) :
    Told (w.turnCommit call entries quota now) := by
  have hTold := hCleared.accounted
  rw [map_map] at hTold
  have hPaths : (entries.map (fun e => e.file.path)).Nodup := (nodup_append.mp hTold.nodup).2.1
  have hLinked : (w.linkedEntries quota entries).Sublist entries := filter_sublist
  have hLinks := links_fold (w := w) hCleared.source (hPaths.sublist (hLinked.map _))
    (fun e he => hCleared.writable e.file (mem_map_of_mem (hLinked.subset he))) now
  have hQuiet := (quiet_expires (w := (w.linkedEntries quota entries).foldl
    (fun w entry => w.linkEntry call now entry) w) (entries.filter (fun e => e ∉ w.linkedEntries quota entries)) now).trans
    (quiet_retires call.staged now)
  refine ⟨fun t ht => ?_, fun o ho => ?_, fun result hRes => ?_⟩
  · have hMem : t ∈ w.tasks := by
      change t ∈ (List.foldl _ _ _ : World).tasks at ht
      rw [hQuiet.tasks, hLinks.tasks] at ht
      exact ht
    refine (h.tasks t hMem).installs fun path r hRow => ?_
    obtain hOld | ⟨⟨e, he, rfl⟩, hKey, hOrig⟩ := hLinks.files path r (hQuiet.files path r hRow)
    · exact .inl hOld
    · refine .inr fun hUpload y hy => ?_
      have hOver : (e.file.path, call.writeKey) ∈ w.uploadsOver call (w.linkedEntries quota entries) :=
        mem_map.mpr ⟨e, mem_filter.mpr ⟨he, hOrig hUpload⟩, rfl⟩
      obtain ⟨hSome, hEq⟩ | hAway := hAlone _ hOver t hMem y hy
      · exact .inl ⟨hEq ▸ hSome, hKey.trans hEq.symm⟩
      · exact .inr hAway
  · change o ∈ (List.foldl _ _ _ : World).overwrites at ho
    rw [hQuiet.overwrites] at ho
    obtain hOld | hNew := hLinks.overwrites o ho
    · exact h.safe.overwrites o hOld
    · exact hNew
  · obtain hOld | rfl := mem_append.mp hRes |>.imp_right mem_singleton.mp
    · rw [hQuiet.results, hLinks.results] at hOld
      exact h.safe.results result hOld
    · have hPerm := partitionWrite_perm w.db quota (fun e : Entry => e.file.candidate) hPaths
      refine (hTold.perm (perm_iff_count.mpr fun p => ?_)).exact
      have hCnt := perm_iff_count.mp hPerm p
      rw [count_append] at hCnt
      change List.count p (call.replayed ++ call.skipped.map DriveSkip.path ++ entries.map (fun e => e.file.path)) =
        List.count p ((call.replayed ++ (w.linkedEntries quota entries).map (fun e => e.file.path)) ++
          (call.skipped ++ (w.db.partitionWrite quota (entries.map (fun e => e.file.candidate))).skipped).map
            DriveSkip.path)
      have hEq : List.count p ((w.linkedEntries quota entries).map (fun e => e.file.path)) +
          List.count p ((w.db.partitionWrite quota (entries.map (fun e => e.file.candidate))).skipped.map
            DriveSkip.path) = List.count p (entries.map (fun e => e.file.path)) := hCnt
      simp only [count_append, map_append]
      omega

theorem Told.writeNext (h : Told w) {written rest : List Entry}
    (hCleared : Cleared w call ((written ++ rest).map Entry.file)) {quota : DriveQuota}
    (hAlone : rest = [] → ∀ x ∈ w.uploadsOver call (w.linkedEntries quota written), ∀ t ∈ w.tasks,
      ∀ y, t.ruled = some y → (x.2 ≠ none ∧ y.1.writeKey = x.2) ∨ ∀ f ∈ y.2, f.path ≠ x.1) (now : Nat) :
    Told (w.writeNext call written quota now rest) := by
  cases rest with
  | nil =>
    rw [append_nil] at hCleared
    exact h.turnCommit hCleared (hAlone rfl) now
  | cons entry rest =>
    have hAsk : Quiet w (w.request (World.storageOp call entry)) := quiet_of_files rfl rfl rfl rfl
    refine (h.quiet hAsk).park ⟨nofun, fun x hx => ?_⟩
    obtain rfl := Option.some.inj hx
    exact ⟨hCleared.accounted, hCleared.source, hCleared.writable⟩

theorem Told.turnKeyed (h : Told w) (hCleared : Cleared w call files) (quota : DriveQuota) (now : Nat) :
    Told (w.turnKeyed call files quota now) := by
  obtain ⟨hQuiet, hFiles⟩ := quiet_keyEntries call files w
  refine (h.quiet hQuiet).writeNext ?_ (fun _ x hx => ?_) now
  · rw [nil_append, hFiles]
    exact ⟨hCleared.accounted, hCleared.source, fun f hf r hRow => hCleared.writable f hf r (hQuiet.files _ r hRow)⟩
  · obtain ⟨e, he, -⟩ := mem_map.mp hx
    cases (mem_filter.mp (mem_filter.mp he).1).1

variable {resolved : List NormalizedReport}

theorem Told.turnResolved (h : Told w) (hResolving : Resolving call resolved)
    (quota : DriveQuota) : Told (w.turnResolved call resolved quota) := by
  obtain ⟨hAccounted, hWritable⟩ := rule_fold (w := w) hResolving.apart hResolving.reported {}
    (by simpa using hResolving.accounted) nofun
  change Accounted call.report
    (call.renamed ++ (applyUploadWriteRule resolved (World.baselineOf w.db) call.writeKey).renamed)
    (call.told ((applyUploadWriteRule resolved (World.baselineOf w.db) call.writeKey).skipped.map DriveSkip.path ++
      (applyUploadWriteRule resolved (World.baselineOf w.db) call.writeKey).files.map NormalizedReport.path))
    at hAccounted
  change ∀ f ∈ (applyUploadWriteRule resolved (World.baselineOf w.db) call.writeKey).files, w.Writable call f.path
    at hWritable
  unfold World.turnResolved
  dsimp only
  generalize applyUploadWriteRule resolved (World.baselineOf w.db) call.writeKey = rule at hAccounted hWritable ⊢
  refine h.park ⟨nofun, fun x hx => ?_⟩
  obtain rfl := Option.some.inj hx
  refine ⟨?_, hResolving.source, fun f hf => hWritable f (mem_filter.mp hf).1⟩
  have hPaths := (nodup_append.mp (nodup_append.mp hAccounted.nodup).2.1).2.1
  have hPerm := partitionWrite_perm w.db quota NormalizedReport.candidate hPaths
  refine hAccounted.perm (perm_iff_count.mpr fun p => ?_)
  have hCnt := perm_iff_count.mp hPerm p
  rw [count_append] at hCnt
  have hEq : List.count p ((rule.files.filter (fun file => file.candidate ∈ (w.db.partitionWrite quota
        (rule.files.map NormalizedReport.candidate)).accepted)).map NormalizedReport.path) +
      List.count p ((w.db.partitionWrite quota (rule.files.map NormalizedReport.candidate)).skipped.map
        DriveSkip.path) = List.count p (rule.files.map NormalizedReport.path) := hCnt
  simp only [TurnCall.told, count_append, map_append]
  omega

variable {file : NormalizedReport}

theorem resolveFile_replayed
    (h : World.resolveFile w.db writeKey file = .replayed path) :
    file.uploadId ≠ none ∧ writeKey ≠ none ∧
      ∃ r ∈ w.db.files, r.uploadId = file.uploadId ∧ r.writeKey = writeKey ∧ r.path = path := by
  have hClaimed : ∀ uploadId, World.resolveFile.claimed w.db file uploadId ≠ .replayed path := by
    intro uploadId hAt
    unfold World.resolveFile.claimed at hAt
    split at hAt
    · split at hAt <;> cases hAt
    · cases hAt
  unfold World.resolveFile at h
  split at h
  · cases h
  · next uploadId hUpload =>
    split at h
    · next installed hFound =>
      split at h
      · next hEq =>
        cases h
        refine ⟨by rw [hUpload]; exact nofun, hEq.1, installed, mem_of_find?_eq_some hFound, ?_, hEq.2, rfl⟩
        rw [hUpload]
        simpa using find?_some hFound
      · exact absurd h (hClaimed uploadId)
    · exact absurd h (hClaimed uploadId)

theorem World.replaysAtHome_path {report : Report}
    (hHome : w.replaysAtHome report writeKey = true) (hFile : file ∈ report.files)
    (h : World.resolveFile w.db writeKey file = .replayed path) : path = file.path ∨ path = driveRevisionPath file.path := by
  obtain ⟨hUpload, hKey, r, hr, hEq, hWrite, rfl⟩ := resolveFile_replayed h
  exact of_decide_eq_true (all_eq_true.mp (all_eq_true.mp hHome file hFile) r hr) hUpload hEq hKey hWrite

theorem Told.resolveStagedWrites (h : Told w)
    (hResolving : Resolving call (resolved ++ files)) (hHome : w.replaysAtHome call.report call.writeKey = true)
    (quota : DriveQuota) : Told (w.resolveStagedWrites call resolved quota files) := by
  induction files generalizing call resolved with
  | nil =>
    rw [append_nil] at hResolving
    exact h.turnResolved hResolving quota
  | cons file files ih =>
    have hFile : file ∈ call.report.files :=
      hResolving.reported file (mem_append_right _ mem_cons_self)
    have hOthers : ∀ f ∈ resolved ++ files, f ∈ call.report.files := fun f hf =>
      hResolving.reported f (by simpa using (mem_append.mp hf).imp_right Or.inr)
    have hFirst : Accounted call.report call.renamed
        (file.path :: call.told ((resolved ++ files).map NormalizedReport.path)) :=
      hResolving.accounted.perm (perm_iff_count.mpr fun p => by simp [TurnCall.told, count_cons]; omega)
    unfold World.resolveStagedWrites
    split
    · refine ih ?_ hHome
      rwa [append_assoc, singleton_append]
    · next path hReplayed =>
      refine ih ⟨hResolving.apart, hOthers, ?_, hResolving.source⟩ hHome
      have hPath := World.replaysAtHome_path hHome hFile hReplayed
      by_cases hEq : path = file.path
      · dsimp only
        rw [if_pos hEq, hEq]
        exact hFirst.perm (perm_iff_count.mpr fun p => by simp [TurnCall.told, count_cons]; omega)
      · obtain rfl := hPath.resolve_left hEq
        dsimp only
        rw [if_neg hEq]
        refine (hFirst.divert hResolving.apart hFile).perm (perm_iff_count.mpr fun p => ?_)
        simp [TurnCall.told, count_cons]
        omega
    · refine ih ⟨hResolving.apart, hOthers, ?_, hResolving.source⟩ hHome
      exact hFirst.perm (perm_iff_count.mpr fun p => by simp [TurnCall.told, count_cons]; omega)
    · refine h.park ⟨fun x hx => ?_, nofun⟩
      obtain rfl := Option.some.inj hx
      exact hResolving

theorem Told.resolveHeaded (h : Told w) {rest : List NormalizedReport}
    (hResolving : Resolving call (resolved ++ file :: rest)) (hHome : w.replaysAtHome call.report call.writeKey = true)
    (pending : UploadRow) (quota : DriveQuota) (now : Nat) (head : Option Nat) :
    Told (w.resolveHeaded call resolved file pending rest quota now head) := by
  unfold World.resolveHeaded
  split
  · refine h.resolveStagedWrites ?_ ?_ quota
    · rw [append_assoc, singleton_append]
      exact ⟨hResolving.apart, hResolving.reported, hResolving.accounted, hResolving.source⟩
    · exact hHome
  · have hLeft : Resolving { call with skipped := call.skipped ++ [⟨file.path, .incomplete⟩] } (resolved ++ rest) := by
      refine ⟨hResolving.apart, fun f hf => ?_, ?_, hResolving.source⟩
      · exact hResolving.reported f (by simpa using (mem_append.mp hf).imp_right Or.inr)
      · exact hResolving.accounted.perm
          (perm_iff_count.mpr fun p => by simp [TurnCall.told, count_cons]; omega)
    exact (h.quiet (quiet_retire pending now)).resolveStagedWrites hLeft hHome quota

theorem Told.finalizeHeaded (h : Told w) (finalizing : FinalizeCall) (quota : DriveQuota) (now : Nat)
    (head : Option Nat) : Told (w.finalizeHeaded finalizing quota now head) := by
  unfold World.finalizeHeaded
  split
  · exact h
  · split
    · exact h.quiet (quiet_refuse _ now)
    · split
      · exact h.quiet (quiet_refuse _ now)
      · exact h.park_plain rfl rfl

theorem Told.finalizeCommit (h : Told w) {finalizing : FinalizeCall} {stagedBytes : Nat} {key : Key} {debtId now : Nat}
    {quota : DriveQuota} (hAlone : w.finalizeLinks finalizing stagedBytes quota = true →
      (w.finalizedRow finalizing stagedBytes key now).origin = "upload" → ∀ t ∈ w.tasks,
        ∀ x, t.ruled = some x → ∀ f ∈ x.2, f.path ≠ finalizing.path) :
    Told (w.finalizeCommit finalizing stagedBytes key debtId quota now) := by
  unfold World.finalizeCommit
  split
  · next current hRow =>
    split
    · exact h
    · split
      · exact h.quiet (quiet_refuse finalizing.uploadId now)
      · next hLinks =>
        obtain ⟨createdAt, hInstall⟩ := getFile_install (w := w) now (w.finalizedRow finalizing stagedBytes key now)
        obtain ⟨hTasks, hResults, hOverwrites⟩ := install_aside (w := w) now (w.finalizedRow finalizing stagedBytes key now)
        have hInstalled : Told (w.install now (w.finalizedRow finalizing stagedBytes key now)) := by
          refine ⟨fun t ht => ?_, hOverwrites ▸ h.safe.overwrites, hResults ▸ h.safe.results⟩
          rw [hTasks] at ht
          refine (h.tasks t ht).installs fun path r hRow => ?_
          rw [hInstall] at hRow
          split at hRow
          · next hAt =>
            obtain rfl := Option.some.inj hRow
            refine .inr fun hOrig x hx => .inr fun f hf => ?_
            rw [hAt]
            exact hAlone (by simpa using hLinks) hOrig t ht x hx f hf
          · exact .inl hRow
        have hDrop : Quiet (w.install now (w.finalizedRow finalizing stagedBytes key now))
            ((w.install now (w.finalizedRow finalizing stagedBytes key now)).dropUpload debtId) :=
          quiet_of_files rfl rfl rfl rfl
        exact hInstalled.quiet (hDrop.trans (quiet_retire current now))
  · exact h

/-! ## Runs -/

theorem World.unruled_iff (h : w.unruled i path writeKey = true) :
    ∀ t ∈ (w.dropTask i).tasks, ∀ y, t.ruled = some y →
      (writeKey ≠ none ∧ y.1.writeKey = writeKey) ∨ ∀ f ∈ y.2, f.path ≠ path := by
  intro t ht y hy
  have hTask := all_eq_true.mp h t ht
  rw [hy, Option.all_some, Bool.or_eq_true] at hTask
  obtain hOwn | hAway := hTask
  · exact .inl (by simpa using hOwn)
  · exact .inr fun f hf => of_decide_eq_true (all_eq_true.mp hAway f hf)

theorem Told.proceedTask (h : Told w) {task : Task} (hTask : w.tasks[i]? = some task) {now : Nat}
    {quota : DriveQuota} (hHome : ∀ x, task.resolving = some x → w.replaysAtHome x.1.report x.1.writeKey = true)
    (hAlone : ∀ x ∈ w.uploadsInstalled i now quota, w.unruled i x.1 x.2 = true) :
    Told (w.proceedTask task i now quota) := by
  have hGone := h.drop i
  have hTold := h.resolving hTask
  unfold World.uploadsInstalled at hAlone
  rw [hTask] at hAlone
  unfold World.proceedTask
  split
  · exact hGone.quiet (quiet_of_files rfl rfl rfl rfl)
  · exact hGone.park_plain rfl rfl
  · exact hGone
  · next stagedAt claim claims =>
    have hQuiet : Quiet (w.dropTask i) ((w.dropTask i).preparedUpload claim.path claim.sizeBytes stagedAt stageTtlMs) :=
      quiet_of_files rfl rfl rfl rfl
    exact (hGone.quiet hQuiet).park_plain rfl rfl
  · next call head => exact hGone.finalizeHeaded call quota now head
  · next call stagedBytes =>
    have hQuiet : Quiet (w.dropTask i) ((({ w.dropTask i with nextId := w.nextId + 1 } : World).queueCleanup call.path
        (.final call.uploadId w.nextId call.path) (call.startedAt + writeDebtGraceMs)).request
        (.copy call.pending.r2Key (.final call.uploadId w.nextId call.path))) := quiet_of_files rfl rfl rfl rfl
    exact (hGone.quiet hQuiet).park_plain rfl rfl
  · split
    · exact hGone.park_plain rfl rfl
    · exact h
  · next call stagedBytes key debtId copied =>
    split
    · next hCopied =>
      refine hGone.finalizeCommit fun hLinks hOrig t ht x hx f hf => ?_
      have hUnruled : w.unruled i call.path none = true := by
        refine hAlone (call.path, none) ?_
        change (call.path, none) ∈ if copied = some stagedBytes ∧ w.finalizeLinks call stagedBytes quota ∧
          (w.finalizedRow call stagedBytes key now).origin = "upload" then [(call.path, none)] else []
        rw [if_pos ⟨hCopied, hLinks, hOrig⟩]
        exact mem_singleton.mpr rfl
      obtain ⟨hSome, -⟩ | hAway := World.unruled_iff hUnruled t ht x hx
      · exact absurd rfl hSome
      · exact hAway f hf
    · exact hGone
  · next call resolved file pending rest head =>
    exact hGone.resolveHeaded (hTold.resolving _ rfl) (hHome _ rfl) _ _ _ _
  · next call files => exact hGone.turnKeyed (hTold.cleared _ rfl) quota now
  · next call written entry rest token =>
    have hCleared : Cleared (w.dropTask i) call (((written ++ [entry]) ++ rest).map Entry.file) := by
      rw [append_assoc, singleton_append]
      exact hTold.cleared _ rfl
    split
    · exact h
    · next hLanded =>
      split
      · next hInline =>
        refine hGone.writeNext hCleared (fun hLast x hx => ?_) now
        subst hLast
        refine World.unruled_iff (hAlone x ?_)
        change x ∈ if token ∈ w.landed ∧ entry.file.uploadId = none then
          w.uploadsOver call (w.linkedEntries quota (written ++ [entry])) else []
        rw [if_pos ⟨not_not.mp hLanded, hInline⟩]
        exact hx
      · exact hGone.park ⟨nofun, hTold.cleared⟩
  · next call written entry rest copied =>
    have hCleared : Cleared (w.dropTask i) call (((written ++ [entry]) ++ rest).map Entry.file) := by
      rw [append_assoc, singleton_append]
      exact hTold.cleared _ rfl
    split
    · next hCopied =>
      refine hGone.writeNext hCleared (fun hLast x hx => ?_) now
      subst hLast
      refine World.unruled_iff (hAlone x ?_)
      change x ∈ if copied = some entry.file.sizeBytes then
        w.uploadsOver call (w.linkedEntries quota (written ++ [entry])) else []
      rw [if_pos hCopied]
      exact hx
    · exact hGone
  · split
    · exact hGone.quiet (quiet_of_files rfl rfl rfl rfl)
    · exact h
  · exact h

theorem Told.look (h : Told w) (i : Nat) : Told (w.look i) := by
  unfold World.look
  split
  · exact (h.drop i).park_plain rfl rfl
  · exact (h.drop i).park_plain rfl rfl
  · next hTask => exact (h.drop i).park ⟨(h.resolving hTask).resolving, nofun⟩
  · next hTask => exact (h.drop i).park ⟨nofun, (h.resolving hTask).cleared⟩
  · exact h

theorem Told.runCleanup (h : Told w) (now : Nat) : Told (w.runCleanup now) := by
  unfold World.runCleanup
  dsimp only
  split
  · exact h
  · have hLeased : Quiet w (({ w with nextId := w.nextId + 1 } : World).lease (w.dueUploads now) w.nextId now) :=
      quiet_of_files rfl rfl rfl rfl
    split
    · exact (h.quiet hLeased).quiet (quiet_of_files rfl rfl rfl rfl)
    · exact (h.quiet (hLeased.trans (quiet_requestDeletes _ _))).park_plain rfl rfl

theorem Told.step (h : Told w) {input : Input} (hAlone : turnsAlone w input = true) : Told (w.step input) := by
  cases input with
  | prepareUpload path sizeBytes quota =>
    unfold World.step
    dsimp only
    split
    · exact h.park_plain rfl rfl
    · exact h
  | finalizeUpload path uploadId fromAgent now =>
    unfold World.step World.finalizeUpload
    dsimp only
    split
    · split
      · exact h.park_plain rfl rfl
      · exact h
    · exact h
  | turnFiles report writeKey source quota now =>
    obtain ⟨hApart, hHome⟩ := Bool.and_eq_true_iff.mp hAlone
    refine h.resolveStagedWrites ⟨hApart, fun f hf => hf, ?_, ?_⟩ ?_ quota
    case refine_3 => exact hHome
    · exact accounted_start hApart
    · change World.turnSource source ≠ "upload"
      unfold World.turnSource
      split
      · decide
      · next hOther => exact hOther
  | turnStage claims quota => exact h.park_plain rfl rfl
  | turnDelete deleted now => exact h.quiet (quiet_turnDelete deleted now)
  | delete path now => exact h.quiet (quiet_deleteFileRow path now)
  | runCleanup now => exact h.runCleanup now
  | lands j => exact h.quiet (quiet_land j)
  | missed j => exact h.quiet (quiet_of_files rfl rfl rfl rfl)
  | clientPut key sizeBytes =>
    unfold World.step World.clientPut
    dsimp only
    split
    · exact h.quiet (quiet_of_files rfl rfl rfl rfl)
    · exact h
  | looks i => exact h.look i
  | proceed i now quota =>
    obtain ⟨hHome, hUnruled⟩ := Bool.and_eq_true_iff.mp hAlone
    unfold World.step
    dsimp only
    split
    · next task hTask =>
      refine h.proceedTask hTask (fun x hx => ?_) (all_eq_true.mp hUnruled)
      rw [hTask, Option.bind_some, hx] at hHome
      exact hHome
    · exact h
  | lose i => exact h.drop i

/-- While no user's version comes to a path that a turn past its rule still has to write, a turn writes
over no version it has not read, and tells of each of its files once. -/
theorem World.turnsSafe_of_run {inputs : List Input}
    (hRun : Along World.step (fun w input => turnsAlone w input = true) {} inputs) :
    TurnsSafe (run World.step {} inputs) := by
  have hEmpty : Told {} := ⟨forall_mem_nil _, forall_mem_nil _, forall_mem_nil _⟩
  exact (run_invariant (fun _ _ hTold hAlone => hTold.step hAlone) hEmpty hRun).safe

def readRun : List Input :=
  [.prepareUpload "notes.txt" 7 roomy, .proceed 0 0 roomy, .clientPut (.upload 0 "notes.txt") 7,
    .finalizeUpload "notes.txt" 0 false 1, .looks 0, .proceed 0 2 roomy, .proceed 0 3 roomy, .lands 0, .proceed 0 4 roomy,
    .looks 0, .proceed 0 5 roomy,
    .turnFiles ⟨[⟨"notes.txt", 5, none, some 5⟩], by decide⟩ none "agent" roomy 6, .proceed 0 7 roomy, .lands 0,
    .proceed 0 8 roomy]

theorem World.turnsSafe_of_readRun :
    (run World.step {} readRun).overwrites.map (fun o => (o.row.path, o.row.origin)) = [("notes.txt", "upload")] ∧
      (run World.step {} readRun).results.map TurnResult.stored = [["notes.txt"]] ∧
      TurnsSafe (run World.step {} readRun) :=
  ⟨by decide, by decide, World.turnsSafe_of_run (by decide)⟩

def crossedRun : List Input :=
  [.turnFiles oneFile none "agent" roomy 0, .proceed 0 1 roomy,
    .prepareUpload "notes.txt" 7 roomy, .proceed 1 2 roomy, .clientPut (.upload 3 "notes.txt") 7,
    .finalizeUpload "notes.txt" 3 false 3, .looks 1, .proceed 1 4 roomy, .proceed 1 5 roomy, .lands 1, .proceed 1 6 roomy,
    .looks 1, .proceed 1 7 roomy, .lands 0, .proceed 0 8 roomy]

theorem World.crossedRun_overwrites : ¬ TurnsSafe (run World.step {} crossedRun) := by
  intro h
  have hUnread : ∃ o ∈ (run World.step {} crossedRun).overwrites, o.row.origin = "upload" ∧
      (∀ f ∈ o.report.files, f.knownUpdatedAt = none) ∧ o.writeKey = none := by decide
  obtain ⟨o, ho, hOrigin, hKnown, hKey⟩ := hUnread
  obtain ⟨f, hf, -, hAt⟩ | ⟨hSome, -⟩ := h.overwrites o ho hOrigin
  · cases (hKnown f hf).symm.trans hAt
  · exact hSome hKey

end Stella.Drive
