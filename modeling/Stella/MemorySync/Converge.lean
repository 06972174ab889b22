import Stella.MemorySync.Computers

/-! # Passes that nothing comes between converge

A pass settles every file: what its computer has and what the cloud has are the pair of its base.
-/

namespace Stella.MemorySync

open Transition List

variable {ι V : Type*} [DecidableEq ι] [DecidableEq V]

def accepting (redact : String → V → V) (fetched : V → V) : Rules V := ⟨fun path version => some (redact path version), fetched⟩

namespace Desk

variable (rules : Rules V) (desk : Desk V)

def apply (action : MemorySyncAction V) : Desk V :=
  match advance rules desk action .next with
  | (desk, none) => desk
  | (desk, some phase) =>
    match advance rules desk action phase with
    | (desk, none) => desk
    | (desk, some phase) => (advance rules desk action phase).1

def pass : Desk V := (planMemorySync desk.files desk.local' desk.cloud).foldl (apply rules) desk

end Desk

@[ext] structure Cell (V : Type*) where
  here : Option V
  there : Option V
  was : Option (SyncedPair V)

def Desk.cell (desk : Desk V) (path : String) : Cell V := ⟨desk.local'.get? path, desk.cloud.get? path, desk.files.get? path⟩

def settle (redact : String → V → V) (fetched : V → V) (path : String) (c : Cell V) : Cell V :=
  match planPath path c.was c.here c.there with
  | none => c
  | some (.push _ localSha _) => ⟨c.here, some (redact path localSha), some ⟨localSha, redact path localSha⟩⟩
  | some (.pull ..) | some (.conflict ..) =>
    ⟨c.there.map fetched, c.there, c.there.map fun remote => ⟨fetched remote, remote⟩⟩
  | some (.deleteCloud ..) => ⟨c.here, none, none⟩
  | some (.deleteLocal ..) => ⟨none, c.there, none⟩
  | some (.record _ pair) => ⟨c.here, c.there, some pair⟩
  | some (.forget _) => ⟨c.here, c.there, none⟩

def Settled (c : Cell V) : Prop := c.here = c.was.map SyncedPair.local' ∧ c.there = c.was.map SyncedPair.cloud

variable {redact : String → V → V} {fetched : V → V} {path other : String} {desk : Desk V}

omit [DecidableEq V] in
theorem cell_congr {a b : Desk V} (hLocal : a.local'.get? path = b.local'.get? path)
    (hCloud : a.cloud.get? path = b.cloud.get? path)
    (hFiles : a.files.get? path = b.files.get? path) : a.cell path = b.cell path := Cell.ext hLocal hCloud hFiles

theorem advance_cell_of_ne {rules : Rules V} (action : MemorySyncAction V) (phase : Phase V) (h : action.path ≠ other) :
    (advance rules desk action phase).1.cell other = desk.cell other := by
  have hSet : ∀ {β : Type _} (m : InsertionMap String β) (value : β), (m.set action.path value).get? other = m.get? other :=
    fun m value => InsertionMap.get?_set_of_ne m value h
  have hErase : ∀ {β : Type _} (m : InsertionMap String β), (m.erase action.path).get? other = m.get? other :=
    fun m => InsertionMap.get?_erase_of_ne m h
  unfold advance
  split
  · exact cell_congr rfl rfl (hSet _ _)
  · exact cell_congr rfl rfl (hErase _)
  · rfl
  · split
    · rfl
    · split
      · rfl
      · exact cell_congr rfl (hSet _ _) (hSet _ _)
  · rfl
  · split
    · rfl
    · exact cell_congr (hSet _ _) rfl (hSet _ _)
  · split
    · rfl
    · exact cell_congr (hSet _ _) rfl (hSet _ _)
  · split
    · rfl
    · exact cell_congr rfl (hErase _) (hErase _)
  · split
    · rfl
    · exact cell_congr (hErase _) rfl (hErase _)
  · rfl
  · split
    · rfl
    · split
      · exact cell_congr rfl rfl (hSet _ _)
      · rfl
  · split
    · rfl
    · exact cell_congr (hSet _ _) rfl (hSet _ _)

theorem apply_cell_of_ne {rules : Rules V} (action : MemorySyncAction V) (h : action.path ≠ other) :
    (desk.apply rules action).cell other = desk.cell other := by
  have hStep : ∀ (before : Desk V) (phase : Phase V), (advance rules before action phase).1.cell other = before.cell other :=
    fun _ phase => advance_cell_of_ne action phase h
  unfold Desk.apply
  split
  · rename_i first hFirst
    rw [← hStep desk .next, hFirst]
  · rename_i first phase hFirst
    have hOne : first.cell other = desk.cell other := by rw [← hStep desk .next, hFirst]
    split
    · rename_i second hSnd
      rw [← hOne, ← hStep first phase, hSnd]
    · rename_i second phase' hSnd
      rw [hStep second phase', ← hOne, ← hStep first phase, hSnd]

theorem apply_cell_self {action : MemorySyncAction V}
    (h : planPath path (desk.files.get? path) (desk.local'.get? path) (desk.cloud.get? path) = some action) :
    (desk.apply (accepting redact fetched) action).cell path = settle redact fetched path (desk.cell path) := by
  have hPlans := planPath_plans path (desk.files.get? path) (desk.local'.get? path) (desk.cloud.get? path)
  rw [h] at hPlans
  have hSettle : settle redact fetched path (desk.cell path) = match some action with
    | none => desk.cell path
    | some (.push _ localSha _) => ⟨desk.local'.get? path, some (redact path localSha), some ⟨localSha, redact path localSha⟩⟩
    | some (.pull ..) | some (.conflict ..) => ⟨(desk.cloud.get? path).map fetched, desk.cloud.get? path,
        (desk.cloud.get? path).map fun remote => ⟨fetched remote, remote⟩⟩
    | some (.deleteCloud ..) => ⟨desk.local'.get? path, none, none⟩
    | some (.deleteLocal ..) => ⟨none, desk.cloud.get? path, none⟩
    | some (.record _ pair) => ⟨desk.local'.get? path, desk.cloud.get? path, some pair⟩
    | some (.forget _) => ⟨desk.local'.get? path, desk.cloud.get? path, none⟩ := by
    rw [← h]
    rfl
  rw [hSettle]
  generalize hWas : desk.files.get? path = was at hPlans
  generalize hHere : desk.local'.get? path = here at hPlans ⊢
  generalize hThere : desk.cloud.get? path = there at hPlans ⊢
  cases hPlans with
  | push _ _ => simp [Desk.apply, advance, accepting, Desk.cell, hHere, hThere]
  | pull _ => simp [Desk.apply, advance, accepting, Desk.cell, hHere, hThere]
  | deleteCloud was => simp [Desk.apply, advance, Desk.cell, hHere, hThere]
  | deleteLocal was => simp [Desk.apply, advance, Desk.cell, hHere, hThere]
  | forget was => simp [Desk.apply, advance, Desk.cell, hHere, hThere]
  | record version => simp [Desk.apply, advance, Desk.cell, hHere, hThere]
  | conflict _ hDiffer => simp [Desk.apply, advance, accepting, Desk.cell, hHere, hThere, Ne.symm hDiffer]

theorem foldl_apply_cell (paths : List String) (hNd : paths.Nodup) (base : SyncBase V) (local' cloud : Files V) (desk : Desk V)
    (hEq : ∀ path ∈ paths, desk.cell path = ⟨local'.get? path, cloud.get? path, base.get? path⟩) (path : String) :
    ((paths.filterMap fun path => planPath path (base.get? path) (local'.get? path) (cloud.get? path)).foldl
      (Desk.apply (accepting redact fetched)) desk).cell path =
      if path ∈ paths then settle redact fetched path (desk.cell path) else desk.cell path := by
  induction paths generalizing desk with
  | nil => rfl
  | cons first rest ih =>
    obtain ⟨hFirst, hRest⟩ := nodup_cons.mp hNd
    have hCell := hEq first mem_cons_self
    have hPlan : planPath first (desk.files.get? first) (desk.local'.get? first) (desk.cloud.get? first) =
        planPath first (base.get? first) (local'.get? first) (cloud.get? first) := by
      have hHere := congrArg Cell.here hCell
      have hThere := congrArg Cell.there hCell
      have hWas := congrArg Cell.was hCell
      dsimp only [Desk.cell] at hHere hThere hWas
      rw [hHere, hThere, hWas]
    cases hAction : planPath first (base.get? first) (local'.get? first) (cloud.get? first) with
    | none =>
      simp only [filterMap_cons, hAction]
      rw [ih hRest desk fun path hPath => hEq path (mem_cons_of_mem _ hPath)]
      have hStays : settle redact fetched first (desk.cell first) = desk.cell first := by
        unfold settle
        dsimp only [Desk.cell]
        rw [hPlan, hAction]
      by_cases hAt : path = first
      · rw [hAt, if_neg hFirst, if_pos mem_cons_self, hStays]
      · simp only [mem_cons, hAt, false_or]
    | some action =>
      have hPath := planPath_path hAction
      simp only [filterMap_cons, hAction, foldl_cons]
      have hOther : ∀ other, first ≠ other → (desk.apply (accepting redact fetched) action).cell other = desk.cell other :=
        fun other hNe => apply_cell_of_ne action (hPath ▸ hNe)
      rw [ih hRest _ fun other hMem => (hOther other fun hAt => hFirst (hAt ▸ hMem)).trans (hEq other (mem_cons_of_mem _ hMem))]
      by_cases hAt : path = first
      · rw [hAt, if_neg hFirst, if_pos mem_cons_self]
        exact apply_cell_self (hPlan.trans hAction)
      · rw [hOther path fun hSymm => hAt hSymm.symm]
        simp only [mem_cons, hAt, false_or]

theorem planPath_none (path : String) : planPath (V := V) path none none none = none := rfl

theorem pass_cell (desk : Desk V) (path : String) :
    (desk.pass (accepting redact fetched)).cell path = settle redact fetched path (desk.cell path) := by
  unfold Desk.pass planMemorySync
  have hNd : ((desk.files.keys ++ desk.local'.keys ++ desk.cloud.keys).dedup.insertionSort (· ≤ ·)).Nodup :=
    (perm_insertionSort _ _).nodup_iff.mpr (nodup_dedup _)
  refine (foldl_apply_cell _ hNd desk.files desk.local' desk.cloud desk (fun _ _ => rfl) path).trans ?_
  split
  · rfl
  · rename_i hOut
    rw [(perm_insertionSort _ _).mem_iff, mem_dedup, mem_append, mem_append, InsertionMap.mem_keys_iff,
      InsertionMap.mem_keys_iff, InsertionMap.mem_keys_iff] at hOut
    simp only [not_or, Bool.not_eq_true, Option.isSome_eq_false_iff, Option.isNone_iff_eq_none] at hOut
    unfold settle
    dsimp only [Desk.cell]
    rw [hOut.1.1, hOut.1.2, hOut.2, planPath_none]

/-! ## One pass -/

def Copies (redact : String → V → V) (fetched : V → V) (path : String) (pair : SyncedPair V) : Prop :=
  pair.local' = pair.cloud ∨ pair.cloud = redact path pair.local' ∨ pair.local' = fetched pair.cloud

theorem settle_settled (path : String) (c : Cell V) : Settled (settle redact fetched path c) := by
  obtain ⟨here, there, was⟩ := c
  have hPlans := planPath_plans path was here there
  unfold settle
  dsimp only
  generalize planPath path was here there = plan at hPlans ⊢
  cases hPlans <;> exact ⟨rfl, rfl⟩

variable {c : Cell V}

theorem planPath_of_settled (h : Settled c) : planPath path c.was c.here c.there = none := by
  obtain ⟨hHere, hThere⟩ := h
  unfold planPath
  simp [hHere, hThere]

theorem settle_there (h : c.here = c.was.map SyncedPair.local') : (settle redact fetched path c).there = c.there := by
  obtain ⟨here, there, was⟩ := c
  dsimp only at h
  have hPlans := planPath_plans path was here there
  unfold settle
  dsimp only
  generalize planPath path was here there = plan at hPlans ⊢
  cases hPlans with
  | settled was => rfl
  | push hHere _ => exact absurd h hHere
  | pull _ => rfl
  | deleteCloud was => cases h
  | deleteLocal was => rfl
  | forget was => rfl
  | record version => rfl
  | conflict _ _ => rfl

variable {before : Option (SyncedPair V)}

theorem settle_copies
    (h : ∀ pair ∈ c.was, Copies redact fetched path pair ∨ before = some pair) :
    ∀ pair ∈ (settle redact fetched path c).was, Copies redact fetched path pair ∨ before = some pair := by
  obtain ⟨here, there, was⟩ := c
  dsimp only at h
  have hPlans := planPath_plans path was here there
  unfold settle
  dsimp only
  generalize planPath path was here there = plan at hPlans ⊢
  intro pair hPair
  cases hPlans with
  | settled was => exact h pair hPair
  | push _ _ =>
    rw [← Option.some.inj hPair]
    exact .inl (.inr (.inl rfl))
  | pull _ =>
    rw [← Option.some.inj hPair]
    exact .inl (.inr (.inr rfl))
  | deleteCloud was => cases hPair
  | deleteLocal was => cases hPair
  | forget was => cases hPair
  | record version =>
    rw [← Option.some.inj hPair]
    exact .inl (.inl rfl)
  | conflict _ _ =>
    rw [← Option.some.inj hPair]
    exact .inl (.inr (.inr rfl))

theorem plan_of_settled {desk : Desk V} (h : ∀ path, Settled (desk.cell path)) :
    planMemorySync desk.files desk.local' desk.cloud = [] :=
  filterMap_eq_nil_iff.mpr fun path _ => planPath_of_settled (h path)

def Agrees (redact : String → V → V) (fetched : V → V) (path : String) (before : Option (SyncedPair V)) (here there : Option V) : Prop :=
  here = none ∧ there = none ∨ ∃ pair, here = some pair.local' ∧ there = some pair.cloud ∧
    (Copies redact fetched path pair ∨ before = some pair)

omit [DecidableEq V] in
theorem agrees_of_settled (h : Settled c)
    (hCopies : ∀ pair ∈ c.was, Copies redact fetched path pair ∨ before = some pair) :
    Agrees redact fetched path before c.here c.there := by
  obtain ⟨here, there, was⟩ := c
  obtain ⟨hHere, hThere⟩ := h
  dsimp only at hHere hThere hCopies ⊢
  cases was with
  | none => exact .inl ⟨hHere, hThere⟩
  | some pair => exact .inr ⟨pair, hHere, hThere, hCopies pair rfl⟩

/-! ## Rounds of passes -/

namespace World

def deskOf (w : World ι V) (computer : ι) : Desk V :=
  let c := w.computers computer
  ⟨c.local', w.cloud, c.files, c.refused, c.conflicts⟩

def pass (rules : Rules V) (w : World ι V) (computer : ι) : World ι V :=
  let c := w.computers computer
  let desk := (w.deskOf computer).pass rules
  { w.update computer
      { c with local' := desk.local', files := desk.files, refused := desk.refused, conflicts := desk.conflicts } with
    cloud := desk.cloud }

def Clean (w : World ι V) (computer : ι) : Prop :=
  ∀ path, ((w.deskOf computer).cell path).here = ((w.deskOf computer).cell path).was.map SyncedPair.local'

def AllSettled (w : World ι V) (computer : ι) : Prop := ∀ path, Settled ((w.deskOf computer).cell path)

variable {w : World ι V} {computer : ι}

section

variable (rules : Rules V)

theorem pass_desk_self (w : World ι V) (computer : ι) :
    (w.pass rules computer).deskOf computer = (w.deskOf computer).pass rules := by
  unfold pass deskOf update
  simp only [Function.update_self]

theorem pass_computers_of_ne {other : ι} (h : other ≠ computer) :
    (w.pass rules computer).computers other = w.computers other := Function.update_of_ne h _ _

theorem pass_cell_of_ne {other : ι} (h : other ≠ computer) (path : String) :
    ((w.pass rules computer).deskOf other).cell path =
      { (w.deskOf other).cell path with there := ((w.deskOf computer).pass rules).cloud.get? path } := by
  unfold deskOf
  dsimp only
  rw [pass_computers_of_ne rules h]
  rfl

end

theorem settled_pass (redact : String → V → V) (fetched : V → V) (w : World ι V) (computer : ι) :
    (w.pass (accepting redact fetched) computer).AllSettled computer := by
  intro path
  rw [pass_desk_self, pass_cell]
  exact settle_settled path _

omit [DecidableEq ι] [DecidableEq V] in
theorem AllSettled.clean (h : w.AllSettled computer) : w.Clean computer := fun path => (h path).1

theorem Clean.pass (h : w.Clean computer) (passing : ι) : (w.pass (accepting redact fetched) passing).Clean computer := by
  by_cases hAt : computer = passing
  · rw [hAt]
    exact (settled_pass redact fetched w passing).clean
  · intro path
    rw [pass_cell_of_ne _ hAt]
    exact h path

omit [DecidableEq ι] in
theorem Clean.pass_cloud (h : w.Clean computer) (path : String) :
    ((w.deskOf computer).pass (accepting redact fetched)).cloud.get? path = w.cloud.get? path := by
  have hThere : (((w.deskOf computer).pass (accepting redact fetched)).cell path).there =
      (settle redact fetched path ((w.deskOf computer).cell path)).there := congrArg Cell.there (pass_cell _ path)
  exact hThere.trans (settle_there (h path))

theorem AllSettled.pass (h : w.AllSettled computer) {passing : ι} (hClean : w.Clean passing) :
    (w.pass (accepting redact fetched) passing).AllSettled computer := by
  by_cases hAt : computer = passing
  · rw [hAt]
    exact settled_pass redact fetched w passing
  · intro path
    rw [pass_cell_of_ne _ hAt, hClean.pass_cloud]
    exact h path

theorem clean_run (passes : List ι) (h : computer ∈ passes ∨ w.Clean computer) :
    (run (pass (accepting redact fetched)) w passes).Clean computer := by
  induction passes generalizing w with
  | nil =>
    rcases h with hMem | hClean
    · cases hMem
    · exact hClean
  | cons passing rest ih =>
    refine ih ?_
    rcases h with hMem | hClean
    · rcases mem_cons.mp hMem with rfl | hRest
      · exact .inr (settled_pass redact fetched w computer).clean
      · exact .inl hRest
    · exact .inr (hClean.pass passing)

theorem settled_run (passes : List ι) (hClean : ∀ other, w.Clean other) (h : computer ∈ passes ∨ w.AllSettled computer) :
    (run (pass (accepting redact fetched)) w passes).AllSettled computer := by
  induction passes generalizing w with
  | nil =>
    rcases h with hMem | hSettled
    · cases hMem
    · exact hSettled
  | cons passing rest ih =>
    refine ih (fun other => (hClean other).pass passing) ?_
    rcases h with hMem | hSettled
    · rcases mem_cons.mp hMem with rfl | hRest
      · exact .inr (settled_pass redact fetched w computer)
      · exact .inl hRest
    · exact .inr (hSettled.pass (hClean passing))

theorem pass_of_settled (rules : Rules V) (h : w.AllSettled computer) : w.pass rules computer = w := by
  have hDesk : (w.deskOf computer).pass rules = w.deskOf computer := by
    unfold Desk.pass
    rw [plan_of_settled h]
    rfl
  have hComputers : Function.update w.computers computer (w.computers computer) = w.computers := Function.update_eq_self _ _
  unfold pass
  dsimp only
  rw [hDesk]
  exact congrArg (fun computers => World.mk computers w.cloud) hComputers

theorem run_of_settled (rules : Rules V) (h : ∀ other, w.AllSettled other) (passes : List ι) : run (pass rules) w passes = w := by
  induction passes with
  | nil => rfl
  | cons passing rest ih => rw [run_cons, pass_of_settled rules (h passing), ih]

theorem copies_run (passes : List ι) (before : ι → SyncBase V) {path : String}
    (h : ∀ other, ∀ pair ∈ (w.computers other).files.get? path, Copies redact fetched path pair ∨ (before other).get? path = some pair) :
    ∀ other, ∀ pair ∈ ((run (pass (accepting redact fetched)) w passes).computers other).files.get? path,
      Copies redact fetched path pair ∨ (before other).get? path = some pair := by
  induction passes generalizing w with
  | nil => exact h
  | cons passing rest ih =>
    refine ih fun other => ?_
    by_cases hAt : other = passing
    · rw [hAt]
      have hWas : (((w.deskOf passing).pass (accepting redact fetched)).cell path).was =
          (settle redact fetched path ((w.deskOf passing).cell path)).was := congrArg Cell.was (pass_cell _ path)
      rw [← pass_desk_self] at hWas
      change ((w.pass (accepting redact fetched) passing).computers passing).files.get? path = _ at hWas
      rw [hWas]
      exact settle_copies (h passing)
    · rw [pass_computers_of_ne _ hAt]
      exact h other

end World

/-- After a pass, the next plan is empty and both sides agree; and however many computers pass in any order, once all have
passed and then all have passed again they agree with the cloud, for good. -/
theorem converges (redact : String → V → V) (fetched : V → V) :
    (∀ desk : Desk V, let later := desk.pass (accepting redact fetched)
      planMemorySync later.files later.local' later.cloud = [] ∧
        ∀ path, Agrees redact fetched path (desk.files.get? path) (later.local'.get? path) (later.cloud.get? path)) ∧
    ∀ (w : World ι V) (first second : List ι), (∀ computer, computer ∈ first) → (∀ computer, computer ∈ second) →
      let later := run (World.pass (accepting redact fetched)) w (first ++ second)
      (∀ more, run (World.pass (accepting redact fetched)) later more = later) ∧
        ∀ computer path, Agrees redact fetched path ((w.computers computer).files.get? path)
          ((later.computers computer).local'.get? path) (later.cloud.get? path) := by
  refine ⟨fun desk => ?_, fun w first second hFirst hSecond => ?_⟩
  · have hSettled : ∀ path, Settled ((desk.pass (accepting redact fetched)).cell path) := fun path => by
      rw [pass_cell]
      exact settle_settled path _
    refine ⟨plan_of_settled hSettled, fun path => ?_⟩
    refine agrees_of_settled (hSettled path) ?_
    rw [pass_cell]
    exact settle_copies fun pair hPair => Or.inr hPair
  · dsimp only
    have hSettled : ∀ computer, (run (World.pass (accepting redact fetched)) w (first ++ second)).AllSettled computer := by
      intro computer
      rw [run_append]
      exact World.settled_run second (fun other => World.clean_run first (Or.inl (hFirst other))) (Or.inl (hSecond computer))
    refine ⟨World.run_of_settled _ hSettled, fun computer path => ?_⟩
    exact agrees_of_settled (hSettled computer path)
      (World.copies_run (first ++ second) (fun other => (w.computers other).files) (fun _ pair hPair => Or.inr hPair) computer)

def startedWorld : World Bool Nat :=
  ⟨fun computer => if computer then { local' := [("core-memory.md", 15)] } else { local' := [("core-memory.md", 27), ("PERSONALITY.md", 3)] },
    [("core-memory.md", 4)]⟩

theorem converges_startedWorld :
    let later := run (World.pass (accepting (fun _ version => version % 10) id)) startedWorld ([true, false] ++ [false, true])
    ∀ more, run (World.pass (accepting (fun _ version => version % 10) id)) later more = later :=
  ((converges (fun _ version => version % 10) id).2 startedWorld [true, false] [false, true] (by decide) (by decide)).1

/-- What the cloud stores of a push may differ from the file it came from. -/
theorem pushedFile_differs :
    let later := (Desk.mk [("core-memory.md", 15)] [] [] [] []).pass (accepting (fun _ version => version % 10) id)
    later.local'.get? "core-memory.md" = some 15 ∧ later.cloud.get? "core-memory.md" = some 5 := by
  decide +kernel

end Stella.MemorySync
