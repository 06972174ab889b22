import Stella.MemorySync.Converge

/-! # Whole passes are runs of steps

A pass in one piece does what the steps of its computer do when nothing comes between them, so
that rounds of passes are runs of the computers that sync.
-/

namespace Stella.MemorySync

open Transition

variable {ι V : Type*} [DecidableEq ι] [DecidableEq V]

section Steps

variable (rules : Rules V) (desk : Desk V) (action : MemorySyncAction V)

theorem advance_first :
    (advance rules desk action .next).2 = none ∨ ∃ version, (advance rules desk action .next).2 = some (.holding version) := by
  cases action with
  | push path localSha expectCloud =>
    rw [advance]
    split
    · exact .inr ⟨_, rfl⟩
    · exact .inl rfl
  | pull path expectLocal =>
    rw [advance]
    cases desk.cloud.get? path with
    | none => exact .inl rfl
    | some remote => exact .inr ⟨remote, rfl⟩
  | conflict path localSha =>
    rw [advance]
    cases desk.cloud.get? path with
    | none => exact .inl rfl
    | some remote => exact .inr ⟨remote, rfl⟩
  | deleteCloud path expectCloud =>
    left
    rw [advance]
    split
    · rfl
    · rfl
  | deleteLocal path expectLocal =>
    left
    rw [advance]
    split
    · rfl
    · rfl
  | record path pair => exact .inl rfl
  | forget path => exact .inl rfl

theorem advance_second (version : V) : (advance rules desk action (.holding version)).2 = none ∨
    (advance rules desk action (.holding version)).2 = some (.saved version) := by
  cases action with
  | push path localSha expectCloud =>
    left
    rw [advance]
    · split
      · rfl
      · split
        · rfl
        · rfl
    · simp
  | pull path expectLocal =>
    left
    rw [advance]
    split
    · rfl
    · rfl
  | conflict path localSha =>
    rw [advance]
    split
    · exact .inl rfl
    · split
      · exact .inl rfl
      · exact .inr rfl
  | deleteCloud path expectCloud =>
    left
    rw [advance]
    split
    · rfl
    · rfl
  | deleteLocal path expectLocal =>
    left
    rw [advance]
    split
    · rfl
    · rfl
  | record path pair => exact .inl rfl
  | forget path => exact .inl rfl

theorem advance_third (version : V) : (advance rules desk action (.saved version)).2 = none := by
  cases action with
  | push path localSha expectCloud =>
    rw [advance]
    · split
      · rfl
      · split
        · rfl
        · rfl
    · simp
  | pull path expectLocal =>
    rw [advance]
    split
    · rfl
    · rfl
  | conflict path localSha =>
    rw [advance]
    split
    · rfl
    · rfl
  | deleteCloud path expectCloud =>
    rw [advance]
    split
    · rfl
    · rfl
  | deleteLocal path expectLocal =>
    rw [advance]
    split
    · rfl
    · rfl
  | record path pair => rfl
  | forget path => rfl

end Steps

theorem Computer.list_scan {c : Computer V} {cloud : Files V} (hIdle : c.pass = none) (hRef : c.refused = []) :
    c.scan.list cloud true = { c with pass := some (.acting c.files [] (planMemorySync c.files c.local' cloud) .next) } := by
  have hScan : c.scan = { c with pass := some (.scanned c.local') } := by
    rw [Computer.scan, hIdle]
    rfl
  unfold Computer.list
  rw [hScan]
  dsimp only
  simp only [hRef, if_true, List.filter_nil]
  refine congrArg (fun actions => { c with pass := some (.acting c.files [] actions .next), refused := [] })
    (List.filter_eq_self.mpr fun action _ => ?_)
  cases action with
  | push path localSha expectCloud => rfl
  | _ => rfl

namespace World

variable (rules : Rules V) (w : World ι V) (computer : ι)

def atDesk (desk : Desk V) (actions : List (MemorySyncAction V)) (phase : Phase V) : World ι V :=
  { w.update computer
      { w.computers computer with
        local' := desk.local', conflicts := desk.conflicts, pass := some (.acting desk.files desk.refused actions phase) } with
    cloud := desk.cloud }

theorem step_atDesk (desk : Desk V) (action : MemorySyncAction V) (rest : List (MemorySyncAction V)) (phase : Phase V) :
    (w.atDesk computer desk (action :: rest) phase).step rules (.act computer) =
      match (advance rules desk action phase).2 with
      | none => w.atDesk computer (advance rules desk action phase).1 rest .next
      | some later => w.atDesk computer (advance rules desk action phase).1 (action :: rest) later := by
  simp only [step, atDesk, update, Function.update_self, Function.update_idem, Computer.act]
  cases (advance rules desk action phase).2 with
  | none => rfl
  | some later => rfl

theorem run_apply (desk : Desk V) (action : MemorySyncAction V) (rest : List (MemorySyncAction V)) :
    ∃ n, run (step rules) (w.atDesk computer desk (action :: rest) .next) (List.replicate n (.act computer)) =
      w.atDesk computer (desk.apply rules action) rest .next := by
  have hStep := fun desk => step_atDesk rules w computer desk action rest
  unfold Desk.apply
  obtain hFirst | ⟨version, hFirst⟩ := advance_first rules desk action
  · refine ⟨1, ?_⟩
    rw [List.replicate_one, run_cons, run_nil, hStep, hFirst, ← Prod.mk.eta (p := advance rules desk action .next), hFirst]
  · rw [← Prod.mk.eta (p := advance rules desk action .next), hFirst]
    dsimp only
    generalize hHeld : (advance rules desk action .next).1 = held
    have hBegun : (w.atDesk computer desk (action :: rest) .next).step rules (.act computer) =
        w.atDesk computer held (action :: rest) (.holding version) := by
      rw [hStep, hFirst, hHeld]
    obtain hSnd | hSnd := advance_second rules held action version
    · refine ⟨2, ?_⟩
      rw [List.replicate_succ, List.replicate_one, run_cons, run_cons, run_nil, hBegun, hStep, hSnd,
        ← Prod.mk.eta (p := advance rules held action (.holding version)), hSnd]
    · refine ⟨3, ?_⟩
      rw [List.replicate_succ, List.replicate_succ, List.replicate_one, run_cons, run_cons, run_cons, run_nil, hBegun, hStep,
        hSnd, ← Prod.mk.eta (p := advance rules held action (.holding version)), hSnd]
      dsimp only
      rw [hStep, advance_third]

theorem run_actions (desk : Desk V) (actions : List (MemorySyncAction V)) :
    ∃ n, run (step rules) (w.atDesk computer desk actions .next) (List.replicate n (.act computer)) =
      w.atDesk computer (actions.foldl (Desk.apply rules) desk) [] .next := by
  induction actions generalizing desk with
  | nil => exact ⟨0, rfl⟩
  | cons action rest ih =>
    obtain ⟨n, hAction⟩ := run_apply rules w computer desk action rest
    obtain ⟨m, hRest⟩ := ih (desk.apply rules action)
    refine ⟨n + m, ?_⟩
    rw [List.replicate_add, run_append, hAction]
    exact hRest

theorem pass_of_run (hIdle : (w.computers computer).pass = none) (hRef : (w.computers computer).refused = []) :
    ∃ n, run (step rules) w (.scan computer :: .list computer true :: List.replicate n (.act computer)) = w.pass rules computer := by
  obtain ⟨n, hActs⟩ := run_actions rules w computer (w.deskOf computer)
    (planMemorySync (w.deskOf computer).files (w.deskOf computer).local' (w.deskOf computer).cloud)
  have hList : (w.step rules (.scan computer)).step rules (.list computer true) = w.atDesk computer (w.deskOf computer)
      (planMemorySync (w.deskOf computer).files (w.deskOf computer).local' (w.deskOf computer).cloud) .next := by
    simp only [step, update, Function.update_self, Function.update_idem]
    rw [Computer.list_scan hIdle hRef]
    simp only [atDesk, deskOf, update, hRef]
  refine ⟨n + 1, ?_⟩
  rw [run_cons, run_cons, hList, List.replicate_add, run_append, hActs, List.replicate_one, run_cons, run_nil]
  simp only [step, atDesk, update, Function.update_self, Function.update_idem, Computer.act]
  unfold pass update
  simp only [hIdle]
  rfl

end World

section Accepting

variable {redact : String → V → V} {fetched : V → V}

theorem advance_unrefused {desk : Desk V} (h : desk.refused = []) (action : MemorySyncAction V) (phase : Phase V) :
    (advance (accepting redact fetched) desk action phase).1.refused = [] := by
  unfold advance
  split
  · exact h
  · exact h
  · exact h
  · split
    · next hNone => cases hNone
    · split
      · exact h
      · dsimp only
        rw [h]
        rfl
  · exact h
  · split
    · exact h
    · exact h
  · split
    · exact h
    · exact h
  · split
    · exact h
    · exact h
  · split
    · exact h
    · exact h
  · exact h
  · split
    · exact h
    · split
      · exact h
      · exact h
  · split
    · exact h
    · exact h

theorem apply_unrefused {desk : Desk V} (h : desk.refused = []) (action : MemorySyncAction V) :
    (desk.apply (accepting redact fetched) action).refused = [] := by
  have hStep : ∀ {before : Desk V}, before.refused = [] → ∀ phase,
      (advance (accepting redact fetched) before action phase).1.refused = [] :=
    fun hBef phase => advance_unrefused hBef action phase
  unfold Desk.apply
  split
  · rename_i first hFirst
    have hOne := hStep h .next
    rw [hFirst] at hOne
    exact hOne
  · rename_i first phase hFirst
    have hOne := hStep h .next
    rw [hFirst] at hOne
    split
    · rename_i second hSnd
      have hTwo := hStep hOne phase
      rw [hSnd] at hTwo
      exact hTwo
    · rename_i second phase' hSnd
      have hTwo := hStep hOne phase
      rw [hSnd] at hTwo
      exact hStep hTwo phase'

theorem foldl_unrefused (actions : List (MemorySyncAction V)) {desk : Desk V} (h : desk.refused = []) :
    (actions.foldl (Desk.apply (accepting redact fetched)) desk).refused = [] := by
  induction actions generalizing desk with
  | nil => exact h
  | cons action rest ih => exact ih (apply_unrefused h action)

/-- The steps of a pass: the scan, the listing and so many turns of its actions. -/
def Input.wholePass (pass : ι × Nat) : List (Input ι V) :=
  .scan pass.1 :: .list pass.1 true :: List.replicate pass.2 (.act pass.1)

theorem passes_of_run (passes : List ι) {w : World ι V} (hIdle : ∀ computer, (w.computers computer).pass = none)
    (hRef : ∀ computer, (w.computers computer).refused = []) :
    ∃ acts : List Nat, acts.length = passes.length ∧
      run (World.step (accepting redact fetched)) w ((passes.zip acts).flatMap Input.wholePass) =
        run (World.pass (accepting redact fetched)) w passes := by
  induction passes generalizing w with
  | nil => exact ⟨[], rfl, rfl⟩
  | cons computer passes ih =>
    obtain ⟨n, hPass⟩ := World.pass_of_run (accepting redact fetched) w computer (hIdle computer) (hRef computer)
    have hNext : ∀ other, ((w.pass (accepting redact fetched) computer).computers other).pass = none ∧
        ((w.pass (accepting redact fetched) computer).computers other).refused = [] := by
      intro other
      by_cases hEq : other = computer
      · rw [hEq, World.pass, World.update]
        dsimp only
        rw [Function.update_self]
        exact ⟨hIdle computer, foldl_unrefused _ (hRef computer)⟩
      · rw [World.pass_computers_of_ne _ hEq]
        exact ⟨hIdle other, hRef other⟩
    obtain ⟨acts, hLength, hRest⟩ := ih (fun other => (hNext other).1) fun other => (hNext other).2
    refine ⟨n :: acts, by rw [List.length_cons, hLength, List.length_cons], ?_⟩
    rw [List.zip_cons_cons, List.flatMap_cons, run_append, run_cons, ← hRest, ← hPass]
    rfl

theorem passes_of_startedWorld : let rules : Rules Nat := accepting (fun _ version => version % 10) id
    ∃ acts : List Nat, acts.length = 3 ∧ run (World.step rules) startedWorld (([true, false, true].zip acts).flatMap Input.wholePass) =
      run (World.pass rules) startedWorld [true, false, true] :=
  passes_of_run [true, false, true] (by decide) (by decide)

end Accepting

end Stella.MemorySync
