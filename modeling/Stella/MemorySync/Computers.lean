import Stella.Library.Transition
import Stella.MemorySync.Pass

/-! # Computers that sync with one cloud

Any number of computers run passes whose steps come between edits on either side, and a pass may
stop anywhere.
-/

namespace Stella.MemorySync

open Transition

variable {ι V : Type*} [DecidableEq ι] [DecidableEq V]

inductive Pass (V : Type*)
  | scanned (local' : Files V)
  | acting (files : SyncBase V) (refused : Files V) (actions : List (MemorySyncAction V)) (phase : Phase V)

structure Computer (V : Type*) where
  local' : Files V := []
  files : SyncBase V := []
  refused : Files V := []
  conflicts : List (String × V) := []
  pass : Option (Pass V) := none

structure World (ι V : Type*) where
  computers : ι → Computer V
  cloud : Files V

inductive Input (ι V : Type*)
  | editLocal (computer : ι) (path : String) (version : Option V)
  | editCloud (path : String) (version : Option V)
  | scan (computer : ι)
  | list (computer : ι) (inEpoch : Bool)
  | act (computer : ι)
  | stop (computer : ι) (saves : Bool)

def edit (files : Files V) (path : String) : Option V → Files V
  | some version => files.set path version
  | none => files.erase path

namespace Computer

variable (rules : Rules V) (c : Computer V) (cloud : Files V)

def scan : Computer V := if c.pass.isNone then { c with pass := some (.scanned c.local') } else c

def list (inEpoch : Bool) : Computer V :=
  match c.pass with
  | some (.scanned local') =>
    let base : SyncBase V := if inEpoch then c.files else []
    let refused : Files V := (if inEpoch then c.refused else []).filter fun entry => local'.get? entry.1 = some entry.2
    let actions := (planMemorySync base local' cloud).filter fun
      | .push path localSha _ => decide (refused.get? path ≠ some localSha)
      | _ => true
    { c with pass := some (.acting base refused actions .next) }
  | _ => c

def act : Computer V × Files V :=
  match c.pass with
  | some (.acting files refused [] _) => ({ c with files, refused, pass := none }, cloud)
  | some (.acting files refused (action :: rest) phase) =>
    let (desk, later) := advance rules ⟨c.local', cloud, files, refused, c.conflicts⟩ action phase
    let pass := match later with
      | none => Pass.acting desk.files desk.refused rest .next
      | some later => Pass.acting desk.files desk.refused (action :: rest) later
    ({ c with local' := desk.local', conflicts := desk.conflicts, pass := some pass }, desk.cloud)
  | _ => (c, cloud)

def stop (saves : Bool) : Computer V :=
  match c.pass with
  | some (.acting files refused _ _) => if saves then { c with files, refused, pass := none } else { c with pass := none }
  | _ => { c with pass := none }

end Computer

namespace World

variable (rules : Rules V) (w : World ι V)

def update (computer : ι) (c : Computer V) : World ι V := { w with computers := Function.update w.computers computer c }

def step : Input ι V → World ι V
  | .editLocal computer path version =>
    w.update computer { w.computers computer with local' := edit (w.computers computer).local' path version }
  | .editCloud path version => { w with cloud := edit w.cloud path version }
  | .scan computer => w.update computer (w.computers computer).scan
  | .list computer inEpoch => w.update computer ((w.computers computer).list w.cloud inEpoch)
  | .act computer =>
    let acted := (w.computers computer).act rules w.cloud
    { w.update computer acted.1 with cloud := acted.2 }
  | .stop computer saves => w.update computer ((w.computers computer).stop saves)

def idle : World ι V := { w with computers := fun computer => { w.computers computer with pass := none } }

end World

def Input.passOf : Input ι V → Option ι
  | .editLocal .. => none
  | .editCloud .. => none
  | .scan computer => some computer
  | .list computer _ => some computer
  | .act computer => some computer
  | .stop computer _ => some computer

/-- What a pass may do to the files: replace and delete only what its computer's base records, or has a copy of. -/
structure Careful (w next : World ι V) (computer : ι) : Prop where
  local' : ∀ path version, (w.computers computer).local'.get? path = some version →
    (next.computers computer).local'.get? path ≠ some version →
    Kept (w.computers computer).files (w.computers computer).conflicts SyncedPair.local' path version
  cloud : ∀ path version, w.cloud.get? path = some version → next.cloud.get? path ≠ some version →
    Kept (w.computers computer).files (w.computers computer).conflicts SyncedPair.cloud path version
  others : ∀ other, other ≠ computer → next.computers other = w.computers other

def Computer.Ready (c : Computer V) : Prop :=
  ∀ files refused actions phase, c.pass = some (.acting files refused actions phase) →
    (∀ action ∈ actions, Justified c.files action) ∧ ∀ action ∈ actions.head?, Saved c.conflicts action phase

omit [DecidableEq V] in
theorem ready_of_no_pass {c : Computer V} (h : ∀ files refused actions phase, c.pass ≠ some (.acting files refused actions phase)) :
    c.Ready := fun files refused actions phase hPass => absurd hPass (h files refused actions phase)

omit [DecidableEq V] in
theorem Computer.Ready.scan {c : Computer V} (h : c.Ready) : c.scan.Ready := by
  unfold Computer.scan
  split
  · exact ready_of_no_pass nofun
  · exact h

omit [DecidableEq V] in
theorem Computer.Ready.stop {c : Computer V} (saves : Bool) : (c.stop saves).Ready := by
  unfold Computer.stop
  split
  · split
    · exact ready_of_no_pass nofun
    · exact ready_of_no_pass nofun
  · exact ready_of_no_pass nofun

omit [DecidableEq V] in
theorem Justified.of_empty {base : SyncBase V} {action : MemorySyncAction V} (h : Justified [] action) : Justified base action := by
  cases action with
  | push path localSha expectCloud =>
    intro version hVersion
    obtain ⟨_, hNone, -⟩ := h version hVersion
    cases hNone
  | pull path expectLocal =>
    intro version hVersion
    obtain ⟨_, hNone, -⟩ := h version hVersion
    cases hNone
  | deleteCloud path expectCloud =>
    obtain ⟨_, hNone, -⟩ := h
    cases hNone
  | deleteLocal path expectLocal =>
    obtain ⟨_, hNone, -⟩ := h
    cases hNone
  | _ => trivial

theorem Computer.Ready.list {c : Computer V} (h : c.Ready) (cloud : Files V) (inEpoch : Bool) : (c.list cloud inEpoch).Ready := by
  unfold Computer.list
  split
  · intro files refused actions phase hPass
    obtain ⟨rfl, rfl, rfl, rfl⟩ := Pass.acting.inj (Option.some.inj hPass)
    refine ⟨fun action hAction => ?_, fun _ _ => trivial⟩
    have hPlanned := planMemorySync_justified (List.mem_of_mem_filter hAction)
    cases inEpoch with
    | true => exact hPlanned
    | false => exact hPlanned.of_empty
  · exact h

theorem Computer.Ready.act {c : Computer V} (h : c.Ready) (rules : Rules V) (cloud : Files V) : (c.act rules cloud).1.Ready := by
  unfold Computer.act
  split
  · exact ready_of_no_pass nofun
  · rename_i files refused action rest phase hPass
    obtain ⟨hJustified, -⟩ := h _ _ _ _ hPass
    dsimp only
    intro files' refused' actions' phase' hLater
    cases hNext : (advance rules ⟨c.local', cloud, files, refused, c.conflicts⟩ action phase).2 with
    | none =>
      rw [hNext] at hLater
      obtain ⟨-, -, rfl, rfl⟩ := Pass.acting.inj (Option.some.inj hLater)
      exact ⟨fun other hOther => hJustified other (List.mem_cons_of_mem _ hOther), fun _ _ => trivial⟩
    | some later =>
      rw [hNext] at hLater
      obtain ⟨-, -, rfl, rfl⟩ := Pass.acting.inj (Option.some.inj hLater)
      refine ⟨hJustified, fun other hOther => ?_⟩
      obtain rfl := Option.some.inj hOther
      exact advance_saved hNext
  · exact h

theorem ready_step {rules : Rules V} {w : World ι V} (h : ∀ computer, (w.computers computer).Ready) (input : Input ι V)
    (computer : ι) : ((w.step rules input).computers computer).Ready := by
  have hUpdate : ∀ (at' : ι) (c : Computer V), c.Ready → ((w.update at' c).computers computer).Ready := by
    intro at' c hReady
    unfold World.update
    dsimp only
    by_cases hAt : computer = at'
    · rw [hAt, Function.update_self]
      exact hReady
    · rw [Function.update_of_ne hAt]
      exact h computer
  cases input with
  | editLocal at' path version => exact hUpdate at' _ (h at')
  | editCloud path version => exact h computer
  | scan at' => exact hUpdate at' _ (h at').scan
  | list at' inEpoch => exact hUpdate at' _ ((h at').list w.cloud inEpoch)
  | act at' => exact hUpdate at' _ ((h at').act rules w.cloud)
  | stop at' saves => exact hUpdate at' _ (Computer.Ready.stop saves)

variable {computer : ι}

omit [DecidableEq ι] [DecidableEq V] in
theorem careful_of_same {w next : World ι V} (hCloud : next.cloud = w.cloud)
    (hLocal : (next.computers computer).local' = (w.computers computer).local')
    (hOthers : ∀ other, other ≠ computer → next.computers other = w.computers other) : Careful w next computer :=
  ⟨fun _ _ hHere hGone => absurd (hLocal ▸ hHere) hGone, fun _ _ hThere hGone => absurd (hCloud ▸ hThere) hGone, hOthers⟩

omit [DecidableEq V] in
theorem careful_update {w : World ι V} {c : Computer V} (hLocal : c.local' = (w.computers computer).local') :
    Careful w (w.update computer c) computer :=
  careful_of_same rfl (by unfold World.update; dsimp only; rw [Function.update_self]; exact hLocal) fun _ hOther => Function.update_of_ne hOther _ _

theorem careful_act {rules : Rules V} {w : World ι V} (h : (w.computers computer).Ready) :
    Careful w (w.step rules (.act computer)) computer := by
  have hOthers : ∀ other, other ≠ computer → (w.step rules (.act computer)).computers other = w.computers other :=
    fun _ hOther => Function.update_of_ne hOther _ _
  have hSelf : (w.step rules (.act computer)).computers computer = ((w.computers computer).act rules w.cloud).1 :=
    Function.update_self _ _ _
  cases hPass : (w.computers computer).pass with
  | none =>
    have hAct : (w.computers computer).act rules w.cloud = (w.computers computer, w.cloud) := by rw [Computer.act, hPass]
    exact careful_of_same (congrArg Prod.snd hAct) (by rw [hSelf, hAct]) hOthers
  | some pass =>
    cases pass with
    | scanned scanned =>
      have hAct : (w.computers computer).act rules w.cloud = (w.computers computer, w.cloud) := by rw [Computer.act, hPass]
      exact careful_of_same (congrArg Prod.snd hAct) (by rw [hSelf, hAct]) hOthers
    | acting files refused actions phase =>
      cases actions with
      | nil =>
        have hAct : (w.computers computer).act rules w.cloud =
            ({ w.computers computer with files, refused, pass := none }, w.cloud) := by rw [Computer.act, hPass]
        exact careful_of_same (congrArg Prod.snd hAct) (by rw [hSelf, hAct]) hOthers
      | cons action rest =>
        obtain ⟨hJustified, hSaved⟩ := h _ _ _ _ hPass
        have hGuards : Guards (w.computers computer).files
            ⟨(w.computers computer).local', w.cloud, files, refused, (w.computers computer).conflicts⟩
            (advance rules ⟨(w.computers computer).local', w.cloud, files, refused, (w.computers computer).conflicts⟩ action phase).1 :=
          advance_guards (hJustified action List.mem_cons_self) (hSaved action rfl)
        have hLocal : ((w.computers computer).act rules w.cloud).1.local' = (advance rules
            ⟨(w.computers computer).local', w.cloud, files, refused, (w.computers computer).conflicts⟩ action phase).1.local' := by
          rw [Computer.act, hPass]
        have hCloud : ((w.computers computer).act rules w.cloud).2 = (advance rules
            ⟨(w.computers computer).local', w.cloud, files, refused, (w.computers computer).conflicts⟩ action phase).1.cloud := by
          rw [Computer.act, hPass]
        refine ⟨fun path version hHere hGone => ?_, fun path version hThere hGone => ?_, hOthers⟩
        · rw [hSelf, hLocal] at hGone
          exact hGuards.local' path version hHere hGone
        · exact hGuards.cloud path version hThere (hCloud ▸ hGone)

theorem careful_step {rules : Rules V} {w : World ι V} (h : ∀ computer, (w.computers computer).Ready) (input : Input ι V) :
    ∀ computer ∈ input.passOf, Careful w (w.step rules input) computer := by
  intro computer hPass
  cases input with
  | editLocal at' path version => cases hPass
  | editCloud path version => cases hPass
  | scan at' =>
    obtain rfl := Option.some.inj hPass
    refine careful_update ?_
    unfold Computer.scan
    split
    · rfl
    · rfl
  | list at' inEpoch =>
    obtain rfl := Option.some.inj hPass
    refine careful_update ?_
    unfold Computer.list
    split
    · rfl
    · rfl
  | act at' =>
    obtain rfl := Option.some.inj hPass
    exact careful_act (h at')
  | stop at' saves =>
    obtain rfl := Option.some.inj hPass
    refine careful_update ?_
    unfold Computer.stop
    split
    · split
      · rfl
      · rfl
    · rfl

omit [DecidableEq ι] [DecidableEq V] in
theorem ready_idle (w : World ι V) (computer : ι) : (w.idle.computers computer).Ready := by
  intro files refused actions phase hPass
  cases hPass

theorem ready_run (rules : Rules V) (w : World ι V) (inputs : List (Input ι V)) :
    ∀ computer, ((run (World.step rules) w.idle inputs).computers computer).Ready :=
  @run_invariant_always _ _ _ (fun w : World ι V => ∀ computer, (w.computers computer).Ready) (fun _ input h => ready_step h input) _
    inputs (ready_idle w)

/-- In every run from computers and a cloud without a pass, each step of a pass is careful. -/
theorem careful_of_run (rules : Rules V) (w : World ι V) (inputs : List (Input ι V)) (input : Input ι V) :
    ∀ computer ∈ input.passOf, Careful (run (World.step rules) w.idle inputs)
      ((run (World.step rules) w.idle inputs).step rules input) computer :=
  careful_step (ready_run rules w inputs) input

def plainRules : Rules Nat := ⟨fun _ version => some version, id⟩

def divergedInputs : List (Input Bool Nat) :=
  [.editLocal true "core-memory.md" (some 1), .editCloud "core-memory.md" (some 2), .scan true, .list true true, .act true, .act true]

theorem careful_divergedRun :
    let w := run (World.step plainRules) (World.idle ⟨fun _ => {}, []⟩) divergedInputs
    Careful w (w.step plainRules (.act true)) true ∧ (w.computers true).local'.get? "core-memory.md" = some 1 ∧
      ((w.step plainRules (.act true)).computers true).local'.get? "core-memory.md" = some 2 ∧
      ("core-memory.md", 1) ∈ (w.computers true).conflicts :=
  ⟨careful_of_run plainRules ⟨fun _ => {}, []⟩ divergedInputs (.act true) true rfl, by decide +kernel⟩

end Stella.MemorySync
