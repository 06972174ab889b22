import Mathlib.Data.List.TakeWhile
import Stella.AgentThreads.Events

/-! # Events of one thread in any order

Once a spawn made the thread known, what has been delivered is ranked by attempt, and in an
attempt a spawn is below `waiting_for_user` and that below a final report; the thread is at the
highest report heard.
-/

namespace Stella.AgentThreads

open List

structure View where
  attemptGeneration : Int
  status : Status
  resultJson : Option String
  errorMessage : Option String
  deriving DecidableEq

def ThreadRow.view (row : ThreadRow) : View := ⟨row.attemptGeneration, row.status, row.resultJson, row.errorMessage⟩

def Status.level : Status → Nat
  | .running | .resuming => 0
  | .waitingForUser => 1
  | .completed | .failed | .canceled => 2

def View.le (v w : View) : Prop :=
  v.attemptGeneration < w.attemptGeneration ∨
    v.attemptGeneration = w.attemptGeneration ∧ v.status.level ≤ w.status.level

instance (v w : View) : Decidable (v.le w) := inferInstanceAs (Decidable (_ ∨ _))

theorem View.le_refl (v : View) : v.le v := .inr ⟨rfl, Nat.le_refl _⟩

theorem View.le_trans {u v w : View} (h : u.le v) (h' : v.le w) : u.le w := by
  unfold View.le at *
  omega

def AgentThreadEvent.report : AgentThreadEvent → Option View
  | .threadSpawned event => some ⟨event.attemptGeneration, .running, none, none⟩
  | .threadCompleted event => some ⟨event.attemptGeneration, event.status, event.resultJson, event.errorMessage⟩
  | _ => none

def AgentThreadEvent.isSpawn : AgentThreadEvent → Bool
  | .threadSpawned _ => true
  | _ => false

def reports (events : List AgentThreadEvent) : List View := events.filterMap AgentThreadEvent.report

def heard (events : List AgentThreadEvent) : List AgentThreadEvent := events.dropWhile (fun e => !e.isSpawn)

def applyAll (db : Db) (events : List AgentThreadEvent) : Db := events.foldl Db.applyAgentThreadEvent db

/-- A report of the thread is of thread `t` and owner generation `g`, and a completion is no start. -/
def AgentThreadEvent.About (t g : String) : AgentThreadEvent → Prop
  | .threadSpawned event => event.threadId = t ∧ event.ownerGeneration = g
  | .threadCompleted event => event.threadId = t ∧ event.ownerGeneration = g ∧ event.status.active = false
  | _ => True

/-- The events of one thread: each attempt that is reported has one spawn, at most one final report
and at most one of waiting. -/
structure OneThread (t g : String) (events : List AgentThreadEvent) : Prop where
  about : ∀ e ∈ events, e.About t g
  spawned : ∀ v ∈ reports events, ∃ e ∈ events, e.isSpawn ∧
    ∀ w ∈ e.report, w.attemptGeneration = v.attemptGeneration
  single : ∀ e ∈ events, ∀ e' ∈ events, ∀ v ∈ e.report, ∀ w ∈ e'.report,
    v.attemptGeneration = w.attemptGeneration → v.status.level = w.status.level → e = e'

def Newest (events : List AgentThreadEvent) (v : View) : Prop := v ∈ reports events ∧ ∀ w ∈ reports events, w.le v

section Delivery

variable (db : Db) (t : String)

def viewAfter (events : List AgentThreadEvent) : Option View := ((applyAll db events).readThread t).map ThreadRow.view

def updatedAfter (events : List AgentThreadEvent) : Option Int :=
  ((applyAll db events).readThread t).map ThreadRow.updatedAt

def Applied (events : List AgentThreadEvent) (e : AgentThreadEvent) : Prop :=
  ∃ before after, events = before ++ e :: after ∧
    (applyAll db (before ++ [e])).readThread t ≠ (applyAll db before).readThread t

def Still (events : List AgentThreadEvent) : Prop :=
  ∀ before e after, events = before ++ e :: after → Applied db t before e →
    updatedAfter db t (before ++ [e]) = updatedAfter db t before

structure Agree (events events' : List AgentThreadEvent) : Prop where
  same : viewAfter db t events = viewAfter db t events'
  newest : ∀ v, Newest events v → viewAfter db t events = some v
  newest' : ∀ v, Newest events' v → viewAfter db t events' = some v
  still : Still db t events
  still' : Still db t events'

end Delivery

def Heard (events : List AgentThreadEvent) : Prop := ∀ v, Newest events v → v ∈ reports (heard events)

def Once (events : List AgentThreadEvent) : Prop :=
  ∀ before e middle after, heard events = before ++ e :: (middle ++ e :: after) →
    ∀ v ∈ e.report, v.status = .waitingForUser → ∃ w ∈ reports (before ++ middle), ¬ w.le v

/-! ## One event -/

variable {db : Db} {t g : String}

theorem apply_turn {e : AgentThreadEvent} (h : e.report = none) :
    (db.applyAgentThreadEvent e).readThread t = db.readThread t := by
  cases e with
  | turnStarted event =>
    unfold Db.applyAgentThreadEvent
    dsimp only
    split
    · rfl
    · exact insertTurn_readThread _ _ _
  | turnEvent event =>
    unfold Db.applyAgentThreadEvent
    dsimp only
    repeat' split
    all_goals rfl
  | threadSpawned event => cases h
  | threadCompleted event => cases h

variable {event : ThreadCompleted}

theorem apply_completed_unknown (hId : event.threadId = t) (h : db.readThread t = none) :
    (db.applyAgentThreadEvent (.threadCompleted event)).readThread t = none := by
  unfold Db.applyAgentThreadEvent
  dsimp only
  rw [hId, h]
  exact h

theorem apply_spawned_unknown {event : ThreadSpawned} (hId : event.threadId = t) (h : db.readThread t = none) :
    (db.applyAgentThreadEvent (.threadSpawned event)).readThread t = some (spawnedRow event) := by
  unfold Db.applyAgentThreadEvent
  dsimp only
  rw [hId, h]
  have hRow : Rows.lookup ThreadRow.threadId [spawnedRow event] t = some (spawnedRow event) := by
    have hKey : (spawnedRow event).threadId = t := hId
    simp [Rows.lookup, hKey]
  unfold Db.readThread at h ⊢
  rw [Rows.lookup_append, h, hRow]
  rfl

variable {row : ThreadRow}

theorem apply_spawned_known {event : ThreadSpawned} (hId : event.threadId = t)
    (h : db.readThread t = some row) : ∃ next,
      (db.applyAgentThreadEvent (.threadSpawned event)).readThread t = some next ∧
      next.ownerGeneration = row.ownerGeneration ∧
      (event.attemptGeneration ≤ row.attemptGeneration → next.view = row.view ∧ next.updatedAt = row.updatedAt) ∧
      (row.attemptGeneration < event.attemptGeneration →
        next.view = ⟨event.attemptGeneration, .running, none, none⟩) := by
  unfold Db.applyAgentThreadEvent
  dsimp only
  rw [hId, h]
  dsimp only
  split
  · next hOld =>
    split
    · refine ⟨parentPatch event row, ?_, rfl, fun _ => ⟨rfl, rfl⟩, fun hNew => absurd hNew (by omega)⟩
      rw [readThread_setThread (parentPatch event) (fun _ => rfl), h, Option.map_some, if_pos rfl]
    · exact ⟨row, h, rfl, fun _ => ⟨rfl, rfl⟩, fun hNew => absurd hNew (by omega)⟩
  · next hNew =>
    refine ⟨respawnPatch event row, ?_, rfl, fun hOld => absurd hOld hNew, fun _ => rfl⟩
    rw [readThread_setThread (respawnPatch event) (fun _ => rfl), h, Option.map_some, if_pos rfl]

theorem apply_completed_known (hId : event.threadId = t)
    (h : db.readThread t = some row) :
    (db.applyAgentThreadEvent (.threadCompleted event)).readThread t =
      some (if Db.stale row event then row else completedPatch event row) := by
  unfold Db.applyAgentThreadEvent
  dsimp only
  rw [hId, h]
  dsimp only
  split
  · exact h
  · rw [readThread_setThread (completedPatch event) (fun _ => rfl), h, Option.map_some, if_pos rfl]

theorem stale_iff (hOwn : row.ownerGeneration = some g)
    (hGen : event.ownerGeneration = g) (hKind : event.status.active = false) :
    Db.stale row event = true ↔
      (⟨event.attemptGeneration, event.status, event.resultJson, event.errorMessage⟩ : View).le row.view ∧
        ¬ (event.attemptGeneration = row.attemptGeneration ∧ row.status = .waitingForUser) := by
  unfold Db.stale View.le ThreadRow.view
  rw [hOwn, hGen]
  dsimp only
  cases hRow : row.status <;> cases hEv : event.status <;>
    simp_all [Status.active, Status.level] <;> omega

/-! ## What has been heard -/

theorem heard_append {events : List AgentThreadEvent} (h : ∃ e ∈ events, e.isSpawn = true)
    (more : List AgentThreadEvent) : heard (events ++ more) = heard events ++ more := by
  induction events with
  | nil =>
    obtain ⟨e, hMem, -⟩ := h
    cases hMem
  | cons e rest ih =>
    unfold heard at ih ⊢
    rw [cons_append]
    cases hSpawn : e.isSpawn with
    | true =>
      rw [dropWhile_cons_of_neg (by simp [hSpawn]), dropWhile_cons_of_neg (by simp [hSpawn])]
      rfl
    | false =>
      rw [dropWhile_cons_of_pos (by simp [hSpawn]), dropWhile_cons_of_pos (by simp [hSpawn])]
      refine ih ?_
      obtain ⟨e', hMem, hOther⟩ := h
      obtain rfl | hMem := mem_cons.mp hMem
      · rw [hSpawn] at hOther
        cases hOther
      · exact ⟨e', hMem, hOther⟩

theorem heard_sublist (events : List AgentThreadEvent) : ∀ e ∈ heard events, e ∈ events :=
  fun _ h => (dropWhile_sublist _).mem h

theorem mem_reports {events : List AgentThreadEvent} {v : View} :
    v ∈ reports events ↔ ∃ e ∈ events, v ∈ e.report := by
  unfold reports
  rw [mem_filterMap]
  rfl

theorem reports_append (events more : List AgentThreadEvent) :
    reports (events ++ more) = reports events ++ reports more := filterMap_append

/-- The thread is at the highest of the events `known`. -/
structure Tracks (db : Db) (t g : String) (known : List AgentThreadEvent) (row : ThreadRow) : Prop where
  read : db.readThread t = some row
  own : row.ownerGeneration = some g
  mem : row.view ∈ reports known
  top : ∀ v ∈ reports known, v.le row.view

def Repeats (v : View) (row : ThreadRow) : Prop :=
  v.status = .waitingForUser ∧ v.attemptGeneration = row.attemptGeneration ∧ row.status = .waitingForUser

variable {known : List AgentThreadEvent}

theorem Tracks.step (h : Tracks db t g known row)
    {e : AgentThreadEvent} (hAbout : e.About t g) : ∃ next, Tracks (db.applyAgentThreadEvent e) t g (known ++ [e]) next ∧
      ∀ v ∈ e.report, v.le row.view →
        (¬ Repeats v row → next.updatedAt = row.updatedAt) ∧ (Repeats v row → row.updatedAt < next.updatedAt) := by
  cases hRep : e.report with
  | none =>
    refine ⟨row, ⟨(apply_turn hRep).trans h.read, h.own, ?_, ?_⟩, fun v hv => absurd hv (by simp)⟩
    · rw [reports_append]
      exact mem_append_left _ h.mem
    · have hEq : reports [e] = [] := by simp [reports, hRep]
      rw [reports_append, hEq, append_nil]
      exact h.top
  | some v =>
    have hReports : reports (known ++ [e]) = reports known ++ [v] := by
      rw [reports_append]
      simp [reports, hRep]
    have hRest : ∀ next : ThreadRow, row.view.le next.view → v.le next.view →
        ∀ w ∈ reports (known ++ [e]), w.le next.view := by
      intro next hAbove hLe w hw
      rw [hReports] at hw
      obtain hw | hw := mem_append.mp hw
      · exact View.le_trans (h.top w hw) hAbove
      · obtain rfl := mem_singleton.mp hw
        exact hLe
    have hOld : row.view ∈ reports (known ++ [e]) := by
      rw [hReports]
      exact mem_append_left _ h.mem
    have hNewest : v ∈ reports (known ++ [e]) := by
      rw [hReports]
      exact mem_append_right _ mem_cons_self
    cases e with
    | turnStarted event => cases hRep
    | turnEvent event => cases hRep
    | threadSpawned event =>
      obtain rfl : (⟨event.attemptGeneration, .running, none, none⟩ : View) = v := Option.some.inj hRep
      obtain ⟨next, hRead, hOwn, hKept, hNew⟩ := apply_spawned_known hAbout.1 h.read
      by_cases hLe : event.attemptGeneration ≤ row.attemptGeneration
      · obtain ⟨hView, hTime⟩ := hKept hLe
        have hBelow : (⟨event.attemptGeneration, .running, none, none⟩ : View).le row.view := by
          unfold View.le ThreadRow.view Status.level
          dsimp only
          omega
        refine ⟨next, ⟨hRead, hOwn.trans h.own, by rwa [hView], ?_⟩, ?_⟩
        · exact hRest next (by rw [hView]; exact View.le_refl _) (by rwa [hView])
        · intro w hw _
          obtain rfl := Option.some.inj hw
          exact ⟨fun _ => hTime, fun hRepeats => Status.noConfusion hRepeats.1⟩
      · have hView := hNew (Int.not_le.mp hLe)
        have hAbove : row.view.le next.view := by
          rw [hView]
          unfold View.le ThreadRow.view
          dsimp only
          omega
        refine ⟨next, ⟨hRead, hOwn.trans h.own, by rwa [hView], ?_⟩, ?_⟩
        · exact hRest next hAbove (by rw [hView]; exact View.le_refl _)
        · intro w hw hLow
          obtain rfl := Option.some.inj hw
          unfold View.le ThreadRow.view at hLow
          dsimp only at hLow
          omega
    | threadCompleted event =>
      obtain rfl : (⟨event.attemptGeneration, event.status, event.resultJson, event.errorMessage⟩ : View) = v :=
        Option.some.inj hRep
      have hRead := apply_completed_known hAbout.1 h.read
      have hStale := stale_iff h.own hAbout.2.1 hAbout.2.2
      by_cases hDrop : Db.stale row event = true
      · rw [if_pos hDrop] at hRead
        have hBelow := (hStale.mp hDrop).1
        refine ⟨row, ⟨hRead, h.own, hOld, hRest row (View.le_refl _) hBelow⟩, fun w hw _ => ⟨fun _ => rfl, ?_⟩⟩
        obtain rfl := Option.some.inj hw
        intro hRepeats
        exact absurd hRepeats.2 (hStale.mp hDrop).2
      · rw [if_neg hDrop] at hRead
        have hLater : row.updatedAt < (completedPatch event row).updatedAt := by
          unfold completedPatch
          dsimp only
          omega
        have hKind := hAbout.2.2
        have hKept := fun hLe => not_not.mp (fun hNot => hDrop (hStale.mpr ⟨hLe, hNot⟩))
        have hAbove : row.view.le (completedPatch event row).view := by
          by_cases hLe : (⟨event.attemptGeneration, event.status, event.resultJson, event.errorMessage⟩ : View).le row.view
          · obtain ⟨hGen, hWait⟩ := hKept hLe
            unfold View.le completedPatch ThreadRow.view
            dsimp only
            right
            refine ⟨hGen.symm, ?_⟩
            rw [hWait]
            cases hStat : event.status <;> simp_all [Status.level, Status.active]
          · unfold View.le completedPatch ThreadRow.view at *
            dsimp only at *
            omega
        refine ⟨completedPatch event row, ⟨hRead, h.own, hNewest, hRest _ hAbove (View.le_refl _)⟩, ?_⟩
        intro w hw hLow
        obtain rfl := Option.some.inj hw
        obtain ⟨hGen, hWait⟩ := hKept hLow
        refine ⟨fun hNot => absurd ⟨?_, hGen, hWait⟩ hNot, fun _ => hLater⟩
        unfold View.le ThreadRow.view at hLow
        dsimp only at hLow
        rw [hWait] at hLow
        dsimp only
        cases hStat : event.status <;> simp_all [Status.level, Status.active]

/-! ## Whole deliveries -/

theorem applyAll_append (db : Db) (events more : List AgentThreadEvent) :
    applyAll db (events ++ more) = applyAll (applyAll db events) more := foldl_append

theorem applyAll_unknown (h : db.readThread t = none) {events : List AgentThreadEvent}
    (hAbout : ∀ e ∈ events, e.About t g) (hNone : ∀ e ∈ events, e.isSpawn = false) :
    (applyAll db events).readThread t = none := by
  induction events generalizing db with
  | nil => exact h
  | cons e rest ih =>
    have hNext : (db.applyAgentThreadEvent e).readThread t = none := by
      have hOwn := hAbout e mem_cons_self
      have hSpawn := hNone e mem_cons_self
      cases e with
      | turnStarted event => exact (apply_turn rfl).trans h
      | turnEvent event => exact (apply_turn rfl).trans h
      | threadSpawned event => cases hSpawn
      | threadCompleted event => exact apply_completed_unknown hOwn.1 h
    exact ih hNext (fun e' he => hAbout e' (mem_cons_of_mem _ he))
      (fun e' he => hNone e' (mem_cons_of_mem _ he))

theorem Tracks.steps (h : Tracks db t g known row)
    {more : List AgentThreadEvent} (hAbout : ∀ e ∈ more, e.About t g) :
    ∃ next, Tracks (applyAll db more) t g (known ++ more) next := by
  induction more generalizing db known row with
  | nil => exact ⟨row, by rwa [append_nil]⟩
  | cons e rest ih =>
    obtain ⟨next, hNext, -⟩ := h.step (hAbout e mem_cons_self)
    obtain ⟨last, hLast⟩ := ih hNext (fun e' he => hAbout e' (mem_cons_of_mem _ he))
    refine ⟨last, ?_⟩
    rwa [append_assoc] at hLast

theorem tracks_heard (h : db.readThread t = none) {events : List AgentThreadEvent}
    (hAbout : ∀ e ∈ events, e.About t g) (hSpawn : ∃ e ∈ events, e.isSpawn = true) :
    ∃ row, Tracks (applyAll db events) t g (heard events) row := by
  have hSplit : events = events.takeWhile (fun e => !e.isSpawn) ++ heard events :=
    (takeWhile_append_dropWhile).symm
  have hBef : ∀ e ∈ events.takeWhile (fun e => !e.isSpawn), e.isSpawn = false := by
    intro e he
    simpa using mem_takeWhile_imp he
  have hUnknown : (applyAll db (events.takeWhile (fun e => !e.isSpawn))).readThread t = none :=
    applyAll_unknown h (fun e he => hAbout e ((takeWhile_sublist _).mem he)) hBef
  cases hHeard : heard events with
  | nil =>
    obtain ⟨e, hMem, hTrue⟩ := hSpawn
    rw [hHeard, append_nil] at hSplit
    rw [hSplit] at hMem
    rw [hBef e hMem] at hTrue
    cases hTrue
  | cons first rest =>
    have hFirst : first.isSpawn = true := by
      have hHead : (heard events).head? = some first := by rw [hHeard]; rfl
      have hNot := head?_dropWhile_not (fun e : AgentThreadEvent => !e.isSpawn) events
      unfold heard at hHead
      rw [hHead] at hNot
      simpa using hNot
    have hMem : ∀ e ∈ first :: rest, e.About t g := by
      intro e he
      exact hAbout e (heard_sublist events e (by rw [hHeard]; exact he))
    cases first with
    | threadSpawned event =>
      have hOwn := hMem (.threadSpawned event) mem_cons_self
      have hRead := apply_spawned_unknown hOwn.1 hUnknown
      have hStart : Tracks ((applyAll db (events.takeWhile (fun e => !e.isSpawn))).applyAgentThreadEvent
          (.threadSpawned event)) t g [.threadSpawned event] (spawnedRow event) := by
        refine ⟨hRead, congrArg some hOwn.2, mem_cons_self, fun v hv => ?_⟩
        obtain rfl := mem_singleton.mp hv
        exact View.le_refl _
      obtain ⟨last, hLast⟩ := hStart.steps (fun e he => hMem e (mem_cons_of_mem _ he))
      refine ⟨last, ?_⟩
      rw [hSplit, applyAll_append, hHeard]
      exact hLast
    | turnStarted event => cases hFirst
    | turnEvent event => cases hFirst
    | threadCompleted event => cases hFirst

section Whole

variable {events : List AgentThreadEvent}

variable {v : View}

theorem OneThread.eq_of_ties (h : OneThread t g events) {w : View} (hv : v ∈ reports events)
    (hw : w ∈ reports events) (hLe : v.le w) (hGe : w.le v) : v = w := by
  obtain ⟨e, he, hve⟩ := mem_reports.mp hv
  obtain ⟨e', he', hwe⟩ := mem_reports.mp hw
  unfold View.le at hLe hGe
  have hEq := h.single e he e' he' v hve w hwe (by omega) (by omega)
  subst hEq
  exact Option.some.inj (hve.symm.trans hwe)

theorem OneThread.exists_spawn (h : OneThread t g events) (hv : v ∈ reports events) :
    ∃ e ∈ events, e.isSpawn = true := by
  obtain ⟨e, he, hSpawn, -⟩ := h.spawned v hv
  exact ⟨e, he, hSpawn⟩

theorem settled_iff (h : db.readThread t = none) (hOne : OneThread t g events) :
    (∀ v, Newest events v → viewAfter db t events = some v) ↔ Heard events := by
  constructor
  · intro hSettled v hNewest
    obtain ⟨row, hTracks⟩ := tracks_heard h hOne.about (hOne.exists_spawn hNewest.1)
    have hView := hSettled v hNewest
    unfold viewAfter at hView
    rw [hTracks.read, Option.map_some] at hView
    exact Option.some.inj hView ▸ hTracks.mem
  · intro hHeard v hNewest
    obtain ⟨row, hTracks⟩ := tracks_heard h hOne.about (hOne.exists_spawn hNewest.1)
    have hMem : row.view ∈ reports events := by
      obtain ⟨e, he, hRep⟩ := mem_reports.mp hTracks.mem
      exact mem_reports.mpr ⟨e, heard_sublist events e he, hRep⟩
    have hTie := hOne.eq_of_ties hMem hNewest.1 (hNewest.2 _ hMem) (hTracks.top _ (hHeard v hNewest))
    unfold viewAfter
    rw [hTracks.read, Option.map_some, hTie]

variable {before rest : List AgentThreadEvent}

theorem heard_eq_of_split (hSpawn : ∃ e ∈ before, e.isSpawn = true)
    (hHeard : heard events = before ++ rest) :
    ∃ early, events = early ++ before ++ rest ∧ heard (early ++ before) = before := by
  refine ⟨events.takeWhile (fun e => !e.isSpawn), ?_, ?_⟩
  · rw [append_assoc, ← hHeard]
    exact takeWhile_append_dropWhile.symm
  · obtain ⟨e, he, hTrue⟩ := hSpawn
    have hAll := heard_append ⟨e, mem_append_right (events.takeWhile (fun e => !e.isSpawn)) he, hTrue⟩ rest
    rw [append_assoc, ← hHeard] at hAll
    have hWhole : events.takeWhile (fun e => !e.isSpawn) ++ heard events = events := takeWhile_append_dropWhile
    rw [hWhole, hHeard] at hAll
    exact (append_cancel_right hAll).symm

variable {e : AgentThreadEvent}

theorem exists_spawn_of_heard
    (hHeard : heard events = before ++ e :: rest) (hSpawn : e.isSpawn = false) : ∃ e' ∈ before, e'.isSpawn = true := by
  cases before with
  | nil =>
    have hNot := head?_dropWhile_not (fun e : AgentThreadEvent => !e.isSpawn) events
    unfold heard at hHeard
    rw [hHeard] at hNot
    simp [hSpawn] at hNot
  | cons first before =>
    have hNot := head?_dropWhile_not (fun e : AgentThreadEvent => !e.isSpawn) events
    unfold heard at hHeard
    rw [hHeard] at hNot
    exact ⟨first, mem_cons_self, by simpa using hNot⟩

theorem mem_heard_of_spawn (h : e ∈ events) (hSpawn : e.isSpawn = true) : e ∈ heard events := by
  have hWhole : events.takeWhile (fun e => !e.isSpawn) ++ heard events = events := takeWhile_append_dropWhile
  rw [← hWhole] at h
  obtain hBef | hIn := mem_append.mp h
  · have hNot := mem_takeWhile_imp hBef
    simp [hSpawn] at hNot
  · exact hIn

theorem exists_spawn_of_mem_heard (h : e ∈ heard events) : ∃ s ∈ events, s.isSpawn = true := by
  have hNot := head?_dropWhile_not (fun e : AgentThreadEvent => !e.isSpawn) events
  unfold heard at h
  cases hHeard : List.dropWhile (fun e : AgentThreadEvent => !e.isSpawn) events with
  | nil =>
    rw [hHeard] at h
    cases h
  | cons first rest =>
    rw [hHeard] at hNot
    refine ⟨first, heard_sublist events first ?_, by simpa using hNot⟩
    unfold heard
    rw [hHeard]
    exact mem_cons_self

theorem not_spawn_of_waiting (h : e.report = some v)
    (hWait : v.status = .waitingForUser) : e.isSpawn = false := by
  cases e with
  | threadSpawned event =>
    obtain rfl := Option.some.inj h
    cases hWait
  | turnStarted event => rfl
  | turnEvent event => rfl
  | threadCompleted event => rfl

theorem Tracks.moves {known : List AgentThreadEvent} {row : ThreadRow} (h : Tracks db t g known row)
    (hAbout : e.About t g) (hv : v ∈ e.report) (hWaiting : v.status = .waitingForUser)
    (hTop : row.view.le v) : (db.applyAgentThreadEvent e).readThread t ≠ db.readThread t ∧
      (v.le row.view → ∃ next, (db.applyAgentThreadEvent e).readThread t = some next ∧
        row.updatedAt < next.updatedAt) := by
  obtain ⟨next, hNext, hTime⟩ := h.step hAbout
  have hRepeats : v.le row.view → Repeats v row := by
    intro hLe
    unfold View.le ThreadRow.view at hLe hTop
    dsimp only at hLe hTop
    rw [hWaiting] at hLe hTop
    refine ⟨hWaiting, by omega, ?_⟩
    have hLevel : row.status.level = 1 := by
      have hOne : Status.waitingForUser.level = 1 := rfl
      omega
    cases hStatus : row.status <;> simp_all [Status.level]
  have hMoves : v.le row.view → row.updatedAt < next.updatedAt := fun hLe => (hTime v hv hLe).2 (hRepeats hLe)
  refine ⟨fun hSame => ?_, fun hLe => ⟨next, hNext.read, hMoves hLe⟩⟩
  rw [hNext.read, h.read] at hSame
  obtain rfl := Option.some.inj hSame
  have hIn : v ∈ reports (known ++ [e]) :=
    mem_reports.mpr ⟨e, mem_append_right _ mem_cons_self, hv⟩
  exact absurd (hMoves (hNext.top v hIn)) (Int.lt_irrefl _)

theorem still_iff (h : db.readThread t = none) (hOne : OneThread t g events) : Still db t events ↔ Once events := by
  constructor
  · intro hStill before e middle after hHeard v hv hWait
    by_contra hNone
    have hLow : ∀ w ∈ reports (before ++ middle), w.le v := fun w hw => not_not.mp fun hNot => hNone ⟨w, hw, hNot⟩
    have hSpawn : e.isSpawn = false := not_spawn_of_waiting hv hWait
    obtain ⟨s, hs, hTrue⟩ := exists_spawn_of_heard hHeard hSpawn
    obtain ⟨early, hSplit, hEarly⟩ := heard_eq_of_split ⟨s, hs, hTrue⟩ hHeard
    have hAbout : ∀ e' ∈ early ++ before ++ e :: (middle ++ e :: after), e'.About t g := by
      rw [← hSplit]
      exact hOne.about
    have hOwn : e.About t g := hAbout e (by simp)
    have hFar : ∃ row, Tracks (applyAll db (early ++ before)) t g (heard (early ++ before)) row :=
      tracks_heard h (fun e' he => hAbout e' (mem_append_left _ he)) ⟨s, mem_append_right _ hs, hTrue⟩
    obtain ⟨row, hTracks⟩ := hFar
    rw [hEarly] at hTracks
    obtain ⟨next, hNext, -⟩ := hTracks.step hOwn
    have hMiddleAbout : ∀ e' ∈ middle, e'.About t g := fun e' he => hAbout e' (by simp [he])
    obtain ⟨last, hLast⟩ := hNext.steps hMiddleAbout
    have hFirst := hTracks.moves hOwn hv hWait (hLow _ (by
      rw [reports_append]
      exact mem_append_left _ hTracks.mem))
    have hIn : v ∈ reports (before ++ [e] ++ middle) := mem_reports.mpr ⟨e, by simp, hv⟩
    have hTop : last.view.le v := by
      obtain ⟨e', he', hRep⟩ := mem_reports.mp hLast.mem
      obtain hBef | rfl | hMiddle : e' ∈ before ∨ e' = e ∨ e' ∈ middle := by simpa [or_assoc] using he'
      · exact hLow _ (mem_reports.mpr ⟨e', mem_append_left _ hBef, hRep⟩)
      · rw [Option.some.inj (hRep.symm.trans hv)]
        exact View.le_refl _
      · exact hLow _ (mem_reports.mpr ⟨e', mem_append_right _ hMiddle, hRep⟩)
    obtain ⟨moved, hMoved, hLater⟩ := (hLast.moves hOwn hv hWait hTop).2 (hLast.top v hIn)
    have hApplied : Applied db t (early ++ before ++ e :: middle) e := by
      refine ⟨early ++ before, middle, rfl, ?_⟩
      rw [applyAll_append]
      exact hFirst.1
    have hEq := hStill (early ++ before ++ e :: middle) e after (by rw [hSplit]; simp) hApplied
    have hSt : applyAll db (early ++ before ++ e :: middle) =
        applyAll ((applyAll db (early ++ before)).applyAgentThreadEvent e) middle := by
      rw [applyAll_append]
      rfl
    unfold updatedAfter at hEq
    rw [applyAll_append, hSt] at hEq
    change Option.map _ ((Db.applyAgentThreadEvent _ e).readThread t) = _ at hEq
    rw [hMoved, hLast.read] at hEq
    exact absurd (Option.some.inj hEq) (by omega)
  · intro hOnce before e after hSplit ⟨first, second, hBef, hEffect⟩
    have hAbout : ∀ e' ∈ before ++ e :: after, e'.About t g := hSplit ▸ hOne.about
    have hOwn : e.About t g := hAbout e (by simp)
    have hStep : applyAll db (before ++ [e]) = (applyAll db before).applyAgentThreadEvent e := applyAll_append _ _ _
    unfold updatedAfter
    rw [hStep]
    cases hRep : e.report with
    | none => rw [apply_turn hRep]
    | some v =>
      have hIn : e ∈ before := by simp [hBef]
      have hKnown : e.isSpawn = false → ∃ s ∈ first, s.isSpawn = true := by
        intro hSpawn
        by_contra hNone
        have hFirst : ∀ e' ∈ first, e'.isSpawn = false := fun e' he =>
          Bool.eq_false_iff.mpr fun hTrue => hNone ⟨e', he, hTrue⟩
        have hOnFirst : ∀ e' ∈ first, e'.About t g := fun e' he => hAbout e' (by simp [hBef, he])
        refine hEffect ?_
        rw [applyAll_unknown h hOnFirst hFirst]
        refine applyAll_unknown (g := g) h (fun e' he => ?_) (fun e' he => ?_)
        · obtain he | he := mem_append.mp he
          · exact hOnFirst e' he
          · exact mem_singleton.mp he ▸ hOwn
        · obtain he | he := mem_append.mp he
          · exact hFirst e' he
          · exact mem_singleton.mp he ▸ hSpawn
      have hHeard : e ∈ heard before := by
        cases hSpawn : e.isSpawn with
        | true => exact mem_heard_of_spawn hIn hSpawn
        | false =>
          rw [hBef, heard_append (hKnown hSpawn)]
          simp
      obtain ⟨row, hTracks⟩ := tracks_heard h (fun e' he => hAbout e' (mem_append_left _ he))
        (exists_spawn_of_mem_heard hHeard)
      have hLow : v.le row.view := hTracks.top v (mem_reports.mpr ⟨e, hHeard, hRep⟩)
      obtain ⟨next, hNext, hTime⟩ := hTracks.step hOwn
      have hNot : ¬ Repeats v row := by
        intro hRepeats
        have hSpawn : e.isSpawn = false := not_spawn_of_waiting hRep hRepeats.1
        have hFirst := hKnown hSpawn
        have hAll : heard events = heard first ++ e :: (second ++ e :: after) := by
          rw [hSplit, hBef, append_assoc, cons_append, heard_append hFirst]
        obtain ⟨w, hw, hHigh⟩ := hOnce _ _ _ _ hAll v hRep hRepeats.1
        have hMem : w ∈ reports (heard before) := by
          rw [hBef, heard_append hFirst, reports_append]
          rw [reports_append] at hw
          obtain hw | hw := mem_append.mp hw
          · exact mem_append_left _ hw
          · obtain ⟨e', he, hOther⟩ := mem_reports.mp hw
            exact mem_append_right _ (mem_reports.mpr ⟨e', mem_cons_of_mem _ he, hOther⟩)
        have hTie : row.view.le v := by
          unfold View.le ThreadRow.view
          dsimp only
          rw [hRepeats.1, hRepeats.2.2, hRepeats.2.1]
          exact .inr ⟨rfl, Nat.le_refl _⟩
        exact hHigh (View.le_trans (hTracks.top w hMem) hTie)
      rw [hNext.read, hTracks.read, Option.map_some, Option.map_some, (hTime v hRep hLow).1 hNot]

variable {events' : List AgentThreadEvent}

theorem OneThread.of_same (h : OneThread t g events)
    (hEq : ∀ e, e ∈ events ↔ e ∈ events') : OneThread t g events' := by
  have hReports : ∀ v, v ∈ reports events' → v ∈ reports events := by
    intro v hv
    obtain ⟨e, he, hRep⟩ := mem_reports.mp hv
    exact mem_reports.mpr ⟨e, (hEq e).mpr he, hRep⟩
  refine ⟨fun e he => h.about e ((hEq e).mpr he), fun v hv => ?_, fun e he e' he' => ?_⟩
  · obtain ⟨e, he, hRest⟩ := h.spawned v (hReports v hv)
    exact ⟨e, (hEq e).mp he, hRest⟩
  · exact h.single e ((hEq e).mpr he) e' ((hEq e').mpr he')

theorem newest_of_same (hEq : ∀ e, e ∈ events ↔ e ∈ events')
    (h : Newest events v) : Newest events' v := by
  have hReports : ∀ w, w ∈ reports events ↔ w ∈ reports events' := by
    intro w
    rw [mem_reports, mem_reports]
    exact exists_congr fun e => and_congr_left' (hEq e)
  exact ⟨(hReports v).mp h.1, fun w hw => h.2 w ((hReports w).mpr hw)⟩

theorem exists_newest (h : v ∈ reports events) : ∃ w, Newest events w := by
  have hMax : ∀ views : List View, views ≠ [] → ∃ w ∈ views, ∀ u ∈ views, u.le w := by
    intro views
    induction views with
    | nil => exact fun hNil => absurd rfl hNil
    | cons first rest ih =>
      intro _
      by_cases hRest : rest = []
      · subst hRest
        refine ⟨first, mem_cons_self, fun u hu => ?_⟩
        rw [mem_singleton.mp hu]
        exact View.le_refl _
      · obtain ⟨w, hw, hTop⟩ := ih hRest
        by_cases hLe : first.le w
        · refine ⟨w, mem_cons_of_mem _ hw, fun u hu => ?_⟩
          obtain rfl | hu := mem_cons.mp hu
          · exact hLe
          · exact hTop u hu
        · have hGe : w.le first := by
            unfold View.le at *
            omega
          refine ⟨first, mem_cons_self, fun u hu => ?_⟩
          obtain rfl | hu := mem_cons.mp hu
          · exact View.le_refl _
          · exact View.le_trans (hTop u hu) hGe
  obtain ⟨w, hw, hTop⟩ := hMax (reports events) (ne_nil_of_mem h)
  exact ⟨w, hw, hTop⟩

theorem viewAfter_of_no_reports (h : db.readThread t = none) (hOne : OneThread t g events)
    (hNone : reports events = []) : viewAfter db t events = none := by
  unfold viewAfter
  rw [applyAll_unknown h hOne.about, Option.map_none]
  intro e he
  cases e with
  | threadSpawned event =>
    have hIn : (⟨event.attemptGeneration, .running, none, none⟩ : View) ∈ reports events := mem_reports.mpr ⟨_, he, rfl⟩
    rw [hNone] at hIn
    cases hIn
  | turnStarted event => rfl
  | turnEvent event => rfl
  | threadCompleted event => rfl

end Whole

/-- Two deliveries of a thread's events agree exactly if in each the newest report comes after a spawn
and no waiting report comes again at the top. -/
theorem agree_iff (db : Db) (t g : String) (events events' : List AgentThreadEvent) (h : db.readThread t = none)
    (hOne : OneThread t g events) (hSame : ∀ e, e ∈ events ↔ e ∈ events') :
    Agree db t events events' ↔ (Heard events ∧ Once events) ∧ Heard events' ∧ Once events' := by
  have hOther := hOne.of_same hSame
  have hFirst := settled_iff h hOne
  have hSecond := settled_iff h hOther
  constructor
  · intro hAgree
    refine ⟨⟨hFirst.mp hAgree.newest, (still_iff h hOne).mp hAgree.still⟩, ?_⟩
    exact ⟨hSecond.mp hAgree.newest', (still_iff h hOther).mp hAgree.still'⟩
  · rintro ⟨⟨hHeard, hOnce⟩, hHeard', hOnce'⟩
    refine ⟨?_, hFirst.mpr hHeard, hSecond.mpr hHeard', (still_iff h hOne).mpr hOnce, (still_iff h hOther).mpr hOnce'⟩
    cases hReports : reports events with
    | nil =>
      have hNone : reports events' = [] := by
        refine eq_nil_iff_forall_not_mem.mpr fun v hv => ?_
        obtain ⟨e, he, hReport⟩ := mem_reports.mp hv
        have hIn : v ∈ reports events := mem_reports.mpr ⟨e, (hSame e).mpr he, hReport⟩
        rw [hReports] at hIn
        cases hIn
      rw [viewAfter_of_no_reports h hOne hReports, viewAfter_of_no_reports h hOther hNone]
    | cons v rest =>
      have hIn : v ∈ reports events := by
        rw [hReports]
        exact mem_cons_self
      obtain ⟨w, hNewest⟩ := exists_newest hIn
      rw [hFirst.mpr hHeard w hNewest, hSecond.mpr hHeard' w (newest_of_same hSame hNewest)]

def attemptStart : AgentThreadEvent :=
  .threadSpawned ⟨"thread-1", "conversation-1", "generation-1", "turn-1", none, none, none, 1, "List files", 10⟩

def attemptEnd : AgentThreadEvent :=
  .threadCompleted ⟨"thread-1", "generation-1", 1, .completed, some "ok", none, 30⟩

theorem oneThread_attempt {events : List AgentThreadEvent} (hStart : attemptStart ∈ events)
    (h : ∀ e ∈ events, e = attemptStart ∨ e = attemptEnd) :
    OneThread "thread-1" "generation-1" events := by
  refine ⟨fun e he => ?_, fun v hv => ⟨attemptStart, hStart, rfl, fun w hw => ?_⟩, fun e he e' he' v hv w hw _ => ?_⟩
  · obtain rfl | rfl := h e he
    · exact ⟨rfl, rfl⟩
    · exact ⟨rfl, rfl, rfl⟩
  · obtain rfl := Option.some.inj hw
    obtain ⟨e, he, hRep⟩ := mem_reports.mp hv
    obtain rfl | rfl := h e he
    · obtain rfl := Option.some.inj hRep
      rfl
    · obtain rfl := Option.some.inj hRep
      rfl
  · intro hLevel
    obtain rfl | rfl := h e he <;> obtain rfl | rfl := h e' he' <;>
      obtain rfl := Option.some.inj hv <;> obtain rfl := Option.some.inj hw <;>
      first | rfl | cases hLevel

/-- The end of an attempt that overtakes its start is lost. -/
theorem overtaken_lost : OneThread "thread-1" "generation-1" [attemptStart, attemptEnd] ∧
    (∀ e, e ∈ [attemptStart, attemptEnd] ↔ e ∈ [attemptEnd, attemptStart]) ∧
    viewAfter emptyDb "thread-1" [attemptStart, attemptEnd] = some ⟨1, .completed, some "ok", none⟩ ∧
    viewAfter emptyDb "thread-1" [attemptEnd, attemptStart] = some ⟨1, .running, none, none⟩ ∧
    ¬ Agree emptyDb "thread-1" [attemptStart, attemptEnd] [attemptEnd, attemptStart] := by
  have hInOrder : viewAfter emptyDb "thread-1" [attemptStart, attemptEnd] = some ⟨1, .completed, some "ok", none⟩ := by
    decide
  have hOvertaken : viewAfter emptyDb "thread-1" [attemptEnd, attemptStart] = some ⟨1, .running, none, none⟩ := by
    decide
  refine ⟨oneThread_attempt (by simp) (by simp), by simp [or_comm], hInOrder, hOvertaken, fun hAgree => ?_⟩
  have hSame := hAgree.same
  rw [hInOrder, hOvertaken] at hSame
  cases hSame

theorem attempt_once {events : List AgentThreadEvent}
    (h : ∀ e ∈ events, e = attemptStart ∨ e = attemptEnd) : Once events := by
  intro before e middle after hHeard v hv hWait
  have hIn : e ∈ events := heard_sublist events e (by simp [hHeard])
  obtain rfl | rfl := h e hIn
  · obtain rfl := Option.some.inj hv
    cases hWait
  · obtain rfl := Option.some.inj hv
    cases hWait

theorem attempt_heard {events : List AgentThreadEvent} (h : heard events = events) : Heard events := by
  intro v hv
  rw [h]
  exact hv.1

/-- After its end the attempt's events may come again. -/
theorem attempt_agree : Agree emptyDb "thread-1" [attemptStart, attemptEnd]
    [attemptStart, attemptEnd, attemptStart, attemptEnd] :=
  (agree_iff emptyDb "thread-1" "generation-1" _ _ rfl (oneThread_attempt (by simp) (by simp)) (by simp; tauto)).mpr
    ⟨⟨attempt_heard rfl, attempt_once (by simp)⟩, attempt_heard rfl, attempt_once (by simp)⟩

end Stella.AgentThreads
