import Mathlib.Algebra.GroupWithZero.Nat
import Mathlib.Data.Finset.Max
import Stella.FileWriteLock.Steps

/-! # Locks exclude, stay in order and never deadlock

Whatever is called, and in whatever order links and tasks go on: of two tasks that share a key
only one runs, a key is held in the order in which it was requested, and as long as a call is not
done or the map not empty something can happen.
-/

namespace Stella.FileWriteLock.Locks

open Transition List

variable {s : Locks} {lockKeyForPath : String → String}

def isCall : Event → Bool
  | .call _ => true
  | _ => false

structure Orderly (s : Locks) : Prop where
  excludes : ∀ (c d : Nat) (a b : Call), s.calls[c]? = some a → s.calls[d]? = some b → c ≠ d →
    a.task = .running → b.task = .running → ∀ key ∈ a.keys, key ∉ b.keys
  /-- What a link of a key waits for is every link of the key that was requested before. -/
  inOrder : ∀ (i j : Nat) (a b : Link), s.links[i]? = some a → s.links[j]? = some b → i < j → a.key = b.key → b.phase ≠ .waiting →
    ∀ call : Call, s.calls[a.call]? = some call → call.task = .done
  /-- Calls request their first key at once. -/
  inTurn : ∀ (c d : Nat) (a b : Call), s.calls[c]? = some a → s.calls[d]? = some b → c < d → ∀ key ∈ a.keys.head?, key ∈ b.keys.head? →
    b.task ≠ .waiting → a.task = .done
  /-- A cycle of waits would leave nothing that can happen. -/
  moves : (∃ call ∈ s.calls, call.task ≠ .done) ∨ s.queues ≠ [] → ∃ event, isCall event = false ∧ s.enabled event = true

section

variable (h : s.Kept)
include h

theorem Kept.link_done {i j : Nat} {a b : Link} (hA : s.links[i]? = some a) (hB : s.links[j]? = some b) (hLt : i < j)
    (hKey : a.key = b.key) (hBegun : b.phase ≠ .waiting) {call : Call} (hCall : s.calls[a.call]? = some call) : call.task = .done :=
  h.timed.settled i a call hA hCall (Phase.runSettled_of_tailSettled (h.chained.ordered i j a b hA hB hLt hKey hBegun))

variable {c d : Nat} {a b : Call} {key : String}

theorem Kept.excludes (hA : s.calls[c]? = some a) (hB : s.calls[d]? = some b) (hNe : c ≠ d)
    (hRunA : a.task = .running) (hRunB : b.task = .running) (hKeyA : key ∈ a.keys) (hKeyB : key ∈ b.keys) : False := by
  obtain ⟨i, linkA, hLinkA, hCallA, hLinkKeyA, hPhaseA⟩ := h.timed.started c a hA (by rw [hRunA]; nofun) key hKeyA
  obtain ⟨j, linkB, hLinkB, hCallB, hLinkKeyB, hPhaseB⟩ := h.timed.started d b hB (by rw [hRunB]; nofun) key hKeyB
  rcases Nat.lt_trichotomy i j with hLt | rfl | hGt
  · have hDone := h.link_done hLinkA hLinkB hLt (hLinkKeyA.trans hLinkKeyB.symm) hPhaseB (hCallA ▸ hA)
    rw [hRunA] at hDone
    cases hDone
  · rw [Option.some.inj (hLinkA.symm.trans hLinkB)] at hCallA
    exact hNe (hCallA.symm.trans hCallB)
  · have hDone := h.link_done hLinkB hLinkA hGt (hLinkKeyB.trans hLinkKeyA.symm) hPhaseA (hCallB ▸ hB)
    rw [hRunB] at hDone
    cases hDone

theorem Kept.inTurn (hA : s.calls[c]? = some a) (hB : s.calls[d]? = some b) (hLt : c < d)
    (hKeyA : key ∈ a.keys.head?) (hKeyB : key ∈ b.keys.head?) (hBegun : b.task ≠ .waiting) : a.task = .done := by
  obtain ⟨i, linkA, hLinkA, rfl, rfl⟩ := h.linked.begun c a hA key hKeyA
  obtain ⟨j, linkB, hLinkB, rfl, hLinkKeyB, hPhaseB⟩ := h.timed.started d b hB hBegun linkA.key (mem_of_mem_head? hKeyB)
  have hHeadA : ∀ call : Call, s.calls[linkA.call]? = some call → call.keys.head? = some linkA.key := fun call hCall => by
    rw [Option.some.inj (hCall.symm.trans hA)]
    exact hKeyA
  have hHeadB : ∀ call : Call, s.calls[linkB.call]? = some call → call.keys.head? = some linkB.key := fun call hCall => by
    rw [Option.some.inj (hCall.symm.trans hB), hLinkKeyB]
    exact hKeyB
  rcases Nat.lt_trichotomy i j with hBefore | rfl | hAfter
  · exact h.link_done hLinkA hLinkB hBefore hLinkKeyB.symm hPhaseB hA
  · rw [Option.some.inj (hLinkA.symm.trans hLinkB)] at hLt
    exact absurd hLt (Nat.lt_irrefl _)
  · exact absurd (h.shaped.inOrder j i linkB linkA hLinkB hLinkA hAfter hHeadB hHeadA) (Nat.not_lt.mpr hLt.le)

theorem Kept.link_moves {l : Nat} {link : Link} (hLink : s.links[l]? = some link) (hOpen : link.phase.runSettled = false) :
    ∃ event, isCall event = false ∧ s.enabled event = true := by
  classical
  let openLinks := s.links.toFinset.filter fun link => link.phase.runSettled = false
  have hNonempty : openLinks.Nonempty := ⟨link, Finset.mem_filter.mpr ⟨mem_toFinset.mpr (mem_of_getElem? hLink), hOpen⟩⟩
  obtain ⟨top, hTop, hMax⟩ := Finset.exists_max_image openLinks Link.key hNonempty
  obtain ⟨hTopMem, hTopOpen⟩ := Finset.mem_filter.mp hTop
  obtain ⟨t, hTopLink⟩ := mem_iff_getElem?.mp (mem_toFinset.mp hTopMem)
  have hSome : ∃ i, ∃ a : Link, s.links[i]? = some a ∧ a.phase.runSettled = false ∧ a.key = top.key :=
      ⟨t, top, hTopLink, hTopOpen, rfl⟩
  obtain ⟨a, hA, hAOpen, hAKey⟩ := Nat.find_spec hSome
  have hFirst : ∀ i < Nat.find hSome, ∀ b : Link, s.links[i]? = some b → b.key = top.key → b.phase.runSettled = true := by
    intro i hLt b hB hKey
    by_contra hNot
    exact Nat.find_min hSome hLt ⟨b, hB, Bool.eq_false_iff.mpr hNot, hKey⟩
  generalize Nat.find hSome = i at hA hFirst
  cases hPh : a.phase with
  | waiting =>
    by_cases hMay : s.mayFire a = true
    · exact ⟨.fire i, rfl, (Option.any_eq_true _ _).mpr ⟨a, hA, hMay⟩⟩
    · unfold mayFire at hMay
      rw [hPh] at hMay
      cases hPrev : a.prev with
      | none =>
        rw [hPrev] at hMay
        exact absurd rfl hMay
      | some p =>
        obtain ⟨hLt, before, hBef, hKey⟩ := h.chained.prior i a p hA hPrev
        rw [hPrev, Option.all_some, hBef, Option.any_some] at hMay
        have hRun := hFirst p hLt before hBef (hKey.trans hAKey)
        refine ⟨.release p, rfl, (Option.any_eq_true _ _).mpr ⟨before, hBef, decide_eq_true ?_⟩⟩
        cases hBeforePhase : before.phase with
        | settled => rfl
        | released =>
          rw [hBeforePhase] at hMay
          exact absurd rfl hMay
        | cleaned =>
          rw [hBeforePhase] at hMay
          exact absurd rfl hMay
        | waiting =>
          rw [hBeforePhase] at hRun
          cases hRun
        | fired inner =>
          rw [hBeforePhase] at hRun
          cases hRun
  | fired inner =>
    cases inner with
    | none =>
      obtain ⟨call, hCall, -⟩ := h.shaped.keyed i a hA
      have hBegun := h.timed.innermost i a call hA hCall hPh
      cases hTask : call.task with
      | waiting => exact absurd hTask hBegun
      | running => exact ⟨.finish a.call, rfl, (Option.any_eq_true _ _).mpr ⟨call, hCall, decide_eq_true hTask⟩⟩
      | done =>
        refine ⟨.settle i, rfl, (Option.any_eq_true _ _).mpr ⟨a, hA, ?_⟩⟩
        unfold maySettle
        rw [hPh]
        exact (Option.any_eq_true _ _).mpr ⟨call, hCall, decide_eq_true hTask⟩
    | some j =>
      obtain ⟨next, hNext, -, hKey⟩ := h.linked.inner i a j hA hPh
      have hNextRun : next.phase.runSettled = true := by
        by_contra hNot
        have hLe := hMax next (Finset.mem_filter.mpr ⟨mem_toFinset.mpr (mem_of_getElem? hNext), Bool.eq_false_iff.mpr hNot⟩)
        rw [hAKey] at hKey
        exact absurd hKey (not_lt.mpr hLe)
      refine ⟨.settle i, rfl, (Option.any_eq_true _ _).mpr ⟨a, hA, ?_⟩⟩
      unfold maySettle
      rw [hPh]
      exact (Option.any_eq_true _ _).mpr ⟨next, hNext, hNextRun⟩
  | settled =>
    rw [hPh] at hAOpen
    cases hAOpen
  | released =>
    rw [hPh] at hAOpen
    cases hAOpen
  | cleaned =>
    rw [hPh] at hAOpen
    cases hAOpen

theorem Kept.moves (hOpen : (∃ call ∈ s.calls, call.task ≠ .done) ∨ s.queues ≠ []) :
    ∃ event, isCall event = false ∧ s.enabled event = true := by
  by_contra hStuck
  -- Nothing can happen, so that every link has settled, been released and cleaned up.
  have hRun : ∀ (l : Nat) (link : Link), s.links[l]? = some link → link.phase.runSettled = true := by
    intro l link hLink
    by_contra hNot
    exact hStuck (h.link_moves hLink (Bool.eq_false_iff.mpr hNot))
  have hCleaned : ∀ (l : Nat) (link : Link), s.links[l]? = some link → link.phase = .cleaned := by
    intro l link hLink
    have hLinkRun := hRun l link hLink
    cases hPh : link.phase with
    | settled => exact absurd ⟨.release l, rfl, (Option.any_eq_true _ _).mpr ⟨link, hLink, decide_eq_true hPh⟩⟩ hStuck
    | released => exact absurd ⟨.clean l, rfl, (Option.any_eq_true _ _).mpr ⟨link, hLink, decide_eq_true hPh⟩⟩ hStuck
    | cleaned => rfl
    | waiting =>
      rw [hPh] at hLinkRun
      cases hLinkRun
    | fired inner =>
      rw [hPh] at hLinkRun
      cases hLinkRun
  rcases hOpen with ⟨call, hMem, hTask⟩ | hQueues
  · obtain ⟨c, hCall⟩ := mem_iff_getElem?.mp hMem
    cases hKeys : call.keys with
    | nil =>
      have hBegun := h.shaped.free call hMem hKeys
      cases hRuns : call.task with
      | waiting => exact hBegun hRuns
      | running => exact hStuck ⟨.finish c, rfl, (Option.any_eq_true _ _).mpr ⟨call, hCall, decide_eq_true hRuns⟩⟩
      | done => exact hTask hRuns
    | cons key rest =>
      obtain ⟨l, link, hLink, rfl, -⟩ := h.linked.begun c call hCall key (by rw [hKeys]; rfl)
      exact hTask (h.timed.settled l link call hLink hCall (hRun l link hLink))
  · cases hEnts : s.queues with
    | nil => exact hQueues hEnts
    | cons entry rest =>
      have hHeld : s.queues.get? entry.1 = some entry.2 := by
        rw [hEnts]
        exact if_pos rfl
      obtain ⟨link, hLink, -, hPh, -⟩ := h.chained.last entry.1 entry.2 hHeld
      exact hPh (hCleaned _ link hLink)

theorem Kept.orderly : s.Orderly :=
  ⟨fun _ _ _ _ hA hB hNe hRunA hRunB _ hKeyA hKeyB => h.excludes hA hB hNe hRunA hRunB hKeyA hKeyB,
    fun _ _ _ _ hA hB hLt hKey hBegun _ hCall => h.link_done hA hB hLt hKey hBegun hCall,
    fun _ _ _ _ hA hB hLt _ hKeyA hKeyB hBegun => h.inTurn hA hB hLt hKeyA hKeyB hBegun, h.moves⟩

end

/-! ## Every event is one of finitely many -/

def linkWork (link : Link) : Nat :=
  match link.phase with
  | .waiting => 4 * (link.rest.length + 1)
  | .fired _ => 3
  | .settled => 2
  | .released => 1
  | .cleaned => 0

def callWork (call : Call) : Nat := if call.task = .done then 0 else 1

def work (s : Locks) : Nat := (s.calls.map callWork).sum + (s.links.map linkWork).sum

def cost (lockKeyForPath : String → String) : Event → Nat
  | .call paths => 4 * ((paths.map lockKeyForPath).dedup).length + 1
  | _ => 0

theorem sum_modify {α : Type} (f : α → Nat) (g : α → α) {xs : List α} {i : Nat} {x : α} (h : xs[i]? = some x) :
    ((xs.modify i g).map f).sum + f x = (xs.map f).sum + f (g x) := by
  induction xs generalizing i with
  | nil => cases h
  | cons y ys ih =>
    cases i with
    | zero =>
      obtain rfl := Option.some.inj h
      rw [modify_zero_cons, map_cons, map_cons, sum_cons, sum_cons]
      omega
    | succ i =>
      have hRest := ih (i := i) h
      rw [modify_succ_cons, map_cons, map_cons, sum_cons, sum_cons]
      omega

variable {l : Nat} {link : Link}

theorem work_setPhase (hLink : s.links[l]? = some link) (phase : Phase) :
    (s.setPhase l phase).work + linkWork link = s.work + linkWork { link with phase } := by
  have hSum := sum_modify linkWork (fun link => { link with phase }) hLink
  unfold work setPhase
  dsimp only at hSum ⊢
  omega

theorem work_setTask {c : Nat} {call : Call} (hCall : s.calls[c]? = some call) (task : Task) :
    (s.setTask c task).work + callWork call = s.work + callWork { call with task } := by
  have hSum := sum_modify callWork (fun call => { call with task }) hCall
  unfold work setTask
  dsimp only at hSum ⊢
  omega

theorem work_request (s : Locks) (c : Nat) (key : String) (rest : List String) :
    (s.request c key rest).work = s.work + 4 * (rest.length + 1) := by
  have hNew : linkWork ⟨c, key, rest, s.queues.get? key, .waiting⟩ = 4 * (rest.length + 1) := rfl
  unfold work request
  dsimp only
  rw [map_append, sum_append, map_singleton, sum_singleton, hNew]
  omega

theorem work_call (s : Locks) (lockKeyForPath : String → String) (paths : List String) :
    (s.withFileWriteLocks lockKeyForPath paths).work = s.work + cost lockKeyForPath (.call paths) := by
  have hLen := (perm_insertionSort (fun a b : String => a ≤ b) (paths.map lockKeyForPath).dedup).length_eq
  have hCost : cost lockKeyForPath (.call paths) = 4 * ((paths.map lockKeyForPath).dedup).length + 1 := rfl
  unfold withFileWriteLocks
  generalize (paths.map lockKeyForPath).dedup.insertionSort (· ≤ ·) = keys at hLen ⊢
  rw [hCost, ← hLen]
  cases keys with
  | nil =>
    unfold work
    simp [callWork]
    omega
  | cons key rest =>
    dsimp only
    rw [work_request]
    unfold work
    simp [callWork]
    omega

theorem work_fire (h : s.Kept) (hLink : s.links[l]? = some link) (hMay : s.mayFire link = true) :
    (s.fire l link).work + 1 = s.work := by
  have hWait : link.phase = .waiting := of_decide_eq_true (Bool.and_eq_true_iff.mp hMay).1
  have hBef : linkWork link = 4 * (link.rest.length + 1) := by rw [linkWork, hWait]
  unfold Locks.fire
  split
  · rename_i hRest
    obtain ⟨call, hCall, -⟩ := h.shaped.keyed l link hLink
    have hTask := h.task_waiting hLink hWait hCall
    have hPh := work_setPhase hLink (.fired none)
    have hRun := work_setTask (s := s.setPhase l (.fired none)) (c := link.call) hCall .running
    have hFired : linkWork { link with phase := .fired none } = 3 := rfl
    have hOld : callWork call = 1 := by rw [callWork, hTask]; rfl
    have hNew : callWork { call with task := .running } = 1 := rfl
    rw [hRest, length_nil] at hBef
    omega
  · rename_i key rest hRest
    have hPh := work_setPhase hLink (.fired (some s.links.length))
    have hFired : linkWork { link with phase := .fired (some s.links.length) } = 3 := rfl
    rw [work_request]
    rw [hRest, length_cons] at hBef
    omega

theorem work_step (h : s.Kept) {event : Event} (hEnabled : s.enabled event = true) (hCall : isCall event = false) :
    (s.step lockKeyForPath event).work + 1 = s.work := by
  unfold Locks.step
  rw [if_pos hEnabled]
  cases event with
  | call paths => cases hCall
  | fire l =>
    obtain ⟨link, hLink, hMay⟩ := (Option.any_eq_true _ _).mp hEnabled
    dsimp only
    rw [hLink, Option.elim_some]
    exact work_fire h hLink hMay
  | finish c =>
    obtain ⟨call, hCall, hRuns⟩ := (Option.any_eq_true _ _).mp hEnabled
    have hTask := work_setTask hCall .done
    have hOld : callWork call = 1 := by rw [callWork, of_decide_eq_true hRuns]; rfl
    have hNew : callWork { call with task := .done } = 0 := rfl
    dsimp only
    omega
  | settle l =>
    obtain ⟨link, hLink, hMay⟩ := (Option.any_eq_true _ _).mp hEnabled
    have hPh := work_setPhase hLink .settled
    have hNew : linkWork { link with phase := .settled } = 2 := rfl
    have hOld : linkWork link = 3 := by
      unfold maySettle at hMay
      unfold linkWork
      split at hMay
      · rename_i hFired
        rw [hFired]
      · rename_i inner hFired
        rw [hFired]
      · cases hMay
    dsimp only
    omega
  | release l =>
    obtain ⟨link, hLink, hSettled⟩ := (Option.any_eq_true _ _).mp hEnabled
    have hPh := work_setPhase hLink .released
    have hNew : linkWork { link with phase := .released } = 1 := rfl
    have hOld : linkWork link = 2 := by rw [linkWork, of_decide_eq_true hSettled]
    dsimp only
    omega
  | clean l =>
    obtain ⟨link, hLink, hReleased⟩ := (Option.any_eq_true _ _).mp hEnabled
    have hPh := work_setPhase hLink .cleaned
    have hNew : linkWork { link with phase := .cleaned } = 0 := rfl
    have hOld : linkWork link = 1 := by rw [linkWork, of_decide_eq_true hReleased]
    have hClean : (s.clean l link).work = (s.setPhase l .cleaned).work := by
      unfold Locks.clean
      dsimp only
      split
      · rfl
      · rfl
    dsimp only
    rw [hLink, Option.elim_some, hClean]
    omega

theorem work_run (h : s.Kept) (events : List Event) (hEnabled : Along (step lockKeyForPath) (fun s event => s.enabled event = true) s events) :
    (run (step lockKeyForPath) s events).work + events.countP (fun event => !isCall event) =
      s.work + (events.map (cost lockKeyForPath)).sum := by
  induction events generalizing s with
  | nil => rfl
  | cons event rest ih =>
    have hRest := ih (h.step lockKeyForPath event) hEnabled.2
    rw [run_cons, map_cons, sum_cons, countP_cons]
    by_cases hCall : isCall event = true
    · have hWork : (s.step lockKeyForPath event).work = s.work + cost lockKeyForPath event := by
        cases event with
        | call paths => exact work_call s lockKeyForPath paths
        | _ => cases hCall
      rw [hCall]
      simp only [Bool.not_true, Bool.false_eq_true, if_false]
      omega
    · have hNot : isCall event = false := Bool.eq_false_iff.mpr hCall
      have hWork : (s.step lockKeyForPath event).work + 1 = s.work := work_step h hEnabled.1 hNot
      have hCost : cost lockKeyForPath event = 0 := by
        cases event with
        | call paths => cases hNot
        | _ => rfl
      rw [hNot]
      simp only [Bool.not_false, if_true]
      omega

/-- After any events the calls are in order; and whatever is called, the other events come to an end, at most four for
each key of a call and one for its task, where every task is done and the map is empty. -/
theorem orderly_of_events (lockKeyForPath : String → String) (events : List Event) :
    (run (step lockKeyForPath) {} events).Orderly ∧
      (Along (step lockKeyForPath) (fun s event => s.enabled event = true) {} events →
        events.countP (fun event => !isCall event) ≤ (events.map (cost lockKeyForPath)).sum) ∧
      ((∀ event, isCall event = false → (run (step lockKeyForPath) {} events).enabled event = false) →
        (∀ call ∈ (run (step lockKeyForPath) {} events).calls, call.task = .done) ∧
        (run (step lockKeyForPath) {} events).queues = []) := by
  have hKept := kept_run lockKeyForPath events
  refine ⟨hKept.orderly, fun hEnabled => ?_, fun hStuck => ?_⟩
  · have hWork := work_run kept_empty events hEnabled
    have hEmpty : ({} : Locks).work = 0 := rfl
    omega
  · have hNothing : ¬ ((∃ call ∈ (run (step lockKeyForPath) {} events).calls, call.task ≠ .done) ∨
        (run (step lockKeyForPath) {} events).queues ≠ []) := by
      intro hOpen
      obtain ⟨event, hCall, hEnabled⟩ := hKept.moves hOpen
      exact absurd (hEnabled.symm.trans (hStuck event hCall)) Bool.true_eq_false.mp
    obtain ⟨hCalls, hQueues⟩ := not_or.mp hNothing
    refine ⟨fun call hMem => ?_, not_not.mp hQueues⟩
    by_contra hTask
    exact hCalls ⟨call, hMem, hTask⟩

/-- The second call holds `b` only once the first is done with `a`; the third comes later and takes `b` before it. -/
def overtakenEvents : List Event :=
  [.call ["a"], .call ["b", "a"], .call ["b"], .fire 0, .fire 2]

theorem overtakenRun_not_inOrder : Along (step id) (fun s event => s.enabled event = true) {} overtakenEvents ∧
    (run (step id) {} overtakenEvents).calls = [⟨["a"], .running⟩, ⟨["a", "b"], .waiting⟩, ⟨["b"], .running⟩] := by
  decide +kernel

end Stella.FileWriteLock.Locks
