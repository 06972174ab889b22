import Mathlib.Data.List.Induction
import Mathlib.Order.MinMax

/-! # One agent's activity

What the fold keeps of a single agent: whether it has an entry, whether that entry runs, and which
attempts its cards have opened and settled.
-/

namespace Stella.AgentActivity

inductive AgentEvent
  | started (generation : Int) (titled : Bool)
  | progress
  | terminal (generation : Int)
  | wake
  | spawn (titled : Bool)
  | resume
  deriving DecidableEq

structure Attempts where
  generation : Option Int := none
  settled : Int := 0

structure Agent where
  attempts : Attempts := {}
  /-- whether the entry runs, once there is one -/
  entry : Option Bool := none

def AgentEvent.isStart : AgentEvent → Bool
  | .started _ _ => true
  | _ => false

namespace Attempts

def Accepts (a : Attempts) (generation : Int) : Prop :=
  a.generation.getD 0 ≤ generation ∧ a.settled < generation

instance (a : Attempts) (generation : Int) : Decidable (a.Accepts generation) :=
  inferInstanceAs (Decidable (_ ∧ _))

def step (a : Attempts) : AgentEvent → Attempts
  | .started generation _ => if a.Accepts generation then { a with generation := some generation } else a
  | .terminal generation => { a with settled := max generation a.settled }
  | _ => a

def run (a : Attempts) (events : List AgentEvent) : Attempts := events.foldl step a

end Attempts

namespace Agent

/-- `mirrored` says whether mirrored rows count. -/
def step (mirrored : Bool) (a : Agent) (event : AgentEvent) : Agent where
  attempts := a.attempts.step event
  entry := match event with
    | .started generation titled =>
      if a.attempts.Accepts generation ∧ (titled ∨ a.entry.isSome) then some true else a.entry
    | .progress => a.entry
    | .terminal generation =>
      if a.attempts.generation.all (· = generation) then a.entry.map (fun _ => false) else a.entry
    | .wake => if mirrored then a.entry.map (fun _ => false) else a.entry
    | .spawn titled => if mirrored ∧ (titled ∨ a.entry.isSome) then some true else a.entry
    | .resume => if mirrored then a.entry.map (fun _ => true) else a.entry

def run (mirrored : Bool) (a : Agent) (events : List AgentEvent) : Agent := events.foldl (step mirrored) a

def Running (a : Agent) : Prop := a.entry = some true

def runBatches : Bool → Agent → List (List AgentEvent) → Agent
  | _, a, [] => a
  | carded, a, batch :: rest =>
    runBatches (carded || batch.any AgentEvent.isStart) (a.run (!(carded || batch.any AgentEvent.isStart)) batch) rest

end Agent

def Opens (before : List AgentEvent) (generation : Int) : Prop :=
  0 < generation ∧ (∀ other titled, .started other titled ∈ before → other ≤ generation) ∧
    ∀ other, .terminal other ∈ before → other < generation

def Named (events : List AgentEvent) : Prop :=
  ∃ before generation after, events = before ++ .started generation true :: after ∧ Opens before generation

/-- No start card of `after` opens an attempt, where `before` stands in front of it. -/
def NoneOpens (before after : List AgentEvent) : Prop :=
  ∀ mid generation titled rest, after = mid ++ .started generation titled :: rest → ¬ Opens (before ++ mid) generation

inductive Revived : List AgentEvent → Prop
  /-- a mirrored start before every start card -/
  | mirrored (before event after) (hEvent : event = .resume ∨ ∃ titled, event = .spawn titled)
      (hBefore : before.any AgentEvent.isStart = false) (hTitle : .spawn true ∈ before ++ [event])
      (hTerminal : ∀ generation, .terminal generation ∉ after) (hOpens : NoneOpens (before ++ [event]) after) :
      Revived (before ++ event :: after)
  /-- a start card without a title of its own, after a mirrored start that had one -/
  | carded (before generation titled after) (hOpening : Opens before generation)
      (hTitle : .spawn true ∈ before.takeWhile (fun event => !event.isStart))
      (hTerminal : .terminal generation ∉ after)
      (hOpens : NoneOpens (before ++ [.started generation titled]) after) :
      Revived (before ++ .started generation titled :: after)

def Strays (events : List AgentEvent) : Prop :=
  events.any AgentEvent.isStart = true ∧ ¬ Named events ∧ Revived events

namespace Attempts

@[simp] theorem run_nil (a : Attempts) : a.run [] = a := rfl

@[simp] theorem run_cons (a : Attempts) (event : AgentEvent) (events : List AgentEvent) :
    a.run (event :: events) = (a.step event).run events := rfl

theorem run_append (a : Attempts) (xs ys : List AgentEvent) : a.run (xs ++ ys) = (a.run xs).run ys := List.foldl_append

structure Tells (a : Attempts) (events : List AgentEvent) : Prop where
  settled : ∀ g, g ≤ a.settled ↔ g ≤ 0 ∨ ∃ other, .terminal other ∈ events ∧ g ≤ other
  newest : ∀ g, a.settled < g → (g < a.generation.getD 0 ↔ ∃ other titled, .started other titled ∈ events ∧ g < other)

variable {a : Attempts} {events : List AgentEvent}

section

variable (h : a.Tells events)
include h

theorem Tells.mirrored {event : AgentEvent}
    (hStarted : ∀ g titled, event ≠ .started g titled) (hTerm : ∀ g, event ≠ .terminal g) :
    a.Tells (events ++ [event]) where
  settled g := by
    rw [h.settled]
    simp [(hTerm _).symm]
  newest g hg := by
    rw [h.newest g hg]
    simp [(hStarted _ _).symm]

theorem Tells.started (s : Int) (titled : Bool) :
    (a.step (.started s titled)).Tells (events ++ [.started s titled]) := by
  have hSettled : (a.step (.started s titled)).settled = a.settled := by
    unfold step
    dsimp only
    split <;> rfl
  refine ⟨fun g => ?_, fun g hg => ?_⟩
  · rw [hSettled, h.settled]
    simp
  · rw [hSettled] at hg
    have hOld := h.newest g hg
    have hMem : (∃ other titled', .started other titled' ∈ events ++ [AgentEvent.started s titled] ∧ g < other) ↔
        (∃ other titled', .started other titled' ∈ events ∧ g < other) ∨ g < s := by
      constructor
      · rintro ⟨other, titled', hIn, hLt⟩
        rcases List.mem_append.mp hIn with hIn | hIn
        · exact .inl ⟨other, titled', hIn, hLt⟩
        · obtain ⟨rfl, -⟩ := AgentEvent.started.inj (List.mem_singleton.mp hIn)
          exact .inr hLt
      · rintro (⟨other, titled', hIn, hLt⟩ | hLt)
        · exact ⟨other, titled', List.mem_append_left _ hIn, hLt⟩
        · exact ⟨s, titled, List.mem_append_right _ (List.mem_singleton_self _), hLt⟩
    rw [hMem, ← hOld]
    unfold step
    dsimp only
    split
    · rename_i hAccepts
      have hAbove := hAccepts.1
      change g < s ↔ _
      omega
    · rename_i hRejected
      unfold Accepts at hRejected
      omega

theorem Tells.terminal (t : Int) :
    (a.step (.terminal t)).Tells (events ++ [.terminal t]) := by
  refine ⟨fun g => ?_, fun g hg => ?_⟩
  · change g ≤ max t a.settled ↔ _
    rw [le_max_iff, h.settled]
    constructor
    · rintro (hT | hZero | ⟨other, hIn, hLe⟩)
      · exact .inr ⟨t, List.mem_append_right _ (List.mem_singleton_self _), hT⟩
      · exact .inl hZero
      · exact .inr ⟨other, List.mem_append_left _ hIn, hLe⟩
    · rintro (hZero | ⟨other, hIn, hLe⟩)
      · exact .inr (.inl hZero)
      · rcases List.mem_append.mp hIn with hIn | hIn
        · exact .inr (.inr ⟨other, hIn, hLe⟩)
        · obtain rfl := AgentEvent.terminal.inj (List.mem_singleton.mp hIn)
          exact .inl hLe
  · have hOld : a.settled < g := lt_of_le_of_lt (le_max_right t a.settled) hg
    have hNewest := h.newest g hOld
    change g < a.generation.getD 0 ↔ _
    rw [hNewest]
    simp

theorem Tells.snoc (event : AgentEvent) :
    (a.step event).Tells (events ++ [event]) := by
  cases event with
  | started s titled => exact h.started s titled
  | terminal t => exact h.terminal t
  | progress => exact h.mirrored (by simp) (by simp)
  | wake => exact h.mirrored (by simp) (by simp)
  | spawn titled => exact h.mirrored (by simp) (by simp)
  | resume => exact h.mirrored (by simp) (by simp)

end

theorem tells_run (events : List AgentEvent) : (Attempts.run {} events).Tells events := by
  induction events using List.reverseRecOn with
  | nil => exact ⟨fun g => by simp [run], fun g hg => by simpa [run] using le_of_lt hg⟩
  | append_singleton events event ih =>
    rw [run_append]
    exact ih.snoc event

theorem accepts_run_iff (before : List AgentEvent) (generation : Int) :
    (Attempts.run {} before).Accepts generation ↔ Opens before generation := by
  have hTells := tells_run before
  generalize Attempts.run {} before = a at hTells
  have hSettled : a.settled < generation ↔ 0 < generation ∧ ∀ other, .terminal other ∈ before → other < generation := by
    rw [← not_le, hTells.settled, not_or, not_le]
    refine and_congr_right fun _ => ⟨fun h other hIn => ?_, fun h => ?_⟩
    · exact not_le.mp fun hLe => h ⟨other, hIn, hLe⟩
    · rintro ⟨other, hIn, hLe⟩
      exact absurd hLe (not_le.mpr (h other hIn))
  constructor
  · rintro ⟨hNewest, hUnset⟩
    obtain ⟨hPositive, hTerm⟩ := hSettled.mp hUnset
    refine ⟨hPositive, fun other titled hIn => not_lt.mp fun hLt => ?_, hTerm⟩
    exact absurd ((hTells.newest generation hUnset).mpr ⟨other, titled, hIn, hLt⟩) (not_lt.mpr hNewest)
  · rintro ⟨hPositive, hStarted, hTerm⟩
    have hUnset := hSettled.mpr ⟨hPositive, hTerm⟩
    refine ⟨not_lt.mp fun hLt => ?_, hUnset⟩
    obtain ⟨other, titled, hIn, hNewer⟩ := (hTells.newest generation hUnset).mp hLt
    exact absurd (hStarted other titled hIn) (not_le.mpr hNewer)

end Attempts

end Stella.AgentActivity
