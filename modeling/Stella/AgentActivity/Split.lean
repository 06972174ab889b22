import Stella.AgentActivity.Agent

/-! # Folding one agent's rows in batches

Where the batches are cut matters for an agent exactly when its rows stray: its
start cards open attempts without ever naming it, and a mirrored row does.
-/

namespace Stella.AgentActivity

open List

theorem exists_split_snoc {α : Type*} {Q : List α → α → List α → Prop} (l : List α) (x : α) :
    (∃ front e back, l ++ [x] = front ++ e :: back ∧ Q front e back) ↔
      Q l x [] ∨ ∃ front e back, l = front ++ e :: back ∧ Q front e (back ++ [x]) := by
  constructor
  · rintro ⟨front, e, back, hSplit, hQ⟩
    induction back using List.reverseRecOn with
    | nil =>
      obtain ⟨rfl, hLast⟩ := append_inj' hSplit rfl
      obtain rfl := singleton_inj.mp hLast
      exact .inl hQ
    | append_singleton back y _ =>
      rw [← cons_append, ← append_assoc] at hSplit
      obtain ⟨rfl, hLast⟩ := append_inj' hSplit rfl
      obtain rfl := singleton_inj.mp hLast
      exact .inr ⟨front, e, back, rfl, hQ⟩
  · rintro (hQ | ⟨front, e, back, rfl, hQ⟩)
    · exact ⟨l, x, [], rfl, hQ⟩
    · exact ⟨front, e, back ++ [x], by simp, hQ⟩

theorem noneOpens_nil (before : List AgentEvent) : NoneOpens before [] := by
  intro mid generation titled rest hSplit
  exact absurd hSplit (by simp)

theorem noneOpens_snoc (before after : List AgentEvent) (event : AgentEvent) :
    NoneOpens before (after ++ [event]) ↔ NoneOpens before after ∧
      ∀ generation titled, event = .started generation titled → ¬ Opens (before ++ after) generation := by
  constructor
  · intro h
    refine ⟨fun mid generation titled rest hSplit => ?_, fun generation titled hEv => ?_⟩
    · exact h mid generation titled (rest ++ [event]) (by rw [hSplit]; simp)
    · exact h after generation titled [] (by rw [hEv])
  · rintro ⟨hAfter, hLast⟩ mid generation titled rest hSplit
    have hOr := (exists_split_snoc (Q := fun front e back => front = mid ∧ e = .started generation titled ∧ back = rest)
      after event).mp ⟨mid, _, rest, hSplit, rfl, rfl, rfl⟩
    rcases hOr with ⟨rfl, hEv, -⟩ | ⟨front, e, back, hFront, rfl, rfl, -⟩
    · exact hLast generation titled hEv
    · exact hAfter front generation titled back hFront

theorem noneOpens_append (before after rest : List AgentEvent) :
    NoneOpens before (after ++ rest) ↔ NoneOpens before after ∧ NoneOpens (before ++ after) rest := by
  induction rest using List.reverseRecOn with
  | nil => simp [noneOpens_nil]
  | append_singleton rest event ih =>
    rw [← append_assoc, noneOpens_snoc, noneOpens_snoc, ih, and_assoc, append_assoc]

/-- The attempt that the last opening start card of `after` opened. -/
def Opened (before after : List AgentEvent) (generation : Int) : Prop :=
  ∃ mid titled rest, after = mid ++ .started generation titled :: rest ∧ Opens (before ++ mid) generation ∧
    NoneOpens (before ++ mid ++ [.started generation titled]) rest

variable {before after : List AgentEvent}

theorem generation_run_noneOpens (h : NoneOpens before after) :
    (Attempts.run {} (before ++ after)).generation = (Attempts.run {} before).generation := by
  induction after using List.reverseRecOn with
  | nil => rw [append_nil]
  | append_singleton after event ih =>
    obtain ⟨hAfter, hLast⟩ := (noneOpens_snoc _ _ _).mp h
    rw [← append_assoc, Attempts.run_append, Attempts.run_cons, Attempts.run_nil, ← ih hAfter]
    cases event with
    | started generation titled =>
      unfold Attempts.step
      dsimp only
      rw [if_neg (fun hAccepts => hLast generation titled rfl ((Attempts.accepts_run_iff _ _).mp hAccepts))]
    | terminal generation => rfl
    | progress => rfl
    | wake => rfl
    | spawn titled => rfl
    | resume => rfl

theorem generation_run_opened {generation : Int}
    (h : Opened before after generation) : (Attempts.run {} (before ++ after)).generation = some generation := by
  obtain ⟨mid, titled, rest, rfl, hOpens, hRest⟩ := h
  have hSplit : before ++ (mid ++ .started generation titled :: rest) =
      (before ++ mid ++ [.started generation titled]) ++ rest := by simp
  rw [hSplit, generation_run_noneOpens hRest, Attempts.run_append, Attempts.run_cons, Attempts.run_nil]
  unfold Attempts.step
  dsimp only
  rw [if_pos ((Attempts.accepts_run_iff _ _).mpr hOpens)]

theorem noneOpens_of_noStart (h : after.any AgentEvent.isStart = false) :
    NoneOpens before after := by
  rintro mid generation titled rest rfl
  simp [AgentEvent.isStart] at h

namespace Agent

section

variable (mirrored : Bool)

@[simp] theorem run_nil (a : Agent) : a.run mirrored [] = a := rfl

@[simp] theorem run_cons (a : Agent) (event : AgentEvent) (events : List AgentEvent) :
    a.run mirrored (event :: events) = (a.step mirrored event).run mirrored events := rfl

theorem run_append (a : Agent) (xs ys : List AgentEvent) :
    a.run mirrored (xs ++ ys) = (a.run mirrored xs).run mirrored ys := foldl_append

theorem attempts_run (a : Agent) (events : List AgentEvent) :
    (a.run mirrored events).attempts = a.attempts.run events := by
  induction events generalizing a with
  | nil => rfl
  | cons event events ih => exact ih (a.step mirrored event)

end

def mixed (front back : List AgentEvent) : Agent := (run true {} front).run false back

theorem attempts_mixed (front back : List AgentEvent) :
    (mixed front back).attempts = Attempts.run {} (front ++ back) := by
  unfold mixed
  rw [attempts_run, attempts_run, Attempts.run_append]

theorem mixed_snoc (front back : List AgentEvent) (event : AgentEvent) :
    mixed front (back ++ [event]) = (mixed front back).step false event := by
  unfold mixed
  rw [run_append]
  rfl

theorem runBatches_carded (a : Agent) (batches : List (List AgentEvent)) :
    runBatches true a batches = a.run false batches.flatten := by
  induction batches generalizing a with
  | nil => rfl
  | cons batch rest ih =>
    unfold runBatches
    rw [Bool.true_or, ih, flatten_cons, run_append]
    rfl

theorem runBatches_mixed (batches : List (List AgentEvent)) (a : Agent) :
    ∃ front back, batches.flatten = front ++ back ∧ front.any AgentEvent.isStart = false ∧
      runBatches false a batches = (a.run true front).run false back := by
  induction batches generalizing a with
  | nil => exact ⟨[], [], rfl, rfl, rfl⟩
  | cons batch rest ih =>
    unfold runBatches
    rw [Bool.false_or]
    cases hStart : batch.any AgentEvent.isStart with
    | true =>
      refine ⟨[], batch ++ rest.flatten, rfl, rfl, ?_⟩
      rw [runBatches_carded, run_nil, run_append]
      rfl
    | false =>
      obtain ⟨front, back, hFlatten, hFront, hRun⟩ := ih (a.run (!false) batch)
      refine ⟨batch ++ front, back, ?_, ?_, ?_⟩
      · rw [flatten_cons, hFlatten, append_assoc]
      · rw [any_append, hStart, hFront]
        rfl
      · rw [hRun, run_append]
        rfl

variable {front back : List AgentEvent}

section

variable (hFront : front.any AgentEvent.isStart = false)
include hFront

theorem runBatches_pair
    (hStart : (front ++ back).any AgentEvent.isStart = true) :
    runBatches false {} [front, back] = mixed front back := by
  rw [any_append, hFront, Bool.false_or] at hStart
  simp only [runBatches, hFront, hStart, Bool.or_true, Bool.false_or, Bool.not_false, Bool.not_true]
  rfl

theorem generation_run_front :
    (run true {} front).attempts.generation = none := by
  rw [attempts_run]
  have hNone := generation_run_noneOpens (noneOpens_of_noStart hFront : NoneOpens [] front)
  rwa [nil_append] at hNone

theorem entry_run_front :
    (run true {} front).entry.isSome = true ↔ .spawn true ∈ front := by
  induction front using List.reverseRecOn with
  | nil => simp [run]
  | append_singleton front event ih =>
    rw [any_append, Bool.or_eq_false_iff] at hFront
    have hOld := ih hFront.1
    rw [run_append, run_cons, run_nil, mem_append, mem_singleton, ← hOld]
    cases event with
    | started generation titled => exact absurd hFront.2 (by simp [AgentEvent.isStart])
    | progress => simp [step]
    | terminal generation =>
      simp only [step]
      split <;> simp
    | wake => simp [step]
    | spawn titled =>
      simp only [step]
      cases titled <;> cases hEnt : (run true {} front).entry <;> simp
    | resume => simp [step]

end

def StartedBy (front : List AgentEvent) (event : AgentEvent) (rest : List AgentEvent) : Prop :=
  (event = .resume ∨ ∃ titled, event = .spawn titled) ∧ .spawn true ∈ front ++ [event] ∧
    (∀ generation, .terminal generation ∉ rest) ∧ .wake ∉ rest

theorem running_run_front (hFront : front.any AgentEvent.isStart = false) :
    (run true {} front).Running ↔ ∃ before event after, front = before ++ event :: after ∧
      StartedBy before event after := by
  induction front using List.reverseRecOn with
  | nil => simp [run, Running]
  | append_singleton front event ih =>
    rw [any_append, Bool.or_eq_false_iff] at hFront
    have hOld := ih hFront.1
    have hEnt := entry_run_front hFront.1
    have hNone := generation_run_front hFront.1
    rw [exists_split_snoc, run_append, run_cons, run_nil]
    have hKeep : event ≠ .wake → (∀ g, event ≠ .terminal g) →
        ((∃ before e after, front = before ++ e :: after ∧ StartedBy before e (after ++ [event])) ↔
          (run true {} front).Running) := by
      intro hWake hTerm
      rw [hOld]
      simp [StartedBy, hWake.symm, fun g => (hTerm g).symm]
    have hEnd : StartedBy front event [] ↔
        (event = .resume ∨ ∃ titled, event = .spawn titled) ∧ .spawn true ∈ front ++ [event] := by
      simp [StartedBy]
    cases event with
    | started generation titled => exact absurd hFront.2 (by simp [AgentEvent.isStart])
    | progress =>
      rw [hKeep (by simp) (by simp), hEnd]
      simp [step, Running]
    | terminal generation =>
      have hSettled : ¬ ((run true {} front).step true (.terminal generation)).Running := by
        simp [step, Running, hNone]
      refine iff_of_false hSettled ?_
      rintro (hStarts | ⟨_, _, after, _, hStarts⟩)
      · simp [StartedBy] at hStarts
      · exact hStarts.2.2.1 generation (by simp)
    | wake =>
      have hSettled : ¬ ((run true {} front).step true .wake).Running := by simp [step, Running]
      refine iff_of_false hSettled ?_
      rintro (hStarts | ⟨_, _, after, _, hStarts⟩)
      · simp [StartedBy] at hStarts
      · exact hStarts.2.2.2 (by simp)
    | spawn titled =>
      rw [hKeep (by simp) (by simp), hEnd, mem_append, ← hEnt]
      cases titled <;> cases hSome : (run true {} front).entry <;> simp [step, Running, hSome]
    | resume =>
      rw [hKeep (by simp) (by simp), hEnd, mem_append, ← hEnt]
      cases hSome : (run true {} front).entry <;> simp [step, Running, hSome]

/-- No start card of `back` that opens an attempt brings a title. -/
def Untitled (front back : List AgentEvent) : Prop :=
  ∀ mid generation rest, back = mid ++ .started generation true :: rest → ¬ Opens (front ++ mid) generation

theorem untitled_snoc {event : AgentEvent} (h : Untitled front (back ++ [event])) :
    Untitled front back ∧ ∀ generation, event = .started generation true → ¬ Opens (front ++ back) generation := by
  refine ⟨fun mid generation rest hSplit => ?_, fun generation hEv => ?_⟩
  · exact h mid generation (rest ++ [event]) (by rw [hSplit]; simp)
  · exact h back generation [] (by rw [hEv])

theorem entry_mixed (hUntitled : Untitled front back) :
    (mixed front back).entry.isSome = (run true {} front).entry.isSome := by
  induction back using List.reverseRecOn with
  | nil => rfl
  | append_singleton back event ih =>
    obtain ⟨hBack, hLast⟩ := untitled_snoc hUntitled
    rw [mixed_snoc, ← ih hBack]
    cases event with
    | started generation titled =>
      simp only [step]
      split
      · rename_i hCounts
        have hOpens := (Attempts.accepts_run_iff _ _).mp (attempts_mixed front back ▸ hCounts.1)
        rcases hCounts.2 with hTitle | hSome
        · exact absurd hOpens (hLast generation (by rw [hTitle]))
        · simp [hSome]
      · rfl
    | terminal generation =>
      simp only [step]
      split <;> simp
    | progress => rfl
    | wake => rfl
    | spawn titled => rfl
    | resume => rfl

def LeavesRunning (front back : List AgentEvent) : Prop :=
  ((run true {} front).Running ∧ NoneOpens front back ∧ ∀ generation, .terminal generation ∉ back) ∨
    ∃ mid event rest, back = mid ++ event :: rest ∧ ∃ generation titled, event = .started generation titled ∧
      Opens (front ++ mid) generation ∧ NoneOpens (front ++ mid ++ [event]) rest ∧ .terminal generation ∉ rest

theorem leavesRunning_snoc {event : AgentEvent}
    (hClosed : ∀ generation titled, event = .started generation titled → ¬ Opens (front ++ back) generation)
    (hTerm : ∀ generation, event ≠ .terminal generation) :
    LeavesRunning front (back ++ [event]) ↔ LeavesRunning front back := by
  unfold LeavesRunning
  rw [exists_split_snoc, noneOpens_snoc]
  have hNone : ∀ generation, AgentEvent.terminal generation ∉ back ++ [event] ↔ .terminal generation ∉ back := by
    intro generation
    simp [(hTerm generation).symm]
  refine or_congr (and_congr_right fun _ => ?_) ?_
  · simp only [hNone]
    exact ⟨fun h => ⟨h.1.1, h.2⟩, fun h => ⟨⟨h.1, hClosed⟩, h.2⟩⟩
  · constructor
    · rintro (⟨generation, titled, hEv, hOpens, -⟩ | ⟨mid, e, rest, hSplit, generation, titled, hE, hOpens, hRest, hSettles⟩)
      · exact absurd hOpens (hClosed generation titled hEv)
      · refine ⟨mid, e, rest, hSplit, generation, titled, hE, hOpens, ((noneOpens_snoc _ _ _).mp hRest).1, ?_⟩
        exact fun hMem => hSettles (mem_append_left _ hMem)
    · rintro ⟨mid, e, rest, hSplit, generation, titled, hE, hOpens, hRest, hSettles⟩
      refine .inr ⟨mid, e, rest, hSplit, generation, titled, hE, hOpens, ?_, ?_⟩
      · refine (noneOpens_snoc _ _ _).mpr ⟨hRest, fun g t hEv => ?_⟩
        have hPrefix : front ++ mid ++ [e] ++ rest = front ++ back := by
          rw [hSplit]
          simp
        rw [hPrefix]
        exact hClosed g t hEv
      · simp [hSettles, (hTerm generation).symm]

theorem leavesRunning_terminal (hFront : front.any AgentEvent.isStart = false)
    (settled : Int) : LeavesRunning front (back ++ [.terminal settled]) ↔
      LeavesRunning front back ∧ ¬ (mixed front back).attempts.generation.all (· = settled) = true := by
  rw [attempts_mixed]
  have hFirst : ¬ ∀ generation, AgentEvent.terminal generation ∉ back ++ [.terminal settled] :=
    fun h => h settled (by simp)
  unfold LeavesRunning
  rw [exists_split_snoc]
  constructor
  · rintro (⟨-, -, hNone⟩ | ⟨_, _, hE, -⟩ | ⟨mid, e, rest, hSplit, generation, titled, rfl, hOpens, hRest, hSettles⟩)
    · exact absurd hNone hFirst
    · cases hE
    · have hOld := ((noneOpens_snoc _ _ _).mp hRest).1
      rw [mem_append, not_or] at hSettles
      have hLast := generation_run_opened (⟨mid, titled, rest, hSplit, hOpens, hOld⟩ : Opened front back generation)
      refine ⟨.inr ⟨mid, _, rest, hSplit, generation, titled, rfl, hOpens, hOld, hSettles.1⟩, ?_⟩
      rw [hLast]
      intro hSame
      have hEq : generation = settled := by simpa using hSame
      exact hSettles.2 (by rw [hEq]; exact mem_singleton_self _)
  · rintro ⟨⟨-, hNone, -⟩ | ⟨mid, e, rest, hSplit, generation, titled, rfl, hOpens, hRest, hSettles⟩, hOther⟩
    · rw [generation_run_noneOpens hNone, ← nil_append front,
        generation_run_noneOpens (noneOpens_of_noStart hFront)] at hOther
      exact absurd rfl hOther
    · have hLast := generation_run_opened (⟨mid, titled, rest, hSplit, hOpens, hRest⟩ : Opened front back generation)
      rw [hLast] at hOther
      refine .inr (.inr ⟨mid, _, rest, hSplit, generation, titled, rfl, hOpens, ?_, ?_⟩)
      · exact (noneOpens_snoc _ _ _).mpr ⟨hRest, by simp⟩
      · simp only [mem_append, not_or]
        refine ⟨hSettles, fun hMem => hOther ?_⟩
        have hEq := AgentEvent.terminal.inj (mem_singleton.mp hMem)
        simp [hEq]

theorem running_mixed (hFront : front.any AgentEvent.isStart = false)
    (hUntitled : Untitled front back) :
    (mixed front back).Running ↔ (run true {} front).entry.isSome = true ∧ LeavesRunning front back := by
  induction back using List.reverseRecOn with
  | nil =>
    have hLeaves : LeavesRunning front [] ↔ (run true {} front).Running := by
      simp [LeavesRunning, noneOpens_nil]
    rw [hLeaves]
    refine ⟨fun hRuns => ⟨?_, hRuns⟩, fun h => h.2⟩
    rw [show (run true {} front).entry = some true from hRuns]
    rfl
  | append_singleton back event ih =>
    obtain ⟨hBack, hLast⟩ := untitled_snoc hUntitled
    have hOld := ih hBack
    have hEnt := entry_mixed hBack
    rw [mixed_snoc]
    have hKeep : (∀ generation titled, event = .started generation titled → ¬ Opens (front ++ back) generation) →
        (∀ generation, event ≠ .terminal generation) →
        ((mixed front back).step false event).entry = (mixed front back).entry →
        (((mixed front back).step false event).Running ↔
          (run true {} front).entry.isSome = true ∧ LeavesRunning front (back ++ [event])) := by
      intro hClosed hTerm hEq
      rw [leavesRunning_snoc hClosed hTerm, ← hOld]
      unfold Running
      rw [hEq]
    cases event with
    | started generation titled =>
      by_cases hOpens : Opens (front ++ back) generation
      · have hAccepts : (mixed front back).attempts.Accepts generation := by
          rw [attempts_mixed]
          exact (Attempts.accepts_run_iff _ _).mpr hOpens
        have hBlank : titled = false := by
          rw [← Bool.not_eq_true]
          exact fun hTitle => hLast generation (by rw [hTitle]) hOpens
        subst hBlank
        have hLeaves : LeavesRunning front (back ++ [.started generation false]) :=
          .inr ⟨back, _, [], rfl, generation, false, rfl, hOpens, noneOpens_nil _, not_mem_nil⟩
        rw [← hEnt]
        refine ⟨fun hRuns => ⟨?_, hLeaves⟩, fun h => ?_⟩
        · cases hSome : (mixed front back).entry with
          | none => simp [Running, step, hSome] at hRuns
          | some running => rfl
        · simp [Running, step, hAccepts, h.1]
      · refine hKeep (fun g t hEv => ?_) (by simp) ?_
        · obtain ⟨rfl, -⟩ := AgentEvent.started.inj hEv
          exact hOpens
        · simp only [step]
          rw [if_neg]
          intro hCounts
          rw [attempts_mixed] at hCounts
          exact hOpens ((Attempts.accepts_run_iff _ _).mp hCounts.1)
    | terminal generation =>
      rw [leavesRunning_terminal hFront, ← and_assoc, ← hOld]
      simp only [step, Running]
      split
      · rename_i hSettles
        simp [hSettles]
      · rename_i hOther
        simp [hOther]
    | progress => exact hKeep (by simp) (by simp) rfl
    | wake => exact hKeep (by simp) (by simp) rfl
    | spawn titled => exact hKeep (by simp) (by simp) rfl
    | resume => exact hKeep (by simp) (by simp) rfl

theorem runBatches_noStart (batches : List (List AgentEvent)) (a : Agent)
    (hFlatten : batches.flatten.any AgentEvent.isStart = false) :
    runBatches false a batches = a.run true batches.flatten := by
  induction batches generalizing a with
  | nil => rfl
  | cons batch rest ih =>
    rw [flatten_cons, any_append, Bool.or_eq_false_iff] at hFlatten
    unfold runBatches
    rw [hFlatten.1, flatten_cons, run_append]
    exact ih _ hFlatten.2

variable {events : List AgentEvent}

theorem runBatches_whole (hStart : events.any AgentEvent.isStart = true) :
    runBatches false {} [events] = mixed [] events := by
  simp only [runBatches, hStart, Bool.or_true, Bool.not_true]
  rfl

theorem untitled_of_not_named (h : ¬ Named (front ++ back)) : Untitled front back := by
  rintro mid generation rest rfl hOpens
  exact h ⟨front ++ mid, generation, rest, by simp, hOpens⟩

theorem not_running_whole (h : ¬ Named events) : ¬ (mixed [] events).Running := by
  intro hRuns
  have hUntitled : Untitled [] events := untitled_of_not_named h
  have hEnt := entry_mixed hUntitled
  rw [show (mixed [] events).entry = some true from hRuns] at hEnt
  cases hEnt

theorem mixed_of_named (hFront : front.any AgentEvent.isStart = false)
    (hNamed : Named (front ++ back)) : (mixed front back).Running ↔ (mixed [] (front ++ back)).Running := by
  obtain ⟨before, generation, after, hSplit, hOpens⟩ := hNamed
  obtain ⟨mid, rfl, rfl⟩ : ∃ mid, before = front ++ mid ∧ back = mid ++ .started generation true :: after := by
    rcases append_eq_append_iff.mp hSplit with ⟨mid, hBef, hBack⟩ | ⟨mid, hOver, hRest⟩
    · exact ⟨mid, hBef, hBack⟩
    · cases mid with
      | nil => exact ⟨[], by simpa using hOver.symm, by simpa using hRest.symm⟩
      | cons event mid =>
        obtain ⟨rfl, -⟩ := List.cons.inj hRest
        rw [hOver] at hFront
        simp [AgentEvent.isStart] at hFront
  have hSame : ∀ {front' mid' : List AgentEvent}, front' ++ mid' = front ++ mid →
      (mixed front' mid').step false (.started generation true) =
        ⟨Attempts.run {} (front ++ mid ++ [.started generation true]), some true⟩ := by
    intro front' mid' hEq
    have hAttempts := attempts_mixed front' mid'
    rw [hEq] at hAttempts
    have hAccepts : (mixed front' mid').attempts.Accepts generation := by
      rw [hAttempts]
      exact (Attempts.accepts_run_iff _ _).mpr hOpens
    simp only [step, hAccepts, true_and, true_or, if_true]
    rw [hAttempts, Attempts.run_append _ (front ++ mid)]
    rfl
  have hLeft : mixed front (mid ++ .started generation true :: after) =
      ((mixed front mid).step false (.started generation true)).run false after := by
    unfold mixed
    rw [run_append]
    rfl
  have hRight : mixed [] (front ++ (mid ++ .started generation true :: after)) =
      ((mixed [] (front ++ mid)).step false (.started generation true)).run false after := by
    rw [← append_assoc]
    unfold mixed
    rw [run_append]
    rfl
  rw [hLeft, hRight, hSame rfl, hSame (nil_append _)]

theorem revived_of_running (hFront : front.any AgentEvent.isStart = false)
    (hNamed : ¬ Named (front ++ back)) (hRuns : (mixed front back).Running) : Revived (front ++ back) := by
  obtain ⟨hEnt, hLeaves⟩ := (running_mixed hFront (untitled_of_not_named hNamed)).mp hRuns
  rcases hLeaves with ⟨hFrontRuns, hNone, hTerm⟩ | ⟨mid, event, rest, rfl, generation, titled, rfl, hOpens, hRest, hSettles⟩
  · obtain ⟨before, event, after, rfl, hEv, hTitle, hAfter, -⟩ := (running_run_front hFront).mp hFrontRuns
    rw [any_append, Bool.or_eq_false_iff, any_cons, Bool.or_eq_false_iff] at hFront
    have hMirrored : Revived (before ++ event :: (after ++ back)) := by
      refine Revived.mirrored before event (after ++ back) hEv hFront.1 hTitle (fun generation hMem => ?_) ?_
      · rcases mem_append.mp hMem with hMem | hMem
        · exact hAfter generation hMem
        · exact hTerm generation hMem
      · refine (noneOpens_append _ _ _).mpr ⟨noneOpens_of_noStart hFront.2.2, ?_⟩
        rwa [append_assoc, singleton_append]
    rwa [append_assoc, cons_append]
  · have hCarded : Revived ((front ++ mid) ++ .started generation titled :: rest) := by
      refine Revived.carded (front ++ mid) generation titled rest hOpens ?_ hSettles hRest
      rw [takeWhile_append_of_pos]
      · exact mem_append_left _ ((entry_run_front hFront).mp hEnt)
      · intro event hMem
        have hNot := any_eq_false.mp hFront event hMem
        simpa using hNot
    rwa [append_assoc] at hCarded

theorem runBatches_running_iff {batches : List (List AgentEvent)} (h : ¬ Strays batches.flatten) :
    (runBatches false {} batches).Running ↔ (runBatches false {} [batches.flatten]).Running := by
  cases hStart : batches.flatten.any AgentEvent.isStart with
  | false =>
    rw [runBatches_noStart _ _ hStart, runBatches_noStart _ _ (by simpa using hStart)]
    simp
  | true =>
    obtain ⟨front, back, hFlatten, hFront, hRun⟩ := runBatches_mixed batches {}
    rw [runBatches_whole hStart, hRun]
    rw [hFlatten] at h hStart ⊢
    change (mixed front back).Running ↔ _
    by_cases hNamed : Named (front ++ back)
    · exact mixed_of_named hFront hNamed
    · refine iff_of_false (fun hRuns => ?_) (not_running_whole hNamed)
      exact h ⟨hStart, hNamed, revived_of_running hFront hNamed hRuns⟩

theorem exists_split_of_strays (h : Strays events) :
    ∃ front back, events = front ++ back ∧
      ¬ ((runBatches false {} [front, back]).Running ↔ (runBatches false {} [events]).Running) := by
  obtain ⟨hStart, hNamed, hRevived⟩ := h
  rw [runBatches_whole hStart]
  have hWhole := not_running_whole hNamed
  suffices hSplit : ∃ front back, events = front ++ back ∧ front.any AgentEvent.isStart = false ∧
      .spawn true ∈ front ∧ LeavesRunning front back by
    obtain ⟨front, back, rfl, hFront, hTitle, hLeaves⟩ := hSplit
    refine ⟨front, back, rfl, fun hEq => hWhole (hEq.mp ?_)⟩
    rw [runBatches_pair hFront hStart]
    exact (running_mixed hFront (untitled_of_not_named hNamed)).mpr ⟨(entry_run_front hFront).mpr hTitle, hLeaves⟩
  cases hRevived with
  | mirrored before event after hEv hBef hTitle hTerm hOpens =>
    have hFront : (before ++ [event]).any AgentEvent.isStart = false := by
      rw [any_append, hBef]
      rcases hEv with rfl | ⟨titled, rfl⟩ <;> rfl
    refine ⟨before ++ [event], after, by simp, hFront, hTitle, .inl ⟨?_, hOpens, hTerm⟩⟩
    exact (running_run_front hFront).mpr ⟨before, event, [], rfl, hEv, hTitle, fun _ => not_mem_nil, not_mem_nil⟩
  | carded before generation titled after hOpening hTitle hTerm hOpens =>
    have hBef := takeWhile_append_dropWhile (p := fun event : AgentEvent => !event.isStart) (l := before)
    refine ⟨before.takeWhile (fun event => !event.isStart),
      before.dropWhile (fun event => !event.isStart) ++ .started generation titled :: after, ?_, ?_, hTitle, ?_⟩
    · rw [← append_assoc, hBef]
    · refine any_eq_false.mpr (fun event hMem => ?_)
      simpa using all_eq_true.mp all_takeWhile event hMem
    · refine .inr ⟨_, _, after, rfl, generation, titled, rfl, ?_, ?_, hTerm⟩
      · rw [hBef]
        exact hOpening
      · rw [hBef]
        exact hOpens

end Agent

end Stella.AgentActivity
