import Stella.OwnerFence.Requests

/-! # The leases of a fence are bound and final

In every run, a lease id keeps its identity while its record is kept, a lease that is over is
never live again under that record, and none runs longer than the maximum past its last
registration or renewal.
-/

namespace Stella.OwnerFence

open Rows Store Transition

namespace Fence

variable {env : FenceEnv} {w : Fence} {request : Request} {after : Fence × Answer}

variable {lease : Lease}

theorem Answers.lookup_next (h : Answers env w request after) (hLease : lease ∈ after.1.rows) :
    Turn env w.clock (w.touches request) (Store.lease w.rows lease.leaseId) (some lease) := by
  have hTurn := h.moves lease.leaseId
  unfold Store.lease at *
  rwa [lookup_of_mem h.keyed hLease] at hTurn

theorem Answers.origin (h : Answers env w request after) (hLease : lease ∈ after.1.rows) :
    (∃ old ∈ w.rows, Advances env w.clock (w.touches request) old lease) ∨ Fresh env w.clock (w.touches request) lease := by
  have hTurn := h.lookup_next hLease
  cases hOld : Store.lease w.rows lease.leaseId with
  | none =>
    rw [hOld] at hTurn
    exact .inr hTurn
  | some old =>
    rw [hOld] at hTurn
    rcases hTurn with hGoes | ⟨-, hFresh⟩
    · exact .inl ⟨old, lookup_mem hOld, hGoes⟩
    · exact .inr hFresh

theorem Regenerates.next_le {next : Fence} (h : Regenerates w next) : w.nextGeneration ≤ next.nextGeneration := by
  cases h with
  | same _ hNext _ => exact hNext.ge
  | begun _ _ hNext _ => omega
  | released _ _ hNext _ _ => omega

theorem Answers.kept (h : Answers env w request after) (hKept : w.Kept env) : after.1.Kept env where
  keyed := h.keyed
  length lease hLease := by
    rcases h.origin hLease with ⟨old, hOld, hGoes⟩ | hFresh
    · rcases hGoes.renewed with ⟨hRenewed, hExpires⟩ | ⟨-, hRenewed, hExpires⟩
      · rw [hRenewed, hExpires]
        exact hKept.length old hOld
      · rw [hRenewed]
        exact hExpires
    · rw [hFresh.renewed]
      exact hFresh.bounded
  numbered lease hLease := by
    refine lt_of_lt_of_le ?_ h.regenerates.next_le
    rcases h.origin hLease with ⟨old, hOld, hGoes⟩ | hFresh
    · rw [hGoes.identity]
      exact hKept.numbered old hOld
    · rw [hFresh.touched.2.2]
      exact hKept.generation
  generation := by
    have hGen := hKept.generation
    cases h.regenerates with
    | same hEq hNext _ => rwa [hEq, hNext]
    | begun _ hEq hNext _ => omega
    | released _ hEq hNext _ _ => omega
  current hOpen lease hLease hAct := by
    cases h.regenerates with
    | same hEq _ hBlocked =>
      rw [hEq]
      rcases h.origin hLease with ⟨old, hOld, hGoes⟩ | hFresh
      · rw [hGoes.identity]
        refine hKept.current (hBlocked ▸ hOpen) old hOld ?_
        by_contra hRet
        exact hRet (hGoes.retired (Bool.eq_false_iff.mpr hRet) ▸ hAct)
      · exact hFresh.touched.2.2
    | begun _ _ _ hBlocked => exact absurd (hBlocked.symm.trans hOpen) Bool.true_eq_false.mp
    | released _ _ _ _ hIdle => exact absurd (hAct.symm.trans (hIdle lease hLease)) Bool.true_eq_false.mp
  fenced hBlocked lease hLease := by
    cases h.regenerates with
    | same hEq _ hSameBlocked =>
      rw [hEq]
      rcases h.origin hLease with ⟨old, hOld, hGoes⟩ | hFresh
      · rw [hGoes.identity]
        exact hKept.fenced (hSameBlocked ▸ hBlocked) old hOld
      · exact absurd (hFresh.touched.1.symm.trans (hSameBlocked ▸ hBlocked)) Bool.false_ne_true
    | begun hRows hEq _ _ =>
      rw [hEq]
      exact (hKept.numbered lease (hRows ▸ hLease)).ne
    | released _ _ _ hOpen _ => exact absurd (hOpen.symm.trans hBlocked) Bool.false_ne_true

theorem Answers.expire (h : w.Kept env) :
    Answers env w request ({ w with rows := expireDueLeases w.rows w.clock }, .refused) :=
  ⟨rfl, moves_expire _, h.keyed.expire _, .same rfl rfl rfl, fun _ => ⟨rfl, .inr (.inl rfl)⟩, nofun⟩

theorem Kept.at' (h : w.Kept env) (elapsed : Nat) : (w.at' elapsed).Kept env :=
  ⟨h.keyed, h.length, h.numbered, h.generation, h.current, h.fenced⟩

theorem handle_answers (h : w.Kept env) (elapsed : Nat) (request : Request) :
    ∃ rows, (rows = w.rows ∨ rows = expireDueLeases w.rows (w.clock + elapsed)) ∧ Kept env { w.at' elapsed with rows } ∧
      Answers env { w.at' elapsed with rows } request (w.handle env elapsed request) := by
  have hAt := h.at' elapsed
  have hLater : Kept env { w.at' elapsed with rows := expireDueLeases w.rows (w.clock + elapsed) } :=
    (@Answers.expire _ _ request hAt).kept hAt
  cases request with
  | alarm => exact ⟨w.rows, .inl rfl, hAt, answers_alarm hAt⟩
  | _ =>
    refine ⟨_, .inr rfl, hLater, ?_⟩
    unfold handle
    dsimp only
    split
    · exact Answers.refuse hLater
    · exact answers_respond hLater (expire_idem _ _) _

theorem Left.of_due {rows later due : List Lease} {now : Nat} (h : Left due later request now)
    (hDue : due = rows ∨ due = expireDueLeases rows now) : Left rows later request now := by
  rcases hDue with rfl | rfl
  · exact h
  · rcases h with rfl | rfl | ⟨body, rfl, rfl⟩
    · exact .inr (.inl rfl)
    · rw [expire_idem]
      exact .inr (.inl rfl)
    · rw [expire_idem]
      exact .inr (.inr ⟨body, rfl, rfl⟩)

theorem Answers.final (h : Answers env w request after) (hKept : w.Kept env) {leaseId : String} {next : Lease}
    (hLease : Store.lease w.rows leaseId = some lease) (hNext : Store.lease after.1.rows leaseId = some next)
    (hOver : ¬ w.Live lease) (hLive : after.1.Live next) : stale w.clock lease = true := by
  have hTurn := h.moves leaseId
  rw [hLease, hNext] at hTurn
  rcases hTurn with hGoes | ⟨hStale, -⟩
  · refine absurd ?_ hOver
    obtain ⟨hAct, hLater, hCur⟩ := hLive
    rw [h.clock] at hLater
    obtain ⟨hWasActive, hWasLater⟩ := hGoes.was_active hAct hLater
    refine ⟨hWasActive, hWasLater, ?_⟩
    rw [hGoes.identity] at hCur
    have hNumbered := hKept.numbered lease (lookup_mem hLease)
    cases h.regenerates with
    | same hEq _ _ => exact hCur.trans hEq
    | begun _ hEq _ _ => omega
    | released _ hEq _ _ _ => omega
  · exact hStale

structure Sound (env : FenceEnv) (w : Fence) (input : Nat × Request) : Prop where
  /-- A record goes on under its identity, and is dropped only when its retention is over. -/
  moves : Moves env (w.clock + input.1) (w.touches input.2) w.rows (w.step env input).rows
  final : ∀ leaseId lease next, Store.lease w.rows leaseId = some lease → Store.lease (w.step env input).rows leaseId = some next →
    ¬ w.Live lease → (w.step env input).Live next → stale (w.clock + input.1) lease = true
  length : ∀ lease ∈ (w.step env input).rows, lease.expiresAt ≤ lease.renewedAt + env.maxLeaseMs
  accepted : w.answer env input = .ok → ∀ leaseId ∈ input.2.leaseId?,
    ∃ lease, Store.lease (w.step env input).rows leaseId = some lease ∧ (w.step env input).Live lease
  refused : w.answer env input = .refused →
    w.step env input = { w.at' input.1 with rows := (w.step env input).rows } ∧
      Left w.rows (w.step env input).rows input.2 (w.clock + input.1)

theorem sound_step (h : w.Kept env) (input : Nat × Request) : Sound env w input := by
  obtain ⟨rows, hRows, hMiddle, hAnswers⟩ := handle_answers h input.1 input.2
  have hDue : Moves env (w.clock + input.1) (w.touches input.2) w.rows rows := by
    rcases hRows with rfl | rfl
    · exact Moves.refl _
    · exact moves_expire _
  refine ⟨hDue.trans hAnswers.moves, fun leaseId lease next hLease hNext hOver hLive => ?_, (hAnswers.kept hMiddle).length,
    hAnswers.accepted, fun hRef => ?_⟩
  · have hTurn := hDue leaseId
    rw [hLease] at hTurn
    cases hMid : Store.lease rows leaseId with
    | none =>
      rw [hMid] at hTurn
      exact hTurn
    | some mid =>
      rw [hMid] at hTurn
      rcases hTurn with hGoes | ⟨hStale, -⟩
      · refine hGoes.stale (hAnswers.final hMiddle hMid hNext (fun hMidLive => hOver ?_) hLive)
        obtain ⟨hAct, hLater, hCur⟩ := hMidLive
        obtain ⟨hWasActive, hWasLater⟩ := hGoes.was_active hAct hLater
        exact ⟨hWasActive, by omega, hGoes.identity ▸ hCur⟩
      · exact hStale
  · obtain ⟨hEq, hLeft⟩ := hAnswers.refused hRef
    exact ⟨hEq, hLeft.of_due hRows⟩

theorem Kept.step (h : w.Kept env) (input : Nat × Request) : (w.step env input).Kept env := by
  obtain ⟨rows, -, hMiddle, hAnswers⟩ := handle_answers h input.1 input.2
  exact hAnswers.kept hMiddle

theorem kept_run (env : FenceEnv) (inputs : List (Nat × Request)) : (run (step env) {} inputs).Kept env :=
  run_invariant_always (fun _ input h => h.step input) inputs
    ⟨List.nodup_nil, nofun, nofun, Nat.zero_lt_one, fun _ => nofun, nofun⟩

inductive Follows (w later : Fence) (lease : Lease) : Prop
  | kept (next : Lease) (hNext : Store.lease later.rows lease.leaseId = some next) (hIdentity : next.identity = lease.identity)
      (hRetired : lease.active = false → next = lease) (hSince : ∀ retiredAt ∈ next.retiredAt, lease.retiredAt.getD w.clock ≤ retiredAt)
      (hOver : ¬ w.Live lease → ¬ later.Live next)
  | dropped (hLong : lease.retiredAt.getD w.clock + retiredRetentionMs ≤ later.clock)

theorem clock_step (h : w.Kept env) (input : Nat × Request) : (w.step env input).clock = w.clock + input.1 := by
  obtain ⟨rows, -, -, hAnswers⟩ := handle_answers h input.1 input.2
  exact hAnswers.clock

theorem Follows.step {later : Fence} (hLater : later.Kept env) (hClock : w.clock ≤ later.clock)
    (h : Follows w later lease) (input : Nat × Request) : Follows w (later.step env input) lease := by
  have hSound := sound_step hLater input
  have hNow := clock_step hLater input
  cases h with
  | dropped hLong => exact .dropped (by omega)
  | kept next hNext hIdent hRet hSince hOver =>
    -- A record that is dropped now was retired since.
    have hDrop : stale (later.clock + input.1) next = true → Follows w (later.step env input) lease := fun hStale => by
      obtain ⟨retiredAt, hMem, hOld⟩ := stale_iff.mp hStale
      have hFrom := hSince retiredAt hMem
      exact .dropped (by omega)
    have hTurn := hSound.moves lease.leaseId
    rw [hNext] at hTurn
    cases hThen : Store.lease (later.step env input).rows lease.leaseId with
    | none =>
      rw [hThen] at hTurn
      exact hDrop hTurn
    | some last =>
      rw [hThen] at hTurn
      rcases hTurn with hGoes | ⟨hStale, -⟩
      · by_cases hLive : ¬ w.Live lease ∧ (later.step env input).Live last
        · exact hDrop (hSound.final _ _ _ hNext hThen (hOver hLive.1) hLive.2)
        · refine .kept last hThen (hGoes.identity.trans hIdent) (fun hInactive => ?_) (fun retiredAt hMem => ?_)
            fun hWasOver hIsLive => hLive ⟨hWasOver, hIsLive⟩
          · have hEq := hRet hInactive
            rw [← hEq] at hInactive
            exact (hGoes.retired hInactive).trans hEq
          · cases hStamp : lease.retiredAt with
            | none =>
              rcases hGoes.stamped retiredAt hMem with hOld | rfl
              · have hFrom := hSince retiredAt hOld
                rwa [hStamp] at hFrom
              · exact Nat.le_add_right_of_le hClock
            | some stamp =>
              have hInactive : lease.active = false := by rw [Lease.active, hStamp]; rfl
              have hEq := hRet hInactive
              rw [← hEq] at hInactive
              rw [hGoes.retired hInactive, hEq, hStamp] at hMem
              exact (Option.some.inj hMem).le
      · exact hDrop hStale

theorem follows_run (h : w.Kept env) (hLease : lease ∈ w.rows) (inputs : List (Nat × Request)) :
    Follows w (run (step env) w inputs) lease := by
  have hStep : ∀ (later : Fence) (input : Nat × Request), later.Kept env ∧ w.clock ≤ later.clock ∧ Follows w later lease →
      (later.step env input).Kept env ∧ w.clock ≤ (later.step env input).clock ∧ Follows w (later.step env input) lease := by
    intro later input ⟨hKept, hClock, hFollows⟩
    refine ⟨hKept.step input, ?_, hFollows.step hKept hClock input⟩
    rw [clock_step hKept input]
    exact Nat.le_add_right_of_le hClock
  refine (run_invariant_always hStep inputs ⟨h, le_rfl, ?_⟩).2.2
  · refine .kept lease (lookup_of_mem h.keyed hLease) rfl (fun _ => rfl) (fun retiredAt hMem => ?_) id
    rw [hMem]
    exact le_rfl

/-- In every run, each request treats the leases as it should, and every record goes on under its
identity, once over for good, until it has been retired for the retention. -/
theorem leases_of_run (env : FenceEnv) (inputs : List (Nat × Request)) :
    (∀ input, Sound env (run (step env) {} inputs) input) ∧
      ∀ lease ∈ (run (step env) {} inputs).rows, ∀ more,
        Follows (run (step env) {} inputs) (run (step env) (run (step env) {} inputs) more) lease :=
  ⟨sound_step (kept_run env inputs), fun _ hLease more => follows_run (kept_run env inputs) hLease more⟩

end Fence

def dueEnv : FenceEnv := ⟨"owner", fun _ => true, 30, 5, 10, by decide⟩

def dueInputs : List (Nat × Request) :=
  [(0, .register ⟨none, "lease", "session", "turn", "1", .build, .run, none⟩)]

/-- The renewal is refused, and the lease retired. -/
theorem dueRenewal_changes : ∃ input, (run (Fence.step dueEnv) {} dueInputs).answer dueEnv input = .refused ∧
    ((run (Fence.step dueEnv) {} dueInputs).step dueEnv input).rows ≠ (run (Fence.step dueEnv) {} dueInputs).rows := by
  refine ⟨(20, .renew 0 "lease" "session" "turn" "1"), ?_, ?_⟩
  · decide +kernel
  · decide +kernel

end Stella.OwnerFence
