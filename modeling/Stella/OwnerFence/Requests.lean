import Stella.OwnerFence.Methods

/-! # What a request answers

A request registers or renews a lease only for its own lease id, while the fence is open and
under its generation.
-/

namespace Stella.OwnerFence

open Rows Store

def Request.leaseId? : Request → Option String
  | .register body => some body.leaseId
  | .renew _ leaseId _ _ _ => some leaseId
  | .assert _ leaseId _ => some leaseId
  | _ => none

namespace Fence

def touches (w : Fence) (request : Request) (identity : LeaseIdentity) : Prop :=
  w.blocked = false ∧ request.leaseId? = some identity.leaseId ∧ identity.reservationGeneration = w.generation

def Live (w : Fence) (lease : Lease) : Prop :=
  lease.active = true ∧ w.clock < lease.expiresAt ∧ lease.identity.reservationGeneration = w.generation

structure Kept (env : FenceEnv) (w : Fence) : Prop where
  keyed : Keyed w.rows
  length : ∀ lease ∈ w.rows, lease.expiresAt ≤ lease.renewedAt + env.maxLeaseMs
  numbered : ∀ lease ∈ w.rows, lease.identity.reservationGeneration < w.nextGeneration
  generation : w.generation < w.nextGeneration
  current : w.blocked = false → ∀ lease ∈ w.rows, lease.active = true → lease.identity.reservationGeneration = w.generation
  fenced : w.blocked = true → ∀ lease ∈ w.rows, lease.identity.reservationGeneration ≠ w.generation

inductive Regenerates (w next : Fence) : Prop
  | same (hGeneration : next.generation = w.generation) (hNext : next.nextGeneration = w.nextGeneration)
      (hBlocked : next.blocked = w.blocked)
  | begun (hRows : next.rows = w.rows) (hGeneration : next.generation = w.nextGeneration)
      (hNext : next.nextGeneration = w.nextGeneration + 1) (hBlocked : next.blocked = true)
  | released (hRows : next.rows = w.rows) (hGeneration : next.generation = w.nextGeneration)
      (hNext : next.nextGeneration = w.nextGeneration + 1) (hBlocked : next.blocked = false)
      (hIdle : ∀ lease ∈ next.rows, lease.active = false)

def Left (rows later : List Lease) (request : Request) (now : Nat) : Prop :=
  later = rows ∨ later = expireDueLeases rows now ∨
    ∃ body, request = .register body ∧ later = expireDueLeases (pruneRetiredLeases (expireDueLeases rows now) now) now

structure Answers (env : FenceEnv) (w : Fence) (request : Request) (after : Fence × Answer) : Prop where
  clock : after.1.clock = w.clock
  moves : Moves env w.clock (w.touches request) w.rows after.1.rows
  keyed : Keyed after.1.rows
  regenerates : Regenerates w after.1
  refused : after.2 = .refused → after.1 = { w with rows := after.1.rows } ∧ Left w.rows after.1.rows request w.clock
  accepted : after.2 = .ok → ∀ leaseId ∈ request.leaseId?, ∃ lease, Store.lease after.1.rows leaseId = some lease ∧ after.1.Live lease

variable {env : FenceEnv} {w : Fence} {request : Request}

theorem commit_cases (before after : Fence) : before.commit after = (after, .ok) ∨ before.commit after = (before, .refused) := by
  unfold commit
  split
  · exact .inl rfl
  · exact .inr rfl

theorem Answers.refuse (h : w.Kept env) : Answers env w request (w, .refused) :=
  ⟨rfl, Moves.refl _, h.keyed, .same rfl rfl rfl, fun _ => ⟨rfl, .inl rfl⟩, nofun⟩

variable {rows : List Lease}

theorem Answers.accept (hMoves : Moves env w.clock (w.touches request) w.rows rows) (hKeyed : Keyed rows)
    (hLive : ∀ leaseId ∈ request.leaseId?, ∃ lease, Store.lease rows leaseId = some lease ∧ w.Live lease) :
    Answers env w request ({ w with rows }, .ok) :=
  ⟨rfl, hMoves, hKeyed, .same rfl rfl rfl, nofun, fun _ => hLive⟩

theorem Answers.commit (h : w.Kept env) (hMoves : Moves env w.clock (w.touches request) w.rows rows)
    (hKeyed : Keyed rows) (hLive : ∀ leaseId ∈ request.leaseId?, ∃ lease, Store.lease rows leaseId = some lease ∧ w.Live lease) :
    Answers env w request (w.commit { w with rows }) := by
  rcases commit_cases w { w with rows } with hCommit | hCommit
  · rw [hCommit]
    exact Answers.accept hMoves hKeyed hLive
  · rw [hCommit]
    exact Answers.refuse h

variable {leaseId : String}

theorem lt_expiresAt {now : Nat} (hDue : expireDueLeases rows now = rows) {found : Lease}
    (hFound : Store.lease rows leaseId = some found) (hAct : found.active = true) : now < found.expiresAt := by
  by_contra hOver
  have hExp := lease_expireDueLeases rows now leaseId
  have hIsDue : due now found = true := Bool.and_eq_true_iff.mpr ⟨hAct, decide_eq_true (not_lt.mp hOver)⟩
  rw [hDue, hFound, Option.map_some, if_pos hIsDue] at hExp
  rw [Option.some.inj hExp] at hAct
  cases hAct

theorem answers_register (h : w.Kept env) (hDue : expireDueLeases w.rows w.clock = w.rows) (body : Registration) :
    Answers env w (.register body) (w.register env body) := by
  unfold register
  dsimp only
  split
  · exact Answers.refuse h
  rename_i hOpen
  split
  · exact Answers.refuse h
  split
  · exact Answers.refuse h
  generalize w.requestedExpiry env body = expiresAt
  generalize hIdent : (⟨body.leaseId, env.ownerId, body.ownerGeneration, w.generation, body.sessionId, body.turnId, body.leaseNamespace,
    body.role⟩ : LeaseIdentity) = identity
  have hId : identity.leaseId = body.leaseId := by rw [← hIdent]
  have hCur : identity.reservationGeneration = w.generation := by rw [← hIdent]
  have hTouched : w.touches (.register body) identity := ⟨by simpa using hOpen, congrArg some hId.symm, hCur⟩
  have hPrune : Moves env w.clock (w.touches (.register body)) w.rows (pruneRetiredLeases w.rows w.clock) := moves_prune h.keyed
  cases hRegister : registerLeaseExact env (pruneRetiredLeases w.rows w.clock) identity expiresAt w.clock with
  | none => exact Answers.refuse h
  | some answer =>
    obtain ⟨rows, status⟩ := answer
    have hMoves := hPrune.trans (moves_register hTouched hRegister)
    have hKeyed := (h.keyed.prune w.clock).register hRegister
    rcases registerLeaseExact_cases hRegister with ⟨added, rfl, rfl, -, hLater, -, hRet, hNone, rfl⟩ | ⟨hRows, hStat⟩
    · refine Answers.commit h hMoves hKeyed fun leaseId hLease => ⟨added, ?_, ?_, hLater, hCur⟩
      · obtain rfl := Option.some.inj hLease
        rw [← hId]
        unfold Store.lease at *
        rw [lookup_append, hNone, Option.none_or]
        have hKey : ([added].map Lease.leaseId).Nodup := List.nodup_singleton _
        exact lookup_of_mem hKey (List.mem_singleton_self _)
      · rw [Lease.active, hRet]
        rfl
    · have hLeft : Left w.rows rows (.register body) w.clock := .inr (.inr ⟨body, rfl, by rw [hDue]; exact hRows⟩)
      rcases hStat with rfl | rfl | ⟨existing, rfl, rfl, hAct, hExist⟩
      · exact ⟨rfl, hMoves, hKeyed, .same rfl rfl rfl, fun _ => ⟨rfl, hLeft⟩, nofun⟩
      · exact ⟨rfl, hMoves, hKeyed, .same rfl rfl rfl, fun _ => ⟨rfl, hLeft⟩, nofun⟩
      · dsimp only
        cases hRenew : renewLeaseExact env rows existing.identity expiresAt w.clock with
        | none => exact Answers.refuse h
        | some answer =>
          have hIdem : expireDueLeases rows w.clock = rows := by rw [hRows, expire_idem]
          obtain ⟨next, hNext, hEq, hNextActive, hLater⟩ :=
            renewLeaseExact_live hExist hAct (lt_expiresAt hIdem hExist hAct) hRenew
          refine Answers.commit h (hMoves.trans (moves_renew hTouched hRenew)) (hKeyed.renew hRenew) fun leaseId hLease => ?_
          obtain rfl := Option.some.inj hLease
          rw [← hId]
          exact ⟨next, hNext, hNextActive, hLater, hEq ▸ hCur⟩

theorem answers_unregister (h : w.Kept env) (leaseId sessionId turnId ownerGeneration : String) :
    Answers env w (.unregister leaseId sessionId turnId ownerGeneration) (w.unregister env leaseId sessionId turnId ownerGeneration) := by
  have hRefuse : Answers env w (.unregister leaseId sessionId turnId ownerGeneration) (w, .refused) := Answers.refuse h
  have hAccept : Answers env w (.unregister leaseId sessionId turnId ownerGeneration) (w, .ok) :=
    Answers.accept (Moves.refl _) h.keyed fun _ hNone => absurd hNone (Option.not_mem_none _)
  unfold unregister
  split
  · exact hRefuse
  split
  · exact hAccept
  · rename_i active _
    split
    · exact hAccept
    split
    · exact hRefuse
    have hCommit : ∀ rows status, retireLeaseExact env w.rows active.identity w.clock = some (rows, status) →
        Answers env w (.unregister leaseId sessionId turnId ownerGeneration) (w.commit { w with rows }) := fun rows status hRetire =>
      Answers.commit h (moves_unregister hRetire) (h.keyed.unregister hRetire) fun _ hNone => absurd hNone (Option.not_mem_none _)
    split
    · rename_i hRetire
      exact hCommit _ _ hRetire
    · rename_i hRetire
      exact hCommit _ _ hRetire
    · exact hRefuse

theorem activeLease_some {active : Lease} (hDue : expireDueLeases w.rows w.clock = w.rows)
    (h : activeLease w.rows leaseId w.clock = some active) :
    Store.lease w.rows leaseId = some active ∧ active.active = true ∧ active.leaseId = leaseId ∧ w.clock < active.expiresAt := by
  unfold activeLease at h
  rw [hDue] at h
  obtain ⟨hFound, hAct⟩ := Option.filter_eq_some_iff.mp h
  exact ⟨hFound, hAct, lookup_key hFound, lt_expiresAt hDue hFound hAct⟩

section

variable (h : w.Kept env)
include h

theorem answers_renewed (hOpen : w.blocked = false) {active : Lease}
    (hDue : expireDueLeases w.rows w.clock = w.rows) (hAct : activeLease w.rows active.leaseId w.clock = some active)
    (hReq : request.leaseId? = some active.leaseId) : Answers env w request (w.renewed env active) := by
  obtain ⟨hFound, hIsActive, -, hLater⟩ := activeLease_some hDue hAct
  have hCur := h.current hOpen active (lookup_mem hFound) hIsActive
  unfold renewed
  cases hRenew : renewLeaseExact env w.rows active.identity (w.clock + env.leaseTtlMs) w.clock with
  | none => exact Answers.refuse h
  | some answer =>
    obtain ⟨rows, status⟩ := answer
    have hMoves : Moves env w.clock (w.touches request) w.rows rows := moves_renew ⟨hOpen, hReq, hCur⟩ hRenew
    have hKeyed := h.keyed.renew hRenew
    obtain ⟨next, hNext, hEq, hNextActive, hNextLater⟩ := renewLeaseExact_live hFound hIsActive hLater hRenew
    rcases renewLeaseExact_cases hRenew with ⟨found, hSnd, -, -, hCase⟩ | ⟨rfl, hStat⟩
    · obtain rfl : active = found := Option.some.inj (hFound.symm.trans hSnd)
      rcases hCase with ⟨hOver, -⟩ | ⟨-, bounded, -, rfl, -⟩
      · exact absurd hOver (not_le.mpr hLater)
      · refine Answers.commit h hMoves hKeyed fun leaseId hLease => ⟨next, ?_, hNextActive, hNextLater, hEq ▸ hCur⟩
        obtain rfl := Option.some.inj (hReq.symm.trans hLease)
        exact hNext
    · cases status with
      | renewed lease => exact absurd rfl (hStat lease)
      | _ => exact Answers.refuse h

theorem answers_renew (hDue : expireDueLeases w.rows w.clock = w.rows) (generation : Nat)
    (leaseId sessionId turnId ownerGeneration : String) :
    Answers env w (.renew generation leaseId sessionId turnId ownerGeneration)
      (w.renew env generation leaseId sessionId turnId ownerGeneration) := by
  unfold renew
  split
  · exact Answers.refuse h
  rename_i hOpen
  split
  · exact Answers.refuse h
  · rename_i active hAct
    split
    · exact Answers.refuse h
    obtain ⟨-, -, rfl, -⟩ := activeLease_some hDue hAct
    exact answers_renewed h (by simpa using fun hBlocked => hOpen (.inl hBlocked)) hDue hAct rfl

theorem answers_assert (hDue : expireDueLeases w.rows w.clock = w.rows) (generation : Nat)
    (leaseId ownerGeneration : String) :
    Answers env w (.assert generation leaseId ownerGeneration) (w.assert env generation leaseId ownerGeneration) := by
  unfold assert
  split
  · exact Answers.refuse h
  rename_i hReq
  have hOpen : w.blocked = false := by simpa using fun hBlocked => hReq (.inl hBlocked)
  split
  · exact Answers.refuse h
  · rename_i active hAct
    obtain ⟨hFound, hIsActive, rfl, hLater⟩ := activeLease_some hDue hAct
    split
    · exact Answers.refuse h
    split
    · refine Answers.accept (Moves.refl _) h.keyed fun leaseId hLease => ⟨active, ?_, hIsActive, hLater, ?_⟩
      · obtain rfl := Option.some.inj hLease
        exact hFound
      · exact h.current hOpen active (lookup_mem hFound) hIsActive
    · exact answers_renewed h hOpen hDue hAct rfl

theorem answers_begin (requestId : String) (expectedGeneration : Option Nat) (mode : PurgeMode) :
    Answers env w (.begin requestId expectedGeneration mode) (w.begin requestId expectedGeneration mode) := by
  unfold begin
  split
  · exact Answers.refuse h
  · exact ⟨rfl, Moves.refl _, h.keyed, .begun rfl rfl rfl rfl, nofun, fun _ _ hNone => absurd hNone (Option.not_mem_none _)⟩
  · refine ⟨?_, ?_, ?_, ?_, nofun, fun _ _ hNone => absurd hNone (Option.not_mem_none _)⟩
    · split <;> rfl
    · split
      · exact Moves.refl _
      · exact Moves.refl _
    · split
      · exact h.keyed
      · exact h.keyed
    · split
      · exact .same rfl rfl rfl
      · exact .same rfl rfl rfl

theorem answers_release (hDue : expireDueLeases w.rows w.clock = w.rows) (generation : Nat) :
    Answers env w (.release generation) (w.release generation) := by
  unfold release
  split
  · exact Answers.accept (Moves.refl _) h.keyed fun _ hNone => absurd hNone (Option.not_mem_none _)
  split
  · rename_i hIdle
    refine ⟨rfl, Moves.refl _, h.keyed, .released rfl rfl rfl rfl fun lease hLease => ?_, nofun, fun _ _ hNone => absurd hNone (Option.not_mem_none _)⟩
    have hCnt := hIdle.2.2.2
    unfold activeLeaseCount at hCnt
    rw [hDue, List.countP_eq_zero] at hCnt
    simpa using hCnt lease hLease
  · exact Answers.refuse h

theorem answers_alarm : Answers env w .alarm w.alarm :=
  Answers.commit h ((moves_prune h.keyed).trans (moves_expire _)) ((h.keyed.prune _).expire _) fun _ hNone =>
    absurd hNone (Option.not_mem_none _)

theorem answers_respond (hDue : expireDueLeases w.rows w.clock = w.rows) (request : Request) :
    Answers env w request (w.respond env request) := by
  cases request with
  | register body => exact answers_register h hDue body
  | unregister leaseId sessionId turnId ownerGeneration => exact answers_unregister h leaseId sessionId turnId ownerGeneration
  | renew generation leaseId sessionId turnId ownerGeneration =>
    exact answers_renew h hDue generation leaseId sessionId turnId ownerGeneration
  | assert generation leaseId ownerGeneration => exact answers_assert h hDue generation leaseId ownerGeneration
  | begin requestId expectedGeneration mode => exact answers_begin h requestId expectedGeneration mode
  | release generation => exact answers_release h hDue generation
  | alarm => exact answers_alarm h

end

end Fence

end Stella.OwnerFence
