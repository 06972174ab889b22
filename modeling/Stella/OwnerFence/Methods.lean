import Stella.OwnerFence.Moves

/-! # The methods of the store

A method that changes a lease finds it active under the identity it was called with; every
other outcome leaves the leases as they are, up to those that are due.
-/

namespace Stella.OwnerFence

open Rows Store

variable {env : FenceEnv} {rows later : List Lease} {identity : LeaseIdentity} {expiresAt now bounded : Nat}
  {touched : LeaseIdentity → Prop}

section

variable (h : boundedExpiry env expiresAt now = some bounded)
include h

theorem lt_boundedExpiry : now < bounded := by
  unfold boundedExpiry at h
  split at h
  · cases h
  · rename_i hWith
    have hMax := env.maxLeaseMs_pos
    rw [← Option.some.inj h]
    exact Nat.lt_min.mpr ⟨by omega, by omega⟩

theorem boundedExpiry_le : bounded ≤ now + env.maxLeaseMs := by
  unfold boundedExpiry at h
  split at h
  · cases h
  · rw [← Option.some.inj h]
    exact Nat.min_le_right _ _

end

variable {f : Lease → Lease}

theorem Keyed.modify (h : Keyed rows) (hKey : ∀ lease, (f lease).leaseId = lease.leaseId) (leaseId : String) :
    Keyed (Rows.modify Lease.leaseId rows leaseId f) := by
  unfold Keyed
  rw [map_key_modify hKey]
  exact h

variable {leaseId : String}

theorem moves_modify (hKey : ∀ lease, (f lease).leaseId = lease.leaseId)
    (h : ∀ found, lease rows leaseId = some found → Advances env now touched found (f found)) :
    Moves env now touched rows (Rows.modify Lease.leaseId rows leaseId f) := by
  intro other
  unfold Store.lease at *
  rw [lookup_modify hKey]
  cases hFound : lookup Lease.leaseId rows other with
  | none => trivial
  | some found =>
    refine .inl ?_
    dsimp only
    split
    · rename_i hEq
      rw [hEq] at hFound
      exact h found hFound
    · exact Advances.refl _

theorem retire_leaseId (now : Nat) (lease : Lease) : (retire now lease).leaseId = lease.leaseId := rfl

theorem moves_retire (h : ∀ found, lease rows leaseId = some found → found.active = true) :
    Moves env now touched rows (Rows.modify Lease.leaseId rows leaseId (retire now)) := by
  refine moves_modify (retire_leaseId now) fun found hFound => ⟨rfl, fun hRet => ?_, fun _ => .inl rfl, .inl ⟨rfl, rfl⟩,
    fun retiredAt hMem => .inr (Option.some.inj hMem).symm⟩
  rw [h found hFound] at hRet
  cases hRet

theorem registerLeaseExact_cases {status : RegistrationStatus}
    (h : registerLeaseExact env rows identity expiresAt now = some (later, status)) :
    (∃ lease : Lease, status = .registered lease ∧ lease.identity = identity ∧ lease.renewedAt = now ∧
        now < lease.expiresAt ∧ lease.expiresAt ≤ now + env.maxLeaseMs ∧ lease.retiredAt = none ∧
        Store.lease (expireDueLeases rows now) identity.leaseId = none ∧ later = expireDueLeases rows now ++ [lease]) ∨
      later = expireDueLeases rows now ∧
        (status = .leaseIdConflict ∨ status = .leaseRetired ∨
          ∃ existing, status = .replayed existing ∧ existing.identity = identity ∧ existing.active = true ∧
            lease later identity.leaseId = some existing) := by
  unfold registerLeaseExact at h
  split at h
  · obtain ⟨bounded, hBounded, hAns⟩ := Option.map_eq_some_iff.mp h
    dsimp only at hAns
    split at hAns
    · rename_i existing hExist
      refine .inr ?_
      split at hAns
      · obtain ⟨rfl, rfl⟩ := Prod.mk.inj hAns
        exact ⟨rfl, .inl rfl⟩
      · rename_i hIdent
        split at hAns
        · obtain ⟨rfl, rfl⟩ := Prod.mk.inj hAns
          exact ⟨rfl, .inr (.inl rfl)⟩
        · rename_i hAct
          obtain ⟨rfl, rfl⟩ := Prod.mk.inj hAns
          exact ⟨rfl, .inr (.inr ⟨existing, rfl, not_not.mp hIdent, by simpa using hAct, hExist⟩)⟩
    · rename_i hNone
      obtain ⟨rfl, rfl⟩ := Prod.mk.inj hAns
      exact .inl ⟨_, rfl, rfl, rfl, lt_boundedExpiry hBounded, boundedExpiry_le hBounded, rfl, hNone, rfl⟩
  · cases h

variable {status : MutationStatus}

theorem renewLeaseExact_cases
    (h : renewLeaseExact env rows identity expiresAt now = some (later, status)) :
    (∃ existing, lease rows identity.leaseId = some existing ∧ existing.identity = identity ∧ existing.active = true ∧
        (existing.expiresAt ≤ now ∧ status = .expired ∧ later = Rows.modify Lease.leaseId rows identity.leaseId (retire now) ∨
          now < existing.expiresAt ∧ ∃ bounded, boundedExpiry env expiresAt now = some bounded ∧
            status = .renewed { existing with expiresAt := bounded, renewedAt := now } ∧
            later = Rows.modify Lease.leaseId rows identity.leaseId
              (fun _ => { existing with expiresAt := bounded, renewedAt := now }))) ∨
      later = rows ∧ ∀ lease, status ≠ .renewed lease := by
  unfold renewLeaseExact at h
  split at h
  · obtain ⟨bounded, hBounded, hAns⟩ := Option.map_eq_some_iff.mp h
    dsimp only at hAns
    split at hAns
    · obtain ⟨rfl, rfl⟩ := Prod.mk.inj hAns
      exact .inr ⟨rfl, by simp⟩
    · rename_i existing hExist
      split at hAns
      · obtain ⟨rfl, rfl⟩ := Prod.mk.inj hAns
        exact .inr ⟨rfl, by simp⟩
      · rename_i hIdent
        split at hAns
        · obtain ⟨rfl, rfl⟩ := Prod.mk.inj hAns
          exact .inr ⟨rfl, by simp⟩
        · rename_i hAct
          refine .inl ⟨existing, hExist, not_not.mp hIdent, by simpa using hAct, ?_⟩
          split at hAns
          · rename_i hDue
            obtain ⟨rfl, rfl⟩ := Prod.mk.inj hAns
            exact .inl ⟨hDue, rfl, rfl⟩
          · rename_i hLater
            obtain ⟨rfl, rfl⟩ := Prod.mk.inj hAns
            exact .inr ⟨not_le.mp hLater, bounded, hBounded, rfl, rfl⟩
  · cases h

theorem retireLeaseExact_cases (h : retireLeaseExact env rows identity now = some (later, status)) :
    (∃ existing, lease rows identity.leaseId = some existing ∧ existing.active = true ∧ status = .retired ∧
        later = Rows.modify Lease.leaseId rows identity.leaseId (retire now)) ∨
      later = rows ∧ status ≠ .retired := by
  unfold retireLeaseExact at h
  split at h
  · split at h
    · obtain ⟨rfl, rfl⟩ := Prod.mk.inj (Option.some.inj h)
      exact .inr ⟨rfl, by simp⟩
    · rename_i existing hExist
      split at h
      · obtain ⟨rfl, rfl⟩ := Prod.mk.inj (Option.some.inj h)
        exact .inr ⟨rfl, by simp⟩
      · split at h
        · obtain ⟨rfl, rfl⟩ := Prod.mk.inj (Option.some.inj h)
          exact .inr ⟨rfl, by simp⟩
        · rename_i hAct
          obtain ⟨rfl, rfl⟩ := Prod.mk.inj (Option.some.inj h)
          exact .inl ⟨existing, hExist, by simpa using hAct, rfl, rfl⟩
  · cases h

variable {existing : Lease}

theorem moves_renewed (hExist : lease rows existing.leaseId = some existing)
    (hAct : existing.active = true) (hLater : now < existing.expiresAt) (hTouched : touched existing.identity)
    (hBounded : bounded ≤ now + env.maxLeaseMs) :
    Moves env now touched rows (Rows.modify Lease.leaseId rows existing.leaseId
      fun _ => { existing with expiresAt := bounded, renewedAt := now }) := by
  have hConst := @modify_const _ _ _ Lease.leaseId rows { existing with expiresAt := bounded, renewedAt := now }
  refine hConst ▸ moves_modify (key_of_const _) fun found hFound => ?_
  obtain rfl : existing = found := Option.some.inj (hExist.symm.trans hFound)
  have hEq : existing.leaseId = ({ existing with expiresAt := bounded, renewedAt := now } : Lease).leaseId := rfl
  rw [if_pos hEq]
  exact ⟨rfl, fun h => absurd hAct (by rw [h]; exact Bool.false_ne_true), fun h => absurd hLater (not_lt.mpr h),
    .inr ⟨hTouched, rfl, hBounded⟩, fun _ h => .inl h⟩

theorem moves_register {status : RegistrationStatus} (hTouched : touched identity)
    (h : registerLeaseExact env rows identity expiresAt now = some (later, status)) : Moves env now touched rows later := by
  rcases registerLeaseExact_cases h with ⟨added, -, hIdent, hRenewed, -, hBounded, hAct, hNone, rfl⟩ | ⟨rfl, -⟩
  · refine (moves_expire rows).trans fun leaseId => ?_
    unfold lease at *
    rw [lookup_append]
    cases hFound : lookup Lease.leaseId (expireDueLeases rows now) leaseId with
    | some found => exact .inl (Advances.refl found)
    | none =>
      rw [Option.none_or]
      cases hAdded : lookup Lease.leaseId [added] leaseId with
      | none => trivial
      | some found =>
        obtain rfl := List.mem_singleton.mp (lookup_mem hAdded)
        refine ⟨hIdent ▸ hTouched, hRenewed, hBounded, fun retiredAt hMem => ?_⟩
        rw [hAct] at hMem
        cases hMem
  · exact moves_expire rows

theorem Keyed.register {status : RegistrationStatus} (hKeyed : Keyed rows)
    (h : registerLeaseExact env rows identity expiresAt now = some (later, status)) : Keyed later := by
  rcases registerLeaseExact_cases h with ⟨added, -, hIdent, -, -, -, -, hNone, rfl⟩ | ⟨rfl, -⟩
  · unfold Keyed
    rw [List.map_append, List.nodup_append]
    refine ⟨hKeyed.expire now, List.nodup_singleton _, ?_⟩
    intro leaseId hMem other hOther hEq
    obtain ⟨found, hFound, rfl⟩ := List.mem_map.mp hMem
    obtain rfl := List.mem_singleton.mp hOther
    refine lookup_eq_none.mp hNone found hFound (hEq.trans ?_)
    exact congrArg LeaseIdentity.leaseId hIdent
  · exact hKeyed.expire now

theorem moves_renew (hTouched : touched identity)
    (h : renewLeaseExact env rows identity expiresAt now = some (later, status)) : Moves env now touched rows later := by
  rcases renewLeaseExact_cases h with ⟨existing, hExist, rfl, hAct, hCase⟩ | ⟨rfl, -⟩
  · rcases hCase with ⟨-, -, rfl⟩ | ⟨hLater, bounded, hBounded, -, rfl⟩
    · refine moves_retire fun found hFound => ?_
      obtain rfl : existing = found := Option.some.inj (hExist.symm.trans hFound)
      exact hAct
    · exact moves_renewed hExist hAct hLater hTouched (boundedExpiry_le hBounded)
  · exact Moves.refl _

theorem Keyed.renew (hKeyed : Keyed rows)
    (h : renewLeaseExact env rows identity expiresAt now = some (later, status)) : Keyed later := by
  rcases renewLeaseExact_cases h with ⟨existing, -, rfl, -, hCase⟩ | ⟨rfl, -⟩
  · rcases hCase with ⟨-, -, rfl⟩ | ⟨-, bounded, -, -, rfl⟩
    · exact hKeyed.modify (retire_leaseId now) _
    · have hConst := @modify_const _ _ _ Lease.leaseId rows { existing with expiresAt := bounded, renewedAt := now }
      exact hConst ▸ hKeyed.modify (key_of_const _) _
  · exact hKeyed

theorem renewLeaseExact_live (hExist : lease rows existing.leaseId = some existing)
    (hAct : existing.active = true) (hLater : now < existing.expiresAt)
    (h : renewLeaseExact env rows existing.identity expiresAt now = some (later, status)) :
    ∃ next, lease later existing.leaseId = some next ∧ next.identity = existing.identity ∧ next.active = true ∧ now < next.expiresAt := by
  rcases renewLeaseExact_cases h with ⟨found, hFound, -, -, hCase⟩ | ⟨rfl, -⟩
  · obtain rfl : existing = found := Option.some.inj (hExist.symm.trans hFound)
    rcases hCase with ⟨hDue, -⟩ | ⟨-, bounded, hBounded, -, rfl⟩
    · exact absurd hDue (not_le.mpr hLater)
    · refine ⟨{ existing with expiresAt := bounded, renewedAt := now }, ?_, rfl, hAct, lt_boundedExpiry hBounded⟩
      have hConst := @modify_const _ _ _ Lease.leaseId rows { existing with expiresAt := bounded, renewedAt := now }
      refine hConst ▸ ?_
      unfold lease at *
      refine (lookup_modify (key_of_const _) rows existing.leaseId existing.leaseId).trans ?_
      rw [hExist, Option.map_some, if_pos rfl]
      exact congrArg some (if_pos rfl)
  · exact ⟨existing, hExist, rfl, hAct, hLater⟩

theorem moves_unregister (h : retireLeaseExact env rows identity now = some (later, status)) :
    Moves env now touched rows later := by
  rcases retireLeaseExact_cases h with ⟨existing, hExist, hAct, -, rfl⟩ | ⟨rfl, -⟩
  · refine moves_retire fun found hFound => ?_
    obtain rfl : existing = found := Option.some.inj (hExist.symm.trans hFound)
    exact hAct
  · exact Moves.refl _

theorem Keyed.unregister (hKeyed : Keyed rows)
    (h : retireLeaseExact env rows identity now = some (later, status)) : Keyed later := by
  rcases retireLeaseExact_cases h with ⟨existing, -, -, -, rfl⟩ | ⟨rfl, -⟩
  · exact hKeyed.modify (retire_leaseId now) _
  · exact hKeyed

end Stella.OwnerFence
