import Stella.OwnerFence.Fence

/-! # What one request does to the leases

Every method takes each lease a step: it leaves it, retires it, renews it, or drops it when its
retention is over.
-/

namespace Stella.OwnerFence

open Rows Store

variable {env : FenceEnv} {now : Nat} {touched : LeaseIdentity → Prop}

structure Advances (env : FenceEnv) (now : Nat) (touched : LeaseIdentity → Prop) (lease next : Lease) : Prop where
  identity : next.identity = lease.identity
  retired : lease.active = false → next = lease
  expired : lease.expiresAt ≤ now → next.active = false ∨ next = lease
  renewed : next.renewedAt = lease.renewedAt ∧ next.expiresAt = lease.expiresAt ∨
    touched lease.identity ∧ next.renewedAt = now ∧ next.expiresAt ≤ now + env.maxLeaseMs
  stamped : ∀ retiredAt ∈ next.retiredAt, lease.retiredAt = some retiredAt ∨ retiredAt = now

structure Fresh (env : FenceEnv) (now : Nat) (touched : LeaseIdentity → Prop) (lease : Lease) : Prop where
  touched : touched lease.identity
  renewed : lease.renewedAt = now
  bounded : lease.expiresAt ≤ now + env.maxLeaseMs
  stamped : ∀ retiredAt ∈ lease.retiredAt, retiredAt = now

def Turn (env : FenceEnv) (now : Nat) (touched : LeaseIdentity → Prop) : Option Lease → Option Lease → Prop
  | none, none => True
  | none, some next => Fresh env now touched next
  | some lease, some next => Advances env now touched lease next ∨ stale now lease = true ∧ Fresh env now touched next
  | some lease, none => stale now lease = true

def Moves (env : FenceEnv) (now : Nat) (touched : LeaseIdentity → Prop) (rows later : List Lease) : Prop :=
  ∀ leaseId, Turn env now touched (lease rows leaseId) (lease later leaseId)

theorem Advances.refl (lease : Lease) : Advances env now touched lease lease :=
  ⟨rfl, fun _ => rfl, fun _ => .inr rfl, .inl ⟨rfl, rfl⟩, fun _ h => .inl h⟩

theorem Advances.trans {a b c : Lease} (h : Advances env now touched a b) (h' : Advances env now touched b c) :
    Advances env now touched a c where
  identity := h'.identity.trans h.identity
  retired hRet := by
    have hB := h.retired hRet
    rw [← hB] at hRet
    exact (h'.retired hRet).trans hB
  expired hExp := by
    rcases h.expired hExp with hInactive | rfl
    · rw [h'.retired hInactive]
      exact .inl hInactive
    · exact h'.expired hExp
  renewed := by
    rcases h'.renewed with ⟨hRenewed, hExpires⟩ | hRenewed
    · rw [hRenewed, hExpires]
      exact h.renewed
    · rw [h.identity] at hRenewed
      exact .inr hRenewed
  stamped retiredAt hRet := by
    rcases h'.stamped retiredAt hRet with hB | hNow
    · exact h.stamped retiredAt hB
    · exact .inr hNow

theorem Advances.was_active {a b : Lease} (h : Advances env now touched a b) (hAct : b.active = true) (hLater : now < b.expiresAt) :
    a.active = true ∧ now < a.expiresAt := by
  refine ⟨?_, ?_⟩
  · by_contra hRet
    exact hRet (h.retired (Bool.eq_false_iff.mpr hRet) ▸ hAct)
  · by_contra hExp
    rcases h.expired (not_lt.mp hExp) with hInactive | rfl
    · exact absurd (hAct.symm.trans hInactive) Bool.true_eq_false.mp
    · exact hExp hLater

theorem Fresh.advances {a b : Lease} (h : Fresh env now touched a) (h' : Advances env now touched a b) :
    Fresh env now touched b where
  touched := by
    rw [h'.identity]
    exact h.touched
  renewed := by
    rcases h'.renewed with ⟨hRenewed, -⟩ | ⟨-, hRenewed, -⟩
    · exact hRenewed.trans h.renewed
    · exact hRenewed
  bounded := by
    rcases h'.renewed with ⟨-, hExpires⟩ | ⟨-, -, hExpires⟩
    · exact hExpires.trans_le h.bounded
    · exact hExpires
  stamped retiredAt hRet := by
    rcases h'.stamped retiredAt hRet with hOld | hNow
    · exact h.stamped retiredAt hOld
    · exact hNow

theorem stale_iff {lease : Lease} : stale now lease = true ↔ ∃ retiredAt ∈ lease.retiredAt, retiredAt + retiredRetentionMs ≤ now := by
  unfold stale
  cases lease.retiredAt with
  | none => exact ⟨fun h => absurd h Bool.false_ne_true, fun ⟨_, hMem, _⟩ => absurd hMem (Option.not_mem_none _)⟩
  | some retiredAt =>
    rw [Option.any_some, decide_eq_true_iff]
    refine ⟨fun h => ⟨retiredAt, rfl, h⟩, fun ⟨other, hMem, hOld⟩ => ?_⟩
    rw [Option.mem_some_iff] at hMem
    rw [hMem]
    exact hOld

theorem retention_pos : 0 < retiredRetentionMs := Nat.mul_pos (by decide) (by decide)

theorem not_stale {lease : Lease} (h : ∀ retiredAt ∈ lease.retiredAt, retiredAt = now) : stale now lease ≠ true := by
  rw [Ne, stale_iff]
  rintro ⟨retiredAt, hMem, hOld⟩
  have hNow := h retiredAt hMem
  have hRetention := retention_pos
  omega

theorem Advances.stale {a b : Lease} (h : Advances env now touched a b) (hStale : Store.stale now b = true) :
    Store.stale now a = true := by
  obtain ⟨retiredAt, hMem, hOld⟩ := stale_iff.mp hStale
  rcases h.stamped retiredAt hMem with hA | hNow
  · exact stale_iff.mpr ⟨retiredAt, hA, hOld⟩
  · have hRetention := retention_pos
    omega

theorem Turn.refl (a : Option Lease) : Turn env now touched a a := by
  cases a with
  | none => trivial
  | some lease => exact .inl (Advances.refl lease)

theorem Turn.trans {a b c : Option Lease} (h : Turn env now touched a b) (h' : Turn env now touched b c) :
    Turn env now touched a c := by
  cases a with
  | none =>
    cases b with
    | none => exact h'
    | some b =>
      cases c with
      | none => exact absurd h' (not_stale h.stamped)
      | some c =>
        rcases h' with hGoes | ⟨hStale, -⟩
        · exact h.advances hGoes
        · exact absurd hStale (not_stale h.stamped)
  | some a =>
    cases b with
    | none =>
      cases c with
      | none => exact h
      | some c => exact .inr ⟨h, h'⟩
    | some b =>
      rcases h with hGoes | ⟨hStale, hFresh⟩
      · cases c with
        | none => exact hGoes.stale h'
        | some c =>
          rcases h' with hGoes' | ⟨hStale, hFresh⟩
          · exact .inl (hGoes.trans hGoes')
          · exact .inr ⟨hGoes.stale hStale, hFresh⟩
      · cases c with
        | none => exact absurd h' (not_stale hFresh.stamped)
        | some c =>
          rcases h' with hGoes' | ⟨hStale', -⟩
          · exact .inr ⟨hStale, hFresh.advances hGoes'⟩
          · exact absurd hStale' (not_stale hFresh.stamped)

theorem Moves.refl (rows : List Lease) : Moves env now touched rows rows := fun _ => Turn.refl _

theorem Moves.trans {a b c : List Lease} (h : Moves env now touched a b) (h' : Moves env now touched b c) :
    Moves env now touched a c :=
  fun leaseId => (h leaseId).trans (h' leaseId)

/-! ## The methods -/

def Keyed (rows : List Lease) : Prop := (rows.map Lease.leaseId).Nodup

variable {rows : List Lease}

theorem lease_expireDueLeases (rows : List Lease) (now : Nat) (leaseId : String) :
    lease (expireDueLeases rows now) leaseId = (lease rows leaseId).map fun lease => if due now lease then retire now lease else lease := by
  refine lookup_map fun lease _ => ?_
  split <;> rfl

theorem Keyed.expire (h : Keyed rows) (now : Nat) : Keyed (expireDueLeases rows now) := by
  unfold Keyed expireDueLeases
  rw [List.map_map, List.map_congr_left (g := Lease.leaseId)]
  · exact h
  · intro lease _
    rw [Function.comp_apply]
    split <;> rfl

theorem moves_expire (rows : List Lease) : Moves env now touched rows (expireDueLeases rows now) := by
  intro leaseId
  rw [lease_expireDueLeases]
  cases lease rows leaseId with
  | none => trivial
  | some lease =>
    refine .inl ?_
    dsimp only
    split
    · rename_i hDue
      have hAct : lease.active = true := (Bool.and_eq_true_iff.mp hDue).1
      refine ⟨rfl, fun hRet => ?_, fun _ => .inl rfl, .inl ⟨rfl, rfl⟩, fun retiredAt hMem => .inr (Option.some.inj hMem).symm⟩
      rw [hAct] at hRet
      cases hRet
    · exact Advances.refl _

theorem expire_idem (rows : List Lease) (now : Nat) : expireDueLeases (expireDueLeases rows now) now = expireDueLeases rows now := by
  unfold expireDueLeases
  rw [List.map_map]
  refine List.map_congr_left fun lease _ => ?_
  rw [Function.comp_apply]
  by_cases hDue : due now lease = true
  · rw [if_pos hDue]
    rfl
  · rw [if_neg hDue, if_neg hDue]

theorem Keyed.prune (h : Keyed rows) (now : Nat) : Keyed (pruneRetiredLeases rows now) :=
  h.sublist (List.filter_sublist.map _)

theorem moves_prune (h : Keyed rows) : Moves env now touched rows (pruneRetiredLeases rows now) := by
  intro leaseId
  unfold pruneRetiredLeases
  dsimp only
  generalize hPruned : ((List.take retiredPruneLimit (List.mergeSort (rows.filter (stale now))
    fun a b => a.retiredAt.getD 0 ≤ b.retiredAt.getD 0)).map Lease.leaseId) = pruned
  cases hLease : lease rows leaseId with
  | none =>
    have hNone : lease (rows.filter fun lease => lease.leaseId ∉ pruned) leaseId = none :=
      lookup_eq_none.mpr fun r hr => lookup_eq_none.mp hLease r (List.mem_of_mem_filter hr)
    rw [hNone]
    trivial
  | some found =>
    have hId : found.leaseId = leaseId := lookup_key hLease
    by_cases hOut : found.leaseId ∈ pruned
    · have hNone : lease (rows.filter fun lease => lease.leaseId ∉ pruned) leaseId = none :=
        lookup_eq_none.mpr fun r hr hEq => by
          have hKept := of_decide_eq_true (List.mem_filter.mp hr).2
          rw [hEq, ← hId] at hKept
          exact hKept hOut
      rw [hNone, ← hPruned] at *
      obtain ⟨old, hOld, hEq⟩ := List.mem_map.mp (hPruned ▸ hOut)
      obtain ⟨hMem, hStale⟩ := List.mem_filter.mp ((List.mem_mergeSort).mp (List.mem_of_mem_take hOld))
      have hLookup := lookup_of_mem h hMem
      rw [hEq, hId] at hLookup
      obtain rfl : found = old := Option.some.inj (hLease.symm.trans hLookup)
      exact hStale
    · have hSome : lease (rows.filter fun lease => lease.leaseId ∉ pruned) leaseId = some found :=
        lookup_filter_of_some hLease (decide_eq_true hOut)
      rw [hSome]
      exact .inl (Advances.refl _)

end Stella.OwnerFence
