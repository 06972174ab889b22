import Mathlib.Data.List.Dedup
import Stella.MemoryGrants.Model

/-! # A permission change and the grants before it

A grant is shut at its reader once its requests are aborted and a tombstone, or the clock,
refuses it.
-/

namespace Stella.MemoryGrants

open Stella.Transition List

def Reader.Shuts (reader : Reader) (now : Nat) (spared : List String) (grant : Grant) : Prop :=
  (∀ a ∈ reader.active, a.ownerGeneration = grant.ownerGeneration → a.grantId = grant.grantId → a.aborted = true) ∧
  (grant.leaseId ∉ spared → ∀ expected, reader.valid now grant expected = false)

def World.ShutsBefore (w : World) (spared : List String) : Prop :=
  ∀ ownerGeneration n, (ownerGeneration, n) ∈ w.applied → ∀ grant ∈ w.issued.take n,
    grant.ownerGeneration = ownerGeneration →
      ∀ reader, w.reader grant.conversationId = some reader → reader.Shuts w.now spared grant

/-- No assertion passes under a policy that is not the home state's, or while its generation has a change pending;
before a change is applied the grants of its generation are shut, and they stay so. A turn whose lease is retired
is over, and its grants are not looked for. -/
structure Safe (w : World) : Prop where
  current : w.exclusive = none → ∀ expected fenceGeneration readOk,
    (w.assertCurrent expected fenceGeneration readOk).2 = true →
      (∃ policy, w.home.readMemoryPolicy expected.ownerGeneration = some policy ∧ memoryPoliciesMatch policy expected) ∧
      ∀ p, w.pending = some p → p.change.expectedOwnerGeneration ≠ expected.ownerGeneration
  shut : w.ShutsBefore w.retired

/-! ## The condition on a step -/

def fits (w : World) : Input → Bool
  | .tick ms => w.readers.all (fun e => e.2.active.all (fun a =>
      a.aborted || w.now + ms < a.grantId.expiresAt + gatewayUpstreamMaxDurationMs))
  | .begin _ _ grant _ => grant.leaseId ∉ w.retired
  | .retire _ _ leaseId => w.readers.all (fun e => e.2.active.all (fun a => a.aborted || a.grantId.leaseId ≠ leaseId))
  | _ => true

/-! ## The invariant -/

variable {w w' : World}

/-- As `Reader.Shuts`, by what makes the reader refuse. -/
structure Reader.Shut (reader : Reader) (now : Nat) (retired : List String) (grant : Grant) : Prop where
  stopped : ∀ a ∈ reader.active, a.ownerGeneration = grant.ownerGeneration → a.grantId = grant.grantId → a.aborted = true
  refused : grant.leaseId ∈ retired ∨ reader.readerId ≠ grant.readerId ∨ grant.expiresAt ≤ now ∨
    (grant.ownerGeneration, grant.grantId) ∈ reader.revoked

def Shut (w : World) (grant : Grant) : Prop :=
  ∀ reader, w.reader grant.conversationId = some reader → reader.Shut w.now w.retired grant

def Open (w : World) (grant : Grant) : Prop := ∃ row ∈ w.rows, row.grant = grant ∧ row.state ≠ .revoked

structure ReadersKept (w : World) : Prop where
  own : ∀ c r, w.reader c = some r → ∀ a ∈ r.active, a.grantId.readerId = r.readerId
  live : ∀ c r, w.reader c = some r → ∀ a ∈ r.active, a.aborted = false →
    w.now < a.grantId.expiresAt + gatewayUpstreamMaxDurationMs
  known : ∀ c r, w.reader c = some r → r.readerId < w.nextId
  latest : ∀ c readerId, InsertionMap.get? w.latest c = some readerId → readerId < w.nextId
  asks : ∀ ask ∈ w.asks, ask.readerId < w.nextId
  issued : ∀ grant ∈ w.issued, grant.readerId < w.nextId

structure GrantsKept (w : World) : Prop where
  rows : ∀ row ∈ w.rows, row.grant ∈ w.issued
  single : ∀ row ∈ w.rows, ∀ row' ∈ w.rows, row.grant.grantId = row'.grant.grantId → row.grant = row'.grant
  covered : ∀ grant ∈ w.issued, Open w grant ∨ Shut w grant
  counted : ∀ ownerGeneration n, (ownerGeneration, n) ∈ w.applied → n ≤ w.issued.length
  done : ∀ ownerGeneration n, (ownerGeneration, n) ∈ w.applied → ∀ grant ∈ w.issued.take n,
    grant.ownerGeneration = ownerGeneration → Shut w grant

structure CallsKept (w : World) (e : Revocation) : Prop where
  named : ∀ c ∈ e.calls, ∀ id ∈ c.request.grants, id.readerId = c.request.readerId
  of : ∀ c ∈ e.calls, ∀ row ∈ w.rows, row.grant.grantId ∈ c.request.grants →
    row.grant.ownerGeneration = c.request.ownerGeneration ∧ row.grant.conversationId = c.request.conversationId
  landed : ∀ c ∈ e.calls, c.landed = true → ∀ grant ∈ w.issued, grant.ownerGeneration = c.request.ownerGeneration →
    grant.conversationId = c.request.conversationId → grant.grantId ∈ c.request.grants → Shut w grant
  answered : ∀ c ∈ e.calls, c.settled = some true → c.landed = true
  pending : e.purpose = .change → ∃ p, w.pending = some p ∧ p.phase = .applying ∧
    ∀ row ∈ w.rows, row.state ≠ .revoked → row.grant.ownerGeneration = p.change.expectedOwnerGeneration →
      ∃ c ∈ e.calls, row.grant.grantId ∈ c.request.grants

structure Kept (w : World) : Prop where
  readers : ReadersKept w
  grants : GrantsKept w
  calls : ∀ e, w.exclusive = some e → CallsKept w e
  cached : w.pending = none → ∀ c, w.cache = some c →
    w.home.readMemoryPolicy c.policy.ownerGeneration = some c.policy

theorem mem_clean {r : Reader} {now : Nat} {key : String × GrantId} :
    key ∈ (r.clean now).revoked ↔ key ∈ r.revoked ∧ now < key.2.expiresAt := by
  unfold Reader.clean
  simp [mem_filter]

variable {expected : Expectation}

theorem valid_iff {r : Reader} {now : Nat} {grant : Grant}
    (h : r.valid now grant expected = true) : grant.readerId = r.readerId ∧ now < grant.expiresAt ∧
      (grant.ownerGeneration, grant.grantId) ∉ r.revoked ∧ grant.conversationId = expected.conversationId := by
  simp only [Reader.valid, Bool.and_eq_true, decide_eq_true_eq, mem_clean] at h
  obtain ⟨⟨⟨⟨⟨⟨⟨⟨hReader, hNow⟩, hRevoked⟩, -⟩, hConv⟩, -⟩, -⟩, -⟩, -⟩ := h
  exact ⟨hReader, hNow, fun hMem => hRevoked ⟨hMem, hNow⟩, hConv⟩

theorem Reader.Shut.shuts {r : Reader} {now : Nat} {retired : List String} {grant : Grant}
    (h : r.Shut now retired grant) : r.Shuts now retired grant := by
  refine ⟨h.stopped, fun hLive expected => Bool.eq_false_iff.mpr fun hValid => ?_⟩
  obtain ⟨hReader, hNow, hRevoked, -⟩ := valid_iff hValid
  obtain hRet | hOther | hExp | hTomb := h.refused
  · exact hLive hRet
  · exact hOther hReader.symm
  · exact absurd hNow (Nat.not_lt.mpr hExp)
  · exact hRevoked hTomb

theorem Kept.safe (h : Kept w) : Safe w where
  current := by
    intro _ expected fenceGeneration readOk hPass
    unfold World.assertCurrent at hPass
    split at hPass
    · cases hPass
    split at hPass
    · cases hPass
    next hPend =>
    have hOther : ∀ p, w.pending = some p → p.change.expectedOwnerGeneration ≠ expected.ownerGeneration := by
      intro p hp hEq
      rw [hp] at hPend
      exact hPend (decide_eq_true hEq)
    refine ⟨?_, hOther⟩
    dsimp only at hPass
    split at hPass
    · next cached hCached =>
      obtain ⟨hCache, hUsable⟩ := Option.filter_eq_some_iff.mp hCached
      rw [Bool.and_eq_true, decide_eq_true_eq, decide_eq_true_eq] at hUsable
      have hNone : w.pending = none := by
        by_contra hSome
        rw [if_pos hSome] at hCache
        cases hCache
      rw [if_neg (not_not_intro hNone)] at hCache
      exact ⟨cached.policy, hUsable.2 ▸ h.cached hNone cached hCache, hPass⟩
    · split at hPass
      · next policy hRead =>
        split at hRead
        · refine ⟨policy, ?_, hPass⟩
          have hHome : ∀ s : World, (if w.pending ≠ none then { w with pending := none, cache := none } else w) = s →
              s.home = w.home := by
            rintro s rfl
            split <;> rfl
          rw [hHome _ rfl] at hRead
          exact hRead
        · cases hRead
      · cases hPass
  shut ownerGeneration n hApplied grant hGrant hGen reader hReader :=
    (h.grants.done ownerGeneration n hApplied grant hGrant hGen reader hReader).shuts

/-! ## Readers -/

section Reader

variable {r : Reader} {now : Nat} {retired : List String} {grant : Grant}

theorem Reader.Shut.mono {now' : Nat} {retired' : List String} (h : r.Shut now retired grant) (hNow : now ≤ now')
    (hRet : retired ⊆ retired') : r.Shut now' retired' grant :=
  ⟨h.stopped, h.refused.imp (fun hMem => hRet hMem) (Or.imp_right (Or.imp_left fun hLe => Nat.le_trans hLe hNow))⟩

theorem Reader.Shut.clean (h : r.Shut now retired grant) : (r.clean now).Shut now retired grant := by
  refine ⟨h.stopped, ?_⟩
  obtain hRet | hOther | hExp | hTomb := h.refused
  · exact .inl hRet
  · exact .inr (.inl hOther)
  · exact .inr (.inr (.inl hExp))
  · by_cases hLive : now < grant.expiresAt
    · exact .inr (.inr (.inr (mem_clean.mpr ⟨hTomb, hLive⟩)))
    · exact .inr (.inr (.inl (Nat.not_lt.mp hLive)))

theorem Reader.Shut.begin (h : r.Shut now retired grant) {request : Nat} {other : Grant} {expected : Expectation}
    (hLive : other.leaseId ∉ retired) : (r.begin now request other expected).Shut now retired grant := by
  unfold Reader.begin
  split
  · next hValid =>
    obtain ⟨hReader, hNow, hRevoked, -⟩ := valid_iff hValid
    refine ⟨fun a ha hGen hId => ?_, h.clean.refused⟩
    obtain hOld | hNew := mem_append.mp ha
    · exact h.stopped a hOld hGen hId
    · obtain rfl := mem_singleton.mp hNew
      obtain ⟨hLease, hReaders, hExpires⟩ := GrantId.mk.inj hId
      obtain hRet | hOther | hExp | hTomb := h.refused
      · exact absurd (hLease ▸ hRet) hLive
      · exact absurd (hReader.symm.trans hReaders) hOther
      · exact absurd hNow (Nat.not_lt.mpr (hExpires ▸ hExp))
      · refine absurd ?_ hRevoked
        rw [show other.grantId = grant.grantId from hId, show other.ownerGeneration = grant.ownerGeneration from hGen]
        exact hTomb
  · exact h.clean

theorem Reader.Shut.release (h : r.Shut now retired grant) (request : Nat) :
    (r.release request).Shut now retired grant :=
  ⟨fun a ha => h.stopped a (mem_filter.mp ha).1, h.refused⟩

variable {ownerGeneration : String} {readerId : Nat} {grants : List GrantId}

theorem mem_active_freeze {a : ActiveRequest}
    (h : a ∈ (r.freeze now ownerGeneration readerId grants).active) : ∃ b ∈ r.active, a.ownerGeneration = b.ownerGeneration ∧
      a.grantId = b.grantId ∧ (b.aborted = true → a.aborted = true) ∧
      (readerId = r.readerId → b.ownerGeneration = ownerGeneration → b.grantId ∈ grants → a.aborted = true) := by
  unfold Reader.freeze at h
  split at h
  · next hOther => exact ⟨a, h, rfl, rfl, id, fun hEq => absurd hEq hOther⟩
  · obtain ⟨b, hb, rfl⟩ := mem_map.mp h
    refine ⟨b, hb, ?_⟩
    split
    · exact ⟨rfl, rfl, fun _ => rfl, fun _ _ _ => rfl⟩
    · next hAway => exact ⟨rfl, rfl, id, fun _ hGen hIn => absurd ⟨hGen, hIn⟩ hAway⟩

@[simp] theorem readerId_freeze :
    (r.freeze now ownerGeneration readerId grants).readerId = r.readerId := by
  unfold Reader.freeze
  split <;> rfl

theorem Reader.Shut.freeze (h : r.Shut now retired grant) :
    (r.freeze now ownerGeneration readerId grants).Shut now retired grant := by
  refine ⟨fun a ha hGeneration hId => ?_, ?_⟩
  · obtain ⟨b, hb, hGenerations, hIds, hKeeps, -⟩ := mem_active_freeze ha
    exact hKeeps (h.stopped b hb (hGenerations ▸ hGeneration) (hIds ▸ hId))
  · rw [readerId_freeze]
    refine h.clean.refused.imp id (Or.imp id (Or.imp id fun hTomb => ?_))
    unfold Reader.freeze
    split
    · exact (mem_clean.mp hTomb).1
    · exact mem_append_left _ hTomb

theorem shut_freeze (hOwn : ∀ a ∈ r.active, a.grantId.readerId = r.readerId)
    (hIn : grant.grantId ∈ grants) : (r.freeze now grant.ownerGeneration grant.readerId grants).Shut now retired grant := by
  refine ⟨fun a ha hGen hId => ?_, ?_⟩
  · obtain ⟨b, hb, hGens, hIds, -, hStops⟩ := mem_active_freeze ha
    have hEq : b.grantId = grant.grantId := hIds.symm.trans hId
    refine hStops ?_ (hGens.symm.trans hGen) (hEq ▸ hIn)
    have := hOwn b hb
    rwa [hEq] at this
  · by_cases hReader : grant.readerId = r.readerId
    · by_cases hLive : now < grant.expiresAt
      · refine .inr (.inr (.inr ?_))
        unfold Reader.freeze
        rw [if_neg (not_not_intro hReader)]
        exact mem_append_right _ (mem_map.mpr ⟨_, mem_filter.mpr ⟨hIn, decide_eq_true hLive⟩, rfl⟩)
      · exact .inr (.inr (.inl (Nat.not_lt.mp hLive)))
    · refine .inr (.inl ?_)
      rw [readerId_freeze]
      exact Ne.symm hReader

end Reader

/-! ## What changes the readers only -/

theorem Kept.tighten (h : Kept w) (hReaders : ReadersKept w') (hRows : w'.rows = w.rows) (hIssued : w'.issued = w.issued)
    (hApplied : w'.applied = w.applied) (hExclusive : w'.exclusive = w.exclusive) (hPend : w'.pending = w.pending)
    (hCache : w'.cache = w.cache) (hHome : w'.home = w.home) (hShut : ∀ grant ∈ w.issued, Shut w grant → Shut w' grant) :
    Kept w' where
  readers := hReaders
  grants := {
    rows := by
      rw [hRows, hIssued]
      exact h.grants.rows
    single := by
      rw [hRows]
      exact h.grants.single
    covered := by
      rw [hIssued]
      exact fun grant hGrant => (h.grants.covered grant hGrant).imp
        (fun ⟨row, hRow, hIs⟩ => ⟨row, hRows ▸ hRow, hIs⟩) (hShut grant hGrant)
    counted := by
      rw [hApplied, hIssued]
      exact h.grants.counted
    done := by
      rw [hApplied, hIssued]
      exact fun ownerGeneration n hAt grant hGrant hGen =>
        hShut grant (mem_of_mem_take hGrant) (h.grants.done ownerGeneration n hAt grant hGrant hGen) }
  calls := by
    rw [hExclusive]
    intro e he
    have hCalls := h.calls e he
    refine ⟨hCalls.named, ?_, ?_, hCalls.answered, ?_⟩
    · rw [hRows]
      exact hCalls.of
    · rw [hIssued]
      exact fun c hc hLanded grant hGrant hGen hAt hIn =>
        hShut grant hGrant (hCalls.landed c hc hLanded grant hGrant hGen hAt hIn)
    · rw [hPend, hRows]
      exact hCalls.pending
  cached := by
    rw [hPend, hCache, hHome]
    exact h.cached

theorem ReadersKept.congr (h : ReadersKept w) (hReaders : w'.readers = w.readers) (hNow : w'.now = w.now)
    (hNext : w'.nextId = w.nextId) (hLatest : ∀ c readerId, InsertionMap.get? w'.latest c = some readerId →
      readerId < w.nextId) (hAsks : ∀ ask ∈ w'.asks, ask.readerId < w.nextId)
    (hIssued : ∀ grant ∈ w'.issued, grant.readerId < w.nextId) : ReadersKept w' := by
  have hReader : ∀ c, w'.reader c = w.reader c := fun c => by rw [World.reader, hReaders]; rfl
  refine ⟨?_, ?_, ?_, hNext ▸ hLatest, hNext ▸ hAsks, hNext ▸ hIssued⟩
  · simpa only [hReader] using h.own
  · simpa only [hReader, hNow] using h.live
  · simpa only [hReader, hNext] using h.known

theorem shut_congr {grant : Grant} (h : Shut w grant) (hReaders : w'.readers = w.readers) (hNow : w'.now = w.now)
    (hRet : w'.retired = w.retired) : Shut w' grant := by
  intro r hr
  rw [World.reader, hReaders] at hr
  rw [hNow, hRet]
  exact h r hr

theorem Kept.aside (h : Kept w) (hReaders : w'.readers = w.readers) (hNow : w'.now = w.now)
    (hNext : w'.nextId = w.nextId) (hRet : w'.retired = w.retired) (hRows : w'.rows = w.rows)
    (hIssued : w'.issued = w.issued) (hApplied : w'.applied = w.applied) (hExclusive : w'.exclusive = w.exclusive)
    (hPend : w'.pending = w.pending) (hCache : w'.cache = w.cache) (hHome : w'.home = w.home)
    (hLatest : ∀ c readerId, InsertionMap.get? w'.latest c = some readerId → readerId < w.nextId)
    (hAsks : ∀ ask ∈ w'.asks, ask.readerId < w.nextId) : Kept w' :=
  h.tighten (h.readers.congr hReaders hNow hNext hLatest hAsks (hIssued ▸ h.readers.issued)) hRows hIssued hApplied hExclusive
    hPend hCache hHome fun _ _ hShut => shut_congr hShut hReaders hNow hRet

variable {c : String}

theorem reader_setReader {c' : String} {r : Reader} :
    (w.setReader c r).reader c' = if c = c' then some r else w.reader c' := by
  unfold World.setReader World.reader
  dsimp only
  split
  · next h => rw [h, InsertionMap.get?_set_self]
  · next h => exact InsertionMap.get?_set_of_ne _ _ h

theorem Kept.setReader (h : Kept w) {r r' : Reader} (hr : w.reader c = some r)
    (hId : r'.readerId = r.readerId) (hOwn : ∀ a ∈ r'.active, a.grantId.readerId = r.readerId)
    (hLive : ∀ a ∈ r'.active, a.aborted = false → w.now < a.grantId.expiresAt + gatewayUpstreamMaxDurationMs)
    (hShut : ∀ grant, r.Shut w.now w.retired grant → r'.Shut w.now w.retired grant) : Kept (w.setReader c r') := by
  refine h.tighten ⟨?_, ?_, ?_, h.readers.latest, h.readers.asks, h.readers.issued⟩ rfl rfl rfl rfl rfl rfl rfl ?_
  · intro c' other hOther
    rw [reader_setReader] at hOther
    split at hOther
    · obtain rfl := Option.some.inj hOther
      exact fun a ha => (hOwn a ha).trans hId.symm
    · exact h.readers.own c' other hOther
  · intro c' other hOther
    rw [reader_setReader] at hOther
    split at hOther
    · obtain rfl := Option.some.inj hOther
      exact hLive
    · exact h.readers.live c' other hOther
  · intro c' other hOther
    rw [reader_setReader] at hOther
    split at hOther
    · obtain rfl := Option.some.inj hOther
      exact hId ▸ h.readers.known c r hr
    · exact h.readers.known c' other hOther
  · intro grant _ hGrant other hOther
    rw [reader_setReader] at hOther
    split at hOther
    · next hAt =>
      obtain rfl := Option.some.inj hOther
      exact hShut grant (hGrant r (hAt ▸ hr))
    · exact hGrant other hOther

theorem Kept.startReader (h : Kept w) (c : String) : Kept (w.startReader c) := by
  have hNew : ∀ c' other, (w.startReader c).reader c' = some other →
      (c = c' ∧ other = { readerId := w.nextId }) ∨ w.reader c' = some other := by
    intro c' other hOther
    change (w.setReader c { readerId := w.nextId }).reader c' = some other at hOther
    rw [reader_setReader] at hOther
    split at hOther
    · next hAt => exact .inl ⟨hAt, (Option.some.inj hOther).symm⟩
    · exact .inr hOther
  refine h.tighten ⟨?_, ?_, ?_, ?_, ?_, ?_⟩ rfl rfl rfl rfl rfl rfl rfl ?_
  · intro c' other hOther
    obtain ⟨-, rfl⟩ | hOld := hNew c' other hOther
    · exact fun a ha => absurd ha not_mem_nil
    · exact h.readers.own c' other hOld
  · intro c' other hOther
    obtain ⟨-, rfl⟩ | hOld := hNew c' other hOther
    · exact fun a ha => absurd ha not_mem_nil
    · exact h.readers.live c' other hOld
  · intro c' other hOther
    obtain ⟨-, rfl⟩ | hOld := hNew c' other hOther
    · exact Nat.lt_succ_self _
    · exact Nat.lt_succ_of_lt (h.readers.known c' other hOld)
  · exact fun c' readerId hAt => Nat.lt_succ_of_lt (h.readers.latest c' readerId hAt)
  · exact fun ask hAsk => Nat.lt_succ_of_lt (h.readers.asks ask hAsk)
  · exact fun grant hGrant => Nat.lt_succ_of_lt (h.readers.issued grant hGrant)
  · intro grant hIssued hGrant other hOther
    obtain ⟨-, rfl⟩ | hOld := hNew _ other hOther
    · exact ⟨fun a ha => absurd ha not_mem_nil, .inr (.inl (Nat.ne_of_gt (h.readers.issued grant hIssued)))⟩
    · exact hGrant other hOld

theorem Kept.freezeAt (h : Kept w) (request : FreezeRequest) : Kept (w.freezeAt request) := by
  unfold World.freezeAt
  split
  · next r hr =>
    refine h.setReader hr readerId_freeze (fun a ha => ?_) (fun a ha hRuns => ?_) fun grant hGrant => hGrant.freeze
    · obtain ⟨b, hb, -, hIds, -, -⟩ := mem_active_freeze ha
      rw [hIds]
      exact h.readers.own _ r hr b hb
    · obtain ⟨b, hb, -, hIds, hKeeps, -⟩ := mem_active_freeze ha
      rw [hIds]
      refine h.readers.live _ r hr b hb (Bool.eq_false_iff.mpr fun hStopped => ?_)
      rw [hKeeps hStopped] at hRuns
      cases hRuns
  · exact h.startReader _

theorem shut_freezeAt (h : Kept w) {request : FreezeRequest} {grant : Grant} (hIssued : grant ∈ w.issued)
    (hGen : grant.ownerGeneration = request.ownerGeneration)
    (hConv : grant.conversationId = request.conversationId) (hReader : grant.readerId = request.readerId)
    (hIn : grant.grantId ∈ request.grants) : Shut (w.freezeAt request) grant := by
  unfold World.freezeAt
  split
  · next r hr =>
    intro other hOther
    rw [reader_setReader, if_pos hConv.symm] at hOther
    obtain rfl := Option.some.inj hOther
    rw [← hGen, ← hReader]
    exact shut_freeze (h.readers.own _ r hr) hIn
  · intro other hOther
    change (w.setReader request.conversationId { readerId := w.nextId }).reader grant.conversationId = some other at hOther
    rw [reader_setReader, if_pos hConv.symm] at hOther
    obtain rfl := Option.some.inj hOther
    exact ⟨fun a ha => absurd ha not_mem_nil, .inr (.inl (Nat.ne_of_gt (h.readers.issued grant hIssued)))⟩

/-! ## Rows -/

theorem GrantsKept.rewrite (h : GrantsKept w) (hIssued : w'.issued = w.issued) (hApplied : w'.applied = w.applied)
    (hShut : ∀ grant ∈ w.issued, Shut w grant → Shut w' grant)
    (hRows : ∀ row' ∈ w'.rows, ∃ row ∈ w.rows, row'.grant = row.grant)
    (hOpen : ∀ row ∈ w.rows, row.state ≠ .revoked → Open w' row.grant ∨ Shut w' row.grant) : GrantsKept w' where
  rows row' hRow' := by
    obtain ⟨row, hRow, hEq⟩ := hRows row' hRow'
    rw [hEq, hIssued]
    exact h.rows row hRow
  single row₁ hRow₁ row₂ hRow₂ hId := by
    obtain ⟨row, hRow, hEq⟩ := hRows row₁ hRow₁
    obtain ⟨other, hOther, hEq'⟩ := hRows row₂ hRow₂
    rw [hEq, hEq'] at hId ⊢
    exact h.single row hRow other hOther hId
  covered grant hGrant := by
    rw [hIssued] at hGrant
    obtain ⟨row, hRow, rfl, hSt⟩ | hOld := h.covered grant hGrant
    · exact hOpen row hRow hSt
    · exact .inr (hShut grant hGrant hOld)
  counted := by
    rw [hApplied, hIssued]
    exact h.counted
  done := by
    rw [hApplied, hIssued]
    exact fun ownerGeneration n hAt grant hGrant hGen =>
      hShut grant (mem_of_mem_take hGrant) (h.done ownerGeneration n hAt grant hGrant hGen)

theorem shut_of_expired (h : ReadersKept w) {grant : Grant}
    (hOver : grant.expiresAt + gatewayUpstreamMaxDurationMs ≤ w.now) : Shut w grant := by
  intro r hr
  refine ⟨fun a ha _ hId => ?_, .inr (.inr (.inl (Nat.le_trans (Nat.le_add_right _ _) hOver)))⟩
  cases hAborted : a.aborted with
  | true => rfl
  | false =>
    have hLive := h.live _ r hr a ha hAborted
    rw [hId] at hLive
    exact absurd hLive (Nat.not_lt.mpr hOver)

variable {e : Revocation}

theorem CallsKept.shrink (h : CallsKept w e) (hIssued : w'.issued = w.issued) (hPend : w'.pending = w.pending)
    (hShut : ∀ grant ∈ w.issued, Shut w grant → Shut w' grant) (hRows : w'.rows ⊆ w.rows) : CallsKept w' e where
  named := h.named
  of c hc row hRow := h.of c hc row (hRows hRow)
  landed c hc hLanded grant hGrant hGen hAt hIn :=
    hShut grant (hIssued ▸ hGrant) (h.landed c hc hLanded grant (hIssued ▸ hGrant) hGen hAt hIn)
  answered := h.answered
  pending hChg := by
    obtain ⟨p, hp, hPh, hAll⟩ := h.pending hChg
    exact ⟨p, hPend ▸ hp, hPh, fun row hRow => hAll row (hRows hRow)⟩

theorem Kept.retireExpired (h : Kept w) : Kept w.retireExpired where
  readers := h.readers.congr rfl rfl rfl h.readers.latest h.readers.asks h.readers.issued
  grants := by
    refine h.grants.rewrite rfl rfl (fun grant _ hShut => shut_congr hShut rfl rfl rfl)
      (fun row hRow => ⟨row, (mem_filter.mp hRow).1, rfl⟩) fun row hRow hSt => ?_
    by_cases hLive : w.now < row.grant.expiresAt + gatewayUpstreamMaxDurationMs
    · exact .inl ⟨row, mem_filter.mpr ⟨hRow, decide_eq_true hLive⟩, rfl, hSt⟩
    · exact .inr (shut_congr (shut_of_expired h.readers (Nat.not_lt.mp hLive)) rfl rfl rfl)
  calls e he := (h.calls e he).shrink rfl rfl (fun grant _ hShut => shut_congr hShut rfl rfl rfl)
    fun row hRow => (mem_filter.mp hRow).1
  cached := h.cached

theorem Kept.retireExactTurnLease (h : Kept w) {ownerGeneration turnId leaseId : String}
    (hOver : w.readers.all (fun e => e.2.active.all (fun a => a.aborted || a.grantId.leaseId ≠ leaseId)) = true) :
    Kept (w.retireExactTurnLease ownerGeneration turnId leaseId) := by
  have hKept := h.retireExpired
  have hShut : ∀ grant ∈ w.issued, Shut w grant → Shut (w.retireExactTurnLease ownerGeneration turnId leaseId) grant :=
    fun grant _ hGrant r hr => (hGrant r hr).mono (Nat.le_refl _) (subset_append_left _ _)
  have hRows : (w.retireExactTurnLease ownerGeneration turnId leaseId).rows ⊆ w.retireExpired.rows :=
    fun row hRow => (mem_filter.mp hRow).1
  refine ⟨h.readers.congr rfl rfl rfl h.readers.latest h.readers.asks h.readers.issued, ?_,
    fun e he => (hKept.calls e he).shrink rfl rfl hShut hRows, h.cached⟩
  refine hKept.grants.rewrite rfl rfl hShut (fun row hRow => ⟨row, hRows hRow, rfl⟩) fun row hRow hSt => ?_
  by_cases hLease : row.grant.leaseId = leaseId
  · refine .inr fun r hr => ⟨fun a ha _ hId => ?_, .inl ?_⟩
    · have := all_eq_true.mp (all_eq_true.mp hOver _ (InsertionMap.mem_of_get? hr)) a ha
      have hEq : a.grantId.leaseId = leaseId := hId ▸ hLease
      simpa [hEq] using this
    · exact mem_append_right _ (mem_singleton.mpr hLease)
  · refine .inl ⟨row, mem_filter.mpr ⟨hRow, ?_⟩, rfl, hSt⟩
    simp [hLease]

/-! ## Revocation -/

variable {id : GrantId}

theorem mem_freezeRequests {targets : List GrantRow} {request : FreezeRequest} (h : request ∈ World.freezeRequests targets)
    (hId : id ∈ request.grants) : ∃ row ∈ targets, row.grant.grantId = id ∧
      row.grant.ownerGeneration = request.ownerGeneration ∧ row.grant.conversationId = request.conversationId ∧
      row.grant.readerId = request.readerId := by
  obtain ⟨key, -, rfl⟩ := mem_map.mp h
  obtain ⟨row, hRow, rfl⟩ := mem_map.mp hId
  obtain ⟨hTarget, hKey⟩ := mem_filter.mp hRow
  obtain rfl : World.freezeKey row = key := of_decide_eq_true hKey
  exact ⟨row, hTarget, rfl, rfl, rfl, rfl⟩

theorem exists_freezeRequest {targets : List GrantRow} {row : GrantRow} (h : row ∈ targets) :
    ∃ request ∈ World.freezeRequests targets, row.grant.grantId ∈ request.grants := by
  refine ⟨_, mem_map.mpr ⟨World.freezeKey row, mem_dedup.mpr (mem_map_of_mem h), rfl⟩, ?_⟩
  exact mem_map.mpr ⟨row, mem_filter.mpr ⟨h, decide_eq_true rfl⟩, rfl⟩

theorem Kept.revokeAll (h : Kept w) {ownerGeneration : Option String} {purpose : Purpose}
    (hPurpose : purpose = .change → ∃ p, w.pending = some p ∧ p.phase = .applying ∧
      ownerGeneration = some p.change.expectedOwnerGeneration) : Kept (w.revokeAll ownerGeneration purpose) := by
  have hKept := h.retireExpired
  have hShut : ∀ grant ∈ w.issued, Shut w grant → Shut (w.revokeAll ownerGeneration purpose) grant :=
    fun grant _ hGrant => shut_congr hGrant rfl rfl rfl
  have hBack : ∀ row' ∈ (w.revokeAll ownerGeneration purpose).rows, ∃ row ∈ w.retireExpired.rows,
      row' = if World.target ownerGeneration row then { row with state := .revoking } else row := by
    intro row' hRow'
    obtain ⟨row, hRow, rfl⟩ := mem_map.mp hRow'
    exact ⟨row, hRow, rfl⟩
  have hGrant : ∀ row : GrantRow, (if World.target ownerGeneration row then { row with state := .revoking } else row).grant =
      row.grant := fun row => by split <;> rfl
  refine ⟨h.readers.congr rfl rfl rfl h.readers.latest h.readers.asks h.readers.issued, ?_, ?_, h.cached⟩
  · refine hKept.grants.rewrite rfl rfl hShut (fun row' hRow' => ?_) fun row hRow hSt => .inl ?_
    · obtain ⟨row, hRow, rfl⟩ := hBack row' hRow'
      exact ⟨row, hRow, hGrant row⟩
    · refine ⟨_, mem_map.mpr ⟨row, hRow, rfl⟩, hGrant row, ?_⟩
      split
      · nofun
      · exact hSt
  · intro e he
    obtain rfl := Option.some.inj he
    have hCall : ∀ c ∈ ((World.freezeRequests (w.retireExpired.rows.filter (World.target ownerGeneration))).map
        (fun request => (⟨request, false, none⟩ : FreezeCall))),
        c.request ∈ World.freezeRequests (w.retireExpired.rows.filter (World.target ownerGeneration)) ∧
          c.landed = false ∧ c.settled = none := by
      intro c hc
      obtain ⟨request, hReq, rfl⟩ := mem_map.mp hc
      exact ⟨hReq, rfl, rfl⟩
    refine ⟨fun c hc id hId => ?_, fun c hc row' hRow' hId => ?_, fun c hc hLanded => ?_, fun c hc hSettled => ?_,
      fun hChg => ?_⟩
    · obtain ⟨row, -, rfl, -, -, hReader⟩ := mem_freezeRequests (hCall c hc).1 hId
      exact hReader
    · obtain ⟨row, hRow, rfl⟩ := hBack row' hRow'
      rw [hGrant] at hId ⊢
      obtain ⟨other, hOther, hEq, hGen, hConv, -⟩ := mem_freezeRequests (hCall c hc).1 hId
      rw [hKept.grants.single row hRow other (mem_filter.mp hOther).1 hEq.symm]
      exact ⟨hGen, hConv⟩
    · rw [(hCall c hc).2.1] at hLanded
      cases hLanded
    · rw [(hCall c hc).2.2] at hSettled
      cases hSettled
    · obtain ⟨p, hp, hPh, rfl⟩ := hPurpose hChg
      refine ⟨p, hp, hPh, fun row' hRow' hSt hGen => ?_⟩
      obtain ⟨row, hRow, rfl⟩ := hBack row' hRow'
      rw [hGrant] at hGen ⊢
      have hTgt : World.target (some p.change.expectedOwnerGeneration) row = true := by
        by_contra hNot
        rw [if_neg hNot] at hSt
        simp [World.target, hSt, hGen] at hNot
      obtain ⟨request, hReq, hIn⟩ := exists_freezeRequest (mem_filter.mpr ⟨hRow, hTgt⟩)
      exact ⟨_, mem_map.mpr ⟨request, hReq, rfl⟩, hIn⟩

theorem Kept.leave (h : Kept w) (e : Revocation) : Kept (w.leave e) where
  readers := h.readers.congr rfl rfl rfl h.readers.latest h.readers.asks h.readers.issued
  grants := h.grants.rewrite rfl rfl (fun _ _ hShut => shut_congr hShut rfl rfl rfl) (fun row hRow => ⟨row, hRow, rfl⟩)
    fun row hRow hSt => .inl ⟨row, hRow, rfl, hSt⟩
  calls := nofun
  cached := h.cached

theorem mem_frozenIds :
    id ∈ World.frozenIds e ↔ ∃ c ∈ e.calls, c.settled = some true ∧ id ∈ c.request.grants := by
  simp [World.frozenIds, and_assoc]

theorem Kept.markRevoked (h : Kept w) (hCalls : CallsKept w e) :
    Kept ((w.leave e).markRevoked e) := by
  have hLeft := h.leave e
  refine ⟨h.readers.congr rfl rfl rfl h.readers.latest h.readers.asks h.readers.issued, ?_, nofun, h.cached⟩
  refine hLeft.grants.rewrite rfl rfl (fun grant _ hShut => shut_congr hShut rfl rfl rfl) (fun row' hRow' => ?_)
    fun row hRow hSt => ?_
  · obtain ⟨row, hRow, rfl⟩ := mem_map.mp hRow'
    exact ⟨row, hRow, by split <;> rfl⟩
  · by_cases hFrozen : row.grant.grantId ∈ World.frozenIds e
    · obtain ⟨c, hc, hSettled, hIn⟩ := mem_frozenIds.mp hFrozen
      obtain ⟨hGen, hConv⟩ := hCalls.of c hc row hRow hIn
      have hShut := hCalls.landed c hc (hCalls.answered c hc hSettled) row.grant (h.grants.rows row hRow) hGen
        hConv hIn
      exact .inr (shut_congr hShut rfl rfl rfl)
    · exact .inl ⟨row, mem_map.mpr ⟨row, hRow, if_neg hFrozen⟩, rfl, hSt⟩

theorem closed_markRevoked {p : PendingChange}
    (hAll : ∀ row ∈ w.rows, row.state ≠ .revoked → row.grant.ownerGeneration = p.change.expectedOwnerGeneration →
      ∃ c ∈ e.calls, row.grant.grantId ∈ c.request.grants)
    (hAnswered : ∀ c ∈ e.calls, c.settled = some true) : ∀ row ∈ ((w.leave e).markRevoked e).rows,
      row.state ≠ .revoked → row.grant.ownerGeneration ≠ p.change.expectedOwnerGeneration := by
  intro row' hRow' hSt hGen
  obtain ⟨row, hRow, rfl⟩ := mem_map.mp hRow'
  split at hSt
  · exact hSt rfl
  · next hNot =>
    rw [if_neg hNot] at hGen
    obtain ⟨c, hc, hIn⟩ := hAll row hRow hSt hGen
    exact hNot (mem_frozenIds.mpr ⟨c, hc, hAnswered c hc, hIn⟩)

/-! ## Changes -/

theorem Kept.home (h : Kept w) (hReaders : w'.readers = w.readers) (hNow : w'.now = w.now) (hNext : w'.nextId = w.nextId)
    (hLatest : w'.latest = w.latest) (hAsks : w'.asks = w.asks) (hRet : w'.retired = w.retired) (hRows : w'.rows = w.rows)
    (hIssued : w'.issued = w.issued) (hApplied : w'.applied = w.applied) (hExclusive : w'.exclusive = none)
    (hCached : w'.pending = none → ∀ c, w'.cache = some c →
      w'.home.readMemoryPolicy c.policy.ownerGeneration = some c.policy) : Kept w' where
  readers := h.readers.congr hReaders hNow hNext (hLatest ▸ h.readers.latest) (hAsks ▸ h.readers.asks)
    (hIssued ▸ h.readers.issued)
  grants := h.grants.rewrite hIssued hApplied (fun grant _ hShut => shut_congr hShut hReaders hNow hRet)
    (fun row hRow => ⟨row, hRows ▸ hRow, rfl⟩) fun row hRow hSt => .inl ⟨row, hRows ▸ hRow, rfl, hSt⟩
  calls e he := by
    rw [hExclusive] at he
    cases he
  cached := hCached

theorem readMemoryPolicy_ownerGeneration {home : Home} {ownerGeneration : String} {policy : MemoryPolicy}
    (h : home.readMemoryPolicy ownerGeneration = some policy) : policy.ownerGeneration = ownerGeneration := by
  unfold Home.readMemoryPolicy at h
  split at h
  · cases h
  · obtain rfl := Option.some.inj h
    rfl

theorem Kept.settle (h : Kept w) (hNone : w.exclusive = none) (ownerGeneration : String) (readOk : Bool) :
    Kept (w.settle ownerGeneration readOk) := by
  unfold World.settle
  split
  · next policy hRead =>
    split at hRead
    · refine h.home rfl rfl rfl rfl rfl rfl rfl rfl rfl hNone fun _ c hc => ?_
      obtain rfl := Option.some.inj hc
      exact (readMemoryPolicy_ownerGeneration hRead).symm ▸ hRead
    · cases hRead
  · exact h

theorem Kept.apply (h : Kept w) {change : MemoryPolicyChange} {home : Home} (hNone : w.exclusive = none)
    (hPend : w.pending ≠ none)
    (hClosed : ∀ row ∈ w.rows, row.state ≠ .revoked → row.grant.ownerGeneration ≠ change.expectedOwnerGeneration) :
    Kept (w.apply change home) where
  readers := h.readers.congr rfl rfl rfl h.readers.latest h.readers.asks h.readers.issued
  grants := {
    rows := h.grants.rows
    single := h.grants.single
    covered := fun _ hGrant => (h.grants.covered _ hGrant).imp id fun hShut => shut_congr hShut rfl rfl rfl
    counted := fun ownerGeneration n hAt => by
      obtain hOld | hNew := mem_append.mp hAt
      · exact h.grants.counted ownerGeneration n hOld
      · obtain ⟨-, rfl⟩ := Prod.mk.inj (mem_singleton.mp hNew)
        exact Nat.le_refl _
    done := fun ownerGeneration n hAt grant hGrant hGen => by
      obtain hOld | hNew := mem_append.mp hAt
      · exact shut_congr (h.grants.done ownerGeneration n hOld grant hGrant hGen) rfl rfl rfl
      · obtain ⟨rfl, rfl⟩ := Prod.mk.inj (mem_singleton.mp hNew)
        obtain ⟨row, hRow, rfl, hSt⟩ | hShut := h.grants.covered grant (mem_of_mem_take hGrant)
        · exact absurd hGen (hClosed row hRow hSt)
        · exact shut_congr hShut rfl rfl rfl }
  calls e he := absurd (hNone.symm.trans he) nofun
  cached hPolicy := absurd hPolicy hPend

theorem Kept.finish (h : Kept w) {change : MemoryPolicyChange} {outcome : World.Outcome} {readOk : Bool}
    (hNone : w.exclusive = none) (hPend : w.pending ≠ none)
    (hClosed : ∀ row ∈ w.rows, row.state ≠ .revoked → row.grant.ownerGeneration ≠ change.expectedOwnerGeneration) :
    Kept (w.finish change outcome readOk) := by
  unfold World.finish
  split
  · exact h
  · exact h
  · exact h.apply hNone hPend hClosed
  · exact h.home rfl rfl rfl rfl rfl rfl rfl rfl rfl hNone nofun
  · next home _ =>
    have hApplied : Kept (w.apply change home) := h.apply hNone hPend hClosed
    split
    · exact hApplied.home rfl rfl rfl rfl rfl rfl rfl rfl rfl hNone nofun
    · exact hApplied.settle hNone _ _

theorem Kept.finishWiping (h : Kept w) (hNone : w.exclusive = none) (change : MemoryPolicyChange) (readOk : Bool) :
    Kept (w.finishWiping change readOk) := by
  unfold World.finishWiping
  split
  · split
    · split
      · exact h
      · exact h.settle hNone _ _
    · exact h.settle hNone _ _
  · exact h

theorem Kept.change (h : Kept w) (hNone : w.exclusive = none) (change : MemoryPolicyChange) : Kept (w.change change) := by
  unfold World.change
  split
  · exact h
  split
  · exact h
  · have hIntent : Kept { w with pending := some ⟨change, .applying⟩ } :=
      h.home rfl rfl rfl rfl rfl rfl rfl rfl rfl hNone nofun
    exact hIntent.revokeAll fun _ => ⟨_, rfl, rfl, rfl⟩

theorem Kept.retry (h : Kept w) (hNone : w.exclusive = none) (readOk : Bool) : Kept (w.retry readOk) := by
  unfold World.retry
  split
  · exact h
  · next change hPend => exact h.revokeAll fun _ => ⟨_, hPend, rfl, rfl⟩
  · exact h.finishWiping hNone _ _

theorem Kept.settled (h : Kept w) (he : w.exclusive = some e) (outcome : World.Outcome) (readOk : Bool)
    (hAll : ∀ c ∈ e.calls, c.settled ≠ none) : Kept (w.settled e outcome readOk) := by
  have hCalls := h.calls e he
  have hMarked := h.markRevoked hCalls
  unfold World.settled
  dsimp only
  split
  · exact hMarked
  next hNoneFailed =>
  have hAnswered : ∀ c ∈ e.calls, c.settled = some true := by
    intro c hc
    cases hSettled : c.settled with
    | none => exact absurd hSettled (hAll c hc)
    | some ok =>
      cases ok with
      | true => rfl
      | false => exact absurd (any_eq_true.mpr ⟨c, hc, decide_eq_true hSettled⟩) hNoneFailed
  split
  · next p hPurpose hPend =>
    obtain ⟨q, hq, -, hOpen⟩ := hCalls.pending hPurpose
    obtain rfl : q = p := Option.some.inj (hq.symm.trans hPend)
    exact hMarked.finish rfl (by rw [hPend]; nofun) (closed_markRevoked hOpen hAnswered)
  · exact hMarked
  · split
    · exact hMarked.home rfl rfl rfl rfl rfl rfl rfl rfl rfl rfl hMarked.cached
    · exact hMarked

/-! ## Admission -/

theorem Kept.assertCurrent (h : Kept w) (hNone : w.exclusive = none) (expected : MemoryPolicy) (fenceGeneration : String)
    (readOk : Bool) : Kept (w.assertCurrent expected fenceGeneration readOk).1 ∧
      (w.assertCurrent expected fenceGeneration readOk).1.exclusive = none := by
  unfold World.assertCurrent
  split
  · exact ⟨h, hNone⟩
  split
  · exact ⟨h, hNone⟩
  dsimp only
  have hSettled : Kept (if w.pending ≠ none then { w with pending := none, cache := none } else w) ∧
      (if w.pending ≠ none then { w with pending := none, cache := none } else w).exclusive = none := by
    split
    · exact ⟨h.home rfl rfl rfl rfl rfl rfl rfl rfl rfl hNone nofun, hNone⟩
    · exact ⟨h, hNone⟩
  generalize (if w.pending ≠ none then { w with pending := none, cache := none } else w) = s at hSettled ⊢
  split
  · exact hSettled
  · split
    · next policy hRead =>
      refine ⟨hSettled.1.home rfl rfl rfl rfl rfl rfl rfl rfl rfl hSettled.2 fun _ c hc => ?_, hSettled.2⟩
      obtain rfl := Option.some.inj hc
      split at hRead
      · exact (readMemoryPolicy_ownerGeneration hRead).symm ▸ hRead
      · cases hRead
    · exact hSettled

theorem record_none (h : w.record id = none) : ∀ row ∈ w.rows, row.grant.grantId ≠ id := by
  intro row hRow hId
  exact find?_eq_none.mp h row hRow (decide_eq_true hId)

theorem Kept.issueGrant (h : Kept w) (hNone : w.exclusive = none) {grant : Grant} (hReader : grant.readerId < w.nextId) :
    Kept (w.issueGrant grant).1 := by
  have hKept := h.retireExpired
  unfold World.issueGrant
  dsimp only
  split
  · exact hKept
  split
  · exact hKept
  split
  · exact hKept
  split
  · exact hKept
  next hRec =>
  have hNew := record_none hRec
  refine ⟨h.readers.congr rfl rfl rfl h.readers.latest h.readers.asks fun other hOther => ?_, ?_,
    fun e he => absurd (hNone.symm.trans he) (by simp), h.cached⟩
  · obtain hOld | hIs := mem_append.mp hOther
    · exact h.readers.issued other hOld
    · exact mem_singleton.mp hIs ▸ hReader
  · refine ⟨fun row hRow => ?_, fun row hRow row' hRow' hId => ?_, fun other hOther => ?_, fun ownerGeneration n hAt => ?_,
      fun ownerGeneration n hAt other hOther hGen => ?_⟩
    · obtain hOld | hIs := mem_append.mp hRow
      · exact mem_append_left _ (hKept.grants.rows row hOld)
      · exact mem_append_right _ (mem_singleton.mpr (mem_singleton.mp hIs ▸ rfl))
    · obtain hOld | hIs := mem_append.mp hRow
      · obtain hOld' | hIs' := mem_append.mp hRow'
        · exact hKept.grants.single row hOld row' hOld' hId
        · rw [mem_singleton.mp hIs'] at hId
          exact absurd hId (hNew row hOld)
      · obtain hOld' | hIs' := mem_append.mp hRow'
        · rw [mem_singleton.mp hIs] at hId
          exact absurd hId.symm (hNew row' hOld')
        · rw [mem_singleton.mp hIs, mem_singleton.mp hIs']
    · obtain hOld | hIs := mem_append.mp hOther
      · obtain ⟨row, hRow, hEq⟩ | hShut := hKept.grants.covered other hOld
        · exact .inl ⟨row, mem_append_left _ hRow, hEq⟩
        · exact .inr (shut_congr hShut rfl rfl rfl)
      · refine .inl ⟨⟨grant, .active⟩, mem_append_right _ (mem_singleton.mpr rfl),
          (mem_singleton.mp hIs).symm, by simp⟩
    · refine Nat.le_trans (h.grants.counted ownerGeneration n hAt) ?_
      rw [length_append]
      exact Nat.le_add_right _ _
    · change other ∈ (w.issued ++ [grant]).take n at hOther
      rw [take_append_of_le_length (h.grants.counted ownerGeneration n hAt)] at hOther
      exact shut_congr (h.grants.done ownerGeneration n hAt other hOther hGen) rfl rfl rfl

theorem nextId_assertCurrent (w : World) (expected : MemoryPolicy) (fenceGeneration : String) (readOk : Bool) :
    (w.assertCurrent expected fenceGeneration readOk).1.nextId = w.nextId := by
  unfold World.assertCurrent
  split
  · rfl
  split
  · rfl
  dsimp only
  split
  · split <;> rfl
  · split <;> split <;> rfl

theorem nextId_issueGrant (w : World) (grant : Grant) : (w.issueGrant grant).1.nextId = w.nextId := by
  unfold World.issueGrant
  dsimp only
  split
  · rfl
  split
  · rfl
  split
  · rfl
  split <;> rfl

theorem nextId_issueModelGrant (w : World) (expected : Expectation) (readerId expiresAt : Nat) (leaseOk readOk : Bool) :
    (w.issueModelGrant expected readerId expiresAt leaseOk readOk).1.nextId = w.nextId := by
  have hAsserted := nextId_assertCurrent w expected.memoryPolicy expected.fenceGeneration readOk
  unfold World.issueModelGrant
  split
  · rfl
  dsimp only
  split
  · exact hAsserted
  · exact (nextId_issueGrant _ _).trans hAsserted

theorem Kept.issueModelGrant (h : Kept w) (hNone : w.exclusive = none) {readerId : Nat}
    (hReader : readerId < w.nextId) (expiresAt : Nat) (leaseOk readOk : Bool) :
    Kept (w.issueModelGrant expected readerId expiresAt leaseOk readOk).1 := by
  unfold World.issueModelGrant
  split
  · exact h
  obtain ⟨hAsserted, hIdle⟩ := h.assertCurrent hNone expected.memoryPolicy expected.fenceGeneration readOk
  have hNext := nextId_assertCurrent w expected.memoryPolicy expected.fenceGeneration readOk
  dsimp only
  generalize w.assertCurrent expected.memoryPolicy expected.fenceGeneration readOk = asserted at hAsserted hIdle hNext ⊢
  split
  · exact hAsserted
  · have hLatest : Kept { asserted.1 with
        latest := InsertionMap.set asserted.1.latest expected.conversationId readerId } := by
      refine hAsserted.aside rfl rfl rfl rfl rfl rfl rfl rfl rfl rfl rfl (fun c other hAt => ?_) hAsserted.readers.asks
      by_cases hEq : expected.conversationId = c
      · subst hEq
        rw [InsertionMap.get?_set_self] at hAt
        exact Option.some.inj hAt ▸ hNext ▸ hReader
      · rw [InsertionMap.get?_set_of_ne _ _ hEq] at hAt
        exact hAsserted.readers.latest c other hAt
    refine hLatest.issueGrant hIdle ?_
    rw [show World.nextId { asserted.1 with
        latest := InsertionMap.set asserted.1.latest expected.conversationId readerId } = w.nextId from hNext]
    exact hReader

/-! ## Steps -/

theorem Kept.modifyCall (h : Kept w) (k : Nat) (f : FreezeCall → FreezeCall)
    (hCalls : ∀ e, w.exclusive = some e → CallsKept w { e with calls := e.calls.modify k f }) :
    Kept (w.modifyCall k f) where
  readers := h.readers.congr rfl rfl rfl h.readers.latest h.readers.asks h.readers.issued
  grants := h.grants.rewrite rfl rfl (fun _ _ hShut => shut_congr hShut rfl rfl rfl) (fun row hRow => ⟨row, hRow, rfl⟩)
    fun row hRow hSt => .inl ⟨row, hRow, rfl, hSt⟩
  calls e' he' := by
    obtain ⟨e, he, rfl⟩ := Option.map_eq_some_iff.mp he'
    exact (hCalls e he).shrink rfl rfl (fun _ _ hShut => shut_congr hShut rfl rfl rfl) (List.Subset.refl _)
  cached := h.cached

theorem CallsKept.modify (h : CallsKept w e) {k : Nat} {f : FreezeCall → FreezeCall}
    (hReq : ∀ c, (f c).request = c.request)
    (hLanded : ∀ c, e.calls[k]? = some c → (f c).landed = true → c.landed = true ∨ ∀ grant ∈ w.issued,
      grant.ownerGeneration = c.request.ownerGeneration → grant.conversationId = c.request.conversationId →
        grant.grantId ∈ c.request.grants → Shut w grant)
    (hAnswered : ∀ c, (c.settled = some true → c.landed = true) → (f c).settled = some true → (f c).landed = true) :
    CallsKept w { e with calls := e.calls.modify k f } := by
  have hMem : ∀ c' ∈ e.calls.modify k f, c' ∈ e.calls ∨ ∃ c, e.calls[k]? = some c ∧ c ∈ e.calls ∧ c' = f c := by
    intro c' hc'
    obtain ⟨i, hi⟩ := mem_iff_getElem?.mp hc'
    rw [getElem?_modify] at hi
    obtain ⟨c, hc, hEq⟩ := Option.map_eq_some_iff.mp hi
    split at hEq
    · next hAt => exact .inr ⟨c, hAt ▸ hc, mem_of_getElem? hc, hEq.symm⟩
    · exact .inl (hEq ▸ mem_of_getElem? hc)
  refine ⟨fun c' hc' => ?_, fun c' hc' => ?_, fun c' hc' hAt => ?_, fun c' hc' hAt => ?_, fun hChg => ?_⟩
  · obtain hOld | ⟨c, -, hc, rfl⟩ := hMem c' hc'
    · exact h.named c' hOld
    · rw [hReq]
      exact h.named c hc
  · obtain hOld | ⟨c, -, hc, rfl⟩ := hMem c' hc'
    · exact h.of c' hOld
    · rw [hReq]
      exact h.of c hc
  · obtain hOld | ⟨c, hk, hc, rfl⟩ := hMem c' hc'
    · exact h.landed c' hOld hAt
    · rw [hReq]
      exact (hLanded c hk hAt).elim (h.landed c hc) id
  · obtain hOld | ⟨c, -, hc, rfl⟩ := hMem c' hc'
    · exact h.answered c' hOld hAt
    · exact hAnswered c (h.answered c hc) hAt
  · obtain ⟨p, hp, hPh, hAll⟩ := h.pending hChg
    refine ⟨p, hp, hPh, fun row hRow hSt hGen => ?_⟩
    obtain ⟨c, hc, hIn⟩ := hAll row hRow hSt hGen
    obtain ⟨i, hi⟩ := mem_iff_getElem?.mp hc
    have hi' : (e.calls.modify k f)[i]? = some (if k = i then f c else c) := by
      rw [getElem?_modify, hi]
      rfl
    refine ⟨_, mem_of_getElem? hi', ?_⟩
    split
    · rw [hReq]
      exact hIn
    · exact hIn

theorem exclusive_freezeAt (w : World) (request : FreezeRequest) : (w.freezeAt request).exclusive = w.exclusive := by
  unfold World.freezeAt
  split <;> rfl

theorem issued_freezeAt (w : World) (request : FreezeRequest) : (w.freezeAt request).issued = w.issued := by
  unfold World.freezeAt
  split <;> rfl

theorem Kept.freezeLands (h : Kept w) (he : w.exclusive = some e) {k : Nat} {call : FreezeCall}
    (hCall : e.calls[k]? = some call) :
    Kept ((w.freezeAt call.request).modifyCall k (fun c => { c with landed := true })) := by
  have hFrozen := h.freezeAt call.request
  refine hFrozen.modifyCall k _ fun e' he' => ?_
  rw [exclusive_freezeAt, he] at he'
  obtain rfl := Option.some.inj he'
  have hCalls := hFrozen.calls e (by rw [exclusive_freezeAt, he])
  refine hCalls.modify (fun _ => rfl) (fun c hc _ => .inr fun grant hGrant hGen hConv hIn => ?_)
    fun _ _ _ => rfl
  obtain rfl := Option.some.inj (hCall.symm.trans hc)
  rw [issued_freezeAt] at hGrant
  have hReader : grant.readerId = call.request.readerId := hCalls.named call (mem_of_getElem? hCall) _ hIn
  exact shut_freezeAt h hGrant hGen hConv hReader hIn

theorem Kept.freezeSettles (h : Kept w) (k : Nat) (ok : Bool) :
    Kept (w.modifyCall k (fun c => { c with settled := c.settled.or (some (ok && c.landed)) })) := by
  refine h.modifyCall k _ fun e he => (h.calls e he).modify (fun _ => rfl) (fun _ _ hLanded => .inl hLanded) ?_
  intro c hOld hSettled
  dsimp only at hSettled ⊢
  cases hBef : c.settled with
  | some ok' =>
    rw [hBef, Option.some_or] at hSettled
    exact hOld (hBef.trans hSettled)
  | none =>
    rw [hBef, Option.none_or] at hSettled
    exact (Bool.and_eq_true_iff.mp (Option.some.inj hSettled)).2

theorem Kept.begin (h : Kept w) {r : Reader} (hr : w.reader c = some r) {request : Nat} {grant : Grant}
    (hLive : grant.leaseId ∉ w.retired) :
    Kept (w.setReader c (r.begin w.now request grant expected)) := by
  have hBegun : (r.begin w.now request grant expected).readerId = r.readerId := by
    unfold Reader.begin
    split <;> rfl
  have hActive : ∀ a ∈ (r.begin w.now request grant expected).active, a ∈ r.active ∨
      (a.grantId.readerId = r.readerId ∧ w.now < a.grantId.expiresAt) := by
    intro a ha
    unfold Reader.begin at ha
    split at ha
    · next hValid =>
      obtain ⟨hReader, hNow, -⟩ := valid_iff hValid
      refine (mem_append.mp ha).imp id fun hNew => ?_
      obtain rfl := mem_singleton.mp hNew
      exact ⟨hReader, hNow⟩
    · exact Or.inl ha
  refine h.setReader hr hBegun (fun a ha => ?_) (fun a ha hRunning => ?_) fun other hOther => hOther.begin hLive
  · exact (hActive a ha).elim (h.readers.own c r hr a) And.left
  · exact (hActive a ha).elim (fun hOld => h.readers.live c r hr a hOld hRunning)
      fun hNew => Nat.lt_of_lt_of_le hNew.2 (Nat.le_add_right _ _)

theorem Kept.arrive (h : Kept w) (ask : Ask) (grant : Grant) : Kept (w.arrive ask grant) := by
  unfold World.arrive
  split
  · next r hr =>
    split
    · exact h.setReader hr rfl (h.readers.own _ r hr) (h.readers.live _ r hr) fun _ hShut => ⟨hShut.stopped, hShut.refused⟩
    · exact h
  · exact h

theorem Kept.tick (h : Kept w) {ms : Nat} (hOver : w.readers.all (fun e => e.2.active.all (fun a =>
    a.aborted || w.now + ms < a.grantId.expiresAt + gatewayUpstreamMaxDurationMs)) = true) :
    Kept { w with now := w.now + ms } := by
  refine h.tighten ⟨h.readers.own, fun c r hr a ha hRuns => ?_, h.readers.known, h.readers.latest, h.readers.asks,
    h.readers.issued⟩ rfl rfl rfl rfl rfl rfl rfl fun grant _ hGrant r hr => ?_
  · have := all_eq_true.mp (all_eq_true.mp hOver _ (InsertionMap.mem_of_get? hr)) a ha
    simpa [hRuns] using this
  · exact (hGrant r hr).mono (Nat.le_add_right _ _) (List.Subset.refl _)

theorem Kept.finishWipe (h : Kept w) (nextEpoch : String) : Kept { w with home := w.home.finishWipe nextEpoch } where
  readers := h.readers.congr rfl rfl rfl h.readers.latest h.readers.asks h.readers.issued
  grants := h.grants.rewrite rfl rfl (fun _ _ hShut => shut_congr hShut rfl rfl rfl) (fun row hRow => ⟨row, hRow, rfl⟩)
    fun row hRow hSt => .inl ⟨row, hRow, rfl, hSt⟩
  calls e he := (h.calls e he).shrink rfl rfl (fun _ _ hShut => shut_congr hShut rfl rfl rfl) (List.Subset.refl _)
  cached hNone c hc := by
    have hRead := h.cached hNone c hc
    dsimp only
    unfold Home.finishWipe
    split
    · next hWiping =>
      rw [Home.readMemoryPolicy, if_pos hWiping] at hRead
      cases hRead
    · exact hRead

theorem Kept.step (h : Kept w) {input : Input} (hFits : fits w input = true) : Kept (w.step input) := by
  -- a step that only asks, or only changes the fence
  have hAside : ∀ fenceGeneration fenceOpen asks strays, (∀ ask ∈ asks, ask.readerId < w.nextId) →
      Kept { w with fenceGeneration, fenceOpen, asks, strays } := fun _ _ _ _ hAsks =>
    h.aside rfl rfl rfl rfl rfl rfl rfl rfl rfl rfl rfl h.readers.latest hAsks
  cases input with
  | tick ms => exact h.tick hFits
  | fence generation isOpen => exact hAside _ _ _ _ h.readers.asks
  | ask expected =>
    rw [World.step]
    split
    · next r hr =>
      refine hAside _ _ _ _ fun ask hAsk => ?_
      obtain hOld | hNew := mem_append.mp hAsk
      · exact h.readers.asks ask hOld
      · exact mem_singleton.mp hNew ▸ h.readers.known _ r hr
    · exact h
  | dispatch expected =>
    rw [World.step]
    split
    · next readerId hLatest =>
      refine hAside _ _ _ _ fun ask hAsk => ?_
      obtain hOld | hNew := mem_append.mp hAsk
      · exact h.readers.asks ask hOld
      · exact mem_singleton.mp hNew ▸ h.readers.latest _ readerId hLatest
    · exact h
  | issue j expiresAt leaseOk readOk =>
    rw [World.step]
    split
    · next ask hNone hAsk =>
      have hReader : ask.readerId < w.nextId := h.readers.asks ask (mem_of_getElem? hAsk)
      have hIssued : Kept (w.issueModelGrant ask.expected ask.readerId expiresAt leaseOk readOk).1 :=
        h.issueModelGrant hNone hReader expiresAt leaseOk readOk
      refine hIssued.aside rfl rfl rfl rfl rfl rfl rfl rfl rfl rfl rfl hIssued.readers.latest fun other hOther => ?_
      rw [nextId_issueModelGrant]
      obtain hOld | rfl := mem_or_eq_of_mem_set hOther
      · exact h.readers.asks other hOld
      · exact hReader
    · exact h
  | arrives j =>
    rw [World.step]
    split
    · split
      · exact (hAside w.fenceGeneration w.fenceOpen _ w.strays fun ask hAsk =>
          h.readers.asks ask (eraseIdx_subset hAsk)).arrive _ _
      · exact h
    · exact h
  | loseAsk j => exact hAside _ _ _ _ fun ask hAsk => h.readers.asks ask (eraseIdx_subset hAsk)
  | assert expected fenceGeneration readOk =>
    rw [World.step]
    split
    · next hNone => exact (h.assertCurrent hNone _ _ _).1
    · exact h
  | change change =>
    rw [World.step]
    split
    · next hNone => exact h.change hNone _
    · exact h
  | retry readOk =>
    rw [World.step]
    split
    · next hNone => exact h.retry hNone _
    · exact h
  | beginFenceBarrier operationId =>
    rw [World.step]
    split
    · split
      · exact h
      · have hBarrier : Kept { w with fenceBarrier := some operationId } :=
          h.aside rfl rfl rfl rfl rfl rfl rfl rfl rfl rfl rfl h.readers.latest h.readers.asks
        exact hBarrier.revokeAll nofun
    · exact h
  | freezeLands k =>
    rw [World.step]
    split
    · next e he =>
      split
      · next call hCall => exact h.freezeLands he hCall
      · exact h
    · exact h
  | freezeSettles k ok => exact h.freezeSettles k ok
  | strayLands k =>
    rw [World.step]
    split
    · exact (hAside w.fenceGeneration w.fenceOpen w.asks _ h.readers.asks).freezeAt _
    · exact h
  | settled outcome readOk =>
    rw [World.step]
    split
    · next e he =>
      split
      · next hAll =>
        exact h.settled he outcome readOk fun c hc => of_decide_eq_true (all_eq_true.mp hAll c hc)
      · exact h
    · exact h
  | finishWipe nextEpoch => exact h.finishWipe nextEpoch
  | ownerRestarts =>
    rw [World.step]
    split
    · exact h.leave _
    · exact h
  | readerStarts conversationId => exact h.startReader conversationId
  | registerReader conversationId readerId =>
    rw [World.step]
    split
    · next hKnown =>
      refine h.aside rfl rfl rfl rfl rfl rfl rfl rfl rfl rfl rfl (fun c other hAt => ?_) h.readers.asks
      by_cases hEq : conversationId = c
      · subst hEq
        rw [InsertionMap.get?_set_self] at hAt
        exact Option.some.inj hAt ▸ hKnown
      · rw [InsertionMap.get?_set_of_ne _ _ hEq] at hAt
        exact h.readers.latest c other hAt
    · exact h
  | «begin» conversationId request grant expected =>
    rw [World.step]
    split
    · next r hr =>
      split
      · exact h.begin hr (of_decide_eq_true hFits)
      · exact h
    · exact h
  | release conversationId request =>
    rw [World.step]
    split
    · next r hr =>
      exact h.setReader hr rfl (fun a ha => h.readers.own _ r hr a (mem_filter.mp ha).1)
        (fun a ha => h.readers.live _ r hr a (mem_filter.mp ha).1) fun _ hShut => hShut.release request
    · exact h
  | retire ownerGeneration turnId leaseId => exact h.retireExactTurnLease hFits

/-! ## Runs -/

theorem kept_empty : Kept {} where
  readers := ⟨nofun, nofun, nofun, nofun, forall_mem_nil _, forall_mem_nil _⟩
  grants := ⟨forall_mem_nil _, forall_mem_nil _, forall_mem_nil _, fun _ _ hApplied => absurd hApplied not_mem_nil,
    fun _ _ hApplied => absurd hApplied not_mem_nil⟩
  calls := nofun
  cached := nofun

/-- A permission change is not overtaken: while turns whose lease is retired are over and no request outlives the
gateway's limit, admission is under the home state's policy and a change finds the grants before it shut. -/
theorem World.shut_of_run {inputs : List Input}
    (hRun : Along World.step (fun w input => fits w input = true) {} inputs) : Safe (run World.step {} inputs) := by
  have hKept : Kept (run World.step {} inputs) :=
    run_invariant (fun _ _ hKept hFits => hKept.step hFits) kept_empty hRun
  exact hKept.safe

def policyOf (enabled : Bool) (revision : Nat) : MemoryPolicy := ⟨"g1", "initial", enabled, revision⟩

def expectedOf (leaseId : String) (policy : MemoryPolicy) : Expectation := ⟨"g1", "chat", "turn", leaseId, "f", policy⟩

def grantOf (leaseId : String) (policy : MemoryPolicy) : Grant := ⟨"g1", "chat", "turn", leaseId, "f", 0, 9000, policy⟩

def grantedRun (leaseId : String) (policy : MemoryPolicy) : List Input :=
  [.ask (expectedOf leaseId policy), .issue 0 9000 true true, .arrives 0]

def disable : MemoryPolicyChange := ⟨"g1", "request", .preference 0 false⟩

def switchedRun : List Input :=
  .readerStarts "chat" :: grantedRun "l1" (policyOf true 0) ++
    [.begin "chat" 1 (grantOf "l1" (policyOf true 0)) (expectedOf "l1" (policyOf true 0)), .change disable,
      .freezeSettles 0 false, .settled .answered true, .retry true, .freezeLands 0, .freezeSettles 0 true,
      .settled .answered true] ++ grantedRun "l2" (policyOf false 1)

theorem World.shut_of_switchedRun :
    (run World.step {} switchedRun).applied = [("g1", 1)] ∧ (run World.step {} switchedRun).issued.length = 2 ∧
      ((run World.step {} switchedRun).reader "chat").map (fun r => r.active.map ActiveRequest.aborted) = some [true] ∧
      Safe (run World.step {} switchedRun) :=
  ⟨by decide, by decide, by decide, World.shut_of_run (by decide)⟩

def releasedFirst (w : World) : Input → Bool
  | .retire _ _ leaseId => w.readers.all (fun e => e.2.active.all (fun a => a.grantId.leaseId ≠ leaseId))
  | _ => true

def retiredRun : List Input :=
  .readerStarts "chat" :: grantedRun "l1" (policyOf true 0) ++
    [.retire "g1" "turn" "l1", .change disable, .settled .answered true]

theorem World.retiredRun_overtakes :
    Along World.step (fun w input => releasedFirst w input = true) {} retiredRun ∧
      ¬ (run World.step {} retiredRun).ShutsBefore [] := by
  refine ⟨by decide, fun h => ?_⟩
  have hReader : ((run World.step {} retiredRun).reader "chat").isSome = true := by decide
  obtain ⟨r, hr⟩ := Option.isSome_iff_exists.mp hReader
  have hShuts := h "g1" 1 (by decide) (grantOf "l1" (policyOf true 0)) (by decide) rfl r hr
  have hValid : ((run World.step {} retiredRun).reader "chat").all (fun r =>
      r.valid (run World.step {} retiredRun).now (grantOf "l1" (policyOf true 0))
        (expectedOf "l1" (policyOf true 0))) = true := by decide
  rw [hr] at hValid
  exact absurd ((hShuts.2 not_mem_nil (expectedOf "l1" (policyOf true 0))).symm.trans hValid) nofun

end Stella.MemoryGrants
