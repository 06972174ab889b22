import Mathlib.Data.List.TakeWhile
import Stella.OwnerLeases.Model

/-! # No lease without a receipt

A receipt is given up only once the fence has answered for its lease. That answer
stands for the lease as long as no register of it is still on its way.
-/

namespace Stella.OwnerLeases

open Stella.Transition List

def After.alarming : After → Bool
  | .alarm _ => true
  | _ => false

theorem After.eq_alarm {next : After} (h : next.alarming = true) : ∃ rest, next = .alarm rest := by
  cases next with
  | alarm rest => exact ⟨rest, rfl⟩
  | nothing => cases h
  | register call => cases h

/-- Every active lease has its receipt, a lease once retired is not registered again, and no retirement is
left without an alarm. -/
structure Safe (w : World) : Prop where
  named : ∀ owner leaseId lease, InsertionMap.get? w.fence (owner, leaseId) = some lease → lease.active = true →
    lease.identity.ownerId = owner ∧ ∃ r, w.receipt leaseId = some r ∧ r.leaseId = leaseId ∧ r.identity = lease.identity
  final : ∀ leaseId r, w.receipt leaseId = some r → r.phase = .registered → leaseId ∉ w.pended
  armed : w.tasks = [] → ∀ leaseId r, w.receipt leaseId = some r → r.phase = .unregisterPending → w.alarm = true

/-! ## The condition on a step -/

namespace World

variable (w : World)

def chosenFits (call : Registration) : Bool :=
  (w.receipt (w.chosenLease call)).isSome || w.chosenLease call ∉ w.pended

def unasked (leaseId : Nat) : Bool := w.inflight.all (fun q => q.op = .unregister || q.leaseId ≠ leaseId)

def debtSeen : Bool := w.receipts.all (fun e => e.2.phase ≠ .unregisterPending) || w.hasRetirementDebt

def awaited (token : Nat) : Bool :=
  w.tasks.any (fun task => match task with
    | .retiring _ t _ => t = token
    | _ => false)

def landFits (j : Nat) : World.Verdict → Bool
  | .accept _ =>
    match w.inflight[j]? with
    | some q => q.op = .register || !w.awaited q.token || InsertionMap.has w.fence q.key || w.unasked q.leaseId
    | none => true
  | _ => true

def goOnFits : After → Bool
  | .nothing => true
  | .register call => w.chosenFits call
  | .alarm rest => rest.any (fun r => r.phase = .unregisterPending) || w.debtSeen

def proceedFits (i : Nat) (lost : Bool) : Bool :=
  match w.tasks[i]? with
  | some (.registering call r token) =>
    -- the intent that goes is that of no other registration
    lost || (w.answers.find? (fun a => a.1 = token)).map Prod.snd ≠ some .skipped || !call.combined ||
      (w.unasked r.leaseId && w.fence.all (fun e => e.1.2 ≠ r.leaseId || !e.2.active))
  | some (.retiring pending token next) =>
    lost || (w.answers.find? (fun a => a.1 = token)).map Prod.snd ≠ some .unregistered ||
      ((w.dropTask i).forget pending).goOnFits next
  | some (.identifying identity leaseId _) => (w.receipt leaseId).all (fun r => r.identity = identity)
  | _ => true

def fits : Input → Bool
  | .register call => w.chosenFits call
  | .lands j verdict => w.landFits j verdict
  | .proceed i lost => w.proceedFits i lost
  | .alarm => !w.alarm || w.debtSeen
  | .deleteAlarm => w.debtSeen
  | .replaced => w.alarm || w.tasks.any Task.alarming || w.receipts.all (fun e => e.2.phase ≠ .unregisterPending)
  | _ => true

end World

/-! ## The invariant -/

variable {w w' : World}

structure Settled (w : World) (leaseId : Nat) (identity : Identity) : Prop where
  inactive : ∀ lease, InsertionMap.get? w.fence (identity.ownerId, leaseId) = some lease → lease.active = true →
    lease.identity ≠ identity
  unasked : InsertionMap.get? w.fence (identity.ownerId, leaseId) = none →
    ∀ q ∈ w.inflight, q.op = .register → q.leaseId = leaseId → q.identity ≠ identity

structure Sound (w : World) : Prop where
  keyed : ∀ l r, w.receipt l = some r → r.leaseId = l
  owned : ∀ key lease, InsertionMap.get? w.fence key = some lease → key.1 = lease.identity.ownerId
  named : ∀ key lease, InsertionMap.get? w.fence key = some lease → lease.active = true →
    ∃ r, w.receipt key.2 = some r ∧ r.identity = lease.identity
  asked : ∀ q ∈ w.inflight, q.op = .register → InsertionMap.get? w.fence q.key = none →
    ∃ r, w.receipt q.leaseId = some r ∧ r.identity = q.identity
  live : ∀ l r, w.receipt l = some r → r.phase ≠ .unregisterPending → l ∉ w.pended
  tokens : ∀ q ∈ w.inflight, q.token < w.nextId
  answered : ∀ a ∈ w.answers, a.1 < w.nextId
  waiting : ∀ p t n, Task.retiring p t n ∈ w.tasks → t < w.nextId ∧ p.leaseId ∈ w.pended
  sent : ∀ p t n, Task.retiring p t n ∈ w.tasks → ∀ q ∈ w.inflight, q.token = t →
    q.op = .unregister ∧ q.leaseId = p.leaseId ∧ q.identity = p.identity
  settled : ∀ p t n, Task.retiring p t n ∈ w.tasks → (t, Answer.unregistered) ∈ w.answers →
    Settled w p.leaseId p.identity

def Watched (w : World) (r : Receipt) : Prop :=
  w.alarm = true ∨ ∃ p t n, Task.retiring p t n ∈ w.tasks ∧
    (p.leaseId = r.leaseId ∧ p.identity = r.identity ∨ n.alarming = true)

def Armed (w : World) : Prop := ∀ l r, w.receipt l = some r → r.phase = .unregisterPending → Watched w r

structure Kept (w : World) : Prop where
  sound : Sound w
  armed : Armed w

theorem Kept.safe (h : Kept w) : Safe w where
  named owner leaseId lease hLease hAct := by
    obtain ⟨r, hr, hEq⟩ := h.sound.named (owner, leaseId) lease hLease hAct
    exact ⟨(h.sound.owned (owner, leaseId) lease hLease).symm, r, hr, h.sound.keyed leaseId r hr, hEq⟩
  final leaseId r hr hPh := h.sound.live leaseId r hr (by rw [hPh]; nofun)
  armed hIdle leaseId r hr hPh := by
    obtain hAlarm | ⟨p, t, n, hTask, -⟩ := h.armed leaseId r hr hPh
    · exact hAlarm
    · rw [hIdle] at hTask
      cases hTask

/-! ## What a handler changes -/

theorem Sound.congr (h : Sound w) (hReceipts : w'.receipts = w.receipts) (hFence : w'.fence = w.fence)
    (hInflight : w'.inflight ⊆ w.inflight) (hAnswers : w'.answers = w.answers) (hTasks : w'.tasks ⊆ w.tasks)
    (hNext : w.nextId ≤ w'.nextId) (hPended : w'.pended = w.pended) : Sound w' := by
  have hReceipt : ∀ l, w'.receipt l = w.receipt l := fun l => by rw [World.receipt, hReceipts]; rfl
  refine ⟨?_, ?_, ?_, ?_, ?_, ?_, ?_, ?_, ?_, ?_⟩
  · simpa only [hReceipt] using h.keyed
  · simpa only [hFence] using h.owned
  · simpa only [hFence, hReceipt] using h.named
  · intro q hq hOp hNone
    rw [hReceipt]
    exact h.asked q (hInflight hq) hOp (hFence ▸ hNone)
  · simpa only [hReceipt, hPended] using h.live
  · exact fun q hq => Nat.lt_of_lt_of_le (h.tokens q (hInflight hq)) hNext
  · exact fun a ha => Nat.lt_of_lt_of_le (h.answered a (hAnswers ▸ ha)) hNext
  · intro p t n hTask
    obtain ⟨hLt, hMem⟩ := h.waiting p t n (hTasks hTask)
    exact ⟨Nat.lt_of_lt_of_le hLt hNext, hPended ▸ hMem⟩
  · exact fun p t n hTask q hq => h.sent p t n (hTasks hTask) q (hInflight hq)
  · intro p t n hTask hAns
    obtain ⟨hInactive, hUnasked⟩ := h.settled p t n (hTasks hTask) (hAnswers ▸ hAns)
    exact ⟨hFence ▸ hInactive, fun hNone q hq => hUnasked (hFence ▸ hNone) q (hInflight hq)⟩

theorem receipt_putReceipt (r : Receipt) (l : Nat) :
    (w.putReceipt r).receipt l = if r.leaseId = l then some r else w.receipt l := by
  unfold World.putReceipt World.receipt
  dsimp only
  split
  · next h => rw [h, InsertionMap.get?_set_self]
  · next h => exact InsertionMap.get?_set_of_ne _ _ h

theorem mem_pended_putReceipt {r : Receipt} {l : Nat} :
    l ∈ (w.putReceipt r).pended ↔ l ∈ w.pended ∨ (r.phase = .unregisterPending ∧ l = r.leaseId) := by
  unfold World.putReceipt
  dsimp only
  split <;> simp_all

theorem Sound.putReceipt (h : Sound w) {r : Receipt}
    (hEq : ∀ current, w.receipt r.leaseId = some current → current.identity = r.identity)
    (hLive : r.phase ≠ .unregisterPending → r.leaseId ∉ w.pended) : Sound (w.putReceipt r) where
  keyed l r' hr' := by
    rw [receipt_putReceipt] at hr'
    split at hr'
    · next hAt => exact Option.some.inj hr' ▸ hAt
    · exact h.keyed l r' hr'
  owned := h.owned
  named key lease hLease hAct := by
    obtain ⟨r', hr', hId⟩ := h.named key lease hLease hAct
    rw [receipt_putReceipt]
    split
    · next hAt => exact ⟨r, rfl, (hEq r' (hAt ▸ hr')).symm.trans hId⟩
    · exact ⟨r', hr', hId⟩
  asked q hq hOp hNone := by
    obtain ⟨r', hr', hId⟩ := h.asked q hq hOp hNone
    rw [receipt_putReceipt]
    split
    · next hAt => exact ⟨r, rfl, (hEq r' (hAt ▸ hr')).symm.trans hId⟩
    · exact ⟨r', hr', hId⟩
  live l r' hr' hPh := by
    rw [mem_pended_putReceipt]
    rw [receipt_putReceipt] at hr'
    split at hr'
    · next hAt =>
      obtain rfl := Option.some.inj hr'
      rintro (hMem | ⟨hPend, -⟩)
      · exact hLive hPh (hAt ▸ hMem)
      · exact hPh hPend
    · next hAt =>
      rintro (hMem | ⟨-, rfl⟩)
      · exact h.live l r' hr' hPh hMem
      · exact hAt rfl
  tokens := h.tokens
  answered := h.answered
  waiting p t n hTask := ⟨(h.waiting p t n hTask).1, mem_pended_putReceipt.mpr (.inl (h.waiting p t n hTask).2)⟩
  sent := h.sent
  settled p t n hTask hAns := ⟨(h.settled p t n hTask hAns).inactive, (h.settled p t n hTask hAns).unasked⟩

theorem Sound.request (h : Sound w) {op : FenceOp} {leaseId : Nat} {identity : Identity}
    (hRegister : op = .register → leaseId ∉ w.pended ∧ ∃ r, w.receipt leaseId = some r ∧ r.identity = identity) :
    Sound (w.request op leaseId identity) where
  keyed := h.keyed
  owned := h.owned
  named := h.named
  asked q hq hOp hNone := by
    obtain hOld | hNew := mem_append.mp hq
    · exact h.asked q hOld hOp hNone
    · obtain rfl := mem_singleton.mp hNew
      exact (hRegister hOp).2
  live := h.live
  tokens q hq := by
    obtain hOld | hNew := mem_append.mp hq
    · exact Nat.lt_succ_of_lt (h.tokens q hOld)
    · obtain rfl := mem_singleton.mp hNew
      exact Nat.lt_succ_self _
  answered a ha := Nat.lt_succ_of_lt (h.answered a ha)
  waiting p t n hTask := ⟨Nat.lt_succ_of_lt (h.waiting p t n hTask).1, (h.waiting p t n hTask).2⟩
  sent p t n hTask q hq hTok := by
    obtain hOld | hNew := mem_append.mp hq
    · exact h.sent p t n hTask q hOld hTok
    · obtain rfl := mem_singleton.mp hNew
      exact absurd hTok (Nat.ne_of_gt (h.waiting p t n hTask).1)
  settled p t n hTask hAns := by
    refine ⟨(h.settled p t n hTask hAns).inactive, fun hNone q hq hOp hLease => ?_⟩
    obtain hOld | hNew := mem_append.mp hq
    · exact (h.settled p t n hTask hAns).unasked hNone q hOld hOp hLease
    · obtain rfl := mem_singleton.mp hNew
      obtain rfl : leaseId = p.leaseId := hLease
      exact absurd (h.waiting p t n hTask).2 (hRegister hOp).1

theorem Sound.park (h : Sound w) {task : Task} (hTask : ∀ p t n, task ≠ .retiring p t n) : Sound (w.park task) := by
  have hOld : ∀ p t n, Task.retiring p t n ∈ (w.park task).tasks → Task.retiring p t n ∈ w.tasks := fun p t n hMem =>
    (mem_append.mp hMem).resolve_right fun hNew => hTask p t n (mem_singleton.mp hNew).symm
  exact { h with
    waiting := fun p t n hMem => h.waiting p t n (hOld p t n hMem)
    sent := fun p t n hMem => h.sent p t n (hOld p t n hMem)
    settled := fun p t n hMem hAns => ⟨(h.settled p t n (hOld p t n hMem) hAns).inactive,
      (h.settled p t n (hOld p t n hMem) hAns).unasked⟩ }

theorem Sound.erase (h : Sound w) {l : Nat}
    (hInactive : ∀ key lease, InsertionMap.get? w.fence key = some lease → lease.active = true → key.2 ≠ l)
    (hUnasked : ∀ q ∈ w.inflight, q.op = .register → InsertionMap.get? w.fence q.key = none → q.leaseId ≠ l) :
    Sound { w with receipts := InsertionMap.erase w.receipts l } := by
  have hReceipt : ∀ l', l ≠ l' → World.receipt { w with receipts := InsertionMap.erase w.receipts l } l' = w.receipt l' :=
    fun l' hNe => InsertionMap.get?_erase_of_ne w.receipts hNe
  have hOld : ∀ l' r, World.receipt { w with receipts := InsertionMap.erase w.receipts l } l' = some r →
      w.receipt l' = some r := by
    intro l' r hr
    by_cases hAt : l = l'
    · subst hAt
      exact absurd ((InsertionMap.get?_erase_self w.receipts l).symm.trans hr) nofun
    · exact hReceipt l' hAt ▸ hr
  exact { h with
    keyed := fun l' r hr => h.keyed l' r (hOld l' r hr)
    named := fun key lease hLease hAct => by
      rw [hReceipt _ (hInactive key lease hLease hAct).symm]
      exact h.named key lease hLease hAct
    asked := fun q hq hOp hNone => by
      rw [hReceipt _ (hUnasked q hq hOp hNone).symm]
      exact h.asked q hq hOp hNone
    live := fun l' r hr => h.live l' r (hOld l' r hr)
    settled := fun p t n hTask hAns =>
      ⟨(h.settled p t n hTask hAns).inactive, (h.settled p t n hTask hAns).unasked⟩ }

theorem Armed.mono (h : Armed w) (hReceipts : w'.receipts = w.receipts) (hAlarm : w.alarm = true → w'.alarm = true)
    (hTasks : ∀ p t n, Task.retiring p t n ∈ w.tasks → Task.retiring p t n ∈ w'.tasks) : Armed w' := by
  intro l r hr hPh
  rw [World.receipt, hReceipts] at hr
  exact (h l r hr hPh).imp hAlarm fun ⟨p, t, n, hTask, hOf⟩ => ⟨p, t, n, hTasks p t n hTask, hOf⟩

theorem armed_of_alarm (h : w.alarm = true) : Armed w := fun _ _ _ _ => .inl h

theorem Armed.putReceipt (h : Armed w) {r : Receipt} (hr : r.phase = .unregisterPending → Watched w r) :
    Armed (w.putReceipt r) := by
  intro l r' hr' hPh
  rw [receipt_putReceipt] at hr'
  split at hr'
  · obtain rfl := Option.some.inj hr'
    exact hr hPh
  · exact h l r' hr' hPh

/-! ## Retiring -/

theorem Sound.sendUnregister (h : Sound w) {pending : Receipt} {next : After}
    (hEq : ∀ current, w.receipt pending.leaseId = some current → current.identity = pending.identity)
    (hPh : pending.phase = .unregisterPending) : Sound (w.sendUnregister pending next) := by
  have hPut : Sound (w.putReceipt pending) := h.putReceipt hEq fun hOther => absurd hPh hOther
  have hAsk : Sound ((w.putReceipt pending).request .unregister pending.leaseId pending.identity) := hPut.request nofun
  have hTask : ∀ p t n, Task.retiring p t n ∈ (w.sendUnregister pending next).tasks →
      Task.retiring p t n ∈ w.tasks ∨ (p = pending ∧ t = w.nextId) := by
    intro p t n hMem
    refine (mem_append.mp hMem).imp_right fun hNew => ?_
    obtain ⟨rfl, rfl, -⟩ := Task.retiring.inj (mem_singleton.mp hNew)
    exact ⟨rfl, rfl⟩
  exact { hAsk with
    waiting := fun p t n hMem => by
      obtain hOld | ⟨rfl, rfl⟩ := hTask p t n hMem
      · exact hAsk.waiting p t n hOld
      · exact ⟨Nat.lt_succ_self _, mem_pended_putReceipt.mpr (.inr ⟨hPh, rfl⟩)⟩
    sent := fun p t n hMem q hq hTok => by
      obtain hOld | ⟨rfl, rfl⟩ := hTask p t n hMem
      · exact hAsk.sent p t n hOld q hq hTok
      · obtain hBef | hNew := mem_append.mp hq
        · exact absurd hTok (Nat.ne_of_lt (h.tokens q hBef))
        · obtain rfl := mem_singleton.mp hNew
          exact ⟨rfl, rfl, rfl⟩
    settled := fun p t n hMem hAns => by
      obtain hOld | ⟨rfl, rfl⟩ := hTask p t n hMem
      · exact ⟨(hAsk.settled p t n hOld hAns).inactive, (hAsk.settled p t n hOld hAns).unasked⟩
      · exact absurd (h.answered _ hAns) (Nat.lt_irrefl _) }

theorem Armed.sendUnregister {pending : Receipt} {next : After}
    (h : next.alarming = true ∨ Armed w) : Armed (w.sendUnregister pending next) := by
  have hNew : Task.retiring pending w.nextId next ∈ (w.sendUnregister pending next).tasks :=
    mem_append_right _ (mem_singleton.mpr rfl)
  intro l r hr hPh
  obtain hNext | hArmed := h
  · exact .inr ⟨pending, w.nextId, next, hNew, .inr hNext⟩
  · change (w.putReceipt pending).receipt l = some r at hr
    rw [receipt_putReceipt] at hr
    split at hr
    · obtain rfl := Option.some.inj hr
      exact .inr ⟨pending, w.nextId, next, hNew, .inl ⟨rfl, rfl⟩⟩
    · exact (hArmed l r hr hPh).imp id fun ⟨p, t, n, hTask, hOf⟩ => ⟨p, t, n, mem_append_left _ hTask, hOf⟩

theorem Sound.retire (h : Sound w) (r : Receipt) (next : After) : Sound (w.retire r next) := by
  unfold World.retire
  split
  · next current hCur =>
    split
    · split
      · exact h.congr rfl rfl (List.Subset.refl _) rfl (List.Subset.refl _) (Nat.le_refl _) rfl
      · exact h
    · refine h.sendUnregister (fun other hOther => ?_) rfl
      have hAt : current.leaseId = r.leaseId := h.keyed _ _ hCur
      change w.receipt current.leaseId = some other at hOther
      rw [hAt, hCur] at hOther
      exact (congrArg Receipt.identity (Option.some.inj hOther)).symm
  · next hNone => exact h.sendUnregister (fun other hOther => absurd (hNone.symm.trans hOther) nofun) rfl

theorem Armed.retire (r : Receipt) {next : After} (h : next.alarming = true ∨ Armed w) : Armed (w.retire r next) := by
  unfold World.retire
  split
  · split
    · split
      · exact armed_of_alarm rfl
      · next hNext =>
        refine h.resolve_left fun hAlarm => ?_
        obtain ⟨rest, rfl⟩ := After.eq_alarm hAlarm
        exact hNext rest rfl
    · exact Armed.sendUnregister h
  · exact Armed.sendUnregister h

theorem Kept.retire (h : Kept w) (r : Receipt) (next : After) : Kept (w.retire r next) :=
  ⟨h.sound.retire r next, Armed.retire r (.inr h.armed)⟩

theorem Sound.dropSlot (h : Sound w) (pending : Receipt) : Sound (w.dropSlot pending) := by
  unfold World.dropSlot
  split
  · exact h.congr rfl rfl (List.Subset.refl _) rfl (List.Subset.refl _) (Nat.le_refl _) rfl
  · exact h

theorem receipts_dropSlot (w : World) (pending : Receipt) : (w.dropSlot pending).receipts = w.receipts := by
  unfold World.dropSlot
  split <;> rfl

theorem receipt_forget {pending : Receipt} {l : Nat} {r : Receipt} (h : (w.forget pending).receipt l = some r) :
    w.receipt l = some r ∧ ¬ (l = pending.leaseId ∧ r.identity = pending.identity) := by
  rw [World.receipt, World.forget, receipts_dropSlot] at h
  unfold World.dropReceipt at h
  split at h
  · next hAny =>
    by_cases hAt : pending.leaseId = l
    · subst hAt
      exact absurd ((InsertionMap.get?_erase_self w.receipts _).symm.trans h) (by simp)
    · exact ⟨(InsertionMap.get?_erase_of_ne w.receipts hAt).symm.trans h, fun hBoth => hAt hBoth.1.symm⟩
  · next hAny =>
    refine ⟨h, ?_⟩
    rintro ⟨rfl, hId⟩
    refine hAny ?_
    rw [World.receipt, h]
    exact decide_eq_true hId

theorem Sound.forget (h : Sound w) {pending : Receipt} (hSettled : Settled w pending.leaseId pending.identity) :
    Sound (w.forget pending) := by
  refine Sound.dropSlot ?_ pending
  unfold World.dropReceipt
  split
  · next hAny =>
    obtain ⟨current, hCur, hDecided⟩ := (Option.any_eq_true _ _).mp hAny
    have hId : current.identity = pending.identity := of_decide_eq_true hDecided
    refine h.erase (fun key lease hLease hAct hAt => ?_) fun q hq hOp hNone hAt => ?_
    · obtain ⟨r, hr, hEq⟩ := h.named key lease hLease hAct
      rw [hAt, hCur] at hr
      obtain rfl := Option.some.inj hr
      have hLeaseId : lease.identity = pending.identity := hEq.symm.trans hId
      have hKey : key = (pending.identity.ownerId, pending.leaseId) :=
        Prod.ext (hLeaseId ▸ h.owned key lease hLease) hAt
      exact hSettled.inactive lease (hKey ▸ hLease) hAct hLeaseId
    · obtain ⟨r, hr, hEq⟩ := h.asked q hq hOp hNone
      rw [hAt, hCur] at hr
      obtain rfl := Option.some.inj hr
      have hAsked : q.identity = pending.identity := hEq.symm.trans hId
      have hKey : q.key = (pending.identity.ownerId, pending.leaseId) :=
        Prod.ext (congrArg Identity.ownerId hAsked) hAt
      exact hSettled.unasked (hKey ▸ hNone) q hq hOp hAt hAsked
  · exact h

theorem Kept.identified (h : Kept w) {identity : Identity} {leaseId : Nat} (generation : Option String)
    (hFits : (w.receipt leaseId).all (fun r => r.identity = identity) = true) :
    Kept (w.identified identity leaseId generation) := by
  unfold World.identified
  dsimp only
  generalize hRepaired : (⟨identity, leaseId, .unregisterPending, generation,
    InsertionMap.get? w.runSlots identity = some leaseId, none⟩ : Receipt) = repaired
  have hPut : Sound (w.putReceipt repaired) := by
    subst hRepaired
    refine h.sound.putReceipt (fun current hCur => ?_) fun hOther => absurd rfl hOther
    rw [show w.receipt leaseId = some current from hCur] at hFits
    exact of_decide_eq_true hFits
  refine ⟨hPut.retire repaired .nothing, ?_⟩
  -- the receipt is in the hands of the handler that has just put it
  have hAt : (w.putReceipt repaired).receipt repaired.leaseId = some repaired := by
    rw [receipt_putReceipt, if_pos rfl]
  unfold World.retire
  rw [hAt]
  dsimp only
  rw [if_neg (not_not_intro rfl)]
  intro l r hr hPh
  change ((w.putReceipt repaired).putReceipt _).receipt l = some r at hr
  rw [receipt_putReceipt] at hr
  split at hr
  · obtain rfl := Option.some.inj hr
    exact .inr ⟨_, _, _, mem_append_right _ (mem_singleton.mpr rfl), .inl ⟨rfl, rfl⟩⟩
  · next hOther =>
    rw [receipt_putReceipt, if_neg hOther] at hr
    exact (h.armed l r hr hPh).imp id fun ⟨p, t, n, hTask, hOf⟩ => ⟨p, t, n, mem_append_left _ hTask, hOf⟩

/-! ## Registering -/

theorem receiptFor_leaseId (h : Sound w) (call : Registration) (l : Nat) : (w.receiptFor call l).leaseId = l := by
  unfold World.receiptFor
  split
  · next current hCur => exact h.keyed l current hCur
  · rfl

theorem receiptFor_of_some {call : Registration} {l : Nat} {current : Receipt} (h : w.receipt l = some current) :
    (w.receiptFor call l).identity = current.identity ∧ (w.receiptFor call l).phase = current.phase := by
  unfold World.receiptFor
  rw [h]
  exact ⟨rfl, rfl⟩

theorem Kept.congr (h : Kept w) (hReceipts : w'.receipts = w.receipts) (hFence : w'.fence = w.fence)
    (hInflight : w'.inflight ⊆ w.inflight) (hAnswers : w'.answers = w.answers) (hTasks : w'.tasks = w.tasks)
    (hNext : w.nextId ≤ w'.nextId) (hPended : w'.pended = w.pended) (hAlarm : w.alarm = true → w'.alarm = true) : Kept w' where
  sound := h.sound.congr hReceipts hFence hInflight hAnswers (hTasks ▸ List.Subset.refl _) hNext hPended
  armed := h.armed.mono hReceipts hAlarm fun _ _ _ hTask => hTasks ▸ hTask

theorem live_receiptFor (h : Sound w) {call : Registration} {l : Nat} (hFits : (w.receipt l).isSome || l ∉ w.pended)
    (hPh : (w.receiptFor call l).phase ≠ .unregisterPending) : l ∉ w.pended := by
  cases hCur : w.receipt l with
  | some current => exact h.live l current hCur ((receiptFor_of_some hCur).2 ▸ hPh)
  | none => simpa [hCur] using hFits

theorem watched_receiptFor (h : Kept w) {call : Registration} {l : Nat}
    (hPh : (w.receiptFor call l).phase = .unregisterPending) : Watched w (w.receiptFor call l) := by
  cases hCur : w.receipt l with
  | some current =>
    obtain ⟨hId, hPhases⟩ := @receiptFor_of_some w call l current hCur
    rw [Watched, hId, receiptFor_leaseId h.sound, ← h.sound.keyed l current hCur]
    exact h.armed l current hCur (hPhases ▸ hPh)
  | none =>
    rw [World.receiptFor, hCur] at hPh
    cases hPh

theorem Kept.intend (h : Kept w) {call : Registration} {l : Nat} (hFits : (w.receipt l).isSome || l ∉ w.pended) :
    Kept (w.intend call l (w.receiptFor call l)) := by
  have hAt : (w.receiptFor call l).leaseId = l := receiptFor_leaseId h.sound call l
  have hPut : Kept (w.putReceipt (w.receiptFor call l)) := by
    refine ⟨h.sound.putReceipt (fun current hCur => ?_) fun hPh => ?_, h.armed.putReceipt (watched_receiptFor h)⟩
    · rw [hAt] at hCur
      exact (receiptFor_of_some hCur).1.symm
    · rw [hAt]
      exact live_receiptFor h.sound hFits hPh
  unfold World.intend
  dsimp only
  split
  · exact hPut
  · exact hPut.congr rfl rfl (List.Subset.refl _) rfl rfl (Nat.le_refl _) rfl id

theorem receipt_intend {call : Registration} {l : Nat} {r : Receipt} (hAt : r.leaseId = l) :
    (w.intend call l r).receipt l = some r := by
  unfold World.intend World.receipt
  dsimp only
  split <;> exact hAt ▸ InsertionMap.get?_set_self w.receipts r.leaseId r

theorem pended_intend {call : Registration} {l : Nat} {r : Receipt} (hPh : r.phase ≠ .unregisterPending) :
    (w.intend call l r).pended = w.pended := by
  simp only [World.intend, World.putReceipt, if_neg hPh]
  split <;> rfl

theorem Kept.register (h : Kept w) {call : Registration} (hFits : w.chosenFits call = true) :
    Kept (w.register call) := by
  unfold World.register
  dsimp only
  generalize hLease : w.chosenLease call = l
  rw [World.chosenFits, hLease] at hFits
  have hDrawn : Kept { w with nextId := w.nextId + 1 } :=
    h.congr rfl rfl (List.Subset.refl _) rfl rfl (Nat.le_succ _) rfl id
  have hIntended : Kept (World.intend { w with nextId := w.nextId + 1 } call l (w.receiptFor call l)) :=
    hDrawn.intend hFits
  split
  · exact hDrawn
  split
  · exact hDrawn
  split
  · exact hDrawn
  split
  · exact hIntended.retire _ _
  next hPh =>
  split
  · exact hIntended
  have hAsk : Sound ((World.intend { w with nextId := w.nextId + 1 } call l (w.receiptFor call l)).request .register l
      (w.receiptFor call l).identity) := by
    refine hIntended.sound.request fun _ => ⟨?_, w.receiptFor call l, receipt_intend (receiptFor_leaseId h.sound call l), rfl⟩
    rw [pended_intend hPh]
    exact live_receiptFor h.sound hFits hPh
  exact ⟨hAsk.park (by simp), hIntended.armed.mono rfl id fun _ _ _ hTask => mem_append_left _ hTask⟩

theorem Kept.rollBack (h : Kept w) (r : Receipt) : Kept (w.rollBack r) := by
  have hAsk : Sound (w.request .unregister r.leaseId r.identity) := h.sound.request nofun
  exact ⟨hAsk.park (by simp), h.armed.mono rfl id fun _ _ _ hTask => mem_append_left _ hTask⟩

theorem Kept.commit (h : Kept w) (r : Receipt) (generation : String) : Kept (w.commit r generation) := by
  unfold World.commit
  split
  · next current hCur =>
    split
    · exact h.rollBack r
    · next hOpen =>
      have hAt : current.leaseId = r.leaseId := h.sound.keyed _ current hCur
      refine ⟨h.sound.putReceipt (fun other hOther => ?_) fun _ => ?_, h.armed.putReceipt nofun⟩
      · change w.receipt current.leaseId = some other at hOther
        rw [hAt, hCur] at hOther
        exact (congrArg Receipt.identity (Option.some.inj hOther)).symm
      · change current.leaseId ∉ w.pended
        rw [hAt]
        exact h.sound.live _ current hCur fun hPh => hOpen (.inl hPh)
  · exact h.rollBack r

theorem Kept.dropIntent (h : Kept w) {call : Registration} {r : Receipt} (hUnasked : w.unasked r.leaseId = true)
    (hInactive : w.fence.all (fun e => e.1.2 ≠ r.leaseId || !e.2.active) = true) : Kept (w.dropIntent call r) := by
  unfold World.dropIntent
  split
  · next current hCur =>
    split
    · have hErased : Sound { w with receipts := InsertionMap.erase w.receipts r.leaseId } := by
        refine h.sound.erase (fun key lease hLease hAct hAt => ?_) fun q hq hOp _ hAt => ?_
        · have := all_eq_true.mp hInactive _ (InsertionMap.mem_of_get? hLease)
          simp [hAt, hAct] at this
        · have := all_eq_true.mp hUnasked q hq
          simp [hAt, hOp] at this
      refine ⟨hErased.congr rfl rfl (List.Subset.refl _) rfl (List.Subset.refl _) (Nat.le_refl _) rfl, ?_⟩
      intro l r' hr' hPh
      by_cases hAt : r.leaseId = l
      · subst hAt
        exact absurd ((InsertionMap.get?_erase_self w.receipts _).symm.trans hr') nofun
      · exact h.armed l r' ((InsertionMap.get?_erase_of_ne w.receipts hAt).symm.trans hr') hPh
    · exact h
  · exact h

/-! ## The alarm -/

theorem armed_of_debtSeen (hSeen : w.debtSeen = true) (hDebt : w.hasRetirementDebt = false) : Armed w := by
  intro l r hr hPh
  rw [World.debtSeen, hDebt, Bool.or_false] at hSeen
  have := all_eq_true.mp hSeen _ (InsertionMap.mem_of_get? hr)
  simp [hPh] at this

theorem Sound.retryRetirements (h : Sound w) (rest : List Receipt) : Sound (w.retryRetirements rest) := by
  unfold World.retryRetirements
  split
  · exact h.retire _ _
  · split
    · exact h.congr rfl rfl (List.Subset.refl _) rfl (List.Subset.refl _) (Nat.le_refl _) rfl
    · exact h

theorem alarm_forget (w : World) (pending : Receipt) : (w.forget pending).alarm = w.alarm := by
  unfold World.forget World.dropSlot World.dropReceipt
  split <;> split <;> rfl

theorem tasks_forget (w : World) (pending : Receipt) : (w.forget pending).tasks = w.tasks := by
  unfold World.forget World.dropSlot World.dropReceipt
  split <;> split <;> rfl

theorem armed_retryRetirements {rest : List Receipt}
    (hEnd : rest.any (fun r => r.phase = .unregisterPending) = false → w.alarm = true ∨ w.debtSeen = true) :
    Armed (w.retryRetirements rest) := by
  unfold World.retryRetirements
  split
  · exact Armed.retire _ (.inl rfl)
  · next hNone =>
    split
    · exact armed_of_alarm rfl
    · next hDebt =>
      have hNo : rest.any (fun r => r.phase = .unregisterPending) = false := by
        rw [any_eq_false]
        intro r hr hPh
        have := dropWhile_eq_nil_iff.mp hNone r hr
        simp_all
      exact (hEnd hNo).elim armed_of_alarm fun hSeen => armed_of_debtSeen hSeen (Bool.eq_false_iff.mpr hDebt)

theorem Kept.retired {pending : Receipt} {next : After} {answer : Option Answer} (h : Sound w)
    (hArmed : ∀ l r, w.receipt l = some r → r.phase = .unregisterPending →
      Watched w r ∨ (pending.leaseId = r.leaseId ∧ pending.identity = r.identity ∨ next.alarming = true))
    (hSettled : answer = some .unregistered → Settled w pending.leaseId pending.identity)
    (hFits : answer = some .unregistered → (w.forget pending).goOnFits next = true) :
    Kept (w.retired pending next answer) := by
  unfold World.retired
  split
  · next hAns =>
    have hForgot : Sound (w.forget pending) := h.forget (hSettled hAns)
    have hGoOn := hFits hAns
    have hLeft : next.alarming = true ∨ Armed (w.forget pending) := by
      refine or_iff_not_imp_left.mpr fun hNext l r hr hPh => ?_
      obtain ⟨hOld, hOther⟩ := receipt_forget hr
      obtain hWatched | ⟨hEq, hId⟩ | hAlarming := hArmed l r hOld hPh
      · rw [Watched, alarm_forget, tasks_forget]
        exact hWatched
      · exact absurd ⟨hEq ▸ (h.keyed l r hOld).symm, hId.symm⟩ hOther
      · exact absurd hAlarming hNext
    cases next with
    | nothing => exact ⟨hForgot, hLeft.resolve_left nofun⟩
    | register call => exact Kept.register ⟨hForgot, hLeft.resolve_left nofun⟩ hGoOn
    | alarm rest =>
      refine ⟨hForgot.retryRetirements rest, armed_retryRetirements fun hNo => .inr ?_⟩
      rw [World.goOnFits, hNo, Bool.false_or] at hGoOn
      exact hGoOn
  · have hAlarmed : Sound { w with alarm := true } :=
      h.congr rfl rfl (List.Subset.refl _) rfl (List.Subset.refl _) (Nat.le_refl _) rfl
    cases next with
    | nothing => exact ⟨hAlarmed, armed_of_alarm rfl⟩
    | register call => exact ⟨hAlarmed, armed_of_alarm rfl⟩
    | alarm rest => exact ⟨hAlarmed.retryRetirements rest, armed_retryRetirements fun _ => .inl rfl⟩

/-! ## The fence -/

theorem Sound.answered_with (h : Sound w) {token : Nat} {answer : Answer} (hTok : token < w.nextId)
    (hSettled : answer = .unregistered → ∀ p n, Task.retiring p token n ∈ w.tasks → Settled w p.leaseId p.identity) :
    Sound (World.answered w token answer) :=
  { h with
    answered := fun a ha => by
      obtain rfl | hOld := mem_cons.mp ha
      · exact hTok
      · exact h.answered a hOld
    settled := fun p t n hTask hAns => by
      have hOf : Settled w p.leaseId p.identity := by
        obtain hNew | hOld := mem_cons.mp hAns
        · obtain ⟨rfl, rfl⟩ := Prod.mk.inj hNew
          exact hSettled rfl p n hTask
        · exact h.settled p t n hTask hOld
      exact ⟨hOf.inactive, hOf.unasked⟩ }

theorem get?_set_fence {key key' : String × Nat} {lease lease' : FenceLease}
    (h : InsertionMap.get? (InsertionMap.set w.fence key lease) key' = some lease') :
    (key' = key ∧ lease' = lease) ∨ InsertionMap.get? w.fence key' = some lease' := by
  by_cases hKey : key = key'
  · subst hKey
    rw [InsertionMap.get?_set_self] at h
    exact .inl ⟨rfl, (Option.some.inj h).symm⟩
  · rw [InsertionMap.get?_set_of_ne _ _ hKey] at h
    exact .inr h

theorem get?_fence_none {key key' : String × Nat} {lease : FenceLease}
    (h : InsertionMap.get? (InsertionMap.set w.fence key lease) key' = none) : InsertionMap.get? w.fence key' = none := by
  by_cases hKey : key = key'
  · subst hKey
    rw [InsertionMap.get?_set_self] at h
    cases h
  · rwa [InsertionMap.get?_set_of_ne _ _ hKey] at h

theorem Sound.activate (h : Sound w) {q : Request} (hAsked : ∃ r, w.receipt q.leaseId = some r ∧ r.identity = q.identity)
    (hSettled : ∀ p t n, Task.retiring p t n ∈ w.tasks → (t, Answer.unregistered) ∈ w.answers →
      q.leaseId = p.leaseId → q.identity ≠ p.identity) :
    Sound { w with fence := InsertionMap.set w.fence q.key ⟨q.identity, true⟩ } :=
  { h with
    owned := fun key lease hLease => by
      obtain ⟨rfl, rfl⟩ | hOld := get?_set_fence hLease
      · rfl
      · exact h.owned key lease hOld
    named := fun key lease hLease hAct => by
      obtain ⟨rfl, rfl⟩ | hOld := get?_set_fence hLease
      · exact hAsked
      · exact h.named key lease hOld hAct
    asked := fun q' hq' hOp hNone => h.asked q' hq' hOp (get?_fence_none hNone)
    settled := fun p t n hTask hAns => by
      refine ⟨fun lease hLease hAct => ?_, fun hNone => (h.settled p t n hTask hAns).unasked (get?_fence_none hNone)⟩
      obtain ⟨hKey, rfl⟩ | hOld := get?_set_fence hLease
      · exact hSettled p t n hTask hAns (Prod.mk.inj hKey).2.symm
      · exact (h.settled p t n hTask hAns).inactive lease hOld hAct }

theorem Sound.deactivate (h : Sound w) {key : String × Nat} {lease : FenceLease}
    (hLease : InsertionMap.get? w.fence key = some lease) :
    Sound { w with fence := InsertionMap.set w.fence key { lease with active := false } } :=
  { h with
    owned := fun key' lease' hLease' => by
      obtain ⟨rfl, rfl⟩ | hOld := get?_set_fence hLease'
      · exact h.owned key' lease hLease
      · exact h.owned key' lease' hOld
    named := fun key' lease' hLease' hAct => by
      obtain ⟨rfl, rfl⟩ | hOld := get?_set_fence hLease'
      · cases hAct
      · exact h.named key' lease' hOld hAct
    asked := fun q hq hOp hNone => h.asked q hq hOp (get?_fence_none hNone)
    settled := fun p t n hTask hAns => by
      refine ⟨fun lease' hLease' hAct => ?_, fun hNone =>
        (h.settled p t n hTask hAns).unasked (get?_fence_none hNone)⟩
      obtain ⟨-, rfl⟩ | hOld := get?_set_fence hLease'
      · cases hAct
      · exact (h.settled p t n hTask hAns).inactive lease' hOld hAct }

theorem Sound.fenceRegister (h : Sound w) {q : Request} (generation : String) (hTok : q.token < w.nextId)
    (hAsked : InsertionMap.get? w.fence q.key = none → ∃ r, w.receipt q.leaseId = some r ∧ r.identity = q.identity)
    (hSettled : InsertionMap.get? w.fence q.key = none → ∀ p t n, Task.retiring p t n ∈ w.tasks →
      (t, Answer.unregistered) ∈ w.answers → q.leaseId = p.leaseId → q.identity ≠ p.identity) :
    Sound (w.fenceRegister q generation) := by
  unfold World.fenceRegister
  split
  · split <;> exact h.answered_with hTok nofun
  · next hNone => exact (h.activate (hAsked hNone) (hSettled hNone)).answered_with hTok nofun

theorem Sound.fenceUnregister (h : Sound w) {q : Request} (hTok : q.token < w.nextId)
    (hSent : ∀ p n, Task.retiring p q.token n ∈ w.tasks → q.leaseId = p.leaseId ∧ q.identity = p.identity)
    (hFits : ∀ p n, Task.retiring p q.token n ∈ w.tasks → InsertionMap.get? w.fence q.key = none →
      ∀ q' ∈ w.inflight, q'.op = .register → q'.leaseId ≠ q.leaseId) : Sound (w.fenceUnregister q) := by
  unfold World.fenceUnregister
  split
  · next lease hLease =>
    split
    · exact h.answered_with hTok nofun
    · refine (h.deactivate hLease).answered_with hTok fun _ p n hTask => ?_
      obtain ⟨hEq, hId⟩ := hSent p n hTask
      have hKey : (p.identity.ownerId, p.leaseId) = q.key := Prod.ext (congrArg Identity.ownerId hId.symm) hEq.symm
      rw [← hEq, ← hId]
      refine ⟨fun lease' hLease' hAct => ?_, fun hNone => ?_⟩
      · have := (InsertionMap.get?_set_self w.fence q.key { lease with active := false }).symm.trans hLease'
        obtain rfl := Option.some.inj this
        cases hAct
      · exact absurd ((InsertionMap.get?_set_self w.fence q.key { lease with active := false }).symm.trans hNone) nofun
  · next hNone =>
    refine h.answered_with hTok fun _ p n hTask => ?_
    obtain ⟨hEq, hId⟩ := hSent p n hTask
    rw [← hEq, ← hId]
    exact ⟨fun lease hLease => absurd (hNone.symm.trans hLease) nofun,
      fun _ q' hq' hOp hAt => absurd hAt (hFits p n hTask hNone q' hq' hOp)⟩

theorem Kept.land (h : Kept w) {j : Nat} {verdict : World.Verdict} (hFits : w.landFits j verdict = true) :
    Kept (w.land j verdict) := by
  unfold World.land
  split
  · exact h
  next q hq =>
  have hMem : q ∈ w.inflight := mem_of_getElem? hq
  have hTaken : Sound { w with inflight := w.inflight.eraseIdx j } :=
    h.sound.congr rfl rfl eraseIdx_subset rfl (List.Subset.refl _) (Nat.le_refl _) rfl
  have hTok : q.token < w.nextId := h.sound.tokens q hMem
  -- the fence changes neither receipts, nor handlers, nor the alarm
  have hArmed : Armed { w with inflight := w.inflight.eraseIdx j } := h.armed.mono rfl id fun _ _ _ hTask => hTask
  dsimp only
  split
  · next generation hOp =>
    refine ⟨hTaken.fenceRegister generation hTok (h.sound.asked q hMem hOp) fun hNone p t n hTask hAns hAt hId => ?_, ?_⟩
    · have hKey : q.key = (p.identity.ownerId, p.leaseId) := Prod.ext (congrArg Identity.ownerId hId) hAt
      exact (h.sound.settled p t n hTask hAns).unasked (hKey ▸ hNone) q hMem hOp hAt hId
    · unfold World.fenceRegister
      split
      · split <;> exact hArmed.mono rfl id fun _ _ _ hTask => hTask
      · exact hArmed.mono rfl id fun _ _ _ hTask => hTask
  · next generation hOp =>
    refine ⟨hTaken.fenceUnregister hTok (fun p n hTask => ?_) fun p n hTask hNone q' hq' hOp' hAt => ?_, ?_⟩
    · exact (h.sound.sent p q.token n hTask q hMem rfl).2
    · have hAwaited : w.awaited q.token = true := any_eq_true.mpr ⟨_, hTask, decide_eq_true rfl⟩
      rw [World.landFits, hq] at hFits
      simp only [hOp, hAwaited, InsertionMap.has_eq_isSome, show InsertionMap.get? w.fence q.key = none from hNone] at hFits
      have hUnasked : w.unasked q.leaseId = true := by simpa using hFits
      have := all_eq_true.mp hUnasked q' (eraseIdx_subset hq')
      simp [hOp', hAt] at this
    · unfold World.fenceUnregister
      split
      · split <;> exact hArmed.mono rfl id fun _ _ _ hTask => hTask
      · exact hArmed.mono rfl id fun _ _ _ hTask => hTask
  · exact ⟨hTaken.answered_with hTok (by simp), hArmed.mono rfl id fun _ _ _ hTask => hTask⟩
  · exact ⟨hTaken.answered_with hTok (by simp), hArmed.mono rfl id fun _ _ _ hTask => hTask⟩

/-! ## Steps -/

theorem mem_dropTask {i : Nat} {task other : Task} (h : w.tasks[i]? = some task) (hOther : other ∈ w.tasks)
    (hNe : other ≠ task) : other ∈ (w.dropTask i).tasks := by
  obtain ⟨k, hk⟩ := mem_iff_getElem?.mp hOther
  refine mem_eraseIdx_iff_getElem?.mpr ⟨k, ?_, hk⟩
  rintro rfl
  exact hNe (Option.some.inj (hk.symm.trans h))

theorem Kept.dropTask (h : Kept w) {i : Nat} {task : Task} (hAt : w.tasks[i]? = some task)
    (hTask : ∀ p t n, task ≠ .retiring p t n) : Kept (w.dropTask i) where
  sound := h.sound.congr rfl rfl (List.Subset.refl _) rfl eraseIdx_subset (Nat.le_refl _) rfl
  armed := h.armed.mono rfl id fun p t n hMem => mem_dropTask hAt hMem (hTask p t n).symm

theorem mem_of_find? {token : Nat} {answer : Answer}
    (h : (w.answers.find? (fun a => a.1 = token)).map Prod.snd = some answer) : (token, answer) ∈ w.answers := by
  obtain ⟨a, hFind, rfl⟩ := Option.map_eq_some_iff.mp h
  have hTok : a.1 = token := by simpa using find?_some hFind
  exact hTok ▸ mem_of_find?_eq_some hFind

theorem Kept.proceed_retiring (h : Kept w) {i : Nat} {pending : Receipt} {token : Nat} {next : After}
    {answer : Option Answer} (hAt : w.tasks[i]? = some (.retiring pending token next))
    (hAns : answer = some .unregistered → (token, Answer.unregistered) ∈ w.answers)
    (hFits : answer = some .unregistered → ((w.dropTask i).forget pending).goOnFits next = true) :
    Kept ((w.dropTask i).retired pending next answer) := by
  have hMem : Task.retiring pending token next ∈ w.tasks := mem_of_getElem? hAt
  refine Kept.retired (h.sound.congr rfl rfl (List.Subset.refl _) rfl eraseIdx_subset (Nat.le_refl _) rfl)
    (fun l r hr hPh => ?_) (fun hIs => ?_) hFits
  · obtain hAlarm | ⟨p, t, n, hTask, hOf⟩ := h.armed l r hr hPh
    · exact .inl (.inl hAlarm)
    · by_cases hEq : Task.retiring p t n = .retiring pending token next
      · obtain ⟨rfl, rfl, rfl⟩ := Task.retiring.inj hEq
        exact .inr hOf
      · exact .inl (.inr ⟨p, t, n, mem_dropTask hAt hTask hEq, hOf⟩)
  · have hSettled := h.sound.settled pending token next hMem (hAns hIs)
    exact ⟨hSettled.inactive, hSettled.unasked⟩

theorem Kept.proceed (h : Kept w) {i : Nat} {lost : Bool} (hFits : w.proceedFits i lost = true) :
    Kept (w.proceed i lost) := by
  unfold World.proceed
  unfold World.proceedFits at hFits
  split
  · exact h
  next task hAt =>
  rw [hAt] at hFits
  dsimp only
  split <;> dsimp only at hFits
  · next call r token =>
    have hGone := h.dropTask hAt (by simp)
    split
    · exact hGone.commit r _
    · next hAns =>
      split
      · next hCombined =>
        cases lost with
        | true => cases hAns
        | false =>
          rw [if_neg Bool.false_ne_true] at hAns
          simp only [hAns, hCombined, Bool.false_or, ne_eq, not_true_eq_false, decide_false, Bool.not_true,
            Bool.and_eq_true] at hFits
          exact hGone.dropIntent hFits.1 hFits.2
      · exact hGone
    · exact hGone
    · split
      · exact hGone
      · exact h
  · exact h.dropTask hAt (by simp)
  · next pending token next =>
    split
    · next answer hAns =>
      cases lost with
      | true => simp at hAns
      | false =>
        rw [if_neg Bool.false_ne_true] at hAns
        refine h.proceed_retiring hAt (fun hIs => mem_of_find? (hIs ▸ hAns)) fun hIs => ?_
        rw [hAns, hIs] at hFits
        simpa using hFits
    · split
      · exact h.proceed_retiring hAt nofun nofun
      · exact h
  · exact (h.dropTask hAt (by simp)).identified _ hFits

theorem Kept.unregister (h : Kept w) (identity : Identity) (leaseId : Nat) (generation : Option String) :
    Kept (w.unregister identity leaseId generation) := by
  unfold World.unregister
  split
  · split
    · exact h.retire _ _
    · exact h
  · exact ⟨h.sound.park (by simp), h.armed.mono rfl id fun _ _ _ hTask => mem_append_left _ hTask⟩

theorem Kept.replaced (h : Kept w)
    (hFits : w.alarm || w.tasks.any Task.alarming || w.receipts.all (fun e => e.2.phase ≠ .unregisterPending)) :
    Kept { w with tasks := [], alarm := w.alarm || w.tasks.any Task.alarming } where
  sound := h.sound.congr rfl rfl (List.Subset.refl _) rfl (nil_subset _) (Nat.le_refl _) rfl
  armed l r hr hPh := by
    obtain hAlarm | hNone := Bool.or_eq_true_iff.mp hFits
    · exact .inl hAlarm
    · have := all_eq_true.mp hNone _ (InsertionMap.mem_of_get? hr)
      simp [hPh] at this

theorem Kept.expire (h : Kept w) (key : String × Nat) : Kept (w.expire key) := by
  unfold World.expire
  split
  · next lease hLease => exact ⟨h.sound.deactivate hLease, h.armed.mono rfl id fun _ _ _ hTask => hTask⟩
  · exact h

theorem Kept.step (h : Kept w) {input : Input} (hFits : w.fits input = true) : Kept (w.step input) := by
  have hEq : ∀ alarm imported, Sound { w with alarm, imported } :=
    fun _ _ => h.sound.congr rfl rfl (List.Subset.refl _) rfl (List.Subset.refl _) (Nat.le_refl _) rfl
  cases input with
  | register call => exact h.register hFits
  | unregister turn =>
    rw [World.step]
    split
    · exact h.unregister _ _ _
    · exact h
  | purgeCancel identity leaseId generation retires =>
    have hCanceled : Kept { w with imported := w.imported ++ [leaseId] } :=
      ⟨hEq _ _, h.armed.mono rfl id fun _ _ _ hTask => hTask⟩
    rw [World.step]
    split
    · exact hCanceled.unregister _ _ _
    · exact hCanceled
  | alarm =>
    rw [World.step]
    split
    · next hAlarm =>
      refine ⟨Sound.retryRetirements (hEq _ _) _, armed_retryRetirements fun _ => .inr ?_⟩
      rw [World.fits, hAlarm, Bool.not_true, Bool.false_or] at hFits
      exact hFits
    · exact h
  | deleteAlarm =>
    rw [World.step]
    split
    · exact ⟨hEq _ _, armed_of_alarm rfl⟩
    · next hDebt =>
      have hArmed : Armed { w with alarm := false } := armed_of_debtSeen hFits (Bool.eq_false_iff.mpr hDebt)
      exact ⟨hEq _ _, hArmed⟩
  | setAlarm => exact ⟨hEq _ _, armed_of_alarm rfl⟩
  | lands j verdict => exact h.land hFits
  | vanishes j => exact h.congr rfl rfl eraseIdx_subset rfl rfl (Nat.le_refl _) rfl id
  | expires key => exact h.expire key
  | proceed i lost => exact h.proceed hFits
  | replaced => exact h.replaced hFits

/-! ## Runs -/

theorem kept_empty : Kept {} where
  sound := {
    keyed := nofun
    owned := nofun
    named := nofun
    asked := forall_mem_nil _
    live := nofun
    tokens := forall_mem_nil _
    answered := forall_mem_nil _
    waiting := fun _ _ _ hTask => absurd hTask not_mem_nil
    sent := fun _ _ _ hTask => absurd hTask not_mem_nil
    settled := fun _ _ _ hTask => absurd hTask not_mem_nil }
  armed := nofun

/-- While no answer of an unregister overtakes a register of its lease, no skipped register drops the intent of
another, and no isolate is lost between a pending receipt and its alarm, no lease is orphaned. -/
theorem World.named_of_run {inputs : List Input}
    (hRun : Along World.step (fun w input => w.fits input = true) {} inputs) : Safe (run World.step {} inputs) := by
  have hKept : Kept (run World.step {} inputs) :=
    run_invariant (fun _ _ hKept hFits => hKept.step hFits) kept_empty hRun
  exact hKept.safe

def heldBy (turnId : String) : Identity := ⟨"owner", "g1", turnId⟩

def turnOf (turnId : String) (leaseId : Option Nat) : OwnerFencedTurn := ⟨heldBy turnId, leaseId, none⟩

def retriedRun : List Input :=
  [.register ⟨turnOf "t1" none, false, none, false⟩, .lands 0 (.accept "f1"), .proceed 0 false,
    .register ⟨turnOf "t2" none, false, none, false⟩, .lands 0 (.accept "f1"), .proceed 0 false,
    .unregister (turnOf "t1" (some 0)), .lands 0 .refuse, .proceed 0 false, .replaced,
    .alarm, .lands 0 (.accept "f1"), .proceed 0 false]

theorem World.named_of_retriedRun :
    (run World.step {} retriedRun).receipts.map Prod.fst = [2] ∧
      (run World.step {} retriedRun).fence = [(("owner", 0), ⟨heldBy "t1", false⟩), (("owner", 2), ⟨heldBy "t2", true⟩)] ∧
      Safe (run World.step {} retriedRun) :=
  ⟨by decide, by decide, World.named_of_run (by decide)⟩

def crossedRun : List Input :=
  [.register ⟨turnOf "t1" none, false, none, false⟩, .unregister (turnOf "t1" (some 0)),
    .lands 1 (.accept "f1"), .proceed 1 false, .lands 0 (.accept "f1"), .proceed 0 false, .vanishes 0, .proceed 0 true]

def strandedRun : List Input :=
  [.register ⟨turnOf "t1" none, false, none, false⟩, .lands 0 (.accept "f1"), .proceed 0 false,
    .unregister (turnOf "t1" (some 0)), .replaced]

theorem World.crossedRun_orphans :
    ¬ Safe (run World.step {} crossedRun) ∧ ¬ Safe (run World.step {} strandedRun) := by
  constructor
  · intro h
    have hHeld : InsertionMap.get? (run World.step {} crossedRun).fence ("owner", 0) = some ⟨heldBy "t1", true⟩ := by
      decide
    obtain ⟨-, r, hr, -⟩ := h.named "owner" 0 _ hHeld rfl
    have hNone : (run World.step {} crossedRun).receipt 0 = none := by decide
    exact absurd (hNone.symm.trans hr) nofun
  · intro h
    have hPending : (run World.step {} strandedRun).receipt 0 =
        some ⟨heldBy "t1", 0, .unregisterPending, some "f1", true, none⟩ := by decide
    have hAlarm := h.armed (by decide) 0 _ hPending rfl
    exact absurd hAlarm (by decide)

end Stella.OwnerLeases
