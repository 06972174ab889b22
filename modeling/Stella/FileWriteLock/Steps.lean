import Stella.Library.Transition
import Stella.FileWriteLock.Chains

/-! # The events of the locks keep the chains -/

namespace Stella.FileWriteLock.Locks

open List

variable {s : Locks} {l : Nat} {link : Link}

theorem Linked.mono {later : Locks} (h : s.Linked) (hCalls : later.calls = s.calls)
    (hLinks : ∀ (i : Nat) (a : Link), s.links[i]? = some a →
      ∃ b : Link, later.links[i]? = some b ∧ b.call = a.call ∧ b.key = a.key)
    (hInner : ∀ (i : Nat) (b : Link) (j : Nat), later.links[i]? = some b → b.phase = .fired (some j) →
      ∃ next : Link, later.links[j]? = some next ∧ next.call = b.call ∧ b.key < next.key) : later.Linked where
  begun c call hCall key hKey := by
    obtain ⟨i, a, hA, hACall, hAKey⟩ := h.begun c call (hCalls ▸ hCall) key hKey
    obtain ⟨b, hB, hBCall, hBKey⟩ := hLinks i a hA
    exact ⟨i, b, hB, hBCall.trans hACall, hBKey.trans hAKey⟩
  inner := hInner

/-! ## A call -/

def addCall (s : Locks) (call : Call) : Locks := { s with calls := s.calls ++ [call] }

section Call

variable {call : Call}

theorem Shaped.old (h : s.Shaped) {found : Call} (hLink : s.links[l]? = some link)
    (hCall : (s.addCall call).calls[link.call]? = some found) : s.calls[link.call]? = some found := by
  obtain ⟨own, hOwn, -⟩ := h.keyed l link hLink
  rcases concat_at.mp hCall with hOld | ⟨hAt, -⟩
  · exact hOld
  · exact absurd (List.getElem?_eq_some_iff.mp hOwn).1 (Nat.not_lt.mpr hAt.ge)

theorem Shaped.addCall (h : s.Shaped) (hSort : call.keys.Pairwise (· < ·)) (hFree : call.keys = [] → call.task ≠ .waiting) :
    (s.addCall call).Shaped where
  sorted other hOther := by
    rcases mem_append.mp hOther with hOld | hNew
    · exact h.sorted other hOld
    · obtain rfl := mem_singleton.mp hNew
      exact hSort
  keyed i found hFound := by
    obtain ⟨own, hOwn, hSuf⟩ := h.keyed i found hFound
    exact ⟨own, concat_at.mpr (.inl hOwn), hSuf⟩
  inOrder i j a b hA hB hLt hHeadA hHeadB :=
    h.inOrder i j a b hA hB hLt (fun own hOwn => hHeadA own (concat_at.mpr (.inl hOwn)))
      fun own hOwn => hHeadB own (concat_at.mpr (.inl hOwn))
  outer i found own hFound hOwn := h.outer i found own hFound (h.old hFound hOwn)
  nested := h.nested
  free other hOther := by
    rcases mem_append.mp hOther with hOld | hNew
    · exact h.free other hOld
    · obtain rfl := mem_singleton.mp hNew
      exact hFree

theorem Timed.addCall (h : s.Timed) (hShaped : s.Shaped) (hTask : call.task ≠ .waiting → call.keys = []) :
    (s.addCall call).Timed where
  started c own hOwn hBegun key hKey := by
    rcases concat_at.mp hOwn with hOld | ⟨-, rfl⟩
    · exact h.started c own hOld hBegun key hKey
    · rw [hTask hBegun] at hKey
      cases hKey
  innermost i found own hFound hOwn := h.innermost i found own hFound (hShaped.old hFound hOwn)
  settled i found own hFound hOwn := h.settled i found own hFound (hShaped.old hFound hOwn)

end Call

theorem keys_sorted (paths : List String) : (paths.dedup.insertionSort (· ≤ ·)).Pairwise (· < ·) := by
  have hSort := pairwise_insertionSort (fun a b : String => a ≤ b) paths.dedup
  have hNd : (paths.dedup.insertionSort (· ≤ ·)).Nodup := (perm_insertionSort _ _).nodup_iff.mpr (nodup_dedup _)
  exact (hSort.and hNd).imp fun h => lt_of_le_of_ne h.1 h.2

theorem Kept.call (h : s.Kept) (lockKeyForPath : String → String) (paths : List String) :
    (s.withFileWriteLocks lockKeyForPath paths).Kept := by
  unfold withFileWriteLocks
  have hSort := keys_sorted (paths.map lockKeyForPath)
  generalize (paths.map lockKeyForPath).dedup.insertionSort (· ≤ ·) = keys at hSort ⊢
  cases keys with
  | nil =>
    have hShaped : (s.addCall ⟨[], .running⟩).Shaped := h.shaped.addCall List.Pairwise.nil fun _ => nofun
    refine ⟨hShaped, ⟨?_, h.linked.inner⟩,
      h.timed.addCall h.shaped fun _ => rfl, ⟨h.chained.prior, h.chained.behind, h.chained.ordered, h.chained.last, h.chained.clear⟩⟩
    intro c own hOwn key hKey
    rcases concat_at.mp hOwn with hOld | ⟨-, rfl⟩
    · exact h.linked.begun c own hOld key hKey
    · cases hKey
  | cons key rest =>
    have hOwn : (s.addCall ⟨key :: rest, .waiting⟩).calls[s.calls.length]? = some ⟨key :: rest, .waiting⟩ :=
      concat_at.mpr (.inr ⟨rfl, rfl⟩)
    have hShaped : (s.addCall ⟨key :: rest, .waiting⟩).Shaped := h.shaped.addCall hSort nofun
    refine ⟨hShaped.request ⟨_, hOwn, suffix_rfl⟩ (fun i a hA _ => ?_) (fun call hCall other hOther hOut => ?_)
      (fun i a hA hCall => ?_), ⟨?_, ?_⟩, (h.timed.addCall h.shaped fun hBegun => absurd rfl hBegun).request,
      Chained.request ⟨h.chained.prior, h.chained.behind, h.chained.ordered, h.chained.last, h.chained.clear⟩⟩
    · obtain ⟨own, hOld, -⟩ := h.shaped.keyed i a hA
      exact (List.getElem?_eq_some_iff.mp hOld).1
    · obtain rfl := Option.some.inj (hOwn.symm.trans hCall)
      exact absurd hOther hOut
    · obtain ⟨own, hOld, -⟩ := h.shaped.keyed i a hA
      exact absurd (List.getElem?_eq_some_iff.mp hOld).1 (Nat.not_lt.mpr hCall.ge)
    · intro c own hOwn' other hOther
      rcases concat_at.mp hOwn' with hOld | ⟨rfl, rfl⟩
      · obtain ⟨i, a, hA, hRest⟩ := h.linked.begun c own hOld other hOther
        exact ⟨i, a, link_request.mpr (.inl hA), hRest⟩
      · obtain rfl := Option.some.inj hOther
        exact ⟨_, _, link_request.mpr (.inr ⟨rfl, rfl⟩), rfl, rfl⟩
    · intro i found j hFound hFired
      rcases link_request.mp hFound with hOld | ⟨-, rfl⟩
      · obtain ⟨next, hNext, hRest⟩ := h.linked.inner i found j hOld hFired
        exact ⟨next, link_request.mpr (.inl hNext), hRest⟩
      · cases hFired

/-! ## A link fires -/

theorem Chained.front (h : s.Chained) (hLink : s.links[l]? = some link) (hMay : s.mayFire link = true) {i : Nat} {a : Link}
    (hA : s.links[i]? = some a) (hLt : i < l) (hKey : a.key = link.key) : a.phase.tailSettled = true := by
  rcases h.behind i l a link hA hLink hLt hKey with hSettled | ⟨p, before, hPrev, hBef, hBeforeKey, hLe, -⟩
  · exact hSettled
  · have hTail : before.phase.tailSettled = true := by
      have hAll := (Bool.and_eq_true_iff.mp hMay).2
      rw [hPrev, Option.all_some, hBef, Option.any_some] at hAll
      exact hAll
    rcases Nat.lt_or_eq_of_le hLe with hBelow | rfl
    · exact h.ordered i p a before hA hBef hBelow (hKey.trans hBeforeKey.symm)
        (Phase.ne_waiting_of_runSettled (Phase.runSettled_of_tailSettled hTail))
    · rwa [Option.some.inj (hA.symm.trans hBef)]

theorem Chained.fired (h : s.Chained) (hLink : s.links[l]? = some link) (hMay : s.mayFire link = true) (inner : Option Nat) :
    (s.setPhase l (.fired inner)).Chained := by
  have hWait : link.phase = .waiting := of_decide_eq_true (Bool.and_eq_true_iff.mp hMay).1
  refine h.setPhase (fun found hFound hTail => ?_) (fun i a found hFound hA hLt hKey => ?_) nofun
  · obtain rfl := Option.some.inj (hLink.symm.trans hFound)
    rw [hWait] at hTail
    cases hTail
  · obtain rfl := Option.some.inj (hLink.symm.trans hFound)
    exact h.front hLink hMay hA hLt hKey

theorem length_setPhase (s : Locks) (l : Nat) (phase : Phase) : (s.setPhase l phase).links.length = s.links.length :=
  length_modify _ _ _

theorem Kept.task_waiting (h : s.Kept) (hLink : s.links[l]? = some link) (hWait : link.phase = .waiting) {call : Call}
    (hCall : s.calls[link.call]? = some call) : call.task = .waiting := by
  by_contra hBegun
  obtain ⟨own, hOwn, hSuf⟩ := h.shaped.keyed l link hLink
  obtain rfl := Option.some.inj (hOwn.symm.trans hCall)
  obtain ⟨m, other, hOther, hEq, hKey, hPh⟩ := h.timed.started link.call own hOwn hBegun link.key (hSuf.subset mem_cons_self)
  rcases Nat.lt_trichotomy m l with hLt | rfl | hGt
  · exact absurd hKey (h.shaped.nested m l other link hOther hLink hLt hEq).2.ne
  · rw [Option.some.inj (hLink.symm.trans hOther)] at hWait
    exact hPh hWait
  · exact absurd hWait (h.shaped.nested l m link other hLink hOther hGt hEq.symm).1

theorem Kept.fire_last (h : s.Kept) (hLink : s.links[l]? = some link) (hMay : s.mayFire link = true) (hRest : link.rest = []) :
    ((s.setPhase l (.fired none)).setTask link.call .running).Kept := by
  have hWait : link.phase = .waiting := of_decide_eq_true (Bool.and_eq_true_iff.mp hMay).1
  have hFired := h.chained.fired hLink hMay none
  have hOpen : Phase.fired none ≠ .waiting := nofun
  refine ⟨(h.shaped.setPhase hOpen).setTask nofun, (h.linked.setPhase fun _ _ _ hInner => by cases hInner).setTask, ⟨?_, ?_, ?_⟩,
    ⟨hFired.prior, hFired.behind, hFired.ordered, hFired.last, hFired.clear⟩⟩
  · intro c call hCall hBegun key hKey
    obtain ⟨old, hOld, rfl⟩ := call_setTask.mp hCall
    have hFound : ∃ (m : Nat) (other : Link), s.links[m]? = some other ∧ other.call = c ∧ other.key = key ∧
        (m = l ∨ other.phase ≠ .waiting) := by
      by_cases hAt : link.call = c
      · subst hAt
        rw [if_pos rfl] at hKey
        by_cases hOwn : key = link.key
        · exact ⟨l, link, hLink, rfl, hOwn.symm, .inl rfl⟩
        · obtain ⟨m, other, hOther, hEq, hOtherKey, hPh⟩ := h.shaped.outer l link old hLink hOld key hKey (by
            rw [hRest]
            exact fun hMem => hOwn (mem_singleton.mp hMem))
          exact ⟨m, other, hOther, hEq, hOtherKey, .inr hPh⟩
      · rw [if_neg hAt] at hBegun hKey
        obtain ⟨m, other, hOther, hEq, hOtherKey, hPh⟩ := h.timed.started c old hOld hBegun key hKey
        exact ⟨m, other, hOther, hEq, hOtherKey, .inr hPh⟩
    obtain ⟨m, other, hOther, hEq, hOtherKey, hPh⟩ := hFound
    refine ⟨m, _, link_setPhase.mpr ⟨other, hOther, rfl⟩, by simpa using hEq, by simpa using hOtherKey, ?_⟩
    rw [stamped_phase]
    split
    · exact hOpen
    · rename_i hAt
      exact hPh.resolve_left fun h => hAt h.symm
  · intro i found call hFound hCall hPh
    obtain ⟨old, hOld, rfl⟩ := link_setPhase.mp hFound
    obtain ⟨own, hOwn, rfl⟩ := call_setTask.mp hCall
    simp only [stamped_call, stamped_phase] at hOwn hPh ⊢
    split
    · nofun
    · rename_i hOther
      split at hPh
      · rename_i hAt
        subst hAt
        rw [Option.some.inj (hLink.symm.trans hOld)] at hOther
        exact absurd rfl hOther
      · exact h.timed.innermost i old own hOld hOwn hPh
  · intro i found call hFound hCall hRun
    obtain ⟨old, hOld, rfl⟩ := link_setPhase.mp hFound
    obtain ⟨own, hOwn, rfl⟩ := call_setTask.mp hCall
    simp only [stamped_call, stamped_phase] at hOwn hRun ⊢
    split at hRun
    · cases hRun
    · have hDone := h.timed.settled i old own hOld hOwn hRun
      split
      · rename_i hEq
        rw [← hEq] at hOwn
        rw [h.task_waiting hLink hWait hOwn] at hDone
        cases hDone
      · exact hDone

theorem Kept.fire_next (h : s.Kept) (hLink : s.links[l]? = some link) (hMay : s.mayFire link = true) {key : String}
    {rest : List String}
    (hRest : link.rest = key :: rest) : ((s.setPhase l (.fired (some s.links.length))).request link.call key rest).Kept := by
  obtain ⟨own, hOwn, hSuf⟩ := h.shaped.keyed l link hLink
  have hWait : link.phase = .waiting := of_decide_eq_true (Bool.and_eq_true_iff.mp hMay).1
  have hOpen : Phase.fired (some s.links.length) ≠ .waiting := nofun
  have hSetLink : (s.setPhase l (.fired (some s.links.length))).links[l]? = some (link.stamped l l (.fired (some s.links.length))) :=
    link_setPhase.mpr ⟨link, hLink, rfl⟩
  rw [hRest] at hSuf
  have hKeys := (h.shaped.sorted own (mem_of_getElem? hOwn)).sublist hSuf.sublist
  have hBelow : link.key < key := (pairwise_cons.mp hKeys).1 key mem_cons_self
  have hTimed : (s.setPhase l (.fired (some s.links.length))).Timed :=
    h.timed.setPhase hOpen (fun _ _ _ _ hFired => nomatch hFired) fun _ _ _ _ hRun => nomatch hRun
  refine ⟨(h.shaped.setPhase hOpen).request ⟨own, hOwn, (suffix_cons _ _).trans hSuf⟩ (fun i a hA hHead => ?_)
    (fun call hCall other hOther hOut => ?_) (fun i a hA hCall => ?_), ?_, hTimed.request, (h.chained.fired hLink hMay _).request⟩
  · -- A further key is not the first of its call.
    have hFirst := hHead own hOwn
    obtain ⟨front, hFront⟩ := hSuf
    have hWhole := h.shaped.sorted own (mem_of_getElem? hOwn)
    rw [← hFront] at hFirst hWhole
    cases front with
    | nil => exact absurd (Option.some.inj hFirst) hBelow.ne
    | cons head front =>
      obtain rfl : head = key := Option.some.inj hFirst
      exact absurd rfl ((pairwise_cons.mp hWhole).1 head (mem_append_right _ (mem_cons_of_mem _ mem_cons_self))).ne
  · obtain rfl := Option.some.inj (hOwn.symm.trans hCall)
    by_cases hAt : other = link.key
    · exact ⟨l, _, hSetLink, by simp, by simpa using hAt.symm, by simp⟩
    · obtain ⟨m, found, hFound, hCall, hKey, hPh⟩ := h.shaped.outer l link own hLink hOwn other hOther (by
        rw [hRest]
        exact fun hMem => (mem_cons.mp hMem).elim hAt hOut)
      refine ⟨m, _, link_setPhase.mpr ⟨found, hFound, rfl⟩, by simpa using hCall, by simpa using hKey, ?_⟩
      rw [stamped_phase]
      split
      · exact hOpen
      · exact hPh
  · obtain ⟨old, hOld, rfl⟩ := link_setPhase.mp hA
    simp only [stamped_call, stamped_key, stamped_phase] at hCall ⊢
    rcases Nat.lt_trichotomy i l with hLt | rfl | hGt
    · obtain ⟨hPh, hKey⟩ := h.shaped.nested i l old link hOld hLink hLt hCall
      rw [if_neg hLt.ne']
      exact ⟨hPh, hKey.trans hBelow⟩
    · rw [if_pos rfl, ← Option.some.inj (hLink.symm.trans hOld)]
      exact ⟨hOpen, hBelow⟩
    · exact absurd hWait (h.shaped.nested l i link old hLink hOld hGt hCall.symm).1
  · refine h.linked.mono rfl (fun i a hA => ?_) (fun i b j hB hFired => ?_)
    · exact ⟨_, link_request.mpr (.inl (link_setPhase.mpr ⟨a, hA, rfl⟩)), by simp, by simp⟩
    · rcases link_request.mp hB with hStamped | ⟨-, rfl⟩
      · obtain ⟨old, hOld, rfl⟩ := link_setPhase.mp hStamped
        simp only [stamped_call, stamped_key, stamped_phase] at hFired ⊢
        split at hFired
        · rename_i hAt
          obtain rfl : link = old := Option.some.inj (hLink.symm.trans (hAt ▸ hOld))
          obtain rfl := Option.some.inj (Phase.fired.inj hFired)
          exact ⟨_, link_request.mpr (.inr ⟨(length_setPhase s l _).symm, rfl⟩), rfl, hBelow⟩
        · obtain ⟨next, hNext, hCall, hKey⟩ := h.linked.inner i old j hOld hFired
          exact ⟨_, link_request.mpr (.inl (link_setPhase.mpr ⟨next, hNext, rfl⟩)), by simpa using hCall, by simpa using hKey⟩
      · cases hFired

theorem Kept.fire (h : s.Kept) (hLink : s.links[l]? = some link) (hMay : s.mayFire link = true) : (s.fire l link).Kept := by
  unfold Locks.fire
  split
  · rename_i hRest
    exact h.fire_last hLink hMay hRest
  · rename_i key rest hRest
    exact h.fire_next hLink hMay hRest

/-! ## A task finishes, and its links settle -/

theorem Kept.finish (h : s.Kept) {c : Nat} {call : Call} (hCall : s.calls[c]? = some call) (hRuns : call.task = .running) :
    (s.setTask c .done).Kept := by
  refine ⟨h.shaped.setTask nofun, h.linked.setTask, ⟨?_, ?_, ?_⟩, ⟨h.chained.prior, h.chained.behind, h.chained.ordered, h.chained.last, h.chained.clear⟩⟩
  · intro i found hFound hBegun key hKey
    obtain ⟨old, hOld, rfl⟩ := call_setTask.mp hFound
    split at hKey
    · rename_i hAt
      subst hAt
      obtain rfl := Option.some.inj (hCall.symm.trans hOld)
      exact h.timed.started c call hCall (by rw [hRuns]; nofun) key hKey
    · rename_i hAt
      rw [if_neg hAt] at hBegun
      exact h.timed.started i old hOld hBegun key hKey
  · intro i found own hFound hOwn hPh
    obtain ⟨old, hOld, rfl⟩ := call_setTask.mp hOwn
    split
    · nofun
    · exact h.timed.innermost i found old hFound hOld hPh
  · intro i found own hFound hOwn hRun
    obtain ⟨old, hOld, rfl⟩ := call_setTask.mp hOwn
    split
    · rfl
    · exact h.timed.settled i found old hFound hOld hRun

theorem Kept.done_of_maySettle (h : s.Kept) (hLink : s.links[l]? = some link) (hMay : s.maySettle link = true) {call : Call}
    (hCall : s.calls[link.call]? = some call) : call.task = .done := by
  unfold maySettle at hMay
  split at hMay
  · rw [hCall, Option.any_some] at hMay
    exact of_decide_eq_true hMay
  · rename_i j hFired
    obtain ⟨next, hNext, hEq, -⟩ := h.linked.inner l link j hLink hFired
    rw [hNext, Option.any_some] at hMay
    exact h.timed.settled j next call hNext (hEq ▸ hCall) hMay
  · cases hMay

theorem Kept.advance (h : s.Kept) (hLink : s.links[l]? = some link) {phase : Phase} (hOld : link.phase ≠ .waiting)
    (hRun : phase.runSettled = true) (hTail : link.phase.tailSettled = true → phase.tailSettled = true)
    (hCleaned : phase ≠ .cleaned)
    (hDone : ∀ call, s.calls[link.call]? = some call → call.task = .done) : (s.setPhase l phase).Kept := by
  have hOpen := Phase.ne_waiting_of_runSettled hRun
  refine ⟨h.shaped.setPhase hOpen, h.linked.setPhase fun _ _ _ hInner => ?_, h.timed.setPhase hOpen (fun _ _ _ _ hFired => ?_)
    fun found call hFound hCall _ => ?_, h.chained.setPhase (fun found hFound hSettled => ?_)
    (fun i a found hFound hA hLt hKey => ?_) hCleaned⟩
  · rw [hInner] at hRun
    cases hRun
  · rw [hFired] at hRun
    cases hRun
  · obtain rfl := Option.some.inj (hLink.symm.trans hFound)
    exact hDone call hCall
  · obtain rfl := Option.some.inj (hLink.symm.trans hFound)
    exact hTail hSettled
  · obtain rfl := Option.some.inj (hLink.symm.trans hFound)
    exact h.chained.ordered i l a link hA hLink hLt hKey hOld

theorem Chained.clean (h : s.Chained) (hLink : s.links[l]? = some link) (hReleased : link.phase = .released) :
    (s.clean l link).Chained := by
  have hTail : ∀ found : Link, s.links[l]? = some found → found.phase.tailSettled = true → Phase.cleaned.tailSettled = true :=
    fun _ _ _ => rfl
  have hOrdered : ∀ (i : Nat) (a found : Link), s.links[l]? = some found → s.links[i]? = some a → i < l → a.key = found.key →
      a.phase.tailSettled = true := by
    intro i a found hFound hA hLt hKey
    refine h.ordered i l a found hA hFound hLt hKey ?_
    rw [← Option.some.inj (hLink.symm.trans hFound), hReleased]
    simp
  unfold Locks.clean
  dsimp only
  split
  · rename_i hHeld
    refine ⟨fun _ _ _ => h.prior_setPhase, fun _ _ _ _ => h.behind_setPhase hTail, fun _ _ _ _ => h.ordered_setPhase hTail hOrdered,
      fun key q hQueue => ?_, fun key hQueue i a hA hKey => ?_⟩
    · have hNe : link.key ≠ key := by
        rintro rfl
        exact absurd (hQueue.symm.trans (InsertionMap.get?_erase_self _ _)) (Option.some_ne_none _)
      have hOld : s.queues.get? key = some q := (InsertionMap.get?_erase_of_ne _ hNe).symm.trans hQueue
      refine h.last_setPhase hOld fun hAt => absurd ?_ hNe
      obtain ⟨found, hFound, hKey, -⟩ := h.last key q hOld
      rw [← hAt] at hFound
      rw [Option.some.inj (hLink.symm.trans hFound)]
      exact hKey
    · by_cases hAt : link.key = key
      · subst hAt
        obtain ⟨old, hOld, rfl⟩ := link_setPhase.mp hA
        obtain ⟨-, -, -, -, hMax⟩ := h.last link.key l hHeld
        have hLe := hMax i old hOld (by simpa using hKey)
        rcases Nat.lt_or_eq_of_le hLe with hLt | rfl
        · exact tailSettled_stamped hTail hOld (hOrdered i old link hLink hOld hLt (by simpa using hKey))
        · rw [stamped_phase, if_pos rfl]
          rfl
      · exact h.clear_setPhase hTail ((InsertionMap.get?_erase_of_ne _ hAt).symm.trans hQueue) hA hKey
  · rename_i hHeld
    refine ⟨fun _ _ _ => h.prior_setPhase, fun _ _ _ _ => h.behind_setPhase hTail, fun _ _ _ _ => h.ordered_setPhase hTail hOrdered,
      fun key q hQueue => h.last_setPhase hQueue fun hAt => absurd ?_ hHeld, fun _ hQueue _ _ => h.clear_setPhase hTail hQueue⟩
    obtain ⟨found, hFound, hKey, -⟩ := h.last key q hQueue
    rw [← hAt] at hFound hQueue
    rw [Option.some.inj (hLink.symm.trans hFound), hKey]
    exact hQueue

theorem Kept.clean (h : s.Kept) (hLink : s.links[l]? = some link) (hReleased : link.phase = .released) : (s.clean l link).Kept := by
  have hDone : ∀ call, s.calls[link.call]? = some call → call.task = .done := fun call hCall =>
    h.timed.settled l link call hLink hCall (by rw [hReleased]; rfl)
  have hOpen : Phase.cleaned ≠ .waiting := nofun
  have hShaped : (s.setPhase l .cleaned).Shaped := h.shaped.setPhase hOpen
  have hLinked : (s.setPhase l .cleaned).Linked := h.linked.setPhase fun _ _ _ hInner => by cases hInner
  have hTimed : (s.setPhase l .cleaned).Timed := h.timed.setPhase hOpen (fun _ _ _ _ hFired => by cases hFired)
    fun found call hFound hCall _ => by
      obtain rfl := Option.some.inj (hLink.symm.trans hFound)
      exact hDone call hCall
  have hChained := h.chained.clean hLink hReleased
  unfold Locks.clean at hChained ⊢
  dsimp only at hChained ⊢
  split at hChained
  · rename_i hHeld
    rw [if_pos hHeld]
    exact ⟨⟨hShaped.sorted, hShaped.keyed, hShaped.inOrder, hShaped.outer, hShaped.nested, hShaped.free⟩, ⟨hLinked.begun, hLinked.inner⟩,
      ⟨hTimed.started, hTimed.innermost, hTimed.settled⟩, hChained⟩
  · rename_i hHeld
    rw [if_neg hHeld]
    exact ⟨hShaped, hLinked, hTimed, hChained⟩

theorem Kept.step (h : s.Kept) (lockKeyForPath : String → String) (event : Event) : (s.step lockKeyForPath event).Kept := by
  unfold Locks.step
  split
  · rename_i hEnabled
    cases event with
    | call paths => exact h.call lockKeyForPath paths
    | fire l =>
      obtain ⟨link, hLink, hMay⟩ := (Option.any_eq_true _ _).mp hEnabled
      dsimp only
      rw [hLink, Option.elim_some]
      exact h.fire hLink hMay
    | finish c =>
      obtain ⟨call, hCall, hRuns⟩ := (Option.any_eq_true _ _).mp hEnabled
      exact h.finish hCall (of_decide_eq_true hRuns)
    | settle l =>
      obtain ⟨link, hLink, hMay⟩ := (Option.any_eq_true _ _).mp hEnabled
      have hFired : link.phase ≠ .waiting ∧ link.phase.tailSettled = false := by
        unfold maySettle at hMay
        split at hMay
        · rename_i hPh
          exact ⟨by rw [hPh]; nofun, by rw [hPh]; rfl⟩
        · rename_i inner hPh
          exact ⟨by rw [hPh]; nofun, by rw [hPh]; rfl⟩
        · cases hMay
      exact h.advance hLink hFired.1 rfl (fun hTail => absurd (hFired.2.symm.trans hTail) Bool.false_ne_true) nofun
        fun call hCall => h.done_of_maySettle hLink hMay hCall
    | release l =>
      obtain ⟨link, hLink, hMay⟩ := (Option.any_eq_true _ _).mp hEnabled
      have hSettled : link.phase = .settled := of_decide_eq_true hMay
      exact h.advance hLink (by rw [hSettled]; nofun) rfl (fun _ => rfl) nofun fun call hCall =>
        h.timed.settled l link call hLink hCall (by rw [hSettled]; rfl)
    | clean l =>
      obtain ⟨link, hLink, hMay⟩ := (Option.any_eq_true _ _).mp hEnabled
      dsimp only
      rw [hLink, Option.elim_some]
      exact h.clean hLink (of_decide_eq_true hMay)
  · exact h

theorem kept_empty : ({} : Locks).Kept :=
  ⟨⟨nofun, nofun, nofun, nofun, nofun, nofun⟩, ⟨nofun, nofun⟩, ⟨nofun, nofun, nofun⟩, ⟨nofun, nofun, nofun, nofun, nofun⟩⟩

open Transition in
theorem kept_run (lockKeyForPath : String → String) (events : List Event) : (run (step lockKeyForPath) {} events).Kept :=
  run_invariant_always (fun _ event h => h.step lockKeyForPath event) events kept_empty

end Stella.FileWriteLock.Locks
