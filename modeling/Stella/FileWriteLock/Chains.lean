import Stella.FileWriteLock.Locks

/-! # The chains of the keys

A link that has begun stands behind links of its key that have all settled; the map holds the
last link of a key until that one is cleaned up.
-/

namespace Stella.FileWriteLock.Locks

variable {s : Locks}

structure Shaped (s : Locks) : Prop where
  sorted : ∀ call ∈ s.calls, call.keys.Pairwise (· < ·)
  keyed : ∀ (l : Nat) (link : Link), s.links[l]? = some link → ∃ call : Call, s.calls[link.call]? = some call ∧ (link.key :: link.rest) <:+ call.keys
  inOrder : ∀ (i j : Nat) (a b : Link), s.links[i]? = some a → s.links[j]? = some b → i < j →
    (∀ call : Call, s.calls[a.call]? = some call → call.keys.head? = some a.key) →
    (∀ call : Call, s.calls[b.call]? = some call → call.keys.head? = some b.key) → a.call < b.call
  outer : ∀ (l : Nat) (link : Link) (call : Call), s.links[l]? = some link → s.calls[link.call]? = some call → ∀ key ∈ call.keys, key ∉ link.key :: link.rest →
    ∃ (m : Nat) (other : Link), s.links[m]? = some other ∧ other.call = link.call ∧ other.key = key ∧ other.phase ≠ .waiting
  nested : ∀ (i j : Nat) (a b : Link), s.links[i]? = some a → s.links[j]? = some b → i < j → a.call = b.call →
    a.phase ≠ .waiting ∧ a.key < b.key
  free : ∀ call ∈ s.calls, call.keys = [] → call.task ≠ .waiting

structure Linked (s : Locks) : Prop where
  begun : ∀ (c : Nat) (call : Call), s.calls[c]? = some call → ∀ key ∈ call.keys.head?, ∃ (l : Nat) (link : Link), s.links[l]? = some link ∧ link.call = c ∧ link.key = key
  inner : ∀ (l : Nat) (link : Link) (j : Nat), s.links[l]? = some link → link.phase = .fired (some j) →
    ∃ next : Link, s.links[j]? = some next ∧ next.call = link.call ∧ link.key < next.key

structure Timed (s : Locks) : Prop where
  started : ∀ (c : Nat) (call : Call), s.calls[c]? = some call → call.task ≠ .waiting → ∀ key ∈ call.keys,
    ∃ (l : Nat) (link : Link), s.links[l]? = some link ∧ link.call = c ∧ link.key = key ∧ link.phase ≠ .waiting
  innermost : ∀ (l : Nat) (link : Link) (call : Call), s.links[l]? = some link → s.calls[link.call]? = some call → link.phase = .fired none → call.task ≠ .waiting
  settled : ∀ (l : Nat) (link : Link) (call : Call), s.links[l]? = some link → s.calls[link.call]? = some call → link.phase.runSettled = true → call.task = .done

structure Chained (s : Locks) : Prop where
  prior : ∀ (j : Nat) (b : Link) (p : Nat), s.links[j]? = some b → b.prev = some p →
    p < j ∧ ∃ before : Link, s.links[p]? = some before ∧ before.key = b.key
  behind : ∀ (i j : Nat) (a b : Link), s.links[i]? = some a → s.links[j]? = some b → i < j → a.key = b.key →
    a.phase.tailSettled = true ∨ ∃ (p : Nat) (before : Link), b.prev = some p ∧ s.links[p]? = some before ∧ before.key = b.key ∧ i ≤ p ∧ p < j
  ordered : ∀ (i j : Nat) (a b : Link), s.links[i]? = some a → s.links[j]? = some b → i < j → a.key = b.key → b.phase ≠ .waiting →
    a.phase.tailSettled = true
  last : ∀ key q, s.queues.get? key = some q → ∃ link : Link, s.links[q]? = some link ∧ link.key = key ∧ link.phase ≠ .cleaned ∧
    ∀ (i : Nat) (a : Link), s.links[i]? = some a → a.key = key → i ≤ q
  clear : ∀ key, s.queues.get? key = none → ∀ (i : Nat) (a : Link), s.links[i]? = some a → a.key = key → a.phase.tailSettled = true

structure Kept (s : Locks) : Prop where
  shaped : s.Shaped
  linked : s.Linked
  timed : s.Timed
  chained : s.Chained

theorem Phase.runSettled_of_tailSettled {phase : Phase} (h : phase.tailSettled = true) : phase.runSettled = true := by
  cases phase with
  | released => rfl
  | cleaned => rfl
  | _ => cases h

theorem Phase.ne_waiting_of_runSettled {phase : Phase} (h : phase.runSettled = true) : phase ≠ .waiting := by
  rintro rfl
  cases h

/-! ## A link goes on -/

section Stamp

variable {l : Nat} {link : Link} {phase : Phase}

theorem Shaped.setPhase (h : s.Shaped) (hBegun : phase ≠ .waiting) : (s.setPhase l phase).Shaped where
  sorted := h.sorted
  keyed i found hFound := by
    obtain ⟨old, hOld, rfl⟩ := link_setPhase.mp hFound
    simp only [stamped_call, stamped_key, stamped_rest]
    exact h.keyed i old hOld
  inOrder i j a b hA hB hLt hHeadA hHeadB := by
    obtain ⟨oldA, hOldA, rfl⟩ := link_setPhase.mp hA
    obtain ⟨oldB, hOldB, rfl⟩ := link_setPhase.mp hB
    simp only [stamped_call, stamped_key] at hHeadA hHeadB ⊢
    exact h.inOrder i j oldA oldB hOldA hOldB hLt hHeadA hHeadB
  outer i found call hFound hCall key hKey hOut := by
    obtain ⟨old, hOld, rfl⟩ := link_setPhase.mp hFound
    simp only [stamped_call, stamped_key, stamped_rest] at hCall hOut ⊢
    obtain ⟨m, other, hOther, hOtherCall, hOtherKey, hOtherPhase⟩ := h.outer i old call hOld hCall key hKey hOut
    refine ⟨m, other.stamped l m phase, link_setPhase.mpr ⟨other, hOther, rfl⟩, by simpa using hOtherCall, by simpa using hOtherKey, ?_⟩
    rw [stamped_phase]
    split
    · exact hBegun
    · exact hOtherPhase
  nested i j a b hA hB hLt hCall := by
    obtain ⟨oldA, hOldA, rfl⟩ := link_setPhase.mp hA
    obtain ⟨oldB, hOldB, rfl⟩ := link_setPhase.mp hB
    simp only [stamped_call, stamped_key, stamped_phase] at hCall ⊢
    obtain ⟨hPh, hKey⟩ := h.nested i j oldA oldB hOldA hOldB hLt hCall
    refine ⟨?_, hKey⟩
    split
    · exact hBegun
    · exact hPh
  free := h.free

theorem Linked.setPhase (h : s.Linked) (hInner : ∀ (found : Link) (j : Nat), s.links[l]? = some found → phase = .fired (some j) →
      ∃ next : Link, s.links[j]? = some next ∧ next.call = found.call ∧ found.key < next.key) : (s.setPhase l phase).Linked where
  begun c call hCall key hKey := by
    obtain ⟨i, old, hOld, hOldCall, hOldKey⟩ := h.begun c call hCall key hKey
    exact ⟨i, old.stamped l i phase, link_setPhase.mpr ⟨old, hOld, rfl⟩, by simpa using hOldCall, by simpa using hOldKey⟩
  inner i found j hFound hFired := by
    obtain ⟨old, hOld, rfl⟩ := link_setPhase.mp hFound
    simp only [stamped_call, stamped_key, stamped_phase] at hFired ⊢
    have hNext : ∃ next : Link, s.links[j]? = some next ∧ next.call = old.call ∧ old.key < next.key := by
      split at hFired
      · rename_i hAt
        exact hInner old j (hAt ▸ hOld) hFired
      · exact h.inner i old j hOld hFired
    obtain ⟨next, hNext, hCall, hKey⟩ := hNext
    exact ⟨next.stamped l j phase, link_setPhase.mpr ⟨next, hNext, rfl⟩, by simpa using hCall, by simpa using hKey⟩

theorem Timed.setPhase (h : s.Timed) (hBegun : phase ≠ .waiting)
    (hInnermost : ∀ (found : Link) (call : Call), s.links[l]? = some found → s.calls[found.call]? = some call → phase = .fired none → call.task ≠ .waiting)
    (hSettled : ∀ (found : Link) (call : Call), s.links[l]? = some found → s.calls[found.call]? = some call → phase.runSettled = true → call.task = .done) :
    (s.setPhase l phase).Timed where
  started c call hCall hTask key hKey := by
    obtain ⟨i, old, hOld, hOldCall, hOldKey, hOldPhase⟩ := h.started c call hCall hTask key hKey
    refine ⟨i, old.stamped l i phase, link_setPhase.mpr ⟨old, hOld, rfl⟩, by simpa using hOldCall, by simpa using hOldKey, ?_⟩
    rw [stamped_phase]
    split
    · exact hBegun
    · exact hOldPhase
  innermost i found call hFound hCall hFired := by
    obtain ⟨old, hOld, rfl⟩ := link_setPhase.mp hFound
    simp only [stamped_call, stamped_phase] at hCall hFired
    split at hFired
    · rename_i hAt
      exact hInnermost old call (hAt ▸ hOld) hCall hFired
    · exact h.innermost i old call hOld hCall hFired
  settled i found call hFound hCall hRun := by
    obtain ⟨old, hOld, rfl⟩ := link_setPhase.mp hFound
    simp only [stamped_call, stamped_phase] at hCall hRun
    split at hRun
    · rename_i hAt
      exact hSettled old call (hAt ▸ hOld) hCall hRun
    · exact h.settled i old call hOld hCall hRun

section

variable (h : s.Chained)
include h

theorem Chained.prior_setPhase {j p : Nat} {b : Link} (hB : (s.setPhase l phase).links[j]? = some b) (hPrev : b.prev = some p) :
    p < j ∧ ∃ before : Link, (s.setPhase l phase).links[p]? = some before ∧ before.key = b.key := by
  obtain ⟨old, hOld, rfl⟩ := link_setPhase.mp hB
  simp only [stamped_prev, stamped_key] at hPrev ⊢
  obtain ⟨hLt, before, hBef, hKey⟩ := h.prior j old p hOld hPrev
  exact ⟨hLt, _, link_setPhase.mpr ⟨before, hBef, rfl⟩, by simpa using hKey⟩

theorem Chained.last_setPhase {q : Nat} {key : String} (hQueue : s.queues.get? key = some q) (hStays : l = q → phase ≠ .cleaned) :
    ∃ link : Link, (s.setPhase l phase).links[q]? = some link ∧ link.key = key ∧ link.phase ≠ .cleaned ∧
      ∀ (i : Nat) (a : Link), (s.setPhase l phase).links[i]? = some a → a.key = key → i ≤ q := by
  obtain ⟨link, hLink, hKey, hPh, hMax⟩ := h.last key q hQueue
  refine ⟨link.stamped l q phase, link_setPhase.mpr ⟨link, hLink, rfl⟩, by simpa using hKey, ?_, fun i a hA hAKey => ?_⟩
  · rw [stamped_phase]
    split
    · rename_i hAt
      exact hStays hAt
    · exact hPh
  · obtain ⟨old, hOld, rfl⟩ := link_setPhase.mp hA
    exact hMax i old hOld (by simpa using hAKey)

variable (hTail : ∀ found : Link, s.links[l]? = some found → found.phase.tailSettled = true → phase.tailSettled = true)
include hTail

omit h in
theorem tailSettled_stamped {i : Nat} {old : Link} (hOld : s.links[i]? = some old) (hSettled : old.phase.tailSettled = true) :
    (old.stamped l i phase).phase.tailSettled = true := by
  rw [stamped_phase]
  split
  · rename_i hAt
    exact hTail old (hAt ▸ hOld) hSettled
  · exact hSettled

theorem Chained.behind_setPhase {i j : Nat} {a b : Link} (hA : (s.setPhase l phase).links[i]? = some a)
    (hB : (s.setPhase l phase).links[j]? = some b) (hLt : i < j) (hKey : a.key = b.key) :
    a.phase.tailSettled = true ∨ ∃ (p : Nat) (before : Link), b.prev = some p ∧
      (s.setPhase l phase).links[p]? = some before ∧ before.key = b.key ∧ i ≤ p ∧ p < j := by
  obtain ⟨oldA, hOldA, rfl⟩ := link_setPhase.mp hA
  obtain ⟨oldB, hOldB, rfl⟩ := link_setPhase.mp hB
  simp only [stamped_key, stamped_prev] at hKey ⊢
  rcases h.behind i j oldA oldB hOldA hOldB hLt hKey with hSettled | ⟨p, before, hPrev, hBef, hBeforeKey, hLe, hLtJ⟩
  · exact .inl (tailSettled_stamped hTail hOldA hSettled)
  · exact .inr ⟨p, before.stamped l p phase, hPrev, link_setPhase.mpr ⟨before, hBef, rfl⟩, by simpa using hBeforeKey, hLe, hLtJ⟩

theorem Chained.ordered_setPhase
    (hOrdered : ∀ (i : Nat) (a found : Link), s.links[l]? = some found → s.links[i]? = some a → i < l → a.key = found.key →
      a.phase.tailSettled = true)
    {i j : Nat} {a b : Link} (hA : (s.setPhase l phase).links[i]? = some a)
    (hB : (s.setPhase l phase).links[j]? = some b) (hLt : i < j) (hKey : a.key = b.key) (hBegun : b.phase ≠ .waiting) :
    a.phase.tailSettled = true := by
  obtain ⟨oldA, hOldA, rfl⟩ := link_setPhase.mp hA
  obtain ⟨oldB, hOldB, rfl⟩ := link_setPhase.mp hB
  simp only [stamped_key] at hKey
  refine tailSettled_stamped hTail hOldA ?_
  by_cases hAt : l = j
  · rw [← hAt] at hOldB hLt
    exact hOrdered i oldA oldB hOldB hOldA hLt hKey
  · rw [stamped_phase, if_neg hAt] at hBegun
    exact h.ordered i j oldA oldB hOldA hOldB hLt hKey hBegun

theorem Chained.clear_setPhase {key : String} (hQueue : s.queues.get? key = none) {i : Nat} {a : Link}
    (hA : (s.setPhase l phase).links[i]? = some a) (hKey : a.key = key) : a.phase.tailSettled = true := by
  obtain ⟨old, hOld, rfl⟩ := link_setPhase.mp hA
  exact tailSettled_stamped hTail hOld (h.clear key hQueue i old hOld (by simpa using hKey))

theorem Chained.setPhase
    (hOrdered : ∀ (i : Nat) (a found : Link), s.links[l]? = some found → s.links[i]? = some a → i < l → a.key = found.key →
      a.phase.tailSettled = true)
    (hCleaned : phase ≠ .cleaned) : (s.setPhase l phase).Chained where
  prior _ _ _ hB hPrev := h.prior_setPhase hB hPrev
  behind _ _ _ _ hA hB hLt hKey := h.behind_setPhase hTail hA hB hLt hKey
  ordered _ _ _ _ hA hB hLt hKey hBegun := h.ordered_setPhase hTail hOrdered hA hB hLt hKey hBegun
  last _ _ hQueue := h.last_setPhase hQueue fun _ => hCleaned
  clear _ hQueue _ _ hA hKey := h.clear_setPhase hTail hQueue hA hKey

end

end Stamp

section Request

variable {c : Nat} {key : String} {rest : List String}

theorem Shaped.request (h : s.Shaped) (hKeyed : ∃ call : Call, s.calls[c]? = some call ∧ (key :: rest) <:+ call.keys)
    (hFirst : ∀ (i : Nat) (a : Link), s.links[i]? = some a → (∀ call : Call, s.calls[c]? = some call → call.keys.head? = some key) →
      a.call < c)
    (hOuter : ∀ call : Call, s.calls[c]? = some call → ∀ other ∈ call.keys, other ∉ key :: rest →
      ∃ (m : Nat) (link : Link), s.links[m]? = some link ∧ link.call = c ∧ link.key = other ∧ link.phase ≠ .waiting)
    (hNested : ∀ (i : Nat) (a : Link), s.links[i]? = some a → a.call = c → a.phase ≠ .waiting ∧ a.key < key) :
    (s.request c key rest).Shaped where
  sorted := h.sorted
  keyed i found hFound := by
    rcases link_request.mp hFound with hOld | ⟨-, rfl⟩
    · exact h.keyed i found hOld
    · exact hKeyed
  inOrder i j a b hA hB hLt hHeadA hHeadB := by
    rcases link_request.mp hB with hOldB | ⟨rfl, rfl⟩
    · rcases link_request.mp hA with hOldA | ⟨rfl, rfl⟩
      · exact h.inOrder i j a b hOldA hOldB hLt hHeadA hHeadB
      · exact absurd (List.getElem?_eq_some_iff.mp hOldB).1 (Nat.not_lt.mpr hLt.le)
    · rcases link_request.mp hA with hOldA | ⟨rfl, rfl⟩
      · exact hFirst i a hOldA hHeadB
      · exact absurd hLt (Nat.lt_irrefl _)
  outer i found call hFound hCall other hOther hOut := by
    have hLinks : ∃ (m : Nat) (link : Link), s.links[m]? = some link ∧ link.call = found.call ∧ link.key = other ∧
        link.phase ≠ .waiting := by
      rcases link_request.mp hFound with hOld | ⟨-, rfl⟩
      · exact h.outer i found call hOld hCall other hOther hOut
      · exact hOuter call hCall other hOther hOut
    obtain ⟨m, link, hLink, hRest⟩ := hLinks
    exact ⟨m, link, link_request.mpr (.inl hLink), hRest⟩
  nested i j a b hA hB hLt hCall := by
    rcases link_request.mp hB with hOldB | ⟨rfl, rfl⟩
    · rcases link_request.mp hA with hOldA | ⟨rfl, rfl⟩
      · exact h.nested i j a b hOldA hOldB hLt hCall
      · exact absurd (List.getElem?_eq_some_iff.mp hOldB).1 (Nat.not_lt.mpr hLt.le)
    · rcases link_request.mp hA with hOldA | ⟨rfl, rfl⟩
      · exact hNested i a hOldA hCall
      · exact absurd hLt (Nat.lt_irrefl _)
  free := h.free

theorem Timed.request (h : s.Timed) : (s.request c key rest).Timed where
  started i call hCall hTask other hOther := by
    obtain ⟨l, link, hLink, hRest⟩ := h.started i call hCall hTask other hOther
    exact ⟨l, link, link_request.mpr (.inl hLink), hRest⟩
  innermost i found call hFound hCall hFired := by
    rcases link_request.mp hFound with hOld | ⟨-, rfl⟩
    · exact h.innermost i found call hOld hCall hFired
    · cases hFired
  settled i found call hFound hCall hRun := by
    rcases link_request.mp hFound with hOld | ⟨-, rfl⟩
    · exact h.settled i found call hOld hCall hRun
    · cases hRun

theorem Chained.request (h : s.Chained) : (s.request c key rest).Chained where
  prior j b p hB hPrev := by
    rcases link_request.mp hB with hOldB | ⟨rfl, rfl⟩
    · obtain ⟨hLt, before, hBef, hKey⟩ := h.prior j b p hOldB hPrev
      exact ⟨hLt, before, link_request.mpr (.inl hBef), hKey⟩
    · obtain ⟨last, hLast, hLastKey, -⟩ := h.last key p hPrev
      exact ⟨(List.getElem?_eq_some_iff.mp hLast).1, last, link_request.mpr (.inl hLast), hLastKey⟩
  behind i j a b hA hB hLt hKey := by
    have hOldA : s.links[i]? = some a := by
      rcases link_request.mp hA with hOldA | ⟨rfl, -⟩
      · exact hOldA
      · rcases link_request.mp hB with hOldB | ⟨rfl, -⟩
        · exact absurd (List.getElem?_eq_some_iff.mp hOldB).1 (Nat.not_lt.mpr hLt.le)
        · exact absurd hLt (Nat.lt_irrefl _)
    rcases link_request.mp hB with hOldB | ⟨rfl, rfl⟩
    · rcases h.behind i j a b hOldA hOldB hLt hKey with hSettled | ⟨p, before, hPrev, hBef, hRest⟩
      · exact .inl hSettled
      · exact .inr ⟨p, before, hPrev, link_request.mpr (.inl hBef), hRest⟩
    · cases hQueue : s.queues.get? key with
      | none => exact .inl (h.clear key hQueue i a hOldA hKey)
      | some q =>
        obtain ⟨last, hLast, hLastKey, -, hMax⟩ := h.last key q hQueue
        exact .inr ⟨q, last, rfl, link_request.mpr (.inl hLast), hLastKey, hMax i a hOldA hKey,
          (List.getElem?_eq_some_iff.mp hLast).1⟩
  ordered i j a b hA hB hLt hKey hBegun := by
    rcases link_request.mp hB with hOldB | ⟨rfl, rfl⟩
    · rcases link_request.mp hA with hOldA | ⟨rfl, -⟩
      · exact h.ordered i j a b hOldA hOldB hLt hKey hBegun
      · exact absurd (List.getElem?_eq_some_iff.mp hOldB).1 (Nat.not_lt.mpr hLt.le)
    · exact absurd rfl hBegun
  last other q hQueue := by
    by_cases hAt : key = other
    · subst hAt
      have hQ : q = s.links.length := Option.some.inj (hQueue.symm.trans (InsertionMap.get?_set_self _ _ _))
      refine ⟨_, link_request.mpr (.inr ⟨hQ, rfl⟩), rfl, nofun, fun i a hA _ => ?_⟩
      rcases link_request.mp hA with hOldA | ⟨rfl, -⟩
      · exact hQ ▸ (List.getElem?_eq_some_iff.mp hOldA).1.le
      · exact hQ.ge
    · have hOld : s.queues.get? other = some q := (InsertionMap.get?_set_of_ne _ _ hAt).symm.trans hQueue
      obtain ⟨link, hLink, hKey, hPh, hMax⟩ := h.last other q hOld
      refine ⟨link, link_request.mpr (.inl hLink), hKey, hPh, fun i a hA hAKey => ?_⟩
      rcases link_request.mp hA with hOldA | ⟨-, rfl⟩
      · exact hMax i a hOldA hAKey
      · exact absurd hAKey hAt
  clear other hQueue i a hA hAKey := by
    have hAt : key ≠ other := by
      rintro rfl
      exact absurd (hQueue.symm.trans (InsertionMap.get?_set_self _ _ _)).symm (Option.some_ne_none _)
    have hOld : s.queues.get? other = none := (InsertionMap.get?_set_of_ne _ _ hAt).symm.trans hQueue
    rcases link_request.mp hA with hOldA | ⟨-, rfl⟩
    · exact h.clear other hOld i a hOldA hAKey
    · exact absurd hAKey hAt

end Request

section Task

variable {c : Nat} {task : Task}

theorem Shaped.setTask (h : s.Shaped) (hTask : task ≠ .waiting) : (s.setTask c task).Shaped where
  sorted call hCall := by
    obtain ⟨i, hFound⟩ := List.mem_iff_getElem?.mp hCall
    obtain ⟨old, hOld, rfl⟩ := call_setTask.mp hFound
    have hSort := h.sorted old (List.mem_of_getElem? hOld)
    split
    · exact hSort
    · exact hSort
  keyed l link hLink := by
    obtain ⟨call, hCall, hSuf⟩ := h.keyed l link hLink
    refine ⟨_, call_setTask.mpr ⟨call, hCall, rfl⟩, ?_⟩
    split
    · exact hSuf
    · exact hSuf
  inOrder i j a b hA hB hLt hHeadA hHeadB := by
    have hHead : ∀ (link : Link), (∀ call : Call, (s.setTask c task).calls[link.call]? = some call → call.keys.head? = some link.key) →
        ∀ call : Call, s.calls[link.call]? = some call → call.keys.head? = some link.key := by
      intro link hLater call hCall
      have hKeys := hLater _ (call_setTask.mpr ⟨call, hCall, rfl⟩)
      split at hKeys
      · exact hKeys
      · exact hKeys
    exact h.inOrder i j a b hA hB hLt (hHead a hHeadA) (hHead b hHeadB)
  outer l link call hLink hCall key hKey hOut := by
    obtain ⟨old, hOld, rfl⟩ := call_setTask.mp hCall
    refine h.outer l link old hLink hOld key ?_ hOut
    split at hKey
    · exact hKey
    · exact hKey
  nested := h.nested
  free call hCall hKeys := by
    obtain ⟨i, hFound⟩ := List.mem_iff_getElem?.mp hCall
    obtain ⟨old, hOld, rfl⟩ := call_setTask.mp hFound
    split
    · exact hTask
    · rename_i hAt
      rw [if_neg hAt] at hKeys
      exact h.free old (List.mem_of_getElem? hOld) hKeys

theorem Linked.setTask (h : s.Linked) : (s.setTask c task).Linked where
  begun i call hCall key hKey := by
    obtain ⟨old, hOld, rfl⟩ := call_setTask.mp hCall
    refine h.begun i old hOld key ?_
    split at hKey
    · exact hKey
    · exact hKey
  inner := h.inner

end Task

end Stella.FileWriteLock.Locks
