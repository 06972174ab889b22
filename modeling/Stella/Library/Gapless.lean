import Mathlib.Data.List.Chain

/-! # Runs of consecutive keys

A list whose integer keys go up by exactly one. The predicate is kept
with its starting key, so that a run can be extended at its end, cut at a
bound or joined to the run that follows it without re-deriving where it
begins.
-/

namespace Stella.Gapless

open List

variable {α : Type*} (key : α → Int)

/-- `l` carries exactly the keys `s, s + 1, …`, one each. -/
def RunFrom : Int → List α → Prop
  | _, [] => True
  | s, a :: l => key a = s ∧ RunFrom (s + 1) l

instance decidableRunFrom : ∀ (s : Int) (l : List α), Decidable (RunFrom key s l)
  | _, [] => .isTrue trivial
  | s, _ :: l => @instDecidableAnd _ _ _ (decidableRunFrom (s + 1) l)

/-- Each key is the one before it plus one; where the run begins is left open. -/
abbrev Consecutive (l : List α) : Prop := l.IsChain (fun a b => key b = key a + 1)

variable {key}

@[simp] theorem runFrom_nil (s : Int) : RunFrom key s [] := trivial

@[simp] theorem runFrom_cons (s : Int) (a : α) (l : List α) :
    RunFrom key s (a :: l) ↔ key a = s ∧ RunFrom key (s + 1) l := Iff.rfl

theorem runFrom_append (s : Int) (l m : List α) :
    RunFrom key s (l ++ m) ↔ RunFrom key s l ∧ RunFrom key (s + l.length) m := by
  induction l generalizing s with
  | nil => simp
  | cons a l ih =>
    simp only [cons_append, runFrom_cons, ih, length_cons, and_assoc]
    have hShift : s + 1 + (l.length : Int) = s + ((l.length + 1 : Nat) : Int) := by omega
    rw [hShift]

theorem runFrom_singleton (s : Int) (a : α) : RunFrom key s [a] ↔ key a = s := by simp

variable {s : Int} {l : List α} {a : α}

theorem RunFrom.snoc (h : RunFrom key s l)
    (ha : key a = s + l.length) : RunFrom key s (l ++ [a]) :=
  (runFrom_append s l [a]).mpr ⟨h, (runFrom_singleton _ a).mpr ha⟩

theorem RunFrom.bounds (h : RunFrom key s l) (ha : a ∈ l) :
    s ≤ key a ∧ key a < s + l.length := by
  induction l generalizing s with
  | nil => cases ha
  | cons b l ih =>
    obtain ⟨hb, hl⟩ := h
    simp only [length_cons]
    rcases mem_cons.mp ha with rfl | ha
    · omega
    · have := ih hl ha
      omega

theorem RunFrom.key_getElem (h : RunFrom key s l) (i : Nat)
    (hi : i < l.length) : key l[i] = s + i := by
  induction l generalizing s i with
  | nil => cases hi
  | cons b l ih =>
    obtain ⟨hb, hl⟩ := h
    cases i with
    | zero => simpa using hb
    | succ i =>
      have := ih hl i (by simpa using hi)
      simp only [getElem_cons_succ, this]
      omega

theorem RunFrom.exists_key {t : Int} (h : RunFrom key s l) (hs : s ≤ t)
    (ht : t < s + l.length) : ∃ a ∈ l, key a = t := by
  have hi : (t - s).toNat < l.length := by omega
  refine ⟨l[(t - s).toNat], getElem_mem hi, ?_⟩
  rw [h.key_getElem _ hi]
  omega

theorem RunFrom.key_getLast (h : RunFrom key s l) (hl : l ≠ []) :
    key (l.getLast hl) = s + l.length - 1 := by
  rw [getLast_eq_getElem, h.key_getElem]
  have := length_pos_iff.mpr hl
  omega

theorem RunFrom.key_head (h : RunFrom key s l) (hl : l ≠ []) :
    key (l.head hl) = s := by
  cases l with
  | nil => exact absurd rfl hl
  | cons a l => exact h.1

theorem RunFrom.drop (h : RunFrom key s l) (n : Nat) :
    RunFrom key (s + n) (l.drop n) := by
  induction n generalizing s l with
  | zero => simpa using h
  | succ n ih =>
    cases l with
    | nil => simp
    | cons a l =>
      have := ih h.2
      rw [drop_succ_cons]
      rwa [show s + ((n + 1 : Nat) : Int) = s + 1 + n by omega]

theorem RunFrom.take (h : RunFrom key s l) (n : Nat) :
    RunFrom key s (l.take n) := by
  have hSplit := take_append_drop n l
  rw [← hSplit, runFrom_append] at h
  exact h.1

theorem RunFrom.filter_gt (h : RunFrom key s l) (t : Int) :
    l.filter (fun a => t < key a) = l.drop (t + 1 - s).toNat := by
  induction l generalizing s with
  | nil => simp
  | cons a l ih =>
    obtain ⟨ha, hl⟩ := h
    by_cases hKeep : t < key a
    · have hNone : (t + 1 - s).toNat = 0 := by omega
      have hRest : (t + 1 - (s + 1)).toNat = 0 := by omega
      rw [filter_cons_of_pos (by simpa using hKeep), ih hl, hNone, hRest, drop_zero, drop_zero]
    · have hMore : (t + 1 - s).toNat = (t + 1 - (s + 1)).toNat + 1 := by omega
      rw [filter_cons_of_neg (by simpa using hKeep), ih hl, hMore, drop_succ_cons]

theorem RunFrom.filter_le (h : RunFrom key s l) (t : Int) :
    l.filter (fun a => key a ≤ t) = l.take (t + 1 - s).toNat := by
  induction l generalizing s with
  | nil => simp
  | cons a l ih =>
    obtain ⟨ha, hl⟩ := h
    by_cases hKeep : key a ≤ t
    · have hMore : (t + 1 - s).toNat = (t + 1 - (s + 1)).toNat + 1 := by omega
      rw [filter_cons_of_pos (by simpa using hKeep), ih hl, hMore, take_succ_cons]
    · have hNone : (t + 1 - s).toNat = 0 := by omega
      have hRest : (t + 1 - (s + 1)).toNat = 0 := by omega
      rw [filter_cons_of_neg (by simpa using hKeep), ih hl, hNone, hRest, take_zero, take_zero]

theorem RunFrom.filter_between (h : RunFrom key s l) (a b : Int) :
    l.filter (fun x => a ≤ key x ∧ key x ≤ b) = (l.take (b + 1 - s).toNat).drop (a - s).toNat := by
  have hBoth : l.filter (fun x => a ≤ key x ∧ key x ≤ b) =
      (l.filter (fun x => key x ≤ b)).filter (fun x => a - 1 < key x) := by
    rw [filter_filter]
    refine filter_congr (fun x _ => ?_)
    rw [← Bool.decide_and, decide_eq_decide]
    omega
  rw [hBoth, h.filter_le, (h.take _).filter_gt]
  congr 1
  omega

theorem RunFrom.pairwise_lt (h : RunFrom key s l) :
    l.Pairwise (fun a b => key a < key b) := by
  induction l generalizing s with
  | nil => exact List.Pairwise.nil
  | cons a l ih =>
    refine pairwise_cons.mpr ⟨fun b hb => ?_, ih h.2⟩
    have hBounds := h.2.bounds hb
    have hHead := h.1
    omega

theorem runFrom_consecutive (h : RunFrom key s l) : Consecutive key l := by
  induction l generalizing s with
  | nil => exact List.IsChain.nil
  | cons a l ih =>
    cases l with
    | nil => exact isChain_singleton a
    | cons b l => exact isChain_cons_cons.mpr ⟨by rw [h.2.1, h.1], ih h.2⟩

theorem consecutive_iff (l : List α) : Consecutive key l ↔ ∃ s, RunFrom key s l := by
  constructor
  · intro h
    induction l with
    | nil => exact ⟨0, trivial⟩
    | cons a l ih =>
      refine ⟨key a, rfl, ?_⟩
      cases l with
      | nil => trivial
      | cons b l =>
        obtain ⟨hab, hl⟩ := isChain_cons_cons.mp h
        obtain ⟨s, hs⟩ := ih hl
        rwa [← hab, show key b = s from hs.1]
  · rintro ⟨s, hs⟩
    exact runFrom_consecutive hs

theorem Consecutive.runFrom_head (h : Consecutive key (a :: l)) :
    RunFrom key (key a) (a :: l) := by
  obtain ⟨s, hs⟩ := (consecutive_iff _).mp h
  rwa [show key a = s from hs.1]

end Stella.Gapless
