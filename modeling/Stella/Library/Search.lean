import Mathlib.Data.List.Infix

/-! # A list that is looked for in another

Occurrences may overlap: a list that begins with a border of its own occurs twice in the list
of two copies laid over each other.
-/

namespace Stella.Search

open List

/-! ## Pieces between separators -/

theorem not_mem_of_mem_splitOn {α : Type*} [BEq α] [LawfulBEq α] {separator : α} {text piece : List α}
    (h : piece ∈ text.splitOn separator) :
    separator ∉ piece := by
  induction text generalizing piece with
  | nil =>
    rw [splitOn_nil, mem_singleton] at h
    exact h ▸ not_mem_nil
  | cons c text ih =>
    rw [splitOn_cons_eq_if_modifyHead] at h
    split at h
    · rcases mem_cons.mp h with rfl | hRest
      · exact not_mem_nil
      · exact ih hRest
    · next hOther =>
      cases hSplit : text.splitOn separator with
      | nil => exact absurd hSplit (splitOn_ne_nil _ _)
      | cons first rest =>
        rw [hSplit] at h ih
        rcases mem_cons.mp h with rfl | hRest
        · intro hMem
          rcases mem_cons.mp hMem with hEq | hFirst
          · exact hOther (beq_iff_eq.mpr hEq.symm)
          · exact ih mem_cons_self hFirst
        · exact ih (mem_cons_of_mem _ hRest)

theorem intercalate_append {α : Type*} {separator : List α} {front back : List (List α)} (hFront : front ≠ []) (hBack : back ≠ []) :
    separator.intercalate (front ++ back) = separator.intercalate front ++ separator ++ separator.intercalate back := by
  induction front with
  | nil => exact absurd rfl hFront
  | cons piece front ih =>
    by_cases hLast : front = []
    · rw [hLast, singleton_append, intercalate_cons_of_ne_nil hBack, intercalate_singleton]
    · rw [cons_append, intercalate_cons_of_ne_nil (append_ne_nil_of_left_ne_nil hLast _), ih hLast,
        intercalate_cons_of_ne_nil hLast]
      simp [append_assoc]

/-! ## Occurrences -/

variable {α : Type*} {needle haystack : List α} {p q d : Nat}

def OccursAt (needle haystack : List α) (p : Nat) : Prop := needle <+: haystack.drop p

instance [DecidableEq α] (needle haystack : List α) (p : Nat) : Decidable (OccursAt needle haystack p) :=
  inferInstanceAs (Decidable (needle <+: haystack.drop p))

def indexOf [DecidableEq α] (haystack needle : List α) (pos : Nat) : Option Nat :=
  (List.range' pos (haystack.length + 1 - needle.length - pos)).find? fun p => OccursAt needle haystack p

def overlaid (needle : List α) (d : Nat) : List α := needle.take d ++ needle

def Overlapping (needle haystack : List α) : Prop :=
  ∃ d, 0 < d ∧ d < needle.length ∧ needle <+: overlaid needle d ∧ overlaid needle d <:+: haystack

def OccursOnce (needle haystack : List α) : Prop := ∃ p, ∀ q, OccursAt needle haystack q ↔ q = p

theorem OccursAt.le (h : OccursAt needle haystack p) (hSome : needle ≠ []) : p + needle.length ≤ haystack.length := by
  have hLen := h.length_le
  have hPos := length_pos_of_ne_nil hSome
  rw [length_drop] at hLen
  omega

theorem occursAt_append (lead needle rest : List α) : OccursAt needle (lead ++ needle ++ rest) lead.length := by
  rw [OccursAt, append_assoc, drop_left]
  exact prefix_append needle rest

variable [DecidableEq α]

theorem indexOf_eq_some (hSome : needle ≠ []) {pos : Nat} (h : indexOf haystack needle pos = some p) :
    pos ≤ p ∧ OccursAt needle haystack p ∧ ∀ q, pos ≤ q → OccursAt needle haystack q → p ≤ q := by
  obtain ⟨hHere, before, after, hRng, hBef⟩ := find?_eq_some_iff_append.mp h
  refine ⟨(mem_range'_1.mp (mem_of_find?_eq_some h)).1, of_decide_eq_true hHere, fun q hPos hThere => ?_⟩
  by_contra hLt
  have hMem : q ∈ before ++ p :: after := by
    rw [← hRng, mem_range'_1]
    have := hThere.le hSome
    omega
  have hSort : (before ++ p :: after).Pairwise (· < ·) := hRng ▸ pairwise_lt_range'
  rcases mem_append.mp hMem with hIn | hIn
  · have hNot := hBef q hIn
    rw [decide_eq_true hThere] at hNot
    cases hNot
  · rcases mem_cons.mp hIn with rfl | hLater
    · exact hLt le_rfl
    · have := rel_of_pairwise_cons (pairwise_append.mp hSort).2.1 hLater
      omega

theorem indexOf_eq_none (hSome : needle ≠ []) {pos : Nat} (h : indexOf haystack needle pos = none) {q : Nat} (hPos : pos ≤ q) :
    ¬ OccursAt needle haystack q := by
  intro hThere
  have hLe := hThere.le hSome
  have hNot := find?_eq_none.mp h q (mem_range'_1.mpr (by omega))
  exact hNot (decide_eq_true hThere)

omit [DecidableEq α] in
theorem occursAt_overlaid (hLt : d ≤ needle.length) (hHere : OccursAt needle haystack p)
    (hThere : OccursAt needle haystack (p + d)) : OccursAt (overlaid needle d) haystack p := by
  obtain ⟨rest, hRest⟩ := hThere
  obtain ⟨after, hAfter⟩ := hHere
  refine ⟨rest, ?_⟩
  have hTake : needle.take d = (haystack.drop p).take d := by rw [← hAfter, take_append_of_le_length hLt]
  rw [overlaid, append_assoc, hRest, hTake, ← drop_drop, take_append_drop]

omit [DecidableEq α] in
theorem overlapping_of_occursAt (hHere : OccursAt needle haystack p) (hThere : OccursAt needle haystack q) (hLt : p < q)
    (hNear : q < p + needle.length) : Overlapping needle haystack := by
  obtain ⟨d, rfl⟩ := Nat.exists_eq_add_of_le hLt.le
  have hBoth := occursAt_overlaid (by omega) hHere hThere
  refine ⟨d, by omega, by omega, ?_, hBoth.isInfix.trans (drop_suffix p haystack).isInfix⟩
  refine prefix_of_prefix_length_le hHere hBoth ?_
  rw [overlaid, length_append]
  omega

omit [DecidableEq α] in
theorem Overlapping.occursAt (h : Overlapping needle haystack) :
    ∃ p q, p ≠ q ∧ OccursAt needle haystack p ∧ OccursAt needle haystack q := by
  obtain ⟨d, hPos, hLt, hBorder, lead, rest, hWhole⟩ := h
  have hLen : (needle.take d).length = d := by
    rw [length_take]
    omega
  refine ⟨lead.length, lead.length + d, by omega, ?_, ?_⟩
  · have hAt := occursAt_append lead (overlaid needle d) rest
    rw [hWhole] at hAt
    exact hBorder.trans hAt
  · have hAt := occursAt_append (lead ++ needle.take d) needle rest
    rw [length_append, hLen] at hAt
    have hEq : lead ++ needle.take d ++ needle ++ rest = haystack := by
      rw [← hWhole, overlaid, append_assoc lead]
    rwa [hEq] at hAt

end Stella.Search
