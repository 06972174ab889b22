import Mathlib.Data.List.Infix

/-! # The LIKE operator

SQL's `LIKE` without an escape clause: `%` stands for any text, `_` for any one
character, and other characters are compared without the case of ASCII letters.
-/

namespace Stella.Sql

open List

def foldAscii (c : Char) : Char := if 'A' ≤ c ∧ c ≤ 'Z' then Char.ofNat (c.toNat + 32) else c

def like : List Char → List Char → Bool
  | [], text => text.isEmpty
  | c :: pattern, text =>
    if c = '%' then text.tails.any (like pattern)
    else
      match text with
      | [] => false
      | d :: rest => (c = '_' || foldAscii c = foldAscii d) && like pattern rest

theorem like_percent_cons (pattern text : List Char) : like ('%' :: pattern) text = text.tails.any (like pattern) := by
  cases text <;> rfl

theorem like_cons_cons {c : Char} (hPlain : c ≠ '%') (pattern : List Char) (d : Char) (rest : List Char) :
    like (c :: pattern) (d :: rest) = ((c = '_' || foldAscii c = foldAscii d) && like pattern rest) := by
  rw [like.eq_def]
  exact if_neg hPlain

theorem like_cons_nil {c : Char} (hPlain : c ≠ '%') (pattern : List Char) : like (c :: pattern) [] = false := by
  rw [like.eq_def]
  exact if_neg hPlain

theorem like_append_self (lead : List Char) {pattern text : List Char} (h : like pattern text = true) :
    like (lead ++ pattern) (lead ++ text) = true := by
  induction lead with
  | nil => exact h
  | cons c lead ih =>
    rw [cons_append, cons_append]
    by_cases hPercent : c = '%'
    · subst hPercent
      rw [like_percent_cons]
      refine any_eq_true.mpr ⟨lead ++ text, ?_, ih⟩
      exact (mem_tails _ _).mpr (suffix_cons _ _)
    · rw [like_cons_cons hPercent]
      simp [ih]

theorem like_percent (text : List Char) : like ['%'] text = true := by
  rw [like_percent_cons]
  exact any_eq_true.mpr ⟨[], (mem_tails _ _).mpr (nil_suffix), rfl⟩

theorem like_extend (pattern : List Char) {text : List Char} (rest : List Char)
    (h : like (pattern ++ ['%']) text = true) : like (pattern ++ ['%']) (text ++ rest) = true := by
  induction pattern generalizing text with
  | nil => exact like_percent _
  | cons c pattern ih =>
    rw [cons_append] at h ⊢
    by_cases hPercent : c = '%'
    · subst hPercent
      rw [like_percent_cons] at h ⊢
      obtain ⟨tail, hTail, hLike⟩ := any_eq_true.mp h
      obtain ⟨front, rfl⟩ := (mem_tails _ _).mp hTail
      refine any_eq_true.mpr ⟨tail ++ rest, ?_, ih hLike⟩
      exact (mem_tails _ _).mpr ⟨front, (append_assoc _ _ _).symm⟩
    · cases text with
      | nil =>
        rw [like_cons_nil hPercent] at h
        cases h
      | cons d text =>
        rw [like_cons_cons hPercent, Bool.and_eq_true] at h
        rw [cons_append, like_cons_cons hPercent, Bool.and_eq_true]
        exact ⟨h.1, ih h.2⟩

end Stella.Sql
