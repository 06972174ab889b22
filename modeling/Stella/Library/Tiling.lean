import Mathlib.Data.List.Basic

/-! # Ranges that tile an interval

A list of items, each with a first and a last position, tiles `[a, b)` when the
ranges follow one another without a gap from `a` and end at `b`.
-/

namespace Stella.Tiling

variable {α : Type*} (first last : α → Nat)

def Tiles : Nat → List α → Nat → Prop
  | a, [], b => a = b
  | a, x :: l, b => first x = a ∧ a ≤ last x ∧ Tiles (last x + 1) l b

variable {first last}

@[simp] theorem tiles_nil (a b : Nat) : Tiles first last a [] b ↔ a = b := Iff.rfl

@[simp] theorem tiles_cons (a b : Nat) (x : α) (l : List α) :
    Tiles first last a (x :: l) b ↔ first x = a ∧ a ≤ last x ∧ Tiles first last (last x + 1) l b := Iff.rfl

variable {a b : Nat} {l : List α}

theorem Tiles.le (h : Tiles first last a l b) : a ≤ b := by
  induction l generalizing a with
  | nil => exact Nat.le_of_eq h
  | cons x l ih =>
    have hRest := ih h.2.2
    have hLast := h.2.1
    omega

variable {x : α}

theorem Tiles.snoc (h : Tiles first last a l b) (hFirst : first x = b)
    (hLast : b ≤ last x) : Tiles first last a (l ++ [x]) (last x + 1) := by
  induction l generalizing a with
  | nil =>
    obtain rfl : a = b := h
    exact ⟨hFirst, hLast, rfl⟩
  | cons y l ih => exact ⟨h.1, h.2.1, ih h.2.2⟩

theorem Tiles.bounds (h : Tiles first last a l b) (hx : x ∈ l) :
    a ≤ first x ∧ first x ≤ last x ∧ last x < b := by
  induction l generalizing a with
  | nil => cases hx
  | cons y l ih =>
    obtain ⟨hFirst, hLast, hRest⟩ := h
    have hEnd := hRest.le
    rcases List.mem_cons.mp hx with rfl | hx
    · omega
    · have hBounds := ih hRest hx
      omega

theorem Tiles.cover (h : Tiles first last a l b) {n : Nat} (ha : a ≤ n) (hb : n < b) :
    ∃ x ∈ l, first x ≤ n ∧ n ≤ last x := by
  induction l generalizing a with
  | nil =>
    have hEq : a = b := h
    omega
  | cons x l ih =>
    obtain ⟨hFirst, hLast, hRest⟩ := h
    by_cases hn : n ≤ last x
    · exact ⟨x, List.mem_cons_self, by omega, hn⟩
    · obtain ⟨y, hy, hRng⟩ := ih hRest (by omega)
      exact ⟨y, List.mem_cons_of_mem _ hy, hRng⟩

theorem Tiles.disjoint (h : Tiles first last a l b) :
    l.Pairwise (fun x y => last x < first y) := by
  induction l generalizing a with
  | nil => exact List.Pairwise.nil
  | cons x l ih =>
    refine List.pairwise_cons.mpr ⟨fun y hy => ?_, ih h.2.2⟩
    have hBounds := h.2.2.bounds hy
    omega

theorem Tiles.first_inj (h : Tiles first last a l b) {y : α} (hx : x ∈ l) (hy : y ∈ l)
    (hFirst : first x = first y) : x = y := by
  induction l generalizing a with
  | nil => cases hx
  | cons z l ih =>
    obtain ⟨hHead, hLast, hRest⟩ := h
    rcases List.mem_cons.mp hx with hXHead | hXRest <;> rcases List.mem_cons.mp hy with hYHead | hYRest
    · exact hXHead.trans hYHead.symm
    · have hBounds := hRest.bounds hYRest
      subst hXHead
      omega
    · have hBounds := hRest.bounds hXRest
      subst hYHead
      omega
    · exact ih hRest hXRest hYRest

end Stella.Tiling
