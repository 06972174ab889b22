import Mathlib.Data.List.Sort

/-! # Blocks of a list that are replaced

A block has a start, a stop and what is put in its place. Blocks that follow one another are
replaced all at once by `rewritten`, or one after the other from the last on by `splice`.
-/

namespace Stella.Blocks

open List

variable {α β : Type*} (start stop : β → Nat) (put : β → List α)

def splice (xs : List α) (b : β) : List α := xs.take (start b) ++ put b ++ xs.drop (stop b)

def rewritten (xs : List α) : Nat → List β → List α
  | pos, [] => xs.drop pos
  | pos, b :: bs => (xs.drop pos).take (start b - pos) ++ put b ++ rewritten xs (stop b) bs

def byStart (bs : List β) : List β := bs.insertionSort fun a b => start a ≤ start b

structure Ordered (size : Nat) (bs : List β) : Prop where
  proper : ∀ b ∈ bs, start b ≤ stop b
  within : ∀ b ∈ bs, stop b ≤ size
  order : bs.Pairwise fun a b => stop a ≤ start b

def Apart (a b : β) : Prop := stop a ≤ start b ∨ stop b ≤ start a

instance (a b : β) : Decidable (Apart start stop a b) := inferInstanceAs (Decidable (stop a ≤ start b ∨ stop b ≤ start a))

variable {start stop put} {size : Nat} {b : β} {bs : List β} {xs : List α}

@[simp] theorem rewritten_nil (pos : Nat) : rewritten start stop put xs pos [] = xs.drop pos := rfl

@[simp] theorem rewritten_cons (pos : Nat) : rewritten start stop put xs pos (b :: bs) =
    (xs.drop pos).take (start b - pos) ++ put b ++ rewritten start stop put xs (stop b) bs := rfl

theorem Ordered.tail (h : Ordered start stop size (b :: bs)) : Ordered start stop size bs where
  proper other hOther := h.proper other (mem_cons_of_mem _ hOther)
  within other hOther := h.within other (mem_cons_of_mem _ hOther)
  order := (pairwise_cons.mp h.order).2

theorem Ordered.sorted (h : Ordered start stop size bs) : bs.Pairwise fun a b => start a ≤ start b := by
  refine h.order.imp_of_mem fun {a b} hA _ hStop => ?_
  exact le_trans (h.proper a hA) hStop

theorem Ordered.byStart (h : Ordered start stop size bs) : byStart start bs = bs := h.sorted.insertionSort_eq

theorem foldr_splice_from {pos : Nat} (h : Ordered start stop xs.length bs) (hPos : ∀ b ∈ bs, pos ≤ start b)
    (hSize : pos ≤ xs.length) :
    bs.foldr (fun b ys => splice start stop put ys b) xs = xs.take pos ++ rewritten start stop put xs pos bs := by
  induction bs generalizing pos with
  | nil => exact (take_append_drop pos xs).symm
  | cons b bs ih =>
    have hStart := hPos b mem_cons_self
    have hStop := h.proper b mem_cons_self
    have hWith := h.within b mem_cons_self
    have hRest := ih h.tail (pairwise_cons.mp h.order).1 hWith
    have hTake : xs.take (start b) = xs.take pos ++ (xs.drop pos).take (start b - pos) := by
      rw [← take_add, Nat.add_sub_cancel' hStart]
    rw [foldr_cons, hRest, rewritten_cons, splice]
    rw [take_append_of_le_length (by rw [length_take]; omega), take_take, Nat.min_eq_left hStop, hTake,
      drop_append_of_le_length (by rw [length_take]; omega), drop_take, Nat.sub_self, take_zero, nil_append]
    simp only [append_assoc]

theorem foldl_splice (h : Ordered start stop xs.length bs) :
    bs.reverse.foldl (splice start stop put) xs = rewritten start stop put xs 0 bs := by
  rw [foldl_reverse]
  exact (foldr_splice_from h (fun _ _ => Nat.zero_le _) (Nat.zero_le _)).trans (nil_append _)

theorem byStart_perm (bs : List β) : (byStart start bs).Perm bs := perm_insertionSort _ bs

theorem byStart_sorted (bs : List β) : (byStart start bs).Pairwise fun a b => start a ≤ start b := by
  have : Std.Total (fun a b : β => start a ≤ start b) := ⟨fun a b => le_total _ _⟩
  have : IsTrans β (fun a b => start a ≤ start b) := ⟨fun _ _ _ hAB hBC => le_trans hAB hBC⟩
  exact pairwise_insertionSort _ bs

theorem byStart_eq_of_perm {others : List β} (hPerm : bs.Perm others) (hNd : (bs.map start).Nodup) :
    byStart start bs = byStart start others := by
  refine List.Perm.eq_of_pairwise (fun a b hA hB hAB hBA => ?_) (byStart_sorted bs) (byStart_sorted others)
    ((byStart_perm bs).trans (hPerm.trans (byStart_perm others).symm))
  exact inj_on_of_nodup_map hNd ((byStart_perm bs).mem_iff.mp hA) ((hPerm.trans (byStart_perm others).symm).mem_iff.mpr hB)
    (le_antisymm hAB hBA)

theorem mem_rewritten {x : α} {pos : Nat} (h : x ∈ rewritten start stop put xs pos bs) : x ∈ xs ∨ ∃ b ∈ bs, x ∈ put b := by
  induction bs generalizing pos with
  | nil => exact .inl (mem_of_mem_drop h)
  | cons b bs ih =>
    rcases mem_append.mp h with hHere | hRest
    · rcases mem_append.mp hHere with hKept | hPut
      · exact .inl (mem_of_mem_drop (mem_of_mem_take hKept))
      · exact .inr ⟨b, mem_cons_self, hPut⟩
    · exact (ih hRest).imp_right fun ⟨other, hOther, hPut⟩ => ⟨other, mem_cons_of_mem _ hOther, hPut⟩

theorem rewritten_of_length_le {pos : Nat} (hPos : xs.length ≤ pos) (hStart : ∀ b ∈ bs, xs.length ≤ stop b) :
    rewritten start stop put xs pos bs = bs.flatMap put := by
  induction bs generalizing pos with
  | nil => exact drop_eq_nil_of_le hPos
  | cons b bs ih =>
    rw [forall_mem_cons] at hStart
    rw [rewritten_cons, drop_eq_nil_of_le hPos, take_nil, nil_append, ih hStart.1 hStart.2, flatMap_cons]

theorem orderedInsert_order (hB : start b ≤ stop b) (hProper : ∀ a ∈ bs, start a ≤ stop a)
    (hOrder : bs.Pairwise fun a c => stop a ≤ start c) (hApart : ∀ a ∈ bs, Apart start stop b a)
    (hEmpty : ∀ a ∈ bs, start a = stop a → stop b ≤ start a) :
    (bs.orderedInsert (fun a c => start a ≤ start c) b).Pairwise fun a c => stop a ≤ start c := by
  induction bs with
  | nil => exact pairwise_singleton _ b
  | cons a bs ih =>
    have hFirst := pairwise_cons.mp hOrder
    rw [orderedInsert_cons]
    split
    · next hLe =>
      refine pairwise_cons.mpr ⟨fun c hC => ?_, hOrder⟩
      have hStart : start b ≤ start c := by
        rcases mem_cons.mp hC with rfl | hLater
        · exact hLe
        · exact hLe.trans ((hProper a mem_cons_self).trans (hFirst.1 c hLater))
      -- A block that ends where this one starts can only be empty.
      rcases hApart c hC with hBef | hAfter
      · exact hBef
      · have hThere := hProper c hC
        exact hEmpty c hC (by omega)
    · next hLt =>
      rw [forall_mem_cons] at hProper hApart hEmpty
      refine pairwise_cons.mpr ⟨fun c hC => ?_, ih hProper.2 hFirst.2 hApart.2 hEmpty.2⟩
      rcases mem_cons.mp ((perm_orderedInsert _ b bs).mem_iff.mp hC) with rfl | hLater
      · rcases hApart.1 with hBef | hAfter
        · omega
        · exact hAfter
      · exact hFirst.1 c hLater

theorem ordered_byStart (hProper : ∀ b ∈ bs, start b ≤ stop b) (hWith : ∀ b ∈ bs, stop b ≤ size)
    (hApart : bs.Pairwise (Apart start stop)) (hEmpty : bs.Pairwise fun a b => start b = stop b → stop a ≤ start b) :
    Ordered start stop size (byStart start bs) := by
  have hMem : ∀ {b bs}, b ∈ byStart start bs → b ∈ bs := (byStart_perm _).mem_iff.mp
  refine ⟨fun b hB => hProper b (hMem hB), fun b hB => hWith b (hMem hB), ?_⟩
  clear hWith
  induction bs with
  | nil => exact List.Pairwise.nil
  | cons b bs ih =>
    rw [forall_mem_cons] at hProper
    obtain ⟨hHere, hApart⟩ := pairwise_cons.mp hApart
    obtain ⟨hHereEmpty, hEmpty⟩ := pairwise_cons.mp hEmpty
    exact orderedInsert_order hProper.1 (fun a hA => hProper.2 a (hMem hA)) (ih hProper.2 hApart hEmpty)
      (fun a hA => hHere a (hMem hA)) fun a hA => hHereEmpty a (hMem hA)

end Stella.Blocks
