import Mathlib.Logic.Relation
import Mathlib.Tactic.Common

/-! # Runs of a step function and their invariants

A machine is a step function on states and inputs.
-/

namespace Stella.Transition

variable {σ ι : Type*} (step : σ → ι → σ)

def run (s : σ) (inputs : List ι) : σ := inputs.foldl step s

/-- Each step of the run from `s` meets `ok` on the state it starts from. -/
def Along (ok : σ → ι → Prop) : σ → List ι → Prop
  | _, [] => True
  | s, i :: inputs => ok s i ∧ Along ok (step s i) inputs

instance decidableAlong (ok : σ → ι → Prop) [∀ s i, Decidable (ok s i)] :
    ∀ (s : σ) (inputs : List ι), Decidable (Along step ok s inputs)
  | _, [] => .isTrue trivial
  | s, i :: inputs => @instDecidableAnd _ _ _ (decidableAlong ok (step s i) inputs)

variable {step}

@[simp] theorem run_nil (s : σ) : run step s [] = s := rfl

@[simp] theorem run_cons (s : σ) (i : ι) (inputs : List ι) :
    run step s (i :: inputs) = run step (step s i) inputs := rfl

theorem run_append (s : σ) (xs ys : List ι) :
    run step s (xs ++ ys) = run step (run step s xs) ys := List.foldl_append

@[simp] theorem along_nil (ok : σ → ι → Prop) (s : σ) : Along step ok s [] := trivial

@[simp] theorem along_cons (ok : σ → ι → Prop) (s : σ) (i : ι) (inputs : List ι) :
    Along step ok s (i :: inputs) ↔ ok s i ∧ Along step ok (step s i) inputs := Iff.rfl

theorem along_append (ok : σ → ι → Prop) (s : σ) (xs ys : List ι) :
    Along step ok s (xs ++ ys) ↔ Along step ok s xs ∧ Along step ok (run step s xs) ys := by
  induction xs generalizing s with
  | nil => simp
  | cons i xs ih => simp [ih, and_assoc]

theorem along_of_forall {ok : σ → ι → Prop} {inputs : List ι} (h : ∀ i ∈ inputs, ∀ s, ok s i) (s : σ) :
    Along step ok s inputs := by
  induction inputs generalizing s with
  | nil => trivial
  | cons i inputs ih => exact ⟨h i List.mem_cons_self s, ih (fun j hj => h j (List.mem_cons_of_mem _ hj)) _⟩

theorem run_invariant {ok : σ → ι → Prop} {Inv : σ → Prop}
    (hStep : ∀ s i, Inv s → ok s i → Inv (step s i)) {s : σ} {inputs : List ι}
    (hInv : Inv s) (hRun : Along step ok s inputs) : Inv (run step s inputs) := by
  induction inputs generalizing s with
  | nil => exact hInv
  | cons i inputs ih => exact ih (hStep s i hInv hRun.1) hRun.2

theorem run_invariant_always {Inv : σ → Prop} (hStep : ∀ s i, Inv s → Inv (step s i)) {s : σ}
    (inputs : List ι) (hInv : Inv s) : Inv (run step s inputs) := by
  induction inputs generalizing s with
  | nil => exact hInv
  | cons i inputs ih => exact ih (hStep s i hInv)

end Stella.Transition
