import Mathlib.Tactic.Common

/-! # Programs that throw

A program reads and writes a state and returns a value or throws; what it wrote before it threw
stays written.
-/

namespace Stella

/-- A program over a state `σ` that returns an `α` or throws an `ε`. -/
def Fallible (ε σ α : Type) : Type := σ → Except ε α × σ

namespace Fallible

variable {ε σ α β : Type}

protected def pure (a : α) : Fallible ε σ α := fun s => (.ok a, s)

protected def bind (x : Fallible ε σ α) (f : α → Fallible ε σ β) : Fallible ε σ β := fun s =>
  match x s with
  | (.ok a, s') => f a s'
  | (.error e, s') => (.error e, s')

instance : Monad (Fallible ε σ) where
  pure := Fallible.pure
  bind := Fallible.bind

def throw (e : ε) : Fallible ε σ α := fun s => (.error e, s)

def answered (answer : Except ε α) : Fallible ε σ α := fun s => (answer, s)

def get : Fallible ε σ σ := fun s => (.ok s, s)

def modify (f : σ → σ) : Fallible ε σ Unit := fun s => (.ok (), f s)

def finallyDo (x : Fallible ε σ α) (f : σ → σ) : Fallible ε σ α := fun s => ((x s).1, f (x s).2)

@[simp] theorem pure_run (a : α) (s : σ) : (pure a : Fallible ε σ α) s = (.ok a, s) := rfl

@[simp] theorem bind_run (x : Fallible ε σ α) (f : α → Fallible ε σ β) (s : σ) : (x >>= f) s =
    match x s with
    | (.ok a, s') => f a s'
    | (.error e, s') => (.error e, s') := rfl

@[simp] theorem throw_run (e : ε) (s : σ) : (throw e : Fallible ε σ α) s = (.error e, s) := rfl

@[simp] theorem answered_run (answer : Except ε α) (s : σ) : (answered answer : Fallible ε σ α) s = (answer, s) := rfl

@[simp] theorem get_run (s : σ) : (get : Fallible ε σ σ) s = (.ok s, s) := rfl

@[simp] theorem modify_run (f : σ → σ) (s : σ) : (modify f : Fallible ε σ Unit) s = (.ok (), f s) := rfl

def Ends (P : σ → Prop) (x : Fallible ε σ α) (returns : α → σ → Prop) (throws : σ → Prop) : Prop :=
  ∀ s, P s →
    match x s with
    | (.ok a, s') => returns a s'
    | (.error _, s') => throws s'

variable {P P' : σ → Prop} {Q Q' : α → σ → Prop} {R : β → σ → Prop} {T T' : σ → Prop}

theorem Ends.pure {a : α} (h : ∀ s, P s → Q a s) : Ends (ε := ε) P (pure a) Q T := h

theorem Ends.throw {e : ε} (h : ∀ s, P s → T s) : Ends P (Fallible.throw e) Q T := h

theorem Ends.bind {x : Fallible ε σ α} {f : α → Fallible ε σ β} (hX : Ends P x Q T) (hF : ∀ a, Ends (Q a) (f a) R T) :
    Ends P (x >>= f) R T := by
  intro s hP
  have hFirst := hX s hP
  rw [bind_run]
  rcases hRun : x s with ⟨result, s'⟩
  rw [hRun] at hFirst
  cases result with
  | ok a => exact hF a s' hFirst
  | error e => exact hFirst

theorem Ends.weaken {x : Fallible ε σ α} (h : Ends P x Q T) (hP : ∀ s, P' s → P s) (hQ : ∀ a s, Q a s → Q' a s)
    (hT : ∀ s, T s → T' s) : Ends P' x Q' T' := by
  intro s hBef
  have hRun := h s (hP s hBef)
  rcases hX : x s with ⟨result, s'⟩
  rw [hX] at hRun
  cases result with
  | ok a => exact hQ a s' hRun
  | error e => exact hT s' hRun

theorem Ends.modify {f : σ → σ} {Q : Unit → σ → Prop} (h : ∀ s, P s → Q () (f s)) :
    Ends (ε := ε) P (Fallible.modify f) Q T := h

theorem Ends.get {Q : σ → σ → Prop} (h : ∀ s, P s → Q s s) : Ends (ε := ε) P Fallible.get Q T := h

theorem Ends.answered {answer : Except ε α} (hP : ∀ s, P s → T s) :
    Ends P (Fallible.answered answer) (fun a s => answer = .ok a ∧ P s) T := by
  intro s hBef
  cases answer with
  | ok a => exact ⟨rfl, hBef⟩
  | error e => exact hP s hBef

theorem finallyDo_state {x : Fallible ε σ α} {f : σ → σ} {C : σ → Prop} (h : Ends P x (fun _ => T) T)
    (hF : ∀ s, T s → C (f s)) {s : σ} (hP : P s) : C (finallyDo x f s).2 := by
  have hRun := h s hP
  unfold finallyDo
  rcases hX : x s with ⟨result, s'⟩
  rw [hX] at hRun
  cases result with
  | ok a => exact hF s' hRun
  | error e => exact hF s' hRun

end Fallible

end Stella
