import Mathlib.Data.List.Dedup
import Mathlib.Data.List.Sort
import Mathlib.Data.String.Basic
import Stella.Library.InsertionMap

/-! # File write locks

Every call of `withFileWriteLock` makes a link of its key's chain: it waits for the tail that the
map holds, and leaves its own there.
-/

namespace Stella.FileWriteLock

inductive Task
  | waiting
  | running
  | done
  deriving DecidableEq

structure Call where
  keys : List String
  task : Task
  deriving DecidableEq

/-- How far a link is: its function runs (and may have made the link of the next key), its run has settled, its tail has
settled, the tail's cleanup has run. -/
inductive Phase
  | waiting
  | fired (inner : Option Nat)
  | settled
  | released
  | cleaned
  deriving DecidableEq

def Phase.runSettled : Phase → Bool
  | .settled | .released | .cleaned => true
  | _ => false

def Phase.tailSettled : Phase → Bool
  | .released | .cleaned => true
  | _ => false

/-- A link of the chain of `key`; `rest` is the keys its call takes inside it, `prev` the tail it waits for. -/
structure Link where
  call : Nat
  key : String
  rest : List String
  prev : Option Nat
  phase : Phase
  deriving DecidableEq

structure Locks where
  calls : List Call := []
  links : List Link := []
  queues : InsertionMap String Nat := []

inductive Event
  | call (paths : List String)
  | fire (link : Nat)
  | finish (call : Nat)
  | settle (link : Nat)
  | release (link : Nat)
  | clean (link : Nat)

namespace Locks

variable (lockKeyForPath : String → String) (s : Locks)

/-- `withFileWriteLock` for one key. -/
def request (call : Nat) (key : String) (rest : List String) : Locks :=
  { s with
    links := s.links ++ [⟨call, key, rest, s.queues.get? key, .waiting⟩]
    queues := s.queues.set key s.links.length }

def withFileWriteLocks (paths : List String) : Locks :=
  match (paths.map lockKeyForPath).dedup.insertionSort (· ≤ ·) with
  | [] => { s with calls := s.calls ++ [⟨[], .running⟩] }
  | key :: rest => ({ s with calls := s.calls ++ [⟨key :: rest, .waiting⟩] } : Locks).request s.calls.length key rest

def setPhase (l : Nat) (phase : Phase) : Locks := { s with links := s.links.modify l fun link => { link with phase } }

def setTask (c : Nat) (task : Task) : Locks := { s with calls := s.calls.modify c fun call => { call with task } }

def mayFire (link : Link) : Bool :=
  link.phase = .waiting && link.prev.all fun prev => (s.links[prev]?).any fun before => before.phase.tailSettled

def fire (l : Nat) (link : Link) : Locks :=
  match link.rest with
  | [] => (s.setPhase l (.fired none)).setTask link.call .running
  | key :: rest => (s.setPhase l (.fired (some s.links.length))).request link.call key rest

def maySettle (link : Link) : Bool :=
  match link.phase with
  | .fired none => (s.calls[link.call]?).any fun call => call.task = .done
  | .fired (some inner) => (s.links[inner]?).any fun next => next.phase.runSettled
  | _ => false

def clean (l : Nat) (link : Link) : Locks :=
  let s := s.setPhase l .cleaned
  if s.queues.get? link.key = some l then { s with queues := s.queues.erase link.key } else s

def enabled : Event → Bool
  | .call _ => true
  | .fire l => (s.links[l]?).any s.mayFire
  | .finish c => (s.calls[c]?).any fun call => call.task = .running
  | .settle l => (s.links[l]?).any s.maySettle
  | .release l => (s.links[l]?).any fun link => link.phase = .settled
  | .clean l => (s.links[l]?).any fun link => link.phase = .released

def step (event : Event) : Locks :=
  if s.enabled event then
    match event with
    | .call paths => s.withFileWriteLocks lockKeyForPath paths
    | .fire l => (s.links[l]?).elim s (s.fire l)
    | .finish c => s.setTask c .done
    | .settle l => s.setPhase l .settled
    | .release l => s.setPhase l .released
    | .clean l => (s.links[l]?).elim s (s.clean l)
  else s

end Locks

/-! ## Lookups -/

def Link.stamped (l i : Nat) (phase : Phase) (link : Link) : Link := if l = i then { link with phase } else link

variable {l i : Nat} {phase : Phase} {link : Link}

@[simp] theorem stamped_call : (link.stamped l i phase).call = link.call := by
  unfold Link.stamped
  split <;> rfl

@[simp] theorem stamped_key : (link.stamped l i phase).key = link.key := by
  unfold Link.stamped
  split <;> rfl

@[simp] theorem stamped_rest : (link.stamped l i phase).rest = link.rest := by
  unfold Link.stamped
  split <;> rfl

@[simp] theorem stamped_prev : (link.stamped l i phase).prev = link.prev := by
  unfold Link.stamped
  split <;> rfl

@[simp] theorem stamped_phase : (link.stamped l i phase).phase = if l = i then phase else link.phase := by
  unfold Link.stamped
  split <;> rfl

namespace Locks

variable {s : Locks}

theorem link_setPhase {found : Link} : (s.setPhase l phase).links[i]? = some found ↔
    ∃ link, s.links[i]? = some link ∧ found = link.stamped l i phase := by
  unfold setPhase Link.stamped
  rw [List.getElem?_modify, Option.map_eq_map, Option.map_eq_some_iff]
  refine exists_congr fun link => and_congr_right fun _ => ?_
  split
  · exact eq_comm
  · exact eq_comm

theorem concat_at {α : Type*} {xs : List α} {x found : α} : (xs ++ [x])[i]? = some found ↔
    xs[i]? = some found ∨ i = xs.length ∧ found = x := by
  rcases Nat.lt_trichotomy i xs.length with hLt | rfl | hGt
  · rw [List.getElem?_append_left hLt]
    exact ⟨Or.inl, fun h => h.elim id fun h => absurd h.1 hLt.ne⟩
  · rw [List.getElem?_concat_length, List.getElem?_eq_none (Nat.le_refl _), Option.some.injEq]
    exact ⟨fun h => .inr ⟨rfl, h.symm⟩, fun h => h.elim (fun hNone => absurd hNone.symm (Option.some_ne_none _)) fun h => h.2.symm⟩
  · rw [List.getElem?_eq_none (by rw [List.length_append]; exact hGt), List.getElem?_eq_none hGt.le]
    exact ⟨fun hNone => absurd hNone.symm (Option.some_ne_none _), fun h =>
      h.elim (fun hNone => absurd hNone.symm (Option.some_ne_none _)) fun h => absurd h.1 hGt.ne'⟩

theorem link_request {call : Nat} {key : String} {rest : List String} {found : Link} :
    (s.request call key rest).links[i]? = some found ↔
      s.links[i]? = some found ∨ i = s.links.length ∧ found = ⟨call, key, rest, s.queues.get? key, .waiting⟩ := concat_at

theorem call_setTask {c : Nat} {task : Task} {found : Call} : (s.setTask c task).calls[i]? = some found ↔
    ∃ call, s.calls[i]? = some call ∧ found = if c = i then { call with task } else call := by
  unfold setTask
  rw [List.getElem?_modify, Option.map_eq_map, Option.map_eq_some_iff]
  refine exists_congr fun call => and_congr_right fun _ => ?_
  split
  · exact eq_comm
  · exact eq_comm

end Locks

end Stella.FileWriteLock
