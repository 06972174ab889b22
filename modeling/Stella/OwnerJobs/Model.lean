import Mathlib.Algebra.Group.Int.Defs
import Mathlib.Data.List.Sort
import Stella.Library.Rows
import Stella.Library.Transition

/-! # Owner jobs

A row for each armed job, under its id. A pass reads the due rows and works through what it read,
while calls and running jobs arm and cancel.
-/

namespace Stella.OwnerJobs

open Stella.Rows

structure JobRow where
  id : String
  kind : String
  runAt : Int
  payload : String
  attempts : Nat

def jobBatch : Nat := 32

def jobDefaultMaxAttempts : Nat := 20

def jobMaxBackoffMs : Int := 60 * 60000

structure JobDef where
  maxAttempts : Option Nat := none
  positive : ∀ n ∈ maxAttempts, 0 < n

def JobDef.limit (job : JobDef) : Nat := job.maxAttempts.getD jobDefaultMaxAttempts

theorem JobDef.limit_pos (job : JobDef) : 0 < job.limit := by
  unfold limit
  cases hMax : job.maxAttempts with
  | none => exact Nat.zero_lt_succ 19
  | some n => exact job.positive n hMax

abbrev Registry := String → Option JobDef

/-! ## The table -/

def dueJobs (rows : List JobRow) (now : Int) : List JobRow :=
  ((rows.filter (fun row => row.runAt ≤ now)).mergeSort (fun a b => a.runAt ≤ b.runAt)).take jobBatch

def deleteRun (rows : List JobRow) (job : JobRow) : List JobRow :=
  rows.filter (fun row => ¬ (row.id = job.id ∧ row.runAt = job.runAt ∧ row.attempts = job.attempts))

def backoff (attempts : Nat) : Int := min jobMaxBackoffMs (1000 * 2 ^ (attempts - 1))

def deferRun (rows : List JobRow) (now : Int) (job : JobRow) : List JobRow :=
  rows.map fun row =>
    if row.id = job.id ∧ row.runAt = job.runAt then
      { row with attempts := job.attempts + 1, runAt := now + backoff (job.attempts + 1) }
    else row

def settleRun (rows : List JobRow) (limit : Nat) (now : Int) (job : JobRow) (threw : Bool) : List JobRow :=
  if threw then
    if limit ≤ job.attempts + 1 then erase JobRow.id rows job.id else deferRun rows now job
  else deleteRun rows job

/-! ## Passes -/

structure Held where
  job : JobRow
  /-- How often its arming was run before. -/
  runsBefore : Nat
  /-- Its id was canceled since. -/
  canceled : Bool := false
  /-- How its id was last armed since, if that was not canceled. -/
  rearmed : Option JobRow := none

structure Pass where
  now : Int
  due : List Held
  running : Option Held := none

namespace Held

def id (h : Held) : String := h.job.id

def untouched (h : Held) : Bool := !h.canceled && h.rearmed.isNone

def arm (row : JobRow) (h : Held) : Held := if h.id = row.id then { h with rearmed := some row } else h

def cancel (jobId : String) (h : Held) : Held :=
  if h.id = jobId then { h with canceled := true, rearmed := none } else h

end Held

namespace Pass

def held (p : Pass) : List Held := p.running.toList ++ p.due

def map (f : Held → Held) (p : Pass) : Pass := { p with due := p.due.map f, running := p.running.map f }

end Pass

structure JobWorld where
  rows : List JobRow := []
  passes : List Pass := []
  /-- How often the standing arming of an id was run. -/
  runs : String → Nat := fun _ => 0

inductive JobInput
  | schedule (id kind : String) (runAt : Int) (payload : String)
  | cancel (id : String)
  /-- A pass begins: it reads the due rows. -/
  | begin (now : Int)
  /-- The pass at this place goes on to its next row. -/
  | next (place : Nat)
  /-- The job that the pass at this place runs has succeeded or thrown. -/
  | finish (place : Nat) (threw : Bool)

namespace JobWorld

variable (registry : Registry) (w : JobWorld)

def row (id : String) : Option JobRow := lookup JobRow.id w.rows id

def held : List Held := w.passes.flatMap Pass.held

def step : JobInput → JobWorld
  | .schedule id kind runAt payload =>
    match registry kind with
    | none => w
    | some _ =>
      let row : JobRow := ⟨id, kind, max 0 runAt, payload, 0⟩
      ⟨upsert JobRow.id w.rows row, w.passes.map (Pass.map (Held.arm row)), Function.update w.runs id 0⟩
  | .cancel id => ⟨erase JobRow.id w.rows id, w.passes.map (Pass.map (Held.cancel id)), w.runs⟩
  | .begin now =>
    { w with passes := w.passes ++ [⟨now, (dueJobs w.rows now).map fun job => ⟨job, w.runs job.id, false, none⟩, none⟩] }
  | .next place =>
    match w.passes[place]? with
    | some ⟨now, h :: due, none⟩ =>
      match registry h.job.kind with
      | none => { w with rows := erase JobRow.id w.rows h.id, passes := w.passes.set place ⟨now, due, none⟩ }
      | some _ =>
        { w with
          passes := w.passes.set place ⟨now, due, some h⟩
          runs := if h.untouched then Function.update w.runs h.id (w.runs h.id + 1) else w.runs }
    | _ => w
  | .finish place threw =>
    match w.passes[place]? with
    | some ⟨now, due, some h⟩ =>
      match registry h.job.kind with
      | none => w
      | some job =>
        { w with rows := settleRun w.rows job.limit now h.job threw, passes := w.passes.set place ⟨now, due, none⟩ }
    | _ => w

/-! ## What is promised -/

structure Sound (input : JobInput) : Prop where
  /-- An id that was armed while it was held has that row when its run has ended. -/
  rearmed : ∀ place threw, input = .finish place threw → ∀ p ∈ w.passes[place]?, ∀ h ∈ p.running, ∀ row ∈ h.rearmed,
    (w.step registry input).row h.id = some row
  /-- A job that was canceled is not run. -/
  canceled : ∀ place, input = .next place → ∀ p ∈ w.passes[place]?, p.running = none → ∀ h ∈ p.due.head?,
    (registry h.job.kind).isSome → h.canceled = false
  /-- An arming that is run has been run less often than its kind allows. -/
  attempts : ∀ place, input = .next place → ∀ p ∈ w.passes[place]?, p.running = none → ∀ h ∈ p.due.head?,
    ∀ job ∈ registry h.job.kind, h.runsBefore < job.limit

/-- No pass reads a row that another still holds, and no id is canceled while its row waits. A run that ends after its
id was armed again is no last attempt that throws, and the time it was armed for is another; a later attempt that
succeeds is recognised by its attempts. -/
def Apart : JobInput → Prop
  | .schedule _ _ _ _ => True
  | .cancel id => ∀ p ∈ w.passes, ∀ h ∈ p.due, h.id ≠ id
  | .begin now => ∀ job ∈ dueJobs w.rows now, ∀ h ∈ w.held, h.id ≠ job.id
  | .next _ => True
  | .finish place threw =>
    ∀ p ∈ w.passes[place]?, ∀ h ∈ p.running, ∀ row ∈ h.rearmed, ∀ job ∈ registry h.job.kind,
      if threw then h.job.attempts + 1 < job.limit ∧ row.runAt ≠ h.job.runAt
      else row.runAt ≠ h.job.runAt ∨ h.job.attempts ≠ 0

end JobWorld

end Stella.OwnerJobs
