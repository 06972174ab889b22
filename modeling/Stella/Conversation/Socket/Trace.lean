import Stella.Library.Gapless
import Stella.Library.Transition
import Stella.Conversation.Socket.Model

/-! # Reading a socket's history

What a trace says about the record stream: the stretch since the last `reset`
event, the records emitted and received in it, and the window the last `ready`
announced. Traces run newest first.
-/

namespace Stella.Conversation

open List

namespace Observation

def isReset : Observation → Bool
  | .event (.reset _) => true
  | _ => false

def emittedRecords : Observation → List JournalRecord
  | .event (.records records) => records
  | _ => []

def receivedRecords : Observation → List JournalRecord
  | .received _ (.record record) => [record]
  | .received _ (.backfill frame) => frame.records
  | _ => []

def readyWindow : Observation → Option Int
  | .received _ (.ready ready) => some ready.windowStartSeq
  | _ => none

def Silent (o : Observation) : Prop :=
  o.isReset = false ∧ o.emittedRecords = [] ∧ o.receivedRecords = [] ∧ o.readyWindow = none

end Observation

/-- The observations since the last `reset` event. -/
def sinceReset : List Observation → List Observation
  | [] => []
  | o :: older => if o.isReset then [] else o :: sinceReset older

def emitted : List Observation → List JournalRecord
  | [] => []
  | o :: older => emitted older ++ o.emittedRecords

def received (trace : List Observation) : List JournalRecord := trace.flatMap Observation.receivedRecords

/-- The `windowStartSeq` of the last `ready`, or the one the socket started with. -/
def lastReadyWindow (initial : Int) : List Observation → Int
  | [] => initial
  | o :: older => o.readyWindow.getD (lastReadyWindow initial older)

/-- The trace holds no `reset` event. -/
def neverReset (trace : List Observation) : Prop := ∀ o ∈ trace, o.isReset = false

/-- The concatenation of the `records` events since the last reset, or since the start. -/
def streamOf (trace : List Observation) : List JournalRecord := emitted (sinceReset trace)

def receivedOf (trace : List Observation) : List JournalRecord := received (sinceReset trace)

theorem streamOf_cons {o : Observation} (h : o.isReset = false) (trace : List Observation) :
    streamOf (o :: trace) = streamOf trace ++ o.emittedRecords := by
  simp [streamOf, sinceReset, h, emitted]

theorem receivedOf_cons {o : Observation} (h : o.isReset = false) (trace : List Observation) :
    receivedOf (o :: trace) = o.receivedRecords ++ receivedOf trace := by
  simp [receivedOf, sinceReset, h, received]

@[simp] theorem streamOf_reset (reason : ResetReason) (trace : List Observation) :
    streamOf (.event (.reset reason) :: trace) = [] := rfl

@[simp] theorem lastReadyWindow_reset (initial : Int) (reason : ResetReason) (trace : List Observation) :
    lastReadyWindow initial (.event (.reset reason) :: trace) = lastReadyWindow initial trace := rfl

theorem neverReset_cons (o : Observation) (trace : List Observation) :
    neverReset (o :: trace) ↔ o.isReset = false ∧ neverReset trace := by
  simp [neverReset]

section Silence

variable {obs : List Observation} (h : ∀ o ∈ obs, o.Silent) (trace : List Observation)
include h

theorem streamOf_silent : streamOf (obs ++ trace) = streamOf trace := by
  induction obs with
  | nil => rfl
  | cons o obs ih =>
    obtain ⟨hReset, hEmitted, _, _⟩ := h o mem_cons_self
    rw [cons_append, streamOf_cons hReset, hEmitted, append_nil]
    exact ih (fun p hp => h p (mem_cons_of_mem _ hp))

theorem receivedOf_silent : receivedOf (obs ++ trace) = receivedOf trace := by
  induction obs with
  | nil => rfl
  | cons o obs ih =>
    obtain ⟨hReset, _, hReceived, _⟩ := h o mem_cons_self
    rw [cons_append, receivedOf_cons hReset, hReceived, nil_append]
    exact ih (fun p hp => h p (mem_cons_of_mem _ hp))

theorem lastReadyWindow_silent (initial : Int) :
    lastReadyWindow initial (obs ++ trace) = lastReadyWindow initial trace := by
  induction obs with
  | nil => rfl
  | cons o obs ih =>
    rw [cons_append, lastReadyWindow, (h o mem_cons_self).2.2.2]
    exact ih (fun p hp => h p (mem_cons_of_mem _ hp))

theorem neverReset_silent : neverReset (obs ++ trace) ↔ neverReset trace := by
  induction obs with
  | nil => rfl
  | cons o obs ih =>
    rw [cons_append, neverReset_cons, and_iff_right (h o mem_cons_self).1]
    exact ih (fun p hp => h p (mem_cons_of_mem _ hp))

end Silence

end Stella.Conversation
