import Stella.AgentActivity.Lifecycle
import Stella.Library.Gapless
import Stella.Library.Paging
import Stella.Library.Transition

/-! # The buffer of run events

`run-event-log.ts`: the events of a run are kept so that a client that lost its connection can go
on behind the last one it has seen.
-/

namespace Stella.RunEvents

open List

open AgentActivity (trim trim_trim)
open Transition Gapless

structure RunEventRecord (Payload : Type) where
  runId : String
  seq : Int
  payload : Payload
  createdAt : Int
  deriving DecidableEq

structure RunEventLog (Payload : Type) where
  rows : List (RunEventRecord Payload) := []
  disposed : Bool := false

structure Resumed (Payload : Type) where
  events : List (RunEventRecord Payload)
  exhausted : Bool

variable {Payload : Type}

namespace RunEventLog

variable (log : RunEventLog Payload)

def append (runId : String) (seq : Int) (payload : Option Payload) (timestamp : Int) : RunEventLog Payload × Bool :=
  if log.disposed ∨ trim runId = "" then (log, false)
  else match payload with
    | none => (log, false)
    | some payload =>
      if log.rows.any fun row => row.runId = trim runId && row.seq = seq then (log, false)
      else ({ log with rows := log.rows ++ [⟨trim runId, seq, payload, timestamp⟩] }, true)

/-- `SELECT MIN(seq)`. -/
def oldestSeq (runId : String) : Option Int := ((log.rows.filter (·.runId = runId)).map RunEventRecord.seq).min?

def selectAfter (runId : String) (lastSeq : Int) : List (RunEventRecord Payload) :=
  (log.rows.filter fun row => row.runId = runId && lastSeq < row.seq).insertionSort fun a b => a.seq ≤ b.seq

def resumeAfter (runId : String) (lastSeq : Int) : Resumed Payload :=
  if log.disposed ∨ trim runId = "" then ⟨[], true⟩
  else
    let exhausted := (log.oldestSeq (trim runId)).any fun oldest => lastSeq < oldest - 1
    ⟨log.selectAfter (trim runId) lastSeq, exhausted⟩

/-- `DELETE`. -/
def delete (drops : RunEventRecord Payload → Bool) : RunEventLog Payload :=
  { log with rows := log.rows.filter fun row => !drops row }

def ack (runId : String) (lastSeq : Int) : RunEventLog Payload :=
  if log.disposed ∨ trim runId = "" then log else log.delete fun row => row.runId = trim runId && row.seq ≤ lastSeq

def forget (runId : String) : RunEventLog Payload :=
  if log.disposed ∨ trim runId = "" then log else log.delete fun row => row.runId = trim runId

def sweepExpired (now retentionMs : Int) : RunEventLog Payload :=
  if log.disposed then log else log.delete fun row => row.createdAt < now - retentionMs

def stop : RunEventLog Payload := { log with disposed := true }

end RunEventLog

/-! ## Runs of the log -/

structure Session (Payload : Type) where
  log : RunEventLog Payload := {}
  appended : List (RunEventRecord Payload) := []

inductive LogOp (Payload : Type)
  | append (runId : String) (payload : Option Payload) (timestamp : Int)
  | ack (runId : String) (lastSeq : Int)
  | forget (runId : String)
  | sweepExpired (now retentionMs : Int)
  | stop

namespace Session

variable (s : Session Payload)

def eventsOf (runId : String) : List (RunEventRecord Payload) := s.appended.filter (·.runId = runId)

def rowsOf (runId : String) : List (RunEventRecord Payload) := s.log.rows.filter (·.runId = runId)

def nextSeq (runId : String) : Int := (s.eventsOf (trim runId)).length + 1

end Session

def logStep (s : Session Payload) : LogOp Payload → Session Payload
  | .append runId payload timestamp =>
    let (log, inserted) := s.log.append runId (s.nextSeq runId) payload timestamp
    match payload with
    | some payload =>
      { log, appended := if inserted then s.appended ++ [⟨trim runId, s.nextSeq runId, payload, timestamp⟩] else s.appended }
    | none => { s with log }
  | .ack runId lastSeq => { s with log := s.log.ack runId lastSeq }
  | .forget runId => { s with log := s.log.forget runId }
  | .sweepExpired now retentionMs => { s with log := s.log.sweepExpired now retentionMs }
  | .stop => { s with log := s.log.stop }

def Session.Honest (s : Session Payload) : Prop :=
  ∀ runId lastSeq, (s.log.resumeAfter runId lastSeq).exhausted = false →
    (s.log.resumeAfter runId lastSeq).events = (s.eventsOf (trim runId)).filter (lastSeq < ·.seq)

def LogOp.drops (row : RunEventRecord Payload) : LogOp Payload → Bool
  | .append .. => false
  | .ack runId lastSeq => trim runId ≠ "" && row.runId = trim runId && row.seq ≤ lastSeq
  | .forget runId => trim runId ≠ "" && row.runId = trim runId
  | .sweepExpired now retentionMs => row.createdAt < now - retentionMs
  | .stop => false

def Keeps (s : Session Payload) (op : LogOp Payload) : Prop :=
  s.log.disposed = true ∨ ∀ row ∈ s.log.rows, op.drops row = true →
    (∃ other ∈ s.log.rows, other.runId = row.runId ∧ op.drops other = false) ∧
    ∀ other ∈ s.log.rows, other.runId = row.runId → op.drops other = false → row.seq < other.seq

/-! ## What one step does -/

variable {s : Session Payload} {op : LogOp Payload}

theorem logStep_cases (s : Session Payload) (op : LogOp Payload) :
    (∃ row : RunEventRecord Payload, trim row.runId = row.runId ∧ row.runId ≠ "" ∧ row.seq = (s.eventsOf row.runId).length + 1 ∧
      s.log.disposed = false ∧ (∀ other, op.drops other = false) ∧
      logStep s op = ⟨{ s.log with rows := s.log.rows ++ [row] }, s.appended ++ [row]⟩) ∨
    ∃ disposed, (s.log.disposed = true → disposed = true) ∧
      (disposed = true → s.log.disposed = true ∨ ∀ row, op.drops row = false) ∧
      logStep s op = ⟨⟨if s.log.disposed then s.log.rows else s.log.rows.filter fun row => !op.drops row, disposed⟩, s.appended⟩ := by
  have hAll : ∀ rows : List (RunEventRecord Payload), (rows.filter fun _ => true) = rows := fun rows => filter_true rows
  cases op with
  | append runId payload timestamp =>
    have hEq : ∃ disposed, (s.log.disposed = true → disposed = true) ∧
        (disposed = true → s.log.disposed = true ∨ ∀ row, LogOp.drops row (.append runId payload timestamp) = false) ∧ s =
        ⟨⟨if s.log.disposed then s.log.rows
          else s.log.rows.filter fun row => !LogOp.drops row (.append runId payload timestamp), disposed⟩, s.appended⟩ := by
      refine ⟨s.log.disposed, id, Or.inl, ?_⟩
      simp only [LogOp.drops, Bool.not_false, hAll, ite_self]
    cases payload with
    | none =>
      right
      have hLog : (s.log.append runId (s.nextSeq runId) none timestamp).1 = s.log := by
        unfold RunEventLog.append
        split <;> rfl
      unfold logStep
      dsimp only
      rw [hLog]
      exact hEq
    | some payload =>
      unfold logStep RunEventLog.append
      dsimp only
      split
      · exact .inr hEq
      · next hAct =>
        rw [not_or, Bool.not_eq_true] at hAct
        split
        · exact .inr hEq
        · left
          refine ⟨⟨trim runId, s.nextSeq runId, payload, timestamp⟩, trim_trim runId, hAct.2, rfl, hAct.1, fun _ => rfl, ?_⟩
          rw [if_pos rfl]
  | ack runId lastSeq =>
    refine .inr ⟨s.log.disposed, id, Or.inl, ?_⟩
    unfold logStep RunEventLog.ack RunEventLog.delete LogOp.drops
    by_cases hDisposed : s.log.disposed = true
    · rw [if_pos hDisposed]
      dsimp only
      rw [if_pos (.inl hDisposed)]
    · by_cases hName : trim runId = ""
      · simp [hName, hAll]
      · simp [hName, hDisposed]
  | forget runId =>
    refine .inr ⟨s.log.disposed, id, Or.inl, ?_⟩
    unfold logStep RunEventLog.forget RunEventLog.delete LogOp.drops
    by_cases hDisposed : s.log.disposed = true
    · rw [if_pos hDisposed]
      dsimp only
      rw [if_pos (.inl hDisposed)]
    · by_cases hName : trim runId = ""
      · simp [hName, hAll]
      · simp [hName, hDisposed]
  | sweepExpired now retentionMs =>
    refine .inr ⟨s.log.disposed, id, Or.inl, ?_⟩
    unfold logStep RunEventLog.sweepExpired RunEventLog.delete LogOp.drops
    by_cases hDisposed : s.log.disposed = true
    · rw [if_pos hDisposed]
      dsimp only
      rw [if_pos hDisposed]
    · simp [hDisposed]
  | stop =>
    refine .inr ⟨true, fun _ => rfl, fun _ => .inr fun _ => rfl, ?_⟩
    unfold logStep RunEventLog.stop LogOp.drops
    simp [hAll]

/-! ## What is left of a run -/

structure Logged (s : Session Payload) : Prop where
  numbered : ∀ runId, RunFrom RunEventRecord.seq 1 (s.eventsOf runId)
  some : ∀ runId, (s.rowsOf runId).Sublist (s.eventsOf runId)
  named : ∀ row ∈ s.log.rows, trim row.runId = row.runId ∧ row.runId ≠ ""

def Newest (s : Session Payload) : Prop :=
  s.log.disposed = true ∨ ∀ runId, s.rowsOf runId <:+ s.eventsOf runId ∧ (s.eventsOf runId ≠ [] → s.rowsOf runId ≠ [])

section

variable (s : Session Payload)

theorem eventsOf_snoc (log : RunEventLog Payload) (row : RunEventRecord Payload) (runId : String) :
    (⟨log, s.appended ++ [row]⟩ : Session Payload).eventsOf runId =
      if row.runId = runId then s.eventsOf runId ++ [row] else s.eventsOf runId := by
  unfold Session.eventsOf
  rw [filter_append]
  split
  · next hEq => rw [filter_cons_of_pos (by simpa using hEq), filter_nil]
  · next hOther => rw [filter_cons_of_neg (by simpa using hOther), filter_nil, append_nil]

theorem rowsOf_snoc (appended : List (RunEventRecord Payload)) (row : RunEventRecord Payload) (runId : String) :
    (⟨{ s.log with rows := s.log.rows ++ [row] }, appended⟩ : Session Payload).rowsOf runId =
      if row.runId = runId then s.rowsOf runId ++ [row] else s.rowsOf runId := by
  unfold Session.rowsOf
  dsimp only
  rw [filter_append]
  split
  · next hEq => rw [filter_cons_of_pos (by simpa using hEq), filter_nil]
  · next hOther => rw [filter_cons_of_neg (by simpa using hOther), filter_nil, append_nil]

theorem rowsOf_filter (p : RunEventRecord Payload → Bool) (disposed : Bool) (runId : String) :
    (⟨⟨s.log.rows.filter p, disposed⟩, s.appended⟩ : Session Payload).rowsOf runId = (s.rowsOf runId).filter p := by
  unfold Session.rowsOf
  dsimp only
  rw [filter_filter, filter_filter]
  exact filter_congr fun row _ => Bool.and_comm _ _

end

theorem Logged.step (h : Logged s) (op : LogOp Payload) : Logged (logStep s op) := by
  obtain ⟨row, hTrimmed, hName, hSeq, -, -, hNext⟩ | ⟨disposed, -, -, hNext⟩ := logStep_cases s op
  · rw [hNext]
    refine ⟨fun runId => ?_, fun runId => ?_, fun other hOther => ?_⟩
    · rw [eventsOf_snoc]
      split
      · next hEq =>
        refine (h.numbered runId).snoc ?_
        rw [hSeq, hEq]
        omega
      · exact h.numbered runId
    · rw [eventsOf_snoc, rowsOf_snoc]
      split
      · exact (h.some runId).append (List.Sublist.refl _)
      · exact h.some runId
    · obtain hOld | hNew := mem_append.mp hOther
      · exact h.named other hOld
      · obtain rfl := mem_singleton.mp hNew
        exact ⟨hTrimmed, hName⟩
  · rw [hNext]
    refine ⟨h.numbered, fun runId => ?_, fun other hOther => ?_⟩
    · split
      · exact h.some runId
      · rw [rowsOf_filter]
        exact filter_sublist.trans (h.some runId)
    · refine h.named other ?_
      dsimp only at hOther
      split at hOther
      · exact hOther
      · exact mem_of_mem_filter hOther

theorem filter_suffix {rows : List (RunEventRecord Payload)} (hSort : rows.Pairwise fun a b => a.seq < b.seq)
    {p : RunEventRecord Payload → Bool} (h : ∀ row ∈ rows, p row = false → ∀ other ∈ rows, p other = true → row.seq < other.seq) :
    rows.filter p <:+ rows := by
  induction rows with
  | nil => exact suffix_rfl
  | cons row rows ih =>
    obtain ⟨hFirst, hRest⟩ := pairwise_cons.mp hSort
    cases hP : p row with
    | false =>
      rw [filter_cons_of_neg (by simp [hP])]
      exact (ih hRest fun a hA hPA b hB => h a (mem_cons_of_mem _ hA) hPA b (mem_cons_of_mem _ hB)).trans
        (suffix_cons row rows)
    | true =>
      have hAll : ∀ other ∈ row :: rows, p other = true := by
        intro other hOther
        by_contra hNot
        rw [Bool.not_eq_true] at hNot
        have hOlder := h other hOther hNot row mem_cons_self hP
        obtain rfl | hIn := mem_cons.mp hOther
        · exact lt_irrefl _ hOlder
        · exact absurd (hFirst other hIn) hOlder.le.not_gt
      exact ⟨[], by rw [filter_eq_self.mpr hAll, nil_append]⟩

theorem Newest.step (hLogged : Logged s) (h : Newest s) (hKeeps : Keeps s op) : Newest (logStep s op) := by
  obtain ⟨row, -, -, -, hAct, -, hNext⟩ | ⟨disposed, hDisposed, -, hNext⟩ := logStep_cases s op
  · rw [hNext]
    have hRows := h.resolve_left (by rw [hAct]; exact Bool.false_ne_true)
    refine .inr fun runId => ?_
    rw [eventsOf_snoc, rowsOf_snoc]
    split
    · obtain ⟨front, hFront⟩ := (hRows runId).1
      refine ⟨⟨front, ?_⟩, fun _ => by simp⟩
      rw [← append_assoc, hFront]
    · exact hRows runId
  · rw [hNext]
    by_cases hAct : s.log.disposed = true
    · exact .inl (hDisposed hAct)
    · have hRows := h.resolve_left hAct
      have hOlder := hKeeps.resolve_left hAct
      rw [if_neg hAct]
      refine .inr fun runId => ?_
      rw [rowsOf_filter]
      have hIn : ∀ row, row ∈ s.rowsOf runId ↔ row ∈ s.log.rows ∧ row.runId = runId := by
        intro row
        simp [Session.rowsOf]
      have hSuf : (s.rowsOf runId).filter (fun row => !op.drops row) <:+ s.rowsOf runId := by
        refine filter_suffix ((hLogged.numbered runId).pairwise_lt.sublist (hLogged.some runId)) fun row hRow hDrops other hOther hStays => ?_
        obtain ⟨hRow, hOwn⟩ := (hIn row).mp hRow
        obtain ⟨hOther, hOwnToo⟩ := (hIn other).mp hOther
        exact (hOlder row hRow (by simpa using hDrops)).2 other hOther (hOwnToo.trans hOwn.symm) (by simpa using hStays)
      refine ⟨hSuf.trans (hRows runId).1, fun hSome hNone => ?_⟩
      obtain ⟨row, hRow⟩ := exists_mem_of_ne_nil _ ((hRows runId).2 hSome)
      have hGone := (filter_eq_nil_iff.mp hNone) row hRow
      obtain ⟨hRow, hOwn⟩ := (hIn row).mp hRow
      obtain ⟨⟨other, hOther, hOwnToo, hStays⟩, -⟩ := hOlder row hRow (by simpa using hGone)
      exact (filter_eq_nil_iff.mp hNone) other ((hIn other).mpr ⟨hOther, hOwnToo.trans hOwn⟩) (by simp [hStays])

/-! ## What a client is told -/

theorem resumeAfter_eq {runId : String} (hAct : s.log.disposed = false) (hName : trim runId ≠ "") (lastSeq : Int) :
    s.log.resumeAfter runId lastSeq =
      ⟨((s.rowsOf (trim runId)).filter (lastSeq < ·.seq)).insertionSort fun a b => a.seq ≤ b.seq,
        (((s.rowsOf (trim runId)).map RunEventRecord.seq).min?).any fun oldest => lastSeq < oldest - 1⟩ := by
  have hRows : (s.log.rows.filter fun row => row.runId = trim runId && lastSeq < row.seq) =
      (s.rowsOf (trim runId)).filter (lastSeq < ·.seq) := by
    unfold Session.rowsOf
    rw [filter_filter]
    exact filter_congr fun row _ => Bool.and_comm _ _
  unfold RunEventLog.resumeAfter RunEventLog.selectAfter
  rw [hAct, if_neg (by simpa using hName), hRows]
  rfl

theorem rowsOf_sorted (h : Logged s) (runId : String) : (s.rowsOf runId).Pairwise fun a b => a.seq < b.seq :=
  (h.numbered runId).pairwise_lt.sublist (h.some runId)

theorem selected_eq (h : Logged s) (runId : String) (lastSeq : Int) :
    ((s.rowsOf runId).filter (lastSeq < ·.seq)).insertionSort (fun a b => a.seq ≤ b.seq) = (s.rowsOf runId).filter (lastSeq < ·.seq) :=
  List.Pairwise.insertionSort_eq (((rowsOf_sorted h runId).sublist filter_sublist).imp le_of_lt)

theorem oldest_eq {row : RunEventRecord Payload} {rest : List (RunEventRecord Payload)}
    (hSort : (row :: rest).Pairwise fun a b => a.seq < b.seq) : ((row :: rest).map RunEventRecord.seq).min? = some row.seq := by
  rw [min?_eq_some_iff]
  refine ⟨mem_map_of_mem mem_cons_self, fun seq hSeq => ?_⟩
  obtain ⟨other, hOther, rfl⟩ := mem_map.mp hSeq
  obtain rfl | hLater := mem_cons.mp hOther
  · exact le_rfl
  · exact (rel_of_pairwise_cons hSort hLater).le

theorem Newest.honest (hLogged : Logged s) (h : Newest s) : s.Honest := by
  intro runId lastSeq hExhausted
  cases hAct : s.log.disposed with
  | true =>
    unfold RunEventLog.resumeAfter at hExhausted
    rw [hAct, if_pos (.inl rfl)] at hExhausted
    cases hExhausted
  | false =>
    by_cases hName : trim runId = ""
    · unfold RunEventLog.resumeAfter at hExhausted
      rw [if_pos (.inr hName)] at hExhausted
      cases hExhausted
    · obtain ⟨⟨front, hFront⟩, hSome⟩ := h.resolve_left (by rw [hAct]; exact Bool.false_ne_true) (trim runId)
      have hNumbered := hLogged.numbered (trim runId)
      have hSort := rowsOf_sorted hLogged (trim runId)
      rw [resumeAfter_eq hAct hName] at hExhausted ⊢
      dsimp only at hExhausted ⊢
      rw [selected_eq hLogged]
      cases hRows : s.rowsOf (trim runId) with
      | nil =>
        have hNone : s.eventsOf (trim runId) = [] := by
          by_contra hThere
          exact hSome hThere hRows
        rw [hNone]
      | cons row rest =>
        rw [hRows] at hExhausted hSort hFront
        rw [oldest_eq hSort, Option.any_some, decide_eq_false_iff_not] at hExhausted
        rw [← hFront, runFrom_append, runFrom_cons] at hNumbered
        obtain ⟨hOlder, hFirst, -⟩ := hNumbered
        have hNothing : front.filter (fun event => decide (lastSeq < event.seq)) = [] := by
          rw [filter_eq_nil_iff]
          intro event hEv
          have := (hOlder.bounds hEv).2
          rw [decide_eq_true_iff]
          omega
        rw [← hFront, filter_append, hNothing, nil_append]

theorem keeps_of_honest (hLogged : Logged s) (hHonest : (logStep s op).Honest) : Keeps s op := by
  obtain ⟨-, -, -, -, -, hDrops, -⟩ | ⟨disposed, -, hStops, hNext⟩ := logStep_cases s op
  · refine .inr fun row _ hDrop => ?_
    rw [hDrops row] at hDrop
    cases hDrop
  by_cases hAct : s.log.disposed = true
  · exact .inl hAct
  refine .inr fun row hRow hDrop => ?_
  have hGoesOn : disposed = false := by
    by_contra hStopped
    obtain hBef | hNone := hStops (by simpa using hStopped)
    · exact hAct hBef
    · rw [hNone row] at hDrop
      cases hDrop
  obtain ⟨hTrimmed, hName⟩ := hLogged.named row hRow
  have hOwn : row ∈ s.rowsOf row.runId := mem_filter.mpr ⟨hRow, by simp⟩
  have hEv : row ∈ s.eventsOf row.runId := (hLogged.some row.runId).subset hOwn
  -- what a client of the row's run is told after the step
  have hTold : ∀ lastSeq, ((((s.rowsOf row.runId).filter fun row => !op.drops row).map RunEventRecord.seq).min?.any
      fun oldest => lastSeq < oldest - 1) = false → lastSeq < row.seq → False := by
    intro lastSeq hExhausted hBehind
    have hLoggedNext := hLogged.step op
    rw [hNext] at hHonest hLoggedNext
    rw [if_neg hAct] at hHonest hLoggedNext
    have hAns := resumeAfter_eq (s := ⟨⟨s.log.rows.filter fun row => !op.drops row, disposed⟩, s.appended⟩) hGoesOn
      (by rw [hTrimmed]; exact hName) lastSeq
    rw [rowsOf_filter, hTrimmed] at hAns
    have hAll := hHonest row.runId lastSeq (by rw [hAns]; exact hExhausted)
    rw [hAns, hTrimmed] at hAll
    have hThere : row ∈ (s.eventsOf row.runId).filter (lastSeq < ·.seq) := mem_filter.mpr ⟨hEv, by simpa using hBehind⟩
    have hReturned := hAll.symm ▸ hThere
    rw [mem_insertionSort] at hReturned
    have hKept := (mem_filter.mp (mem_filter.mp hReturned).1).2
    rw [hDrop] at hKept
    cases hKept
  have hFirst : 0 < row.seq := by
    have := (hLogged.numbered row.runId).bounds hEv
    omega
  constructor
  · by_contra hNone
    push Not at hNone
    have hEmpty : (s.rowsOf row.runId).filter (fun row => !op.drops row) = [] := by
      rw [filter_eq_nil_iff]
      intro other hOther
      obtain ⟨hIn, hEq⟩ := mem_filter.mp hOther
      have := hNone other hIn (by simpa using hEq)
      simpa using this
    exact hTold 0 (by rw [hEmpty]; rfl) hFirst
  · intro other hOther hEq hStays
    by_contra hNewer
    have hLeft : other ∈ (s.rowsOf row.runId).filter fun row => !op.drops row :=
      mem_filter.mpr ⟨mem_filter.mpr ⟨hOther, by simpa using hEq⟩, by simp [hStays]⟩
    have hApart : other.seq ≠ row.seq := by
      intro hSeq
      have hRun := hLogged.numbered row.runId
      have hOtherEvent : other ∈ s.eventsOf row.runId :=
        (hLogged.some row.runId).subset (mem_filter.mpr ⟨hOther, by simpa using hEq⟩)
      have hSameRow := Paging.Rising.inj hRun.pairwise_lt hOtherEvent hEv hSeq
      rw [hSameRow, hDrop] at hStays
      cases hStays
    refine hTold (other.seq - 1) ?_ (by omega)
    have hSeq : other.seq ∈ ((s.rowsOf row.runId).filter fun row => !op.drops row).map RunEventRecord.seq := mem_map_of_mem hLeft
    cases hMin : (((s.rowsOf row.runId).filter fun row => !op.drops row).map RunEventRecord.seq).min? with
    | none => rfl
    | some oldest =>
      have hBelow := (min?_eq_some_iff.mp hMin).2 other.seq hSeq
      rw [Option.any_some, decide_eq_false_iff_not]
      omega

theorem logged_run (ops : List (LogOp Payload)) : Logged (run logStep ({} : Session Payload) ops) :=
  run_invariant_always (fun _ op h => h.step op) ops ⟨fun _ => trivial, fun _ => List.Sublist.refl _, fun _ hRow => by cases hRow⟩

/-- In a run no resume ever hides a gap if and only if each step leaves, of each run that it takes events of, some that are newer
than all it takes. -/
theorem honest_of_run (ops : List (LogOp Payload)) :
    (∀ front back, ops = front ++ back → (run logStep ({} : Session Payload) front).Honest) ↔ Along logStep Keeps {} ops := by
  have hStart : Logged ({} : Session Payload) := logged_run []
  have hNewest : Newest ({} : Session Payload) := Or.inr fun _ => ⟨suffix_rfl, fun hSome => absurd rfl hSome⟩
  have hRun : ∀ (ops : List (LogOp Payload)) (s : Session Payload), Logged s → Newest s →
      ((∀ front back, ops = front ++ back → (run logStep s front).Honest) ↔ Along logStep Keeps s ops) := by
    intro ops
    induction ops with
    | nil =>
      intro s hLogged hNewest
      refine ⟨fun _ => trivial, fun _ front back hSplit => ?_⟩
      obtain ⟨rfl, -⟩ := append_eq_nil_iff.mp hSplit.symm
      exact hNewest.honest hLogged
    | cons op ops ih =>
      intro s hLogged hNewest
      rw [along_cons]
      constructor
      · intro hHonest
        have hKeeps : Keeps s op := keeps_of_honest hLogged (hHonest [op] ops rfl)
        refine ⟨hKeeps, (ih _ (hLogged.step op) (hNewest.step hLogged hKeeps)).mp fun front back hSplit => ?_⟩
        exact hHonest (op :: front) back (by rw [hSplit, cons_append])
      · rintro ⟨hKeeps, hLater⟩ front back hSplit
        cases front with
        | nil => exact hNewest.honest hLogged
        | cons first front =>
          obtain ⟨rfl, hRest⟩ := List.cons.inj hSplit
          exact (ih _ (hLogged.step op) (hNewest.step hLogged hKeeps)).mpr hLater front back hRest
  exact hRun ops {} hStart hNewest

/-- A client acknowledges the last event, and another that has seen none is told that nothing is missing. -/
theorem acknowledged_gap_hidden :
    ¬ (run logStep ({} : Session Unit) [.append "run" (some ()) 10, .ack "run" 1]).Honest := by
  intro hHonest
  have hAll := hHonest "run" 0 (by decide)
  revert hAll
  decide

end Stella.RunEvents
