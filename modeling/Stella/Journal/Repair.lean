import Mathlib.Data.List.Pairwise
import Stella.Journal.ContextWindow

/-! # Repairing the tail

`repairTail` scans back to the last user message and closes every call of the messages it passed
that has no result.
-/

namespace Stella.Conversation

open List

def repairScanRowCap : Nat := 400

structure AppendResult where
  seq : Nat
  inserted : Bool

structure OpenCall where
  turnId : String
  toolCallId : String

def OpenCall.writerKey (call : OpenCall) : String := "repair:" ++ call.turnId ++ ":" ++ call.toolCallId

namespace ContextJournal

/-- `insert` after `assertWritable`: a known writer key inserts nothing; a retired writer or turn throws. -/
def appendMessage (journal : ContextJournal) (columns : Nat → ContextRow) : Option (ContextJournal × AppendResult) :=
  let row := columns journal.nextSeq
  if journal.deleted then none
  else
    match journal.rows.find? (fun r => r.writerKey = row.writerKey) with
    | some existing => some (journal, ⟨existing.seq, false⟩)
    | none =>
      if row.writerKey ∈ journal.retiredWriters then none
      else if row.turnId ∈ journal.retiredTurns then none
      else some ({ journal with rows := journal.rows ++ [row], nextSeq := journal.nextSeq + 1 }, ⟨journal.nextSeq, true⟩)

def scannedRows (journal : ContextJournal) : List ContextRow :=
  (journal.rows.filter fun row => row.message && !row.modelSkip).reverse.take repairScanRowCap

def scanOpen {γ : Type} (callsOf : Json → List γ) (idOf : γ → String) : List ContextRow → List String → List (String × γ)
  | [], _ => []
  | row :: older, answered =>
    match row.role with
    | some .user => []
    | some .toolResult =>
      match row.toolCallId with
      | some id => scanOpen callsOf idOf older (if id = "" then answered else id :: answered)
      | none => scanOpen callsOf idOf older answered
    | some .assistant =>
      if row.openCalls = 0 ∨ row.spillKey.any (· ≠ "") then scanOpen callsOf idOf older answered
      else
        match row.payload with
        | none => scanOpen callsOf idOf older answered
        | some message =>
          ((callsOf message).filter fun call => idOf call ∉ answered).map (fun call => (row.turnId, call)) ++
            scanOpen callsOf idOf older answered
    | none => scanOpen callsOf idOf older answered

/-- What `repairTail` closes, in the order it closes it. -/
def openCalls (journal : ContextJournal) : List OpenCall :=
  (scanOpen toolCallIds id journal.scannedRows []).reverse.map fun call => ⟨call.1, call.2⟩

def interruptedMessage (toolCallId : String) (now : Int) : Json :=
  .object
    [("role", .string "toolResult"), ("toolCallId", .string toolCallId), ("toolName", .string "unknown"),
      ("content", .array [.object
        [("type", .string "text"), ("text", .string "This tool call was interrupted before it finished.")]]),
      ("isError", .bool true), ("timestamp", .number now)]

variable (estimateTokens : Json → Nat) (now : Int)

def interruptedRow (call : OpenCall) (seq : Nat) : ContextRow where
  seq
  turnId := call.turnId
  writerKey := call.writerKey
  role := some .toolResult
  toolCallId := some call.toolCallId
  tokens := estimateTokens (interruptedMessage call.toolCallId now)
  payload := some (interruptedMessage call.toolCallId now)

def closeCalls (journal : ContextJournal) : List OpenCall → List AppendResult → ContextJournal × Option (List AppendResult)
  | [], appended => (journal, some appended)
  | call :: rest, appended =>
    match journal.appendMessage (interruptedRow estimateTokens now call) with
    | none => (journal, none)
    | some (journal, result) => closeCalls journal rest (appended ++ [result])

def repairTail (journal : ContextJournal) : ContextJournal × Option (List AppendResult) :=
  if journal.openCalls = [] then (journal, some []) else journal.closeCalls estimateTokens now journal.openCalls []

def openTailCalls (journal : ContextJournal) : List (String × ToolCall) :=
  (scanOpen (fun message => (toolCallsOf message).reverse) ToolCall.id journal.scannedRows []).reverse

/-! ## The tail -/

def tail (journal : ContextJournal) : List ContextRow :=
  (journal.rows.filter fun row => row.message && !row.modelSkip).reverse.takeWhile fun row => row.role ≠ some .user

def resultOf (row : ContextRow) : Option String := if row.role = some .toolResult then row.toolCallId else none

def results (rows : List ContextRow) : List String := rows.filterMap resultOf

def callIds (tail : List ContextRow) : List String := tail.reverse.flatMap calls

def unansweredIn (tail : List ContextRow) (row : ContextRow) : List String := (calls row).filter (· ∉ results tail)

structure Interrupted (tail : List ContextRow) : Prop where
  within : tail.length ≤ repairScanRowCap
  readable : ∀ row ∈ tail, row.role = some .assistant → row.spillKey.any (· ≠ "") = false ∧
    ∃ message, row.payload = some message ∧ row.openCalls = countOpenCalls message
  ids : ∀ row ∈ tail, ∀ id ∈ calls row, id ≠ ""
  calls : (callIds tail).Nodup
  results : (results tail).Nodup
  follow : ∀ newer result older, tail = newer ++ result :: older → result.role = some .toolResult → ∃ call ∈ older, Answers result call

def Appendable (journal : ContextJournal) (open' : List OpenCall) : Prop :=
  open' ≠ [] → journal.deleted = false ∧ (open'.map OpenCall.writerKey).Nodup ∧ ∀ call ∈ open',
    (∀ row ∈ journal.rows, row.writerKey ≠ call.writerKey) ∧ call.writerKey ∉ journal.retiredWriters ∧
      call.turnId ∉ journal.retiredTurns

def unanswered (journal : ContextJournal) : List OpenCall :=
  journal.tail.reverse.flatMap fun row => (unansweredIn journal.tail row).map fun id => ⟨row.turnId, id⟩

def added (journal : ContextJournal) : List ContextRow := (journal.repairTail estimateTokens now).1.rows.drop journal.rows.length

structure RepairsTail (journal : ContextJournal) : Prop where
  closed : ∀ row ∈ journal.tail, ∀ id ∈ calls row, (results (journal.repairTail estimateTokens now).1.tail).count id = 1
  ordered : (results (journal.added estimateTokens now)).Sublist (callIds journal.tail)
  same : ∀ turnId id, (∃ row ∈ journal.added estimateTokens now, row.turnId = turnId ∧ row.toolCallId = some id) ↔
    ∃ call, (turnId, call) ∈ journal.openTailCalls ∧ call.id = id
  stable : ∀ later, ((journal.repairTail estimateTokens now).1.repairTail estimateTokens later).1 =
    (journal.repairTail estimateTokens now).1

structure Repairable (journal : ContextJournal) : Prop where
  single : ∀ row ∈ journal.tail, (unansweredIn journal.tail row).length ≤ 1
  named : ∀ row ∈ journal.tail, ∀ id ∈ unansweredIn journal.tail row, ∃ message, row.payload = some message ∧
    ∃ call ∈ toolCallsOf message, call.id = id
  appendable : journal.Appendable journal.unanswered

/-! ## The scan over the tail -/

section

variable {γ : Type} (callsOf : Json → List γ) (idOf : γ → String)

theorem scanOpen_takeWhile (rows : List ContextRow) (answered : List String) :
    scanOpen callsOf idOf (rows.takeWhile fun row => row.role ≠ some .user) answered = scanOpen callsOf idOf rows answered := by
  induction rows generalizing answered with
  | nil => rfl
  | cons row older ih =>
    rw [takeWhile_cons]
    cases hRole : row.role with
    | none => simp only [scanOpen, hRole, ih, ne_eq, reduceCtorEq, not_false_eq_true, decide_true, if_true]
    | some role =>
      cases role with
      | user => simp [scanOpen, hRole]
      | assistant =>
        simp only [scanOpen, hRole, ih, ne_eq, Option.some.injEq, reduceCtorEq, not_false_eq_true, decide_true, if_true]
      | toolResult =>
        simp only [scanOpen, hRole, ih, ne_eq, Option.some.injEq, reduceCtorEq, not_false_eq_true, decide_true, if_true]

def openIn (answered : List String) (row : ContextRow) : List (String × γ) :=
  if row.role = some .assistant then
    (((row.payload.map callsOf).getD []).filter fun call => idOf call ∉ answered).map fun call => (row.turnId, call)
  else []

variable {callsOf} {idOf}

theorem results_append (xs ys : List ContextRow) : results (xs ++ ys) = results xs ++ results ys := filterMap_append

theorem calls_of_payload {row : ContextRow} {message : Json} (hRole : row.role = some .assistant)
    (hPay : row.payload = some message) :
    calls row = toolCallIds message := by
  unfold calls
  rw [if_pos hRole, hPay]
  rfl

theorem scanOpen_eq (hBlocks : ∀ message, countOpenCalls message = 0 → callsOf message = [])
    (hIds : ∀ message, ∀ call ∈ callsOf message, idOf call ∈ toolCallIds message) {whole : List ContextRow}
    (hReadable : ∀ row ∈ whole, row.role = some .assistant → row.spillKey.any (· ≠ "") = false ∧
      ∃ message, row.payload = some message ∧ row.openCalls = countOpenCalls message)
    (hNewer : ∀ newer row older, whole = newer ++ row :: older → ∀ id ∈ calls row, id ∈ results whole → id ∈ results newer)
    (hNonempty : ∀ row ∈ whole, ∀ id ∈ calls row, id ≠ "") (hUser : ∀ row ∈ whole, row.role ≠ some .user) {newer rows : List ContextRow}
    (hWhole : whole = newer ++ rows) {answered : List String}
    (hAnswered : ∀ id, id ≠ "" → (id ∈ answered ↔ id ∈ results newer)) :
    scanOpen callsOf idOf rows answered = rows.flatMap (openIn callsOf idOf (results whole)) := by
  induction rows generalizing newer answered with
  | nil => rfl
  | cons row older ih =>
    have hMem : row ∈ whole := hWhole ▸ mem_append_right _ mem_cons_self
    have hRest : whole = (newer ++ [row]) ++ older := by rw [hWhole, append_assoc]; rfl
    rw [flatMap_cons]
    cases hRole : row.role with
    | none =>
      have hEq : results (newer ++ [row]) = results newer := by simp [results, resultOf, hRole]
      simp only [scanOpen, hRole]
      rw [ih hRest (fun id hId => by rw [hEq]; exact hAnswered id hId)]
      simp [openIn, hRole]
    | some role =>
      cases role with
      | user => exact absurd hRole (hUser row hMem)
      | toolResult =>
        have hNext : ∀ id, id ≠ "" → (id ∈ (match row.toolCallId with
            | some id => if id = "" then answered else id :: answered
            | none => answered) ↔ id ∈ results (newer ++ [row])) := fun id hId => by
          rw [results_append, mem_append, ← hAnswered id hId]
          cases hCall : row.toolCallId with
          | none => simp [results, resultOf, hRole, hCall]
          | some other =>
            by_cases hEmpty : other = ""
            · simp [results, resultOf, hRole, hCall, hEmpty, hId]
            · simp [results, resultOf, hRole, hCall, hEmpty, or_comm]
        have hScan : scanOpen callsOf idOf (row :: older) answered = scanOpen callsOf idOf older (match row.toolCallId with
            | some id => if id = "" then answered else id :: answered
            | none => answered) := by
          simp only [scanOpen, hRole]
          cases row.toolCallId <;> rfl
        rw [hScan, ih hRest hNext]
        simp [openIn, hRole]
      | assistant =>
        have hEq : results (newer ++ [row]) = results newer := by simp [results, resultOf, hRole]
        obtain ⟨hSpill, message, hPay, hCnt⟩ := hReadable row hMem hRole
        have hOlder := @ih _ hRest answered (fun id hId => by rw [hEq]; exact hAnswered id hId)
        simp only [scanOpen, hRole, hSpill, Bool.false_eq_true, or_false, hPay]
        rw [hOlder]
        split
        · rename_i hNone
          rw [hCnt] at hNone
          simp [openIn, hRole, hPay, hBlocks message hNone]
        · congr 1
          unfold openIn
          rw [if_pos hRole, hPay, Option.map_some, Option.getD_some]
          congr 1
          refine filter_congr fun call hCall => ?_
          have hId : idOf call ∈ calls row := by
            rw [calls_of_payload hRole hPay]
            exact hIds message call hCall
          rw [decide_eq_decide, hAnswered _ (hNonempty row hMem _ hId)]
          constructor
          · exact fun hOut hIn => hOut (hNewer newer row older hWhole _ hId hIn)
          · exact fun hOut hIn => hOut (by rw [hWhole, results_append]; exact mem_append_left _ hIn)

theorem scanOpen_eq_nil {rows : List ContextRow} {answered : List String}
    (hIds : ∀ message, ∀ call ∈ callsOf message, idOf call ∈ toolCallIds message)
    (h : ∀ newer row older, rows = newer ++ row :: older → ∀ id ∈ calls row, id ∈ answered ∨ id ∈ results newer ∧ id ≠ "") :
    scanOpen callsOf idOf rows answered = [] := by
  induction rows generalizing answered with
  | nil => rfl
  | cons row older ih =>
    have hEq : resultOf row = none → scanOpen callsOf idOf older answered = [] := fun hNone => by
      refine ih fun newer other rest hRows id hId => ?_
      have hOr := h (row :: newer) other rest (by rw [hRows]; rfl) id hId
      rwa [show results (row :: newer) = results newer from filterMap_cons_none hNone] at hOr
    cases hRole : row.role with
    | none =>
      simp only [scanOpen, hRole]
      exact hEq (by simp [resultOf, hRole])
    | some role =>
      cases role with
      | user => simp [scanOpen, hRole]
      | toolResult =>
        simp only [scanOpen, hRole]
        cases hCall : row.toolCallId with
        | none => exact hEq (by simp [resultOf, hRole, hCall])
        | some other =>
          refine ih fun newer next rest hRows id hId => ?_
          have hOr := h (row :: newer) next rest (by rw [hRows]; rfl) id hId
          rw [show results (row :: newer) = other :: results newer from
            filterMap_cons_some (by simp [resultOf, hRole, hCall]), mem_cons] at hOr
          rcases hOr with hOld | ⟨rfl | hNew, hSome⟩
          · refine .inl ?_
            split
            · exact hOld
            · exact mem_cons_of_mem _ hOld
          · rw [if_neg hSome]
            exact .inl mem_cons_self
          · exact .inr ⟨hNew, hSome⟩
      | assistant =>
        simp only [scanOpen, hRole]
        have hNone := hEq (by simp [resultOf, hRole])
        split
        · exact hNone
        · cases hPay : row.payload with
          | none => exact hNone
          | some message =>
            dsimp only
            rw [hNone, append_nil, map_eq_nil_iff, filter_eq_nil_iff]
            intro call hCall
            have hId : idOf call ∈ calls row := by
              rw [calls_of_payload hRole hPay]
              exact hIds message call hCall
            rcases h [] row older rfl _ hId with hOld | ⟨hNew, -⟩
            · simpa using hOld
            · cases hNew

end

/-! ## What an interrupted tail leaves open -/

variable {journal : ContextJournal}

theorem role_of_mem_tail {row : ContextRow} (h : row ∈ journal.tail) : row.role ≠ some .user := by
  simpa using all_eq_true.mp all_takeWhile row h

namespace Interrupted

variable {tail : List ContextRow} (h : Interrupted tail)

include h

theorem calls_disjoint : tail.Pairwise fun a b => List.Disjoint (ContextJournal.calls b) (ContextJournal.calls a) := by
  have hPairs := (nodup_flatMap.mp h.calls).2
  exact pairwise_reverse.mp hPairs

theorem newer {newer older : List ContextRow} {row : ContextRow} (hTail : tail = newer ++ row :: older) {id : String}
    (hId : id ∈ ContextJournal.calls row) (hRes : id ∈ ContextJournal.results tail) : id ∈ ContextJournal.results newer := by
  rw [hTail, results_append, mem_append] at hRes
  refine hRes.resolve_right fun hOld => ?_
  obtain ⟨result, hMem, hOf⟩ := mem_filterMap.mp hOld
  have hRole : result.role = some .toolResult := by
    unfold resultOf at hOf
    split at hOf
    · assumption
    · cases hOf
  have hCallId : result.toolCallId = some id := by
    unfold resultOf at hOf
    rwa [if_pos hRole] at hOf
  obtain ⟨front, rest, hSplit⟩ := append_of_mem hMem
  obtain ⟨call, hCall, other, hOther, hEq⟩ := h.follow (newer ++ front) result rest (by rw [hTail, hSplit, append_assoc]) hRole
  obtain rfl : id = other := Option.some.inj (hCallId.symm.trans hEq)
  cases front with
  | nil =>
    -- The row itself is a result, and makes no call.
    rw [nil_append] at hSplit
    obtain ⟨rfl, -⟩ := List.cons.inj hSplit
    unfold ContextJournal.calls at hId
    rw [if_neg (by rw [hRole]; decide)] at hId
    cases hId
  | cons first front =>
    obtain ⟨rfl, hOlder⟩ := List.cons.inj hSplit
    have hPairs := h.calls_disjoint
    rw [hTail] at hPairs
    have hLater := (pairwise_cons.mp (pairwise_append.mp hPairs).2.1).1 call (by
      rw [hOlder]
      exact mem_append_right _ (mem_cons_of_mem _ hCall))
    exact hLater hOther hId

theorem row_unique {a b : ContextRow} (ha : a ∈ tail) (hb : b ∈ tail) {id : String} (hA : id ∈ ContextJournal.calls a)
    (hB : id ∈ ContextJournal.calls b) : a = b := by
  by_contra hNe
  have hSymm : Std.Symm fun a b => List.Disjoint (ContextJournal.calls b) (ContextJournal.calls a) :=
    ⟨fun _ _ hDisjoint => disjoint_symm hDisjoint⟩
  exact h.calls_disjoint.forall hb ha (Ne.symm hNe) hA hB

end Interrupted

theorem takeWhile_scannedRows (h : journal.tail.length ≤ repairScanRowCap) :
    (journal.scannedRows.takeWhile fun row => row.role ≠ some .user) = journal.tail := by
  unfold scannedRows
  rw [← take_takeWhile]
  exact take_of_length_le h

theorem toolCallIds_of_count {message : Json} (h : countOpenCalls message = 0) : toolCallIds message = [] := by
  unfold toolCallIds
  rw [eq_nil_of_length_eq_zero h]
  rfl

theorem id_mem_toolCallIds {message : Json} {call : ToolCall} (h : call ∈ toolCallsOf message) : call.id ∈ toolCallIds message := by
  obtain ⟨block, hBlock, hCall⟩ := mem_filterMap.mp h
  refine mem_filterMap.mpr ⟨block, hBlock, ?_⟩
  unfold toolCallOf at hCall
  split at hCall
  · rename_i hId _
    rw [hId, ← Option.some.inj hCall]
  · cases hCall

theorem scanOpen_tail {γ : Type} {callsOf : Json → List γ} {idOf : γ → String} (h : Interrupted journal.tail)
    (hBlocks : ∀ message, countOpenCalls message = 0 → callsOf message = [])
    (hIds : ∀ message, ∀ call ∈ callsOf message, idOf call ∈ toolCallIds message) :
    scanOpen callsOf idOf journal.scannedRows [] = journal.tail.flatMap (openIn callsOf idOf (results journal.tail)) := by
  rw [← scanOpen_takeWhile, takeWhile_scannedRows h.within]
  exact @scanOpen_eq _ _ _ hBlocks hIds _ h.readable (fun _ _ _ hWhole _ hId hRes => h.newer hWhole hId hRes) h.ids
    (fun _ hRow => role_of_mem_tail hRow) [] _ rfl _ (fun _ _ => Iff.rfl)

theorem openCalls_eq (h : Interrupted journal.tail) : journal.openCalls =
    journal.tail.reverse.flatMap fun row => ((unansweredIn journal.tail row).map fun id => ⟨row.turnId, id⟩).reverse := by
  unfold openCalls
  rw [@scanOpen_tail _ _ _ id h (fun _ => toolCallIds_of_count) (fun _ _ hCall => hCall), reverse_flatMap, map_flatMap]
  refine flatMap_congr fun row hRow => ?_
  unfold openIn unansweredIn calls
  rw [Function.comp_apply]
  by_cases hRole : row.role = some .assistant
  · simp only [if_pos hRole]
    rw [← map_reverse, ← map_reverse, map_map]
    rfl
  · simp only [if_neg hRole]
    rfl

theorem mem_openTailCalls (h : Interrupted journal.tail) {turnId : String} {call : ToolCall} :
    (turnId, call) ∈ journal.openTailCalls ↔ ∃ row ∈ journal.tail, row.turnId = turnId ∧ call.id ∈ unansweredIn journal.tail row ∧
      ∃ message, row.payload = some message ∧ call ∈ toolCallsOf message := by
  unfold openTailCalls
  rw [mem_reverse, scanOpen_tail h (fun message hNone => by
      unfold toolCallsOf
      rw [eq_nil_of_length_eq_zero hNone]
      rfl) (fun _ _ hCall => id_mem_toolCallIds (mem_reverse.mp hCall)), mem_flatMap]
  constructor
  · rintro ⟨row, hRow, hOpen⟩
    unfold openIn at hOpen
    split at hOpen
    · rename_i hRole
      obtain ⟨other, hOther, hEq⟩ := mem_map.mp hOpen
      obtain ⟨rfl, rfl⟩ := Prod.mk.inj hEq
      obtain ⟨hCall, hAnswered⟩ := mem_filter.mp hOther
      cases hPay : row.payload with
      | none =>
        rw [hPay] at hCall
        cases hCall
      | some message =>
        rw [hPay] at hCall
        have hNamed : other ∈ toolCallsOf message := mem_reverse.mp hCall
        refine ⟨row, hRow, rfl, mem_filter.mpr ⟨?_, hAnswered⟩, message, hPay, hNamed⟩
        rw [calls_of_payload hRole hPay]
        exact id_mem_toolCallIds hNamed
    · cases hOpen
  · rintro ⟨row, hRow, rfl, hOpen, message, hPay, hCall⟩
    obtain ⟨hId, hAnswered⟩ := mem_filter.mp hOpen
    refine ⟨row, hRow, ?_⟩
    unfold openIn
    unfold calls at hId
    split at hId
    · rename_i hRole
      rw [if_pos hRole, hPay]
      exact mem_map.mpr ⟨call, mem_filter.mpr ⟨mem_reverse.mpr hCall, hAnswered⟩, rfl⟩
    · cases hId

/-! ## What the appends add -/

def interruptedRows (seq : Nat) : List OpenCall → List ContextRow
  | [] => []
  | call :: rest => interruptedRow estimateTokens now call seq :: interruptedRows (seq + 1) rest

theorem mem_interruptedRows {seq : Nat} {entries : List OpenCall} {row : ContextRow}
    (h : row ∈ interruptedRows estimateTokens now seq entries) :
    ∃ call ∈ entries, ∃ at', row = interruptedRow estimateTokens now call at' := by
  induction entries generalizing seq with
  | nil => cases h
  | cons call rest ih =>
    rcases mem_cons.mp h with rfl | hRest
    · exact ⟨call, mem_cons_self, seq, rfl⟩
    · obtain ⟨other, hOther, hRow⟩ := ih hRest
      exact ⟨other, mem_cons_of_mem _ hOther, hRow⟩

theorem exists_interruptedRow {seq : Nat} {entries : List OpenCall} {call : OpenCall} (h : call ∈ entries) :
    ∃ at', interruptedRow estimateTokens now call at' ∈ interruptedRows estimateTokens now seq entries := by
  induction entries generalizing seq with
  | nil => cases h
  | cons first rest ih =>
    rcases mem_cons.mp h with rfl | hRest
    · exact ⟨seq, mem_cons_self⟩
    · obtain ⟨at', hRow⟩ := @ih (seq + 1) hRest
      exact ⟨at', mem_cons_of_mem _ hRow⟩

theorem results_interruptedRows (seq : Nat) (entries : List OpenCall) :
    results (interruptedRows estimateTokens now seq entries) = entries.map OpenCall.toolCallId := by
  induction entries generalizing seq with
  | nil => rfl
  | cons call rest ih =>
    unfold interruptedRows
    rw [map_cons, ← ih]
    rfl

theorem appendMessage_cases (journal : ContextJournal) (call : OpenCall) :
    (journal.Appendable [call] ∧ ∃ result, journal.appendMessage (interruptedRow estimateTokens now call) =
      some ({ journal with rows := journal.rows ++ [interruptedRow estimateTokens now call journal.nextSeq], nextSeq := journal.nextSeq + 1 }, result)) ∨
    ¬ journal.Appendable [call] ∧ (journal.appendMessage (interruptedRow estimateTokens now call) = none ∨
      ∃ result, journal.appendMessage (interruptedRow estimateTokens now call) = some (journal, result)) := by
  unfold appendMessage Appendable
  cases hFind : journal.rows.find? (fun r => r.writerKey = (interruptedRow estimateTokens now call journal.nextSeq).writerKey) with
  | some existing =>
    have hFound := find?_some hFind
    have hKey : existing.writerKey = call.writerKey := of_decide_eq_true hFound
    have hMem := mem_of_find?_eq_some hFind
    refine .inr ⟨fun h => ((h (cons_ne_nil _ _)).2.2 call mem_cons_self).1 existing hMem hKey, ?_⟩
    dsimp only
    rw [hFind]
    split
    · exact .inl rfl
    · exact .inr ⟨_, rfl⟩
  | none =>
    have hFresh : ∀ row ∈ journal.rows, row.writerKey ≠ call.writerKey := fun row hRow hEq =>
      find?_eq_none.mp hFind row hRow (decide_eq_true hEq)
    dsimp only
    rw [hFind]
    dsimp only
    split
    · rename_i hDeleted
      refine .inr ⟨fun h => ?_, .inl rfl⟩
      rw [(h (cons_ne_nil _ _)).1] at hDeleted
      cases hDeleted
    · rename_i hDeleted
      split
      · rename_i hRet
        exact .inr ⟨fun h => ((h (cons_ne_nil _ _)).2.2 call mem_cons_self).2.1 hRet, .inl rfl⟩
      · rename_i hWriter
        split
        · rename_i hRet
          exact .inr ⟨fun h => ((h (cons_ne_nil _ _)).2.2 call mem_cons_self).2.2 hRet, .inl rfl⟩
        · rename_i hTurn
          refine .inl ⟨fun _ => ⟨by simpa using hDeleted, pairwise_singleton _ _, fun other hOther => ?_⟩, _, rfl⟩
          rw [mem_singleton.mp hOther]
          exact ⟨hFresh, hWriter, hTurn⟩

theorem appendable_cons {call : OpenCall} {rest : List OpenCall} : journal.Appendable (call :: rest) ↔ journal.Appendable [call] ∧
    ({ journal with rows := journal.rows ++ [interruptedRow estimateTokens now call journal.nextSeq],
                    nextSeq := journal.nextSeq + 1 } : ContextJournal).Appendable rest := by
  have hKey : (interruptedRow estimateTokens now call journal.nextSeq).writerKey = call.writerKey := rfl
  constructor
  · intro h
    obtain ⟨hDeleted, hKeys, hCalls⟩ := h (cons_ne_nil _ _)
    obtain ⟨hFirst, hRest⟩ := nodup_cons.mp hKeys
    refine ⟨fun _ => ⟨hDeleted, pairwise_singleton _ _, fun other hOther => ?_⟩, fun _ => ⟨hDeleted, hRest, fun other hOther => ?_⟩⟩
    · rw [mem_singleton.mp hOther]
      exact hCalls call mem_cons_self
    · obtain ⟨hFresh, hRet⟩ := hCalls other (mem_cons_of_mem _ hOther)
      refine ⟨fun row hRow => ?_, hRet⟩
      rcases mem_append.mp hRow with hOld | hNew
      · exact hFresh row hOld
      · rw [mem_singleton.mp hNew, hKey]
        exact fun hEq => hFirst (hEq ▸ mem_map_of_mem hOther)
  · rintro ⟨hFirst, hRest⟩ -
    obtain ⟨hDeleted, -, hCall⟩ := hFirst (cons_ne_nil _ _)
    cases rest with
    | nil => exact hFirst (cons_ne_nil _ _)
    | cons next others =>
      obtain ⟨-, hKeys, hCalls⟩ := hRest (cons_ne_nil _ _)
      refine ⟨hDeleted, nodup_cons.mpr ⟨fun hIn => ?_, hKeys⟩, fun other hOther => ?_⟩
      · obtain ⟨other, hOther, hEq⟩ := mem_map.mp hIn
        exact (hCalls other hOther).1 _ (mem_append_right _ mem_cons_self) (hKey.trans hEq.symm)
      · rcases mem_cons.mp hOther with rfl | hLater
        · exact hCall other mem_cons_self
        · obtain ⟨hFresh, hRet⟩ := hCalls other hLater
          exact ⟨fun row hRow => hFresh row (mem_append_left _ hRow), hRet⟩

theorem closeCalls_rows (journal : ContextJournal) (open' : List OpenCall) (appended : List AppendResult) :
    ∃ entries, entries.Sublist open' ∧
      (journal.closeCalls estimateTokens now open' appended).1.rows = journal.rows ++ interruptedRows estimateTokens now journal.nextSeq entries ∧
      (entries = open' ↔ journal.Appendable open') := by
  induction open' generalizing journal appended with
  | nil => exact ⟨[], List.Sublist.slnil, (append_nil _).symm, ⟨fun _ h => absurd rfl h, fun _ => rfl⟩⟩
  | cons call rest ih =>
    unfold closeCalls
    rcases appendMessage_cases estimateTokens now journal call with ⟨hCan, result, hApp⟩ | ⟨hCannot, hApp⟩
    · rw [hApp]
      dsimp only
      obtain ⟨entries, hSub, hRows, hAll⟩ := ih
        { journal with rows := journal.rows ++ [interruptedRow estimateTokens now call journal.nextSeq], nextSeq := journal.nextSeq + 1 }
        (appended ++ [result])
      refine ⟨call :: entries, hSub.cons_cons call, ?_, ?_⟩
      · rw [hRows]
        dsimp only
        rw [append_assoc]
        rfl
      · rw [appendable_cons estimateTokens now, and_iff_right hCan, ← hAll, cons_inj_right]
    · have hNot : ¬ journal.Appendable (call :: rest) := fun h => hCannot ((appendable_cons estimateTokens now).mp h).1
      rcases hApp with hApp | ⟨result, hApp⟩
      · rw [hApp]
        exact ⟨[], nil_sublist _, (append_nil _).symm, ⟨fun h => absurd h.symm (cons_ne_nil _ _), fun h => absurd h hNot⟩⟩
      · rw [hApp]
        dsimp only
        obtain ⟨entries, hSub, hRows, -⟩ := ih journal (appended ++ [result])
        refine ⟨entries, hSub.cons call, hRows, ⟨fun h => ?_, fun h => absurd h hNot⟩⟩
        have hLen := hSub.length_le
        rw [h, length_cons] at hLen
        omega

theorem repairTail_rows (journal : ContextJournal) : ∃ entries, entries.Sublist journal.openCalls ∧
    (journal.repairTail estimateTokens now).1.rows = journal.rows ++ interruptedRows estimateTokens now journal.nextSeq entries ∧
    (entries = journal.openCalls ↔ journal.Appendable journal.openCalls) := by
  unfold repairTail
  split
  · rename_i hNone
    rw [hNone]
    exact ⟨[], List.Sublist.slnil, (append_nil _).symm, ⟨fun _ h => absurd rfl h, fun _ => rfl⟩⟩
  · exact closeCalls_rows estimateTokens now journal journal.openCalls []

theorem tail_of_rows {later : ContextJournal} {seq : Nat} {entries : List OpenCall}
    (h : later.rows = journal.rows ++ interruptedRows estimateTokens now seq entries) :
    later.tail = (interruptedRows estimateTokens now seq entries).reverse ++ journal.tail ∧
      later.scannedRows = ((interruptedRows estimateTokens now seq entries).reverse ++
        (journal.rows.filter fun row => row.message && !row.modelSkip).reverse).take repairScanRowCap := by
  have hNew : (interruptedRows estimateTokens now seq entries).filter (fun row => row.message && !row.modelSkip) =
      interruptedRows estimateTokens now seq entries := filter_eq_self.mpr fun row hRow => by
    obtain ⟨call, _, at', rfl⟩ := mem_interruptedRows estimateTokens now hRow
    rfl
  constructor
  · unfold tail
    rw [h, filter_append, hNew, reverse_append, takeWhile_append_of_pos]
    intro row hRow
    obtain ⟨call, _, at', rfl⟩ := mem_interruptedRows estimateTokens now (mem_reverse.mp hRow)
    rfl
  · unfold scannedRows
    rw [h, filter_append, hNew, reverse_append]

/-! ## Completely and in order -/

theorem Appendable.perm {xs ys : List OpenCall} (h : xs.Perm ys) (hX : journal.Appendable xs) : journal.Appendable ys := by
  intro hSome
  obtain ⟨hDeleted, hKeys, hCalls⟩ := hX fun hNone => hSome (by rw [hNone] at h; exact h.nil_eq.symm)
  exact ⟨hDeleted, (h.map _).nodup_iff.mp hKeys, fun call hCall => hCalls call (h.mem_iff.mpr hCall)⟩

theorem openCalls_perm (h : Interrupted journal.tail) : journal.openCalls.Perm journal.unanswered := by
  rw [openCalls_eq h]
  unfold unanswered
  generalize journal.tail.reverse = rows
  induction rows with
  | nil => exact .nil
  | cons row rest ih =>
    rw [flatMap_cons, flatMap_cons]
    exact (reverse_perm _).append ih

theorem ids_unanswered (journal : ContextJournal) : journal.unanswered.map OpenCall.toolCallId =
    journal.tail.reverse.flatMap (unansweredIn journal.tail) := by
  unfold unanswered
  rw [map_flatMap]
  refine flatMap_congr fun row _ => ?_
  rw [map_map]
  exact map_id _

theorem ids_openCalls (h : Interrupted journal.tail) : journal.openCalls.map OpenCall.toolCallId =
    journal.tail.reverse.flatMap fun row => (unansweredIn journal.tail row).reverse := by
  rw [openCalls_eq h, map_flatMap]
  refine flatMap_congr fun row _ => ?_
  rw [← map_reverse, map_map]
  exact map_id _

theorem ids_sublist (journal : ContextJournal) : (journal.unanswered.map OpenCall.toolCallId).Sublist (callIds journal.tail) := by
  rw [ids_unanswered]
  unfold callIds
  generalize journal.tail.reverse = rows
  induction rows with
  | nil => exact List.Sublist.slnil
  | cons row rest ih =>
    rw [flatMap_cons, flatMap_cons]
    exact filter_sublist.append ih

theorem ids_nodup (h : Interrupted journal.tail) : (journal.openCalls.map OpenCall.toolCallId).Nodup :=
  ((openCalls_perm h).map _).nodup_iff.mpr (h.calls.sublist (ids_sublist journal))

theorem mem_ids_openCalls (h : Interrupted journal.tail) {id : String} :
    id ∈ journal.openCalls.map OpenCall.toolCallId ↔ ∃ row ∈ journal.tail, id ∈ unansweredIn journal.tail row := by
  rw [((openCalls_perm h).map _).mem_iff, ids_unanswered, mem_flatMap]
  simp only [mem_reverse]

theorem mem_openCalls (h : Interrupted journal.tail) {call : OpenCall} :
    call ∈ journal.openCalls ↔ ∃ row ∈ journal.tail, row.turnId = call.turnId ∧ call.toolCallId ∈ unansweredIn journal.tail row := by
  rw [(openCalls_perm h).mem_iff]
  unfold unanswered
  simp only [mem_flatMap, mem_reverse, mem_map]
  constructor
  · rintro ⟨row, hRow, id, hId, rfl⟩
    exact ⟨row, hRow, rfl, hId⟩
  · rintro ⟨row, hRow, hTurn, hId⟩
    exact ⟨row, hRow, _, hId, by rw [hTurn]⟩

theorem sublist_flatMap {f : ContextRow → List String} {row : ContextRow} {rows : List ContextRow} (h : row ∈ rows) :
    (f row).Sublist (rows.flatMap f) := by
  rw [flatMap_def]
  exact sublist_flatten_of_mem (mem_map_of_mem h)

theorem not_both_orders {xs : List String} (h : xs.Nodup) {x y : String} (hNe : x ≠ y) (hXY : [x, y].Sublist xs)
    (hYX : [y, x].Sublist xs) : False := by
  induction xs with
  | nil => cases hXY
  | cons z rest ih =>
    obtain ⟨hZ, hRest⟩ := nodup_cons.mp h
    cases hXY with
    | cons _ hXY =>
      cases hYX with
      | cons _ hYX => exact ih hRest hXY hYX
      | cons_cons _ hX => exact hZ (hXY.subset (mem_cons_of_mem _ mem_cons_self))
    | cons_cons _ hY =>
      cases hYX with
      | cons _ hYX => exact hZ (hYX.subset (mem_cons_of_mem _ mem_cons_self))
      | cons_cons _ hX => exact hNe rfl

theorem ordered_iff (h : Interrupted journal.tail) : (journal.openCalls.map OpenCall.toolCallId).Sublist (callIds journal.tail) ↔
    ∀ row ∈ journal.tail, (unansweredIn journal.tail row).length ≤ 1 := by
  constructor
  · intro hSub row hRow
    by_contra hMany
    obtain ⟨x, y, rest, hOpen⟩ : ∃ x y rest, unansweredIn journal.tail row = x :: y :: rest := by
      match hList : unansweredIn journal.tail row with
      | [] => rw [hList] at hMany; exact absurd (Nat.zero_le _) hMany
      | [_] => rw [hList] at hMany; exact absurd (Nat.le_refl _) hMany
      | x :: y :: rest => exact ⟨x, y, rest, rfl⟩
    have hCalls : (calls row).Sublist (callIds journal.tail) := sublist_flatMap (mem_reverse.mpr hRow)
    have hTwo : [x, y].Sublist (unansweredIn journal.tail row) := by
      rw [hOpen]
      exact (nil_sublist rest).cons_cons y |>.cons_cons x
    have hForth : [x, y].Sublist (callIds journal.tail) := hTwo.trans (filter_sublist.trans hCalls)
    have hBack : [y, x].Sublist (callIds journal.tail) := by
      refine List.Sublist.trans ?_ hSub
      rw [ids_openCalls h]
      refine List.Sublist.trans (show [y, x].Sublist (unansweredIn journal.tail row).reverse from hTwo.reverse) ?_
      exact @sublist_flatMap (fun row => (unansweredIn journal.tail row).reverse) row _ (mem_reverse.mpr hRow)
    have hNe : x ≠ y := by
      have hNd := h.calls.sublist hForth
      simpa using hNd
    exact not_both_orders h.calls hNe hForth hBack
  · intro hSingle
    have hEq : journal.openCalls.map OpenCall.toolCallId = journal.unanswered.map OpenCall.toolCallId := by
      rw [ids_openCalls h, ids_unanswered]
      refine flatMap_congr fun row hRow => ?_
      have hOne := hSingle row (mem_reverse.mp hRow)
      match hList : unansweredIn journal.tail row with
      | [] => rfl
      | [_] => rfl
      | _ :: _ :: _ =>
        rw [hList, length_cons, length_cons] at hOne
        omega
    rw [hEq]
    exact ids_sublist journal

theorem openCalls_repaired (h : Interrupted journal.tail) {later : ContextJournal} {seq : Nat}
    (hRows : later.rows = journal.rows ++ interruptedRows estimateTokens now seq journal.openCalls) : later.openCalls = [] := by
  obtain ⟨hTail, -⟩ := tail_of_rows estimateTokens now hRows
  have hScanned : (later.scannedRows.takeWhile fun row => row.role ≠ some .user) = later.tail.take repairScanRowCap := by
    unfold scannedRows tail
    rw [take_takeWhile]
  have hNone : scanOpen toolCallIds id later.scannedRows [] = [] := by
    rw [← scanOpen_takeWhile, hScanned]
    refine scanOpen_eq_nil (fun _ _ hCall => hCall) fun newer row older hSplit id hId => .inr ?_
    have hWhole : (interruptedRows estimateTokens now seq journal.openCalls).reverse ++ journal.tail =
        newer ++ row :: (older ++ later.tail.drop repairScanRowCap) := by
      rw [← hTail, ← cons_append, ← append_assoc, ← hSplit, take_append_drop]
    have hAsst : row ∉ interruptedRows estimateTokens now seq journal.openCalls := fun hIn => by
      obtain ⟨call, _, at', rfl⟩ := mem_interruptedRows estimateTokens now hIn
      cases hId
    obtain ⟨front, hNewer, hOld⟩ : ∃ front, newer = (interruptedRows estimateTokens now seq journal.openCalls).reverse ++ front ∧
        journal.tail = front ++ row :: (older ++ later.tail.drop repairScanRowCap) := by
      rcases append_eq_append_iff.mp hWhole with ⟨front, hNewer, hOld⟩ | ⟨rest, hNew, hOld⟩
      · exact ⟨front, hNewer, hOld⟩
      · cases rest with
        | nil => exact ⟨[], by rw [append_nil] at hNew ⊢; exact hNew.symm, hOld.symm⟩
        | cons first rest =>
          obtain ⟨rfl, -⟩ := List.cons.inj hOld
          refine absurd (mem_reverse.mp ?_) hAsst
          rw [hNew]
          exact mem_append_right _ mem_cons_self
    have hRow : row ∈ journal.tail := hOld ▸ mem_append_right _ mem_cons_self
    refine ⟨?_, h.ids row hRow id hId⟩
    rw [hNewer, results_append, mem_append]
    by_cases hAnswered : id ∈ results journal.tail
    · exact .inr (h.newer hOld hId hAnswered)
    · refine .inl ?_
      unfold results
      rw [filterMap_reverse, mem_reverse]
      change id ∈ results _
      rw [results_interruptedRows]
      exact (mem_ids_openCalls h).mpr ⟨row, hRow, mem_filter.mpr ⟨hId, decide_eq_true hAnswered⟩⟩
  unfold openCalls
  rw [hNone]
  rfl

theorem repairsTail_iff (h : Interrupted journal.tail) : journal.RepairsTail estimateTokens now ↔ journal.Repairable := by
  obtain ⟨entries, hSub, hRows, hAll⟩ := repairTail_rows estimateTokens now journal
  have hAdded : journal.added estimateTokens now = interruptedRows estimateTokens now journal.nextSeq entries := by
    unfold added
    rw [hRows, drop_left]
  have hTail : results (journal.repairTail estimateTokens now).1.tail =
      (entries.map OpenCall.toolCallId).reverse ++ results journal.tail := by
    rw [(tail_of_rows estimateTokens now hRows).1, results_append, ← results_interruptedRows estimateTokens now journal.nextSeq]
    congr 1
    exact filterMap_reverse
  constructor
  · intro hRepairs
    obtain rfl : entries = journal.openCalls := by
      refine hSub.eq_of_length_le ?_
      rw [← length_map OpenCall.toolCallId, ← entries.length_map OpenCall.toolCallId]
      refine (subperm_of_subset (ids_nodup h) fun id hId => ?_).length_le
      obtain ⟨row, hRow, hOpen⟩ := (mem_ids_openCalls h).mp hId
      obtain ⟨hCall, hAnswered⟩ := mem_filter.mp hOpen
      have hCount := hRepairs.closed row hRow id hCall
      rw [hTail] at hCount
      have hMem := one_le_count_iff.mp hCount.ge
      exact mem_reverse.mp ((mem_append.mp hMem).resolve_right (of_decide_eq_true hAnswered))
    refine ⟨?_, fun row hRow id hOpen => ?_, (hAll.mp rfl).perm (openCalls_perm h)⟩
    · refine (ordered_iff h).mp ?_
      have hOrdered := hRepairs.ordered
      rwa [hAdded, results_interruptedRows] at hOrdered
    · have hIn : (⟨row.turnId, id⟩ : OpenCall) ∈ journal.openCalls := (mem_openCalls h).mpr ⟨row, hRow, rfl, hOpen⟩
      obtain ⟨at', hNew⟩ := @exists_interruptedRow estimateTokens now journal.nextSeq _ _ hIn
      rw [← hAdded] at hNew
      obtain ⟨call, hCall, rfl⟩ := (hRepairs.same row.turnId id).mp ⟨_, hNew, rfl, rfl⟩
      obtain ⟨other, hOther, -, hOtherOpen, message, hPayload, hNamed⟩ := (mem_openTailCalls h).mp hCall
      rw [h.row_unique hRow hOther (mem_filter.mp hOpen).1 (mem_filter.mp hOtherOpen).1]
      exact ⟨message, hPayload, call, hNamed, rfl⟩
  · intro hRepairable
    obtain rfl := hAll.mpr (hRepairable.appendable.perm (openCalls_perm h).symm)
    refine ⟨fun row hRow id hId => ?_, ?_, fun turnId id => ⟨?_, ?_⟩, fun later => ?_⟩
    · rw [hTail]
      have hNodup : ((journal.openCalls.map OpenCall.toolCallId).reverse ++ results journal.tail).Nodup := by
        refine nodup_append.mpr ⟨nodup_reverse.mpr (ids_nodup h), h.results, fun open' hOpen answered hAnswered hSame => ?_⟩
        obtain ⟨other, -, hOther⟩ := (mem_ids_openCalls h).mp (mem_reverse.mp hOpen)
        exact of_decide_eq_true (mem_filter.mp hOther).2 (hSame ▸ hAnswered)
      refine count_eq_one_of_mem hNodup (mem_append.mpr ?_)
      by_cases hAnswered : id ∈ results journal.tail
      · exact Or.inr hAnswered
      · exact Or.inl (mem_reverse.mpr ((mem_ids_openCalls h).mpr ⟨row, hRow, mem_filter.mpr ⟨hId, decide_eq_true hAnswered⟩⟩))
    · rw [hAdded, results_interruptedRows]
      exact (ordered_iff h).mpr hRepairable.single
    · rintro ⟨new, hNew, rfl, hId⟩
      rw [hAdded] at hNew
      obtain ⟨open', hOpen, at', rfl⟩ := mem_interruptedRows estimateTokens now hNew
      obtain rfl : open'.toolCallId = id := Option.some.inj hId
      obtain ⟨row, hRow, hTurn, hUnanswered⟩ := (mem_openCalls h).mp hOpen
      obtain ⟨message, hPayload, call, hCall, hSame⟩ := hRepairable.named row hRow _ hUnanswered
      exact ⟨call, (mem_openTailCalls h).mpr ⟨row, hRow, hTurn, hSame ▸ hUnanswered, message, hPayload, hCall⟩, hSame⟩
    · rintro ⟨call, hCall, rfl⟩
      obtain ⟨row, hRow, rfl, hOpen, -⟩ := (mem_openTailCalls h).mp hCall
      have hIn : (⟨row.turnId, call.id⟩ : OpenCall) ∈ journal.openCalls := (mem_openCalls h).mpr ⟨row, hRow, rfl, hOpen⟩
      obtain ⟨at', hNew⟩ := @exists_interruptedRow estimateTokens now journal.nextSeq _ _ hIn
      rw [← hAdded] at hNew
      exact ⟨_, hNew, rfl, rfl⟩
    · unfold repairTail
      rw [if_pos]
      exact openCalls_repaired estimateTokens now h hRows

/-! ### A message with two calls -/

def callBlock (toolCallId : String) : Json :=
  .object [("type", .string "toolCall"), ("id", .string toolCallId), ("name", .string "tool")]

def callingJournal (toolCallIds : List String) (rows : List ContextRow) : ContextJournal where
  rows :=
    [⟨0, true, "turn", "question", some .user, false, false, none, 0, 1, some .null, none⟩,
      ⟨1, true, "turn", "answer", some .assistant, false, false, none, toolCallIds.length, 1,
        some (.object [("content", .array (toolCallIds.map callBlock))]), none⟩] ++ rows
  nextSeq := 2 + rows.length

def resultRow (seq : Nat) (toolCallId : String) : ContextRow :=
  ⟨seq, true, "turn", "result:" ++ toolCallId, some .toolResult, false, false, some toolCallId, 0, 1, some .null, none⟩

/-- The first of the two calls has its result, the repair closes the other. -/
theorem repairsTail_iff_answered : (callingJournal ["a", "b"] [resultRow 2 "a"]).RepairsTail (fun _ => 1) 0 ↔
    (callingJournal ["a", "b"] [resultRow 2 "a"]).Repairable := by
  refine repairsTail_iff (fun _ => 1) 0 ⟨by decide, ?_, by decide, by decide, by decide, ?_⟩
  · intro row hRow _
    have hTail : (callingJournal ["a", "b"] [resultRow 2 "a"]).tail =
        [resultRow 2 "a", ⟨1, true, "turn", "answer", some .assistant, false, false, none, 2, 1,
          some (.object [("content", .array [callBlock "a", callBlock "b"])]), none⟩] := rfl
    rw [hTail] at hRow
    simp only [mem_cons, not_mem_nil, or_false] at hRow
    rcases hRow with rfl | rfl
    · contradiction
    · exact ⟨rfl, _, rfl, rfl⟩
  · intro newer result older hSplit hRole
    match newer, hSplit with
    | [], hSplit =>
      obtain ⟨rfl, rfl⟩ := List.cons.inj hSplit
      exact ⟨_, mem_cons_self, "a", by decide, rfl⟩
    | [_], hSplit =>
      obtain ⟨-, hSplit⟩ := List.cons.inj hSplit
      obtain ⟨rfl, -⟩ := List.cons.inj hSplit
      cases hRole
    | _ :: _ :: newer, hSplit =>
      obtain ⟨-, hSplit⟩ := List.cons.inj hSplit
      obtain ⟨-, hSplit⟩ := List.cons.inj hSplit
      cases newer <;> cases hSplit

/-- The results of two open calls of one message come in reverse. -/
theorem callingJournal_not_ordered : ¬ (callingJournal ["a", "b"] []).RepairsTail (fun _ => 1) 0 := by
  intro h
  have hOrdered := h.ordered
  revert hOrdered
  decide

end ContextJournal

end Stella.Conversation
