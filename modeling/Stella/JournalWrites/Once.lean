import Stella.JournalWrites.Transaction
import Stella.Library.JsonText
import Stella.Library.Transition

/-! # A retried append

Requests with one id, of the same or of other content, at any number and in any order: one of them
is appended, once, and the others are answered from its receipt.
-/

namespace Stella.JournalWrites

open Stella.Rows Stella.Conversation Stella.Transition AppendRequest

variable {φ : Type} {env : AppendEnv φ}

namespace AppendWorld

variable (env) (w : AppendWorld φ)

structure Settled : Prop where
  once : (w.appended.map Appended.key).Nodup
  whole : ∀ a ∈ w.appended, env.parseVoiceJournalRecords a.request.records = some (a.prepared.map Prepared.record) ∧
    a.lastSeq + 1 = a.firstSeq + a.prepared.length
  resident : ∀ row ∈ w.journal.rows, isVoice row.writerKey = true → ∃ a ∈ w.appended, row ∈ a.rows env
  answered : ∀ request firstSeq lastSeq epoch replayed, (request, .appended firstSeq lastSeq epoch replayed) ∈ w.answers →
    ∃ a ∈ w.appended, a.request = request ∧ a.firstSeq = firstSeq ∧ a.lastSeq = lastSeq ∧ epoch = w.journal.epoch
  read : ∀ a ∈ w.appended, ∀ spill ∈ a.spills, lookup Prod.fst w.objects spill.1 = some spill

def Free (put : String × String) : Prop := ∀ a ∈ w.appended, ∀ spill ∈ a.spills, spill.1 = put.1 → spill = put

instance decidableFree (put : String × String) : Decidable (w.Free put) :=
  inferInstanceAs (Decidable (∀ a ∈ w.appended, ∀ spill ∈ a.spills, spill.1 = put.1 → spill = put))

def Undisturbed : AppendInput → Prop
  | .prepare place true => ∀ call ∈ w.calls[place]?, ∀ prepared ∈ call.stage.prepared,
    ∀ record ∈ call.records[prepared.length]?, AppendEnv.spilled record = true →
      w.Free (env.spillKey (call.request.writerKey prepared.length), record.payloadJson)
  | .land place => ∀ put ∈ w.latePuts[place]?, w.Free put
  | .commit place _ _ => ∀ call ∈ w.calls[place]?, ∀ prepared ∈ call.stage.prepared, ∀ entry ∈ prepared,
    ∀ spill ∈ entry.spill, lookup Prod.fst w.objects spill.1 = some spill
  | _ => True

instance decidableUndisturbed : ∀ input, Decidable (w.Undisturbed env input)
  | .prepare place true => inferInstanceAs (Decidable (∀ call ∈ w.calls[place]?, ∀ prepared ∈ call.stage.prepared,
      ∀ record ∈ call.records[prepared.length]?, AppendEnv.spilled record = true →
        w.Free (env.spillKey (call.request.writerKey prepared.length), record.payloadJson)))
  | .land place => inferInstanceAs (Decidable (∀ put ∈ w.latePuts[place]?, w.Free put))
  | .commit place _ _ => inferInstanceAs (Decidable (∀ call ∈ w.calls[place]?, ∀ prepared ∈ call.stage.prepared,
      ∀ entry ∈ prepared, ∀ spill ∈ entry.spill, lookup Prod.fst w.objects spill.1 = some spill))
  | .prepare _ false | .receive _ | .refuse _ _ | .lookUp _ | .answer _ | .write _ | .rollover _ _ | .delete | .restart =>
    .isTrue trivial

def Unchanged (w later : AppendWorld φ) : Prop :=
  later.journal = w.journal ∧ later.receipts = w.receipts ∧ later.appended = w.appended

def acting : AppendInput → Option AppendCall
  | .refuse place _ | .lookUp place | .prepare place _ | .commit place _ _ | .answer place => w.calls[place]?
  | _ => none

structure Sound [DecidableEq φ] (input : AppendInput) : Prop where
  /-- All rows or none, at consecutive seqs. -/
  appends : ∀ call ∈ w.acting input, w.Unchanged (w.step env input) ∨
    ∃ a : Appended, a.request = call.request ∧ (w.step env input).appended = w.appended ++ [a] ∧
      (w.step env input).journal.rows = w.journal.rows ++ a.rows env ∧ (w.step env input).answers = w.answers
  /-- A known id with other content changes nothing, and is refused where it is answered. -/
  known : ∀ call ∈ w.acting input, ∀ a ∈ w.appended, a.key = call.request.receiptKey → a.request ≠ call.request →
    w.Unchanged (w.step env input) ∧ ∀ answer, (w.step env input).answers = w.answers ++ [(call.request, answer)] →
      ∃ refusal, answer = .refused refusal
  /-- A request that is refused has changed nothing. -/
  failed : ∀ request refusal, (w.step env input).answers = w.answers ++ [(request, .refused refusal)] →
    w.Unchanged (w.step env input)

/-! ## The invariant -/

def receiptOf (epoch : Int) (a : Appended) : AppendReceipt φ :=
  ⟨a.key, env.fingerprint a.request, a.firstSeq, a.lastSeq, epoch⟩

structure Kept : Prop where
  settled : w.Settled env
  receipts : w.receipts = w.appended.map (receiptOf env w.journal.epoch)
  parsed : ∀ call ∈ w.calls, env.parseVoiceJournalRecords call.request.records = some call.records ∧ call.records ≠ []
  preparing : ∀ call ∈ w.calls, ∀ prepared ∈ call.stage.prepared,
    prepared.map Prepared.record = call.records.take prepared.length
  committed : ∀ call ∈ w.calls, ∀ firstSeq lastSeq, call.stage = .committed firstSeq lastSeq →
    ∃ a ∈ w.appended, a.request = call.request ∧ a.firstSeq = firstSeq ∧ a.lastSeq = lastSeq

variable {env w}

def Answers (w : AppendWorld φ) (request : AppendRequest) (answer : AppendAnswer) : Prop :=
  ∀ firstSeq lastSeq epoch replayed, answer = .appended firstSeq lastSeq epoch replayed →
    ∃ a ∈ w.appended, a.request = request ∧ a.firstSeq = firstSeq ∧ a.lastSeq = lastSeq ∧ epoch = w.journal.epoch

theorem answers_refused (request : AppendRequest) (refusal : AppendRefusal) : w.Answers request (.refused refusal) :=
  fun _ _ _ _ hNo => nomatch hNo

theorem Settled.answer (h : w.Settled env) {request : AppendRequest} {answer : AppendAnswer} (hAns : w.Answers request answer) :
    Settled env { w with answers := w.answers ++ [(request, answer)] } where
  once := h.once
  whole := h.whole
  resident := h.resident
  answered request' firstSeq lastSeq epoch replayed hMem := by
    obtain hOld | hNew := List.mem_append.mp hMem
    · exact h.answered request' firstSeq lastSeq epoch replayed hOld
    · obtain ⟨rfl, hEq⟩ := Prod.mk.inj (List.mem_singleton.mp hNew)
      exact hAns firstSeq lastSeq epoch replayed hEq.symm
  read := h.read

theorem mem_withCall {place : Nat} {call other : AppendCall} {stage : AppendStage}
    (h : other ∈ (w.withCall place call stage).calls) : other ∈ w.calls ∨ other = { call with stage } :=
  List.mem_or_eq_of_mem_set h

theorem Kept.withCall (h : w.Kept env) {place : Nat} {call : AppendCall} (hCall : w.calls[place]? = some call)
    {stage : AppendStage}
    (hPreparing : ∀ prepared ∈ stage.prepared, prepared.map Prepared.record = call.records.take prepared.length)
    (hComm : ∀ firstSeq lastSeq, stage = .committed firstSeq lastSeq →
      ∃ a ∈ w.appended, a.request = call.request ∧ a.firstSeq = firstSeq ∧ a.lastSeq = lastSeq) :
    (w.withCall place call stage).Kept env where
  settled := ⟨h.settled.once, h.settled.whole, h.settled.resident, h.settled.answered, h.settled.read⟩
  receipts := h.receipts
  parsed other hOther := by
    obtain hOld | rfl := mem_withCall hOther
    · exact h.parsed other hOld
    · exact h.parsed call (List.mem_of_getElem? hCall)
  preparing other hOther := by
    obtain hOld | rfl := mem_withCall hOther
    · exact h.preparing other hOld
    · exact hPreparing
  committed other hOther := by
    obtain hOld | rfl := mem_withCall hOther
    · exact h.committed other hOld
    · exact hComm

theorem Kept.close (h : w.Kept env) {place : Nat} {call : AppendCall} (hCall : w.calls[place]? = some call)
    {answer : AppendAnswer} (hAns : w.Answers call.request answer) : (w.close place call answer).Kept env := by
  have hDone : (w.withCall place call .done).Kept env :=
    h.withCall hCall (fun _ hNo => nomatch hNo) (fun _ _ hNo => nomatch hNo)
  exact ⟨hDone.settled.answer hAns, hDone.receipts, hDone.parsed, hDone.preparing, hDone.committed⟩

/-! ## Receipts -/

theorem Kept.response [DecidableEq φ] (h : w.Kept env) (hInj : Function.Injective env.fingerprint) {request : AppendRequest}
    {answer : AppendAnswer} (hResponse : w.receiptResponse env request = some answer) :
    ∃ a ∈ w.appended, a.key = request.receiptKey ∧
      ((a.request = request ∧ answer = .appended a.firstSeq a.lastSeq w.journal.epoch true) ∨
        (a.request ≠ request ∧ answer = .refused .idempotencyConflict)) := by
  unfold receiptResponse at hResponse
  obtain ⟨receipt, hReceipt, rfl⟩ := Option.map_eq_some_iff.mp hResponse
  have hMem := lookup_mem hReceipt
  rw [h.receipts] at hMem
  obtain ⟨a, hA, rfl⟩ := List.mem_map.mp hMem
  have hKey : (receiptOf env w.journal.epoch a).writerKey = request.receiptKey := lookup_key hReceipt
  refine ⟨a, hA, hKey, ?_⟩
  by_cases hEq : a.request = request
  · exact .inl ⟨hEq, if_neg fun hOther => hOther (congrArg env.fingerprint hEq)⟩
  · exact .inr ⟨hEq, if_pos fun hPrint => hEq (hInj hPrint)⟩

theorem Kept.response_answers [DecidableEq φ] (h : w.Kept env) (hInj : Function.Injective env.fingerprint) {request : AppendRequest}
    {answer : AppendAnswer} (hResponse : w.receiptResponse env request = some answer) : w.Answers request answer := by
  obtain ⟨a, hA, _, ⟨hEq, rfl⟩ | ⟨_, rfl⟩⟩ := h.response hInj hResponse
  · intro firstSeq lastSeq epoch replayed hIs
    injection hIs with hFirst hLast hEpoch
    exact ⟨a, hA, hEq, hFirst, hLast, hEpoch.symm⟩
  · exact answers_refused request _

theorem Kept.response_none [DecidableEq φ] (h : w.Kept env) {request : AppendRequest}
    (hResponse : w.receiptResponse env request = none) :
    ∀ a ∈ w.appended, a.key ≠ request.receiptKey := by
  intro a hA
  have hNone := Option.map_eq_none_iff.mp hResponse
  rw [h.receipts] at hNone
  exact lookup_eq_none.mp hNone (receiptOf env w.journal.epoch a) (List.mem_map_of_mem hA)

theorem Kept.fresh (h : w.Kept env) {request : AppendRequest} (hNew : ∀ a ∈ w.appended, a.key ≠ request.receiptKey) :
    ∀ row ∈ w.journal.rows, ∀ n, 0 ≤ n → row.writerKey ≠ request.writerKey n := by
  intro row hRow n _ hEq
  obtain ⟨a, hA, hIn⟩ := h.settled.resident row hRow (hEq ▸ isVoice_writerKey request n)
  obtain ⟨m, hKey⟩ := writerKey_of_mem_rowsFrom hIn
  exact hNew a hA (writerKey_inj (hKey.symm.trans hEq)).1

/-! ## The steps -/

variable (env) in
inductive Moves (w : AppendWorld φ) (request : AppendRequest) (later : AppendWorld φ) : Prop
  | quiet (hSame : w.Unchanged later) (hAnswers : later.answers = w.answers)
  | answered {answer : AppendAnswer} (hSame : w.Unchanged later) (hAnswer : w.Answers request answer)
      (hAnswers : later.answers = w.answers ++ [(request, answer)])
  | appended {a : Appended} (hRequest : a.request = request) (hNew : ∀ b ∈ w.appended, b.key ≠ request.receiptKey)
      (hAppended : later.appended = w.appended ++ [a]) (hRows : later.journal.rows = w.journal.rows ++ a.rows env)
      (hAnswers : later.answers = w.answers)

theorem unchanged_refl (w : AppendWorld φ) : w.Unchanged w := ⟨rfl, rfl, rfl⟩

theorem Kept.closed (h : w.Kept env) {place : Nat} {call : AppendCall} (hCall : w.calls[place]? = some call)
    {answer : AppendAnswer} (hAns : w.Answers call.request answer) :
    (w.close place call answer).Kept env ∧ w.Moves env call.request (w.close place call answer) :=
  ⟨h.close hCall hAns, .answered ⟨rfl, rfl, rfl⟩ hAns rfl⟩

theorem Kept.lookUp [DecidableEq φ] (h : w.Kept env) (hInj : Function.Injective env.fingerprint) {place : Nat} {call : AppendCall}
    (hCall : w.calls[place]? = some call) :
    (w.lookUp env place call).Kept env ∧ w.Moves env call.request (w.lookUp env place call) := by
  unfold AppendWorld.lookUp
  split
  · next answer hResponse => exact h.closed hCall (h.response_answers hInj hResponse)
  · refine ⟨h.withCall hCall (fun prepared hPrepared => ?_) (fun _ _ hNo => nomatch hNo), .quiet ⟨rfl, rfl, rfl⟩ rfl⟩
    obtain rfl : [] = prepared := Option.some.inj hPrepared
    rfl

theorem Kept.putObject (h : w.Kept env) {put : String × String} (hFree : w.Free put) :
    Kept env { w with objects := JournalWrites.putObject w.objects put } where
  settled :=
    { once := h.settled.once
      whole := h.settled.whole
      resident := h.settled.resident
      answered := h.settled.answered
      read := fun a hA spill hSpill => by
        unfold JournalWrites.putObject
        dsimp only
        rw [lookup_upsert]
        split
        · next hAt => rw [hFree a hA spill hSpill hAt]
        · exact h.settled.read a hA spill hSpill }
  receipts := h.receipts
  parsed := h.parsed
  preparing := h.preparing
  committed := h.committed

theorem Kept.withLatePuts (h : w.Kept env) (latePuts : List (String × String)) : Kept env { w with latePuts } :=
  ⟨⟨h.settled.once, h.settled.whole, h.settled.resident, h.settled.answered, h.settled.read⟩, h.receipts, h.parsed,
    h.preparing, h.committed⟩

theorem record_of_prepareOversize {record : VoiceRecord} {spillKey : Option String} {entry : Prepared}
    (h : env.prepareOversize record spillKey = some entry) : entry.record = record := by
  unfold AppendEnv.prepareOversize at h
  split at h
  · rw [← Option.some.inj h]
  · split at h
    · rw [← Option.some.inj h]
    · split at h
      · cases h
      · rw [← Option.some.inj h]

theorem Kept.puts (h : w.Kept env) {record : VoiceRecord} {key : String} {stored : Bool}
    (hFree : stored = true → AppendEnv.spilled record = true → w.Free (key, record.payloadJson)) :
    ∃ objects latePuts, (if AppendEnv.spilled record then
        if stored then { w with objects := JournalWrites.putObject w.objects (key, record.payloadJson) }
        else { w with latePuts := w.latePuts ++ [(key, record.payloadJson)] }
      else w) = { w with objects, latePuts } ∧ Kept env { w with objects, latePuts } := by
  split
  · next hSpilled =>
    split
    · next hStored => exact ⟨_, _, rfl, h.putObject (hFree hStored hSpilled)⟩
    · exact ⟨_, _, rfl, h.withLatePuts _⟩
  · exact ⟨_, _, rfl, h⟩

theorem Kept.prepare (h : w.Kept env) {place : Nat} {call : AppendCall} (hCall : w.calls[place]? = some call)
    {prepared : List Prepared} (hPrepared : prepared ∈ call.stage.prepared) {record : VoiceRecord}
    (hRec : call.records[prepared.length]? = some record) {stored : Bool}
    (hFree : stored = true → AppendEnv.spilled record = true →
      w.Free (env.spillKey (call.request.writerKey prepared.length), record.payloadJson)) :
    (w.prepare env place call prepared record stored).Kept env ∧
      w.Moves env call.request (w.prepare env place call prepared record stored) := by
  obtain ⟨objects, latePuts, hPut, hKept⟩ := h.puts hFree
  unfold AppendWorld.prepare
  dsimp only
  rw [hPut]
  split
  · next entry hEnt =>
    refine ⟨hKept.withCall hCall (fun next hNext => ?_) (fun _ _ hNo => nomatch hNo), .quiet ⟨rfl, rfl, rfl⟩ rfl⟩
    obtain rfl : prepared ++ [entry] = next := Option.some.inj hNext
    rw [List.map_append, h.preparing call (List.mem_of_getElem? hCall) prepared hPrepared, List.length_append,
      List.length_singleton, List.take_add_one, hRec, List.map_singleton, record_of_prepareOversize hEnt]
    rfl
  · exact ⟨hKept.close hCall (answers_refused _ _), .answered ⟨rfl, rfl, rfl⟩ (answers_refused _ _) rfl⟩

theorem Kept.append (h : w.Kept env) {place : Nat} {call : AppendCall} (hCall : w.calls[place]? = some call)
    {prepared : List Prepared} (hPrepared : prepared ∈ call.stage.prepared) (hAll : prepared.length = call.records.length)
    (hHeld : ∀ entry ∈ prepared, ∀ spill ∈ entry.spill, lookup Prod.fst w.objects spill.1 = some spill)
    (hNew : ∀ a ∈ w.appended, a.key ≠ call.request.receiptKey) {createdAt : Int} {firstSeq lastSeq : Nat}
    (hFirst : firstSeq = w.journal.nextSeq) (hLast : lastSeq + 1 = firstSeq + prepared.length) {journal : Journal}
    (hEpoch : journal.epoch = w.journal.epoch)
    (hRows : journal.rows = w.journal.rows ++ env.rowsFrom call.request createdAt 0 w.journal.nextSeq prepared) :
    Kept env { w.withCall place call (.committed firstSeq lastSeq) with
      journal
      receipts := w.receipts ++ [⟨call.request.receiptKey, env.fingerprint call.request, firstSeq, lastSeq, journal.epoch⟩]
      appended := w.appended ++ [⟨call.request, prepared, createdAt, firstSeq, lastSeq⟩] } := by
  have hMem := List.mem_of_getElem? hCall
  have hOwn : (⟨call.request, prepared, createdAt, firstSeq, lastSeq⟩ : Appended) ∈
      w.appended ++ [⟨call.request, prepared, createdAt, firstSeq, lastSeq⟩] :=
    List.mem_append_right _ (List.mem_singleton.mpr rfl)
  have hRecs : prepared.map Prepared.record = call.records := by
    rw [h.preparing call hMem prepared hPrepared, hAll, List.take_length]
  refine ⟨⟨?_, fun a hA => ?_, fun row hRow hVoice => ?_, fun request first last epoch replayed hAns => ?_,
    fun a hA spill hSpill => ?_⟩, ?_, fun other hOther => ?_, fun other hOther => ?_, fun other hOther first last hIs => ?_⟩
  · rw [List.map_append, List.nodup_append]
    refine ⟨h.settled.once, List.pairwise_singleton _ _, fun a hA b hB hEq => ?_⟩
    obtain ⟨old, hOld, rfl⟩ := List.mem_map.mp hA
    exact hNew old hOld (hEq.trans (List.mem_singleton.mp hB))
  · obtain hOld | hLastOne := List.mem_append.mp hA
    · exact h.settled.whole a hOld
    · obtain rfl := List.mem_singleton.mp hLastOne
      exact ⟨(h.parsed call hMem).1.trans (congrArg some hRecs.symm), hLast⟩
  · rw [hRows] at hRow
    obtain hOld | hAdded := List.mem_append.mp hRow
    · obtain ⟨a, hA, hIn⟩ := h.settled.resident row hOld hVoice
      exact ⟨a, List.mem_append_left _ hA, hIn⟩
    · exact ⟨_, hOwn, by rw [Appended.rows, hFirst]; exact hAdded⟩
  · obtain ⟨a, hA, hEq, hF, hL, hE⟩ := h.settled.answered request first last epoch replayed hAns
    exact ⟨a, List.mem_append_left _ hA, hEq, hF, hL, hE.trans hEpoch.symm⟩
  · obtain hOld | hLastOne := List.mem_append.mp hA
    · exact h.settled.read a hOld spill hSpill
    · obtain rfl := List.mem_singleton.mp hLastOne
      obtain ⟨entry, hEnt, hIs⟩ := List.mem_filterMap.mp hSpill
      exact hHeld entry hEnt spill hIs
  · rw [List.map_append, h.receipts, hEpoch]
    rfl
  · obtain hOld | rfl := mem_withCall hOther
    · exact h.parsed other hOld
    · exact h.parsed call hMem
  · obtain hOld | rfl := mem_withCall hOther
    · exact h.preparing other hOld
    · exact fun _ hNo => nomatch hNo
  · obtain hOld | rfl := mem_withCall hOther
    · obtain ⟨a, hA, hEq⟩ := h.committed other hOld first last hIs
      exact ⟨a, List.mem_append_left _ hA, hEq⟩
    · injection hIs with hF hL
      exact ⟨_, hOwn, rfl, hF, hL⟩

theorem Kept.commit [DecidableEq φ] (h : w.Kept env) (hInj : Function.Injective env.fingerprint) {place : Nat} {call : AppendCall}
    (hCall : w.calls[place]? = some call) {prepared : List Prepared} (hPrepared : prepared ∈ call.stage.prepared)
    (hAll : prepared.length = call.records.length)
    (hHeld : ∀ entry ∈ prepared, ∀ spill ∈ entry.spill, lookup Prod.fst w.objects spill.1 = some spill) (now : Int)
    (fails : Bool) :
    (w.commit env place call prepared now fails).Kept env ∧
      w.Moves env call.request (w.commit env place call prepared now fails) := by
  unfold AppendWorld.commit
  split
  · exact h.closed hCall (answers_refused _ _)
  · split
    · next answer hResponse => exact h.closed hCall (h.response_answers hInj hResponse)
    · next hResponse =>
      split
      · exact h.closed hCall (answers_refused _ _)
      · next journal seqs hDone =>
        have hNew := h.response_none hResponse
        have hApp : appendRows w.journal (env.batch call.request now 0 prepared) = some (journal, seqs) := by
          cases fails with
          | true => cases hDone
          | false => exact hDone
        have hRes := appendRows_batch (h.fresh hNew) hApp
        obtain ⟨rfl, rfl⟩ := Prod.mk.inj hRes
        have hSome : prepared.length ≠ 0 := by
          rw [hAll]
          exact fun hNone => (h.parsed call (List.mem_of_getElem? hCall)).2 (List.length_eq_zero_iff.mp hNone)
        have hFirst : (List.range' w.journal.nextSeq prepared.length).head?.getD 0 = w.journal.nextSeq := by
          rw [List.head?_range', if_neg hSome]
          rfl
        have hLast : (List.range' w.journal.nextSeq prepared.length).getLast?.getD 0 + 1 =
            w.journal.nextSeq + prepared.length := by
          rw [List.getLast?_range', if_neg hSome]
          dsimp only [Option.getD_some]
          omega
        dsimp only
        exact ⟨h.append hCall hPrepared hAll hHeld hNew hFirst (by rw [hLast, hFirst]) rfl rfl,
          .appended rfl hNew rfl (by rw [Appended.rows, hFirst]) rfl⟩

theorem Kept.refused (h : w.Kept env) (request : AppendRequest) (refusal : AppendRefusal) :
    Kept env { w with answers := w.answers ++ [(request, .refused refusal)] } :=
  ⟨h.settled.answer (answers_refused request refusal), h.receipts, h.parsed, h.preparing, h.committed⟩

theorem Kept.receive (h : w.Kept env) (request : AppendRequest) :
    (w.receive env request).Kept env ∧ w.Unchanged (w.receive env request) := by
  unfold AppendWorld.receive
  dsimp only
  split
  · exact ⟨h.refused request .deleted, unchanged_refl w⟩
  · split
    · exact ⟨h.refused request .badRequest, unchanged_refl w⟩
    · next hSome =>
      split
      · exact ⟨h.refused request .tooManyRecords, unchanged_refl w⟩
      · split
        · exact ⟨h.refused request .badRequest, unchanged_refl w⟩
        · next records hParsed =>
          split
          · exact ⟨h.refused request .tooLarge, unchanged_refl w⟩
          · have hRecs : records ≠ [] := by
              rintro rfl
              exact hSome (List.length_eq_zero_iff.mp (env.parsed_length request.records [] hParsed).symm)
            refine ⟨⟨⟨h.settled.once, h.settled.whole, h.settled.resident, h.settled.answered, h.settled.read⟩, h.receipts,
              fun call hCall => ?_, fun call hCall => ?_, fun call hCall => ?_⟩, unchanged_refl w⟩
            · obtain hOld | hLast := List.mem_append.mp hCall
              · exact h.parsed call hOld
              · rw [List.mem_singleton.mp hLast]
                exact ⟨hParsed, hRecs⟩
            · obtain hOld | hLast := List.mem_append.mp hCall
              · exact h.preparing call hOld
              · rw [List.mem_singleton.mp hLast]
                exact fun _ hNo => nomatch hNo
            · obtain hOld | hLast := List.mem_append.mp hCall
              · exact h.committed call hOld
              · rw [List.mem_singleton.mp hLast]
                exact fun _ _ hNo => nomatch hNo

theorem Kept.withJournal (h : w.Kept env) {journal : Journal} (hEpoch : journal.epoch = w.journal.epoch)
    (hRows : ∀ row ∈ journal.rows, isVoice row.writerKey = true → row ∈ w.journal.rows) : Kept env { w with journal } where
  settled :=
    { once := h.settled.once
      whole := h.settled.whole
      resident := fun row hRow hVoice => h.settled.resident row (hRows row hRow hVoice) hVoice
      answered := fun request firstSeq lastSeq epoch replayed hAns => by
        obtain ⟨a, hA, hEq, hF, hL, hE⟩ := h.settled.answered request firstSeq lastSeq epoch replayed hAns
        exact ⟨a, hA, hEq, hF, hL, hE.trans hEpoch.symm⟩
      read := h.settled.read }
  receipts := by
    dsimp only
    rw [hEpoch]
    exact h.receipts
  parsed := h.parsed
  preparing := h.preparing
  committed := h.committed

theorem rows_of_insert {journal : Journal} {columns : NewRow} {result : Journal × Nat × Bool}
    (h : journal.insert columns = some result) : result.1.epoch = journal.epoch ∧
      ∀ row ∈ result.1.rows, row ∈ journal.rows ∨ row.writerKey = (columns journal.nextSeq).writerKey := by
  unfold Journal.insert at h
  dsimp only at h
  split at h
  · obtain rfl := (Option.some.inj h).symm
    exact ⟨rfl, fun row hRow => .inl hRow⟩
  · split at h
    · cases h
    · split at h
      · cases h
      · obtain rfl := (Option.some.inj h).symm
        refine ⟨rfl, fun row hRow => ?_⟩
        obtain hOld | hNew := List.mem_append.mp hRow
        · exact .inl hOld
        · rw [List.mem_singleton.mp hNew]
          exact .inr rfl

theorem Kept.write (h : w.Kept env) (row : JournalRow) : (w.write row).Kept env := by
  unfold AppendWorld.write
  split
  · exact h
  · next hVoice =>
    split
    · next journal seqs hDone =>
      unfold appendRows at hDone
      split at hDone
      · cases hDone
      · obtain ⟨inserted, hIns, hRest⟩ := Option.bind_eq_some_iff.mp hDone
        obtain ⟨hEpoch, hRows⟩ := rows_of_insert hIns
        obtain rfl : inserted.1 = journal := congrArg Prod.fst (Option.some.inj hRest)
        refine h.withJournal hEpoch fun other hOther hIs => (hRows other hOther).resolve_right fun hEq => ?_
        exact hVoice (hEq ▸ hIs)
    · exact h

theorem Kept.step [DecidableEq φ] (h : w.Kept env) (hInj : Function.Injective env.fingerprint) {input : AppendInput}
    (hUndist : w.Undisturbed env input) :
    (w.step env input).Kept env ∧ ∀ call ∈ w.acting input, w.Moves env call.request (w.step env input) := by
  have hQuiet : ∀ request, w.Moves env request w := fun _ => .quiet (unchanged_refl w) rfl
  cases input with
  | receive request => exact ⟨(h.receive request).1, fun _ hNo => nomatch hNo⟩
  | land place =>
    refine ⟨?_, fun _ hNo => nomatch hNo⟩
    unfold AppendWorld.step
    dsimp only
    split
    · next put hPut => exact (h.putObject (hUndist put hPut)).withLatePuts _
    · exact h
  | write row => exact ⟨h.write row, fun _ hNo => nomatch hNo⟩
  | rollover firstSeq lastSeq =>
    have hRows : ∀ row ∈ (w.journal.commitSegment firstSeq lastSeq).rows, isVoice row.writerKey = true →
        row ∈ w.journal.rows := fun row hRow _ => List.mem_of_mem_filter hRow
    exact ⟨h.withJournal rfl hRows, fun _ hNo => nomatch hNo⟩
  | delete => exact ⟨h.withJournal rfl fun row hRow _ => hRow, fun _ hNo => nomatch hNo⟩
  | restart =>
    exact ⟨⟨⟨h.settled.once, h.settled.whole, h.settled.resident, h.settled.answered, h.settled.read⟩, h.receipts,
      fun _ hNo => absurd hNo List.not_mem_nil, fun _ hNo => absurd hNo List.not_mem_nil,
      fun _ hNo => absurd hNo List.not_mem_nil⟩, fun _ hNo => nomatch hNo⟩
  | refuse place code =>
    unfold AppendWorld.step acting
    dsimp only
    split
    · next hCall =>
      refine ⟨(h.closed hCall (answers_refused _ _)).1, fun call hActing => ?_⟩
      obtain rfl := Option.some.inj (hCall.symm.trans hActing)
      exact (h.closed hCall (answers_refused _ _)).2
    · next hCall =>
      refine ⟨(h.closed hCall (answers_refused _ _)).1, fun call hActing => ?_⟩
      obtain rfl := Option.some.inj (hCall.symm.trans hActing)
      exact (h.closed hCall (answers_refused _ _)).2
    · exact ⟨h, fun call _ => hQuiet call.request⟩
  | lookUp place =>
    unfold AppendWorld.step acting
    dsimp only
    split
    · next hCall =>
      refine ⟨(h.lookUp hInj hCall).1, fun call hActing => ?_⟩
      obtain rfl := Option.some.inj (hCall.symm.trans hActing)
      exact (h.lookUp hInj hCall).2
    · exact ⟨h, fun call _ => hQuiet call.request⟩
  | prepare place stored =>
    unfold AppendWorld.step acting
    dsimp only
    split
    · next request records prepared hCall =>
      split
      · next record hRec =>
        have hFree : stored = true → AppendEnv.spilled record = true →
            w.Free (env.spillKey (request.writerKey prepared.length), record.payloadJson) := by
          rintro rfl hSpilled
          exact hUndist _ hCall prepared rfl record hRec hSpilled
        have hDone := h.prepare hCall rfl hRec hFree
        refine ⟨hDone.1, fun call hActing => ?_⟩
        obtain rfl := Option.some.inj (hCall.symm.trans hActing)
        exact hDone.2
      · exact ⟨h, fun call _ => hQuiet call.request⟩
    · exact ⟨h, fun call _ => hQuiet call.request⟩
  | commit place now fails =>
    unfold AppendWorld.step acting
    dsimp only
    split
    · next request records prepared hCall =>
      split
      · next hAll =>
        have hDone := h.commit hInj hCall rfl hAll (hUndist _ hCall prepared rfl) now fails
        refine ⟨hDone.1, fun call hActing => ?_⟩
        obtain rfl := Option.some.inj (hCall.symm.trans hActing)
        exact hDone.2
      · exact ⟨h, fun call _ => hQuiet call.request⟩
    · exact ⟨h, fun call _ => hQuiet call.request⟩
  | answer place =>
    unfold AppendWorld.step acting
    dsimp only
    split
    · next request records firstSeq lastSeq hCall =>
      have hAns : w.Answers request (.appended firstSeq lastSeq w.journal.epoch false) := by
        intro first last epoch replayed hIs
        injection hIs with hFirst hLast hEpoch
        obtain ⟨a, hA, hEq, hF, hL⟩ := h.committed _ (List.mem_of_getElem? hCall) firstSeq lastSeq rfl
        exact ⟨a, hA, hEq, hF.trans hFirst, hL.trans hLast, hEpoch.symm⟩
      refine ⟨(h.closed hCall hAns).1, fun call hActing => ?_⟩
      obtain rfl := Option.some.inj (hCall.symm.trans hActing)
      exact (h.closed hCall hAns).2
    · exact ⟨h, fun call _ => hQuiet call.request⟩

/-! ## Runs -/

theorem ne_append_singleton {α : Type} (l : List α) (x : α) : l ≠ l ++ [x] := by
  intro h
  have hLen := congrArg List.length h
  rw [List.length_append, List.length_singleton] at hLen
  omega

theorem answers_of_other [DecidableEq φ] {input : AppendInput} (hNone : w.acting input = none) :
    w.Unchanged (w.step env input) ∨ (w.step env input).answers = w.answers := by
  cases input with
  | receive request =>
    refine .inl ?_
    unfold AppendWorld.step AppendWorld.receive
    dsimp only
    split
    · exact unchanged_refl w
    · split
      · exact unchanged_refl w
      · split
        · exact unchanged_refl w
        · split
          · exact unchanged_refl w
          · split <;> exact unchanged_refl w
  | land place =>
    unfold AppendWorld.step
    dsimp only
    split <;> exact .inr rfl
  | write row =>
    unfold AppendWorld.step AppendWorld.write
    dsimp only
    split
    · exact .inr rfl
    · split <;> exact .inr rfl
  | rollover firstSeq lastSeq => exact .inr rfl
  | delete => exact .inr rfl
  | restart => exact .inr rfl
  | refuse place code | lookUp place | prepare place stored | commit place now fails | answer place =>
    refine .inl ?_
    unfold acting at hNone
    unfold AppendWorld.step
    dsimp only
    dsimp only at hNone
    rw [hNone]
    exact unchanged_refl w

theorem Kept.sound [DecidableEq φ] (h : w.Kept env) (hInj : Function.Injective env.fingerprint) {input : AppendInput}
    (hUndist : w.Undisturbed env input) : w.Sound env input where
  appends call hCall := by
    cases (h.step hInj hUndist).2 call hCall with
    | quiet hEq _ => exact .inl hEq
    | answered hEq _ _ => exact .inl hEq
    | appended hReq _ hAppended hRows hAnswers => exact .inr ⟨_, hReq, hAppended, hRows, hAnswers⟩
  known call hCall a hA hKey hOther := by
    cases (h.step hInj hUndist).2 call hCall with
    | quiet hEq hAnswers =>
      exact ⟨hEq, fun answer hAdded => absurd (hAnswers.symm.trans hAdded) (ne_append_singleton w.answers _)⟩
    | answered hEq hAns hAnswers =>
      refine ⟨hEq, fun answer hAdded => ?_⟩
      have hIs := List.append_cancel_left (hAnswers.symm.trans hAdded)
      obtain rfl := (Prod.mk.inj (List.cons.inj hIs).1).2
      rename_i answer
      cases answer with
      | refused refusal => exact ⟨refusal, rfl⟩
      | appended firstSeq lastSeq epoch replayed =>
        obtain ⟨b, hB, hReq, _⟩ := hAns firstSeq lastSeq epoch replayed rfl
        have hFound := lookup_of_mem h.settled.once hA
        have hSameKey : b.key = a.key := (congrArg AppendRequest.receiptKey hReq).trans hKey.symm
        have hFound' := lookup_of_mem h.settled.once hB
        rw [hSameKey] at hFound'
        obtain rfl := Option.some.inj (hFound.symm.trans hFound')
        exact absurd hReq hOther
    | appended _ hNew _ _ _ => exact absurd hKey (hNew a hA)
  failed request refusal hAdded := by
    cases hActing : w.acting input with
    | none =>
      exact (answers_of_other hActing).resolve_right fun hEq => ne_append_singleton w.answers _ (hEq.symm.trans hAdded)
    | some call =>
      cases (h.step hInj hUndist).2 call hActing with
      | quiet hEq _ => exact hEq
      | answered hEq _ _ => exact hEq
      | appended _ _ _ _ hAnswers => exact absurd (hAnswers.symm.trans hAdded) (ne_append_singleton w.answers _)

theorem kept_start (env : AppendEnv φ) {journal : Journal} (hEmpty : journal.rows = []) :
    Kept env ⟨journal, [], [], [], [], [], []⟩ where
  settled :=
    { once := List.nodup_nil
      whole := fun _ hNo => absurd hNo List.not_mem_nil
      resident := fun _ hRow _ => absurd (hEmpty ▸ hRow) List.not_mem_nil
      answered := fun _ _ _ _ _ hNo => absurd hNo List.not_mem_nil
      read := fun _ hNo => absurd hNo List.not_mem_nil }
  receipts := rfl
  parsed _ hNo := absurd hNo List.not_mem_nil
  preparing _ hNo := absurd hNo List.not_mem_nil
  committed _ hNo := absurd hNo List.not_mem_nil

/-- From an empty journal, in every run in which no put lands on another content's object. -/
theorem once_of_appends [DecidableEq φ] (hInjective : Function.Injective env.fingerprint) {journal : Journal}
    (hEmpty : journal.rows = [])
    {inputs : List AppendInput}
    (hRun : Along (AppendWorld.step env) (Undisturbed env) ⟨journal, [], [], [], [], [], []⟩ inputs) :
    (run (AppendWorld.step env) ⟨journal, [], [], [], [], [], []⟩ inputs).Settled env ∧
      ∀ input, (run (AppendWorld.step env) ⟨journal, [], [], [], [], [], []⟩ inputs).Undisturbed env input →
        (run (AppendWorld.step env) ⟨journal, [], [], [], [], [], []⟩ inputs).Sound env input := by
  have hStep : ∀ w input, Kept env w → w.Undisturbed env input → (w.step env input).Kept env :=
    fun _ _ h hUndisturbed => (h.step hInjective hUndisturbed).1
  have hKept := run_invariant hStep (kept_start env hEmpty) hRun
  exact ⟨hKept.settled, fun input hUndisturbed => hKept.sound hInjective hUndisturbed⟩

/-! ### Two contents under one id -/

def racingEnv (textA textB payloadA payloadB : String) : AppendEnv AppendRequest where
  parseVoiceJournalRecords texts :=
    if texts = [textA] then some [⟨.user, false, payloadA⟩]
    else if texts = [textB] then some [⟨.user, true, payloadB⟩]
    else none
  parsed_length texts records h := by
    split at h
    · next hA => rw [hA, ← Option.some.inj h]; rfl
    · split at h
      · next hB => rw [hB, ← Option.some.inj h]; rfl
      · cases h
  fingerprint := id
  spillKey writerKey := "spill/" ++ writerKey
  truncateMessage _ := "\x7b\x7d"
  stub record := "\x7b\"$spill\":true,\"role\":\"user\",\"bytes\":" ++ record.payloadJson.utf8ByteSize.repr ++ "\x7d"
  parseJson _ := some (.object [("$spill", .bool true), ("role", .string "user")])

def racer (text : String) : AppendRequest := ⟨"device", "turn", "1", [text]⟩

def emptyJournal : Journal where
  ownerId := "owner"
  conversationId := "conversation"
  epoch := 1
  title := ""
  nextSeq := 0
  hotMinSeq := 0
  deleted := false
  rows := []
  segments := []
  spills := []
  turns := []
  retiredWriters := []
  retiredTurns := []

def racingRun (textA textB : String) : List AppendInput :=
  [.receive (racer textA), .receive (racer textB), .lookUp 0, .lookUp 1, .prepare 0 true, .commit 0 5 false, .prepare 1 true]

theorem writerKey_racer (text : String) : (AppendRequest.mk "device" "turn" "1" [text]).writerKey 0 = "voice:device:turn:0" := by
  change "voice:" ++ "device" ++ ":" ++ "turn" ++ ":" ++ Nat.repr 0 = _
  decide

variable {textA textB payloadA payloadB : String}

theorem racingRun_world (hText : textA ≠ textB) (hA : maxRowBytes < payloadA.utf8ByteSize)
    (hA' : payloadA.utf8ByteSize ≤ appendMaxBytes) (hB : maxRowBytes < payloadB.utf8ByteSize)
    (hB' : payloadB.utf8ByteSize ≤ appendMaxBytes) :
    (run (AppendWorld.step (racingEnv textA textB payloadA payloadB)) ⟨emptyJournal, [], [], [], [], [], []⟩
        (racingRun textA textB)).objects = [("spill/voice:device:turn:0", payloadB)] ∧
      (run (AppendWorld.step (racingEnv textA textB payloadA payloadB)) ⟨emptyJournal, [], [], [], [], [], []⟩
        (racingRun textA textB)).appended =
          [⟨racer textA, [⟨⟨.user, false, payloadA⟩, payloadA, some "spill/voice:device:turn:0"⟩], 5, 0, 0⟩] := by
  simp [racingRun, AppendWorld.step, AppendWorld.receive, racingEnv, racer, emptyJournal, hText.symm, hA, hB,
    Nat.not_le.mpr hA, Nat.not_le.mpr hB, hA'.not_gt, hB'.not_gt, writerKey_racer, appendMaxRows, AppendWorld.lookUp,
    receiptResponse, lookup, AppendWorld.withCall, AppendWorld.prepare, AppendEnv.spilled, AppendEnv.prepareOversize,
    AppendWorld.commit, appendRows, AppendEnv.batch, Journal.insert, AppendEnv.columns, putObject, upsert, Rows.modify]

theorem racingRun_overwrites (hText : textA ≠ textB) (hPay : payloadA ≠ payloadB)
    (hA : maxRowBytes < payloadA.utf8ByteSize) (hA' : payloadA.utf8ByteSize ≤ appendMaxBytes)
    (hB : maxRowBytes < payloadB.utf8ByteSize) (hB' : payloadB.utf8ByteSize ≤ appendMaxBytes) :
    ¬ (run (AppendWorld.step (racingEnv textA textB payloadA payloadB)) ⟨emptyJournal, [], [], [], [], [], []⟩
      (racingRun textA textB)).Settled (racingEnv textA textB payloadA payloadB) := by
  intro h
  obtain ⟨hObjects, hAppended⟩ := racingRun_world hText hA hA' hB hB'
  have hRead := h.read _ (hAppended ▸ List.mem_singleton.mpr rfl) ("spill/voice:device:turn:0", payloadA)
    (List.mem_singleton.mpr rfl)
  rw [hObjects] at hRead
  exact hPay (congrArg Prod.snd (Option.some.inj hRead)).symm

/-- `2 ^ n` letters. -/
def doubled : Nat → String
  | 0 => "x"
  | n + 1 => doubled n ++ doubled n

theorem utf8ByteSize_doubled (n : Nat) : (doubled n).utf8ByteSize = 2 ^ n := by
  induction n with
  | zero => decide
  | succ n ih =>
    rw [doubled, String.utf8ByteSize_append, ih, Nat.pow_succ]
    omega

def messageText (timestamp text : String) : String :=
  "\x7b\"role\":\"user\",\"timestamp\":" ++ timestamp ++ ",\"content\":\"" ++ text ++ "\"\x7d"

def recordText (hidden payload : String) : String :=
  "\x7b\"kind\":\"message\",\"role\":\"user\",\"hidden\":" ++ hidden ++ ",\"payloadJson\":" ++ JsonText.quote payload ++ "\x7d"

theorem utf8ByteSize_messageText {timestamp text : String} (hTimestamp : timestamp.utf8ByteSize = 1)
    (hText : text.utf8ByteSize = maxRowBytes) :
    maxRowBytes < (messageText timestamp text).utf8ByteSize ∧ (messageText timestamp text).utf8ByteSize ≤ appendMaxBytes := by
  have hHead : "\x7b\"role\":\"user\",\"timestamp\":".utf8ByteSize = 27 := by decide
  have hMid : ",\"content\":\"".utf8ByteSize = 12 := by decide
  have hEnd : "\"\x7d".utf8ByteSize = 2 := by decide
  unfold messageText appendMaxBytes
  simp only [String.utf8ByteSize_append, hText, hTimestamp, hHead, hMid, hEnd]
  unfold maxRowBytes
  omega

theorem messageText_ne (text : String) : messageText "1" text ≠ messageText "2" text := by
  intro h
  have hChars := congrArg String.toList h
  unfold messageText at hChars
  simp at hChars

theorem recordText_ne (payload payload' : String) : recordText "false" payload ≠ recordText "true" payload' := by
  intro h
  have hChars := congrArg String.toList h
  unfold recordText at hChars
  simp at hChars

def contentEnv (text : String) : AppendEnv AppendRequest :=
  racingEnv (recordText "false" (messageText "1" text)) (recordText "true" (messageText "2" text)) (messageText "1" text)
    (messageText "2" text)

def contentRun (text : String) : List AppendInput :=
  racingRun (recordText "false" (messageText "1" text)) (recordText "true" (messageText "2" text))

theorem contentRun_overwrites {text : String} (hText : text.utf8ByteSize = maxRowBytes) :
    ¬ (run (AppendWorld.step (contentEnv text)) ⟨emptyJournal, [], [], [], [], [], []⟩ (contentRun text)).Settled
      (contentEnv text) := by
  have hOne : "1".utf8ByteSize = 1 := by decide
  have hTwo : "2".utf8ByteSize = 1 := by decide
  obtain ⟨hA, hA'⟩ := utf8ByteSize_messageText hOne hText
  obtain ⟨hB, hB'⟩ := utf8ByteSize_messageText hTwo hText
  exact racingRun_overwrites (recordText_ne _ _) (messageText_ne text) hA hA' hB hB'

def shortRun : List AppendInput :=
  [.receive (racer (recordText "false" (messageText "1" "hello"))), .receive (racer (recordText "true" (messageText "2" "hello"))),
    .lookUp 0, .lookUp 1, .prepare 0 true, .prepare 1 true, .commit 0 5 false]

theorem shortRun_undisturbed : Along (AppendWorld.step (contentEnv "hello")) (Undisturbed (contentEnv "hello"))
    ⟨emptyJournal, [], [], [], [], [], []⟩ shortRun := by
  decide +kernel

/-- Two contents that fit into rows: one is appended, and the other is refused soundly. -/
theorem once_of_shortRun :
    (run (AppendWorld.step (contentEnv "hello")) ⟨emptyJournal, [], [], [], [], [], []⟩ shortRun).Settled (contentEnv "hello") ∧
      (run (AppendWorld.step (contentEnv "hello")) ⟨emptyJournal, [], [], [], [], [], []⟩ shortRun).Sound (contentEnv "hello")
        (.commit 1 6 false) := by
  have hInjective : Function.Injective (contentEnv "hello").fingerprint := fun _ _ hSame => hSame
  have hEmpty : emptyJournal.rows = [] := rfl
  obtain ⟨hSettled, hSound⟩ := once_of_appends hInjective hEmpty shortRun_undisturbed
  exact ⟨hSettled, hSound (.commit 1 6 false) (by decide +kernel)⟩

/-- The object of the row that was appended holds what the other request put. -/
theorem contentRun_not_settled :
    ¬ (run (AppendWorld.step (contentEnv (doubled 20))) ⟨emptyJournal, [], [], [], [], [], []⟩ (contentRun (doubled 20))).Settled
      (contentEnv (doubled 20)) :=
  contentRun_overwrites ((utf8ByteSize_doubled 20).trans (by decide))

end AppendWorld

end Stella.JournalWrites
