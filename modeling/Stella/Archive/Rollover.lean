import Stella.Library.Transition
import Stella.Archive.Passes
import Stella.Archive.Segments

/-! # Rollover

No pass loses a row as long as no cut records its intent over a segment that
another pass has uploaded or is uploading under a different name.
-/

namespace Stella.Conversation

open Tiling Transition List

namespace ConversationArchive

structure Safe (s : ConversationArchive) : Prop where
  resident : s.journal.Resident
  segmented : ∃ done pending, s.journal.Segmented done pending
  named : ∀ segment ∈ s.journal.segments, ∃ root, segment.r2Key = .segment root segment.firstSeq segment.lastSeq
  objects : ∀ segment ∈ s.journal.segments, segment.state = .committed → ∃ put ∈ s.bucket, put.key = segment.r2Key
  bucket : ∀ put ∈ s.bucket, put.Whole
  late : ∀ put ∈ s.late, put.Whole
  puts : ∀ w ∈ s.writes, ∀ put, putOf w = some put → put.Whole
  intents : ∀ w ∈ s.writes, ∀ firstSeq lastSeq put, segmentPut w = some (firstSeq, lastSeq, put) →
    ∃ segment ∈ s.journal.segments, segment.firstSeq = firstSeq ∧ segment.lastSeq = lastSeq ∧ segment.r2Key = put.key

structure NothingLost (s : ConversationArchive) : Prop where
  held : ∀ seq < s.journal.nextSeq, (∃ row ∈ s.journal.rows, row.seq = seq) ∨
    ∃ segment ∈ s.journal.segments, segment.state = .committed ∧
      ∃ put ∈ s.bucket, put.key = segment.r2Key ∧ put.Holds seq
  resident : ∀ seq, (∃ row ∈ s.journal.rows, row.seq = seq) ↔ s.journal.hotMinSeq ≤ seq ∧ seq < s.journal.nextSeq
  tiles : Tiles SegmentRow.firstSeq SegmentRow.lastSeq 0
    (s.journal.segments.filter (fun segment => segment.state = .committed)) s.journal.hotMinSeq
  disjoint : (s.journal.segments.filter (fun segment => segment.state = .committed)).Pairwise
    (fun x y => x.lastSeq < y.firstSeq)

namespace Safe

variable {s : ConversationArchive}

section

variable (h : s.Safe)
include h

theorem floor_le : s.journal.hotMinSeq ≤ s.journal.nextSeq := by
  have hNext := h.resident.next
  omega

theorem nothingLost : s.NothingLost := by
  obtain ⟨done, pending, hSegmented⟩ := h.segmented
  have hTiles : Tiles SegmentRow.firstSeq SegmentRow.lastSeq 0
      (s.journal.segments.filter (fun segment => segment.state = .committed)) s.journal.hotMinSeq := by
    rw [hSegmented.filter_committed]
    exact hSegmented.tiles
  refine ⟨fun seq hSeq => ?_, h.resident.mem_iff, hTiles, hTiles.disjoint⟩
  by_cases hFloor : s.journal.hotMinSeq ≤ seq
  · exact .inl ((h.resident.mem_iff seq).mpr ⟨hFloor, hSeq⟩)
  · obtain ⟨segment, hMem, hFirst, hLast⟩ := hTiles.cover (Nat.zero_le seq) (Nat.not_le.mp hFloor)
    obtain ⟨hSeg, hComm⟩ := mem_filter.mp hMem
    have hSt : segment.state = .committed := of_decide_eq_true hComm
    obtain ⟨put, hPut, hKey⟩ := h.objects segment hSeg hSt
    obtain ⟨root, hName⟩ := h.named segment hSeg
    exact .inr ⟨segment, hSeg, hSt, put, hPut, hKey,
      (h.bucket put hPut).holds (hKey.trans hName) hFirst hLast⟩

variable {w : Write}

theorem setWrite (hPut : ∀ put, putOf w = some put → put.Whole)
    (hIntent : ∀ firstSeq lastSeq put, segmentPut w = some (firstSeq, lastSeq, put) →
      ∃ segment ∈ s.journal.segments, segment.firstSeq = firstSeq ∧ segment.lastSeq = lastSeq ∧
        segment.r2Key = put.key) (i : Nat) : (s.setWrite i w).Safe :=
  { h with
    puts := fun w' hw' => by
      rcases mem_setWrite hw' with rfl | hw'
      · exact hPut
      · exact h.puts w' hw'
    intents := fun w' hw' => by
      rcases mem_setWrite hw' with rfl | hw'
      · exact hIntent
      · exact h.intents w' hw' }

theorem setWrite_idle (hIdle : putOf w = none) (i : Nat) : (s.setWrite i w).Safe := by
  refine h.setWrite (fun put hPut => ?_) (fun firstSeq lastSeq put hPut => ?_) i
  · rw [hIdle] at hPut
    cases hPut
  · rw [putOf_of_segmentPut hPut] at hIdle
    cases hIdle

theorem track (hPut : ∀ put, putOf w = some put → put.Whole)
    (hIntent : ∀ firstSeq lastSeq put, segmentPut w = some (firstSeq, lastSeq, put) →
      ∃ segment ∈ s.journal.segments, segment.firstSeq = firstSeq ∧ segment.lastSeq = lastSeq ∧
        segment.r2Key = put.key) : (s.track w).Safe :=
  { h with
    puts := fun w' hw' => by
      rcases mem_track hw' with rfl | hw'
      · exact hPut
      · exact h.puts w' hw'
    intents := fun w' hw' => by
      rcases mem_track hw' with rfl | hw'
      · exact hIntent
      · exact h.intents w' hw' }

theorem track_idle (hIdle : putOf w = none) : (s.track w).Safe := by
  refine h.track (fun put hPut => ?_) (fun firstSeq lastSeq put hPut => ?_)
  · rw [hIdle] at hPut
    cases hPut
  · rw [putOf_of_segmentPut hPut] at hIdle
    cases hIdle

theorem withJournal {journal : Journal} (hResid : journal.Resident)
    (hSegs : journal.segments = s.journal.segments) (hFloor : journal.hotMinSeq = s.journal.hotMinSeq)
    (hNext : s.journal.nextSeq ≤ journal.nextSeq) : (s.withJournal journal).Safe where
  resident := hResid
  segmented := by
    obtain ⟨done, pending, hSegmented⟩ := h.segmented
    exact ⟨done, pending, hSegmented.congr hSegs hFloor hNext⟩
  named := by
    rw [withJournal_journal, hSegs]
    exact h.named
  objects := by
    rw [withJournal_journal, hSegs]
    exact h.objects
  bucket := h.bucket
  late := h.late
  puts := h.puts
  intents := by
    rw [withJournal_journal, hSegs]
    exact h.intents

theorem store {put : Put} (hPut : put.Whole) : (s.store put).Safe :=
  { h with
    objects := fun segment hSeg hSt => by
      obtain ⟨p, hp, hKey⟩ := h.objects segment hSeg hSt
      have hStored : ∃ p' ∈ (s.store put).bucket, p'.key = p.key := exists_key_store hp
      obtain ⟨p', hp', hKey'⟩ := hStored
      exact ⟨p', hp', hKey'.trans hKey⟩
    bucket := fun p hp => by
      rcases mem_store.mp hp with rfl | hp
      · exact hPut
      · exact h.bucket p hp.1 }

theorem commit {segment : SegmentRow} (hSeg : segment ∈ s.journal.segments)
    (hObj : ∃ put ∈ s.bucket, put.key = segment.r2Key) :
    (s.withJournal (s.journal.commitSegment segment.firstSeq segment.lastSeq)).Safe := by
  obtain ⟨done, pending, hSegmented⟩ := h.segmented
  obtain ⟨hFirst, hLast⟩ := hSegmented.bounds h.floor_le hSeg
  have hMap : ∀ x, x ∈ (s.journal.commitSegment segment.firstSeq segment.lastSeq).segments →
      ∃ y ∈ s.journal.segments, x.firstSeq = y.firstSeq ∧ x.lastSeq = y.lastSeq ∧ x.r2Key = y.r2Key ∧
        (x.state = y.state ∨ y.firstSeq = segment.firstSeq) := by
    intro x hx
    obtain ⟨y, hy, rfl⟩ := mem_map.mp hx
    split
    · exact ⟨y, hy, rfl, rfl, rfl, .inr ‹_›⟩
    · exact ⟨y, hy, rfl, rfl, rfl, .inl rfl⟩
  refine ⟨(h.resident.commitSegment hFirst hLast).resident, hSegmented.commitSegment hSeg, ?_, ?_, h.bucket,
    h.late, h.puts, ?_⟩
  · intro x hx
    obtain ⟨y, hy, hXFirst, hXLast, hKey, -⟩ := hMap x hx
    obtain ⟨root, hName⟩ := h.named y hy
    exact ⟨root, by rw [hKey, hName, hXFirst, hXLast]⟩
  · intro x hx hSt
    obtain ⟨y, hy, -, -, hKey, hOr⟩ := hMap x hx
    rw [hKey]
    rcases hOr with hEq | hStart
    · exact h.objects y hy (hEq.symm.trans hSt)
    · rw [hSegmented.first_inj hy hSeg hStart]
      exact hObj
  · intro w hw firstSeq lastSeq put hPut
    obtain ⟨y, hy, hYFirst, hYLast, hKey⟩ := h.intents w hw firstSeq lastSeq put hPut
    refine ⟨if y.firstSeq = segment.firstSeq then { y with state := .committed } else y,
      mem_map_of_mem hy, ?_⟩
    split
    · exact ⟨hYFirst, hYLast, hKey⟩
    · exact ⟨hYFirst, hYLast, hKey⟩

theorem recordIntent {root : String} {firstSeq lastSeq : Nat} (hStart : firstSeq = s.journal.hotMinSeq)
    (hFirst : firstSeq ≤ lastSeq) (hLast : lastSeq < s.journal.nextSeq)
    (hOthers : ∀ w ∈ s.writes, ∀ last put, segmentPut w = some (firstSeq, last, put) →
      put.key = .segment root firstSeq lastSeq) (i : Nat) (now : Int) (count bytes : Nat) :
    (s.recordIntent i now root firstSeq lastSeq count bytes).Safe := by
  obtain ⟨done, pending, hSegmented⟩ := h.segmented
  obtain ⟨intent, hIntentFirst, hIntentLast, hKey, hAfter⟩ := hSegmented.insertSegment
    ⟨firstSeq, lastSeq, count, bytes, .segment root firstSeq lastSeq, .uploading, now⟩ rfl hStart
    (hStart ▸ hFirst) hLast
  have hMem := fun x => hAfter.mem x
  have hRecorded : (s.withJournal (s.journal.insertSegment
      ⟨firstSeq, lastSeq, count, bytes, .segment root firstSeq lastSeq, .uploading, now⟩)).Safe := by
    refine ⟨⟨h.resident.run, h.resident.next⟩, ⟨done, some intent, hAfter⟩, ?_, ?_, h.bucket, h.late, h.puts, ?_⟩
    · intro x hx
      rcases (hMem x).mp hx with hDone | hIntent
      · exact h.named x ((hSegmented.mem _).mpr (.inl hDone))
      · obtain rfl := Option.some.inj hIntent
        exact ⟨root, by rw [hKey, hIntentFirst, hIntentLast]⟩
    · intro x hx hSt
      rcases (hMem x).mp hx with hDone | hIntent
      · exact h.objects x ((hSegmented.mem _).mpr (.inl hDone)) hSt
      · rw [hAfter.uploading x hIntent] at hSt
        cases hSt
    · intro w hw other last put hPut
      obtain ⟨y, hy, hYFirst, hYLast, hYKey⟩ := h.intents w hw other last put hPut
      rcases (hSegmented.mem _).mp hy with hDone | hPend
      · exact ⟨y, (hMem y).mpr (.inl hDone), hYFirst, hYLast, hYKey⟩
      · -- the intent that was there: its upload is of the very range recorded now
        obtain rfl : other = firstSeq := by
          rw [← hYFirst, hSegmented.starts y hPend, hStart]
        have hName := hOthers w hw last put hPut
        obtain ⟨root', hYName⟩ := h.named y hy
        rw [hYKey, hName, hYLast] at hYName
        injection hYName with _ _ hEq
        exact ⟨intent, (hMem intent).mpr (.inr rfl), hIntentFirst, hIntentLast.trans hEq, by rw [hKey, hName]⟩
  refine hRecorded.setWrite ?_ ?_ i
  · rintro put ⟨⟩
    exact uploadOf_whole (s := s.withJournal _) hRecorded.resident hStart hFirst hLast count now
  · rintro _ _ put ⟨⟩
    exact ⟨intent, (hMem intent).mpr (.inr rfl), hIntentFirst, hIntentLast, hKey⟩

end

end Safe

/-- A cut that passed the `prefix()` still starts at the floor, and no write in flight uploads a segment of
another name from there. -/
def KeepsIntents (sha256Hex : String → String) (s : ConversationArchive) : RolloverInput → Prop
  | .pass (.prefixed i) => ∀ now firstSeq cutSeq, s.writes[i]? = some (.cutting now firstSeq cutSeq) →
      ∀ root lastSeq count bytes, s.journal.root sha256Hex = some root →
        s.journal.cutRange firstSeq cutSeq = some (lastSeq, count, bytes) →
        firstSeq = s.journal.hotMinSeq ∧ ∀ w ∈ s.writes, ∀ last put,
          segmentPut w = some (firstSeq, last, put) → put.key = .segment root firstSeq lastSeq
  | _ => True

variable (sha256Hex : String → String)

theorem Safe.passStep {s : ConversationArchive} (h : s.Safe) (input : PassInput)
    (hKeeps : KeepsIntents sha256Hex s (.pass input)) : (s.passStep sha256Hex input).Safe := by
  have hOutc := passStep_outcome sha256Hex s input
  generalize s.passStep sha256Hex input = later at hOutc ⊢
  cases hOutc with
  | same => exact h
  | begins now => exact h.track_idle rfl
  | recovers now pending hOpen hPend =>
    obtain ⟨done, intent, hSegmented⟩ := h.segmented
    have hMem := hSegmented.pendingSegment hPend
    have hSeg := (hSegmented.mem _).mpr (.inr hMem)
    have hStart := hSegmented.starts pending hMem
    have hEnds := hSegmented.ends pending hMem
    obtain ⟨root, hName⟩ := h.named pending hSeg
    refine h.track ?_ ?_
    · rintro put ⟨⟩
      rw [hName]
      exact uploadOf_whole h.resident hStart (hStart.trans_le hEnds.1) hEnds.2 _ _
    · rintro _ _ put ⟨⟩
      exact ⟨pending, hSeg, rfl, rfl, rfl⟩
  | ends _ i => exact h.setWrite_idle (w := .settled) rfl i
  | cuts i dbBytes now cutSeq hWrite => exact h.setWrite_idle rfl i
  | uploads i now root firstSeq cutSeq lastSeq count bytes hWrite hRoot hRng =>
    obtain ⟨hStart, hOthers⟩ := hKeeps now firstSeq cutSeq hWrite root lastSeq count bytes hRoot hRng
    obtain ⟨hFirst, row, hRow, hLast⟩ := Journal.cutRange_bounds hRng
    have hBelow := ((h.resident.mem_iff row.seq).mp ⟨row, hRow, rfl⟩).2
    exact h.recordIntent hStart hFirst (hLast.trans_lt hBelow) hOthers i now count bytes
  | spills i writerKey payload root digest hWrite =>
    refine h.setWrite ?_ ?_ i
    · rintro put ⟨⟩
      trivial
    · rintro _ _ put ⟨⟩
  | commits i w firstSeq lastSeq put w' hWrite hPut hAfter =>
    have hMem := mem_of_getElem? hWrite
    obtain ⟨segment, hSeg, rfl, rfl, hKey⟩ := h.intents w hMem firstSeq lastSeq put hPut
    have hStored := h.store (h.puts w hMem put (putOf_of_segmentPut hPut))
    exact (hStored.commit hSeg ⟨put, mem_store.mpr (.inl rfl), hKey.symm⟩).setWrite_idle hAfter i
  | records i put hWrite =>
    have hStored := h.store (h.puts _ (mem_of_getElem? hWrite) put rfl)
    have hRecorded : ((s.store put).withJournal (s.journal.recordSpill put.key)).Safe :=
      hStored.withJournal ⟨h.resident.run, h.resident.next⟩ rfl rfl le_rfl
    exact hRecorded.setWrite_idle rfl i
  | abandons i w put hWrite hPut =>
    have hEnded : (s.setWrite i .settled).Safe := h.setWrite_idle rfl i
    exact { hEnded with
      late := fun p hp => by
        rcases mem_append.mp hp with hp | hp
        · exact h.late p hp
        · rw [mem_singleton.mp hp]
          exact h.puts w (mem_of_getElem? hWrite) put hPut }
  | lands k put hLate =>
    have hStored := h.store (h.late put (mem_of_getElem? hLate))
    exact { hStored with late := fun p hp => h.late p (mem_of_mem_eraseIdx hp) }

theorem Safe.rolloverStep {s : ConversationArchive} (h : s.Safe) (input : RolloverInput)
    (hKeeps : KeepsIntents sha256Hex s input) :
    (s.rolloverStep sha256Hex input).Safe := by
  cases input with
  | append rows =>
    change (s.append rows).Safe
    unfold append
    cases hApp : s.journal.append rows with
    | none => exact h
    | some later =>
      obtain ⟨hSegs, hFloor, -⟩ := Journal.append_tables hApp
      have hLater := h.resident.append hApp
      exact h.withJournal hLater.resident hSegs hFloor hLater.next
  | turn row => exact h.withJournal ⟨h.resident.run, h.resident.next⟩ rfl rfl le_rfl
  | pass input => exact h.passStep sha256Hex input hKeeps
  | writeSpill writerKey payload =>
    change (s.writeSpill writerKey payload).Safe
    unfold writeSpill
    split
    · exact h
    · exact h.track_idle rfl
  | crash =>
    exact { h with
      late := fun p hp => by
        rcases mem_append.mp hp with hp | hp
        · exact h.late p hp
        · obtain ⟨w, hw, hPut⟩ := mem_filterMap.mp hp
          exact h.puts w hw p hPut
      puts := by
        rintro w ⟨⟩
      intents := by
        rintro w ⟨⟩ }

theorem create_safe (ownerId conversationId : String) : (create ownerId conversationId).Safe where
  resident := ⟨trivial, rfl⟩
  segmented := ⟨[], none, rfl, rfl, by simp, by simp, by simp, by simp⟩
  named := by rintro _ ⟨⟩
  objects := by rintro _ ⟨⟩
  bucket := by rintro _ ⟨⟩
  late := by rintro _ ⟨⟩
  puts := by rintro _ ⟨⟩
  intents := by rintro _ ⟨⟩

theorem nextSeq_le_rolloverStep {s : ConversationArchive} (h : s.Safe) (input : RolloverInput) :
    s.journal.nextSeq ≤ (s.rolloverStep sha256Hex input).journal.nextSeq := by
  cases input with
  | append rows =>
    change _ ≤ (s.append rows).journal.nextSeq
    unfold append
    cases hApp : s.journal.append rows with
    | none => exact le_rfl
    | some later => exact (h.resident.append hApp).next
  | turn row => exact le_rfl
  | pass input =>
    change _ ≤ (s.passStep sha256Hex input).journal.nextSeq
    have hOutc := passStep_outcome sha256Hex s input
    generalize s.passStep sha256Hex input = later at hOutc ⊢
    cases hOutc <;> exact le_rfl
  | writeSpill writerKey payload =>
    change _ ≤ (s.writeSpill writerKey payload).journal.nextSeq
    unfold writeSpill
    split <;> exact le_rfl
  | crash => exact le_rfl

theorem nextSeq_le_run {s : ConversationArchive} (h : s.Safe) {inputs : List RolloverInput}
    (hRun : Along (rolloverStep sha256Hex) (KeepsIntents sha256Hex) s inputs) :
    s.journal.nextSeq ≤ (run (rolloverStep sha256Hex) s inputs).journal.nextSeq := by
  induction inputs generalizing s with
  | nil => exact le_rfl
  | cons input inputs ih =>
    exact (nextSeq_le_rolloverStep sha256Hex h input).trans (ih (h.rolloverStep sha256Hex input hRun.1) hRun.2)

theorem rollover_nothingLost (ownerId conversationId : String) (earlier later : List RolloverInput)
    (hRun : Along (rolloverStep sha256Hex) (KeepsIntents sha256Hex) (create ownerId conversationId) (earlier ++ later)) :
    (run (rolloverStep sha256Hex) (create ownerId conversationId) earlier).NothingLost ∧
      (run (rolloverStep sha256Hex) (create ownerId conversationId) earlier).journal.nextSeq ≤
        (run (rolloverStep sha256Hex) (create ownerId conversationId) (earlier ++ later)).journal.nextSeq := by
  obtain ⟨hEarlier, hLater⟩ := (along_append _ _ _ _).mp hRun
  have hSafe : (run (rolloverStep sha256Hex) (create ownerId conversationId) earlier).Safe :=
    run_invariant (fun s input hSafe hKeeps => hSafe.rolloverStep sha256Hex input hKeeps)
      (create_safe ownerId conversationId) hEarlier
  rw [run_append]
  exact ⟨hSafe.nothingLost, nextSeq_le_run sha256Hex hSafe hLater⟩

/-- A write that uploads no segment and would cut from `floor`. -/
def cutsFrom (floor : Nat) : Write → Bool
  | .cutting _ firstSeq _ => firstSeq = floor
  | w => (segmentPut w).isNone

theorem keepsIntents_of_cutsFrom {s : ConversationArchive} (h : s.writes.all (cutsFrom s.journal.hotMinSeq) = true)
    (i : Nat) : KeepsIntents sha256Hex s (.pass (.prefixed i)) := by
  intro now firstSeq cutSeq hWrite root lastSeq count bytes _ _
  have hFloor := all_eq_true.mp h _ (mem_of_getElem? hWrite)
  refine ⟨of_decide_eq_true hFloor, fun w hw last put hPut => ?_⟩
  have hIdle := all_eq_true.mp h w hw
  cases w <;> simp_all [cutsFrom, segmentPut]

def bulkyRow (seq : Nat) : JournalRow := { userRow seq with bytes := 1024 * 1024 }

def terminalTurn (lastSeq : Nat) (ctxStartSeq : Option Nat) : TurnRow :=
  ⟨s!"turn:{lastSeq}", .terminal, lastSeq, some lastSeq, ctxStartSeq⟩

def decidedInputs : List RolloverInput :=
  (List.range 25).map (fun _ => .append [bulkyRow]) ++
    [.turn (terminalTurn 5 none), .turn (terminalTurn 10 (some 0)), .turn (terminalTurn 18 (some 6)),
      .pass (.maybeRollover 0), .pass (.decided 0 0)]

/-- The pass dies during its put, the next one finishes the segment, and the first put lands at last. -/
theorem rollover_nothingLost_crashRun :
    (run (rolloverStep id) (create "owner" "conversation")
      (decidedInputs ++ [.pass (.prefixed 0), .crash])).NothingLost ∧
    (run (rolloverStep id) (create "owner" "conversation")
      (decidedInputs ++ [.pass (.prefixed 0), .crash])).journal.nextSeq ≤
      (run (rolloverStep id) (create "owner" "conversation") ((decidedInputs ++ [.pass (.prefixed 0), .crash]) ++
        [.pass (.maybeRollover 0), .pass (.stored 0), .pass (.landed 0)])).journal.nextSeq := by
  refine rollover_nothingLost id "owner" "conversation" _ _ ?_
  rw [append_assoc, along_append]
  refine ⟨along_of_forall (fun input hInput s => ?_) _, ?_⟩
  · rcases mem_append.mp hInput with hInput | hInput
    · obtain ⟨_, _, rfl⟩ := mem_map.mp hInput
      trivial
    · simp only [mem_cons, not_mem_nil, or_false] at hInput
      rcases hInput with rfl | rfl | rfl | rfl | rfl <;> trivial
  · refine ⟨?_, trivial, trivial, trivial, trivial, trivial⟩
    exact keepsIntents_of_cutsFrom id (by decide +kernel) 0

/-- A second pass decides before the first has its prefix: it records `0..7` over the intent `0..5`, and its
put fails. -/
def raceInputs : List RolloverInput :=
  decidedInputs ++ [.turn (terminalTurn 24 (some 11)), .pass (.maybeRollover 0), .pass (.decided 1 0),
    .pass (.prefixed 0), .pass (.prefixed 1), .pass (.stored 0), .pass (.failed 1)]

/-- The rows `0..5` are gone: their object is in the bucket, but no segment names it. -/
theorem raceRun_not_nothingLost :
    ¬ (run (rolloverStep id) (create "owner" "conversation") raceInputs).NothingLost := by
  intro h
  have hRows : (run (rolloverStep id) (create "owner" "conversation") raceInputs).journal.rows.all
      (fun row => row.seq ≠ 0) = true := by decide +kernel
  have hKeys : (run (rolloverStep id) (create "owner" "conversation") raceInputs).bucket.all (fun put =>
      (run (rolloverStep id) (create "owner" "conversation") raceInputs).journal.segments.all
        (fun segment => put.key ≠ segment.r2Key)) = true := by decide +kernel
  have hNext : 0 < (run (rolloverStep id) (create "owner" "conversation") raceInputs).journal.nextSeq := by
    decide +kernel
  rcases h.held 0 hNext with ⟨row, hRow, hSeq⟩ | ⟨segment, hSegment, -, put, hPut, hKey, -⟩
  · exact of_decide_eq_true (all_eq_true.mp hRows row hRow) hSeq
  · exact of_decide_eq_true (all_eq_true.mp (all_eq_true.mp hKeys put hPut) segment hSegment) hKey

end ConversationArchive

end Stella.Conversation
