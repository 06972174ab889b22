import Mathlib.Data.List.DropRight
import Mathlib.Data.List.Forall2
import Stella.Library.Transition

/-! # Output that keeps its head and its tail

`head-tail-output-buffer.js`: of what a process writes between two drains, the first bytes and the
last bytes are kept, and the bytes between them are counted.
-/

namespace Stella.ToolOutput

open Transition List

abbrev Bytes := List UInt8

structure HeadTailOutputBuffer where
  maxBytes : Nat
  head : Bytes := []
  tail : Bytes := []
  omittedBytes : Nat := 0

structure OutputSnapshot where
  text : String
  retainedBytes : Nat
  omittedBytes : Nat
  totalBytes : Nat

def omissionMarker (omittedBytes : Nat) : String := s!"... {omittedBytes} bytes omitted ..."

def utf8 (text : String) : Bytes := text.toUTF8.toList

namespace HeadTailOutputBuffer

variable (buffer : HeadTailOutputBuffer) (chunk : Bytes)

def headBudget : Nat := buffer.maxBytes / 2
def tailBudget : Nat := buffer.maxBytes - buffer.headBudget

def pushTail : HeadTailOutputBuffer :=
  if chunk.length = 0 then buffer
  else if buffer.tailBudget = 0 then { buffer with omittedBytes := buffer.omittedBytes + chunk.length }
  else if buffer.tailBudget ≤ chunk.length then
    let kept := chunk.drop (chunk.length - buffer.tailBudget)
    { buffer with
      tail := kept
      omittedBytes := buffer.omittedBytes + (buffer.tail.length + (chunk.length - kept.length)) }
  else
    let tail := buffer.tail ++ chunk
    let excess := tail.length - buffer.tailBudget
    if 0 < excess then { buffer with tail := tail.drop excess, omittedBytes := buffer.omittedBytes + excess }
    else { buffer with tail }

def push : HeadTailOutputBuffer :=
  if chunk.length = 0 then buffer
  else if buffer.maxBytes = 0 then { buffer with omittedBytes := buffer.omittedBytes + chunk.length }
  else
    let headLength := min (buffer.headBudget - buffer.head.length) chunk.length
    let filled := if 0 < headLength then { buffer with head := buffer.head ++ chunk.take headLength } else buffer
    filled.pushTail (chunk.drop headLength)

def pushText (text : String) : HeadTailOutputBuffer := buffer.push (utf8 text)

/-- `decode` is how bytes are read as text. -/
def snapshot (decode : Bytes → String) : OutputSnapshot :=
  let retainedBytes := buffer.head.length + buffer.tail.length
  let retained :=
    if 0 < buffer.omittedBytes then buffer.head ++ utf8 s!"\n{omissionMarker buffer.omittedBytes}\n" ++ buffer.tail
    else buffer.head ++ buffer.tail
  { text := decode retained
    retainedBytes
    omittedBytes := buffer.omittedBytes
    totalBytes := retainedBytes + buffer.omittedBytes }

def drain : HeadTailOutputBuffer := { buffer with head := [], tail := [], omittedBytes := 0 }

/-! ## What is kept of a stream -/

def keeping (maxBytes : Nat) (stream : Bytes) : HeadTailOutputBuffer :=
  let headBudget := maxBytes / 2
  let tailBudget := maxBytes - headBudget
  { maxBytes
    head := stream.take headBudget
    tail := (stream.drop headBudget).rtake tailBudget
    omittedBytes := (stream.drop headBudget).length - tailBudget }

variable {buffer chunk}

theorem rtake_append_of_le {stream : Bytes} {n : Nat} (h : n ≤ chunk.length) : (stream ++ chunk).rtake n = chunk.rtake n := by
  unfold List.rtake
  rw [length_append, drop_append, drop_eq_nil_of_le (by omega), nil_append]
  congr 1
  omega

theorem rtake_rtake_append (stream chunk : Bytes) (n : Nat) : (stream.rtake n ++ chunk).rtake n = (stream ++ chunk).rtake n := by
  unfold List.rtake
  rw [length_append, length_append, length_drop, drop_append, drop_append, drop_drop, length_drop]
  congr 2 <;> omega

theorem length_rtake (stream : Bytes) (n : Nat) : (stream.rtake n).length = min n stream.length := by
  unfold List.rtake
  rw [length_drop]
  omega

theorem pushTail_of_tail (stream : Bytes) (hTail : buffer.tail = stream.rtake buffer.tailBudget)
    (hOmitted : buffer.omittedBytes = stream.length - buffer.tailBudget) : buffer.pushTail chunk =
      { buffer with
        tail := (stream ++ chunk).rtake buffer.tailBudget
        omittedBytes := (stream ++ chunk).length - buffer.tailBudget } := by
  have hKept := length_rtake stream buffer.tailBudget
  rw [← hTail] at hKept
  unfold pushTail
  rw [length_append]
  split
  · next hEmpty =>
    rw [eq_nil_of_length_eq_zero hEmpty, append_nil, ← hTail, length_nil, Nat.add_zero, ← hOmitted]
  · split
    · next hNone =>
      have hNothing : ∀ stream : Bytes, stream.rtake 0 = [] := fun stream => drop_length
      rw [hNone, hNothing] at hTail
      rw [hNone, hNothing, ← hTail, hOmitted, hNone, Nat.sub_zero, Nat.sub_zero]
    · split
      · next hLong =>
        rw [rtake_append_of_le hLong]
        dsimp only
        rw [length_drop, hOmitted]
        congr 1
        omega
      · dsimp only
        have hAll := rtake_rtake_append stream chunk buffer.tailBudget
        rw [← hTail] at hAll
        rw [← hAll, length_append]
        unfold List.rtake
        rw [length_append]
        split
        · congr 1
          omega
        · next hFits =>
          rw [Nat.eq_zero_of_not_pos hFits, drop_zero]
          congr 1
          omega

theorem push_keeping (maxBytes : Nat) (stream chunk : Bytes) :
    (keeping maxBytes stream).push chunk = keeping maxBytes (stream ++ chunk) := by
  unfold push
  split
  · next hEmpty => rw [eq_nil_of_length_eq_zero hEmpty, append_nil]
  · split
    · next hNone =>
      change maxBytes = 0 at hNone
      subst hNone
      simp [keeping, List.rtake]
    · have hRoom : (keeping maxBytes stream).headBudget - (keeping maxBytes stream).head.length = maxBytes / 2 - stream.length := by
        change maxBytes / 2 - (stream.take (maxBytes / 2)).length = _
        rw [length_take]
        omega
      have hDrop : (stream ++ chunk).drop (maxBytes / 2) =
          stream.drop (maxBytes / 2) ++ chunk.drop (min (maxBytes / 2 - stream.length) chunk.length) := by
        rw [drop_append]
        congr 1
        rcases le_total (maxBytes / 2 - stream.length) chunk.length with hFits | hAll
        · rw [min_eq_left hFits]
        · rw [min_eq_right hAll, drop_length, drop_eq_nil_of_le hAll]
      have hTake : (stream ++ chunk).take (maxBytes / 2) =
          stream.take (maxBytes / 2) ++ chunk.take (min (maxBytes / 2 - stream.length) chunk.length) := by
        rw [take_append, take_eq_take_min (l := chunk)]
      dsimp only
      rw [hRoom]
      have hFilled : ∀ n, (if 0 < n then { keeping maxBytes stream with head := (keeping maxBytes stream).head ++ chunk.take n }
          else keeping maxBytes stream) = { keeping maxBytes stream with head := (keeping maxBytes stream).head ++ chunk.take n } := by
        intro n
        split
        · rfl
        · next hZero => rw [Nat.eq_zero_of_not_pos hZero, take_zero, append_nil]
      rw [hFilled, pushTail_of_tail (stream.drop (maxBytes / 2)) rfl rfl, ← hDrop]
      unfold keeping
      dsimp only
      rw [hTake]
      rfl

end HeadTailOutputBuffer

/-! ## Chunks and drains -/

inductive OutputOp
  | push (chunk : Bytes)
  | pushText (text : String)
  | drain

section

variable (decode : Bytes → String)

def outputStep (s : HeadTailOutputBuffer × List OutputSnapshot) : OutputOp → HeadTailOutputBuffer × List OutputSnapshot
  | .push chunk => (s.1.push chunk, s.2)
  | .pushText text => (s.1.pushText text, s.2)
  | .drain => (s.1.drain, s.2 ++ [s.1.snapshot decode])

def streamStep (s : Bytes × List Bytes) : OutputOp → Bytes × List Bytes
  | .push chunk => (s.1 ++ chunk, s.2)
  | .pushText text => (s.1 ++ utf8 text, s.2)
  | .drain => ([], s.2 ++ [s.1])

def streams (ops : List OutputOp) : Bytes × List Bytes := run streamStep ([], []) ops

def outputs (maxBytes : Nat) (ops : List OutputOp) : HeadTailOutputBuffer × List OutputSnapshot :=
  run (outputStep decode) ({ maxBytes }, []) ops

variable {decode}

open HeadTailOutputBuffer

theorem outputs_eq (maxBytes : Nat) (ops : List OutputOp) : outputs decode maxBytes ops =
    (keeping maxBytes (streams ops).1, (streams ops).2.map fun stream => (keeping maxBytes stream).snapshot decode) := by
  have hRun : ∀ (ops : List OutputOp) (stream : Bytes) (drained : List Bytes),
      run (outputStep decode) (keeping maxBytes stream, drained.map fun stream => (keeping maxBytes stream).snapshot decode) ops =
        (keeping maxBytes (run streamStep (stream, drained) ops).1,
          (run streamStep (stream, drained) ops).2.map fun stream => (keeping maxBytes stream).snapshot decode) := by
    intro ops
    induction ops with
    | nil => exact fun _ _ => rfl
    | cons op ops ih =>
      intro stream drained
      rw [run_cons, run_cons]
      cases op with
      | push chunk =>
        change run (outputStep decode) ((keeping maxBytes stream).push chunk, _) ops = _
        rw [push_keeping, ih]
        rfl
      | pushText text =>
        change run (outputStep decode) ((keeping maxBytes stream).push (utf8 text), _) ops = _
        rw [push_keeping, ih]
        rfl
      | drain =>
        have hEmpty : (keeping maxBytes stream).drain = keeping maxBytes [] := by simp [drain, keeping, List.rtake]
        have hDrained := ih [] (drained ++ [stream])
        rw [map_append, map_singleton] at hDrained
        change run (outputStep decode) ((keeping maxBytes stream).drain, _) ops = _
        rw [hEmpty, hDrained]
        rfl
  have hNew : ({ maxBytes } : HeadTailOutputBuffer) = keeping maxBytes [] := by simp [keeping, List.rtake]
  unfold outputs streams
  rw [hNew]
  exact hRun ops [] []

structure Retains (maxBytes : Nat) (buffer : HeadTailOutputBuffer) (stream : Bytes) : Prop where
  head : buffer.head = stream.take (min stream.length (maxBytes / 2))
  tail : buffer.tail = stream.drop (stream.length - min (stream.length - buffer.head.length) (maxBytes - maxBytes / 2))
  omitted : buffer.head.length + buffer.tail.length + buffer.omittedBytes = stream.length

theorem retains_keeping (maxBytes : Nat) (stream : Bytes) : Retains maxBytes (keeping maxBytes stream) stream := by
  have hHead : (keeping maxBytes stream).head.length = min (maxBytes / 2) stream.length := length_take
  have hTail : (keeping maxBytes stream).tail =
      stream.drop (stream.length - min (stream.length - (keeping maxBytes stream).head.length) (maxBytes - maxBytes / 2)) := by
    rw [hHead]
    unfold keeping List.rtake
    dsimp only
    rw [drop_drop, length_drop]
    rcases le_total (maxBytes / 2) stream.length with hLong | hShort
    · congr 1
      omega
    · rw [drop_eq_nil_of_le (by omega), drop_eq_nil_of_le (by omega)]
  refine ⟨?_, hTail, ?_⟩
  · rw [min_comm, ← take_eq_take_min]
    rfl
  · have hOmitted : (keeping maxBytes stream).omittedBytes = stream.length - maxBytes / 2 - (maxBytes - maxBytes / 2) := by
      unfold keeping
      dsimp only
      rw [length_drop]
    rw [hTail, length_drop, hHead, hOmitted]
    omega

/-- Whatever the chunks and drains, the buffer has the head and the tail of the stream since the last drain, and each drain
answered those of the stream it ended; the same streams in other chunks give the same. -/
theorem headTail_of_run (maxBytes : Nat) (ops : List OutputOp) :
    Retains maxBytes (outputs decode maxBytes ops).1 (streams ops).1 ∧
    List.Forall₂ (fun stream answer => ∃ buffer, Retains maxBytes buffer stream ∧ answer = buffer.snapshot decode)
      (streams ops).2 (outputs decode maxBytes ops).2 ∧
    (∀ answer ∈ (outputs decode maxBytes ops).1.snapshot decode :: (outputs decode maxBytes ops).2,
      answer.retainedBytes + answer.omittedBytes = answer.totalBytes) ∧
    ∀ ops', streams ops' = streams ops → outputs decode maxBytes ops' = outputs decode maxBytes ops := by
  refine ⟨?_, ?_, ?_, fun ops' hSame => ?_⟩
  · rw [outputs_eq]
    exact retains_keeping maxBytes _
  · rw [outputs_eq, forall₂_map_right_iff, forall₂_same]
    exact fun stream _ => ⟨_, retains_keeping maxBytes stream, rfl⟩
  · intro answer hAnswer
    rw [outputs_eq] at hAnswer
    obtain rfl | hDrained := mem_cons.mp hAnswer
    · rfl
    · obtain ⟨stream, -, rfl⟩ := mem_map.mp hDrained
      rfl
  · rw [outputs_eq, outputs_eq, hSame]

theorem headTail_of_run_cut : outputs (fun _ => "") 3 [.push [1], .push [2, 3, 4]] = outputs (fun _ => "") 3 [.push [1, 2, 3], .push [4]] :=
  (headTail_of_run 3 [.push [1, 2, 3], .push [4]]).2.2.2 [.push [1], .push [2, 3, 4]] (by decide)

end

end Stella.ToolOutput
