import Stella.Timeline.Owning

/-! # What one read returns

The rows of a read start with the user message of the turn it is cut in; the rows in
front of the cutoff are trimmed away again, after each message has its events.
-/

namespace Stella.Timeline

open Stella.Paging List

def Log.visibleMessages (log : Log) : List Entry := log.entries.filter Entry.visible

variable {log : Log}

/-! ## Cursors of stored rows -/

theorem resolve_cursor (e : Entry) : log.resolveCursorSequence e.cursor = e.cursor :=
  if_pos (.inl (Option.some_ne_none _))

theorem resolve_stored {e : Entry} (h : e ∈ log.entries) :
    log.resolveCursorSequence ⟨e.timestamp, e.id, none⟩ = e.cursor := by
  unfold Log.resolveCursorSequence
  rw [if_neg (by simpa using log.named e h)]
  split
  · next found hFound =>
    have hId : found.id = e.id := by simpa using find?_some hFound
    obtain rfl := inj_on_of_nodup_map log.distinct (mem_of_find?_eq_some hFound) h hId
    rfl
  · next hNone => exact absurd (decide_eq_true rfl) (find?_eq_none.mp hNone e h)

theorem within_cursor (op : Comparison) (c e : Entry) :
    log.within op (some c.cursor) e = op.test (compare e.seq c.seq) := by
  rw [Log.within, Option.all_some, resolve_cursor]
  rfl

section

variable (c e : Entry)

theorem within_lt : log.within .lt (some c.cursor) e = decide (e.seq < c.seq) := by
  rw [within_cursor, Bool.eq_iff_iff, decide_eq_true_iff]
  exact Ordering.isLT_iff_eq_lt.trans Nat.compare_eq_lt

theorem within_le : log.within .le (some c.cursor) e = decide (e.seq ≤ c.seq) := by
  rw [within_cursor, Bool.eq_iff_iff, decide_eq_true_iff]
  exact Nat.isLE_compare

theorem within_gt : log.within .gt (some c.cursor) e = decide (c.seq < e.seq) := by
  rw [within_cursor, Bool.eq_iff_iff, decide_eq_true_iff]
  exact Ordering.isGT_iff_eq_gt.trans Nat.compare_eq_gt

theorem within_ge : log.within .ge (some c.cursor) e = decide (c.seq ≤ e.seq) := by
  rw [within_cursor, Bool.eq_iff_iff, decide_eq_true_iff]
  exact Nat.isGE_compare

end

/-! ## The messages in front of a bound -/

theorem rising_visible : Rising Entry.seq log.visibleMessages := log.rising.filter _

theorem visible_of_mem {e : Entry} (h : e ∈ log.visibleMessages) : e ∈ log.entries ∧ e.visible = true :=
  mem_filter.mp h

theorem nodup_visible : (log.visibleMessages.map Entry.id).Nodup :=
  (filter_sublist.map Entry.id).nodup log.distinct

theorem before_eq {xs ys : List Entry} (h : log.visibleMessages = xs ++ ys) :
    log.visibleMessages.filter (log.within .lt (ys.head?.map Entry.cursor)) = xs := by
  cases ys with
  | nil =>
    rw [h, append_nil, filter_eq_self]
    exact fun _ _ => rfl
  | cons b ys =>
    have hRising : Rising Entry.seq (xs ++ b :: ys) := h ▸ rising_visible
    have hLess : log.within .lt (some b.cursor) = fun e => decide (e.seq < b.seq) := funext (within_lt b)
    rw [h, head?_cons, Option.map_some, hLess]
    exact hRising.filter_below

theorem filter_visible (p : Entry → Bool) :
    log.entries.filter (fun e => e.visible && p e) = log.visibleMessages.filter p := by
  rw [Log.visibleMessages, filter_filter]
  exact filter_congr fun _ _ => Bool.and_comm _ _

theorem fetchEntryRows_eq (start before : Option Cursor) :
    log.fetchEntryRows start before =
      (log.visibleMessages.filter (log.within .lt before)).filter (log.within .ge start) := by
  rw [filter_filter, ← filter_visible]
  refine filter_congr fun e _ => ?_
  cases hVis : e.visible with
  | false => rw [Bool.and_false, Bool.false_and, Bool.false_and, Bool.false_and]
  | true =>
    have hType : chatMessageTypes.contains e.type = true := (Bool.and_eq_true_iff.mp hVis).1
    rw [hType, Bool.true_and, Bool.true_and, Bool.true_and]

theorem cutoff_eq {xs ys : List Entry} (h : log.visibleMessages = xs ++ ys) (size : Nat) :
    log.findVisibleMessageCutoffPaged size (ys.head?.map Entry.cursor) = (xs.reverse[size - 1]?).map Entry.cursor := by
  rw [Log.findVisibleMessageCutoffPaged, filter_visible, before_eq h]

def turnStart (front : List Entry) (c : Entry) : Entry := ((front ++ [c]).filter Entry.isUser).getLast?.getD c

theorem turnCutoff_eq {front back : List Entry} {c : Entry} (h : log.visibleMessages = front ++ c :: back) :
    log.findTurnFetchCutoff (some c.cursor) = some (turnStart front c).cursor := by
  have hRising : Rising Entry.seq (front ++ c :: back) := h ▸ rising_visible
  have hUpto : log.visibleMessages.filter (log.within .le (some c.cursor)) = front ++ [c] := by
    have hLess : log.within .le (some c.cursor) = fun e => decide (e.seq ≤ c.seq) := funext (within_le c)
    rw [hLess, h]
    exact hRising.filter_upto
  have hUsers : log.entries.filter (fun e => e.isUser && e.visible && log.within .le (some c.cursor) e) =
      (front ++ [c]).filter Entry.isUser := by
    rw [← hUpto, filter_filter, ← filter_visible]
    refine filter_congr fun e _ => ?_
    rw [Bool.and_comm e.isUser, Bool.and_assoc]
  rw [Log.findTurnFetchCutoff, Option.map_some, hUsers, resolve_cursor, turnStart]
  cases ((front ++ [c]).filter Entry.isUser).getLast? <;> rfl

theorem turnStart_split (front : List Entry) (c : Entry) :
    ∃ before turn, front = before ++ turn ∧ (turn ++ [c]).head? = some (turnStart front c) ∧
      (turn.getLast?.filter Entry.isUser = front.getLast?.filter Entry.isUser ∨ c.isUser = true) := by
  unfold turnStart
  by_cases hUser : c.isUser = true
  · refine ⟨front, [], (append_nil _).symm, ?_, .inr hUser⟩
    rw [filter_append, filter_cons_of_pos hUser, filter_nil, getLast?_concat]
    rfl
  · rw [filter_append, filter_cons_of_neg hUser, filter_nil, append_nil]
    cases hLast : (front.filter Entry.isUser).getLast? with
    | none =>
      refine ⟨front, [], (append_nil _).symm, rfl, .inl ?_⟩
      have hNone : front.filter Entry.isUser = [] := getLast?_eq_none_iff.mp hLast
      symm
      rw [getLast?_nil, Option.filter_none, Option.filter_eq_none_iff]
      intro last hIs
      exact filter_eq_nil_iff.mp hNone last (mem_of_getLast? hIs)
    | some user =>
      have hMem : user ∈ front := (mem_filter.mp (mem_of_getLast? hLast)).1
      obtain ⟨before, turn, rfl⟩ := append_of_mem hMem
      refine ⟨before, user :: turn, rfl, rfl, .inl ?_⟩
      rw [getLast?_append_of_ne_nil _ (cons_ne_nil _ _)]

/-! ## Trimming -/

section

variable {localeCompare : String → String → Ordering}

theorem isGE_cursor (hSelf : ∀ id, localeCompare id id = .eq) {c e : Entry} (h : e = c ∨ c.seq < e.seq) :
    (compareTimelineCursor localeCompare e.cursor c.cursor).isGE = true := by
  change ((compare e.seq c.seq).then (localeCompare e.id c.id)).isGE = true
  obtain rfl | hAbove := h
  · rw [Nat.compare_eq_eq.mpr rfl, hSelf]
    rfl
  · rw [Nat.compare_eq_gt.mpr hAbove]
    rfl

theorem not_isGE_cursor {c e : Entry} (h : e.seq < c.seq) :
    (compareTimelineCursor localeCompare e.cursor c.cursor).isGE = false := by
  change ((compare e.seq c.seq).then (localeCompare e.id c.id)).isGE = false
  rw [Nat.compare_eq_lt.mpr h]
  rfl

theorem trim_eq (hSelf : ∀ id, localeCompare id id = .eq) {records : List ChatMessageRecord} {us back : List Entry}
    {c : Entry} (h : Rising Entry.seq (us ++ c :: back)) (hEnts : records.map ChatMessageRecord.entry = us ++ c :: back) :
    records.filter (fun m => (compareTimelineCursor localeCompare m.entry.cursor c.cursor).isGE) =
      records.drop us.length := by
  obtain ⟨-, hTail, hFront⟩ := pairwise_append.mp h
  have hBack : ∀ e ∈ back, c.seq < e.seq := (pairwise_cons.mp hTail).1
  have hNone : (records.take us.length).filter
      (fun m => (compareTimelineCursor localeCompare m.entry.cursor c.cursor).isGE) = [] := by
    rw [filter_eq_nil_iff]
    intro m hm
    have hMem : m.entry ∈ us := by
      have hMap := mem_map_of_mem (f := ChatMessageRecord.entry) hm
      rwa [map_take, hEnts, take_left] at hMap
    rw [not_isGE_cursor (hFront _ hMem c mem_cons_self)]
    exact Bool.false_ne_true
  have hAll : (records.drop us.length).filter
      (fun m => (compareTimelineCursor localeCompare m.entry.cursor c.cursor).isGE) = records.drop us.length := by
    rw [filter_eq_self]
    intro m hm
    have hMem : m.entry ∈ c :: back := by
      have hMap := mem_map_of_mem (f := ChatMessageRecord.entry) hm
      rwa [map_drop, hEnts, drop_left] at hMap
    exact isGE_cursor hSelf ((mem_cons.mp hMem).imp_right (hBack _))
  conv_lhs => rw [← take_append_drop us.length records]
  rw [filter_append, hNone, hAll, nil_append]

/-! ## A read -/

theorem attached_rows {xs ys before rows : List Entry} {start : Entry} (h : log.visibleMessages = xs ++ ys)
    (hXs : xs = before ++ start :: rows) (upperBound : Option Cursor) :
    (log.attachBoundedToolEvents (assembleMessageWindow
      (log.fetchEntryRows (some start.cursor) (ys.head?.map Entry.cursor))) upperBound).messages =
        log.owning upperBound none (start :: rows) := by
  have hRising : Rising Entry.seq (before ++ start :: rows) := by
    have hAll : Rising Entry.seq (xs ++ ys) := h ▸ rising_visible
    exact hXs ▸ (pairwise_append.mp hAll).1
  have hRows : log.fetchEntryRows (some start.cursor) (ys.head?.map Entry.cursor) = start :: rows := by
    have hFrom : log.within .ge (some start.cursor) = fun e => decide (start.seq ≤ e.seq) := funext (within_ge start)
    rw [fetchEntryRows_eq, before_eq h, hFrom, hXs]
    exact hRising.filter_from
  have hSublist : (start :: rows).Sublist log.visibleMessages := by
    rw [h, hXs]
    exact (sublist_append_right _ _).trans (sublist_append_left _ _)
  rw [hRows]
  exact attach_eq upperBound (fun e he => (visible_of_mem (hSublist.subset he)).2)
    ((hSublist.map Entry.id).nodup nodup_visible)

theorem read_eq (hSelf : ∀ id, localeCompare id id = .eq) {xs ys : List Entry} (h : log.visibleMessages = xs ++ ys)
    {size : Nat} (hSize : 0 < size) :
    ((log.attachBoundedToolEvents (assembleMessageWindow (log.fetchEntryRows
      (log.findTurnFetchCutoff (log.findVisibleMessageCutoffPaged size (ys.head?.map Entry.cursor)))
        (ys.head?.map Entry.cursor))) (ys.head?.map Entry.cursor)).trimMessageWindow localeCompare
          (log.findVisibleMessageCutoffPaged size (ys.head?.map Entry.cursor))).messages =
      log.owning (ys.head?.map Entry.cursor) (xs.take (xs.length - size)).getLast? (xs.drop (xs.length - size)) := by
  rw [cutoff_eq h]
  by_cases hFits : size ≤ xs.length
  · -- The cutoff is a message of the log, and the rows start with its turn.
    have hPlace : xs.length - size < xs.length := by omega
    obtain ⟨c, back, hBack, hSplit, -⟩ := cut_at hPlace
    have hCutoff : xs.reverse[size - 1]? = some c := by
      have hEq : xs.length - 1 - (size - 1) = xs.length - size + 0 := by omega
      rw [getElem?_reverse (by omega), hEq, ← getElem?_drop, hBack]
      rfl
    have hTurn : log.findTurnFetchCutoff (some c.cursor) = some (turnStart (xs.take (xs.length - size)) c).cursor := by
      have hWhole : log.visibleMessages = xs.take (xs.length - size) ++ c :: (back ++ ys) := by
        rw [h]
        conv_lhs => rw [hSplit]
        rw [append_assoc]
        rfl
      exact turnCutoff_eq hWhole
    obtain ⟨before, turn, hFront, hStart, hPrevious⟩ := turnStart_split (xs.take (xs.length - size)) c
    obtain ⟨rows, hRows⟩ : ∃ rows, turn ++ c :: back = turnStart (xs.take (xs.length - size)) c :: rows := by
      rw [append_cons]
      cases hHead : turn ++ [c] with
      | nil => exact absurd hHead (by simp)
      | cons first rest =>
        rw [hHead] at hStart
        exact ⟨rest ++ back, by rw [← Option.some.inj hStart]; rfl⟩
    have hXs : xs = before ++ turnStart (xs.take (xs.length - size)) c :: rows := by
      rw [← hRows, ← append_assoc, ← hFront]
      exact hSplit
    have hRising : Rising Entry.seq (turn ++ c :: back) := by
      have hAll : Rising Entry.seq (xs ++ ys) := h ▸ rising_visible
      have hInner := (pairwise_append.mp hAll).1
      rw [hXs] at hInner
      rw [hRows]
      exact (pairwise_append.mp hInner).2.1
    rw [hCutoff, Option.map_some, hTurn, ChatMessageWindow.trimMessageWindow]
    dsimp only
    rw [attached_rows h hXs, ← hRows, trim_eq hSelf hRising (owning_entries _ _ _), owning_drop, Option.or_none, hBack]
    exact owning_previous hPrevious
  · -- Every message in front is on the page.
    have hNone : xs.reverse[size - 1]? = none := getElem?_eq_none (by rw [length_reverse]; omega)
    have hZero : xs.length - size = 0 := by omega
    have hRows : log.fetchEntryRows none (ys.head?.map Entry.cursor) = xs := by
      rw [fetchEntryRows_eq, before_eq h, filter_eq_self]
      exact fun _ _ => rfl
    have hSublist : xs.Sublist log.visibleMessages := h ▸ sublist_append_left _ _
    rw [hNone, Option.map_none, hZero, take_zero, drop_zero, Log.findTurnFetchCutoff, Option.map_none, hRows]
    exact attach_eq _ (fun e he => (visible_of_mem (hSublist.subset he)).2) ((hSublist.map Entry.id).nodup nodup_visible)

theorem windowSize_pos (size : Nat) : 0 < windowSize size := le_max_left 1 _

theorem listMessages_eq (hSelf : ∀ id, localeCompare id id = .eq) (size : Nat) :
    (log.listMessages localeCompare size).messages =
      log.owning none (log.visibleMessages.take (log.visibleMessages.length - windowSize size)).getLast?
        (log.visibleMessages.drop (log.visibleMessages.length - windowSize size)) :=
  read_eq hSelf (append_nil _).symm (windowSize_pos size)

theorem listMessagesBefore_eq (hSelf : ∀ id, localeCompare id id = .eq) {xs ys : List Entry} {b : Entry}
    (h : log.visibleMessages = xs ++ b :: ys) (size : Nat) :
    (log.listMessagesBefore localeCompare b.timestamp b.id size).messages =
      log.owning (some b.cursor) (xs.take (xs.length - windowSize size)).getLast?
        (xs.drop (xs.length - windowSize size)) := by
  have hMem : b ∈ log.visibleMessages := by
    rw [h]
    exact mem_append_right _ mem_cons_self
  rw [Log.listMessagesBefore, resolve_stored (visible_of_mem hMem).1]
  exact read_eq hSelf h (windowSize_pos size)

theorem wholeTimeline_eq : log.wholeTimeline = log.owning none none log.visibleMessages := by
  have hRows : log.fetchEntryRows none none = log.visibleMessages := by
    have hAll : ∀ op, log.visibleMessages.filter (log.within op none) = log.visibleMessages :=
      fun _ => filter_eq_self.mpr fun _ _ => rfl
    rw [fetchEntryRows_eq, hAll, hAll]
  rw [Log.wholeTimeline, hRows]
  exact attach_eq none (fun e he => (visible_of_mem he).2) nodup_visible

end

end Stella.Timeline
