import Stella.Timeline.Reads

/-! # Pages agree with the whole timeline

What a message owns depends on the messages next to it only, so a page differs from
the whole where its last message is the user message of a turn that goes on beyond it.
-/

namespace Stella.Timeline

open Stella.Paging List

namespace Log

variable (log : Log)

def older (sizes : List Nat) : Nat := sizes.foldl (fun n size => n - windowSize size) log.visibleMessages.length

def CleanCut (n : Nat) : Prop :=
  ∀ user assistant, log.visibleMessages[n - 1]? = some user → log.visibleMessages[n]? = some assistant →
    user.isUser = true → assistant.isAssistant = true →
      log.fetchBoundedToolEvents (some user.cursor) (some assistant.cursor) = []

end Log

def olderCuts : Nat → List Nat → List Nat
  | _, [] => []
  | n, size :: sizes => if n = 0 then [] else n :: olderCuts (n - windowSize size) sizes

/-- Where the pages of these sizes are cut from one another, counted from the oldest of `n` messages. -/
def cuts (n : Nat) : List Nat → List Nat
  | [] => []
  | size :: sizes => olderCuts (n - windowSize size) sizes

/-- The pages of these sizes are the newest part of the whole timeline, and of a timeline read to its start
every event has one place. -/
structure PagesAgree (localeCompare : String → String → Ordering) (log : Log) (sizes : List Nat) : Prop where
  messages : (log.pagedMessages localeCompare sizes).map ChatMessageRecord.entry =
    log.visibleMessages.drop (log.older sizes)
  whole : log.pagedMessages localeCompare sizes = log.wholeTimeline.drop (log.older sizes)
  once : log.older sizes = 0 → ∀ e ∈ log.entries, e.isToolEvent = true →
    (∃ first, log.visibleMessages.head? = some first ∧ first.seq < e.seq) →
      ((log.pagedMessages localeCompare sizes).map ChatMessageRecord.toolEvents).flatten.count e = 1

variable {log : Log} {localeCompare : String → String → Ordering}

/-! ## Putting pages together -/

theorem older_le (sizes : List Nat) (n : Nat) : sizes.foldl (fun n size => n - windowSize size) n ≤ n := by
  induction sizes generalizing n with
  | nil => exact Nat.le_refl n
  | cons size sizes ih => exact Nat.le_trans (ih _) (Nat.sub_le n _)

theorem length_wholeTimeline : log.wholeTimeline.length = log.visibleMessages.length := by
  rw [wholeTimeline_eq, length_owning]

theorem wholeTimeline_drop {xs ys : List Entry} (h : log.visibleMessages = xs ++ ys) {n : Nat} (hN : n ≤ xs.length) :
    log.wholeTimeline.drop n = log.owning none (xs.take n).getLast? (xs.drop n ++ ys) := by
  have hLen : (xs.take n).length = n := length_take_of_le hN
  have hSplit : log.visibleMessages = xs.take n ++ (xs.drop n ++ ys) := by
    rw [← append_assoc, take_append_drop]
    exact h
  have hDrop := @owning_drop log none none (xs.take n) (xs.drop n ++ ys)
  rwa [hLen, ← hSplit, Option.or_none, ← wholeTimeline_eq] at hDrop

theorem cleanCut_iff {xs ys : List Entry} {b : Entry} (h : log.visibleMessages = xs ++ b :: ys) (hSome : xs ≠ []) :
    log.CleanCut xs.length ↔ ∀ u, xs.getLast? = some u → u.isUser = true → b.isAssistant = true →
      log.fetchBoundedToolEvents (some u.cursor) (some b.cursor) = [] := by
  have hLast : log.visibleMessages[xs.length - 1]? = xs.getLast? := by
    rw [h, getElem?_append_left (Nat.sub_lt (length_pos_iff.mpr hSome) Nat.one_pos), getLast?_eq_getElem?]
  have hNext : log.visibleMessages[xs.length]? = some b := by
    rw [h, getElem?_append_right (Nat.le_refl _), Nat.sub_self]
    rfl
  unfold Log.CleanCut
  rw [hLast, hNext]
  exact ⟨fun hClean u hU => hClean u b hU rfl, fun hClean u a hU hA => Option.some.inj hA ▸ hClean u hU⟩

theorem page_iff {xs ys : List Entry} {b : Entry} (h : log.visibleMessages = xs ++ b :: ys) {n : Nat} (hN : n < xs.length) :
    log.owning (some b.cursor) (xs.take n).getLast? (xs.drop n) = (log.wholeTimeline.take xs.length).drop n ↔
      log.CleanCut xs.length := by
  have hSome : xs ≠ [] := ne_nil_of_length_pos (Nat.zero_lt_of_lt hN)
  have hLast : (xs.drop n).getLast? = xs.getLast? := by
    rw [getLast?_drop, if_neg (Nat.not_le.mpr hN)]
  rw [drop_take, wholeTimeline_drop h (Nat.le_of_lt hN), ← length_drop, owning_take, hLast, cleanCut_iff h hSome]

theorem olderMessages_eq (hSelf : ∀ id, localeCompare id id = .eq) (sizes : List Nat) {xs ys : List Entry} {b : Entry}
    (h : log.visibleMessages = xs ++ b :: ys) :
    (log.olderMessages localeCompare b sizes).map ChatMessageRecord.entry =
        xs.drop (sizes.foldl (fun n size => n - windowSize size) xs.length) ∧
      (log.olderMessages localeCompare b sizes =
          (log.wholeTimeline.take xs.length).drop (sizes.foldl (fun n size => n - windowSize size) xs.length) ↔
        ∀ n ∈ olderCuts xs.length sizes, log.CleanCut n) := by
  have hWhole : xs.length ≤ log.wholeTimeline.length := by
    rw [length_wholeTimeline, h, length_append]
    exact Nat.le_add_right _ _
  induction sizes generalizing xs ys b with
  | nil =>
    refine ⟨drop_length.symm, fun _ n hN => absurd hN not_mem_nil, fun _ => ?_⟩
    exact drop_take_self.symm
  | cons size sizes ih =>
    rw [Log.olderMessages, listMessagesBefore_eq hSelf h, foldl_cons, olderCuts]
    by_cases hNone : xs = []
    · subst hNone
      have hZero : sizes.foldl (fun n size => n - windowSize size) (0 - windowSize size) = 0 :=
        Nat.le_zero.mp (Nat.le_trans (older_le _ _) (Nat.sub_le _ _))
      rw [length_nil, hZero, if_pos rfl, drop_nil, Log.owning]
      exact ⟨rfl, fun _ n hN => absurd hN not_mem_nil, fun _ => rfl⟩
    · -- The page is not empty; those before it are read before its first message.
      have hPositive : 0 < xs.length := length_pos_iff.mpr hNone
      have hN : xs.length - windowSize size < xs.length := Nat.sub_lt hPositive (windowSize_pos size)
      obtain ⟨c, back, hBack, -, hLen⟩ := cut_at hN
      have hSplit : log.visibleMessages = xs.take (xs.length - windowSize size) ++ c :: (back ++ b :: ys) := by
        rw [← cons_append, ← hBack, ← append_assoc, take_append_drop]
        exact h
      obtain ⟨hEnts, hAgree⟩ := ih hSplit (by rw [hLen]; omega)
      rw [hLen] at hEnts hAgree
      have hHead : (log.owning (some b.cursor) (xs.take (xs.length - windowSize size)).getLast?
          (xs.drop (xs.length - windowSize size))).head?.map ChatMessageRecord.entry = some c := by
        rw [← head?_map, owning_entries, hBack]
        rfl
      obtain ⟨message, hMsg, rfl⟩ := Option.map_eq_some_iff.mp hHead
      rw [hMsg, if_neg (Nat.ne_of_gt hPositive)]
      dsimp only
      constructor
      · rw [map_append, hEnts, owning_entries, drop_append_drop (older_le _ _)]
      · rw [joined_iff (older_le _ _) (Nat.le_of_lt hN) hWhole ?_, hAgree, page_iff h hN, forall_mem_cons, and_comm]
        have hCnt := congrArg List.length hEnts
        rwa [length_map, length_drop, hLen] at hCnt

theorem pagedMessages_eq (hSelf : ∀ id, localeCompare id id = .eq) (sizes : List Nat) :
    (log.pagedMessages localeCompare sizes).map ChatMessageRecord.entry = log.visibleMessages.drop (log.older sizes) ∧
      (log.pagedMessages localeCompare sizes = log.wholeTimeline.drop (log.older sizes) ↔
        ∀ n ∈ cuts log.visibleMessages.length sizes, log.CleanCut n) := by
  cases sizes with
  | nil =>
    refine ⟨drop_length.symm, fun _ n hN => absurd hN not_mem_nil, fun _ => ?_⟩
    exact (drop_eq_nil_of_le (Nat.le_of_eq length_wholeTimeline)).symm
  | cons size sizes =>
    rw [Log.pagedMessages, listMessages_eq hSelf, Log.older, foldl_cons, cuts]
    by_cases hNone : log.visibleMessages = []
    · have hWhole : log.wholeTimeline = [] := by rw [wholeTimeline_eq, hNone, Log.owning]
      rw [hWhole, hNone, drop_nil, drop_nil, drop_nil, Log.owning, length_nil, Nat.zero_sub]
      refine ⟨rfl, fun _ n hN => ?_, fun _ => rfl⟩
      cases sizes with
      | nil => exact absurd hN not_mem_nil
      | cons _ _ =>
        rw [olderCuts, if_pos rfl] at hN
        exact absurd hN not_mem_nil
    · have hPositive : 0 < log.visibleMessages.length := length_pos_iff.mpr hNone
      have hN : log.visibleMessages.length - windowSize size < log.visibleMessages.length :=
        Nat.sub_lt hPositive (windowSize_pos size)
      obtain ⟨c, back, hBack, hSplit, hLen⟩ := cut_at hN
      obtain ⟨hEnts, hAgree⟩ := olderMessages_eq hSelf sizes hSplit
      rw [hLen] at hEnts hAgree
      have hPage : log.wholeTimeline.drop (log.visibleMessages.length - windowSize size) =
          log.owning none (log.visibleMessages.take (log.visibleMessages.length - windowSize size)).getLast?
            (log.visibleMessages.drop (log.visibleMessages.length - windowSize size)) := by
        rw [wholeTimeline_drop (append_nil _).symm (Nat.le_of_lt hN), append_nil]
      have hHead : (log.wholeTimeline.drop (log.visibleMessages.length - windowSize size)).head?.map
          ChatMessageRecord.entry = some c := by
        rw [hPage, ← head?_map, owning_entries, hBack]
        rfl
      obtain ⟨message, hMsg, rfl⟩ := Option.map_eq_some_iff.mp hHead
      rw [← hPage, hMsg]
      dsimp only
      have hEnd : (log.wholeTimeline.take log.visibleMessages.length) = log.wholeTimeline := by
        rw [← length_wholeTimeline, take_length]
      constructor
      · rw [map_append, hEnts, hPage, owning_entries, drop_append_drop (older_le _ _)]
      · rw [← hAgree]
        have hJoined := @joined_iff _ log.wholeTimeline (log.olderMessages localeCompare message.entry sizes)
          (log.wholeTimeline.drop (log.visibleMessages.length - windowSize size)) _ _ _
            (older_le sizes (log.visibleMessages.length - windowSize size)) (Nat.le_of_lt hN)
            (Nat.le_of_eq length_wholeTimeline.symm) ?_
        · rw [hEnd] at hJoined
          rw [hJoined]
          exact ⟨And.left, fun h => ⟨h, rfl⟩⟩
        · have hCnt := congrArg List.length hEnts
          rwa [length_map, length_drop, hLen] at hCnt

/-! ## Every event once -/

theorem count_between {e start : Entry} (he : e ∈ log.entries) (hTool : e.isToolEvent = true) (stop : Option Entry) :
    (log.fetchBoundedToolEvents (some start.cursor) (stop.map Entry.cursor)).count e =
      if start.seq < e.seq ∧ ∀ s ∈ stop, e.seq < s.seq then 1 else 0 := by
  have hNd : log.entries.Nodup := log.distinct.of_map _
  have hIff : (e.isToolEvent && log.within .gt (some start.cursor) e && log.within .lt (stop.map Entry.cursor) e) = true ↔
      start.seq < e.seq ∧ ∀ s ∈ stop, e.seq < s.seq := by
    rw [hTool, Bool.true_and, Bool.and_eq_true, within_gt, decide_eq_true_iff]
    cases stop with
    | none => exact and_congr_right fun _ => ⟨fun _ s hS => absurd hS (Option.not_mem_none s), fun _ => rfl⟩
    | some s =>
      rw [Option.map_some, within_lt, decide_eq_true_iff]
      exact and_congr_right fun _ => ⟨fun hLess other hOther => Option.some.inj hOther ▸ hLess, fun hAll => hAll s rfl⟩
  unfold Log.fetchBoundedToolEvents
  split
  · next hThere => exact count_eq_one_of_mem (hNd.filter _) (mem_filter.mpr ⟨he, hIff.mpr hThere⟩)
  · next hAway => exact count_eq_zero.mpr fun hMem => hAway (hIff.mp (mem_filter.mp hMem).2)

/-- Where the events of the window that starts with `m` begin. -/
def eventStart (previous : Option Entry) (m : Entry) : Entry :=
  if m.isUser then m else (previous.filter Entry.isUser).getD m

theorem eventStart_le {previous : Option Entry} {m : Entry} (h : ∀ p ∈ previous, p.seq < m.seq) :
    (eventStart previous m).seq ≤ m.seq := by
  unfold eventStart
  split
  · exact Nat.le_refl _
  · cases hUser : previous.filter Entry.isUser with
    | none => exact Nat.le_refl _
    | some p => exact Nat.le_of_lt (h p (Option.filter_eq_some_iff.mp hUser).1)

theorem owned_eq {previous next : Option Entry} {m : Entry} (h : ¬ (m.isUser = true ∧ next.any Entry.isAssistant = true)) :
    log.owned previous m next none =
      log.fetchBoundedToolEvents (some (eventStart previous m).cursor) (next.map Entry.cursor) := by
  unfold Log.owned eventStart
  rw [Option.or_none]
  by_cases hUser : m.isUser = true
  · rw [if_pos hUser, if_pos hUser, if_neg fun hNext => h ⟨hUser, hNext⟩]
  · rw [if_neg hUser, if_neg hUser]

theorem count_owning {e : Entry} (he : e ∈ log.entries) (hTool : e.isToolEvent = true) {previous : Option Entry} {m : Entry}
    {rest : List Entry} (hVis : ∀ other ∈ m :: rest, other.visible = true) (hRising : Rising Entry.seq (m :: rest))
    (hPrevious : ∀ p ∈ previous, p.seq < m.seq) (hAway : ∀ other ∈ m :: rest, other.seq ≠ e.seq) :
    ((log.owning none previous (m :: rest)).map ChatMessageRecord.toolEvents).flatten.count e =
      if (eventStart previous m).seq < e.seq then 1 else 0 := by
  induction rest generalizing previous m with
  | nil =>
    have hAlone : ¬ (m.isUser = true ∧ (none : Option Entry).any Entry.isAssistant = true) := by simp
    rw [Log.owning, Log.owning, map_singleton, flatten_singleton, head?_nil, owned_eq hAlone,
      count_between he hTool]
    simp only [Option.not_mem_none, false_imp_iff, implies_true, and_true]
  | cons next rest ih =>
    obtain ⟨hAbove, hTail⟩ := pairwise_cons.mp hRising
    have hNext : m.seq < next.seq := hAbove next mem_cons_self
    have hRest := @ih (some m) next (fun other hOther => hVis other (mem_cons_of_mem _ hOther)) hTail
      (fun p hP => Option.some.inj hP ▸ hNext) (fun other hOther => hAway other (mem_cons_of_mem _ hOther))
    rw [Log.owning, map_cons, flatten_cons, count_append, hRest, head?_cons]
    dsimp only
    by_cases hAnswered : m.isUser = true ∧ next.isAssistant = true
    · -- The answer has what stands behind the user message.
      obtain ⟨hUser, hAsst⟩ := hAnswered
      have hNot : next.isUser = false := Bool.eq_false_iff.mpr fun hIs =>
        Bool.false_ne_true ((not_assistant_of_user hIs).symm.trans hAsst)
      have hNone : log.owned previous m (some next) none = [] := by
        rw [Log.owned, if_pos hUser, Option.any_some, if_pos hAsst]
      have hStart : eventStart (some m) next = eventStart previous m := by
        rw [eventStart, eventStart, if_neg (by simp [hNot]), if_pos hUser, Option.filter_some, if_pos hUser]
        rfl
      rw [hNone, count_nil, Nat.zero_add, hStart]
    · have hStart : eventStart (some m) next = next := by
        unfold eventStart
        split
        · rfl
        · next hNot =>
          have hAsst : next.isAssistant = true :=
            isAssistant_of_not_user (hVis next (mem_cons_of_mem _ mem_cons_self)) (Bool.eq_false_iff.mpr hNot)
          rw [Option.filter_some, if_neg fun hUser => hAnswered ⟨hUser, hAsst⟩]
          rfl
      have hBef := eventStart_le hPrevious
      have hOff := hAway next (mem_cons_of_mem _ mem_cons_self)
      rw [owned_eq hAnswered, count_between he hTool, hStart]
      simp only [Option.mem_some_iff, forall_eq']
      split_ifs <;> omega

theorem count_wholeTimeline {e first : Entry} (he : e ∈ log.entries) (hTool : e.isToolEvent = true)
    (hFirst : log.visibleMessages.head? = some first) (hBehind : first.seq < e.seq) :
    (log.wholeTimeline.map ChatMessageRecord.toolEvents).flatten.count e = 1 := by
  obtain ⟨rest, hCons⟩ : ∃ rest, log.visibleMessages = first :: rest := head?_eq_some_iff.mp hFirst
  have hVis : ∀ other ∈ first :: rest, other ∈ log.entries ∧ other.visible = true := hCons ▸ fun _ => visible_of_mem
  have hAway : ∀ other ∈ first :: rest, other.seq ≠ e.seq := by
    intro other hOther hSame
    have hEq : other = e := log.rising.inj (hVis other hOther).1 he hSame
    have hNot := (visible_kind (hVis other hOther).2).2.2
    rw [hEq, hTool] at hNot
    cases hNot
  have hStart : eventStart none first = first := by
    unfold eventStart
    split <;> rfl
  have hCnt := @count_owning log e he hTool none first rest (fun other hOther => (hVis other hOther).2)
    (hCons ▸ rising_visible) (fun p hP => absurd hP (Option.not_mem_none p)) hAway
  rw [wholeTimeline_eq, hCons, hCnt, hStart, if_pos hBehind]

/-! ## The pages and the whole -/

/-- The pages agree where no cut takes the events of a turn away from its first answer; at such a cut
the older page has them too, with the user message. -/
theorem pagesAgree_iff (hSelf : ∀ id, localeCompare id id = .eq) (sizes : List Nat) :
    PagesAgree localeCompare log sizes ↔ ∀ n ∈ cuts log.visibleMessages.length sizes, log.CleanCut n := by
  obtain ⟨hMessages, hWhole⟩ := @pagedMessages_eq log localeCompare hSelf sizes
  constructor
  · exact fun h => hWhole.mp h.whole
  · intro hClean
    have hAgree := hWhole.mpr hClean
    refine ⟨hMessages, hAgree, ?_⟩
    rintro hAll e he hTool ⟨first, hFirst, hBehind⟩
    rw [hAgree, hAll, drop_zero]
    exact count_wholeTimeline he hTool hFirst hBehind

def turnsLog : Log where
  entries := [⟨1, "question", 10, "user_message", false⟩, ⟨2, "answer", 12, "assistant_message", false⟩,
    ⟨3, "result", 13, "tool_result", false⟩, ⟨4, "next", 15, "user_message", false⟩,
    ⟨5, "request", 16, "tool_request", false⟩, ⟨6, "reply", 18, "assistant_message", false⟩]
  rising := by unfold Rising; decide
  distinct := by decide
  named := by decide

theorem turnsLog_agrees : PagesAgree compare turnsLog [2, 2] := by
  refine (pagesAgree_iff (fun _ => Std.ReflCmp.compare_self) [2, 2]).mpr fun n hN => ?_
  obtain rfl : n = 2 := by
    have hCuts : cuts turnsLog.visibleMessages.length [2, 2] = [2] := by decide
    rwa [hCuts, mem_singleton] at hN
  intro user assistant hUser _ hIs
  obtain rfl : turnsLog.entries[1] = user := by
    have hPlace : turnsLog.visibleMessages[2 - 1]? = some turnsLog.entries[1] := by decide
    exact Option.some.inj (hPlace.symm.trans hUser)
  cases hIs

def splitLog : Log where
  entries := [⟨1, "question", 10, "user_message", false⟩, ⟨2, "request", 11, "tool_request", false⟩,
    ⟨3, "answer", 12, "assistant_message", false⟩]
  rising := by unfold Rising; decide
  distinct := by decide
  named := by decide

/-- The request stands with the answer and, on the older page, with the question. -/
theorem splitLog_differs : ¬ PagesAgree compare splitLog [1, 1] ∧
    ((splitLog.pagedMessages compare [1, 1]).map (fun m => m.toolEvents.map Entry.id) = [["request"], ["request"]] ∧
      splitLog.wholeTimeline.map (fun m => m.toolEvents.map Entry.id) = [[], ["request"]]) := by
  refine ⟨fun h => ?_, by decide, by decide⟩
  have hWhole := h.whole
  revert hWhole
  decide

end Stella.Timeline
