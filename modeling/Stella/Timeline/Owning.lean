import Stella.Timeline.Window

/-! # The events of a message

Among the visible rows of a window, what a message owns depends on the messages next
to it only, and on the bound of the window behind the last one.
-/

namespace Stella.Timeline

open Stella.Paging List

/-! ## What a message owns -/

namespace Log

variable (log : Log)

def owned (previous : Option Entry) (m : Entry) (next : Option Entry) (upperBound : Option Cursor) : List Entry :=
  if m.isUser then
    if next.any Entry.isAssistant then []
    else log.fetchBoundedToolEvents (some m.cursor) ((next.map Entry.cursor).or upperBound)
  else log.fetchBoundedToolEvents (some ((previous.filter Entry.isUser).getD m).cursor) ((next.map Entry.cursor).or upperBound)

def owning (upperBound : Option Cursor) : Option Entry → List Entry → List ChatMessageRecord
  | _, [] => []
  | previous, m :: rest => ⟨m, log.owned previous m rest.head? upperBound⟩ :: owning upperBound (some m) rest

end Log

variable {log : Log}

variable {e : Entry}

theorem visible_kind (h : e.visible = true) :
    (e.isUser = true ∧ e.isAssistant = false ∨ e.isUser = false ∧ e.isAssistant = true) ∧ e.hidden = false ∧
      e.isToolEvent = false := by
  unfold Entry.visible at h
  rw [Bool.and_eq_true, Bool.not_eq_true'] at h
  obtain ⟨hType, hHidden⟩ := h
  have hOne : e.type = "user_message" ∨ e.type = "assistant_message" := by
    simpa [chatMessageTypes] using hType
  refine ⟨?_, hHidden, ?_⟩
  · obtain hUser | hAsst := hOne
    · exact .inl (by simp [Entry.isUser, Entry.isAssistant, hUser])
    · exact .inr (by simp [Entry.isUser, Entry.isAssistant, hAsst])
  · obtain hUser | hAsst := hOne
    · simp [Entry.isToolEvent, toolEventTypes, hUser]
    · simp [Entry.isToolEvent, toolEventTypes, hAsst]

theorem not_assistant_of_user (h : e.isUser = true) : e.isAssistant = false := by
  have hType : e.type = "user_message" := of_decide_eq_true h
  simp [Entry.isAssistant, hType]

theorem isAssistant_of_not_user (h : e.visible = true) (hUser : e.isUser = false) : e.isAssistant = true := by
  obtain ⟨⟨hIs, -⟩ | ⟨-, hIs⟩, -⟩ := visible_kind h
  · rw [hUser] at hIs
    cases hIs
  · exact hIs

theorem messages_finalize {a : Assembly} (h : a.pendingPreAssistantTools = []) :
    a.finalizePreAssistantTools.messages = a.messages := by
  have hEq : (fun m : ChatMessageRecord => { m with toolEvents := m.toolEvents ++ [] }) = id := by
    funext m
    rw [append_nil]
    rfl
  unfold Assembly.finalizePreAssistantTools Assembly.addTools
  rw [h, hEq]
  split
  · exact modify_id _ _
  · rfl

theorem assemble_visible {rows : List Entry} (h : ∀ e ∈ rows, e.visible = true) :
    (assembleMessageWindow rows).messages = rows.map (⟨·, []⟩) := by
  have hFold : ∀ (rows : List Entry) (a : Assembly), (∀ e ∈ rows, e.visible = true) → a.pendingPreAssistantTools = [] →
      (rows.foldl Assembly.row a).messages = a.messages ++ rows.map (⟨·, []⟩) ∧
        (rows.foldl Assembly.row a).pendingPreAssistantTools = [] := by
    intro rows
    induction rows with
    | nil => exact fun a _ hNone => ⟨(append_nil _).symm, hNone⟩
    | cons e rows ih =>
      intro a hAll hNone
      have hRow : (a.row e).messages = a.messages ++ [⟨e, []⟩] ∧ (a.row e).pendingPreAssistantTools = [] := by
        obtain ⟨hKind, hHidden, -⟩ := visible_kind (hAll e mem_cons_self)
        unfold Assembly.row
        obtain ⟨hUser, -⟩ | ⟨hUser, hAsst⟩ := hKind
        · rw [if_pos hUser]
          exact ⟨by rw [← messages_finalize hNone], rfl⟩
        · rw [if_neg (by simp [hUser]), if_pos hAsst, if_neg (by simp [hHidden])]
          exact ⟨by rw [hNone], rfl⟩
      obtain ⟨hMessages, hPend⟩ := ih (a.row e) (fun other hOther => hAll other (mem_cons_of_mem _ hOther)) hRow.2
      refine ⟨?_, hPend⟩
      rw [foldl_cons, hMessages, hRow.1, append_assoc]
      rfl
  obtain ⟨hMessages, hPend⟩ := hFold rows {} h rfl
  exact (messages_finalize hPend).trans hMessages

/-! ## The turns of a window -/

def Log.anchored (log : Log) (upperBound : Option Cursor) : Option Entry → List Entry → List (String × List Entry)
  | _, [] => []
  | previous, m :: rest =>
    (if m.isUser ∧ rest.head?.any Entry.isAssistant then [] else [(m.id, log.owned previous m rest.head? upperBound)]) ++
      anchored log upperBound (some m) rest

variable {ms : List Entry}

theorem anchored_user {upperBound : Option Cursor} {previous : Option Entry}
    (h : ms.head?.all Entry.isUser = true) : log.anchored upperBound previous ms = log.anchored upperBound none ms := by
  cases ms with
  | nil => rfl
  | cons m rest =>
    have hUser : m.isUser = true := h
    simp only [Log.anchored, Log.owned, hUser, if_true]

theorem anchored_assistants {upperBound : Option Cursor} {assistants : List Entry} (previous : Option Entry)
    (hAll : ∀ e ∈ assistants, e.isUser = false) (hMs : ms.head?.all Entry.isUser = true) (hSome : assistants ≠ []) :
    log.anchored upperBound previous (assistants ++ ms) =
      log.attachAnchors ((previous.filter Entry.isUser).map Entry.cursor) ((ms.head?.map Entry.cursor).or upperBound) assistants ++
        log.anchored upperBound none ms := by
  induction assistants generalizing previous with
  | nil => exact absurd rfl hSome
  | cons m rest ih =>
    have hUser : m.isUser = false := hAll m mem_cons_self
    have hStart : ((previous.filter Entry.isUser).map Entry.cursor).getD m.cursor =
        ((previous.filter Entry.isUser).getD m).cursor := by
      cases previous.filter Entry.isUser <;> rfl
    have hNone : Option.map Entry.cursor (Option.filter Entry.isUser (some m)) = none := by
      rw [Option.filter_some, if_neg (by simp [hUser])]
      rfl
    cases rest with
    | nil =>
      rw [singleton_append, Log.anchored, if_neg (by simp [hUser]), anchored_user hMs, Log.attachAnchors, Log.attachAnchors,
        Log.owned, if_neg (by simp [hUser]), hStart]
      rfl
    | cons m' rest' =>
      have hRest := ih (some m) (fun e he => hAll e (mem_cons_of_mem _ he)) (cons_ne_nil _ _)
      rw [cons_append, Log.anchored, if_neg (by simp [hUser]), hRest, Log.owned,
        if_neg (by simp [hUser]), hNone, ← hStart]
      rfl

theorem attachTurn_eq {upperBound : Option Cursor} {turn : List ChatMessageRecord}
    (hVis : ∀ m ∈ turn, m.entry.visible = true) (hHead : ∀ m ∈ turn.tail, m.entry.isUser = false) (hSome : turn ≠ [])
    (hMs : ms.head?.all Entry.isUser = true) :
    log.anchored upperBound none (turn.map ChatMessageRecord.entry ++ ms) =
      log.attachTurn turn ((ms.head?.map Entry.cursor).or upperBound) ++ log.anchored upperBound none ms := by
  obtain ⟨m, rest, rfl⟩ := exists_cons_of_ne_nil hSome
  have hRest : ∀ e ∈ rest.map ChatMessageRecord.entry, e.isUser = false ∧ e.isAssistant = true ∧ e.hidden = false := by
    intro e he
    obtain ⟨r, hr, rfl⟩ := mem_map.mp he
    have hVisibleR := hVis r (mem_cons_of_mem _ hr)
    have hUser := hHead r hr
    exact ⟨hUser, isAssistant_of_not_user hVisibleR hUser, (visible_kind hVisibleR).2.1⟩
  have hFilter : (rest.map ChatMessageRecord.entry).filter (fun e => e.isAssistant && !e.hidden) =
      rest.map ChatMessageRecord.entry := by
    rw [filter_eq_self]
    intro e he
    obtain ⟨-, hAsst, hHidden⟩ := hRest e he
    rw [hAsst, hHidden]
    rfl
  have hFind : (rest.map ChatMessageRecord.entry).find? Entry.isUser = none := by
    rw [find?_eq_none]
    intro e he hUser
    rw [(hRest e he).1] at hUser
    cases hUser
  obtain ⟨hKind, hHidden, -⟩ := visible_kind (hVis m mem_cons_self)
  unfold Log.attachTurn
  dsimp only
  rw [map_cons]
  obtain ⟨hUser, hNot⟩ | ⟨hUser, hAsst⟩ := hKind
  · rw [find?_cons_of_pos hUser, filter_cons_of_neg (by simp [hNot]), hFilter]
    by_cases hNone : rest = []
    · subst hNone
      have hNext : ms.head?.any Entry.isAssistant = false := by
        cases ms with
        | nil => rfl
        | cons next _ => exact not_assistant_of_user hMs
      rw [map_nil, if_pos rfl, singleton_append, Log.anchored, if_neg (by simp [hNext]), anchored_user hMs,
        Log.owned, if_pos hUser, if_neg (by simp [hNext])]
      rfl
    · have hSomeRest : rest.map ChatMessageRecord.entry ≠ [] := fun hNil => hNone (map_eq_nil_iff.mp hNil)
      have hNext : (rest.map ChatMessageRecord.entry ++ ms).head?.any Entry.isAssistant = true := by
        obtain ⟨r, rest', rfl⟩ := exists_cons_of_ne_nil hNone
        exact (hRest r.entry mem_cons_self).2.1
      rw [if_neg hSomeRest, cons_append, Log.anchored, if_pos ⟨hUser, hNext⟩, nil_append,
        anchored_assistants (some m.entry) (fun e he => (hRest e he).1) hMs hSomeRest, Option.filter_some, if_pos hUser]
  · rw [find?_cons_of_neg (by simp [hUser]), hFind, filter_cons_of_pos (by simp [hAsst, hHidden]), hFilter,
      if_neg (cons_ne_nil _ _)]
    refine anchored_assistants none (fun e he => ?_) hMs (cons_ne_nil _ _)
    obtain rfl | hOld := mem_cons.mp he
    · exact hUser
    · exact (hRest e hOld).1

theorem attachTurns_eq {upperBound : Option Cursor} {turn ms : List ChatMessageRecord}
    (hVis : ∀ m ∈ turn ++ ms, m.entry.visible = true) (hHead : ∀ m ∈ turn.tail, m.entry.isUser = false) :
    log.attachTurns upperBound turn ms =
      log.anchored upperBound none ((turn ++ ms).map ChatMessageRecord.entry) := by
  induction ms generalizing turn with
  | nil =>
    rw [Log.attachTurns, append_nil]
    by_cases hNone : turn = []
    · subst hNone
      rfl
    · have hTurn : log.anchored upperBound none (turn.map ChatMessageRecord.entry ++ []) =
          log.attachTurn turn upperBound ++ log.anchored upperBound none [] :=
        attachTurn_eq (fun m hm => hVis m (mem_append_left _ hm)) hHead hNone rfl
      rw [append_nil] at hTurn
      rw [if_neg hNone, hTurn, Log.anchored, append_nil]
  | cons m ms ih =>
    rw [Log.attachTurns]
    split
    · next hEnds =>
      have hNext : log.attachTurns upperBound [m] ms =
          log.anchored upperBound none ((m :: ms).map ChatMessageRecord.entry) :=
        ih (fun other hOther => hVis other (mem_append_right _ hOther)) nofun
      have hUser : ((m :: ms).map ChatMessageRecord.entry).head?.all Entry.isUser = true := hEnds.1
      rw [hNext, map_append,
        attachTurn_eq (fun other hOther => hVis other (mem_append_left _ hOther)) hHead hEnds.2 hUser]
      rfl
    · next hGoesOn =>
      have hTail : ∀ other ∈ (turn ++ [m]).tail, other.entry.isUser = false := by
        intro other hOther
        cases turn with
        | nil => cases hOther
        | cons first rest =>
          obtain hOld | hNew := mem_append.mp hOther
          · exact hHead other hOld
          · obtain rfl := mem_singleton.mp hNew
            exact Bool.eq_false_iff.mpr fun hUser => hGoesOn ⟨hUser, cons_ne_nil _ _⟩
      rw [ih (by rwa [append_assoc]) hTail, append_assoc]
      rfl

theorem find?_anchored {upperBound : Option Cursor} {previous : Option Entry} {id : String}
    (h : id ∉ ms.map Entry.id) :
    (log.anchored upperBound previous ms).find? (fun attached => attached.1 = id) = none := by
  induction ms generalizing previous with
  | nil => rfl
  | cons m rest ih =>
    rw [map_cons, mem_cons, not_or] at h
    rw [Log.anchored, find?_append, ih h.2, Option.or_none]
    split
    · rfl
    · exact find?_cons_of_neg (by simp [Ne.symm h.1])

theorem attached_eq {upperBound : Option Cursor} {previous : Option Entry}
    (hIds : (ms.map Entry.id).Nodup) :
    ms.map (fun m => match (log.anchored upperBound previous ms).find? (fun attached => attached.1 = m.id) with
      | some attached => (⟨m, attached.2⟩ : ChatMessageRecord)
      | none => ⟨m, []⟩) = log.owning upperBound previous ms := by
  induction ms generalizing previous with
  | nil => rfl
  | cons m rest ih =>
    rw [map_cons, nodup_cons] at hIds
    rw [map_cons, Log.owning, List.cons.injEq]
    constructor
    · rw [Log.anchored, find?_append, find?_anchored hIds.1, Option.or_none]
      split
      · next attached hFound =>
        split at hFound
        · cases hFound
        · rw [find?_cons_of_pos (by simp)] at hFound
          obtain rfl := Option.some.inj hFound
          rfl
      · next hNone =>
        split at hNone
        · next hAnswered => rw [Log.owned, if_pos hAnswered.1, if_pos hAnswered.2]
        · rw [find?_cons_of_pos (by simp)] at hNone
          cases hNone
    · rw [← @ih (some m) hIds.2]
      refine map_congr_left fun other hOther => ?_
      have hAway : m.id ≠ other.id := fun hEq => hIds.1 (hEq ▸ mem_map_of_mem hOther)
      have hHead : ∀ tools : List Entry, [(m.id, tools)].find? (fun attached => attached.1 = other.id) = none :=
        fun tools => find?_cons_of_neg (by simpa using hAway)
      have hNone : (if m.isUser ∧ rest.head?.any Entry.isAssistant then []
          else [(m.id, log.owned previous m rest.head? upperBound)]).find? (fun attached => attached.1 = other.id) = none := by
        split
        · rfl
        · exact hHead _
      rw [Log.anchored, find?_append, hNone, Option.none_or]

theorem attach_eq {rows : List Entry} (upperBound : Option Cursor) (hVis : ∀ e ∈ rows, e.visible = true)
    (hIds : (rows.map Entry.id).Nodup) :
    (log.attachBoundedToolEvents (assembleMessageWindow rows) upperBound).messages = log.owning upperBound none rows := by
  unfold Log.attachBoundedToolEvents
  dsimp only
  rw [assemble_visible hVis, attachTurns_eq ?_ (fun _ h => absurd h not_mem_nil), nil_append, map_map,
    map_map, ← attached_eq hIds]
  · rw [show ChatMessageRecord.entry ∘ (fun e : Entry => (⟨e, []⟩ : ChatMessageRecord)) = id from rfl, map_id]
    rfl
  · intro m hm
    obtain ⟨e, he, rfl⟩ := mem_map.mp hm
    exact hVis e he

/-! ## Cutting a window -/

section

variable {upperBound : Option Cursor} {previous : Option Entry}

theorem owning_entries (upperBound : Option Cursor) (previous : Option Entry) (ms : List Entry) :
    (log.owning upperBound previous ms).map ChatMessageRecord.entry = ms := by
  induction ms generalizing previous with
  | nil => rfl
  | cons m rest ih => rw [Log.owning, map_cons, ih]

theorem length_owning (upperBound : Option Cursor) (previous : Option Entry) (ms : List Entry) :
    (log.owning upperBound previous ms).length = ms.length := by
  have hEnts : ((log.owning upperBound previous ms).map ChatMessageRecord.entry).length = ms.length :=
    congrArg List.length (owning_entries upperBound previous ms)
  rwa [length_map] at hEnts

theorem owning_previous {other : Option Entry} {ms : List Entry}
    (h : previous.filter Entry.isUser = other.filter Entry.isUser ∨ ms.head?.all Entry.isUser = true) :
    log.owning upperBound previous ms = log.owning upperBound other ms := by
  cases ms with
  | nil => rfl
  | cons m rest =>
    obtain hEq | hUser := h
    · rw [Log.owning, Log.owning, Log.owned, Log.owned, hEq]
    · have hM : m.isUser = true := hUser
      rw [Log.owning, Log.owning, Log.owned, Log.owned, if_pos hM, if_pos hM]

theorem owning_drop (us vs : List Entry) :
    (log.owning upperBound previous (us ++ vs)).drop us.length = log.owning upperBound (us.getLast?.or previous) vs := by
  induction us generalizing previous with
  | nil => rfl
  | cons m rest ih =>
    have hLast : (m :: rest).getLast?.or previous = rest.getLast?.or (some m) := by
      rw [getLast?_cons]
      cases rest.getLast? <;> rfl
    rw [cons_append, Log.owning, length_cons, drop_succ_cons, ih, hLast]

theorem owning_take {us vs : List Entry} {v : Entry} :
    log.owning (some v.cursor) previous us = (log.owning upperBound previous (us ++ v :: vs)).take us.length ↔
      ∀ u, us.getLast? = some u → u.isUser = true → v.isAssistant = true →
        log.fetchBoundedToolEvents (some u.cursor) (some v.cursor) = [] := by
  induction us generalizing previous with
  | nil => exact ⟨fun _ _ hNone => (Option.some_ne_none _ hNone.symm).elim, fun _ => rfl⟩
  | cons m rest ih =>
    rw [cons_append, Log.owning, Log.owning, length_cons, take_succ_cons, List.cons.injEq]
    cases rest with
    | nil =>
      have hOne : log.owned previous m none (some v.cursor) = log.owned previous m (some v) upperBound ↔
          (m.isUser = true → v.isAssistant = true → log.fetchBoundedToolEvents (some m.cursor) (some v.cursor) = []) := by
        unfold Log.owned
        by_cases hUser : m.isUser = true
        · by_cases hAsst : v.isAssistant = true
          · rw [if_pos hUser, if_pos hUser, if_neg (by simp), if_pos (by simpa using hAsst)]
            exact ⟨fun hNone _ _ => hNone, fun hNone => hNone hUser hAsst⟩
          · rw [if_pos hUser, if_pos hUser, if_neg (by simp), if_neg (by simpa using hAsst)]
            exact ⟨fun _ _ hIs => absurd hIs hAsst, fun _ => rfl⟩
        · rw [if_neg hUser, if_neg hUser]
          exact ⟨fun _ hIs => absurd hIs hUser, fun _ => rfl⟩
      constructor
      · rintro ⟨hRec, -⟩ u hLast
        obtain rfl : m = u := Option.some.inj hLast
        exact hOne.mp (congrArg ChatMessageRecord.toolEvents hRec)
      · intro h
        refine ⟨?_, rfl⟩
        rw [ChatMessageRecord.mk.injEq]
        exact ⟨rfl, hOne.mpr (h m rfl)⟩
    | cons m' rest' =>
      rw [getLast?_cons_cons, ← @ih (some m)]
      exact ⟨And.right, fun h => ⟨rfl, h⟩⟩

end

end Stella.Timeline
