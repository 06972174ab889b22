import Stella.ChatLog.Model
import Stella.Library.Transition
import Mathlib.Data.List.Dedup

/-! # The derived columns agree with the payloads

Each write computes the columns of its own entry. The turns of later entries
are repaired only where a user message is shown or hidden by a whole event, and
the reply index is not rewritten when a payload is merged.
-/

namespace Stella.ChatLog

open Stella.Transition List
open Stella.AgentActivity (trim)

/-- `s` is the seq of a visible user message of the conversation. -/
def Db.Starts (db : Db) (conversationId : String) (s : Nat) : Prop :=
  ∃ e ∈ db.entries, e.conversationId = conversationId ∧ e.startsTurn = true ∧ e.seq = s

structure Agrees (db : Db) : Prop where
  visible : ∀ e ∈ db.entries, e.visible = computeChatVisibility e.type e.payload
  searchText : ∀ e ∈ db.entries, e.searchText = computeSearchText e.type e.payload
  turnSeq : ∀ e ∈ db.entries, e.turnSeq = db.lastVisibleUserSeq e.conversationId (some e.seq)
  refs : ∀ e ∈ db.entries, ∀ kind key,
    ⟨e.conversationId, e.seq, kind, key⟩ ∈ db.refs ↔ (kind, key) ∈ refTargets e.type e.payload

structure Keyed (db : Db) : Prop where
  ids : ∀ e ∈ db.entries, ∀ e' ∈ db.entries, e.id = e'.id → e = e'
  places : ∀ e ∈ db.entries, ∀ e' ∈ db.entries, e.conversationId = e'.conversationId → e.seq = e'.seq → e = e'
  claimed : ∀ e ∈ db.entries, ∃ next, db.nextSeq e.conversationId = some next ∧ e.seq < next

def keepsTurns (db : Db) (event : Event) : Bool :=
  match db.entryOf event.eventId with
  | some existing =>
    let visible := computeChatVisibility event.type event.payload
    if existing.conversationId = event.conversationId then
      existing.startsTurn == (event.type == "user_message" && visible) ||
        (event.type == "user_message" && existing.visible != visible)
    else !existing.startsTurn ||
      db.entries.all (fun e => e.conversationId ≠ existing.conversationId || e.seq ≤ existing.seq)
  | none => true

def keepsPayload (existing : Entry) (patch : List (String × Option Json)) : Bool :=
  let merged := some (mergePayload existing.payload patch)
  (existing.type != "user_message" || existing.visible == computeChatVisibility existing.type merged) &&
    (refTargets existing.type existing.payload).all (refTargets existing.type merged).contains &&
    (refTargets existing.type merged).all (refTargets existing.type existing.payload).contains

def keepsColumns (db : Db) : Input → Bool
  | .append args => args.event.all (keepsTurns db)
  | .upsert event => keepsTurns db event
  | .merge conversationId eventId patch _ =>
    (db.entries.find? (fun e => e.id = trim eventId ∧ e.conversationId = trim conversationId)).all
      (fun existing => keepsPayload existing patch)
  | .react _ _ _ _ => true

section Turns

variable {db db' : Db}

theorem mem_turnSeqs (c : String) (bound : Option Nat) (s : Nat) :
    s ∈ (db.entries.filter (fun e => e.conversationId = c && e.startsTurn &&
      bound.all (fun bound => e.seq ≤ bound))).map Entry.seq ↔ db.Starts c s ∧ bound.all (fun bound => s ≤ bound) := by
  simp only [mem_map, mem_filter, Bool.and_eq_true, decide_eq_true_eq, Db.Starts]
  constructor
  · rintro ⟨e, ⟨hMem, ⟨hConv, hStarts⟩, hBound⟩, rfl⟩
    exact ⟨⟨e, hMem, hConv, hStarts, rfl⟩, hBound⟩
  · rintro ⟨⟨e, hMem, hConv, hStarts, rfl⟩, hBound⟩
    exact ⟨e, ⟨hMem, ⟨hConv, hStarts⟩, hBound⟩, rfl⟩

variable {c : String}

theorem lastVisibleUserSeq_congr {bound bound' : Option Nat}
    (h : ∀ s, (db.Starts c s ∧ bound.all (fun b => s ≤ b)) ↔ (db'.Starts c s ∧ bound'.all (fun b => s ≤ b))) :
    db.lastVisibleUserSeq c bound = db'.lastVisibleUserSeq c bound' := by
  refine Option.ext fun s => ?_
  unfold Db.lastVisibleUserSeq
  rw [max?_eq_some_iff, max?_eq_some_iff]
  simp only [mem_turnSeqs, h]

theorem lastVisibleUserSeq_of_starts {s : Nat} (h : db.Starts c s) :
    db.lastVisibleUserSeq c (some s) = some s := by
  refine max?_eq_some_iff.mpr ⟨(mem_turnSeqs c (some s) s).mpr ⟨h, by simp⟩, fun other hOther => ?_⟩
  simpa using ((mem_turnSeqs c (some s) other).mp hOther).2

end Turns

section Rewrites

variable {db : Db}

variable {f : Entry → Entry}

theorem Keyed.map (h : Keyed db) (hId : ∀ e, (f e).id = e.id)
    (hConversation : ∀ e, (f e).conversationId = e.conversationId) (hSeq : ∀ e, (f e).seq = e.seq) {db' : Db}
    (hEnts : db'.entries = db.entries.map f)
    (hNext : ∀ c next, db.nextSeq c = some next → db'.nextSeq c = some next) : Keyed db' where
  ids := by
    intro e he e' he' hEq
    rw [hEnts] at he he'
    obtain ⟨a, ha, rfl⟩ := mem_map.mp he
    obtain ⟨b, hb, rfl⟩ := mem_map.mp he'
    rw [h.ids a ha b hb (by rw [← hId a, ← hId b, hEq])]
  places := by
    intro e he e' he' hConv hAt
    rw [hEnts] at he he'
    obtain ⟨a, ha, rfl⟩ := mem_map.mp he
    obtain ⟨b, hb, rfl⟩ := mem_map.mp he'
    rw [h.places a ha b hb (by rw [← hConversation a, ← hConversation b, hConv]) (by rw [← hSeq a, ← hSeq b, hAt])]
  claimed := by
    intro e he
    rw [hEnts] at he
    obtain ⟨a, ha, rfl⟩ := mem_map.mp he
    obtain ⟨next, hNextSeq, hBelow⟩ := h.claimed a ha
    exact ⟨next, by rw [hConversation]; exact hNext _ _ hNextSeq, by rw [hSeq]; exact hBelow⟩

theorem starts_map (hConversation : ∀ e, (f e).conversationId = e.conversationId)
    (hSeq : ∀ e, (f e).seq = e.seq) {db' : Db} (hEnts : db'.entries = db.entries.map f) {c : String} {s : Nat}
    (hStarts : ∀ e ∈ db.entries, e.conversationId = c → e.seq = s → (f e).startsTurn = e.startsTurn) :
    db'.Starts c s ↔ db.Starts c s := by
  unfold Db.Starts
  rw [hEnts]
  constructor
  · rintro ⟨e, he, hConv, hStart, hAt⟩
    obtain ⟨a, ha, rfl⟩ := mem_map.mp he
    rw [hConversation] at hConv
    rw [hSeq] at hAt
    exact ⟨a, ha, hConv, hStarts a ha hConv hAt ▸ hStart, hAt⟩
  · rintro ⟨a, ha, hConv, hStart, hAt⟩
    exact ⟨f a, mem_map_of_mem ha, by rw [hConversation, hConv],
      by rw [hStarts a ha hConv hAt, hStart], by rw [hSeq, hAt]⟩

theorem mem_syncEntryRefs (conversationId : String) (entrySeq : Nat) (type : String) (payload : Option Json)
    (r : EntryRef) :
    r ∈ (db.syncEntryRefs conversationId entrySeq type payload).refs ↔
      if r.conversationId = conversationId ∧ r.entrySeq = entrySeq then
        (r.targetKind, r.targetKey) ∈ refTargets type payload
      else r ∈ db.refs := by
  obtain ⟨c, s, kind, key⟩ := r
  simp only [Db.syncEntryRefs, Db.dropRefs, mem_append, mem_filter, mem_dedup, mem_map,
    decide_eq_true_eq, EntryRef.mk.injEq]
  split
  · next hAt =>
    obtain ⟨rfl, rfl⟩ := hAt
    constructor
    · rintro (⟨-, hNot⟩ | ⟨target, hTgt, -, -, rfl, rfl⟩)
      · exact absurd ⟨rfl, rfl⟩ hNot
      · exact hTgt
    · intro hTgt
      exact .inr ⟨_, hTgt, rfl, rfl, rfl, rfl⟩
  · next hAway =>
    constructor
    · rintro (⟨hMem, -⟩ | ⟨target, -, rfl, rfl, -, -⟩)
      · exact hMem
      · exact absurd ⟨rfl, rfl⟩ hAway
    · intro hMem
      exact .inl ⟨hMem, hAway⟩

end Rewrites

structure Sound (db : Db) : Prop where
  agrees : Agrees db
  keyed : Keyed db

section Events

variable {db : Db} {event : Event}

theorem Sound.ensureConversation (h : Sound db) (conversationId : String) :
    Sound (db.ensureConversation conversationId) where
  agrees := ⟨h.agrees.visible, h.agrees.searchText, h.agrees.turnSeq, h.agrees.refs⟩
  keyed := ⟨h.keyed.ids, h.keyed.places, fun e he => by
    obtain ⟨next, hNext, hBelow⟩ := h.keyed.claimed e he
    refine ⟨next, ?_, hBelow⟩
    unfold Db.ensureConversation
    dsimp only
    split <;> simp [hNext]⟩

variable {e : Entry}

theorem starts_append {db' : Db} (hEnts : db'.entries = db.entries ++ [e]) (c : String) (s : Nat) :
    db'.Starts c s ↔ db.Starts c s ∨ (e.conversationId = c ∧ e.startsTurn = true ∧ e.seq = s) := by
  unfold Db.Starts
  rw [hEnts]
  simp only [mem_append, mem_singleton, or_and_right, exists_or, exists_eq_left]

theorem Sound.append (h : Sound db) {db' : Db} (hEnts : db'.entries = db.entries ++ [e])
    (hAbove : ∀ a ∈ db.entries, a.conversationId = e.conversationId → a.seq < e.seq)
    (hNew : ∀ a ∈ db.entries, a.id ≠ e.id)
    (hClaimed : ∀ a ∈ db'.entries, ∃ next, db'.nextSeq a.conversationId = some next ∧ a.seq < next)
    (hVis : e.visible = computeChatVisibility e.type e.payload)
    (hSearch : e.searchText = computeSearchText e.type e.payload)
    (hTurn : e.turnSeq = if e.startsTurn then some e.seq else db.lastVisibleUserSeq e.conversationId none)
    (hRefs : ∀ r, r ∈ db'.refs ↔ if r.conversationId = e.conversationId ∧ r.entrySeq = e.seq then
      (r.targetKind, r.targetKey) ∈ refTargets e.type e.payload else r ∈ db.refs) : Sound db' := by
  have hCases : ∀ a ∈ db'.entries, a ∈ db.entries ∨ a = e := by
    intro a ha
    rw [hEnts] at ha
    simpa using ha
  have hApart : ∀ a ∈ db.entries, ¬ (a.conversationId = e.conversationId ∧ a.seq = e.seq) := by
    rintro a ha ⟨hConv, hAt⟩
    have := hAbove a ha hConv
    omega
  refine ⟨⟨?_, ?_, ?_, ?_⟩, ⟨?_, ?_, hClaimed⟩⟩
  · intro a ha
    obtain ha | rfl := hCases a ha
    · exact h.agrees.visible a ha
    · exact hVis
  · intro a ha
    obtain ha | rfl := hCases a ha
    · exact h.agrees.searchText a ha
    · exact hSearch
  · intro a ha
    obtain ha | rfl := hCases a ha
    · rw [h.agrees.turnSeq a ha]
      refine lastVisibleUserSeq_congr fun s => ?_
      rw [starts_append hEnts]
      constructor
      · exact fun hStarts => ⟨.inl hStarts.1, hStarts.2⟩
      · rintro ⟨hStarts | ⟨hConv, -, rfl⟩, hBound⟩
        · exact ⟨hStarts, hBound⟩
        · have := hAbove a ha hConv.symm
          rw [Option.all_some, decide_eq_true_eq] at hBound
          omega
    · rw [hTurn]
      split
      · next hStart =>
        exact (lastVisibleUserSeq_of_starts ((starts_append hEnts _ _).mpr (.inr ⟨rfl, hStart, rfl⟩))).symm
      · next hStart =>
        refine lastVisibleUserSeq_congr fun s => ?_
        rw [starts_append hEnts]
        constructor
        · rintro ⟨hStarts, -⟩
          refine ⟨.inl hStarts, ?_⟩
          obtain ⟨b, hb, hConv, -, rfl⟩ := hStarts
          simpa using (hAbove b hb hConv).le
        · rintro ⟨hStarts | ⟨-, hStarts, -⟩, -⟩
          · exact ⟨hStarts, rfl⟩
          · exact absurd hStarts hStart
  · intro a ha kind key
    rw [hRefs]
    obtain ha | rfl := hCases a ha
    · rw [if_neg (hApart a ha), h.agrees.refs a ha]
    · rw [if_pos ⟨rfl, rfl⟩]
  · intro a ha b hb hEq
    obtain ha | rfl := hCases a ha <;> obtain hb | rfl := hCases b hb
    · exact h.keyed.ids a ha b hb hEq
    · exact absurd hEq (hNew a ha)
    · exact absurd hEq.symm (hNew b hb)
    · rfl
  · intro a ha b hb hConv hAt
    obtain ha | rfl := hCases a ha <;> obtain hb | rfl := hCases b hb
    · exact h.keyed.places a ha b hb hConv hAt
    · exact absurd ⟨hConv, hAt⟩ (hApart a ha)
    · exact absurd ⟨hConv.symm, hAt.symm⟩ (hApart b hb)
    · rfl

theorem Sound.insertEvent (h : Sound db) (hNew : ∀ e ∈ db.entries, e.id ≠ event.eventId) {db' : Db}
    (hIns : db.insertEvent event = some db') : Sound db' := by
  unfold Db.insertEvent at hIns
  obtain ⟨⟨seq, claimed⟩, hClaim, rfl⟩ := Option.map_eq_some_iff.mp hIns
  obtain ⟨ready, hReady, hEnsured, hReadyEntries⟩ : ∃ ready : Db,
      (if event.ensureConversation then db.ensureConversation event.conversationId else db) = ready ∧ Sound ready ∧
        ready.entries = db.entries := by
    split
    · exact ⟨_, rfl, h.ensureConversation _, rfl⟩
    · exact ⟨_, rfl, h, rfl⟩
  rw [hReady] at hClaim
  unfold Db.claimSeq at hClaim
  obtain ⟨next, hNextSeq, hPair⟩ := Option.map_eq_some_iff.mp hClaim
  obtain ⟨rfl, rfl⟩ := Prod.mk.inj hPair
  have hAbove : ∀ e ∈ ready.entries, e.conversationId = event.conversationId → e.seq < next := by
    intro e he hConv
    obtain ⟨bound, hBound, hBelow⟩ := hEnsured.keyed.claimed e he
    rw [hConv, hNextSeq] at hBound
    cases hBound
    exact hBelow
  refine hEnsured.append rfl hAbove (hReadyEntries ▸ hNew) ?_ rfl rfl ?_ (fun r => mem_syncEntryRefs _ _ _ _ r)
  · intro a ha
    obtain ha | rfl := mem_append.mp ha |>.imp_right mem_singleton.mp
    · by_cases hConv : a.conversationId = event.conversationId
      · exact ⟨next + 1, if_pos hConv, Nat.lt_succ_of_lt (hAbove a ha hConv)⟩
      · obtain ⟨bound, hBound, hBelow⟩ := hEnsured.keyed.claimed a ha
        exact ⟨bound, (if_neg hConv).trans hBound, hBelow⟩
    · exact ⟨next + 1, if_pos rfl, Nat.lt_succ_self _⟩
  · simp only [Entry.startsTurn, Bool.and_eq_true, beq_iff_eq]
    rfl

variable {existing : Entry}

theorem Sound.takeOut (h : Sound db) (hMem : existing ∈ db.entries)
    (hTurns : existing.startsTurn = true →
      ∀ e ∈ db.entries, e.conversationId = existing.conversationId → e.seq ≤ existing.seq) :
    Sound (db.takeOut existing) := by
  have hKept : ∀ e, e ∈ (db.takeOut existing).entries ↔ e ∈ db.entries ∧ e.id ≠ existing.id := by
    intro e
    simp [Db.takeOut]
  refine ⟨⟨?_, ?_, ?_, ?_⟩, ⟨?_, ?_, ?_⟩⟩
  · exact fun e he => h.agrees.visible e ((hKept e).mp he).1
  · exact fun e he => h.agrees.searchText e ((hKept e).mp he).1
  · intro e he
    obtain ⟨hOld, hOther⟩ := (hKept e).mp he
    rw [h.agrees.turnSeq e hOld]
    refine lastVisibleUserSeq_congr fun s => and_congr_left fun hBound => ?_
    rw [Option.all_some, decide_eq_true_eq] at hBound
    constructor
    · rintro ⟨a, ha, hConv, hStart, rfl⟩
      refine ⟨a, (hKept a).mpr ⟨ha, fun hEq => ?_⟩, hConv, hStart, rfl⟩
      obtain rfl := h.keyed.ids a ha existing hMem hEq
      have hAt := hTurns hStart e hOld hConv.symm
      exact hOther (congrArg Entry.id (h.keyed.places e hOld a hMem hConv.symm (Nat.le_antisymm hAt hBound)))
    · rintro ⟨a, ha, hConv, hStart, rfl⟩
      exact ⟨a, ((hKept a).mp ha).1, hConv, hStart, rfl⟩
  · intro e he kind key
    obtain ⟨hOld, hOther⟩ := (hKept e).mp he
    rw [← h.agrees.refs e hOld]
    simp only [Db.takeOut, Db.dropRefs, mem_filter, decide_eq_true_eq, and_iff_left_iff_imp]
    rintro - ⟨hConv, hAt⟩
    exact hOther (congrArg Entry.id (h.keyed.places e hOld existing hMem hConv hAt))
  · exact fun e he e' he' => h.keyed.ids e ((hKept e).mp he).1 e' ((hKept e').mp he').1
  · exact fun e he e' he' => h.keyed.places e ((hKept e).mp he).1 e' ((hKept e').mp he').1
  · exact fun e he => h.keyed.claimed e ((hKept e).mp he).1

variable {f : Entry → Entry}

theorem Sound.rewrite (h : Sound db) (hMem : existing ∈ db.entries)
    (hOther : ∀ e, e.id ≠ existing.id → (f e).visible = e.visible ∧ (f e).searchText = e.searchText ∧
      (f e).type = e.type ∧ (f e).payload = e.payload)
    (hId : ∀ e, (f e).id = e.id) (hConv : ∀ e, (f e).conversationId = e.conversationId)
    (hSeq : ∀ e, (f e).seq = e.seq)
    (hVis : (f existing).visible = computeChatVisibility (f existing).type (f existing).payload)
    (hSearch : (f existing).searchText = computeSearchText (f existing).type (f existing).payload) {db' : Db}
    (hEnts : db'.entries = db.entries.map f)
    (hTurns : ∀ e ∈ db.entries, (f e).turnSeq = db'.lastVisibleUserSeq e.conversationId (some e.seq))
    (hNext : ∀ c next, db.nextSeq c = some next → db'.nextSeq c = some next)
    (hRefs : ∀ e ∈ db.entries, ∀ kind key, ⟨e.conversationId, e.seq, kind, key⟩ ∈ db'.refs ↔
      (kind, key) ∈ refTargets (f e).type (f e).payload) : Sound db' := by
  have hSelf : ∀ e ∈ db.entries, e.id = existing.id → e = existing :=
    fun e he hEq => h.keyed.ids e he existing hMem hEq
  refine ⟨⟨?_, ?_, ?_, ?_⟩, h.keyed.map hId hConv hSeq hEnts hNext⟩ <;> intro e' he' <;>
    rw [hEnts] at he' <;> obtain ⟨e, he, rfl⟩ := mem_map.mp he'
  · by_cases hAt : e.id = existing.id
    · rw [hSelf e he hAt]
      exact hVis
    · obtain ⟨hV, -, hType, hPay⟩ := hOther e hAt
      rw [hV, hType, hPay]
      exact h.agrees.visible e he
  · by_cases hAt : e.id = existing.id
    · rw [hSelf e he hAt]
      exact hSearch
    · obtain ⟨-, hText, hType, hPay⟩ := hOther e hAt
      rw [hText, hType, hPay]
      exact h.agrees.searchText e he
  · rw [hConv, hSeq]
    exact hTurns e he
  · rw [hConv, hSeq]
    exact hRefs e he

theorem Sound.turns_of_starts (h : Sound db)
    (hConv : ∀ e, (f e).conversationId = e.conversationId) (hSeq : ∀ e, (f e).seq = e.seq) {db' : Db}
    (hEnts : db'.entries = db.entries.map f) (hStarts : ∀ e ∈ db.entries, (f e).startsTurn = e.startsTurn)
    (hTurn : ∀ e ∈ db.entries, (f e).turnSeq = e.turnSeq) :
    ∀ e ∈ db.entries, (f e).turnSeq = db'.lastVisibleUserSeq e.conversationId (some e.seq) := by
  intro e he
  rw [hTurn e he, h.agrees.turnSeq e he]
  refine lastVisibleUserSeq_congr fun s => ?_
  rw [starts_map hConv hSeq hEnts (fun a ha _ _ => hStarts a ha)]

theorem rewrites_of_id (h : e.id = event.eventId) :
    (event.rewrites e).type = event.type ∧ (event.rewrites e).payload = event.payload ∧
      (event.rewrites e).visible = computeChatVisibility event.type event.payload ∧
      (event.rewrites e).searchText = computeSearchText event.type event.payload := by
  unfold Event.rewrites
  rw [if_pos h]
  exact ⟨rfl, rfl, rfl, rfl⟩

theorem rewrites_of_ne (h : e.id ≠ event.eventId) : event.rewrites e = e := if_neg h

section

variable (e : Entry)

@[simp] theorem rewrites_id : (event.rewrites e).id = e.id := by unfold Event.rewrites; split <;> rfl
@[simp] theorem rewrites_seq : (event.rewrites e).seq = e.seq := by unfold Event.rewrites; split <;> rfl
@[simp] theorem rewrites_conversationId : (event.rewrites e).conversationId = e.conversationId := by
  unfold Event.rewrites; split <;> rfl
@[simp] theorem rewrites_turnSeq : (event.rewrites e).turnSeq = e.turnSeq := by
  unfold Event.rewrites; split <;> rfl

end

theorem retake_eq (conversationId : String) (fromSeq : Nat) (e : Entry) :
    ∃ turn, db.retake conversationId fromSeq e = { e with turnSeq := turn } := by
  unfold Db.retake
  split
  · exact ⟨_, rfl⟩
  · exact ⟨e.turnSeq, rfl⟩

theorem Sound.turns_of_reassign (h : Sound db) (hMem : existing ∈ db.entries)
    (hId : existing.id = event.eventId) {c : String} (hConv : existing.conversationId = c) {updated db' : Db}
    (hUpdated : updated.entries = db.entries.map event.rewrites)
    (hEnts : db'.entries = (updated.reassignTurns c existing.seq).entries) (he : e ∈ db.entries) :
    (updated.retake c existing.seq (event.rewrites e)).turnSeq =
      db'.lastVisibleUserSeq e.conversationId (some e.seq) := by
  have hEq : ∀ c s, db'.Starts c s ↔ updated.Starts c s := by
    intro c s
    refine starts_map ?_ ?_ hEnts ?_ <;> intro a <;> obtain ⟨turn, hRetake⟩ := retake_eq _ _ a <;> rw [hRetake]
    intros
    rfl
  unfold Db.retake
  split
  · rw [rewrites_conversationId, rewrites_seq]
    exact lastVisibleUserSeq_congr fun s => by rw [hEq]
  · next hBef =>
    rw [rewrites_conversationId, rewrites_seq] at hBef
    rw [rewrites_turnSeq, h.agrees.turnSeq e he]
    refine lastVisibleUserSeq_congr fun s => and_congr_left fun hBound => ?_
    rw [Option.all_some, decide_eq_true_eq] at hBound
    rw [hEq]
    refine (starts_map rewrites_conversationId rewrites_seq hUpdated fun a ha hIn hAt => ?_).symm
    rw [rewrites_of_ne]
    intro hSelf
    obtain rfl := h.keyed.ids a ha existing hMem (hSelf.trans hId.symm)
    exact hBef ⟨hIn.symm.trans hConv, hAt ▸ hBound⟩

theorem Sound.refs_of_sync (h : Sound db) (hMem : existing ∈ db.entries)
    (hId : existing.id = event.eventId) (hConv : existing.conversationId = event.conversationId) {turned : Db}
    (hRefs : turned.refs = db.refs) (he : e ∈ db.entries) (kind key : String) :
    ⟨e.conversationId, e.seq, kind, key⟩ ∈
        (turned.syncEntryRefs event.conversationId existing.seq event.type event.payload).refs ↔
      (kind, key) ∈ refTargets (event.rewrites e).type (event.rewrites e).payload := by
  rw [mem_syncEntryRefs, hRefs]
  by_cases hAt : e.id = event.eventId
  · obtain ⟨hType, hPay, -, -⟩ := rewrites_of_id hAt
    obtain rfl := h.keyed.ids e he existing hMem (hAt.trans hId.symm)
    rw [if_pos ⟨hConv, rfl⟩, hType, hPay]
  · rw [if_neg, h.agrees.refs e he, rewrites_of_ne hAt]
    rintro ⟨hIn, hSeq⟩
    exact hAt ((congrArg Entry.id (h.keyed.places e he existing hMem (hIn.trans hConv.symm) hSeq)).trans hId)

theorem Sound.upsertExisting (h : Sound db) (hMem : existing ∈ db.entries)
    (hId : existing.id = event.eventId) (hConv : existing.conversationId = event.conversationId)
    (hKeeps : existing.startsTurn = (event.type == "user_message" && computeChatVisibility event.type event.payload) ∨
      (event.type = "user_message" ∧ existing.visible ≠ computeChatVisibility event.type event.payload)) :
    Sound (db.upsertExisting existing event) := by
  obtain ⟨hType, hPay, hVis, hText⟩ := rewrites_of_id hId
  have hColumns : (event.rewrites existing).visible =
      computeChatVisibility (event.rewrites existing).type (event.rewrites existing).payload ∧
      (event.rewrites existing).searchText =
        computeSearchText (event.rewrites existing).type (event.rewrites existing).payload := by
    rw [hType, hPay]
    exact ⟨hVis, hText⟩
  unfold Db.upsertExisting
  obtain ⟨touched, hTouched, hEnts, hRefs, hNext⟩ : ∃ touched : Db,
      (if event.ensureConversation then db.ensureConversation event.conversationId else db) = touched ∧
        touched.entries = db.entries ∧ touched.refs = db.refs ∧
        ∀ c next, db.nextSeq c = some next → touched.nextSeq c = some next := by
    split
    · refine ⟨_, rfl, rfl, rfl, fun c next hNext => ?_⟩
      unfold Db.ensureConversation
      dsimp only
      split <;> simp [hNext]
    · exact ⟨_, rfl, rfl, rfl, fun _ _ hNext => hNext⟩
  rw [hTouched]
  have hUpdated : (touched.updateEntry event).entries = db.entries.map event.rewrites :=
    congrArg (List.map event.rewrites) hEnts
  dsimp only
  split
  · have hEnts' : ((touched.updateEntry event).reassignTurns event.conversationId existing.seq).entries =
        db.entries.map (fun e => (touched.updateEntry event).retake event.conversationId existing.seq
          (event.rewrites e)) := by
      unfold Db.reassignTurns
      rw [hUpdated, map_map]
      rfl
    refine h.rewrite hMem ?_ ?_ ?_ ?_ ?_ ?_ hEnts'
      (fun e he => h.turns_of_reassign hMem hId hConv hUpdated rfl he) hNext ?_
    · intro e hOther
      obtain ⟨turn, hRetake⟩ := retake_eq event.conversationId existing.seq (event.rewrites e)
      rw [hRetake, rewrites_of_ne (hId ▸ hOther)]
      exact ⟨rfl, rfl, rfl, rfl⟩
    · intro e
      obtain ⟨turn, hRetake⟩ := retake_eq event.conversationId existing.seq (event.rewrites e)
      rw [hRetake]
      exact rewrites_id e
    · intro e
      obtain ⟨turn, hRetake⟩ := retake_eq event.conversationId existing.seq (event.rewrites e)
      rw [hRetake]
      exact rewrites_conversationId e
    · intro e
      obtain ⟨turn, hRetake⟩ := retake_eq event.conversationId existing.seq (event.rewrites e)
      rw [hRetake]
      exact rewrites_seq e
    · obtain ⟨turn, hRetake⟩ := retake_eq event.conversationId existing.seq (event.rewrites existing)
      rw [hRetake]
      exact hColumns.1
    · obtain ⟨turn, hRetake⟩ := retake_eq event.conversationId existing.seq (event.rewrites existing)
      rw [hRetake]
      exact hColumns.2
    · intro e he kind key
      obtain ⟨turn, hRetake⟩ := retake_eq event.conversationId existing.seq (event.rewrites e)
      rw [hRetake]
      exact h.refs_of_sync hMem hId hConv hRefs he kind key
  · next hKept =>
    have hStarts : ∀ e ∈ db.entries, (event.rewrites e).startsTurn = e.startsTurn := by
      intro e he
      by_cases hAt : e.id = event.eventId
      · obtain rfl := h.keyed.ids e he existing hMem (hAt.trans hId.symm)
        unfold Entry.startsTurn
        rw [hType, hVis]
        exact (hKeeps.resolve_right hKept).symm
      · rw [rewrites_of_ne hAt]
    exact h.rewrite hMem (fun e hOther => by rw [rewrites_of_ne (hId ▸ hOther)]; exact ⟨rfl, rfl, rfl, rfl⟩)
      rewrites_id rewrites_conversationId rewrites_seq hColumns.1 hColumns.2 hUpdated
      (h.turns_of_starts rewrites_conversationId rewrites_seq hUpdated hStarts (fun e _ => rewrites_turnSeq e)) hNext
      (fun e he kind key => h.refs_of_sync hMem hId hConv hRefs he kind key)

variable {eventId : String}

theorem entryOf_mem (h : db.entryOf eventId = some existing) :
    existing ∈ db.entries ∧ existing.id = eventId :=
  ⟨mem_of_find?_eq_some h, by simpa using find?_some h⟩

theorem Sound.upsertEvent (h : Sound db) (hKeeps : keepsTurns db event = true) {db' : Db}
    (hUpsert : db.upsertEvent event = some db') : Sound db' := by
  unfold Db.upsertEvent at hUpsert
  unfold keepsTurns at hKeeps
  cases hEnt : db.entryOf event.eventId with
  | none =>
    rw [hEnt] at hUpsert
    refine h.insertEvent (fun e he hEq => ?_) hUpsert
    have := find?_eq_none.mp hEnt e he
    simp [hEq] at this
  | some existing =>
    rw [hEnt] at hUpsert hKeeps
    obtain ⟨hMem, hId⟩ := entryOf_mem hEnt
    dsimp only at hUpsert hKeeps
    split at hUpsert
    · next hConv =>
      rw [if_pos hConv] at hKeeps
      cases hUpsert
      refine h.upsertExisting hMem hId hConv ?_
      simpa using hKeeps
    · next hConv =>
      rw [if_neg hConv] at hKeeps
      refine (h.takeOut hMem fun hStarts e he hIn => ?_).insertEvent (fun e he => ?_) hUpsert
      · simp only [hStarts, Bool.not_true, Bool.false_or, all_eq_true] at hKeeps
        simpa [hIn] using hKeeps e he
      · have : e ∈ db.entries ∧ e.id ≠ existing.id := by simpa [Db.takeOut] using he
        exact hId ▸ this.2

theorem merges_self (existing : Entry) (patch : List (String × Option Json)) (now : Int) :
    existing.merges patch now existing = { existing with
      payload := some (mergePayload existing.payload patch)
      visible := computeChatVisibility existing.type (some (mergePayload existing.payload patch))
      searchText := computeSearchText existing.type (some (mergePayload existing.payload patch))
      updatedAt := now } := if_pos ⟨rfl, rfl⟩

theorem merges_of_ne (h : e.id ≠ existing.id) (patch : List (String × Option Json)) (now : Int) :
    existing.merges patch now e = e := if_neg fun hBoth => h hBoth.1

section

variable (existing e : Entry)

@[simp] theorem merges_id (patch now) : (existing.merges patch now e).id = e.id := by
  unfold Entry.merges; dsimp only; split <;> rfl
@[simp] theorem merges_seq (patch now) : (existing.merges patch now e).seq = e.seq := by
  unfold Entry.merges; dsimp only; split <;> rfl
@[simp] theorem merges_conversationId (patch now) :
    (existing.merges patch now e).conversationId = e.conversationId := by
  unfold Entry.merges; dsimp only; split <;> rfl
@[simp] theorem merges_turnSeq (patch now) : (existing.merges patch now e).turnSeq = e.turnSeq := by
  unfold Entry.merges; dsimp only; split <;> rfl

end

variable {patch : List (String × Option Json)}

theorem Sound.mergeEntry (h : Sound db) (hMem : existing ∈ db.entries) (hKeeps : keepsPayload existing patch = true) (now : Int) :
    Sound (db.mergeEntry existing patch now) := by
  simp only [keepsPayload, Bool.and_eq_true, Bool.or_eq_true, bne_iff_ne, beq_iff_eq, all_eq_true,
    contains_iff_mem] at hKeeps
  obtain ⟨⟨hShown, hOld⟩, hNew⟩ := hKeeps
  have hSelf := merges_self existing patch now
  have hStarts : ∀ e ∈ db.entries, (existing.merges patch now e).startsTurn = e.startsTurn := by
    intro e he
    by_cases hAt : e.id = existing.id
    · obtain rfl := h.keyed.ids e he existing hMem hAt
      rw [hSelf]
      obtain hOther | hSame := hShown
      · simp [Entry.startsTurn, beq_eq_false_iff_ne.mpr hOther]
      · simp [Entry.startsTurn, hSame]
    · rw [merges_of_ne hAt]
  refine h.rewrite hMem (fun e hOther => ?_) (fun e => merges_id existing e patch now)
    (fun e => merges_conversationId existing e patch now) (fun e => merges_seq existing e patch now) ?_ ?_ rfl
    (h.turns_of_starts (fun e => merges_conversationId existing e patch now)
      (fun e => merges_seq existing e patch now) rfl hStarts (fun e _ => merges_turnSeq existing e patch now))
    (fun _ _ hNext => hNext) (fun e he kind key => ?_)
  · rw [merges_of_ne hOther]
    exact ⟨rfl, rfl, rfl, rfl⟩
  · rw [hSelf]
  · rw [hSelf]
  · refine (h.agrees.refs e he kind key).trans ?_
    by_cases hAt : e.id = existing.id
    · obtain rfl := h.keyed.ids e he existing hMem hAt
      rw [hSelf]
      exact ⟨hOld _, hNew _⟩
    · rw [merges_of_ne hAt]

theorem Sound.mergeEventPayload (h : Sound db) {conversationId : String} {now : Int}
    (hKeeps : ∀ existing, db.entries.find? (fun e => e.id = trim eventId ∧ e.conversationId = trim conversationId) =
      some existing → keepsPayload existing patch = true) {db' : Db}
    (hMerge : db.mergeEventPayload conversationId eventId patch now = some db') : Sound db' := by
  unfold Db.mergeEventPayload at hMerge
  split at hMerge
  · cases hMerge
  · split at hMerge
    · cases hMerge
      exact h
    · split at hMerge
      · next existing hFound =>
        cases hMerge
        exact h.mergeEntry (mem_of_find?_eq_some hFound) (hKeeps existing hFound) now
      · cases hMerge
        exact h

end Events

section Reactions

variable {patch : List (String × Option Json)} {name : String}

theorem find_kept {members : List (String × Json)}
    (h : name ∉ patch.map Prod.fst) :
    (members.filter (fun m => !(patch.map Prod.fst).contains m.1) ++
      patch.filterMap (fun m => m.2.map (fun value => (m.1, value)))).reverse.find? (fun m => m.1 == name) =
      members.reverse.find? (fun m => m.1 == name) := by
  have hPatch : (patch.filterMap (fun m => m.2.map (fun value => (m.1, value)))).reverse.find?
      (fun m => m.1 == name) = none := by
    rw [find?_eq_none]
    intro m hMem hName
    obtain ⟨source, hSrc, hValue⟩ := mem_filterMap.mp (mem_reverse.mp hMem)
    obtain ⟨value, -, rfl⟩ := Option.map_eq_some_iff.mp hValue
    exact h (beq_iff_eq.mp hName ▸ mem_map_of_mem hSrc)
  rw [reverse_append, find?_append, hPatch, Option.none_or, ← filter_reverse, find?_filter]
  refine congrArg (fun p => List.find? p members.reverse) (funext fun m => ?_)
  by_cases hName : m.1 = name
  · simp [hName, h]
  · simp [hName]

theorem member_mergePayload {existing : Option Json}
    (h : name ∉ patch.map Prod.fst) :
    (mergePayload existing patch).member name = existing.bind (Json.member name) := by
  unfold mergePayload Json.member
  dsimp only
  rw [find_kept h]
  rcases existing with _ | (_ | _ | _ | _ | _ | members) <;> rfl

variable {payload payload' : Option Json}

theorem refs_of_metadata
    (h : payload.bind (Json.member "metadata") = payload'.bind (Json.member "metadata")) :
    readReplyRefs payload = readReplyRefs payload' := by
  simp only [readReplyRefs, memberPath, foldl_cons, foldl_nil, h]

theorem hidden_of_metadata
    (h : payload.bind (Json.member "metadata") = payload'.bind (Json.member "metadata")) :
    isUiHiddenChatMessagePayload payload = isUiHiddenChatMessagePayload payload' := by
  simp only [isUiHiddenChatMessagePayload, memberPath, foldl_cons, foldl_nil, h]

theorem keepsPayload_reaction {existing : Entry}
    (hShown : existing.visible = computeChatVisibility existing.type existing.payload) (reaction : Json) :
    keepsPayload existing [("reaction", some reaction)] = true := by
  have hMetadata : (some (mergePayload existing.payload [("reaction", some reaction)])).bind (Json.member "metadata") =
      existing.payload.bind (Json.member "metadata") := member_mergePayload (by simp)
  have hVis := hidden_of_metadata hMetadata
  have hRefs := refs_of_metadata hMetadata
  unfold keepsPayload refTargets
  dsimp only
  rw [hRefs, hShown]
  unfold computeChatVisibility
  rw [hVis]
  simp

end Reactions

theorem Sound.step {db : Db} (h : Sound db) (input : Input) (hKeeps : keepsColumns db input = true) :
    Sound (db.step input) := by
  unfold Db.step
  cases hCall : db.call input with
  | none => exact h
  | some db' =>
    rw [Option.getD_some]
    cases input with
    | append args =>
      obtain ⟨event, hEv, hUpsert⟩ := Option.bind_eq_some_iff.mp hCall
      unfold keepsColumns at hKeeps
      dsimp only at hKeeps
      rw [hEv, Option.all_some] at hKeeps
      exact h.upsertEvent hKeeps hUpsert
    | upsert event => exact h.upsertEvent hKeeps hCall
    | merge conversationId eventId patch now =>
      refine h.mergeEventPayload (fun existing hFound => ?_) hCall
      unfold keepsColumns at hKeeps
      dsimp only at hKeeps
      rwa [hFound, Option.all_some] at hKeeps
    | react conversationId sequence reaction now =>
      change db.reactToUserMessage conversationId sequence reaction now = some db' at hCall
      unfold Db.reactToUserMessage at hCall
      split at hCall
      · cases hCall
      · split at hCall
        · exact h.mergeEventPayload (fun existing hFound =>
            keepsPayload_reaction (h.agrees.visible existing (mem_of_find?_eq_some hFound)) reaction) hCall
        · cases hCall
          exact h

theorem sound_empty : Sound {} :=
  ⟨⟨forall_mem_nil _, forall_mem_nil _, forall_mem_nil _, forall_mem_nil _⟩,
    ⟨forall_mem_nil _, forall_mem_nil _, forall_mem_nil _⟩⟩

/-- Over every run whose writes keep the columns of the other entries, all columns agree with the payloads. -/
theorem columnsAgree_of_run {inputs : List Input}
    (h : Along Db.step (fun db input => keepsColumns db input = true) {} inputs) :
    Agrees (run Db.step {} inputs) :=
  (run_invariant (fun _ input hSound hKeeps => hSound.step input hKeeps) sound_empty h).agrees

def message (eventId type : String) : Input :=
  .append ⟨"local_1", type, none, 1, some eventId, ""⟩

def toldRun : List Input :=
  [message "m1" "user_message", message "t1" "tool_request", message "m2" "assistant_message", message "m2" "assistant_message",
    .react "local_1" 1 (.string "+1") 2]

theorem columnsAgree_of_told : Agrees (run Db.step {} toldRun) := columnsAgree_of_run (by decide)

def retypedRun : List Input :=
  [message "m1" "user_message", message "t1" "tool_request", message "m1" "assistant_message"]

theorem retyped_not_agrees : ¬ Agrees (run Db.step {} retypedRun) := by
  intro h
  have hTurns := h.turnSeq
  revert hTurns
  decide

end Stella.ChatLog
