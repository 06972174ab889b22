import Mathlib.Data.List.Sort
import Mathlib.Order.MinMax
import Stella.Library.Transition

/-! # What a workspace is told of deletions

The drive keeps a tombstone for each deleted path, for a time.
-/

namespace Stella.Drive.Deletions

open Transition List

def SYNC_MAX_DELETIONS : Nat := 100
def TOMBSTONE_TTL_MS : Int := 30 * 24 * 60 * 60000

structure Tombstone (Path : Type) where
  path : Path
  deletedAt : Int
  deriving DecidableEq

structure State (Path : Type) where
  /-- the paths that have a row -/
  rows : List Path := []
  tombstones : List (Tombstone Path) := []
  clock : Int := 0
  /-- the `since` of the workspace's next call -/
  since : Int
  /-- the paths some call has listed as deleted -/
  told : List Path := []
  /-- every deletion so far -/
  deletions : List (Tombstone Path) := []

variable {Path : Type} [DecidableEq Path]

def recordTombstone (tombstones : List (Tombstone Path)) (path : Path) (deletedAt : Int) : List (Tombstone Path) :=
  if tombstones.any (·.path = path) then tombstones.map fun t => if t.path = path then { t with deletedAt } else t
  else tombstones ++ [⟨path, deletedAt⟩]

structure Window (Path : Type) where
  deleted : List (Tombstone Path)
  cursor : Option Int

/-- The table comes in the order of `scan`, so ties are in any order. -/
def deletionsWindow (rows : List Path) (scan : List (Tombstone Path)) (since : Int) (newestFirst : Bool) : Window Path :=
  let selected := scan.filter fun t => max 0 since ≤ t.deletedAt
  let ordered :=
    if newestFirst then selected.insertionSort fun a b => b.deletedAt ≤ a.deletedAt
    else selected.insertionSort fun a b => a.deletedAt ≤ b.deletedAt
  let limited := ordered.take (SYNC_MAX_DELETIONS + if newestFirst then 0 else 1)
  let window := limited.take SYNC_MAX_DELETIONS
  let deleted := window.filter fun t => t.path ∉ rows
  if newestFirst = true ∨ limited.length ≤ SYNC_MAX_DELETIONS then ⟨deleted, none⟩
  else
    match window.getLast? with
    | none => ⟨deleted, none⟩
    | some last => ⟨deleted, some (if since < last.deletedAt then last.deletedAt else last.deletedAt + 1)⟩

def firstOfPath (seen : List Path) : List (Tombstone Path) → List (Tombstone Path)
  | [] => []
  | t :: rest => if t.path ∈ seen then firstOfPath seen rest else t :: firstOfPath (t.path :: seen) rest

structure DriveSyncManifest (Path : Type) where
  deleted : List (Tombstone Path)
  syncedAt : Int
  deletedComplete : Bool

def cursorOf (since now : Int) : Int := if 0 < since then min since now else 0

/-- The part of `turnSync` that is about deletions; each of its two scans has its own order. -/
def turnSync (rows : List Path) (oldest newest : List (Tombstone Path)) (since now : Int) : DriveSyncManifest Path :=
  let horizon := now - TOMBSTONE_TTL_MS
  let cursor := cursorOf since now
  let ascending := deletionsWindow rows oldest (max cursor horizon) false
  let recent := deletionsWindow rows newest horizon true
  { deleted := firstOfPath [] (ascending.deleted ++ recent.deleted)
    syncedAt := ascending.cursor.getD now
    deletedComplete := ascending.cursor = none ∧ horizon ≤ cursor }

inductive Event (Path : Type)
  | put (path : Path) (now : Int)
  | delete (path : Path) (now : Int)
  | pruneTombstones (now : Int)
  | sync (now : Int) (oldest newest : List (Tombstone Path))

def Event.now : Event Path → Int
  | put _ now | delete _ now | pruneTombstones now | sync now _ _ => now

def step (s : State Path) : Event Path → State Path
  | .put path now => { s with rows := if path ∈ s.rows then s.rows else s.rows ++ [path], clock := now }
  | .delete path now =>
    if path ∈ s.rows then
      { s with
        rows := s.rows.filter (· ≠ path)
        tombstones := recordTombstone s.tombstones path now
        clock := now
        deletions := s.deletions ++ [⟨path, now⟩] }
    else { s with clock := now }
  | .pruneTombstones now =>
    { s with tombstones := s.tombstones.filter fun t => ¬ t.deletedAt < now - TOMBSTONE_TTL_MS, clock := now }
  | .sync now oldest newest =>
    let manifest := turnSync s.rows oldest newest s.since now
    { s with clock := now, since := manifest.syncedAt, told := s.told ++ manifest.deleted.map Tombstone.path }

def Admitted (s : State Path) (e : Event Path) : Prop :=
  s.clock ≤ e.now ∧
    match e with
    | .sync _ oldest newest => oldest.Perm s.tombstones ∧ newest.Perm s.tombstones
    | _ => True

instance (s : State Path) (e : Event Path) : Decidable (Admitted s e) := by
  unfold Admitted
  cases e <;> infer_instance

def InTime (s : State Path) (now : Int) : Prop :=
  now - TOMBSTONE_TTL_MS ≤ cursorOf s.since now ∧
    (s.tombstones.filter fun t => t.deletedAt = cursorOf s.since now).length ≤ SYNC_MAX_DELETIONS

instance (s : State Path) (now : Int) : Decidable (InTime s now) := inferInstanceAs (Decidable (_ ∧ _))

def Kept (s : State Path) (e : Event Path) : Prop :=
  Admitted s e ∧
    match e with
    | .sync now _ _ => InTime s now
    | _ => True

instance (s : State Path) (e : Event Path) : Decidable (Kept s e) := by
  unfold Kept
  cases e <;> infer_instance

/-- What a call's answer is to do: `first` is the cursor of the first call. -/
structure Answered (first : Int) (s : State Path) (now : Int) (manifest : DriveSyncManifest Path) : Prop where
  told : manifest.deletedComplete = true → ∀ d ∈ s.deletions, first ≤ d.deletedAt → d.path ∉ s.rows →
    d.path ∈ s.told ∨ d.path ∈ manifest.deleted.map Tombstone.path
  gone : ∀ t ∈ manifest.deleted, t.path ∉ s.rows
  advances : manifest.deletedComplete = true ∨ cursorOf s.since now < manifest.syncedAt

/-! ## One window -/

variable {t : Tombstone Path}

variable {seen : List Path} {entries : List (Tombstone Path)}

theorem mem_firstOfPath (h : t ∈ firstOfPath seen entries) : t ∈ entries := by
  induction entries generalizing seen with
  | nil => cases h
  | cons first rest ih =>
    unfold firstOfPath at h
    split at h
    · exact mem_cons_of_mem _ (ih h)
    · rcases mem_cons.mp h with rfl | hRest
      · exact mem_cons_self
      · exact mem_cons_of_mem _ (ih hRest)

theorem path_mem_firstOfPath (h : t ∈ entries) (hNew : t.path ∉ seen) :
    t.path ∈ (firstOfPath seen entries).map Tombstone.path := by
  induction entries generalizing seen with
  | nil => cases h
  | cons first rest ih =>
    unfold firstOfPath
    by_cases hEq : t.path = first.path
    · rw [if_neg (by rwa [← hEq]), map_cons, hEq]
      exact mem_cons_self
    · have hRest : t ∈ rest := (mem_cons.mp h).resolve_left (by rintro rfl; exact hEq rfl)
      split
      · exact ih hRest hNew
      · rw [map_cons]
        refine mem_cons_of_mem _ (ih hRest ?_)
        simp [hEq, hNew]

variable {scan : List (Tombstone Path)} {since : Int}

theorem mem_deleted_gone {rows : List Path} {newestFirst : Bool}
    (h : t ∈ (deletionsWindow rows scan since newestFirst).deleted) : t.path ∉ rows := by
  unfold deletionsWindow at h
  dsimp only at h
  generalize (List.take (SYNC_MAX_DELETIONS + if newestFirst = true then 0 else 1) _ : List (Tombstone Path)) = limited at h
  split at h
  · simpa using (mem_filter.mp h).2
  · split at h
    · simpa using (mem_filter.mp h).2
    · simpa using (mem_filter.mp h).2

def oldestFirst (scan : List (Tombstone Path)) (since : Int) : List (Tombstone Path) :=
  (scan.filter fun t => max 0 since ≤ t.deletedAt).insertionSort fun a b => a.deletedAt ≤ b.deletedAt

omit [DecidableEq Path] in
theorem mem_oldestFirst (hSince : 0 ≤ since) :
    t ∈ oldestFirst scan since ↔ t ∈ scan ∧ since ≤ t.deletedAt := by
  unfold oldestFirst
  rw [mem_insertionSort, mem_filter, max_eq_right hSince, decide_eq_true_eq]

omit [DecidableEq Path] in
theorem oldestFirst_sorted (scan : List (Tombstone Path)) (since : Int) :
    (oldestFirst scan since).Pairwise fun a b => a.deletedAt ≤ b.deletedAt := by
  have : Std.Total (fun a b : Tombstone Path => a.deletedAt ≤ b.deletedAt) := ⟨fun a b => le_total a.deletedAt b.deletedAt⟩
  have : IsTrans (Tombstone Path) (fun a b => a.deletedAt ≤ b.deletedAt) := ⟨fun _ _ _ hAB hBC => le_trans hAB hBC⟩
  exact pairwise_insertionSort _ _

omit [DecidableEq Path] in
theorem length_atTime (hSince : 0 ≤ since) :
    ((oldestFirst scan since).filter fun t => t.deletedAt = since).length = (scan.filter fun t => t.deletedAt = since).length := by
  have hPerm := (perm_insertionSort (fun a b : Tombstone Path => a.deletedAt ≤ b.deletedAt)
    (scan.filter fun t => max 0 since ≤ t.deletedAt)).filter fun t => t.deletedAt = since
  unfold oldestFirst
  rw [hPerm.length_eq, filter_filter]
  congr 1
  apply filter_congr
  intro t _
  by_cases hTime : t.deletedAt = since
  · simp [hTime, hSince]
  · simp [hTime]

theorem deletionsWindow_ascending (rows : List Path) (scan : List (Tombstone Path)) (since : Int) :
    ((oldestFirst scan since).length ≤ SYNC_MAX_DELETIONS ∧
      deletionsWindow rows scan since false = ⟨(oldestFirst scan since).filter fun t => t.path ∉ rows, none⟩) ∨
    (∃ lead last rest, oldestFirst scan since = (lead ++ [last]) ++ rest ∧ (lead ++ [last]).length = SYNC_MAX_DELETIONS ∧ rest ≠ [] ∧
      deletionsWindow rows scan since false =
        ⟨(lead ++ [last]).filter fun t => t.path ∉ rows, some (if since < last.deletedAt then last.deletedAt else last.deletedAt + 1)⟩) := by
  have hUnfold : deletionsWindow rows scan since false =
      if ((oldestFirst scan since).take (SYNC_MAX_DELETIONS + 1)).length ≤ SYNC_MAX_DELETIONS then
        ⟨((oldestFirst scan since).take SYNC_MAX_DELETIONS).filter fun t => t.path ∉ rows, none⟩
      else
        match ((oldestFirst scan since).take SYNC_MAX_DELETIONS).getLast? with
        | none => ⟨((oldestFirst scan since).take SYNC_MAX_DELETIONS).filter fun t => t.path ∉ rows, none⟩
        | some last => ⟨((oldestFirst scan since).take SYNC_MAX_DELETIONS).filter fun t => t.path ∉ rows,
            some (if since < last.deletedAt then last.deletedAt else last.deletedAt + 1)⟩ := by
    unfold deletionsWindow oldestFirst
    simp [take_take]
  by_cases hFew : (oldestFirst scan since).length ≤ SYNC_MAX_DELETIONS
  · left
    refine ⟨hFew, ?_⟩
    rw [hUnfold, if_pos (by rw [length_take]; omega), take_of_length_le hFew]
  · right
    have hLen : ((oldestFirst scan since).take SYNC_MAX_DELETIONS).length = SYNC_MAX_DELETIONS := by
      rw [length_take]
      omega
    obtain ⟨lead, last, hLead⟩ := (eq_nil_or_concat' ((oldestFirst scan since).take SYNC_MAX_DELETIONS)).resolve_left (by
      intro hNone
      rw [hNone] at hLen
      cases hLen)
    refine ⟨lead, last, (oldestFirst scan since).drop SYNC_MAX_DELETIONS, ?_, ?_, ?_, ?_⟩
    · rw [← hLead, take_append_drop]
    · rw [← hLead, hLen]
    · intro hNone
      exact hFew (drop_eq_nil_iff.mp hNone)
    · rw [hUnfold, if_neg (by rw [length_take]; omega), hLead]
      simp

/-- What a call with no more tombstones of the cursor's time than a window holds: each tombstone from the cursor on is
listed, or left for the next cursor, which is a later one. -/
structure Windowed (rows : List Path) (scan : List (Tombstone Path)) (since : Int) (window : Window Path) : Prop where
  listed : ∀ t ∈ scan, since ≤ t.deletedAt → t.path ∉ rows → t ∈ window.deleted ∨ ∃ cursor ∈ window.cursor, cursor ≤ t.deletedAt
  advances : ∀ cursor ∈ window.cursor, since < cursor
  reached : ∀ cursor ∈ window.cursor, ∃ t ∈ scan, cursor ≤ t.deletedAt

omit [DecidableEq Path] in
theorem lt_of_rest {lead rest : List (Tombstone Path)} {last : Tombstone Path} (hSince : 0 ≤ since)
    (hWhole : oldestFirst scan since = (lead ++ [last]) ++ rest) (hLen : (lead ++ [last]).length = SYNC_MAX_DELETIONS)
    (hFew : (scan.filter fun t => t.deletedAt = since).length ≤ SYNC_MAX_DELETIONS) (hLast : ¬ since < last.deletedAt) :
    ∀ t ∈ rest, last.deletedAt + 1 ≤ t.deletedAt := by
  have hSort := oldestFirst_sorted scan since
  rw [hWhole] at hSort
  obtain ⟨hFront, -, hAcross⟩ := pairwise_append.mp hSort
  have hFrom : ∀ t ∈ (lead ++ [last]) ++ rest, since ≤ t.deletedAt := by
    intro t hT
    rw [← hWhole] at hT
    exact ((mem_oldestFirst hSince).mp hT).2
  have hLastTime : last.deletedAt = since := by
    have := hFrom last (by simp)
    omega
  have hEq : ∀ t ∈ lead ++ [last], t.deletedAt = since := by
    intro t hT
    have hLower := hFrom t (mem_append_left _ hT)
    rcases mem_append.mp hT with hLead | hEnd
    · have := (pairwise_append.mp hFront).2.2 t hLead last (by simp)
      omega
    · rw [mem_singleton.mp hEnd]
      exact hLastTime
  intro t hT
  by_contra hNot
  have hTime : t.deletedAt = since := by
    have := hFrom t (mem_append_right _ hT)
    omega
  rw [← length_atTime hSince, hWhole, filter_append, length_append,
    filter_eq_self.mpr (fun a hA => by simpa using hEq a hA), hLen] at hFew
  have hMore : t ∈ rest.filter fun t => t.deletedAt = since := mem_filter.mpr ⟨hT, by simpa using hTime⟩
  have := length_pos_of_mem hMore
  omega

theorem windowed_ascending (rows : List Path) (scan : List (Tombstone Path)) (hSince : 0 ≤ since)
    (hFew : (scan.filter fun t => t.deletedAt = since).length ≤ SYNC_MAX_DELETIONS) :
    Windowed rows scan since (deletionsWindow rows scan since false) := by
  rcases deletionsWindow_ascending rows scan since with ⟨-, hWin⟩ | ⟨lead, last, rest, hWhole, hLen, hRest, hWin⟩
  · rw [hWin]
    constructor
    · intro t hT hFrom hGone
      left
      exact mem_filter.mpr ⟨(mem_oldestFirst hSince).mpr ⟨hT, hFrom⟩, by simpa using hGone⟩
    · intro cursor hCursor
      cases hCursor
    · intro cursor hCursor
      cases hCursor
  · rw [hWin]
    have hSort := oldestFirst_sorted scan since
    rw [hWhole] at hSort
    have hLater : ∀ t ∈ rest, (if since < last.deletedAt then last.deletedAt else last.deletedAt + 1) ≤ t.deletedAt := by
      intro t hT
      split
      · exact (pairwise_append.mp hSort).2.2 last (by simp) t hT
      · next hLast => exact lt_of_rest hSince hWhole hLen hFew hLast t hT
    have hLastIn : last ∈ oldestFirst scan since := by
      rw [hWhole]
      simp
    have hLower : since ≤ last.deletedAt := ((mem_oldestFirst hSince).mp hLastIn).2
    constructor
    · intro t hT hFrom hGone
      have hIn : t ∈ (lead ++ [last]) ++ rest := hWhole ▸ (mem_oldestFirst hSince).mpr ⟨hT, hFrom⟩
      rcases mem_append.mp hIn with hWindowed | hLeft
      · left
        exact mem_filter.mpr ⟨hWindowed, by simpa using hGone⟩
      · right
        exact ⟨_, rfl, hLater t hLeft⟩
    · intro cursor hCursor
      cases hCursor
      split <;> omega
    · intro cursor hCursor
      cases hCursor
      obtain ⟨t, hT⟩ := exists_mem_of_ne_nil rest hRest
      refine ⟨t, ?_, hLater t hT⟩
      exact ((mem_oldestFirst hSince).mp (hWhole ▸ mem_append_right _ hT)).1

/-! ## A run of the drive and its calls -/

section Run

variable {first : Int} {s : State Path}

/-- A deletion of a path that has no row is told, or its tombstone is still ahead of the cursor, or the cursor is too old. -/
structure Ahead (first : Int) (s : State Path) : Prop where
  clock : 0 ≤ s.clock
  tombstones : ∀ t ∈ s.tombstones, 0 ≤ t.deletedAt ∧ t.deletedAt ≤ s.clock
  deletions : ∀ d ∈ s.deletions, d.deletedAt ≤ s.clock
  since : s.since ≤ max first s.clock
  told : ∀ d ∈ s.deletions, first ≤ d.deletedAt → d.path ∉ s.rows →
    d.path ∈ s.told ∨ (∃ t ∈ s.tombstones, t.path = d.path ∧ s.since ≤ t.deletedAt) ∨ max 0 s.since < s.clock - TOMBSTONE_TTL_MS

theorem mem_recordTombstone_self (tombstones : List (Tombstone Path)) (path : Path) (now : Int) :
    (⟨path, now⟩ : Tombstone Path) ∈ recordTombstone tombstones path now := by
  unfold recordTombstone
  split
  · next hAny =>
    obtain ⟨t, hT, hPath⟩ := any_eq_true.mp hAny
    have hEq : t.path = path := by simpa using hPath
    refine mem_map.mpr ⟨t, hT, ?_⟩
    rw [if_pos hEq, ← hEq]
  · simp

variable {tombstones : List (Tombstone Path)} {path : Path} {now : Int}

theorem mem_recordTombstone_of_ne {t : Tombstone Path} (h : t ∈ tombstones)
    (hOther : t.path ≠ path) : t ∈ recordTombstone tombstones path now := by
  unfold recordTombstone
  split
  · exact mem_map.mpr ⟨t, h, if_neg hOther⟩
  · exact mem_append_left _ h

theorem of_mem_recordTombstone {t : Tombstone Path}
    (h : t ∈ recordTombstone tombstones path now) : t ∈ tombstones ∨ t.deletedAt = now := by
  unfold recordTombstone at h
  split at h
  · obtain ⟨u, hU, rfl⟩ := mem_map.mp h
    split
    · exact .inr rfl
    · exact .inl hU
  · rcases mem_append.mp h with hOld | hNew
    · exact .inl hOld
    · rw [mem_singleton.mp hNew]
      exact .inr rfl

theorem Ahead.put (h : Ahead first s) (hNow : s.clock ≤ now) : Ahead first (step s (.put path now)) where
  clock := h.clock.trans hNow
  tombstones := fun t hT => ⟨(h.tombstones t hT).1, (h.tombstones t hT).2.trans hNow⟩
  deletions := fun d hD => (h.deletions d hD).trans hNow
  since := h.since.trans (max_le_max le_rfl hNow)
  told := by
    intro d hD hFirst hGone
    have hGoneBefore : d.path ∉ s.rows := by
      intro hRow
      apply hGone
      change d.path ∈ (if path ∈ s.rows then s.rows else s.rows ++ [path])
      split
      · exact hRow
      · exact mem_append_left _ hRow
    refine (h.told d hD hFirst hGoneBefore).imp_right (Or.imp_right fun hOld => ?_)
    exact hOld.trans_le (Int.sub_le_sub_right hNow _)

theorem Ahead.delete (h : Ahead first s) (hNow : s.clock ≤ now) : Ahead first (step s (.delete path now)) := by
  by_cases hRow : path ∈ s.rows
  · have hStep : step s (.delete path now) =
        { s with
          rows := s.rows.filter (· ≠ path)
          tombstones := recordTombstone s.tombstones path now
          clock := now
          deletions := s.deletions ++ [⟨path, now⟩] } := if_pos hRow
    rw [hStep]
    refine { clock := h.clock.trans hNow, tombstones := ?_, deletions := ?_, since := h.since.trans (max_le_max le_rfl hNow), told := ?_ }
    · intro t hT
      have hClock := h.clock
      dsimp only at hT ⊢
      rcases of_mem_recordTombstone hT with hOld | hTime
      · exact ⟨(h.tombstones t hOld).1, (h.tombstones t hOld).2.trans hNow⟩
      · omega
    · intro d hD
      rcases mem_append.mp hD with hOld | hNew
      · exact (h.deletions d hOld).trans hNow
      · rw [mem_singleton.mp hNew]
    · intro d hD hFirst hGone
      have hTime : d.deletedAt ≤ now := by
        rcases mem_append.mp hD with hOld | hNew
        · exact (h.deletions d hOld).trans hNow
        · rw [mem_singleton.mp hNew]
      have hSince : s.since ≤ now := h.since.trans (max_le (hFirst.trans hTime) hNow)
      by_cases hEq : d.path = path
      · right
        left
        exact ⟨⟨path, now⟩, mem_recordTombstone_self _ _ _, hEq.symm, hSince⟩
      · have hOld : d ∈ s.deletions := by
          rcases mem_append.mp hD with hOld | hNew
          · exact hOld
          · exact absurd (by rw [mem_singleton.mp hNew]) hEq
        have hGoneBefore : d.path ∉ s.rows := fun hIn => hGone (mem_filter.mpr ⟨hIn, by simpa using hEq⟩)
        rcases h.told d hOld hFirst hGoneBefore with hTold | ⟨t, hT, hPath, hAhead⟩ | hOldCursor
        · exact .inl hTold
        · exact .inr (.inl ⟨t, mem_recordTombstone_of_ne hT (by rwa [hPath]), hPath, hAhead⟩)
        · exact .inr (.inr (hOldCursor.trans_le (Int.sub_le_sub_right hNow _)))
  · have hStep : step s (.delete path now) = { s with clock := now } := if_neg hRow
    rw [hStep]
    exact { clock := h.clock.trans hNow
            tombstones := fun t hT => ⟨(h.tombstones t hT).1, (h.tombstones t hT).2.trans hNow⟩
            deletions := fun d hD => (h.deletions d hD).trans hNow
            since := h.since.trans (max_le_max le_rfl hNow)
            told := fun d hD hFirst hGone =>
              (h.told d hD hFirst hGone).imp_right (Or.imp_right fun hOld => hOld.trans_le (Int.sub_le_sub_right hNow _)) }

theorem Ahead.prune (h : Ahead first s) (hNow : s.clock ≤ now) : Ahead first (step s (.pruneTombstones now)) where
  clock := h.clock.trans hNow
  tombstones := by
    intro t hT
    have hOld := h.tombstones t (mem_of_mem_filter hT)
    exact ⟨hOld.1, hOld.2.trans hNow⟩
  deletions := fun d hD => (h.deletions d hD).trans hNow
  since := h.since.trans (max_le_max le_rfl hNow)
  told := by
    intro d hD hFirst hGone
    rcases h.told d hD hFirst hGone with hTold | ⟨t, hT, hPath, hAhead⟩ | hOldCursor
    · exact .inl hTold
    · right
      by_cases hPruned : t.deletedAt < now - TOMBSTONE_TTL_MS
      · right
        exact (max_le (h.tombstones t hT).1 hAhead).trans_lt hPruned
      · left
        exact ⟨t, mem_filter.mpr ⟨hT, by simpa using hPruned⟩, hPath, hAhead⟩
    · exact .inr (.inr (hOldCursor.trans_le (Int.sub_le_sub_right hNow _)))

theorem cursorOf_nonneg {since : Int} (h : 0 ≤ now) : 0 ≤ cursorOf since now := by
  unfold cursorOf
  split <;> omega

theorem cursorOf_le {since : Int} : cursorOf since now ≤ max 0 since := by
  unfold cursorOf
  split <;> omega

omit [DecidableEq Path] in
theorem atTime_perm {scan : List (Tombstone Path)} (h : scan.Perm tombstones) (time : Int) :
    (scan.filter fun t => t.deletedAt = time).length = (tombstones.filter fun t => t.deletedAt = time).length :=
  (h.filter _).length_eq

variable {oldest : List (Tombstone Path)}

theorem windowed_of_inTime (hNow : 0 ≤ now) (hTime : InTime s now) (hScan : oldest.Perm s.tombstones) :
    Windowed s.rows oldest (cursorOf s.since now)
      (deletionsWindow s.rows oldest (max (cursorOf s.since now) (now - TOMBSTONE_TTL_MS)) false) := by
  rw [max_eq_left hTime.1]
  apply windowed_ascending _ _ (cursorOf_nonneg hNow)
  rw [atTime_perm hScan]
  exact hTime.2

variable {newest : List (Tombstone Path)}

theorem mem_manifest {rows : List Path} {since : Int} {t : Tombstone Path}
    (h : t ∈ (deletionsWindow rows oldest (max (cursorOf since now) (now - TOMBSTONE_TTL_MS)) false).deleted) :
    t.path ∈ (turnSync rows oldest newest since now).deleted.map Tombstone.path :=
  path_mem_firstOfPath (mem_append_left _ h) not_mem_nil

theorem Ahead.told_or_ahead (h : Ahead first s) (newest : List (Tombstone Path)) (hNow : s.clock ≤ now) (hTime : InTime s now)
    (hScan : oldest.Perm s.tombstones) {d : Tombstone Path} (hD : d ∈ s.deletions) (hFirst : first ≤ d.deletedAt)
    (hGone : d.path ∉ s.rows) :
    d.path ∈ s.told ∨ d.path ∈ (turnSync s.rows oldest newest s.since now).deleted.map Tombstone.path ∨
      ∃ t ∈ s.tombstones, t.path = d.path ∧
        ∃ cursor ∈ (deletionsWindow s.rows oldest (max (cursorOf s.since now) (now - TOMBSTONE_TTL_MS)) false).cursor, cursor ≤ t.deletedAt := by
  rcases h.told d hD hFirst hGone with hTold | ⟨t, hT, hPath, hAhead⟩ | hOld
  · exact .inl hTold
  · right
    have hWin := windowed_of_inTime (h.clock.trans hNow) hTime hScan
    have hFrom : cursorOf s.since now ≤ t.deletedAt := cursorOf_le.trans (max_le (h.tombstones t hT).1 hAhead)
    rcases hWin.listed t (hScan.mem_iff.mpr hT) hFrom (by rwa [hPath]) with hList | hLater
    · left
      rw [← hPath]
      exact mem_manifest hList
    · exact .inr ⟨t, hT, hPath, hLater⟩
  · exfalso
    have hCursor := hTime.1.trans cursorOf_le
    exact absurd (hOld.trans_le (Int.sub_le_sub_right hNow _)) (not_lt.mpr hCursor)

theorem Ahead.sync (h : Ahead first s) (hNow : s.clock ≤ now) (hTime : InTime s now)
    (hScan : oldest.Perm s.tombstones) : Ahead first (step s (.sync now oldest newest)) where
  clock := h.clock.trans hNow
  tombstones := fun t hT => ⟨(h.tombstones t hT).1, (h.tombstones t hT).2.trans hNow⟩
  deletions := fun d hD => (h.deletions d hD).trans hNow
  since := by
    apply le_max_of_le_right
    change (deletionsWindow s.rows oldest (max (cursorOf s.since now) (now - TOMBSTONE_TTL_MS)) false).cursor.getD now ≤ now
    cases hCursor : (deletionsWindow s.rows oldest (max (cursorOf s.since now) (now - TOMBSTONE_TTL_MS)) false).cursor with
    | none => exact le_rfl
    | some cursor =>
      obtain ⟨t, hT, hLater⟩ := (windowed_of_inTime (h.clock.trans hNow) hTime hScan).reached cursor hCursor
      exact (hLater.trans (h.tombstones t (hScan.mem_iff.mp hT)).2).trans hNow
  told := by
    intro d hD hFirst hGone
    rcases h.told_or_ahead newest hNow hTime hScan hD hFirst hGone with hTold | hNew | ⟨t, hT, hPath, cursor, hCursor, hLater⟩
    · exact .inl (mem_append_left _ hTold)
    · exact .inl (mem_append_right _ hNew)
    · right
      left
      refine ⟨t, hT, hPath, ?_⟩
      change (deletionsWindow s.rows oldest (max (cursorOf s.since now) (now - TOMBSTONE_TTL_MS)) false).cursor.getD now ≤ t.deletedAt
      rw [Option.mem_def.mp hCursor]
      exact hLater

theorem Ahead.step (h : Ahead first s) {e : Event Path} (hKept : Kept s e) : Ahead first (step s e) := by
  obtain ⟨⟨hNow, hScan⟩, hTime⟩ := hKept
  cases e with
  | put path now => exact h.put hNow
  | delete path now => exact h.delete hNow
  | pruneTombstones now => exact h.prune hNow
  | sync now oldest newest => exact h.sync hNow hTime hScan.1

omit [DecidableEq Path] in
theorem ahead_start (first : Int) : Ahead first ({ since := first } : State Path) where
  clock := le_rfl
  tombstones := fun _ hT => absurd hT not_mem_nil
  deletions := fun _ hD => absurd hD not_mem_nil
  since := le_max_left _ _
  told := fun _ hD => absurd hD not_mem_nil

theorem Ahead.answered (h : Ahead first s) (hNow : s.clock ≤ now) (hTime : InTime s now)
    (hScan : oldest.Perm s.tombstones) : Answered first s now (turnSync s.rows oldest newest s.since now) where
  told := by
    intro hCompl d hD hFirst hGone
    have hNone := (of_decide_eq_true hCompl).1
    rcases h.told_or_ahead newest hNow hTime hScan hD hFirst hGone with hTold | hNew | ⟨t, -, -, cursor, hCursor, -⟩
    · exact .inl hTold
    · exact .inr hNew
    · rw [hNone] at hCursor
      cases hCursor
  gone := by
    intro t hT
    rcases mem_append.mp (mem_firstOfPath hT) with hOldest | hNewest
    · exact mem_deleted_gone hOldest
    · exact mem_deleted_gone hNewest
  advances := by
    cases hCursor : (deletionsWindow s.rows oldest (max (cursorOf s.since now) (now - TOMBSTONE_TTL_MS)) false).cursor with
    | none => exact .inl (decide_eq_true ⟨hCursor, hTime.1⟩)
    | some cursor =>
      right
      change _ < (deletionsWindow s.rows oldest (max (cursorOf s.since now) (now - TOMBSTONE_TTL_MS)) false).cursor.getD now
      rw [hCursor]
      exact (windowed_of_inTime (h.clock.trans hNow) hTime hScan).advances cursor hCursor

/-- Calls in time tell a workspace of every deletion since its first cursor. -/
theorem answered_of_run (first : Int) (events : List (Event Path)) {now : Int} {oldest newest : List (Tombstone Path)}
    (hRun : Along step Kept ({ since := first } : State Path) events)
    (hCall : Kept (run step ({ since := first } : State Path) events) (.sync now oldest newest)) :
    Answered first (run step ({ since := first } : State Path) events) now
      (turnSync (run step ({ since := first } : State Path) events).rows oldest newest (run step ({ since := first } : State Path) events).since now) := by
  have hAhead := run_invariant (fun _ _ hAhead hKept => hAhead.step hKept) (ahead_start first) hRun
  exact hAhead.answered hCall.1.1 hCall.2 hCall.1.2.1

end Run

def oneDeletion : List (Event Nat) := [.put 1 0, .delete 1 5]

theorem answered_of_run_one : Answered 0 (run step ({ since := 0 } : State Nat) oneDeletion) 6
    (turnSync (run step ({ since := 0 } : State Nat) oneDeletion).rows [⟨1, 5⟩] [⟨1, 5⟩] (run step ({ since := 0 } : State Nat) oneDeletion).since 6) :=
  answered_of_run 0 oneDeletion (by decide) (by decide)

def lateCall : List (Event Nat) := [.put 1 0, .delete 1 0, .sync (TOMBSTONE_TTL_MS + 1) [⟨1, 0⟩] [⟨1, 0⟩]]

def oneMillisecond : List Nat := List.range 201

def deletedAtOnce : List (Event Nat) := oneMillisecond.flatMap fun path => [.put path 5, .delete path 5]

def fullMillisecond : List (Event Nat) :=
  deletedAtOnce ++ [.sync 5 (oneMillisecond.map (⟨·, 5⟩)) (oneMillisecond.reverse.map (⟨·, 5⟩))]

theorem along_fullMillisecond : Along step Admitted ({ since := 5 } : State Nat) fullMillisecond := by
  have hTombstones : (run step ({ since := 5 } : State Nat) deletedAtOnce).tombstones = oneMillisecond.map (⟨·, 5⟩) := by decide +kernel
  have hClock : (run step ({ since := 5 } : State Nat) deletedAtOnce).clock ≤ 5 := by decide +kernel
  unfold fullMillisecond
  rw [along_append]
  refine ⟨by decide +kernel, ⟨hClock, ?_⟩, trivial⟩
  rw [hTombstones]
  exact ⟨List.Perm.refl _, (reverse_perm _).map _⟩

theorem deletions_untold :
    (Along step Admitted ({ since := 0 } : State Nat) lateCall ∧
      ¬ Answered 0 (run step ({ since := 0 } : State Nat) lateCall) (TOMBSTONE_TTL_MS + 1)
        (turnSync (run step ({ since := 0 } : State Nat) lateCall).rows [⟨1, 0⟩] [⟨1, 0⟩] (run step ({ since := 0 } : State Nat) lateCall).since (TOMBSTONE_TTL_MS + 1))) ∧
    (Along step Admitted ({ since := 5 } : State Nat) fullMillisecond ∧
      ¬ Answered 5 (run step ({ since := 5 } : State Nat) fullMillisecond) 6
        (turnSync (run step ({ since := 5 } : State Nat) fullMillisecond).rows (oneMillisecond.map (⟨·, 5⟩)) (oneMillisecond.reverse.map (⟨·, 5⟩))
          (run step ({ since := 5 } : State Nat) fullMillisecond).since 6)) := by
  refine ⟨⟨by decide, fun hAnswered => ?_⟩, ⟨along_fullMillisecond, fun hAnswered => ?_⟩⟩
  · have hTold := hAnswered.told (by decide) ⟨1, 0⟩ (by decide) (by decide) (by decide)
    exact absurd hTold (by decide)
  · have hTold := hAnswered.told (by decide +kernel) ⟨100, 5⟩ (by decide +kernel) (by decide) (by decide +kernel)
    exact absurd hTold (by decide +kernel)

end Stella.Drive.Deletions
