import Mathlib.Data.List.TakeWhile
import Stella.World.Calls

/-! # Calls that throw

No call opens a transaction, so a call that throws has changed nothing only if no statement took
effect before the one that failed.
-/

namespace Stella.World

open List

theorem ancestorsFrom_ordered (front path : Text) : (ancestorsFrom front path).Pairwise (fun a b => a ∈ ancestors b) := by
  induction path generalizing front with
  | nil => exact List.Pairwise.nil
  | cons c path ih =>
    rw [ancestorsFrom]
    split
    · rename_i hSlash
      refine pairwise_cons.mpr ⟨fun b hB => ?_, ih _⟩
      obtain ⟨hLen, suffix, hEq⟩ := (mem_ancestorsFrom _ _ _).mp hB
      have hPrefix : front ++ [c] <+: b :=
        prefix_of_prefix_length_le (prefix_append _ path) (hEq ▸ prefix_append b _) hLen
      obtain ⟨rest, rfl⟩ := hPrefix
      exact (mem_ancestors _ _).mpr ⟨rest, by simp [hSlash]⟩
    · exact ih _

theorem ancestors_ordered (path : Text) : (ancestors path).Pairwise (fun a b => a ∈ ancestors b) :=
  ancestorsFrom_ordered [] path

theorem parentPath_join (path : Text) {segment : Text} (h : ∀ c ∈ segment, c ≠ '/') :
    parentPath (path ++ '/' :: segment) = path := by
  have hReverse : (path ++ '/' :: segment).reverse = segment.reverse ++ '/' :: path.reverse := by simp
  unfold parentPath
  rw [hReverse, dropWhile_append_of_pos (fun c hC => by simpa using h c (mem_reverse.mp hC)),
    dropWhile_cons_of_neg (by simp)]
  simp

namespace Mutation

variable {m later : Mutation} {now : Int} {p t : Text}

def Blocks (m : Mutation) (path : Text) : Prop := ∃ node, m.entryRow path = some node ∧ node.kind ≠ .dir

def ClearAbove (m : Mutation) (path : Text) : Prop :=
  ∀ b ∈ ancestors path, m.Blocks b → (∀ c ∈ ancestors b, ¬ m.Blocks c) → ∀ a ∈ ancestors b, m.entryRow a ≠ none

variable {path : Text}

theorem blocks_upsert {b : Text} (hOther : b ≠ path) (node : Node) : (m.upsert path node).Blocks b ↔ m.Blocks b := by
  unfold Blocks
  rw [entryRow_upsert, if_neg hOther]

variable {e : WorldError}

variable {parents : List Text}

theorem ensureParents_blocked (hOrder : parents.Pairwise (fun a b => a ∈ ancestors b))
    {m later : Mutation} (h : ensureParents now parents m = (.error e, later)) :
    ∃ b ∈ parents, m.Blocks b ∧ ∀ c ∈ parents, c ∈ ancestors b → ¬ m.Blocks c := by
  induction parents generalizing m with
  | nil => cases (Prod.mk.inj h).1
  | cons current rest ih =>
    obtain ⟨hAbove, hRest⟩ := pairwise_cons.mp hOrder
    unfold ensureParents at h
    cases hRow : m.store.entryRow current with
    | some node =>
      rw [hRow] at h
      dsimp only at h
      split at h
      · rename_i hKind
        refine ⟨current, mem_cons_self, ⟨node, hRow, hKind⟩, fun c hC hBelow => ?_⟩
        rcases mem_cons.mp hC with rfl | hLater
        · exact absurd hBelow (not_ancestor_self c)
        · exact absurd (ancestors_trans hBelow (hAbove c hLater)) (not_ancestor_self current)
      · rename_i hDir
        obtain ⟨b, hB, hBlocks, hFirst⟩ := ih hRest h
        refine ⟨b, mem_cons_of_mem _ hB, hBlocks, fun c hC hBelow => ?_⟩
        rcases mem_cons.mp hC with rfl | hLater
        · rintro ⟨other, hOther, hKind⟩
          have hEq : some node = some other := hRow.symm.trans hOther
          exact hDir (Option.some.inj hEq ▸ hKind)
        · exact hFirst c hLater hBelow
    | none =>
      rw [hRow] at h
      dsimp only at h
      have hNew : ∀ c ∈ rest, c ≠ current := fun c hC hEq => not_ancestor_self current (hEq ▸ hAbove c hC)
      obtain ⟨b, hB, hBlocks, hFirst⟩ := ih hRest h
      refine ⟨b, mem_cons_of_mem _ hB, (blocks_upsert (hNew b hB) _).mp hBlocks, fun c hC hBelow => ?_⟩
      rcases mem_cons.mp hC with rfl | hLater
      · rintro ⟨other, hOther, -⟩
        have hNone : m.entryRow c = none := hRow
        rw [hNone] at hOther
        cases hOther
      · exact fun hBlocked => hFirst c hLater hBelow ((blocks_upsert (hNew c hLater) _).mpr hBlocked)

theorem ensureParents_clean (hOrder : parents.Pairwise (fun a b => a ∈ ancestors b))
    (hClear : ∀ b ∈ parents, m.Blocks b → (∀ c ∈ parents, c ∈ ancestors b → ¬ m.Blocks c) →
      ∀ a ∈ parents, a ∈ ancestors b → m.entryRow a ≠ none) (h : ensureParents now parents m = (.error e, later)) : later = m := by
  obtain ⟨b, hB, hBlocks, hFirst⟩ := ensureParents_blocked hOrder h
  have hPresent := hClear b hB hBlocks hFirst
  clear hClear hFirst
  induction parents with
  | nil => cases hB
  | cons current rest ih =>
    obtain ⟨hAbove, hRest⟩ := pairwise_cons.mp hOrder
    unfold ensureParents at h
    cases hRow : m.store.entryRow current with
    | some node =>
      rw [hRow] at h
      dsimp only at h
      split at h
      · exact (Prod.mk.inj h).2.symm
      · rename_i hDir
        have hLater : b ∈ rest := by
          rcases mem_cons.mp hB with rfl | hLater
          · obtain ⟨other, hOther, hKind⟩ := hBlocks
            have hSame : some node = some other := hRow.symm.trans hOther
            exact absurd (Option.some.inj hSame ▸ hKind) hDir
          · exact hLater
        exact ih hRest h hLater (fun a hA => hPresent a (mem_cons_of_mem _ hA))
    | none =>
      rcases mem_cons.mp hB with rfl | hLater
      · obtain ⟨other, hOther, -⟩ := hBlocks
        have hNone : m.entryRow b = none := hRow
        rw [hNone] at hOther
        cases hOther
      · exact absurd hRow (hPresent current mem_cons_self (hAbove b hLater))

theorem ClearAbove.ensureParents (hClear : m.ClearAbove path)
    (h : ensureParents now (ancestors path) m = (.error e, later)) : later = m := by
  refine ensureParents_clean (ancestors_ordered path) (fun b hB hBlocks hFirst a _ hBelow => ?_) h
  exact hClear b hB hBlocks (fun c hC => hFirst c (ancestors_trans hB hC) hC) a hBelow

theorem putNode_clean {node : Node} (hClear : m.ClearAbove path)
    (h : m.putNode now path node = (.error e, later)) : later = m := by
  unfold putNode at h
  split at h
  · exact (Prod.mk.inj h).2.symm
  split at h
  · exact (Prod.mk.inj h).2.symm
  split at h
  · rename_i hParents
    rw [← (Prod.mk.inj h).2]
    exact hClear.ensureParents hParents
  · cases (Prod.mk.inj h).1

theorem putNodes_blocked (hKeyed : m.Keyed) {entry : Text × Node} {rest : List (Text × Node)} {a : Text}
    (hA : a ∈ ancestors entry.1) (hBlocks : m.Blocks a) (hClear : m.ClearAbove entry.1)
    (h : m.putNodes now (entry :: rest) = (.error e, later)) : later = m := by
  unfold putNodes at h
  split at h
  · rename_i hPut
    rw [← (Prod.mk.inj h).2]
    exact putNode_clean hClear hPut
  · rename_i hPut
    obtain ⟨-, ⟨made, hMade, -⟩, -⟩ := putNode_ok hKeyed hPut
    obtain ⟨node, hRow, hKind⟩ := hBlocks
    exact absurd (hMade.dirs a hA node hRow) hKind

theorem putNode_goes (hNorm : isNormalPath path = true) (hOut : isWorldDrivePath path = false)
    (hAbove : ∀ a ∈ ancestors path, ¬ m.Blocks a) (node : Node) : ∃ later, m.putNode now path node = (.ok (), later) := by
  have hDirs : ∀ a ∈ ancestors path, ∀ other, m.entryRow a = some other → other.kind = .dir :=
    fun a hA other hRow => by_contra (fun hKind => hAbove a hA ⟨other, hRow, hKind⟩)
  obtain ⟨made, hMade⟩ := ensureParents_goes now (nodup_ancestors path) hDirs
  unfold putNode
  rw [if_neg (by simp [hNorm]), if_neg (by simp [hOut]), hMade]
  exact ⟨_, rfl⟩

theorem putNodes_goes {entries : List (Text × Node)} (hKeyed : m.Keyed)
    (hOut : ∀ entry ∈ entries, isNormalPath entry.1 = true ∧ isWorldDrivePath entry.1 = false)
    (hAbove : ∀ entry ∈ entries, ∀ a ∈ ancestors entry.1, ¬ m.Blocks a)
    (hMade : ∀ entry ∈ entries, ∀ other ∈ entries, other.1 ∈ ancestors entry.1 → other.2.kind = .dir) :
    ∃ later, m.putNodes now entries = (.ok (), later) := by
  induction entries generalizing m with
  | nil => exact ⟨m, rfl⟩
  | cons entry rest ih =>
    obtain ⟨hNorm, hStored⟩ := hOut entry mem_cons_self
    obtain ⟨put, hPut⟩ : ∃ put, m.putNode now entry.1 entry.2 = (.ok (), put) :=
      putNode_goes hNorm hStored (hAbove entry mem_cons_self) entry.2
    obtain ⟨-, ⟨made, hParents, hRows⟩, hPutKeyed⟩ := putNode_ok hKeyed hPut
    unfold putNodes
    rw [hPut]
    refine ih (keyed_unpin hPutKeyed entry.2) (fun other hOther => hOut other (mem_cons_of_mem _ hOther)) ?_
      (fun a hA b hB => hMade a (mem_cons_of_mem _ hA) b (mem_cons_of_mem _ hB))
    rintro other hOther a hA ⟨node, hRow, hKind⟩
    rw [entryRow_unpin, hRows] at hRow
    split at hRow
    · rename_i hEq
      have hDir := hMade other (mem_cons_of_mem _ hOther) entry mem_cons_self (hEq ▸ hA)
      exact hKind (Option.some.inj hRow ▸ hDir)
    · rw [hParents.rows] at hRow
      split at hRow
      · exact hKind (Option.some.inj hRow ▸ rfl)
      · exact hAbove other (mem_cons_of_mem _ hOther) a hA ⟨node, hRow, hKind⟩

/-- A deletion of `pushChanges` that is passed over: of nothing, or of a directory that has children. -/
def PassedOver (m : Mutation) (path : Text) : Prop :=
  ∀ node, m.entryRow path = some node → node.kind = .dir ∧ m.hasChildren path = true

def Refused (m : Mutation) (path : Text) : Prop :=
  ∃ q, (m.entryRow q).isSome = true ∧ WorldSqlStore.listed path q = true ∧ q ≠ path

def RefusesFirst (passed refused : Text → Prop) : List Text → Prop
  | [] => False
  | path :: rest => (passed path ∧ RefusesFirst passed refused rest) ∨ (¬ passed path ∧ refused path)

theorem remove_refused (hKeyed : m.Keyed) (h : m.Refused path) : ∃ e, m.remove path false = (.error e, m) := by
  obtain ⟨q, hRow, hList, hOther⟩ := h
  cases hRemove : m.remove path false with
  | mk result later =>
    cases result with
    | error e => exact ⟨e, by rw [remove_error hRemove]⟩
    | ok _ => exact absurd ((remove_ok hKeyed (remove_normal hRemove) hRemove).alone rfl q hRow hList) hOther

variable {rest : List Text}

theorem deleteKnown_cons_passed (h : m.PassedOver path) :
    m.deleteKnown (path :: rest) = m.deleteKnown rest := by
  rw [deleteKnown]
  cases hRow : m.store.entryRow path with
  | none => rfl
  | some node => exact if_pos (h node hRow)

theorem deleteKnown_cons_removed (h : ¬ m.PassedOver path) :
    m.deleteKnown (path :: rest) =
      match m.remove path false with
      | (.error e, m) => (.error e, m)
      | (.ok (), m) => m.deleteKnown rest := by
  rw [deleteKnown]
  cases hRow : m.store.entryRow path with
  | none =>
    have hNone : m.entryRow path = none := hRow
    exact absurd (fun node hNode => by rw [hNone] at hNode; cases hNode) h
  | some node =>
    refine if_neg (fun hStays => h (fun other hOther => ?_))
    have hEq : some node = some other := hRow.symm.trans hOther
    exact Option.some.inj hEq ▸ hStays

variable {deleted : List Text}

theorem deleteKnown_passed (h : ∀ path ∈ deleted, m.PassedOver path) :
    m.deleteKnown deleted = (.ok (), m) := by
  induction deleted with
  | nil => rfl
  | cons path rest ih =>
    rw [forall_mem_cons] at h
    rw [deleteKnown_cons_passed h.1, ih h.2]

theorem deleteKnown_refused (hKeyed : m.Keyed) (h : RefusesFirst m.PassedOver m.Refused deleted) :
    ∃ e, m.deleteKnown deleted = (.error e, m) := by
  induction deleted with
  | nil => exact absurd h not_false
  | cons path rest ih =>
    rcases h with ⟨hPassed, hRest⟩ | ⟨hTaken, hRef⟩
    · rw [deleteKnown_cons_passed hPassed]
      exact ih hRest
    · obtain ⟨e, hRemove⟩ := remove_refused hKeyed hRef
      exact ⟨e, by rw [deleteKnown_cons_removed hTaken, hRemove]⟩

theorem deleteKnown_rows (hKeyed : m.Keyed) (h : m.deleteKnown deleted = (.ok (), later)) :
    later.Keyed ∧ ∀ q, (later.entryRow q = m.entryRow q ∨ later.entryRow q = none) ∧
      (q ∈ deleted → m.Blocks q → later.entryRow q = none) := by
  induction deleted generalizing m with
  | nil =>
    obtain rfl := (Prod.mk.inj h).2
    exact ⟨hKeyed, fun q => ⟨.inl rfl, fun hMem => absurd hMem not_mem_nil⟩⟩
  | cons path rest ih =>
    by_cases hPassed : m.PassedOver path
    · rw [deleteKnown_cons_passed hPassed] at h
      obtain ⟨hLater, hRows⟩ := ih hKeyed h
      refine ⟨hLater, fun q => ⟨(hRows q).1, fun hMem hBlocks => ?_⟩⟩
      rcases mem_cons.mp hMem with rfl | hLeft
      · obtain ⟨node, hRow, hKind⟩ := hBlocks
        exact absurd (hPassed node hRow).1 hKind
      · exact (hRows q).2 hLeft hBlocks
    · rw [deleteKnown_cons_removed hPassed] at h
      cases hRemove : m.remove path false with
      | mk result removed =>
        rw [hRemove] at h
        cases result with
        | error e => cases (Prod.mk.inj h).1
        | ok _ =>
          have hRem := remove_ok hKeyed (remove_normal hRemove) hRemove
          obtain ⟨hLater, hRows⟩ := ih hRem.keyed h
          have hShrinks : ∀ q, removed.entryRow q = m.entryRow q ∨ removed.entryRow q = none := fun q => by
            rw [hRem.rows]
            split
            · exact .inr rfl
            · exact .inl rfl
          have hGone : ∀ q, removed.entryRow q = none → later.entryRow q = none := fun q hNone =>
            (hRows q).1.elim (fun hEq => hEq.trans hNone) id
          refine ⟨hLater, fun q => ⟨?_, fun hMem hBlocks => ?_⟩⟩
          · rcases hShrinks q with hEq | hNone
            · rw [← hEq]
              exact (hRows q).1
            · exact .inr (hGone q hNone)
          · rcases mem_cons.mp hMem with rfl | hLeft
            · exact hGone q (by rw [hRem.rows, if_pos (listed_of_within (by simp [pathWithin]))])
            · rcases hShrinks q with hEq | hNone
              · exact (hRows q).2 hLeft (by unfold Blocks; rw [hEq]; exact hBlocks)
              · exact hGone q hNone

theorem Rooted.hasChildren (h : m.Rooted) {q : Text} (hRow : (m.entryRow q).isSome = true)
    (hBelow : path ∈ ancestors q) : m.hasChildren path = true := by
  obtain ⟨suffix, rfl⟩ := (mem_ancestors _ _).mp hBelow
  obtain ⟨child, hChild, hParent⟩ : ∃ child, (m.entryRow child).isSome = true ∧ parentPath child = path := by
    have hSeg : ∀ c ∈ suffix.takeWhile (· ≠ '/'), c ≠ '/' := fun c hC => by
      simpa using mem_takeWhile_imp hC
    have hSplit := takeWhile_append_dropWhile (p := (· ≠ '/')) (l := suffix)
    refine ⟨path ++ '/' :: suffix.takeWhile (· ≠ '/'), ?_, parentPath_join path hSeg⟩
    cases hDrop : suffix.dropWhile (· ≠ '/') with
    | nil =>
      rw [hDrop, append_nil] at hSplit
      rw [hSplit]
      exact hRow
    | cons c rest =>
      have hSlash : c = '/' := by
        have hHead := head?_dropWhile_not (· ≠ '/') suffix
        rw [hDrop] at hHead
        simpa using hHead
      rw [hDrop, hSlash] at hSplit
      obtain ⟨node, hNode, -⟩ := h.dirs _ (path ++ '/' :: suffix.takeWhile (· ≠ '/')) hRow
        ((mem_ancestors _ _).mpr ⟨rest, by rw [append_assoc, cons_append, hSplit]⟩)
      exact Option.isSome_of_eq_some hNode
  obtain ⟨node, hNode⟩ := Option.isSome_iff_exists.mp hChild
  have hMem := (WorldSqlStore.mem_dirents_iff h.keyed child node).mpr hNode
  exact any_eq_true.mpr ⟨(child, node), hMem, decide_eq_true hParent⟩

theorem Rooted.deleteKnown_goes (h : m.Rooted) (hNorm : ∀ d ∈ deleted, isNormalPath d = true)
    (hLists : ∀ d ∈ deleted, (m.entryRow d).isSome = true → m.Lists d) :
    ∃ later, m.deleteKnown deleted = (.ok (), later) := by
  induction deleted generalizing m with
  | nil => exact ⟨m, rfl⟩
  | cons path rest ih =>
    rw [forall_mem_cons] at hNorm hLists
    by_cases hPassed : m.PassedOver path
    · rw [deleteKnown_cons_passed hPassed]
      exact ih h hNorm.2 hLists.2
    · rw [deleteKnown_cons_removed hPassed]
      obtain ⟨node, hRow, hKind⟩ : ∃ node, m.entryRow path = some node ∧ ¬ (node.kind = .dir ∧ m.hasChildren path = true) := by
        unfold PassedOver at hPassed
        push Not at hPassed
        obtain ⟨node, hRow, hKind⟩ := hPassed
        exact ⟨node, hRow, fun hBoth => hKind hBoth.1 hBoth.2⟩
      have hSome := Option.isSome_of_eq_some hRow
      have hAlone : ∀ q, (m.entryRow q).isSome = true → WorldSqlStore.listed path q = true → q = path := by
        intro q hQ hList
        obtain ⟨suffix, rfl, hSuf⟩ := (pathWithin_iff (ne_nil_of_isNormal hNorm.1)).mp (hLists.1 hSome q hQ hList)
        rcases hSuf with rfl | hSlash
        · exact append_nil path
        · obtain ⟨tail, rfl⟩ := head?_eq_some_iff.mp hSlash
          have hBelow : path ∈ ancestors (path ++ '/' :: tail) := (mem_ancestors _ _).mpr ⟨tail, rfl⟩
          obtain ⟨dir, hDirRow, hDir⟩ := h.dirs _ path hQ hBelow
          rw [hRow] at hDirRow
          exact absurd ⟨Option.some.inj hDirRow ▸ hDir, h.hasChildren hQ hBelow⟩ hKind
      have hPage : m.store.Pageable path := by
        rintro row hMem ⟨other, hOther, hLess⟩
        obtain ⟨hNode, hList⟩ := (WorldSqlStore.mem_selected h.keyed path row.1 row.2).mp hMem
        obtain ⟨hOtherNode, hOtherListed⟩ := (WorldSqlStore.mem_selected h.keyed path other.1 other.2).mp hOther
        rw [hAlone _ (Option.isSome_of_eq_some hNode) hList,
          hAlone _ (Option.isSome_of_eq_some hOtherNode) hOtherListed] at hLess
        exact absurd hLess (lt_irrefl _)
      obtain ⟨removed, hRemove⟩ : ∃ removed, m.remove path false = (.ok (), removed) :=
        remove_goes h.keyed hNorm.1 hPage ⟨path, hSome, listed_of_within (by simp [pathWithin])⟩ (fun _ => hAlone)
      rw [hRemove]
      have hRem := remove_ok h.keyed hNorm.1 hRemove
      refine ih (h.removed hRem) hNorm.2 (fun d hD hLeft q hQ => ?_)
      exact hLists.2 d hD (hRem.kept hLeft).1 q (hRem.kept hQ).1

theorem deleteSubtrees_rows (hKeyed : m.Keyed) (hNamed : ∀ d ∈ deleted, d ≠ [])
    (h : m.deleteSubtrees deleted = (.ok (), later)) :
    later.Keyed ∧ ∀ q, (later.entryRow q = m.entryRow q ∨ later.entryRow q = none) ∧
      ((∃ d ∈ deleted, (m.entryRow d).isSome = true ∧ pathWithin q d = true) → later.entryRow q = none) := by
  induction deleted generalizing m with
  | nil =>
    obtain rfl := (Prod.mk.inj h).2
    exact ⟨hKeyed, fun q => ⟨.inl rfl, fun ⟨d, hD, _⟩ => absurd hD not_mem_nil⟩⟩
  | cons path rest ih =>
    rw [forall_mem_cons] at hNamed
    unfold Mutation.deleteSubtrees at h
    split at h
    · cases hRemove : m.remove path true with
      | mk result removed =>
        rw [hRemove] at h
        cases result with
        | error e => cases (Prod.mk.inj h).1
        | ok _ =>
          have hRem := remove_ok hKeyed (remove_normal hRemove) hRemove
          obtain ⟨hLater, hRows⟩ := ih hRem.keyed hNamed.2 h
          have hGone : ∀ q, WorldSqlStore.listed path q = true → later.entryRow q = none := fun q hList =>
            (hRows q).1.elim (fun hEq => hEq.trans (by rw [hRem.rows, if_pos hList])) id
          refine ⟨hLater, fun q => ⟨?_, ?_⟩⟩
          · by_cases hList : WorldSqlStore.listed path q = true
            · exact .inr (hGone q hList)
            · have hEq : removed.entryRow q = m.entryRow q := by rw [hRem.rows, if_neg hList]
              rw [← hEq]
              exact (hRows q).1
          · rintro ⟨d, hD, hRow, hWith⟩
            rcases mem_cons.mp hD with rfl | hLeft
            · exact hGone q (listed_of_within hWith)
            · by_cases hList : WorldSqlStore.listed path d = true
              · -- what takes the entry away takes all below it
                refine hGone q ?_
                obtain ⟨suffix, rfl, rfl | hSlash⟩ := (pathWithin_iff (hNamed.2 d hLeft)).mp hWith
                · rwa [append_nil]
                · obtain ⟨tail, rfl⟩ := head?_eq_some_iff.mp hSlash
                  exact listed_below hList ((mem_ancestors _ _).mpr ⟨tail, rfl⟩)
              · refine (hRows q).2 ⟨d, hLeft, ?_, hWith⟩
                rw [hRem.rows, if_neg hList]
                exact hRow
    · rename_i hAbsent
      obtain ⟨hLater, hRows⟩ := ih hKeyed hNamed.2 h
      refine ⟨hLater, fun q => ⟨(hRows q).1, ?_⟩⟩
      rintro ⟨d, hD, hRow, hWith⟩
      rcases mem_cons.mp hD with rfl | hLeft
      · exact absurd hRow hAbsent
      · exact (hRows q).2 ⟨d, hLeft, hRow, hWith⟩

theorem deleteSubtrees_goes (hKeyed : m.Keyed) (hNorm : ∀ d ∈ deleted, isNormalPath d = true)
    (hPage : ∀ d ∈ deleted, (m.entryRow d).isSome = true → m.store.Pageable d) :
    ∃ later, m.deleteSubtrees deleted = (.ok (), later) := by
  induction deleted generalizing m with
  | nil => exact ⟨m, rfl⟩
  | cons path rest ih =>
    rw [forall_mem_cons] at hNorm hPage
    unfold Mutation.deleteSubtrees
    split
    · rename_i hSome
      obtain ⟨removed, hRemove⟩ : ∃ removed, m.remove path true = (.ok (), removed) :=
        remove_goes hKeyed hNorm.1 (hPage.1 hSome) ⟨path, hSome, listed_of_within (by simp [pathWithin])⟩
          (fun hPlain => by cases hPlain)
      rw [hRemove]
      have hRem := remove_ok hKeyed hNorm.1 hRemove
      refine ih hRem.keyed hNorm.2 (fun d hD hLeft => ?_)
      refine pageable_of_subset (hPage.2 d hD (hRem.kept hLeft).1) (fun row hRow => ?_)
      obtain ⟨hNode, hList⟩ := (WorldSqlStore.mem_selected hRem.keyed d row.1 row.2).mp hRow
      refine (WorldSqlStore.mem_selected hKeyed d row.1 row.2).mpr ⟨?_, hList⟩
      have hRows := hRem.rows row.1
      split at hRows
      · rw [show removed.entryRow row.1 = some row.2 from hNode] at hRows
        cases hRows
      · exact hRows.symm.trans hNode
    · exact ih hKeyed hNorm.2 hPage.2

theorem deleteSubtrees_refused
    (h : RefusesFirst (fun d => m.entryRow d = none) (fun d => ∃ e, m.store.allEntries d = .error e) deleted) :
    ∃ e, m.deleteSubtrees deleted = (.error e, m) := by
  induction deleted with
  | nil => exact absurd h not_false
  | cons path rest ih =>
    unfold Mutation.deleteSubtrees
    rcases h with ⟨hPassed, hRest⟩ | ⟨hTaken, e, hListing⟩
    · rw [if_neg (Option.not_isSome_iff_eq_none.mpr hPassed)]
      exact ih hRest
    · rw [if_pos (Option.isSome_iff_ne_none.mpr hTaken)]
      have hRemove : ∃ error, m.remove path true = (.error error, m) := by
        unfold remove
        split
        · exact ⟨_, rfl⟩
        · rename_i normal hNorm
          obtain ⟨rfl, -⟩ := WorldSqlStore.normalizeWorldPath_ok hNorm
          rw [hListing]
          exact ⟨e, rfl⟩
      obtain ⟨error, hError⟩ := hRemove
      exact ⟨error, by rw [hError]⟩

theorem deleteSubtrees_passed (h : ∀ path ∈ deleted, m.entryRow path = none) :
    m.deleteSubtrees deleted = (.ok (), m) := by
  induction deleted with
  | nil => rfl
  | cons path rest ih =>
    rw [forall_mem_cons] at h
    unfold Mutation.deleteSubtrees
    rw [if_neg (Option.not_isSome_iff_eq_none.mpr h.1), ih h.2]

variable {input : Text}

section

variable (hClear : m.ClearAbove input)
include hClear

variable {mode : Option Int}

theorem writeFile_clean {bytes : FileBytes} {mtime : Option Int} {bucketWorks : Bool}
    (h : m.writeFile now input bytes mode mtime bucketWorks = (.error e, later)) :
    ∃ blobs, later.store = { m.store with blobs } := by
  unfold writeFile at h
  cases hPath : normalizeWorldPath input false with
  | error e =>
    rw [hPath] at h
    dsimp only at h
    exact ⟨m.store.blobs, by rw [← (Prod.mk.inj h).2]⟩
  | ok path =>
    obtain ⟨rfl, -⟩ := WorldSqlStore.normalizeWorldPath_ok hPath
    rw [hPath] at h
    dsimp only at h
    split at h
    · exact ⟨m.store.blobs, by rw [← (Prod.mk.inj h).2]⟩
    split at h
    · exact ⟨m.store.blobs, by rw [← (Prod.mk.inj h).2]⟩
    split at h
    · exact ⟨m.store.blobs, by rw [← (Prod.mk.inj h).2]⟩
    split at h
    · exact ⟨m.store.blobs, by rw [← (Prod.mk.inj h).2]⟩
    split at h
    · exact ⟨m.store.blobs, by rw [← (Prod.mk.inj h).2]⟩
    cases hBlob : m.storeBlob bytes bucketWorks with
    | mk result stored =>
      have hStored : ∃ blobs, stored = { m with store := { m.store with blobs } } := by
        unfold storeBlob at hBlob
        dsimp only at hBlob
        split_ifs at hBlob <;> exact ⟨_, (Prod.mk.inj hBlob).2.symm⟩
      obtain ⟨blobs, rfl⟩ := hStored
      rw [hBlob] at h
      cases result with
      | error e => exact ⟨blobs, by rw [← (Prod.mk.inj h).2]⟩
      | ok _ =>
        dsimp only at h
        split at h
        · rename_i hPut
          have hEq : _ = ({ m with store := { m.store with blobs } } : Mutation) := putNode_clean hClear hPut
          exact ⟨blobs, by rw [← (Prod.mk.inj h).2, hEq]⟩
        · cases (Prod.mk.inj h).1

theorem mkdir_clean
    (h : m.mkdir now input mode = (.error e, later)) : later = m := by
  unfold mkdir at h
  cases hPath : normalizeWorldPath input false with
  | error e =>
    rw [hPath] at h
    exact (Prod.mk.inj h).2.symm
  | ok path =>
    obtain ⟨rfl, -⟩ := WorldSqlStore.normalizeWorldPath_ok hPath
    rw [hPath] at h
    dsimp only at h
    split at h
    · split at h
      · exact (Prod.mk.inj h).2.symm
      · cases (Prod.mk.inj h).1
    · exact putNode_clean hClear h

theorem symlink_clean {target : Text}
    (h : m.symlink now input target = (.error e, later)) : later = m := by
  unfold symlink at h
  cases hPath : normalizeWorldPath input false with
  | error e =>
    rw [hPath] at h
    exact (Prod.mk.inj h).2.symm
  | ok path =>
    obtain ⟨rfl, -⟩ := WorldSqlStore.normalizeWorldPath_ok hPath
    rw [hPath] at h
    dsimp only at h
    split at h
    · exact (Prod.mk.inj h).2.symm
    · exact putNode_clean hClear h

end

/-- Once its checks have passed, a rename in a tree goes through: its pattern keeps to the subtree, and every path
the last listing meets can be a page's cursor. -/
structure RenameGoes (m : Mutation) (p t : Text) : Prop where
  rooted : m.Rooted
  lists : m.Lists p
  normal : ∀ q, ((m.entryRow q).isSome = true ∨ m.Creates p t q) → WorldSqlStore.listed p q = true → isNormalPath q = true

structure RenameClean (m : Mutation) (p t : Text) : Prop where
  clear : m.ClearAbove t
  goes : m.entryRow t = none → pathWithin t p = false → isWorldDrivePath t = false →
    (∀ a ∈ ancestors t, ¬ m.Blocks a) → m.RenameGoes p t

theorem rename_clean (hKeyed : m.Keyed) (hClean : m.RenameClean p t)
    (h : m.rename now p t = (.error e, later)) : later = m := by
  have hCall := h
  unfold rename at h
  cases hFrom : normalizeWorldPath p false with
  | error e =>
    rw [hFrom] at h
    exact (Prod.mk.inj h).2.symm
  | ok source =>
    obtain ⟨rfl, hP⟩ := WorldSqlStore.normalizeWorldPath_ok hFrom
    cases hTo : normalizeWorldPath t false with
    | error e =>
      rw [hFrom, hTo] at h
      exact (Prod.mk.inj h).2.symm
    | ok dest =>
      obtain ⟨rfl, hT⟩ := WorldSqlStore.normalizeWorldPath_ok hTo
      rw [hFrom, hTo] at h
      dsimp only at h
      split at h
      · exact (Prod.mk.inj h).2.symm
      rename_i hStored
      split at h
      · exact (Prod.mk.inj h).2.symm
      rename_i hOutside
      cases hAll : m.store.allEntries source with
      | error e =>
        rw [hAll] at h
        exact (Prod.mk.inj h).2.symm
      | ok entries =>
        obtain rfl : entries = m.sources source := WorldSqlStore.allEntries_eq hKeyed hP hAll
        rw [hAll] at h
        dsimp only at h
        split at h
        · exact (Prod.mk.inj h).2.symm
        rename_i hFound
        split at h
        · exact (Prod.mk.inj h).2.symm
        rename_i hTaken
        cases hParents : ensureParents now (ancestors dest) m with
        | mk result made =>
          rw [hParents] at h
          cases result with
          | error e =>
            rw [← (Prod.mk.inj h).2]
            exact hClean.clear.ensureParents hParents
          | ok _ =>
            have hMade := ensureParents_ok now (nodup_ancestors dest) (fun a hA => ancestors_ne_nil hT hA) hKeyed hParents
            have hAbsent : m.entryRow dest = none := Option.not_isSome_iff_eq_none.mp hTaken
            have hOut := Bool.eq_false_iff.mpr hOutside
            obtain ⟨hRooted, hLists, hNorm⟩ := hClean.goes hAbsent hOut (Bool.eq_false_iff.mpr hStored)
              (fun a hA hBlocks => by
                obtain ⟨node, hRow, hKind⟩ := hBlocks
                exact hKind (hMade.dirs a hA node hRow))
            have hPath := ne_nil_of_isNormal hP
            -- nothing stands below a path that is absent from a tree
            have hFree : m.RenameFree source dest := by
              refine ⟨?_, Bool.eq_false_iff.mpr hStored, hMade.dirs, fun q hRow hWith => ?_⟩
              · obtain ⟨entry, hEnt⟩ := exists_mem_of_ne_nil _ hFound
                obtain ⟨suffix, -, hSuf, hRow⟩ := source_within hKeyed hPath hLists hEnt
                exact ⟨source ++ suffix, Option.isSome_of_eq_some hRow, pathWithin_append hPath hSuf⟩
              · obtain ⟨suffix, rfl, rfl | hSlash⟩ := (pathWithin_iff hPath).mp hWith
                · rwa [nextPath_append, append_nil]
                · obtain ⟨tail, rfl⟩ := head?_eq_some_iff.mp hSlash
                  rw [nextPath_append]
                  by_contra hThere
                  obtain ⟨node, hNode, -⟩ := hRooted.dirs _ dest (Option.isSome_iff_ne_none.mpr hThere)
                    ((mem_ancestors _ _).mpr ⟨tail, rfl⟩)
                  rw [hAbsent] at hNode
                  cases hNode
            have hPage : m.store.Pageable source := fun row hRow _ => by
              obtain ⟨hNode, hList⟩ := (WorldSqlStore.mem_selected hKeyed source row.1 row.2).mp hRow
              exact hNorm row.1 (.inl (Option.isSome_of_eq_some hNode)) hList
            obtain ⟨after, hAfter⟩ : ∃ after, m.rename now source dest = (.ok (), after) := by
              refine rename_goes hKeyed hP hT hAbsent hOut hFree hPage hLists (fun moved hMoved hEq row hRow _ => ?_)
              obtain ⟨hNode, hList⟩ := (WorldSqlStore.mem_selected hMoved source row.1 row.2).mp hRow
              refine hNorm row.1 ?_ hList
              rcases hEq row.1 with hOld | hNew
              · exact .inl (Option.isSome_of_eq_some (hOld.symm.trans hNode))
              · exact .inr hNew
            rw [hCall] at hAfter
            cases (Prod.mk.inj hAfter).1

end Mutation

namespace WorldSqlStore

open Mutation (RefusesFirst)
open Transition

variable {store after : WorldSqlStore} {now : Int}

variable {e : WorldError}

variable {α : Type}

theorem mutate_error {operation : Mutation → Except WorldError α × Mutation}
    (h : store.mutate operation = (.error e, after)) : ∃ m, operation store.start = (.error e, m) ∧ after = m.store := by
  unfold mutate at h
  cases hRes : operation store.start with
  | mk result m =>
    rw [show operation ⟨store, []⟩ = (result, m) from hRes] at h
    cases result with
    | error other =>
      obtain ⟨hError, hAfter⟩ := Prod.mk.inj h
      exact ⟨m, by rw [Except.error.inj hError], hAfter.symm⟩
    | ok value =>
      dsimp only at h
      split at h
      · cases (Prod.mk.inj h).1
      · cases (Prod.mk.inj h).1

theorem outcome_error {result : Except WorldError α × WorldSqlStore}
    (h : (outcome result).1 = .error e) : result = (.error e, (outcome result).2) := by
  obtain ⟨inner, left⟩ := result
  cases inner with
  | error other => rw [show other = e from Except.error.inj h]; rfl
  | ok value => cases h

def PutsGo (store : WorldSqlStore) (gone : Text → Prop) (entries : List (Text × Node)) : Prop :=
  ∀ entry ∈ entries, ∀ a ∈ ancestors entry.1, (store.start.Blocks a → gone a) ∧
    ∀ other ∈ entries, other.1 = a → other.2.kind = .dir

def PutBlocked (store : WorldSqlStore) (entries : List (Text × Node)) : Prop :=
  ∃ entry rest, entries = entry :: rest ∧ store.start.ClearAbove entry.1 ∧ ∃ a ∈ ancestors entry.1, store.start.Blocks a

def ChangesClean (store : WorldSqlStore) (gone : List Text) (entries : List (Text × Node)) : Prop :=
  let deleted := longestFirst (gone.eraseDups.filter (fun path => !isWorldDrivePath path))
  (store.start.Rooted ∧ (∀ d ∈ gone, (store.entryRow d).isSome = true → store.start.Lists d) ∧
      store.PutsGo (fun a => a ∈ gone) entries) ∨
    RefusesFirst store.start.PassedOver store.start.Refused deleted ∨
    ((∀ d ∈ gone, store.start.PassedOver d) ∧ store.PutBlocked (shortestFirst entries))

def DiffClean (store : WorldSqlStore) (gone : List Text) (entries : List (Text × Node)) : Prop :=
  ((∀ d ∈ gone, (store.entryRow d).isSome = true → store.Pageable d) ∧
      store.PutsGo (fun a => ∃ d ∈ gone, (store.entryRow d).isSome = true ∧ pathWithin a d = true) entries) ∨
    RefusesFirst (fun d => store.entryRow d = none) (fun d => ∃ e, store.allEntries d = .error e) (longestFirst gone) ∨
    ((∀ d ∈ gone, store.entryRow d = none) ∧ store.PutBlocked (shortestFirst entries))

def FailsEarly (store : WorldSqlStore) : Call → Prop
  | .writeFile _ input _ _ _ _ => store.start.ClearAbove input
  | .mkdir _ input _ => store.start.ClearAbove input
  | .symlink _ input _ => store.start.ClearAbove input
  | .rename _ fromInput toInput => store.start.RenameClean fromInput toInput
  | .pushChanges now entries gone =>
    ∀ puts, store.screenChanges now entries = .ok (puts, []) → store.ChangesClean gone puts
  | .pushDiff now entries gone => ∀ puts, store.screenDiff now entries = .ok (puts, []) → store.DiffClean gone puts
  | .commitShell now _ _ _ entries gone =>
    ∀ puts, store.screenDiff now entries = .ok (puts, []) → store.DiffClean gone puts
  | _ => True

theorem drive_below {a q : Text} (hDrive : isWorldDrivePath a = true) (hBelow : a ∈ ancestors q) :
    isWorldDrivePath q = true := by
  obtain ⟨suffix, rfl, hSuf⟩ := (pathWithin_iff (by decide)).mp hDrive
  obtain ⟨tail, rfl⟩ := (mem_ancestors _ _).mp hBelow
  refine (pathWithin_iff (by decide)).mpr ⟨suffix ++ '/' :: tail, by rw [append_assoc], .inr ?_⟩
  rcases hSuf with rfl | hSlash
  · rfl
  · rw [head?_append, hSlash]
    rfl

variable {input : List WorldListingEntry}

theorem puts_go {made : Mutation} {entries : List (Text × Node)} {gone : Text → Prop}
    (hScreened : Screened input entries) (hPuts : store.PutsGo gone entries) (hMade : made.Keyed)
    (hRows : ∀ q, made.entryRow q = store.entryRow q ∨ made.entryRow q = none)
    (hGone : ∀ entry ∈ entries, ∀ a ∈ ancestors entry.1, gone a → store.start.Blocks a → made.entryRow a = none) :
    ∃ later, made.putNodes now (shortestFirst entries) = (.ok (), later) := by
  refine Mutation.putNodes_goes hMade (fun entry hEnt => ?_) (fun entry hEnt a hA => ?_)
    (fun entry hEnt other hOther hA => ?_)
  · obtain ⟨hNorm, hOut, -⟩ := hScreened.given entry ((mem_shortestFirst _ _).mp hEnt)
    exact ⟨hNorm, hOut⟩
  · rintro ⟨node, hRow, hKind⟩
    have hEq : store.start.Blocks a := by
      rcases hRows a with hOld | hNone
      · exact ⟨node, hOld.symm.trans hRow, hKind⟩
      · rw [hNone] at hRow
        cases hRow
    have hNamed := (hPuts entry ((mem_shortestFirst _ _).mp hEnt) a hA).1 hEq
    rw [hGone entry ((mem_shortestFirst _ _).mp hEnt) a hA hNamed hEq] at hRow
    cases hRow
  · exact (hPuts entry ((mem_shortestFirst _ _).mp hEnt) other.1 hA).2 other ((mem_shortestFirst _ _).mp hOther) rfl

section

variable (hKeyed : store.live.dirents.Keyed)
include hKeyed

variable {gone : List Text}

theorem pushChanges_clean
    (hClean : ∀ puts, store.screenChanges now input = .ok (puts, []) → store.ChangesClean gone puts)
    (h : store.pushChanges now input gone = (.error e, after)) : Unchanged store after := by
  unfold pushChanges at h
  dsimp only at h
  cases hScreen : store.screenChanges now input with
  | error e =>
    rw [hScreen] at h
    exact (Prod.mk.inj h).2 ▸ Unchanged.refl store
  | ok screened =>
    obtain ⟨entries, missing⟩ := screened
    rw [hScreen] at h
    dsimp only at h
    split at h
    · cases (Prod.mk.inj h).1
    rename_i hMissing
    obtain rfl : missing = [] := not_not.mp hMissing
    cases hAll : normalizeAll gone with
    | error e =>
      rw [hAll] at h
      exact (Prod.mk.inj h).2 ▸ Unchanged.refl store
    | ok normals =>
      obtain ⟨rfl, hNormals⟩ := normalizeAll_ok hAll
      rw [hAll] at h
      dsimp only at h
      split at h
      · cases (Prod.mk.inj h).1
      split at h
      · exact (Prod.mk.inj h).2 ▸ Unchanged.refl store
      split at h
      · rename_i hMutate
        obtain ⟨m, hApply, hAfter⟩ := mutate_error hMutate
        obtain rfl := (Prod.mk.inj h).2
        have hGiven : ∀ d, d ∈ longestFirst (normals.eraseDups.filter (fun path => !isWorldDrivePath path)) → d ∈ normals := by
          intro d hD
          rw [mem_longestFirst, mem_filter, mem_eraseDups] at hD
          exact hD.1
        suffices hEq : m = store.start by
          rw [hAfter, hEq]
          exact Unchanged.refl store
        rcases hClean entries hScreen with ⟨hRooted, hLists, hPuts⟩ | hRefuses | ⟨hPassed, entry, rest, hEnts, hClear, a, hA, hBlocks⟩
        · obtain ⟨made, hDel⟩ := hRooted.deleteKnown_goes (fun d hD => hNormals d (hGiven d hD))
            (fun d hD => hLists d (hGiven d hD))
          obtain ⟨hMade, hRows⟩ := Mutation.deleteKnown_rows hRooted.keyed hDel
          have hScreened := screened_changes hScreen
          obtain ⟨later, hLater⟩ : ∃ later, made.putNodes now (shortestFirst entries) = (.ok (), later) :=
            puts_go hScreened hPuts hMade (fun q => (hRows q).1) (fun entry hEnt a hA hNamed hBlocks => by
              refine (hRows a).2 ?_ hBlocks
              rw [mem_longestFirst, mem_filter, mem_eraseDups]
              refine ⟨hNamed, ?_⟩
              rw [Bool.not_eq_true', Bool.eq_false_iff]
              intro hDrive
              have hOut := (hScreened.given entry hEnt).2.1
              rw [drive_below hDrive hA] at hOut
              cases hOut)
          rw [hDel] at hApply
          dsimp only at hApply
          rw [hLater] at hApply
          cases (Prod.mk.inj hApply).1
        · obtain ⟨error, hDel⟩ := Mutation.deleteKnown_refused hKeyed hRefuses
          rw [hDel] at hApply
          exact (Prod.mk.inj hApply).2.symm
        · rw [Mutation.deleteKnown_passed (fun d hD => hPassed d (hGiven d hD))] at hApply
          dsimp only at hApply
          rw [hEnts] at hApply
          exact Mutation.putNodes_blocked hKeyed hA hBlocks hClear hApply
      · cases (Prod.mk.inj h).1

theorem pushDiff_clean
    (hClean : ∀ puts, store.screenDiff now input = .ok (puts, []) → store.DiffClean gone puts)
    (h : store.pushDiff now input gone = (.error e, after)) : Unchanged store after := by
  unfold pushDiff at h
  dsimp only at h
  cases hScreen : store.screenDiff now input with
  | error e =>
    rw [hScreen] at h
    exact (Prod.mk.inj h).2 ▸ Unchanged.refl store
  | ok screened =>
    obtain ⟨entries, missing⟩ := screened
    rw [hScreen] at h
    dsimp only at h
    split at h
    · cases (Prod.mk.inj h).1
    rename_i hMissing
    obtain rfl : missing = [] := not_not.mp hMissing
    split at h
    · exact (Prod.mk.inj h).2 ▸ Unchanged.refl store
    cases hAll : normalizeAll gone with
    | error e =>
      rw [hAll] at h
      exact (Prod.mk.inj h).2 ▸ Unchanged.refl store
    | ok normals =>
      obtain ⟨rfl, hNormals⟩ := normalizeAll_ok hAll
      rw [hAll] at h
      dsimp only at h
      split at h
      · exact (Prod.mk.inj h).2 ▸ Unchanged.refl store
      split at h
      · rename_i hMutate
        obtain ⟨m, hApply, hAfter⟩ := mutate_error hMutate
        obtain rfl := (Prod.mk.inj h).2
        suffices hEq : m = store.start by
          rw [hAfter, hEq]
          exact Unchanged.refl store
        rcases hClean entries hScreen with ⟨hPage, hPuts⟩ | hRefuses | ⟨hPassed, entry, rest, hEnts, hClear, a, hA, hBlocks⟩
        · have hNorm : ∀ d ∈ longestFirst normals, isNormalPath d = true :=
            fun d hD => hNormals d ((mem_longestFirst _ _).mp hD)
          obtain ⟨made, hDel⟩ : ∃ made, store.start.deleteSubtrees (longestFirst normals) = (.ok (), made) :=
            Mutation.deleteSubtrees_goes hKeyed hNorm (fun d hD => hPage d ((mem_longestFirst _ _).mp hD))
          obtain ⟨hMade, hRows⟩ := Mutation.deleteSubtrees_rows hKeyed (fun d hD => ne_nil_of_normal (hNorm d hD)) hDel
          obtain ⟨later, hLater⟩ : ∃ later, made.putNodes now (shortestFirst entries) = (.ok (), later) :=
            puts_go (screened_diff hScreen) hPuts hMade (fun q => (hRows q).1) (fun entry _ a _ hNamed _ => by
              obtain ⟨d, hD, hRow, hWith⟩ := hNamed
              exact (hRows a).2 ⟨d, (mem_longestFirst _ _).mpr hD, hRow, hWith⟩)
          rw [hDel] at hApply
          dsimp only at hApply
          rw [hLater] at hApply
          cases (Prod.mk.inj hApply).1
        · obtain ⟨error, hDel⟩ : ∃ error, store.start.deleteSubtrees (longestFirst normals) = (.error error, store.start) :=
            Mutation.deleteSubtrees_refused hRefuses
          rw [hDel] at hApply
          exact (Prod.mk.inj hApply).2.symm
        · rw [Mutation.deleteSubtrees_passed (fun d hD => hPassed d ((mem_longestFirst _ _).mp hD))] at hApply
          dsimp only at hApply
          rw [hEnts] at hApply
          exact Mutation.putNodes_blocked hKeyed hA hBlocks hClear hApply
      · cases (Prod.mk.inj h).1

theorem commitShell_clean {baseRevision : Option Nat}
    {readPaths readChildren : List Text} {entries : List WorldListingEntry} {deleted : List Text}
    (hClean : ∀ puts, store.screenDiff now entries = .ok (puts, []) → store.DiffClean deleted puts)
    (h : store.commitShell now baseRevision readPaths readChildren entries deleted = (.error e, after)) :
    Unchanged store after := by
  unfold commitShell at h
  split at h
  · exact (Prod.mk.inj h).2 ▸ Unchanged.refl store
  dsimp only at h
  split at h
  · cases (Prod.mk.inj h).1
  split at h
  · cases (Prod.mk.inj h).1
  split at h
  · cases (Prod.mk.inj h).1
  split at h
  · rename_i hPush
    rw [← (Prod.mk.inj h).2]
    exact pushDiff_clean hKeyed hClean hPush
  · cases (Prod.mk.inj h).1

end

def twoFiles : WorldSqlStore :=
  run step initialized
    [.symlink 0 "f".toList "t".toList, .symlink 0 "g".toList "t".toList]

/-- A push that deletes `g` and puts a directory below the file `f`. -/
def belowFile (path : Text) (deleted : List Text) : Call :=
  .pushChanges 1 [{ path, kind := .dir, mode := some 0o755, size := some 0 }] deleted

theorem twoFiles_keyed : twoFiles.live.dirents.Keyed := ⟨by decide, by decide⟩

theorem belowFile_failsEarly : twoFiles.FailsEarly (belowFile "f/x".toList []) := by
  intro puts hScreen
  have hPuts : (twoFiles.screenChanges 1 [{ path := "f/x".toList, kind := .dir, mode := some 0o755, size := some 0 }]) =
      .ok ([("f/x".toList, ⟨.dir, 0o755, 1, 0, none, none⟩)], []) := by decide
  rw [hPuts] at hScreen
  obtain ⟨rfl, -⟩ := Prod.mk.inj (Except.ok.inj hScreen)
  refine .inr (.inr ⟨fun d hD => absurd hD not_mem_nil, _, [], rfl, ?_, "f".toList, by decide, ?_⟩)
  · intro b hB _ _ a hA
    have hNone : ∀ b ∈ ancestors "f/x".toList, ancestors b = [] := by decide
    rw [hNone b hB] at hA
    cases hA
  · exact ⟨_, rfl, by decide⟩

end WorldSqlStore

end Stella.World
