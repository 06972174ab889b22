import Stella.World.Mutations
import Stella.World.Touches

/-! # The live world as a tree

Every entry stands in a directory.
-/

namespace Stella.World

open List

theorem utf16Length_append (a b : Text) : utf16Length (a ++ b) = utf16Length a + utf16Length b := by
  unfold utf16Length
  rw [map_append, sum_append]

variable {path a : Text}

theorem utf16Length_lt_of_ancestor (h : a ∈ ancestors path) : utf16Length a < utf16Length path := by
  obtain ⟨suffix, rfl⟩ := (mem_ancestors _ _).mp h
  have hSlash : utf16Length ('/' :: suffix) = 1 + utf16Length suffix := by
    unfold utf16Length
    rw [map_cons, sum_cons]
    rfl
  rw [utf16Length_append, hSlash]
  omega

theorem not_ancestor_self (path : Text) : path ∉ ancestors path :=
  fun h => lt_irrefl _ (utf16Length_lt_of_ancestor h)

theorem ancestors_trans {b : Text} (hB : b ∈ ancestors path) (hA : a ∈ ancestors b) : a ∈ ancestors path := by
  obtain ⟨suffix, rfl⟩ := (mem_ancestors _ _).mp hB
  obtain ⟨rest, rfl⟩ := (mem_ancestors _ _).mp hA
  exact (mem_ancestors _ _).mpr ⟨rest ++ '/' :: suffix, by simp⟩

theorem ancestors_append {front suffix : Text} (hSuf : suffix = [] ∨ suffix.head? = some '/')
    (h : a ∈ ancestors (front ++ suffix)) :
    a ∈ ancestors front ∨ ∃ lead rest, a = front ++ lead ∧ suffix = lead ++ '/' :: rest ∧ (lead = [] ∨ lead.head? = some '/') := by
  obtain ⟨rest, hEq⟩ := (mem_ancestors _ _).mp h
  rcases append_eq_append_iff.mp hEq with ⟨lead, hA, hRest⟩ | ⟨middle, hFront, hRest⟩
  · refine .inr ⟨lead, rest, hA, hRest, ?_⟩
    cases lead with
    | nil => exact .inl rfl
    | cons c lead =>
      rcases hSuf with hNil | hHead
      · rw [hNil] at hRest
        cases hRest
      · rw [hRest] at hHead
        exact .inr hHead
  · cases middle with
    | nil =>
      refine .inr ⟨[], rest, ?_, ?_, .inl rfl⟩
      · rw [hFront, append_nil, append_nil]
      · rw [nil_append] at hRest
        rw [nil_append, hRest]
    | cons c middle =>
      obtain ⟨rfl, -⟩ := List.cons.inj hRest
      exact .inl ((mem_ancestors _ _).mpr ⟨middle, hFront⟩)

theorem parentPath_mem (h : parentPath path ≠ []) : parentPath path ∈ ancestors path := by
  rw [mem_ancestors]
  unfold parentPath at h ⊢
  cases hDrop : path.reverse.dropWhile (· ≠ '/') with
  | nil =>
    rw [hDrop] at h
    exact absurd rfl h
  | cons c rest =>
    have hSlash : c = '/' := by
      have hHead := head?_dropWhile_not (· ≠ '/') path.reverse
      rw [hDrop] at hHead
      simpa using hHead
    refine ⟨(path.reverse.takeWhile (· ≠ '/')).reverse, ?_⟩
    have hSplit := takeWhile_append_dropWhile (p := (· ≠ '/')) (l := path.reverse)
    rw [hDrop] at hSplit
    have hPath := congrArg List.reverse hSplit
    rw [reverse_reverse, reverse_append, reverse_cons] at hPath
    refine hPath.symm.trans ?_
    rw [hSlash]
    simp

theorem listed_below {p q : Text} (hList : WorldSqlStore.listed p a = true) (hBelow : a ∈ ancestors q) :
    WorldSqlStore.listed p q = true := by
  obtain ⟨suffix, rfl⟩ := (mem_ancestors _ _).mp hBelow
  unfold WorldSqlStore.listed at hList ⊢
  rw [Bool.or_eq_true, Bool.or_eq_true] at hList ⊢
  rcases hList with (hRoot | hEq) | hLike
  · exact .inl (.inl hRoot)
  · refine .inr ?_
    rw [of_decide_eq_true hEq]
    have hRest : Sql.like ['/', '%'] ('/' :: suffix) = true := by
      rw [Sql.like_cons_cons (by decide), Sql.like_percent]
      simp
    exact Sql.like_append_self p hRest
  · refine .inr ?_
    have hPattern : p ++ ['/', '%'] = (p ++ ['/']) ++ ['%'] := by simp
    rw [hPattern] at hLike ⊢
    exact Sql.like_extend (p ++ ['/']) ('/' :: suffix) hLike

namespace Mutation

variable {m later : Mutation} {now : Int} {p t : Text}

def isDir (m : Mutation) (path : Text) : Prop := ∃ node, m.entryRow path = some node ∧ node.kind = .dir

structure Rooted (m : Mutation) : Prop where
  keyed : m.Keyed
  dirs : ∀ q a, (m.entryRow q).isSome = true → a ∈ ancestors q → m.isDir a

def Childless (m : Mutation) (path : Text) : Prop := ∀ q, (m.entryRow q).isSome = true → path ∉ ancestors q

theorem Rooted.childless (h : m.Rooted) {path : Text} (hNone : ¬ m.isDir path) : m.Childless path :=
  fun q hRow hBelow => hNone (h.dirs q path hRow hBelow)

variable {node : Node}

theorem Rooted.put (h : m.Rooted) {path : Text} (hAbove : ∀ a ∈ ancestors path, m.isDir a)
    (hBelow : node.kind = .dir ∨ m.Childless path) (hKeyed : later.Keyed)
    (hRows : ∀ q, later.entryRow q = if q = path then some node else m.entryRow q) : later.Rooted := by
  have hKept : ∀ a, a ≠ path → m.isDir a → later.isDir a := by
    rintro a hOther ⟨other, hRow, hDir⟩
    exact ⟨other, by rw [hRows, if_neg hOther, hRow], hDir⟩
  refine ⟨hKeyed, fun q a hRow hA => ?_⟩
  by_cases hSame : q = path
  · subst hSame
    exact hKept a (fun hEq => not_ancestor_self q (hEq ▸ hA)) (hAbove a hA)
  · rw [hRows, if_neg hSame] at hRow
    by_cases hHere : a = path
    · subst hHere
      refine ⟨node, by rw [hRows, if_pos rfl], hBelow.resolve_right (fun hChildless => hChildless q hRow hA)⟩
    · exact hKept a hHere (h.dirs q a hRow hA)

theorem Rooted.parented (h : m.Rooted) {path : Text} (hParented : Parented now (ancestors path) m later) :
    later.Rooted ∧ ∀ a ∈ ancestors path, later.isDir a := by
  have hMade : ∀ a ∈ ancestors path, later.isDir a := by
    intro a hA
    cases hRow : m.entryRow a with
    | none => exact ⟨newDir now, by rw [hParented.rows, if_pos ⟨hA, hRow⟩], rfl⟩
    | some node =>
      refine ⟨node, ?_, hParented.dirs a hA node hRow⟩
      rw [hParented.rows, if_neg, hRow]
      rintro ⟨-, hNone⟩
      rw [hRow] at hNone
      cases hNone
  refine ⟨⟨hParented.keyed, fun q a hRow hA => ?_⟩, hMade⟩
  by_cases hNew : q ∈ ancestors path
  · exact hMade a (ancestors_trans hNew hA)
  · rw [hParented.rows, if_neg (fun hBoth => hNew hBoth.1)] at hRow
    obtain ⟨node, hNode, hDir⟩ := h.dirs q a hRow hA
    refine ⟨node, ?_, hDir⟩
    rw [hParented.rows, if_neg, hNode]
    rintro ⟨-, hNone⟩
    rw [hNode] at hNone
    cases hNone

variable {isRecursive : Bool}

theorem Rooted.removed (h : m.Rooted) (hRem : Removed m p isRecursive later) : later.Rooted := by
  refine ⟨hRem.keyed, fun q a hRow hA => ?_⟩
  rw [hRem.rows] at hRow
  split at hRow
  · cases hRow
  · rename_i hUnlisted
    obtain ⟨node, hNode, hDir⟩ := h.dirs q a hRow hA
    refine ⟨node, ?_, hDir⟩
    rw [hRem.rows, if_neg (fun hList => hUnlisted (listed_below hList hA)), hNode]

theorem Rooted.moved {made : Mutation} (hMade : made.Rooted) (hAbove : ∀ a ∈ ancestors t, made.isDir a)
    (hP : p ≠ []) {entries : List WorldEntry}
    (hSrc : ∀ entry ∈ entries, ∃ suffix, entry.path = p ++ suffix ∧ (suffix = [] ∨ suffix.head? = some '/'))
    (hAll : ∀ q node, made.entryRow q = some node → pathWithin q p = true → (⟨q, node⟩ : WorldEntry) ∈ entries)
    (hRows : ∀ entry ∈ entries, made.entryRow entry.path = some entry.node)
    (hMoved : Moved p t entries made later) : later.Rooted := by
  have hKept : ∀ a, made.isDir a → later.isDir a := by
    rintro a ⟨node, hRow, hDir⟩
    refine ⟨node, ?_, hDir⟩
    rw [hMoved.rows]
    cases hFind : entries.find? (fun entry => nextPath p t entry.path = a) with
    | none => exact hRow
    | some entry =>
      have hFree := hMoved.free entry (mem_of_find?_eq_some hFind)
      have hNext : nextPath p t entry.path = a := by simpa using find?_some hFind
      rw [hNext, hRow] at hFree
      cases hFree
  have hTgt : ∀ entry ∈ entries, entry.node.kind = .dir → later.isDir (nextPath p t entry.path) := by
    intro entry hEnt hDir
    rw [isDir, hMoved.rows]
    cases hFind : entries.find? (fun other => nextPath p t other.path = nextPath p t entry.path) with
    | none => exact absurd (decide_eq_true rfl) (find?_eq_none.mp hFind entry hEnt)
    | some other =>
      have hNext : nextPath p t other.path = nextPath p t entry.path := by simpa using find?_some hFind
      have hOther := mem_of_find?_eq_some hFind
      obtain ⟨suffix, hPath, -⟩ := hSrc entry hEnt
      obtain ⟨suffix', hPath', -⟩ := hSrc other hOther
      rw [hPath, hPath', nextPath_append, nextPath_append] at hNext
      have hEq : other.path = entry.path := by rw [hPath, hPath', append_cancel_left hNext]
      have hNode : some other.node = some entry.node := by rw [← hRows other hOther, ← hRows entry hEnt, hEq]
      exact ⟨other.node, rfl, Option.some.inj hNode ▸ hDir⟩
  refine ⟨hMoved.keyed, fun q a hRow hA => ?_⟩
  rw [hMoved.rows] at hRow
  cases hFind : entries.find? (fun entry => nextPath p t entry.path = q) with
  | none =>
    rw [hFind] at hRow
    exact hKept a (hMade.dirs q a hRow hA)
  | some entry =>
    have hEnt := mem_of_find?_eq_some hFind
    have hNext : nextPath p t entry.path = q := by simpa using find?_some hFind
    obtain ⟨suffix, hPath, hSuf⟩ := hSrc entry hEnt
    rw [hPath, nextPath_append] at hNext
    rcases ancestors_append hSuf (hNext ▸ hA) with hFront | ⟨lead, rest, rfl, hRest, hLead⟩
    · exact hKept a (hAbove a hFront)
    · have hBelow : p ++ lead ∈ ancestors entry.path := by
        rw [hPath, hRest, ← append_assoc]
        exact (mem_ancestors _ _).mpr ⟨rest, rfl⟩
      obtain ⟨node, hNode, hDir⟩ := hMade.dirs entry.path _ (Option.isSome_of_eq_some (hRows entry hEnt)) hBelow
      have hMoves := hTgt _ (hAll _ node hNode (pathWithin_append hP hLead)) hDir
      rwa [nextPath_append] at hMoves

theorem Rooted.renamed (h : m.Rooted) (hP : p ≠ []) (hLists : m.Lists p) (hRenamed : Renamed now p t m later) :
    later.Rooted := by
  obtain ⟨-, hOutside, -, made, moved, hParented, hMoved, hRem⟩ := hRenamed
  obtain ⟨hMade, hAbove⟩ := h.parented hParented
  refine Rooted.removed (Rooted.moved hMade hAbove hP ?_ ?_ (hParented.kept h.keyed) hMoved) hRem
  · intro entry hEnt
    obtain ⟨suffix, hPath, hSuf, -⟩ := source_within h.keyed hP hLists hEnt
    exact ⟨suffix, hPath, hSuf⟩
  · intro q node hRow hWith
    have hOld : q ∉ ancestors t := fun hMem => by
      rw [not_within_of_ancestor hP hOutside hMem] at hWith
      cases hWith
    rw [hParented.rows, if_neg (fun hBoth => hOld hBoth.1)] at hRow
    exact (mem_sources h.keyed p ⟨q, node⟩).mpr ⟨hRow, listed_of_within hWith⟩

@[simp] theorem entryRow_clearTombstone (m : Mutation) (path q : Text) : (m.clearTombstone path).entryRow q = m.entryRow q := rfl

@[simp] theorem entryRow_unpin (m : Mutation) (node : Node) (q : Text) : (m.unpin node).entryRow q = m.entryRow q := by
  unfold unpin
  split <;> rfl

theorem keyed_unpin (h : m.Keyed) (node : Node) : (m.unpin node).Keyed := by
  unfold unpin
  split <;> exact h

theorem Rooted.unpin (h : m.Rooted) (node : Node) : (m.unpin node).Rooted := by
  refine ⟨keyed_unpin h.keyed node, fun q a hRow hA => ?_⟩
  rw [entryRow_unpin] at hRow
  obtain ⟨other, hOther, hDir⟩ := h.dirs q a hRow hA
  exact ⟨other, by rw [entryRow_unpin, hOther], hDir⟩

structure Put (now : Int) (path : Text) (node : Node) (m later : Mutation) : Prop where
  normal : isNormalPath path = true
  steps : ∃ made, Parented now (ancestors path) m made ∧
    ∀ q, later.entryRow q = if q = path then some node else made.entryRow q
  keyed : later.Keyed

theorem putNode_ok (hKeyed : m.Keyed) {path : Text} (h : m.putNode now path node = (.ok (), later)) :
    Put now path node m later := by
  unfold putNode at h
  split at h
  · cases (Prod.mk.inj h).1
  rename_i hNorm
  rw [Bool.not_eq_true', Bool.not_eq_false] at hNorm
  split at h
  · cases (Prod.mk.inj h).1
  cases hParents : ensureParents now (ancestors path) m with
  | mk result made =>
    rw [hParents] at h
    cases result with
    | error e => cases (Prod.mk.inj h).1
    | ok _ =>
      obtain rfl := (Prod.mk.inj h).2
      have hMade := ensureParents_ok now (nodup_ancestors path) (fun a hA => ancestors_ne_nil hNorm hA) hKeyed hParents
      refine ⟨hNorm, ⟨made, hMade, fun q => ?_⟩, ?_⟩
      · rw [entryRow_clearTombstone, entryRow_upsert]
      · exact hMade.keyed.upsert (ne_nil_of_isNormal hNorm) node

theorem Put.rows_of_new {path : Text} (h : Put now path node m later) {q : Text}
    (hRow : (later.entryRow q).isSome = true) : (m.entryRow q).isSome = true ∨ q = path ∨ q ∈ ancestors path := by
  obtain ⟨-, ⟨made, hMade, hRows⟩, -⟩ := h
  rw [hRows] at hRow
  split at hRow
  · rename_i hEq
    exact .inr (.inl hEq)
  · rw [hMade.rows] at hRow
    split at hRow
    · rename_i hNew
      exact .inr (.inr hNew.1)
    · exact .inl hRow

theorem Rooted.putNode (h : m.Rooted) {path : Text} (hBelow : node.kind = .dir ∨ m.Childless path)
    (hPut : Put now path node m later) : later.Rooted := by
  obtain ⟨-, ⟨made, hMade, hRows⟩, hKeyed⟩ := hPut
  obtain ⟨hRooted, hAbove⟩ := h.parented hMade
  refine hRooted.put hAbove (hBelow.imp_right (fun hChildless q hRow hAncestor => ?_)) hKeyed hRows
  rw [hMade.rows] at hRow
  split at hRow
  · rename_i hNew
    exact not_ancestor_self path (ancestors_trans hNew.1 hAncestor)
  · exact hChildless q hRow hAncestor

theorem Rooted.putNodes (h : m.Rooted) {entries : List (Text × Node)}
    (hSort : entries.Pairwise (fun a b => utf16Length a.1 ≤ utf16Length b.1))
    (hBelow : ∀ entry ∈ entries, entry.2.kind = .dir ∨ m.Childless entry.1)
    (hPuts : m.putNodes now entries = (.ok (), later)) : later.Rooted := by
  induction entries generalizing m with
  | nil =>
    obtain rfl := (Prod.mk.inj hPuts).2
    exact h
  | cons entry rest ih =>
    obtain ⟨hShorter, hRest⟩ := pairwise_cons.mp hSort
    rw [forall_mem_cons] at hBelow
    unfold Mutation.putNodes at hPuts
    cases hHead : m.putNode now entry.1 entry.2 with
    | mk result made =>
      rw [hHead] at hPuts
      cases result with
      | error e => cases (Prod.mk.inj hPuts).1
      | ok _ =>
        have hPut := putNode_ok h.keyed hHead
        refine ih ((h.putNode hBelow.1 hPut).unpin entry.2) hRest (fun other hOther => ?_) hPuts
        refine (hBelow.2 other hOther).imp_right (fun hChildless q hRow hAncestor => ?_)
        rw [entryRow_unpin] at hRow
        have hLonger := utf16Length_lt_of_ancestor hAncestor
        have hLen := hShorter other hOther
        rcases hPut.rows_of_new hRow with hOld | rfl | hNew
        · exact hChildless q hOld hAncestor
        · omega
        · have hLess := utf16Length_lt_of_ancestor hNew
          omega

theorem remove_normal {input : Text} (h : m.remove input isRecursive = (.ok (), later)) :
    isNormalPath input = true := by
  by_contra hBad
  have hError : normalizeWorldPath input false = .error (.invalidPath input) := by
    unfold normalizeWorldPath
    rw [if_neg (by simp), if_neg hBad]
  unfold remove at h
  rw [hError] at h
  cases (Prod.mk.inj h).1

theorem Removed.kept (h : Removed m p isRecursive later) {q : Text}
    (hRow : (later.entryRow q).isSome = true) : (m.entryRow q).isSome = true ∧ pathWithin q p = false := by
  rw [h.rows] at hRow
  split at hRow
  · cases hRow
  · rename_i hUnlisted
    exact ⟨hRow, Bool.eq_false_iff.mpr (fun hWith => hUnlisted (listed_of_within hWith))⟩

theorem Rooted.deleteKnown (h : m.Rooted) {deleted : List Text}
    (hSort : deleted.Pairwise (fun a b => utf16Length b ≤ utf16Length a))
    (hDel : m.deleteKnown deleted = (.ok (), later)) :
    later.Rooted ∧ ∀ top, (∀ q, (m.entryRow q).isSome = true → top ∈ ancestors q → q ∈ deleted) → later.Childless top := by
  induction deleted generalizing m with
  | nil =>
    obtain rfl := (Prod.mk.inj hDel).2
    exact ⟨h, fun top hAll q hRow hBelow => absurd (hAll q hRow hBelow) not_mem_nil⟩
  | cons path rest ih =>
    obtain ⟨hLonger, hRest⟩ := pairwise_cons.mp hSort
    unfold Mutation.deleteKnown at hDel
    cases hRow : m.store.entryRow path with
    | none =>
      rw [hRow] at hDel
      dsimp only at hDel
      obtain ⟨hLater, hChildless⟩ := ih h hRest hDel
      refine ⟨hLater, fun top hAll => hChildless top (fun q hSome hBelow => ?_)⟩
      rcases mem_cons.mp (hAll q hSome hBelow) with rfl | hMem
      · have hGone : m.entryRow q = none := hRow
        rw [hGone] at hSome
        cases hSome
      · exact hMem
    | some node =>
      rw [hRow] at hDel
      dsimp only at hDel
      split at hDel
      · rename_i hStays
        obtain ⟨hLater, hChildless⟩ := ih h hRest hDel
        refine ⟨hLater, fun top hAll => hChildless top (fun q hSome hBelow => ?_)⟩
        rcases mem_cons.mp (hAll q hSome hBelow) with rfl | hMem
        · -- the directory stays for a child, which is below `top` too and longer than all that is left
          obtain ⟨child, hChild, hParent⟩ := any_eq_true.mp hStays.2
          have hParent : parentPath child.1 = q := of_decide_eq_true hParent
          have hPath : q ≠ [] := h.keyed.named q (InsertionMap.mem_keys_iff.mpr hSome)
          have hAncestor : q ∈ ancestors child.1 := hParent ▸ parentPath_mem (hParent ▸ hPath)
          have hChildRow : (m.entryRow child.1).isSome = true :=
            Option.isSome_of_eq_some ((WorldSqlStore.mem_dirents_iff h.keyed child.1 child.2).mp hChild)
          have hLen := utf16Length_lt_of_ancestor hAncestor
          rcases mem_cons.mp (hAll child.1 hChildRow (ancestors_trans hAncestor hBelow)) with hEq | hLeft
          · rw [hEq] at hLen
            exact absurd hLen (lt_irrefl _)
          · exact absurd (hLonger child.1 hLeft) (not_le.mpr hLen)
        · exact hMem
      · cases hRemove : m.remove path false with
        | mk result removed =>
          rw [hRemove] at hDel
          cases result with
          | error e => cases (Prod.mk.inj hDel).1
          | ok _ =>
            have hRem := remove_ok h.keyed (remove_normal hRemove) hRemove
            obtain ⟨hLater, hChildless⟩ := ih (h.removed hRem) hRest hDel
            refine ⟨hLater, fun top hAll => hChildless top (fun q hSome hBelow => ?_)⟩
            obtain ⟨hOld, hOut⟩ := hRem.kept hSome
            rcases mem_cons.mp (hAll q hOld hBelow) with rfl | hMem
            · simp [pathWithin] at hOut
            · exact hMem

theorem Rooted.deleteSubtrees (h : m.Rooted) {deleted : List Text} (hNamed : ∀ d ∈ deleted, d ≠ [])
    (hDel : m.deleteSubtrees deleted = (.ok (), later)) :
    later.Rooted ∧ ∀ top, (∀ q, (m.entryRow q).isSome = true → top ∈ ancestors q →
      ∃ d ∈ deleted, pathWithin q d = true) → later.Childless top := by
  induction deleted generalizing m with
  | nil =>
    obtain rfl := (Prod.mk.inj hDel).2
    refine ⟨h, fun top hAll q hRow hBelow => ?_⟩
    obtain ⟨d, hMem, -⟩ := hAll q hRow hBelow
    cases hMem
  | cons path rest ih =>
    rw [forall_mem_cons] at hNamed
    unfold Mutation.deleteSubtrees at hDel
    split at hDel
    · cases hRemove : m.remove path true with
      | mk result removed =>
        rw [hRemove] at hDel
        cases result with
        | error e => cases (Prod.mk.inj hDel).1
        | ok _ =>
          have hRem := remove_ok h.keyed (remove_normal hRemove) hRemove
          obtain ⟨hLater, hChildless⟩ := ih (h.removed hRem) hNamed.2 hDel
          refine ⟨hLater, fun top hAll => hChildless top (fun q hSome hBelow => ?_)⟩
          obtain ⟨hOld, hOut⟩ := hRem.kept hSome
          obtain ⟨d, hMem, hWith⟩ := hAll q hOld hBelow
          rcases mem_cons.mp hMem with rfl | hLeft
          · rw [hWith] at hOut
            cases hOut
          · exact ⟨d, hLeft, hWith⟩
    · rename_i hAbsent
      obtain ⟨hLater, hChildless⟩ := ih h hNamed.2 hDel
      refine ⟨hLater, fun top hAll => hChildless top (fun q hSome hBelow => ?_)⟩
      obtain ⟨d, hMem, hWith⟩ := hAll q hSome hBelow
      rcases mem_cons.mp hMem with rfl | hLeft
      · -- nothing is within a path that is absent
        obtain ⟨suffix, rfl, rfl | hSlash⟩ := (pathWithin_iff hNamed.1).mp hWith
        · rw [append_nil] at hSome
          exact absurd hSome hAbsent
        · obtain ⟨tail, rfl⟩ := head?_eq_some_iff.mp hSlash
          obtain ⟨node, hNode, -⟩ := h.dirs _ d hSome ((mem_ancestors _ _).mpr ⟨tail, rfl⟩)
          exact absurd (Option.isSome_of_eq_some hNode) hAbsent
      · exact ⟨d, hLeft, hWith⟩

end Mutation

end Stella.World
