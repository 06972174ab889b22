import Stella.World.Changes
import Stella.World.Throws

/-! # A cell's commit

`commitShell` checks what a cell read and wrote against the change log and then applies its change
set.
-/

namespace Stella.World

open Transition List

def WorldListingEntry.put (now : Int) (entry : WorldListingEntry) : Option (Text × Node) :=
  (entry.node now).toOption.map (fun node => (entry.path, node))

def lastPut : List (Text × Node) → Text → Option Node
  | [], _ => none
  | put :: rest, q => (lastPut rest q).or (if put.1 = q then some put.2 else none)

def withPuts (now : Int) (rows : Text → Option Node) (puts : List (Text × Node)) (q : Text) : Option Node :=
  ((lastPut puts q).or (rows q)).or (if puts.any (fun put => q ∈ ancestors put.1) then some (Mutation.newDir now) else none)

def pruned (rows : Text → Option Node) (deleted : List Text) (q : Text) : Option Node :=
  if deleted.any (fun d => pathWithin q d) then none else rows q

def applied (now : Int) (rows : Text → Option Node) (entries : List WorldListingEntry) (deleted : List Text) :
    Text → Option Node :=
  withPuts now (pruned rows deleted) (entries.filterMap (WorldListingEntry.put now))

theorem lastPut_orderedInsert (put : Text × Node) (puts : List (Text × Node)) (q : Text) :
    lastPut (puts.orderedInsert (fun a b => utf16Length a.1 ≤ utf16Length b.1) put) q = lastPut (put :: puts) q := by
  induction puts with
  | nil => rfl
  | cons head rest ih =>
    rw [orderedInsert_cons]
    split
    · rfl
    · rename_i hLonger
      change (lastPut _ q).or _ = ((lastPut rest q).or _).or _
      rw [ih]
      change ((lastPut rest q).or _).or _ = _
      -- of two different paths at most one is `q`
      rcases eq_or_ne put.1 q with hPut | hPut
      · have hHead : head.1 ≠ q := fun hEq => hLonger (by rw [hPut, hEq])
        simp [hHead]
      · simp [hPut]

theorem lastPut_shortestFirst (puts : List (Text × Node)) (q : Text) : lastPut (shortestFirst puts) q = lastPut puts q := by
  induction puts with
  | nil => rfl
  | cons put rest ih =>
    change lastPut ((shortestFirst rest).orderedInsert (fun a b => utf16Length a.1 ≤ utf16Length b.1) put) q = _
    rw [lastPut_orderedInsert]
    exact congrArg (Option.or · _) ih

theorem withPuts_shortestFirst (now : Int) (rows : Text → Option Node) (puts : List (Text × Node)) (q : Text) :
    withPuts now rows (shortestFirst puts) q = withPuts now rows puts q := by
  have hAny : (shortestFirst puts).any (fun put => q ∈ ancestors put.1) = puts.any (fun put => q ∈ ancestors put.1) :=
    Bool.eq_iff_iff.mpr (by simp only [any_eq_true, WorldSqlStore.mem_shortestFirst])
  unfold withPuts
  rw [lastPut_shortestFirst, hAny]

namespace Mutation

variable {m later : Mutation} {now : Int}

theorem putNodes_rows {puts : List (Text × Node)} (hKeyed : m.Keyed) (h : m.putNodes now puts = (.ok (), later)) (q : Text) :
    later.entryRow q = withPuts now m.entryRow puts q := by
  induction puts generalizing m with
  | nil =>
    obtain rfl := (Prod.mk.inj h).2
    simp [withPuts, lastPut]
  | cons put rest ih =>
    unfold Mutation.putNodes at h
    cases hHead : m.putNode now put.1 put.2 with
    | mk result made =>
      rw [hHead] at h
      cases result with
      | error e => cases (Prod.mk.inj h).1
      | ok _ =>
        obtain ⟨-, ⟨parented, hParented, hRows⟩, hMade⟩ := putNode_ok hKeyed hHead
        rw [ih (keyed_unpin hMade put.2) h]
        unfold withPuts
        rw [entryRow_unpin, hRows, hParented.rows, any_cons]
        change _ = (((lastPut rest q).or (if put.1 = q then some put.2 else none)).or (m.entryRow q)).or _
        cases hLast : lastPut rest q with
        | some node => simp
        | none =>
          rcases eq_or_ne q put.1 with rfl | hOther
          · simp
          · cases hRow : m.entryRow q with
            | some node => simp [hOther, hOther.symm]
            | none =>
              by_cases hAbove : q ∈ ancestors put.1
              · simp [hOther, hOther.symm, hAbove]
              · rw [decide_eq_false hAbove, Bool.false_or]
                simp [hOther, hOther.symm, hAbove]

/-- Each deleted path that has an entry lists its subtree only, and none without an entry has entries below. -/
structure Prunes (m : Mutation) (deleted : List Text) : Prop where
  lists : ∀ d ∈ deleted, (m.entryRow d).isSome = true → m.Lists d
  absent : ∀ d ∈ deleted, m.entryRow d = none → ∀ q, (m.entryRow q).isSome = true → pathWithin q d = false

theorem within_trans {a b c : Text} (hB : b ≠ []) (hC : c ≠ []) (hAB : pathWithin a b = true) (hBC : pathWithin b c = true) :
    pathWithin a c = true := by
  obtain ⟨front, rfl, hFront⟩ := (pathWithin_iff hC).mp hBC
  obtain ⟨tail, rfl, hTail⟩ := (pathWithin_iff hB).mp hAB
  rw [append_assoc]
  apply pathWithin_append hC
  rcases hFront with rfl | hSlash
  · exact hTail
  · obtain ⟨rest, rfl⟩ := head?_eq_some_iff.mp hSlash
    exact .inr rfl

theorem Prunes.rows {deleted : List Text} (h : m.Prunes deleted) (hKeyed : m.Keyed) (hNamed : ∀ d ∈ deleted, d ≠ [])
    (hDel : m.deleteSubtrees deleted = (.ok (), later)) (q : Text) : later.entryRow q = pruned m.entryRow deleted q := by
  induction deleted generalizing m with
  | nil =>
    obtain rfl := (Prod.mk.inj hDel).2
    rfl
  | cons path rest ih =>
    rw [forall_mem_cons] at hNamed
    unfold Mutation.deleteSubtrees at hDel
    split at hDel
    · rename_i hRow
      cases hRemove : m.remove path true with
      | mk result removed =>
        rw [hRemove] at hDel
        cases result with
        | error e => cases (Prod.mk.inj hDel).1
        | ok _ =>
          have hRem := remove_ok hKeyed (remove_normal hRemove) hRemove
          have hLists := h.lists path mem_cons_self hRow
          have hRows : ∀ q, removed.entryRow q = if pathWithin q path = true then none else m.entryRow q := by
            intro q
            rw [hRem.rows]
            by_cases hWith : pathWithin q path = true
            · rw [if_pos hWith, if_pos (listed_of_within hWith)]
            · rw [if_neg hWith]
              split
              · rename_i hList
                cases hQ : m.entryRow q with
                | none => rfl
                | some node => exact absurd (hLists q (Option.isSome_of_eq_some hQ) hList) hWith
              · rfl
          have hOld : ∀ q, (removed.entryRow q).isSome = true → (m.entryRow q).isSome = true :=
            fun q hSome => (hRem.kept hSome).1
          have hRest : removed.Prunes rest := by
            constructor
            · intro d hD hSome r hR
              exact h.lists d (mem_cons_of_mem _ hD) (hOld d hSome) r (hOld r hR)
            · intro d hD hNone r hR
              cases hGone : m.entryRow d with
              | none => exact h.absent d (mem_cons_of_mem _ hD) hGone r (hOld r hR)
              | some node =>
                -- a path that went with `path` took all below along
                have hBelow : pathWithin d path = true := by
                  by_contra hOut
                  rw [hRows, if_neg hOut, hGone] at hNone
                  cases hNone
                by_contra hWith
                rw [Bool.not_eq_false] at hWith
                have hOut := (hRem.kept hR).2
                rw [within_trans (hNamed.2 d hD) hNamed.1 hWith hBelow] at hOut
                cases hOut
          rw [ih hRest hRem.keyed hNamed.2 hDel]
          unfold pruned
          rw [any_cons, hRows]
          by_cases hWith : pathWithin q path = true
          · simp [hWith]
          · simp [hWith]
    · rename_i hAbsent
      have hNone : m.entryRow path = none := Option.not_isSome_iff_eq_none.mp hAbsent
      have hRest : m.Prunes rest :=
        ⟨fun d hD => h.lists d (mem_cons_of_mem _ hD), fun d hD => h.absent d (mem_cons_of_mem _ hD)⟩
      rw [ih hRest hKeyed hNamed.2 hDel]
      unfold pruned
      rw [any_cons]
      by_cases hWith : pathWithin q path = true
      · cases hQ : m.entryRow q with
        | none => simp
        | some node =>
          rw [h.absent path mem_cons_self hNone q (Option.isSome_of_eq_some hQ)] at hWith
          cases hWith
      · simp [hWith]

end Mutation

namespace WorldSqlStore

variable {store after : WorldSqlStore} {now : Int}

variable {missing : List String}

theorem screenDiff_puts {input : List WorldListingEntry} {puts : List (Text × Node)}
    (h : store.screenDiff now input = .ok (puts, missing)) : puts = input.filterMap (WorldListingEntry.put now) := by
  induction input generalizing puts missing with
  | nil =>
    obtain ⟨rfl, -⟩ := Prod.mk.inj (Except.ok.inj h)
    rfl
  | cons entry rest ih =>
    unfold screenDiff at h
    cases hPath : normalizeWorldPath entry.path false with
    | error e =>
      rw [hPath] at h
      cases h
    | ok path =>
      obtain ⟨rfl, -⟩ := normalizeWorldPath_ok hPath
      rw [hPath] at h
      dsimp only at h
      split at h
      · cases h
      cases hNode : entry.node now with
      | error e =>
        rw [hNode] at h
        cases h
      | ok node =>
        rw [hNode] at h
        dsimp only at h
        split at h
        · cases h
        cases hRest : store.screenDiff now rest with
        | error e =>
          rw [hRest] at h
          cases h
        | ok later =>
          rw [hRest] at h
          obtain ⟨rfl, -⟩ := Prod.mk.inj (Except.ok.inj h)
          have hPut : entry.put now = some (entry.path, node) := by
            unfold WorldListingEntry.put
            rw [hNode]
            rfl
          rw [filterMap_cons_some hPut, ih hRest]

theorem sortMissing_ne_nil (h : missing ≠ []) : sortMissing missing ≠ [] := by
  intro hNone
  obtain ⟨first, hFirst⟩ := exists_mem_of_ne_nil missing h
  have hMem : first ∈ sortMissing missing := by
    unfold sortMissing
    rw [mem_insertionSort, mem_eraseDups]
    exact hFirst
  rw [hNone] at hMem
  cases hMem

variable {revision : Nat}

variable {entries : List WorldListingEntry} {deleted : List Text}

theorem pushDiff_rows (hKeyed : store.live.dirents.Keyed)
    (hPrunes : store.start.Prunes deleted)
    (h : store.pushDiff now entries deleted = (.ok (missing, revision), after)) :
    (missing ≠ [] ∧ after = store) ∨ (missing = [] ∧ ∀ q, after.entryRow q = applied now store.entryRow entries deleted q) := by
  unfold pushDiff at h
  dsimp only at h
  split at h
  · cases (Prod.mk.inj h).1
  rename_i puts lacking hScreen
  split at h
  · rename_i hLacking
    obtain ⟨hRes, hAfter⟩ := Prod.mk.inj h
    obtain ⟨rfl, -⟩ := Prod.mk.inj (Except.ok.inj hRes)
    exact .inl ⟨sortMissing_ne_nil hLacking, hAfter.symm⟩
  split at h
  · cases (Prod.mk.inj h).1
  split at h
  · cases (Prod.mk.inj h).1
  rename_i normals hAll
  obtain ⟨rfl, hNormals⟩ := normalizeAll_ok hAll
  split at h
  · cases (Prod.mk.inj h).1
  split at h
  · cases (Prod.mk.inj h).1
  rename_i hMutate
  obtain ⟨hRes, hAfter⟩ := Prod.mk.inj h
  obtain ⟨rfl, -⟩ := Prod.mk.inj (Except.ok.inj hRes)
  refine .inr ⟨rfl, fun q => ?_⟩
  obtain ⟨m, hApply, hEq⟩ := mutate_ok hMutate
  have hRow : after.entryRow q = m.entryRow q := by
    rw [← hAfter]
    exact congrArg (InsertionMap.get? · q) hEq
  cases hDel : store.start.deleteSubtrees (longestFirst normals) with
  | mk result made =>
    rw [hDel] at hApply
    cases result with
    | error e => cases (Prod.mk.inj hApply).1
    | ok _ =>
      have hNamed : ∀ d ∈ longestFirst normals, d ≠ [] :=
        fun d hD => ne_nil_of_normal (hNormals d ((mem_longestFirst _ _).mp hD))
      have hSort : store.start.Prunes (longestFirst normals) :=
        ⟨fun d hD => hPrunes.lists d ((mem_longestFirst _ _).mp hD), fun d hD => hPrunes.absent d ((mem_longestFirst _ _).mp hD)⟩
      have hMade : made.Keyed := (Mutation.deleteSubtrees_rows hKeyed hNamed hDel).1
      have hPruned : made.entryRow = pruned store.entryRow normals := by
        funext r
        rw [hSort.rows hKeyed hNamed hDel]
        have hAny : (longestFirst normals).any (fun d => pathWithin r d) = normals.any (fun d => pathWithin r d) :=
          Bool.eq_iff_iff.mpr (by simp only [any_eq_true, mem_longestFirst])
        unfold pruned
        rw [hAny]
      rw [hRow, Mutation.putNodes_rows hMade hApply, withPuts_shortestFirst, hPruned, screenDiff_puts hScreen]
      rfl

variable {c : ChangeRow}

theorem Logged.change_kept (h : Logged store after) (hRev : revision ≤ store.revision)
    (hFloor : after.changeFloor ≤ revision) (hMem : c ∈ store.changes) : c ∈ after.changes := by
  rcases h with hUnlogged | ⟨logged, hAppends⟩ | hTrims
  · rwa [hUnlogged.changes]
  · rw [hAppends.changes]
    exact mem_append_left _ hMem
  · rw [hTrims.changeFloor] at hFloor
    omega

def Completes (store : WorldSqlStore) (c : Call) : Prop := (store.call c).1 = .ok ()

instance (store : WorldSqlStore) : DecidablePred (Completes store) :=
  fun c => inferInstanceAs (Decidable ((store.call c).1 = .ok ()))

variable {calls : List Call}

section

variable (hRun : Along step Completes store calls)
include hRun

theorem floor_le_of_run
    (hRev : revision ≤ store.revision) (hFloor : (run step store calls).changeFloor ≤ revision) :
    store.changeFloor ≤ revision := by
  induction calls generalizing store with
  | nil => exact hFloor
  | cons c rest ih =>
    have hLogged := logged_call hRun.1
    exact hLogged.floor_le hRev (ih hRun.2 (hRev.trans hLogged.revision_le) hFloor)

theorem told_of_run
    (hRev : revision ≤ store.revision) (hFloor : (run step store calls).changeFloor ≤ revision) {q : Text}
    {row : Option Node} (hTold : store.Told revision q row) : (run step store calls).Told revision q row := by
  induction calls generalizing store with
  | nil => exact hTold
  | cons c rest ih =>
    have hLogged := logged_call hRun.1
    have hNext := hRev.trans hLogged.revision_le
    exact ih hRun.2 hNext hFloor (hTold.logged hLogged hRev (floor_le_of_run hRun.2 hNext hFloor))

theorem change_kept_of_run
    (hRev : revision ≤ store.revision) (hFloor : (run step store calls).changeFloor ≤ revision)
    (hMem : c ∈ store.changes) : c ∈ (run step store calls).changes := by
  induction calls generalizing store with
  | nil => exact hMem
  | cons call rest ih =>
    have hLogged := logged_call hRun.1
    have hNext := hRev.trans hLogged.revision_le
    exact ih hRun.2 hNext hFloor (hLogged.change_kept hRev (floor_le_of_run hRun.2 hNext hFloor) hMem)

theorem revision_le_of_run :
    store.revision ≤ (run step store calls).revision := by
  induction calls generalizing store with
  | nil => exact le_rfl
  | cons c rest ih => exact (logged_call hRun.1).revision_le.trans (ih hRun.2)

end

theorem entryRow_kept {base : WorldSqlStore} {xs ys : List Call} (hRun : Along step Completes base (xs ++ ys))
    (hFloor : (run step base (xs ++ ys)).changeFloor ≤ base.revision) {q : Text}
    (hQuiet : ∀ c ∈ (run step base (xs ++ ys)).changes, base.revision < c.revision → c.path ≠ q) :
    (run step base xs).entryRow q = base.entryRow q := by
  rw [run_append] at hFloor hQuiet
  obtain ⟨hFront, hBack⟩ := (along_append _ _ _ _).mp hRun
  have hRev := revision_le_of_run hFront
  rcases told_of_run hFront le_rfl (floor_le_of_run hBack hRev hFloor) (.inl rfl) with hEq | ⟨c, hMem, hLater, hPath⟩
  · exact hEq
  · exact absurd hPath (hQuiet c (change_kept_of_run hBack hRev hFloor hMem) hLater)

def Concerns (readPaths readChildren : List Text) (entries : List WorldListingEntry) (deleted : List Text) (q : Text) : Prop :=
  q ∈ readPaths ∨ parentPath q ∈ readChildren ∨ q ∈ entries.map WorldListingEntry.path ∨
    ∃ d ∈ deleted, pathWithin q d = true

theorem quiet_of_conflicts {readPaths readChildren : List Text}
    (hNone : store.conflicts revision readPaths readChildren entries deleted = [])
    (hMem : c ∈ store.changes) (hLater : revision < c.revision) : ¬ Concerns readPaths readChildren entries deleted c.path := by
  intro hConcerns
  unfold conflicts at hNone
  dsimp only at hNone
  rw [filter_eq_nil_iff] at hNone
  apply hNone c.path
  · rw [mem_eraseDups, mem_map]
    exact ⟨c, mem_filter.mpr ⟨hMem, decide_eq_true hLater⟩, rfl⟩
  · rcases hConcerns with hRead | hListed | hWritten | ⟨d, hD, hWithin⟩
    · simp [hRead]
    · simp [hListed]
    · rw [decide_eq_true hWritten]
      simp
    · rw [any_eq_true.mpr ⟨d, hD, hWithin⟩]
      simp

/-- A commit of a cell that started from the world after `before`, with the calls of `since` run meanwhile: what the
cell read and writes has not changed on the way and its change set is applied, or the world is left as it is. -/
def Serial (before since : List Call) (now : Int) (readPaths readChildren : List Text) (entries : List WorldListingEntry)
    (deleted : List Text) : Prop :=
  let base := run step initialized before
  let store := run step initialized (before ++ since)
  match store.commitShell now (some base.revision) readPaths readChildren entries deleted with
  | (.ok (.committed _), after) =>
    (∀ xs ys, since = xs ++ ys → ∀ q, Concerns readPaths readChildren entries deleted q →
      (run step initialized (before ++ xs)).entryRow q = base.entryRow q) ∧
    ∀ q, after.entryRow q = applied now store.entryRow entries deleted q
  | (.ok _, after) => after = store
  | (.error _, _) => True

theorem applied_nil (rows : Text → Option Node) (q : Text) : applied now rows [] [] q = rows q := by
  simp [applied, withPuts, lastPut, pruned]

theorem keyed_of_run (hRun : Along step Completes initialized calls) :
    (run step initialized calls).live.dirents.Keyed := by
  have hStep : ∀ (store : WorldSqlStore) (c : Call), store.live.dirents.Keyed → store.Completes c →
      (step store c).live.dirents.Keyed := fun store c hKeyed _ => keyed_call hKeyed c
  exact @run_invariant _ _ step _ (fun store => store.live.dirents.Keyed) hStep initialized calls initialized_rooted.keyed hRun

/-- Every commit over every run of completed calls is serial, when each deleted path's pattern selects only the path
and what is below it, and none that has no entry has entries below. -/
theorem serial_of_run {before since : List Call} (hRun : Along step Completes initialized (before ++ since)) (now : Int)
    (readPaths readChildren : List Text) (entries : List WorldListingEntry) {deleted : List Text}
    (hPrunes : (run step initialized (before ++ since)).start.Prunes deleted) :
    Serial before since now readPaths readChildren entries deleted := by
  have hKeyed := keyed_of_run hRun
  obtain ⟨-, hSince⟩ := (along_append _ _ _ _).mp hRun
  unfold Serial
  dsimp only
  have hStore : run step initialized (before ++ since) = run step (run step initialized before) since := run_append _ _ _
  generalize hBase : run step initialized before = base at hSince hStore
  generalize run step initialized (before ++ since) = store at hStore hKeyed hPrunes
  have hSerial : ¬ store.changeFloor > base.revision →
      store.conflicts base.revision readPaths readChildren entries deleted = [] →
      ∀ xs ys, since = xs ++ ys → ∀ q, Concerns readPaths readChildren entries deleted q →
        (run step initialized (before ++ xs)).entryRow q = base.entryRow q := by
    rintro hFloor hNone xs ys rfl q hConcerns
    rw [run_append, hBase]
    rw [hStore, not_lt] at hFloor
    refine entryRow_kept hSince hFloor (fun c hMem hLater hPath => ?_)
    rw [← hStore] at hMem
    exact quiet_of_conflicts hNone hMem hLater (hPath ▸ hConcerns)
  unfold commitShell
  dsimp only
  split_ifs with hFloor hConflict hEmpty
  · rfl
  · rfl
  · obtain ⟨rfl, rfl⟩ := hEmpty
    exact ⟨hSerial hFloor (not_not.mp hConflict), fun q => (applied_nil store.entryRow q).symm⟩
  · cases hPush : store.pushDiff now entries deleted with
    | mk result after =>
      cases result with
      | error e => trivial
      | ok done =>
        obtain ⟨missing, revision⟩ := done
        dsimp only
        rcases pushDiff_rows hKeyed hPrunes hPush with ⟨hMissing, hSame⟩ | ⟨rfl, hRows⟩
        · rw [if_pos hMissing]
          exact hSame
        · rw [if_neg (not_not.mpr rfl)]
          exact ⟨hSerial hFloor (not_not.mp hConflict), hRows⟩

def beforeCell : List Call := [.writeFile 0 "d/f".toList ⟨1, "abc"⟩ none none true]

def duringCell : List Call := [.mkdir 0 "e".toList none]

def newLink : WorldListingEntry :=
  { path := "n/m".toList, kind := .symlink, mode := some 0o777, size := some 1, target := some ['t'] }

theorem serial_of_run_link :
    ((run step initialized (beforeCell ++ duringCell)).commitShell 0 (some 1) ["d/f".toList] ["d".toList] [newLink]
      ["d".toList]).1 = .ok (.committed 3) ∧
    Serial beforeCell duringCell 0 ["d/f".toList] ["d".toList] [newLink] ["d".toList] := by
  refine ⟨by decide, serial_of_run (by decide) 0 _ _ _ ⟨fun d hD _ q hRow hListed => ?_, fun d hD hNone => ?_⟩⟩
  · obtain rfl := mem_singleton.mp hD
    have hAll : ∀ q ∈ ["d".toList, "d/f".toList, "e".toList], listed "d".toList q = true → pathWithin q "d".toList = true := by
      decide
    exact hAll q (InsertionMap.mem_keys_iff.mpr hRow) hListed
  · obtain rfl := mem_singleton.mp hD
    cases hNone

def twoDirs : List Call := [.mkdir 0 "a_b".toList none, .mkdir 0 "axb/f".toList none]

/-- A cell that deletes `a_b` deletes `axb/f` too: an underscore is like any character. -/
theorem twoDirs_not_serial : Along step Completes initialized (twoDirs ++ []) ∧
    ¬ Serial twoDirs [] 0 [] [] [] ["a_b".toList] := by
  refine ⟨by decide, fun h => ?_⟩
  have hOk : ((run step initialized (twoDirs ++ [])).commitShell 0 (some (run step initialized twoDirs).revision) [] [] []
      ["a_b".toList]).1 = .ok (.committed 3) := by decide
  have hGone : ((run step initialized (twoDirs ++ [])).commitShell 0 (some (run step initialized twoDirs).revision) [] [] []
      ["a_b".toList]).2.entryRow "axb/f".toList ≠
        applied 0 (run step initialized (twoDirs ++ [])).entryRow [] ["a_b".toList] "axb/f".toList := by decide
  unfold Serial at h
  dsimp only at h
  split at h
  · rename_i hCommit
    rw [hCommit] at hGone
    exact hGone (h.2 _)
  · rename_i hOther hCommit
    rw [hCommit] at hOk
    exact hOther 3 (Except.ok.inj hOk)
  · rename_i hCommit
    rw [hCommit] at hOk
    cases hOk

end WorldSqlStore

end Stella.World
