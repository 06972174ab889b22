import Stella.Patch.Model

/-! # The two updates compared

The cloud and the desktop make the same of a file and a list of hunks when the cloud's wider
folding matches nothing more and no two hunks are placed at one line.
-/

namespace Stella.Patch

open List

open World (Text)

variable {lines : List Text}

theorem fuzzyChar_cases (c : Char) :
    fuzzyChar c = c ∨ c.toNat ∈ dashes ++ singleQuotes ++ doubleQuotes ++ wideSpaces := by
  unfold fuzzyChar
  split_ifs with hDash hSingle hDouble hWide
  · exact .inr (by simp [hDash])
  · exact .inr (by simp [hSingle])
  · exact .inr (by simp [hDouble])
  · exact .inr (by simp [hWide])
  · exact .inl rfl

def foldChar (c : Char) : Char :=
  let c := if c.toNat ∈ dashes then '-' else c
  let c := if c.toNat ∈ singleQuotes then Char.ofNat 0x27 else c
  let c := if c.toNat ∈ doubleQuotes then Char.ofNat 0x22 else c
  if isSpace c then ' ' else c

theorem fuzzy_eq_map (value : Text) : fuzzy value = (trim value).map foldChar := by
  unfold fuzzy replaceAll
  rw [map_map, map_map, map_map]
  apply map_congr_left
  intro c _
  simp [foldChar]

theorem foldChar_fuzzyChar (c : Char) : foldChar (fuzzyChar c) = foldChar c := by
  have hFolds : ∀ n ∈ dashes ++ singleQuotes ++ doubleQuotes ++ wideSpaces,
      foldChar (fuzzyChar (Char.ofNat n)) = foldChar (Char.ofNat n) := by decide
  rcases fuzzyChar_cases c with hEq | hMem
  · rw [hEq]
  · have hChar := hFolds c.toNat hMem
    rwa [Char.ofNat_toNat] at hChar

theorem fuzzy_of_fuzzyNormalize {a b : Text} (h : fuzzyNormalize a = fuzzyNormalize b) : fuzzy a = fuzzy b := by
  have hAgain : ∀ value, fuzzy value = (fuzzyNormalize value).map foldChar := by
    intro value
    rw [fuzzy_eq_map, fuzzyNormalize, map_map]
    apply map_congr_left
    intro c _
    rw [Function.comp_apply, foldChar_fuzzyChar]
  rw [hAgain, hAgain, h]

def patternsOf (hunk : Hunk) : List Text := hunk.header.toList ++ oldLinesOf hunk

def FoldedAlike (lines : List Text) (hunks : List Hunk) : Prop :=
  ∀ hunk ∈ hunks, ∀ line ∈ lines, ∀ pattern ∈ patternsOf hunk,
    fuzzy line = fuzzy pattern → fuzzyNormalize line = fuzzyNormalize pattern

def apart (lines : List Text) : Nat → List Nat → List Hunk → Bool
  | _, _, [] => true
  | cursor, taken, hunk :: rest =>
    match place seekSequence lines cursor hunk with
    | .error _ => true
    | .ok (none, next) => apart lines next taken rest
    | .ok (some r, next) => r.startIdx ∉ taken && apart lines next (r.startIdx :: taken) rest

def Agrees (content : Text) (hunks : List Hunk) : Prop :=
  match handlePatch content hunks, applyUpdate content hunks with
  | .ok cloud, .ok desktop => cloud = desktop
  | .error _, .error _ => True
  | _, _ => False

instance (content : Text) (hunks : List Hunk) : Decidable (Agrees content hunks) := by
  unfold Agrees
  split <;> infer_instance

variable {pattern : List Text}

theorem matchAt_congr {compare compare' : Text → Text → Bool}
    (h : ∀ line ∈ lines, ∀ p ∈ pattern, compare line p = compare' line p) {index : Nat}
    (hRoom : index + pattern.length ≤ lines.length) : matchAt compare lines pattern index = matchAt compare' lines pattern index := by
  apply Bool.eq_iff_iff.mpr
  unfold matchAt
  rw [all_eq_true, all_eq_true]
  apply forall_congr'
  intro j
  apply imp_congr_right
  intro hJ
  rw [mem_range] at hJ
  have hLine : lines.getD (index + j) [] ∈ lines := by
    rw [getD_eq_getElem?_getD, getElem?_eq_getElem (by omega)]
    exact getElem_mem _
  have hPattern : pattern.getD j [] ∈ pattern := by
    rw [getD_eq_getElem?_getD, getElem?_eq_getElem hJ]
    exact getElem_mem _
  rw [h _ hLine _ hPattern]

theorem seek_eq (h : ∀ line ∈ lines, ∀ p ∈ pattern,
    fuzzy line = fuzzy p → fuzzyNormalize line = fuzzyNormalize p) (start : Nat) (eof : Bool) :
    seek lines pattern start eof = seekSequence lines pattern start eof := by
  unfold seek seekSequence seekBy
  dsimp only
  split_ifs with hNone hShort
  · rfl
  · rfl
  all_goals
    have hLevel : ∀ first, (List.range' first (lines.length - pattern.length + 1 - first)).find?
        (matchAt (fun a b => fuzzy a = fuzzy b) lines pattern) =
          (List.range' first (lines.length - pattern.length + 1 - first)).find? (matchFuzzy lines pattern) := by
      intro first
      apply find?_congr
      intro index hMem
      rw [mem_range'_1] at hMem
      refine matchAt_congr (fun line hLine p hP => ?_) (by omega)
      exact Bool.eq_iff_iff.mpr (by
        rw [decide_eq_true_iff, decide_eq_true_iff]
        exact ⟨h line hLine p hP, fuzzy_of_fuzzyNormalize⟩)
    simp only [findSome?_cons, hLevel]

variable {oldLines newLines : List Text}

theorem locate_eq (h : ∀ line ∈ lines, ∀ p ∈ oldLines,
    fuzzy line = fuzzy p → fuzzyNormalize line = fuzzyNormalize p) (cursor : Nat) (eof : Bool) :
    locate seek lines cursor eof oldLines newLines = locate seekSequence lines cursor eof oldLines newLines := by
  unfold locate
  rw [seek_eq h, seek_eq (fun line hLine p hP => h line hLine p (dropLast_subset oldLines hP))]

variable {hunk : Hunk}

theorem place_eq (h : ∀ line ∈ lines, ∀ p ∈ patternsOf hunk,
    fuzzy line = fuzzy p → fuzzyNormalize line = fuzzyNormalize p) (cursor : Nat) :
    place seek lines cursor hunk = place seekSequence lines cursor hunk := by
  have hOld : ∀ line ∈ lines, ∀ p ∈ oldLinesOf hunk, fuzzy line = fuzzy p → fuzzyNormalize line = fuzzyNormalize p :=
    fun line hLine p hP => h line hLine p (mem_append_right _ hP)
  have hHeader : ∀ header, hunk.header.filter (· ≠ []) = some header →
      seek lines [header] cursor false = seekSequence lines [header] cursor false := by
    intro header hSome
    refine seek_eq (fun line hLine p hP => h line hLine p (mem_append_left _ ?_)) _ _
    rw [mem_singleton.mp hP]
    exact Option.mem_toList.mpr (Option.filter_eq_some_iff.mp hSome).1
  unfold place
  simp only [locate_eq hOld]
  cases hFilter : hunk.header.filter (· ≠ []) with
  | none => rfl
  | some header => simp only [hHeader header hFilter]

variable {hunks : List Hunk}

theorem planFrom_eq (h : FoldedAlike lines hunks) (cursor : Nat) :
    planFrom seek lines cursor hunks = planFrom seekSequence lines cursor hunks := by
  induction hunks generalizing cursor with
  | nil => rfl
  | cons hunk rest ih =>
    have hRest : FoldedAlike lines rest := fun other hOther => h other (mem_cons_of_mem _ hOther)
    unfold planFrom
    simp only [place_eq (h hunk mem_cons_self), ih hRest]

variable {cursor : Nat}

variable {plan : List Replacement}

theorem nodup_of_apart {alreadyApplied : Nat} {taken : List Nat}
    (hApart : apart lines cursor taken hunks = true) (hPlan : planFrom seekSequence lines cursor hunks = .ok (plan, alreadyApplied)) :
    (plan.map Replacement.startIdx).Nodup ∧ ∀ r ∈ plan, r.startIdx ∉ taken := by
  induction hunks generalizing cursor alreadyApplied taken plan with
  | nil =>
    obtain ⟨rfl, -⟩ := Prod.mk.inj (Except.ok.inj hPlan)
    exact ⟨nodup_nil, by simp⟩
  | cons hunk rest ih =>
    unfold apart at hApart
    unfold planFrom at hPlan
    cases hPlace : place seekSequence lines cursor hunk with
    | error e =>
      rw [hPlace] at hPlan
      cases hPlan
    | ok done =>
      obtain ⟨placed, next⟩ := done
      rw [hPlace] at hApart hPlan
      dsimp only at hApart hPlan
      cases hRest : planFrom seekSequence lines next rest with
      | error e =>
        rw [hRest] at hPlan
        cases hPlan
      | ok later =>
        obtain ⟨later, applied⟩ := later
        rw [hRest] at hPlan
        cases placed with
        | none =>
          obtain ⟨rfl, -⟩ := Prod.mk.inj (Except.ok.inj hPlan)
          exact ih hApart hRest
        | some r =>
          obtain ⟨rfl, -⟩ := Prod.mk.inj (Except.ok.inj hPlan)
          dsimp only at hApart
          rw [Bool.and_eq_true, decide_eq_true_iff] at hApart
          obtain ⟨hNd, hFree⟩ := ih hApart.2 hRest
          constructor
          · rw [map_cons, nodup_cons]
            refine ⟨fun hMem => ?_, hNd⟩
            obtain ⟨other, hOther, hEq⟩ := mem_map.mp hMem
            exact hFree other hOther (hEq ▸ mem_cons_self)
          · intro other hOther
            rcases mem_cons.mp hOther with rfl | hLater
            · exact hApart.1
            · exact fun hTaken => hFree other hLater (mem_cons_of_mem _ hTaken)

theorem ascending_sorted (plan : List Replacement) :
    (plan.insertionSort (fun a b => a.startIdx ≤ b.startIdx)).Pairwise (fun a b => a.startIdx ≤ b.startIdx) := by
  have : Std.Total (fun a b : Replacement => a.startIdx ≤ b.startIdx) := ⟨fun a b => le_total _ _⟩
  have : IsTrans Replacement (fun a b => a.startIdx ≤ b.startIdx) := ⟨fun _ _ _ hAB hBC => le_trans hAB hBC⟩
  exact pairwise_insertionSort _ plan

theorem descending_sorted (plan : List Replacement) :
    (plan.insertionSort (fun a b => b.startIdx ≤ a.startIdx)).Pairwise (fun a b => b.startIdx ≤ a.startIdx) := by
  have : Std.Total (fun a b : Replacement => b.startIdx ≤ a.startIdx) := ⟨fun a b => le_total _ _⟩
  have : IsTrans Replacement (fun a b => b.startIdx ≤ a.startIdx) := ⟨fun _ _ _ hAB hBC => le_trans hBC hAB⟩
  exact pairwise_insertionSort _ plan

theorem spliceDescending_eq (hNd : (plan.map Replacement.startIdx).Nodup) (lines : List Text) :
    spliceDescending lines plan = applyReplacements lines plan := by
  have hOrder : plan.insertionSort (fun a b => b.startIdx ≤ a.startIdx) =
      (plan.insertionSort (fun a b => a.startIdx ≤ b.startIdx)).reverse := by
    refine List.Perm.eq_of_pairwise (fun a b hA hB hAB hBA => ?_) (descending_sorted plan)
      (pairwise_reverse.mpr (ascending_sorted plan)) ?_
    · rw [mem_insertionSort] at hA
      rw [mem_reverse, mem_insertionSort] at hB
      exact inj_on_of_nodup_map hNd hA hB (le_antisymm hBA hAB)
    · exact (perm_insertionSort _ plan).trans ((reverse_perm _).trans (perm_insertionSort _ plan)).symm
  unfold spliceDescending applyReplacements
  rw [hOrder]

theorem handlePatch_eq (content : Text) (hunks : List Hunk) (hFolded : FoldedAlike (fileLines content) hunks)
    (hApart : apart (fileLines content) 0 [] hunks = true) : handlePatch content hunks = applyUpdate content hunks := by
  unfold handlePatch applyUpdate computeReplacements
  rw [planFrom_eq hFolded]
  cases hPlan : planFrom seekSequence (fileLines content) 0 hunks with
  | error e => rfl
  | ok plan =>
    have hNd := (nodup_of_apart hApart hPlan).1
    apply congrArg Except.ok
    unfold updated
    rw [spliceDescending_eq hNd]

theorem agrees_of_eq {content : Text} (h : handlePatch content hunks = applyUpdate content hunks) :
    Agrees content hunks := by
  unfold Agrees
  rw [h]
  cases applyUpdate content hunks with
  | error e => trivial
  | ok made => rfl

instance (lines : List Text) (hunks : List Hunk) : Decidable (FoldedAlike lines hunks) :=
  inferInstanceAs (Decidable (∀ hunk ∈ hunks, ∀ line ∈ lines, ∀ pattern ∈ patternsOf hunk,
    fuzzy line = fuzzy pattern → fuzzyNormalize line = fuzzyNormalize pattern))

def replacing (old new : String) : Hunk := { lines := [⟨.remove, old.toList⟩, ⟨.add, new.toList⟩] }

def inserting (new : String) : Hunk := { lines := [⟨.add, new.toList⟩] }

theorem seekSequence_bounds (hSome : pattern ≠ []) {start found : Nat}
    (h : seekSequence lines pattern start false = some found) : start ≤ found ∧ found + pattern.length ≤ lines.length := by
  unfold seekSequence seekBy at h
  dsimp only at h
  rw [if_neg hSome] at h
  split at h
  · cases h
  · rw [if_neg Bool.false_ne_true] at h
    obtain ⟨level, -, hFind⟩ := exists_of_findSome?_eq_some h
    have hMem := mem_of_find?_eq_some hFind
    rw [mem_range'_1] at hMem
    omega

def Replacement.stop (r : Replacement) : Nat := r.startIdx + r.oldLen

theorem locate_cases {eof : Bool} {r : Replacement}
    (h : locate seekSequence lines cursor eof oldLines newLines = some r) :
    (seekSequence lines oldLines cursor eof = some r.startIdx ∧ r.oldLen = oldLines.length ∧ r.newLines = newLines) ∨
    (seekSequence lines oldLines cursor eof = none ∧ oldLines.getLast? = some [] ∧
      seekSequence lines oldLines.dropLast cursor eof = some r.startIdx ∧ r.oldLen = oldLines.dropLast.length ∧
        r.newLines = if newLines.getLast? = some [] then newLines.dropLast else newLines) := by
  unfold locate at h
  split at h
  · next found hFound =>
    obtain rfl := Option.some.inj h
    exact .inl ⟨hFound, rfl, rfl⟩
  · next hNone =>
    split at h
    · next hLast =>
      obtain ⟨found, hRetry, rfl⟩ := Option.map_eq_some_iff.mp h
      exact .inr ⟨hNone, hLast, hRetry, rfl, rfl⟩
    · cases h

theorem place_cases {next : Nat} {placed : Option Replacement} (hCursor : cursor ≤ lines.length)
    (h : place seekSequence lines cursor hunk = .ok (placed, next)) :
    (oldLinesOf hunk = [] ∧ placed = some ⟨lines.length, 0, newLinesOf hunk⟩ ∧ next = lines.length) ∨
    ∃ start, cursor ≤ start ∧ start ≤ lines.length ∧ oldLinesOf hunk ≠ [] ∧
      ((∃ r, locate seekSequence lines start hunk.isEndOfFile (oldLinesOf hunk) (newLinesOf hunk) = some r ∧
        placed = some r ∧ next = r.stop) ∨
      (locate seekSequence lines start hunk.isEndOfFile (oldLinesOf hunk) (newLinesOf hunk) = none ∧ placed = none ∧ next = start)) := by
  unfold place at h
  dsimp only at h
  split at h
  · cases h
  rename_i start hHeader
  have hStart : cursor ≤ start ∧ start ≤ lines.length := by
    split at hHeader
    · obtain rfl := Except.ok.inj hHeader
      exact ⟨le_rfl, hCursor⟩
    · split at hHeader
      · cases hHeader
      · next hFound =>
        obtain rfl := Except.ok.inj hHeader
        have hBounds := seekSequence_bounds (cons_ne_nil _ _) hFound
        rw [length_singleton] at hBounds
        omega
  split at h
  · next hNone =>
    obtain ⟨rfl, rfl⟩ := Prod.mk.inj (Except.ok.inj h)
    exact .inl ⟨hNone, rfl, rfl⟩
  · next hSome =>
    refine .inr ⟨start, hStart.1, hStart.2, hSome, ?_⟩
    split at h
    · next r hLocate =>
      obtain ⟨rfl, rfl⟩ := Prod.mk.inj (Except.ok.inj h)
      exact .inl ⟨r, hLocate, rfl, rfl⟩
    · next hLocate =>
      split at h
      · obtain ⟨rfl, rfl⟩ := Prod.mk.inj (Except.ok.inj h)
        exact .inr ⟨hLocate, rfl, rfl⟩
      · cases h

end Stella.Patch
