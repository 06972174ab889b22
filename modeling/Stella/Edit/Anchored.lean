import Stella.Edit.Lines

/-! # One anchored edit on three paths

On the desktop pasted prefixes are cut off before newlines are normalized, in the cloud after.
-/

namespace Stella.Edit

open List

open Patch (isSpace joinLines joinLines_cons replaceCrlf trim trimEnd)
open World (Text)

variable {content text line : Text} {lines : List Text} {edit : AnchoredEdit}

def OnlyCrlf (text : Text) : Prop := ∀ front back, text = front ++ '\r' :: back → back.head? = some '\n'

def CrLast (line : Text) : Prop := ∀ front back, line = front ++ '\r' :: back → back = []

def withoutCr (text : Text) : Text := text.filter (· ≠ '\r')

/-! ## Newlines -/

theorem withoutCr_of_not_mem (h : '\r' ∉ text) : withoutCr text = text := by
  refine filter_eq_self.mpr fun c hMem => decide_eq_true ?_
  rintro rfl
  exact h hMem

theorem not_mem_withoutCr (text : Text) : '\r' ∉ withoutCr text := fun hMem => of_decide_eq_true (mem_filter.mp hMem).2 rfl

theorem withoutCr_append (front back : Text) : withoutCr (front ++ back) = withoutCr front ++ withoutCr back := filter_append ..

theorem OnlyCrlf.of_append (front : Text) {back : Text} (h : OnlyCrlf (front ++ back)) : OnlyCrlf back := by
  rintro lead rest rfl
  exact h (front ++ lead) rest (by rw [append_assoc])

theorem onlyCrlf_of_not_mem (h : '\r' ∉ text) : OnlyCrlf text := by
  rintro front back rfl
  exact absurd (mem_append_right _ mem_cons_self) h

theorem onlyCrlf_cons {c : Char} : OnlyCrlf (c :: text) ↔ (c = '\r' → text.head? = some '\n') ∧ OnlyCrlf text := by
  constructor
  · intro h
    refine ⟨?_, OnlyCrlf.of_append [c] h⟩
    rintro rfl
    exact h [] text rfl
  · rintro ⟨hHere, hRest⟩ front back hWhole
    cases front with
    | nil =>
      obtain ⟨rfl, rfl⟩ := List.cons.inj hWhole
      exact hHere rfl
    | cons first front => exact hRest front back (List.cons.inj hWhole).2

instance decidableOnlyCrlf : DecidablePred OnlyCrlf
  | [] => isTrue (onlyCrlf_of_not_mem not_mem_nil)
  | _ :: text =>
    have := decidableOnlyCrlf text
    decidable_of_iff _ onlyCrlf_cons.symm

theorem replaceCrlf_of_onlyCrlf (h : OnlyCrlf text) : replaceCrlf text = withoutCr text := by
  induction text using Patch.replaceCrlf.induct with
  | case1 rest ih => exact congrArg ('\n' :: ·) (ih (OnlyCrlf.of_append ['\r', '\n'] h))
  | case2 c rest hOther ih =>
    have hNot : c ≠ '\r' := by
      rintro rfl
      obtain ⟨later, rfl⟩ := head?_eq_some_iff.mp (h [] rest rfl)
      exact hOther later rfl rfl
    have hRest := ih (OnlyCrlf.of_append [c] h)
    rw [Patch.replaceCrlf_cons fun hEq => absurd hEq hNot, hRest]
    simp [withoutCr, hNot]
  | case3 => rfl

theorem normalizeToLF_of_onlyCrlf (h : OnlyCrlf text) : normalizeToLF text = withoutCr text := by
  have hEq : ∀ c ∈ withoutCr text, (if c = '\r' then '\n' else c) = c := by
    intro c hMem
    refine if_neg ?_
    rintro rfl
    exact not_mem_withoutCr text hMem
  unfold normalizeToLF
  rw [replaceCrlf_of_onlyCrlf h, map_congr_left hEq, map_id']

theorem normalizeToLF_of_not_mem (h : '\r' ∉ text) : normalizeToLF text = text := by
  rw [normalizeToLF_of_onlyCrlf (onlyCrlf_of_not_mem h), withoutCr_of_not_mem h]

/-! ## Lines of such a text -/

theorem onlyCrlf_iff_of_plain (hPlain : '\n' ∉ line) : OnlyCrlf line ↔ '\r' ∉ line := by
  constructor
  · intro h hMem
    obtain ⟨front, back, rfl⟩ := append_of_mem hMem
    obtain ⟨later, rfl⟩ := head?_eq_some_iff.mp (h front back rfl)
    simp at hPlain
  · exact onlyCrlf_of_not_mem

theorem onlyCrlf_append_iff (hPlain : '\n' ∉ line) (rest : Text) :
    OnlyCrlf (line ++ '\n' :: rest) ↔ CrLast line ∧ OnlyCrlf rest := by
  constructor
  · intro h
    refine ⟨?_, OnlyCrlf.of_append (line ++ ['\n']) (by rwa [append_assoc])⟩
    rintro front back rfl
    have hHead := h front (back ++ '\n' :: rest) (by simp)
    cases back with
    | nil => rfl
    | cons c back =>
      obtain rfl := Option.some.inj hHead
      simp at hPlain
  · rintro ⟨hLast, hRest⟩ front back hWhole
    rcases append_eq_append_iff.mp hWhole with ⟨middle, rfl, hMiddle⟩ | ⟨middle, rfl, hMiddle⟩
    · cases middle with
      | nil => cases hMiddle
      | cons c middle =>
        rw [cons_append, List.cons.injEq] at hMiddle
        exact hRest middle back hMiddle.2
    · cases middle with
      | nil => cases hMiddle
      | cons c middle =>
        rw [cons_append, List.cons.injEq] at hMiddle
        obtain ⟨rfl, rfl⟩ := hMiddle
        rw [hLast front middle rfl]
        rfl

theorem crLast_of_not_mem (h : '\r' ∉ line) : CrLast line := by
  rintro front back rfl
  exact absurd (mem_append_right _ mem_cons_self) h

theorem CrLast.suffix {rest : Text} (h : CrLast line) (hSuf : rest <:+ line) : CrLast rest := by
  obtain ⟨lead, rfl⟩ := hSuf
  rintro front back rfl
  exact h (lead ++ front) back (by rw [append_assoc])

theorem CrLast.cases (h : CrLast line) : '\r' ∉ line ∨ ∃ body, '\r' ∉ body ∧ line = body ++ ['\r'] := by
  by_cases hMem : '\r' ∈ line
  · obtain ⟨front, back, rfl⟩ := append_of_mem hMem
    obtain rfl := h front back rfl
    refine .inr ⟨front, fun hFront => ?_, rfl⟩
    obtain ⟨lead, rest, rfl⟩ := append_of_mem hFront
    have hNil := h lead (rest ++ ['\r']) (by simp)
    simp at hNil
  · exact .inl hMem

theorem crLast_of_mem (hPlain : ∀ line ∈ lines, '\n' ∉ line) (h : OnlyCrlf (joinLines lines)) : ∀ line ∈ lines, CrLast line := by
  induction lines with
  | nil => exact forall_mem_nil _
  | cons line lines ih =>
    rw [forall_mem_cons] at hPlain ⊢
    by_cases hLast : lines = []
    · subst hLast
      rw [joinLines_singleton, onlyCrlf_iff_of_plain hPlain.1] at h
      exact ⟨crLast_of_not_mem h, forall_mem_nil _⟩
    · rw [joinLines_cons hLast, onlyCrlf_append_iff hPlain.1] at h
      exact ⟨h.1, ih hPlain.2 h.2⟩

theorem onlyCrlf_map {cut : Text → Text} (hCut : ∀ line, cut line <:+ line) (hPlain : ∀ line ∈ lines, '\n' ∉ line)
    (h : OnlyCrlf (joinLines lines)) : OnlyCrlf (joinLines (lines.map cut)) := by
  induction lines with
  | nil => exact h
  | cons line lines ih =>
    rw [forall_mem_cons] at hPlain
    have hCutPlain : '\n' ∉ cut line := fun hMem => hPlain.1 ((hCut line).subset hMem)
    by_cases hLast : lines = []
    · subst hLast
      rw [joinLines_singleton, onlyCrlf_iff_of_plain hPlain.1] at h
      rw [map_singleton, joinLines_singleton, onlyCrlf_iff_of_plain hCutPlain]
      exact fun hMem => h ((hCut line).subset hMem)
    · rw [joinLines_cons hLast, onlyCrlf_append_iff hPlain.1] at h
      rw [map_cons, joinLines_cons (by simpa using hLast), onlyCrlf_append_iff hCutPlain]
      exact ⟨h.1.suffix (hCut line), ih hPlain.2 h.2⟩

theorem withoutCr_joinLines (lines : List Text) : withoutCr (joinLines lines) = joinLines (lines.map withoutCr) := by
  induction lines with
  | nil => rfl
  | cons line lines ih =>
    by_cases hLast : lines = []
    · subst hLast
      rw [map_singleton, joinLines_singleton, joinLines_singleton]
    · rw [joinLines_cons hLast, withoutCr_append, map_cons, joinLines_cons (by simpa using hLast), ← ih]
      rfl

theorem splitOn_withoutCr (text : Text) : (withoutCr text).splitOn '\n' = (text.splitOn '\n').map withoutCr := by
  have hPlain : ∀ line ∈ (text.splitOn '\n').map withoutCr, '\n' ∉ line := by
    intro line hLine hMem
    obtain ⟨whole, hWhole, rfl⟩ := mem_map.mp hLine
    exact Search.not_mem_of_mem_splitOn hWhole (mem_of_mem_filter hMem)
  have hSplit := splitOn_intercalate '\n' hPlain (by simp)
  change (joinLines _).splitOn '\n' = _ at hSplit
  rwa [← withoutCr_joinLines, joinLines_splitOn] at hSplit

/-! ## Pasted prefixes -/

theorem trim_eq_nil_iff : trim text = [] ↔ ∀ c ∈ text, isSpace c = true := by
  have hEnd : ∀ {text : Text}, trimEnd text = [] ↔ ∀ c ∈ text, isSpace c = true := by
    intro text
    simp [trimEnd, dropWhile_eq_nil_iff]
  unfold trim
  rw [hEnd]
  constructor
  · intro hRest c hMem
    rw [← takeWhile_append_dropWhile (p := isSpace) (l := text), mem_append] at hMem
    rcases hMem with hFirst | hLater
    · exact mem_takeWhile_imp hFirst
    · exact hRest c hLater
  · exact fun hAll c hMem => hAll c ((dropWhile_suffix _).subset hMem)

theorem trim_withoutCr (text : Text) : trim (withoutCr text) = [] ↔ trim text = [] := by
  rw [trim_eq_nil_iff, trim_eq_nil_iff]
  constructor
  · intro hAll c hMem
    by_cases hCr : c = '\r'
    · rw [hCr]
      rfl
    · exact hAll c (mem_filter.mpr ⟨hMem, decide_eq_true hCr⟩)
  · exact fun hAll c hMem => hAll c (mem_of_mem_filter hMem)

theorem afterPrefix_suffix {rest : Text} (h : afterPrefix line = some rest) : rest <:+ line := by
  unfold afterPrefix at h
  dsimp only at h
  have hNumber : (line.dropWhile isSpace).dropWhile Char.isDigit <:+ line := (dropWhile_suffix _).trans (dropWhile_suffix _)
  split at h
  · cases h
  · split at h
    · next hTab =>
      cases h
      rw [hTab] at hNumber
      exact (suffix_cons _ _).trans hNumber
    · next tag hHash =>
      rw [hHash] at hNumber
      split at h
      · cases h
      · split at h
        · next hTab =>
          cases h
          have hTag : '\t' :: rest <:+ tag := hTab ▸ dropWhile_suffix _
          exact (suffix_cons _ _).trans (hTag.trans ((suffix_cons _ _).trans hNumber))
        · cases h
    · cases h

theorem afterPrefix_append_cr (body : Text) : afterPrefix (body ++ ['\r']) = (afterPrefix body).map (· ++ ['\r']) := by
  have hTake : ∀ {p : Char → Bool} {text : Text}, p '\r' = false → (text ++ ['\r']).takeWhile p = text.takeWhile p := by
    intro p text hP
    rw [takeWhile_append]
    split
    · next hAll => rw [takeWhile_cons_of_neg (by simp [hP]), append_nil, (List.takeWhile_prefix p).eq_of_length hAll]
    · rfl
  have hDrop : ∀ {p : Char → Bool} {text : Text}, p '\r' = false → (text ++ ['\r']).dropWhile p = text.dropWhile p ++ ['\r'] := by
    intro p text hP
    rw [dropWhile_append]
    split
    · next hNone => rw [List.isEmpty_iff.mp hNone, dropWhile_cons_of_neg (by simp [hP]), nil_append]
    · rfl
  unfold afterPrefix
  rw [dropWhile_append]
  split
  · next hBlank =>
    rw [List.isEmpty_iff.mp hBlank]
    rfl
  · dsimp only
    rw [hTake rfl, hDrop rfl]
    split
    · rfl
    · cases hRest : ((body.dropWhile isSpace).dropWhile Char.isDigit) with
      | nil => rfl
      | cons c rest =>
        rw [cons_append]
        by_cases hTab : c = '\t'
        · rw [hTab]
          rfl
        · by_cases hHash : c = '#'
          · subst hHash
            change (if _ then _ else _) = Option.map _ (if _ then _ else _)
            rw [hTake rfl, hDrop rfl]
            split
            · rfl
            · cases hTag : rest.dropWhile isTagChar with
              | nil => rfl
              | cons d later =>
                rw [cons_append]
                by_cases hTab : d = '\t'
                · rw [hTab]
                  rfl
                · simp [hTab]
          · simp [hTab, hHash]

theorem afterPrefix_withoutCr (h : CrLast line) : afterPrefix (withoutCr line) = (afterPrefix line).map withoutCr := by
  have hPlain : ∀ {body : Text}, '\r' ∉ body → (afterPrefix body).map withoutCr = afterPrefix body := by
    intro body hBody
    cases hRest : afterPrefix body with
    | none => rfl
    | some rest => exact congrArg some (withoutCr_of_not_mem fun hMem => hBody ((afterPrefix_suffix hRest).subset hMem))
  rcases h.cases with hNone | ⟨body, hBody, rfl⟩
  · rw [withoutCr_of_not_mem hNone, hPlain hNone]
  · have hEq := hPlain hBody
    rw [withoutCr_append, withoutCr_of_not_mem hBody, afterPrefix_append_cr]
    change afterPrefix (body ++ []) = _
    rw [append_nil]
    cases hRest : afterPrefix body with
    | none => rfl
    | some rest =>
      rw [hRest, Option.map_some, Option.some.injEq] at hEq
      rw [Option.map_some, Option.map_some, withoutCr_append, hEq]
      exact congrArg some (append_nil rest).symm

theorem stripHashLinePrefixes_withoutCr (h : OnlyCrlf text) :
    stripHashLinePrefixes (withoutCr text) = withoutCr (stripHashLinePrefixes text) ∧ OnlyCrlf (stripHashLinePrefixes text) := by
  have hPlain : ∀ line ∈ text.splitOn '\n', '\n' ∉ line := fun _ => Search.not_mem_of_mem_splitOn
  have hLines : OnlyCrlf (joinLines (text.splitOn '\n')) := by rwa [joinLines_splitOn]
  have hLast := crLast_of_mem hPlain hLines
  have hMeaningful : ((text.splitOn '\n').map withoutCr).filter (fun line => trim line ≠ []) =
      ((text.splitOn '\n').filter fun line => trim line ≠ []).map withoutCr := by
    rw [filter_map]
    exact congrArg (List.map withoutCr) (filter_congr fun line _ => by simp [trim_withoutCr])
  have hSome : ∀ line ∈ text.splitOn '\n', (afterPrefix (withoutCr line)).isSome = (afterPrefix line).isSome := by
    intro line hLine
    rw [afterPrefix_withoutCr (hLast line hLine), Option.isSome_map]
  have hEq : (((text.splitOn '\n').map withoutCr).filter (fun line => trim line ≠ []) = [] ∨
        ¬ (((text.splitOn '\n').map withoutCr).filter fun line => trim line ≠ []).all (fun line => (afterPrefix line).isSome)) ↔
      (((text.splitOn '\n').filter fun line => trim line ≠ []) = [] ∨
        ¬ ((text.splitOn '\n').filter fun line => trim line ≠ []).all (fun line => (afterPrefix line).isSome)) := by
    rw [hMeaningful, map_eq_nil_iff, all_map, all_eq_true, all_eq_true]
    refine or_congr Iff.rfl (not_congr (forall₂_congr fun line hLine => ?_))
    rw [Function.comp_apply, hSome line (mem_of_mem_filter hLine)]
  have hCut : ∀ line : Text, (afterPrefix line).getD line <:+ line := by
    intro line
    cases hRest : afterPrefix line with
    | none => exact suffix_rfl
    | some rest => exact afterPrefix_suffix hRest
  unfold stripHashLinePrefixes
  dsimp only
  rw [splitOn_withoutCr]
  by_cases hGone : ((text.splitOn '\n').filter fun line => trim line ≠ []) = [] ∨
      ¬ ((text.splitOn '\n').filter fun line => trim line ≠ []).all (fun line => (afterPrefix line).isSome)
  · rw [if_pos (hEq.mpr hGone), if_pos hGone]
    exact ⟨rfl, h⟩
  · rw [if_neg (mt hEq.mp hGone), if_neg hGone]
    refine ⟨?_, onlyCrlf_map hCut hPlain hLines⟩
    rw [withoutCr_joinLines, map_map, map_map]
    refine congrArg joinLines (map_congr_left fun line hLine => ?_)
    rw [Function.comp_apply, Function.comp_apply, afterPrefix_withoutCr (hLast line hLine)]
    cases afterPrefix line with
    | none => rfl
    | some rest => rfl

theorem newText_agrees (h : OnlyCrlf text) :
    stripHashLinePrefixes (normalizeToLF text) = normalizeToLF (stripHashLinePrefixes text) := by
  obtain ⟨hStrip, hOnly⟩ := stripHashLinePrefixes_withoutCr h
  rw [normalizeToLF_of_onlyCrlf h, hStrip, normalizeToLF_of_onlyCrlf hOnly]

/-! ## The three paths -/

theorem applyEditsToContent_of_error {unicode : Unicode} {error : EditError}
    (h : planAnchorEdit content (content.splitOn '\n') (lineStarts content) edit = .error error) :
    applyEditsToContent unicode content [.anchor edit] = .error (.inEdit 0 error) := by
  have hPlan : planEdit unicode content (.anchor edit) = .error error := h
  unfold applyEditsToContent planEdits
  rw [hPlan]
  rfl

theorem applyEditsToContent_of_placed {unicode : Unicode} {placed : Placed}
    (h : planAnchorEdit content (content.splitOn '\n') (lineStarts content) edit = .ok placed) :
    applyEditsToContent unicode content [.anchor edit] =
      if content.take placed.start ++ placed.text ++ content.drop placed.stop = content then .error .identicalContent
      else .ok ⟨content.take placed.start ++ placed.text ++ content.drop placed.stop, [lineOf (lineStarts content) placed.start]⟩ := by
  have hPlan : planEdit unicode content (.anchor edit) = .ok placed := h
  unfold applyEditsToContent planEdits
  rw [hPlan]
  rfl

/-- One anchored edit has one meaning, but that a list of edits is refused if it changes nothing. -/
theorem anchoredEdit_agrees (unicode : Unicode) (content : Text) (edit : AnchoredEdit) (hContent : '\r' ∉ content)
    (hText : OnlyCrlf edit.newText) :
    (∃ error, applyAnchoredEdit content edit = .error error ∧ Cloud.applyAnchoredEdit content edit = .error error ∧
      applyEditsToContent unicode content [.anchor edit] = .error (.inEdit 0 error)) ∨
    ∃ result, applyAnchoredEdit content edit = .ok result ∧ Cloud.applyAnchoredEdit content edit = .ok result ∧
      if result.content = content then applyEditsToContent unicode content [.anchor edit] = .error .identicalContent
      else ∃ lines, applyEditsToContent unicode content [.anchor edit] = .ok ⟨result.content, lines⟩ := by
  have hCloud : Cloud.applyAnchoredEdit content edit = applyAnchoredEdit content edit := by
    unfold applyAnchoredEdit Cloud.applyAnchoredEdit
    rw [normalizeToLF_of_not_mem hContent, newText_agrees hText]
  rw [hCloud]
  cases hRange : resolveRange (content.splitOn '\n') edit with
  | error error =>
    refine Or.inl ⟨error, ?_, ?_, applyEditsToContent_of_error ?_⟩
    · unfold applyAnchoredEdit applyToLines
      rw [hRange]
      rfl
    · unfold applyAnchoredEdit applyToLines
      rw [hRange]
      rfl
    · unfold planAnchorEdit
      rw [hRange]
      rfl
  | ok range =>
    obtain ⟨placed, result, hPlaced, hResult, -, -, hSame⟩ := planAnchorEdit_agrees hRange
    refine Or.inr ⟨result, hResult, hResult, ?_⟩
    rw [applyEditsToContent_of_placed hPlaced, ← hSame]
    split
    · rfl
    · exact ⟨_, rfl⟩

def pastedEdit : AnchoredEdit := { anchor := ⟨2, hashLineTag ['b']⟩, newText := "2#zzz\tc\r\n3\td".toList }

theorem anchoredEdit_agrees_pasted : ∃ result lines, applyAnchoredEdit "a\nb".toList pastedEdit = .ok result ∧
    Cloud.applyAnchoredEdit "a\nb".toList pastedEdit = .ok result ∧ result.content = "a\nc\nd".toList ∧
      applyEditsToContent plainUnicode "a\nb".toList [.anchor pastedEdit] = .ok ⟨result.content, lines⟩ := by
  have hAccepted : (applyAnchoredEdit "a\nb".toList pastedEdit).toOption.map AnchoredEditResult.content = some "a\nc\nd".toList := by
    decide +kernel
  rcases anchoredEdit_agrees plainUnicode "a\nb".toList pastedEdit (by decide) (by decide) with
    ⟨error, hError, -⟩ | ⟨result, hDesktop, hCloud, hBatch⟩
  · rw [hError] at hAccepted
    cases hAccepted
  · rw [hDesktop] at hAccepted
    have hContent := Option.some.inj hAccepted
    rw [if_neg (by rw [hContent]; decide)] at hBatch
    obtain ⟨lines, hLines⟩ := hBatch
    exact ⟨result, lines, hDesktop, hCloud, hContent, hLines⟩

/-- A line replaced by itself: a list of edits refuses it. -/
theorem unchanged_refused :
    ((applyAnchoredEdit ['a'] { anchor := ⟨1, hashLineTag ['a']⟩, newText := ['a'] }).toOption.map AnchoredEditResult.content = some ['a']) ∧
      (applyEditsToContent plainUnicode ['a'] [.anchor { anchor := ⟨1, hashLineTag ['a']⟩, newText := ['a'] }]).toOption = none := by
  decide +kernel

end Stella.Edit
