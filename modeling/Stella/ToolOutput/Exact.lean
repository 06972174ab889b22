import Stella.ToolOutput.Utf16

/-! # Both cuts of a text by its bytes are exact

A text is cut at a limit of bytes from its start or from its end. Each cut is the greedy
one over the characters of the text with every lone surrogate replaced.
-/

namespace Stella.ToolOutput

open Within List

/-- The loop of `truncateStringToBytesFromStart`, over the units from the first on. -/
def fromStart (maxBytes : Nat) : Utf16 → Nat → Utf16 → Bool → Utf16 × Bool
  | [], _, output, needsReplacement => (output, needsReplacement)
  | [unit], outputBytes, output, needsReplacement =>
    if maxBytes < outputBytes + unitBytes unit then (output, needsReplacement)
    else (output ++ [unit], needsReplacement || isHigh unit || isLow unit)
  | unit :: next :: rest, outputBytes, output, needsReplacement =>
    if isHigh unit && isLow next then
      if maxBytes < outputBytes + 4 then (output, needsReplacement)
      else fromStart maxBytes rest (outputBytes + 4) (output ++ [unit, next]) needsReplacement
    else if maxBytes < outputBytes + unitBytes unit then (output, needsReplacement)
    else fromStart maxBytes (next :: rest) (outputBytes + unitBytes unit) (output ++ [unit]) (needsReplacement || isHigh unit || isLow unit)

def truncateStringToBytesFromStart (str : Utf16) (maxBytes : Nat) : Utf16 :=
  if maxBytes = 0 then []
  else
    let (output, needsReplacement) := fromStart maxBytes str 0 [] false
    if needsReplacement then replaceUnpairedSurrogates output else output

theorem fromStart_eq (maxBytes : Nat) (str : Utf16) (outputBytes : Nat) (output : Utf16) (needsReplacement : Bool)
    (h : outputBytes ≤ maxBytes) :
    fromStart maxBytes str outputBytes output needsReplacement =
      (output ++ (takeWithin characterBytes (maxBytes - outputBytes) (characters str)).flatten,
        needsReplacement || (takeWithin characterBytes (maxBytes - outputBytes) (characters str)).any isLone) := by
  have hFit (n : Nat) : n ≤ maxBytes - outputBytes ↔ ¬ maxBytes < outputBytes + n := by omega
  induction str, outputBytes, output, needsReplacement using fromStart.induct maxBytes with
  | case1 => simp [fromStart, characters, takeWithin]
  | case2 unit outputBytes output needsReplacement hOver =>
    simp [fromStart, characters, takeWithin, characterBytes, hFit, hOver]
  | case3 unit outputBytes output needsReplacement hFits =>
    simp [fromStart, characters, takeWithin, characterBytes, hFit, hFits, isLone, Bool.or_assoc]
  | case4 unit next rest outputBytes output needsReplacement hPair hOver =>
    simp [fromStart, characters, takeWithin, characterBytes, hFit, hPair, hOver]
  | case5 unit next rest outputBytes output needsReplacement hPair hFits ih =>
    rw [fromStart, if_pos hPair, if_neg hFits, ih (by omega) (by omega), characters, if_pos hPair]
    simp [takeWithin, characterBytes, hFit, hFits, isLone, Nat.sub_sub]
  | case6 unit next rest outputBytes output needsReplacement hPair hOver =>
    rw [fromStart, if_neg hPair, if_pos hOver, characters, if_neg hPair]
    simp [takeWithin, characterBytes, hFit, hOver]
  | case7 unit next rest outputBytes output needsReplacement hPair hFits ih =>
    rw [fromStart, if_neg hPair, if_neg hFits, ih (by omega) (by omega), characters, if_neg hPair]
    simp [takeWithin, characterBytes, hFit, hFits, isLone, Nat.sub_sub, Bool.or_assoc]

theorem characters_take {text : Utf16} {kept : List Utf16} (h : kept <+: characters text) : characters kept.flatten = kept := by
  induction text using characters.induct generalizing kept with
  | case1 =>
    rw [prefix_nil.mp h]
    rfl
  | case2 unit =>
    obtain rfl | ⟨rest, rfl, hRest⟩ := prefix_cons_iff.mp h
    · rfl
    · rw [prefix_nil.mp hRest]
      rfl
  | case3 unit next rest hPair ih =>
    rw [characters, if_pos hPair] at h
    obtain rfl | ⟨front, rfl, hRest⟩ := prefix_cons_iff.mp h
    · rfl
    · rw [flatten_cons, cons_append, singleton_append, characters, if_pos hPair, ih hRest]
  | case4 unit next rest hPair ih =>
    rw [characters, if_neg hPair] at h
    obtain rfl | ⟨front, rfl, hRest⟩ := prefix_cons_iff.mp h
    · rfl
    · have hNext : front.flatten <+: next :: rest := by
        obtain ⟨back, hBack⟩ := hRest
        rw [← flatten_characters (next :: rest), ← hBack, flatten_append]
        exact prefix_append _ _
      have hRest' := ih hRest
      obtain hNil | ⟨tail, hTail, -⟩ := prefix_cons_iff.mp hNext
      · rw [hNil] at hRest'
        rw [← hRest']
        rfl
      · rw [hTail] at hRest'
        rw [flatten_cons, hTail, singleton_append, characters, if_neg hPair, hRest']

/-! ## The well-formed text -/

theorem characters_cons {unit : UInt16} (h : isHigh unit = false) (rest : Utf16) :
    characters (unit :: rest) = [unit] :: characters rest := by
  cases rest with
  | nil => rfl
  | cons next rest => rw [characters, if_neg (by simp [h])]

theorem characters_replace (str : Utf16) : characters (replaceUnpairedSurrogates str) = (characters str).map wellFormed := by
  induction str using characters.induct with
  | case1 => rfl
  | case2 unit =>
    unfold replaceUnpairedSurrogates
    split
    · next hLone => exact congrArg (· :: []) (if_pos hLone).symm
    · next hPlain => exact congrArg (· :: []) (if_neg hPlain).symm
  | case3 unit next rest hPair ih => rw [replaceUnpairedSurrogates, if_pos hPair, characters, if_pos hPair, characters, if_pos hPair, ih, map_cons, wellFormed]; simp
  | case4 unit next rest hPair ih =>
    rw [replaceUnpairedSurrogates, if_neg hPair, characters, if_neg hPair, map_cons, wellFormed]
    split
    · rw [characters_cons (by decide), ih]
    · next hPlain =>
      rw [Bool.or_eq_true, not_or, Bool.not_eq_true] at hPlain
      rw [characters_cons hPlain.1, ih]

theorem characterBytes_wellFormed (character : Utf16) : characterBytes (wellFormed character) = characterBytes character := by
  unfold wellFormed
  split
  · next unit =>
    split
    · next hLone => exact (unitBytes_surrogate hLone).symm
    · rfl
  · rfl

theorem takeWithin_wellFormed (budget : Nat) (text : List Utf16) :
    takeWithin characterBytes budget (text.map wellFormed) = (takeWithin characterBytes budget text).map wellFormed := by
  rw [takeWithin_map]
  simp only [characterBytes_wellFormed]

theorem truncateStringToBytesFromStart_eq (str : Utf16) (maxBytes : Nat) :
    truncateStringToBytesFromStart str maxBytes =
      (takeWithin characterBytes maxBytes (characters (replaceUnpairedSurrogates str))).flatten := by
  rw [characters_replace, takeWithin_wellFormed, ← flatMap_def]
  unfold truncateStringToBytesFromStart
  split
  · next hZero =>
    rw [hZero, takeWithin_zero]
    rfl
  · rw [fromStart_eq maxBytes str 0 [] false (Nat.zero_le _), nil_append, Nat.sub_zero, Bool.false_or]
    exact replaced_eq (characters_take (prefix_takeWithin maxBytes _)) rfl

theorem truncateStringToBytesFromEnd_flatten (str : Utf16) (maxBytes : Nat) :
    truncateStringToBytesFromEnd str maxBytes =
      (takeWithin characterBytes maxBytes (characters (replaceUnpairedSurrogates str)).reverse).reverse.flatten := by
  rw [characters_replace, ← map_reverse, takeWithin_wellFormed, ← map_reverse, ← flatMap_def, truncateStringToBytesFromEnd_eq,
    replaceUnpairedSurrogates_eq, characters_suffix (keptFromEnd_suffix str maxBytes)]
  rfl

/-! ## Exactness -/

def AtCodePoint (front back : Utf16) : Prop := ∀ unit ∈ front.getLast?, ∀ next ∈ back.head?, (isHigh unit && isLow next) = false

/-- What both cuts keep of a text, on the side `kept` of which part is kept. -/
structure ExactCut (text cut : Utf16) (maxBytes : Nat) (kept : Utf16 × Utf16 → Utf16) : Prop where
  fits : utf8ByteLength cut ≤ maxBytes
  part : ∃ parts : Utf16 × Utf16, parts.1 ++ parts.2 = text ∧ kept parts = cut
  longest : ∀ parts : Utf16 × Utf16, parts.1 ++ parts.2 = text → AtCodePoint parts.1 parts.2 →
    cut.length < (kept parts).length → maxBytes < utf8ByteLength (kept parts)

theorem length_flatten_eq (text : List Utf16) : text.flatten.length = total length text := length_flatten

theorem exactCut_fromStart (text : Utf16) (maxBytes : Nat) :
    ExactCut text (takeWithin characterBytes maxBytes (characters text)).flatten maxBytes Prod.fst := by
  have hKept : takeWithin characterBytes maxBytes (characters text) <+: characters text := prefix_takeWithin maxBytes _
  constructor
  · rw [utf8ByteLength_eq, characters_take hKept]
    exact total_takeWithin maxBytes _
  · obtain ⟨rest, hRest⟩ := hKept
    refine ⟨(_, rest.flatten), ?_, rfl⟩
    rw [← flatten_append, hRest, flatten_characters]
  · rintro ⟨front, back⟩ hParts hAt hLonger
    have hFront : characters front <+: characters text := ⟨characters back, by rw [← hParts, characters_append hAt]⟩
    rw [length_flatten_eq] at hLonger
    rw [utf8ByteLength_eq]
    apply lt_total_of_heavier hFront
    rwa [← length_flatten_eq (characters front), flatten_characters]

theorem exactCut_fromEnd (text : Utf16) (maxBytes : Nat) :
    ExactCut text (takeWithin characterBytes maxBytes (characters text).reverse).reverse.flatten maxBytes Prod.snd := by
  have hKept : (takeWithin characterBytes maxBytes (characters text).reverse).reverse <:+ characters text :=
      keptFromEnd_suffix text maxBytes
  constructor
  · rw [utf8ByteLength_eq, characters_suffix hKept, total_reverse]
    exact total_takeWithin maxBytes _
  · obtain ⟨rest, hRest⟩ := hKept
    refine ⟨(rest.flatten, _), ?_, rfl⟩
    rw [← flatten_append, hRest, flatten_characters]
  · rintro ⟨front, back⟩ hParts hAt hLonger
    have hBack : (characters back).reverse <+: (characters text).reverse :=
      ⟨(characters front).reverse, by rw [← hParts, characters_append hAt, reverse_append]⟩
    rw [length_flatten_eq, total_reverse] at hLonger
    rw [utf8ByteLength_eq, ← total_reverse]
    apply lt_total_of_heavier hBack
    rwa [total_reverse, ← length_flatten_eq (characters back), flatten_characters]

theorem truncated_exact (str : Utf16) (maxBytes : Nat) :
    ExactCut ((characters str).flatMap wellFormed) (truncateStringToBytesFromStart str maxBytes) maxBytes Prod.fst ∧
      ExactCut ((characters str).flatMap wellFormed) (truncateStringToBytesFromEnd str maxBytes) maxBytes Prod.snd := by
  rw [← replaceUnpairedSurrogates_eq, truncateStringToBytesFromStart_eq, truncateStringToBytesFromEnd_flatten]
  exact ⟨exactCut_fromStart _ maxBytes, exactCut_fromEnd _ maxBytes⟩

/-- A limit inside a pair leaves the pair out, and a lone surrogate costs three bytes. -/
example : truncateStringToBytesFromStart [0x61, 0xd83d, 0xde00, 0x62] 4 = [0x61] ∧
    truncateStringToBytesFromEnd [0x61, 0xd83d, 0x62] 4 = [0xfffd, 0x62] := by decide

end Stella.ToolOutput
