import Stella.Library.Within

/-! # Texts as UTF-16 and their bytes

A text of the source is a list of 16-bit units, and a unit of a surrogate pair may stand alone.
-/

namespace Stella.ToolOutput

open Within List

abbrev Utf16 := List UInt16

def isHigh (unit : UInt16) : Bool := 0xd800 ≤ unit.toNat && unit.toNat ≤ 0xdbff
def isLow (unit : UInt16) : Bool := 0xdc00 ≤ unit.toNat && unit.toNat ≤ 0xdfff

def unitBytes (unit : UInt16) : Nat := if unit.toNat ≤ 0x7f then 1 else if unit.toNat ≤ 0x7ff then 2 else 3

def utf8ByteLength : Utf16 → Nat
  | [] => 0
  | [unit] => unitBytes unit
  | unit :: next :: rest =>
    if isHigh unit && isLow next then 4 + utf8ByteLength rest else unitBytes unit + utf8ByteLength (next :: rest)

def replacement : UInt16 := 0xfffd

def replaceUnpairedSurrogates : Utf16 → Utf16
  | [] => []
  | [unit] => if isHigh unit || isLow unit then [replacement] else [unit]
  | unit :: next :: rest =>
    if isHigh unit && isLow next then unit :: next :: replaceUnpairedSurrogates rest
    else if isHigh unit || isLow unit then replacement :: replaceUnpairedSurrogates (next :: rest)
    else unit :: replaceUnpairedSurrogates (next :: rest)

/-- The loop of `truncateStringToBytesFromEnd`, over the units from the last on. -/
def fromEnd (maxBytes : Nat) : Utf16 → Nat → Utf16 → Bool → Utf16 × Bool
  | [], _, output, needsReplacement => (output, needsReplacement)
  | [unit], outputBytes, output, needsReplacement =>
    if maxBytes < outputBytes + unitBytes unit then (output, needsReplacement)
    else (unit :: output, needsReplacement || isHigh unit || isLow unit)
  | unit :: previous :: rest, outputBytes, output, needsReplacement =>
    if isLow unit && isHigh previous then
      if maxBytes < outputBytes + 4 then (output, needsReplacement)
      else fromEnd maxBytes rest (outputBytes + 4) (previous :: unit :: output) needsReplacement
    else if maxBytes < outputBytes + unitBytes unit then (output, needsReplacement)
    else fromEnd maxBytes (previous :: rest) (outputBytes + unitBytes unit) (unit :: output) (needsReplacement || isHigh unit || isLow unit)

def truncateStringToBytesFromEnd (str : Utf16) (maxBytes : Nat) : Utf16 :=
  if maxBytes = 0 then []
  else
    let (output, needsReplacement) := fromEnd maxBytes str.reverse 0 [] false
    if needsReplacement then replaceUnpairedSurrogates output else output

/-! ## The characters of a text -/

def characters : Utf16 → List Utf16
  | [] => []
  | [unit] => [[unit]]
  | unit :: next :: rest =>
    if isHigh unit && isLow next then [unit, next] :: characters rest else [unit] :: characters (next :: rest)

def characterBytes : Utf16 → Nat
  | [unit] => unitBytes unit
  | _ => 4

def wellFormed : Utf16 → Utf16
  | [unit] => if isHigh unit || isLow unit then [replacement] else [unit]
  | pair => pair

theorem utf8ByteLength_eq (text : Utf16) : utf8ByteLength text = total characterBytes (characters text) := by
  induction text using characters.induct with
  | case1 => rfl
  | case2 unit => rfl
  | case3 unit next rest hPair ih =>
    rw [utf8ByteLength, characters, if_pos hPair, if_pos hPair, ih, total_cons]
    rfl
  | case4 unit next rest hPair ih =>
    rw [utf8ByteLength, characters, if_neg hPair, if_neg hPair, ih, total_cons]
    rfl

theorem replaceUnpairedSurrogates_eq (text : Utf16) : replaceUnpairedSurrogates text = (characters text).flatMap wellFormed := by
  induction text using characters.induct with
  | case1 => rfl
  | case2 unit =>
    rw [characters, flatMap_singleton]
    rfl
  | case3 unit next rest hPair ih =>
    rw [replaceUnpairedSurrogates, characters, if_pos hPair, if_pos hPair, ih, flatMap_cons]
    rfl
  | case4 unit next rest hPair ih =>
    rw [replaceUnpairedSurrogates, characters, if_neg hPair, if_neg hPair, ih, flatMap_cons]
    change _ = (if isHigh unit || isLow unit then [replacement] else [unit]) ++ _
    split <;> rfl

theorem flatten_characters (text : Utf16) : (characters text).flatten = text := by
  induction text using characters.induct with
  | case1 => rfl
  | case2 unit => rfl
  | case3 unit next rest hPair ih =>
    rw [characters, if_pos hPair, flatten_cons, ih]
    rfl
  | case4 unit next rest hPair ih =>
    rw [characters, if_neg hPair, flatten_cons, ih]
    rfl

variable {front : Utf16}

variable {back : Utf16}

theorem characters_append (h : ∀ unit ∈ front.getLast?, ∀ next ∈ back.head?, (isHigh unit && isLow next) = false) :
    characters (front ++ back) = characters front ++ characters back := by
  induction front using characters.induct with
  | case1 => rfl
  | case2 unit =>
    cases back with
    | nil => rfl
    | cons next back =>
      have hApart := h unit (by simp) next (by simp)
      have hSplit : characters (unit :: next :: back) = [unit] :: characters (next :: back) := by
        rw [characters, if_neg (by simp [hApart])]
      exact hSplit
  | case3 unit next rest hPair ih =>
    rw [cons_append, cons_append, characters, characters, if_pos hPair, if_pos hPair, cons_append]
    congr 1
    refine ih fun last hLast first hFirst => h last ?_ first hFirst
    cases rest with
    | nil => cases hLast
    | cons a rest => simpa using hLast
  | case4 unit next rest hPair ih =>
    rw [cons_append, cons_append, characters, characters, if_neg hPair, if_neg hPair, cons_append, ← cons_append]
    congr 1
    exact ih fun last hLast first hFirst => h last (by simpa using hLast) first hFirst

variable {unit : UInt16}

theorem not_isHigh_of_isLow (h : isLow unit = true) : isHigh unit = false := by
  unfold isLow at h
  unfold isHigh
  simp only [Bool.and_eq_true, decide_eq_true_eq] at h
  rw [Bool.and_eq_false_iff, decide_eq_false_iff_not, decide_eq_false_iff_not]
  omega

variable {text : Utf16} {kept : List Utf16}

theorem characters_suffix (h : kept <:+ characters text) : characters kept.flatten = kept := by
  induction text using characters.induct with
  | case1 =>
    rw [suffix_nil.mp h]
    rfl
  | case2 unit =>
    obtain rfl | hRest := suffix_cons_iff.mp h
    · rfl
    · rw [suffix_nil.mp hRest]
      rfl
  | case3 unit next rest hPair ih =>
    rw [characters, if_pos hPair] at h
    obtain rfl | hRest := suffix_cons_iff.mp h
    · rw [flatten_cons, flatten_characters]
      change characters (unit :: next :: rest) = _
      rw [characters, if_pos hPair]
    · exact ih hRest
  | case4 unit next rest hPair ih =>
    rw [characters, if_neg hPair] at h
    obtain rfl | hRest := suffix_cons_iff.mp h
    · rw [flatten_cons, flatten_characters]
      change characters (unit :: next :: rest) = _
      rw [characters, if_neg hPair]
    · exact ih hRest

theorem utf8ByteLength_cons (h : isHigh unit = false) (rest : Utf16) :
    utf8ByteLength (unit :: rest) = unitBytes unit + utf8ByteLength rest := by
  cases rest with
  | nil => rfl
  | cons next rest => rw [utf8ByteLength, if_neg (by simp [h])]

theorem utf8ByteLength_append (h : ∀ unit ∈ front.getLast?, ∀ next ∈ back.head?, (isHigh unit && isLow next) = false) :
    utf8ByteLength (front ++ back) = utf8ByteLength front + utf8ByteLength back := by
  rw [utf8ByteLength_eq, characters_append h, total_append, ← utf8ByteLength_eq, ← utf8ByteLength_eq]

theorem unitBytes_le (unit : UInt16) : unitBytes unit ≤ 3 := by
  unfold unitBytes
  split_ifs <;> omega

theorem unitBytes_pos (unit : UInt16) : 0 < unitBytes unit := by
  unfold unitBytes
  split_ifs <;> omega

theorem length_le_utf8ByteLength (text : Utf16) : text.length ≤ utf8ByteLength text := by
  induction text using characters.induct with
  | case1 => rfl
  | case2 unit => exact unitBytes_pos unit
  | case3 unit next rest hPair ih =>
    rw [utf8ByteLength, if_pos hPair, length_cons, length_cons]
    omega
  | case4 unit next rest hPair ih =>
    have := unitBytes_pos unit
    rw [utf8ByteLength, if_neg hPair, length_cons]
    omega

theorem utf8ByteLength_of_ascii (h : ∀ unit ∈ text, unit.toNat ≤ 0x7f) : utf8ByteLength text = text.length := by
  induction text with
  | nil => rfl
  | cons unit rest ih =>
    have hUnit := h unit mem_cons_self
    have hPlain : isHigh unit = false := by
      unfold isHigh
      rw [Bool.and_eq_false_iff, decide_eq_false_iff_not]
      omega
    have hByte : unitBytes unit = 1 := if_pos hUnit
    rw [utf8ByteLength_cons hPlain, ih fun other hOther => h other (mem_cons_of_mem _ hOther), hByte, length_cons, Nat.add_comm]

theorem unitBytes_surrogate (h : (isHigh unit || isLow unit) = true) : unitBytes unit = 3 := by
  unfold isHigh isLow at h
  simp only [Bool.or_eq_true, Bool.and_eq_true, decide_eq_true_eq] at h
  unfold unitBytes
  rw [if_neg (by omega), if_neg (by omega)]

theorem utf8ByteLength_append_le (front back : Utf16) :
    utf8ByteLength (front ++ back) ≤ utf8ByteLength front + utf8ByteLength back := by
  induction front using characters.induct with
  | case1 => exact Nat.le_add_left _ _
  | case2 unit =>
    cases back with
    | nil => exact Nat.le_refl _
    | cons next back =>
      have hSingle : utf8ByteLength [unit] = unitBytes unit := rfl
      rw [singleton_append, hSingle, utf8ByteLength]
      split
      · next hPair =>
        rw [Bool.and_eq_true] at hPair
        have hUnit : unitBytes unit = 3 := unitBytes_surrogate (by rw [hPair.1, Bool.true_or])
        have hNext : unitBytes next = 3 := unitBytes_surrogate (by rw [hPair.2, Bool.or_true])
        rw [utf8ByteLength_cons (not_isHigh_of_isLow hPair.2), hNext]
        omega
      · exact Nat.le_refl _
  | case3 unit next rest hPair ih =>
    rw [cons_append, cons_append, utf8ByteLength, if_pos hPair, utf8ByteLength, if_pos hPair]
    omega
  | case4 unit next rest hPair ih =>
    rw [cons_append, cons_append, utf8ByteLength, if_neg hPair, utf8ByteLength, if_neg hPair, ← cons_append]
    omega

theorem utf8ByteLength_replace (text : Utf16) : utf8ByteLength (replaceUnpairedSurrogates text) = utf8ByteLength text := by
  induction text using characters.induct with
  | case1 => rfl
  | case2 unit =>
    unfold replaceUnpairedSurrogates
    split
    · next hSurrogate => exact (unitBytes_surrogate hSurrogate).symm
    · rfl
  | case3 unit next rest hPair ih => rw [replaceUnpairedSurrogates, if_pos hPair, utf8ByteLength, if_pos hPair, utf8ByteLength, if_pos hPair, ih]
  | case4 unit next rest hPair ih =>
    rw [replaceUnpairedSurrogates, if_neg hPair]
    split
    · next hSurrogate =>
      rw [utf8ByteLength_cons (by decide), ih, utf8ByteLength, if_neg hPair, unitBytes_surrogate hSurrogate]
      rfl
    · next hPlain =>
      rw [Bool.or_eq_true, not_or, Bool.not_eq_true] at hPlain
      rw [utf8ByteLength_cons hPlain.1, ih, utf8ByteLength, if_neg hPair]

/-! ## The cut from the end -/

theorem characters_snoc_pair {previous : UInt16} (h : (isLow unit && isHigh previous) = true) :
    characters (front ++ [previous, unit]) = characters front ++ [[previous, unit]] := by
  rw [Bool.and_eq_true] at h
  rw [characters_append]
  · rw [characters, if_pos (by simp [h])]
    rfl
  · intro last _ next hNext
    have hEq : previous = next := by simpa using hNext
    subst hEq
    have hNotLow : isLow previous = false := by
      by_contra hLow
      have hBoth := not_isHigh_of_isLow (by simpa using hLow)
      rw [h.2] at hBoth
      cases hBoth
    rw [hNotLow, Bool.and_false]

theorem characters_snoc (h : ∀ previous ∈ front.getLast?, (isLow unit && isHigh previous) = false) :
    characters (front ++ [unit]) = characters front ++ [[unit]] := by
  rw [characters_append]
  · rfl
  · intro last hLast next hNext
    have hEq : unit = next := by simpa using hNext
    subst hEq
    rw [Bool.and_comm]
    exact h last hLast

def isLone : Utf16 → Bool
  | [unit] => isHigh unit || isLow unit
  | _ => false

theorem fromEnd_eq (maxBytes : Nat) (reversed : Utf16) (outputBytes : Nat) (output : Utf16) (needsReplacement : Bool)
    (h : outputBytes ≤ maxBytes) :
    fromEnd maxBytes reversed outputBytes output needsReplacement =
      ((takeWithin characterBytes (maxBytes - outputBytes) (characters reversed.reverse).reverse).reverse.flatten ++ output,
        needsReplacement || (takeWithin characterBytes (maxBytes - outputBytes) (characters reversed.reverse).reverse).any isLone) := by
  induction reversed, outputBytes, output, needsReplacement using fromEnd.induct maxBytes with
  | case1 outputBytes output needsReplacement => simp [fromEnd, characters, takeWithin]
  | case2 unit outputBytes output needsReplacement hOver =>
    have hNot : ¬ characterBytes [unit] ≤ maxBytes - outputBytes := by
      change ¬ unitBytes unit ≤ _
      omega
    rw [fromEnd, if_pos hOver]
    simp [characters, takeWithin, hNot]
  | case3 unit outputBytes output needsReplacement hFits =>
    have hFits' : characterBytes [unit] ≤ maxBytes - outputBytes := by
      change unitBytes unit ≤ _
      omega
    rw [fromEnd, if_neg hFits]
    simp [characters, takeWithin, hFits', isLone, Bool.or_assoc]
  | case4 unit previous rest outputBytes output needsReplacement hPair hOver =>
    have hNot : ¬ characterBytes [previous, unit] ≤ maxBytes - outputBytes := by
      change ¬ 4 ≤ _
      omega
    have hChars : characters (unit :: previous :: rest).reverse = characters rest.reverse ++ [[previous, unit]] := by
      rw [← characters_snoc_pair hPair]
      simp
    rw [fromEnd, if_pos hPair, if_pos hOver, hChars]
    simp [takeWithin, hNot]
  | case5 unit previous rest outputBytes output needsReplacement hPair hFits ih =>
    have hFits' : characterBytes [previous, unit] ≤ maxBytes - outputBytes := by
      change 4 ≤ _
      omega
    have hChars : characters (unit :: previous :: rest).reverse = characters rest.reverse ++ [[previous, unit]] := by
      rw [← characters_snoc_pair hPair]
      simp
    have hBytes : maxBytes - outputBytes - characterBytes [previous, unit] = maxBytes - (outputBytes + 4) := by
      change maxBytes - outputBytes - 4 = _
      omega
    rw [fromEnd, if_pos hPair, if_neg hFits, ih (by omega), hChars]
    simp [takeWithin, hFits', hBytes, isLone]
  | case6 unit previous rest outputBytes output needsReplacement hPair hOver =>
    have hNot : ¬ characterBytes [unit] ≤ maxBytes - outputBytes := by
      change ¬ unitBytes unit ≤ _
      omega
    have hChars : characters (unit :: previous :: rest).reverse = characters (previous :: rest).reverse ++ [[unit]] := by
      rw [← characters_snoc (by simpa using hPair)]
      simp
    rw [fromEnd, if_neg hPair, if_pos hOver, hChars]
    simp [takeWithin, hNot]
  | case7 unit previous rest outputBytes output needsReplacement hPair hFits ih =>
    have hFits' : characterBytes [unit] ≤ maxBytes - outputBytes := by
      change unitBytes unit ≤ _
      omega
    have hChars : characters (unit :: previous :: rest).reverse = characters (previous :: rest).reverse ++ [[unit]] := by
      rw [← characters_snoc (by simpa using hPair)]
      simp
    have hBytes : maxBytes - outputBytes - characterBytes [unit] = maxBytes - (outputBytes + unitBytes unit) := by
      change maxBytes - outputBytes - unitBytes unit = _
      omega
    rw [fromEnd, if_neg hPair, if_neg hFits, ih (by omega), hChars]
    simp [takeWithin, hFits', hBytes, isLone, Bool.or_assoc]

def keptFromEnd (str : Utf16) (maxBytes : Nat) : List Utf16 := (takeWithin characterBytes maxBytes (characters str).reverse).reverse

theorem keptFromEnd_suffix (str : Utf16) (maxBytes : Nat) : keptFromEnd str maxBytes <:+ characters str := by
  rw [← List.reverse_prefix]
  unfold keptFromEnd
  rw [reverse_reverse]
  exact prefix_takeWithin maxBytes _

theorem characterBytes_pos (character : Utf16) : 0 < characterBytes character := by
  unfold characterBytes unitBytes
  split
  · split_ifs <;> omega
  · omega

theorem takeWithin_zero (text : List Utf16) : takeWithin characterBytes 0 text = [] := by
  cases text with
  | nil => rfl
  | cons character rest => exact if_neg (not_le.mpr (characterBytes_pos character))

theorem replaced_eq {any : Bool} (h : characters kept.flatten = kept) (hAny : any = kept.any isLone) :
    (if any then replaceUnpairedSurrogates kept.flatten else kept.flatten) = kept.flatMap wellFormed := by
  have hReplaced : replaceUnpairedSurrogates kept.flatten = kept.flatMap wellFormed := by
    rw [replaceUnpairedSurrogates_eq, h]
  split
  · exact hReplaced
  · next hNone =>
    rw [hAny, any_eq_true, not_exists] at hNone
    rw [flatten_eq_flatMap]
    refine flatMap_congr fun character hCharacter => ?_
    unfold wellFormed
    split
    · next unit => exact (if_neg fun hLone => hNone [unit] ⟨hCharacter, hLone⟩).symm
    · rfl

theorem truncateStringToBytesFromEnd_eq (str : Utf16) (maxBytes : Nat) :
    truncateStringToBytesFromEnd str maxBytes = replaceUnpairedSurrogates (keptFromEnd str maxBytes).flatten := by
  have hKept := characters_suffix (keptFromEnd_suffix str maxBytes)
  unfold truncateStringToBytesFromEnd
  split
  · next hZero =>
    rw [keptFromEnd, hZero, takeWithin_zero]
    rfl
  · rw [fromEnd_eq maxBytes _ 0 [] false (Nat.zero_le _), reverse_reverse, Nat.sub_zero, Bool.false_or, append_nil]
    refine (replaced_eq hKept (any_reverse).symm).trans ?_
    rw [replaceUnpairedSurrogates_eq, hKept]

theorem utf8ByteLength_truncated (str : Utf16) (maxBytes : Nat) :
    utf8ByteLength (truncateStringToBytesFromEnd str maxBytes) ≤ maxBytes := by
  rw [truncateStringToBytesFromEnd_eq, utf8ByteLength_replace, utf8ByteLength_eq, characters_suffix (keptFromEnd_suffix str maxBytes)]
  unfold keptFromEnd
  rw [total_reverse]
  exact total_takeWithin maxBytes _

end Stella.ToolOutput
