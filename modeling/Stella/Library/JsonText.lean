/-! # The text of JSON strings

`JSON.stringify` of a string, and of an array of strings.
-/

namespace Stella.JsonText

open List

def hexDigit (n : Nat) : Char := ("0123456789abcdef".toList)[n]?.getD '0'

def escapeChar (c : Char) : List Char :=
  match c with
  | '"' => ['\\', '"']
  | '\\' => ['\\', '\\']
  | '\x08' => ['\\', 'b']
  | '\t' => ['\\', 't']
  | '\n' => ['\\', 'n']
  | '\x0c' => ['\\', 'f']
  | '\r' => ['\\', 'r']
  | c => if c.toNat < 32 then ['\\', 'u', '0', '0', hexDigit (c.toNat / 16), hexDigit (c.toNat % 16)] else [c]

def quoteChars (cs : List Char) : List Char := '"' :: cs.flatMap escapeChar ++ ['"']

def quote (s : String) : String := String.ofList (quoteChars s.toList)

def stringifyArray (items : List String) : String := "[" ++ ",".intercalate (items.map quote) ++ "]"

example : stringifyArray ["a\"b", "c"] = "[\"a\\\"b\",\"c\"]" := by decide

/-! ## Reading a text back -/

theorem flatMap_append_inj {α β : Type} {f : α → List β} {stop : β} (hHead : ∀ a, ∃ x word, f a = x :: word ∧ x ≠ stop)
    (hFree : ∀ a b u v, f a ++ u = f b ++ v → a = b) {xs ys : List α} {u v : List β}
    (h : xs.flatMap f ++ stop :: u = ys.flatMap f ++ stop :: v) : xs = ys ∧ u = v := by
  induction xs generalizing ys with
  | nil =>
    cases ys with
    | nil => exact ⟨rfl, (List.cons.inj h).2⟩
    | cons b ys =>
      obtain ⟨x, word, hWord, hNot⟩ := hHead b
      rw [flatMap_cons, hWord] at h
      exact absurd (List.cons.inj h).1.symm hNot
  | cons a xs ih =>
    cases ys with
    | nil =>
      obtain ⟨x, word, hWord, hNot⟩ := hHead a
      rw [flatMap_cons, hWord] at h
      exact absurd (List.cons.inj h).1 hNot
    | cons b ys =>
      rw [flatMap_cons, flatMap_cons, append_assoc, append_assoc] at h
      obtain rfl := hFree a b _ _ h
      obtain ⟨rfl, hRest⟩ := ih (append_cancel_left h)
      exact ⟨rfl, hRest⟩

def hexValue (c : Char) : Nat := "0123456789abcdef".toList.idxOf c

def unescapeHead : List Char → Option Char
  | '\\' :: 'u' :: '0' :: '0' :: x :: y :: _ => some (Char.ofNat (16 * hexValue x + hexValue y))
  | '\\' :: 'b' :: _ => some '\x08'
  | '\\' :: 't' :: _ => some '\t'
  | '\\' :: 'n' :: _ => some '\n'
  | '\\' :: 'f' :: _ => some '\x0c'
  | '\\' :: 'r' :: _ => some '\r'
  | '\\' :: c :: _ => some c
  | c :: _ => some c
  | [] => none

theorem control_of_digits : ∀ n : Fin 32,
    Char.ofNat (16 * hexValue (hexDigit (n.val / 16)) + hexValue (hexDigit (n.val % 16))) = Char.ofNat n.val := by
  decide

theorem unescapeHead_escapeChar (c : Char) (rest : List Char) : unescapeHead (escapeChar c ++ rest) = some c := by
  unfold escapeChar
  split
  · rfl
  · rfl
  · rfl
  · rfl
  · rfl
  · rfl
  · rfl
  · next hNotBackslash _ _ _ _ _ =>
    split
    · next hControl =>
      have hDigits := control_of_digits ⟨c.toNat, hControl⟩
      dsimp only at hDigits
      rw [Char.ofNat_toNat] at hDigits
      exact congrArg some hDigits
    · unfold unescapeHead
      split <;> simp_all

theorem escapeChar_free (a b : Char) (u v : List Char) (h : escapeChar a ++ u = escapeChar b ++ v) : a = b := by
  have hHead := congrArg unescapeHead h
  rw [unescapeHead_escapeChar, unescapeHead_escapeChar] at hHead
  exact Option.some.inj hHead

theorem escapeChar_head (c : Char) : ∃ x word, escapeChar c = x :: word ∧ x ≠ '"' := by
  unfold escapeChar
  split
  all_goals try exact ⟨_, _, rfl, by decide⟩
  next hNotQuote _ _ _ _ _ _ =>
    split
    · exact ⟨_, _, rfl, by decide⟩
    · exact ⟨c, [], rfl, hNotQuote⟩

theorem quoteChars_append_inj {cs ds u v : List Char} (h : quoteChars cs ++ u = quoteChars ds ++ v) : cs = ds ∧ u = v := by
  unfold quoteChars at h
  rw [cons_append, cons_append, cons_append, cons_append, append_assoc, append_assoc] at h
  exact flatMap_append_inj escapeChar_head escapeChar_free (List.cons.inj h).2

end Stella.JsonText
