import Mathlib.Algebra.GroupWithZero.Nat
import Mathlib.Data.List.Infix

/-! # World paths

`world/path.ts`: paths of the world are relative, in normal form and at most 1024 bytes long.
-/

namespace Stella.World

open List

abbrev Text := List Char

/-- Membership in a list of texts is decided by this one instance. -/
instance Text.lawful : LawfulBEq Text := List.instLawfulBEq

def worldPathLimitBytes : Nat := 1024

def pathBytes (path : Text) : Nat := (path.map Char.utf8Size).sum

inductive WorldError
  | invalidPath (input : Text)
  | inDrive (path : Text)
  | parentNotDirectory (path : Text)
  | writeTooLarge
  | fileTooLarge
  | notFile (path : Text)
  | notDirectory (path : Text)
  | notFound (path : Text)
  | notEmpty (path : Text)
  | intoItself
  | alreadyExists (path : Text)
  | invalidEntry (path : Text)
  | missingSha256 (path : Text)
  | sizeMismatch (path : Text)
  | quotaExceeded
  | invalidRevision
  | uniqueConstraint
  | bucketFailed
  deriving DecidableEq

def isNormalPath (input : Text) : Bool :=
  input.head? ≠ some '/' && !input.contains '\\' && !input.contains (Char.ofNat 0) && input.getLast? ≠ some '/' &&
    (input.splitOn '/').all (fun segment => segment ≠ [] && segment ≠ ['.'] && segment ≠ ['.', '.']) &&
    pathBytes input ≤ worldPathLimitBytes

def normalizeWorldPath (input : Text) (allowRoot : Bool) : Except WorldError Text :=
  if input = [] ∧ allowRoot = true then .ok []
  else if isNormalPath input then .ok input
  else .error (.invalidPath input)

def parentPath (path : Text) : Text := ((path.reverse.dropWhile (· ≠ '/')).drop 1).reverse

def pathWithin (path within : Text) : Bool :=
  within = [] || path = within || (within ++ ['/']).isPrefixOf path

def worldDriveDir : Text := "drive".toList

def isWorldDrivePath (path : Text) : Bool := pathWithin path worldDriveDir

/-- `length` of a text, in UTF-16 units. -/
def utf16Width (c : Char) : Nat := if c.toNat < 0x10000 then 1 else 2

def utf16Length (text : Text) : Nat := (text.map utf16Width).sum

/-- `slice(units)`. A cut inside a surrogate pair leaves half of it, which is stored as the replacement character. -/
def sliceUnits : Nat → Text → Text
  | 0, text => text
  | _, [] => []
  | units + 1, c :: text =>
    if utf16Width c ≤ units + 1 then sliceUnits (units + 1 - utf16Width c) text else Char.ofNat 0xfffd :: text

/-- What stands in front of each slash of `rest`, `front` read already. -/
def ancestorsFrom (front : Text) : Text → List Text
  | [] => []
  | c :: rest => (if c = '/' then [front] else []) ++ ancestorsFrom (front ++ [c]) rest

/-- The paths `ensureParents` walks: each segment but the last one joined to those before it. -/
def ancestors (path : Text) : List Text := ancestorsFrom [] path

theorem pathWithin_iff {path within : Text} (hWith : within ≠ []) :
    pathWithin path within = true ↔ ∃ suffix, path = within ++ suffix ∧ (suffix = [] ∨ suffix.head? = some '/') := by
  unfold pathWithin
  simp only [hWith, decide_false, Bool.false_or, Bool.or_eq_true, decide_eq_true_eq, List.isPrefixOf_iff_prefix]
  constructor
  · rintro (rfl | ⟨rest, rfl⟩)
    · exact ⟨[], (append_nil _).symm, .inl rfl⟩
    · exact ⟨'/' :: rest, by simp, .inr rfl⟩
  · rintro ⟨suffix, rfl, rfl | hSlash⟩
    · exact .inl (append_nil _)
    · obtain ⟨rest, rfl⟩ := head?_eq_some_iff.mp hSlash
      exact .inr ⟨rest, by simp⟩

theorem utf16Width_pos (c : Char) : 0 < utf16Width c := by
  unfold utf16Width
  split <;> decide

theorem sliceUnits_append (lead rest : Text) : sliceUnits (utf16Length lead) (lead ++ rest) = rest := by
  induction lead with
  | nil => cases rest <;> rfl
  | cons c lead ih =>
    obtain ⟨width, hWidth⟩ := Nat.exists_eq_add_one.mpr (utf16Width_pos c)
    have hLen : utf16Length (c :: lead) = width + utf16Length lead + 1 := by
      unfold utf16Length
      rw [map_cons, sum_cons, hWidth]
      omega
    rw [hLen, cons_append, sliceUnits, if_pos (by omega), hWidth]
    have hRest : width + utf16Length lead + 1 - (width + 1) = utf16Length lead := by omega
    rw [hRest, ih]

theorem mem_ancestorsFrom (front rest a : Text) :
    a ∈ ancestorsFrom front rest ↔ front.length ≤ a.length ∧ ∃ suffix, front ++ rest = a ++ '/' :: suffix := by
  induction rest generalizing front with
  | nil =>
    simp only [ancestorsFrom, not_mem_nil, append_nil, false_iff, not_and, not_exists]
    intro hLen suffix hEq
    have hCnt := congrArg List.length hEq
    rw [length_append, length_cons] at hCnt
    omega
  | cons c rest ih =>
    rw [ancestorsFrom, mem_append, ih, append_assoc, singleton_append]
    constructor
    · rintro (hHere | ⟨hLen, suffix, hEq⟩)
      · split at hHere
        · rename_i hSlash
          rw [mem_singleton.mp hHere, hSlash]
          exact ⟨le_rfl, rest, rfl⟩
        · cases hHere
      · rw [length_append, length_singleton] at hLen
        exact ⟨by omega, suffix, hEq⟩
    · rintro ⟨hLen, suffix, hEq⟩
      rcases Nat.eq_or_lt_of_le hLen with hSame | hLonger
      · obtain ⟨rfl, hTail⟩ := append_inj hEq hSame
        rw [if_pos (List.cons.inj hTail).1]
        exact .inl (mem_singleton_self _)
      · refine .inr ⟨?_, suffix, hEq⟩
        rw [length_append, length_singleton]
        exact hLonger

theorem mem_ancestors (path a : Text) : a ∈ ancestors path ↔ ∃ suffix, path = a ++ '/' :: suffix := by
  unfold ancestors
  rw [mem_ancestorsFrom]
  simp

theorem nodup_ancestors (path : Text) : (ancestors path).Nodup := by
  unfold ancestors
  generalize ([] : Text) = front
  induction path generalizing front with
  | nil => exact nodup_nil
  | cons c path ih =>
    rw [ancestorsFrom]
    split
    · refine nodup_cons.mpr ⟨fun hMem => ?_, ih _⟩
      have hLen := ((mem_ancestorsFrom _ _ _).mp hMem).1
      rw [length_append, length_singleton] at hLen
      omega
    · exact ih _

end Stella.World
