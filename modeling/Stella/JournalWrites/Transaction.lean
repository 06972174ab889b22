import Stella.JournalWrites.Model

/-! # The rows of one append

Writer keys name their append and their ordinal. Of a request none of whose rows is there, a
transaction that succeeds inserts every row, at consecutive seqs.
-/

namespace Stella.JournalWrites

open Stella.Conversation List

/-! ## Writer keys -/

theorem toList_repr (n : Nat) : n.repr.toList = Nat.toDigits 10 n := String.toList_ofList

theorem repr_inj {m n : Nat} (h : m.repr.toList = n.repr.toList) : m = n := by
  rw [toList_repr, toList_repr] at h
  have hDigits : Nat.ofDigitChars 10 (Nat.toDigits 10 m) 0 = Nat.ofDigitChars 10 (Nat.toDigits 10 n) 0 := by rw [h]
  rwa [Nat.ofDigitChars_toDigits (by decide) (by decide), Nat.ofDigitChars_toDigits (by decide) (by decide)] at hDigits

theorem colon_notMem_repr (n : Nat) : ':' ∉ n.repr.toList := by
  rw [toList_repr]
  intro h
  have hDigit := Nat.isDigit_of_mem_toDigits (by decide) (by decide) h
  cases hDigit

theorem append_colon_inj {a b c d : List Char} (hB : ':' ∉ b) (hD : ':' ∉ d) (h : a ++ ':' :: b = c ++ ':' :: d) :
    a = c ∧ b = d := by
  obtain ⟨x, hC, hRest⟩ | ⟨x, hA, hRest⟩ := append_eq_append_iff.mp h
  · cases x with
    | nil => exact ⟨(hC.trans (append_nil a)).symm, (List.cons.inj hRest).2⟩
    | cons _ x => exact absurd ((List.cons.inj hRest).2 ▸ mem_append_right x mem_cons_self) hB
  · cases x with
    | nil => exact ⟨hA.trans (append_nil c), (List.cons.inj hRest).2.symm⟩
    | cons _ x => exact absurd ((List.cons.inj hRest).2 ▸ mem_append_right x mem_cons_self) hD

namespace AppendRequest

theorem toList_writerKey (request : AppendRequest) (ordinal : Nat) :
    (request.writerKey ordinal).toList = request.receiptKey.toList ++ ':' :: ordinal.repr.toList := by
  unfold writerKey
  rw [String.toList_append, String.toList_append, append_assoc]
  rfl

theorem writerKey_inj {request other : AppendRequest} {m n : Nat} (h : request.writerKey m = other.writerKey n) :
    request.receiptKey = other.receiptKey ∧ m = n := by
  have hChars := congrArg String.toList h
  rw [toList_writerKey, toList_writerKey] at hChars
  obtain ⟨hKey, hOrdinal⟩ := append_colon_inj (colon_notMem_repr m) (colon_notMem_repr n) hChars
  exact ⟨String.toList_injective hKey, repr_inj hOrdinal⟩

def isVoice (writerKey : String) : Bool := "voice:".toList.isPrefixOf writerKey.toList

theorem isVoice_writerKey (request : AppendRequest) (ordinal : Nat) : isVoice (request.writerKey ordinal) = true := by
  unfold isVoice
  rw [List.isPrefixOf_iff_prefix, toList_writerKey]
  unfold receiptKey
  rw [String.toList_append, String.toList_append, String.toList_append, append_assoc, append_assoc, append_assoc]
  exact prefix_append _ _

end AppendRequest

open AppendRequest

variable {φ : Type} {env : AppendEnv φ}

/-! ## The transaction -/

variable {journal : Journal}

theorem insert_fresh {columns : NewRow} {result : Journal × Nat × Bool}
    (hFresh : ∀ row ∈ journal.rows, row.writerKey ≠ (columns journal.nextSeq).writerKey)
    (h : journal.insert columns = some result) :
    result = ({ journal with
      rows := journal.rows ++ [{ columns journal.nextSeq with seq := journal.nextSeq }], nextSeq := journal.nextSeq + 1 },
      journal.nextSeq, true) := by
  unfold Journal.insert at h
  dsimp only at h
  split at h
  · next existing hFound =>
    have hEq : decide (existing.writerKey = (columns journal.nextSeq).writerKey) = true :=
      find?_some (p := fun r : JournalRow => decide (r.writerKey = (columns journal.nextSeq).writerKey)) hFound
    exact absurd (of_decide_eq_true hEq) (hFresh existing (mem_of_find?_eq_some hFound))
  · split at h
    · cases h
    · split at h
      · cases h
      · exact (Option.some.inj h).symm

variable {request : AppendRequest} {createdAt : Int} {prepared : List Prepared} {ordinal : Nat}

theorem appendRows_batch {result : Journal × List Nat}
    (hFresh : ∀ row ∈ journal.rows, ∀ n, ordinal ≤ n → row.writerKey ≠ request.writerKey n)
    (h : appendRows journal (env.batch request createdAt ordinal prepared) = some result) :
    result = ({ journal with
      rows := journal.rows ++ env.rowsFrom request createdAt ordinal journal.nextSeq prepared
      nextSeq := journal.nextSeq + prepared.length }, List.range' journal.nextSeq prepared.length) := by
  induction prepared generalizing ordinal journal result with
  | nil =>
    unfold AppendEnv.batch appendRows at h
    rw [← Option.some.inj h, AppendEnv.rowsFrom, append_nil]
    rfl
  | cons entry rest ih =>
    unfold AppendEnv.batch appendRows at h
    split at h
    · cases h
    · obtain ⟨inserted, hInsert, hRest⟩ := Option.bind_eq_some_iff.mp h
      obtain ⟨later, hLater, rfl⟩ := Option.map_eq_some_iff.mp hRest
      have hInserted := insert_fresh (fun row hRow => hFresh row hRow ordinal le_rfl) hInsert
      subst hInserted
      have hNext : ∀ row ∈ journal.rows ++ [env.columns request createdAt ordinal entry journal.nextSeq],
          ∀ n, ordinal + 1 ≤ n → row.writerKey ≠ request.writerKey n := by
        intro row hRow n hN
        obtain hOld | hNew := mem_append.mp hRow
        · exact hFresh row hOld n (Nat.le_of_succ_le hN)
        · rw [mem_singleton.mp hNew]
          intro hSame
          have hKeys : request.writerKey ordinal = request.writerKey n := hSame
          have hAt := (writerKey_inj hKeys).2
          omega
      rw [ih hNext hLater]
      dsimp only
      rw [append_assoc, length_cons, Nat.add_right_comm journal.nextSeq 1, range'_succ]
      rfl

theorem writerKey_of_mem_rowsFrom {seq : Nat}
    {row : JournalRow} (h : row ∈ env.rowsFrom request createdAt ordinal seq prepared) :
    ∃ n, row.writerKey = request.writerKey n := by
  induction prepared generalizing ordinal seq with
  | nil => cases h
  | cons entry rest ih =>
    obtain rfl | hRest := mem_cons.mp h
    · exact ⟨ordinal, rfl⟩
    · exact ih hRest

def Appended.rows (a : Appended) (env : AppendEnv φ) : List JournalRow :=
  env.rowsFrom a.request a.createdAt 0 a.firstSeq a.prepared

end Stella.JournalWrites
