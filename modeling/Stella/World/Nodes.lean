import Stella.World.Statements

/-! # The nodes a mutation leaves

Whatever becomes of a call, each row it leaves holds a node that was there before, a directory
made on the way, or a node the call was given.
-/

namespace Stella.World

structure Mutation.Holds (P : Node → Prop) (blobs : InsertionMap String BlobRow) (m : Mutation) : Prop where
  nodes : ∀ q node, m.entryRow q = some node → P node
  blobs : m.store.blobs = blobs

namespace Mutation

theorem closed_holds (P : Node → Prop) (blobs : InsertionMap String BlobRow) : Closed P (Holds P blobs) where
  upsert := fun m path node _ hNode h => by
    refine ⟨fun q other hRow => ?_, h.blobs⟩
    rw [entryRow_upsert] at hRow
    split at hRow
    · exact Option.some.inj hRow ▸ hNode
    · exact h.nodes q other hRow
  delete := fun m path h => by
    refine ⟨fun q other hRow => ?_, h.blobs⟩
    rw [entryRow_delete] at hRow
    split at hRow
    · cases hRow
    · exact h.nodes q other hRow
  clearTombstone := fun _ _ h => ⟨h.nodes, h.blobs⟩
  unpin := fun m node h => by
    unfold Mutation.unpin
    split
    · exact ⟨h.nodes, h.blobs⟩
    · exact h
  rows := fun _ q node h hRow => h.nodes q node hRow

end Mutation

namespace WorldSqlStore

variable {P : Node → Prop} {blobs : InsertionMap String BlobRow} {store : WorldSqlStore}

abbrev Holds (P : Node → Prop) (blobs : InsertionMap String BlobRow) (store : WorldSqlStore) : Prop :=
  store.start.Holds P blobs

theorem holds_mutate {α : Type} {operation : Mutation → Except WorldError α × Mutation}
    (h : (operation store.start).2.Holds P blobs) : (store.mutate operation).2.Holds P blobs where
  nodes := fun q node hRow => by
    have hEq : (store.mutate operation).2.entryRow q = (operation store.start).2.entryRow q := mutate_entryRow operation q
    exact h.nodes q node (hEq.symm.trans hRow)
  blobs := by
    rw [← h.blobs]
    unfold mutate
    split
    · rename_i hRes
      rw [hRes]
    · rename_i hRes
      rw [hRes]
      split <;> rfl

theorem holds_ends (h : store.Holds P blobs) : Ends store (Mutation.Holds P blobs) (fun result => Holds P blobs result.2) where
  idle := fun _ => h
  mutate := fun _ hBody => holds_mutate hBody

end WorldSqlStore

end Stella.World
