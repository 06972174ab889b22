import Stella.Drive.Claims
import Mathlib.Data.List.Dedup

/-! # No drive file loses its bytes

Each step of a parked call, and from it every run: while bytes arrive and are
linked before a cleanup pass takes up the row that stands for them, every file's
row names an object stored in full, and every object is named by a row.
-/

namespace Stella.Drive

open Stella.Transition List

variable {w w' : World}

theorem later_tasks (tasks : List Task) : Later w { w with tasks } := { Later.refl w with }

theorem Moves.trace (h : Moves w w') (overwrites : List Overwrite) (results : List TurnResult) :
    Moves w { w' with overwrites, results } := ⟨{ h.core with }, { h.later with }, h.tasks⟩

theorem Kept.moves (h : Kept w) (hMoves : Moves w w') : Kept w' where
  core := hMoves.core
  tasks t ht := (h.tasks t (hMoves.tasks ▸ ht)).later hMoves.later
  keys := hMoves.tasks ▸ h.keys

structure InHand (w : World) (t : Task) : Prop where
  kept : Kept w
  task : TaskKept w t
  keys : (t.claims.map Claim.key ++ taskKeys w.tasks).Nodup

variable {t : Task}

theorem Kept.drop (h : Kept w) {i : Nat} (hTask : w.tasks[i]? = some t) : InHand (w.dropTask i) t := by
  have hPerm : (taskKeys w.tasks).Perm (t.claims.map Claim.key ++ taskKeys (w.tasks.eraseIdx i)) :=
    (Rows.perm_cons_eraseIdx hTask).flatMap_right _
  have hKeys := hPerm.nodup_iff.mp h.keys
  refine ⟨⟨{ h.core with }, fun t' ht' => ?_, (nodup_append.mp hKeys).2.1⟩, ?_, hKeys⟩
  · exact (h.tasks t' (mem_of_mem_eraseIdx ht')).later (later_tasks _)
  · exact (h.tasks t (mem_of_getElem? hTask)).later (later_tasks _)

theorem Kept.park (h : Kept w) (hTask : TaskKept w t)
    (hKeys : (t.claims.map Claim.key ++ taskKeys w.tasks).Nodup) : Kept (w.park t) := by
  refine ⟨{ h.core with }, fun t' ht' => ?_, ?_⟩
  · obtain ht' | rfl := mem_append.mp ht' |>.imp_right mem_singleton.mp
    · exact (h.tasks t' ht').later (later_tasks _)
    · exact hTask.later (later_tasks _)
  · change (taskKeys (w.tasks ++ [t])).Nodup
    unfold taskKeys at hKeys ⊢
    rw [flatMap_append, flatMap_singleton]
    exact (perm_append_comm.nodup_iff).mp hKeys

theorem Kept.park_plain (h : Kept w) (hClaims : t.claims = []) (hPass : PassKept w t)
    (hCaptured : ∀ p ∈ t.captured, CapturedKept w p) : Kept (w.park t) := by
  refine h.park ⟨fun c hc => ?_, hPass, hCaptured⟩ ?_
  · rw [hClaims] at hc
    cases hc
  · rw [hClaims]
    exact h.keys

theorem InHand.park (h : InHand w t) {t' : Task} (hTask : TaskKept w t')
    (hKeys : (t'.claims.map Claim.key).Sublist (t.claims.map Claim.key)) : Kept (w.park t') :=
  h.kept.park hTask (h.keys.sublist (hKeys.append_right _))

theorem Kept.fresh (h : Kept w) (key : Key) (hId : w.nextId ≤ key.id) : key ∉ taskKeys w.tasks := by
  intro hMem
  obtain ⟨t, ht, hKey⟩ := mem_flatMap.mp hMem
  obtain ⟨c, hc, rfl⟩ := mem_map.mp hKey
  have := ((h.tasks t ht).claims c hc).made.1
  omega

theorem CoreBut.fresh_entry (h : Core w) (key : Key) (hId : key.id = w.nextId) (hStaging : key.staging = false)
    (path : String) (notBefore : Nat) :
    Moves w ({ w with nextId := w.nextId + 1 }.queueCleanup path key notBefore) ∧
      ClaimKept ({ w with nextId := w.nextId + 1 }.queueCleanup path key notBefore)
        ⟨key, w.nextId + 1, .unasked⟩ := by
  have hFile : ∀ r ∈ w.db.files, r.r2Key ≠ key := by
    rintro r hr rfl
    have := h.fileIds r hr
    omega
  have hUpload : ∀ u ∈ w.db.uploads, u.r2Key ≠ key := by
    rintro u hu rfl
    have := (h.uploadIds u hu).2.1
    omega
  have hQuiet : ∀ q ∈ w.inflight, q.op.target ≠ key := by
    rintro q hq rfl
    have := (h.requestIds q hq).2
    omega
  have hBelow : key.id < w.nextId + 1 := hId ▸ Nat.lt_succ_self _
  have hMoves : Moves w ({ w with nextId := w.nextId + 1 }.queueCleanup path key notBefore) :=
    ⟨(h.moves_id.core.queueCleanup hBelow hFile hUpload hQuiet path notBefore).mono fun k hk => hk.1,
      h.moves_id.later.trans (later_queueCleanup _ _ _), rfl⟩
  refine ⟨hMoves, hStaging, ⟨Nat.lt_succ_of_lt hBelow, Nat.lt_succ_self _⟩, fun u hu hEq => ?_,
    fun q hq _ => hQuiet q hq, ?_⟩
  · obtain hu | rfl := mem_append.mp hu |>.imp_right mem_singleton.mp
    · have := (h.uploadIds u hu).1
      change u.uploadId = w.nextId + 1 at hEq
      omega
    · rfl
  · by_contra hSome
    obtain ⟨r, hr, hKey⟩ | ⟨u, hu, hKey⟩ := (h.covered key hSome).resolve_left id
    · exact hFile r hr hKey
    · exact hUpload u hu hKey

/-! ## The commit of a turn -/

variable {debtId : Nat}

theorem unswept_install {other : Nat} (h : w.unswept other = true) (hOther : other ≠ debtId) (now : Nat)
    (row : FileRow) : ((w.install now row).dropUpload debtId).unswept other = true := by
  obtain ⟨u, hu, hId, hFree⟩ := unswept_iff.mp h
  refine unswept_iff.mpr ⟨u, mem_dropUpload.mpr ⟨?_, hId ▸ hOther⟩, hId, hFree⟩
  unfold World.install
  split
  · dsimp only
    split
    · exact hu
    · exact mem_append_left _ hu
  · exact hu

theorem debtId_ne {e e' : Entry} (h : ClaimKept w e.settled) (h' : ClaimKept w e'.settled)
    (hDebt : w.unswept e.debtId = true) (hKey : e.r2Key ≠ e'.r2Key) : e.debtId ≠ e'.debtId := by
  intro hEq
  obtain ⟨u, hu, hId, -⟩ := unswept_iff.mp hDebt
  exact hKey ((h.owed u hu hId).symm.trans (h'.owed u hu (hId.trans hEq)))

variable {entry : Entry}

theorem CoreBut.moves_linkEntry (h : Core w) (hClaim : ClaimKept w entry.settled)
    (hDebt : w.unswept entry.debtId = true) (call : TurnCall) (now : Nat) : Moves w (w.linkEntry call now entry) :=
  have hInstall : Moves w ((w.install now (w.turnRow call entry now)).dropUpload entry.debtId) :=
    h.moves_install hClaim hDebt now
  hInstall.trace _ _

theorem CoreBut.moves_links (h : Core w) {entries : List Entry} (hClaims : ∀ e ∈ entries, ClaimKept w e.settled)
    (hKeys : (entries.map Entry.r2Key).Nodup) (hDebts : ∀ e ∈ entries, w.unswept e.debtId = true) (call : TurnCall)
    (now : Nat) : Moves w (entries.foldl (fun w entry => w.linkEntry call now entry) w) := by
  induction entries generalizing w with
  | nil => exact h.moves_refl
  | cons e entries ih =>
    rw [map_cons, nodup_cons] at hKeys
    have hSelf := hClaims e mem_cons_self
    have hDebt := hDebts e mem_cons_self
    have hMoves := h.moves_linkEntry hSelf hDebt call now
    refine hMoves.trans (ih hMoves.core (fun e' he' => (hClaims e' (mem_cons_of_mem _ he')).later hMoves.later)
      hKeys.2 fun e' he' => ?_)
    refine unswept_install (hDebts e' (mem_cons_of_mem _ he')) (Ne.symm ?_) now _
    exact debtId_ne hSelf (hClaims e' (mem_cons_of_mem _ he')) hDebt
      fun hEq => hKeys.1 (hEq ▸ mem_map_of_mem he')

theorem CoreBut.moves_expires (h : Core w) (entries : List Entry) (now : Nat) :
    Moves w (entries.foldl (fun w entry => w.expireUpload entry.debtId now) w) := by
  induction entries generalizing w with
  | nil => exact h.moves_refl
  | cons e entries ih =>
    have hMoves := h.moves_expire e.debtId now
    exact hMoves.trans (ih hMoves.core)

theorem CoreBut.moves_retires (h : Core w) {staged : List UploadRow} (hStaged : ∀ p ∈ staged, CapturedKept w p)
    (now : Nat) : Moves w (staged.foldl (fun w pending => w.retirePendingUpload pending now) w) := by
  induction staged generalizing w with
  | nil => exact h.moves_refl
  | cons p staged ih =>
    have hMoves := h.moves_retire (hStaged p mem_cons_self).2 now
    exact hMoves.trans (ih hMoves.core fun p' hp' => (hStaged p' (mem_cons_of_mem _ hp')).later hMoves.later)

variable {call : TurnCall} {quota : DriveQuota}

theorem CoreBut.moves_turnCommit (h : Core w) {entries : List Entry}
    (hClaims : ∀ e ∈ entries, ClaimKept w e.settled) (hKeys : (entries.map Entry.r2Key).Nodup)
    (hDebts : ∀ e ∈ w.linkedEntries quota entries, w.unswept e.debtId = true)
    (hStaged : ∀ p ∈ call.staged, CapturedKept w p) (now : Nat) : Moves w (w.turnCommit call entries quota now) := by
  have hLinked : ∀ e ∈ w.linkedEntries quota entries, e ∈ entries := fun e he => (mem_filter.mp he).1
  have hLinks := h.moves_links (fun e he => hClaims e (hLinked e he))
    (hKeys.sublist ((filter_sublist).map _)) hDebts call now
  have hExpires := hLinks.trans (hLinks.core.moves_expires (entries.filter (fun e => e ∉ w.linkedEntries quota entries)) now)
  have hRetires := hExpires.trans
    (hExpires.core.moves_retires (fun p hp => (hStaged p hp).later hExpires.later) now)
  exact hRetires.trace _ _

/-! ## Writes of a turn -/

theorem storageOp_writes (call : TurnCall) (entry : Entry) : (World.storageOp call entry).writes = true := by
  unfold World.storageOp
  split <;> rfl

theorem storageOp_target (call : TurnCall) (entry : Entry) : (World.storageOp call entry).target = entry.r2Key := by
  unfold World.storageOp
  split <;> rfl

theorem storageOp_inline (h : entry.file.uploadId = none) :
    World.storageOp call entry = .put entry.r2Key entry.file.sizeBytes := by
  unfold World.storageOp
  rw [h]
  rfl

structure Writing (w : World) (call : TurnCall) (written rest : List Entry) : Prop where
  kept : Kept w
  settled : ∀ e ∈ written, ClaimKept w e.settled
  unasked : ∀ e ∈ rest, ClaimKept w e.unasked
  keys : ((written ++ rest).map Entry.r2Key ++ taskKeys w.tasks).Nodup
  staged : ∀ p ∈ call.staged, CapturedKept w p

theorem claims_keys (written rest : List Entry) (entry : Entry) (phase : Phase) :
    (written.map Entry.settled ++ entry.claim phase :: rest.map Entry.unasked).map Claim.key =
      (written ++ entry :: rest).map Entry.r2Key := by
  simp [Entry.settled, Entry.unasked, Entry.claim, Function.comp_def]

variable {written rest : List Entry}

theorem Writing.next (h : Writing w call written rest) (hDebts : rest = [] → ∀ e ∈ w.linkedEntries quota written, w.unswept e.debtId = true)
    (now : Nat) : Kept (w.writeNext call written quota now rest) := by
  cases rest with
  | nil =>
    have hKeys := (nodup_append.mp h.keys).1
    rw [append_nil] at hKeys
    exact h.kept.moves (h.kept.core.moves_turnCommit h.settled hKeys (hDebts rfl) h.staged now)
  | cons entry rest =>
    have hSelf := h.unasked entry mem_cons_self
    have hWrites := storageOp_writes call entry
    have hTarget := storageOp_target call entry
    have hClaim : ClaimKept w ⟨(World.storageOp call entry).target, entry.debtId, .unasked⟩ := by
      rw [hTarget]
      exact hSelf
    obtain ⟨hEntries, -, hApart⟩ := nodup_append.mp h.keys
    have hKey : entry.r2Key ∉ taskKeys w.tasks :=
      fun hMem => hApart _ (mem_map_of_mem (mem_append_right _ mem_cons_self)) _ hMem rfl
    have hAsked : Kept (w.request (World.storageOp call entry)) := by
      refine ⟨h.kept.core.request hWrites hClaim, fun t ht => (h.kept.tasks t ht).request ?_, h.kept.keys⟩
      rw [hTarget]
      exact fun hMem => hKey (mem_flatMap.mpr ⟨t, ht, hMem⟩)
    rw [map_append, map_cons, nodup_append, nodup_cons] at hEntries
    have hOthers : ∀ e, (e ∈ written ∨ e ∈ rest) → (World.storageOp call entry).target ≠ e.r2Key := by
      rintro e (he | he) hSame <;> rw [hTarget] at hSame
      · exact hEntries.2.2 _ (mem_map_of_mem he) _ mem_cons_self hSame.symm
      · exact hEntries.2.1.1 (hSame ▸ mem_map_of_mem he)
    refine hAsked.park ⟨?_, trivial, fun p hp => ⟨Nat.lt_succ_of_lt (h.staged p hp).1, (h.staged p hp).2⟩⟩ ?_
    · intro c hc
      obtain hc | hc := mem_append.mp hc
      · obtain ⟨e, he, rfl⟩ := mem_map.mp hc
        exact (h.settled e he).request (hOthers e (Or.inl he))
      · obtain rfl | hc := mem_cons.mp hc
        · exact ClaimKept.asks h.kept.core hSelf hWrites hTarget
        · obtain ⟨e, he, rfl⟩ := mem_map.mp hc
          exact (h.unasked e (mem_cons_of_mem _ he)).request (hOthers e (Or.inr he))
    · have hSame : (Task.turnWrite call written entry rest w.nextId).claims.map Claim.key =
          (written ++ entry :: rest).map Entry.r2Key := claims_keys _ _ _ _
      rw [hSame]
      exact h.keys

theorem keyEntries_writing (h : Kept w) (hStaged : ∀ p ∈ call.staged, CapturedKept w p)
    (files : List NormalizedReport) :
    Moves w (World.keyEntries call w files).1 ∧ Writing (World.keyEntries call w files).1 call []
      (World.keyEntries call w files).2 ∧ ∀ e ∈ (World.keyEntries call w files).2, w.nextId ≤ e.r2Key.id := by
  induction files generalizing w with
  | nil =>
    exact ⟨h.core.moves_refl, ⟨h, nofun, nofun, h.keys, hStaged⟩, nofun⟩
  | cons file files ih =>
    obtain ⟨hMoves, hClaim⟩ := h.core.fresh_entry (Key.write w.nextId file.path) rfl rfl file.path
      (call.startedAt + writeDebtGraceMs)
    obtain ⟨hRest, hWriting, hIds⟩ := ih (h.moves hMoves) fun p hp => (hStaged p hp).later hMoves.later
    unfold World.keyEntries
    refine ⟨hMoves.trans hRest, ⟨hWriting.kept, nofun, ?_, ?_, hWriting.staged⟩, ?_⟩
    · intro e he
      obtain rfl | he := mem_cons.mp he
      · exact hClaim.later hRest.later
      · exact hWriting.unasked e he
    · have hKeys := hWriting.keys
      rw [nil_append] at hKeys
      rw [nil_append, map_cons, cons_append, nodup_cons]
      refine ⟨fun hMem => ?_, hKeys⟩
      obtain hMem | hMem := mem_append.mp hMem
      · obtain ⟨e, he, hEq⟩ := mem_map.mp hMem
        have hAbove := hIds e he
        rw [hEq] at hAbove
        change w.nextId + 1 + 1 ≤ w.nextId at hAbove
        omega
      · rw [(hMoves.trans hRest).tasks] at hMem
        exact h.fresh _ (Nat.le_refl _) hMem
    · intro e he
      obtain rfl | he := mem_cons.mp he
      · exact Nat.le_refl _
      · exact Nat.le_trans hMoves.later.nextId (hIds e he)

theorem Kept.turnKeyed (h : Kept w) (hStaged : ∀ p ∈ call.staged, CapturedKept w p)
    (files : List NormalizedReport) (quota : DriveQuota) (now : Nat) : Kept (w.turnKeyed call files quota now) := by
  obtain ⟨-, hWriting, -⟩ := keyEntries_writing h hStaged files
  exact hWriting.next (fun _ e he => by cases (mem_filter.mp he).1) now

variable {key : Key}

theorem ClaimKept.landed {token : Nat} {op : StorageOp}
    (h : ClaimKept w ⟨key, debtId, .asked token op⟩) (hLanded : token ∈ w.landed) :
    ClaimKept w ⟨key, debtId, .written⟩ := by
  refine ⟨h.private_, h.made, h.owed, fun hFree => ?_⟩
  obtain ⟨-, -, -, -, -, hKnows⟩ := h.knows
  obtain ⟨hQuiet, sizeBytes, hObj, -⟩ := hKnows hLanded hFree
  exact ⟨hQuiet, sizeBytes, hObj⟩

variable {sizeBytes : Nat}

theorem ClaimKept.put_landed {token : Nat}
    (h : ClaimKept w ⟨key, debtId, .asked token (.put key sizeBytes)⟩) (hLanded : token ∈ w.landed) :
    ClaimKept w ⟨key, debtId, .settled sizeBytes⟩ := by
  refine ⟨h.private_, h.made, h.owed, fun hFree => ?_⟩
  obtain ⟨-, -, -, -, -, hKnows⟩ := h.knows
  obtain ⟨hQuiet, n, hObj, hSize⟩ := hKnows hLanded hFree
  exact ⟨hQuiet, (hSize sizeBytes rfl) ▸ hObj⟩

theorem ClaimKept.read (h : ClaimKept w ⟨key, debtId, .written⟩)
    (hRead : w.objects key = some sizeBytes) : ClaimKept w ⟨key, debtId, .settled sizeBytes⟩ :=
  ⟨h.private_, h.made, h.owed, fun hFree => ⟨(h.knows hFree).1, hRead⟩⟩

theorem at_entry {phase phase' : Phase}
    (h : ∀ c ∈ written.map Entry.settled ++ entry.claim phase :: rest.map Entry.unasked, ClaimKept w c)
    (hPh : ClaimKept w (entry.claim phase) → ClaimKept w (entry.claim phase')) :
    ∀ c ∈ written.map Entry.settled ++ entry.claim phase' :: rest.map Entry.unasked, ClaimKept w c := by
  intro c hc
  obtain hc | hc := mem_append.mp hc
  · exact h c (mem_append_left _ hc)
  · obtain rfl | hc := mem_cons.mp hc
    · exact hPh (h _ (mem_append_right _ mem_cons_self))
    · exact h c (mem_append_right _ (mem_cons_of_mem _ hc))

theorem InHand.writeNext (h : InHand w t)
    {phase : Phase}
    (hClaims : t.claims = written.map Entry.settled ++ entry.claim phase :: rest.map Entry.unasked)
    (hStored : ClaimKept w (entry.claim phase) → ClaimKept w entry.settled)
    (hStaged : ∀ p ∈ call.staged, CapturedKept w p)
    (hDebts : rest = [] → ∀ e ∈ w.linkedEntries quota (written ++ [entry]), w.unswept e.debtId = true) (now : Nat) :
    Kept (w.writeNext call (written ++ [entry]) quota now rest) := by
  have hAll : ∀ c ∈ written.map Entry.settled ++ entry.settled :: rest.map Entry.unasked, ClaimKept w c :=
    at_entry (fun c hc => h.task.claims c (hClaims ▸ hc)) hStored
  refine Writing.next ⟨h.kept, fun e he => ?_, fun e he => ?_, ?_, hStaged⟩ hDebts now
  · obtain he | rfl := mem_append.mp he |>.imp_right mem_singleton.mp
    · exact hAll _ (mem_append_left _ (mem_map_of_mem he))
    · exact hAll _ (mem_append_right _ mem_cons_self)
  · exact hAll _ (mem_append_right _ (mem_cons_of_mem _ (mem_map_of_mem he)))
  · have hKeys := h.keys
    rw [hClaims, claims_keys] at hKeys
    rwa [append_assoc, singleton_append]

/-! ## Staged files of a turn -/

variable {pending : UploadRow}

theorem resolveFile_waits {writeKey : Option String} {file : NormalizedReport}
    (h : World.resolveFile w.db writeKey file = .waits pending) : pending ∈ w.db.uploads ∧ pending.pending = true := by
  have hClaimed : ∀ uploadId, World.resolveFile.claimed w.db file uploadId = .waits pending →
      pending ∈ w.db.uploads ∧ pending.pending = true := by
    intro uploadId hAt
    unfold World.resolveFile.claimed at hAt
    split at hAt
    · next row hRow =>
      split at hAt
      · cases hAt
      · next hGood =>
        cases hAt
        refine ⟨(uploadRow_mem hRow).1, ?_⟩
        by_contra hNot
        exact hGood (.inl (by simpa using hNot))
    · cases hAt
  unfold World.resolveFile at h
  split at h
  · cases h
  · split at h
    · split at h
      · cases h
      · exact hClaimed _ h
    · exact hClaimed _ h

theorem CoreBut.captured (h : Core w) (hMem : pending ∈ w.db.uploads)
    (hPend : pending.pending = true) : CapturedKept w pending :=
  ⟨(h.uploadIds pending hMem).1, fun u hu hEq => h.uploadRows u hu pending hMem hEq ▸ h.pending pending hMem hPend⟩

theorem Kept.resolveStagedWrites (h : Kept w) (hStaged : ∀ p ∈ call.staged, CapturedKept w p)
    (resolved : List NormalizedReport) (quota : DriveQuota) (files : List NormalizedReport) :
    Kept (w.resolveStagedWrites call resolved quota files) := by
  induction files generalizing call resolved with
  | nil => exact h.park_plain rfl trivial hStaged
  | cons file files ih =>
    unfold World.resolveStagedWrites
    split
    · exact ih hStaged _
    · refine ih ?_ _
      exact hStaged
    · refine ih ?_ _
      exact hStaged
    · next pending hWaits =>
      obtain ⟨hMem, hPend⟩ := resolveFile_waits hWaits
      refine h.park_plain rfl trivial fun p hp => ?_
      obtain rfl | hp := mem_cons.mp hp
      · exact h.core.captured hMem hPend
      · exact hStaged p hp

theorem Kept.resolveHeaded (h : Kept w)
    (hStaged : ∀ p ∈ pending :: call.staged, CapturedKept w p) (resolved : List NormalizedReport)
    (file : NormalizedReport) (rest : List NormalizedReport) (quota : DriveQuota) (now : Nat) (head : Option Nat) :
    Kept (w.resolveHeaded call resolved file pending rest quota now head) := by
  unfold World.resolveHeaded
  split
  · refine h.resolveStagedWrites (fun p hp => ?_) _ _ _
    obtain hp | hp := mem_append.mp hp
    · exact hStaged p (mem_cons_of_mem _ hp)
    · exact hStaged p (mem_singleton.mp hp ▸ mem_cons_self)
  · have hMoves := h.core.moves_retire (hStaged pending mem_cons_self).2 now
    refine (h.moves hMoves).resolveStagedWrites ?_ _ _ _
    exact fun p hp => (hStaged p (mem_cons_of_mem _ hp)).later hMoves.later

/-! ## Finalized uploads -/

theorem Kept.finalizeHeaded (h : Kept w) (call : FinalizeCall) (quota : DriveQuota) (now : Nat) (head : Option Nat) :
    Kept (w.finalizeHeaded call quota now head) := by
  unfold World.finalizeHeaded
  split
  · exact h
  · split
    · exact h.moves (h.core.moves_refuse call.uploadId now)
    · split
      · exact h.moves (h.core.moves_refuse call.uploadId now)
      · exact h.park_plain rfl trivial nofun

theorem Kept.finalizeKeyed (h : Kept w) (call : FinalizeCall) (stagedBytes : Nat) :
    Kept (w.finalizeKeyed call stagedBytes) := by
  have hFresh := h.fresh (.final call.uploadId w.nextId call.path) (Nat.le_refl _)
  obtain ⟨hMoves, hClaim⟩ := h.core.fresh_entry (.final call.uploadId w.nextId call.path) rfl rfl call.path
    (call.startedAt + writeDebtGraceMs)
  have hOwed := h.moves hMoves
  rw [← hMoves.tasks] at hFresh
  have hAsked : Kept ((({ w with nextId := w.nextId + 1 } : World).queueCleanup call.path
      (.final call.uploadId w.nextId call.path) (call.startedAt + writeDebtGraceMs)).request
      (.copy call.pending.r2Key (.final call.uploadId w.nextId call.path))) :=
    ⟨hOwed.core.request rfl hClaim, fun t ht => (hOwed.tasks t ht).request
      fun hMem => hFresh (mem_flatMap.mpr ⟨t, ht, hMem⟩), hOwed.keys⟩
  refine hAsked.park ⟨fun c hc => ?_, trivial, nofun⟩ (nodup_cons.mpr ⟨hFresh, hOwed.keys⟩)
  obtain rfl := mem_singleton.mp hc
  exact ClaimKept.asks hOwed.core hClaim rfl rfl

theorem CoreBut.moves_finalizeCommit (h : Core w) {call : FinalizeCall} {stagedBytes : Nat}
    (hClaim : ClaimKept w ⟨key, debtId, .settled stagedBytes⟩)
    (hDebt : w.finalizeLinks call stagedBytes quota = true → w.unswept debtId = true) (now : Nat) :
    Moves w (w.finalizeCommit call stagedBytes key debtId quota now) := by
  unfold World.finalizeCommit
  split
  · next current hRow =>
    split
    · exact h.moves_refl
    · next hPending =>
      split
      · exact h.moves_refuse call.uploadId now
      · next hLinks =>
        have hInstall : Moves w ((w.install now (w.finalizedRow call stagedBytes key now)).dropUpload debtId) :=
          h.moves_install hClaim (hDebt (by simpa using hLinks)) now
        have hCaptured := (h.captured (uploadRow_mem hRow).1 (by simpa using hPending)).later hInstall.later
        exact hInstall.trans (hInstall.core.moves_retire hCaptured.2 now)
  · exact h.moves_refl

/-! ## Steps -/

theorem Kept.look (h : Kept w) (i : Nat) : Kept (w.look i) := by
  unfold World.look
  split
  · next hTask => exact (h.drop hTask).kept.park_plain rfl trivial nofun
  · next call stagedBytes key debtId hTask =>
    have hHand := h.drop hTask
    have hClaim := hHand.task.claims _ (mem_singleton.mpr rfl)
    cases hRead : w.objects key with
    | none => exact hHand.kept.park_plain rfl trivial nofun
    | some sizeBytes =>
      refine hHand.park ⟨fun c hc => ?_, trivial, nofun⟩ (List.Sublist.refl _)
      obtain rfl := mem_singleton.mp hc
      exact hClaim.read hRead
  · next hTask =>
    have hHand := h.drop hTask
    exact hHand.kept.park_plain rfl trivial hHand.task.captured
  · next call written entry rest hTask =>
    have hHand := h.drop hTask
    cases hRead : w.objects entry.r2Key with
    | none => exact hHand.kept.park_plain rfl trivial hHand.task.captured
    | some sizeBytes =>
      refine hHand.park ⟨at_entry hHand.task.claims fun hClaim => hClaim.read hRead, trivial, hHand.task.captured⟩ ?_
      have hEq : (Task.turnCheck call written entry rest (some (some sizeBytes))).claims.map Claim.key =
          (Task.turnCheck call written entry rest none).claims.map Claim.key :=
        (claims_keys _ _ _ _).trans (claims_keys _ _ _ _).symm
      rw [hEq]
  · exact h

theorem Kept.proceedTask (h : Kept w) {task : Task} {i : Nat} (hTask : w.tasks[i]? = some task) (now : Nat)
    (hDebts : ∀ debtId ∈ w.linkedDebts i quota, w.unswept debtId = true) :
    Kept (w.proceedTask task i now quota) := by
  have hHand := h.drop hTask
  unfold World.linkedDebts at hDebts
  rw [hTask] at hDebts
  unfold World.proceedTask
  split
  · next path sizeBytes => exact hHand.kept.moves (hHand.kept.core.moves_preparedUpload path sizeBytes now _)
  · exact hHand.kept.park_plain rfl trivial nofun
  · exact hHand.kept
  · next stagedAt claim claims =>
    have hMoves := hHand.kept.core.moves_preparedUpload claim.path claim.sizeBytes stagedAt stageTtlMs
    exact (hHand.kept.moves hMoves).park_plain rfl trivial nofun
  · next call head => exact hHand.kept.finalizeHeaded call quota now head
  · next call stagedBytes => exact hHand.kept.finalizeKeyed call stagedBytes
  · next call stagedBytes key debtId token =>
    split
    · next hLanded =>
      refine hHand.park ⟨fun c hc => ?_, trivial, nofun⟩ (List.Sublist.refl _)
      obtain rfl := mem_singleton.mp hc
      exact (hHand.task.claims _ (mem_singleton.mpr rfl)).landed hLanded
    · exact h
  · next call stagedBytes key debtId copied =>
    split
    · next hCopied =>
      subst hCopied
      have hClaim := hHand.task.claims _ (mem_singleton.mpr rfl)
      refine hHand.kept.moves (hHand.kept.core.moves_finalizeCommit hClaim (fun hLinks => ?_) now)
      refine hDebts debtId ?_
      change debtId ∈ if some stagedBytes = some stagedBytes ∧ w.finalizeLinks call stagedBytes quota then [debtId] else []
      rw [if_pos ⟨rfl, hLinks⟩]
      exact mem_singleton.mpr rfl
    · exact hHand.kept
  · next call resolved file pending rest head =>
    exact hHand.kept.resolveHeaded hHand.task.captured _ _ _ _ _ _
  · next call files => exact hHand.kept.turnKeyed hHand.task.captured _ _ _
  · next call written entry rest token =>
    split
    · exact h
    · next hLanded =>
      split
      · next hInline =>
        refine hHand.writeNext rfl (fun hClaim => ?_) hHand.task.captured (fun hLast e he => ?_) now
        · rw [storageOp_inline hInline] at hClaim
          exact ClaimKept.put_landed hClaim (not_not.mp hLanded)
        · subst hLast
          refine hDebts e.debtId ?_
          change e.debtId ∈ if token ∈ w.landed ∧ entry.file.uploadId = none then
            (w.linkedEntries quota (written ++ [entry])).map Entry.debtId else []
          rw [if_pos ⟨not_not.mp hLanded, hInline⟩]
          exact mem_map_of_mem he
      · refine hHand.park ⟨at_entry hHand.task.claims fun hClaim => ?_, trivial, hHand.task.captured⟩ ?_
        · exact ClaimKept.landed hClaim (not_not.mp hLanded)
        · have hSame : (Task.turnCheck call written entry rest none).claims.map Claim.key =
              (Task.turnWrite call written entry rest token).claims.map Claim.key :=
            (claims_keys _ _ _ _).trans (claims_keys _ _ _ _).symm
          rw [hSame]
  · next call written entry rest copied =>
    split
    · next hCopied =>
      subst hCopied
      refine hHand.writeNext rfl id hHand.task.captured (fun hLast e he => ?_) now
      subst hLast
      refine hDebts e.debtId ?_
      change e.debtId ∈ if some entry.file.sizeBytes = some entry.file.sizeBytes then
        (w.linkedEntries quota (written ++ [entry])).map Entry.debtId else []
      rw [if_pos rfl]
      exact mem_map_of_mem he
    · exact hHand.kept
  · next leaseId due tokens =>
    split
    · next hAll =>
      refine hHand.kept.moves (hHand.kept.core.moves_cleanedUp fun d hd u hu hSame hLease => ?_)
      obtain ⟨token, hToken, -, -, hGone⟩ := hHand.task.pass.2 d hd u hu hSame hLease
      exact hGone (of_decide_eq_true (all_eq_true.mp hAll token hToken))
    · exact h
  · exact h

theorem Kept.runCleanup (h : Kept w) (now : Nat) : Kept (w.runCleanup now) := by
  have hDue : ∀ d ∈ w.dueUploads now, d ∈ w.db.uploads := fun d hd =>
    (mem_filter.mp ((mergeSort_perm _ _).mem_iff.mp (mem_of_mem_take hd))).1
  have hDoomed : (w.dueUploads now).filter (fun u =>
      !(({ w with nextId := w.nextId + 1 } : World).lease (w.dueUploads now) w.nextId now).db.isKeyReferenced u.r2Key) =
      w.dueUploads now := by
    refine filter_eq_self.mpr fun d hd => ?_
    refine Bool.not_eq_true' _ |>.mpr (any_eq_false.mpr fun r hr => ?_)
    simpa using h.core.apart r hr d (hDue d hd)
  unfold World.runCleanup
  dsimp only
  split
  · exact h
  · next hSome =>
    rw [hDoomed, if_neg hSome]
    obtain ⟨qs, hEq, hOps, hTokens, hIds⟩ := requestDeletes_eq ((w.dueUploads now).map UploadRow.r2Key).dedup
      (({ w with nextId := w.nextId + 1 } : World).lease (w.dueUploads now) w.nextId now)
    have hNext : (({ w with nextId := w.nextId + 1 } : World).lease (w.dueUploads now) w.nextId now).nextId =
      w.nextId + 1 := rfl
    rw [hNext] at hIds
    have hSweeps : Sweeps w (w.dueUploads now) qs
        (w.nextId + 1 + ((w.dueUploads now).map UploadRow.r2Key).dedup.length) := {
      rows := hDue
      ops := by
        intro q hq
        have hMem : q.op ∈ ((w.dueUploads now).map UploadRow.r2Key).dedup.map StorageOp.delete :=
          hOps ▸ mem_map_of_mem hq
        obtain ⟨key, hKey, hOp⟩ := mem_map.mp hMem
        obtain ⟨d, hd, rfl⟩ := mem_map.mp (mem_dedup.mp hKey)
        exact ⟨d, hd, hOp.symm⟩
      all := by
        intro d hd
        have hMem : StorageOp.delete d.r2Key ∈ qs.map Request.op :=
          hOps ▸ mem_map_of_mem (mem_dedup.mpr (mem_map_of_mem hd))
        obtain ⟨q, hq, hOp⟩ := mem_map.mp hMem
        exact ⟨q, hq, hOp⟩
      tokens := hTokens
      ids := hIds
      next := by omega }
    rw [hEq]
    have hSwept : Kept (w.swept (w.dueUploads now) now qs
        (w.nextId + 1 + ((w.dueUploads now).map UploadRow.r2Key).dedup.length)) :=
      ⟨h.core.swept hSweeps, fun t ht => (h.tasks t ht).swept h.core hSweeps, h.keys⟩
    exact hSwept.park_plain rfl (PassKept.swept h.core hSweeps) nofun

theorem TaskKept.arrives (h : Core w) (hTask : TaskKept w t) {j : Nat} {q : Request}
    (hTaken : w.inflight[j]? = some q) (hWrites : q.op.writes = true)
    (hPut : ∀ n, q.op = .put q.op.target n → sizeBytes = n) (hKey : w.unsweptKey q.op.target = true) :
    TaskKept ({ w with inflight := w.inflight.eraseIdx j, landed := q.token :: w.landed }.setObject q.op.target
      (some sizeBytes)) t where
  claims c hc := (hTask.claims c hc).arrives h hTaken hWrites hPut hKey
  pass := hTask.pass.arrives h hTaken hWrites _ hKey
  captured p hp := hTask.captured p hp

theorem Kept.land (h : Kept w) {j : Nat}
    (hArrives : ∀ q, w.inflight[j]? = some q → q.op.writes = true → w.unsweptKey q.op.target = true) :
    Kept (w.land j) := by
  unfold World.land
  split
  · exact h
  · next token op hTaken =>
    have hMissed : Kept { w with inflight := w.inflight.eraseIdx j } :=
      ⟨h.core.missed hTaken, fun t ht => (h.tasks t ht).missed fun q hq => mem_of_mem_eraseIdx hq, h.keys⟩
    cases op with
    | put key sizeBytes =>
      have hKey := hArrives _ hTaken rfl
      exact ⟨h.core.arrives hTaken hKey, fun t ht => (h.tasks t ht).arrives h.core hTaken rfl (fun n hn => by
        cases hn; rfl) hKey, h.keys⟩
    | copy source target =>
      dsimp only
      cases hSrc : w.objects source with
      | none => exact hMissed
      | some sizeBytes =>
        have hKey := hArrives _ hTaken rfl
        exact ⟨h.core.arrives hTaken hKey, fun t ht => (h.tasks t ht).arrives h.core hTaken rfl nofun hKey, h.keys⟩
    | delete key =>
      exact ⟨h.core.deletes_land hTaken, fun t ht => (h.tasks t ht).deletes_land h.core hTaken rfl, h.keys⟩

theorem Kept.clientPut (h : Kept w) (hKey : key ∈ w.signed → w.unsweptKey key = true) (sizeBytes : Nat) :
    Kept (w.clientPut key sizeBytes) := by
  unfold World.clientPut
  split
  · next hSigned =>
    have hStaging := h.core.signed key hSigned
    exact ⟨h.core.clientPut (hKey hSigned) hStaging sizeBytes,
      fun t ht => (h.tasks t ht).clientPut h.core (hKey hSigned) hStaging sizeBytes, h.keys⟩
  · exact h

theorem CoreBut.moves_turnDelete (h : Core w) (files : List (String × Option Nat)) (now : Nat) :
    Moves w (files.foldl (fun w file => w.turnDeleteFile now file) w) := by
  induction files generalizing w with
  | nil => exact h.moves_refl
  | cons file files ih =>
    have hMoves : Moves w (w.turnDeleteFile now file) := by
      unfold World.turnDeleteFile
      split
      · split
        · exact h.moves_deleteFileRow file.1 now
        · exact h.moves_refl
      · exact h.moves_refl
    exact hMoves.trans (ih hMoves.core)

theorem Kept.step (h : Kept w) {input : Input} (hBef : beforeCleanup w input = true) : Kept (w.step input) := by
  cases input with
  | prepareUpload path sizeBytes quota =>
    unfold World.step
    dsimp only
    split
    · exact h.park_plain rfl trivial nofun
    · exact h
  | finalizeUpload path uploadId fromAgent now =>
    unfold World.step World.finalizeUpload
    dsimp only
    split
    · split
      · exact h.park_plain rfl trivial nofun
      · exact h
    · exact h
  | turnFiles report writeKey source quota now =>
    refine h.resolveStagedWrites ?_ _ _ _
    exact nofun
  | turnStage claims quota => exact h.park_plain rfl trivial nofun
  | turnDelete files now => exact h.moves (h.core.moves_turnDelete files now)
  | delete path now => exact h.moves (h.core.moves_deleteFileRow path now)
  | runCleanup now => exact h.runCleanup now
  | lands j =>
    refine h.land fun q hTaken hWrites => ?_
    change (w.inflight[j]?).all (fun q => !q.op.writes || w.unsweptKey q.op.target) = true at hBef
    rw [hTaken] at hBef
    simpa [hWrites] using hBef
  | missed j =>
    cases hTaken : w.inflight[j]? with
    | none =>
      have hEq : w.inflight.eraseIdx j = w.inflight := eraseIdx_of_length_le (List.getElem?_eq_none_iff.mp hTaken)
      unfold World.step
      dsimp only
      rw [hEq]
      exact h
    | some q =>
      exact ⟨h.core.missed hTaken, fun t ht => (h.tasks t ht).missed fun q' hq' => mem_of_mem_eraseIdx hq', h.keys⟩
  | clientPut key sizeBytes =>
    refine h.clientPut (fun hSigned => ?_) sizeBytes
    change (decide (key ∉ w.signed) || w.unsweptKey key) = true at hBef
    simpa [hSigned] using hBef
  | looks i => exact h.look i
  | proceed i now quota =>
    unfold World.step
    dsimp only
    split
    · next task hTask => exact h.proceedTask hTask now (all_eq_true.mp hBef)
    · exact h
  | lose i =>
    cases hTask : w.tasks[i]? with
    | none =>
      have hEq : w.tasks.eraseIdx i = w.tasks := eraseIdx_of_length_le (List.getElem?_eq_none_iff.mp hTask)
      unfold World.step World.dropTask
      dsimp only
      rw [hEq]
      exact h
    | some task => exact (h.drop hTask).kept

/-! ## Runs -/

theorem kept_empty : Kept {} where
  core := {
    uploadRows := forall_mem_nil _
    uploadKeys := forall_mem_nil _
    filePaths := forall_mem_nil _
    fileKeys := forall_mem_nil _
    apart := forall_mem_nil _
    held := forall_mem_nil _
    covered := fun _ hk => absurd rfl hk
    quiet := forall_mem_nil _
    deletes := forall_mem_nil _
    pending := forall_mem_nil _
    tokens := nodup_nil
    unlanded := forall_mem_nil _
    landedIds := forall_mem_nil _
    requestIds := forall_mem_nil _
    uploadIds := forall_mem_nil _
    fileIds := forall_mem_nil _
    signed := forall_mem_nil _ }
  tasks := forall_mem_nil _
  keys := nodup_nil

/-- While bytes arrive and are linked before their row is swept, no file loses its bytes and no
object is forgotten. -/
theorem World.holds_of_run {inputs : List Input}
    (hRun : Along World.step (fun w input => beforeCleanup w input = true) {} inputs) :
    Holds (run World.step {} inputs) :=
  (run_invariant (fun _ _ hKept hBefore => hKept.step hBefore) kept_empty hRun).core.holds

def roomy : DriveQuota := ⟨1000, 10, 100⟩

def oneFile : Report := ⟨[⟨"notes.txt", 5, none, none⟩], by decide⟩

def wholeRun : List Input :=
  [.prepareUpload "notes.txt" 7 roomy, .proceed 0 0 roomy, .clientPut (.upload 0 "notes.txt") 7,
    .finalizeUpload "notes.txt" 0 true 1, .looks 0, .proceed 0 2 roomy, .proceed 0 3 roomy, .lands 0, .proceed 0 4 roomy,
    .looks 0, .proceed 0 5 roomy,
    .turnFiles oneFile none "agent" roomy 6, .proceed 0 7 roomy, .lands 0, .proceed 0 8 roomy,
    .runCleanup 1000000, .lands 0, .proceed 0 1000001 roomy,
    .runCleanup 100000000, .lands 0, .proceed 0 100000001 roomy]

theorem World.holds_of_wholeRun :
    (run World.step {} wholeRun).db.files.map (fun r => (r.path, r.sizeBytes)) = [("notes.txt", 5)] ∧
      (run World.step {} wholeRun).db.uploads = [] ∧ Holds (run World.step {} wholeRun) :=
  ⟨by decide +kernel, by decide +kernel, World.holds_of_run (by decide +kernel)⟩

/-- While bytes are linked before their row is swept, no request on its way and no signed PUT can touch the bytes of a file, and
each path and each stored object has one owner. -/
theorem World.owned_of_run {inputs : List Input}
    (hRun : Along World.step (fun w input => beforeCleanup w input = true) {} inputs) :
    let w := run World.step {} inputs
    ∀ r ∈ w.db.files, (∀ q ∈ w.inflight, q.op.target ≠ r.r2Key) ∧ r.r2Key ∉ w.signed ∧
      (∀ u ∈ w.db.uploads, u.r2Key ≠ r.r2Key) ∧ ∀ r' ∈ w.db.files, r'.path = r.path ∨ r'.r2Key = r.r2Key → r' = r := by
  intro w r hr
  have hCore : Core w := (run_invariant (fun _ _ hKept hBefore => hKept.step hBefore) kept_empty hRun).core
  obtain ⟨hFinal, hQuiet⟩ := hCore.quiet r hr
  refine ⟨hQuiet, fun hSigned => ?_, fun u hu hEq => hCore.apart r hr u hu hEq.symm, fun r' hr' hSame => ?_⟩
  · rw [hCore.signed _ hSigned] at hFinal
    cases hFinal
  · exact hSame.elim (hCore.filePaths r' hr' r hr) (hCore.fileKeys r' hr' r hr)

theorem World.owned_of_wholeRun : let w := run World.step {} wholeRun
    w.db.files ≠ [] ∧ ∀ r ∈ w.db.files, r.r2Key ∉ w.signed :=
  ⟨by decide +kernel, fun r hr => (World.owned_of_run (by decide +kernel) r hr).2.1⟩

def slowRun : List Input :=
  [.turnFiles oneFile none "agent" roomy 0, .proceed 0 1 roomy, .runCleanup 1000000, .lands 0, .lands 0,
    .proceed 1 1000001 roomy, .proceed 0 1000002 roomy]

theorem World.slowRun_loses : ¬ Holds (run World.step {} slowRun) := by
  intro h
  have hLost : ∃ r ∈ (run World.step {} slowRun).db.files,
      (run World.step {} slowRun).objects r.r2Key ≠ some r.sizeBytes := by decide +kernel
  obtain ⟨r, hr, hNot⟩ := hLost
  exact hNot (h.held r hr)

end Stella.Drive
