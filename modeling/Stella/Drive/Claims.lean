import Stella.Drive.Machine

/-! # Bytes of files, and objects without a file

Every row of `drive_files` names an object stored in full, and every object is named by a file or
by a row of `drive_uploads`.
-/

namespace Stella.Drive

open Stella.Transition List

structure Holds (w : World) : Prop where
  held : ∀ r ∈ w.db.files, w.objects r.r2Key = some r.sizeBytes
  covered : ∀ k, w.objects k ≠ none → (∃ r ∈ w.db.files, r.r2Key = k) ∨ ∃ u ∈ w.db.uploads, u.r2Key = k

def Key.id : Key → Nat
  | .upload uploadId _ => uploadId
  | .final _ attempt _ => attempt
  | .write id _ => id

def StorageOp.target : StorageOp → Key
  | .put key _ => key
  | .copy _ key => key
  | .delete key => key

def StorageOp.writes : StorageOp → Bool
  | .delete _ => false
  | _ => true

def World.unswept (w : World) (debtId : Nat) : Bool :=
  w.db.uploads.any (fun u => u.uploadId = debtId && u.leaseId = none)

def World.unsweptKey (w : World) (key : Key) : Bool := w.db.uploads.any (fun u => u.r2Key = key && u.leaseId = none)

def World.linkedDebts (w : World) (i : Nat) (quota : DriveQuota) : List Nat :=
  match w.tasks[i]? with
  | some (.finalizeCheck call stagedBytes _ debtId (some copied)) =>
    if copied = some stagedBytes ∧ w.finalizeLinks call stagedBytes quota then [debtId] else []
  | some (.turnWrite _ written entry [] token) =>
    if token ∈ w.landed ∧ entry.file.uploadId = none then
      (w.linkedEntries quota (written ++ [entry])).map Entry.debtId else []
  | some (.turnCheck _ written entry [] (some copied)) =>
    if copied = some entry.file.sizeBytes then (w.linkedEntries quota (written ++ [entry])).map Entry.debtId else []
  | _ => []

def beforeCleanup (w : World) : Input → Bool
  | .lands j => (w.inflight[j]?).all (fun q => !q.op.writes || w.unsweptKey q.op.target)
  | .clientPut key _ => key ∉ w.signed || w.unsweptKey key
  | .proceed i _ quota => (w.linkedDebts i quota).all w.unswept
  | _ => true

inductive Phase
  | unasked
  | asked (token : Nat) (op : StorageOp)
  | written
  | settled (sizeBytes : Nat)

structure Claim where
  key : Key
  debtId : Nat
  phase : Phase

def Entry.claim (entry : Entry) (phase : Phase) : Claim := ⟨entry.r2Key, entry.debtId, phase⟩

def Entry.settled (entry : Entry) : Claim := entry.claim (.settled entry.file.sizeBytes)

def Entry.unasked (entry : Entry) : Claim := entry.claim .unasked

def Task.claims : Task → List Claim
  | .finalizeCopy call _ key debtId token => [⟨key, debtId, .asked token (.copy call.pending.r2Key key)⟩]
  | .finalizeCheck _ _ key debtId none => [⟨key, debtId, .written⟩]
  | .finalizeCheck _ _ key debtId (some (some sizeBytes)) => [⟨key, debtId, .settled sizeBytes⟩]
  | .turnWrite call written entry rest token =>
    written.map Entry.settled ++ entry.claim (.asked token (World.storageOp call entry)) :: rest.map Entry.unasked
  | .turnCheck _ written entry rest none =>
    written.map Entry.settled ++ entry.claim .written :: rest.map Entry.unasked
  | .turnCheck _ written entry rest (some (some sizeBytes)) =>
    written.map Entry.settled ++ entry.claim (.settled sizeBytes) :: rest.map Entry.unasked
  | _ => []

def Task.captured : Task → List UploadRow
  | .resolveHead call _ _ pending _ _ => pending :: call.staged
  | .turnKeys call _ => call.staged
  | .turnWrite call _ _ _ _ => call.staged
  | .turnCheck call _ _ _ _ => call.staged
  | _ => []

def Phase.Knows (w : World) (key : Key) (debtId : Nat) : Phase → Prop
  | .unasked => (∀ q ∈ w.inflight, q.op.writes = true → q.op.target ≠ key) ∧ w.objects key = none
  | .asked token op =>
    op.writes = true ∧ op.target = key ∧ token < w.nextId ∧ (∀ q ∈ w.inflight, q.token = token → q.op = op) ∧
      (∀ q ∈ w.inflight, q.op.writes = true → q.op.target = key → q.token = token) ∧
      (token ∈ w.landed → w.unswept debtId = true → (∀ q ∈ w.inflight, q.op.target ≠ key) ∧
        ∃ sizeBytes, w.objects key = some sizeBytes ∧ ∀ n, op = .put key n → sizeBytes = n)
  | .written => w.unswept debtId = true →
      (∀ q ∈ w.inflight, q.op.target ≠ key) ∧ ∃ sizeBytes, w.objects key = some sizeBytes
  | .settled sizeBytes => w.unswept debtId = true →
      (∀ q ∈ w.inflight, q.op.target ≠ key) ∧ w.objects key = some sizeBytes

structure ClaimKept (w : World) (c : Claim) : Prop where
  private_ : c.key.staging = false
  made : c.key.id < w.nextId ∧ c.debtId < w.nextId
  owed : ∀ u ∈ w.db.uploads, u.uploadId = c.debtId → u.r2Key = c.key
  knows : c.phase.Knows w c.key c.debtId

def PassKept (w : World) : Task → Prop
  | .cleanup leaseId due tokens => leaseId < w.nextId ∧ ∀ d ∈ due, ∀ u ∈ w.db.uploads, u.uploadId = d.uploadId →
      u.leaseId = some leaseId → ∃ token ∈ tokens, token < w.nextId ∧
        (∀ q ∈ w.inflight, q.token = token → q.op = .delete u.r2Key) ∧ (token ∈ w.landed → w.objects u.r2Key = none)
  | _ => True

def CapturedKept (w : World) (p : UploadRow) : Prop :=
  p.uploadId < w.nextId ∧ ∀ u ∈ w.db.uploads, u.uploadId = p.uploadId → u.r2Key.staging = true

/-- The tables, storage and its requests; the object of a `free` key may be without a row for the moment. -/
structure CoreBut (free : Key → Prop) (w : World) : Prop where
  uploadRows : ∀ u ∈ w.db.uploads, ∀ u' ∈ w.db.uploads, u.uploadId = u'.uploadId → u = u'
  uploadKeys : ∀ u ∈ w.db.uploads, ∀ u' ∈ w.db.uploads, u.r2Key = u'.r2Key → u = u'
  filePaths : ∀ r ∈ w.db.files, ∀ r' ∈ w.db.files, r.path = r'.path → r = r'
  fileKeys : ∀ r ∈ w.db.files, ∀ r' ∈ w.db.files, r.r2Key = r'.r2Key → r = r'
  apart : ∀ r ∈ w.db.files, ∀ u ∈ w.db.uploads, r.r2Key ≠ u.r2Key
  held : ∀ r ∈ w.db.files, w.objects r.r2Key = some r.sizeBytes
  covered : ∀ k, w.objects k ≠ none →
    free k ∨ (∃ r ∈ w.db.files, r.r2Key = k) ∨ ∃ u ∈ w.db.uploads, u.r2Key = k
  quiet : ∀ r ∈ w.db.files, r.r2Key.staging = false ∧ ∀ q ∈ w.inflight, q.op.target ≠ r.r2Key
  deletes : ∀ q ∈ w.inflight, ∀ k, q.op = .delete k →
    k.staging = true ∨ ∀ u ∈ w.db.uploads, u.r2Key = k → u.leaseId ≠ none
  pending : ∀ u ∈ w.db.uploads, u.pending = true → u.r2Key.staging = true
  tokens : (w.inflight.map Request.token).Nodup
  unlanded : ∀ q ∈ w.inflight, q.token ∉ w.landed
  landedIds : ∀ token ∈ w.landed, token < w.nextId
  requestIds : ∀ q ∈ w.inflight, q.token < w.nextId ∧ q.op.target.id < w.nextId
  uploadIds : ∀ u ∈ w.db.uploads, u.uploadId < w.nextId ∧ u.r2Key.id < w.nextId ∧
    ∀ l, u.leaseId = some l → l < w.nextId
  fileIds : ∀ r ∈ w.db.files, r.r2Key.id < w.nextId
  signed : ∀ k ∈ w.signed, k.staging = true

abbrev Core (w : World) : Prop := CoreBut (fun _ => False) w

theorem CoreBut.holds {w : World} (h : Core w) : Holds w :=
  ⟨h.held, fun k hk => (h.covered k hk).resolve_left id⟩

def taskKeys (tasks : List Task) : List Key := tasks.flatMap (fun t => t.claims.map Claim.key)

structure TaskKept (w : World) (t : Task) : Prop where
  claims : ∀ c ∈ t.claims, ClaimKept w c
  pass : PassKept w t
  captured : ∀ p ∈ t.captured, CapturedKept w p

structure Kept (w : World) : Prop where
  core : Core w
  tasks : ∀ t ∈ w.tasks, TaskKept w t
  keys : (taskKeys w.tasks).Nodup

variable {w w' w'' : World} {free : Key → Prop}

variable {debtId : Nat}

theorem unswept_iff :
    w.unswept debtId = true ↔ ∃ u ∈ w.db.uploads, u.uploadId = debtId ∧ u.leaseId = none := by
  simp [World.unswept]

variable {key : Key}

theorem unsweptKey_iff :
    w.unsweptKey key = true ↔ ∃ u ∈ w.db.uploads, u.r2Key = key ∧ u.leaseId = none := by
  simp [World.unsweptKey]

structure Later (w w' : World) : Prop where
  nextId : w.nextId ≤ w'.nextId
  objects : w'.objects = w.objects
  inflight : w'.inflight = w.inflight
  landed : w'.landed = w.landed
  uploads : ∀ u' ∈ w'.db.uploads,
    (∃ u ∈ w.db.uploads, u.uploadId = u'.uploadId ∧ u.r2Key = u'.r2Key ∧
      (∀ l, u'.leaseId = some l → u.leaseId = some l) ∧
      (u'.leaseId = none → u.leaseId = none ∨ u.r2Key.staging = true)) ∨
    (w.nextId ≤ u'.uploadId ∧ u'.leaseId = none)

theorem Later.refl (w : World) : Later w w where
  nextId := Nat.le_refl _
  objects := rfl
  inflight := rfl
  landed := rfl
  uploads := fun u hu => .inl ⟨u, hu, rfl, rfl, fun _ h => h, Or.inl⟩

theorem Later.trans (h : Later w w') (h' : Later w' w'') : Later w w'' where
  nextId := h.nextId.trans h'.nextId
  objects := h'.objects.trans h.objects
  inflight := h'.inflight.trans h.inflight
  landed := h'.landed.trans h.landed
  uploads := by
    intro u'' hu''
    obtain ⟨u', hu', hId, hKey, hSome, hNone⟩ | ⟨hNew, hLease⟩ := h'.uploads u'' hu''
    · obtain ⟨u, hu, hId', hKey', hSome', hNone'⟩ | ⟨hNew, hLease⟩ := h.uploads u' hu'
      · refine .inl ⟨u, hu, hId'.trans hId, hKey'.trans hKey, fun l hl => hSome' l (hSome l hl), fun hFree => ?_⟩
        obtain hFree' | hStaging := hNone hFree
        · exact hNone' hFree'
        · exact .inr (hKey' ▸ hStaging)
      · refine .inr ⟨hId ▸ hNew, ?_⟩
        cases hAt : u''.leaseId with
        | none => rfl
        | some l =>
          rw [hSome l hAt] at hLease
          cases hLease
    · exact .inr ⟨h.nextId.trans hNew, hLease⟩

theorem ClaimKept.later {c : Claim} (h : ClaimKept w c) (hLater : Later w w') : ClaimKept w' c := by
  have hOwed : ∀ u ∈ w'.db.uploads, u.uploadId = c.debtId → u.r2Key = c.key := by
    intro u' hu' hId
    obtain ⟨u, hu, hEq, hKey, -, -⟩ | ⟨hNew, -⟩ := hLater.uploads u' hu'
    · exact hKey ▸ h.owed u hu (hEq.trans hId)
    · have := h.made.2
      omega
  have hUnswept : w'.unswept c.debtId = true → w.unswept c.debtId = true := by
    rw [unswept_iff, unswept_iff]
    rintro ⟨u', hu', hId, hFree⟩
    obtain ⟨u, hu, hEq, hKey, -, hNone⟩ | ⟨hNew, -⟩ := hLater.uploads u' hu'
    · refine ⟨u, hu, hEq.trans hId, (hNone hFree).resolve_right fun hStaging => ?_⟩
      rw [h.owed u hu (hEq.trans hId), h.private_] at hStaging
      cases hStaging
    · have := h.made.2
      omega
  refine ⟨h.private_, ⟨h.made.1.trans_le hLater.nextId, h.made.2.trans_le hLater.nextId⟩, hOwed, ?_⟩
  have hKnows := h.knows
  cases hPh : c.phase with
  | unasked =>
    rw [hPh] at hKnows
    unfold Phase.Knows at hKnows ⊢
    rwa [hLater.inflight, hLater.objects]
  | asked token op =>
    rw [hPh] at hKnows
    obtain ⟨hWrites, hTgt, hTok, hOp, hAlone, hLanded⟩ := hKnows
    unfold Phase.Knows
    rw [hLater.inflight, hLater.landed, hLater.objects]
    exact ⟨hWrites, hTgt, hTok.trans_le hLater.nextId, hOp, hAlone, fun hIn hFree => hLanded hIn (hUnswept hFree)⟩
  | written =>
    rw [hPh] at hKnows
    unfold Phase.Knows at hKnows ⊢
    rw [hLater.inflight, hLater.objects]
    exact fun hFree => hKnows (hUnswept hFree)
  | settled sizeBytes =>
    rw [hPh] at hKnows
    unfold Phase.Knows at hKnows ⊢
    rw [hLater.inflight, hLater.objects]
    exact fun hFree => hKnows (hUnswept hFree)

variable {t : Task}

theorem PassKept.later (h : PassKept w t) (hLater : Later w w') : PassKept w' t := by
  cases t with
  | cleanup leaseId due tokens =>
    obtain ⟨hId, hRows⟩ := h
    refine ⟨hId.trans_le hLater.nextId, fun d hd u' hu' hEq hLease => ?_⟩
    obtain ⟨u, hu, hSameId, hKey, hSome, -⟩ | ⟨-, hFree⟩ := hLater.uploads u' hu'
    · obtain ⟨token, hTok, hBelow, hOp, hGone⟩ := hRows d hd u hu (hSameId.trans hEq) (hSome _ hLease)
      rw [hKey] at hOp hGone
      exact ⟨token, hTok, hBelow.trans_le hLater.nextId, hLater.inflight ▸ hOp, by
        rw [hLater.landed, hLater.objects]; exact hGone⟩
    · rw [hFree] at hLease
      cases hLease
  | _ => trivial

theorem CapturedKept.later {p : UploadRow} (h : CapturedKept w p) (hLater : Later w w') : CapturedKept w' p := by
  refine ⟨h.1.trans_le hLater.nextId, fun u' hu' hId => ?_⟩
  obtain ⟨u, hu, hEq, hKey, -, -⟩ | ⟨hNew, -⟩ := hLater.uploads u' hu'
  · exact hKey ▸ h.2 u hu (hEq.trans hId)
  · have := h.1
    omega

theorem TaskKept.later (h : TaskKept w t) (hLater : Later w w') : TaskKept w' t where
  claims c hc := (h.claims c hc).later hLater
  pass := h.pass.later hLater
  captured p hp := (h.captured p hp).later hLater

/-! ## Steps on the tables -/

structure Moves (w w' : World) : Prop where
  core : Core w'
  later : Later w w'
  tasks : w'.tasks = w.tasks

theorem CoreBut.moves_refl (h : Core w) : Moves w w := ⟨h, Later.refl w, rfl⟩

theorem Moves.trans (h : Moves w w') (h' : Moves w' w'') : Moves w w'' :=
  ⟨h'.core, h.later.trans h'.later, h'.tasks.trans h.tasks⟩

theorem CoreBut.moves_id (h : Core w) : Moves w { w with nextId := w.nextId + 1 } where
  core := { h with
    held := h.held
    covered := h.covered
    landedIds := fun token hTok => Nat.lt_succ_of_lt (h.landedIds token hTok)
    requestIds := fun q hq => ⟨Nat.lt_succ_of_lt (h.requestIds q hq).1, Nat.lt_succ_of_lt (h.requestIds q hq).2⟩
    uploadIds := fun u hu => ⟨Nat.lt_succ_of_lt (h.uploadIds u hu).1, Nat.lt_succ_of_lt (h.uploadIds u hu).2.1,
      fun l hl => Nat.lt_succ_of_lt ((h.uploadIds u hu).2.2 l hl)⟩
    fileIds := fun r hr => Nat.lt_succ_of_lt (h.fileIds r hr) }
  later := { Later.refl w with nextId := Nat.le_succ _ }
  tasks := rfl

theorem CoreBut.mono (h : CoreBut free w) {more : Key → Prop} (hFree : ∀ k, free k → more k) : CoreBut more w :=
  { h with covered := fun k hk => (h.covered k hk).imp_left (hFree k) }

variable {u : UploadRow}

variable {signed : List Key}

theorem CoreBut.insert (h : CoreBut free w) (hId : u.uploadId = w.nextId)
    (hBelow : u.r2Key.id ≤ w.nextId) (hLease : u.leaseId = none) (hPend : u.pending = true → u.r2Key.staging = true)
    (hFile : ∀ r ∈ w.db.files, r.r2Key ≠ u.r2Key) (hUpload : ∀ v ∈ w.db.uploads, v.r2Key ≠ u.r2Key)
    (hDelete : ∀ q ∈ w.inflight, q.op = .delete u.r2Key → u.r2Key.staging = true)
    (hSigned : ∀ k ∈ signed, k.staging = true) :
    CoreBut (fun k => free k ∧ k ≠ u.r2Key) { w with
      db := { w.db with uploads := w.db.uploads ++ [u] }, nextId := w.nextId + 1, signed := signed } := by
  have hCases : ∀ v ∈ w.db.uploads ++ [u], v ∈ w.db.uploads ∨ v = u := by
    intro v hv
    simpa using hv
  refine { h with
    uploadRows := ?_, uploadKeys := ?_, apart := ?_, covered := ?_, deletes := ?_, pending := ?_,
    uploadIds := ?_, signed := hSigned
    landedIds := fun token hTok => Nat.lt_succ_of_lt (h.landedIds token hTok)
    requestIds := fun q hq => ⟨Nat.lt_succ_of_lt (h.requestIds q hq).1, Nat.lt_succ_of_lt (h.requestIds q hq).2⟩
    fileIds := fun r hr => Nat.lt_succ_of_lt (h.fileIds r hr) }
  · intro v hv v' hv' hEq
    obtain hOld | rfl := hCases v hv <;> obtain hOld' | rfl := hCases v' hv'
    · exact h.uploadRows v hOld v' hOld' hEq
    · have := (h.uploadIds v hOld).1
      omega
    · have := (h.uploadIds v' hOld').1
      omega
    · rfl
  · intro v hv v' hv' hEq
    obtain hOld | rfl := hCases v hv <;> obtain hOld' | rfl := hCases v' hv'
    · exact h.uploadKeys v hOld v' hOld' hEq
    · exact absurd hEq (hUpload v hOld)
    · exact absurd hEq.symm (hUpload v' hOld')
    · rfl
  · intro r hr v hv
    obtain hOld | rfl := hCases v hv
    · exact h.apart r hr v hOld
    · exact hFile r hr
  · intro k hk
    by_cases hEq : k = u.r2Key
    · exact .inr (.inr ⟨u, mem_append_right _ (mem_singleton.mpr rfl), hEq.symm⟩)
    · obtain hFree | hFiles | ⟨v, hv, hKey⟩ := h.covered k hk
      · exact .inl ⟨hFree, hEq⟩
      · exact .inr (.inl hFiles)
      · exact .inr (.inr ⟨v, mem_append_left _ hv, hKey⟩)
  · intro q hq k hk
    obtain hStaging | hRows := h.deletes q hq k hk
    · exact .inl hStaging
    · by_cases hEq : u.r2Key = k
      · exact .inl (hEq ▸ hDelete q hq (hEq ▸ hk))
      · refine .inr fun v hv hKey => ?_
        obtain hOld | rfl := hCases v hv
        · exact hRows v hOld hKey
        · exact absurd hKey hEq
  · intro v hv
    obtain hOld | rfl := hCases v hv
    · exact h.pending v hOld
    · exact hPend
  · intro v hv
    obtain hOld | rfl := hCases v hv
    · obtain ⟨hA, hB, hC⟩ := h.uploadIds v hOld
      exact ⟨Nat.lt_succ_of_lt hA, Nat.lt_succ_of_lt hB, fun l hl => Nat.lt_succ_of_lt (hC l hl)⟩
    · refine ⟨hId ▸ Nat.lt_succ_self _, Nat.lt_succ_of_le hBelow, fun l hl => ?_⟩
      rw [hLease] at hl
      cases hl

theorem later_insert (hId : u.uploadId = w.nextId) (hLease : u.leaseId = none) :
    Later w { w with
      db := { w.db with uploads := w.db.uploads ++ [u] }, nextId := w.nextId + 1, signed := signed } :=
  { Later.refl w with
    nextId := Nat.le_succ _
    uploads := by
      intro v hv
      obtain hv | rfl := mem_append.mp hv |>.imp_right mem_singleton.mp
      · exact .inl ⟨v, hv, rfl, rfl, fun _ hl => hl, Or.inl⟩
      · exact .inr ⟨hId.ge, hLease⟩ }

theorem CoreBut.moves_map (h : Core w) {f : UploadRow → UploadRow} (hId : ∀ u, (f u).uploadId = u.uploadId)
    (hKey : ∀ u, (f u).r2Key = u.r2Key) (hPend : ∀ u, (f u).pending = true → u.pending = true)
    (hLease : ∀ u ∈ w.db.uploads,
      (f u).leaseId = u.leaseId ∨ ((f u).leaseId = none ∧ u.r2Key.staging = true)) :
    Moves w { w with db := { w.db with uploads := w.db.uploads.map f } } where
  core := by
    have hCases : ∀ v ∈ w.db.uploads.map f, ∃ u ∈ w.db.uploads, f u = v := fun v hv => mem_map.mp hv
    refine { h with
      uploadRows := ?_, uploadKeys := ?_, apart := ?_, covered := ?_, deletes := ?_, pending := ?_,
      uploadIds := ?_ }
    · intro v hv v' hv' hEq
      obtain ⟨u, hu, rfl⟩ := hCases v hv
      obtain ⟨u', hu', rfl⟩ := hCases v' hv'
      rw [h.uploadRows u hu u' hu' (by rw [← hId u, ← hId u', hEq])]
    · intro v hv v' hv' hEq
      obtain ⟨u, hu, rfl⟩ := hCases v hv
      obtain ⟨u', hu', rfl⟩ := hCases v' hv'
      rw [h.uploadKeys u hu u' hu' (by rw [← hKey u, ← hKey u', hEq])]
    · intro r hr v hv
      obtain ⟨u, hu, rfl⟩ := hCases v hv
      rw [hKey]
      exact h.apart r hr u hu
    · intro k hk
      obtain hFree | hFiles | ⟨u, hu, hAt⟩ := h.covered k hk
      · exact hFree.elim
      · exact .inr (.inl hFiles)
      · exact .inr (.inr ⟨f u, mem_map_of_mem hu, (hKey u).trans hAt⟩)
    · intro q hq k hk
      obtain hStaging | hRows := h.deletes q hq k hk
      · exact .inl hStaging
      · by_cases hStaging : k.staging = true
        · exact .inl hStaging
        · refine .inr fun v hv hAt => ?_
          obtain ⟨u, hu, rfl⟩ := hCases v hv
          rw [hKey] at hAt
          obtain hEq | ⟨-, hStage⟩ := hLease u hu
          · rw [hEq]
            exact hRows u hu hAt
          · exact absurd (hAt ▸ hStage) hStaging
    · intro v hv hAt
      obtain ⟨u, hu, rfl⟩ := hCases v hv
      rw [hKey]
      exact h.pending u hu (hPend u hAt)
    · intro v hv
      obtain ⟨u, hu, rfl⟩ := hCases v hv
      obtain ⟨hA, hB, hC⟩ := h.uploadIds u hu
      refine ⟨(hId u).symm ▸ hA, (hKey u).symm ▸ hB, fun l hl => ?_⟩
      obtain hEq | ⟨hNone, -⟩ := hLease u hu
      · exact hC l (hEq ▸ hl)
      · rw [hNone] at hl
        cases hl
  later := { Later.refl w with
    uploads := by
      intro v hv
      obtain ⟨u, hu, rfl⟩ := mem_map.mp hv
      refine .inl ⟨u, hu, (hId u).symm, (hKey u).symm, fun l hl => ?_, fun hFree => ?_⟩
      · obtain hEq | ⟨hNone, -⟩ := hLease u hu
        · exact hEq ▸ hl
        · rw [hNone] at hl
          cases hl
      · obtain hEq | ⟨-, hStaging⟩ := hLease u hu
        · exact .inl (hEq ▸ hFree)
        · exact .inr hStaging }
  tasks := rfl

theorem CoreBut.moves_retire (h : Core w) {row : UploadRow}
    (hStaging : ∀ u ∈ w.db.uploads, u.uploadId = row.uploadId → u.r2Key.staging = true) (now : Nat) :
    Moves w (w.retirePendingUpload row now) := by
  refine h.moves_map ?_ ?_ ?_ ?_ <;> intro u
  · split <;> rfl
  · split <;> rfl
  · split
    · exact nofun
    · exact id
  · intro hu
    split
    · next hAt => exact .inr ⟨rfl, hStaging u hu hAt⟩
    · exact .inl rfl

theorem CoreBut.moves_expire (h : Core w) (uploadId now : Nat) : Moves w (w.expireUpload uploadId now) := by
  refine h.moves_map ?_ ?_ ?_ ?_ <;> intro u
  · split <;> rfl
  · split <;> rfl
  · split <;> exact id
  · intro _
    split <;> exact .inl rfl

theorem CoreBut.staging_of_pending (h : Core w) {row : UploadRow} (hMem : row ∈ w.db.uploads)
    (hPend : row.pending = true) : ∀ u ∈ w.db.uploads, u.uploadId = row.uploadId → u.r2Key.staging = true := by
  intro u hu hEq
  rw [h.uploadRows u hu row hMem hEq]
  exact h.pending row hMem hPend

variable {uploadId : Nat}

theorem uploadRow_mem (h : w.db.uploadRow uploadId = some u) :
    u ∈ w.db.uploads ∧ u.uploadId = uploadId := ⟨Rows.lookup_mem h, Rows.lookup_key h⟩

theorem getFile_mem {path : String} {r : FileRow} (h : w.db.getFile path = some r) :
    r ∈ w.db.files ∧ r.path = path := ⟨Rows.lookup_mem h, Rows.lookup_key h⟩

theorem CoreBut.moves_refuse (h : Core w) (uploadId now : Nat) : Moves w (w.refuse uploadId now) := by
  unfold World.refuse
  split
  · next current hRow =>
    split
    · next hPend => exact h.moves_retire (h.staging_of_pending (uploadRow_mem hRow).1 hPend) now
    · exact h.moves_refl
  · exact h.moves_refl

theorem CoreBut.moves_preparedUpload (h : Core w) (path : String) (sizeBytes now ttl : Nat) :
    Moves w (w.preparedUpload path sizeBytes now ttl) := by
  refine ⟨(h.insert rfl (Nat.le_refl _) rfl (fun _ => rfl) ?_ ?_ (fun _ _ _ => rfl) ?_).mono fun _ hFree => hFree.1,
    later_insert rfl rfl, rfl⟩
  · intro r hr hEq
    have := (h.quiet r hr).1
    rw [hEq] at this
    cases this
  · intro v hv hEq
    have := (h.uploadIds v hv).2.1
    rw [hEq] at this
    exact absurd this (Nat.lt_irrefl _)
  · intro k hk
    obtain hk | rfl := mem_append.mp hk |>.imp_right mem_singleton.mp
    · exact h.signed k hk
    · rfl

theorem CoreBut.queueCleanup (h : CoreBut free w) (hBelow : key.id < w.nextId)
    (hFile : ∀ r ∈ w.db.files, r.r2Key ≠ key) (hUpload : ∀ v ∈ w.db.uploads, v.r2Key ≠ key)
    (hQuiet : ∀ q ∈ w.inflight, q.op.target ≠ key) (path : String) (notBefore : Nat) :
    CoreBut (fun k => free k ∧ k ≠ key) (w.queueCleanup path key notBefore) := by
  refine h.insert (u := ⟨w.nextId, path, key, false, 0, notBefore, none, none⟩) rfl hBelow.le rfl
    (fun hPend => Bool.noConfusion hPend) hFile hUpload (fun q hq hOp => ?_) h.signed
  refine absurd ?_ (hQuiet q hq)
  rw [hOp]
  rfl

theorem later_queueCleanup (path : String) (key : Key) (notBefore : Nat) :
    Later w (w.queueCleanup path key notBefore) := later_insert rfl rfl

theorem later_files (files : List FileRow) : Later w { w with db := { w.db with files } } :=
  { Later.refl w with }

variable {row : FileRow}

theorem CoreBut.eraseFile (h : Core w) (hMem : row ∈ w.db.files) :
    CoreBut (fun k => k = row.r2Key)
      { w with db := { w.db with files := Rows.erase FileRow.path w.db.files row.path } } := by
  have hKept : ∀ r, r ∈ Rows.erase FileRow.path w.db.files row.path → r ∈ w.db.files ∧ r.path ≠ row.path := by
    intro r hr
    simpa [Rows.erase] using hr
  refine { h with
    filePaths := fun r hr r' hr' => h.filePaths r (hKept r hr).1 r' (hKept r' hr').1
    fileKeys := fun r hr r' hr' => h.fileKeys r (hKept r hr).1 r' (hKept r' hr').1
    apart := fun r hr => h.apart r (hKept r hr).1
    held := fun r hr => h.held r (hKept r hr).1
    covered := ?_
    quiet := fun r hr => h.quiet r (hKept r hr).1
    fileIds := fun r hr => h.fileIds r (hKept r hr).1 }
  intro k hk
  obtain hFree | ⟨r, hr, hKey⟩ | hUploads := h.covered k hk
  · exact hFree.elim
  · by_cases hEq : r.path = row.path
    · exact .inl (hKey ▸ congrArg FileRow.r2Key (h.filePaths r hr row hMem hEq))
    · exact .inr (.inl ⟨r, by simpa [Rows.erase] using ⟨hr, hEq⟩, hKey⟩)
  · exact .inr (.inr hUploads)

theorem CoreBut.moves_deleteRow (h : Core w) (path : String) (now : Nat) : Moves w (w.deleteRow path now) := by
  unfold World.deleteRow
  split
  · exact h.moves_refl
  · next row hRow =>
    obtain ⟨hMem, rfl⟩ := getFile_mem hRow
    refine ⟨((h.eraseFile hMem).queueCleanup (h.fileIds row hMem) (fun r hr hEq => ?_)
      (fun v hv hEq => h.apart row hMem v hv hEq.symm) (h.quiet row hMem).2 _ _).mono fun k hk => hk.2 hk.1,
      (later_files _).trans (later_queueCleanup _ _ _), rfl⟩
    have hOther : r ∈ w.db.files ∧ r.path ≠ row.path := by simpa [Rows.erase] using hr
    exact hOther.2 (congrArg FileRow.path (h.fileKeys r hOther.1 row hMem hEq))

theorem CoreBut.moves_deleteFileRow (h : Core w) (path : String) (now : Nat) :
    Moves w (w.deleteFileRow path now) := by
  unfold World.deleteFileRow
  have hRow := h.moves_deleteRow path now
  split
  · exact h.moves_refl
  · split
    · next thumbnail _ => exact hRow.trans (hRow.core.moves_deleteRow thumbnail now)
    · exact hRow

/-! ## Linking a file -/

theorem mem_dropUpload :
    u ∈ (w.dropUpload uploadId).db.uploads ↔ u ∈ w.db.uploads ∧ u.uploadId ≠ uploadId := by
  simp [World.dropUpload, Rows.erase]

theorem later_dropUpload (uploadId : Nat) : Later w (w.dropUpload uploadId) :=
  { Later.refl w with
    uploads := fun u hu => .inl ⟨u, (mem_dropUpload.mp hu).1, rfl, rfl, fun _ h => h, Or.inl⟩ }

theorem CoreBut.fewer (h : Core w) {free : Key → Prop} {uploads : List UploadRow} (hKept : ∀ u ∈ uploads, u ∈ w.db.uploads)
    (hCovered : ∀ k, w.objects k ≠ none → free k ∨ (∃ r ∈ w.db.files, r.r2Key = k) ∨ ∃ u ∈ uploads, u.r2Key = k) :
    CoreBut free { w with db := { w.db with uploads } } :=
  { h with
    uploadRows := fun u hu u' hu' => h.uploadRows u (hKept u hu) u' (hKept u' hu')
    uploadKeys := fun u hu u' hu' => h.uploadKeys u (hKept u hu) u' (hKept u' hu')
    apart := fun r hr u hu => h.apart r hr u (hKept u hu)
    covered := hCovered
    deletes := fun q hq k hk => (h.deletes q hq k hk).imp_right fun hRows u hu => hRows u (hKept u hu)
    pending := fun u hu => h.pending u (hKept u hu)
    uploadIds := fun u hu => h.uploadIds u (hKept u hu) }

theorem CoreBut.dropUpload (h : Core w)
    (hOwed : ∀ u ∈ w.db.uploads, u.uploadId = uploadId → u.r2Key = key) :
    CoreBut (fun k => k = key) (w.dropUpload uploadId) := by
  have hKept : ∀ u, u ∈ (w.dropUpload uploadId).db.uploads → u ∈ w.db.uploads := fun u hu => (mem_dropUpload.mp hu).1
  refine h.fewer hKept fun k hk => ?_
  obtain hFree | hFiles | ⟨u, hu, hKey⟩ := h.covered k hk
  · exact hFree.elim
  · exact .inr (.inl hFiles)
  · by_cases hEq : u.uploadId = uploadId
    · exact .inl (hKey ▸ hOwed u hu hEq)
    · exact .inr (.inr ⟨u, mem_dropUpload.mpr ⟨hu, hEq⟩, hKey⟩)

structure Fits (w : World) (row : FileRow) : Prop where
  private_ : row.r2Key.staging = false
  below : row.r2Key.id < w.nextId
  held : w.objects row.r2Key = some row.sizeBytes
  quiet : ∀ q ∈ w.inflight, q.op.target ≠ row.r2Key
  files : ∀ r ∈ w.db.files, r.r2Key ≠ row.r2Key
  uploads : ∀ u ∈ w.db.uploads, u.r2Key ≠ row.r2Key

theorem CoreBut.putFile (h : CoreBut (fun k => k = row.r2Key) w) (hFits : Fits w row)
    (hNone : w.db.getFile row.path = none) : Core { w with db := { w.db with files := w.db.files ++ [row] } } := by
  have hCases : ∀ r ∈ w.db.files ++ [row], r ∈ w.db.files ∨ r = row := by
    intro r hr
    simpa using hr
  have hPath : ∀ r ∈ w.db.files, r.path ≠ row.path := by
    intro r hr hEq
    have := find?_eq_none.mp hNone r hr
    simp [hEq] at this
  refine { h with filePaths := ?_, fileKeys := ?_, apart := ?_, held := ?_, covered := ?_, quiet := ?_, fileIds := ?_ }
  · intro r hr r' hr' hEq
    obtain hOld | rfl := hCases r hr <;> obtain hOld' | rfl := hCases r' hr'
    · exact h.filePaths r hOld r' hOld' hEq
    · exact absurd hEq (hPath r hOld)
    · exact absurd hEq.symm (hPath r' hOld')
    · rfl
  · intro r hr r' hr' hEq
    obtain hOld | rfl := hCases r hr <;> obtain hOld' | rfl := hCases r' hr'
    · exact h.fileKeys r hOld r' hOld' hEq
    · exact absurd hEq (hFits.files r hOld)
    · exact absurd hEq.symm (hFits.files r' hOld')
    · rfl
  · intro r hr u hu
    obtain hOld | rfl := hCases r hr
    · exact h.apart r hOld u hu
    · exact (hFits.uploads u hu).symm
  · intro r hr
    obtain hOld | rfl := hCases r hr
    · exact h.held r hOld
    · exact hFits.held
  · intro k hk
    obtain rfl | ⟨r, hr, hKey⟩ | hUploads := h.covered k hk
    · exact .inr (.inl ⟨row, mem_append_right _ (mem_singleton.mpr rfl), rfl⟩)
    · exact .inr (.inl ⟨r, mem_append_left _ hr, hKey⟩)
    · exact .inr (.inr hUploads)
  · intro r hr
    obtain hOld | rfl := hCases r hr
    · exact h.quiet r hOld
    · exact ⟨hFits.private_, hFits.quiet⟩
  · intro r hr
    obtain hOld | rfl := hCases r hr
    · exact h.fileIds r hOld
    · exact hFits.below

theorem CoreBut.replaceFile {existing : FileRow} (h : CoreBut (fun k => k = row.r2Key) w) (hFits : Fits w row)
    (hMem : existing ∈ w.db.files) (hPath : existing.path = row.path) :
    CoreBut (fun k => k = existing.r2Key) { w with db := { w.db with
      files := Rows.modify FileRow.path w.db.files row.path (fun e =>
        { row with path := e.path, createdAt := e.createdAt }) } } := by
  have hCases : ∀ r ∈ Rows.modify FileRow.path w.db.files row.path (fun e =>
      { row with path := e.path, createdAt := e.createdAt }),
      (r ∈ w.db.files ∧ r.path ≠ row.path) ∨
        (r.path = row.path ∧ r.r2Key = row.r2Key ∧ r.sizeBytes = row.sizeBytes ∧ r = { row with
          path := existing.path, createdAt := existing.createdAt }) := by
    intro r hr
    obtain ⟨e, he, hEq⟩ := mem_map.mp hr
    split at hEq
    · next hAt =>
      obtain rfl := h.filePaths e he existing hMem (hAt.trans hPath.symm)
      exact .inr ⟨hEq ▸ hAt, hEq ▸ rfl, hEq ▸ rfl, hEq.symm⟩
    · next hAt => exact .inl ⟨hEq ▸ he, hEq ▸ hAt⟩
  have hNew : ({ row with path := existing.path, createdAt := existing.createdAt } : FileRow) ∈
      Rows.modify FileRow.path w.db.files row.path (fun e => { row with path := e.path, createdAt := e.createdAt }) :=
    mem_map.mpr ⟨existing, hMem, if_pos hPath⟩
  refine { h with filePaths := ?_, fileKeys := ?_, apart := ?_, held := ?_, covered := ?_, quiet := ?_, fileIds := ?_ }
  · intro r hr r' hr' hSame
    obtain ⟨hOld, hOther⟩ | ⟨hAt, -, -, hEq⟩ := hCases r hr <;>
      obtain ⟨hOld', hOther'⟩ | ⟨hAt', -, -, hEq'⟩ := hCases r' hr'
    · exact h.filePaths r hOld r' hOld' hSame
    · exact absurd (hSame.trans hAt') hOther
    · exact absurd (hSame.symm.trans hAt) hOther'
    · rw [hEq, hEq']
  · intro r hr r' hr' hSame
    obtain ⟨hOld, hOther⟩ | ⟨-, hKey, -, hEq⟩ := hCases r hr <;>
      obtain ⟨hOld', hOther'⟩ | ⟨-, hKey', -, hEq'⟩ := hCases r' hr'
    · exact h.fileKeys r hOld r' hOld' hSame
    · exact absurd (hSame.trans hKey') (hFits.files r hOld)
    · exact absurd (hSame.symm.trans hKey) (hFits.files r' hOld')
    · rw [hEq, hEq']
  · intro r hr u hu
    obtain ⟨hOld, -⟩ | ⟨-, hKey, -, -⟩ := hCases r hr
    · exact h.apart r hOld u hu
    · exact fun hSame => hFits.uploads u hu (hSame.symm.trans hKey)
  · intro r hr
    obtain ⟨hOld, -⟩ | ⟨-, hKey, hSize, -⟩ := hCases r hr
    · exact h.held r hOld
    · rw [hKey, hSize]
      exact hFits.held
  · intro k hk
    obtain rfl | ⟨r, hr, hKey⟩ | hUploads := h.covered k hk
    · exact .inr (.inl ⟨_, hNew, rfl⟩)
    · by_cases hAt : r.path = row.path
      · exact .inl (hKey ▸ congrArg FileRow.r2Key (h.filePaths r hr existing hMem (hAt.trans hPath.symm)))
      · exact .inr (.inl ⟨r, mem_map.mpr ⟨r, hr, if_neg hAt⟩, hKey⟩)
    · exact .inr (.inr hUploads)
  · intro r hr
    obtain ⟨hOld, -⟩ | ⟨-, hKey, -, -⟩ := hCases r hr
    · exact h.quiet r hOld
    · rw [hKey]
      exact ⟨hFits.private_, hFits.quiet⟩
  · intro r hr
    obtain ⟨hOld, -⟩ | ⟨-, hKey, -, -⟩ := hCases r hr
    · exact h.fileIds r hOld
    · exact hKey ▸ hFits.below

theorem dropUpload_queueCleanup (h : uploadId ≠ w.nextId) (path : String) (key : Key) (notBefore : Nat) :
    (w.queueCleanup path key notBefore).dropUpload uploadId =
      (w.dropUpload uploadId).queueCleanup path key notBefore := by
  unfold World.queueCleanup World.dropUpload Rows.erase
  simp [filter_append, Ne.symm h]

theorem CoreBut.moves_install (h : Core w)
    (hClaim : ClaimKept w ⟨row.r2Key, debtId, .settled row.sizeBytes⟩) (hDebt : w.unswept debtId = true) (now : Nat) :
    Moves w ((w.install now row).dropUpload debtId) := by
  obtain ⟨u, hu, hId, hFree⟩ := unswept_iff.mp hDebt
  have hKey := hClaim.owed u hu hId
  obtain ⟨hQuiet, hObj⟩ := hClaim.knows hDebt
  have hDrop := h.dropUpload hClaim.owed
  have hFits : Fits (w.dropUpload debtId) row := {
    private_ := hClaim.private_
    below := hClaim.made.1
    held := hObj
    quiet := hQuiet
    files := fun r hr hSame => h.apart r hr u hu (hSame.trans hKey.symm)
    uploads := by
      intro v hv hSame
      obtain ⟨hv, hOther⟩ := mem_dropUpload.mp hv
      exact hOther ((congrArg UploadRow.uploadId (h.uploadKeys v hv u hu (hSame.trans hKey.symm))).trans hId) }
  unfold World.install
  split
  · next existing hExist =>
    obtain ⟨hMem, hPath⟩ := getFile_mem hExist
    have hOther : existing.r2Key ≠ row.r2Key := hFits.files existing hMem
    dsimp only
    rw [if_neg hOther]
    rw [dropUpload_queueCleanup]
    swap
    · exact Nat.ne_of_lt hClaim.made.2
    refine ⟨((hDrop.replaceFile hFits hMem hPath).queueCleanup (h.fileIds existing hMem) (fun r hr hSame => ?_)
      (fun v hv hSame => h.apart existing hMem v (mem_dropUpload.mp hv).1 hSame.symm) (h.quiet existing hMem).2
      _ _).mono fun k hk => hk.2 hk.1,
      ((later_dropUpload debtId).trans (later_files _)).trans (later_queueCleanup _ _ _), rfl⟩
    obtain ⟨e, he, hEq⟩ := mem_map.mp hr
    split at hEq
    · exact hOther (hSame.symm.trans (hEq ▸ rfl))
    · next hAt =>
      rw [← hEq] at hSame
      exact hAt ((congrArg FileRow.path (h.fileKeys e he existing hMem hSame)).trans hPath)
  · next hNone =>
    exact ⟨hDrop.putFile hFits hNone, (later_dropUpload debtId).trans (later_files _), rfl⟩

/-! ## Requests, and what comes of them -/

theorem CoreBut.request (h : Core w) {op : StorageOp} (hWrites : op.writes = true)
    (hClaim : ClaimKept w ⟨op.target, debtId, .unasked⟩) : Core (w.request op) := by
  have hCases : ∀ q ∈ w.inflight ++ [⟨w.nextId, op⟩], q ∈ w.inflight ∨ q = ⟨w.nextId, op⟩ := by
    intro q hq
    simpa using hq
  refine { h.moves_id.core with quiet := ?_, deletes := ?_, tokens := ?_, unlanded := ?_, requestIds := ?_ }
  · intro r hr
    refine ⟨(h.quiet r hr).1, fun q hq => ?_⟩
    obtain hOld | rfl := hCases q hq
    · exact (h.quiet r hr).2 q hOld
    · intro hEq
      have hHeld := h.held r hr
      rw [← hEq, hClaim.knows.2] at hHeld
      cases hHeld
  · intro q hq k hk
    obtain hOld | rfl := hCases q hq
    · exact h.deletes q hOld k hk
    · subst hk
      cases hWrites
  · unfold World.request
    rw [map_append, nodup_append]
    refine ⟨h.tokens, nodup_singleton _, ?_⟩
    intro token hTok token' hTok' hEq
    obtain ⟨q, hq, rfl⟩ := mem_map.mp hTok
    obtain rfl := mem_singleton.mp hTok'
    have := (h.requestIds q hq).1
    exact absurd this (hEq ▸ Nat.lt_irrefl _)
  · intro q hq
    obtain hOld | rfl := hCases q hq
    · exact h.unlanded q hOld
    · exact fun hLanded => absurd (h.landedIds _ hLanded) (Nat.lt_irrefl _)
  · intro q hq
    obtain hOld | rfl := hCases q hq
    · exact ⟨Nat.lt_succ_of_lt (h.requestIds q hOld).1, Nat.lt_succ_of_lt (h.requestIds q hOld).2⟩
    · exact ⟨Nat.lt_succ_self _, Nat.lt_succ_of_lt hClaim.made.1⟩

section Asking

variable {op : StorageOp} {c : Claim}

theorem mem_request {q : Request} : q ∈ (w.request op).inflight ↔ q ∈ w.inflight ∨ q = ⟨w.nextId, op⟩ := by
  simp [World.request]

theorem ClaimKept.request (h : ClaimKept w c) (hOther : op.target ≠ c.key) : ClaimKept (w.request op) c := by
  have hQuiet : (∀ q ∈ w.inflight, q.op.target ≠ c.key) → ∀ q ∈ (w.request op).inflight, q.op.target ≠ c.key := by
    intro hOld q hq
    obtain hq | rfl := mem_request.mp hq
    · exact hOld q hq
    · exact hOther
  refine ⟨h.private_, ⟨Nat.lt_succ_of_lt h.made.1, Nat.lt_succ_of_lt h.made.2⟩, h.owed, ?_⟩
  have hKnows := h.knows
  cases hPh : c.phase with
  | unasked =>
    rw [hPh] at hKnows
    refine ⟨fun q hq hWrites => ?_, hKnows.2⟩
    obtain hq | rfl := mem_request.mp hq
    · exact hKnows.1 q hq hWrites
    · exact hOther
  | asked token op' =>
    rw [hPh] at hKnows
    obtain ⟨hWrites, hTgt, hTok, hOp, hAlone, hLanded⟩ := hKnows
    refine ⟨hWrites, hTgt, Nat.lt_succ_of_lt hTok, fun q hq hEq => ?_, fun q hq hWrite hAt => ?_,
      fun hIn hFree => (hLanded hIn hFree).imp_left hQuiet⟩
    · obtain hq | rfl := mem_request.mp hq
      · exact hOp q hq hEq
      · exact absurd hTok (hEq ▸ Nat.lt_irrefl _)
    · obtain hq | rfl := mem_request.mp hq
      · exact hAlone q hq hWrite hAt
      · exact absurd hAt hOther
  | written =>
    rw [hPh] at hKnows
    exact fun hFree => (hKnows hFree).imp_left hQuiet
  | settled sizeBytes =>
    rw [hPh] at hKnows
    exact fun hFree => (hKnows hFree).imp_left hQuiet

theorem ClaimKept.asks (h : Core w) {key : Key} {debtId : Nat} (hClaim : ClaimKept w ⟨key, debtId, .unasked⟩)
    (hWrites : op.writes = true) (hTgt : op.target = key) :
    ClaimKept (w.request op) ⟨key, debtId, .asked w.nextId op⟩ := by
  refine ⟨hClaim.private_, ⟨Nat.lt_succ_of_lt hClaim.made.1, Nat.lt_succ_of_lt hClaim.made.2⟩, hClaim.owed,
    hWrites, hTgt, Nat.lt_succ_self _, fun q hq hEq => ?_, fun q hq hWrite hAt => ?_, fun hIn => ?_⟩
  · obtain hq | rfl := mem_request.mp hq
    · exact absurd (h.requestIds q hq).1 (hEq ▸ Nat.lt_irrefl _)
    · rfl
  · obtain hq | rfl := mem_request.mp hq
    · exact absurd hAt (hClaim.knows.1 q hq hWrite)
    · rfl
  · exact absurd (h.landedIds _ hIn) (Nat.lt_irrefl _)

theorem PassKept.request {t : Task} (h : PassKept w t) : PassKept (w.request op) t := by
  cases t with
  | cleanup leaseId due tokens =>
    obtain ⟨hId, hRows⟩ := h
    refine ⟨Nat.lt_succ_of_lt hId, fun d hd u hu hEq hLease => ?_⟩
    obtain ⟨token, hTok, hBelow, hOp, hGone⟩ := hRows d hd u hu hEq hLease
    refine ⟨token, hTok, Nat.lt_succ_of_lt hBelow, fun q hq hAt => ?_, hGone⟩
    obtain hq | rfl := mem_request.mp hq
    · exact hOp q hq hAt
    · exact absurd hBelow (hAt ▸ Nat.lt_irrefl _)
  | _ => trivial

theorem TaskKept.request {t : Task} (h : TaskKept w t) (hOther : op.target ∉ t.claims.map Claim.key) :
    TaskKept (w.request op) t where
  claims c hc := (h.claims c hc).request fun hEq => hOther (hEq ▸ mem_map_of_mem hc)
  pass := h.pass.request
  captured p hp := ⟨Nat.lt_succ_of_lt (h.captured p hp).1, (h.captured p hp).2⟩

end Asking

/-! ## Storage -/

section Landing

variable {j : Nat} {q : Request}

theorem CoreBut.taken (h : Core w) (hTaken : w.inflight[j]? = some q) :
    q ∈ w.inflight ∧ (∀ q' ∈ w.inflight.eraseIdx j, q' ∈ w.inflight ∧ q'.token ≠ q.token) ∧
      ((w.inflight.eraseIdx j).map Request.token).Nodup := by
  have hNd := ((Rows.perm_cons_eraseIdx hTaken).map Request.token).nodup_iff.mp h.tokens
  rw [map_cons, nodup_cons] at hNd
  refine ⟨mem_of_getElem? hTaken, fun q' hq' => ⟨mem_of_mem_eraseIdx hq', fun hEq => ?_⟩, hNd.2⟩
  exact hNd.1 (hEq ▸ mem_map_of_mem hq')

theorem CoreBut.missed (h : Core w) (hTaken : w.inflight[j]? = some q) :
    Core { w with inflight := w.inflight.eraseIdx j } := by
  obtain ⟨-, hLeft, hTokens⟩ := h.taken hTaken
  exact { h with
    quiet := fun r hr => ⟨(h.quiet r hr).1, fun q' hq' => (h.quiet r hr).2 q' (hLeft q' hq').1⟩
    deletes := fun q' hq' => h.deletes q' (hLeft q' hq').1
    tokens := hTokens
    unlanded := fun q' hq' => h.unlanded q' (hLeft q' hq').1
    requestIds := fun q' hq' => h.requestIds q' (hLeft q' hq').1 }

theorem TaskKept.missed {t : Task} (h : TaskKept w t) {left : List Request} (hLeft : ∀ q ∈ left, q ∈ w.inflight) :
    TaskKept { w with inflight := left } t where
  claims c hc := by
    have hClaim := h.claims c hc
    refine ⟨hClaim.private_, hClaim.made, hClaim.owed, ?_⟩
    have hKnows := hClaim.knows
    cases hPh : c.phase with
    | unasked =>
      rw [hPh] at hKnows
      exact ⟨fun q hq => hKnows.1 q (hLeft q hq), hKnows.2⟩
    | asked token op =>
      rw [hPh] at hKnows
      obtain ⟨hWrites, hTgt, hTok, hOp, hAlone, hLanded⟩ := hKnows
      exact ⟨hWrites, hTgt, hTok, fun q hq => hOp q (hLeft q hq), fun q hq => hAlone q (hLeft q hq),
        fun hIn hFree => (hLanded hIn hFree).imp_left fun hOld q hq => hOld q (hLeft q hq)⟩
    | written =>
      rw [hPh] at hKnows
      exact fun hFree => (hKnows hFree).imp_left fun hOld q hq => hOld q (hLeft q hq)
    | settled sizeBytes =>
      rw [hPh] at hKnows
      exact fun hFree => (hKnows hFree).imp_left fun hOld q hq => hOld q (hLeft q hq)
  pass := by
    have hPass := h.pass
    cases t with
    | cleanup leaseId due tokens =>
      obtain ⟨hId, hRows⟩ := hPass
      refine ⟨hId, fun d hd u hu hEq hLease => ?_⟩
      obtain ⟨token, hTok, hBelow, hOp, hGone⟩ := hRows d hd u hu hEq hLease
      exact ⟨token, hTok, hBelow, fun q hq => hOp q (hLeft q hq), hGone⟩
    | _ => trivial
  captured := h.captured

section

variable (h : Core w)
include h

variable {sizeBytes : Nat}

theorem CoreBut.lands {value : Option Nat} (hTaken : w.inflight[j]? = some q)
    (hCovered : ∀ k, (if k = q.op.target then value else w.objects k) ≠ none →
      False ∨ (∃ r ∈ w.db.files, r.r2Key = k) ∨ ∃ u ∈ w.db.uploads, u.r2Key = k) :
    Core ({ w with inflight := w.inflight.eraseIdx j, landed := q.token :: w.landed }.setObject q.op.target value) := by
  obtain ⟨hMem, hLeft, -⟩ := h.taken hTaken
  refine { h.missed hTaken with held := ?_, covered := hCovered, unlanded := ?_, landedIds := ?_ }
  · intro r hr
    exact (if_neg (Ne.symm ((h.quiet r hr).2 q hMem))).trans (h.held r hr)
  · intro q' hq' hIn
    obtain hEq | hOld := mem_cons.mp hIn
    · exact (hLeft q' hq').2 hEq
    · exact h.unlanded q' (hLeft q' hq').1 hOld
  · intro token hTok
    obtain rfl | hOld := mem_cons.mp hTok
    · exact (h.requestIds q hMem).1
    · exact h.landedIds token hOld

theorem CoreBut.arrives (hTaken : w.inflight[j]? = some q)
    (hKey : w.unsweptKey q.op.target = true) :
    Core ({ w with inflight := w.inflight.eraseIdx j, landed := q.token :: w.landed }.setObject q.op.target
      (some sizeBytes)) := by
  obtain ⟨u, hu, hAt, -⟩ := unsweptKey_iff.mp hKey
  refine h.lands hTaken fun k hk => ?_
  by_cases hEq : k = q.op.target
  · exact .inr (.inr ⟨u, hu, hAt.trans hEq.symm⟩)
  · exact h.covered k (by simpa [hEq] using hk)

/-- What a claim knows stays true as a request lands, if it does of the claim's own and of a key not asked for. -/
theorem ClaimKept.lands {c : Claim} (hClaim : ClaimKept w c) (hTaken : w.inflight[j]? = some q) {value : Option Nat}
    (hUnasked : (∀ q' ∈ w.inflight, q'.op.writes = true → q'.op.target ≠ c.key) → w.objects c.key = none →
      (if c.key = q.op.target then value else w.objects c.key) = none)
    (hOwn : q.op.writes = true → q.op.target = c.key →
      (∀ q' ∈ w.inflight, q'.op.writes = true → q'.op.target = c.key → q'.token = q.token) →
      (∀ q' ∈ w.inflight.eraseIdx j, q'.op.target ≠ c.key) ∧
        ∃ sizeBytes, value = some sizeBytes ∧ ∀ n, q.op = .put c.key n → sizeBytes = n) :
    ClaimKept ({ w with inflight := w.inflight.eraseIdx j, landed := q.token :: w.landed }.setObject q.op.target value) c := by
  obtain ⟨hMem, hLeft, -⟩ := h.taken hTaken
  refine ⟨hClaim.private_, hClaim.made, hClaim.owed, ?_⟩
  have hKnows := hClaim.knows
  have hObj : q.op.target ≠ c.key → ∀ stored, w.objects c.key = stored →
      (if c.key = q.op.target then value else w.objects c.key) = stored :=
    fun hOther stored hStored => (if_neg (Ne.symm hOther)).trans hStored
  cases hPh : c.phase with
  | unasked =>
    rw [hPh] at hKnows
    exact ⟨fun q' hq' => hKnows.1 q' (hLeft q' hq').1, hUnasked hKnows.1 hKnows.2⟩
  | asked token op =>
    rw [hPh] at hKnows
    obtain ⟨hWrites, hTgt, hTok, hOp, hAlone, hLanded⟩ := hKnows
    refine ⟨hWrites, hTgt, hTok, fun q' hq' => hOp q' (hLeft q' hq').1,
      fun q' hq' => hAlone q' (hLeft q' hq').1, fun hIn hDebt => ?_⟩
    obtain rfl | hOld := mem_cons.mp hIn
    · obtain rfl := hOp q hMem rfl
      obtain ⟨hQuiet, sizeBytes, hValue, hPut⟩ := hOwn hWrites hTgt hAlone
      exact ⟨hQuiet, sizeBytes, (if_pos hTgt.symm).trans hValue, hPut⟩
    · obtain ⟨hQuiet, stored, hStored, hBytes⟩ := hLanded hOld hDebt
      exact ⟨fun q' hq' => hQuiet q' (hLeft q' hq').1, stored, hObj (hQuiet q hMem) _ hStored, hBytes⟩
  | written =>
    rw [hPh] at hKnows
    intro hDebt
    obtain ⟨hQuiet, stored, hStored⟩ := hKnows hDebt
    exact ⟨fun q' hq' => hQuiet q' (hLeft q' hq').1, stored, hObj (hQuiet q hMem) _ hStored⟩
  | settled n =>
    rw [hPh] at hKnows
    intro hDebt
    obtain ⟨hQuiet, hStored⟩ := hKnows hDebt
    exact ⟨fun q' hq' => hQuiet q' (hLeft q' hq').1, hObj (hQuiet q hMem) _ hStored⟩

theorem ClaimKept.arrives {c : Claim} (hClaim : ClaimKept w c) (hTaken : w.inflight[j]? = some q)
    (hWrites : q.op.writes = true) (hPut : ∀ n, q.op = .put q.op.target n → sizeBytes = n)
    (hKey : w.unsweptKey q.op.target = true) :
    ClaimKept ({ w with inflight := w.inflight.eraseIdx j, landed := q.token :: w.landed }.setObject q.op.target
      (some sizeBytes)) c := by
  obtain ⟨hMem, hLeft, -⟩ := h.taken hTaken
  obtain ⟨u, hu, hAt, hFree⟩ := unsweptKey_iff.mp hKey
  refine hClaim.lands h hTaken (fun hAway hNone => (if_neg (Ne.symm (hAway q hMem hWrites))).trans hNone)
    fun _ hTgt hAlone => ⟨fun q' hq' hAgain => ?_, sizeBytes, rfl, fun n hn => hPut n ?_⟩
  · -- the claim's own request has landed: nothing else is in flight for the key
    cases hOp' : q'.op with
    | delete key =>
      have hDelete : key = c.key := by
        rw [hOp'] at hAgain
        exact hAgain
      obtain hStaging | hSwept := h.deletes q' (hLeft q' hq').1 key hOp'
      · rw [hDelete, hClaim.private_] at hStaging
        cases hStaging
      · exact hSwept u hu (hAt.trans (hTgt.trans hDelete.symm)) hFree
    | put key n =>
      exact (hLeft q' hq').2 (hAlone q' (hLeft q' hq').1 (by rw [hOp']; rfl) hAgain)
    | copy source key =>
      exact (hLeft q' hq').2 (hAlone q' (hLeft q' hq').1 (by rw [hOp']; rfl) hAgain)
  · rw [hn]
    rfl

theorem PassKept.lands {t : Task} (hPass : PassKept w t) (hTaken : w.inflight[j]? = some q) {value : Option Nat}
    (hLands : ∀ u ∈ w.db.uploads, u.leaseId ≠ none → q.op = .delete u.r2Key ∨ w.objects u.r2Key = none →
      (if u.r2Key = q.op.target then value else w.objects u.r2Key) = none) :
    PassKept ({ w with inflight := w.inflight.eraseIdx j, landed := q.token :: w.landed }.setObject q.op.target value) t := by
  obtain ⟨hMem, hLeft, -⟩ := h.taken hTaken
  cases t with
  | cleanup leaseId due tokens =>
    obtain ⟨hId, hRows⟩ := hPass
    refine ⟨hId, fun d hd u hu hEq hLease => ?_⟩
    obtain ⟨token, hTok, hBelow, hOp, hGone⟩ := hRows d hd u hu hEq hLease
    refine ⟨token, hTok, hBelow, fun q' hq' => hOp q' (hLeft q' hq').1, fun hIn => hLands u hu (by simp [hLease]) ?_⟩
    obtain rfl | hOld := mem_cons.mp hIn
    · exact .inl (hOp q hMem rfl)
    · exact .inr (hGone hOld)
  | _ => trivial

theorem PassKept.arrives {t : Task} (hPass : PassKept w t) (hTaken : w.inflight[j]? = some q)
    (hWrites : q.op.writes = true) (value : Option Nat) (hKey : w.unsweptKey q.op.target = true) :
    PassKept ({ w with inflight := w.inflight.eraseIdx j, landed := q.token :: w.landed }.setObject q.op.target value)
      t := by
  obtain ⟨v, hv, hAt, hFree⟩ := unsweptKey_iff.mp hKey
  refine hPass.lands h hTaken fun u hu hLease hGone => ?_
  have hOther : u.r2Key ≠ q.op.target := by
    intro hAgain
    obtain rfl := h.uploadKeys u hu v hv (hAgain.trans hAt.symm)
    exact hLease hFree
  obtain hDelete | hNone := hGone
  · rw [hDelete] at hWrites
    cases hWrites
  · exact (if_neg hOther).trans hNone

theorem CoreBut.deletes_land (hTaken : w.inflight[j]? = some q) :
    Core ({ w with inflight := w.inflight.eraseIdx j, landed := q.token :: w.landed }.setObject q.op.target none) := by
  refine h.lands hTaken fun k hk => h.covered k fun hNone => hk ?_
  rw [hNone]
  exact ite_self none

theorem TaskKept.deletes_land {t : Task} (hTask : TaskKept w t) (hTaken : w.inflight[j]? = some q)
    {key : Key} (hDelete : q.op = .delete key) :
    TaskKept ({ w with inflight := w.inflight.eraseIdx j, landed := q.token :: w.landed }.setObject q.op.target none)
      t where
  claims c hc := by
    refine (hTask.claims c hc).lands h hTaken (fun _ hNone => ?_) fun hWrites => ?_
    · rw [hNone]
      exact ite_self none
    · rw [hDelete] at hWrites
      cases hWrites
  pass := by
    refine hTask.pass.lands h hTaken fun u _ _ hGone => ?_
    obtain hDelete | hNone := hGone
    · refine if_pos ?_
      rw [hDelete]
      rfl
    · rw [hNone]
      exact ite_self none
  captured := hTask.captured

end

end Landing

theorem CoreBut.clientPut (h : Core w) (hKey : w.unsweptKey key = true) (hStaging : key.staging = true)
    (sizeBytes : Nat) : Core (w.setObject key (some sizeBytes)) := by
  obtain ⟨u, hu, hAt, -⟩ := unsweptKey_iff.mp hKey
  refine { h with held := ?_, covered := ?_ }
  · intro r hr
    refine (if_neg fun hEq => ?_).trans (h.held r hr)
    have := (h.quiet r hr).1
    rw [hEq, hStaging] at this
    cases this
  · intro k hk
    by_cases hEq : k = key
    · exact .inr (.inr ⟨u, hu, hAt.trans hEq.symm⟩)
    · exact h.covered k (by simpa [World.setObject, hEq] using hk)

theorem TaskKept.clientPut (h : Core w) (hTask : TaskKept w t)
    (hKey : w.unsweptKey key = true) (hStaging : key.staging = true) (sizeBytes : Nat) :
    TaskKept (w.setObject key (some sizeBytes)) t where
  claims c hc := by
    have hClaim := hTask.claims c hc
    have hObj : (w.setObject key (some sizeBytes)).objects c.key = w.objects c.key := by
      refine if_neg fun hEq => ?_
      have := hClaim.private_
      rw [hEq, hStaging] at this
      cases this
    refine ⟨hClaim.private_, hClaim.made, hClaim.owed, ?_⟩
    have hKnows := hClaim.knows
    cases hPh : c.phase <;> rw [hPh] at hKnows <;> unfold Phase.Knows at hKnows ⊢ <;> rw [hObj] <;>
      exact hKnows
  pass := by
    obtain ⟨v, hv, hAt, hFree⟩ := unsweptKey_iff.mp hKey
    have hPass := hTask.pass
    cases t with
    | cleanup leaseId due tokens =>
      obtain ⟨hId, hRows⟩ := hPass
      refine ⟨hId, fun d hd u hu hEq hLease => ?_⟩
      obtain ⟨token, hTok, hBelow, hOp, hGone⟩ := hRows d hd u hu hEq hLease
      refine ⟨token, hTok, hBelow, hOp, fun hIn => (if_neg fun hAgain => ?_).trans (hGone hIn)⟩
      obtain rfl := h.uploadKeys u hu v hv (hAgain.trans hAt.symm)
      rw [hFree] at hLease
      cases hLease
    | _ => trivial
  captured := hTask.captured

/-! ## Cleanup passes -/

theorem CoreBut.moves_cleanedUp (h : Core w) {leaseId : Nat} {due : List UploadRow}
    (hGone : ∀ d ∈ due, ∀ u ∈ w.db.uploads, u.uploadId = d.uploadId → u.leaseId = some leaseId →
      w.objects u.r2Key = none) : Moves w (w.cleanedUp leaseId due) := by
  have hKept : ∀ u, u ∈ (w.cleanedUp leaseId due).db.uploads → u ∈ w.db.uploads :=
    fun u hu => (mem_filter.mp hu).1
  refine ⟨h.fewer hKept fun k hk => ?_,
    { Later.refl w with uploads := fun u hu => .inl ⟨u, hKept u hu, rfl, rfl, fun _ hl => hl, Or.inl⟩ }, rfl⟩
  obtain hFree | hFiles | ⟨u, hu, hKey⟩ := h.covered k hk
  · exact hFree.elim
  · exact .inr (.inl hFiles)
  · refine .inr (.inr ⟨u, mem_filter.mpr ⟨hu, ?_⟩, hKey⟩)
    simp only [Bool.not_eq_true', Bool.and_eq_false_iff, any_eq_false, decide_eq_true_eq, decide_eq_false_iff_not]
    by_cases hLease : u.leaseId = some leaseId
    · refine .inl fun d hd hEq => ?_
      have := hGone d hd u hu hEq.symm hLease
      rw [hKey] at this
      exact hk this
    · exact .inr hLease

theorem requestDeletes_eq (keys : List Key) : ∀ w : World, ∃ qs : List Request,
    World.requestDeletes w keys =
      ({ w with inflight := w.inflight ++ qs, nextId := w.nextId + keys.length }, qs.map Request.token) ∧
      qs.map Request.op = keys.map StorageOp.delete ∧ (qs.map Request.token).Nodup ∧
      ∀ q ∈ qs, w.nextId ≤ q.token ∧ q.token < w.nextId + keys.length := by
  induction keys with
  | nil => exact fun w => ⟨[], by simp [World.requestDeletes], rfl, nodup_nil, nofun⟩
  | cons key keys ih =>
    intro w
    obtain ⟨qs, hEq, hOps, hNd, hIds⟩ := ih (w.request (.delete key))
    have hNext : (w.request (.delete key)).nextId = w.nextId + 1 := rfl
    rw [hNext] at hIds
    refine ⟨⟨w.nextId, .delete key⟩ :: qs, ?_, ?_, ?_, ?_⟩
    · rw [World.requestDeletes, hEq]
      simp [World.request, Nat.add_comm, Nat.add_left_comm]
    · simp [hOps]
    · rw [map_cons, nodup_cons]
      refine ⟨fun hMem => ?_, hNd⟩
      obtain ⟨q, hq, hSame⟩ := mem_map.mp hMem
      have hFresh := (hIds q hq).1
      change q.token = w.nextId at hSame
      omega
    · intro q hq
      rw [length_cons]
      obtain rfl | hq := mem_cons.mp hq
      · exact ⟨Nat.le_refl _, Nat.lt_add_of_pos_right (Nat.succ_pos _)⟩
      · have := hIds q hq
        omega

section Passes

variable {due : List UploadRow} {now : Nat} {qs : List Request} {n : Nat}

def World.swept (w : World) (due : List UploadRow) (now : Nat) (qs : List Request) (n : Nat) : World :=
  { { w with nextId := w.nextId + 1 }.lease due w.nextId now with inflight := w.inflight ++ qs, nextId := n }

variable {u' : UploadRow}

theorem mem_swept (hu' : u' ∈ (w.swept due now qs n).db.uploads) :
    ∃ u ∈ w.db.uploads, u.uploadId = u'.uploadId ∧ u.r2Key = u'.r2Key ∧ u.pending = u'.pending ∧
      ((∃ d ∈ due, d.uploadId = u.uploadId) ∧ u'.leaseId = some w.nextId ∨
        (∀ d ∈ due, d.uploadId ≠ u.uploadId) ∧ u' = u) := by
  obtain ⟨u, hu, rfl⟩ := mem_map.mp hu'
  refine ⟨u, hu, ?_⟩
  split
  · next hDue =>
    obtain ⟨d, hd, hEq⟩ := any_eq_true.mp hDue
    exact ⟨rfl, rfl, rfl, .inl ⟨⟨d, hd, by simpa using hEq⟩, rfl⟩⟩
  · next hDue => exact ⟨rfl, rfl, rfl, .inr ⟨by simpa using hDue, rfl⟩⟩

structure Sweeps (w : World) (due : List UploadRow) (qs : List Request) (n : Nat) : Prop where
  rows : ∀ d ∈ due, d ∈ w.db.uploads
  ops : ∀ q ∈ qs, ∃ d ∈ due, q.op = .delete d.r2Key
  all : ∀ d ∈ due, ∃ q ∈ qs, q.op = .delete d.r2Key
  tokens : (qs.map Request.token).Nodup
  ids : ∀ q ∈ qs, w.nextId < q.token ∧ q.token < n
  next : w.nextId < n

theorem Sweeps.leased (h : Core w) (hSweeps : Sweeps w due qs n) {q : Request} (hq : q ∈ qs)
    (hu' : u' ∈ (w.swept due now qs n).db.uploads) (hKey : u'.r2Key = q.op.target) : u'.leaseId ≠ none := by
  obtain ⟨d, hd, hOp⟩ := hSweeps.ops q hq
  obtain ⟨u, hu, -, hEq, -, ⟨-, hLease⟩ | ⟨hOther, -⟩⟩ := mem_swept hu'
  · rw [hLease]
    exact nofun
  · have hTgt : q.op.target = d.r2Key := by
      rw [hOp]
      rfl
    obtain rfl := h.uploadKeys u hu d (hSweeps.rows d hd) (hEq.trans (hKey.trans hTgt))
    exact absurd rfl (hOther u hd)

theorem CoreBut.swept (h : Core w) (hSweeps : Sweeps w due qs n) : Core (w.swept due now qs n) := by
  have hNext := hSweeps.next
  have hCases : ∀ q ∈ w.inflight ++ qs, q ∈ w.inflight ∨ q ∈ qs := fun q hq => mem_append.mp hq
  refine { h with
    uploadRows := ?_, uploadKeys := ?_, apart := ?_, covered := ?_, quiet := ?_, deletes := ?_, pending := ?_,
    tokens := ?_, unlanded := ?_, landedIds := ?_, requestIds := ?_, uploadIds := ?_, fileIds := ?_ }
  · intro v hv v' hv' hEq
    obtain ⟨u, hu, rfl⟩ := mem_map.mp hv
    obtain ⟨u', hu', rfl⟩ := mem_map.mp hv'
    rw [h.uploadRows u hu u' hu' (by revert hEq; split <;> split <;> exact id)]
  · intro v hv v' hv' hEq
    obtain ⟨u, hu, rfl⟩ := mem_map.mp hv
    obtain ⟨u', hu', rfl⟩ := mem_map.mp hv'
    rw [h.uploadKeys u hu u' hu' (by revert hEq; split <;> split <;> exact id)]
  · intro r hr u' hu'
    obtain ⟨u, hu, -, hEq, -⟩ := mem_swept hu'
    exact hEq ▸ h.apart r hr u hu
  · intro k hk
    obtain hFree | hFiles | ⟨u, hu, hKey⟩ := h.covered k hk
    · exact hFree.elim
    · exact .inr (.inl hFiles)
    · refine .inr (.inr ⟨_, mem_map_of_mem hu, ?_⟩)
      split <;> exact hKey
  · intro r hr
    refine ⟨(h.quiet r hr).1, fun q hq => ?_⟩
    obtain hOld | hNew := hCases q hq
    · exact (h.quiet r hr).2 q hOld
    · obtain ⟨d, hd, hOp⟩ := hSweeps.ops q hNew
      rw [hOp]
      exact fun hEq => h.apart r hr d (hSweeps.rows d hd) hEq.symm
  · intro q hq k hk
    obtain hOld | hNew := hCases q hq
    · obtain hStaging | hRows := h.deletes q hOld k hk
      · exact .inl hStaging
      · refine .inr fun u' hu' hKey => ?_
        obtain ⟨u, hu, -, hEq, -, ⟨-, hLease⟩ | ⟨-, rfl⟩⟩ := mem_swept hu'
        · rw [hLease]
          exact nofun
        · exact hRows u' hu hKey
    · refine .inr fun u' hu' hKey => hSweeps.leased h hNew hu' ?_
      rw [hk]
      exact hKey
  · intro u' hu' hPend
    obtain ⟨u, hu, -, hEq, hAt, -⟩ := mem_swept hu'
    exact hEq ▸ h.pending u hu (hAt.trans hPend)
  · change ((w.inflight ++ qs).map Request.token).Nodup
    rw [map_append, nodup_append]
    refine ⟨h.tokens, hSweeps.tokens, ?_⟩
    intro token hTok token' hTok' hEq
    obtain ⟨q, hq, rfl⟩ := mem_map.mp hTok
    obtain ⟨q', hq', rfl⟩ := mem_map.mp hTok'
    have := (h.requestIds q hq).1
    have := (hSweeps.ids q' hq').1
    omega
  · intro q hq
    obtain hOld | hNew := hCases q hq
    · exact h.unlanded q hOld
    · intro hIn
      have hLanded := h.landedIds _ hIn
      have hFresh := (hSweeps.ids q hNew).1
      omega
  · exact fun token hTok => (h.landedIds token hTok).trans hNext
  · intro q hq
    obtain hOld | hNew := hCases q hq
    · exact ⟨(h.requestIds q hOld).1.trans hNext, (h.requestIds q hOld).2.trans hNext⟩
    · obtain ⟨d, hd, hOp⟩ := hSweeps.ops q hNew
      rw [hOp]
      exact ⟨(hSweeps.ids q hNew).2, (h.uploadIds d (hSweeps.rows d hd)).2.1.trans hNext⟩
  · intro u' hu'
    obtain ⟨u, hu, hId, hEq, -, hLease⟩ := mem_swept hu'
    obtain ⟨hA, hB, hC⟩ := h.uploadIds u hu
    refine ⟨hId ▸ hA.trans hNext, hEq ▸ hB.trans hNext, fun l hl => ?_⟩
    obtain ⟨-, hLease⟩ | ⟨-, rfl⟩ := hLease
    · rw [hLease, Option.some.injEq] at hl
      exact hl ▸ hNext
    · exact (hC l hl).trans hNext
  · exact fun r hr => (h.fileIds r hr).trans hNext

theorem TaskKept.swept (h : Core w) (hSweeps : Sweeps w due qs n) {t : Task} (hTask : TaskKept w t) :
    TaskKept (w.swept due now qs n) t where
  claims c hc := by
    have hClaim := hTask.claims c hc
    have hNext := hSweeps.next
    have hOwed : ∀ u ∈ (w.swept due now qs n).db.uploads, u.uploadId = c.debtId → u.r2Key = c.key := by
      intro u' hu' hId
      obtain ⟨u, hu, hSameId, hEq, -⟩ := mem_swept hu'
      exact hEq ▸ hClaim.owed u hu (hSameId.trans hId)
    have hUnswept : (w.swept due now qs n).unswept c.debtId = true → w.unswept c.debtId = true ∧
        ∀ q ∈ qs, q.op.target ≠ c.key := by
      intro hFree
      obtain ⟨u', hu', hId, hNone⟩ := unswept_iff.mp hFree
      refine ⟨?_, fun q hq hEq => hSweeps.leased h hq hu' ((hOwed u' hu' hId).trans hEq.symm) hNone⟩
      obtain ⟨u, hu, -, -, -, ⟨-, hLease⟩ | ⟨-, rfl⟩⟩ := mem_swept hu'
      · rw [hNone] at hLease
        cases hLease
      · exact unswept_iff.mpr ⟨u', hu, hId, hNone⟩
    have hQuiet : (∀ q ∈ w.inflight, q.op.target ≠ c.key) → (∀ q ∈ qs, q.op.target ≠ c.key) →
        ∀ q ∈ (w.swept due now qs n).inflight, q.op.target ≠ c.key := by
      intro hOld hNew q hq
      obtain hq | hq := mem_append.mp hq
      · exact hOld q hq
      · exact hNew q hq
    have hDelete : ∀ q ∈ qs, q.op.writes = false := by
      intro q hq
      obtain ⟨d, -, hOp⟩ := hSweeps.ops q hq
      rw [hOp]
      rfl
    refine ⟨hClaim.private_, ⟨hClaim.made.1.trans hNext, hClaim.made.2.trans hNext⟩, hOwed, ?_⟩
    have hKnows := hClaim.knows
    cases hPh : c.phase with
    | unasked =>
      rw [hPh] at hKnows
      refine ⟨fun q hq hWrites => ?_, hKnows.2⟩
      obtain hq | hq := mem_append.mp hq
      · exact hKnows.1 q hq hWrites
      · rw [hDelete q hq] at hWrites
        cases hWrites
    | asked token op =>
      rw [hPh] at hKnows
      obtain ⟨hWrites, hTgt, hTok, hOp, hAlone, hLanded⟩ := hKnows
      refine ⟨hWrites, hTgt, hTok.trans hNext, fun q hq hEq => ?_, fun q hq hWrite hAt => ?_, fun hIn hFree => ?_⟩
      · obtain hq | hq := mem_append.mp hq
        · exact hOp q hq hEq
        · have := (hSweeps.ids q hq).1
          omega
      · obtain hq | hq := mem_append.mp hq
        · exact hAlone q hq hWrite hAt
        · rw [hDelete q hq] at hWrite
          cases hWrite
      · obtain ⟨hDebt, hNew⟩ := hUnswept hFree
        exact (hLanded hIn hDebt).imp_left fun hOld => hQuiet hOld hNew
    | written =>
      rw [hPh] at hKnows
      intro hFree
      obtain ⟨hDebt, hNew⟩ := hUnswept hFree
      exact (hKnows hDebt).imp_left fun hOld => hQuiet hOld hNew
    | settled sizeBytes =>
      rw [hPh] at hKnows
      intro hFree
      obtain ⟨hDebt, hNew⟩ := hUnswept hFree
      exact (hKnows hDebt).imp_left fun hOld => hQuiet hOld hNew
  pass := by
    have hPass := hTask.pass
    have hNext := hSweeps.next
    cases t with
    | cleanup leaseId due' tokens =>
      obtain ⟨hId, hRows⟩ := hPass
      refine ⟨hId.trans hNext, fun d hd u' hu' hEq hLease => ?_⟩
      obtain ⟨u, hu, hSameId, hKey, -, ⟨-, hNew⟩ | ⟨-, rfl⟩⟩ := mem_swept hu'
      · rw [hNew, Option.some.injEq] at hLease
        omega
      · obtain ⟨token, hTok, hBelow, hOp, hGone⟩ := hRows d hd u' hu hEq hLease
        refine ⟨token, hTok, hBelow.trans hNext, fun q hq hAt => ?_, hGone⟩
        obtain hq | hq := mem_append.mp hq
        · exact hOp q hq hAt
        · have := (hSweeps.ids q hq).1
          omega
    | _ => trivial
  captured p hp := by
    refine ⟨(hTask.captured p hp).1.trans hSweeps.next, fun u' hu' hId => ?_⟩
    obtain ⟨u, hu, hSameId, hKey, -⟩ := mem_swept hu'
    exact hKey ▸ (hTask.captured p hp).2 u hu (hSameId.trans hId)

theorem PassKept.swept (h : Core w) (hSweeps : Sweeps w due qs n) :
    PassKept (w.swept due now qs n) (.cleanup w.nextId due (qs.map Request.token)) := by
  refine ⟨hSweeps.next, fun d hd u' hu' hEq hLease => ?_⟩
  obtain ⟨u, hu, hSameId, hKey, -, -⟩ := mem_swept hu'
  obtain rfl := h.uploadRows u hu d (hSweeps.rows d hd) (hSameId.trans hEq)
  obtain ⟨q, hq, hOp⟩ := hSweeps.all u hd
  refine ⟨q.token, mem_map_of_mem hq, (hSweeps.ids q hq).2, fun q' hq' hAt => ?_, fun hIn => ?_⟩
  · obtain hOld | hNew := mem_append.mp hq'
    · have := (h.requestIds q' hOld).1
      have := (hSweeps.ids q hq).1
      omega
    · rw [inj_on_of_nodup_map hSweeps.tokens hNew hq hAt, hOp, hKey]
  · have hLanded := h.landedIds _ hIn
    have hFresh := (hSweeps.ids q hq).1
    omega

end Passes

end Stella.Drive
