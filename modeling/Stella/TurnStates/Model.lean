import Mathlib.Data.List.Sort
import Mathlib.Data.String.Basic
import Stella.Library.Rows

/-! # Turn states

`turn-state-registry.ts` for one owner: operations, their archives, the states that a thread
names, and the retirements that drains work off, delete by delete.
-/

namespace Stella.TurnStates

open Stella.Rows

def maxCandidates : Nat := 8

structure ObjectKey where
  threadId : String
  turnId : String
  attemptGeneration : Nat
  operationId : String
  deriving DecidableEq

structure TurnStateIdentity where
  ownerGeneration : String
  threadId : String
  turnId : String
  attemptGeneration : Nat

structure TurnStateArchive where
  key : ObjectKey
  sizeBytes : Nat
  sha256 : String
  etag : String
  deriving DecidableEq

structure TurnStateWorkspaceHead where
  historyCursor : String
  manifestId : String

structure TurnStateCandidate where
  operationId : String
  requestFingerprint : String
  historyCursor : String
  workspace : Option TurnStateWorkspaceHead
  native : Option TurnStateArchive
  nativeCheckpoint : Option String
  receipt : String
  createdAt : Int

inductive ObjectState
  | reserved
  | uploaded
  | referenced
  | retiring
  deriving DecidableEq

structure ObjectRecord where
  operationId : String
  key : ObjectKey
  state : ObjectState
  descriptor : Option TurnStateArchive := none

inductive OperationState
  | prepared
  | committed
  deriving DecidableEq

structure OperationRecord where
  identity : TurnStateIdentity
  operationId : String
  requestFingerprint : String
  historyCursor : String
  manifestId : Option String
  nativeOnly : Bool
  nativeCheckpoint : Option String
  objectKey : Option ObjectKey
  state : OperationState := .prepared
  receipt : Option String := none
  publicationReceipt : Option String := none
  createdAt : Int

structure ThreadRecord where
  ownerGeneration : String
  threadId : String
  committed : Option TurnStateCandidate := none
  candidates : List TurnStateCandidate := []

def ThreadRecord.named (thread : ThreadRecord) : List TurnStateCandidate := thread.committed.toList ++ thread.candidates

structure WorkspaceRecord where
  ownerGeneration : String
  head : Option TurnStateWorkspaceHead := none

structure RetirementRecord where
  ownerGeneration : String
  threadId : String
  operationId : String
  objectKeys : List ObjectKey
  createdAt : Int
  deriving DecidableEq

inductive DrainStage
  | deleting
  | heading

structure Drain where
  listed : List RetirementRecord
  keys : List ObjectKey
  stage : DrainStage
  empty : Bool

def Drain.at (listed : List RetirementRecord) : Drain := ⟨listed, (listed.head?.map RetirementRecord.objectKeys).getD [], .deleting, true⟩

structure Registry where
  operations : List OperationRecord := []
  objects : List ObjectRecord := []
  threads : List ThreadRecord := []
  workspace : Option WorkspaceRecord := none
  retirements : List RetirementRecord := []
  /-- The archives that are there. -/
  store : List ObjectKey := []
  drains : List Drain := []
  /-- The archives that stopped being named and were not seen absent since. -/
  dropped : List ObjectKey := []

structure PrepareArgs where
  identity : TurnStateIdentity
  requestFingerprint : String
  historyCursor : String
  manifestId : Option String
  nativeOnly : Bool
  nativeCheckpoint : Option String
  createdAt : Int

structure Digests where
  operationId : PrepareArgs → String
  receipt : OperationRecord → Option TurnStateArchive → String
  publicationReceipt : OperationRecord → String

inductive TurnStateInput
  | prepare (args : PrepareArgs)
  | upload (key : ObjectKey)
  /-- The caller has found the archive there. -/
  | markUploaded (operationId : String) (archive : TurnStateArchive)
  | commit (operationId : String)
  | publish (ownerGeneration threadId historyCursor operationId : String)
  | confirm (ownerGeneration threadId historyCursor operationId : String) (now : Int)
  | drain (ownerGeneration : String) (limit : Nat)
  /-- The delete of the drain at this place takes effect or not, and throws or not. -/
  | delete (place : Nat) (takesEffect throws : Bool)
  | head (place : Nat) (throws : Bool)
  | clear (place : Nat)
  | restart

namespace Registry

variable (digests : Digests) (w : Registry)

def named : List TurnStateCandidate := w.threads.flatMap ThreadRecord.named

def objectKeyOf (args : PrepareArgs) : Option ObjectKey :=
  args.nativeCheckpoint.map fun _ =>
    ⟨args.identity.threadId, args.identity.turnId, args.identity.attemptGeneration, digests.operationId args⟩

def operationOf (args : PrepareArgs) : OperationRecord where
  identity := args.identity
  operationId := digests.operationId args
  requestFingerprint := args.requestFingerprint
  historyCursor := args.historyCursor
  manifestId := args.manifestId
  nativeOnly := args.nativeOnly
  nativeCheckpoint := args.nativeCheckpoint
  objectKey := objectKeyOf digests args
  createdAt := args.createdAt

def prepareTurnStateOperation (args : PrepareArgs) : Registry :=
  match lookup OperationRecord.operationId w.operations (digests.operationId args) with
  -- A replay is answered and a conflict throws: nothing is written.
  | some _ => w
  | none =>
    if w.workspace.any fun workspace => workspace.ownerGeneration ≠ args.identity.ownerGeneration then w
    else
      { w with
        workspace := some (w.workspace.getD ⟨args.identity.ownerGeneration, none⟩)
        operations := w.operations ++ [operationOf digests args]
        objects := match objectKeyOf digests args with
          | some key => upsert ObjectRecord.key w.objects ⟨digests.operationId args, key, .reserved, none⟩
          | none => w.objects }

def markTurnStateObjectUploaded (operationId : String) (archive : TurnStateArchive) : Registry :=
  match lookup OperationRecord.operationId w.operations operationId, lookup ObjectRecord.key w.objects archive.key with
  | some operation, some existing =>
    if operation.objectKey ≠ some archive.key || existing.operationId ≠ operationId || existing.descriptor.isSome then w
    else
      { w with
        objects := modify ObjectRecord.key w.objects archive.key fun record =>
          { record with state := .uploaded, descriptor := some archive } }
  | _, _ => w

def candidateOf (operation : OperationRecord) (descriptor : Option TurnStateArchive) : TurnStateCandidate where
  operationId := operation.operationId
  requestFingerprint := operation.requestFingerprint
  historyCursor := operation.historyCursor
  workspace := operation.manifestId.map fun manifestId => ⟨operation.historyCursor, manifestId⟩
  native := descriptor
  nativeCheckpoint := operation.nativeCheckpoint
  receipt := digests.receipt operation descriptor
  createdAt := operation.createdAt

def threadOf (operation : OperationRecord) : ThreadRecord :=
  (lookup ThreadRecord.threadId w.threads operation.identity.threadId).getD
    { ownerGeneration := operation.identity.ownerGeneration, threadId := operation.identity.threadId }

def uploadedOf (operation : OperationRecord) : Option TurnStateArchive :=
  (operation.objectKey.bind (lookup ObjectRecord.key w.objects)).bind fun record =>
    if record.state = .uploaded then record.descriptor else none

def commitTurnStateOperation (operationId : String) : Registry :=
  match lookup OperationRecord.operationId w.operations operationId with
  | none => w
  | some operation =>
    let thread := w.threadOf operation
    if thread.ownerGeneration ≠ operation.identity.ownerGeneration then w
    else if !(w.workspace.any fun workspace => workspace.ownerGeneration = operation.identity.ownerGeneration) then w
    else if operation.state = .committed then w
    else if operation.objectKey.isSome && (w.uploadedOf operation).isNone then w
    else if thread.candidates.any fun candidate => candidate.historyCursor = operation.historyCursor then w
    else if maxCandidates ≤ thread.candidates.length then w
    else
      let candidate := candidateOf digests operation (w.uploadedOf operation)
      { w with
        threads := upsert ThreadRecord.threadId w.threads { thread with candidates := thread.candidates ++ [candidate] }
        objects := match operation.objectKey with
          | some key => modify ObjectRecord.key w.objects key fun record => { record with state := .referenced }
          | none => w.objects
        operations := modify OperationRecord.operationId w.operations operationId fun operation =>
          { operation with state := .committed, receipt := some candidate.receipt } }

def publishTurnStateWorkspace (ownerGeneration threadId historyCursor operationId : String) : Registry :=
  match w.workspace, lookup ThreadRecord.threadId w.threads threadId,
      lookup OperationRecord.operationId w.operations operationId with
  | some workspace, some thread, some operation =>
    if workspace.ownerGeneration ≠ ownerGeneration || thread.ownerGeneration ≠ ownerGeneration || operation.state ≠ .committed ||
        operation.identity.ownerGeneration ≠ ownerGeneration || operation.identity.threadId ≠ threadId ||
        operation.historyCursor ≠ historyCursor ||
        !(thread.named.any fun candidate => candidate.operationId = operationId && candidate.historyCursor = historyCursor) ||
        operation.publicationReceipt.isSome then w
    else
      { w with
        workspace := some { workspace with
          head := match if operation.nativeOnly then none else operation.manifestId with
            | some manifestId => some ⟨operation.historyCursor, manifestId⟩
            | none => workspace.head }
        operations := modify OperationRecord.operationId w.operations operationId fun operation =>
          { operation with publicationReceipt := some (digests.publicationReceipt operation) } }
  | _, _, _ => w

def retireOperationObjects (operationId : String) (objectKeys : List ObjectKey) (ownerGeneration threadId : String) (now : Int) :
    Option Registry :=
  if objectKeys = [] then some w
  else
    let existing := lookup RetirementRecord.operationId w.retirements operationId
    if existing.any fun record => record.ownerGeneration ≠ ownerGeneration then none
    else
      let known := (existing.map RetirementRecord.objectKeys).getD []
      some { w with
        retirements := upsert RetirementRecord.operationId w.retirements
          { ownerGeneration, operationId, threadId := (existing.map RetirementRecord.threadId).getD threadId
            objectKeys := known ++ objectKeys.filter fun key => key ∉ known
            createdAt := (existing.map RetirementRecord.createdAt).getD now }
        objects := w.objects.map fun record => if record.key ∈ objectKeys then { record with state := .retiring } else record
        dropped := w.dropped ++ objectKeys }

def retireThreadCandidates (ownerGeneration threadId : String) (now : Int) (w : Registry) : List TurnStateCandidate → Option Registry
  | [] => some w
  | candidate :: rest =>
    (w.retireOperationObjects candidate.operationId (candidate.native.toList.map TurnStateArchive.key) ownerGeneration threadId
      now).bind fun w => retireThreadCandidates ownerGeneration threadId now w rest

def confirmTurnStateRestore (ownerGeneration threadId historyCursor operationId : String) (now : Int) : Registry :=
  match lookup ThreadRecord.threadId w.threads threadId with
  | none => w
  | some thread =>
    let exact (candidate : TurnStateCandidate) : Bool :=
      candidate.operationId = operationId && candidate.historyCursor = historyCursor
    if thread.ownerGeneration ≠ ownerGeneration || thread.committed.any exact then w
    else match thread.candidates.find? exact with
      | none => w
      | some restore =>
        let retired := thread.committed.toList ++
          thread.candidates.filter fun candidate => candidate.operationId ≠ restore.operationId
        match retireThreadCandidates thread.ownerGeneration thread.threadId now w retired with
        | none => w
        | some later =>
          { later with
            threads := modify ThreadRecord.threadId later.threads threadId fun _ =>
              { thread with committed := some restore, candidates := [] } }

/-! ## Drains -/

def withDrain (place : Nat) (drain : Drain) : Registry := { w with drains := w.drains.set place drain }

def drain (ownerGeneration : String) (limit : Nat) : Registry :=
  let listed := (w.retirements.filter fun record => record.ownerGeneration = ownerGeneration).insertionSort
    fun a b => a.operationId ≤ b.operationId
  { w with drains := w.drains ++ [Drain.at (listed.take limit)] }

def clear (place : Nat) (drain : Drain) (retirement : RetirementRecord) (rest : List RetirementRecord) : Registry :=
  if !drain.empty then w.withDrain place (Drain.at rest)
  else match lookup RetirementRecord.operationId w.retirements retirement.operationId with
    | none => w.withDrain place (Drain.at rest)
    | some current =>
      if current ≠ retirement then w.withDrain place (Drain.at rest)
      else if current.objectKeys.any fun key => (lookup ObjectRecord.key w.objects key).any fun object =>
          object.operationId ≠ current.operationId || object.state ≠ .retiring then
        -- "Turn state retirement object was re-referenced.": the drain throws.
        w.withDrain place (Drain.at [])
      else
        { w.withDrain place (Drain.at rest) with
          objects := w.objects.filter fun object => object.key ∉ current.objectKeys
          operations := erase OperationRecord.operationId w.operations current.operationId
          retirements := erase RetirementRecord.operationId w.retirements current.operationId }

def step : TurnStateInput → Registry
  | .prepare args => w.prepareTurnStateOperation digests args
  | .upload key => { w with store := w.store.insert key }
  | .markUploaded operationId archive =>
    if archive.key ∈ w.store then w.markTurnStateObjectUploaded operationId archive else w
  | .commit operationId => w.commitTurnStateOperation digests operationId
  | .publish ownerGeneration threadId historyCursor operationId =>
    w.publishTurnStateWorkspace digests ownerGeneration threadId historyCursor operationId
  | .confirm ownerGeneration threadId historyCursor operationId now =>
    w.confirmTurnStateRestore ownerGeneration threadId historyCursor operationId now
  | .drain ownerGeneration limit => w.drain ownerGeneration limit
  | .delete place takesEffect throws =>
    match w.drains[place]? with
    | some ⟨listed, key :: more, .deleting, empty⟩ =>
      { w.withDrain place (if throws then ⟨listed, more, .deleting, false⟩ else ⟨listed, key :: more, .heading, empty⟩) with
        store := if takesEffect then erase id w.store key else w.store }
    | _ => w
  | .head place throws =>
    match w.drains[place]? with
    | some ⟨listed, key :: more, .heading, empty⟩ =>
      if throws || key ∈ w.store then w.withDrain place ⟨listed, more, .deleting, false⟩
      else { w.withDrain place ⟨listed, more, .deleting, empty⟩ with dropped := erase id w.dropped key }
    | _ => w
  | .clear place =>
    match w.drains[place]? with
    | some ⟨retirement :: rest, [], stage, empty⟩ => w.clear place ⟨retirement :: rest, [], stage, empty⟩ retirement rest
    | _ => w
  | .restart => { w with drains := [] }

end Registry

end Stella.TurnStates
