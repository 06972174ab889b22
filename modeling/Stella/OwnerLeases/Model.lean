import Stella.Library.InsertionMap
import Stella.Library.Transition

/-! # Owner-fence leases of a conversation

The object keeps a receipt of every lease it asks the owner fence for, from before it asks until
the fence has answered its unregister.
-/

namespace Stella.OwnerLeases

structure Identity where
  ownerId : String
  ownerGeneration : String
  turnId : String
  deriving DecidableEq

inductive Phase
  | registering
  | registered
  | unregisterPending
  deriving DecidableEq

structure Receipt where
  identity : Identity
  leaseId : Nat
  phase : Phase
  registrationGeneration : Option String
  runSlot : Bool
  operationFingerprint : Option String
  deriving DecidableEq

structure OwnerFencedTurn where
  identity : Identity
  ownerPurgeLeaseId : Option Nat
  ownerPurgeGeneration : Option String
  deriving DecidableEq

structure Registration where
  turn : OwnerFencedTurn
  freshLease : Bool
  operationFingerprint : Option String
  /-- the transport of a combined admission -/
  combined : Bool
  deriving DecidableEq

structure FenceLease where
  identity : Identity
  active : Bool
  deriving DecidableEq

inductive FenceOp
  | register
  | unregister
  deriving DecidableEq

structure Request where
  token : Nat
  op : FenceOp
  leaseId : Nat
  identity : Identity

def Request.key (q : Request) : String × Nat := (q.identity.ownerId, q.leaseId)

inductive Answer
  | registered (generation : String)
  /-- The gate did not ask the fence at all. -/
  | skipped
  | refused
  | unregistered
  deriving DecidableEq

inductive After
  | nothing
  | register (call : Registration)
  /-- the alarm's loop over what it has listed -/
  | alarm (rest : List Receipt)
  deriving DecidableEq

inductive Task
  | registering (call : Registration) (receipt : Receipt) (token : Nat)
  | rollback (token : Nat)
  | retiring (pending : Receipt) (token : Nat) (next : After)
  /-- an unregister that has found no receipt computes the key of the run slot -/
  | identifying (identity : Identity) (leaseId : Nat) (generation : Option String)
  deriving DecidableEq

structure World where
  receipts : InsertionMap Nat Receipt := []
  runSlots : InsertionMap Identity Nat := []
  /-- leases an owner purge has canceled -/
  imported : List Nat := []
  alarm : Bool := false
  /-- the leases each owner's fence knows, by owner and lease id -/
  fence : InsertionMap (String × Nat) FenceLease := []
  inflight : List Request := []
  answers : List (Nat × Answer) := []
  tasks : List Task := []
  nextId : Nat := 0
  /-- leases whose receipt has been `unregister_pending` -/
  pended : List Nat := []

def receiptListLimit : Nat := 100

namespace World

variable (w : World)

def receipt (leaseId : Nat) : Option Receipt := InsertionMap.get? w.receipts leaseId

def putReceipt (r : Receipt) : World :=
  { w with
    receipts := InsertionMap.set w.receipts r.leaseId r
    pended := if r.phase = .unregisterPending then w.pended ++ [r.leaseId] else w.pended }

def park (task : Task) : World := { w with tasks := w.tasks ++ [task] }

def request (op : FenceOp) (leaseId : Nat) (identity : Identity) : World :=
  { w with inflight := w.inflight ++ [⟨w.nextId, op, leaseId, identity⟩], nextId := w.nextId + 1 }

def listed : List Receipt := (w.receipts.take receiptListLimit).map Prod.snd

def hasRetirementDebt : Bool := w.listed.any (fun r => r.phase = .unregisterPending)

/-! ## Retiring a lease -/

def sendUnregister (pending : Receipt) (next : After) : World :=
  ((w.putReceipt pending).request .unregister pending.leaseId pending.identity).park
    (.retiring pending w.nextId next)

/-- `retireOwnerFenceLeaseReceipt` up to the answer of the fence; a receipt of another identity ends it. -/
def retire (r : Receipt) (next : After) : World :=
  match w.receipt r.leaseId with
  | some current =>
    if current.identity ≠ r.identity then
      -- a handler of the alarm that throws is run again
      match next with
      | .alarm _ => { w with alarm := true }
      | _ => w
    else w.sendUnregister { current with phase := .unregisterPending } next
  | none => w.sendUnregister { r with phase := .unregisterPending } next

def dropReceipt (pending : Receipt) : World :=
  if (w.receipt pending.leaseId).any (fun current => current.identity = pending.identity) then
    { w with receipts := InsertionMap.erase w.receipts pending.leaseId }
  else w

def dropSlot (pending : Receipt) : World :=
  if pending.runSlot ∧ InsertionMap.get? w.runSlots pending.identity = some pending.leaseId then
    { w with runSlots := InsertionMap.erase w.runSlots pending.identity }
  else w

def forget (pending : Receipt) : World := (w.dropReceipt pending).dropSlot pending

/-- `retireOwnerFenceLeaseByIdentity` up to its first await. -/
def unregister (identity : Identity) (leaseId : Nat) (generation : Option String) : World :=
  match w.receipt leaseId with
  | some r => if r.identity = identity then w.retire r .nothing else w
  | none => w.park (.identifying identity leaseId generation)

def identified (identity : Identity) (leaseId : Nat) (generation : Option String) : World :=
  let repaired : Receipt := ⟨identity, leaseId, .unregisterPending, generation,
    InsertionMap.get? w.runSlots identity = some leaseId, none⟩
  (w.putReceipt repaired).retire repaired .nothing

/-! ## Registering a lease -/

def chosenLease (call : Registration) : Nat :=
  if call.freshLease then w.nextId
  else (call.turn.ownerPurgeLeaseId.or (InsertionMap.get? w.runSlots call.turn.identity)).getD w.nextId

def receiptFor (call : Registration) (leaseId : Nat) : Receipt :=
  match w.receipt leaseId with
  | some current => { current with operationFingerprint := current.operationFingerprint.or call.operationFingerprint }
  | none => ⟨call.turn.identity, leaseId, .registering, call.turn.ownerPurgeGeneration, !call.freshLease,
      call.operationFingerprint⟩

def intend (call : Registration) (leaseId : Nat) (r : Receipt) : World :=
  let put := w.putReceipt r
  if call.freshLease then put
  else { put with runSlots := InsertionMap.set put.runSlots call.turn.identity leaseId }

/-- `registerOwnerTurn` up to the answer of the fence. -/
def register (call : Registration) : World :=
  let leaseId := w.chosenLease call
  let drawn := { w with nextId := w.nextId + 1 }
  if leaseId ∈ w.imported then drawn
  else if (w.receipt leaseId).any (fun r => r.identity ≠ call.turn.identity ||
      (r.operationFingerprint ≠ none && call.operationFingerprint ≠ none &&
        r.operationFingerprint ≠ call.operationFingerprint)) then drawn
  else if (w.receipt leaseId).any (fun r => r.phase = .registered && r.registrationGeneration ≠ none &&
      (call.operationFingerprint = none || r.operationFingerprint = call.operationFingerprint) &&
      (call.freshLease || InsertionMap.get? w.runSlots call.turn.identity = some leaseId)) then drawn
  else
    let r := w.receiptFor call leaseId
    let intended := drawn.intend call leaseId r
    if r.phase = .unregisterPending then
      intended.retire r (.register { call with turn :=
        { call.turn with ownerPurgeLeaseId := none, ownerPurgeGeneration := none } })
    else if r.phase = .registered ∧ r.registrationGeneration ≠ none then intended
    else (intended.request .register leaseId r.identity).park (.registering call r intended.nextId)

def rollBack (r : Receipt) : World :=
  (w.request .unregister r.leaseId r.identity).park (.rollback w.nextId)

def commit (r : Receipt) (generation : String) : World :=
  match w.receipt r.leaseId with
  | some current =>
    if current.phase = .unregisterPending ∨ r.leaseId ∈ w.imported ∨ current.identity ≠ r.identity then w.rollBack r
    else w.putReceipt { current with phase := .registered, registrationGeneration := some generation }
  | none => w.rollBack r

def dropIntent (call : Registration) (r : Receipt) : World :=
  match w.receipt r.leaseId with
  | some current =>
    if current.phase = .registering ∧ current.identity.turnId = call.turn.identity.turnId then
      { w with
        receipts := InsertionMap.erase w.receipts r.leaseId
        runSlots := if current.runSlot then InsertionMap.erase w.runSlots current.identity else w.runSlots }
    else w
  | none => w

/-! ## The alarm -/

def retryRetirements (rest : List Receipt) : World :=
  match rest.dropWhile (fun r => r.phase ≠ .unregisterPending) with
  | r :: rest => w.retire r (.alarm rest)
  | [] => if w.hasRetirementDebt then { w with alarm := true } else w

def goOn (done : Bool) : After → World
  | .nothing => w
  | .register call => if done then w.register call else w
  | .alarm rest => w.retryRetirements rest

def retired (pending : Receipt) (next : After) (answer : Option Answer) : World :=
  if answer = some .unregistered then (w.forget pending).goOn true next
  else { w with alarm := true }.goOn false next

/-! ## The fence -/

def answered (token : Nat) (answer : Answer) : World := { w with answers := (token, answer) :: w.answers }

def fenceRegister (q : Request) (generation : String) : World :=
  match InsertionMap.get? w.fence q.key with
  | some lease =>
    if lease.identity = q.identity ∧ lease.active then w.answered q.token (.registered generation)
    else w.answered q.token .refused
  | none =>
    { w with fence := InsertionMap.set w.fence q.key ⟨q.identity, true⟩ }.answered q.token (.registered generation)

def fenceUnregister (q : Request) : World :=
  match InsertionMap.get? w.fence q.key with
  | some lease =>
    if lease.active ∧ lease.identity ≠ q.identity then w.answered q.token .refused
    else { w with fence := InsertionMap.set w.fence q.key { lease with active := false } }.answered q.token .unregistered
  | none => w.answered q.token .unregistered

inductive Verdict
  | accept (generation : String)
  | skip
  | refuse
  deriving DecidableEq

def land (j : Nat) (verdict : Verdict) : World :=
  match w.inflight[j]? with
  | none => w
  | some q =>
    let taken := { w with inflight := w.inflight.eraseIdx j }
    match verdict, q.op with
    | .accept generation, .register => taken.fenceRegister q generation
    | .accept _, .unregister => taken.fenceUnregister q
    | .skip, .register => taken.answered q.token .skipped
    | _, _ => taken.answered q.token .refused

def expire (key : String × Nat) : World :=
  match InsertionMap.get? w.fence key with
  | some lease => { w with fence := InsertionMap.set w.fence key { lease with active := false } }
  | none => w

def dropTask (i : Nat) : World := { w with tasks := w.tasks.eraseIdx i }

def proceed (i : Nat) (lost : Bool) : World :=
  match w.tasks[i]? with
  | none => w
  | some task =>
    let gone := w.dropTask i
    let answerOf := fun token => if lost then none else (w.answers.find? (fun a => a.1 = token)).map Prod.snd
    match task with
    | .registering call r token =>
      match answerOf token with
      | some (.registered generation) => gone.commit r generation
      | some .skipped => if call.combined then gone.dropIntent call r else gone
      | some _ => gone
      | none => if lost then gone else w
    | .rollback _ => gone
    | .retiring pending token next =>
      match answerOf token with
      | some answer => gone.retired pending next (some answer)
      | none => if lost then gone.retired pending next none else w
    | .identifying identity leaseId generation => gone.identified identity leaseId generation

end World

inductive Input
  | register (call : Registration)
  | unregister (turn : OwnerFencedTurn)
  /-- A purge cancels a lease, and retires it here and now or leaves that to the turn it stops. -/
  | purgeCancel (identity : Identity) (leaseId : Nat) (generation : String) (retires : Bool)
  | alarm
  /-- Other work is done with the alarm, or sets it. -/
  | deleteAlarm
  | setAlarm
  | lands (j : Nat) (verdict : World.Verdict)
  | vanishes (j : Nat)
  | expires (key : String × Nat)
  | proceed (i : Nat) (lost : Bool)
  /-- The isolate is replaced: its handlers are gone; the handler of an alarm is run again. -/
  | replaced

def Task.alarming : Task → Bool
  | .retiring _ _ (.alarm _) => true
  | _ => false

def World.step (w : World) : Input → World
  | .register call => w.register call
  | .unregister turn =>
    match turn.ownerPurgeLeaseId with
    | some leaseId => w.unregister turn.identity leaseId turn.ownerPurgeGeneration
    | none => w
  | .purgeCancel identity leaseId generation retires =>
    let canceled := { w with imported := w.imported ++ [leaseId] }
    if retires then canceled.unregister identity leaseId (some generation) else canceled
  | .alarm => if w.alarm then { w with alarm := false }.retryRetirements w.listed else w
  | .deleteAlarm => if w.hasRetirementDebt then { w with alarm := true } else { w with alarm := false }
  | .setAlarm => { w with alarm := true }
  | .lands j verdict => w.land j verdict
  | .vanishes j => { w with inflight := w.inflight.eraseIdx j }
  | .expires key => w.expire key
  | .proceed i lost => w.proceed i lost
  | .replaced => { w with tasks := [], alarm := w.alarm || w.tasks.any Task.alarming }

end Stella.OwnerLeases
