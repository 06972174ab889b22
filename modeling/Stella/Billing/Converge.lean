import Stella.Billing.Stripe
import Stella.Library.Transition

/-! # The plan and what Stripe holds

Stripe changes subscriptions while events about them are handled, each in a call that waits for
its fetch.
-/

namespace Stella.Billing

open Stella.Transition List

structure Call where
  now : Int
  event : StripeEvent
  subscriptionId : String
  answer : Option StripeSubscription
  /-- The subscription has not changed since the fetch was issued. -/
  fresh : Bool

structure World where
  customer : String
  held : String → Option StripeSubscription
  db : Db
  calls : List Call
  /-- Of these an event is handled whose fetch was issued after their last change. -/
  told : List String

inductive Input
  | change (subscription : StripeSubscription)
  | deliver (now : Int) (event : StripeEvent)
  | read (i : Nat)
  | fail (i : Nat)
  | finish (i : Nat)

def Db.plan (db : Db) : Plan := (db.account.map AccountRow.plan).getD .free

def Db.recorded (db : Db) : Option String := db.account.bind AccountRow.stripeSubscriptionId

def Db.customer (db : Db) : Option String := db.account.bind AccountRow.stripeCustomerId

namespace World

variable (config : Config)

def change (w : World) (subscription : StripeSubscription) : World :=
  if subscription.customer = w.customer then
    { w with
      held := fun id => if id = subscription.id then some subscription else w.held id
      calls := w.calls.map (fun call =>
        if call.subscriptionId = subscription.id then { call with fresh := false } else call)
      told := w.told.filter (· ≠ subscription.id) }
  else w

def deliver (w : World) (now : Int) (event : StripeEvent) : World :=
  match w.db.beginStripeEvent now event with
  | .inl db => { w with db }
  | .inr subscriptionId => { w with calls := w.calls ++ [⟨now, event, subscriptionId, none, true⟩] }

def readCall (w : World) (call : Call) : Call :=
  if call.answer = none then { call with answer := w.held call.subscriptionId } else call

def read (w : World) (i : Nat) : World := { w with calls := w.calls.modify i w.readCall }

def finish (w : World) (i : Nat) : World :=
  match w.calls[i]? with
  | none => w
  | some call =>
    match call.answer with
    | none => w
    | some answer =>
      { w with
        db := w.db.finishStripeEvent config call.now call.event answer
        calls := w.calls.eraseIdx i
        told := if call.fresh then call.subscriptionId :: w.told else w.told }

def step (w : World) : Input → World
  | .change subscription => w.change subscription
  | .deliver now event => w.deliver now event
  | .read i => w.read i
  | .fail i => { w with calls := w.calls.eraseIdx i }
  | .finish i => w.finish config i

def live (w : World) (id : String) : Bool :=
  (w.held id).any (fun subscription => subscriptionPlan config subscription ≠ .free)

def Converged (w : World) : Prop :=
  w.calls = [] → (∀ id, w.held id ≠ none → id ∈ w.told) → (w.db.plan ≠ .free ↔ ∃ id, w.live config id = true)

def takes (w : World) (call : Call) (answer : StripeSubscription) : Bool :=
  !keepsRecorded config (w.db.readAccount call.now) answer

def keepsTold (w : World) : Input → Bool
  | .finish i => w.calls[i]?.all fun call => call.answer.all fun answer => !w.takes config call answer ||
      ((call.subscriptionId ∉ w.told || decide (subscriptionPlan config answer ≠ .free) = w.live config call.subscriptionId) &&
        (w.db.plan = .free || subscriptionPlan config answer ≠ .free ||
          w.told.all (fun id => id = call.subscriptionId || !w.live config id)))
  | .deliver _ ⟨id, .customerDeleted _⟩ => w.db.seen id || w.told.all (fun id => !w.live config id)
  | _ => true

structure Starts (w : World) : Prop where
  named : ∀ id subscription, w.held id = some subscription → subscription.id = id ∧ subscription.customer = w.customer
  free : w.db.plan = .free
  customers : ∀ customer ∈ w.db.customer, customer = w.customer
  idle : w.calls = []
  untold : w.told = []

def Faithful (w : World) (call : Call) : Prop :=
  call.subscriptionId ≠ "" ∧ ∀ answer ∈ call.answer, answer.id = call.subscriptionId ∧ answer.customer = w.customer ∧
    w.held call.subscriptionId ≠ none ∧ (call.fresh = true → w.held call.subscriptionId = some answer)

/-- The plan follows what was told: a live subscription that was told makes it paid, and it is paid for
the recorded one. -/
structure Follows (w : World) : Prop where
  named : ∀ id subscription, w.held id = some subscription → subscription.id = id ∧ subscription.customer = w.customer
  customers : ∀ customer ∈ w.db.customer, customer = w.customer
  calls : ∀ call ∈ w.calls, w.Faithful call
  paid : ∀ id ∈ w.told, w.live config id = true → w.db.plan ≠ .free
  recorded : w.db.plan ≠ .free → ∃ id, id ≠ "" ∧ w.db.recorded = some id ∧ w.held id ≠ none ∧
    (id ∈ w.told → w.live config id = true)

end World

/-! ## What an event leaves of the ledger -/

namespace Db

variable {db : Db} {now : Int}

@[simp] theorem readAccount_plan : (db.readAccount now).plan = db.plan := by
  unfold readAccount plan
  cases db.account <;> rfl

@[simp] theorem readAccount_recorded : (db.readAccount now).stripeSubscriptionId = db.recorded := by
  unfold readAccount recorded
  cases db.account <;> rfl

@[simp] theorem readAccount_customer : (db.readAccount now).stripeCustomerId = db.customer := by
  unfold readAccount customer
  cases db.account <;> rfl

structure SameSubscription (db db' : Db) : Prop where
  plan : db'.plan = db.plan
  recorded : db'.recorded = db.recorded
  customer : db'.customer = db.customer

theorem sameSubscription_recordEvent (db : Db) (now : Int) (id : String) : SameSubscription db (db.recordEvent now id) := by
  unfold recordEvent
  split <;> exact ⟨rfl, rfl, rfl⟩

theorem sameSubscription_setAccount : SameSubscription db (db.setAccount (db.readAccount now)) :=
  ⟨readAccount_plan, readAccount_recorded, readAccount_customer⟩

theorem sameSubscription_purchaseCredit (sessionId : String) (cents : Int) :
    SameSubscription db (db.purchaseCredit now sessionId cents) := by
  unfold purchaseCredit
  split
  · exact ⟨rfl, rfl, rfl⟩
  · exact ⟨readAccount_plan, readAccount_recorded, readAccount_customer⟩

theorem SameSubscription.trans {db' db'' : Db} (h : SameSubscription db db') (h' : SameSubscription db' db'') :
    SameSubscription db db'' :=
  ⟨h'.plan.trans h.plan, h'.recorded.trans h.recorded, h'.customer.trans h.customer⟩

theorem finishStripeEvent_cases (config : Config) (now : Int) (event : StripeEvent) (answer : StripeSubscription)
    (hCustomer : ∀ customer ∈ db.customer, customer = answer.customer) :
    (keepsRecorded config (db.readAccount now) answer = true ∧
      SameSubscription db (db.finishStripeEvent config now event answer)) ∨
    (keepsRecorded config (db.readAccount now) answer = false ∧
      (db.finishStripeEvent config now event answer).plan = subscriptionPlan config answer ∧
      (db.finishStripeEvent config now event answer).recorded = some answer.id ∧
      (db.finishStripeEvent config now event answer).customer = some answer.customer) := by
  have hOwn : ¬ (db.customer.any (fun customer => customer ≠ "" ∧ answer.customer ≠ customer)) = true := by
    cases hRow : db.customer with
    | none => simp
    | some customer => simp [hCustomer customer hRow]
  have hRec := sameSubscription_recordEvent (db.syncSubscription config now answer) now event.id
  unfold finishStripeEvent
  have hSync : db.syncSubscription config now answer =
      if keepsRecorded config (db.readAccount now) answer then db.setAccount (db.readAccount now)
      else db.setAccount (subscribedRow config now (db.readAccount now) answer) := by
    unfold syncSubscription
    dsimp only
    rw [readAccount_customer, if_neg hOwn]
  cases hKeeps : keepsRecorded config (db.readAccount now) answer with
  | true =>
    rw [hKeeps, if_pos rfl] at hSync
    rw [hSync] at hRec ⊢
    exact .inl ⟨rfl, sameSubscription_setAccount.trans hRec⟩
  | false =>
    rw [hKeeps, if_neg Bool.false_ne_true] at hSync
    rw [hSync] at hRec ⊢
    exact .inr ⟨rfl, hRec.plan, hRec.recorded, hRec.customer⟩

theorem closeCustomer_cases (db : Db) (now : Int) (customer : String) : SameSubscription db (db.closeCustomer now customer) ∨
    ((db.closeCustomer now customer).plan = .free ∧ (db.closeCustomer now customer).customer = none) := by
  unfold closeCustomer
  dsimp only
  split
  · exact .inr ⟨rfl, rfl⟩
  · exact .inl sameSubscription_setAccount

theorem beginStripeEvent_cases {event : StripeEvent} {db' : Db} (h : db.beginStripeEvent now event = .inl db') :
    SameSubscription db db' ∨
      ((∃ customer, event.object = .customerDeleted customer) ∧ db.seen event.id = false ∧
        db'.plan = .free ∧ db'.customer = none) := by
  unfold beginStripeEvent at h
  split at h
  · obtain rfl := Sum.inl.inj h
    exact .inl ⟨rfl, rfl, rfl⟩
  · next hSeen =>
    split at h
    · obtain rfl := Sum.inl.inj h
      left
      split
      · exact (sameSubscription_purchaseCredit _ _).trans (sameSubscription_recordEvent _ _ _)
      · exact sameSubscription_recordEvent _ _ _
    · split at h
      · obtain rfl := Sum.inl.inj h
        exact .inl (sameSubscription_recordEvent _ _ _)
      · cases h
    · obtain rfl := Sum.inl.inj h
      exact .inl (sameSubscription_recordEvent _ _ _)
    · next customer hObj =>
      obtain rfl := Sum.inl.inj h
      have hRec := sameSubscription_recordEvent (db.closeCustomer now customer) now event.id
      obtain hEq | ⟨hPlan, hNone⟩ := closeCustomer_cases db now customer
      · exact .inl (hEq.trans hRec)
      · exact .inr ⟨⟨customer, hObj⟩, Bool.eq_false_iff.mpr hSeen, hRec.plan.trans hPlan,
          hRec.customer.trans hNone⟩
    · obtain rfl := Sum.inl.inj h
      exact .inl (sameSubscription_recordEvent _ _ _)

theorem beginStripeEvent_fetches {event : StripeEvent} {id : String} (h : db.beginStripeEvent now event = .inr id) :
    id ≠ "" := by
  unfold beginStripeEvent at h
  split at h
  · cases h
  · split at h
    · cases h
    · split at h
      · cases h
      · next hId =>
        obtain rfl := Sum.inr.inj h
        exact hId
    · cases h
    · cases h
    · cases h

end Db

/-! ## Steps -/

namespace World

variable {config : Config} {w : World}

theorem Follows.of_starts (h : w.Starts) : w.Follows config := by
  refine ⟨h.named, h.customers, fun call hCall => ?_, fun id hTold => ?_, fun hPaid => absurd h.free hPaid⟩
  · rw [h.idle] at hCall
    cases hCall
  · rw [h.untold] at hTold
    cases hTold

section

variable (h : w.Follows config)
include h

theorem Follows.change (subscription : StripeSubscription) :
    (w.change subscription).Follows config := by
  unfold World.change
  split
  · next hCustomer =>
    have hLive : ∀ id, id ≠ subscription.id → ((if id = subscription.id then some subscription else w.held id) = w.held id) :=
      fun id hOther => if_neg hOther
    refine ⟨fun id held hHeld => ?_, h.customers, fun call hCall => ?_, fun id hTold hIs => ?_, fun hPaid => ?_⟩
    · dsimp only at hHeld
      split at hHeld
      · next hId =>
        obtain rfl := Option.some.inj hHeld
        exact ⟨hId.symm, hCustomer⟩
      · exact h.named id held hHeld
    · obtain ⟨before, hBef, rfl⟩ := mem_map.mp hCall
      obtain ⟨hName, hAns⟩ := h.calls before hBef
      split
      · next hId =>
        refine ⟨hName, fun answer hIn => ?_⟩
        obtain ⟨hAnswerId, hOwner, -⟩ := hAns answer hIn
        exact ⟨hAnswerId, hOwner, by simp [hId], fun hFresh => Bool.noConfusion hFresh⟩
      · next hId =>
        refine ⟨hName, fun answer hIn => ?_⟩
        obtain ⟨hAnswerId, hOwner, hHeld, hFresh⟩ := hAns answer hIn
        dsimp only
        rw [hLive _ hId]
        exact ⟨hAnswerId, hOwner, hHeld, hFresh⟩
    · obtain ⟨hTold, hOther⟩ := mem_filter.mp hTold
      have hOther : id ≠ subscription.id := of_decide_eq_true hOther
      unfold live at hIs
      dsimp only at hIs
      rw [hLive id hOther] at hIs
      exact h.paid id hTold hIs
    · obtain ⟨id, hName, hRecorded, hHeld, hKnown⟩ := h.recorded hPaid
      refine ⟨id, hName, hRecorded, ?_, fun hTold => ?_⟩
      · dsimp only
        split
        · exact Option.some_ne_none _
        · exact hHeld
      · obtain ⟨hTold, hOther⟩ := mem_filter.mp hTold
        have hOther : id ≠ subscription.id := of_decide_eq_true hOther
        unfold live
        dsimp only
        rw [hLive id hOther]
        exact hKnown hTold
  · exact h

theorem Follows.of_same {db : Db} (hEq : Db.SameSubscription w.db db) :
    ({ w with db } : World).Follows config := by
  refine ⟨h.named, fun customer hIn => h.customers customer (hEq.customer ▸ hIn), h.calls, fun id hTold hIs => ?_,
    fun hPaid => ?_⟩
  · rw [hEq.plan]
    exact h.paid id hTold hIs
  · dsimp only at hPaid ⊢
    rw [hEq.plan] at hPaid
    rw [hEq.recorded]
    exact h.recorded hPaid

theorem Follows.deliver (now : Int) (event : StripeEvent)
    (hKeeps : w.keepsTold config (.deliver now event) = true) : (w.deliver now event).Follows config := by
  unfold World.deliver
  split
  · next db hBegin =>
    obtain hEq | ⟨⟨customer, hObj⟩, hSeen, hPlan, hNone⟩ := Db.beginStripeEvent_cases hBegin
    · exact h.of_same hEq
    · obtain ⟨id, object⟩ := event
      obtain rfl : object = .customerDeleted customer := hObj
      have hEnded : ∀ id ∈ w.told, w.live config id = false := by
        have hBoth : (w.db.seen id || w.told.all (fun id => !w.live config id)) = true := hKeeps
        have hNew : w.db.seen id = false := hSeen
        rw [hNew, Bool.false_or] at hBoth
        simpa using hBoth
      refine ⟨h.named, fun customer hIn => ?_, h.calls, fun id hTold hIs => ?_, fun hPaid => absurd hPlan hPaid⟩
      · dsimp only at hIn
        rw [hNone] at hIn
        cases hIn
      · have hDead := hEnded id hTold
        exact absurd (hIs.symm.trans hDead) Bool.noConfusion
  · next id hBegin =>
    refine ⟨h.named, h.customers, fun call hCall => ?_, h.paid, h.recorded⟩
    obtain hOld | hNew := mem_append.mp hCall
    · exact h.calls call hOld
    · obtain rfl := mem_singleton.mp hNew
      exact ⟨Db.beginStripeEvent_fetches hBegin, fun answer hIn => by cases hIn⟩

theorem Follows.read (i : Nat) : (w.read i).Follows config := by
  have hRead : ∀ call, w.Faithful call → w.Faithful (w.readCall call) := by
    intro call hFaithful
    unfold readCall
    split
    · refine ⟨hFaithful.1, fun answer hIn => ?_⟩
      have hHeld : w.held call.subscriptionId = some answer := hIn
      obtain ⟨hId, hOwner⟩ := h.named _ _ hHeld
      exact ⟨hId, hOwner, by simp [hHeld], fun _ => hHeld⟩
    · exact hFaithful
  refine ⟨h.named, h.customers, fun call hCall => ?_, h.paid, h.recorded⟩
  have hIn : call ∈ w.calls.modify i w.readCall := hCall
  obtain ⟨j, hj, hGet⟩ := mem_iff_getElem.mp hIn
  have hOld : j < w.calls.length := by simpa using hj
  have hBef := h.calls _ (getElem_mem hOld)
  rw [getElem_modify] at hGet
  rw [← hGet]
  split
  · exact hRead _ hBef
  · exact hBef

theorem Follows.finish (i : Nat) (hKeeps : w.keepsTold config (.finish i) = true) :
    (w.finish config i).Follows config := by
  unfold World.finish
  split
  · exact h
  · next call hCall =>
    split
    · exact h
    · next answer hAns =>
      have hRest : ∀ other ∈ w.calls.eraseIdx i, w.Faithful other := fun other hIn =>
        h.calls other (mem_of_mem_eraseIdx hIn)
      obtain ⟨hName, hFaithful⟩ := h.calls call (mem_of_getElem? hCall)
      obtain ⟨hId, hOwner, hHeld, hFresh⟩ := hFaithful answer hAns
      have hTold : ∀ id ∈ (if call.fresh then call.subscriptionId :: w.told else w.told),
          id ∈ w.told ∨ id = call.subscriptionId ∧ w.held id = some answer := by
        intro id hIn
        split at hIn
        · next hNew =>
          obtain rfl | hIn := mem_cons.mp hIn
          · exact .inr ⟨rfl, hFresh hNew⟩
          · exact .inl hIn
        · exact .inl hIn
      have hAnswerLive : ∀ id, w.held id = some answer →
          w.live config id = decide (subscriptionPlan config answer ≠ .free) := by
        intro id hIs
        unfold live
        rw [hIs]
        rfl
      have hCustomer : ∀ customer ∈ w.db.customer, customer = answer.customer := fun customer hIn =>
        (h.customers customer hIn).trans hOwner.symm
      obtain ⟨hSetAside, hEq⟩ | ⟨hTakes, hPlan, hRecorded, hNow⟩ :=
        Db.finishStripeEvent_cases config call.now call.event answer hCustomer
      · have hPaid : w.db.plan ≠ .free ∧ ∀ id ∈ w.db.recorded, id ≠ answer.id := by
          unfold keepsRecorded at hSetAside
          rw [Db.readAccount_recorded, Db.readAccount_plan] at hSetAside
          simp only [Bool.and_eq_true, decide_eq_true_eq] at hSetAside
          obtain ⟨⟨hOther, -⟩, hPaid⟩ := hSetAside
          refine ⟨hPaid, fun id hIn => ?_⟩
          rw [Option.mem_def.mp hIn] at hOther
          simp only [Option.any_some, decide_eq_true_eq] at hOther
          exact hOther.2
        refine ⟨h.named, fun customer hIn => h.customers customer (hEq.customer ▸ hIn), hRest, fun id _ _ => ?_,
          fun _ => ?_⟩
        · dsimp only
          rw [hEq.plan]
          exact hPaid.1
        · obtain ⟨id, hReal, hRecorded, hKept, hKnown⟩ := h.recorded hPaid.1
          refine ⟨id, hReal, hEq.recorded.trans hRecorded, hKept, fun hIn => ?_⟩
          obtain hIn | ⟨hThis, -⟩ := hTold id hIn
          · exact hKnown hIn
          · exact absurd (hThis.trans hId.symm) (hPaid.2 id hRecorded)
      · have hCond : (call.subscriptionId ∈ w.told →
              decide (subscriptionPlan config answer ≠ .free) = w.live config call.subscriptionId) ∧
            (w.db.plan = .free ∨ subscriptionPlan config answer ≠ .free ∨
              ∀ id ∈ w.told, id = call.subscriptionId ∨ w.live config id = false) := by
          unfold keepsTold takes at hKeeps
          dsimp only at hKeeps
          rw [hCall, Option.all_some, hAns, Option.all_some, hTakes] at hKeeps
          simp only [Bool.not_false, Bool.not_true, Bool.false_or, Bool.and_eq_true, Bool.or_eq_true,
            decide_eq_true_eq, all_eq_true, Bool.not_eq_true', or_assoc] at hKeeps
          exact ⟨fun hIn => hKeeps.1.resolve_left fun hNot => hNot hIn, hKeeps.2⟩
        have hKnown : call.subscriptionId ∈ (if call.fresh then call.subscriptionId :: w.told else w.told) →
            decide (subscriptionPlan config answer ≠ .free) = w.live config call.subscriptionId := by
          intro hIn
          obtain hIn | ⟨-, hIs⟩ := hTold _ hIn
          · exact hCond.1 hIn
          · exact (hAnswerLive _ hIs).symm
        refine ⟨h.named, fun customer hIn => ?_, hRest, fun id hIn hIs => ?_, fun hPaid => ?_⟩
        · dsimp only at hIn
          rw [hNow] at hIn
          exact Option.some.inj hIn ▸ hOwner
        · dsimp only
          rw [hPlan]
          intro hEnds
          by_cases hThis : id = call.subscriptionId
          · subst hThis
            have hDead := hKnown hIn
            rw [hEnds] at hDead
            exact absurd (hDead.trans hIs) (by decide)
          · obtain hIn | ⟨hEq, -⟩ := hTold id hIn
            · obtain hFree | hPaid | hDead := hCond.2
              · exact h.paid id hIn hIs hFree
              · exact hPaid hEnds
              · obtain hEq | hDead := hDead id hIn
                · exact hThis hEq
                · exact absurd (hIs.symm.trans hDead) Bool.noConfusion
            · exact hThis hEq
        · dsimp only at hPaid
          rw [hPlan] at hPaid
          refine ⟨call.subscriptionId, hName, hRecorded.trans (congrArg some hId), hHeld, fun hIn => ?_⟩
          exact (hKnown hIn).symm.trans (decide_eq_true hPaid)

theorem Follows.step (input : Input) (hKeeps : w.keepsTold config input = true) :
    (w.step config input).Follows config := by
  cases input with
  | change subscription => exact h.change subscription
  | deliver now event => exact h.deliver now event hKeeps
  | read i => exact h.read i
  | fail i =>
    refine ⟨h.named, h.customers, fun call hCall => ?_, h.paid, h.recorded⟩
    exact h.calls call (mem_of_mem_eraseIdx hCall)
  | finish i => exact h.finish i hKeeps

theorem Follows.converged : w.Converged config := by
  intro _ hTold
  constructor
  · intro hPaid
    obtain ⟨id, -, -, hHeld, hKnown⟩ := h.recorded hPaid
    exact ⟨id, hKnown (hTold id hHeld)⟩
  · rintro ⟨id, hIs⟩
    refine h.paid id (hTold id fun hNone => ?_) hIs
    unfold live at hIs
    rw [hNone] at hIs
    cases hIs

end

end World

/-- Where no taken answer contradicts a later one and no known live subscription is forgotten, the plan
converges. -/
theorem converged_of_run (config : Config) {w : World} (h : w.Starts) {inputs : List Input}
    (hRun : Along (World.step config) (fun w input => w.keepsTold config input = true) w inputs) :
    (run (World.step config) w inputs).Converged config := by
  have hStep : ∀ (w : World) (input : Input), w.Follows config → w.keepsTold config input = true →
      (w.step config input).Follows config := fun _ input hFollows hKeeps => hFollows.step input hKeeps
  exact (run_invariant hStep (World.Follows.of_starts h) hRun).converged

/-! ## Two subscriptions -/

def goConfig : Config where
  enabled := true
  plans := fun _ => ⟨1, 5, 2, 4, none⟩
  anonymous := ⟨1, 5, 1, 1, some 1⟩
  freeEmailAllowanceShare := 2 / 5
  stripePriceGo := "price_go"
  stripePricePro := "price_pro"

def subscriptionOf (id status : String) : StripeSubscription :=
  ⟨id, status, "cus_1", false, some "price_go", some 1, some 2, none⟩

def newWorld : World := ⟨"cus_1", fun _ => none, emptyDb, [], []⟩

def handled (eventId id : String) : List Input :=
  [.deliver 1000 ⟨eventId, .subscription (some id)⟩, .read 0, .finish 0]

def recordedEnds : List Input :=
  .change (subscriptionOf "sub_1" "active") :: handled "evt_1" "sub_1" ++
    .change (subscriptionOf "sub_2" "active") :: handled "evt_2" "sub_2" ++
    .change (subscriptionOf "sub_2" "canceled") :: handled "evt_3" "sub_2"

theorem starts_newWorld : newWorld.Starts where
  named := by
    intro id subscription hNone
    cases hNone
  free := rfl
  customers := by
    intro customer hNone
    cases hNone
  idle := rfl
  untold := rfl

/-- The first stays live and was told, and the plan is free. -/
theorem live_forgotten : let w := run (World.step goConfig) newWorld recordedEnds
    newWorld.Starts ∧ w.calls = [] ∧ (∀ id, w.held id ≠ none → id ∈ w.told) ∧
      w.live goConfig "sub_1" = true ∧ w.db.plan = .free ∧ ¬ w.Converged goConfig := by
  intro w
  have hCalls : w.calls = [] := by decide
  have hAll : ∀ id, w.held id ≠ none → id ∈ w.told := by
    intro id hHeld
    have hTold : w.told = ["sub_2", "sub_1"] := by decide
    have hNamed : w.held id = if id = "sub_2" then some (subscriptionOf "sub_2" "canceled")
        else if id = "sub_2" then some (subscriptionOf "sub_2" "active")
        else if id = "sub_1" then some (subscriptionOf "sub_1" "active") else none := rfl
    rw [hTold]
    by_contra hOther
    simp only [mem_cons, not_mem_nil, or_false, not_or] at hOther
    rw [hNamed, if_neg hOther.1, if_neg hOther.1, if_neg hOther.2] at hHeld
    exact hHeld rfl
  have hLive : w.live goConfig "sub_1" = true := by decide
  have hFree : w.db.plan = .free := by decide
  exact ⟨starts_newWorld, hCalls, hAll, hLive, hFree, fun h => (h hCalls hAll).mpr ⟨_, hLive⟩ hFree⟩

def otherEnds : List Input :=
  .change (subscriptionOf "sub_1" "active") :: handled "evt_1" "sub_1" ++
    .change (subscriptionOf "sub_2" "active") :: handled "evt_2" "sub_2" ++
    .change (subscriptionOf "sub_1" "canceled") :: handled "evt_3" "sub_1"

theorem otherEnds_converged : (run (World.step goConfig) newWorld otherEnds).Converged goConfig :=
  converged_of_run goConfig starts_newWorld (by decide)

end Stella.Billing
