import Stella.AgentRecords.Model

/-! # No record is lost or reordered

A row leaves the outbox with a reason; what an answer deletes is what was sent, as
long as the row has not been rewritten under the delivery.
-/

namespace Stella.AgentRecords

open Stella.Transition List

def Removal.Justified (w : World) (x : Removal) : Prop :=
  match x.reason with
  | .acknowledged entry => entry ∈ w.acknowledged ∧ entry.id = x.row.id ∧ entry.payloadJson = x.row.payloadJson ∧
      entry.ownerScope = x.row.ownerScope
  | .refused entry => (∃ s ∈ w.sent, s.entry = entry) ∧ entry.id = x.row.id ∧ entry.payloadJson = x.row.payloadJson ∧
      entry.ownerScope = x.row.ownerScope
  | .retired => ∃ owner ∈ w.retired, World.inEpoch owner x.row = true
  | .unowned => False

/-- Every record written is in the outbox or has been answered for; the records of a thread go out in the order
they were first written, each under its own account; `create` resolves on the answer to its start. -/
structure Safe (w : World) : Prop where
  kept : ∀ s < w.sequence, (∃ r ∈ w.rows, r.sequence = s) ∨ ∃ x ∈ w.removals, x.row.sequence = s ∧ x.Justified w
  ordered : w.sent.Pairwise (fun a b => a.entry.id.threadId = b.entry.id.threadId → a.entry.sequence ≤ b.entry.sequence)
  identity : ∀ s ∈ w.sent, s.identity ≠ none ∧ s.entry.ownerScope = s.identity
  created : ∀ id ∈ w.created, id.kind = .start ∧ ∃ entry ∈ w.acknowledged, entry.id = id

def answersLatest (w : World) : Input → Bool
  | .delivered outcome _ =>
    match w.active with
    | some (.delivering entry _) =>
      !(outcome = .acknowledged || (outcome = .startRejected && entry.id.kind = .start)) ||
        w.rows.all (fun r => r.id ≠ entry.id || (r.payloadJson = entry.payloadJson && r.ownerScope = entry.ownerScope))
    | _ => true
  | _ => true

structure RowsKept (w : World) : Prop where
  kept : ∀ s < w.sequence, (∃ r ∈ w.rows, r.sequence = s) ∨ ∃ x ∈ w.removals, x.row.sequence = s ∧ x.Justified w
  ordered : w.sent.Pairwise (fun a b => a.entry.id.threadId = b.entry.id.threadId → a.entry.sequence ≤ b.entry.sequence)
  identity : ∀ s ∈ w.sent, s.identity ≠ none ∧ s.entry.ownerScope = s.identity
  sorted : w.rows.Pairwise (fun r r' => r.sequence < r'.sequence)
  below : ∀ r ∈ w.rows, r.sequence < w.sequence
  owned : ∀ r ∈ w.rows, ∀ scope, r.ownerScope = some scope →
    w.threadAuthority r.id.threadId = some ⟨scope, r.id.ownerGeneration⟩
  sentBelow : ∀ s ∈ w.sent, s.entry.sequence < w.sequence
  sentFirst : ∀ s ∈ w.sent, ∀ r ∈ w.rows, r.ownerScope ≠ none → r.id.threadId = s.entry.id.threadId →
    s.entry.sequence ≤ r.sequence

def FlightKept (w : World) : Prop :=
  ∀ entry scope, w.active = some (.delivering entry scope) →
    entry.ownerScope = some scope ∧ ∃ s ∈ w.sent, s.entry = entry

structure CallsKept (w : World) : Prop where
  waiting : ∀ c ∈ w.calls, c.waiter ≠ none → c.id.kind = .start
  told : ∀ c ∈ w.calls, c.waiter = some .acknowledged → ∃ entry ∈ w.acknowledged, entry.id = c.id
  created : ∀ id ∈ w.created, id.kind = .start ∧ ∃ entry ∈ w.acknowledged, entry.id = id

structure Kept (w : World) : Prop where
  rows : RowsKept w
  flight : FlightKept w
  calls : CallsKept w

variable {w w' : World}

theorem Kept.safe (h : Kept w) : Safe w := ⟨h.rows.kept, h.rows.ordered, h.rows.identity, h.calls.created⟩

/-! ## Rows -/

theorem Removal.Justified.mono {x : Removal} (h : x.Justified w) (hAck : w.acknowledged ⊆ w'.acknowledged)
    (hSent : w.sent ⊆ w'.sent) (hRet : w.retired ⊆ w'.retired) : x.Justified w' := by
  unfold Removal.Justified at h ⊢
  split
  · next hReason =>
    rw [hReason] at h
    exact ⟨hAck h.1, h.2⟩
  · next hReason =>
    rw [hReason] at h
    obtain ⟨⟨s, hs, hEnt⟩, hRest⟩ := h
    exact ⟨⟨s, hSent hs, hEnt⟩, hRest⟩
  · next hReason =>
    rw [hReason] at h
    obtain ⟨owner, hOwner, hEpoch⟩ := h
    exact ⟨owner, hRet hOwner, hEpoch⟩
  · next hReason =>
    rw [hReason] at h
    exact h

section

variable (h : RowsKept w)
include h

theorem RowsKept.congr (hRows : w'.rows = w.rows) (hSequence : w'.sequence = w.sequence)
    (hOwners : w'.owners = w.owners) (hRet : w'.retired = w.retired) (hRemovals : w'.removals = w.removals)
    (hSent : w'.sent = w.sent) (hAck : w.acknowledged ⊆ w'.acknowledged) : RowsKept w' := by
  have hAuth : ∀ t, w'.threadAuthority t = w.threadAuthority t := by
    intro t
    unfold World.threadAuthority World.ownerOf
    rw [hOwners]
  refine ⟨?_, hSent ▸ h.ordered, hSent ▸ h.identity, hRows ▸ h.sorted, ?_, ?_, ?_, ?_⟩
  · intro s hs
    rw [hRows, hRemovals]
    refine (h.kept s (hSequence ▸ hs)).imp_right fun ⟨x, hx, hAt, hJust⟩ => ⟨x, hx, hAt, ?_⟩
    exact hJust.mono hAck (hSent ▸ List.Subset.refl _) (hRet ▸ List.Subset.refl _)
  · rw [hRows, hSequence]
    exact h.below
  · rw [hRows]
    intro r hr scope hScope
    rw [hAuth]
    exact h.owned r hr scope hScope
  · rw [hSent, hSequence]
    exact h.sentBelow
  · rw [hSent, hRows]
    exact h.sentFirst

theorem RowsKept.map {f : OutboxRow → OutboxRow} (hSequence : ∀ r, (f r).sequence = r.sequence)
    (hId : ∀ r, (f r).id = r.id) (hScope : ∀ r, (f r).ownerScope = r.ownerScope) :
    RowsKept { w with rows := w.rows.map f } where
  kept s hs := by
    obtain ⟨r, hr, hAt⟩ | hGone := h.kept s hs
    · exact .inl ⟨f r, mem_map_of_mem hr, (hSequence r).trans hAt⟩
    · exact .inr hGone
  ordered := h.ordered
  identity := h.identity
  sorted := by
    rw [pairwise_map]
    exact h.sorted.imp fun hLt => by rwa [hSequence, hSequence]
  below r' hr' := by
    obtain ⟨r, hr, rfl⟩ := mem_map.mp hr'
    rw [hSequence]
    exact h.below r hr
  owned r' hr' scope hAt := by
    obtain ⟨r, hr, rfl⟩ := mem_map.mp hr'
    rw [hId]
    exact h.owned r hr scope (hScope r ▸ hAt)
  sentBelow := h.sentBelow
  sentFirst s hs r' hr' hSome hThr := by
    obtain ⟨r, hr, rfl⟩ := mem_map.mp hr'
    rw [hSequence]
    exact h.sentFirst s hs r hr (hScope r ▸ hSome) (hId r ▸ hThr)

theorem RowsKept.remove {gone : OutboxRow → Bool} {reason : Reason} {retired : List ThreadOwner}
    (hRet : w.retired ⊆ retired)
    (hJust : ∀ r ∈ w.rows, gone r = true → Removal.Justified { w with retired } ⟨r, reason⟩) :
    RowsKept { w.remove gone reason with retired } where
  kept s hs := by
    obtain ⟨r, hr, hAt⟩ | ⟨x, hx, hAt, hOld⟩ := h.kept s hs
    · cases hGone : gone r with
      | false => exact .inl ⟨r, mem_filter.mpr ⟨hr, by rw [hGone]; rfl⟩, hAt⟩
      | true =>
        refine .inr ⟨⟨r, reason⟩, mem_append_right _ (mem_map.mpr ⟨r, mem_filter.mpr ⟨hr, hGone⟩, rfl⟩),
          hAt, ?_⟩
        exact (hJust r hr hGone).mono (List.Subset.refl _) (List.Subset.refl _) (List.Subset.refl _)
    · exact .inr ⟨x, mem_append_left _ hx, hAt,
        hOld.mono (List.Subset.refl _) (List.Subset.refl _) hRet⟩
  ordered := h.ordered
  identity := h.identity
  sorted := h.sorted.filter _
  below r hr := h.below r (mem_filter.mp hr).1
  owned r hr := h.owned r (mem_filter.mp hr).1
  sentBelow := h.sentBelow
  sentFirst s hs r hr := h.sentFirst s hs r (mem_filter.mp hr).1

theorem RowsKept.tombstone (owner : ThreadOwner) : RowsKept (w.tombstone owner) := by
  have hMem : owner ∈ if owner ∈ w.retired then w.retired else w.retired ++ [owner] := by
    split
    · assumption
    · exact mem_append_right _ (mem_singleton.mpr rfl)
  refine h.remove ?_ fun r hr hGone => ⟨owner, hMem, hGone⟩
  split
  · exact List.Subset.refl _
  · exact subset_append_left _ _

end

theorem not_mem_tombstone {owner : ThreadOwner} {r : OutboxRow} (hr : r ∈ (w.tombstone owner).rows) :
    r ∈ w.rows ∧ World.inEpoch owner r = false := by
  obtain ⟨hOld, hKept⟩ := mem_filter.mp hr
  exact ⟨hOld, by simpa using hKept⟩

theorem threadAuthority_owner {t : String} {a : Authority} (h : w.threadAuthority t = some a) :
    ∃ o, w.ownerOf t = some o ∧ o.threadId = t ∧ a = ⟨o.ownerScope, o.ownerGeneration⟩ := by
  unfold World.threadAuthority at h
  split at h
  · next owner hOwner =>
    split at h
    · cases h
      exact ⟨owner, hOwner, Rows.lookup_key hOwner, rfl⟩
    · cases h
  · cases h

theorem RowsKept.owners (h : RowsKept w) {owners : List ThreadOwner}
    (hOwned : ∀ r ∈ w.rows, r.ownerScope ≠ none → Rows.lookup ThreadOwner.threadId owners r.id.threadId =
      w.ownerOf r.id.threadId) : RowsKept { w with owners } :=
  { h with
    kept := fun s hs => (h.kept s hs).imp_right fun ⟨x, hx, hAt, hJust⟩ =>
      ⟨x, hx, hAt, hJust.mono (List.Subset.refl _) (List.Subset.refl _) (List.Subset.refl _)⟩
    owned := by
      intro r hr scope hScope
      have hOld := h.owned r hr scope hScope
      unfold World.threadAuthority World.ownerOf at hOld ⊢
      dsimp only
      rw [hOwned r hr (hScope ▸ nofun)]
      exact hOld }

theorem RowsKept.retireGeneration (h : RowsKept w) (owner : ThreadOwner) : RowsKept (w.retireGeneration owner) := by
  refine (h.tombstone owner).owners fun r hr hSome => ?_
  obtain ⟨hOld, hKept⟩ := not_mem_tombstone hr
  obtain ⟨scope, hScope⟩ := Option.ne_none_iff_exists'.mp hSome
  obtain ⟨o, hOwner, hThr, hEq⟩ := threadAuthority_owner (h.owned r hOld scope hScope)
  rw [Authority.mk.injEq] at hEq
  have hOther : o ≠ owner := by
    rintro rfl
    simp [World.inEpoch, hThr, hScope, hEq.1, hEq.2] at hKept
  change Rows.lookup ThreadOwner.threadId (w.owners.filter (fun o => o ≠ owner)) r.id.threadId = w.ownerOf r.id.threadId
  rw [hOwner]
  exact Rows.lookup_filter_of_some hOwner (decide_eq_true hOther)

theorem RowsKept.bindAuthority (h : RowsKept w) (owner : ThreadOwner) :
    RowsKept (w.bindAuthority owner).1 ∧ ∀ a, (w.bindAuthority owner).2 = some a →
      (w.bindAuthority owner).1.threadAuthority owner.threadId = some a ∧ a.ownerGeneration = owner.ownerGeneration := by
  unfold World.bindAuthority
  split
  · exact ⟨h, by simp⟩
  · split
    · next hNone =>
      refine ⟨h.owners fun r hr hSome => ?_, fun a ha => ⟨ha, ?_⟩⟩
      · obtain ⟨scope, hScope⟩ := Option.ne_none_iff_exists'.mp hSome
        obtain ⟨o, hOwner, -⟩ := threadAuthority_owner (h.owned r hr scope hScope)
        rw [hOwner]
        exact Rows.lookup_append_of_some hOwner
      · obtain ⟨o, hOwner, -, rfl⟩ := threadAuthority_owner ha
        have hLookup : Rows.lookup ThreadOwner.threadId (w.owners ++ [owner]) owner.threadId = some owner := by
          rw [Rows.lookup_append]
          change (w.ownerOf owner.threadId).or _ = _
          rw [hNone, Option.none_or]
          simp [Rows.lookup]
        obtain rfl := Option.some.inj (hLookup.symm.trans hOwner)
        rfl
    · next existing hExist =>
      split
      · exact ⟨h, by simp⟩
      · next hScopes =>
        have hLookup : ∀ t, Rows.lookup ThreadOwner.threadId (Rows.modify ThreadOwner.threadId w.owners owner.threadId
            (fun o => { o with ownerGeneration := owner.ownerGeneration })) t = (w.ownerOf t).map (fun o =>
              if t = owner.threadId then { o with ownerGeneration := owner.ownerGeneration } else o) := fun t =>
          @Rows.lookup_modify _ _ _ ThreadOwner.threadId
            (fun o => { o with ownerGeneration := owner.ownerGeneration }) (fun _ => rfl) w.owners owner.threadId t
        have hAway : ∀ t, t ≠ owner.threadId → Rows.lookup ThreadOwner.threadId (Rows.modify ThreadOwner.threadId w.owners
            owner.threadId (fun o => { o with ownerGeneration := owner.ownerGeneration })) t = w.ownerOf t := by
          intro t hOther
          rw [hLookup]
          simp [hOther]
        refine ⟨?_, fun a ha => ⟨ha, ?_⟩⟩
        · dsimp only
          split
          · next hGens =>
            refine (h.tombstone existing).owners fun r hr hSome => ?_
            obtain ⟨hOld, hKept⟩ := not_mem_tombstone hr
            by_cases hThr : r.id.threadId = owner.threadId
            · obtain ⟨scope, hScope⟩ := Option.ne_none_iff_exists'.mp hSome
              obtain ⟨o, hOwner, hAt, hEq⟩ := threadAuthority_owner (h.owned r hOld scope hScope)
              rw [hThr, hExist] at hOwner
              obtain rfl := Option.some.inj hOwner
              rw [Authority.mk.injEq] at hEq
              simp [World.inEpoch, hAt, hScope, hEq.1, hEq.2] at hKept
            · exact hAway _ hThr
          · next hGens =>
            refine h.owners fun r hr hSome => ?_
            by_cases hThr : r.id.threadId = owner.threadId
            · rw [hLookup, hThr, hExist, Option.map_some, if_pos rfl, ← not_not.mp hGens]
            · exact hAway _ hThr
        · obtain ⟨o, hOwner, -, rfl⟩ := threadAuthority_owner ha
          change Rows.lookup ThreadOwner.threadId _ owner.threadId = some o at hOwner
          rw [hLookup, hExist, Option.map_some, if_pos rfl] at hOwner
          obtain rfl := Option.some.inj hOwner
          rfl

theorem RowsKept.noted (h : RowsKept w) : RowsKept w.noted := by
  unfold World.noted
  split
  · exact h
  · exact h.congr rfl rfl rfl rfl rfl rfl (List.Subset.refl _)

theorem noted_threadAuthority (t : String) : w.noted.threadAuthority t = w.threadAuthority t := by
  unfold World.noted
  split <;> rfl

theorem RowsKept.authorityFor (h : RowsKept w) (t ownerGeneration : String) (allowBind : Bool) :
    RowsKept (w.authorityFor t ownerGeneration allowBind).1 ∧ ∀ a, (w.authorityFor t ownerGeneration allowBind).2 = some a →
      (w.authorityFor t ownerGeneration allowBind).1.threadAuthority t = some a ∧ a.ownerGeneration = ownerGeneration := by
  unfold World.authorityFor
  dsimp only
  split
  · next hEq =>
    refine ⟨h.noted, fun a ha => ⟨(noted_threadAuthority t).trans ha, ?_⟩⟩
    change w.threadAuthority t = some a at ha
    rw [ha, Option.any_some, Bool.and_eq_true] at hEq
    exact of_decide_eq_true hEq.1
  · split
    · exact ⟨h.noted, nofun⟩
    · split
      · exact ⟨h.noted, nofun⟩
      · split
        · exact ⟨h.noted, nofun⟩
        · split
          · exact h.noted.bindAuthority _
          · exact ⟨h.noted, nofun⟩

variable {id : RecordId}

theorem RowsKept.putOutbox (h : RowsKept w) {ownerScope : Option String}
    (hOwned : ∀ scope, ownerScope = some scope → w.threadAuthority id.threadId = some ⟨scope, id.ownerGeneration⟩)
    (payloadJson : String) (now : Nat) : RowsKept (w.putOutbox id ownerScope payloadJson now) := by
  unfold World.putOutbox
  split
  · refine h.map (fun r => ?_) (fun r => ?_) (fun r => ?_) <;> split <;> rfl
  · have hCases : ∀ r ∈ w.rows ++ [⟨w.sequence, id, ownerScope, payloadJson, 0, now⟩],
        r ∈ w.rows ∨ r = ⟨w.sequence, id, ownerScope, payloadJson, 0, now⟩ := fun r hr =>
      (mem_append.mp hr).imp_right mem_singleton.mp
    refine ⟨fun s hs => ?_, h.ordered, h.identity, ?_, fun r hr => ?_, fun r hr scope hScope => ?_,
      fun s hs => Nat.lt_succ_of_lt (h.sentBelow s hs), fun s hs r hr hSome hThr => ?_⟩
    · obtain hLt | rfl := Nat.lt_succ_iff_lt_or_eq.mp hs
      · obtain ⟨r, hr, hAt⟩ | hGone := h.kept s hLt
        · exact .inl ⟨r, mem_append_left _ hr, hAt⟩
        · exact .inr hGone
      · exact .inl ⟨_, mem_append_right _ (mem_singleton.mpr rfl), rfl⟩
    · refine pairwise_append.mpr ⟨h.sorted, pairwise_singleton _ _, fun r hr r' hr' => ?_⟩
      rw [mem_singleton.mp hr']
      exact h.below r hr
    · obtain hr | rfl := hCases r hr
      · exact Nat.lt_succ_of_lt (h.below r hr)
      · exact Nat.lt_succ_self _
    · obtain hr | rfl := hCases r hr
      · exact h.owned r hr scope hScope
      · exact hOwned scope hScope
    · obtain hr | rfl := hCases r hr
      · exact h.sentFirst s hs r hr hSome hThr
      · exact Nat.le_of_lt (h.sentBelow s hs)

/-! ## The drain -/

structure Idle (w : World) : Prop where
  rows : RowsKept w
  calls : CallsKept w

theorem CallsKept.congr (h : CallsKept w) (hCalls : w'.calls = w.calls) (hAck : w.acknowledged ⊆ w'.acknowledged)
    (hCreated : w'.created = w.created) : CallsKept w' where
  waiting := hCalls ▸ h.waiting
  told c hc hTold := by
    obtain ⟨entry, hEnt, hId⟩ := h.told c (hCalls ▸ hc) hTold
    exact ⟨entry, hAck hEnt, hId⟩
  created id hId := by
    obtain ⟨hStart, entry, hEnt, hEq⟩ := h.created id (hCreated ▸ hId)
    exact ⟨hStart, entry, hAck hEnt, hEq⟩

theorem CallsKept.settleStart (h : CallsKept w) {waiter : Waiter}
    (hTold : waiter = .acknowledged → ∃ entry ∈ w.acknowledged, entry.id = id) : CallsKept (w.settleStart id waiter) where
  waiting c' hc' := by
    obtain ⟨c, hc, rfl⟩ := mem_map.mp hc'
    split
    · next hAt => exact fun _ => h.waiting c hc (hAt.2 ▸ nofun)
    · exact h.waiting c hc
  told c' hc' := by
    obtain ⟨c, hc, rfl⟩ := mem_map.mp hc'
    split
    · next hAt =>
      intro hSome
      obtain ⟨entry, hEnt, hId⟩ := hTold (Option.some.inj hSome)
      exact ⟨entry, hEnt, hId.trans hAt.1.symm⟩
    · exact h.told c hc
  created := h.created

variable {entry : OutboxRow}

section

variable (h : Idle w)
include h

theorem Idle.settleEntry {waiter : Waiter}
    (hTold : waiter = .acknowledged → ∃ e ∈ w.acknowledged, e.id = entry.id) : Idle (w.settleEntry entry waiter) := by
  unfold World.settleEntry
  split
  · exact ⟨h.rows.congr rfl rfl rfl rfl rfl rfl (List.Subset.refl _), h.calls.settleStart hTold⟩
  · exact h

theorem Idle.reject (entry : OutboxRow) : Idle (w.settleEntry entry .rejected) := h.settleEntry nofun

theorem Idle.noted : Idle w.noted := by
  refine ⟨h.rows.noted, ?_⟩
  unfold World.noted
  split
  · exact h.calls
  · exact h.calls.congr rfl (List.Subset.refl _) rfl

theorem Idle.scheduleDrain (delayMs : Nat) : Idle (w.scheduleDrain delayMs) := by
  unfold World.scheduleDrain
  split
  · exact h
  · exact ⟨h.rows.congr rfl rfl rfl rfl rfl rfl (List.Subset.refl _), h.calls.congr rfl (List.Subset.refl _) rfl⟩

theorem Idle.returns : Kept { w with active := some .returned } :=
  ⟨h.rows.congr rfl rfl rfl rfl rfl rfl (List.Subset.refl _), nofun, h.calls.congr rfl (List.Subset.refl _) rfl⟩

theorem Idle.retireGeneration (owner : ThreadOwner) : Idle (w.retireGeneration owner) :=
  ⟨h.rows.retireGeneration owner, h.calls.congr rfl (List.Subset.refl _) rfl⟩

theorem Idle.markRetry (id : RecordId) (now nextAttemptAt : Nat) : Idle (w.markRetry id now nextAttemptAt) := by
  refine ⟨h.rows.map (fun r => ?_) (fun r => ?_) (fun r => ?_), h.calls.congr rfl (List.Subset.refl _) rfl⟩ <;>
    split <;> rfl

end

variable {scope : String}

theorem firstOf_first (h : RowsKept w) (hFirst : w.firstOf scope = some entry) :
    entry ∈ w.rows ∧ entry.ownerScope = some scope ∧
      ∀ r ∈ w.rows, r.ownerScope = some scope → entry.sequence ≤ r.sequence := by
  obtain ⟨hScope, before, after, hRows, hBef⟩ := find?_eq_some_iff_append.mp hFirst
  refine ⟨mem_of_find?_eq_some hFirst, of_decide_eq_true hScope, fun r hr hAt => ?_⟩
  have hSort := h.sorted
  rw [hRows] at hr hSort
  obtain hr | hr := mem_append.mp hr
  · simpa [hAt] using hBef r hr
  · obtain rfl | hr := mem_cons.mp hr
    · exact Nat.le_refl _
    · exact Nat.le_of_lt (rel_of_pairwise_cons (pairwise_append.mp hSort).2.1 hr)

theorem RowsKept.owns (h : RowsKept w) (hMem : entry ∈ w.rows)
    (hScope : entry.ownerScope = some scope) : entry.id.ownerGeneration ≠ "" ∧ w.owns entry scope = true := by
  have hOwned := h.owned entry hMem scope hScope
  refine ⟨?_, decide_eq_true hOwned⟩
  unfold World.threadAuthority at hOwned
  split at hOwned
  · split at hOwned
    · next hBlank =>
      obtain hEq := Option.some.inj hOwned
      rw [Authority.mk.injEq] at hEq
      rw [← hEq.2]
      exact fun hEmpty => hBlank.2 (by rw [hEmpty]; decide)
    · cases hOwned
  · cases hOwned

theorem Idle.runDrain (h : Idle w) (now fuel : Nat) : Kept (World.runDrain now fuel w) := by
  cases fuel with
  | zero => exact h.returns
  | succ fuel =>
    unfold World.runDrain
    split
    · exact h.returns
    · split
      · exact (h.scheduleDrain _).returns
      · next scope hTok =>
        dsimp only
        split
        · exact h.noted.returns
        · next entry hFirst =>
          obtain ⟨hMem, hScope, hLeast⟩ := firstOf_first h.noted.rows hFirst
          obtain ⟨hSome, hOwns⟩ := h.noted.rows.owns hMem hScope
          rw [if_neg (by simp [hSome, hOwns])]
          split
          · exact (h.noted.scheduleDrain _).returns
          · have hNoted : w.noted.token = some scope := by
              unfold World.noted
              split <;> exact hTok
            refine ⟨?_, ?_, h.noted.calls.congr rfl (List.Subset.refl _) rfl⟩
            · have hRows := h.noted.rows
              have hFirsts : ∀ r ∈ w.noted.rows, r.ownerScope ≠ none → r.id.threadId = entry.id.threadId →
                  entry.sequence ≤ r.sequence := by
                intro r hr hSomeScope hThr
                obtain ⟨other, hOther⟩ := Option.ne_none_iff_exists'.mp hSomeScope
                have hOwned := hRows.owned r hr other hOther
                rw [hThr, hRows.owned entry hMem scope hScope, Option.some.injEq, Authority.mk.injEq] at hOwned
                exact hLeast r hr (hOwned.1 ▸ hOther)
              refine ⟨fun s hs => ?_, ?_, fun x hx => ?_, hRows.sorted, hRows.below, hRows.owned, fun x hx => ?_,
                fun x hx r hr hSomeScope hThr => ?_⟩
              · refine (hRows.kept s hs).imp_right fun ⟨x, hx, hAt, hJust⟩ => ⟨x, hx, hAt, ?_⟩
                exact hJust.mono (List.Subset.refl _) (subset_append_left _ _) (List.Subset.refl _)
              · refine pairwise_append.mpr ⟨hRows.ordered, pairwise_singleton _ _, fun x hx y hy hThr => ?_⟩
                rw [mem_singleton.mp hy] at hThr ⊢
                exact hRows.sentFirst x hx entry hMem (hScope ▸ nofun) hThr.symm
              · obtain hx | rfl := mem_append.mp hx |>.imp_right mem_singleton.mp
                · exact hRows.identity x hx
                · dsimp only
                  rw [hNoted, hScope]
                  exact ⟨nofun, rfl⟩
              · obtain hx | rfl := mem_append.mp hx |>.imp_right mem_singleton.mp
                · exact hRows.sentBelow x hx
                · exact hRows.below entry hMem
              · obtain hx | rfl := mem_append.mp hx |>.imp_right mem_singleton.mp
                · exact hRows.sentFirst x hx r hr hSomeScope hThr
                · exact hFirsts r hr hSomeScope hThr
            · intro e s hAct
              cases hAct
              exact ⟨hScope, _, mem_append_right _ (mem_singleton.mpr rfl), rfl⟩

theorem Kept.idle (h : Kept w) : Idle w := ⟨h.rows, h.calls⟩

theorem Idle.goOn (h : Idle w) (now : Nat) : Kept (w.goOn now) := h.runDrain now _

theorem Kept.drain (h : Kept w) (now : Nat) : Kept (w.drain now).1 := by
  unfold World.drain
  split
  · exact h
  · split
    · have hStarted : Idle { w with drains := w.drains + 1 } :=
        ⟨h.rows.congr rfl rfl rfl rfl rfl rfl (List.Subset.refl _), h.calls.congr rfl (List.Subset.refl _) rfl⟩
      exact hStarted.goOn now
    · exact h

/-! ## Answers -/

theorem Idle.retryLater (h : Idle w) (entry : OutboxRow) (scope : String) (now : Nat) :
    Kept (w.retryLater entry scope now) :=
  ((((h.markRetry entry.id now _).reject entry).noted).scheduleDrain _).returns

theorem Idle.deleteOutbox (h : Idle w) {reason : Reason}
    (hJust : ∀ r ∈ w.rows, r.id = id → Removal.Justified w ⟨r, reason⟩) : Idle (w.deleteOutbox id reason) := by
  have hRows : RowsKept (w.deleteOutbox id reason) :=
    h.rows.remove (List.Subset.refl _) fun r hr hGone => hJust r hr (of_decide_eq_true hGone)
  exact ⟨hRows, h.calls.congr rfl (List.Subset.refl _) rfl⟩

theorem noted_rows : w.noted.rows = w.rows := by
  unfold World.noted
  split <;> rfl

theorem noted_acknowledged : w.noted.acknowledged = w.acknowledged := by
  unfold World.noted
  split <;> rfl

theorem Kept.delivered (h : Kept w)
    (hAct : w.active = some (.delivering entry scope)) {outcome : Outcome} (now : Nat)
    (hLatest : answersLatest w (.delivered outcome now) = true) : Kept (w.delivered entry scope outcome now) := by
  unfold answersLatest at hLatest
  rw [hAct] at hLatest
  unfold World.delivered
  split
  · exact h.idle.returns
  · cases outcome with
    | acknowledged =>
      dsimp only at hLatest ⊢
      have hLog : w.noted.acknowledged ⊆ w.acknowledged ++ [entry] := by
        rw [noted_acknowledged]
        exact subset_append_left _ _
      have hNoted : Idle { w.noted with acknowledged := w.acknowledged ++ [entry] } :=
        ⟨h.idle.noted.rows.congr rfl rfl rfl rfl rfl rfl hLog, h.idle.noted.calls.congr rfl hLog rfl⟩
      split
      · have hTold := hNoted.reject entry
        split
        · exact hTold.goOn now
        · exact (hTold.retireGeneration _).goOn now
      · split
        · exact (((hNoted.markRetry entry.id now _).reject entry).scheduleDrain 0).returns
        · have hDeleted : Idle (World.deleteOutbox { w.noted with acknowledged := w.acknowledged ++ [entry] } entry.id
              (.acknowledged entry)) := by
            refine hNoted.deleteOutbox fun r hr hId => ?_
            have hEq : ∀ r ∈ w.rows, r.id ≠ entry.id ∨ r.payloadJson = entry.payloadJson ∧
                r.ownerScope = entry.ownerScope := by simpa using hLatest
            obtain ⟨hPay, hScope⟩ := (hEq r (noted_rows ▸ hr)).resolve_left (not_not.mpr hId)
            exact ⟨mem_append_right _ (mem_singleton.mpr rfl), hId.symm, hPay.symm, hScope.symm⟩
          refine (hDeleted.settleEntry fun _ => ?_).goOn now
          exact ⟨entry, mem_append_right _ (mem_singleton.mpr rfl), rfl⟩
    | generationStale =>
      dsimp only
      split
      · exact ((h.idle.reject entry).retireGeneration _).goOn now
      · exact h.idle.retryLater _ _ now
    | startRejected =>
      dsimp only at hLatest ⊢
      split
      · next hStart =>
        have hDeleted : Idle (w.deleteOutbox entry.id (.refused entry)) := by
          refine h.idle.deleteOutbox fun r hr hId => ?_
          have hEq : ∀ r ∈ w.rows, r.id ≠ entry.id ∨ r.payloadJson = entry.payloadJson ∧
              r.ownerScope = entry.ownerScope := by simpa [hStart] using hLatest
          obtain ⟨hPay, hScope⟩ := (hEq r hr).resolve_left (not_not.mpr hId)
          exact ⟨(h.flight entry scope hAct).2, hId.symm, hPay.symm, hScope.symm⟩
        have hSettled : Idle ((w.deleteOutbox entry.id (.refused entry)).settleStart entry.id .rejected) :=
          ⟨hDeleted.rows.congr rfl rfl rfl rfl rfl rfl (List.Subset.refl _), hDeleted.calls.settleStart nofun⟩
        exact hSettled.goOn now
      · exact h.idle.retryLater _ _ now
    | failed => exact h.idle.retryLater _ _ now

/-! ## Calls -/

theorem mem_modify {α : Type*} {l : List α} {i : Nat} {f : α → α} {x : α} (hx : x ∈ l.modify i f) :
    ∃ y ∈ l, x = y ∨ x = f y := by
  obtain ⟨j, hj⟩ := mem_iff_getElem?.mp hx
  rw [getElem?_modify] at hj
  cases hAt : l[j]? with
  | none =>
    rw [hAt] at hj
    cases hj
  | some y =>
    rw [hAt] at hj
    refine ⟨y, mem_of_getElem? hAt, ?_⟩
    obtain rfl := Option.some.inj hj
    split
    · exact .inr rfl
    · exact .inl rfl

theorem Kept.modify (h : Kept w) (i : Nat) {f : Call → Call} (hId : ∀ c, (f c).id = c.id)
    (hWaiter : ∀ c, (f c).waiter = c.waiter) : Kept { w with calls := w.calls.modify i f } := by
  refine ⟨h.rows.congr rfl rfl rfl rfl rfl rfl (List.Subset.refl _), h.flight, fun c hc => ?_, fun c hc => ?_,
    h.calls.created⟩
  · obtain ⟨y, hy, rfl | rfl⟩ := mem_modify hc
    · exact h.calls.waiting c hy
    · rw [hId, hWaiter]
      exact h.calls.waiting y hy
  · obtain ⟨y, hy, rfl | rfl⟩ := mem_modify hc
    · exact h.calls.told c hy
    · rw [hId, hWaiter]
      exact h.calls.told y hy

structure Aside (w w' : World) : Prop where
  active : w'.active = w.active
  sent : w'.sent = w.sent
  calls : w'.calls = w.calls
  acknowledged : w'.acknowledged = w.acknowledged
  created : w'.created = w.created

theorem Kept.aside (h : Kept w) (hAside : Aside w w') (hRows : RowsKept w') : Kept w' := by
  refine ⟨hRows, fun entry scope hAct => ?_,
    h.calls.congr hAside.calls (hAside.acknowledged ▸ List.Subset.refl _) hAside.created⟩
  rw [hAside.sent]
  exact h.flight entry scope (hAside.active ▸ hAct)

theorem aside_noted : Aside w w.noted := by
  unfold World.noted
  split <;> exact ⟨rfl, rfl, rfl, rfl, rfl⟩

theorem Aside.trans {w'' : World} (h : Aside w w') (h' : Aside w' w'') : Aside w w'' :=
  ⟨h'.active.trans h.active, h'.sent.trans h.sent, h'.calls.trans h.calls, h'.acknowledged.trans h.acknowledged,
    h'.created.trans h.created⟩

theorem aside_bindAuthority (owner : ThreadOwner) : Aside w (w.bindAuthority owner).1 := by
  unfold World.bindAuthority
  split
  · exact ⟨rfl, rfl, rfl, rfl, rfl⟩
  · split
    · exact ⟨rfl, rfl, rfl, rfl, rfl⟩
    · split
      · exact ⟨rfl, rfl, rfl, rfl, rfl⟩
      · dsimp only
        split <;> exact ⟨rfl, rfl, rfl, rfl, rfl⟩

theorem aside_authorityFor (t ownerGeneration : String) (allowBind : Bool) :
    Aside w (w.authorityFor t ownerGeneration allowBind).1 := by
  unfold World.authorityFor
  dsimp only
  split
  · exact aside_noted
  · split
    · exact aside_noted
    · split
      · exact aside_noted
      · split
        · exact aside_noted
        · split
          · exact aside_noted.trans (aside_bindAuthority _)
          · exact aside_noted

theorem aside_putOutbox (id : RecordId) (scope : Option String) (payloadJson : String) (now : Nat) :
    Aside w (w.putOutbox id scope payloadJson now) := by
  unfold World.putOutbox
  split <;> exact ⟨rfl, rfl, rfl, rfl, rfl⟩

theorem Kept.enqueue (h : Kept w) (id : RecordId) (payloadJson : String) (now : Nat) :
    Kept (w.enqueue id payloadJson now) := by
  have hAside := aside_authorityFor (w := w) id.threadId id.ownerGeneration (id.kind = .start)
  obtain ⟨hRows, hAuth⟩ := h.rows.authorityFor id.threadId id.ownerGeneration (id.kind = .start)
  unfold World.enqueue
  generalize w.authorityFor id.threadId id.ownerGeneration (id.kind = .start) = bound at hAside hRows hAuth ⊢
  obtain ⟨bound, authority⟩ := bound
  dsimp only at hAside hRows hAuth ⊢
  have hBound := h.aside hAside hRows
  split
  · exact hBound
  · have hPut : Kept (bound.putOutbox id (authority.map Authority.ownerScope) payloadJson now) := by
      refine hBound.aside (aside_putOutbox _ _ _ _) (hBound.rows.putOutbox (fun scope hScope => ?_) payloadJson now)
      obtain ⟨a, rfl, rfl⟩ := Option.map_eq_some_iff.mp hScope
      obtain ⟨hAt, hGen⟩ := hAuth a rfl
      rw [hAt, ← hGen]
    generalize bound.putOutbox id (authority.map Authority.ownerScope) payloadJson now = put at hPut ⊢
    have hCalled : ∀ call : Call, call.waiter = (if id.kind = .start then some .pending else none) → call.id = id →
        Kept { put with calls := put.calls ++ [call] } := by
      intro call hWaiter hId
      refine ⟨hPut.rows.congr rfl rfl rfl rfl rfl rfl (List.Subset.refl _), hPut.flight, fun c hc hSome => ?_,
        fun c hc hTold => ?_, hPut.calls.created⟩
      · obtain hc | rfl := mem_append.mp hc |>.imp_right mem_singleton.mp
        · exact hPut.calls.waiting c hc hSome
        · by_contra hOther
          rw [hWaiter, if_neg (hId ▸ hOther)] at hSome
          exact hSome rfl
      · obtain hc | rfl := mem_append.mp hc |>.imp_right mem_singleton.mp
        · exact hPut.calls.told c hc hTold
        · rw [hWaiter] at hTold
          split at hTold <;> cases hTold
    exact ((hCalled _ rfl rfl).drain now).modify _ (fun _ => rfl) (fun _ => rfl)

theorem Kept.proceedCall (h : Kept w) (i now : Nat) : Kept (w.proceedCall i now) := by
  unfold World.proceedCall
  split
  · exact h
  · next call hCall =>
    split
    · exact h
    · split
      · exact (h.drain now).modify _ (fun _ => rfl) (fun _ => rfl)
      · have hMem := mem_of_getElem? hCall
        have hLeft : Kept { w with calls := w.calls.eraseIdx i } :=
          ⟨h.rows.congr rfl rfl rfl rfl rfl rfl (List.Subset.refl _), h.flight,
            fun c hc => h.calls.waiting c (mem_of_mem_eraseIdx hc),
            fun c hc => h.calls.told c (mem_of_mem_eraseIdx hc), h.calls.created⟩
        unfold World.finish
        dsimp only
        split
        · next hResolves =>
          refine ⟨hLeft.rows.congr rfl rfl rfl rfl rfl rfl (List.Subset.refl _), hLeft.flight, hLeft.calls.waiting,
            hLeft.calls.told, fun id hId => ?_⟩
          obtain hId | rfl := mem_append.mp hId |>.imp_right mem_singleton.mp
          · exact h.calls.created id hId
          · exact ⟨h.calls.waiting call hMem (hResolves.2 ▸ nofun), h.calls.told call hMem hResolves.2⟩
        · exact hLeft

theorem Idle.resume (h : Idle w) (hFlight : FlightKept w) (now : Nat) : Kept (w.resume now) := by
  have hRuns : Idle { w with stopped := false } :=
    ⟨h.rows.congr rfl rfl rfl rfl rfl rfl (List.Subset.refl _), h.calls.congr rfl (List.Subset.refl _) rfl⟩
  have hAside : Aside w ({ w with stopped := false } : World).noted := by
    have hNoted := aside_noted (w := { w with stopped := false })
    exact ⟨hNoted.active, hNoted.sent, hNoted.calls, hNoted.acknowledged, hNoted.created⟩
  have hNoted : Kept ({ w with stopped := false } : World).noted :=
    Kept.aside ⟨h.rows, hFlight, h.calls⟩ hAside hRuns.noted.rows
  have hScheduled : ∀ v : World, Kept v → Kept (v.scheduleDrain 0) := by
    intro v hv
    refine ⟨(hv.idle.scheduleDrain 0).rows, ?_, (hv.idle.scheduleDrain 0).calls⟩
    unfold World.scheduleDrain
    split
    · exact hv.flight
    · exact hv.flight
  unfold World.resume
  dsimp only
  refine hScheduled _ ?_
  split
  · refine ⟨hNoted.rows.map (fun r => ?_) (fun r => ?_) (fun r => ?_), hNoted.flight,
      hNoted.calls.congr rfl (List.Subset.refl _) rfl⟩ <;> split <;> rfl
  · exact hNoted

theorem Kept.stop (h : Kept w) : Kept w.stop := by
  refine ⟨h.rows.congr rfl rfl rfl rfl rfl rfl (List.Subset.refl _), h.flight, fun c' hc' => ?_, fun c' hc' => ?_,
    h.calls.created⟩
  · obtain ⟨c, hc, rfl⟩ := mem_map.mp hc'
    split
    · next hAt => exact fun _ => h.calls.waiting c hc (hAt ▸ nofun)
    · exact h.calls.waiting c hc
  · obtain ⟨c, hc, rfl⟩ := mem_map.mp hc'
    split
    · exact nofun
    · exact h.calls.told c hc

theorem Kept.step (h : Kept w) {input : Input} (hLatest : answersLatest w input = true) : Kept (w.step input) := by
  cases input with
  | enqueue id payloadJson now => exact h.enqueue id payloadJson now
  | signIn ownerScope =>
    exact ⟨h.rows.congr rfl rfl rfl rfl rfl rfl (List.Subset.refl _), h.flight,
      h.calls.congr rfl (List.Subset.refl _) rfl⟩
  | delivered outcome now =>
    unfold World.step
    dsimp only
    split
    · next entry scope hAct => exact h.delivered hAct now hLatest
    · exact h
  | settle =>
    unfold World.step
    dsimp only
    split
    · exact ⟨h.rows.congr rfl rfl rfl rfl rfl rfl (List.Subset.refl _), nofun, h.calls.congr rfl (List.Subset.refl _) rfl⟩
    · exact h
  | proceed i now => exact h.proceedCall i now
  | timer now =>
    unfold World.step
    dsimp only
    split
    · exact h
    · have hFired : Kept { w with retryDelay := none } :=
        ⟨h.rows.congr rfl rfl rfl rfl rfl rfl (List.Subset.refl _), h.flight, h.calls.congr rfl (List.Subset.refl _) rfl⟩
      exact hFired.drain now
  | resume now => exact h.idle.resume h.flight now
  | stop => exact h.stop
  | get threadId =>
    have hNoted := h.aside aside_noted h.rows.noted
    unfold World.step
    dsimp only
    split
    · split
      · exact ⟨hNoted.rows.congr rfl rfl rfl rfl rfl rfl (List.Subset.refl _), hNoted.flight,
          hNoted.calls.congr rfl (List.Subset.refl _) rfl⟩
      · exact hNoted
    · exact hNoted
  | readStale i =>
    unfold World.step
    dsimp only
    split
    · next owner hOwner =>
      have hRead : Kept { w with reads := w.reads.eraseIdx i } :=
        ⟨h.rows.congr rfl rfl rfl rfl rfl rfl (List.Subset.refl _), h.flight, h.calls.congr rfl (List.Subset.refl _) rfl⟩
      exact hRead.aside ⟨rfl, rfl, rfl, rfl, rfl⟩ (hRead.rows.retireGeneration owner)
    · exact h
  | restart now =>
    have hFresh : Idle { w with active := none, calls := [], reads := [], retryDelay := none, lastKnownOwnerScope := w.token } :=
      ⟨h.rows.congr rfl rfl rfl rfl rfl rfl (List.Subset.refl _), nofun, nofun, h.calls.created⟩
    exact hFresh.resume nofun now

/-! ## Runs -/

theorem kept_empty : Kept {} where
  rows := {
    kept := fun _ hBelow => absurd hBelow (Nat.not_lt_zero _)
    ordered := List.Pairwise.nil
    identity := forall_mem_nil _
    sorted := List.Pairwise.nil
    below := forall_mem_nil _
    owned := forall_mem_nil _
    sentBelow := forall_mem_nil _
    sentFirst := forall_mem_nil _ }
  flight := nofun
  calls := ⟨forall_mem_nil _, forall_mem_nil _, forall_mem_nil _⟩

/-- While the answer that deletes a record finds its row as it was sent, no record is lost or reordered, none
goes out under another account, and `create` resolves on the answer to its own start. -/
theorem World.safe_of_run {inputs : List Input}
    (hRun : Along World.step (fun w input => answersLatest w input = true) {} inputs) :
    Safe (run World.step {} inputs) := by
  have hKept : Kept (run World.step {} inputs) :=
    run_invariant (fun _ _ hKept hLatest => hKept.step hLatest) kept_empty hRun
  exact hKept.safe

def started (attempt : Nat) : RecordId := ⟨"thread", attempt, "g1", .start⟩

def ended (attempt : Nat) : RecordId := ⟨"thread", attempt, "g1", .terminal⟩

def deliveredRun : List Input :=
  [.signIn (some "token:a"), .enqueue (started 1) "start" 1, .delivered .acknowledged 2, .settle, .proceed 0 3,
    .enqueue (ended 1) "completed" 4, .delivered .failed 5, .settle, .timer 600, .delivered .acknowledged 700]

theorem World.safe_of_deliveredRun :
    (run World.step {} deliveredRun).created = [started 1] ∧
      (run World.step {} deliveredRun).sent.map (fun s => s.entry.id) = [started 1, ended 1, ended 1] ∧
      (run World.step {} deliveredRun).rows = [] ∧ Safe (run World.step {} deliveredRun) :=
  ⟨by decide, by decide, by decide, World.safe_of_run (by decide)⟩

def rewrittenRun : List Input :=
  [.signIn (some "token:a"), .enqueue (started 1) "start" 1, .delivered .acknowledged 2, .settle,
    .enqueue (ended 1) "completed" 3, .enqueue (ended 1) "failed" 4, .delivered .acknowledged 5]

def Removal.stale (x : Removal) : Bool :=
  match x.reason with
  | .acknowledged entry => entry.payloadJson ≠ x.row.payloadJson
  | _ => false

theorem Removal.stale_not_justified {x : Removal} (h : x.stale = true) : ¬ x.Justified w := by
  unfold Removal.stale at h
  intro hJust
  unfold Removal.Justified at hJust
  split at h
  · next entry hReason =>
    rw [hReason] at hJust
    exact of_decide_eq_true h hJust.2.2.1
  · cases h

theorem World.rewrittenRun_loses : ¬ Safe (run World.step {} rewrittenRun) := by
  intro h
  have hLost : ∃ s < (run World.step {} rewrittenRun).sequence,
      (∀ r ∈ (run World.step {} rewrittenRun).rows, r.sequence ≠ s) ∧
      ∀ x ∈ (run World.step {} rewrittenRun).removals, x.row.sequence = s → x.stale = true := by decide
  obtain ⟨s, hs, hRows, hStale⟩ := hLost
  obtain ⟨r, hr, hAt⟩ | ⟨x, hx, hAt, hJust⟩ := h.kept s hs
  · exact hRows r hr hAt
  · exact Removal.stale_not_justified (hStale x hx hAt) hJust

end Stella.AgentRecords
