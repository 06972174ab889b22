import Stella.Pairing.Model

/-! # What a challenge authorizes

A challenge joins its fields with colons, and a key, a conversation and a device may hold colons
of their own.
-/

namespace Stella.Pairing

open List

/-! ## Pieces -/

def pieces (text : String) : List (List Char) := text.toList.splitOn ':'

theorem pieces_inj {a b : String} (h : pieces a = pieces b) : a = b := by
  have hJoined := congrArg (List.intercalate [':']) h
  unfold pieces at hJoined
  rw [intercalate_splitOn, intercalate_splitOn] at hJoined
  exact String.toList_injective hJoined

theorem pieces_plain {text : String} (h : ':' ∉ text.toList) : pieces text = [text.toList] := splitOn_eq_singleton h

theorem pieces_intercalate {parts : List String} (h : parts ≠ []) : pieces (":".intercalate parts) = parts.flatMap pieces := by
  induction parts with
  | nil => exact absurd rfl h
  | cons part rest ih =>
    by_cases hRest : rest = []
    · rw [hRest, String.intercalate_singleton, flatMap_singleton]
    · rw [String.intercalate_cons_of_ne_nil hRest, flatMap_cons, ← ih hRest]
      unfold pieces
      rw [String.toList_append, String.toList_append, append_assoc]
      exact splitOn_append_cons_self _ _

theorem pieces_kind (kind : ExecutionKind) : pieces kind.text = [kind.text.toList] := by
  cases kind <;> decide

theorem pieces_subject (subject : ExecutionSubject) : pieces subject.text = [subject.text.toList] := by
  cases subject <;> decide

theorem pieces_mode (mode : ExecutionTargetMode) : pieces mode.text = [mode.text.toList] := by
  cases mode <;> decide

theorem text_kind_inj {a b : ExecutionKind} (h : a.text.toList = b.text.toList) : a = b := by
  cases a <;> cases b <;> first | rfl | exact absurd h (by decide)

theorem text_subject_inj {a b : ExecutionSubject} (h : a.text.toList = b.text.toList) : a = b := by
  cases a <;> cases b <;> first | rfl | exact absurd h (by decide)

theorem text_mode_inj {a b : ExecutionTargetMode} (h : a.text.toList = b.text.toList) : a = b := by
  cases a <;> cases b <;> first | rfl | exact absurd h (by decide)

theorem length_kind (kind : ExecutionKind) : kind.text.toList.length ≤ 9 := by
  cases kind <;> decide

theorem length_subject (subject : ExecutionSubject) : subject.text.toList.length ≤ 9 := by
  cases subject <;> decide

theorem length_mode (mode : ExecutionTargetMode) : mode.text.toList.length ≤ 9 := by
  cases mode <;> decide

/-! ## The canonical payload -/

theorem toList_quote (text : String) : (JsonText.quote text).toList = JsonText.quoteChars text.toList := String.toList_ofList

theorem conversationId_of_canonical {p q : DispatchPayload}
    (h : canonicalDispatchPayloadJson p = canonicalDispatchPayloadJson q) : p.conversationId = q.conversationId := by
  have hChars := congrArg String.toList h
  unfold canonicalDispatchPayloadJson at hChars
  simp only [String.toList_append, append_assoc, toList_quote] at hChars
  obtain ⟨_, hAfterPrompt⟩ := JsonText.quoteChars_append_inj (append_cancel_left hChars)
  exact String.toList_injective (JsonText.quoteChars_append_inj (append_cancel_left hAfterPrompt)).1

/-! ## What is accepted -/

theorem conversationId_of_parse {value : Json} {request : DispatchSubmitRequest}
    (h : parseDispatchSubmitRequest value = .ok request) : request.payload.conversationId = request.conversationId := by
  unfold parseDispatchSubmitRequest at h
  repeat' split at h
  all_goals cases h
  dsimp only
  refine not_not.mp ?_
  assumption

/-! ## The pieces of a challenge -/

structure Digest (sha256Hex : String → String) : Prop where
  injective : Function.Injective sha256Hex
  plain : ∀ text, ':' ∉ (sha256Hex text).toList
  long : ∀ text, 9 < (sha256Hex text).toList.length

namespace DispatchSubmitRequest

variable (sha256Hex : String → String) (request : DispatchSubmitRequest)

def payloadHash : String := sha256Hex (canonicalDispatchPayloadJson request.payload)

def named : List (List Char) := pieces request.idempotencyKey ++ pieces request.conversationId

def signed : List (List Char) :=
  [(request.payloadHash sha256Hex).toList, request.kind.text.toList, request.subject.text.toList]

def destination : List (List Char) :=
  if request.target.mode.isSome || request.target.deviceId.any (fun deviceId => deviceId ≠ "") then
    (request.target.mode.getD .automatic).text.toList :: pieces (request.target.deviceId.getD "")
  else []

def SplicedInto (other : DispatchSubmitRequest) : Prop :=
  request.target.mode = some .device ∧ ∃ deviceId between, request.target.deviceId = some deviceId ∧
    pieces deviceId = between ++ (other.signed sha256Hex ++ other.destination) ∧
    other.named = request.named ++ (request.signed sha256Hex ++ (ExecutionTargetMode.device.text.toList :: between))

structure SameAs (other : DispatchSubmitRequest) : Prop where
  idempotencyKey : request.idempotencyKey = other.idempotencyKey
  conversationId : request.conversationId = other.conversationId
  payload : canonicalDispatchPayloadJson request.payload = canonicalDispatchPayloadJson other.payload
  kind : request.kind = other.kind
  subject : request.subject = other.subject
  targetMode : request.target.mode.getD .automatic = other.target.mode.getD .automatic
  targetDeviceId : request.target.deviceId = other.target.deviceId

variable {sha256Hex request} {other : DispatchSubmitRequest}

theorem pieces_challenge (hDig : Digest sha256Hex) : pieces (submissionChallenge sha256Hex request) =
    "execution-placement-v1".toList :: (request.named ++ (request.signed sha256Hex ++ request.destination)) := by
  have hVersion : pieces "execution-placement-v1" = ["execution-placement-v1".toList] := by decide
  unfold submissionChallenge buildMobilePairingChallenge
  rw [pieces_intercalate (by unfold challengeParts; exact fun hNo => nomatch hNo)]
  unfold challengeParts named signed destination payloadHash
  dsimp only
  split
  · simp only [cons_append, nil_append, flatMap_cons, flatMap_nil, hVersion, pieces_kind, pieces_subject,
      pieces_mode, pieces_plain (hDig.plain _), append_assoc, append_nil]
  · simp only [cons_append, nil_append, flatMap_cons, flatMap_nil, hVersion, pieces_kind, pieces_subject,
      pieces_plain (hDig.plain _), append_assoc, append_nil]

theorem challenge_eq_iff (hDig : Digest sha256Hex) :
    submissionChallenge sha256Hex request = submissionChallenge sha256Hex other ↔
      request.named ++ (request.signed sha256Hex ++ request.destination) =
        other.named ++ (other.signed sha256Hex ++ other.destination) := by
  constructor
  · intro h
    have hPieces := congrArg pieces h
    rw [pieces_challenge hDig, pieces_challenge hDig] at hPieces
    exact (List.cons.inj hPieces).2
  · intro h
    refine pieces_inj ?_
    rw [pieces_challenge hDig, pieces_challenge hDig, h]

/-! ## Two equal challenges -/

theorem deviceId_eq {a b : DispatchTarget} (hMode : a.mode.getD .automatic = b.mode.getD .automatic)
    (hText : a.deviceId.getD "" = b.deviceId.getD "") : a.deviceId = b.deviceId := by
  have hEq : a.deviceId.isSome = true ↔ b.deviceId.isSome = true := by rw [← a.hDevice, ← b.hDevice, hMode]
  cases hA : a.deviceId with
  | none =>
    cases hB : b.deviceId with
    | none => rfl
    | some deviceId => rw [hA, hB] at hEq; cases hEq.mpr rfl
  | some deviceId =>
    cases hB : b.deviceId with
    | none => rw [hA, hB] at hEq; cases hEq.mp rfl
    | some deviceId' =>
      rw [hA, hB] at hText
      exact congrArg some hText

theorem target_of_unnamed {target : DispatchTarget}
    (h : ¬ (target.mode.isSome || target.deviceId.any (fun deviceId => deviceId ≠ "")) = true) :
    target.mode = none ∧ target.deviceId = none := by
  rw [Bool.or_eq_true, not_or] at h
  have hMode : target.mode = none := Option.not_isSome_iff_eq_none.mp h.1
  refine ⟨hMode, Option.not_isSome_iff_eq_none.mp fun hSome => ?_⟩
  have hDevice := target.hDevice.mpr hSome
  rw [hMode] at hDevice
  cases hDevice

theorem destination_inj (h : request.destination = other.destination) :
    request.target.mode.getD .automatic = other.target.mode.getD .automatic ∧
      request.target.deviceId = other.target.deviceId := by
  unfold destination at h
  split at h
  · split at h
    · obtain ⟨hText, hPieces⟩ := List.cons.inj h
      have hMode := text_mode_inj hText
      exact ⟨hMode, deviceId_eq hMode (pieces_inj hPieces)⟩
    · cases h
  · next hOwn =>
    split at h
    · cases h
    · next hOther =>
      obtain ⟨hMode, hDevice⟩ := target_of_unnamed hOwn
      obtain ⟨hMode', hDevice'⟩ := target_of_unnamed hOther
      rw [hMode, hMode', hDevice, hDevice']
      exact ⟨rfl, rfl⟩

theorem sameAs_of_named_length (hDig : Digest sha256Hex)
    (hOwn : request.payload.conversationId = request.conversationId) (hOther : other.payload.conversationId = other.conversationId)
    (hLen : request.named.length = other.named.length)
    (h : request.named ++ (request.signed sha256Hex ++ request.destination) =
      other.named ++ (other.signed sha256Hex ++ other.destination)) : request.SameAs other := by
  obtain ⟨hNamed, hRest⟩ := append_inj h hLen
  have hThree : (request.signed sha256Hex).length = (other.signed sha256Hex).length := by
    simp only [signed, length_cons, length_nil]
  obtain ⟨hSigned, hDestination⟩ := append_inj hRest hThree
  unfold signed at hSigned
  obtain ⟨hHash, hTexts⟩ := List.cons.inj hSigned
  obtain ⟨hKind, hLast⟩ := List.cons.inj hTexts
  have hHashes : request.payloadHash sha256Hex = other.payloadHash sha256Hex := String.toList_injective hHash
  have hPay : canonicalDispatchPayloadJson request.payload = canonicalDispatchPayloadJson other.payload :=
    hDig.injective hHashes
  have hConv : request.conversationId = other.conversationId := by
    rw [← hOwn, ← hOther, conversationId_of_canonical hPay]
  unfold named at hNamed
  rw [hConv] at hNamed
  obtain ⟨hMode, hDevice⟩ := destination_inj hDestination
  exact ⟨pieces_inj (append_cancel_right hNamed), hConv, hPay, text_kind_inj hKind,
    text_subject_inj (List.cons.inj hLast).1, hMode, hDevice⟩

theorem ne_payloadHash (hDig : Digest sha256Hex) {word : List Char} (hWord : word.length ≤ 9) :
    word ≠ (other.payloadHash sha256Hex).toList := by
  rintro rfl
  exact absurd (hDig.long _) (Nat.not_lt.mpr hWord)

theorem destination_carries {first : List Char} {between : List (List Char)}
    (h : request.destination = first :: (between ++ (other.signed sha256Hex ++ other.destination))) :
    request.target.mode = some .device ∧ first = ExecutionTargetMode.device.text.toList ∧
      ∃ deviceId, request.target.deviceId = some deviceId ∧
        pieces deviceId = between ++ (other.signed sha256Hex ++ other.destination) := by
  unfold destination at h
  split at h
  · obtain ⟨hFirst, hPieces⟩ := List.cons.inj h
    cases hId : request.target.deviceId with
    | none =>
      rw [hId] at hPieces
      have hEmpty : pieces "" = [[]] := by decide
      have hLen := congrArg List.length hPieces
      rw [Option.getD_none, hEmpty, length_append, length_append] at hLen
      simp only [signed, length_cons, length_nil] at hLen
      omega
    | some deviceId =>
      rw [hId, Option.getD_some] at hPieces
      have hDevice := request.target.hDevice.mpr (by rw [hId]; rfl)
      have hMode : request.target.mode = some .device := by
        cases hIs : request.target.mode with
        | none => rw [hIs] at hDevice; cases hDevice
        | some mode => rw [hIs] at hDevice; exact congrArg some hDevice
      refine ⟨hMode, ?_, deviceId, rfl, hPieces⟩
      rw [← hFirst, hDevice]
  · cases h

theorem spliced_of_named_lt (hDig : Digest sha256Hex) (hLen : request.named.length < other.named.length)
    (h : request.named ++ (request.signed sha256Hex ++ request.destination) =
      other.named ++ (other.signed sha256Hex ++ other.destination)) : request.SplicedInto sha256Hex other := by
  obtain ⟨x, hNamed, hRest⟩ | ⟨x, hNamed, hRest⟩ := append_eq_append_iff.mp h
  · have hSigned : (request.payloadHash sha256Hex).toList :: request.kind.text.toList :: request.subject.text.toList ::
        request.destination = x ++ ((other.payloadHash sha256Hex).toList :: other.kind.text.toList ::
          other.subject.text.toList :: other.destination) := hRest
    cases x with
    | nil =>
      rw [hNamed, append_nil] at hLen
      exact absurd hLen (lt_irrefl _)
    | cons a x =>
      obtain ⟨rfl, hKinds⟩ := List.cons.inj hSigned
      cases x with
      | nil => exact absurd (List.cons.inj hKinds).1 (ne_payloadHash hDig (length_kind _))
      | cons b x =>
        obtain ⟨rfl, hSubjects⟩ := List.cons.inj hKinds
        cases x with
        | nil => exact absurd (List.cons.inj hSubjects).1 (ne_payloadHash hDig (length_subject _))
        | cons c x =>
          obtain ⟨rfl, hDestination⟩ := List.cons.inj hSubjects
          cases x with
          | nil =>
            have hCarries : request.destination = (other.payloadHash sha256Hex).toList :: other.kind.text.toList ::
                other.subject.text.toList :: other.destination := hDestination
            unfold destination at hCarries
            split at hCarries
            · exact absurd (List.cons.inj hCarries).1 (ne_payloadHash hDig (length_mode _))
            · cases hCarries
          | cons d between =>
            obtain ⟨hMode, rfl, deviceId, hId, hPieces⟩ := destination_carries hDestination
            exact ⟨hMode, deviceId, between, hId, hPieces, hNamed⟩
  · rw [hNamed, length_append] at hLen
    omega

theorem named_of_spliced (h : request.SplicedInto sha256Hex other) :
    request.named ++ (request.signed sha256Hex ++ request.destination) =
      other.named ++ (other.signed sha256Hex ++ other.destination) ∧ request.named.length < other.named.length := by
  obtain ⟨hMode, deviceId, between, hId, hPieces, hNamed⟩ := h
  have hDestination : request.destination = ExecutionTargetMode.device.text.toList :: pieces deviceId := by
    unfold destination
    rw [hMode, hId]
    rfl
  refine ⟨?_, ?_⟩
  · rw [hDestination, hPieces, hNamed, append_assoc, append_assoc, cons_append]
  · rw [hNamed, length_append, length_append, length_cons]
    omega

/-! ## What a proof authorizes -/

def AuthorizesOnly (sha256Hex : String → String) (request other : DispatchSubmitRequest) : Prop :=
  (submissionChallenge sha256Hex request = submissionChallenge sha256Hex other → request.SameAs other) ∧
    ∀ requestId method paramsHash, submissionChallenge sha256Hex request ≠ buildDeviceRequestChallenge requestId method paramsHash

theorem challenge_ne_device (hDig : Digest sha256Hex) (requestId : String) (method : DeviceRequestMethod) (paramsHash : String) :
    submissionChallenge sha256Hex request ≠ buildDeviceRequestChallenge requestId method paramsHash := by
  intro h
  have hVersion : pieces "device-request-v1" = ["device-request-v1".toList] := by decide
  have hPieces := congrArg pieces h
  unfold buildDeviceRequestChallenge at hPieces
  rw [pieces_challenge hDig, pieces_intercalate (cons_ne_nil _ _), flatMap_cons, hVersion] at hPieces
  exact absurd (List.cons.inj hPieces).1 (by decide)

/-- Of any two accepted submissions, a proof of one authorizes only it if and only if neither is spliced into the other. -/
theorem authorizesOnly_iff (hDigest : Digest sha256Hex) {value value' : Json}
    (hRequest : parseDispatchSubmitRequest value = .ok request) (hOther : parseDispatchSubmitRequest value' = .ok other) :
    AuthorizesOnly sha256Hex request other ↔
      ¬ (request.SplicedInto sha256Hex other ∨ other.SplicedInto sha256Hex request) := by
  have hOwn := conversationId_of_parse hRequest
  have hOwn' := conversationId_of_parse hOther
  constructor
  · rintro ⟨hSame, _⟩ (hSpliced | hSpliced)
    · obtain ⟨hPieces, hLength⟩ := named_of_spliced hSpliced
      have hOne := hSame ((challenge_eq_iff hDigest).mpr hPieces)
      unfold named at hLength
      rw [hOne.idempotencyKey, hOne.conversationId] at hLength
      exact absurd hLength (lt_irrefl _)
    · obtain ⟨hPieces, hLength⟩ := named_of_spliced hSpliced
      have hOne := hSame ((challenge_eq_iff hDigest).mpr hPieces.symm)
      unfold named at hLength
      rw [hOne.idempotencyKey, hOne.conversationId] at hLength
      exact absurd hLength (lt_irrefl _)
  · intro hApart
    refine ⟨fun hChallenge => ?_, challenge_ne_device hDigest⟩
    have hPieces := (challenge_eq_iff hDigest).mp hChallenge
    obtain hLess | hEqual | hMore := lt_trichotomy request.named.length other.named.length
    · exact absurd (Or.inl (spliced_of_named_lt hDigest hLess hPieces)) hApart
    · exact sameAs_of_named_length hDigest hOwn hOwn' hEqual hPieces
    · exact absurd (Or.inr (spliced_of_named_lt hDigest hMore hPieces.symm)) hApart

/-! ### A proof of two submissions -/

def firstHash : String := "63b7204c45a51466db9e7d78bb21832c042df41b5c0754c6c340ce35dd3c08b8"

def secondHash : String := "9f5ac6cf4b83619f03098de8085c884e510dcd34b86234549febf2ae18796506"

def splicedConversation : String := "c:" ++ firstHash ++ ":chat:portable:device"

def payloadValue (conversationId : String) : Json :=
  .object [("schemaVersion", .number 1), ("prompt", .string "Hi"), ("conversationId", .string conversationId),
    ("clientMsgId", .string "m1")]

def submissionValue (conversationId : String) (target : List (String × Json)) : Json :=
  .object ([("protocol", .number 1), ("idempotencyKey", .string "key-0001"), ("kind", .string "chat"),
    ("ingress", .string "mobile"), ("subject", .string "portable"), ("conversationId", .string conversationId),
    ("payload", payloadValue conversationId)] ++ target)

def submission (conversationId : String) (target : DispatchTarget) : DispatchSubmitRequest where
  idempotencyKey := "key-0001"
  kind := .chat
  ingress := .mobile
  subject := .portable
  target
  requestingDeviceId := none
  conversationId
  parentTurnId := none
  threadId := none
  requiredCapabilities := [.chat]
  payload := { prompt := "Hi", conversationId, clientMsgId := "m1" }

def splicedDevice : String := secondHash ++ ":chat:portable"

def deviceSubmission : DispatchSubmitRequest := submission "c" ⟨some .device, some splicedDevice, by decide⟩

def untargetedSubmission : DispatchSubmitRequest := submission splicedConversation ⟨none, none, by decide⟩

def deviceValue : Json := submissionValue "c" [("targetMode", .string "device"), ("targetDeviceId", .string splicedDevice)]

def untargetedValue : Json := submissionValue splicedConversation []

theorem deviceSubmission_parsed : parseDispatchSubmitRequest deviceValue = .ok deviceSubmission := by
  decide +kernel

theorem untargetedSubmission_parsed : parseDispatchSubmitRequest untargetedValue = .ok untargetedSubmission := by
  decide +kernel

def plainWord (c : Char) : List Char := if c = ':' then ['a', 'a'] else ['b', c]

theorem plainWord_head (c : Char) : ∃ x word, plainWord c = x :: word ∧ x ≠ ':' := by
  unfold plainWord
  split <;> exact ⟨_, _, rfl, by decide⟩

theorem plainWord_free (a b : Char) (u v : List Char) (h : plainWord a ++ u = plainWord b ++ v) : a = b := by
  unfold plainWord at h
  split at h
  · next hA =>
    split at h
    · next hB => exact hA.trans hB.symm
    · cases (List.cons.inj h).1
  · split at h
    · cases (List.cons.inj h).1
    · exact (List.cons.inj (List.cons.inj h).2).1

theorem colon_notMem_plainWord (c : Char) : ':' ∉ plainWord c := by
  unfold plainWord
  split
  · decide
  · next hOther =>
    rw [mem_cons, mem_singleton, not_or]
    exact ⟨by decide, fun hEq => hOther hEq.symm⟩

def exampleDigest (text : String) : String :=
  if text = canonicalDispatchPayloadJson deviceSubmission.payload then firstHash
  else if text = canonicalDispatchPayloadJson untargetedSubmission.payload then secondHash
  else String.ofList ("xxxxxxxxxx".toList ++ text.toList.flatMap plainWord)

theorem exampleDigest_cases (text : String) :
    (text = canonicalDispatchPayloadJson deviceSubmission.payload ∧ exampleDigest text = firstHash) ∨
      (text = canonicalDispatchPayloadJson untargetedSubmission.payload ∧ exampleDigest text = secondHash) ∨
      exampleDigest text = String.ofList ("xxxxxxxxxx".toList ++ text.toList.flatMap plainWord) := by
  unfold exampleDigest
  split
  · next hFirst => exact .inl ⟨hFirst, rfl⟩
  · split
    · next hSnd => exact .inr (.inl ⟨hSnd, rfl⟩)
    · exact .inr (.inr rfl)

theorem head_plain (text : String) :
    (String.ofList ("xxxxxxxxxx".toList ++ text.toList.flatMap plainWord)).toList.head? = some 'x' := by
  rw [String.toList_ofList]
  rfl

theorem exampleDigest_digest : Digest exampleDigest where
  injective a b h := by
    have hFirst : firstHash.toList.head? = some '6' := by decide
    have hSnd : secondHash.toList.head? = some '9' := by decide
    have hHeads : (exampleDigest a).toList.head? = (exampleDigest b).toList.head? := by rw [h]
    obtain ⟨hA, hIsA⟩ | ⟨hA, hIsA⟩ | hIsA := exampleDigest_cases a <;>
      obtain ⟨hB, hIsB⟩ | ⟨hB, hIsB⟩ | hIsB := exampleDigest_cases b <;>
      rw [hIsA, hIsB] at hHeads h <;>
      simp only [hFirst, hSnd, head_plain] at hHeads
    · exact hA.trans hB.symm
    all_goals cases hHeads
    · exact hA.trans hB.symm
    · have hChars : "xxxxxxxxxx".toList ++ a.toList.flatMap plainWord = "xxxxxxxxxx".toList ++ b.toList.flatMap plainWord :=
        (String.toList_ofList.symm.trans (congrArg String.toList h)).trans String.toList_ofList
      have hWords := append_cancel_left hChars
      have hStop : a.toList.flatMap plainWord ++ ':' :: [] = b.toList.flatMap plainWord ++ ':' :: [] := by rw [hWords]
      exact String.toList_injective (JsonText.flatMap_append_inj plainWord_head plainWord_free hStop).1
  plain text := by
    obtain ⟨_, hIs⟩ | ⟨_, hIs⟩ | hIs := exampleDigest_cases text
    · rw [hIs]
      decide
    · rw [hIs]
      decide
    · rw [hIs, String.toList_ofList, mem_append, not_or]
      refine ⟨by decide, fun hIn => ?_⟩
      obtain ⟨c, _, hWord⟩ := mem_flatMap.mp hIn
      exact colon_notMem_plainWord c hWord
  long text := by
    obtain ⟨_, hIs⟩ | ⟨_, hIs⟩ | hIs := exampleDigest_cases text
    · rw [hIs]
      decide
    · rw [hIs]
      decide
    · rw [hIs, String.toList_ofList, length_append]
      have hTen : "xxxxxxxxxx".toList.length = 10 := by decide
      omega

theorem authorizesOnly_of_submissions : AuthorizesOnly exampleDigest deviceSubmission untargetedSubmission ↔
    ¬ (deviceSubmission.SplicedInto exampleDigest untargetedSubmission ∨
      untargetedSubmission.SplicedInto exampleDigest deviceSubmission) :=
  authorizesOnly_iff exampleDigest_digest deviceSubmission_parsed untargetedSubmission_parsed

/-- A proof for a device in one conversation authorizes a request without a target in another. -/
theorem splicedSubmissions_share : parseDispatchSubmitRequest deviceValue = .ok deviceSubmission ∧
    parseDispatchSubmitRequest untargetedValue = .ok untargetedSubmission ∧
    ¬ AuthorizesOnly exampleDigest deviceSubmission untargetedSubmission := by
  refine ⟨deviceSubmission_parsed, untargetedSubmission_parsed, fun h => ?_⟩
  have hChallenge : submissionChallenge exampleDigest deviceSubmission = submissionChallenge exampleDigest untargetedSubmission := by
    decide +kernel
  have hConversation := (h.1 hChallenge).conversationId
  revert hConversation
  decide

end DispatchSubmitRequest

end Stella.Pairing
