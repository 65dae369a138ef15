import LeadQueue.Queue.Record

/-!
# Sending

`send` turns whatever happened to one HTTP attempt into an `AttemptResult`. The
transport is a parameter: an exchange is an answer or one of the four ways in
which `post` raises.
-/

namespace LeadQueue

/-- An HTTP answer. `text` is the decoded body, `none` if it does not decode;
`size` is the body's length in bytes. -/
structure Response where
  statusCode : ℕ
  text : Option PyStr
  size : ℕ

/-- What `post` did. The messages are `{type(exc).__name__}: {exc}`. -/
inductive Exchange where
  | answered (response : Response)
  | deadlineExceeded
  | timeout (message : PyStr)
  | transportError (message : PyStr)
  | unexpected (message : PyStr)

/-- Error kind for a response, or `none` when it counts as delivered. -/
def classifyStatus (statusCode : ℕ) : Option ErrorKind :=
  if 200 ≤ statusCode ∧ statusCode < 300 then none
  else if 300 ≤ statusCode ∧ statusCode < 400 then some .httpRedirect
  else if statusCode ∈ [408, 425, 429] then some .httpRetryable
  else if 400 ≤ statusCode ∧ statusCode < 500 then some .httpClientError
  else some .httpServerError

theorem classifyStatus_eq_none_iff {statusCode : ℕ} :
    classifyStatus statusCode = none ↔ 200 ≤ statusCode ∧ statusCode < 300 := by
  unfold classifyStatus
  repeat' split
  all_goals simp_all

/-- `<N bytes, undecodable>`. -/
def undecodable (size : ℕ) : PyStr :=
  .ofString "<" ++ .ofNat size ++ .ofString " bytes, undecodable>"

/-- `_response_excerpt`. -/
def responseExcerpt (response : Response) (limit : ℕ) : Option PyStr :=
  match response.text with
  | none => some (undecodable response.size)
  | some text =>
      let text := PyStr.strip text
      if text = [] then none else some (text.take limit)

/-- `_failure`. -/
def failure (startedAt finishedAt : Instant) (kind : ErrorKind) (message : PyStr) :
    AttemptResult where
  succeeded := false
  errorKind := some kind
  statusCode := none
  responseExcerpt := some message
  startedAt := startedAt
  finishedAt := finishedAt

/-- `Sender.send`; the two instants are what the clock reads before the attempt
and after it. -/
def send (settings : Settings) (startedAt finishedAt : Instant) : Exchange → AttemptResult
  | .deadlineExceeded =>
      failure startedAt finishedAt .deadlineExceeded (.ofString "attempt deadline exceeded")
  | .timeout message => failure startedAt finishedAt .timeout message
  | .transportError message => failure startedAt finishedAt .connection message
  | .unexpected message => failure startedAt finishedAt .unexpectedError message
  | .answered response =>
      let errorKind := classifyStatus response.statusCode
      { succeeded := errorKind.isNone
        errorKind := errorKind
        statusCode := some response.statusCode
        responseExcerpt := responseExcerpt response settings.responseExcerptBytes
        startedAt := startedAt
        finishedAt := finishedAt }

/-- Success is exactly a 2xx answer. -/
theorem send_succeeded_iff {settings : Settings} {startedAt finishedAt : Instant}
    {exchange : Exchange} : (send settings startedAt finishedAt exchange).succeeded = true ↔
      ∃ response, exchange = .answered response ∧
        200 ≤ response.statusCode ∧ response.statusCode < 300 := by
  cases exchange with
  | answered response => simp [send, ← classifyStatus_eq_none_iff]
  | deadlineExceeded => simp [send, failure]
  | timeout message => simp [send, failure]
  | transportError message => simp [send, failure]
  | unexpected message => simp [send, failure]

/-! ## The excerpt of an answer -/

theorem zero_notMem_undecodable (size : ℕ) : (0 : CodePoint) ∉ undecodable size := by
  simp only [undecodable, List.mem_append, not_or]
  refine ⟨⟨by decide, fun h => ?_⟩, by decide⟩
  have := (PyStr.mem_ofNat h).1
  simp at this

/-- `_truncate` brings no U+0000 in, and leaves a text within the limit as it is. -/
theorem zero_mem_truncate_iff {text : Option PyStr} {limit : ℕ}
    (h : ∀ s ∈ text, (0 : CodePoint) ∈ s → s.length ≤ limit) :
    (∃ s ∈ truncate text limit, (0 : CodePoint) ∈ s) ↔ ∃ s ∈ text, (0 : CodePoint) ∈ s := by
  cases text with
  | none => simp [truncate]
  | some s =>
      simp only [truncate, Option.map_some, Option.mem_some_iff, exists_eq_left']
      split
      · exact Iff.rfl
      · rename_i hlong
        refine iff_of_false (fun hmem => ?_) (fun hmem => hlong (h s rfl hmem))
        rcases List.mem_append.mp hmem with hmem | hmem
        · exact hlong (h s rfl (List.mem_of_mem_take hmem))
        · simp [PyStr.ellipsis] at hmem

/-- The excerpt of an answer can be stored unless the part of the body that is
kept has a U+0000. -/
theorem excerpt_storable_iff (response : Response) (limit : ℕ) :
    (∃ t, textParam? (truncate (responseExcerpt response limit) limit) = .ok t) ↔
      ∀ text ∈ response.text, (0 : CodePoint) ∉ (PyStr.strip text).take limit := by
  rw [textParam?_isOk_iff]
  have hkept : ∀ s ∈ responseExcerpt response limit, (0 : CodePoint) ∈ s → s.length ≤ limit := by
    intro s hs hmem
    unfold responseExcerpt at hs
    split at hs
    · cases hs
      exact absurd hmem (zero_notMem_undecodable _)
    · dsimp only at hs
      split at hs
      · cases hs
      · cases hs
        exact List.length_take_le _ _
  have htruncate := not_congr (zero_mem_truncate_iff hkept)
  push Not at htruncate
  rw [htruncate]
  unfold responseExcerpt
  cases hbody : response.text with
  | none => simpa [hbody] using zero_notMem_undecodable response.size
  | some text =>
      by_cases hempty : PyStr.strip text = []
      · simp [hempty]
      · simp [hempty]

/-! ## Headers -/

/-- `build_headers`. -/
def buildHeaders (claim : ClaimedDelivery) (settings : Settings) : List (String × PyStr) :=
  [("Content-Type", .ofString "application/json"),
   ("User-Agent", settings.userAgent),
   ("Idempotency-Key", claim.deliveryId.str),
   ("X-Intake-Request-Id", claim.requestId.str),
   ("X-Intake-Source-Id", claim.sourceId.str),
   ("X-Intake-Attempt", .ofNat claim.attemptNumber)]

/-- The JSON body. `received_at` goes out as text. -/
structure Body where
  deliveryId : PyStr
  requestId : PyStr
  sourceId : PgText
  idempotencyKey : PgText
  receivedAt : Instant
  attempt : ℕ
  payload : Jsonb

/-- `build_body`. -/
def buildBody (claim : ClaimedDelivery) : Body where
  deliveryId := claim.deliveryId.str
  requestId := claim.requestId.str
  sourceId := claim.sourceId
  idempotencyKey := claim.idempotencyKey
  receivedAt := claim.receivedAt
  attempt := claim.attemptNumber
  payload := claim.payload

structure HttpRequest where
  url : PgText
  headers : List (String × PyStr)
  body : Body

/-- The request `post` makes. -/
def httpRequest (settings : Settings) (claim : ClaimedDelivery) : HttpRequest where
  url := claim.recipientUrl
  headers := buildHeaders claim settings
  body := buildBody claim

/-- A header value the client puts on the wire: ASCII with no control character. -/
def LegalHeaderValue (value : PyStr) : Prop := ∀ c ∈ value, 0x20 ≤ c.val ∧ c.val < 0x7f

instance (value : PyStr) : Decidable (LegalHeaderValue value) :=
  decidable_of_iff (value.all (fun c => decide (0x20 ≤ c.val) && decide (c.val < 0x7f)) = true)
    (by simp [LegalHeaderValue])

theorem legal_uuid (u : Uuid) : LegalHeaderValue u.str := by
  intro c hc
  rcases Uuid.mem_str hc with rfl | ⟨d, hd, rfl⟩
  · decide
  · rw [PyStr.digit_val hd]
    split <;> omega

theorem legal_ofNat (n : ℕ) : LegalHeaderValue (.ofNat n) := by
  intro c hc
  have := PyStr.mem_ofNat hc
  omega

/-- All of a claim's headers but two are legal whatever the lead is. -/
theorem buildHeaders_legal_iff (claim : ClaimedDelivery) (settings : Settings) :
    (∀ header ∈ buildHeaders claim settings, LegalHeaderValue header.2) ↔
      LegalHeaderValue settings.userAgent ∧ LegalHeaderValue claim.sourceId.str := by
  simp only [buildHeaders, List.forall_mem_cons, List.not_mem_nil, false_imp_iff, implies_true,
    and_true, legal_uuid, legal_ofNat, true_and]
  exact and_iff_right (by decide +kernel)

end LeadQueue
