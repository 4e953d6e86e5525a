import HookRelay.Security.Ssrf
import HookRelay.Data.Schema
import HookRelay.Data.Varchar

/-!
# The delivery HTTP client

`delivery-http.client.ts`: one delivery attempt over HTTP, classified.  The request
itself is a parameter: it gives a response or throws.

* `send` — the check of a literal host, the request, the classification.
* `send_ok_status` — only a 2xx response counts as a success.
* `body_head_accepted_iff` — when the head of the answer can be stored.
-/

namespace HookRelay

open Lib

/-- What a request throws: the filter's own error, or an error with the name and the
code of JavaScript's, which may wrap another one as its `cause`. -/
inductive Thrown where
  | ssrfBlocked (reason : Text)
  | error (name code : Option String) (text : CodeUnits)
  | wrapped (name code : Option String) (text : CodeUnits) (cause : Thrown)

/-- `String(error)`. -/
def Thrown.toText : Thrown → CodeUnits
  | .ssrfBlocked reason => codeUnits ("SsrfBlockedError: SSRF 차단: ".toList ++ reason)
  | .error _ _ text => text
  | .wrapped _ _ text _ => text

/-- `err.name` or `err.code` says that the request was aborted. -/
def isAbort (name code : Option String) : Bool :=
  name = some "TimeoutError" || name = some "AbortError" || code = some "UND_ERR_ABORTED"

/-- `classifyFailure`. -/
def classifyFailure : Thrown → AttemptErrorClass
  | .ssrfBlocked _ => .ssrfBlocked
  | .error name code _ => if isAbort name code then .timeout else .connRefused
  | .wrapped name code _ cause => if isAbort name code then .timeout else classifyFailure cause

structure Response where
  statusCode : ℕ
  body : CodeUnits

/-- `AttemptOutcome`. -/
inductive AttemptOutcome where
  | ok (status : ℕ) (bodyHead : CodeUnits) (durationMs : ℤ)
  | failed (errorClass : AttemptErrorClass) (status : Option ℕ) (bodyHead : Option CodeUnits)
      (durationMs : ℤ)

/-- `BODY_HEAD_LIMIT`. -/
def bodyHeadLimit : ℕ := 1024

/-- The error of `new URL` on a text that is not a URL. -/
def invalidUrl : Thrown :=
  .error (some "TypeError") (some "ERR_INVALID_URL") (codeUnits "TypeError: Invalid URL".toList)

/-- The check of `send` for a host that is an address already, and so is never looked up. -/
def literalCheck (allowPrivate : Bool) (newUrl : Text → Option Url) (url : Text) :
    Except Thrown Unit :=
  if allowPrivate then .ok ()
  else
    match newUrl url with
    | none => .error invalidUrl
    | some u =>
        let hostname := stripBrackets u.hostname
        if isIP hostname ≠ 0 then
          match blockedIpReason hostname with
          | some reason => .error (.ssrfBlocked (hostname ++ " — ".toList ++ reason))
          | none => .ok ()
        else .ok ()

/-- The `lookup` hook of the agent: one blocked address refuses the connection. -/
def lookupHook (allowPrivate : Bool) (addresses : List Text) : Except Thrown (List Text) :=
  if allowPrivate then .ok addresses
  else
    match firstBlocked addresses with
    | some (reason, address) => .error (.ssrfBlocked (address ++ " — ".toList ++ reason))
    | none => .ok addresses

/-- The classification of what came of the request. -/
def outcomeOf (durationMs : ℤ) : Except Thrown Response → AttemptOutcome
  | .ok res =>
      let bodyHead := res.body.take bodyHeadLimit
      if 200 ≤ res.statusCode ∧ res.statusCode < 300 then .ok res.statusCode bodyHead durationMs
      else .failed (if 500 ≤ res.statusCode then .http5xx else .http4xx) (some res.statusCode)
        (some bodyHead) durationMs
  | .error e => .failed (classifyFailure e) none (some (e.toText.take bodyHeadLimit)) durationMs

/-- `send`: it throws nothing and always gives a classified outcome. -/
def send (allowPrivate : Bool) (newUrl : Text → Option Url) (url : Text)
    (request : Except Thrown Response) (durationMs : ℤ) : AttemptOutcome :=
  outcomeOf durationMs ((literalCheck allowPrivate newUrl url).bind fun _ => request)

/-- A success has a 2xx status. -/
theorem send_ok_status {allowPrivate : Bool} {newUrl : Text → Option Url} {url : Text}
    {request : Except Thrown Response} {durationMs : ℤ} {status : ℕ} {bodyHead : CodeUnits}
    {d : ℤ} (h : send allowPrivate newUrl url request durationMs = .ok status bodyHead d) :
    200 ≤ status ∧ status < 300 := by
  unfold send at h
  cases hr : (literalCheck allowPrivate newUrl url).bind fun _ => request with
  | error e => rw [hr] at h; simp [outcomeOf] at h
  | ok res =>
      rw [hr] at h
      simp only [outcomeOf] at h
      split_ifs at h with hs
      simp only [AttemptOutcome.ok.injEq] at h
      rw [← h.1]
      exact hs

/-! ## Storing the head of the answer -/

/-- `outcome.bodyHead`. -/
def AttemptOutcome.bodyHead : AttemptOutcome → Option CodeUnits
  | .ok _ bodyHead _ => some bodyHead
  | .failed _ _ bodyHead _ => bodyHead

/-- What `send` takes the head of: the body of the response, or the text of the error. -/
def answerText (allowPrivate : Bool) (newUrl : Text → Option Url) (url : Text)
    (request : Except Thrown Response) : CodeUnits :=
  match (literalCheck allowPrivate newUrl url).bind fun _ => request with
  | .ok res => res.body
  | .error e => e.toText

theorem bodyHead_send (allowPrivate : Bool) (newUrl : Text → Option Url) (url : Text)
    (request : Except Thrown Response) (durationMs : ℤ) :
    (send allowPrivate newUrl url request durationMs).bodyHead =
      some ((answerText allowPrivate newUrl url request).take bodyHeadLimit) := by
  unfold send answerText
  cases (literalCheck allowPrivate newUrl url).bind fun _ => request with
  | error e => rfl
  | ok res =>
      simp only [outcomeOf]
      split_ifs <;> rfl

/-- What the nullable column `response_body_head VARCHAR(1024)` accepts. -/
def bodyHeadAccepted (bodyHead : Option CodeUnits) : Bool := bodyHead.all (acceptsVarchar 1024)

/-- **When the head of the answer can be stored.**  Whatever the receiver answers or the error
says: the column accepts the head that `send` keeps of it exactly if none of its first 1024
code units is `U+0000`, none of them is an unpaired surrogate already in the answer, and the
cut after them does not fall inside a surrogate pair. -/
theorem body_head_accepted_iff (allowPrivate : Bool) (newUrl : Text → Option Url) (url : Text)
    (request : Except Thrown Response) (durationMs : ℤ) :
    bodyHeadAccepted (send allowPrivate newUrl url request durationMs).bodyHead = true ↔
      0 ∉ (answerText allowPrivate newUrl url request).take 1024 ∧
      (∀ i < 1024, ¬ UnpairedAt (answerText allowPrivate newUrl url request) i) ∧
      ¬ CutsPair 1024 (answerText allowPrivate newUrl url request) := by
  rw [bodyHead_send]
  exact acceptsVarchar_take_iff 1024 _

/-- A well-formed answer without `U+0000` that fits the column is stored. -/
theorem body_head_accepted_of_short {allowPrivate : Bool} {newUrl : Text → Option Url} {url : Text}
    {request : Except Thrown Response} {durationMs : ℤ} {t : Text}
    (ht : answerText allowPrivate newUrl url request = codeUnits t)
    (hnul : 0 ∉ codeUnits t) (hlen : (codeUnits t).length ≤ 1024) :
    bodyHeadAccepted (send allowPrivate newUrl url request durationMs).bodyHead = true := by
  rw [bodyHead_send, ht]
  refine (acceptsVarchar_take_iff 1024 _).2 ⟨fun h => hnul (List.mem_of_mem_take h),
    fun i _ => not_unpairedAt_codeUnits t i, ?_⟩
  rintro ⟨-, -, hlow⟩
  rw [lowAt, List.getElem?_eq_none hlen] at hlow
  cases hlow

/-- A receiver that answers `U+0000` cannot be recorded. -/
theorem body_head_refused_at_nul : ¬ (∀ (allowPrivate : Bool) (newUrl : Text → Option Url)
    (url : Text) (request : Except Thrown Response) (durationMs : ℤ) (t : Text),
    answerText allowPrivate newUrl url request = codeUnits t →
    bodyHeadAccepted (send allowPrivate newUrl url request durationMs).bodyHead = true) := by
  intro h
  have := h true (fun _ => none) [] (.ok ⟨200, codeUnits [nul]⟩) 5 [nul] rfl
  exact absurd this (by decide)

end HookRelay
