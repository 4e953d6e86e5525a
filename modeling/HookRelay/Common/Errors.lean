import HookRelay.Data.Text

/-!
# Domain errors

The error registry (`errors.ts`): every error a service raises on purpose has a
stable `code` that clients branch on, an HTTP status, a message and, for some,
details.  `ServiceError` is what a service call can fail with: one of those, or
an error of the database client that no `catch` has turned into one.
`GlobalExceptionFilter.catchError` is the answer that a failed call gets.
-/

namespace HookRelay

/-- A value in the `details` of an error. -/
inductive Detail where
  | str (s : Text)
  | num (n : ℕ)
  deriving DecidableEq

/-- `DomainException`. -/
structure DomainException where
  status : ℕ
  code : String
  message : Text
  details : List (String × Detail)
  deriving DecidableEq

/-- How a service call fails. -/
inductive ServiceError where
  /-- A domain error. -/
  | domain (e : DomainException)
  /-- `PrismaClientKnownRequestError` with code `P2002`: a unique index was violated. -/
  | uniqueViolation
  /-- `P2003`: a row that another one refers to does not exist. -/
  | foreignKeyViolation
  /-- `P2025`: the row to update does not exist. -/
  | recordNotFound
  /-- The database client refused a value: an invalid `Date`, or an id that is not a UUID. -/
  | invalidValue
  /-- The database is unreachable, a transaction timed out, and so on. -/
  | unavailable
  deriving DecidableEq

namespace Errors

def invalidApiKey : DomainException :=
  ⟨401, "INVALID_API_KEY", "유효한 API 키가 필요합니다.".toList, []⟩

def tenantSuspended : DomainException :=
  ⟨403, "TENANT_SUSPENDED", "정지된 테넌트입니다.".toList, []⟩

def tenantNameExists : DomainException :=
  ⟨409, "TENANT_NAME_EXISTS", "이미 존재하는 테넌트 이름입니다.".toList, []⟩

def endpointNotFound : DomainException :=
  ⟨404, "ENDPOINT_NOT_FOUND", "endpoint를 찾을 수 없습니다.".toList, []⟩

def endpointUrlExists : DomainException :=
  ⟨409, "ENDPOINT_URL_EXISTS", "이미 등록된 URL입니다.".toList, []⟩

def unsafeEndpointUrl (reason : Text) : DomainException :=
  ⟨400, "UNSAFE_ENDPOINT_URL", "등록할 수 없는 URL입니다: ".toList ++ reason,
    [("reason", .str reason)]⟩

def duplicateEvent (eventId : Uuid) : DomainException :=
  ⟨409, "DUPLICATE_EVENT", "같은 멱등성 키로 이미 발행된 이벤트가 있습니다.".toList,
    [("eventId", .str eventId.text)]⟩

def payloadTooLarge (sizeBytes limitBytes : ℕ) : DomainException :=
  ⟨413, "PAYLOAD_TOO_LARGE", "payload가 허용 크기를 초과했습니다.".toList,
    [("sizeBytes", .num sizeBytes), ("limitBytes", .num limitBytes)]⟩

def rateLimited (retryAfterSec : ℕ) : DomainException :=
  ⟨429, "RATE_LIMITED", "발행 한도를 초과했습니다. Retry-After 후에 다시 시도하세요.".toList,
    [("retryAfterSec", .num retryAfterSec)]⟩

def eventNotFound : DomainException :=
  ⟨404, "EVENT_NOT_FOUND", "이벤트를 찾을 수 없습니다.".toList, []⟩

def deliveryNotFound : DomainException :=
  ⟨404, "DELIVERY_NOT_FOUND", "배달을 찾을 수 없습니다.".toList, []⟩

def invalidCursor : DomainException :=
  ⟨400, "INVALID_CURSOR", "커서 형식이 올바르지 않습니다.".toList, []⟩

end Errors

/-- The answer to a request that failed. -/
structure ErrorResponse where
  status : ℕ
  code : String
  message : Text
  details : List (String × Detail)
  /-- The `Retry-After` header. -/
  retryAfter : Option ℕ
  deriving DecidableEq

namespace GlobalExceptionFilter

/-- `details?.retryAfterSec`, if it is a number. -/
def retryAfterSec (details : List (String × Detail)) : Option ℕ :=
  (details.lookup "retryAfterSec").bind fun
    | .num n => some n
    | .str _ => none

/-- `catch`, for what a service call fails with: an error that is not a domain error shows
nothing of itself. -/
def catchError : ServiceError → ErrorResponse
  | .domain e => ⟨e.status, e.code, e.message, e.details, retryAfterSec e.details⟩
  | .uniqueViolation | .foreignKeyViolation | .recordNotFound | .invalidValue | .unavailable =>
      ⟨500, "INTERNAL_ERROR", "서버 오류가 발생했습니다.".toList, [], none⟩

end GlobalExceptionFilter

end HookRelay
