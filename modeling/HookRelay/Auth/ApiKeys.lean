import HookRelay.Common.Errors
import HookRelay.Data.Accounts
import HookRelay.Data.Buffer

/-!
# API keys

`api-key.util.ts`, `tenants.service.ts`, `api-keys.service.ts` and `api-key.guard.ts`.  Only
the hash of a key is stored; the hash is a parameter, and so are the random bytes and the
ids that are drawn.

* `TenantsService.createTx` — a tenant with its first key.
* `ApiKeysService.rotateTx` — the `ACTIVE` keys of a tenant to `GRACE`, and a new one.
* `ApiKeyGuard.check` — what `canActivate` makes of a header.
* `EndsBy` — a key that is not accepted from some time on.
-/

namespace HookRelay

open Lib

/-- What `generateApiKey` returns. -/
structure GeneratedKey where
  key : Text
  hash : Text
  last4 : Text

/-- `AuthenticatedTenant`. -/
structure AuthenticatedTenant where
  id : Uuid
  plan : TenantPlan
  deriving DecidableEq

/-- The prefix of every key. -/
def keyPrefix : Text := "sk_live_".toList

/-- `generateApiKey`, for the 32 bytes that `randomBytes` gave. -/
def generateApiKey (hashApiKey : Text → Text) (random : List ℕ) : GeneratedKey :=
  let key := keyPrefix ++ toBase64Url random
  { key := key, hash := hashApiKey key, last4 := key.drop (key.length - 4) }

/-- `apiKey.create({ data: { tenantId, keyHash, last4 } })`. -/
def newKey (now : Micros) (id tenantId : Uuid) (k : GeneratedKey) : ApiKeyRow :=
  { id := id, tenantId := tenantId, keyHash := k.hash, last4 := k.last4, status := .active,
    expiresAt := none, createdAt := now }

namespace TenantsService

/-- What `create` returns. -/
structure CreatedTenant where
  tenantId : Uuid
  name : Text
  plan : TenantPlan
  apiKey : Text
  apiKeyLast4 : Text

/-- `tenant.create` with `apiKeys: { create: … }`: one transaction. -/
def createTx (db : Accounts) (now : Micros) (tenantId keyId : Uuid) (name : Text)
    (plan : TenantPlan) (k : GeneratedKey) : Option Accounts :=
  (db.insertTenant? ⟨tenantId, name, plan, .active, now⟩).bind fun db =>
    db.insertKey? (newKey now keyId tenantId k)

/-- What `create` answers after its transaction. -/
def created (tenantId : Uuid) (name : Text) (plan : TenantPlan) (k : GeneratedKey) :
    CreatedTenant :=
  ⟨tenantId, name, plan, k.key, k.last4⟩

end TenantsService

namespace ApiKeysService

/-- `GRACE_PERIOD_MS`. -/
def gracePeriodMs : ℕ := 24 * 60 * 60 * 1000

/-- What `rotate` returns. -/
structure RotatedKey where
  apiKey : Text
  apiKeyLast4 : Text
  graceHours : ℕ

/-- `where: { tenantId, status: 'ACTIVE' }`. -/
def demotes (tenantId : Uuid) (k : ApiKeyRow) : Bool :=
  decide (k.tenantId = tenantId) && decide (k.status = .active)

/-- `data: { status: 'GRACE', expiresAt: new Date(date + GRACE_PERIOD_MS) }`, where `date` is
`Date.now()`. -/
def demotedData (date : ℕ) (k : ApiKeyRow) : ApiKeyRow :=
  { k with status := .grace, expiresAt := some ((date + gracePeriodMs) * 1000) }

theorem demotedData_id (date : ℕ) (k : ApiKeyRow) : (demotedData date k).id = k.id := rfl

/-- `apiKey.updateMany`. -/
def demote (db : Accounts) (tenantId : Uuid) (date : ℕ) : Accounts :=
  { db with
    apiKeys := db.apiKeys.modifyMany (demotes tenantId) (demotedData date) (demotedData_id date) }

/-- The transaction of `rotate`. -/
def rotateTx (db : Accounts) (now : Micros) (tenantId keyId : Uuid) (date : ℕ)
    (k : GeneratedKey) : Option Accounts :=
  (demote db tenantId date).insertKey? (newKey now keyId tenantId k)

/-- What a transaction of `rotate` that is refused ends with. -/
def rotateError (db : Accounts) (keyId : Uuid) (k : GeneratedKey) : ServiceError :=
  if db.hashTaken k.hash || (db.apiKeys.find? keyId).isSome then .uniqueViolation
  else .foreignKeyViolation

/-- What `rotate` answers after its transaction. -/
def rotated (k : GeneratedKey) : RotatedKey := ⟨k.key, k.last4, 24⟩

end ApiKeysService

namespace ApiKeyGuard

/-- The key in an `Authorization` header. -/
def keyOf (header : Option Text) : Text :=
  let header := header.getD []
  if "Bearer ".toList.isPrefixOf header then header.drop "Bearer ".toList.length else []

/-- What `canActivate` does with a header. -/
inductive Checked where
  | accepted (tenant : AuthenticatedTenant)
  /-- The header holds no key, or the key is not stored. -/
  | unknown
  | revoked
  /-- A `GRACE` key whose time is up: it is set to `REVOKED` before the request is refused. -/
  | expired (id : Uuid)
  | suspended
  deriving DecidableEq

/-- `apiKey.findUnique({ where: { keyHash }, include: { tenant: true } })`. -/
def findUnique (db : Accounts) (keyHash : Text) : Option (ApiKeyRow × TenantRow) :=
  (db.keyByHash keyHash).bind fun k => (db.tenants.find? k.tenantId).map fun t => (k, t)

/-- `apiKey.expiresAt === null || apiKey.expiresAt.getTime() <= Date.now()`. -/
def timeIsUp (now : Micros) (k : ApiKeyRow) : Bool :=
  k.expiresAt.all fun expiresAt => jsDate expiresAt ≤ jsDate now

/-- `canActivate` after its query. -/
def checkRow (now : Micros) (k : ApiKeyRow) (t : TenantRow) : Checked :=
  if k.status = .revoked then .revoked
  else if k.status = .grace ∧ timeIsUp now k = true then .expired k.id
  else if t.status ≠ .active then .suspended
  else .accepted ⟨k.tenantId, t.plan⟩

/-- `canActivate`, up to the update of an expired key. -/
def check (hashApiKey : Text → Text) (db : Accounts) (now : Micros) (header : Option Text) :
    Checked :=
  if keyPrefix.isPrefixOf (keyOf header) then
    (findUnique db (hashApiKey (keyOf header))).elim .unknown fun row => checkRow now row.1 row.2
  else .unknown

/-- `data: { status: 'REVOKED' }`. -/
def revokedData (k : ApiKeyRow) : ApiKeyRow := { k with status := .revoked }

theorem revokedData_id (k : ApiKeyRow) : (revokedData k).id = k.id := rfl

/-- `apiKey.update` of an expired key. -/
def revoke (db : Accounts) (id : Uuid) : Accounts :=
  { db with apiKeys := db.apiKeys.modify id revokedData revokedData_id }

end ApiKeyGuard

/-! ## When a key ends -/

/-- The key is `REVOKED`, or it is a `GRACE` key that expires at `time` or before. -/
def EndsBy (k : ApiKeyRow) (time : ℕ) : Prop :=
  k.status = .revoked ∨ k.status = .grace ∧ ∀ expiresAt ∈ k.expiresAt, jsDate expiresAt ≤ time

variable {k : ApiKeyRow} {t : TenantRow} {now : Micros} {time : ℕ}

theorem EndsBy.not_active (h : EndsBy k time) : k.status ≠ .active := by
  rcases h with h | ⟨h, -⟩ <;> simp [h]

theorem endsBy_demotedData (date : ℕ) (k : ApiKeyRow) :
    EndsBy (ApiKeysService.demotedData date k) (date + ApiKeysService.gracePeriodMs) := by
  refine .inr ⟨rfl, ?_⟩
  intro e he
  cases he
  exact le_of_eq (Nat.mul_div_cancel _ (by decide))

theorem endsBy_revokedData (k : ApiKeyRow) : EndsBy (ApiKeyGuard.revokedData k) time := .inl rfl

namespace ApiKeyGuard

/-- A key that has ended is not accepted. -/
theorem lt_of_accepted {tenant : AuthenticatedTenant} (hk : EndsBy k time)
    (h : checkRow now k t = .accepted tenant) : jsDate now < time := by
  unfold checkRow at h
  split_ifs at h with hrevoked hexpired hsuspended
  rcases hk with hk | ⟨hgrace, hk⟩
  · exact absurd hk hrevoked
  · by_contra hlt
    refine hexpired ⟨hgrace, ?_⟩
    cases he : k.expiresAt with
    | none => simp [timeIsUp, he]
    | some e =>
        have hle := hk e he
        simp only [timeIsUp, he, Option.all_some, decide_eq_true_eq]
        omega

/-- A key that is refused as revoked or expired has ended. -/
theorem endsBy_of_refused
    (h : checkRow now k t = .revoked ∨ ∃ id, checkRow now k t = .expired id) :
    EndsBy k (jsDate now) := by
  unfold checkRow at h
  split_ifs at h with hrevoked hexpired
  · exact .inl hrevoked
  · refine .inr ⟨hexpired.1, ?_⟩
    intro e he
    simpa [timeIsUp, Option.mem_def.1 he] using hexpired.2
  all_goals simp at h

theorem id_of_expired {id : Uuid} (h : checkRow now k t = .expired id) : id = k.id := by
  unfold checkRow at h
  split_ifs at h
  cases h
  rfl

end ApiKeyGuard

end HookRelay
