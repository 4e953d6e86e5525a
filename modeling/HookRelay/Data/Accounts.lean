import HookRelay.Data.Schema

/-!
# Tenants and their keys

The two tables of `schema.prisma` that authentication rests on, with all their columns, and
the statements that write them.  Both have a UUID as their key; `nameTaken` and `hashTaken`
are the other unique indexes, on `Tenant.name` and on `ApiKey.keyHash`.  A key refers to its
tenant, and no row of either table is ever deleted.
-/

namespace HookRelay

open Lib

inductive TenantPlan where
  | free | pro
  deriving DecidableEq, Repr

inductive TenantStatus where
  | active | suspended
  deriving DecidableEq, Repr

inductive ApiKeyStatus where
  | active | grace | revoked
  deriving DecidableEq, Repr

/-- `Tenant`. -/
structure TenantRow where
  id : Uuid
  name : Text
  plan : TenantPlan
  status : TenantStatus
  createdAt : Micros
  deriving DecidableEq

/-- `ApiKey`. -/
structure ApiKeyRow where
  id : Uuid
  tenantId : Uuid
  keyHash : Text
  last4 : Text
  status : ApiKeyStatus
  expiresAt : Option Micros
  createdAt : Micros
  deriving DecidableEq

structure Accounts where
  tenants : Table Uuid TenantRow TenantRow.id
  apiKeys : Table Uuid ApiKeyRow ApiKeyRow.id

namespace Accounts

def empty : Accounts := ⟨∅, ∅⟩

/-- `Tenant.name @unique`. -/
def nameTaken (db : Accounts) (name : Text) : Bool :=
  db.tenants.rows.any fun t => t.name = name

/-- `ApiKey.keyHash @unique`. -/
def hashTaken (db : Accounts) (keyHash : Text) : Bool :=
  db.apiKeys.rows.any fun k => k.keyHash = keyHash

/-- `apiKey.findUnique({ where: { keyHash } })`. -/
def keyByHash (db : Accounts) (keyHash : Text) : Option ApiKeyRow :=
  db.apiKeys.rows.find? fun k => k.keyHash = keyHash

/-- `tenant.create`, without the keys. -/
def insertTenant? (db : Accounts) (t : TenantRow) : Option Accounts :=
  if db.nameTaken t.name then none
  else (db.tenants.insert? t).map fun tenants => { db with tenants := tenants }

/-- `apiKey.create`. -/
def insertKey? (db : Accounts) (k : ApiKeyRow) : Option Accounts :=
  if db.hashTaken k.keyHash || (db.tenants.find? k.tenantId).isNone then none
  else (db.apiKeys.insert? k).map fun apiKeys => { db with apiKeys := apiKeys }

/-! ## What they do -/

variable {db db' : Accounts} {t : TenantRow} {k : ApiKeyRow} {h : Text}

theorem insertTenant?_eq_some (hs : db.insertTenant? t = some db') :
    db'.tenants.rows = db.tenants.rows ++ [t] ∧ db'.apiKeys = db.apiKeys := by
  unfold insertTenant? at hs
  split_ifs at hs
  obtain ⟨tenants, hins, rfl⟩ := Option.map_eq_some_iff.1 hs
  exact ⟨(Table.insert?_eq_some_iff.1 hins).2, rfl⟩

theorem insertKey?_eq_some (hs : db.insertKey? k = some db') :
    db.hashTaken k.keyHash = false ∧ db.apiKeys.find? k.id = none ∧
    db'.apiKeys.rows = db.apiKeys.rows ++ [k] ∧ db'.tenants = db.tenants := by
  unfold insertKey? at hs
  split_ifs at hs with htaken
  obtain ⟨apiKeys, hins, rfl⟩ := Option.map_eq_some_iff.1 hs
  obtain ⟨hfresh, hrows⟩ := Table.insert?_eq_some_iff.1 hins
  rw [Bool.or_eq_true, not_or] at htaken
  exact ⟨by simpa using htaken.1, hfresh, hrows, rfl⟩

theorem hashTaken_eq_false : db.hashTaken h = false ↔ ∀ k ∈ db.apiKeys.rows, k.keyHash ≠ h := by
  simp [hashTaken]

theorem mem_of_keyByHash (hk : db.keyByHash h = some k) : k ∈ db.apiKeys.rows ∧ k.keyHash = h :=
  ⟨List.mem_of_find?_eq_some hk, by simpa using List.find?_some hk⟩

end Accounts

end HookRelay
