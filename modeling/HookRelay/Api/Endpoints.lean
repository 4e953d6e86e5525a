import HookRelay.Security.Ssrf
import HookRelay.Data.Transactions

/-!
# The endpoints service

`endpoints.service.ts`: registration, listing, changes, subscriptions and ping.  A call is
a function of the database; it fails with a `ServiceError` and leaves the database as it
is, or gives its answer and the database afterwards.  Every query is scoped by the
tenant in the way the source does it: by `findScoped` first, and then by the bare id.
-/

namespace HookRelay

open Lib

/-- What a call takes from outside the database: the time, the configuration of the URL
filter, the URL parser, the resolver, the UUIDs and the secret it draws, and the
encryption of secrets. -/
structure Env where
  now : Micros
  ssrf : SsrfConfig
  newUrl : Text → Option Url
  resolve : Text → Option (List Text)
  randomUuid : ℕ → Uuid
  secret : Text
  encrypt : Text → Text

/-- What comes of a call: an error, or an answer and the database afterwards. -/
abbrev Outcome (α : Type) := Except ServiceError (α × Database)

namespace EndpointsService

/-- What the API shows of an endpoint. -/
structure View where
  id : Uuid
  url : Text
  description : Option Text
  status : EndpointStatus
  consecutiveFailures : ℕ
  createdAt : ℕ
  deriving DecidableEq

def toView (e : EndpointRow) : View :=
  { id := e.id, url := e.url, description := e.description, status := e.status,
    consecutiveFailures := e.consecutiveFailures, createdAt := jsDate e.createdAt }

/-- `findFirst({ where: { id, tenantId } })`. -/
def findScoped (db : Database) (tenantId id : Uuid) : Option EndpointRow :=
  db.endpoints.rows.find? fun e => e.id = id && e.tenantId = tenantId

/-- The event types an endpoint has subscribed to. -/
def eventTypes (db : Database) (endpointId : Uuid) : List Text :=
  (db.subscriptions.rows.filter fun row => row.endpointId = endpointId).map
    SubscriptionRow.eventType

/-- `data` of `endpoint.create`, with the defaults of the schema. -/
def newEndpoint (env : Env) (tenantId : Uuid) (url : Text) (description : Option Text) :
    EndpointRow :=
  { id := env.randomUuid 0, tenantId := tenantId, url := url, secretEnc := env.encrypt env.secret,
    status := .active, description := description, consecutiveFailures := 0,
    createdAt := env.now, updatedAt := env.now }

/-- `create`: the view of the new endpoint, and its secret. -/
def create (env : Env) (tenantId : Uuid) (url : Text) (description : Option Text)
    (db : Database) : Outcome (View × Text) :=
  match assertDeliverableUrl env.ssrf env.newUrl env.resolve url with
  | .error e => .error (.domain e)
  | .ok () =>
      if db.urlTaken tenantId url none then .error (.domain Errors.endpointUrlExists)
      else
        match db.endpoints.insert? (newEndpoint env tenantId url description) with
        | none => .error .uniqueViolation
        | some endpoints =>
            .ok ((toView (newEndpoint env tenantId url description), env.secret),
              { db with endpoints := endpoints })

/-- `list`: the newest endpoint first, each with its event types. -/
def list (tenantId : Uuid) (db : Database) : Outcome (List (View × List Text)) :=
  let endpoints := (db.endpoints.rows.filter fun e => e.tenantId = tenantId).insertionSort
    fun a b => b.createdAt ≤ a.createdAt
  .ok (endpoints.map fun e => (toView e, sortTexts (eventTypes db e.id)), db)

/-- `get`. -/
def get (tenantId id : Uuid) (db : Database) : Outcome (View × List Text) :=
  match findScoped db tenantId id with
  | none => .error (.domain Errors.endpointNotFound)
  | some e => .ok ((toView e, sortTexts (eventTypes db id)), db)

/-- `data` of `endpoint.update`: what the request leaves out stays as it is, and a manual
activation resets the counter of failures. -/
def updateData (now : Micros) (url : Option Text) (description : Option (Option Text))
    (status : Option EndpointStatus) (e : EndpointRow) : EndpointRow :=
  { e with
    url := url.getD e.url
    description := description.getD e.description
    status := status.getD e.status
    consecutiveFailures := if status = some .active then 0 else e.consecutiveFailures
    updatedAt := now }

theorem updateData_id (now : Micros) (url : Option Text) (description : Option (Option Text))
    (status : Option EndpointStatus) (e : EndpointRow) :
    (updateData now url description status e).id = e.id := rfl

/-- `update`. -/
def update (env : Env) (tenantId id : Uuid) (url : Option Text)
    (description : Option (Option Text)) (status : Option EndpointStatus) (db : Database) :
    Outcome View :=
  match findScoped db tenantId id with
  | none => .error (.domain Errors.endpointNotFound)
  | some e =>
      let checked := match url with
        | some u => assertDeliverableUrl env.ssrf env.newUrl env.resolve u
        | none => .ok ()
      match checked with
      | .error err => .error (.domain err)
      | .ok () =>
          if db.urlTaken e.tenantId (url.getD e.url) (some id) then .error .uniqueViolation
          else .ok (toView (updateData env.now url description status e),
            { db with
              endpoints := db.endpoints.modify id (updateData env.now url description status)
                (updateData_id env.now url description status) })

/-- `setSubscriptions`: the given types replace what was there. -/
def setSubscriptions (tenantId id : Uuid) (eventTypes : List Text) (db : Database) :
    Outcome (Uuid × List Text) :=
  match findScoped db tenantId id with
  | none => .error (.domain Errors.endpointNotFound)
  | some _ => .ok ((id, sortTexts eventTypes.eraseDups), db.setSubscriptionsTx id eventTypes.eraseDups)

/-- `` `ping:${deliveryId}` ``. -/
def pingKey (deliveryId : Uuid) : Text := "ping:".toList ++ deliveryId.text

/-- The event of a ping. -/
def pingEvent (env : Env) (tenantId endpointId : Uuid) : EventRow :=
  { id := env.randomUuid 0, tenantId := tenantId, type := "endpoint.ping".toList,
    payload := .obj [(ascii "ping", .bool true),
      (ascii "endpointId", .str (codeUnits endpointId.text))],
    idempotencyKey := pingKey (env.randomUuid 1), createdAt := env.now }

/-- `ping`: the event, the delivery and the endpoint. -/
def ping (env : Env) (tenantId endpointId : Uuid) (db : Database) : Outcome (Uuid × Uuid × Uuid) :=
  match findScoped db tenantId endpointId with
  | none => .error (.domain Errors.endpointNotFound)
  | some endpoint =>
      match db.pingTx env.now (pingEvent env tenantId endpointId) (env.randomUuid 1) endpoint.id
          db.outbox.next with
      | none => .error .uniqueViolation
      | some db' => .ok ((env.randomUuid 0, env.randomUuid 1, endpoint.id), db')

end EndpointsService

end HookRelay
