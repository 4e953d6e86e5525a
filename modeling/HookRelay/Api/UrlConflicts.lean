import HookRelay.Lib.Transition
import HookRelay.Api.Endpoints

/-!
# Endpoints with the same URL

Any number of calls of `EndpointsService.create` and `EndpointsService.update` at once, each
taken apart at its awaits; in between, workers change endpoints in their way.  A write that
would give two endpoints of a tenant the same URL is refused by the unique index.

* `Phase` — where a call stands; `step` — one step of a call.
* `conflicts` — the URL a call asks for belongs to another endpoint of the tenant.
* `Ended` — how a call ended, and whether its last query or its write met a conflict.
* `conflicts_reported_iff` — conflicts are reported as such exactly in the runs in which no
  write meets one: only the query that `create` makes before its write reports it.
-/

namespace HookRelay

open Lib EndpointsService

namespace UrlConflicts

inductive Call where
  | create (env : Env) (tenantId : Uuid) (url : Text) (description : Option Text)
  | update (env : Env) (tenantId id : Uuid) (url : Option Text)
      (description : Option (Option Text)) (status : Option EndpointStatus)

inductive Answer where
  | created (view : View) (secret : Text)
  | updated (view : View)

/-- Where a call stands: what it does next. -/
inductive Phase where
  /-- `update`: `findScoped`. -/
  | find
  /-- `assertDeliverableUrl`. -/
  | screen
  /-- `create`: `findUnique`. -/
  | check
  /-- `endpoint.create` or `endpoint.update`. -/
  | write
  | done (result : Except ServiceError Answer)

/-- How a call begins. -/
def Call.start : Call → Phase
  | .create .. => .screen
  | .update .. => .find

/-- What comes after `assertDeliverableUrl`. -/
def Call.afterScreen : Call → Phase
  | .create .. => .check
  | .update .. => .write

/-- The check of the URL that the call asks for, if it asks for one. -/
def Call.screened : Call → Except DomainException Unit
  | .create env _ url _ => assertDeliverableUrl env.ssrf env.newUrl env.resolve url
  | .update env _ _ (some url) _ _ => assertDeliverableUrl env.ssrf env.newUrl env.resolve url
  | .update _ _ _ none _ _ => .ok ()

/-- The URL that the call asks for belongs to another endpoint of the tenant. -/
def Call.conflicts (db : Database) : Call → Bool
  | .create _ tenantId url _ => db.urlTaken tenantId url none
  | .update _ tenantId id (some url) _ _ => db.urlTaken tenantId url (some id)
  | .update _ _ _ none _ _ => false

/-- What `endpoint.update` writes. -/
def updateRow (db : Database) (id : Uuid) (now : Micros) (url : Option Text)
    (description : Option (Option Text)) (status : Option EndpointStatus) : Database :=
  { db with
    endpoints := db.endpoints.modify id (updateData now url description status)
      (updateData_id now url description status) }

/-- The write of a call. -/
def Call.write (db : Database) : Call → Except ServiceError (Answer × Database)
  | .create env tenantId url description =>
      if db.urlTaken tenantId url none then .error .uniqueViolation
      else
        (db.endpoints.insert? (newEndpoint env tenantId url description)).elim
          (.error .uniqueViolation) fun endpoints =>
            .ok (.created (toView (newEndpoint env tenantId url description)) env.secret,
              { db with endpoints := endpoints })
  | .update env _ id url description status =>
      (db.endpoints.find? id).elim (.error .recordNotFound) fun e =>
        if db.urlTaken e.tenantId (url.getD e.url) (some id) then .error .uniqueViolation
        else
          .ok (.updated (toView (updateData env.now url description status e)),
            updateRow db id env.now url description status)

/-- How a call ended: whether the query or the write that ended it met a conflict, its result,
and the endpoints before and after that step. -/
structure Ended (C : Type) where
  call : C
  conflict : Bool
  result : Except ServiceError Answer
  before : Table Uuid EndpointRow EndpointRow.id
  after : Table Uuid EndpointRow EndpointRow.id

variable {C : Type} [DecidableEq C]

/-- The state; `ended` is read by no step. -/
structure State (C : Type) where
  db : Database
  phase : C → Phase
  ended : List (Ended C)

inductive Action (C : Type) where
  /-- A call makes its next step. -/
  | call (r : C)
  /-- A worker changes an endpoint: its status or its counter of failures. -/
  | worker (id : Uuid) (status : Option EndpointStatus) (consecutiveFailures : ℕ)

variable (calls : C → Call)

/-- No call has begun. -/
def init (db : Database) : State C := ⟨db, fun r => (calls r).start, []⟩

def setPhase (s : State C) (r : C) (p : Phase) : State C :=
  { s with phase := Function.update s.phase r p }

/-- A call ends. -/
def finish (s : State C) (r : C) (conflict : Bool) (result : Except ServiceError Answer)
    (db : Database) : State C :=
  { db := db
    phase := Function.update s.phase r (.done result)
    ended := s.ended ++ [⟨r, conflict, result, s.db.endpoints, db.endpoints⟩] }

/-- What a worker writes. -/
def workerData (status : Option EndpointStatus) (consecutiveFailures : ℕ) (e : EndpointRow) :
    EndpointRow :=
  { e with status := status.getD e.status, consecutiveFailures := consecutiveFailures }

theorem workerData_id (status : Option EndpointStatus) (n : ℕ) (e : EndpointRow) :
    (workerData status n e).id = e.id := rfl

/-- The next step of a call. -/
def stepCall (s : State C) (r : C) : Option (State C) :=
  match s.phase r with
  | .find =>
      match calls r with
      | .create .. => none
      | .update _ tenantId id _ _ _ =>
          match findScoped s.db tenantId id with
          | none => some (finish s r false (.error (.domain Errors.endpointNotFound)) s.db)
          | some _ => some (setPhase s r .screen)
  | .screen =>
      match (calls r).screened with
      | .error e => some (finish s r false (.error (.domain e)) s.db)
      | .ok () => some (setPhase s r (calls r).afterScreen)
  | .check =>
      match calls r with
      | .create _ tenantId url _ =>
          if s.db.urlTaken tenantId url none then
            some (finish s r true (.error (.domain Errors.endpointUrlExists)) s.db)
          else some (setPhase s r .write)
      | .update .. => none
  | .write =>
      match (calls r).write s.db with
      | .error e => some (finish s r ((calls r).conflicts s.db) (.error e) s.db)
      | .ok (answer, db) => some (finish s r ((calls r).conflicts s.db) (.ok answer) db)
  | .done _ => none

/-- One step. -/
def step (s : State C) : Action C → Option (State C)
  | .call r => stepCall calls s r
  | .worker id status n =>
      some { s with db := { s.db with
        endpoints := s.db.endpoints.modify id (workerData status n) (workerData_id status n) } }

/-- A conflict that ended a call was reported, and the endpoints are as before. -/
def Reported (e : Ended C) : Prop :=
  e.conflict = true →
    e.result = .error (.domain Errors.endpointUrlExists) ∧ e.after = e.before

/-- No write meets a conflict. -/
def WritesFree (s : State C) : Action C → Prop
  | .call r => s.phase r = .write → (calls r).conflicts s.db = false
  | .worker .. => True

/-! ## Endpoints keep their tenants -/

/-- The endpoint is there, and is of the tenant. -/
def Owned (db : Database) (tenantId id : Uuid) : Prop :=
  ∃ e, db.endpoints.find? id = some e ∧ e.tenantId = tenantId

variable {calls} {s s' : State C} {a : Action C} {r : C} {tenantId id : Uuid} {db : Database}

omit [DecidableEq C] in
theorem owned_of_findScoped {e : EndpointRow} (h : findScoped db tenantId id = some e) :
    Owned db tenantId id := by
  have hmem := List.mem_of_find?_eq_some h
  have hprop := List.find?_some h
  rw [Bool.and_eq_true, decide_eq_true_eq, decide_eq_true_eq] at hprop
  exact ⟨e, Table.find?_eq_some_iff.2 ⟨hmem, hprop.1⟩, hprop.2⟩

omit [DecidableEq C] in
theorem Owned.modify (h : Owned db tenantId id) (k : Uuid) (f : EndpointRow → EndpointRow)
    (hf : ∀ e, (f e).id = e.id) (ht : ∀ e, (f e).tenantId = e.tenantId) :
    Owned { db with endpoints := db.endpoints.modify k f hf } tenantId id := by
  obtain ⟨e, he, htenant⟩ := h
  unfold Owned
  simp only [Table.find?_modify]
  by_cases hk : id = k
  · exact ⟨f e, by rw [if_pos hk, ← hk, he]; rfl, by rw [ht, htenant]⟩
  · exact ⟨e, by rw [if_neg hk, he], htenant⟩

omit [DecidableEq C] in
theorem Owned.write (h : Owned db tenantId id) {c : Call} {answer : Answer} {db' : Database}
    (hw : c.write db = .ok (answer, db')) : Owned db' tenantId id := by
  cases c with
  | create env t url description =>
      rw [Call.write] at hw
      split_ifs at hw
      cases hins : db.endpoints.insert? (newEndpoint env t url description) with
      | none =>
          rw [hins] at hw
          cases hw
      | some endpoints =>
          rw [hins] at hw
          cases hw
          obtain ⟨e, he, htenant⟩ := h
          refine ⟨e, ?_, htenant⟩
          have hfresh := (Table.insert?_eq_some_iff.1 hins).1
          rw [Table.find?_insert? hins, if_neg fun hid => ?_, he]
          rw [hid, he] at hfresh
          cases hfresh
  | update env t k url description status =>
      cases he : db.endpoints.find? k with
      | none =>
          rw [Call.write, he] at hw
          cases hw
      | some e =>
          rw [Call.write, he, Option.elim_some] at hw
          split_ifs at hw
          cases hw
          exact h.modify k _ _ fun _ => rfl

/-! ## What a step does -/

/-- What a step of a call does. -/
inductive Stepped (calls : C → Call) (s : State C) (r : C) : State C → Prop
  /-- The endpoint to update was found. -/
  | found {env : Env} {t id : Uuid} {url : Option Text} {d : Option (Option Text)}
      {st : Option EndpointStatus} : s.phase r = .find → calls r = .update env t id url d st →
      Owned s.db t id → Stepped calls s r (setPhase s r .screen)
  /-- The URL may be delivered to. -/
  | screened : s.phase r = .screen → Stepped calls s r (setPhase s r (calls r).afterScreen)
  /-- The URL is free. -/
  | free {env : Env} {t : Uuid} {url : Text} {d : Option Text} : s.phase r = .check →
      calls r = .create env t url d → Stepped calls s r (setPhase s r .write)
  /-- The endpoint was not found, or the URL may not be delivered to. -/
  | refused {e : DomainException} : s.phase r = .find ∨ s.phase r = .screen →
      Stepped calls s r (finish s r false (.error (.domain e)) s.db)
  /-- The URL is taken. -/
  | taken : s.phase r = .check →
      Stepped calls s r (finish s r true (.error (.domain Errors.endpointUrlExists)) s.db)
  | failed {e : ServiceError} : s.phase r = .write → (calls r).write s.db = .error e →
      Stepped calls s r (finish s r ((calls r).conflicts s.db) (.error e) s.db)
  | wrote {answer : Answer} {db : Database} : s.phase r = .write →
      (calls r).write s.db = .ok (answer, db) →
      Stepped calls s r (finish s r ((calls r).conflicts s.db) (.ok answer) db)

theorem stepped_of_stepCall (h : stepCall calls s r = some s') : Stepped calls s r s' := by
  unfold stepCall at h
  cases hp : s.phase r with
  | find =>
      rw [hp] at h
      simp only at h
      split at h
      · cases h
      · rename_i env t id url d st hc
        split at h
        · cases h
          exact .refused (.inl hp)
        · rename_i e he
          cases h
          exact .found hp hc (owned_of_findScoped he)
  | screen =>
      rw [hp] at h
      simp only at h
      split at h
      · cases h
        exact .refused (.inr hp)
      · cases h
        exact .screened hp
  | check =>
      rw [hp] at h
      simp only at h
      split at h
      · rename_i env t url d hc
        split_ifs at h
        · cases h
          exact .taken hp
        · cases h
          exact .free hp hc
      · cases h
  | write =>
      rw [hp] at h
      simp only at h
      split at h
      · rename_i e he
        cases h
        exact .failed hp he
      · rename_i answer db hw
        cases h
        exact .wrote hp hw
  | done result => rw [hp] at h; cases h

/-- A call that may write the endpoint it is to update has found it. -/
def Scoped (calls : C → Call) (s : State C) : Prop :=
  ∀ r env t id url d st, calls r = .update env t id url d st →
    s.phase r = .screen ∨ s.phase r = .write → Owned s.db t id

omit [DecidableEq C] in
theorem scoped_init (calls : C → Call) (db : Database) : Scoped calls (init calls db) := by
  intro r env t id url d st hc hp
  simp only [init, hc, Call.start] at hp
  rcases hp with hp | hp <;> cases hp

theorem Stepped.owned (h : Stepped calls s r s') (ho : Owned s.db tenantId id) :
    Owned s'.db tenantId id := by
  cases h with
  | found | screened | free | refused | taken | failed => exact ho
  | wrote _ hw => exact ho.write hw

theorem Stepped.scoped (h : Stepped calls s r s') (hs : Scoped calls s) : Scoped calls s' := by
  intro x env t id url d st hc hp
  by_cases hx : x = r
  · subst hx
    cases h with
    | found _ hc' ho =>
        rw [hc] at hc'
        cases hc'
        exact ho
    | screened hp' => exact hs x env t id url d st hc (.inl hp')
    | free _ hc' =>
        rw [hc] at hc'
        cases hc'
    | refused | taken | failed | wrote => simp [finish] at hp
  · have hphase : s'.phase x = s.phase x := by
      cases h with
      | found | screened | free => exact Function.update_of_ne hx _ _
      | refused | taken | failed | wrote => exact Function.update_of_ne hx _ _
    rw [hphase] at hp
    exact h.owned (hs x env t id url d st hc hp)

theorem step_scoped (hs : Scoped calls s) (h : step calls s a = some s') : Scoped calls s' := by
  cases a with
  | call r => exact (stepped_of_stepCall h).scoped hs
  | worker k status n =>
      simp only [step, Option.some.injEq] at h
      subst h
      intro r env t id url d st hc hp
      exact (hs r env t id url d st hc hp).modify k _ _ fun _ => rfl

theorem scoped_of_path {P : State C → Action C → Prop} (h : Path (step calls) P (init calls db) s) :
    Scoped calls s :=
  h.invariant (fun _ _ _ hI _ hs => step_scoped hI hs) (scoped_init calls db)

omit [DecidableEq C] in
/-- A write that meets a conflict violates the unique index. -/
theorem write_of_conflicts (hs : Scoped calls s) (hp : s.phase r = .write)
    (hc : (calls r).conflicts s.db = true) : (calls r).write s.db = .error .uniqueViolation := by
  cases hcall : calls r with
  | create env t url d =>
      rw [hcall, Call.conflicts] at hc
      rw [Call.write, if_pos hc]
  | update env t id url d st =>
      obtain ⟨e, he, htenant⟩ := hs r env t id url d st hcall (.inr hp)
      rw [hcall] at hc
      cases url with
      | none => cases hc
      | some u =>
          rw [Call.conflicts] at hc
          simp only [Call.write, he, Option.elim_some, htenant, Option.getD_some, hc, if_true]

/-- How a conflict that ends a call is answered. -/
structure Answered (e : Ended C) : Prop where
  result : e.conflict = true → e.result = .error (.domain Errors.endpointUrlExists) ∨
    e.result = .error .uniqueViolation
  unchanged : e.conflict = true → e.after = e.before

/-- A step ends one call at most. -/
theorem Stepped.ended (hs : Scoped calls s) (h : Stepped calls s r s') :
    s'.ended = s.ended ∨ ∃ e, s'.ended = s.ended ++ [e] ∧ Answered e ∧
      (Reported e ↔ WritesFree calls s (.call r)) := by
  cases h with
  | found | screened | free => exact .inl rfl
  | refused hp =>
      refine .inr ⟨_, rfl, ⟨by rintro ⟨⟩, by rintro ⟨⟩⟩, fun _ hw => ?_, fun _ => by rintro ⟨⟩⟩
      rcases hp with hp | hp <;> (rw [hp] at hw; cases hw)
  | taken hp =>
      refine .inr ⟨_, rfl, ⟨fun _ => .inl rfl, fun _ => rfl⟩, fun _ hw => ?_, fun _ _ => ⟨rfl, rfl⟩⟩
      rw [hp] at hw
      cases hw
  | @failed err hp hw =>
      cases hc : (calls r).conflicts s.db with
      | false =>
          exact .inr ⟨_, rfl, ⟨by rintro ⟨⟩, by rintro ⟨⟩⟩, fun _ _ => hc, fun _ => by rintro ⟨⟩⟩
      | true =>
          -- the error is that of the index
          rw [write_of_conflicts hs hp hc] at hw
          cases hw
          refine .inr ⟨_, rfl, ⟨fun _ => .inr rfl, fun _ => rfl⟩, fun hrep => ?_, fun hfree => ?_⟩
          · exact absurd (hrep rfl).1 (by simp)
          · rw [hfree hp] at hc
            cases hc
  | wrote hp hw =>
      cases hc : (calls r).conflicts s.db with
      | false =>
          exact .inr ⟨_, rfl, ⟨by rintro ⟨⟩, by rintro ⟨⟩⟩, fun _ _ => hc, fun _ => by rintro ⟨⟩⟩
      | true =>
          rw [write_of_conflicts hs hp hc] at hw
          cases hw

/-- A step leaves the calls that ended before as they are, and reports what it ends exactly
when no write meets a conflict. -/
theorem step_ended (hs : Scoped calls s) (h : step calls s a = some s')
    (hrep : ∀ e ∈ s.ended, Reported e) : (∀ e ∈ s'.ended, Reported e) ↔ WritesFree calls s a := by
  cases a with
  | worker k status n =>
      simp only [step, Option.some.injEq] at h
      subst h
      exact ⟨fun _ => trivial, fun _ => hrep⟩
  | call r =>
      have hstep := stepped_of_stepCall h
      rcases hstep.ended hs with heq | ⟨e, heq, -, hiff⟩
      · rw [heq]
        refine ⟨fun _ hp => ?_, fun _ => hrep⟩
        cases hstep with
        | found hp' => rw [hp'] at hp; cases hp
        | screened hp' => rw [hp'] at hp; cases hp
        | free hp' => rw [hp'] at hp; cases hp
        | refused | taken | failed | wrote => exact absurd heq (by simp [finish])
      · rw [heq, ← hiff]
        refine ⟨fun hall => hall e (by simp), fun he x hx => ?_⟩
        rcases List.mem_append.1 hx with hx | hx
        · exact hrep x hx
        · rw [List.mem_singleton.1 hx]
          exact he

theorem step_answered (hs : Scoped calls s) (h : step calls s a = some s')
    (hall : ∀ e ∈ s.ended, Answered e) : ∀ e ∈ s'.ended, Answered e := by
  cases a with
  | worker k status n =>
      simp only [step, Option.some.injEq] at h
      subst h
      exact hall
  | call r =>
      rcases (stepped_of_stepCall h).ended hs with heq | ⟨e, heq, he, -⟩
      · rw [heq]
        exact hall
      · rw [heq]
        intro x hx
        rcases List.mem_append.1 hx with hx | hx
        · exact hall x hx
        · rw [List.mem_singleton.1 hx]
          exact he

/-- **When URL conflicts are reported.**  In every run in which no write meets a conflict,
every call that a conflict ended was answered with `ENDPOINT_URL_EXISTS` and changed nothing.
The first write that meets one ends with an error of the database instead.  In every run a
conflict changes nothing. -/
theorem conflicts_reported_iff (calls : C → Call) (db : Database) :
    (∀ s, Path (step calls) (WritesFree calls) (init calls db) s → ∀ e ∈ s.ended, Reported e) ∧
    (∀ s s' a, Path (step calls) (WritesFree calls) (init calls db) s → step calls s a = some s' →
      ((∀ e ∈ s'.ended, Reported e) ↔ WritesFree calls s a)) ∧
    ∀ s, Reachable (step calls) (init calls db) s → ∀ e ∈ s.ended, Answered e := by
  have hrep : ∀ s, Path (step calls) (WritesFree calls) (init calls db) s →
      ∀ e ∈ s.ended, Reported e := fun s h =>
    h.invariant_along (fun _ hp => scoped_of_path hp)
      (fun _ _ _ hJ hI hP hs => (step_ended hJ hs hI).2 hP) (fun e he => absurd he (by simp [init]))
  refine ⟨hrep, fun s s' a h hs => step_ended (scoped_of_path h) hs (hrep s h), fun s h => ?_⟩
  exact h.invariant_along (fun _ hp => scoped_of_path hp)
    (fun _ _ _ hJ hI _ hs => step_answered hJ hs hI) (fun e he => absurd he (by simp [init]))

/-! ## Three calls -/

namespace Sample

/-- Every URL is deliverable. -/
def env (k : ℕ) : Env :=
  { now := k, ssrf := ⟨false, true⟩
    newUrl := fun _ => some ⟨"https:".toList, [], [], .domain "example.com".toList⟩
    resolve := fun _ => none, randomUuid := fun i => .ofNat (100 * (k + 1) + i), secret := [],
    encrypt := fun t => t }

def urlA : Text := "https://example.com/a".toList

def urlB : Text := "https://example.com/b".toList

/-- Two endpoints are registered, with different URLs, and the second is to get the first
one's; or a third one is to be registered with it. -/
def requests : ℕ → Call
  | 0 => .create (env 0) (.ofNat 1) urlA none
  | 1 => .create (env 1) (.ofNat 1) urlB none
  | 2 => .update (env 2) (.ofNat 1) (.ofNat 200) (some urlA) none none
  | k => .create (env k) (.ofNat 1) urlA none

/-- A call makes three steps. -/
def through (r : ℕ) : List (Action ℕ) := [.call r, .call r, .call r]

/-- One after the other. -/
def inTurn : List (Action ℕ) := through 0 ++ through 1 ++ through 2

def isWrite : Phase → Bool
  | .write => true
  | _ => false

/-- `WritesFree`, computed. -/
def writesFree (s : State ℕ) : Action ℕ → Bool
  | .call r => !(isWrite (s.phase r) && (requests r).conflicts s.db)
  | .worker .. => true

theorem writesFree_sound {s : State ℕ} {a : Action ℕ} (h : writesFree s a = true) :
    WritesFree requests s a := by
  cases a with
  | worker id status n => trivial
  | call r =>
      intro hp
      rw [writesFree, hp] at h
      simpa [isWrite] using h

/-- A conflict was answered with the error of the index. -/
def leaked (e : Ended ℕ) : Bool :=
  e.conflict && match e.result with
    | .error .uniqueViolation => true
    | _ => false

theorem not_reported_of_leaked {e : Ended ℕ} (h : leaked e = true) : ¬ Reported e := by
  intro hrep
  rw [leaked, Bool.and_eq_true] at h
  rw [(hrep h.1).1] at h
  exact absurd h.2 (by simp)

end Sample

/-- At a call that finds the URL taken before it writes. -/
theorem conflicts_reported_iff_at_check : ∃ s : State ℕ,
    Path (step Sample.requests) (WritesFree Sample.requests) (init Sample.requests .empty) s ∧
    (s.ended.any fun e => e.conflict) = true ∧ ∀ e ∈ s.ended, Reported e := by
  obtain ⟨s, hpath, hs⟩ := Path.exists_of_runChecked (step Sample.requests) (p := Sample.writesFree)
    (fun s a => Sample.writesFree_sound) (init Sample.requests .empty)
    (Sample.through 0 ++ [.call 3, .call 3]) (fun s => s.ended.any fun e => e.conflict)
    (by decide +kernel)
  exact ⟨s, hpath, hs, (conflicts_reported_iff Sample.requests .empty).1 s hpath⟩

/-- An update to the URL of another endpoint fails with the error of the index, which is
answered as an internal error. -/
theorem conflict_leaks_from_update :
    ¬ (∀ (calls : ℕ → Call) (db : Database) (s : State ℕ),
      Reachable (step calls) (init calls db) s → ∀ e ∈ s.ended, Reported e) ∧
    (GlobalExceptionFilter.catchError .uniqueViolation).code = "INTERNAL_ERROR" := by
  refine ⟨fun h => ?_, rfl⟩
  obtain ⟨s, hpath, hs⟩ := Path.exists_of_runChecked (step Sample.requests)
    (p := fun _ _ => true) (P := Lib.anyAction)
    (fun s a _ => trivial) (init Sample.requests .empty)
    Sample.inTurn (fun s => s.ended.any Sample.leaked) (by decide +kernel)
  obtain ⟨e, he, hl⟩ := List.any_eq_true.1 hs
  exact Sample.not_reported_of_leaked hl (h Sample.requests .empty s hpath e he)

end UrlConflicts

end HookRelay
