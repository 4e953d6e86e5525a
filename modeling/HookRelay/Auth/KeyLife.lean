import HookRelay.Lib.Transition
import HookRelay.Auth.ApiKeys

/-!
# The life of an API key

Any number of calls of `TenantsService.create`, `ApiKeysService.rotate` and
`ApiKeyGuard.canActivate`, each taken apart at its awaits: a statement or a transaction is one
step, time passes between any two, and a call may fail at any of them.

* `step` — one step; `State.log` — what happened to keys, the latest first.  No step reads it.
* `Orderly` — what a key's earlier events exclude: it is not accepted 24 hours after it was
  demoted or later, and never after it was refused as revoked or expired.
* `Inv` — the invariant: each key in the log ends by the time that its event promises.
* `key_life_cycle` — every tenant has an `ACTIVE` key, and the log is orderly.
-/

namespace HookRelay
namespace KeyLife

open Lib

/-- A call, with the random bytes and the ids that it draws. -/
inductive Call where
  | create (name : Text) (plan : TenantPlan) (tenantId keyId : Uuid) (random : List ℕ)
  | rotate (tenantId keyId : Uuid) (random : List ℕ)
  | canActivate (header : Option Text)

inductive Result where
  | created (tenant : TenantsService.CreatedTenant)
  | rotated (key : ApiKeysService.RotatedKey)
  | accepted (tenant : AuthenticatedTenant)
  | failed (e : ServiceError)

/-- Where a call stands. -/
inductive Phase where
  | idle
  /-- `create` has found no tenant of its name. -/
  | nameFree
  /-- `rotate` has read `Date.now()`. -/
  | dated (date : ℕ)
  /-- `canActivate` has found a key to revoke. -/
  | expired (id : Uuid)
  | done (r : Result)

/-- What happened to the key with a hash, and `Date.now()` of the call that did it. -/
inductive Event where
  | demoted (keyHash : Text) (time : ℕ)
  | accepted (keyHash : Text) (time : ℕ)
  /-- Refused because it was revoked or expired. -/
  | refused (keyHash : Text) (time : ℕ)
  deriving DecidableEq

variable {C : Type} [DecidableEq C]

structure State (C : Type) where
  now : Micros
  db : Accounts
  phase : C → Phase
  /-- The latest first. -/
  log : List Event

inductive Action (C : Type) where
  /-- Time passes. -/
  | advance (micros : ℕ)
  /-- A call takes its next step. -/
  | call (c : C)
  /-- A call fails at its next step. -/
  | fail (c : C)

/-- No tenant, no key, no call. -/
def init : State C := ⟨0, .empty, fun _ => .idle, []⟩

/-- A call goes on to a phase. -/
def State.goto (s : State C) (c : C) (p : Phase) : State C :=
  { s with phase := Function.update s.phase c p }

@[simp] theorem State.goto_phase_self (s : State C) (c : C) (p : Phase) :
    (s.goto c p).phase c = p := by simp [State.goto]

theorem State.goto_phase_of_ne (s : State C) (p : Phase) {c x : C} (h : x ≠ c) :
    (s.goto c p).phase x = s.phase x := by simp [State.goto, h]

/-- A call ends. -/
def State.finish (s : State C) (c : C) (r : Result) : State C := s.goto c (.done r)

/-- A call ends with an error of its own. -/
def State.refuse (s : State C) (c : C) (e : DomainException) : State C :=
  s.finish c (.failed (.domain e))

/-- A transaction has written. -/
def State.commit (s : State C) (db : Accounts) (events : List Event) : State C :=
  { s with db := db, log := events ++ s.log }

/-- The keys that the transaction of a `rotate` demotes. -/
def demotions (db : Accounts) (tenantId : Uuid) (date : ℕ) : List Event :=
  (db.apiKeys.rows.filter (ApiKeysService.demotes tenantId)).map fun k => .demoted k.keyHash date

/-- `canActivate` after its query. -/
def State.checked (s : State C) (c : C) (keyHash : Text) : ApiKeyGuard.Checked → State C
  | .accepted tenant =>
      (s.commit s.db [.accepted keyHash (jsDate s.now)]).finish c (.accepted tenant)
  | .unknown => s.refuse c Errors.invalidApiKey
  | .revoked =>
      (s.commit s.db [.refused keyHash (jsDate s.now)]).refuse c Errors.invalidApiKey
  | .expired id => (s.commit s.db [.refused keyHash (jsDate s.now)]).goto c (.expired id)
  | .suspended => s.refuse c Errors.tenantSuspended

variable (hashApiKey : Text → Text)

/-- One step of a call. -/
def stepCall (s : State C) (c : C) : Call → Phase → Option (State C)
  | .create name _ _ _ _, .idle =>
      some (if s.db.nameTaken name then s.refuse c Errors.tenantNameExists else s.goto c .nameFree)
  | .create name plan tenantId keyId random, .nameFree =>
      let k := generateApiKey hashApiKey random
      some ((TenantsService.createTx s.db s.now tenantId keyId name plan k).elim
        (s.finish c (.failed .uniqueViolation)) fun db =>
          (s.commit db []).finish c (.created (TenantsService.created tenantId name plan k)))
  | .rotate _ _ _, .idle => some (s.goto c (.dated (jsDate s.now)))
  | .rotate tenantId keyId random, .dated date =>
      let k := generateApiKey hashApiKey random
      some ((ApiKeysService.rotateTx s.db s.now tenantId keyId date k).elim
        (s.finish c (.failed (ApiKeysService.rotateError s.db keyId k))) fun db =>
          (s.commit db (demotions s.db tenantId date)).finish c
            (.rotated (ApiKeysService.rotated k)))
  | .canActivate header, .idle =>
      some (s.checked c (hashApiKey (ApiKeyGuard.keyOf header))
        (ApiKeyGuard.check hashApiKey s.db s.now header))
  | .canActivate _, .expired id =>
      some ((s.commit (ApiKeyGuard.revoke s.db id) []).refuse c Errors.invalidApiKey)
  | _, _ => none

/-- One step. -/
def step (calls : C → Call) (s : State C) : Action C → Option (State C)
  | .advance micros => some { s with now := s.now + micros }
  | .call c => stepCall hashApiKey s c (calls c) (s.phase c)
  | .fail c =>
      match s.phase c with
      | .done _ => none
      | _ => some (s.finish c (.failed .unavailable))

/-- What an earlier event of a key excludes. -/
def Orderly : Event → Event → Prop
  | .accepted keyHash time, .demoted keyHash' date =>
      keyHash = keyHash' → time < date + ApiKeysService.gracePeriodMs
  | .accepted keyHash _, .refused keyHash' _ => keyHash ≠ keyHash'
  | _, _ => True

/-! ## What the transactions do to the keys -/

/-- Every key is still there, with its hash, and ends when it ended before. -/
def Keeps (db db' : Accounts) : Prop :=
  ∀ k ∈ db.apiKeys.rows, ∃ k' ∈ db'.apiKeys.rows, k'.id = k.id ∧ k'.keyHash = k.keyHash ∧
    ∀ time, EndsBy k time → EndsBy k' time

/-- What holds of the tables between two steps. -/
structure Sound (db : Accounts) : Prop where
  active : ∀ t ∈ db.tenants.rows, ∃ k ∈ db.apiKeys.rows, k.tenantId = t.id ∧ k.status = .active
  hashes : (db.apiKeys.rows.map ApiKeyRow.keyHash).Nodup

variable {db db' : Accounts} {k : ApiKeyRow} {generated : GeneratedKey} {now : Micros}
  {tenantId keyId : Uuid} {name : Text} {plan : TenantPlan} {date time : ℕ}

theorem Keeps.refl (db : Accounts) : Keeps db db :=
  fun k hk => ⟨k, hk, rfl, rfl, fun _ h => h⟩

theorem Keeps.trans {db'' : Accounts} (h : Keeps db db') (h' : Keeps db' db'') : Keeps db db'' := by
  intro k hk
  obtain ⟨k', hk', hid', hhash', hends'⟩ := h k hk
  obtain ⟨k'', hk'', hid'', hhash'', hends''⟩ := h' k' hk'
  exact ⟨k'', hk'', hid''.trans hid', hhash''.trans hhash', fun _ he => hends'' _ (hends' _ he)⟩

/-- A new key leaves the others as they are. -/
theorem keeps_insertKey? (h : db.insertKey? k = some db') : Keeps db db' := by
  intro k' hk'
  refine ⟨k', ?_, rfl, rfl, fun _ he => he⟩
  rw [(Accounts.insertKey?_eq_some h).2.2.1]
  exact List.mem_append_left _ hk'

theorem hashes_insertKey? (h : db.insertKey? k = some db')
    (hs : (db.apiKeys.rows.map ApiKeyRow.keyHash).Nodup) :
    (db'.apiKeys.rows.map ApiKeyRow.keyHash).Nodup := by
  obtain ⟨htaken, -, hrows, -⟩ := Accounts.insertKey?_eq_some h
  rw [hrows, List.map_append, List.nodup_append]
  refine ⟨hs, by simp, ?_⟩
  intro a ha b hb
  obtain ⟨k', hk', rfl⟩ := List.mem_map.1 ha
  rw [List.map_singleton, List.mem_singleton] at hb
  rw [hb]
  exact Accounts.hashTaken_eq_false.1 htaken k' hk'

theorem sound_empty : Sound .empty where
  active := by intro t ht; cases ht
  hashes := List.nodup_nil

/-- A tenant with its first key. -/
theorem createTx_spec (hs : Sound db)
    (h : TenantsService.createTx db now tenantId keyId name plan generated = some db') :
    Sound db' ∧ Keeps db db' := by
  obtain ⟨db₁, htenant, hkey⟩ := Option.bind_eq_some_iff.1 h
  obtain ⟨htenants, hkeys⟩ := Accounts.insertTenant?_eq_some htenant
  obtain ⟨-, -, hrows, htenants'⟩ := Accounts.insertKey?_eq_some hkey
  have hkeeps : Keeps db db₁ := by
    intro k hk
    rw [hkeys]
    exact ⟨k, hk, rfl, rfl, fun _ he => he⟩
  refine ⟨⟨?_, hashes_insertKey? hkey (by rw [hkeys]; exact hs.hashes)⟩,
    hkeeps.trans (keeps_insertKey? hkey)⟩
  intro t ht
  rw [htenants', htenants, List.mem_append, List.mem_singleton] at ht
  rw [hrows, hkeys]
  rcases ht with ht | rfl
  · obtain ⟨k, hk, hactive⟩ := hs.active t ht
    exact ⟨k, List.mem_append_left _ hk, hactive⟩
  · exact ⟨_, List.mem_append_right _ (List.mem_singleton_self _), rfl, rfl⟩

theorem mem_demote : k ∈ (ApiKeysService.demote db tenantId date).apiKeys.rows ↔
    ∃ k₀ ∈ db.apiKeys.rows, (if ApiKeysService.demotes tenantId k₀ = true then
      ApiKeysService.demotedData date k₀ else k₀) = k :=
  @Table.mem_modifyMany _ _ _ _ _ _ (ApiKeysService.demotedData_id date) _

theorem mem_revoke {id : Uuid} : k ∈ (ApiKeyGuard.revoke db id).apiKeys.rows ↔
    ∃ k₀ ∈ db.apiKeys.rows, (if k₀.id = id then ApiKeyGuard.revokedData k₀ else k₀) = k :=
  @Table.mem_modify _ _ _ _ _ _ _ ApiKeyGuard.revokedData_id _

theorem keeps_demote (db : Accounts) (tenantId : Uuid) (date : ℕ) :
    Keeps db (ApiKeysService.demote db tenantId date) := by
  intro k hk
  refine ⟨_, mem_demote.2 ⟨k, hk, rfl⟩, ?_⟩
  by_cases hdemotes : ApiKeysService.demotes tenantId k = true
  · rw [if_pos hdemotes]
    -- it was `ACTIVE`, and so it had not ended
    have hactive : k.status = .active := by
      simpa using (Bool.and_eq_true_iff.1 hdemotes).2
    exact ⟨rfl, rfl, fun _ he => absurd hactive he.not_active⟩
  · rw [if_neg hdemotes]
    exact ⟨rfl, rfl, fun _ he => he⟩

theorem hashes_demote (db : Accounts) (tenantId : Uuid) (date : ℕ) :
    (ApiKeysService.demote db tenantId date).apiKeys.rows.map ApiKeyRow.keyHash =
      db.apiKeys.rows.map ApiKeyRow.keyHash := by
  rw [ApiKeysService.demote, Table.modifyMany, List.map_map]
  refine List.map_congr_left fun k _ => ?_
  by_cases hdemotes : ApiKeysService.demotes tenantId k = true <;>
    simp [hdemotes, ApiKeysService.demotedData]

/-- A rotation: its tenant has the new key, and the others keep theirs. -/
theorem rotateTx_spec (hs : Sound db)
    (h : ApiKeysService.rotateTx db now tenantId keyId date generated = some db') :
    Sound db' ∧ Keeps db db' := by
  obtain ⟨-, -, hrows, htenants⟩ := Accounts.insertKey?_eq_some h
  refine ⟨⟨?_, hashes_insertKey? h (by rw [hashes_demote]; exact hs.hashes)⟩,
    (keeps_demote db tenantId date).trans (keeps_insertKey? h)⟩
  intro t ht
  rw [htenants] at ht
  rw [hrows]
  by_cases hid : t.id = tenantId
  · exact ⟨_, List.mem_append_right _ (List.mem_singleton_self _), hid.symm, rfl⟩
  · obtain ⟨k, hk, htenant, hactive⟩ := hs.active t ht
    refine ⟨k, List.mem_append_left _ (mem_demote.2 ⟨k, hk, ?_⟩), htenant, hactive⟩
    rw [if_neg]
    simp [ApiKeysService.demotes, htenant, hid]

/-- What a rotation demotes ends 24 hours later. -/
theorem rotateTx_demoted
    (h : ApiKeysService.rotateTx db now tenantId keyId date generated = some db')
    (hk : k ∈ db.apiKeys.rows) (hdemotes : ApiKeysService.demotes tenantId k = true) :
    ∃ k' ∈ db'.apiKeys.rows, k'.keyHash = k.keyHash ∧
      EndsBy k' (date + ApiKeysService.gracePeriodMs) := by
  obtain ⟨-, -, hrows, -⟩ := Accounts.insertKey?_eq_some h
  rw [hrows]
  refine ⟨ApiKeysService.demotedData date k, List.mem_append_left _ (mem_demote.2 ⟨k, hk, ?_⟩),
    rfl, endsBy_demotedData date k⟩
  rw [if_pos hdemotes]

/-- A key that has ended is set to `REVOKED`. -/
theorem revoke_spec (hs : Sound db) (hk : k ∈ db.apiKeys.rows) (hends : EndsBy k time) :
    Sound (ApiKeyGuard.revoke db k.id) ∧ Keeps db (ApiKeyGuard.revoke db k.id) := by
  refine ⟨⟨?_, ?_⟩, ?_⟩
  · intro t ht
    obtain ⟨k', hk', htenant, hactive⟩ := hs.active t ht
    refine ⟨k', mem_revoke.2 ⟨k', hk', ?_⟩, htenant, hactive⟩
    rw [if_neg]
    intro hid
    rw [Table.eq_of_key hk' hk hid] at hactive
    exact hends.not_active hactive
  · have hhashes : (ApiKeyGuard.revoke db k.id).apiKeys.rows.map ApiKeyRow.keyHash =
        db.apiKeys.rows.map ApiKeyRow.keyHash := by
      rw [ApiKeyGuard.revoke, Table.modify, Table.modifyMany, List.map_map]
      refine List.map_congr_left fun k₀ _ => ?_
      by_cases hid : k₀.id = k.id <;> simp [hid, ApiKeyGuard.revokedData]
    rw [hhashes]
    exact hs.hashes
  · intro k₀ hk₀
    refine ⟨_, mem_revoke.2 ⟨k₀, hk₀, rfl⟩, ?_⟩
    by_cases hid : k₀.id = k.id
    · rw [if_pos hid]
      exact ⟨rfl, rfl, fun _ _ => endsBy_revokedData k₀⟩
    · rw [if_neg hid]
      exact ⟨rfl, rfl, fun _ he => he⟩

/-- What `canActivate` finds out is about a key with the hash that it looked up. -/
theorem check_spec (db : Accounts) (now : Micros) (header : Option Text) :
    ApiKeyGuard.check hashApiKey db now header = .unknown ∨
    ∃ k ∈ db.apiKeys.rows, k.keyHash = hashApiKey (ApiKeyGuard.keyOf header) ∧
      ∃ t, ApiKeyGuard.check hashApiKey db now header = ApiKeyGuard.checkRow now k t := by
  unfold ApiKeyGuard.check
  by_cases hprefix : keyPrefix.isPrefixOf (ApiKeyGuard.keyOf header) = true
  · rw [if_pos hprefix]
    cases hfound : ApiKeyGuard.findUnique db (hashApiKey (ApiKeyGuard.keyOf header)) with
    | none => exact .inl rfl
    | some row =>
        obtain ⟨k, hk, hrow⟩ := Option.bind_eq_some_iff.1 hfound
        obtain ⟨t, -, rfl⟩ := Option.map_eq_some_iff.1 hrow
        obtain ⟨hmem, hhash⟩ := Accounts.mem_of_keyByHash hk
        exact .inr ⟨k, hmem, hhash, t, rfl⟩
  · rw [if_neg hprefix]
    exact .inl rfl

/-! ## The invariant -/

/-- What is known of the key of an event. -/
def Known (db : Accounts) (now : ℕ) : Event → Prop
  | .demoted keyHash date =>
      ∃ k ∈ db.apiKeys.rows, k.keyHash = keyHash ∧ EndsBy k (date + ApiKeysService.gracePeriodMs)
  | .accepted _ _ => True
  | .refused keyHash time =>
      time ≤ now ∧ ∃ k ∈ db.apiKeys.rows, k.keyHash = keyHash ∧ EndsBy k time

structure Inv (s : State C) : Prop where
  sound : Sound s.db
  expired : ∀ c id, s.phase c = .expired id →
    ∃ k ∈ s.db.apiKeys.rows, k.id = id ∧ ∃ time, EndsBy k time
  known : ∀ e ∈ s.log, Known s.db (jsDate s.now) e
  orderly : s.log.Pairwise Orderly

variable {hashApiKey} {calls : C → Call} {s s' : State C} {c : C} {a : Action C} {e : Event}
  {events : List Event} {p : Phase}

theorem Keeps.ends (h : Keeps db db') {keyHash : Text}
    (hk : ∃ k ∈ db.apiKeys.rows, k.keyHash = keyHash ∧ EndsBy k time) :
    ∃ k ∈ db'.apiKeys.rows, k.keyHash = keyHash ∧ EndsBy k time := by
  obtain ⟨k, hk, hhash, hends⟩ := hk
  obtain ⟨k', hk', -, hhash', hends'⟩ := h k hk
  exact ⟨k', hk', hhash'.trans hhash, hends' _ hends⟩

/-- What is known stays known. -/
theorem Known.mono {now' : ℕ} (h : Known db time e) (hk : Keeps db db') (hle : time ≤ now') :
    Known db' now' e := by
  cases e with
  | demoted keyHash date => exact hk.ends h
  | accepted keyHash t => trivial
  | refused keyHash t => exact ⟨le_trans h.1 hle, hk.ends h.2⟩

omit [DecidableEq C] in
theorem inv_init : Inv (init : State C) where
  sound := sound_empty
  expired := by rintro c id ⟨⟩
  known := by intro e he; cases he
  orderly := .nil

theorem Inv.goto (h : Inv s)
    (hp : ∀ id, p = .expired id → ∃ k ∈ s.db.apiKeys.rows, k.id = id ∧ ∃ time, EndsBy k time) :
    Inv (s.goto c p) where
  sound := h.sound
  expired := by
    intro x id hx
    by_cases hxc : x = c
    · rw [hxc, State.goto_phase_self] at hx
      exact hp id hx
    · rw [State.goto_phase_of_ne s p hxc] at hx
      exact h.expired x id hx
  known := h.known
  orderly := h.orderly

theorem Inv.finish (h : Inv s) (c : C) (r : Result) : Inv (s.finish c r) :=
  h.goto (by rintro id ⟨⟩)

omit [DecidableEq C] in
theorem Inv.commit (h : Inv s) (hs : Sound db) (hk : Keeps s.db db)
    (hknown : ∀ e ∈ events, Known db (jsDate s.now) e)
    (horderly : (events ++ s.log).Pairwise Orderly) : Inv (s.commit db events) where
  sound := hs
  expired := by
    intro x id hx
    obtain ⟨k, hmem, hid, time, hends⟩ := h.expired x id hx
    obtain ⟨k', hmem', hid', -, hends'⟩ := hk k hmem
    exact ⟨k', hmem', hid'.trans hid, time, hends' _ hends⟩
  known := by
    intro e he
    rcases List.mem_append.1 he with he | he
    · exact hknown e he
    · exact (h.known e he).mono hk (le_refl _)
  orderly := horderly

omit [DecidableEq C] in
/-- A write that no event tells of. -/
theorem Inv.write (h : Inv s) (hs : Sound db) (hk : Keeps s.db db) : Inv (s.commit db []) :=
  h.commit hs hk (by simp) (by simpa using h.orderly)

omit [DecidableEq C] in
/-- An event at which nothing is written. -/
theorem Inv.log (h : Inv s) (e : Event) (hknown : Known s.db (jsDate s.now) e)
    (horderly : ∀ e' ∈ s.log, Orderly e e') : Inv (s.commit s.db [e]) :=
  h.commit h.sound (.refl _) (by simpa using hknown) (List.pairwise_cons.2 ⟨horderly, h.orderly⟩)

omit [DecidableEq C] in
/-- A key that has ended is refused. -/
theorem Inv.refused (h : Inv s) (hk : k ∈ s.db.apiKeys.rows) (hends : EndsBy k (jsDate s.now)) :
    Inv (s.commit s.db [.refused k.keyHash (jsDate s.now)]) :=
  h.log _ ⟨le_refl _, k, hk, rfl, hends⟩ fun _ _ => trivial

omit [DecidableEq C] in
/-- A key that is accepted has not ended, and so no earlier event excludes it. -/
theorem Inv.accepted {t : TenantRow} {tenant : AuthenticatedTenant} (h : Inv s)
    (hk : k ∈ s.db.apiKeys.rows) (hc : ApiKeyGuard.checkRow s.now k t = .accepted tenant) :
    ∀ e ∈ s.log, Orderly (.accepted k.keyHash (jsDate s.now)) e := by
  -- the key of the event is the one that was found
  have hends : ∀ {keyHash : Text} {time : ℕ}, k.keyHash = keyHash →
      (∃ k' ∈ s.db.apiKeys.rows, k'.keyHash = keyHash ∧ EndsBy k' time) → jsDate s.now < time := by
    rintro _ time rfl ⟨k', hk', hhash, hends⟩
    rw [List.inj_on_of_nodup_map h.sound.hashes hk' hk hhash] at hends
    exact ApiKeyGuard.lt_of_accepted hends hc
  intro e he
  have hknown := h.known e he
  cases e with
  | demoted keyHash date => exact fun heq => hends heq hknown
  | accepted keyHash time => trivial
  | refused keyHash time => exact fun heq => absurd (hends heq hknown.2) (not_lt.2 hknown.1)

/-- `canActivate` after its query. -/
theorem Inv.checked (h : Inv s) (c : C) (header : Option Text) :
    Inv (s.checked c (hashApiKey (ApiKeyGuard.keyOf header))
      (ApiKeyGuard.check hashApiKey s.db s.now header)) := by
  rcases check_spec hashApiKey s.db s.now header with hc | ⟨k, hk, hhash, t, hc⟩
  · rw [hc]
    exact h.finish c _
  · rw [hc, ← hhash]
    cases hcheck : ApiKeyGuard.checkRow s.now k t with
    | accepted tenant => exact (h.log (.accepted _ _) trivial (h.accepted hk hcheck)).finish c _
    | unknown => exact h.finish c _
    | suspended => exact h.finish c _
    | revoked =>
        have hends : EndsBy k (jsDate s.now) := ApiKeyGuard.endsBy_of_refused (.inl hcheck)
        exact (h.refused hk hends).finish c _
    | expired id =>
        have hends : EndsBy k (jsDate s.now) := ApiKeyGuard.endsBy_of_refused (.inr ⟨id, hcheck⟩)
        refine (h.refused hk hends).goto ?_
        rintro _ ⟨⟩
        exact ⟨k, hk, (ApiKeyGuard.id_of_expired hcheck).symm, _, hends⟩

theorem stepCall_inv {call : Call} (h : Inv s) (hp : s.phase c = p)
    (hs : stepCall hashApiKey s c call p = some s') : Inv s' := by
  cases call with
  | create name plan tenantId keyId random =>
      cases p with
      | idle =>
          cases hs
          split_ifs
          · exact h.finish c _
          · exact h.goto (by rintro id ⟨⟩)
      | nameFree =>
          cases hs
          cases htx : TenantsService.createTx s.db s.now tenantId keyId name plan
            (generateApiKey hashApiKey random) with
          | none => exact h.finish c _
          | some db =>
              obtain ⟨hsound, hkeeps⟩ := createTx_spec h.sound htx
              exact (h.write hsound hkeeps).finish c _
      | _ => cases hs
  | rotate tenantId keyId random =>
      cases p with
      | idle =>
          cases hs
          exact h.goto (by rintro id ⟨⟩)
      | dated date =>
          cases hs
          cases htx : ApiKeysService.rotateTx s.db s.now tenantId keyId date
            (generateApiKey hashApiKey random) with
          | none => exact h.finish c _
          | some db =>
              obtain ⟨hsound, hkeeps⟩ := rotateTx_spec h.sound htx
              refine (h.commit hsound hkeeps ?_ ?_).finish c _
              · intro e he
                obtain ⟨k, hk, rfl⟩ := List.mem_map.1 he
                obtain ⟨hmem, hdemotes⟩ := List.mem_filter.1 hk
                exact rotateTx_demoted htx hmem hdemotes
              · refine List.pairwise_append.2 ⟨?_, h.orderly, ?_⟩
                · exact List.pairwise_map.2 (List.pairwise_of_forall fun _ _ => trivial)
                · intro e he e' _
                  obtain ⟨k, -, rfl⟩ := List.mem_map.1 he
                  trivial
      | _ => cases hs
  | canActivate header =>
      cases p with
      | idle =>
          cases hs
          exact h.checked c header
      | expired id =>
          cases hs
          obtain ⟨k, hk, rfl, time, hends⟩ := h.expired c id hp
          obtain ⟨hsound, hkeeps⟩ := revoke_spec h.sound hk hends
          exact (h.write hsound hkeeps).finish c _
      | _ => cases hs

/-- One step. -/
theorem step_inv (h : Inv s) (hs : step hashApiKey calls s a = some s') : Inv s' := by
  cases a with
  | advance micros =>
      cases hs
      refine ⟨h.sound, h.expired, ?_, h.orderly⟩
      intro e he
      exact (h.known e he).mono (.refl _) (Nat.div_le_div_right (Nat.le_add_right _ _))
  | call c => exact stepCall_inv h rfl hs
  | fail c =>
      simp only [step] at hs
      split at hs
      · cases hs
      · cases hs
        exact h.finish c _

/-! ## The result -/

/-- **The life of an API key.**  In every run every tenant has an `ACTIVE` key; a key that a
rotation demoted is accepted less than 24 hours after the rotation or not at all, and a key
that was refused as revoked or expired is not accepted any more. -/
theorem key_life_cycle (hashApiKey : Text → Text) (calls : C → Call) (s : State C)
    (h : Reachable (step hashApiKey calls) init s) :
    (∀ t ∈ s.db.tenants.rows, ∃ k ∈ s.db.apiKeys.rows, k.tenantId = t.id ∧ k.status = .active) ∧
    s.log.Pairwise Orderly := by
  have hinv : Inv s := h.invariant (fun _ _ _ hi _ => step_inv hi) inv_init
  exact ⟨hinv.sound.active, hinv.orderly⟩

/-! ## A key that is used in its grace period and after it -/

namespace Sample

def tenant : Uuid := .ofNat 1

/-- The first key of the tenant. -/
def firstKey : GeneratedKey := generateApiKey id [1]

/-- A tenant is created and rotates its key twice; its first key is used twice. -/
def requests : ℕ → Call
  | 0 => .create "a".toList .free tenant (.ofNat 10) [1]
  | 1 => .rotate tenant (.ofNat 11) [2]
  | 2 => .rotate tenant (.ofNat 12) [3]
  | _ => .canActivate (some ("Bearer ".toList ++ firstKey.key))

/-- The first key is used a millisecond before it ends and when it ends. -/
def run : List (Action ℕ) :=
  [.call 0, .call 0, .call 1, .call 1, .advance 86399999000, .call 2, .call 2, .call 3,
    .advance 1000, .call 4, .call 4]

/-- What happens to the keys in it. -/
def history : List Event :=
  [.refused firstKey.hash 86400000, .accepted firstKey.hash 86399999,
    .demoted (generateApiKey id [2]).hash 86399999, .demoted firstKey.hash 0]

end Sample

/-- At a run in which a key outlives a second rotation, and is refused 24 hours after the
first. -/
theorem key_life_cycle_at_grace : ∃ s : State ℕ,
    Reachable (step id Sample.requests) init s ∧ s.log = Sample.history ∧
    (∀ t ∈ s.db.tenants.rows, ∃ k ∈ s.db.apiKeys.rows, k.tenantId = t.id ∧ k.status = .active) ∧
    s.log.Pairwise Orderly := by
  obtain ⟨s, hpath, hs⟩ := Path.exists_of_runChecked (step id Sample.requests)
    (p := fun _ _ => true) (P := anyAction) (fun s a _ => trivial) init Sample.run
    (fun s => decide (s.log = Sample.history)) (by decide +kernel)
  exact ⟨s, hpath, of_decide_eq_true hs, key_life_cycle id Sample.requests s hpath⟩

end KeyLife

end HookRelay
