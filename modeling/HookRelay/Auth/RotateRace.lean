import HookRelay.Lib.ReadCommitted
import HookRelay.Auth.ApiKeys

/-!
# Concurrent calls of `rotate`

Any number of calls for one tenant, each a transaction of two statements under READ COMMITTED:
an `UPDATE` of the tenant's `ACTIVE` keys to `GRACE` and an `INSERT` of an `ACTIVE` key.  The
table may hold other keys.

* `program` — the two statements of a call.
* `DemotesAll` — a call that commits has demoted every `ACTIVE` key that is committed.
* `one_active_key_iff` — the tenant keeps one `ACTIVE` key exactly as long as every commit does.
-/

namespace HookRelay
namespace RotateRace

open Lib ReadCommitted

/-- A call: `Date.now()` of its `UPDATE`, the time of its `INSERT`, the id and the random bytes
that it draws. -/
structure Call where
  date : ℕ
  now : Micros
  keyId : Uuid
  random : List ℕ

/-- The transaction of a call: `updateMany` and `create`. -/
def program (hashApiKey : Text → Text) (tenantId : Uuid) (c : Call) : Program ApiKeyRow where
  cond := ApiKeysService.demotes tenantId
  change := fun k => some (ApiKeysService.demotedData c.date k)
  rows := [newKey c.now c.keyId tenantId (generateApiKey hashApiKey c.random)]

/-- The primary key and `keyHash @unique`. -/
def conflict (a b : ApiKeyRow) : Bool := decide (a.id = b.id) || decide (a.keyHash = b.keyHash)

variable {C : Type} [DecidableEq C]

/-- One step of the calls for a tenant. -/
abbrev stepOf (hashApiKey : Text → Text) (tenantId : Uuid) (calls : C → Call) :
    State C ApiKeyRow → Action C → Option (State C ApiKeyRow) :=
  step conflict fun c => program hashApiKey tenantId (calls c)

/-- The committed `ACTIVE` keys of the tenant. -/
def activeKeys (tenantId : Uuid) (s : State C ApiKeyRow) : List ApiKeyRow :=
  live (ApiKeysService.demotes tenantId) s

/-- A call that commits has demoted every `ACTIVE` key of the tenant that is committed: its
`UPDATE` has seen them all. -/
def DemotesAll (tenantId : Uuid) (s : State C ApiKeyRow) : Action C → Prop
  | .commit c => ∀ cell ∈ s.cells, ∀ k ∈ cell.committed, k.tenantId = tenantId →
      k.status = .active → cell.lockedBy c = true
  | _ => True

variable {hashApiKey : Text → Text} {tenantId : Uuid} {calls : C → Call} {rows : List ApiKeyRow}
  {s s' : State C ApiKeyRow} {a : Action C} {c : C} {k : ApiKeyRow}

theorem demotes_iff : ApiKeysService.demotes tenantId k = true ↔
    k.tenantId = tenantId ∧ k.status = .active := by
  simp [ApiKeysService.demotes]

omit [DecidableEq C] in
theorem replaces (hashApiKey : Text → Text) (tenantId : Uuid) (calls : C → Call) :
    Replaces (fun c => program hashApiKey tenantId (calls c)) (ApiKeysService.demotes tenantId) where
  cond := fun _ => rfl
  change := by
    intro t r _ r' hr'
    cases hr'
    simp [ApiKeysService.demotes, ApiKeysService.demotedData]
  rows := by
    intro t r hr
    rw [List.mem_singleton.1 hr, demotes_iff]
    exact ⟨rfl, rfl⟩

theorem demotesAll_iff : DemotesAll tenantId s a ↔
    Covers (fun c => program hashApiKey tenantId (calls c)) (ApiKeysService.demotes tenantId) s a := by
  cases a with
  | commit c => simp [DemotesAll, Covers, program, demotes_iff]
  | _ => exact Iff.rfl

/-- **When a tenant keeps one `ACTIVE` key.**  In every run in which each commit has demoted all
`ACTIVE` keys that are committed, the tenant has exactly one; and after the next commit it has
one exactly when this commit has demoted them all, too. -/
theorem one_active_key_iff (hashApiKey : Text → Text) (tenantId : Uuid) (calls : C → Call)
    (rows : List ApiKeyRow)
    (hone : (rows.filter (ApiKeysService.demotes tenantId)).length = 1) :
    (∀ s, Path (stepOf hashApiKey tenantId calls) (DemotesAll tenantId) (init rows) s →
      (activeKeys tenantId s).length = 1) ∧
    ∀ s s' c, Path (stepOf hashApiKey tenantId calls) (DemotesAll tenantId) (init rows) s →
      stepOf hashApiKey tenantId calls s (.commit c) = some s' →
      ((activeKeys tenantId s').length = 1 ↔ DemotesAll tenantId s (.commit c)) := by
  have hcovers : ∀ {s}, Path (stepOf hashApiKey tenantId calls) (DemotesAll tenantId) (init rows) s →
      Path (stepOf hashApiKey tenantId calls)
        (Covers (fun c => program hashApiKey tenantId (calls c)) (ApiKeysService.demotes tenantId))
        (init rows) s :=
    fun h => h.mono fun _ _ => demotesAll_iff.1
  have one : ∀ s, Path (stepOf hashApiKey tenantId calls) (DemotesAll tenantId) (init rows) s →
      (activeKeys tenantId s).length = 1 := by
    intro s h
    rcases live_of_covers (replaces hashApiKey tenantId calls) (hcovers h) with
      ⟨c, -, hlive⟩ | ⟨-, hlive⟩
    · rw [activeKeys, hlive]
      rfl
    · rw [activeKeys, hlive]
      exact hone
  refine ⟨one, ?_⟩
  intro s s' c h hs
  constructor
  · intro hlen
    by_contra hnot
    obtain ⟨d, -, -, -, hperm⟩ := live_of_not_covers (replaces hashApiKey tenantId calls)
      (hcovers h) hs fun hc => hnot (demotesAll_iff.2 hc)
    -- the keys of two calls
    have htwo : (activeKeys tenantId s').length = 2 := hperm.length_eq
    rw [htwo] at hlen
    cases hlen
  · intro hall
    exact one s' (h.snoc hall hs)

/-! ## Two rotations at once -/

namespace Sample

def tenant : Uuid := .ofNat 1

/-- The tenant has one key. -/
def firstKey : ApiKeyRow := newKey 0 (.ofNat 10) tenant (generateApiKey id [1])

/-- Each call draws its own id and its own key. -/
def rotations : Schedule.Caller → Call
  | .first => ⟨5, 5000, .ofNat 11, [2]⟩
  | .second => ⟨6, 6000, .ofNat 12, [3]⟩
  | .third => ⟨7, 7000, .ofNat 13, [4]⟩

end Sample

/-- At a run of three rotations, one of which is rolled back. -/
theorem one_active_key_after_rollback :
    ∃ s, Path (stepOf id Sample.tenant Sample.rotations) (DemotesAll Sample.tenant)
      (init [Sample.firstKey]) s ∧ s.cells.length = 4 ∧ (activeKeys Sample.tenant s).length = 1 := by
  obtain ⟨s, hpath, hs⟩ := Path.exists_of_runChecked (stepOf id Sample.tenant Sample.rotations)
    (p := covers (fun c => program id Sample.tenant (Sample.rotations c))
      (ApiKeysService.demotes Sample.tenant))
    (fun s a h => demotesAll_iff.2 (covers_iff.1 h)) (init [Sample.firstKey])
    Schedule.rolledBack (fun s => decide (s.cells.length = 4)) (by decide +kernel)
  exact ⟨s, hpath, of_decide_eq_true hs,
    (one_active_key_iff id Sample.tenant Sample.rotations [Sample.firstKey] (by decide)).1 s hpath⟩

/-- Two rotations that overlap leave two `ACTIVE` keys. -/
theorem two_active_keys :
    ¬ (∀ (hashApiKey : Text → Text) (tenantId : Uuid) (calls : Schedule.Caller → Call)
      (rows : List ApiKeyRow) (s : State Schedule.Caller ApiKeyRow),
      (rows.filter (ApiKeysService.demotes tenantId)).length = 1 →
      Reachable (stepOf hashApiKey tenantId calls) (init rows) s →
      (∀ c, (s.phase c).isOpen = false) → (activeKeys tenantId s).length = 1) := by
  intro h
  obtain ⟨s, hpath, hs⟩ := Path.exists_of_runChecked (stepOf id Sample.tenant Sample.rotations)
    (p := fun _ _ => true) (P := anyAction) (fun s a _ => trivial) (init [Sample.firstKey])
    (Schedule.overlapping ++ [.commit .second])
    (fun s => decide ((activeKeys Sample.tenant s).length = 2 ∧ ∀ c, (s.phase c).isOpen = false))
    (by decide +kernel)
  rw [decide_eq_true_eq] at hs
  have hone := h id Sample.tenant Sample.rotations [Sample.firstKey] s (by decide) hpath hs.2
  rw [hs.1] at hone
  cases hone

end RotateRace
end HookRelay
