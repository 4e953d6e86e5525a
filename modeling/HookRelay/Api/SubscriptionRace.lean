import HookRelay.Lib.ReadCommitted
import HookRelay.Data.Transactions

/-!
# Concurrent calls of `setSubscriptions`

Any number of calls for one endpoint, each a transaction of two statements under READ
COMMITTED: a `DELETE` of the endpoint's rows and an `INSERT` of the deduplicated types.  The
table may hold the rows of other endpoints.

* `program` — the two statements of a call.
* `Sees` — when a call commits, its `DELETE` has seen what is committed, or it has no type.
* `subscriptions_of_one_call` — if every commit does, the endpoint has the types of one call;
  a commit that does not leaves it with the types of two.
-/

namespace HookRelay
namespace SubscriptionRace

open Lib ReadCommitted

/-- A call: its types, and the ids that the sequence gives to its rows. -/
structure Call where
  eventTypes : List Text
  ids : ℕ → ℕ

/-- `[...new Set(eventTypes)]`. -/
def Call.unique (c : Call) : List Text := c.eventTypes.eraseDups

/-- `where: { endpointId: id }`. -/
def ofEndpoint (endpointId : Uuid) (row : SubscriptionRow) : Bool :=
  decide (row.endpointId = endpointId)

/-- The transaction of a call: `deleteMany` and `createMany`. -/
def program (endpointId : Uuid) (c : Call) : Program SubscriptionRow where
  cond := ofEndpoint endpointId
  change := fun _ => none
  rows := c.unique.mapIdx fun i eventType => Database.newSubscription endpointId eventType (c.ids i)

/-- The primary key and `@@unique([endpointId, eventType])`. -/
def conflict (a b : SubscriptionRow) : Bool :=
  decide (a.id = b.id) || decide (a.endpointId = b.endpointId) && decide (a.eventType = b.eventType)

variable {C : Type} [DecidableEq C]

/-- One step of the calls for an endpoint. -/
abbrev stepOf (endpointId : Uuid) (calls : C → Call) :
    State C SubscriptionRow → Action C → Option (State C SubscriptionRow) :=
  step conflict fun c => program endpointId (calls c)

/-- The committed event types of the endpoint. -/
def eventTypesOf (endpointId : Uuid) (s : State C SubscriptionRow) : List Text :=
  (live (ofEndpoint endpointId) s).map SubscriptionRow.eventType

/-- A call that commits has no type, or its `DELETE` has seen, and so deleted, every row of the
endpoint that is committed. -/
def Sees (endpointId : Uuid) (calls : C → Call) (s : State C SubscriptionRow) :
    Action C → Prop
  | .commit c => (calls c).unique = [] ∨
      ∀ cell ∈ s.cells, ∀ row ∈ cell.committed, row.endpointId = endpointId →
        cell.lockedBy c = true
  | _ => True

variable {endpointId : Uuid} {calls : C → Call} {c : Call} {rows : List SubscriptionRow}
  {s s' : State C SubscriptionRow} {a : Action C}

theorem eventTypes_program (endpointId : Uuid) (c : Call) :
    (program endpointId c).rows.map SubscriptionRow.eventType = c.unique := by
  refine List.ext_getElem? fun i => ?_
  rw [program, List.getElem?_map, List.getElem?_mapIdx, Option.map_map]
  exact congrFun Option.map_id _

omit [DecidableEq C] in
theorem replaces (endpointId : Uuid) (calls : C → Call) :
    Replaces (fun c => program endpointId (calls c)) (ofEndpoint endpointId) where
  cond := fun _ => rfl
  change := by rintro t r - r' ⟨⟩
  rows := by
    intro t r hr
    obtain ⟨i, hi, rfl⟩ := List.mem_mapIdx.1 hr
    simp [ofEndpoint, Database.newSubscription]

theorem sees_iff : Sees endpointId calls s a ↔
    Covers (fun c => program endpointId (calls c)) (ofEndpoint endpointId) s a := by
  cases a with
  | commit c => simp [Sees, Covers, program, ofEndpoint]
  | _ => exact Iff.rfl

theorem unique_eq_nil_iff : (program endpointId c).rows = [] ↔ c.unique = [] :=
  List.mapIdx_eq_nil_iff

/-- **When the subscriptions are those of one call.**  In every run in which each commit sees
what is committed, the endpoint has the deduplicated types of a call that has committed, or,
if none has, the types from the beginning.  The first commit that does not leaves it with the
types of two calls, neither of them empty. -/
theorem subscriptions_of_one_call (endpointId : Uuid) (calls : C → Call)
    (rows : List SubscriptionRow) :
    (∀ s, Path (stepOf endpointId calls) (Sees endpointId calls) (init rows) s →
      (∃ c, s.phase c = .committed ∧ eventTypesOf endpointId s = (calls c).unique) ∨
      (∀ c, s.phase c ≠ .committed) ∧ eventTypesOf endpointId s =
        (rows.filter (ofEndpoint endpointId)).map SubscriptionRow.eventType) ∧
    ∀ s s' c, Path (stepOf endpointId calls) (Sees endpointId calls) (init rows) s →
      stepOf endpointId calls s (.commit c) = some s' → ¬ Sees endpointId calls s (.commit c) →
      ∃ d, s.phase d = .committed ∧ (calls d).unique ≠ [] ∧ (calls c).unique ≠ [] ∧
        (eventTypesOf endpointId s').Perm ((calls d).unique ++ (calls c).unique) := by
  have hcovers : ∀ {s}, Path (stepOf endpointId calls) (Sees endpointId calls) (init rows) s →
      Path (stepOf endpointId calls)
        (Covers (fun c => program endpointId (calls c)) (ofEndpoint endpointId)) (init rows) s :=
    fun h => h.mono fun _ _ => sees_iff.1
  constructor
  · intro s h
    rcases live_of_covers (replaces endpointId calls) (hcovers h) with ⟨c, hc, hlive⟩ | ⟨hnone, hlive⟩
    · left
      refine ⟨c, hc, ?_⟩
      rw [eventTypesOf, hlive, eventTypes_program]
    · right
      exact ⟨hnone, by rw [eventTypesOf, hlive]⟩
  · intro s s' c h hs hsees
    obtain ⟨d, hd, hrows, hrows', hperm⟩ := live_of_not_covers (replaces endpointId calls)
      (hcovers h) hs fun hc => hsees (sees_iff.2 hc)
    refine ⟨d, hd, fun hnil => hrows (unique_eq_nil_iff.2 hnil),
      fun hnil => hrows' (unique_eq_nil_iff.2 hnil), ?_⟩
    have hmap := hperm.map SubscriptionRow.eventType
    rwa [List.map_append, eventTypes_program, eventTypes_program] at hmap

/-! ## Two calls at once -/

namespace Sample

def endpoint : Uuid := .ofNat 2

def types (name : String) : List Text := [name.toList, name.toList]

/-- Each call has a type of its own. -/
def puts : Schedule.Caller → Call
  | .first => ⟨types "b", fun _ => 10⟩
  | .second => ⟨types "c", fun _ => 11⟩
  | .third => ⟨types "d", fun _ => 12⟩

/-- The endpoint has one subscription. -/
def stored : List SubscriptionRow := [⟨1, endpoint, "a".toList⟩]

end Sample

/-- At a run of three calls, one of which is rolled back. -/
theorem subscriptions_of_one_call_after_rollback :
    ∃ s, Path (stepOf Sample.endpoint Sample.puts) (Sees Sample.endpoint Sample.puts)
      (init Sample.stored) s ∧ eventTypesOf Sample.endpoint s = ["d".toList] ∧
      ((∃ c, s.phase c = .committed ∧ eventTypesOf Sample.endpoint s = (Sample.puts c).unique) ∨
      (∀ c, s.phase c ≠ .committed) ∧ eventTypesOf Sample.endpoint s =
        (Sample.stored.filter (ofEndpoint Sample.endpoint)).map SubscriptionRow.eventType) := by
  obtain ⟨s, hpath, hs⟩ := Path.exists_of_runChecked (stepOf Sample.endpoint Sample.puts)
    (p := covers (fun c => program Sample.endpoint (Sample.puts c)) (ofEndpoint Sample.endpoint))
    (fun s a h => sees_iff.2 (covers_iff.1 h)) (init Sample.stored) Schedule.rolledBack
    (fun s => decide (eventTypesOf Sample.endpoint s = ["d".toList])) (by decide +kernel)
  exact ⟨s, hpath, of_decide_eq_true hs,
    (subscriptions_of_one_call Sample.endpoint Sample.puts Sample.stored).1 s hpath⟩

/-- Two calls that overlap leave the types of both. -/
theorem subscriptions_of_two_calls :
    ¬ (∀ (endpointId : Uuid) (calls : Schedule.Caller → Call) (rows : List SubscriptionRow)
      (s : State Schedule.Caller SubscriptionRow), Reachable (stepOf endpointId calls) (init rows) s →
      (∀ c, (s.phase c).isOpen = false) → (∃ c, s.phase c = .committed) →
      ∃ c, s.phase c = .committed ∧
        ∀ eventType, eventType ∈ eventTypesOf endpointId s ↔ eventType ∈ (calls c).unique) := by
  intro h
  obtain ⟨s, hpath, hs⟩ := Path.exists_of_runChecked (stepOf Sample.endpoint Sample.puts)
    (p := fun _ _ => true) (P := anyAction) (fun s a _ => trivial) (init Sample.stored)
    (Schedule.overlapping ++ [.commit .second])
    (fun s => decide (eventTypesOf Sample.endpoint s = ["b".toList, "c".toList] ∧
      ∀ c, (s.phase c).isOpen = false) && (s.phase .first).isCommitted) (by decide +kernel)
  rw [Bool.and_eq_true, decide_eq_true_eq] at hs
  obtain ⟨⟨htypes, hclosed⟩, hcommitted⟩ := hs
  obtain ⟨c, -, hc⟩ := h Sample.endpoint Sample.puts Sample.stored s hpath hclosed
    ⟨.first, Phase.isCommitted_iff.1 hcommitted⟩
  -- no call has both types
  have hb := (hc "b".toList).1 (by simp [htypes])
  have hc' := (hc "c".toList).1 (by simp [htypes])
  clear hc
  revert c
  decide

end SubscriptionRace
end HookRelay
