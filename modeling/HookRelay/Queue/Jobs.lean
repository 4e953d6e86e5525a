import HookRelay.Data.Schema

/-!
# The delivery queue

The queue as the relay and the workers see it.  A job is in the queue from the moment it
is added until it is completed, fails for good or is thrown out; while a worker has it,
the job is locked by the run that works on it.

* `deliveryJobId` — the job id; `deliveryJobId_inj` says what two equal ids have in
  common.
* `Queue.add` — an add whose job id is still present is ignored.
* `Queue.complete`, `Queue.fail`, `Queue.release` — how a run ends, if it still has the
  lock: the job is done; a failure is counted and the job goes back or, when the
  attempts are used up, out; the job goes back without being counted.
* `find?_remove`, `ownedBy_iff` — what a removal leaves, and who has the lock.
-/

namespace HookRelay

open Lib

/-- `deliveryJobId(deliveryId, suffix)`. -/
def deliveryJobId (deliveryId : Uuid) (suffix : Option Text) : Text :=
  match suffix with
  | some (c :: cs) => "dlv-".toList ++ deliveryId.text ++ '-' :: c :: cs
  | _ => "dlv-".toList ++ deliveryId.text

/-- The suffix of a job that was reserved for one delivery by an outbox row. -/
def outboxSuffix (outboxId : ℕ) : Text := "obx-".toList ++ Nat.toDigits 10 outboxId

/-- A job: `DeliveryJobData`, its options, how often it failed, and the run that has it. -/
structure Job where
  id : Text
  deliveryId : Uuid
  tenantId : Option Uuid
  attempts : ℤ
  attemptsMade : ℕ
  lock : Option ℕ
  deriving DecidableEq

namespace Job

/-- The job with its lock changed. -/
def locked (lock : Option ℕ) (j : Job) : Job := { j with lock := lock }

theorem locked_id (lock : Option ℕ) (j : Job) : (j.locked lock).id = j.id := rfl

/-- The job after a failure that was counted. -/
def counted (j : Job) : Job := { j with attemptsMade := j.attemptsMade + 1, lock := none }

theorem counted_id (j : Job) : j.counted.id = j.id := rfl

end Job

abbrev Queue := Table Text Job Job.id

namespace Queue

/-- Add a job, unless one with its id is there. -/
def add (q : Queue) (j : Job) : Queue := (q.insert? j).getD q

/-- Hand a job to a run. -/
def hand (q : Queue) (id : Text) (r : ℕ) : Queue := q.modify id (Job.locked (some r)) (Job.locked_id _)

/-- The lock of a job expires. -/
def unlock (q : Queue) (id : Text) : Queue := q.modify id (Job.locked none) (Job.locked_id _)

/-- Remove a job. -/
def remove (q : Queue) (id : Text) : Queue := q.deleteMany fun j => j.id = id

/-- The job is locked by this run. -/
def ownedBy (q : Queue) (id : Text) (r : ℕ) : Bool :=
  (q.find? id).any fun j => j.lock = some r

/-- A failure of this job is one too many. -/
def exhausts (q : Queue) (id : Text) : Bool :=
  (q.find? id).any fun j => j.attempts ≤ (j.attemptsMade : ℤ) + 1

/-- The run goes back on its job without a failure being counted: `moveToDelayed`. -/
def release (q : Queue) (id : Text) (r : ℕ) : Queue :=
  if q.ownedBy id r then q.unlock id else q

/-- The run completes its job; `removeOnComplete`. -/
def complete (q : Queue) (id : Text) (r : ℕ) : Queue :=
  if q.ownedBy id r then q.remove id else q

/-- The run fails; `removeOnFail` when the attempts are used up. -/
def fail (q : Queue) (id : Text) (r : ℕ) : Queue :=
  if q.ownedBy id r then
    if q.exhausts id then q.remove id
    else q.modify id Job.counted Job.counted_id
  else q

end Queue

/-! ## Job ids -/

/-- Equal job ids are for the same delivery and have the same suffix. -/
theorem deliveryJobId_inj {d d' : Uuid} {s s' : Option Text}
    (h : deliveryJobId d s = deliveryJobId d' s') :
    d = d' ∧ s.getD [] = s'.getD [] := by
  have key : ∀ (u : Uuid) (o : Option Text), deliveryJobId u o =
      "dlv-".toList ++ (u.text ++ if o.getD [] = [] then [] else '-' :: o.getD []) := by
    intro u o
    match o with
    | none => simp [deliveryJobId]
    | some [] => simp [deliveryJobId]
    | some (c :: cs) => simp [deliveryJobId]
  rw [key, key] at h
  obtain ⟨htext, hrest⟩ := List.append_inj (List.append_cancel_left h) (by simp)
  refine ⟨Uuid.text_injective htext, ?_⟩
  split_ifs at hrest with h₁ h₂ h₂
  · rw [h₁, h₂]
  · simpa using hrest

theorem outboxSuffix_ne_nil (n : ℕ) : outboxSuffix n ≠ [] := by simp [outboxSuffix]

theorem outboxSuffix_injective {m n : ℕ} (h : outboxSuffix m = outboxSuffix n) : m = n := by
  have hd : Nat.toDigits 10 m = Nat.toDigits 10 n := List.append_cancel_left h
  have hm := Nat.ofDigitChars_toDigits (b := 10) (n := m) (by decide) (by decide)
  have hn := Nat.ofDigitChars_toDigits (b := 10) (n := n) (by decide) (by decide)
  rw [← hm, hd, hn]

/-! ## What the operations do -/

namespace Queue

variable {q : Queue} {id : Text} {r : ℕ}

theorem find?_remove (k : Text) :
    (q.remove id).find? k = if k = id then none else q.find? k := by
  by_cases hk : k = id
  · rw [if_pos hk, Table.find?_eq_none_iff]
    intro j hj
    have := (Table.mem_deleteMany.1 hj).2
    simpa [hk] using this
  · rw [if_neg hk]
    cases hf : q.find? k with
    | none =>
        rw [Table.find?_eq_none_iff] at hf ⊢
        exact fun j hj => hf j (Table.mem_deleteMany.1 hj).1
    | some j =>
        obtain ⟨hj, rfl⟩ := Table.find?_eq_some_iff.1 hf
        exact Table.find?_eq_some_iff.2 ⟨Table.mem_deleteMany.2 ⟨hj, by simpa using hk⟩, rfl⟩

theorem ownedBy_iff : q.ownedBy id r = true ↔ ∃ j, q.find? id = some j ∧ j.lock = some r := by
  unfold ownedBy
  cases q.find? id with
  | none => simp
  | some j => simp

end Queue

end HookRelay
