import HookRelay.System.Handling
import HookRelay.System.Attempts

/-!
# Two budgets for one delivery

A job is given `HR_MAX_ATTEMPTS` failures by the queue, and its delivery
`HR_MAX_ATTEMPTS` attempts by the processor.  A run that ends with `RetrySignal` moves
both counters; a run that ends with another error, before its final update of the
delivery, moves only the queue's.

* `Paced` — the job's failures do not exceed the delivery's attempts, and the run that
  has the job does not fall behind.
* `Matched` — an error before the final update comes only when the attempts of other
  jobs have put the delivery's counter ahead.
* `budget_outlasts` — as long as this is so, the queue never gives up the job.
* `budget_runs_out` — two errors in `findUnique` are enough to lose a delivery that was
  never attempted.
-/

namespace HookRelay

open Lib

/-- The attempt of the run has failed and its delivery has been updated. -/
def Phase.reported : Phase → Bool
  | .returned .failed => true
  | .retryRead => true
  | .retryWrite _ => true
  | _ => false

/-- The run keeps up with its job: the row it has read is not behind the job's failures,
and once it is bound to be counted as a failure, its own attempt is in the delivery's
counter. -/
def Phase.KeepsUp (maxAttempts : ℤ) (count made : ℕ) : Phase → Prop
  | .lookup x => made ≤ x.attemptCount
  | .load x => made ≤ x.attemptCount
  | .store x _ => made ≤ x.attemptCount
  | .claim x _ => made ≤ x.attemptCount
  | .attempt x _ _ _ => made ≤ x.attemptCount
  | .returned .failed => made + 1 ≤ count ∧ (made : ℤ) + 1 < maxAttempts
  | .retryRead => made + 1 ≤ count ∧ (made : ℤ) + 1 < maxAttempts
  | .retryWrite _ => made + 1 ≤ count ∧ (made : ℤ) + 1 < maxAttempts
  | .finish .retrySignal => made + 1 ≤ count ∧ (made : ℤ) + 1 < maxAttempts
  | .finish .threw => made + 1 ≤ count ∧ (made : ℤ) + 1 < maxAttempts
  | _ => True

theorem Phase.KeepsUp.mono {maxAttempts : ℤ} {count count' made : ℕ} {p : Phase}
    (h : p.KeepsUp maxAttempts count made) (hle : count ≤ count') :
    p.KeepsUp maxAttempts count' made := by
  unfold Phase.KeepsUp at h ⊢
  split at h <;> first | exact h | exact ⟨h.1.trans hle, h.2⟩

theorem Phase.KeepsUp.of_reported {maxAttempts : ℤ} {count made : ℕ} {p : Phase}
    (h : p.KeepsUp maxAttempts count made) (hp : p.reported = true) :
    made + 1 ≤ count ∧ (made : ℤ) + 1 < maxAttempts := by
  unfold Phase.reported at hp
  split at hp <;> first | exact h | cases hp

theorem keepsUp_afterEndpoint {maxAttempts : ℤ} {count made : ℕ} {x : DeliveryRow}
    (e : EndpointConfig) (h : made ≤ x.attemptCount) :
    (afterEndpoint x e).KeepsUp maxAttempts count made := by
  unfold afterEndpoint
  split_ifs
  · exact h
  · exact trivial

namespace System

variable {cfg : WorkerConfig} {s s' : State} {a : Action} {id : Text}

/-- The job's failures do not exceed the attempts of its delivery. -/
structure Paced (cfg : WorkerConfig) (s : State) (j : Job) : Prop where
  attempts : j.attempts = cfg.maxAttempts
  made : j.attemptsMade ≤ s.db.attemptCount j.deliveryId
  keepsUp : ∀ r run, j.lock = some r → s.runs r = some run →
    run.phase.KeepsUp cfg.maxAttempts (s.db.attemptCount j.deliveryId) j.attemptsMade

/-- A run of the job that throws before its final update of the delivery does so only
when the attempts of the delivery, made for other jobs, are ahead of the job's failures
and below the limit. -/
def Matched (cfg : WorkerConfig) (id : Text) (s : State) : Action → Prop
  | .throw r => ∀ run j, s.runs r = some run → s.queue.find? id = some j → j.lock = some r →
      run.phase.reported = false →
      j.attemptsMade + 1 ≤ s.db.attemptCount j.deliveryId ∧
        (s.db.attemptCount j.deliveryId : ℤ) < cfg.maxAttempts
  | _ => True

/-- The final update after a failure advances the delivery's counter. -/
theorem attemptCount_settleFailure {r : ℕ} {run : Run} {x : DeliveryRow} {e : EndpointConfig}
    {c : ℕ} {stage : Stage} (hwf : Wf s) (hinv : Claims.Inv (counter s run.deliveryId))
    (hrun : s.runs r = some run) (hphase : run.phase = .attempt x e c stage) (dead : Bool) :
    ((Write.settleFailure x.id (x.attemptCount + 1) dead).exec s.now s.db).attemptCount
      run.deliveryId = x.attemptCount + 1 := by
  have hid : x.id = run.deliveryId := hwf.row_id r run x hrun (by rw [hphase]; rfl)
  have hholds : (counter s run.deliveryId).phase r = .holding x.attemptCount := by
    simp only [counter, hrun]
    rw [stance_of_eq rfl, hphase]
    rfl
  obtain ⟨-, ⟨row, hrow, -⟩, -⟩ := hinv.holding r _ hholds
  simp [Database.attemptCount, Write.exec, hid, hrow, Write.failedData]

/-- A run that got less than the last attempt is retried, and its attempt is counted. -/
theorem keepsUp_failureResult {x : DeliveryRow} {made count : ℕ} (hmade : made ≤ x.attemptCount)
    (hcount : count = x.attemptCount + 1) :
    (Phase.returned (failureResult (isDead cfg (x.attemptCount + 1)))).KeepsUp cfg.maxAttempts
      count made := by
  cases hdead : isDead cfg (x.attemptCount + 1) with
  | true => exact trivial
  | false =>
      have hlt : ¬ cfg.maxAttempts ≤ ((x.attemptCount + 1 : ℕ) : ℤ) := by
        simpa [isDead] using hdead
      show made + 1 ≤ count ∧ (made : ℤ) + 1 < cfg.maxAttempts
      omega

/-- A step of the run that has the job keeps it up with the job. -/
theorem planned_keepsUp {r : ℕ} {run : Run} {next : Next} {made : ℕ} (hwf : Wf s)
    (hinv : Claims.Inv (counter s run.deliveryId)) (hrun : s.runs r = some run)
    (hmade : made ≤ s.db.attemptCount run.deliveryId)
    (h : run.phase.KeepsUp cfg.maxAttempts (s.db.attemptCount run.deliveryId) made)
    (hle : s.db.attemptCount run.deliveryId ≤ (next.write.exec s.now s.db).attemptCount run.deliveryId)
    (hp : Planned cfg s.now s.db (s.cache run.worker) run run.phase next) :
    next.run.phase.KeepsUp cfg.maxAttempts
      ((next.write.exec s.now s.db).attemptCount run.deliveryId) made := by
  generalize hphase : run.phase = p at hp h
  cases hp with
  | found x hx _ =>
      rw [Database.attemptCount, hx] at hmade
      exact hmade
  | cached x entry _ => exact keepsUp_afterEndpoint _ h
  | stored x e => exact keepsUp_afterEndpoint _ h
  | attempt x e c stage _ ha =>
      cases ha with
      | failed =>
          exact keepsUp_failureResult h (attemptCount_settleFailure hwf hinv hrun hphase _)
      | failedOpen =>
          exact keepsUp_failureResult h (attemptCount_settleFailure hwf hinv hrun hphase _)
      | succeeded => exact trivial
      | _ => exact h
  | retries _ => exact h.mono hle
  | retryCounted n => exact h.mono hle
  | retryScheduled n retryAt => exact h.mono hle
  | ends res _ => exact trivial
  | notCached x => exact h
  | loaded x e _ => exact h
  | claimed x e text _ => exact h
  | _ => exact trivial

/-- The run that has a job keeps up with it, whatever step is made. -/
theorem step_keepsUp {j : Job} {r : ℕ} {run' : Run} (hwf : Wf s)
    (hinv : ∀ d, Claims.Inv (counter s d)) (howned : Owned s) (hj : s.queue.find? id = some j)
    (h : Paced cfg s j) (hm : Matched cfg id s a) (hs : step cfg s a = some s')
    (hlock : j.lock = some r) (hrun' : s'.runs r = some run') :
    run'.phase.KeepsUp cfg.maxAttempts (s'.db.attemptCount j.deliveryId) j.attemptsMade := by
  have hmem := (Table.find?_eq_some_iff.1 hj).1
  have hlt := howned.started j hmem r hlock
  have hle := (step_monotone hwf (hinv j.deliveryId) hs).1
  rcases runs_cases hlt hs hrun' with hrun | ⟨i, run, next, rfl, hrun, hp, rfl, rfl⟩ |
    ⟨run, rfl, hrun, rfl, rfl⟩
  · exact (h.keepsUp r run' hlock hrun).mono hle
  · have hkeep := h.keepsUp r run hlock hrun
    have hmade := h.made
    rw [← (howned.about j hmem r run hlock hrun).2] at hle hkeep hmade ⊢
    exact planned_keepsUp hwf (hinv _) hrun hmade hkeep hle hp
  · show j.attemptsMade + 1 ≤ s.db.attemptCount j.deliveryId ∧
      (j.attemptsMade : ℤ) + 1 < cfg.maxAttempts
    cases hrep : run.phase.reported with
    | true => exact (h.keepsUp r run hlock hrun).of_reported hrep
    | false =>
        have := hm run j hrun hj hlock hrep
        omega

/-- **The step lemma.**  A step that is `Matched` for a job keeps it paced. -/
theorem step_paced (hwf : Wf s) (hinv : ∀ d, Claims.Inv (counter s d)) (howned : Owned s)
    (h : ∀ j, s.queue.find? id = some j → Paced cfg s j) (hm : Matched cfg id s a)
    (hs : step cfg s a = some s') : ∀ j, s'.queue.find? id = some j → Paced cfg s' j := by
  intro j' hj'
  have hmove := step_job hs id
  rw [hj'] at hmove
  have hmono : ∀ d, s.db.attemptCount d ≤ s'.db.attemptCount d :=
    fun d => (step_monotone hwf (hinv d) hs).1
  -- an entry without a lock is paced as soon as its failures are covered
  have free : ∀ j : Job, j.attempts = cfg.maxAttempts →
      j.attemptsMade ≤ s'.db.attemptCount j.deliveryId → j.lock = none → Paced cfg s' j := by
    intro j hatt hmade hlock
    refine ⟨hatt, hmade, fun r run hr _ => ?_⟩
    rw [hlock] at hr
    cases hr
  generalize ho : s.queue.find? id = o at hmove
  generalize ho' : some j' = o' at hmove
  cases hmove with
  | same =>
      subst ho'
      have hpaced := h j' ho
      exact ⟨hpaced.attempts, hpaced.made.trans (hmono _), fun r run' hlock hrun' =>
        step_keepsUp hwf hinv howned ho hpaced hm hs hlock hrun'⟩
  | added m d _ _ =>
      cases ho'
      exact free _ rfl (Nat.zero_le _) rfl
  | handed w j hfree =>
      cases ho'
      obtain ⟨hatt, hmade, -⟩ := h j ho
      refine ⟨hatt, hmade.trans (hmono _), fun r run' hlock hrun' => ?_⟩
      cases hlock
      obtain ⟨j₁, -, -, heq⟩ := take_eq_some hs
      simp only [heq, Function.update_self, Option.some.injEq] at hrun'
      rw [← hrun']
      exact trivial
  | unlocked j =>
      cases ho'
      obtain ⟨hatt, hmade, -⟩ := h j ho
      exact free _ hatt (hmade.trans (hmono _)) rfl
  | released r i run j _ =>
      cases ho'
      obtain ⟨hatt, hmade, -⟩ := h j ho
      exact free _ hatt (hmade.trans (hmono _)) rfl
  | counted r i run j ending hne has _ =>
      cases ho'
      obtain ⟨hatt, hmade, hkeep⟩ := h j ho
      have hcount : j.attemptsMade + 1 ≤ s.db.attemptCount j.deliveryId := by
        have := hkeep r run has.lock has.runs
        rw [has.phase] at this
        cases ending with
        | returned => exact absurd rfl hne
        | retrySignal => exact this.1
        | threw => exact this.1
      exact free _ hatt (hcount.trans (hmono _)) rfl
  | discarded => cases ho'
  | completed => cases ho'
  | exhausted => cases ho'

theorem path_paced (h : Path (step cfg) (Matched cfg id) init s) :
    ∀ j, s.queue.find? id = some j → Paced cfg s j :=
  h.invariant_along (I := fun t => ∀ j, t.queue.find? id = some j → Paced cfg t j)
    (J := fun t => Wf t ∧ (∀ d, Claims.Inv (counter t d)) ∧ Owned t)
    (fun _ ht => ⟨path_wf ht, path_inv ht, path_owned ht⟩)
    (fun _ _ _ hJ hI hm hs => step_paced hJ.1 hJ.2.1 hJ.2.2 hI hm hs) (fun _ hj => by cases hj)

/-! ## The result -/

/-- The next step of run `r` makes the queue give up job `j` for its failures. -/
structure Exhausts (s : State) (r : ℕ) (j : Job) : Prop where
  run : ∃ run ending, Has s r run j (.finish ending) ∧ ending ≠ .returned
  spent : j.attempts ≤ (j.attemptsMade : ℤ) + 1

/-- The delivery is done, or another job or a `PENDING` outbox row for it exists. -/
def Accounted (s : State) (d : Uuid) : Prop :=
  (∃ row, s.db.deliveries.find? d = some row ∧ row.status.isDone = true) ∨
    (∃ j ∈ s.queue, j.deliveryId = d) ∨
    ∃ row ∈ s.db.outbox.rows, row.status = .pending ∧ d ∈ s.db.targets row

/-- The queue gives up a job for its failures only if its delivery is accounted for. -/
def BudgetOutlasts (cfg : WorkerConfig) (s : State) (id : Text) : Prop :=
  ∀ r i j s', s.queue.find? id = some j → Exhausts s r j → step cfg s (.run r i) = some s' →
    Accounted s' j.deliveryId

/-- **The queue's budget outlasts the delivery's.**  In every run of the system in which
the errors of a job's runs are `Matched`, in every state reached, the job's failures do
not exceed the attempts of its delivery and the queue is not about to give it up; so no
delivery is lost that way. -/
theorem budget_outlasts (cfg : WorkerConfig) (id : Text) (s : State)
    (h : Path (step cfg) (Matched cfg id) init s) :
    BudgetOutlasts cfg s id ∧ ∀ j, s.queue.find? id = some j →
      j.attemptsMade ≤ s.db.attemptCount j.deliveryId ∧ ∀ r, ¬ Exhausts s r j := by
  have never : ∀ j r, s.queue.find? id = some j → ¬ Exhausts s r j := by
    rintro j r hj ⟨⟨run, ending, has, hne⟩, hspent⟩
    have hpaced := path_paced h j hj
    have hkeep := hpaced.keepsUp r run has.lock has.runs
    rw [has.phase] at hkeep
    rw [hpaced.attempts] at hspent
    cases ending with
    | returned => exact hne rfl
    | retrySignal => exact absurd hspent (not_le.2 hkeep.2)
    | threw => exact absurd hspent (not_le.2 hkeep.2)
  exact ⟨fun r i j s' hj hex _ => absurd hex (never j r hj),
    fun j hj => ⟨(path_paced h j hj).made, fun r => never j r hj⟩⟩

/-- After a failed attempt of two, the job has one failure and the delivery one attempt. -/
theorem budget_outlasts_after_failure : ∃ s j,
    Path (step Sample.cfg) (Matched Sample.cfg Sample.job) init s ∧
    s.queue.find? Sample.job = some j ∧ j.attemptsMade = 1 ∧
    1 ≤ s.db.attemptCount j.deliveryId ∧ BudgetOutlasts Sample.cfg s Sample.job := by
  obtain ⟨s, hpath, hs⟩ := Path.exists_of_runChecked (step Sample.cfg)
    (P := Matched Sample.cfg Sample.job) (p := fun _ => Sample.noFault)
    (fun _ a h => by cases a <;> first | exact trivial | cases h) init Sample.failedOnce
    (fun s => (s.queue.find? Sample.job).any fun j => j.attemptsMade = 1) (by decide +kernel)
  simp only [Option.any_eq_true, decide_eq_true_eq] at hs
  obtain ⟨j, hj, hmade⟩ := hs
  obtain ⟨hout, hpaced⟩ := budget_outlasts Sample.cfg Sample.job s hpath
  exact ⟨s, j, hpath, hj, hmade, hmade ▸ (hpaced j hj).1, hout⟩

namespace Sample

/-- Run `r` gets its slot, and `findUnique` throws. -/
def unreachable (r : ℕ) : List Action :=
  [.take 0 job, .run r .none, .run r (.answer true), .throw r]

/-- Run `r` is about to fail the job once too often. -/
def exhausts (s : State) (r : ℕ) : Bool :=
  ((s.queue.find? job).any fun j =>
      j.deliveryId = delivery && j.lock = some r && j.attempts ≤ (j.attemptsMade : ℤ) + 1) &&
    (s.runs r).any fun run => run.jobId = job && match run.phase with
      | .finish .threw => true
      | _ => false

theorem exhausts_spec {s : State} {r : ℕ} (h : exhausts s r = true) :
    ∃ j, s.queue.find? job = some j ∧ j.deliveryId = delivery ∧ Exhausts s r j := by
  simp only [exhausts, Bool.and_eq_true, Option.any_eq_true, decide_eq_true_eq] at h
  obtain ⟨⟨j, hj, ⟨hd, hlock⟩, hspent⟩, run, hrun, hjob, hphase⟩ := h
  split at hphase
  · rename_i hp
    have hid : run.jobId = j.id := hjob.trans (Table.find?_eq_some_iff.1 hj).2.symm
    exact ⟨j, hj, hd, ⟨run, .threw, ⟨hrun, hp, hid, hlock⟩, by decide⟩, hspent⟩
  · cases hphase

/-- The delivery is open, and neither the queue nor the outbox knows of it. -/
def lost (s : State) : Bool :=
  ((s.db.deliveries.find? delivery).all fun row => !row.status.isDone) &&
    s.queue.rows.all (fun j => j.deliveryId ≠ delivery) &&
    s.db.outbox.rows.all (fun row => row.status ≠ .pending)

theorem not_accounted_of_lost {s : State} (h : lost s = true) : ¬ Accounted s delivery := by
  simp only [lost, Bool.and_eq_true, Option.all_eq_true, List.all_eq_true, decide_eq_true_eq,
    Bool.not_eq_true'] at h
  obtain ⟨⟨hopen, hqueue⟩, houtbox⟩ := h
  rintro (⟨row, hrow, hdone⟩ | ⟨j, hj, hd⟩ | ⟨row, hrow, hpending, -⟩)
  · rw [hopen row hrow] at hdone
    cases hdone
  · exact hqueue j hj hd
  · exact houtbox row hrow hpending

end Sample

/-- Two errors in `findUnique`, and the queue gives up a delivery that is `PENDING` and has
no other job. -/
theorem budget_runs_out :
    ¬ ∀ (cfg : WorkerConfig) (s : State) (id : Text), Reach cfg s → BudgetOutlasts cfg s id := by
  intro hall
  obtain ⟨s, hreach, hs⟩ := Path.exists_of_runChecked (step Sample.cfg) (P := anyAction)
    (p := fun _ _ => true) (fun _ _ _ => trivial) init
    (Sample.enqueued ++ Sample.unreachable 0 ++ [.run 0 .none] ++ Sample.unreachable 1)
    (fun s => Sample.exhausts s 1 && (step Sample.cfg s (.run 1 .none)).any Sample.lost)
    (by decide +kernel)
  rw [Bool.and_eq_true, Option.any_eq_true] at hs
  obtain ⟨hex, s', hs', hlost⟩ := hs
  obtain ⟨j, hj, hd, hex⟩ := Sample.exhausts_spec hex
  have hacc := hall Sample.cfg s Sample.job hreach 1 .none j s' hj hex hs'
  rw [hd] at hacc
  exact Sample.not_accounted_of_lost hlost hacc

end System
end HookRelay
