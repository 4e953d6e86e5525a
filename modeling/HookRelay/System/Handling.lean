import HookRelay.System.Outbox

/-!
# What becomes of a job

A job is added by a relay, handed to a run, put back or removed when the run lets go of
it or its lock expires.  `JobMove` follows the entry of one job id in the queue through
a step; `step_job` says that every step is one of these moves.

* `Owned` — the run that has the lock of a job was started for it.
* `path_owned` — so it is in every reachable state.
-/

namespace HookRelay

open Lib

namespace Queue

variable {q : Queue} {id k : Text} {r : ℕ} {j : Job}

theorem find?_hand : (q.hand id r).find? k =
    if k = id then (q.find? id).map (Job.locked (some r)) else q.find? k :=
  Table.find?_modify q id k _ _

theorem find?_unlock : (q.unlock id).find? k =
    if k = id then (q.find? id).map (Job.locked none) else q.find? k :=
  Table.find?_modify q id k _ _

theorem exhausts_iff (h : q.find? id = some j) :
    q.exhausts id = true ↔ j.attempts ≤ (j.attemptsMade : ℤ) + 1 := by
  simp [exhausts, h]

/-- Letting go of one job does not touch another one. -/
theorem find?_of_ne (h : k ≠ id) : (q.release id r).find? k = q.find? k ∧
    (q.complete id r).find? k = q.find? k ∧ (q.fail id r).find? k = q.find? k := by
  refine ⟨?_, ?_, ?_⟩
  · unfold release
    split_ifs
    · rw [find?_unlock, if_neg h]
    · rfl
  · unfold complete
    split_ifs
    · rw [find?_remove, if_neg h]
    · rfl
  · unfold fail
    split_ifs
    · rw [find?_remove, if_neg h]
    · exact Table.find?_modify_of_ne q _ _ h
    · rfl

/-- A run that does not have the lock changes nothing. -/
theorem eq_of_not_owned (h : ¬ q.ownedBy id r = true) :
    q.release id r = q ∧ q.complete id r = q ∧ q.fail id r = q :=
  ⟨if_neg h, if_neg h, if_neg h⟩

end Queue

namespace System

variable {cfg : WorkerConfig} {s s' : State} {a : Action}

/-- The run `r` has the lock of job `j` and is at phase `p`. -/
structure Has (s : State) (r : ℕ) (run : Run) (j : Job) (p : Phase) : Prop where
  runs : s.runs r = some run
  phase : run.phase = p
  jobId : run.jobId = j.id
  lock : j.lock = some r

/-- What a step can do to the entry of one job id. -/
inductive JobMove (cfg : WorkerConfig) (s : State) (id : Text) :
    Action → Option Job → Option Job → Prop
  | same {a : Action} {o : Option Job} : JobMove cfg s id a o o
  /-- A relay adds the job. -/
  | added {a : Action} (m : Message) (d : Uuid) : d ∈ targetsOf m → jobIdOf m d = id →
      JobMove cfg s id a none (some (jobOf cfg.maxAttempts m d))
  | handed (w : ℕ) (j : Job) : j.lock = none →
      JobMove cfg s id (.take w id) (some j) (some (j.locked (some s.nextRun)))
  | unlocked (j : Job) : JobMove cfg s id (.unlock id) (some j) (some (j.locked none))
  | discarded (j : Job) : JobMove cfg s id (.discard id) (some j) none
  | released (r : ℕ) (i : Input) (run : Run) (j : Job) : Has s r run j .delay →
      JobMove cfg s id (.run r i) (some j) (some (j.locked none))
  | completed (r : ℕ) (i : Input) (run : Run) (j : Job) : Has s r run j (.finish .returned) →
      JobMove cfg s id (.run r i) (some j) none
  | counted (r : ℕ) (i : Input) (run : Run) (j : Job) (ending : Ending) :
      ending ≠ .returned → Has s r run j (.finish ending) →
      ¬ j.attempts ≤ (j.attemptsMade : ℤ) + 1 →
      JobMove cfg s id (.run r i) (some j) (some j.counted)
  | exhausted (r : ℕ) (i : Input) (run : Run) (j : Job) (ending : Ending) :
      ending ≠ .returned → Has s r run j (.finish ending) →
      j.attempts ≤ (j.attemptsMade : ℤ) + 1 → JobMove cfg s id (.run r i) (some j) none

/-- The jobs of a message enter the queue one by one. -/
theorem addJobs_find? {m : Message} {jobs : List Job} (id : Text)
    (hjobs : ∀ j ∈ jobs, j ∈ jobsOf cfg.maxAttempts m) :
    (addJobs s m.id jobs).queue.find? id = s.queue.find? id ∨
      s.queue.find? id = none ∧ ∃ d ∈ targetsOf m, jobIdOf m d = id ∧
        (addJobs s m.id jobs).queue.find? id = some (jobOf cfg.maxAttempts m d) := by
  induction jobs generalizing s with
  | nil => exact .inl rfl
  | cons j js ih =>
      have hjs : ∀ i ∈ js, i ∈ jobsOf cfg.maxAttempts m :=
        fun i hi => hjobs i (List.mem_cons_of_mem _ hi)
      obtain ⟨d, hd, rfl⟩ := mem_jobsOf.1 (hjobs j List.mem_cons_self)
      unfold addJobs
      cases hins : s.queue.insert? (jobOf cfg.maxAttempts m d) with
      | none => exact ih hjs
      | some queue =>
          have hfind := Table.find?_insert? hins id
          by_cases hid : (jobOf cfg.maxAttempts m d).id = id
          · rw [if_pos hid] at hfind
            -- the job is in the queue now, and the others do not replace it
            have hnone := (Table.insert?_eq_some_iff.1 hins).1
            rw [hid] at hnone
            refine .inr ⟨hnone, d, hd, hid, ?_⟩
            rcases ih (s := { s with queue := queue, accepted := _ }) hjs with h | ⟨h, -⟩
            · exact h.trans hfind
            · rw [hfind] at h
              cases h
          · rw [if_neg hid] at hfind
            rcases ih (s := { s with queue := queue, accepted := _ }) hjs with
              h | ⟨h, d', hd', hid', h'⟩
            · exact .inl (h.trans hfind)
            · exact .inr ⟨hfind ▸ h, d', hd', hid', h'⟩

/-- A job that is in the queue stays there while others are added. -/
theorem addJobs_keeps {outboxId : ℕ} {jobs : List Job} {id : Text}
    (h : s.queue.find? id ≠ none) : (addJobs s outboxId jobs).queue.find? id ≠ none := by
  induction jobs generalizing s with
  | nil => exact h
  | cons j js ih =>
      unfold addJobs
      cases hins : s.queue.insert? j with
      | none => exact ih h
      | some queue =>
          refine ih ?_
          simp only
          rw [Table.find?_insert? hins]
          split_ifs
          · simp
          · exact h

/-- After jobs have been added, they are in the queue. -/
theorem addJobs_present {outboxId : ℕ} {jobs : List Job} {j : Job} (hj : j ∈ jobs) :
    (addJobs s outboxId jobs).queue.find? j.id ≠ none := by
  induction jobs generalizing s with
  | nil => cases hj
  | cons i js ih =>
      unfold addJobs
      rcases List.mem_cons.1 hj with rfl | hj
      · cases hins : s.queue.insert? j with
        | none =>
            refine addJobs_keeps fun hnone => ?_
            obtain ⟨u, hu⟩ := Table.insert?_isSome hnone
            rw [hins] at hu
            cases hu
        | some queue =>
            refine addJobs_keeps ?_
            simp only
            rw [Table.find?_insert? hins, if_pos rfl]
            simp
      · exact ih hj

theorem addJobs_job {m : Message} {jobs : List Job} (id : Text)
    (hjobs : ∀ j ∈ jobs, j ∈ jobsOf cfg.maxAttempts m) :
    JobMove cfg s id a (s.queue.find? id) ((addJobs s m.id jobs).queue.find? id) := by
  rcases addJobs_find? (s := s) id hjobs with hq | ⟨hnone, d, hd, hid, hq⟩
  · rw [hq]
    exact .same
  · rw [hq, hnone]
    exact .added m d hd hid

/-- What letting go does to the entry of a job id. -/
theorem letGo_job {r : ℕ} {run : Run} {i : Input} (id : Text) (hrun : s.runs r = some run)
    (h : letGo s r run = some s') :
    JobMove cfg s id (.run r i) (s.queue.find? id) (s'.queue.find? id) := by
  have hqueue := letGo_queue h
  by_cases hid : id = run.jobId
  · subst hid
    by_cases hown : s.queue.ownedBy run.jobId r = true
    · obtain ⟨j, hj, hlock⟩ := Queue.ownedBy_iff.1 hown
      have has : ∀ p, run.phase = p → Has s r run j p := fun p hp =>
        ⟨hrun, hp, (Table.find?_eq_some_iff.1 hj).2.symm, hlock⟩
      rw [hj]
      obtain ⟨hp, hq⟩ | ⟨hp, hq⟩ | ⟨ending, hne, hp, hq⟩ := hqueue
      · rw [hq, Queue.release, if_pos hown, Queue.find?_unlock, if_pos rfl, hj]
        exact .released r i run j (has _ hp)
      · rw [hq, Queue.complete, if_pos hown, Queue.find?_remove, if_pos rfl]
        exact .completed r i run j (has _ hp)
      · rw [hq, Queue.fail, if_pos hown]
        split_ifs with hex
        · rw [Queue.find?_remove, if_pos rfl]
          exact .exhausted r i run j ending hne (has _ hp) ((Queue.exhausts_iff hj).1 hex)
        · rw [Table.find?_modify_self, hj]
          exact .counted r i run j ending hne (has _ hp) (mt (Queue.exhausts_iff hj).2 hex)
    · obtain ⟨h₁, h₂, h₃⟩ := Queue.eq_of_not_owned hown
      have hq : s'.queue = s.queue := by
        obtain ⟨-, hq⟩ | ⟨-, hq⟩ | ⟨-, -, -, hq⟩ := hqueue
        · rw [hq, h₁]
        · rw [hq, h₂]
        · rw [hq, h₃]
      rw [hq]
      exact .same
  · obtain ⟨h₁, h₂, h₃⟩ := Queue.find?_of_ne (q := s.queue) (r := r) hid
    have hq : s'.queue.find? id = s.queue.find? id := by
      obtain ⟨-, hq⟩ | ⟨-, hq⟩ | ⟨-, -, -, hq⟩ := hqueue
      · rw [hq, h₁]
      · rw [hq, h₂]
      · rw [hq, h₃]
    rw [hq]
    exact .same

/-- **Every step moves the entry of a job id so.** -/
theorem step_job (h : step cfg s a = some s') (id : Text) :
    JobMove cfg s id a (s.queue.find? id) (s'.queue.find? id) := by
  cases stepped_of_step h with
  | clock | createEndpoint | updateEndpoint | setSubscriptions | publish | ping | redeliver | tickRead
  | tickMark | tickCrash | planned | threw | crashed => exact .same
  | tickAdd => exact addJobs_job id fun _ hj => hj
  | tickFail => exact addJobs_job id fun _ hj => mem_addedBeforeFailure hj
  | take w jobId j hj hlock =>
      simp only [Queue.find?_hand]
      split_ifs with hid
      · subst hid
        rw [hj]
        exact .handed w j hlock
      · exact .same
  | left r i run _ hrun hgo => exact letGo_job id hrun hgo
  | unlock jobId =>
      simp only [Queue.find?_unlock]
      split_ifs with hid
      · subst hid
        cases s.queue.find? id with
        | none => exact .same
        | some j => exact .unlocked j
      · exact .same
  | discard jobId =>
      simp only [Queue.find?_remove]
      split_ifs with hid
      · subst hid
        cases s.queue.find? id with
        | none => exact .same
        | some j => exact .discarded j
      · exact .same

/-! ## Who has a job -/

/-- The run that has the lock of a job was started for it, and is about its delivery. -/
structure Owned (s : State) : Prop where
  started : ∀ j ∈ s.queue, ∀ r, j.lock = some r → r < s.nextRun
  about : ∀ j ∈ s.queue, ∀ r run, j.lock = some r → s.runs r = some run →
    run.jobId = j.id ∧ run.deliveryId = j.deliveryId

theorem step_owned (h : Owned s) (hs : step cfg s a = some s') : Owned s' := by
  have key : ∀ j' ∈ s'.queue, ∀ r, j'.lock = some r → r < s'.nextRun ∧
      ∀ run', s'.runs r = some run' → run'.jobId = j'.id ∧ run'.deliveryId = j'.deliveryId := by
    intro j' hj' r hlock
    have hmove := step_job hs j'.id
    rw [Table.find?_of_mem hj'] at hmove
    generalize ho : s.queue.find? j'.id = o at hmove
    generalize hj'' : some j' = o' at hmove
    cases hmove with
    | same =>
        subst hj''
        have hj := (Table.find?_eq_some_iff.1 ho).1
        have hlt := h.started j' hj r hlock
        refine ⟨hlt.trans_le (step_nextRun hs), fun run' hrun' => ?_⟩
        rcases runs_cases hlt hs hrun' with hrun | ⟨i, run, next, -, hrun, hp, -, rfl⟩ |
          ⟨run, -, hrun, rfl, -⟩
        · exact h.about j' hj r run' hlock hrun
        · rw [hp.deliveryId_eq.1, hp.deliveryId_eq.2.1]
          exact h.about j' hj r run hlock hrun
        · exact h.about j' hj r run hlock hrun
    | handed w j hfree =>
        cases hj''
        cases hlock
        obtain ⟨j₁, hj₁, -, heq⟩ := take_eq_some hs
        refine ⟨by rw [heq]; exact Nat.lt_succ_self _, fun run' hrun' => ?_⟩
        -- the job found is the one handed out
        have hj : j₁ = j := Option.some.inj (hj₁.symm.trans ho)
        simp only [heq, Function.update_self, Option.some.injEq] at hrun'
        rw [← hrun', hj]
        exact ⟨rfl, rfl⟩
    | discarded => cases hj''
    | completed => cases hj''
    | exhausted => cases hj''
    | _ => cases hj''; cases hlock
  exact ⟨fun j hj r hlock => (key j hj r hlock).1,
    fun j hj r run hlock => (key j hj r hlock).2 run⟩

theorem owned_init : Owned init := ⟨fun _ h => (by cases h), fun _ h => (by cases h)⟩

theorem path_owned {P : State → Action → Prop} (h : Path (step cfg) P init s) : Owned s :=
  h.invariant (fun _ _ _ hI _ hs => step_owned hI hs) owned_init

end System
end HookRelay
