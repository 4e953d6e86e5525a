import HookRelay.Lib.Progress
import HookRelay.System.NeverStuck
import HookRelay.System.OutboxOrder

/-!
# How much work a delivery makes

The work there is about a delivery, as a number: what its attempts may still take, and for each of
its jobs what the run that has it has still to do, or a run that is to come.  Every step made for
the delivery lowers it; only setbacks raise it.

* `Phase.rank` — the steps that a run has still to make, with those of the run after it.
* `ownStep`, `setbacks` — the steps made for a delivery, and what throws it back.
* `work`, `step_work` — the potential, and what one step makes of it.
* `work_bounded` — so the steps made for a delivery are bounded by its setbacks.
-/

namespace HookRelay

open Lib

/-- How many steps an attempt is away from the end of its run, at most. -/
def Stage.rank : Stage → ℕ
  | .allow => 11
  | .send => 10
  | .sending => 9
  | .record _ => 8
  | .failure => 7
  | .endpointFailure _ => 6
  | .deliveryFailure => 5
  | .success => 5
  | .endpointSuccess => 4
  | .deliverySuccess => 3
  | .skipRecord => 6
  | .skipDelivery => 5

/-- How many steps a run is away from its end, at most; and 19 more when its job is going back. -/
def Phase.rank : Phase → ℕ
  | .tenant => 18
  | .acquire => 17
  | .find => 16
  | .lookup _ => 15
  | .load _ => 14
  | .store _ _ => 13
  | .claim _ _ => 12
  | .attempt _ _ _ stage => stage.rank
  | .returned .failed => 23
  | .retryRead => 22
  | .retryWrite _ => 21
  | .delay => 20
  | .finish .retrySignal => 20
  | .finish .threw => 20
  | .returned _ => 2
  | .finish .returned => 1

theorem rank_afterEndpoint (d : DeliveryRow) (e : EndpointConfig) :
    (afterEndpoint d e).rank ≤ 12 := by
  unfold afterEndpoint
  split_ifs <;> simp [Phase.rank]

/-- A step brings a run nearer to its end, unless the limiter sends it back, or its attempt has
failed and is not the last. -/
theorem Planned.rank_lt {cfg : WorkerConfig} {now : Micros} {db : Database}
    {cache : EndpointCache} {run : Run} {p : Phase} {next : Next}
    (h : Planned cfg now db cache run p next) :
    next.run.phase.rank < p.rank ∨ (p = .acquire ∧ next.run.phase.rank = 20) ∨
      ∃ x e c stage, p = .attempt x e c stage ∧ p.rank = 5 ∧ next.run.phase.rank = 23 ∧
        next.write = .settleFailure x.id (x.attemptCount + 1) false ∧
        ((x.attemptCount + 1 : ℕ) : ℤ) < cfg.maxAttempts := by
  cases h with
  | cached d entry _ => exact .inl ((rank_afterEndpoint d entry.value).trans_lt (by simp [Phase.rank]))
  | stored d e => exact .inl ((rank_afterEndpoint d e).trans_lt (by simp [Phase.rank]))
  | notAcquired => exact .inr (.inl ⟨rfl, rfl⟩)
  | attempt x e c stage _ ha =>
      have settled : (Phase.returned (failureResult (isDead cfg (x.attemptCount + 1)))).rank < 5 ∨
          (isDead cfg (x.attemptCount + 1) = false ∧
            (Phase.returned (failureResult (isDead cfg (x.attemptCount + 1)))).rank = 23 ∧
            ((x.attemptCount + 1 : ℕ) : ℤ) < cfg.maxAttempts) := by
        cases hdead : isDead cfg (x.attemptCount + 1) with
        | true => exact .inl (by simp [failureResult, Phase.rank])
        | false => exact .inr ⟨rfl, rfl, by simpa [isDead] using hdead⟩
      cases ha with
      | failed =>
          rcases settled with hlt | ⟨hdead, hrank, hlt⟩
          · exact .inl hlt
          · exact .inr (.inr ⟨x, e, c, _, rfl, rfl, hrank, by rw [← hdead]; rfl, hlt⟩)
      | failedOpen =>
          rcases settled with hlt | ⟨hdead, hrank, hlt⟩
          · exact .inl hlt
          · exact .inr (.inr ⟨x, e, c, _, rfl, rfl, hrank, by rw [← hdead]; rfl, hlt⟩)
      | _ => exact .inl (by simp [Run.goto, Run.writing, Phase.rank, Stage.rank])
  | ends res hres =>
      left
      cases res <;> simp [Run.goto, Phase.rank]
  | _ => exact .inl (by simp [Run.goto, Run.writing, Phase.rank, Stage.rank])

/-- A run that is not refused by the limiter is not sent back by it. -/
theorem plan_sentBack {cfg : WorkerConfig} {now : Micros} {db : Database} {cache : EndpointCache}
    {run : Run} {i : Input} {next : Next} (h : plan cfg now db cache run i = some next)
    (hp : run.phase = .acquire) : i = .answer false ∨ next.run.phase.rank = 16 := by
  cases i with
  | answer b =>
      cases b with
      | true =>
          simp only [plan, hp, Option.some.injEq] at h
          subst h
          exact .inr rfl
      | false => exact .inl rfl
  | _ => simp [plan, hp] at h

namespace System

variable {cfg : WorkerConfig} {s s' : State} {a : Action} {d ep : Uuid}

/-! ## Steps and setbacks -/

/-- The run is one of the delivery. -/
def isRunOf (s : State) (d : Uuid) (r : ℕ) : Bool := (s.runs r).any fun run => run.deliveryId = d

/-- A step that is made for the delivery: one of its runs makes a step, one of its jobs is taken
up, or the lock of one of them is released after its run has died. -/
def ownStep (d : Uuid) (s : State) : Action → Bool
  | .run r _ => isRunOf s d r
  | .take _ jobId => (s.queue.find? jobId).any fun j => j.deliveryId = d
  | .unlock jobId => (s.queue.find? jobId).any fun j =>
      j.deliveryId = d && j.lock.any fun r => (s.runs r).isNone
  | _ => false

/-- The limiter sends a run of the delivery back, or one of them throws or dies. -/
def thrownBack (d : Uuid) (s : State) : Action → Bool
  | .run r (.answer false) => (s.runs r).any fun run => run.deliveryId = d &&
      match run.phase with
      | .acquire => true
      | _ => false
  | .throw r => isRunOf s d r
  | .crash r => isRunOf s d r
  | _ => false

/-- How many jobs of the delivery the queue has taken so far. -/
def jobsTaken (d : Uuid) (s : State) : ℕ := s.accepted.countP fun x => x.deliveryId = d

/-- What throws the delivery back in a step; a new job of it counts as a setback, too. -/
def setbacks (cfg : WorkerConfig) (d : Uuid) (s : State) (a : Action) : ℕ :=
  (thrownBack d s a).toNat +
    ((step cfg s a).elim 0 fun t => jobsTaken d t - jobsTaken d s)

/-! ## The work there is -/

/-- The work about one job: the run that has it has to come to its end, or another one has to take
it up. -/
def jobWork (runs : ℕ → Option Run) (d : Uuid) (j : Job) : ℕ :=
  if j.deliveryId = d then
    match j.lock with
    | none => 19
    | some r => (runs r).elim 20 fun run => run.phase.rank
  else 0

/-- The work there is about a delivery. -/
def work (cfg : WorkerConfig) (d : Uuid) (s : State) : ℕ :=
  19 * (cfg.maxAttempts - s.db.attemptCount d).toNat + s.queue.total (jobWork s.runs d)

theorem jobWork_of_ne {runs : ℕ → Option Run} {j : Job} (h : j.deliveryId ≠ d) :
    jobWork runs d j = 0 := if_neg h

theorem jobWork_free {runs : ℕ → Option Run} {j : Job} (hd : j.deliveryId = d)
    (hlock : j.lock = none) : jobWork runs d j = 19 := by
  simp [jobWork, hd, hlock]

theorem jobWork_locked {runs : ℕ → Option Run} {j : Job} {r : ℕ} (hd : j.deliveryId = d)
    (hlock : j.lock = some r) :
    jobWork runs d j = (runs r).elim 20 fun run => run.phase.rank := by
  simp [jobWork, hd, hlock]

/-- What a run does is no matter for the job of another one. -/
theorem jobWork_update {runs : ℕ → Option Run} {j : Job} {r : ℕ} (new : Option Run)
    (h : j.deliveryId = d → j.lock ≠ some r) :
    jobWork (Function.update runs r new) d j = jobWork runs d j := by
  unfold jobWork
  split_ifs with hd
  · cases hlock : j.lock with
    | none => rfl
    | some k =>
        have hne : k ≠ r := by
          rintro rfl
          exact h hd hlock
        simp only [Function.update_of_ne hne]
  · rfl

/-- The jobs of the delivery that a run of another one has. -/
theorem total_of_other {r : ℕ} {run : Run} (howned : Owned s) (hrun : s.runs r = some run)
    (hd : run.deliveryId ≠ d) (new : Option Run) :
    s.queue.total (jobWork (Function.update s.runs r new) d) = s.queue.total (jobWork s.runs d) :=
  Table.total_congr fun j hj => jobWork_update new fun hjd hlock =>
    hd ((howned.about j hj r run hlock hrun).2.trans hjd)

/-- The job of a run of the delivery. -/
theorem Held.job {r : ℕ} {run : Run} (h : Held s d) (howned : Owned s) (hrun : s.runs r = some run)
    (hd : run.deliveryId = d) : ∃ j, s.queue.find? run.jobId = some j ∧ j.lock = some r ∧
      j.deliveryId = d := by
  obtain ⟨j, hj, hlock⟩ := h r run hrun hd
  exact ⟨j, hj, hlock,
    ((howned.about j (Table.find?_eq_some_iff.1 hj).1 r run hlock hrun).2.symm).trans hd⟩

/-- What a run of the delivery does changes the work about its job. -/
theorem total_of_own {r : ℕ} {run : Run} (h : Held s d) (howned : Owned s)
    (hrun : s.runs r = some run) (hd : run.deliveryId = d) (new : Option Run) :
    s.queue.total (jobWork (Function.update s.runs r new) d) + run.phase.rank =
      s.queue.total (jobWork s.runs d) + new.elim 20 fun run => run.phase.rank := by
  obtain ⟨j, hj, hlock, hjd⟩ := h.job howned hrun hd
  have hchange := Table.total_change (jobWork (Function.update s.runs r new) d)
    (jobWork s.runs d) hj fun x hx hid => jobWork_update new fun _ hlock' =>
      hid ((howned.about x hx r run hlock' hrun).1.symm)
  rw [jobWork_locked hjd hlock, jobWork_locked hjd hlock, hrun, Function.update_self] at hchange
  exact hchange

/-- The jobs of other deliveries are no work. -/
theorem total_let_other (q : Queue) (runs : ℕ → Option Run) (id : Text) (r : ℕ)
    (h : ∀ j, q.find? id = some j → j.lock = some r → j.deliveryId ≠ d) :
    (q.release id r).total (jobWork runs d) = q.total (jobWork runs d) ∧
    (q.complete id r).total (jobWork runs d) = q.total (jobWork runs d) ∧
    (q.fail id r).total (jobWork runs d) = q.total (jobWork runs d) := by
  by_cases hown : q.ownedBy id r = true
  · obtain ⟨j, hj, hlock⟩ := Queue.ownedBy_iff.1 hown
    have hd := h j hj hlock
    -- the job is the only one with its id
    have only : ∀ x ∈ q, x.id = id → x = j := fun x hx hid =>
      Table.eq_of_key hx (Table.find?_eq_some_iff.1 hj).1
        (hid.trans (Table.find?_eq_some_iff.1 hj).2.symm)
    have removed : (q.remove id).total (jobWork runs d) = q.total (jobWork runs d) :=
      Table.total_delete_same fun x hx hid => by rw [only x hx hid, jobWork_of_ne hd]
    refine ⟨?_, ?_, ?_⟩
    · rw [Queue.release, if_pos hown]
      refine Table.total_modify_same fun x hx hid => ?_
      rw [only x hx hid, jobWork_of_ne hd, jobWork_of_ne (j := j.locked none) hd]
    · rw [Queue.complete, if_pos hown, removed]
    · rw [Queue.fail, if_pos hown]
      split_ifs
      · exact removed
      · refine Table.total_modify_same fun x hx hid => ?_
        rw [only x hx hid, jobWork_of_ne hd, jobWork_of_ne (j := j.counted) hd]
  · obtain ⟨h₁, h₂, h₃⟩ := Queue.eq_of_not_owned hown
    rw [h₁, h₂, h₃]
    exact ⟨rfl, rfl, rfl⟩

/-- A run that lets go of its job has made its last step, and leaves the work of another run
if its job goes back. -/
theorem letGo_total {r : ℕ} {run : Run} (h : Held s d) (howned : Owned s)
    (hrun : s.runs r = some run) (hd : run.deliveryId = d) (hgo : letGo s r run = some s') :
    s'.queue.total (jobWork s'.runs d) + 1 ≤ s.queue.total (jobWork s.runs d) := by
  obtain ⟨j, hj, hlock, hjd⟩ := h.job howned hrun hd
  have hown : s.queue.ownedBy run.jobId r = true := Queue.ownedBy_iff.2 ⟨j, hj, hlock⟩
  have hgone := total_of_own h howned hrun hd none
  have hruns : s'.runs = Function.update s.runs r none := by
    obtain ⟨-, queue, rfl⟩ := letGo_eq_some hgo
    rfl
  rw [hruns]
  have hj20 : jobWork (Function.update s.runs r none) d j = 20 := by
    rw [jobWork_locked hjd hlock, Function.update_self]
    rfl
  have removed := Table.total_delete hj (jobWork (Function.update s.runs r none) d)
  have back : ∀ f : Job → Job, ∀ hf, (f j).deliveryId = d → (f j).lock = none →
      (s.queue.modify run.jobId f hf).total (jobWork (Function.update s.runs r none) d) + 20 =
        s.queue.total (jobWork (Function.update s.runs r none) d) + 19 := by
    intro f hf hfd hfree
    have := Table.total_modify f hf hj (jobWork (Function.update s.runs r none) d)
    rwa [hj20, jobWork_free hfd hfree] at this
  rw [hj20] at removed
  simp only [Option.elim_none] at hgone
  obtain ⟨hp, hq⟩ | ⟨hp, hq⟩ | ⟨ending, hne, hp, hq⟩ := letGo_queue hgo
  · rw [hq, Queue.release, if_pos hown]
    have := back (Job.locked none) (Job.locked_id _) hjd rfl
    rw [hp, Phase.rank] at hgone
    show (s.queue.modify run.jobId (Job.locked none) (Job.locked_id _)).total _ + 1 ≤ _
    omega
  · rw [hq, Queue.complete, if_pos hown]
    rw [hp, Phase.rank] at hgone
    show (s.queue.deleteMany fun x => x.id = run.jobId).total _ + 1 ≤ _
    omega
  · have hrank : run.phase.rank = 20 := by
      rw [hp]
      cases ending with
      | returned => exact absurd rfl hne
      | retrySignal => rfl
      | threw => rfl
    rw [hq, Queue.fail, if_pos hown]
    split_ifs
    · show (s.queue.deleteMany fun x => x.id = run.jobId).total _ + 1 ≤ _
      omega
    · have := back Job.counted Job.counted_id hjd rfl
      omega

/-- Each job of the delivery that a relay adds is work for a run. -/
theorem addJobs_total (outboxId : ℕ) (jobs : List Job) (s : State)
    (hfree : ∀ j ∈ jobs, j.lock = none) :
    (addJobs s outboxId jobs).queue.total (jobWork s.runs d) + 19 * jobsTaken d s =
      s.queue.total (jobWork s.runs d) + 19 * jobsTaken d (addJobs s outboxId jobs) := by
  induction jobs generalizing s with
  | nil => rfl
  | cons j js ih =>
      have hjs := fun i hi => hfree i (List.mem_cons_of_mem _ hi)
      unfold addJobs
      cases hins : s.queue.insert? j with
      | none => exact ih s hjs
      | some queue =>
          have hrest := ih { s with
            queue := queue
            accepted := s.accepted ++ [⟨outboxId, j.id, j.deliveryId, j.tenantId⟩] } hjs
          have hinsert := Table.total_insert? hins (jobWork s.runs d)
          have hcount : 19 * jobsTaken d { s with
              queue := queue
              accepted := s.accepted ++ [⟨outboxId, j.id, j.deliveryId, j.tenantId⟩] } =
              19 * jobsTaken d s + jobWork s.runs d j := by
            by_cases hd : j.deliveryId = d
            · simp [jobsTaken, List.countP_append, hd,
                jobWork_free hd (hfree j List.mem_cons_self), Nat.mul_add]
            · simp [jobsTaken, List.countP_append, hd, jobWork_of_ne hd]
          simp only at hrest ⊢
          omega

/-! ## The step lemma -/

theorem setbacks_eq (hs : step cfg s a = some s') :
    setbacks cfg d s a = (thrownBack d s a).toNat + (jobsTaken d s' - jobsTaken d s) := by
  simp [setbacks, hs]

theorem isRunOf_iff {r : ℕ} {run : Run} (hrun : s.runs r = some run) :
    isRunOf s d r = true ↔ run.deliveryId = d := by
  simp [isRunOf, hrun]

/-- A step of a run. -/
theorem run_work {r : ℕ} {i : Input} (hwf : Wf s) (hinv : Claims.Inv (counter s d))
    (howned : Owned s) (hheld : Held s d) (hs : step cfg s (.run r i) = some s') :
    work cfg d s' + (isRunOf s d r).toNat ≤ work cfg d s + 21 * setbacks cfg d s (.run r i) := by
  have hcount := (step_monotone hwf hinv hs).1
  obtain ⟨run, hrun, hgo | ⟨next, hplan, rfl⟩⟩ := run_planned hs
  · -- the run lets go of its job
    have hdb : s'.db = s.db := by
      obtain ⟨-, queue, rfl⟩ := letGo_eq_some hgo
      rfl
    unfold work
    rw [hdb]
    by_cases hd : run.deliveryId = d
    · have := letGo_total hheld howned hrun hd hgo
      rw [(isRunOf_iff hrun).2 hd, Bool.toNat_true]
      omega
    · have hruns : s'.runs = Function.update s.runs r none := by
        obtain ⟨-, queue, rfl⟩ := letGo_eq_some hgo
        rfl
      have hother := total_of_other howned hrun hd none
      obtain ⟨hrelease, hcomplete, hfail⟩ := total_let_other (d := d) s.queue
        (Function.update s.runs r none) run.jobId r fun j hj hlock hjd =>
          hd ((howned.about j (Table.find?_eq_some_iff.1 hj).1 r run hlock hrun).2.trans hjd)
      have hqueue : s'.queue.total (jobWork s'.runs d) = s.queue.total (jobWork s.runs d) := by
        rw [hruns, ← hother]
        obtain ⟨-, hq⟩ | ⟨-, hq⟩ | ⟨-, -, -, hq⟩ := letGo_queue hgo
        · rw [hq, hrelease]
        · rw [hq, hcomplete]
        · rw [hq, hfail]
      rw [hqueue, Bool.eq_false_iff.2 (mt (isRunOf_iff hrun).1 hd), Bool.toNat_false]
      omega
  · have hplanned := plan_cases hplan
    have hruns : (applyNext s r run next).runs = Function.update s.runs r (some next.run) := rfl
    have hqueue : (applyNext s r run next).queue = s.queue := rfl
    unfold work
    rw [hruns, hqueue]
    by_cases hd : run.deliveryId = d
    · have hown := total_of_own hheld howned hrun hd (some next.run)
      rw [(isRunOf_iff hrun).2 hd, Bool.toNat_true]
      simp only [Option.elim_some] at hown
      rcases hplanned.rank_lt with hlt | ⟨hp, hrank⟩ | ⟨x, e, c, stage, hp, h5, h23, hw, hlast⟩
      · omega
      · -- the limiter has sent the run back
        rcases plan_sentBack hplan hp with rfl | h16
        · have hset : setbacks cfg d s (.run r (.answer false)) ≥ 1 := by
            rw [setbacks_eq hs]
            have : thrownBack d s (.run r (.answer false)) = true := by
              simp [thrownBack, hrun, hd, hp]
            rw [this, Bool.toNat_true]
            omega
          rw [hp, hrank, Phase.rank] at hown
          omega
        · omega
      · -- the attempt has failed, and there is one less to come
        subst hd
        have hnew : (applyNext s r run next).db.attemptCount run.deliveryId = x.attemptCount + 1 := by
          show (next.write.exec s.now s.db).attemptCount run.deliveryId = _
          rw [hw]
          exact attemptCount_settleFailure hwf hinv hrun hp false
        have hold : s.db.attemptCount run.deliveryId = x.attemptCount := by
          have hholds : (counter s run.deliveryId).phase r = .holding x.attemptCount := by
            simp only [counter, hrun]
            rw [stance_of_eq rfl, hp]
            rfl
          exact (hinv.holding r _ hholds).1.symm
        rw [hnew, hold]
        omega
    · rw [total_of_other howned hrun hd, Bool.eq_false_iff.2 (mt (isRunOf_iff hrun).1 hd),
        Bool.toNat_false]
      omega

/-- A relay adds jobs. -/
theorem added_work (d : Uuid) (s : State) (outboxId : ℕ) (jobs : List Job)
    (hfree : ∀ j ∈ jobs, j.lock = none) :
    (addJobs s outboxId jobs).queue.total (jobWork (addJobs s outboxId jobs).runs d) ≤
      s.queue.total (jobWork s.runs d) +
        19 * (jobsTaken d (addJobs s outboxId jobs) - jobsTaken d s) := by
  obtain ⟨new, hacc, -⟩ := addJobs_accepted outboxId jobs s
  have hle : jobsTaken d s ≤ jobsTaken d (addJobs s outboxId jobs) := by
    unfold jobsTaken
    rw [hacc, List.countP_append]
    exact Nat.le_add_right _ _
  have hruns : (addJobs s outboxId jobs).runs = s.runs := by
    obtain ⟨queue, accepted, hadd⟩ := addJobs_frame outboxId jobs s
    rw [hadd]
  have := addJobs_total (d := d) outboxId jobs s hfree
  rw [hruns]
  omega

/-- A worker takes a job up. -/
theorem taken_work {jobId : Text} {j : Job} (run : Run) (howned : Owned s)
    (hj : s.queue.find? jobId = some j) (hlock : j.lock = none) (hrun : run.phase = .tenant) :
    (s.queue.hand jobId s.nextRun).total (jobWork (Function.update s.runs s.nextRun (some run)) d) +
      (decide (j.deliveryId = d)).toNat ≤ s.queue.total (jobWork s.runs d) := by
  have hsame : s.queue.total (jobWork (Function.update s.runs s.nextRun (some run)) d) =
      s.queue.total (jobWork s.runs d) :=
    -- no job in the queue has the lock of the new run
    Table.total_congr fun x hx => jobWork_update (some run) fun _ hlock' =>
      absurd (howned.started x hx _ hlock') (lt_irrefl _)
  by_cases hd : j.deliveryId = d
  · have := Table.total_modify (Job.locked (some s.nextRun)) (Job.locked_id _) hj
      (jobWork (Function.update s.runs s.nextRun (some run)) d)
    rw [jobWork_free hd hlock, jobWork_locked (j := j.locked (some s.nextRun)) hd rfl,
      Function.update_self, Option.elim_some, hrun, Phase.rank] at this
    rw [decide_eq_true hd, Bool.toNat_true, Queue.hand]
    omega
  · rw [decide_eq_false hd, Bool.toNat_false, Queue.hand, Table.total_modify_same]
    · exact hsame.le
    · intro x hx hid
      have hxj : x = j := Table.eq_of_key hx (Table.find?_eq_some_iff.1 hj).1
        (hid.trans (Table.find?_eq_some_iff.1 hj).2.symm)
      rw [hxj, jobWork_of_ne hd, jobWork_of_ne (j := j.locked (some s.nextRun)) hd]

/-- A run throws or dies. -/
theorem cut_work {r : ℕ} {run : Run} (new : Option Run) (howned : Owned s) (hheld : Held s d)
    (hrun : s.runs r = some run) (hnew : (new.elim 20 fun run => run.phase.rank) = 20) :
    s.queue.total (jobWork (Function.update s.runs r new) d) ≤
      s.queue.total (jobWork s.runs d) + 20 * (isRunOf s d r).toNat := by
  by_cases hd : run.deliveryId = d
  · have := total_of_own hheld howned hrun hd new
    rw [(isRunOf_iff hrun).2 hd, Bool.toNat_true]
    omega
  · rw [total_of_other howned hrun hd]
    exact Nat.le_add_right _ _

/-- The lock of a job is released, though not under a run that goes on. -/
theorem unlocked_work {jobId : Text} (hq : Orderly d s (.unlock jobId)) :
    (s.queue.unlock jobId).total (jobWork s.runs d) + (ownStep d s (.unlock jobId)).toNat ≤
      s.queue.total (jobWork s.runs d) := by
  cases hj : s.queue.find? jobId with
  | none =>
      rw [ownStep, hj, Option.any_none, Bool.toNat_false, Queue.unlock, Table.total_modify_same]
      · exact le_refl _
      · exact fun x hx hid => absurd hid (Table.find?_eq_none_iff.1 hj x hx)
  | some j =>
      have hmodify := Table.total_modify (Job.locked none) (Job.locked_id _) hj (jobWork s.runs d)
      rw [ownStep, hj, Option.any_some, Queue.unlock]
      by_cases hd : j.deliveryId = d
      · rw [jobWork_free (j := j.locked none) hd rfl] at hmodify
        cases hlock : j.lock with
        | none =>
            rw [jobWork_free hd hlock] at hmodify
            simp only [Option.any_none, Bool.and_false, Bool.toNat_false]
            omega
        | some r =>
            rw [jobWork_locked hd hlock, hq.locks jobId j r rfl hj hd hlock] at hmodify
            have := Bool.toNat_le (decide (j.deliveryId = d) &&
              (some r).any fun r => (s.runs r).isNone)
            simp only [Option.elim_none] at hmodify
            omega
      · rw [jobWork_of_ne hd, jobWork_of_ne (j := j.locked none) hd] at hmodify
        rw [decide_eq_false hd, Bool.false_and, Bool.toNat_false]
        omega

/-- **The step lemma.**  A step that is made for the delivery lowers the work there is about it, and
only a setback raises it. -/
theorem step_work (hwf : Wf s) (hinv : Claims.Inv (counter s d)) (howned : Owned s)
    (hheld : Held s d) (hq : Orderly d s a) (hs : step cfg s a = some s') :
    work cfg d s' + (ownStep d s a).toNat ≤ work cfg d s + 21 * setbacks cfg d s a := by
  have hcount := (step_monotone hwf hinv hs).1
  -- the attempts still to come do not get more, so it is a matter of the jobs
  have jobs : s'.queue.total (jobWork s'.runs d) + (ownStep d s a).toNat ≤
      s.queue.total (jobWork s.runs d) + 21 * setbacks cfg d s a →
      work cfg d s' + (ownStep d s a).toNat ≤ work cfg d s + 21 * setbacks cfg d s a := by
    intro h
    unfold work
    omega
  have free : ∀ {m : Message} {js : List Job}, (∀ j ∈ js, j ∈ jobsOf cfg.maxAttempts m) →
      ∀ j ∈ js, j.lock = none := by
    intro m js hjs j hj
    obtain ⟨_, -, rfl⟩ := mem_jobsOf.1 (hjs j hj)
    rfl
  have hset := setbacks_eq (d := d) hs
  cases stepped_of_step hs with
  | clock | createEndpoint | updateEndpoint | setSubscriptions | publish | ping | redeliver | tickRead
  | tickMark | tickCrash => exact jobs (Nat.le_add_right _ _)
  | tickAdd k m ms published hk =>
      refine jobs ?_
      have := added_work d s m.id (jobsOf cfg.maxAttempts m) (free fun _ => id)
      simp only [hset, ownStep, thrownBack, Bool.toNat_false, jobsTaken] at this ⊢
      omega
  | tickFail k mask m ms published hk =>
      refine jobs ?_
      have := added_work d s m.id (addedBeforeFailure mask (jobsOf cfg.maxAttempts m))
        (free fun _ => mem_addedBeforeFailure)
      simp only [hset, ownStep, thrownBack, Bool.toNat_false, jobsTaken] at this ⊢
      omega
  | planned => exact run_work hwf hinv howned hheld hs
  | left => exact run_work hwf hinv howned hheld hs
  | take w jobId j hj hlock =>
      refine jobs ?_
      have := taken_work (d := d) ⟨jobId, j.deliveryId, j.tenantId, w, false, none, .tenant⟩
        howned hj hlock rfl
      simp only [ownStep, hj, Option.any_some]
      omega
  | threw r run hrun hp =>
      refine jobs ?_
      have := cut_work (some { run with phase := .finish .threw }) howned hheld hrun rfl
      simp only [hset, ownStep, thrownBack, Bool.toNat_false, setRun]
      omega
  | crashed r run hrun =>
      refine jobs ?_
      have := cut_work none howned hheld hrun rfl
      simp only [hset, ownStep, thrownBack, Bool.toNat_false, setRun]
      omega
  | unlock jobId => exact jobs ((unlocked_work hq).trans (Nat.le_add_right _ _))
  | discard jobId =>
      refine jobs ?_
      have hsame : (s.queue.remove jobId).total (jobWork s.runs d) =
          s.queue.total (jobWork s.runs d) := by
        refine Table.total_delete_same fun x hx hid => jobWork_of_ne ?_
        exact hq.jobs jobId x rfl (Table.find?_eq_some_iff.2 ⟨hx, hid⟩)
      simp only [ownStep, Bool.toNat_false]
      omega

theorem path_held (h : Path (step cfg) (Orderly d) init s) : Held s d :=
  h.invariant_along (I := fun t => Held t d) (J := fun t => Wf t ∧ Owned t)
    (fun _ ht => ⟨path_wf ht, path_owned ht⟩)
    (fun _ _ _ hJ hI hq hs => step_held hJ.1 hJ.2 hI hq hs) fun _ _ h => (by cases h)

/-- **The work for a delivery is bounded.**  In every run of the system in which the queue gives
up no job of the delivery and takes none away from a run that goes on, the number of steps made for
it is at most 19 for each attempt it may have and 21 for each setback. -/
theorem work_bounded (cfg : WorkerConfig) (d : Uuid) (n k : ℕ) (s : State)
    (h : Counted (step cfg) (Orderly d) (fun s a => (ownStep d s a).toNat) (setbacks cfg d) init n k
      s) : n ≤ 19 * cfg.maxAttempts.toNat + 21 * k := by
  have hbound := h.bounded (work cfg d) 21
    (J := fun t => Wf t ∧ Claims.Inv (counter t d) ∧ Owned t ∧ Held t d)
    (fun t ht => ⟨path_wf ht, path_inv ht d, path_owned ht, path_held ht⟩)
    (fun t a u hJ hq hs => step_work hJ.1 hJ.2.1 hJ.2.2.1 hJ.2.2.2 hq hs)
  have hinit : work cfg d init = 19 * cfg.maxAttempts.toNat := by
    simp [work, Table.total, init, Database.attemptCount, Database.empty]
  omega

/-- After a run that died before its claim, and another one whose attempt failed. -/
theorem work_bounded_after_crash : ∃ s, Counted (step Sample.cfg) (Orderly Sample.delivery)
    (fun s a => (ownStep Sample.delivery s a).toNat) (setbacks Sample.cfg Sample.delivery) init 22 2
      s ∧ 22 ≤ 19 * Sample.cfg.maxAttempts.toNat + 21 * 2 := by
  obtain ⟨s, h, -⟩ := Counted.exists_of_runCounted (step Sample.cfg) (P := Orderly Sample.delivery)
    (p := Sample.steady) (fun s a => (ownStep Sample.delivery s a).toNat)
    (setbacks Sample.cfg Sample.delivery) (fun s a h =>
      (show Steady Sample.cfg _ _ s a from Sample.steady_spec h).orderly) init
    Sample.diedEarly 22 2 (fun _ => true) (by decide +kernel)
  exact ⟨s, h, work_bounded Sample.cfg Sample.delivery 22 2 s h⟩

end System
end HookRelay
