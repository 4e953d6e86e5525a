import HookRelay.System.Work
import HookRelay.System.History

/-!
# Every delivery is finished in the end

While nothing happens that a delivery may get lost by, it always has a row that waits or a job, and
as long as it has a job a step can be made for it.  Such steps use up the work there is about it, so
if they are made, and its setbacks come to an end, it is finished.

* `step_possible` — as long as the delivery has a job, a step can be made for it.
* `not_unqueued` — after the last setback no row of it waits for a relay.
* `eventually_finished` — from some moment on the delivery is `SUCCEEDED` or `DEAD`.
-/

namespace HookRelay

open Lib

namespace System

variable {cfg : WorkerConfig} {s s' : State} {a : Action} {d ep : Uuid}

/-- The log of the jobs that the queue has taken only grows. -/
theorem step_accepted (hs : step cfg s a = some s') : ∃ new, s'.accepted = s.accepted ++ new := by
  cases step_flow hs with
  | aside _ _ _ _ hacc _ => exact ⟨[], by rw [hacc, List.append_nil]⟩
  | reserved _ _ _ _ _ _ _ _ _ _ _ hacc _ => exact ⟨[], by rw [hacc, List.append_nil]⟩
  | reopened _ _ _ _ _ _ hacc _ => exact ⟨[], by rw [hacc, List.append_nil]⟩
  | read k n _ heq => exact ⟨[], by rw [heq, List.append_nil]⟩
  | added k m ms published jobs rest _ _ _ heq =>
      obtain ⟨new, hacc, -⟩ := addJobs_accepted m.id jobs s
      exact ⟨new, by rw [heq]; exact hacc⟩
  | marked k published _ heq => exact ⟨[], by rw [heq, List.append_nil]⟩
  | died k heq => exact ⟨[], by rw [heq, List.append_nil]⟩

/-! ## A step is possible -/

/-- A run that has not come to its last step has a next one. -/
theorem plan_possible (cfg : WorkerConfig) (now : Micros) (db : Database) (cache : EndpointCache)
    (run : Run) (h : run.phase ≠ .delay) (h' : run.phase.isFinish = false) :
    ∃ i next, plan cfg now db cache run i = some next := by
  cases hp : run.phase with
  | tenant =>
      refine ⟨.none, ?_⟩
      simp only [plan, hp]
      split
      · exact ⟨_, rfl⟩
      · split <;> exact ⟨_, rfl⟩
  | acquire => exact ⟨.answer true, _, by simp only [plan, hp]; rfl⟩
  | delay => exact absurd hp h
  | find =>
      refine ⟨.none, ?_⟩
      simp only [plan, hp]
      split
      · exact ⟨_, rfl⟩
      · split_ifs <;> exact ⟨_, rfl⟩
  | lookup d =>
      refine ⟨.none, ?_⟩
      simp only [plan, hp]
      split
      · split_ifs <;> exact ⟨_, rfl⟩
      · exact ⟨_, rfl⟩
  | load d =>
      refine ⟨.none, ?_⟩
      simp only [plan, hp]
      split <;> exact ⟨_, rfl⟩
  | store d e => exact ⟨.none, _, by simp only [plan, hp]; rfl⟩
  | claim d e =>
      refine ⟨.digest [], ?_⟩
      simp only [plan, hp]
      split_ifs <;> exact ⟨_, rfl⟩
  | attempt d e claimed stage =>
      simp only [plan, hp]
      cases stage with
      | allow => exact ⟨.answer true, _, rfl⟩
      | sending => exact ⟨.response (.ok ⟨200, []⟩) 0, _, rfl⟩
      | failure => exact ⟨.answer false, _, rfl⟩
      | record o => cases o <;> exact ⟨.none, _, rfl⟩
      | _ => exact ⟨.none, _, rfl⟩
  | returned res =>
      refine ⟨.none, ?_⟩
      simp only [plan, hp]
      split_ifs <;> exact ⟨_, rfl⟩
  | retryRead => exact ⟨.none, _, by simp only [plan, hp]; rfl⟩
  | retryWrite n => exact ⟨.delay 0, _, by simp only [plan, hp]; rfl⟩
  | finish ending =>
      rw [hp] at h'
      cases h'

/-- A run that is there can make a step. -/
theorem run_possible (cfg : WorkerConfig) {r : ℕ} {run : Run} (hrun : s.runs r = some run) :
    ∃ i t, step cfg s (.run r i) = some t := by
  simp only [step, stepRun, hrun]
  cases hgo : letGo s r run with
  | some t => exact ⟨.none, t, rfl⟩
  | none =>
      obtain ⟨i, next, hnext⟩ := plan_possible cfg s.now s.db (s.cache run.worker) run
        (fun hp => by simp [letGo, hp] at hgo)
        (by
          cases hp : run.phase with
          | finish ending => cases ending <;> simp [letGo, hp] at hgo
          | _ => rfl)
      exact ⟨i, applyNext s r run next, by simp only [hnext, Option.map_some]⟩

/-- As long as the delivery has a job, a step can be made for it. -/
theorem step_possible (cfg : WorkerConfig) (howned : Owned s) {j : Job} (hj : j ∈ s.queue)
    (hd : j.deliveryId = d)
    (hactive : ∀ e, s.db.endpoints.find? ep = some e → e.status = .active) :
    Forever.Enabled (step cfg) (Steady cfg d ep) (ownStep d) s := by
  have hfind := Table.find?_of_mem hj
  cases hlock : j.lock with
  | none =>
      refine ⟨.take 0 j.id, _, ⟨id, fun _ => trivial, fun _ _ h => (by cases h),
        fun _ _ _ h => (by cases h), hactive⟩, ?_, by simp only [step, hfind, hlock, if_true]; rfl⟩
      simp [ownStep, hfind, hd]
  | some r =>
      cases hrun : s.runs r with
      | none =>
          refine ⟨.unlock j.id, _, ⟨id, fun _ => trivial, fun _ _ h => (by cases h), ?_, hactive⟩,
            ?_, rfl⟩
          · intro id x r' h hx _ hr'
            cases h
            rw [hfind, Option.some.injEq] at hx
            rw [← hx, hlock, Option.some.injEq] at hr'
            rw [← hr', hrun]
          · simp [ownStep, hfind, hd, hlock, hrun]
      | some run =>
          obtain ⟨i, t, ht⟩ := run_possible cfg hrun
          refine ⟨.run r i, t, ⟨id, fun _ => trivial, fun _ _ h => (by cases h),
            fun _ _ _ h => (by cases h), hactive⟩, ?_, ht⟩
          rw [ownStep, isRunOf_iff hrun, (howned.about j hj r run hlock hrun).2, hd]

/-! ## The delivery is finished -/

/-- A row of the delivery waits on, as long as the queue takes no job of the delivery. -/
theorem step_waits {row : OutboxRow} (hlinked : s.db.Linked) (htracked : Tracked s')
    (hrow : row ∈ s.db.outbox.rows) (hd : d ∈ s.db.targets row)
    (hnew : ∀ x ∈ s.accepted, x.jobId ≠ rowJob row d) (hs : step cfg s a = some s')
    (hset : setbacks cfg d s a = 0) : ∃ row' ∈ s'.db.outbox.rows, row'.id = row.id ∧
      d ∈ s'.db.targets row' ∧ ∀ x ∈ s'.accepted, x.jobId ≠ rowJob row' d := by
  have hext := (step_flow hs).extends
  obtain ⟨row', hrow', hid, he, hdel⟩ := hext.outbox row hrow
  refine ⟨row', hrow', hid, mem_targets_extends hlinked hext hrow hid he hdel hd, ?_⟩
  have hjob : rowJob row' d = rowJob row d := by rw [rowJob, rowJob, hdel, hid]
  intro x hx hxid
  obtain ⟨m, -, -, -, hxjob, -⟩ := htracked.madeFor x hx
  have hxd : x.deliveryId = d := (deliveryJobId_inj (hxjob.symm.trans hxid)).1
  obtain ⟨new, hacc⟩ := step_accepted hs
  rw [hacc, List.mem_append] at hx
  rcases hx with hx | hx
  · exact hnew x hx (hxid.trans hjob)
  · -- the queue would have taken a job of the delivery
    rw [setbacks_eq hs, jobsTaken, jobsTaken, hacc, List.countP_append] at hset
    have : 0 < new.countP fun x => x.deliveryId = d :=
      List.countP_pos_iff.2 ⟨x, hx, by simpa using hxd⟩
    omega

/-- The delivery is `SUCCEEDED` or `DEAD`. -/
def Finished (s : State) (d : Uuid) : Prop :=
  ∃ row, s.db.deliveries.find? d = some row ∧ row.status.isDone = true

/-- The relays leave no row of the delivery `PENDING` for ever. -/
def RelaysKeepUp {P : State → Action → Prop} (ρ : Forever (step cfg) P init) (d : Uuid) : Prop :=
  ∀ n, ∀ row ∈ (ρ.state n).db.outbox.rows, row.status = .pending →
    d ∈ (ρ.state n).db.targets row → ∃ m, n ≤ m ∧ ∃ row' ∈ (ρ.state m).db.outbox.rows,
      row'.id = row.id ∧ row'.status = .published

section Run

variable {ρ : Forever (step cfg) (Steady cfg d ep) init} {m : ℕ}

/-- After the last setback no row of the delivery waits. -/
theorem not_unqueued (hrelays : RelaysKeepUp ρ d)
    (hcalm : ∀ n, m ≤ n → setbacks cfg d (ρ.state n) (ρ.action n) = 0) {n : ℕ} (hn : m ≤ n) :
    ¬ Unqueued (ρ.state n) d := by
  rintro ⟨row, hrow, hd, hnew⟩
  have htracked := fun k => path_tracked (ρ.path k)
  have waits : ∀ k, n ≤ k → ∃ row' ∈ (ρ.state k).db.outbox.rows, row'.id = row.id ∧
      d ∈ (ρ.state k).db.targets row' ∧ ∀ x ∈ (ρ.state k).accepted, x.jobId ≠ rowJob row' d := by
    intro k hk
    induction k, hk using Nat.le_induction with
    | base => exact ⟨row, hrow, rfl, hd, hnew⟩
    | succ k hk ih =>
        obtain ⟨row', hrow', hid, hd', hnew'⟩ := ih
        obtain ⟨row'', hrow'', hid', hrest⟩ := step_waits (path_linked (ρ.path k))
          (htracked (k + 1)) hrow' hd' hnew' (ρ.next k) (hcalm k (hn.trans hk))
        exact ⟨row'', hrow'', hid'.trans hid, hrest⟩
  obtain ⟨k, hk, row', hrow', hid, hpub⟩ :=
    hrelays n row hrow (pending_of_waits (htracked n) hrow hd hnew) hd
  obtain ⟨row'', hrow'', hid', hd', hnew'⟩ := waits k hk
  -- the row that was published still waits
  have hpending := pending_of_waits (htracked k) hrow'' hd' hnew'
  rw [Table.eq_of_key hrow'' hrow' (hid'.trans hid.symm), hpub] at hpending
  cases hpending

/-- A delivery stays in the table. -/
theorem stays_fixed {row : DeliveryRow} (hrow : (ρ.state m).db.deliveries.find? d = some row)
    {n : ℕ} (hn : m ≤ n) : ∃ row', (ρ.state n).db.deliveries.find? d = some row' ∧
      row'.endpointId = row.endpointId := by
  induction n, hn using Nat.le_induction with
  | base => exact ⟨row, hrow, rfl⟩
  | succ n _ ih =>
      obtain ⟨row', hrow', hep⟩ := ih
      obtain ⟨row'', hrow'', -, hep'⟩ := step_fixed (ρ.next n) hrow'
      exact ⟨row'', hrow'', hep'.trans hep⟩

/-- An outbox row stays in the table. -/
theorem row_stays {row : OutboxRow} (hrow : row ∈ (ρ.state m).db.outbox.rows) {n : ℕ} (hn : m ≤ n) :
    ∃ row' ∈ (ρ.state n).db.outbox.rows, row'.id = row.id := by
  induction n, hn using Nat.le_induction with
  | base => exact ⟨row, hrow, rfl⟩
  | succ n _ ih =>
      obtain ⟨row', hrow', hid⟩ := ih
      obtain ⟨row'', hrow'', hid', -⟩ := (step_flow (ρ.next n)).extends.outbox row' hrow'
      exact ⟨row'', hrow'', hid'.trans hid⟩

end Run

/-- **Every delivery is finished in the end.**  In every run of the system that goes on for ever, in
which nothing happens that the delivery may get lost by, the relays keep up, and a step is made for
the delivery whenever one stays possible: if its setbacks come to an end, then from some moment on
it is `SUCCEEDED` or `DEAD` for ever. -/
theorem eventually_finished (cfg : WorkerConfig) (d ep : Uuid)
    (ρ : Forever (step cfg) (Steady cfg d ep) init) (hfair : ρ.WeaklyFair (ownStep d))
    (hrelays : RelaysKeepUp ρ d)
    (hcalm : ∃ k, ∀ n, k ≤ n → setbacks cfg d (ρ.state n) (ρ.action n) = 0)
    (m : ℕ) (row : DeliveryRow) (hrow : (ρ.state m).db.deliveries.find? d = some row)
    (hep : row.endpointId = ep) : ∃ n, ∀ n', n ≤ n' → Finished (ρ.state n') d := by
  obtain ⟨k, hcalm⟩ := hcalm
  have hcalm' : ∀ n, max k m ≤ n → setbacks cfg d (ρ.state n) (ρ.action n) = 0 :=
    fun n hn => hcalm n ((le_max_left k m).trans hn)
  have hwaits : ∀ n, max k m ≤ n → ¬ Unqueued (ρ.state n) d := fun n hn =>
    not_unqueued hrelays hcalm' hn
  have hlowers : ∀ n, max k m ≤ n → work cfg d (ρ.state (n + 1)) +
      (ownStep d (ρ.state n) (ρ.action n)).toNat ≤ work cfg d (ρ.state n) := by
    intro n hn
    have hpath := ρ.path n
    have hstep := step_work (path_wf hpath) (path_inv hpath d) (path_owned hpath)
      (path_held (hpath.mono fun _ _ hq => hq.orderly)) (ρ.allowed n).orderly (ρ.next n)
    rw [hcalm' n hn, Nat.mul_zero, Nat.add_zero] at hstep
    exact hstep
  have henabled : ∀ n, max k m ≤ n → ¬ Finished (ρ.state n) d →
      Forever.Enabled (step cfg) (Steady cfg d ep) (ownStep d) (ρ.state n) := by
    intro n hn hopen
    obtain ⟨x, hx, hxep⟩ := stays_fixed hrow ((le_max_right k m).trans hn)
    have hxopen : (ρ.state n).db.Open d := by
      refine ⟨x, hx, ?_⟩
      cases hdone : x.status.isDone with
      | false => rfl
      | true => exact absurd ⟨x, hx, hdone⟩ hopen
    have hxep' : ∀ y, (ρ.state n).db.deliveries.find? d = some y → y.endpointId = ep := by
      intro y hy
      rw [hx, Option.some.injEq] at hy
      rw [← hy, hxep, hep]
    rcases unqueued_or_queued (ρ.path n) hxep' hxopen with hunqueued | ⟨j, hj, hjd⟩
    · exact absurd hunqueued (hwaits n hn)
    · exact step_possible cfg (path_owned (ρ.path n)) hj hjd (ρ.allowed n).active
  obtain ⟨n, hn, hfinished⟩ := ρ.eventually (G := fun s => Finished s d) hfair (max k m) hlowers
    henabled
  -- and it stays so: a redelivery would leave a row that waits
  refine ⟨n, fun n' hn' => ?_⟩
  induction n', hn' using Nat.le_induction with
  | base => exact hfinished
  | succ n' hn' ih =>
      obtain ⟨x, hx, hdone⟩ := ih
      have hpath := ρ.path n'
      rcases step_done (path_wf hpath) (path_inv hpath) hx hdone (ρ.next n') with
        ⟨x', hx', hst⟩ | ⟨tenantId, o, ha⟩
      · exact ⟨x', hx', by rw [hst]; exact hdone⟩
      · have hs := ρ.next n'
        rw [ha] at hs
        exact absurd (unqueued_of_redeliver (path_tracked hpath) hs) (hwaits (n' + 1) (by omega))

namespace Sample

/-- Run 0 was the only one and is gone, the queue is empty, and all rows are published. -/
def atRest (s : State) : Bool :=
  s.nextRun = 1 && (s.runs 0).isNone && s.queue.rows.isEmpty &&
    (s.db.outbox.rows.all fun row => row.status = .published) &&
    ((s.db.endpoints.find? endpoint).all fun e => e.status = .active) &&
    (s.db.deliveries.find? delivery).any fun row => row.endpointId = endpoint

/-- The state some time later. -/
def later (s : State) (n : ℕ) : State := { s with now := s.now + n }

/-- Nothing can be done for a delivery without run and job. -/
theorem ownStep_of_rest {s : State} {d : Uuid} {a : Action} (hruns : ∀ r, s.runs r = none)
    (hqueue : s.queue.rows = []) : ownStep d s a = false := by
  have hfind : ∀ id, s.queue.find? id = none := fun id => by rw [Table.find?, hqueue]; rfl
  cases a <;> simp [ownStep, isRunOf, hruns, hfind]

end Sample

/-- A run in which the delivery is made at the first attempt, and after which only time passes. -/
theorem eventually_finished_at_once : ∃ ρ : Forever (step Sample.cfg)
    (Steady Sample.cfg Sample.delivery Sample.endpoint) init,
    ∃ n, ∀ n', n ≤ n' → Finished (ρ.state n') Sample.delivery := by
  obtain ⟨s, hpath, hs⟩ := Path.exists_of_runChecked (step Sample.cfg)
    (P := Steady Sample.cfg Sample.delivery Sample.endpoint) (p := Sample.steady)
    (fun _ _ => Sample.steady_spec) init Sample.succeeded Sample.atRest (by decide +kernel)
  simp only [Sample.atRest, Bool.and_eq_true, decide_eq_true_eq, Option.isNone_iff_eq_none,
    List.isEmpty_iff, List.all_eq_true, Option.all_eq_true, Option.any_eq_true] at hs
  obtain ⟨⟨⟨⟨⟨hnext, h0⟩, hqueue⟩, hrows⟩, hactive⟩, row, hrow, hep⟩ := hs
  have hruns : ∀ r, s.runs r = none := by
    intro r
    by_cases hr : r = 0
    · rw [hr, h0]
    · exact (path_wf hpath).fresh r (by omega)
  obtain ⟨ρ, m, hρ⟩ := hpath.exists_forever (Sample.later s) (fun _ => .clock 1) rfl
    (fun _ => rfl) (fun n => ⟨id, fun _ => trivial, fun _ _ h => (by cases h),
      fun _ _ _ h => (by cases h), hactive⟩)
  have hstate : ∀ n, m ≤ n → ρ.state n = Sample.later s (n - m) := by
    intro n hn
    rw [← (hρ (n - m)).1, Nat.add_sub_cancel' hn]
  refine ⟨ρ, eventually_finished Sample.cfg Sample.delivery Sample.endpoint ρ (fun n hen => ?_)
    (fun n x hx hpending hd => ?_) ⟨m, fun n hn => ?_⟩ m row ?_ (by simpa using hep)⟩
  · -- at rest no step can be made for the delivery
    obtain ⟨a, t, -, hown, -⟩ := hen (max n m) (le_max_left n m)
    have hnone : ownStep Sample.delivery (Sample.later s (max n m - m)) a = false :=
      Sample.ownStep_of_rest hruns hqueue
    rw [hstate _ (le_max_right n m), hnone] at hown
    cases hown
  · obtain ⟨x', hx', hid⟩ := row_stays hx (le_max_left n m)
    refine ⟨max n m, le_max_left n m, x', hx', hid, hrows x' ?_⟩
    rw [hstate _ (le_max_right n m)] at hx'
    exact hx'
  · have haction : ρ.action n = .clock 1 := by
      rw [← (hρ (n - m)).2, Nat.add_sub_cancel' hn]
    rw [haction]
    simp [setbacks, thrownBack, step, jobsTaken]
  · rw [hstate m (le_refl m)]
    exact hrow

end System
end HookRelay
