import HookRelay.System.Budget
import HookRelay.System.TenantSlots

/-!
# No delivery gets stuck

A delivery that is neither `SUCCEEDED` nor `DEAD` is still somebody's business: an outbox row for
it waits for a relay, or one of its jobs is in the queue.  Jobs come and go: a run that finds its
attempt claimed by another run returns, and its job is done; so it has to be shown that somebody
else comes back to the delivery.

* `Steady` — what must not happen: a claim is abandoned, an error uses up the queue's budget, a
  job is given up, a lock expires under a run that goes on, or the endpoint is not `ACTIVE`.
* `Phase.Serves` — the run comes back to its delivery.
* `Kept` — the invariant: a run of the delivery has its job, and while nobody holds a claim, a row
  or a job of the delivery is in somebody's hands who comes back to it.
* `never_stuck` — so no open delivery is without row and job.
* `stuck_after_lock_expiry` — a lock that expires under a run that goes on may leave one so.
-/

namespace HookRelay

open Lib

/-- The phases of a run that comes back to its delivery: it is on its way to the claim, with what
it has read still up to date, or its attempt has failed. -/
def Phase.Serves (d endpointId : Uuid) (n : ℕ) : Phase → Prop
  | .returned res => res = .failed
  | .retryRead => True
  | .retryWrite _ => True
  | .finish ending => ending ≠ .returned
  | p => p.Coming d endpointId n

theorem Phase.Coming.serves {d endpointId : Uuid} {n : ℕ} {p : Phase}
    (h : p.Coming d endpointId n) : p.Serves d endpointId n := by
  cases p <;> first | exact h | exact absurd h id

namespace System

variable {cfg : WorkerConfig} {s s' : State} {a : Action} {d ep : Uuid}

/-- Nothing happens that delivery `d` to endpoint `ep` may get lost by. -/
structure Steady (cfg : WorkerConfig) (d ep : Uuid) (s : State) (a : Action) : Prop where
  /-- No run throws or dies while it holds a claim. -/
  claims : ¬ Abandons s d a
  /-- Other errors leave the queue's budget ahead of the delivery's. -/
  errors : ∀ suffix, Matched cfg (deliveryJobId d suffix) s a
  /-- No job of the delivery is given up. -/
  jobs : ∀ id j, a = .discard id → s.queue.find? id = some j → j.deliveryId ≠ d
  /-- The lock of a job expires only when its run is gone. -/
  locks : ∀ id j r, a = .unlock id → s.queue.find? id = some j → j.deliveryId = d →
    j.lock = some r → s.runs r = none
  active : ∀ e, s.db.endpoints.find? ep = some e → e.status = .active

/-- The queue gives up no job of the delivery, and takes none away from a run that goes on. -/
structure Orderly (d : Uuid) (s : State) (a : Action) : Prop where
  jobs : ∀ id j, a = .discard id → s.queue.find? id = some j → j.deliveryId ≠ d
  locks : ∀ id j r, a = .unlock id → s.queue.find? id = some j → j.deliveryId = d →
    j.lock = some r → s.runs r = none

theorem Steady.orderly (h : Steady cfg d ep s a) : Orderly d s a := ⟨h.jobs, h.locks⟩

/-- A run of the delivery has its job. -/
def Held (s : State) (d : Uuid) : Prop :=
  ∀ r run, s.runs r = some run → run.deliveryId = d →
    ∃ j, s.queue.find? run.jobId = some j ∧ j.lock = some r

/-- The job that a row asks for. -/
def rowJob (row : OutboxRow) (d : Uuid) : Text :=
  deliveryJobId d (row.deliveryId.map fun _ => outboxSuffix row.id)

/-- An outbox row waits whose job for the delivery the queue has not taken yet. -/
def Unqueued (s : State) (d : Uuid) : Prop :=
  ∃ row ∈ s.db.outbox.rows, d ∈ s.db.targets row ∧ ∀ x ∈ s.accepted, x.jobId ≠ rowJob row d

/-- A job of the delivery is in the queue, and the run that has it, if any, comes back. -/
def InHand (s : State) (d ep : Uuid) : Prop :=
  ∃ j ∈ s.queue, j.deliveryId = d ∧ ∀ r run, j.lock = some r → s.runs r = some run →
    run.phase.Serves d ep (s.db.attemptCount d)

/-- A run of the delivery has its job, and while the next attempt is not claimed, somebody comes
back to the delivery. -/
structure Kept (s : State) (d ep : Uuid) : Prop where
  held : ∀ r run, s.runs r = some run → run.deliveryId = d →
    ∃ j, s.queue.find? run.jobId = some j ∧ j.lock = some r
  owed : s.db.Open d → s.db.attemptTaken d (s.db.attemptCount d + 1) = false →
    Unqueued s d ∨ InHand s d ep

/-- What is known of a state in which nothing has gone wrong so far. -/
structure Ready (cfg : WorkerConfig) (s : State) (d ep : Uuid) : Prop where
  wf : Wf s
  inv : Claims.Inv (counter s d)
  linked : s.db.Linked
  tracked : Tracked s
  owned : Owned s
  served : Served s
  paced : ∀ suffix j, s.queue.find? (deliveryJobId d suffix) = some j → Paced cfg s j
  sameTenant : ∀ x ∈ s.db.deliveries, s.db.SameTenant x
  known : Copies (fun k e => k = ep → e.status = .active) s

theorem path_ready (h : Path (step cfg) (Steady cfg d ep) init s) : Ready cfg s d ep where
  wf := path_wf h
  inv := path_inv h d
  linked := path_linked h
  tracked := path_tracked h
  owned := path_owned h
  served := path_served h
  paced suffix := path_paced (h.mono fun _ _ hq => hq.errors suffix)
  sameTenant := path_sameTenant h
  known := h.invariant (I := Copies fun k e => k = ep → e.status = .active)
    (fun _ _ _ hI hq hs => step_copies hI (fun _ row hrow hk => hq.active row (hk ▸ hrow)) hs)
    (copies_init _)

/-! ## Rows -/

/-- A row has the same targets after a step. -/
theorem mem_targets_extends {db db' : Database} {row row' : OutboxRow} (hlinked : db.Linked)
    (hext : db.Extends db') (hrow : row ∈ db.outbox.rows) (hid : row'.id = row.id)
    (he : row'.eventId = row.eventId) (hd : row'.deliveryId = row.deliveryId)
    (h : d ∈ db.targets row) : d ∈ db'.targets row' := by
  obtain ⟨e, hev⟩ := hlinked.rowEvent row hrow
  have hm : messageOf db row = some ⟨row.id, row.deliveryId, e.tenantId,
      (db.deliveriesOf row.eventId).map DeliveryRow.id⟩ := by
    rw [messageOf, hev, Option.map_some]
  rw [← targetsOf_messageOf (hext.messageOf hm hid he hd), targetsOf_messageOf hm]
  exact h

/-- What is accepted while the jobs of a row are added has been accepted before, or is one of
them and in the queue, as it was added. -/
theorem addJobs_taken {outboxId : ℕ} {jobs : List Job} {x : Accepted}
    (hx : x ∈ (addJobs s outboxId jobs).accepted) : x ∈ s.accepted ∨
      ∃ j ∈ jobs, x.jobId = j.id ∧ j ∈ (addJobs s outboxId jobs).queue := by
  -- what is in the queue stays there
  have stays : ∀ (js : List Job) (t : State) (j : Job), j ∈ t.queue →
      j ∈ (addJobs t outboxId js).queue := by
    intro js
    induction js with
    | nil => intro t j hj; exact hj
    | cons i js ih =>
        intro t j hj
        unfold addJobs
        cases hins : t.queue.insert? i with
        | none => exact ih t j hj
        | some queue => exact ih _ j ((Table.mem_insert? hins).2 (.inl hj))
  induction jobs generalizing s with
  | nil => exact .inl hx
  | cons i js ih =>
      unfold addJobs at hx ⊢
      cases hins : s.queue.insert? i with
      | none =>
          simp only [hins] at hx ⊢
          rcases ih hx with h | ⟨j, hj, hid, hq⟩
          · exact .inl h
          · exact .inr ⟨j, List.mem_cons_of_mem _ hj, hid, hq⟩
      | some queue =>
          simp only [hins] at hx ⊢
          rcases ih hx with h | ⟨j, hj, hid, hq⟩
          · rcases List.mem_append.1 h with h | h
            · exact .inl h
            · rw [List.mem_singleton.1 h]
              exact .inr ⟨i, List.mem_cons_self, rfl,
                stays js _ i ((Table.mem_insert? hins).2 (.inr rfl))⟩
          · exact .inr ⟨j, List.mem_cons_of_mem _ hj, hid, hq⟩

/-- A row waits until its job is in the queue. -/
theorem step_unqueued (hlinked : s.db.Linked) (h : Unqueued s d) (hs : step cfg s a = some s') :
    Unqueued s' d ∨ ∃ j ∈ s'.queue, j.deliveryId = d ∧ j.lock = none := by
  obtain ⟨row, hrow, hd, hnew⟩ := h
  have hext := (step_flow hs).extends
  obtain ⟨row', hrow', hid, he, hdel⟩ := hext.outbox row hrow
  have htarget := mem_targets_extends hlinked hext hrow hid he hdel hd
  have hjob : rowJob row' d = rowJob row d := by rw [rowJob, rowJob, hdel, hid]
  have waits : s'.accepted = s.accepted → Unqueued s' d ∨ ∃ j ∈ s'.queue, j.deliveryId = d ∧
      j.lock = none := fun hacc => .inl ⟨row', hrow', htarget, by rw [hacc, hjob]; exact hnew⟩
  cases step_flow hs with
  | aside _ _ _ _ hacc _ => exact waits hacc
  | reserved _ _ _ _ _ _ _ _ _ _ _ hacc _ => exact waits hacc
  | reopened _ _ _ _ _ _ hacc _ => exact waits hacc
  | read k n _ heq => exact waits (by rw [heq])
  | added k m ms published jobs rest _ hjobs _ heq =>
      by_cases hall : ∀ x ∈ s'.accepted, x.jobId ≠ rowJob row' d
      · exact .inl ⟨row', hrow', htarget, hall⟩
      · push Not at hall
        obtain ⟨x, hx, hxid⟩ := hall
        rw [heq] at hx
        rcases addJobs_taken hx with hold | ⟨j, hj, hjid, hq⟩
        · exact absurd (hxid.trans hjob) (hnew x hold)
        · obtain ⟨d', -, rfl⟩ := mem_jobsOf.1 (hjobs j hj)
          obtain ⟨rfl, -⟩ := deliveryJobId_inj (hjid.symm.trans hxid)
          exact .inr ⟨_, by rw [heq]; exact hq, rfl, rfl⟩
  | marked k published _ heq => exact waits (by rw [heq])
  | died k heq => exact waits (by rw [heq])

/-! ## Runs and their jobs -/

/-- A run that lets go is gone. -/
theorem runs_letGo {r : ℕ} {i : Input} {run : Run} (hs : step cfg s (.run r i) = some s')
    (hrun : s.runs r = some run)
    (hp : run.phase = .delay ∨ ∃ ending, run.phase = .finish ending) : s'.runs r = none := by
  obtain ⟨run', hrun', hgo | ⟨next, hplanned, -⟩⟩ := run_eq_some hs
  · obtain ⟨-, queue, rfl⟩ := letGo_eq_some hgo
    simp [setRun]
  · rw [hrun, Option.some.injEq] at hrun'
    subst hrun'
    rcases hp with hp | ⟨ending, hp⟩ <;> rw [hp] at hplanned <;> cases hplanned

/-- A run that goes on keeps its job. -/
theorem Held.stays {r : ℕ} {run run' : Run} (h : Held s d) (howned : Owned s)
    (hq : Orderly d s a) (hs : step cfg s a = some s') (hrun : s.runs r = some run)
    (hd : run.deliveryId = d) (hrun' : s'.runs r = some run') :
    ∃ j, s'.queue.find? run.jobId = some j ∧ j.lock = some r := by
  obtain ⟨j, hj, hlock⟩ := h r run hrun hd
  have hjd : j.deliveryId = d :=
    ((howned.about j (Table.find?_eq_some_iff.1 hj).1 r run hlock hrun).2.symm).trans hd
  have hmove := step_job hs run.jobId
  -- the run that lets go of the job would be this one
  have other : ∀ {k : ℕ} {i : Input} {x : Run} {p : Phase}, a = .run k i → Has s k x j p →
      (p = .delay ∨ ∃ ending, p = .finish ending) → False := by
    intro k i x p ha has hp
    have hk : r = k := Option.some.inj (hlock.symm.trans has.lock)
    subst hk ha
    rw [runs_letGo hs has.runs (by rw [has.phase]; exact hp)] at hrun'
    cases hrun'
  rw [hj] at hmove
  generalize ho : some j = o at hmove
  generalize s'.queue.find? run.jobId = o' at hmove
  cases hmove with
  | same => exact ⟨j, ho.symm, hlock⟩
  | added => cases ho
  | handed w j' hfree => cases ho; rw [hlock] at hfree; cases hfree
  | unlocked j' =>
      cases ho
      rw [hq.locks _ j r rfl hj hjd hlock] at hrun
      cases hrun
  | discarded j' => cases ho; exact absurd hjd (hq.jobs _ j rfl hj)
  | released k i x j' has => cases ho; exact (other rfl has (.inl rfl)).elim
  | completed k i x j' has => cases ho; exact (other rfl has (.inr ⟨_, rfl⟩)).elim
  | counted k i x j' ending _ has _ => cases ho; exact (other rfl has (.inr ⟨_, rfl⟩)).elim
  | exhausted k i x j' ending _ has _ => cases ho; exact (other rfl has (.inr ⟨_, rfl⟩)).elim

theorem step_held (hwf : Wf s) (howned : Owned s) (h : Held s d) (hq : Orderly d s a)
    (hs : step cfg s a = some s') : Held s' d := by
  intro r run' hrun' hd
  by_cases hlt : r < s.nextRun
  · rcases runs_cases hlt hs hrun' with hrun | ⟨i, run, next, -, hrun, hp, -, rfl⟩ |
      ⟨run, -, hrun, rfl, -⟩
    · exact h.stays howned hq hs hrun hd hrun'
    · rw [hp.deliveryId_eq.1] at hd
      rw [hp.deliveryId_eq.2.1]
      exact h.stays howned hq hs hrun hd hrun'
    · have hd : run.deliveryId = d := hd
      have hjob := h.stays howned hq hs hrun hd hrun'
      exact hjob
  · have hnone : s.runs r = none := hwf.fresh r (not_lt.1 hlt)
    -- a run that was not there is the one that has been handed a job
    have absent : s'.runs = s.runs → ∃ j, s'.queue.find? run'.jobId = some j ∧
        j.lock = some r := by
      intro heq
      rw [heq, hnone] at hrun'
      cases hrun'
    have replaced : ∀ {k : ℕ} {new : Option Run} {x : Run}, s.runs k = some x →
        s'.runs = Function.update s.runs k new → ∃ j, s'.queue.find? run'.jobId = some j ∧
          j.lock = some r := by
      intro k new x hk hupd
      have hne : r ≠ k := by
        rintro rfl
        rw [hk] at hnone
        cases hnone
      rw [hupd, Function.update_of_ne hne, hnone] at hrun'
      cases hrun'
    cases step_change hs with
    | outside _ _ hr _ _ _ => exact absent hr
    | reserved _ _ _ _ hr _ _ _ _ => exact absent hr
    | reopened _ _ _ _ _ _ _ hr _ _ _ => exact absent hr
    | started w jobId j hj hfree heq =>
        subst heq
        by_cases hr : r = s.nextRun
        · subst hr
          simp only [Function.update_self, Option.some.injEq] at hrun'
          subst hrun'
          refine ⟨j.locked (some s.nextRun), ?_, rfl⟩
          simp only [Queue.find?_hand, if_true, hj, Option.map_some]
        · simp only [Function.update_of_ne hr, hnone] at hrun'
          cases hrun'
    | planned k i x next hk _ heq => subst heq; exact replaced hk rfl
    | left k i x hk hgo =>
        obtain ⟨-, queue, rfl⟩ := letGo_eq_some hgo
        exact replaced hk rfl
    | threw k x hk _ heq => subst heq; exact replaced hk rfl
    | crashed k x hk heq => subst heq; exact replaced hk rfl

/-- Nobody holds a claim as long as the next number is free. -/
theorem not_holds_of_free (hinv : Claims.Inv (counter s d))
    (hfree : s.db.attemptTaken d (s.db.attemptCount d + 1) = false) (r : ℕ) : ¬ Holds s d r := by
  intro hr
  obtain ⟨k, hk⟩ := holds_iff.1 hr
  exact hinv.not_holding_of_free (by simp [counter, hfree]) r k hk

/-- A run that comes back to its delivery goes on doing so, until it claims an attempt. -/
theorem planned_serves {r : ℕ} {run : Run} {next : Next} (hready : Ready cfg s d ep)
    (hq : Steady cfg d ep s a) (hopen : s.db.Open d)
    (hep : ∀ x, s.db.deliveries.find? d = some x → x.endpointId = ep)
    (hfree : s.db.attemptTaken d (s.db.attemptCount d + 1) = false) (hrun : s.runs r = some run)
    (hd : run.deliveryId = d) (h : run.phase.Serves d ep (s.db.attemptCount d))
    (hp : Planned cfg s.now s.db (s.cache run.worker) run run.phase next) :
    next.run.phase.Serves d ep (s.db.attemptCount d) ∨ Holds (applyNext s r run next) d r := by
  have waiting : run.phase.Waiting d ep (s.db.attemptCount d) →
      next.run.phase.Serves d ep (s.db.attemptCount d) ∨ Holds (applyNext s r run next) d r := by
    intro hw
    obtain ⟨x, hx, -⟩ := id hopen
    obtain ⟨e, -, he, -⟩ := hready.sameTenant x (Table.find?_eq_some_iff.1 hx).1
    rw [hep x hx] at he
    have hact : EndpointActive s run.worker ep :=
      ⟨⟨e, he, hq.active e he⟩, fun entry hc => hready.known.cache run.worker ep entry hc rfl⟩
    rcases planned_waiting hd ⟨x, hx, hep x hx⟩ hact hopen rfl hfree hw hp with
      hw' | ⟨-, y, c, claimed, hphase⟩
    · exact .inl hw'.coming.serves
    · refine .inr ⟨next.run, y, c, claimed, .allow, ?_, hp.deliveryId_eq.1.trans hd, hphase⟩
      simp [applyNext]
  have hslot := hready.served.slot r run hrun
  cases hphase : run.phase with
  | tenant => rw [hphase] at hp; cases hp <;> exact .inl trivial
  | acquire => rw [hphase] at hp; cases hp <;> exact .inl trivial
  | delay => rw [hphase] at hp; cases hp
  | returned res =>
      rw [hphase] at hp h hslot
      cases hp with
      | retries => exact .inl trivial
      | ends _ hne => exact absurd ⟨hslot, h⟩ hne
  | retryRead => rw [hphase] at hp; cases hp; exact .inl trivial
  | retryWrite n => rw [hphase] at hp; cases hp; exact .inl fun h => by cases h
  | finish ending => rw [hphase] at hp; cases hp
  | _ => rw [hphase] at h; exact waiting (by rw [hphase]; exact h)

/-! ## The step lemma -/

/-- A step that leaves the counter of the delivery alone leaves the delivery in somebody's hands. -/
theorem Kept.passed_on (h : Kept s d ep) (hready : Ready cfg s d ep) (hready' : Ready cfg s' d ep)
    (hq : Steady cfg d ep s a) (hep : ∀ x, s.db.deliveries.find? d = some x → x.endpointId = ep)
    (hs : step cfg s a = some s') (hsame : SameCounter s.db s'.db d) (hopen : s'.db.Open d)
    (hfree : s'.db.attemptTaken d (s'.db.attemptCount d + 1) = false) :
    Unqueued s' d ∨ InHand s' d ep := by
  have hopen₀ : s.db.Open d := hsame.live.1 hopen
  have hfree₀ : s.db.attemptTaken d (s.db.attemptCount d + 1) = false := by
    rw [← hsame.count, ← hsame.taken]
    exact hfree
  have unlocked : ∀ j ∈ s'.queue, j.deliveryId = d → j.lock = none → InHand s' d ep :=
    fun j hj hjd hlock => ⟨j, hj, hjd, fun r run hr => by rw [hlock] at hr; cases hr⟩
  rcases h.owed hopen₀ hfree₀ with hrow | ⟨j, hj, hjd, hserves⟩
  · rcases step_unqueued hready.linked hrow hs with hrow' | ⟨j, hj, hjd, hlock⟩
    · exact .inl hrow'
    · exact .inr (unlocked j hj hjd hlock)
  · right
    have hfind := Table.find?_of_mem hj
    have hmove := step_job hs j.id
    rw [hfind] at hmove
    have present : ∀ j' : Job, s'.queue.find? j.id = some j' → j' ∈ s'.queue :=
      fun j' hj' => (Table.find?_eq_some_iff.1 hj').1
    generalize ho : some j = o at hmove
    generalize ho' : s'.queue.find? j.id = o' at hmove
    cases hmove with
    | same =>
        subst ho
        refine ⟨j, present j ho', hjd, fun r run' hlock hrun' => ?_⟩
        rw [hsame.count]
        rcases runs_cases (hready.owned.started j hj r hlock) hs hrun' with hrun |
          ⟨i, run, next, rfl, hrun, hp, rfl, rfl⟩ | ⟨run, -, -, rfl, -⟩
        · exact hserves r run' hlock hrun
        · have hd : run.deliveryId = d := (hready.owned.about j hj r run hlock hrun).2.trans hjd
          rcases planned_serves hready hq hopen₀ hep hfree₀ hrun hd (hserves r run hlock hrun) hp with
            hserves' | hholds
          · exact hserves'
          · -- its claim would be the next one
            exact absurd hholds (not_holds_of_free hready'.inv hfree r)
        · exact fun h => by cases h
    | added => cases ho
    | handed w j' hlock =>
        cases ho
        refine ⟨_, present _ ho', hjd, fun r run' hr hrun' => ?_⟩
        cases hr
        obtain ⟨j₁, -, -, heq⟩ := take_eq_some hs
        simp only [heq, Function.update_self, Option.some.injEq] at hrun'
        rw [← hrun']
        exact trivial
    | unlocked j' => cases ho; exact unlocked _ (present _ ho') hjd rfl
    | released r i run j' _ => cases ho; exact unlocked _ (present _ ho') hjd rfl
    | counted r i run j' ending _ _ _ => cases ho; exact unlocked _ (present _ ho') hjd rfl
    | discarded j' => cases ho; exact absurd hjd (hq.jobs _ j rfl hfind)
    | completed r i run j' has =>
        cases ho
        have hserve := hserves r run has.lock has.runs
        rw [has.phase] at hserve
        exact absurd rfl hserve
    | exhausted r i run j' ending hne has hspent =>
        cases ho
        -- the queue's budget is ahead
        obtain ⟨x, hx, hxid, hxd, -⟩ := hready.tracked.queued j hj
        obtain ⟨m, -, -, -, hjob, -⟩ := hready.tracked.madeFor x hx
        have hid : j.id = deliveryJobId d (m.deliveryId.map fun _ => outboxSuffix m.id) := by
          rw [← hxid, hjob, jobIdOf, hxd, hjd]
        have hpaced := hready.paced _ j (hid ▸ hfind)
        have hkeep := hpaced.keepsUp r run has.lock has.runs
        rw [has.phase] at hkeep
        rw [hpaced.attempts] at hspent
        cases ending with
        | returned => exact absurd rfl hne
        | retrySignal => exact absurd hspent (not_le.2 hkeep.2)
        | threw => exact absurd hspent (not_le.2 hkeep.2)

/-- A row waits whose job cannot have been asked for before. -/
theorem unqueued_of_new {row : OutboxRow} (htracked : Tracked s) (hacc : s'.accepted = s.accepted)
    (hrow : row ∈ s'.db.outbox.rows) (hd : d ∈ s'.db.targets row)
    (hnew : ∀ m, s.db.Described m → d ∈ targetsOf m → jobIdOf m d ≠ rowJob row d) :
    Unqueued s' d := by
  refine ⟨row, hrow, hd, fun x hx hid => ?_⟩
  rw [hacc] at hx
  obtain ⟨m, hm, -, htarget, hjob, -⟩ := htracked.madeFor x hx
  obtain ⟨hxd, -⟩ := deliveryJobId_inj (hjob.symm.trans hid)
  rw [hxd] at htarget hjob
  exact hnew m hm htarget (hjob.symm.trans hid)

/-- A new delivery has a row that waits. -/
theorem unqueued_of_reserved {x : DeliveryRow} (hlinked : s.db.Linked) (htracked : Tracked s)
    (hnone : s.db.deliveries.find? d = none) (hx : s'.db.deliveries.find? d = some x)
    (hs : step cfg s a = some s') : Unqueued s' d := by
  have hnew : ∀ k, (d, k) ∉ s.db.links := by
    intro k hk
    obtain ⟨y, hy, -⟩ := Database.mem_links.1 hk
    rw [hnone] at hy
    cases hy
  have hlink : (d, x.eventId) ∈ s'.db.links := Database.mem_links.2 ⟨x, hx, rfl⟩
  have same : s'.db.links = s.db.links → Unqueued s' d :=
    fun h => absurd (h ▸ hlink) (hnew x.eventId)
  cases step_flow hs with
  | aside _ _ hlinks _ _ _ => exact same hlinks
  | reopened _ _ _ hlinks _ _ _ _ => exact same hlinks
  | read k n _ heq => exact same (by rw [heq])
  | marked k published _ heq => exact same (by rw [heq]; rfl)
  | died k heq => exact same (by rw [heq])
  | added k m ms published jobs rest _ _ _ heq =>
      obtain ⟨queue, accepted, hadd⟩ := addJobs_frame m.id jobs s
      exact same (by rw [heq, hadd])
  | reserved e ds rows _ _ hds hdel hout hrows hcov _ hacc _ =>
      obtain ⟨hmem, hid⟩ := Table.find?_eq_some_iff.1 hx
      rw [Table.mem_def, hdel, List.mem_append] at hmem
      rcases hmem with hold | hxds
      · exact absurd (Database.mem_links.2 ⟨x, hid ▸ Table.find?_of_mem hold, rfl⟩) (hnew _)
      · obtain ⟨row, hrow, hcovers⟩ := hcov x hxds
        refine unqueued_of_new htracked hacc (by rw [hout]; exact List.mem_append_right _ hrow) ?_
          fun m hm htarget _ => ?_
        · rw [Database.targets]
          rcases hcovers with hnone' | hsome
          · rw [hnone', Database.map_id_deliveriesOf]
            refine List.mem_map.2 ⟨(d, x.eventId), List.mem_filter.2 ⟨hlink, ?_⟩, rfl⟩
            rw [(hrows row hrow).1, hds x hxds]
            simp
          · rw [hsome, hid]
            exact List.mem_singleton_self _
        · obtain ⟨k, -, hk, -⟩ := hm.target hlinked htarget
          exact absurd hk (hnew k)

/-- A redelivery has a row that waits. -/
theorem unqueued_of_redeliver {tenantId : Uuid} {o : ℕ} (htracked : Tracked s)
    (hs : step cfg s (.redeliver tenantId d o) = some s') : Unqueued s' d := by
  obtain ⟨row, db, hrow, hdb, rfl⟩ := redeliver_eq_some hs
  obtain ⟨hfresh, -, hout, -⟩ := Database.redeliverTx_eq_some hdb
  have hid := (Table.find?_eq_some_iff.1 hrow).2
  have hmem : Database.newOutbox s.now o row.eventId (some row.id) ∈ db.outbox.rows := by
    rw [hout]
    exact List.mem_append_right _ (List.mem_singleton_self _)
  refine unqueued_of_new htracked rfl hmem ?_ ?_
  · rw [hid]
    exact List.mem_singleton_self _
  · -- the row's number is new
    rintro m ⟨row', hrow', hm⟩ - hjob
    obtain ⟨-, hsuffix⟩ := deliveryJobId_inj hjob
    cases hmd : m.deliveryId with
    | none =>
        rw [hmd] at hsuffix
        exact outboxSuffix_ne_nil o hsuffix.symm
    | some d' =>
        rw [hmd] at hsuffix
        have hmo : m.id = o := outboxSuffix_injective hsuffix
        exact hfresh row' hrow' ((messageOf_eq_some hm).1.symm.trans hmo)

/-- The final update of a run leaves its delivery done, or the run comes back to it. -/
theorem inHand_of_settled {r : ℕ} {run : Run} {next : Next} {n : ℕ} {dead : Bool}
    (hheld : Held (applyNext s r run next) d)
    (howned : Owned (applyNext s r run next)) (hd : next.run.deliveryId = d)
    (hwrite : next.write = .settleFailure d n dead)
    (hphase : next.run.phase = .returned (failureResult dead))
    (hopen : (applyNext s r run next).db.Open d) : InHand (applyNext s r run next) d ep := by
  have hrun : (applyNext s r run next).runs r = some next.run := by simp [applyNext]
  obtain ⟨j, hj, hlock⟩ := hheld r next.run hrun hd
  have hmem := (Table.find?_eq_some_iff.1 hj).1
  refine ⟨j, hmem, (howned.about j hmem r _ hlock hrun).2.symm.trans hd, fun r' run' hr' hrun' => ?_⟩
  rw [hlock, Option.some.injEq] at hr'
  subst hr'
  rw [hrun, Option.some.injEq] at hrun'
  subst hrun'
  rw [hphase]
  cases dead with
  | false => exact rfl
  | true =>
      obtain ⟨x, hx, hopen⟩ := hopen
      simp only [applyNext, hwrite, Write.exec, Table.find?_modify_self] at hx
      obtain ⟨y, -, rfl⟩ := Option.map_eq_some_iff.1 hx
      cases hopen

/-- **The step lemma.**  While nothing goes wrong, somebody comes back to the delivery. -/
theorem step_kept (hready : Ready cfg s d ep) (hready' : Ready cfg s' d ep) (h : Kept s d ep)
    (hq : Steady cfg d ep s a) (hep : ∀ x, s.db.deliveries.find? d = some x → x.endpointId = ep)
    (hs : step cfg s a = some s') : Kept s' d ep := by
  have hheld : Held s' d := step_held hready.wf hready.owned h.held hq.orderly hs
  refine ⟨hheld, fun hopen hfree => ?_⟩
  have same : SameCounter s.db s'.db d → Unqueued s' d ∨ InHand s' d ep :=
    fun hsame => h.passed_on hready hready' hq hep hs hsame hopen hfree
  cases step_change hs with
  | outside hdel hatt _ _ _ _ => exact same (.of_eq hdel hatt)
  | reserved ds hds hrows hatt _ _ _ _ _ =>
      cases hold : s.db.deliveries.find? d with
      | none =>
          obtain ⟨x, hx, -⟩ := hopen
          exact .inl (unqueued_of_reserved hready.linked hready.tracked hold hx hs)
      | some row =>
          have hnew : s'.db.deliveries.find? d = some row := by
            unfold Table.find? at hold ⊢
            rw [hrows, List.find?_append, hold]
            rfl
          refine same ⟨?_, ?_, fun n => ?_⟩
          · simp only [Database.attemptCount, hold, hnew]
          · simp only [Database.Open, hold, hnew]
          · simp only [Database.attemptTaken, hatt]
  | reopened tenantId deliveryId o row hrow hdel hatt _ _ _ _ =>
      by_cases hd : d = deliveryId
      · subst hd
        exact .inl (unqueued_of_redeliver hready.tracked hs)
      · have hid := (Table.find?_eq_some_iff.1 hrow).2
        exact same (.of_modify (Database.reopen_id s.now) hdel hatt
          fun h => absurd (h.trans hid) hd)
  | started w jobId j _ _ heq => exact same (.of_eq (by rw [heq]) (by rw [heq]))
  | left r i run _ hgo =>
      obtain ⟨-, queue, rfl⟩ := letGo_eq_some hgo
      exact same (.of_eq rfl rfl)
  | threw r run _ _ heq => exact same (.of_eq (by rw [heq]; rfl) (by rw [heq]; rfl))
  | crashed r run _ heq => exact same (.of_eq (by rw [heq]; rfl) (by rw [heq]; rfl))
  | planned r i run next hrun hp heq =>
      subst heq
      by_cases htarget : next.write.target = some d
      · have hd : run.deliveryId = d := by
          by_contra hne
          exact hp.target_ne hne (fun row hrow => hready.wf.row_id r run row hrun hrow) htarget
        have hd' : next.run.deliveryId = d := hp.deliveryId_eq.1.trans hd
        have howned' := hready'.owned
        have settled : ∀ {n : ℕ} {dead : Bool}, next.write = .settleFailure d n dead →
            next.run.phase = .returned (failureResult dead) →
            Unqueued (applyNext s r run next) d ∨ InHand (applyNext s r run next) d ep :=
          fun hwrite hphase => .inr (inHand_of_settled hheld howned' hd' hwrite hphase hopen)
        generalize hphase : run.phase = p at hp
        cases hp with
        | claimed x e text _ =>
            -- the claim is the next one, so that it is not free any more
            exact (not_holds_of_free hready'.inv hfree r
              ⟨_, x, e, s.db.attempts.next, .allow, Function.update_self _ _ _, hd', rfl⟩).elim
        | attempt x e c stage _ ha =>
            cases ha with
            | succeeded =>
                simp only [Run.writing, Write.target, Option.some.injEq] at htarget
                subst htarget
                obtain ⟨y, hy, hopen⟩ := hopen
                simp only [applyNext, Run.writing, Write.exec, Table.find?_modify_self] at hy
                obtain ⟨z, -, rfl⟩ := Option.map_eq_some_iff.1 hy
                cases hopen
            | failed =>
                simp only [Run.writing, Write.target, Option.some.injEq] at htarget
                exact settled (by rw [← htarget]; rfl) rfl
            | failedOpen =>
                simp only [Run.writing, Write.target, Option.some.injEq] at htarget
                exact settled (by rw [← htarget]; rfl) rfl
            | _ => simp [Run.goto, Run.writing, Write.target] at htarget
        | _ => simp [Run.goto, Run.writing, Write.target] at htarget
      · exact same (exec_same htarget)

theorem kept_init (d ep : Uuid) : Kept init d ep :=
  ⟨fun _ _ h => (by cases h), fun ⟨_, h, _⟩ => (by cases h)⟩

/-- In a run in which nothing goes wrong, every state is so. -/
theorem path_kept (h : Path (step cfg) (Steady cfg d ep) init s)
    (hep : ∀ x, s.db.deliveries.find? d = some x → x.endpointId = ep) : Kept s d ep := by
  induction h with
  | refl => exact kept_init d ep
  | @snoc t u a ht hq hs ih =>
      -- the delivery has had its endpoint from the beginning
      have hep₀ : ∀ x, t.db.deliveries.find? d = some x → x.endpointId = ep := by
        intro x hx
        obtain ⟨x', hx', -, hep'⟩ := step_fixed hs hx
        exact hep'.symm.trans (hep x' hx')
      exact step_kept (path_ready ht) (path_ready (.snoc ht hq hs)) (ih hep₀) hq hep₀ hs

/-! ## The result -/

/-- A row whose job the queue has not taken is `PENDING`. -/
theorem pending_of_waits {row : OutboxRow} (htracked : Tracked s) (hrow : row ∈ s.db.outbox.rows)
    (hd : d ∈ s.db.targets row) (hnew : ∀ x ∈ s.accepted, x.jobId ≠ rowJob row d) :
    row.status = .pending := by
  cases hst : row.status with
  | pending => rfl
  | published =>
      obtain ⟨m, hm, henq⟩ := htracked.marked row hrow hst
      obtain ⟨hid, hdid, -⟩ := messageOf_eq_some hm
      obtain ⟨x, hx, hjob, -⟩ := henq d (by rw [targetsOf_messageOf hm]; exact hd)
      exact absurd hjob (by rw [jobIdOf, hid, hdid]; exact hnew x hx)

/-- An open delivery has a row that waits or a job in the queue. -/
theorem unqueued_or_queued (h : Path (step cfg) (Steady cfg d ep) init s)
    (hep : ∀ x, s.db.deliveries.find? d = some x → x.endpointId = ep) (hopen : s.db.Open d) :
    Unqueued s d ∨ ∃ j ∈ s.queue, j.deliveryId = d := by
  have hready := path_ready h
  have hkept := path_kept h hep
  cases htaken : s.db.attemptTaken d (s.db.attemptCount d + 1) with
  | false =>
      rcases hkept.owed hopen htaken with hwaits | ⟨j, hj, hjd, -⟩
      · exact .inl hwaits
      · exact .inr ⟨j, hj, hjd⟩
  | true =>
      -- the run that holds the claim has its job
      have hsettled : Claims.Settled (counter s d) := path_settled (fun _ _ hq => hq.claims) h
      obtain ⟨r, k, hk⟩ := hsettled htaken
      obtain ⟨run, _, _, _, _, hrun, hd, -⟩ := holds_iff.2 ⟨k, hk⟩
      obtain ⟨j, hj, hlock⟩ := hkept.held r run hrun hd
      have hmem := (Table.find?_eq_some_iff.1 hj).1
      exact .inr ⟨j, hmem, (hready.owned.about j hmem r run hlock hrun).2.symm.trans hd⟩

/-- **No delivery gets stuck.**  In every run of the system in which no claim on the delivery is
abandoned, no other error uses up the queue's budget, the queue does not give up its jobs, locks
expire only when their run is gone, and the endpoint stays `ACTIVE`, in every state reached the
delivery is done, or one of its jobs is in the queue, or a `PENDING` outbox row for it waits for
a relay. -/
theorem never_stuck (cfg : WorkerConfig) (d ep : Uuid) (s : State)
    (h : Path (step cfg) (Steady cfg d ep) init s) (row : DeliveryRow)
    (hrow : s.db.deliveries.find? d = some row) (hep : row.endpointId = ep) : Accounted s d := by
  cases hdone : row.status.isDone with
  | true => exact .inl ⟨row, hrow, hdone⟩
  | false =>
      right
      have hep' : ∀ x, s.db.deliveries.find? d = some x → x.endpointId = ep := fun x hx => by
        rw [hrow, Option.some.injEq] at hx
        rw [← hx]
        exact hep
      rcases unqueued_or_queued h hep' ⟨row, hrow, hdone⟩ with hwaits | hjob
      · obtain ⟨x, hx, hd, hnew⟩ := hwaits
        exact .inr ⟨x, hx, pending_of_waits (path_tracked h) hx hd hnew, hd⟩
      · exact .inl hjob

namespace Sample

/-- Nothing goes wrong that the delivery may get lost by. -/
def steady (s : State) (a : Action) : Bool :=
  ((s.db.endpoints.find? endpoint).all fun e => e.status = .active) &&
    match a with
    | .throw _ | .discard _ => false
    | .crash r => (s.runs r).all fun run => match run.phase with
        | .attempt _ _ _ _ => false
        | _ => true
    | .unlock id => (s.queue.find? id).all fun j => j.lock.all fun r => (s.runs r).isNone
    | _ => true

theorem steady_spec {s : State} {a : Action} (h : steady s a = true) :
    Steady cfg delivery endpoint s a := by
  unfold steady at h
  rw [Bool.and_eq_true] at h
  obtain ⟨hactive, h⟩ := h
  have hactive : ∀ e, s.db.endpoints.find? endpoint = some e → e.status = .active :=
    fun e he => by simpa [he] using hactive
  cases a with
  | throw r => cases h
  | discard id => cases h
  | crash r =>
      refine ⟨?_, fun _ => trivial, fun _ _ h => (by cases h), fun _ _ _ h => (by cases h), hactive⟩
      rintro ⟨k, hk⟩
      obtain ⟨run, x, e, c, stage, hrun, -, hphase⟩ := holds_iff.2 ⟨k, hk⟩
      simp [hrun, hphase] at h
  | unlock id =>
      refine ⟨fun h => h, fun _ => trivial, fun _ _ h => (by cases h), ?_, hactive⟩
      intro id' j r heq hj _ hlock
      cases heq
      simpa [hj, hlock] using h
  | _ =>
      exact ⟨id, fun _ => trivial, fun _ _ h => (by cases h), fun _ _ _ h => (by cases h), hactive⟩

/-- Run 0 dies before its claim; run 1 of the same job makes an attempt that fails. -/
def diedEarly : List Action :=
  enqueued ++ [.take 0 job, .run 0 .none, .crash 0, .unlock job, .take 1 job] ++ toClaim 1 ++
    attempt 1 500 ++ settleFailure 1 ++ [.run 1 .none, .run 1 .none, .run 1 (.delay 0), .run 1 .none]

/-- Nothing throws or dies, and the queue gives up no job. -/
def calmly : Action → Bool
  | .throw _ | .crash _ | .discard _ => false
  | _ => true

/-- The lock of the job expires while run 0 makes its attempt; run 1 of the job finds the attempt
claimed, and completes the job. -/
def lockExpired : List Action :=
  beforeClaim ++ [.run 0 (.digest []), .unlock job, .take 1 job] ++ toClaim 1 ++
    [.run 1 (.digest []), .run 1 .none, .run 1 .none, .run 0 (.answer true), .run 0 .none,
      .run 0 (.response (.ok ⟨500, []⟩) 5), .run 0 .none] ++ settleFailure 0 ++
    [.run 0 .none, .run 0 .none, .run 0 (.delay 0), .run 0 .none]

end Sample

/-- After a run that died before its claim, and another one whose attempt failed. -/
theorem never_stuck_after_crash : ∃ s,
    Path (step Sample.cfg) (Steady Sample.cfg Sample.delivery Sample.endpoint) init s ∧
    Sample.statusIs s .failedRetrying 1 = true ∧ Accounted s Sample.delivery := by
  obtain ⟨s, hpath, hs⟩ := Path.exists_of_runChecked (step Sample.cfg)
    (P := Steady Sample.cfg Sample.delivery Sample.endpoint) (p := Sample.steady)
    (fun _ _ => Sample.steady_spec) init Sample.diedEarly
    (fun s => Sample.statusIs s .failedRetrying 1 &&
      (s.db.deliveries.find? Sample.delivery).all fun row => row.endpointId = Sample.endpoint)
    (by decide +kernel)
  rw [Bool.and_eq_true] at hs
  obtain ⟨hstatus, hep⟩ := hs
  obtain ⟨row, hrow, -⟩ := Sample.statusIs_iff.1 hstatus
  exact ⟨s, hpath, hstatus, never_stuck Sample.cfg Sample.delivery Sample.endpoint s hpath row hrow
    (by simpa [hrow] using hep)⟩

/-- **A lock that expires under a run that goes on may cost the delivery**, though nothing throws
or dies: it is `FAILED_RETRYING`, and neither the queue nor the outbox knows of it. -/
theorem stuck_after_lock_expiry : ∃ s, Path (step Sample.cfg)
    (fun _ a => Sample.calmly a = true) init s ∧
    Sample.statusIs s .failedRetrying 1 = true ∧ ¬ Accounted s Sample.delivery := by
  obtain ⟨s, hpath, hs⟩ := Path.exists_of_runChecked (step Sample.cfg)
    (P := fun _ a => Sample.calmly a = true) (p := fun _ => Sample.calmly) (fun _ _ => id) init
    Sample.lockExpired (fun s => Sample.statusIs s .failedRetrying 1 && Sample.lost s)
    (by decide +kernel)
  rw [Bool.and_eq_true] at hs
  exact ⟨s, hpath, hs.1, Sample.not_accounted_of_lost hs.2⟩

end System
end HookRelay
