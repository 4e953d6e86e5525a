import HookRelay.System.Handling
import HookRelay.System.Recovery
import HookRelay.System.Tenants

/-!
# What becomes of a manual redelivery

`redeliver` sets the delivery back to `PENDING` and leaves an outbox row for it.  The
relay makes a job of the row, and a run of that job tries to claim the next attempt.  It
is beaten to it only by a run that has claimed it before; so nothing is lost if nobody
held a claim when the redelivery was committed.

* `Quiet` — nothing throws or dies, no job is given up, and the endpoint is `ACTIVE`.
* `OnItsWay` — the redelivery is still on its way: its row is `PENDING` or its job is in the
  queue, and a run that has the job has not come to its claim yet.
* `redelivery_kept` — a redelivery that was committed while nobody held a claim is on its
  way until an attempt is claimed.
* `redelivery_dropped` — one that was committed during an attempt may be dropped.
-/

namespace HookRelay

open Lib

/-! ## The endpoint stays active for everybody -/

/-- A run that is about to fill the cache has read the endpoint from the database. -/
theorem Planned.store_status {cfg : WorkerConfig} {now : Micros} {db : Database}
    {cache : EndpointCache} {run : Run} {p : Phase} {next : Next} {x : DeliveryRow}
    {e : EndpointConfig} (h : Planned cfg now db cache run p next)
    (hp : next.run.phase = .store x e) :
    ∃ row, db.endpoints.find? x.endpointId = some row ∧ e.status = row.status := by
  have after : ∀ (y : DeliveryRow) (c : EndpointConfig), afterEndpoint y c ≠ .store x e := by
    intro y c
    unfold afterEndpoint
    split_ifs <;> simp
  cases h with
  | loaded y row hrow =>
      cases hp
      exact ⟨row, hrow, rfl⟩
  | cached y entry _ => exact absurd hp (after _ _)
  | stored y c => exact absurd hp (after _ _)
  | attempt y c claimed stage _ ha => cases ha <;> cases hp
  | _ => cases hp

/-- What a run puts into the cache is what it has read. -/
theorem Planned.cache_entry {cfg : WorkerConfig} {now : Micros} {db : Database}
    {cache : EndpointCache} {run : Run} {p : Phase} {next : Next} {k : Uuid} {entry : CacheEntry}
    (h : Planned cfg now db cache run p next) (hc : next.cache.exec cache k = some entry) :
    cache k = some entry ∨ ∃ x, p = .store x entry.value ∧ x.endpointId = k := by
  cases h with
  | stored x e =>
      by_cases hk : k = x.endpointId
      · subst hk
        simp only [CacheWrite.exec, Function.update_self, Option.some.injEq] at hc
        subst hc
        exact .inr ⟨x, rfl, rfl⟩
      · simp only [CacheWrite.exec, Function.update_of_ne hk] at hc
        exact .inl hc
  | attempt x e claimed stage _ ha =>
      cases ha with
      | endpointCounted disable =>
          cases disable with
          | false => exact .inl hc
          | true =>
              by_cases hk : k = x.endpointId
              · subst hk
                simp [CacheWrite.exec] at hc
              · simp only [CacheWrite.exec, if_true, Function.update_of_ne hk] at hc
                exact .inl hc
      | _ => exact .inl hc
  | _ => exact .inl hc

namespace System

variable {cfg : WorkerConfig} {s s' : State} {a : Action} {d ep : Uuid} {o n : ℕ}

/-- Nothing throws or dies, no job is given up, and the endpoint is `ACTIVE`. -/
structure Quiet (ep : Uuid) (s : State) (a : Action) : Prop where
  noThrow : ∀ r, a ≠ .throw r
  noCrash : ∀ r, a ≠ .crash r
  noDiscard : ∀ id, a ≠ .discard id
  active : ∀ e, s.db.endpoints.find? ep = some e → e.status = .active

theorem Quiet.not_abandons (h : Quiet ep s a) : ¬ Abandons s d a := by
  cases a with
  | throw r => exact absurd rfl (h.noThrow r)
  | crash r => exact absurd rfl (h.noCrash r)
  | _ => exact id

/-- Nobody remembers the endpoint as anything but `ACTIVE`. -/
structure KnownActive (s : State) (ep : Uuid) : Prop where
  cache : ∀ w entry, s.cache w ep = some entry → entry.value.status = .active
  store : ∀ r run x e, s.runs r = some run → run.phase = .store x e → x.endpointId = ep →
    e.status = .active

theorem step_knownActive (h : KnownActive s ep) (hq : Quiet ep s a) (hs : step cfg s a = some s') :
    KnownActive s' ep := by
  -- a step that leaves the caches alone, and no run about to fill one
  have replaced : ∀ (k : ℕ) (new : Option Run), s'.cache = s.cache →
      s'.runs = Function.update s.runs k new →
      (∀ run x e, new = some run → run.phase ≠ .store x e) → KnownActive s' ep := by
    intro k new hcache hupd hnew
    refine ⟨by rw [hcache]; exact h.cache, fun r run x e hrun hp hx => ?_⟩
    rw [hupd] at hrun
    by_cases hr : r = k
    · subst hr
      rw [Function.update_self] at hrun
      exact absurd hp (hnew run x e hrun)
    · rw [Function.update_of_ne hr] at hrun
      exact h.store r run x e hrun hp hx
  cases step_change hs with
  | outside _ _ hr _ _ hc => exact ⟨by rw [hc]; exact h.cache, by rw [hr]; exact h.store⟩
  | reserved _ _ _ _ hr _ _ hc _ => exact ⟨by rw [hc]; exact h.cache, by rw [hr]; exact h.store⟩
  | reopened _ _ _ _ _ _ _ hr _ _ hc => exact ⟨by rw [hc]; exact h.cache, by rw [hr]; exact h.store⟩
  | started w jobId j _ _ heq =>
      subst heq
      refine replaced s.nextRun _ rfl rfl fun run x e hrun hp => ?_
      cases hrun
      cases hp
  | planned r i run next hrun hp heq =>
      subst heq
      refine ⟨fun w entry hentry => ?_, fun r' run' x e hrun' hphase hx => ?_⟩
      · simp only [applyNext] at hentry
        by_cases hw : w = run.worker
        · subst hw
          rw [Function.update_self] at hentry
          rcases hp.cache_entry hentry with hold | ⟨x, hphase, hx⟩
          · exact h.cache _ entry hold
          · exact h.store r run x _ hrun hphase hx
        · rw [Function.update_of_ne hw] at hentry
          exact h.cache w entry hentry
      · simp only [applyNext] at hrun'
        by_cases hr : r' = r
        · subst hr
          rw [Function.update_self, Option.some.injEq] at hrun'
          subst hrun'
          obtain ⟨row, hrow, hstatus⟩ := hp.store_status hphase
          rw [hstatus]
          exact hq.active row (hx ▸ hrow)
        · rw [Function.update_of_ne hr] at hrun'
          exact h.store r' run' x e hrun' hphase hx
  | left r i run _ hgo =>
      obtain ⟨-, queue, rfl⟩ := letGo_eq_some hgo
      exact replaced r none rfl rfl fun run x e hrun => by cases hrun
  | threw r run _ _ heq => exact absurd rfl (hq.noThrow r)
  | crashed r run _ heq => exact absurd rfl (hq.noCrash r)

theorem path_knownActive (h : Path (step cfg) (Quiet ep) init s) : KnownActive s ep :=
  h.invariant (I := fun t => KnownActive t ep) (fun _ _ _ hI hq hs => step_knownActive hI hq hs)
    ⟨fun _ _ h => (by cases h), fun _ _ _ _ h => (by cases h)⟩

end System

/-! ## The redelivery on its way -/

/-- The phases of a run that has not come to its claim, from the start of the handler. -/
def Phase.Coming (d endpointId : Uuid) (n : ℕ) : Phase → Prop
  | .tenant => True
  | .acquire => True
  | .delay => True
  | p => p.Waiting d endpointId n

theorem Phase.Waiting.coming {d endpointId : Uuid} {n : ℕ} {p : Phase}
    (h : p.Waiting d endpointId n) : p.Coming d endpointId n := by
  cases p <;> first | exact trivial | exact h

theorem Phase.Coming.not_finish {d endpointId : Uuid} {n : ℕ} {ending : Ending} :
    ¬ (Phase.finish ending).Coming d endpointId n := id

/-- The job of the outbox row that `redeliver` writes. -/
def redeliverJob (d : Uuid) (outboxId : ℕ) : Text := deliveryJobId d (some (outboxSuffix outboxId))

namespace System

variable {cfg : WorkerConfig} {s s' : State} {a : Action} {d ep : Uuid} {o n : ℕ}

/-- What is known of a state in which nothing has gone wrong so far. -/
structure Sound (s : State) (d ep : Uuid) : Prop where
  wf : Wf s
  inv : Claims.Inv (counter s d)
  tracked : Tracked s
  owned : Owned s
  known : KnownActive s ep
  sameTenant : ∀ x ∈ s.db.deliveries, s.db.SameTenant x

theorem path_sound (h : Path (step cfg) (Quiet ep) init s) (d : Uuid) : Sound s d ep :=
  ⟨path_wf h, path_inv h d, path_tracked h, path_owned h, path_knownActive h, path_sameTenant h⟩

/-- The redelivery of `d` under outbox row `o` is on its way, and attempt `n + 1` of the
delivery has not been claimed. -/
structure OnItsWay (s : State) (d ep : Uuid) (o n : ℕ) : Prop where
  free : s.db.attemptTaken d (n + 1) = false
  count : s.db.attemptCount d = n
  isOpen : s.db.Open d
  endpoint : ∃ x, s.db.deliveries.find? d = some x ∧ x.endpointId = ep
  row : ∃ row ∈ s.db.outbox.rows, row.id = o ∧ row.deliveryId = some d ∧
    (row.status = .pending ∨ s.queue.find? (redeliverJob d o) ≠ none)
  ticks : ∀ k t, s.ticks k = some t → o ∈ t.published → s.queue.find? (redeliverJob d o) ≠ none
  owner : ∀ j r run, s.queue.find? (redeliverJob d o) = some j → j.lock = some r →
    s.runs r = some run → run.phase.Coming d ep n

/-- Nobody holds a claim as long as the next number is free. -/
theorem OnItsWay.unheld (h : OnItsWay s d ep o n) (hinv : Claims.Inv (counter s d)) (r : ℕ) :
    ¬ Holds s d r := by
  intro hr
  obtain ⟨k, hk⟩ := holds_iff.1 hr
  obtain ⟨hcount, -, htaken⟩ := hinv.holding r k hk
  have htaken' : s.db.attemptTaken d (n + 1) = true := by
    rw [← h.count, show s.db.attemptCount d = k from hcount.symm]
    exact htaken
  rw [h.free] at htaken'
  cases htaken'

/-- The job of the redelivery is for its delivery. -/
theorem deliveryId_of_job (htracked : Tracked s) {j : Job}
    (hj : s.queue.find? (redeliverJob d o) = some j) : j.deliveryId = d := by
  obtain ⟨hmem, hid⟩ := Table.find?_eq_some_iff.1 hj
  obtain ⟨x, hx, hjob, hdel, -⟩ := htracked.queued j hmem
  obtain ⟨m, -, -, -, hjob', -⟩ := htracked.madeFor x hx
  rw [← hdel]
  exact (deliveryJobId_inj ((hjob'.symm.trans hjob).trans hid)).1

/-- The job of the redelivery stays in the queue. -/
theorem OnItsWay.keeps_job (h : OnItsWay s d ep o n) (hq : Quiet ep s a)
    (hs : step cfg s a = some s') (hj : s.queue.find? (redeliverJob d o) ≠ none) :
    s'.queue.find? (redeliverJob d o) ≠ none := by
  have hmove := step_job hs (redeliverJob d o)
  have hown := h.owner
  generalize s.queue.find? (redeliverJob d o) = old at hmove hj hown
  generalize s'.queue.find? (redeliverJob d o) = new at hmove
  cases hmove with
  | same => exact hj
  | discarded j => exact absurd rfl (hq.noDiscard _)
  | completed r i run j has =>
      have := hown j r run rfl has.lock has.runs
      rw [has.phase] at this
      exact absurd this Phase.Coming.not_finish
  | exhausted r i run j ending _ has _ =>
      have := hown j r run rfl has.lock has.runs
      rw [has.phase] at this
      exact absurd this Phase.Coming.not_finish
  | _ => simp

/-- The outbox row of the redelivery stays, and is marked only when the job is there. -/
theorem OnItsWay.step_row (h : OnItsWay s d ep o n) (hs : step cfg s a = some s')
    (hkeeps : s.queue.find? (redeliverJob d o) ≠ none →
      s'.queue.find? (redeliverJob d o) ≠ none) :
    ∃ row ∈ s'.db.outbox.rows, row.id = o ∧ row.deliveryId = some d ∧
      (row.status = .pending ∨ s'.queue.find? (redeliverJob d o) ≠ none) := by
  obtain ⟨row, hrow, hid, hd, hst⟩ := h.row
  have stays : row ∈ s'.db.outbox.rows → ∃ row ∈ s'.db.outbox.rows, row.id = o ∧
      row.deliveryId = some d ∧
      (row.status = .pending ∨ s'.queue.find? (redeliverJob d o) ≠ none) :=
    fun hrow' => ⟨row, hrow', hid, hd, hst.imp id hkeeps⟩
  cases step_flow hs with
  | aside _ hout _ _ _ _ => exact stays (hout ▸ hrow)
  | reserved _ _ _ _ _ _ _ hout _ _ _ _ _ =>
      exact stays (by rw [hout]; exact List.mem_append_left _ hrow)
  | reopened _ _ _ _ hout _ _ _ => exact stays (by rw [hout]; exact List.mem_append_left _ hrow)
  | read k m _ heq => subst heq; exact stays hrow
  | added k m ms published jobs rest _ _ _ heq =>
      obtain ⟨queue, accepted, hadd⟩ := addJobs_frame m.id jobs s
      rw [hadd] at heq
      exact stays (by rw [heq]; exact hrow)
  | marked k published hk heq =>
      by_cases hmem : o ∈ published
      · have hjob := hkeeps (h.ticks k _ hk hmem)
        subst heq
        obtain ⟨row', hrow', hid', -, hd'⟩ := exists_markPublished s.now hrow
        exact ⟨row', hrow', hid'.trans hid, hd'.trans hd, .inr hjob⟩
      · subst heq
        exact stays (markPublished_of_notMem s.now hrow (hid ▸ hmem))
  | died k heq => subst heq; exact stays hrow

/-- A relay that has added the row has put the job into the queue. -/
theorem OnItsWay.step_ticks (h : OnItsWay s d ep o n) (htracked : Tracked s)
    (hs : step cfg s a = some s') (hkeeps : s.queue.find? (redeliverJob d o) ≠ none →
      s'.queue.find? (redeliverJob d o) ≠ none) :
    ∀ k t, s'.ticks k = some t → o ∈ t.published → s'.queue.find? (redeliverJob d o) ≠ none := by
  intro k t ht ho
  have stays : s.ticks k = some t → s'.queue.find? (redeliverJob d o) ≠ none :=
    fun ht => hkeeps (h.ticks k t ht ho)
  have replaced : ∀ (i : ℕ) (new : Option Tick), s'.ticks = Function.update s.ticks i new →
      (new = some t → s'.queue.find? (redeliverJob d o) ≠ none) →
      s'.queue.find? (redeliverJob d o) ≠ none := by
    intro i new hupd hnew
    rw [hupd] at ht
    by_cases hk : k = i
    · subst hk
      rw [Function.update_self] at ht
      exact hnew ht
    · rw [Function.update_of_ne hk] at ht
      exact stays ht
  cases step_flow hs with
  | aside _ _ _ hticks _ _ => exact stays (hticks ▸ ht)
  | reserved _ _ _ _ _ _ _ _ _ _ hticks _ _ => exact stays (hticks ▸ ht)
  | reopened _ _ _ _ _ hticks _ _ => exact stays (hticks ▸ ht)
  | read i m _ heq =>
      refine replaced i _ (by rw [heq]) fun hnew => ?_
      cases hnew
      cases ho
  | added i m ms published jobs rest hi hjobs hrest heq =>
      refine replaced i (some rest) (by rw [heq]) fun hnew => ?_
      cases hnew
      rcases hrest with rfl | ⟨rfl, rfl⟩
      · exact hkeeps (h.ticks i _ hi ho)
      · rcases List.mem_append.1 ho with ho | ho
        · exact hkeeps (h.ticks i _ hi ho)
        · -- the message is that of our row, so it names the delivery
          obtain ⟨row, hrow, hid, hd, -⟩ := h.row
          obtain ⟨row', hrow', hm⟩ := (htracked.ticks i _ hi).todo m List.mem_cons_self
          obtain ⟨hmid, hmd, -⟩ := messageOf_eq_some hm
          have hmo : m.id = o := (List.mem_singleton.1 ho).symm
          have hrr : row' = row := Table.eq_of_key hrow' hrow (by rw [← hmid, hmo, hid])
          rw [hrr, hd] at hmd
          have hjob : jobOf cfg.maxAttempts m d ∈ jobsOf cfg.maxAttempts m :=
            mem_jobsOf.2 ⟨d, by simp [targetsOf, hmd], rfl⟩
          have hjid : (jobOf cfg.maxAttempts m d).id = redeliverJob d o := by
            simp [jobOf, redeliverJob, hmd, hmo]
          rw [heq, ← hjid]
          exact addJobs_present hjob
  | marked i published _ heq => exact replaced i none (by rw [heq]) fun hnew => by cases hnew
  | died i heq => exact replaced i none (by rw [heq]) fun hnew => by cases hnew

/-- A run that has the job comes nearer to its claim, or makes it. -/
theorem OnItsWay.planned_coming {r : ℕ} {run : Run} {next : Next} (h : OnItsWay s d ep o n)
    (hsound : Sound s d ep) (hq : Quiet ep s a) (hd : run.deliveryId = d)
    (hc : run.phase.Coming d ep n)
    (hp : Planned cfg s.now s.db (s.cache run.worker) run run.phase next) :
    next.run.phase.Coming d ep n ∨ Holds (applyNext s r run next) d r := by
  have waiting : run.phase.Waiting d ep n →
      next.run.phase.Coming d ep n ∨ Holds (applyNext s r run next) d r := by
    intro hw
    obtain ⟨x, hx, hxep⟩ := h.endpoint
    obtain ⟨e, -, he, -⟩ := hsound.sameTenant x (Table.find?_eq_some_iff.1 hx).1
    rw [hxep] at he
    have hact : EndpointActive s run.worker ep :=
      ⟨⟨e, he, hq.active e he⟩, hsound.known.cache run.worker⟩
    rcases planned_waiting hd h.endpoint hact h.isOpen h.count h.free hw hp with
      hw' | ⟨-, y, c, claimed, hphase⟩
    · exact .inl hw'.coming
    · refine .inr ⟨next.run, y, c, claimed, .allow, ?_, hp.deliveryId_eq.1.trans hd, hphase⟩
      simp [applyNext]
  cases hphase : run.phase with
  | tenant => rw [hphase] at hp; cases hp <;> exact .inl trivial
  | acquire => rw [hphase] at hp; cases hp <;> exact .inl trivial
  | delay => rw [hphase] at hp; cases hp
  | _ => rw [hphase] at hc; exact waiting (by rw [hphase]; exact hc)

/-- **The step lemma.**  The redelivery is on its way until the next attempt is claimed. -/
theorem step_onItsWay (hsound : Sound s d ep) (hsound' : Sound s' d ep) (h : OnItsWay s d ep o n)
    (hq : Quiet ep s a) (hs : step cfg s a = some s') :
    s'.db.attemptTaken d (n + 1) = true ∨ OnItsWay s' d ep o n := by
  obtain ⟨hcount, hopen⟩ := step_unheld hsound.wf hsound.inv (h.unheld hsound.inv) hs
  have hcount' : s'.db.attemptCount d = n := hcount.trans h.count
  cases hfree : s'.db.attemptTaken d (n + 1) with
  | true => exact .inl rfl
  | false =>
      have hkeeps := h.keeps_job hq hs
      have hendpoint : ∃ x, s'.db.deliveries.find? d = some x ∧ x.endpointId = ep := by
        obtain ⟨x, hx, hxep⟩ := h.endpoint
        obtain ⟨x', hx', -, hxep'⟩ := step_fixed hs hx
        exact ⟨x', hx', hxep'.trans hxep⟩
      refine .inr ⟨hfree, hcount', hopen h.isOpen, hendpoint, h.step_row hs hkeeps,
        h.step_ticks hsound.tracked hs hkeeps, fun j' r run' hj' hlock hrun' => ?_⟩
      have hmove := step_job hs (redeliverJob d o)
      rw [hj'] at hmove
      generalize ho : s.queue.find? (redeliverJob d o) = old at hmove
      generalize ho' : some j' = new at hmove
      cases hmove with
      | same =>
          subst ho'
          have hmem := (Table.find?_eq_some_iff.1 ho).1
          rcases runs_cases (hsound.owned.started j' hmem r hlock) hs hrun' with
            hrun | ⟨i, run, next, rfl, hrun, hp, rfl, rfl⟩ | ⟨run, rfl, -⟩
          · exact h.owner j' r run' ho hlock hrun
          · have hd : run.deliveryId = d :=
              (hsound.owned.about j' hmem r run hlock hrun).2.trans
                (deliveryId_of_job hsound.tracked ho)
            rcases h.planned_coming hsound hq hd (h.owner j' r run ho hlock hrun) hp with
              hc | hholds
            · exact hc
            · -- the claim has been made, so the number is taken
              obtain ⟨k, hk⟩ := holds_iff.1 hholds
              obtain ⟨hk', -, htaken⟩ := hsound'.inv.holding r k hk
              have hn : k = n := hk'.trans hcount'
              rw [hn] at htaken
              exact absurd htaken (by simp [counter, hfree])
          · exact absurd rfl (hq.noThrow r)
      | handed w j _ =>
          cases ho'
          cases hlock
          obtain ⟨j₁, -, -, heq⟩ := take_eq_some hs
          simp only [heq, Function.update_self, Option.some.injEq] at hrun'
          rw [← hrun']
          exact trivial
      | discarded => cases ho'
      | completed => cases ho'
      | exhausted => cases ho'
      | _ => cases ho'; cases hlock

/-! ## The commit -/

/-- What a committed redelivery does to the system. -/
theorem redeliver_eq_some {tenantId : Uuid} (h : step cfg s (.redeliver tenantId d o) = some s') :
    ∃ row db, s.db.deliveries.find? d = some row ∧ s.db.redeliverTx s.now row o = some db ∧
      s' = { s with db := db } := by
  cases stepped_of_step h with
  | redeliver _ _ _ row db hrow _ hdb => exact ⟨row, db, hrow, hdb, rfl⟩

/-- A redelivery that is committed while nobody holds a claim is on its way. -/
theorem onItsWay_of_redeliver {tenantId : Uuid} (hsound : Sound s d ep)
    (hsettled : Claims.Settled (counter s d)) (hno : ∀ r, ¬ Holds s d r)
    (hep : ∀ x, s.db.deliveries.find? d = some x → x.endpointId = ep)
    (hs : step cfg s (.redeliver tenantId d o) = some s') :
    OnItsWay s' d ep o (s.db.attemptCount d) := by
  obtain ⟨row, db, hrow, hdb, rfl⟩ := redeliver_eq_some hs
  obtain ⟨hfresh, hdel, hout, -, -, -, hatt⟩ := Database.redeliverTx_eq_some hdb
  have hid := (Table.find?_eq_some_iff.1 hrow).2
  have hfind : db.deliveries.find? d = some (Database.reopen s.now row) := by
    rw [hdel, hid, Table.find?_modify_self, hrow]
    rfl
  have hfree := free_of_settled hsettled hno
  -- the row's number is new, so nobody knows of its job yet
  have hnew : ∀ m, s.db.Described m → m.id ≠ o := by
    rintro m ⟨row', hrow', hm⟩ hmo
    exact hfresh row' hrow' ((messageOf_eq_some hm).1.symm.trans hmo)
  refine ⟨?_, ?_, ⟨_, hfind, rfl⟩, ⟨_, hfind, hep row hrow⟩, ?_, ?_, ?_⟩
  · simp only [Database.attemptTaken, hatt]
    exact hfree
  · simp [Database.attemptCount, hfind, hrow, Database.reopen]
  · refine ⟨_, by rw [hout]; exact List.mem_append_right _ (List.mem_singleton_self _), rfl, ?_,
      .inl rfl⟩
    rw [← hid]
    rfl
  · intro k t ht ho
    obtain ⟨m, hm, hmo, -⟩ := (hsound.tracked.ticks k t ht).added o ho
    exact absurd hmo (hnew m hm)
  · intro j r run hj
    obtain ⟨hmem, hjid⟩ := Table.find?_eq_some_iff.1 hj
    obtain ⟨x, hx, hjob, -⟩ := hsound.tracked.queued j hmem
    obtain ⟨m, hm, -, -, hjob', -⟩ := hsound.tracked.madeFor x hx
    obtain ⟨-, hsuffix⟩ := deliveryJobId_inj ((hjob'.symm.trans hjob).trans hjid)
    cases hmd : m.deliveryId with
    | none =>
        rw [hmd] at hsuffix
        exact absurd hsuffix.symm (outboxSuffix_ne_nil o)
    | some d' =>
        rw [hmd] at hsuffix
        exact absurd (outboxSuffix_injective hsuffix) (hnew m hm)

/-! ## The result -/

/-- The redelivery of `d` that was committed in state `s₀` under outbox row `o` has not been
dropped in state `s`: its row is still `PENDING`, or its job is in the queue, or an
attempt of the delivery has been claimed since. -/
def RedeliveryKept (s₀ s : State) (d : Uuid) (o : ℕ) : Prop :=
  (∃ row ∈ s.db.outbox.rows, row.id = o ∧ row.status = .pending) ∨
    (∃ j ∈ s.queue, j.id = deliveryJobId d (some (outboxSuffix o))) ∨
    ∃ k, s.db.attemptTaken d k = true ∧ s₀.db.attemptTaken d k = false

/-- **A redelivery is kept.**  In every run without crashes and errors in which the
endpoint stays `ACTIVE`, a redelivery that is committed while no run is between its claim
of an attempt of the delivery and its final update is not dropped. -/
theorem redelivery_kept (cfg : WorkerConfig) (s₀ s₁ s : State) (tenantId d ep : Uuid) (o : ℕ)
    (h₀ : Path (step cfg) (Quiet ep) init s₀)
    (hep : ∀ x, s₀.db.deliveries.find? d = some x → x.endpointId = ep)
    (hq : Quiet ep s₀ (.redeliver tenantId d o))
    (hs : step cfg s₀ (.redeliver tenantId d o) = some s₁)
    (h₁ : Path (step cfg) (Quiet ep) s₁ s) (hno : ∀ r, ¬ Holds s₀ d r) :
    RedeliveryKept s₀ s d o := by
  have hsettled : Claims.Settled (counter s₀ d) := path_settled (fun _ _ => Quiet.not_abandons) h₀
  have hpath₁ : Path (step cfg) (Quiet ep) init s₁ := .snoc h₀ hq hs
  have hstart := onItsWay_of_redeliver (path_sound h₀ d) hsettled hno hep hs
  have key : s.db.attemptTaken d (s₀.db.attemptCount d + 1) = true ∨
      OnItsWay s d ep o (s₀.db.attemptCount d) := by
    induction h₁ with
    | refl => exact .inr hstart
    | @snoc t u a ht hqt hst ih =>
        have hpath := hpath₁.trans ht
        rcases ih with htaken | hway
        · exact .inl ((step_monotone (path_wf hpath) (path_inv hpath d) hst).2 _ htaken)
        · exact step_onItsWay (path_sound hpath d) (path_sound (.snoc hpath hqt hst) d) hway hqt hst
  rcases key with htaken | hway
  · exact .inr (.inr ⟨_, htaken, free_of_settled hsettled hno⟩)
  · obtain ⟨row, hrow, hid, -, hst | hjob⟩ := hway.row
    · exact .inl ⟨row, hrow, hid, hst⟩
    · obtain ⟨j, hj⟩ := Option.ne_none_iff_exists'.1 hjob
      exact .inr (.inl ⟨j, Table.find?_eq_some_iff.1 hj⟩)

namespace Sample

/-- Nothing goes wrong, and the endpoint is active. -/
def quiet (s : State) : Action → Bool
  | .throw _ | .crash _ | .discard _ => false
  | _ => (s.db.endpoints.find? endpoint).all fun e => e.status = .active

theorem quiet_spec {s : State} {a : Action} (h : quiet s a = true) : Quiet endpoint s a := by
  cases a with
  | throw r => cases h
  | crash r => cases h
  | discard id => cases h
  | _ =>
      simp only [quiet, Option.all_eq_true, decide_eq_true_eq] at h
      exact ⟨by simp, by simp, by simp, h⟩

/-- The delivery's endpoint is the one that is watched. -/
def forEndpoint (s : State) : Bool :=
  (s.db.deliveries.find? delivery).all fun row => row.endpointId = endpoint

/-- The first run of the job is over. -/
def idle (s : State) : Bool := s.nextRun = 1 && (s.runs 0).isNone

theorem not_holds_of_idle {s : State} (hwf : Wf s) (h : idle s = true) (r : ℕ) :
    ¬ Holds s delivery r := by
  simp only [idle, Bool.and_eq_true, decide_eq_true_eq, Option.isNone_iff_eq_none] at h
  rintro ⟨run, _, _, _, _, hrun, -⟩
  have hlt := hwf.lt_nextRun hrun
  have hr : r = 0 := by omega
  rw [hr, h.2] at hrun
  cases hrun

/-- The delivery succeeds at once. -/
def succeeded : List Action :=
  beforeClaim ++ attempt 0 200 ++ settleSuccess 0 ++ [.run 0 .none, .run 0 .none]

/-- The relay makes a job of the redelivery, and a second worker takes it. -/
def redelivered : List Action :=
  [.tickRead 0 100, .tickAdd 0, .tickMark 0, .take 1 (redeliverJob delivery 1)]

/-- Run 1 finds the attempt claimed and ends; run 0 succeeds. -/
def overtaken : List Action :=
  redelivered ++ toClaim 1 ++ [.run 1 (.digest []), .run 1 .none, .run 1 .none] ++
    (attempt 0 200).tail ++ settleSuccess 0 ++ [.run 0 .none, .run 0 .none]

/-- Nothing is left of the redelivery. -/
def dropped (s : State) : Bool :=
  s.db.outbox.rows.all (fun row => row.status ≠ .pending) && s.queue.rows.isEmpty &&
    s.db.attempts.rows.all fun a => a.attemptNo = 1

end Sample

/-- A redelivery after a success, whose job has been taken by a run. -/
theorem redelivery_kept_after_success : ∃ s₀ s₁ s,
    Path (step Sample.cfg) (Quiet Sample.endpoint) init s₀ ∧
    step Sample.cfg s₀ (.redeliver Sample.tenant Sample.delivery 1) = some s₁ ∧
    Path (step Sample.cfg) (Quiet Sample.endpoint) s₁ s ∧
    (∀ r, ¬ Holds s₀ Sample.delivery r) ∧ RedeliveryKept s₀ s Sample.delivery 1 := by
  obtain ⟨s₀, h₀, hs₀⟩ := Path.exists_of_runChecked (step Sample.cfg)
    (P := Quiet Sample.endpoint) (p := Sample.quiet) (fun _ _ => Sample.quiet_spec) init
    Sample.succeeded (fun s₀ => Sample.idle s₀ && Sample.forEndpoint s₀ &&
      Sample.quiet s₀ (.redeliver Sample.tenant Sample.delivery 1) &&
      (step Sample.cfg s₀ (.redeliver Sample.tenant Sample.delivery 1)).any fun s₁ =>
        (runChecked (step Sample.cfg) Sample.quiet s₁ Sample.redelivered).any fun _ => true)
    (by decide +kernel)
  simp only [Bool.and_eq_true] at hs₀
  obtain ⟨⟨⟨hidle, hfor⟩, hq⟩, hstep⟩ := hs₀
  obtain ⟨s₁, hs₁, hrun⟩ := (Option.any_eq_true _ _).1 hstep
  obtain ⟨s, h₁, -⟩ := Path.exists_of_runChecked (step Sample.cfg)
    (P := Quiet Sample.endpoint) (fun _ _ => Sample.quiet_spec) s₁ _ _ hrun
  have hno := Sample.not_holds_of_idle (path_wf h₀) hidle
  have hep : ∀ x, s₀.db.deliveries.find? Sample.delivery = some x →
      x.endpointId = Sample.endpoint := by
    simpa [Sample.forEndpoint, Option.all_eq_true] using hfor
  exact ⟨s₀, s₁, s, h₀, hs₁, h₁, hno,
    redelivery_kept Sample.cfg s₀ s₁ s Sample.tenant Sample.delivery Sample.endpoint 1 h₀ hep
      (Sample.quiet_spec hq) hs₁ h₁ hno⟩

/-- A redelivery during an attempt: its job meets the claim and is done, the attempt
succeeds, and nothing is made of the redelivery. -/
theorem redelivery_dropped :
    ¬ ∀ (cfg : WorkerConfig) (s₀ s₁ s : State) (tenantId d ep : Uuid) (o : ℕ),
      Path (step cfg) (Quiet ep) init s₀ →
      (∀ x, s₀.db.deliveries.find? d = some x → x.endpointId = ep) →
      Quiet ep s₀ (.redeliver tenantId d o) →
      step cfg s₀ (.redeliver tenantId d o) = some s₁ →
      Path (step cfg) (Quiet ep) s₁ s → RedeliveryKept s₀ s d o := by
  intro hall
  obtain ⟨s₀, h₀, hs₀⟩ := Path.exists_of_runChecked (step Sample.cfg)
    (P := Quiet Sample.endpoint) (p := Sample.quiet) (fun _ _ => Sample.quiet_spec) init
    (Sample.beforeClaim ++ [.run 0 (.digest [])]) (fun s₀ =>
      s₀.db.attemptTaken Sample.delivery 1 && Sample.forEndpoint s₀ &&
      Sample.quiet s₀ (.redeliver Sample.tenant Sample.delivery 1) &&
      (step Sample.cfg s₀ (.redeliver Sample.tenant Sample.delivery 1)).any fun s₁ =>
        (runChecked (step Sample.cfg) Sample.quiet s₁ Sample.overtaken).any Sample.dropped)
    (by decide +kernel)
  simp only [Bool.and_eq_true] at hs₀
  obtain ⟨⟨⟨htaken, hfor⟩, hq⟩, hstep⟩ := hs₀
  obtain ⟨s₁, hs₁, hrun⟩ := (Option.any_eq_true _ _).1 hstep
  obtain ⟨s, h₁, hs⟩ := Path.exists_of_runChecked (step Sample.cfg)
    (P := Quiet Sample.endpoint) (fun _ _ => Sample.quiet_spec) s₁ _ _ hrun
  have hep : ∀ x, s₀.db.deliveries.find? Sample.delivery = some x →
      x.endpointId = Sample.endpoint := by
    simpa [Sample.forEndpoint, Option.all_eq_true] using hfor
  simp only [Sample.dropped, Bool.and_eq_true, List.all_eq_true, decide_eq_true_eq,
    List.isEmpty_iff] at hs
  obtain ⟨⟨hrows, hqueue⟩, hattempts⟩ := hs
  rcases hall Sample.cfg s₀ s₁ s Sample.tenant Sample.delivery Sample.endpoint 1 h₀ hep
    (Sample.quiet_spec hq) hs₁ h₁ with ⟨row, hrow, -, hpending⟩ | ⟨j, hj, -⟩ | ⟨k, hk, hk₀⟩
  · exact hrows row hrow hpending
  · rw [Table.mem_def, hqueue] at hj
    cases hj
  · obtain ⟨a, ha, -, hno⟩ := Database.attemptTaken_iff.1 hk
    rw [← hno, hattempts a ha, htaken] at hk₀
    cases hk₀

end System
end HookRelay
