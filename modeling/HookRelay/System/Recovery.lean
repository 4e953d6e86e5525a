import HookRelay.System.Attempts

/-!
# Is a delivery taken up again after a failure?

A run claims attempt `attemptCount + 1` near its start and advances `attemptCount` with
its last statement.  A run that stops in between leaves the claim behind, and every later
run of the delivery finds the number taken.  As long as no run stops there, the next run
of an open delivery gets its claim.

* `path_settled` — as long as no claim is abandoned, the next number is claimed only while
  a run holds it.
* `NextRunClaims` — what at-least-once asks of a state: the next run of an open delivery,
  with nobody else working on it, claims an attempt and goes on to `circuit.allow`.
* `next_run_claims` — it holds after every run in which no claim was abandoned.
* `next_run_skipped_after_crash` — and fails after a crash between claim and final update.
-/

namespace HookRelay

open Lib

namespace System

variable {cfg : WorkerConfig} {s s' : State} {a : Action} {d : Uuid}

/-- A run in which no claim on delivery `d` is abandoned leaves none behind. -/
theorem path_settled {P : State → Action → Prop} (hP : ∀ t a, P t a → ¬ Abandons t d a)
    (h : Path (step cfg) P init s) : Claims.Settled (counter s d) := by
  refine h.invariant_along (I := fun t => Claims.Settled (counter t d))
    (J := fun t => Wf t ∧ Claims.Inv (counter t d)) (fun t ht => ⟨path_wf ht, path_inv ht d⟩)
    (fun t a u hJ hset hPa hs => ?_) (fun h => by cases h)
  obtain ⟨m, hm, hab⟩ := step_counter hJ.1 hJ.2 hs
  exact hm.settled hJ.2 hset fun r hr => hP t a hPa (hab ⟨r, hr⟩)

/-- While nobody holds a claim on a delivery, its counter stands still and it stays open. -/
theorem step_unheld (hwf : Wf s) (hinv : Claims.Inv (counter s d)) (hno : ∀ r, ¬ Holds s d r)
    (hs : step cfg s a = some s') :
    s'.db.attemptCount d = s.db.attemptCount d ∧ (s.db.Open d → s'.db.Open d) := by
  have hnone : ∀ r k, (counter s d).phase r ≠ .holding k :=
    fun r k hk => hno r (holds_iff.2 ⟨k, hk⟩)
  obtain ⟨m, hm, -⟩ := step_counter hwf hinv hs
  cases hm with
  | stay hc hl _ _ => exact ⟨hc, hl.2⟩
  | look _ _ _ hc hl _ _ => exact ⟨hc, hl.2⟩
  | claim _ _ _ _ hc hl _ _ => exact ⟨hc, hl.2⟩
  | settle r k hk _ _ _ => exact absurd hk (hnone r k)
  | drop _ _ hc hl _ _ => exact ⟨hc, hl.2⟩
  | abandon r k hk _ _ _ _ => exact absurd hk (hnone r k)
  | reopen hc hl _ _ => exact ⟨hc, fun _ => hl⟩

/-- While nobody holds a claim, and none was left behind, the next number is free. -/
theorem free_of_settled (h : Claims.Settled (counter s d)) (hno : ∀ r, ¬ Holds s d r) :
    s.db.attemptTaken d (s.db.attemptCount d + 1) = false := by
  by_contra htaken
  rw [Bool.not_eq_false] at htaken
  obtain ⟨r, k, hk⟩ := h htaken
  exact hno r (holds_iff.2 ⟨k, hk⟩)

/-- The endpoint is `ACTIVE` in the database and as far as the worker's cache knows. -/
def EndpointActive (s : State) (w : ℕ) (endpointId : Uuid) : Prop :=
  (∃ e, s.db.endpoints.find? endpointId = some e ∧ e.status = .active) ∧
    ∀ entry, s.cache w endpointId = some entry → entry.value.status = .active

/-- No run but `r` works on delivery `d`. -/
def Alone (s : State) (d : Uuid) (r : ℕ) : Prop :=
  ∀ r' run', r' ≠ r → s.runs r' = some run' → run'.deliveryId ≠ d

/-- While run `r` is under way it does not throw or die, no other run of the delivery
starts, and the endpoint stays `ACTIVE`; anything else may happen. -/
def Undisturbed (d endpointId : Uuid) (r w : ℕ) (s : State) (a : Action) : Prop :=
  a ≠ .throw r ∧ a ≠ .crash r ∧
    (∀ w' jobId j, a = .take w' jobId → s.queue.find? jobId = some j → j.deliveryId ≠ d) ∧
    EndpointActive s w endpointId

/-- Only run `r` makes steps. -/
def OwnStep (r : ℕ) (_ : State) (a : Action) : Prop := ∃ i, a = .run r i

end System

/-- The phases of `process` before its claim, with the row `x` and the endpoint `e` as they
were read. -/
def Phase.Waiting (d endpointId : Uuid) (n : ℕ) : Phase → Prop
  | .find => True
  | .lookup x => x.id = d ∧ x.endpointId = endpointId ∧ x.attemptCount = n
  | .load x => x.id = d ∧ x.endpointId = endpointId ∧ x.attemptCount = n
  | .store x e => (x.id = d ∧ x.endpointId = endpointId ∧ x.attemptCount = n) ∧ e.status = .active
  | .claim x e => (x.id = d ∧ x.endpointId = endpointId ∧ x.attemptCount = n) ∧ e.status = .active
  | _ => False

/-- How many steps `process` is away from its claim, at most. -/
def Phase.distance : Phase → ℕ
  | .find => 4
  | .lookup _ => 3
  | .load _ => 2
  | .store _ _ => 1
  | _ => 0

/-- The phases after a claim: no result but that of an attempt. -/
def Phase.AfterClaim : Phase → Prop
  | .attempt _ _ _ _ => True
  | .returned res => res = .succeeded ∨ res = .failed ∨ res = .dead
  | .retryRead => True
  | .retryWrite _ => True
  | .finish _ => True
  | _ => False

namespace System

/-- What at-least-once asks of a state: the next run of an open delivery on which nobody
works, started while the endpoint is `ACTIVE` and left undisturbed, is at any time either
still before its claim, and then its own next steps take it through the claim to
`circuit.allow`, or past it; it never returns without an attempt. -/
def NextRunClaims (cfg : WorkerConfig) (s : State) (d : Uuid) : Prop :=
  ∀ row r run, s.db.deliveries.find? d = some row → row.status.isDone = false →
    s.runs r = some run → run.deliveryId = d → run.phase = .find → Alone s d r →
    ∀ t, Path (step cfg) (Undisturbed d row.endpointId r run.worker) s t →
      EndpointActive t run.worker row.endpointId →
      ∀ run', t.runs r = some run' →
        (run'.phase.Waiting d row.endpointId row.attemptCount ∧
          ∃ t' run'' x e c, Path (step cfg) (OwnStep r) t t' ∧ t'.runs r = some run'' ∧
            run''.claimedNo = some (row.attemptCount + 1) ∧
            run''.phase = .attempt x e c .allow) ∨
        (run'.claimedNo = some (row.attemptCount + 1) ∧ run'.phase.AfterClaim)

/-! ## The run under way -/

/-- Where run `r` of delivery `d` stands, and that nobody else works on the delivery. -/
structure UnderWay (s : State) (d endpointId : Uuid) (n r w : ℕ) : Prop where
  started : r < s.nextRun
  alone : Alone s d r
  settled : Claims.Settled (counter s d)
  endpoint : ∃ x, s.db.deliveries.find? d = some x ∧ x.endpointId = endpointId
  stands : ∀ run, s.runs r = some run → run.deliveryId = d ∧ run.worker = w ∧
    ((s.db.Open d ∧ s.db.attemptCount d = n ∧ run.phase.Waiting d endpointId n) ∨
      (run.claimedNo = some (n + 1) ∧ run.phase.AfterClaim))

variable {cfg : WorkerConfig} {s s' : State} {a : Action} {d endpointId : Uuid} {n r w : ℕ}

/-- Nobody joins in. -/
theorem step_alone (h : Alone s d r) (hs : step cfg s a = some s')
    (htake : ∀ w' jobId j, a = .take w' jobId → s.queue.find? jobId = some j → j.deliveryId ≠ d) :
    Alone s' d r := by
  intro r' run' hne hrun'
  have replaced : ∀ k (new : Option Run), s'.runs = Function.update s.runs k new →
      (∀ x, new = some x → k ≠ r → x.deliveryId ≠ d) → run'.deliveryId ≠ d := by
    intro k new hupd hnew
    rw [hupd] at hrun'
    by_cases hk : r' = k
    · subst hk
      rw [Function.update_self] at hrun'
      exact hnew run' hrun' hne
    · rw [Function.update_of_ne hk] at hrun'
      exact h r' run' hne hrun'
  cases step_change hs with
  | outside _ _ hr _ _ _ => exact h r' run' hne (hr ▸ hrun')
  | reserved _ _ _ _ hr _ _ _ _ => exact h r' run' hne (hr ▸ hrun')
  | reopened _ _ _ _ _ _ _ hr _ _ _ => exact h r' run' hne (hr ▸ hrun')
  | started w' jobId j hj _ heq =>
      subst heq
      refine replaced s.nextRun _ rfl fun x hx _ => ?_
      cases hx
      exact htake w' jobId j rfl hj
  | planned k i run next hk hp heq =>
      subst heq
      refine replaced k _ rfl fun x hx hkr => ?_
      cases hx
      rw [hp.deliveryId_eq.1]
      exact h k run hkr hk
  | left k i run _ hgo =>
      obtain ⟨-, queue, rfl⟩ := letGo_eq_some hgo
      exact replaced k none rfl fun x hx => by cases hx
  | threw k run hk _ heq =>
      subst heq
      refine replaced k _ rfl fun x hx hkr => ?_
      cases hx
      exact h k run hkr hk
  | crashed k run _ heq =>
      subst heq
      exact replaced k none rfl fun x hx => by cases hx

theorem afterEndpoint_of_active {x : DeliveryRow} {e : EndpointConfig} (h : e.status = .active) :
    afterEndpoint x e = .claim x e := if_pos h

/-- Before its claim run `r` does not hold one, and neither does anybody else. -/
theorem UnderWay.unheld (h : UnderWay s d endpointId n r w) {run : Run} (hrun : s.runs r = some run)
    (hw : run.phase.Waiting d endpointId n) (r' : ℕ) : ¬ Holds s d r' := by
  rintro ⟨run', row, e, c, st, hrun', hd, hp⟩
  by_cases hrr : r' = r
  · subst hrr
    rw [hrun, Option.some.injEq] at hrun'
    subst hrun'
    rw [hp] at hw
    exact hw
  · exact h.alone r' run' hrr hrun' hd

/-- The next number is free for run `r`. -/
theorem UnderWay.free (h : UnderWay s d endpointId n r w) {run : Run} (hrun : s.runs r = some run)
    (hcount : s.db.attemptCount d = n) (hw : run.phase.Waiting d endpointId n) :
    s.db.attemptTaken d (n + 1) = false := by
  rw [← hcount]
  exact free_of_settled h.settled (h.unheld hrun hw)

/-- The steps of a run before its claim lead to the claim, and the claim succeeds. -/
theorem planned_waiting {run : Run} {next : Next} (hd : run.deliveryId = d)
    (hendpoint : ∃ x, s.db.deliveries.find? d = some x ∧ x.endpointId = endpointId)
    (hact : EndpointActive s run.worker endpointId) (hopen : s.db.Open d)
    (hcount : s.db.attemptCount d = n) (hfree : s.db.attemptTaken d (n + 1) = false)
    (hw : run.phase.Waiting d endpointId n)
    (hp : Planned cfg s.now s.db (s.cache run.worker) run run.phase next) :
    next.run.phase.Waiting d endpointId n ∨
      (next.run.claimedNo = some (n + 1) ∧
        ∃ x e c, next.run.phase = .attempt x e c .allow) := by
  obtain ⟨⟨ep, hep, hepact⟩, hcache⟩ := hact
  generalize hphase : run.phase = p at hp hw
  cases hp with
  | missing hnone =>
      obtain ⟨x, hx, -⟩ := hopen
      rw [hd, hx] at hnone
      exact absurd hnone (by simp)
  | done x hx hdone =>
      obtain ⟨y, hy, hydone⟩ := hopen
      rw [hd, hy, Option.some.injEq] at hx
      rw [← hx, hydone] at hdone
      exact absurd hdone (by simp)
  | found x hx _ =>
      rw [hd] at hx
      obtain ⟨y, hy, hyep⟩ := hendpoint
      rw [hx, Option.some.injEq] at hy
      refine .inl ⟨(Table.find?_eq_some_iff.1 hx).2, hy ▸ hyep, ?_⟩
      rw [← hcount, Database.attemptCount, hx]
      rfl
  | cached x entry hentry =>
      have hstatus : entry.value.status = .active := by
        rw [hw.2.1] at hentry
        exact hcache entry hentry
      left
      simp only [Run.goto, afterEndpoint_of_active hstatus]
      exact ⟨hw, hstatus⟩
  | notCached x => exact .inl hw
  | endpointMissing x hnone =>
      rw [hw.2.1, hep] at hnone
      exact absurd hnone (by simp)
  | loaded x e he =>
      rw [hw.2.1, hep, Option.some.injEq] at he
      exact .inl ⟨hw, he ▸ hepact⟩
  | stored x e =>
      left
      simp only [afterEndpoint_of_active hw.2]
      exact hw
  | duplicate x e htaken =>
      rw [hw.1.1, hw.1.2.2, hfree] at htaken
      exact absurd htaken (by simp)
  | claimed x e text _ =>
      refine .inr ⟨?_, x, e, _, rfl⟩
      simp only [hw.1.2.2]
  | _ => exact absurd hw id

theorem afterClaim_failureResult (dead : Bool) :
    (Phase.returned (failureResult dead)).AfterClaim := by
  cases dead
  · exact .inr (.inl rfl)
  · exact .inr (.inr rfl)

/-- After its claim the run keeps it, and returns what came of the attempt. -/
theorem planned_afterClaim {run : Run} {next : Next}
    (hw : run.claimedNo = some (n + 1) ∧ run.phase.AfterClaim)
    (hp : Planned cfg s.now s.db (s.cache run.worker) run run.phase next) :
    next.run.claimedNo = some (n + 1) ∧ next.run.phase.AfterClaim := by
  obtain ⟨hno, hw⟩ := hw
  generalize hphase : run.phase = p at hp hw
  cases hp with
  | attempt x e c stage _ ha =>
      cases ha with
      | succeeded => exact ⟨hno, .inl rfl⟩
      | failed => exact ⟨hno, afterClaim_failureResult _⟩
      | failedOpen => exact ⟨hno, afterClaim_failureResult _⟩
      | _ => exact ⟨hno, trivial⟩
  | retries _ => exact ⟨hno, trivial⟩
  | ends res _ => exact ⟨hno, trivial⟩
  | retryCounted m => exact ⟨hno, trivial⟩
  | retryScheduled m retryAt => exact ⟨hno, trivial⟩
  | _ => exact absurd hw id

/-- **The step lemma.**  Whatever happens while run `r` is left undisturbed, it stays on
its way to the claim or past it. -/
theorem step_underWay (hwf : Wf s) (hinv : Claims.Inv (counter s d))
    (h : UnderWay s d endpointId n r w) (hu : Undisturbed d endpointId r w s a)
    (hs : step cfg s a = some s') : UnderWay s' d endpointId n r w := by
  obtain ⟨hthrow, hcrash, htake, hact⟩ := hu
  have hsettled : Claims.Settled (counter s' d) := by
    obtain ⟨m, hm, hab⟩ := step_counter hwf hinv hs
    refine hm.settled hinv h.settled fun r' hr' => ?_
    -- a claim on the delivery could only be abandoned by run `r`
    have own : ∀ k, (∃ j, stance d (s.runs k) = .holding j) → k = r := by
      rintro k ⟨j, hj⟩
      obtain ⟨run', _, _, _, _, hrun', hd, _⟩ := holds_iff.2 ⟨j, hj⟩
      by_contra hne
      exact h.alone k run' hne hrun' hd
    have := hab ⟨r', hr'⟩
    cases a with
    | throw k => exact hthrow (by rw [own k this])
    | crash k => exact hcrash (by rw [own k this])
    | _ => exact this
  have hendpoint : ∃ x, s'.db.deliveries.find? d = some x ∧ x.endpointId = endpointId := by
    obtain ⟨x, hx, hxe⟩ := h.endpoint
    obtain ⟨x', hx', -, hxe'⟩ := step_fixed hs hx
    exact ⟨x', hx', hxe'.trans hxe⟩
  refine ⟨h.started.trans_le (step_nextRun hs), step_alone h.alone hs htake, hsettled, hendpoint, ?_⟩
  intro run' hrun'
  rcases runs_cases h.started hs hrun' with hrun | ⟨i, run, next, rfl, hrun, hp, rfl, rfl⟩ |
    ⟨run, rfl, -⟩
  · -- the run has not moved
    obtain ⟨hd, hworker, ⟨hopen, hcount, hw⟩ | hclaimed⟩ := h.stands run' hrun
    · obtain ⟨hc, ho⟩ := step_unheld hwf hinv (h.unheld hrun hw) hs
      exact ⟨hd, hworker, .inl ⟨ho hopen, hc.trans hcount, hw⟩⟩
    · exact ⟨hd, hworker, .inr hclaimed⟩
  · obtain ⟨hd, hworker, hstands⟩ := h.stands run hrun
    obtain ⟨hid, -, hwk⟩ := hp.deliveryId_eq
    refine ⟨hid.trans hd, hwk.trans hworker, ?_⟩
    rcases hstands with ⟨hopen, hcount, hw⟩ | hclaimed
    · rcases planned_waiting hd h.endpoint (hworker ▸ hact) hopen hcount (h.free hrun hcount hw) hw
        hp with hw' | ⟨hno, x, e, c, hp'⟩
      · obtain ⟨hc, ho⟩ := step_unheld hwf hinv (h.unheld hrun hw) hs
        exact .inl ⟨ho hopen, hc.trans hcount, hw'⟩
      · exact .inr ⟨hno, by rw [hp']; exact trivial⟩
    · exact .inr (planned_afterClaim hclaimed hp)
  · exact absurd rfl hthrow

/-! ## The run gets there -/

theorem step_of_plan {run : Run} {i : Input} {next : Next} (hrun : s.runs r = some run)
    (hgo : letGo s r run = none) (hp : plan cfg s.now s.db (s.cache run.worker) run i = some next) :
    step cfg s (.run r i) = some (applyNext s r run next) := by
  simp only [step, stepRun, hrun, hgo, hp, Option.map_some]

theorem letGo_of_waiting {run : Run} (hw : run.phase.Waiting d endpointId n) :
    letGo s r run = none := by
  unfold letGo
  split <;> first | rfl | (rename_i hp; rw [hp] at hw; exact absurd hw id)

/-- Before its claim a run always has a next step: it makes the claim or comes nearer to
it, writing nothing and leaving the endpoint active. -/
theorem plan_of_waiting (cfg : WorkerConfig) {run : Run} (h : UnderWay s d endpointId n r w)
    (hact : EndpointActive s w endpointId) (hrun : s.runs r = some run) (hopen : s.db.Open d)
    (hcount : s.db.attemptCount d = n) (hw : run.phase.Waiting d endpointId n) :
    ∃ i next, plan cfg s.now s.db (s.cache run.worker) run i = some next ∧
      (next.run.phase.Waiting d endpointId n → next.write = .skip ∧
        next.run.phase.distance < run.phase.distance ∧
        ∀ entry, next.cache.exec (s.cache w) endpointId = some entry →
          entry.value.status = .active) := by
  obtain ⟨hd, hworker, -⟩ := h.stands run hrun
  have hfree := h.free hrun hcount hw
  obtain ⟨⟨ep, hep, hepact⟩, hcache⟩ := hact
  cases hphase : run.phase with
  | find =>
      obtain ⟨x, hx, hxdone⟩ := hopen
      refine ⟨.none, run.goto (.lookup x), ?_, fun _ => ⟨rfl, ?_, hcache⟩⟩
      · simp [plan, hphase, hd, hx, hxdone]
      · simp [Run.goto, Phase.distance]
  | lookup x =>
      rw [hphase] at hw
      cases hentry : s.cache run.worker x.endpointId with
      | none =>
          refine ⟨.none, run.goto (.load x), ?_, fun _ => ⟨rfl, ?_, hcache⟩⟩
          · simp [plan, hphase, hentry]
          · simp [Run.goto, Phase.distance]
      | some entry =>
          by_cases hlive : entry.expiresAt > jsDate s.now
          · have hstatus : entry.value.status = .active := by
              rw [hworker, hw.2.1] at hentry
              exact hcache entry hentry
            refine ⟨.none, run.goto (.claim x entry.value), ?_, fun _ => ⟨rfl, ?_, hcache⟩⟩
            · simp [plan, hphase, hentry, hlive, afterEndpoint_of_active hstatus]
            · simp [Run.goto, Phase.distance]
          · refine ⟨.none, run.goto (.load x), ?_, fun _ => ⟨rfl, ?_, hcache⟩⟩
            · simp only [plan, hphase, hentry, if_neg hlive]
            · simp [Run.goto, Phase.distance]
  | load x =>
      rw [hphase] at hw
      have hfind : s.db.endpoints.find? x.endpointId = some ep := by rw [hw.2.1, hep]
      refine ⟨.none, run.goto (.store x ⟨ep.url, cfg.decrypt ep.secretEnc, ep.status⟩), ?_,
        fun _ => ⟨rfl, ?_, hcache⟩⟩
      · simp [plan, hphase, hfind]
      · simp [Run.goto, Phase.distance]
  | store x e =>
      rw [hphase] at hw
      refine ⟨.none, ⟨{ run with phase := afterEndpoint x e }, .skip,
        .set x.endpointId ⟨e, jsDate s.now + cacheTtlMs⟩⟩, by simp only [plan, hphase],
        fun _ => ⟨rfl, ?_, fun entry hentry => ?_⟩⟩
      · simp [afterEndpoint_of_active hw.2, Phase.distance]
      · simp only [CacheWrite.exec, hw.1.2.1, Function.update_self, Option.some.injEq] at hentry
        rw [← hentry]
        exact hw.2
  | claim x e =>
      rw [hphase] at hw
      have hfree' : s.db.attemptTaken x.id (x.attemptCount + 1) = false := by
        rw [hw.1.1, hw.1.2.2, hfree]
      exact ⟨.digest [], _, by simp [plan, hphase, hfree']; rfl, fun h => absurd h id⟩
  | _ => rw [hphase] at hw; exact absurd hw id

/-- The own steps of a run that waits take it through its claim. -/
theorem own_path (k : ℕ) : ∀ {s : State} {run : Run}, Wf s → Claims.Inv (counter s d) →
    UnderWay s d endpointId n r w → EndpointActive s w endpointId → s.runs r = some run →
    s.db.Open d → s.db.attemptCount d = n → run.phase.Waiting d endpointId n →
    run.phase.distance < k →
    ∃ t' run'' x e c, Path (step cfg) (OwnStep r) s t' ∧ t'.runs r = some run'' ∧
      run''.claimedNo = some (n + 1) ∧ run''.phase = .attempt x e c .allow := by
  induction k with
  | zero =>
      intro s run _ _ _ _ _ _ _ _ hk
      omega
  | succ k ih =>
      intro s run hwf hinv h hact hrun hopen hcount hw hk
      obtain ⟨i, next, hplan, hnext⟩ := plan_of_waiting cfg h hact hrun hopen hcount hw
      have hs := step_of_plan hrun (letGo_of_waiting hw) hplan
      have first : Path (step cfg) (OwnStep r) s (applyNext s r run next) := .single ⟨i, rfl⟩ hs
      have hrun' : (applyNext s r run next).runs r = some next.run := by simp [applyNext]
      obtain ⟨hd, hworker, -⟩ := h.stands run hrun
      rcases planned_waiting hd h.endpoint (hworker ▸ hact) hopen hcount (h.free hrun hcount hw) hw
        (plan_cases hplan) with hw' | ⟨hno, x, e, c, hp⟩
      · -- one step nearer: nobody else moved, so all assumptions still hold
        obtain ⟨hskip, hnear, hcache⟩ := hnext hw'
        obtain ⟨hc, ho⟩ := step_unheld hwf hinv (h.unheld hrun hw) hs
        have hact' : EndpointActive (applyNext s r run next) w endpointId := by
          refine ⟨?_, ?_⟩
          · simp only [applyNext, hskip]
            exact hact.1
          · simp only [applyNext, hworker, Function.update_self]
            exact hcache
        have hu : Undisturbed d endpointId r w s (.run r i) :=
          ⟨by simp, by simp, (fun _ _ _ h => by cases h), hact⟩
        obtain ⟨m, hm, -⟩ := step_counter hwf hinv hs
        obtain ⟨t', run'', x, e, c, hpath, hend⟩ := ih (step_wf hwf hs) (hm.inv hinv)
          (step_underWay hwf hinv h hu hs) hact' hrun' (ho hopen) (hc.trans hcount) hw' (by omega)
        exact ⟨t', run'', x, e, c, first.trans hpath, hend⟩
      · exact ⟨_, next.run, x, e, c, first, hrun', hno, hp⟩

/-! ## The result -/

/-- **The next run claims.**  In every run of the system in which no run of the delivery
threw or died between its claim and its final update, in every state reached, the next
run of the delivery gets its claim. -/
theorem next_run_claims (cfg : WorkerConfig) (s : State) (d : Uuid)
    (h : Path (step cfg) (fun t a => ¬ Abandons t d a) init s) : NextRunClaims cfg s d := by
  intro row r run hrow hdone hrun hd hphase halone t hpath hact run' hrun'
  have hreach := h.reachable
  have hcount : s.db.attemptCount d = row.attemptCount := by
    simp [Database.attemptCount, hrow]
  have start : UnderWay s d row.endpointId row.attemptCount r run.worker := by
    refine ⟨(path_wf h).lt_nextRun hrun, halone, path_settled (fun _ _ => id) h, ⟨row, hrow, rfl⟩, ?_⟩
    intro x hx
    rw [hrun, Option.some.injEq] at hx
    subst hx
    exact ⟨hd, rfl, .inl ⟨⟨row, hrow, hdone⟩, hcount, by rw [hphase]; exact trivial⟩⟩
  have hway : UnderWay t d row.endpointId row.attemptCount r run.worker :=
    hpath.invariant_along (I := fun u => UnderWay u d row.endpointId row.attemptCount r run.worker)
      (J := fun u => Wf u ∧ Claims.Inv (counter u d))
      (fun u hu => ⟨path_wf (hreach.trans hu.reachable), path_inv (hreach.trans hu.reachable) d⟩)
      (fun _ _ _ hJ hI hu hs => step_underWay hJ.1 hJ.2 hI hu hs) start
  have hreach' := hreach.trans hpath.reachable
  obtain ⟨-, -, ⟨hopen, hc, hw⟩ | hclaimed⟩ := hway.stands run' hrun'
  · exact .inl ⟨hw, own_path _ (path_wf hreach') (path_inv hreach' d) hway hact hrun' hopen hc hw
      (Nat.lt_succ_self _)⟩
  · exact .inr hclaimed

/-! ## A run that is cut off, and one that is not -/

namespace Sample

/-- Run 0 claims an attempt and dies; the lock of its job expires. -/
def cutOff : List Action := beforeClaim ++ [.run 0 (.digest []), .crash 0, .unlock job]

/-- The job is handed out again, and run 1 comes to `process`. -/
def secondRun : List Action := [.take 0 job, .run 1 .none, .run 1 (.answer true)]

/-- The endpoint is active, and so is what worker 0 knows of it. -/
def active (s : State) : Bool :=
  (s.db.endpoints.find? endpoint).any (fun e => e.status = .active) &&
    (s.cache 0 endpoint).all (fun entry => entry.value.status = .active)

theorem active_iff {s : State} : active s = true ↔ EndpointActive s 0 endpoint := by
  simp only [active, EndpointActive, Bool.and_eq_true, Option.any_eq_true, Option.all_eq_true,
    decide_eq_true_eq]

/-- Run 1 is the only run; it is at the start of `process`, and its delivery is open with
`n` attempts. -/
def starts (s : State) (n : ℕ) : Bool :=
  s.nextRun = 2 && (s.runs 0).isNone &&
    (s.runs 1).any (fun run => match run.phase with
      | .find => run.deliveryId = delivery && run.worker = 0
      | _ => false) &&
    (s.db.deliveries.find? delivery).any (fun row =>
      row.endpointId = endpoint && !row.status.isDone && row.attemptCount = n)

theorem starts_spec {s : State} {n : ℕ} (hwf : Wf s) (h : starts s n = true) :
    ∃ row run, s.db.deliveries.find? delivery = some row ∧ row.status.isDone = false ∧
      row.endpointId = endpoint ∧ row.attemptCount = n ∧ s.runs 1 = some run ∧
      run.deliveryId = delivery ∧ run.worker = 0 ∧ run.phase = .find ∧ Alone s delivery 1 := by
  simp only [starts, Bool.and_eq_true, decide_eq_true_eq, Option.isNone_iff_eq_none,
    Option.any_eq_true, Bool.not_eq_true'] at h
  obtain ⟨⟨⟨hn, h0⟩, run, hrun, hfind⟩, row, hrow, ⟨hep, hdone⟩, hcount⟩ := h
  split at hfind
  · rename_i hp
    simp only [Bool.and_eq_true, decide_eq_true_eq] at hfind
    refine ⟨row, run, hrow, hdone, hep, hcount, hrun, hfind.1, hfind.2, hp, ?_⟩
    intro r' run' hne hrun'
    have hlt := hwf.lt_nextRun hrun'
    have hr' : r' = 0 := by omega
    rw [hr', h0] at hrun'
    cases hrun'
  · cases hfind

/-- Nothing but steps of run 1, while the endpoint is active. -/
def ownSteps (s : State) : Action → Bool
  | .run 1 _ => active s
  | _ => false

theorem undisturbed_of_ownSteps {s : State} {a : Action} (h : ownSteps s a = true) :
    Undisturbed delivery endpoint 1 0 s a := by
  unfold ownSteps at h
  split at h
  · exact ⟨by simp, by simp, (fun _ _ _ h => by cases h), active_iff.1 h⟩
  · cases h

theorem not_abandons_of_noFault {s : State} {d : Uuid} {a : Action} (h : noFault a = true) :
    ¬ Abandons s d a := by
  cases a <;> first | exact id | exact absurd h (by simp [noFault])

/-- Run 1 has returned `SKIPPED_DUPLICATE_CLAIM`. -/
def skipped (s : State) : Bool :=
  (s.runs 1).any fun run => match run.phase with
    | .returned .skippedDuplicateClaim => true
    | _ => false

end Sample

/-- After a failed attempt the second run of the job claims attempt 2. -/
theorem next_run_claims_after_failure : ∃ s t run x e c,
    Path (step Sample.cfg) (fun t a => ¬ Abandons t Sample.delivery a) init s ∧
    Path (step Sample.cfg) (OwnStep 1) s t ∧ t.runs 1 = some run ∧ run.claimedNo = some 2 ∧
    run.phase = .attempt x e c .allow := by
  obtain ⟨s, hpath, hs⟩ := Path.exists_of_runChecked (step Sample.cfg)
    (P := fun t a => ¬ Abandons t Sample.delivery a) (p := fun _ => Sample.noFault)
    (fun _ _ => Sample.not_abandons_of_noFault) init (Sample.failedOnce ++ Sample.secondRun)
    (fun s => Sample.starts s 1 && Sample.active s) (by decide +kernel)
  rw [Bool.and_eq_true, Sample.active_iff] at hs
  obtain ⟨row, run, hrow, hdone, hep, hcount, hrun, hd, hw, hphase, halone⟩ :=
    Sample.starts_spec (path_wf hpath) hs.1
  rcases next_run_claims Sample.cfg s Sample.delivery hpath row 1 run hrow hdone hrun hd hphase
    halone s .refl (by rw [hw, hep]; exact hs.2) run hrun with ⟨-, t, run', x, e, c, h⟩ | ⟨-, h⟩
  · rw [hcount] at h
    exact ⟨s, t, run', x, e, c, hpath, h⟩
  · rw [hphase] at h
    exact absurd h id

/-- After a run that was cut off behind its claim, the next run of the delivery returns
`SKIPPED_DUPLICATE_CLAIM`. -/
theorem next_run_skipped_after_crash :
    ¬ ∀ (cfg : WorkerConfig) (s : State) (d : Uuid), Reach cfg s → NextRunClaims cfg s d := by
  intro hall
  obtain ⟨s, hreach, hs⟩ := Path.exists_of_runChecked (step Sample.cfg) (P := anyAction)
    (p := fun _ _ => true) (fun _ _ _ => trivial) init (Sample.cutOff ++ Sample.secondRun)
    (fun s => Sample.starts s 0 &&
      (runChecked (step Sample.cfg) Sample.ownSteps s
        [.run 1 .none, .run 1 .none, .run 1 (.digest [])]).any
        fun t => Sample.skipped t && Sample.active t) (by decide +kernel)
  rw [Bool.and_eq_true] at hs
  obtain ⟨row, run, hrow, hdone, hep, -, hrun, hd, hw, hphase, halone⟩ :=
    Sample.starts_spec (path_wf hreach) hs.1
  obtain ⟨t, hpath, ht⟩ := Path.exists_of_runChecked (step Sample.cfg)
    (fun _ _ => Sample.undisturbed_of_ownSteps) s _ _ hs.2
  simp only [Bool.and_eq_true, Sample.skipped, Option.any_eq_true, Sample.active_iff] at ht
  obtain ⟨⟨run', hrun', hskip⟩, hact⟩ := ht
  have hout := hall Sample.cfg s Sample.delivery hreach row 1 run hrow hdone hrun hd hphase halone t
    (by rw [hep, hw]; exact hpath) (by rw [hep, hw]; exact hact) run' hrun'
  split at hskip
  · rename_i hp
    rw [hp] at hout
    rcases hout with ⟨hwait, -⟩ | ⟨-, h | h | h⟩
    · exact hwait
    all_goals cases h
  · cases hskip

end System
end HookRelay
