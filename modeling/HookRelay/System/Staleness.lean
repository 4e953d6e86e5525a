import HookRelay.System.Origins
import HookRelay.System.Purging

/-!
# How long an old configuration is used

A worker keeps an endpoint's URL, secret and status for `TTL_MS`, and a run keeps what it has
taken from there until it sends.  The row may be read some time before the entry is set, so an
entry can be older than its own expiry says.

* `config_origin` — where the configuration comes from that a run carries after a step.
* `Outdated` — the copies of a configuration that the endpoint has no more.
* `step_outdated` — no step makes a new one.
* `old_configuration_runs_out` — so after `TTL_MS` and twice the time a run may take, no request
  is made from one; `disabled_endpoint_left_alone` is the case of an endpoint that is not active.
-/

namespace HookRelay

open Lib

/-- An entry of the cache was there before, or is what a run has read, and expires `TTL_MS`
later. -/
theorem Planned.cache_expiry {cfg : WorkerConfig} {now : Micros} {db : Database}
    {cache : EndpointCache} {run : Run} {p : Phase} {next : Next} {k : Uuid} {entry : CacheEntry}
    (h : Planned cfg now db cache run p next) (hc : next.cache.exec cache k = some entry) :
    cache k = some entry ∨ ∃ x, p = .store x entry.value ∧ x.endpointId = k ∧
      entry.expiresAt = jsDate now + cacheTtlMs := by
  cases h with
  | stored x e =>
      by_cases hk : k = x.endpointId
      · subst hk
        simp only [CacheWrite.exec, Function.update_self, Option.some.injEq] at hc
        subst hc
        exact .inr ⟨x, rfl, rfl, rfl⟩
      · simp only [CacheWrite.exec, Function.update_of_ne hk] at hc
        exact .inl hc
  | attempt x e claimed stage _ ha =>
      cases ha with
      | endpointCounted disable =>
          cases disable with
          | false => exact .inl hc
          | true =>
              by_cases hk : k = x.endpointId
              · subst hk
                simp [CacheWrite.exec] at hc
              · refine .inl ?_
                simpa [CacheWrite.exec, Function.update_of_ne hk] using hc
      | _ => exact .inl hc
  | _ => exact .inl hc

/-- `endpointCache.get` takes an entry from the map only before it expires. -/
theorem plan_lookup {cfg : WorkerConfig} {now : Micros} {db : Database} {cache : EndpointCache}
    {run : Run} {i : Input} {next : Next} {d x : DeliveryRow} {e : EndpointConfig}
    (h : plan cfg now db cache run i = some next) (hp : run.phase = .lookup d)
    (hc : next.run.phase.config? = some (x, e)) : x = d ∧ ∃ entry,
      cache d.endpointId = some entry ∧ jsDate now < entry.expiresAt ∧ e = entry.value := by
  cases i with
  | none =>
      simp only [plan, hp] at h
      split at h
      · rename_i entry hentry
        split_ifs at h with hexpires
        · cases h
          obtain ⟨hd, he⟩ := config?_afterEndpoint hc
          exact ⟨hd.symm, entry, hentry, hexpires, he.symm⟩
        · cases h
          cases hc
      · cases h
        cases hc
  | _ => simp [plan, hp] at h

theorem store_ne_afterEndpoint {d x : DeliveryRow} {c e : EndpointConfig} :
    afterEndpoint d c ≠ .store x e := by
  unfold afterEndpoint
  split_ifs <;> simp

theorem jsDate_mul_le (now : Micros) : jsDate now * 1000 ≤ now := Nat.div_mul_le_self now 1000

theorem lt_of_jsDate_lt {now : Micros} {t : ℕ} (h : jsDate now < t) : now < t * 1000 :=
  (Nat.div_lt_iff_lt_mul (by norm_num)).1 h

namespace System
namespace Staleness

variable {cfg : WorkerConfig} {s s' : State} {a : Action}

/-- The step of a run that looks into its worker's cache. -/
theorem step_lookup {r : ℕ} {i : Input} {run : Run} {d : DeliveryRow}
    (hs : step cfg s (.run r i) = some s') (hrun : s.runs r = some run)
    (hphase : run.phase = .lookup d) : ∃ next,
      plan cfg s.now s.db (s.cache run.worker) run i = some next ∧ s'.runs r = some next.run := by
  simp only [step, stepRun, hrun, letGo, hphase, Option.map_eq_some_iff] at hs
  obtain ⟨next, hplan, rfl⟩ := hs
  exact ⟨next, hplan, by simp [applyNext]⟩

/-- Where the configuration comes from that a run carries after a step: it carried it before, or
takes it from its worker's cache before it expires, or has just read it. -/
theorem config_origin {r : ℕ} {run : Run} {x : DeliveryRow} {e : EndpointConfig}
    (hs : step cfg s a = some s') (hrun : s'.runs r = some run)
    (hc : run.phase.config? = some (x, e)) :
    (∃ before, s.runs r = some before ∧ before.phase.config? = some (x, e) ∧
      (run.phase = .store x e → before.phase = .store x e)) ∨
    (∃ before entry, s.runs r = some before ∧
      s.cache before.worker x.endpointId = some entry ∧ jsDate s.now < entry.expiresAt ∧
      e = entry.value ∧ run.phase ≠ .store x e) ∨
    ∃ row, s.db.endpoints.find? x.endpointId = some row ∧ e = configOf cfg row := by
  cases run_origin hs hrun with
  | old _ hold => exact .inl ⟨run, hold, hc, id⟩
  | bare _ hbare => rcases hbare with ⟨-, hp⟩ | hp <;> rw [hp] at hc <;> cases hc
  | stepped i before next ha hbefore hp hs' hnext =>
      subst hnext
      generalize hphase : before.phase = p at hp
      have carried : p.config? = some (x, e) → next.run.phase ≠ .store x e →
          ∃ before, s.runs r = some before ∧ before.phase.config? = some (x, e) ∧
            (next.run.phase = .store x e → before.phase = .store x e) :=
        fun hconfig hne => ⟨before, hbefore, hphase ▸ hconfig, fun hst => absurd hst hne⟩
      cases hp with
      | loaded d row hrow =>
          cases hc
          exact .inr (.inr ⟨row, hrow, rfl⟩)
      | cached d entry _ =>
          obtain ⟨next', hplan, hrun'⟩ := step_lookup (ha ▸ hs) hbefore hphase
          rw [hrun, Option.some.injEq] at hrun'
          obtain ⟨rfl, entry', hentry, hexpires, hvalue⟩ := plan_lookup hplan hphase (hrun' ▸ hc)
          exact .inr (.inl ⟨before, entry', hbefore, hentry, hexpires, hvalue,
            store_ne_afterEndpoint⟩)
      | stored d c =>
          obtain ⟨rfl, rfl⟩ := config?_afterEndpoint hc
          exact .inl (carried rfl store_ne_afterEndpoint)
      | claimed d c text _ =>
          cases hc
          exact .inl (carried rfl (by simp))
      | attempt d c claimed stage _ hatt =>
          cases hatt <;> first | exact .inl (carried hc (by simp [Run.goto, Run.writing])) | cases hc
      | _ => cases hc

/-- Where an entry of a cache comes from that is there after a step. -/
theorem entry_origin {w : ℕ} {k : Uuid} {entry : CacheEntry} (hs : step cfg s a = some s')
    (hentry : s'.cache w k = some entry) :
    s.cache w k = some entry ∨ ∃ r run x, s.runs r = some run ∧ run.phase = .store x entry.value ∧
      x.endpointId = k ∧ s'.now = s.now ∧ entry.expiresAt = jsDate s.now + cacheTtlMs := by
  cases step_change hs with
  | outside _ _ _ _ _ hc => exact .inl (hc ▸ hentry)
  | reserved _ _ _ _ _ _ _ hc _ => exact .inl (hc ▸ hentry)
  | reopened _ _ _ _ _ _ _ _ _ _ hc => exact .inl (hc ▸ hentry)
  | started _ _ _ _ _ heq => subst heq; exact .inl hentry
  | planned r i run next hrun hp heq =>
      subst heq
      simp only [applyNext] at hentry
      by_cases hw : w = run.worker
      · subst hw
        rw [Function.update_self] at hentry
        rcases hp.cache_expiry hentry with hold | ⟨x, hphase, hx, hexpires⟩
        · exact .inl hold
        · exact .inr ⟨r, run, x, hrun, hphase, hx, rfl, hexpires⟩
      · rw [Function.update_of_ne hw] at hentry
        exact .inl hentry
  | left r i run _ hgo =>
      obtain ⟨-, queue, rfl⟩ := letGo_eq_some hgo
      exact .inl hentry
  | threw _ _ _ _ heq => subst heq; exact .inl hentry
  | crashed _ _ _ heq => subst heq; exact .inl hentry

/-- Time does not go back. -/
theorem now_le (hs : step cfg s a = some s') : s.now ≤ s'.now := by
  cases stepped_of_step hs with
  | clock us => exact Nat.le_add_right _ _
  | left r i run _ _ hgo =>
      obtain ⟨-, queue, rfl⟩ := letGo_eq_some hgo
      exact le_refl _
  | tickAdd k m ms published =>
      obtain ⟨queue, accepted, heq⟩ := addJobs_frame m.id (jobsOf cfg.maxAttempts m) s
      rw [heq]
  | tickFail k mask m ms published =>
      obtain ⟨queue, accepted, heq⟩ :=
        addJobs_frame m.id (addedBeforeFailure mask (jobsOf cfg.maxAttempts m)) s
      rw [heq]
  | _ => exact le_refl _

/-- No entry expires later than `TTL_MS` from now. -/
def ExpireInTime (s : State) : Prop :=
  ∀ w k entry, s.cache w k = some entry → entry.expiresAt ≤ jsDate s.now + cacheTtlMs

theorem step_expireInTime (h : ExpireInTime s) (hs : step cfg s a = some s') : ExpireInTime s' := by
  intro w k entry hentry
  have hnow : jsDate s.now ≤ jsDate s'.now := Nat.div_le_div_right (now_le hs)
  rcases entry_origin hs hentry with hold | ⟨r, run, x, -, -, -, -, hexpires⟩
  · exact (h w k entry hold).trans (Nat.add_le_add_right hnow _)
  · rw [hexpires]
    exact Nat.add_le_add_right hnow _

/-- The attempt of a run was begun with an active endpoint. -/
def OnlyActive (s : State) : Prop :=
  ∀ r run x e, s.runs r = some run → run.phase.config? = some (x, e) →
    run.phase = .store x e ∨ e.status = .active

theorem step_onlyActive (h : OnlyActive s) (hs : step cfg s a = some s') : OnlyActive s' := by
  intro r run x e hrun hc
  cases run_origin hs hrun with
  | old _ hold => exact h r run x e hold hc
  | bare _ hbare => rcases hbare with ⟨-, hp⟩ | hp <;> rw [hp] at hc <;> cases hc
  | stepped i before next _ hbefore hp _ hnext =>
      subst hnext
      have looked : ∀ {d : DeliveryRow} {c : EndpointConfig},
          (afterEndpoint d c).config? = some (x, e) → e.status = .active := by
        intro d c hafter
        unfold afterEndpoint at hafter
        split_ifs at hafter with hactive
        · cases hafter
          exact hactive
        · cases hafter
      generalize hphase : before.phase = p at hp
      have known : p.config? = some (x, e) → p ≠ .store x e → e.status = .active := by
        intro hconfig hne
        exact (h r before x e hbefore (hphase ▸ hconfig)).resolve_left (hphase ▸ hne)
      cases hp with
      | loaded d row hrow => cases hc; exact .inl rfl
      | cached d entry _ => exact .inr (looked hc)
      | stored d c => exact .inr (looked hc)
      | claimed d c text _ => cases hc; exact .inr (known rfl (by simp))
      | attempt d c claimed stage _ hatt =>
          cases hatt <;> first | exact .inr (known hc (by simp)) | cases hc
      | _ => cases hc

/-! ## Copies of what the endpoint has no more -/

/-- The endpoint has a configuration of this kind. -/
def Current (cfg : WorkerConfig) (P : EndpointConfig → Prop) (k : Uuid) (db : Database) : Prop :=
  ∃ row, db.endpoints.find? k = some row ∧ P (configOf cfg row)

/-- The copies of such a configuration are old, if the endpoint has had none since `T`: those that
are about to be stored were read before, and the others come from entries that expire in time. -/
structure Outdated (D T : Micros) (k : Uuid) (P : EndpointConfig → Prop)
    (s : Purging.State) : Prop where
  cache : ∀ w entry, s.sys.cache w k = some entry → P entry.value →
    entry.expiresAt * 1000 ≤ T + cacheTtlMs * 1000 + D
  stored : ∀ r run x e, s.sys.runs r = some run → run.phase = .store x e → x.endpointId = k →
    P e → s.began r ≤ T
  run : ∀ r run x e, s.sys.runs r = some run → run.phase.config? = some (x, e) →
    x.endpointId = k → P e → s.began r ≤ T + cacheTtlMs * 1000 + D

variable {D T : Micros} {k : Uuid} {P : EndpointConfig → Prop} {u v w : Purging.State}

/-- So far nothing is known to be outdated. -/
theorem outdated_now (hsound : Purging.Sound D u) (hexpire : ExpireInTime u.sys) :
    Outdated D u.sys.now k P u where
  cache x entry hentry _ := by
    have hle := hexpire x k entry hentry
    have hdate := jsDate_mul_le u.sys.now
    calc entry.expiresAt * 1000 ≤ (jsDate u.sys.now + cacheTtlMs) * 1000 :=
          Nat.mul_le_mul_right _ hle
      _ = jsDate u.sys.now * 1000 + cacheTtlMs * 1000 := by rw [Nat.add_mul]
      _ ≤ u.sys.now + cacheTtlMs * 1000 := Nat.add_le_add_right hdate _
      _ ≤ u.sys.now + cacheTtlMs * 1000 + D := Nat.le_add_right _ _
  stored r run x e hrun _ _ _ := (hsound.timely r run hrun).1
  run r run x e hrun _ _ _ := by
    rw [Nat.add_assoc]
    exact (hsound.timely r run hrun).1.trans (Nat.le_add_right _ _)

theorem began_kept (hwf : Wf u.sys) {r : ℕ} {run : Run} (hrun : u.sys.runs r = some run)
    (a : Action) : Purging.beganAfter u a r = u.began r := by
  cases a with
  | take worker jobId => exact Function.update_of_ne (hwf.lt_nextRun hrun).ne _ _
  | _ => rfl

/-- **No step makes a new copy** of what the endpoint does not have. -/
theorem step_outdated {b : Purging.Action} (hsound : Purging.Sound D u)
    (h : Outdated D T k P u) (hcur : ¬ Current cfg P k u.sys.db)
    (hs : Purging.step cfg u b = some v) : Outdated D T k P v := by
  cases b with
  | purge days =>
      cases hs
      exact ⟨h.cache, h.stored, h.run⟩
  | sys a =>
      simp only [Purging.step] at hs
      split_ifs at hs
      obtain ⟨sys, hsys, rfl⟩ := Option.map_eq_some_iff.1 hs
      have gone : ∀ {x : DeliveryRow} {e : EndpointConfig}, x.endpointId = k → P e →
          ¬ ∃ row, u.sys.db.endpoints.find? x.endpointId = some row ∧ e = configOf cfg row := by
        rintro x e rfl hP ⟨row, hrow, rfl⟩
        exact hcur ⟨row, hrow, hP⟩
      refine ⟨fun x entry hentry hP => ?_, fun r run x e hrun hphase hx hP => ?_,
        fun r run x e hrun hc hx hP => ?_⟩
      · rcases entry_origin hsys hentry with hold | ⟨r, run, y, hrun, hphase, hy, -, hexpires⟩
        · exact h.cache x entry hold hP
        · -- the run that stores it has read it before `T`, and has not been under way for long
          have hbegan := h.stored r run y entry.value hrun hphase hy hP
          calc entry.expiresAt * 1000 = jsDate u.sys.now * 1000 + cacheTtlMs * 1000 := by
                rw [hexpires, Nat.add_mul]
            _ ≤ u.sys.now + cacheTtlMs * 1000 := Nat.add_le_add_right (jsDate_mul_le _) _
            _ ≤ T + D + cacheTtlMs * 1000 := Nat.add_le_add_right
                ((hsound.timely r run hrun).2.trans (Nat.add_le_add_right hbegan D)) _
            _ = T + cacheTtlMs * 1000 + D := Nat.add_right_comm _ _ _
      · rcases config_origin hsys hrun (x := x) (e := e) (by rw [hphase]; rfl) with
          ⟨before, hbefore, -, hst⟩ | ⟨-, -, -, -, -, -, hne⟩ | hread
        · exact (began_kept hsound.wf hbefore a).le.trans
            (h.stored r before x e hbefore (hst hphase) hx hP)
        · exact absurd hphase hne
        · exact absurd hread (gone hx hP)
      · rcases config_origin hsys hrun hc with
          ⟨before, hbefore, hconfig, -⟩ | ⟨before, entry, hbefore, hentry, hexpires, rfl, -⟩ | hread
        · exact (began_kept hsound.wf hbefore a).le.trans
            (h.run r before x e hbefore hconfig hx hP)
        · -- the entry has not expired, and the run began before
          subst hx
          calc Purging.beganAfter u a r = u.began r := began_kept hsound.wf hbefore a
            _ ≤ u.sys.now := (hsound.timely r before hbefore).1
            _ ≤ entry.expiresAt * 1000 := (lt_of_jsDate_lt hexpires).le
            _ ≤ _ := h.cache _ entry hentry hP
        · exact absurd hread (gone hx hP)

/-! ## The result -/

/-- While it goes on, no run takes longer than `D`, and the endpoint has no such configuration. -/
def Without (cfg : WorkerConfig) (D : Micros) (P : EndpointConfig → Prop) (k : Uuid)
    (s : Purging.State) (b : Purging.Action) : Prop :=
  Purging.Lasts D s b ∧ ¬ Current cfg P k s.sys.db

/-- What holds in every state of a run. -/
theorem path_copies (h : Path (Purging.step cfg) (Purging.Lasts D) Purging.init v) :
    Purging.Sound D v ∧ ExpireInTime v.sys ∧ OnlyActive v.sys := by
  refine ⟨Purging.path_sound h, h.invariant (I := fun t => ExpireInTime t.sys ∧ OnlyActive t.sys)
    (fun t b t' hI _ hs => ?_) ⟨fun _ _ _ hentry => (by cases hentry),
      fun _ _ _ _ hrun => (by cases hrun)⟩⟩
  cases b with
  | purge days =>
      cases hs
      exact hI
  | sys a =>
      simp only [Purging.step] at hs
      split_ifs at hs
      obtain ⟨sys, hsys, rfl⟩ := Option.map_eq_some_iff.1 hs
      exact ⟨step_expireInTime hI.1 hsys, step_onlyActive hI.2 hsys⟩

/-- **An old configuration runs out.**  While no run takes longer than `D`, and from `u` on the
endpoint has no configuration of some kind (a URL, a status): after `TTL_MS` and `2 * D` no run
carries such a configuration, whatever workers had in their caches and whichever runs were under
way. -/
theorem old_configuration_runs_out (cfg : WorkerConfig) (D : Micros) (k : Uuid)
    (P : EndpointConfig → Prop) (u v : Purging.State)
    (hu : Path (Purging.step cfg) (Purging.Lasts D) Purging.init u)
    (hv : Path (Purging.step cfg) (Without cfg D P k) u v)
    (hlate : u.sys.now + cacheTtlMs * 1000 + 2 * D < v.sys.now) :
    ∀ r run x e, v.sys.runs r = some run → run.phase.config? = some (x, e) →
      x.endpointId = k → ¬ P e := by
  intro r run x e hrun hc hx hP
  obtain ⟨hsound, hexpire, -⟩ := path_copies hu
  have hall : Purging.Sound D v ∧ Outdated D u.sys.now k P v :=
    hv.invariant (I := fun t => Purging.Sound D t ∧ Outdated D u.sys.now k P t)
      (fun t b t' hI hb hs => ⟨Purging.step_sound hI.1 hb.1 hs,
        step_outdated hI.1 hI.2 hb.2 hs⟩) ⟨hsound, outdated_now hsound hexpire⟩
  have hbegan := hall.2.run r run x e hrun hc hx hP
  refine absurd hlate (not_lt.2 ?_)
  calc v.sys.now ≤ v.began r + D := (hall.1.timely r run hrun).2
    _ ≤ u.sys.now + cacheTtlMs * 1000 + D + D := Nat.add_le_add_right hbegan D
    _ = u.sys.now + cacheTtlMs * 1000 + 2 * D := by rw [Nat.add_assoc, Nat.two_mul]

/-- An endpoint that is not active is left alone after that: no run is anywhere between its claim
and its final update. -/
theorem disabled_endpoint_left_alone (cfg : WorkerConfig) (D : Micros) (k : Uuid)
    (u v : Purging.State) (hu : Path (Purging.step cfg) (Purging.Lasts D) Purging.init u)
    (hv : Path (Purging.step cfg) (Without cfg D (fun e => e.status = .active) k) u v)
    (hlate : u.sys.now + cacheTtlMs * 1000 + 2 * D < v.sys.now) :
    ∀ r run x e claimed stage, v.sys.runs r = some run →
      run.phase = .attempt x e claimed stage → x.endpointId ≠ k := by
  intro r run x e claimed stage hrun hphase hx
  have hc : run.phase.config? = some (x, e) := by rw [hphase]; rfl
  have hactive := (path_copies (hu.trans (hv.mono fun _ _ hb => hb.1))).2.2 r run x e hrun hc
  refine old_configuration_runs_out cfg D k _ u v hu hv hlate r run x e hrun hc hx ?_
  exact hactive.resolve_left (by rw [hphase]; simp)

/-! ## A replay -/

namespace Sample

open Purging.Sample (lasts lasts_spec maxRun)

def newUrl : Text := "https://hooks.example/".toList

/-- An attempt fails, and then the endpoint gets another URL. -/
def moved : List Purging.Action :=
  Purging.Sample.ofSys (System.Sample.failedOnce ++
    [.updateEndpoint System.Sample.endpoint (some newUrl) none none])

/-- A minute and a half later, the second attempt is about to be sent. -/
def later : List Purging.Action :=
  Purging.Sample.ofSys ([.clock (91 * 1000 * 1000), .take 1 System.Sample.job] ++
    System.Sample.toClaim 1 ++ [.run 1 (.digest []), .run 1 (.answer true)])

def atOldUrl (e : EndpointConfig) : Prop := e.url = System.Sample.endpointRow.url

/-- `Without`, of the old URL. -/
def without (s : Purging.State) (b : Purging.Action) : Bool :=
  lasts maxRun s b &&
    (s.sys.db.endpoints.find? System.Sample.endpoint).all fun row =>
      row.url ≠ System.Sample.endpointRow.url

theorem without_spec {s : Purging.State} {b : Purging.Action} (hwf : Wf s.sys)
    (h : without s b = true) :
    Without System.Sample.cfg maxRun atOldUrl System.Sample.endpoint s b := by
  rw [without, Bool.and_eq_true] at h
  refine ⟨lasts_spec hwf h.1, ?_⟩
  rintro ⟨row, hrow, hurl⟩
  rw [hrow] at h
  exact of_decide_eq_true h.2 hurl

/-- Run 1 carries the new URL. -/
def carriesNew (s : Purging.State) : Bool :=
  (s.sys.runs 1).any fun run => run.phase.config?.any fun p =>
    p.1.endpointId = System.Sample.endpoint ∧ p.2.url = newUrl

end Sample

open Purging.Sample (lasts lasts_spec maxRun) in
theorem old_configuration_runs_out_after_move : ∃ u v : Purging.State,
    Path (Purging.step System.Sample.cfg) (Purging.Lasts maxRun) Purging.init u ∧
    Path (Purging.step System.Sample.cfg)
      (Without System.Sample.cfg maxRun Sample.atOldUrl System.Sample.endpoint) u v ∧
    u.sys.now + cacheTtlMs * 1000 + 2 * maxRun < v.sys.now ∧ Sample.carriesNew v = true ∧
    ∀ r run x e, v.sys.runs r = some run → run.phase.config? = some (x, e) →
      x.endpointId = System.Sample.endpoint → ¬ Sample.atOldUrl e := by
  obtain ⟨u, hu, hrest⟩ := Path.exists_of_runChecked_along (Purging.step System.Sample.cfg)
    (P := Purging.Lasts maxRun) (J := Purging.Sound maxRun) (p := lasts maxRun)
    (fun _ _ hJ => lasts_spec hJ.wf)
    (fun _ _ _ hJ hp hs => Purging.step_sound hJ (lasts_spec hJ.wf hp) hs) Purging.init
    Purging.sound_init Sample.moved
    (fun u => (runChecked (Purging.step System.Sample.cfg) Sample.without u Sample.later).any
      fun v => u.sys.now + cacheTtlMs * 1000 + 2 * maxRun < v.sys.now && Sample.carriesNew v)
    (by decide +kernel)
  obtain ⟨v, hv, hend⟩ := Path.exists_of_runChecked_along (Purging.step System.Sample.cfg)
    (J := Purging.Sound maxRun) (fun _ _ hJ => Sample.without_spec hJ.wf)
    (fun _ _ _ hJ hp hs => Purging.step_sound hJ (Sample.without_spec hJ.wf hp).1 hs) u
    (Purging.path_sound hu) Sample.later _ hrest
  rw [Bool.and_eq_true, decide_eq_true_eq] at hend
  exact ⟨u, v, hu, hv, hend.1, hend.2, old_configuration_runs_out System.Sample.cfg maxRun
    System.Sample.endpoint Sample.atOldUrl u v hu hv hend.1⟩

end Staleness
end System
end HookRelay
