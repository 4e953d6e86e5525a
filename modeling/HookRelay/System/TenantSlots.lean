import HookRelay.System.Origins
import HookRelay.Worker.TenantLimiter

/-!
# A tenant's share of the workers

The system with the tenant limiter in it: what `limiter.acquire` answers is no longer an input
of a run's step but what `tenant-limiter.ts` makes of the counters in Redis, and at its end a run
gives its slot back, in two commands.  A run whose process dies never does.

* `Served` — a run knows the tenant of its delivery, and whether it has a slot.
* `stepSlots` — every step is one of the limiter, and one of the system or none.
* `path_limiter` — every calm run of the whole is a run of the limiter.
* `acquire_answered` — the limiter is ready for every run that comes to it.
* `run_gone` — a run goes when its process dies or it lets go of its job.
* `neighbours_kept_apart` — while the counters are right, a tenant has no more than `max` attempts
  under way, and is refused a slot only for slots of its own.
-/

namespace HookRelay

open Lib

/-- Which phases a run has a slot in. -/
def Phase.SlotFits (limited : Bool) : Phase → Prop
  | .tenant | .acquire | .delay => limited = false
  | .finish _ => True
  | _ => limited = true

section Runs

variable {cfg : WorkerConfig} {now : Micros} {db : Database} {cache : EndpointCache} {run : Run}
  {p : Phase} {next : Next}

/-- A job with a tenant goes on to `limiter.acquire`. -/
theorem plan_tenant {i : Input} {t : Uuid} (h : plan cfg now db cache run i = some next)
    (hp : run.phase = .tenant) (ht : run.tenantId = some t) : next = run.goto .acquire := by
  cases i with
  | none =>
      simp only [plan, hp, ht, Option.some.injEq] at h
      exact h.symm
  | _ => simp [plan, hp] at h

/-- Only `job.data.tenantId ?? …` sets the tenant. -/
theorem Planned.tenantId_eq (h : Planned cfg now db cache run p next) (hp : p ≠ .tenant) :
    next.run.tenantId = run.tenantId := by
  cases h with
  | tenantKnown | tenantFound | tenantMissing => exact absurd rfl hp
  | attempt d e claimed stage _ ha => cases ha <;> rfl
  | _ => rfl

theorem slotFits_afterEndpoint {d : DeliveryRow} {e : EndpointConfig} {limited : Bool}
    (h : limited = true) : (afterEndpoint d e).SlotFits limited := by
  unfold afterEndpoint
  split_ifs <;> exact h

/-- A slot is taken with the answer of `acquire`, and kept to the end. -/
theorem Planned.slotFits (h : Planned cfg now db cache run p next) (hp : p ≠ .tenant)
    (hfits : p.SlotFits run.limited) : next.run.phase.SlotFits next.run.limited := by
  cases h with
  | tenantKnown | tenantFound | tenantMissing => exact absurd rfl hp
  | acquired => rfl
  | cached d entry _ => exact slotFits_afterEndpoint hfits
  | stored d e => exact slotFits_afterEndpoint hfits
  | attempt d e claimed stage _ ha => cases ha <;> exact hfits
  | ends | retryScheduled => trivial
  | _ => exact hfits

/-- A run with a slot of the tenant with this id. -/
def Run.HasSlotOf (run : Run) (u : Text) : Prop :=
  run.limited = true ∧ ∃ t, run.tenantId = some t ∧ t.text = u

/-- A run that has a slot keeps it, and takes one only with the answer of `acquire`. -/
theorem Planned.limited (h : Planned cfg now db cache run p next) :
    p.isFinish = false ∧ (run.limited = true → next.run.limited = true) ∧
      (p ≠ .acquire → next.run.limited = run.limited) := by
  cases h with
  | acquired => exact ⟨rfl, fun _ => rfl, fun hp => absurd rfl hp⟩
  | attempt d e claimed stage _ ha => cases ha <;> exact ⟨rfl, id, fun _ => rfl⟩
  | _ => exact ⟨rfl, id, fun _ => rfl⟩

/-- The answer of `acquire` decides. -/
theorem plan_acquire {ok : Bool} (h : plan cfg now db cache run (.answer ok) = some next)
    (hp : run.phase = .acquire) : next.run.limited = (ok || run.limited) ∧
      next.run.tenantId = run.tenantId ∧ (ok = false → next.run.phase = .delay) := by
  cases ok with
  | true =>
      simp only [plan, hp, Option.some.injEq] at h
      subst h
      exact ⟨rfl, rfl, fun h => by cases h⟩
  | false =>
      simp only [plan, hp, Option.some.injEq] at h
      subst h
      exact ⟨rfl, rfl, fun _ => rfl⟩

end Runs

/-- The delivery is there, and its event is of this tenant. -/
def Database.BelongsTo (db : Database) (d t : Uuid) : Prop :=
  ∃ y e, db.deliveries.find? d = some y ∧ db.events.find? y.eventId = some e ∧ e.tenantId = t

namespace System

variable {cfg : WorkerConfig} {s s' : State} {a : Action}

theorem step_belongsTo {d t : Uuid} (hs : step cfg s a = some s') (h : s.db.BelongsTo d t) :
    s'.db.BelongsTo d t := by
  obtain ⟨y, e, hy, he, ht⟩ := h
  obtain ⟨y', hy', hev, -⟩ := step_fixed hs hy
  exact ⟨y', e, hy', by rw [hev]; exact (step_flow hs).extends.events _ e he, ht⟩

/-- A delivery belongs to one tenant. -/
theorem belongsTo_unique {db : Database} {d t u : Uuid} (h : db.BelongsTo d t)
    (h' : db.BelongsTo d u) : t = u := by
  obtain ⟨y, e, hy, he, rfl⟩ := h
  obtain ⟨y', e', hy', he', rfl⟩ := h'
  rw [hy, Option.some.injEq] at hy'
  subst hy'
  rw [he, Option.some.injEq] at he'
  rw [he']

/-- A job in the queue has the tenant of its delivery. -/
theorem job_belongsTo (hlinked : s.db.Linked) (htracked : Tracked s) {j : Job} (hj : j ∈ s.queue) :
    ∃ t, j.tenantId = some t ∧ s.db.BelongsTo j.deliveryId t := by
  obtain ⟨x, hx, -, hd, ht⟩ := htracked.queued j hj
  obtain ⟨m, hm, -, htarget, -, htenant⟩ := htracked.madeFor x hx
  obtain ⟨k, e, hlink, he, hmt⟩ := hm.target hlinked htarget
  obtain ⟨y, hy, rfl⟩ := Database.mem_links.1 hlink
  exact ⟨m.tenantId, ht.symm.trans htenant, y, e, hd ▸ hy, he, hmt.symm⟩

/-- A run knows the tenant of its delivery, and whether it has a slot. -/
structure Served (s : State) : Prop where
  tenant : ∀ r run, s.runs r = some run →
    ∃ t, run.tenantId = some t ∧ s.db.BelongsTo run.deliveryId t
  slot : ∀ r run, s.runs r = some run → run.phase.SlotFits run.limited

theorem served_init : Served init := ⟨fun _ _ h => (by cases h), fun _ _ h => (by cases h)⟩

/-- What a run makes of its tenant and its slot in a step of its own. -/
theorem Served.planned {r : ℕ} {i : Input} {run : Run} {next : Next} (h : Served s)
    (hrun : s.runs r = some run)
    (hplan : plan cfg s.now s.db (s.cache run.worker) run i = some next) :
    next.run.tenantId = run.tenantId ∧ next.run.phase.SlotFits next.run.limited := by
  by_cases hp : run.phase = .tenant
  · obtain ⟨t, ht, -⟩ := h.tenant r run hrun
    rw [plan_tenant hplan hp ht]
    refine ⟨rfl, ?_⟩
    have hslot := h.slot r run hrun
    rw [hp] at hslot
    exact hslot
  · have hplanned := plan_cases hplan
    exact ⟨hplanned.tenantId_eq hp, hplanned.slotFits hp (h.slot r run hrun)⟩

/-- A run lets go of its job, or makes the step that is planned. -/
theorem run_planned {r : ℕ} {i : Input} (hs : step cfg s (.run r i) = some s') :
    ∃ run, s.runs r = some run ∧ (letGo s r run = some s' ∨
      ∃ next, plan cfg s.now s.db (s.cache run.worker) run i = some next ∧
        s' = applyNext s r run next) := by
  simp only [step, stepRun] at hs
  split at hs
  · cases hs
  · rename_i run hrun
    refine ⟨run, hrun, ?_⟩
    split at hs
    · rename_i t hgo
      cases hs
      exact .inl hgo
    · obtain ⟨next, hplan, rfl⟩ := Option.map_eq_some_iff.1 hs
      exact .inr ⟨next, hplan, rfl⟩

/-- Where a run comes from that is there after a step. -/
theorem run_cases {r : ℕ} {run : Run} (hs : step cfg s a = some s') (hrun : s'.runs r = some run) :
    s.runs r = some run ∨
    (∃ j ∈ s.queue, r = s.nextRun ∧ run.deliveryId = j.deliveryId ∧ run.tenantId = j.tenantId ∧
      run.limited = false ∧ run.phase = .tenant) ∨
    (∃ i before next, a = .run r i ∧ s.runs r = some before ∧
      plan cfg s.now s.db (s.cache before.worker) before i = some next ∧ run = next.run) ∨
    ∃ before, s.runs r = some before ∧ run = { before with phase := .finish .threw } := by
  by_cases hown : ∃ i, a = .run r i
  · obtain ⟨i, rfl⟩ := hown
    obtain ⟨before, hbefore, hgo | ⟨next, hplan, rfl⟩⟩ := run_planned hs
    · obtain ⟨-, queue, rfl⟩ := letGo_eq_some hgo
      simp [setRun] at hrun
    · simp only [applyNext, Function.update_self, Option.some.injEq] at hrun
      exact .inr (.inr (.inl ⟨i, before, next, rfl, hbefore, hplan, hrun.symm⟩))
  · cases step_change hs with
    | outside _ _ hr _ _ _ => exact .inl (hr ▸ hrun)
    | reserved _ _ _ _ hr _ _ _ _ => exact .inl (hr ▸ hrun)
    | reopened _ _ _ _ _ _ _ hr _ _ _ => exact .inl (hr ▸ hrun)
    | started w jobId j hj _ heq =>
        subst heq
        by_cases hr : r = s.nextRun
        · subst hr
          simp only [Function.update_self, Option.some.injEq] at hrun
          subst hrun
          exact .inr (.inl ⟨j, (Table.find?_eq_some_iff.1 hj).1, rfl, rfl, rfl, rfl, rfl⟩)
        · exact .inl (by simpa [Function.update_of_ne hr] using hrun)
    | planned k i before next _ _ heq =>
        subst heq
        have hr : r ≠ k := fun hr => hown ⟨i, by rw [hr]⟩
        exact .inl (by simpa [applyNext, Function.update_of_ne hr] using hrun)
    | left k i before _ hgo =>
        obtain ⟨-, queue, rfl⟩ := letGo_eq_some hgo
        have hr : r ≠ k := fun hr => hown ⟨i, by rw [hr]⟩
        exact .inl (by simpa [setRun, Function.update_of_ne hr] using hrun)
    | threw k before hbefore _ heq =>
        subst heq
        by_cases hr : r = k
        · subst hr
          simp only [setRun, Function.update_self, Option.some.injEq] at hrun
          exact .inr (.inr (.inr ⟨before, hbefore, hrun.symm⟩))
        · exact .inl (by simpa [setRun, Function.update_of_ne hr] using hrun)
    | crashed k before _ heq =>
        subst heq
        by_cases hr : r = k
        · subst hr
          simp [setRun] at hrun
        · exact .inl (by simpa [setRun, Function.update_of_ne hr] using hrun)

/-- How a run goes: its process dies, or it lets go of its job. -/
theorem run_gone {r : ℕ} {run : Run} (hs : step cfg s a = some s') (hrun : s.runs r = some run)
    (hgone : s'.runs r = none) :
    a = .crash r ∨ (∃ i, a = .run r i) ∧ (run.phase = .delay ∨ run.phase.isFinish = true) := by
  have stays : ∀ {k : ℕ} {x : Option Run}, Function.update s.runs k x r = none → r ≠ k → False := by
    intro k x h hr
    rw [Function.update_of_ne hr, hrun] at h
    cases h
  cases step_change hs with
  | outside _ _ hr _ _ _ => rw [hr, hrun] at hgone; cases hgone
  | reserved _ _ _ _ hr _ _ _ _ => rw [hr, hrun] at hgone; cases hgone
  | reopened _ _ _ _ _ _ _ hr _ _ _ => rw [hr, hrun] at hgone; cases hgone
  | started w jobId j _ _ heq =>
      subst heq
      by_cases hr : r = s.nextRun
      · subst hr
        simp at hgone
      · exact (stays hgone hr).elim
  | planned k i before next _ _ heq =>
      subst heq
      by_cases hr : r = k
      · subst hr
        simp [applyNext] at hgone
      · exact (stays hgone hr).elim
  | left k i before hbefore hgo =>
      obtain ⟨hphase, queue, rfl⟩ := letGo_eq_some hgo
      by_cases hr : r = k
      · subst hr
        rw [hrun, Option.some.injEq] at hbefore
        subst hbefore
        refine .inr ⟨⟨i, rfl⟩, hphase.imp_right ?_⟩
        rintro ⟨ending, hfinish⟩
        rw [hfinish]
        rfl
      · exact (stays hgone hr).elim
  | threw k before _ _ heq =>
      subst heq
      by_cases hr : r = k
      · subst hr
        simp [setRun] at hgone
      · exact (stays hgone hr).elim
  | crashed k before _ heq =>
      subst heq
      by_cases hr : r = k
      · exact .inl (by rw [hr])
      · exact (stays hgone hr).elim

theorem step_served (hlinked : s.db.Linked) (htracked : Tracked s) (h : Served s)
    (hs : step cfg s a = some s') : Served s' := by
  -- a run keeps its delivery and its tenant
  have stays : ∀ {d : Uuid} {tenant : Option Uuid}, (∃ t, tenant = some t ∧
      s.db.BelongsTo d t) → ∃ t, tenant = some t ∧ s'.db.BelongsTo d t := by
    rintro d tenant ⟨t, ht, hbelongs⟩
    exact ⟨t, ht, step_belongsTo hs hbelongs⟩
  refine ⟨fun r run hrun => ?_, fun r run hrun => ?_⟩
  · rcases run_cases hs hrun with hold | ⟨j, hj, -, hd, ht, -⟩ |
      ⟨i, before, next, -, hbefore, hplan, rfl⟩ | ⟨before, hbefore, rfl⟩
    · exact stays (h.tenant r run hold)
    · rw [hd, ht]
      exact stays (job_belongsTo hlinked htracked hj)
    · rw [(h.planned hbefore hplan).1, (plan_cases hplan).deliveryId_eq.1]
      exact stays (h.tenant r before hbefore)
    · exact stays (h.tenant r before hbefore)
  · rcases run_cases hs hrun with hold | ⟨j, -, -, -, -, hlimited, hphase⟩ |
      ⟨i, before, next, -, hbefore, hplan, rfl⟩ | ⟨before, hbefore, rfl⟩
    · exact h.slot r run hold
    · rw [hphase]
      exact hlimited
    · exact (h.planned hbefore hplan).2
    · trivial

theorem path_served {P : State → Action → Prop} (h : Path (step cfg) P init s) : Served s :=
  h.invariant_along (J := fun t => t.db.Linked ∧ Tracked t)
    (fun _ ht => ⟨path_linked ht, path_tracked ht⟩)
    (fun _ _ _ hJ hI _ hs => step_served hJ.1 hJ.2 hI hs) served_init

/-! ## The whole -/

/-- The system, and the limiter; a worker of the limiter is a run.  Beside them stand, as they were
then, the runs whose process died. -/
structure WithSlots where
  sys : State
  limiter : TenantLimiter.State ℕ
  died : List (ℕ × Run)

def initSlots : WithSlots := ⟨init, TenantLimiter.init, []⟩

inductive SlotAction where
  /-- A step of the system in which the limiter has no part. -/
  | sys (a : Action)
  /-- `limiter.acquire` -/
  | acquire (r : ℕ) (up : Bool)
  /-- The `DECR` of `limiter.release` -/
  | decr (r : ℕ) (up : Bool)
  /-- The `DEL` of `limiter.release` -/
  | del (r : ℕ) (up : Bool)

/-- The tenant of a run. -/
def tenantOf (s : State) (r : ℕ) : Option Uuid := (s.runs r).bind Run.tenantId

/-- How many milliseconds pass for Redis. -/
def elapsed (s : State) : Action → ℕ
  | .clock us => jsDate (s.now + us) - jsDate s.now
  | _ => 0

/-- What the limiter does in a step. -/
def slotOf (s : WithSlots) : SlotAction → Option (TenantLimiter.Action ℕ)
  | .sys a => some (.advance (elapsed s.sys a))
  | .acquire r up => (tenantOf s.sys r).map fun t => .acquire r t.text up
  | .decr r up => (tenantOf s.sys r).map fun t => .decr r t.text up
  | .del r up => (tenantOf s.sys r).map fun t => .del r t.text up

/-- What `limiter.acquire` answers. -/
def granted (lcfg : LimiterConfig) (s : WithSlots) (r : ℕ) (up : Bool) : Bool :=
  (tenantOf s.sys r).all fun t =>
    (TenantLimiter.acquire lcfg up s.limiter.redis s.limiter.now t.text).1

/-- The run has no slot to give back, or has given it back. -/
def isFree (s : WithSlots) (r : ℕ) : Bool :=
  (tenantOf s.sys r).all fun t => r ∉ s.limiter.holders t.text ∧ r ∉ s.limiter.deleting t.text

/-- The step does not wait for the limiter: a run ends only when `limiter.release` is through. -/
def mayStep (s : WithSlots) : Action → Bool
  | .run r _ =>
      match (s.sys.runs r).map Run.phase with
      | some .acquire => false
      | some (.finish _) => isFree s r
      | _ => true
  | _ => true

/-- The run is in its `finally`. -/
def isEnding (s : State) (r : ℕ) : Bool := (s.runs r).any fun run => run.phase.isFinish

/-- What the system does in a step. -/
def sysOf (cfg : WorkerConfig) (lcfg : LimiterConfig) (s : WithSlots) :
    SlotAction → Option State
  | .sys a => if mayStep s a then step cfg s.sys a else none
  | .acquire r up =>
      match (s.sys.runs r).map Run.phase with
      | some .acquire => step cfg s.sys (.run r (.answer (granted lcfg s r up)))
      | _ => none
  | .decr r _ | .del r _ => if isEnding s.sys r then some s.sys else none

/-- The run whose process dies in a step. -/
def diesIn (s : State) : SlotAction → List (ℕ × Run)
  | .sys (.crash r) => ((s.runs r).map fun run => (r, run)).toList
  | _ => []

/-- One step. -/
def stepSlots (cfg : WorkerConfig) (lcfg : LimiterConfig) (s : WithSlots) (a : SlotAction) :
    Option WithSlots :=
  (slotOf s a).bind fun b => (TenantLimiter.step lcfg s.limiter b).bind fun limiter =>
    (sysOf cfg lcfg s a).map fun sys => ⟨sys, limiter, diesIn s.sys a ++ s.died⟩

/-- No Redis command of the limiter fails, no counter expires, and no `DEL` finds a counter that
has been taken up again. -/
def Calm (s : WithSlots) (a : SlotAction) : Prop := ∀ b ∈ slotOf s a, TenantLimiter.Safe s.limiter b

variable {lcfg : LimiterConfig} {w w' : WithSlots} {b : SlotAction}

theorem stepSlots_eq_some (h : stepSlots cfg lcfg w b = some w') :
    ∃ l, slotOf w b = some l ∧ TenantLimiter.step lcfg w.limiter l = some w'.limiter ∧
      sysOf cfg lcfg w b = some w'.sys ∧ w'.died = diesIn w.sys b ++ w.died := by
  obtain ⟨l, hl, h⟩ := Option.bind_eq_some_iff.1 h
  obtain ⟨limiter, hlimiter, h⟩ := Option.bind_eq_some_iff.1 h
  obtain ⟨sys, hsys, rfl⟩ := Option.map_eq_some_iff.1 h
  exact ⟨l, hl, hlimiter, hsys, rfl⟩

/-- A step of the whole is one of the system, or leaves it alone. -/
theorem sysOf_eq_some {sys : State} (h : sysOf cfg lcfg w b = some sys) :
    (∃ a, step cfg w.sys a = some sys) ∨ sys = w.sys := by
  cases b with
  | sys a =>
      simp only [sysOf] at h
      split_ifs at h
      exact .inl ⟨a, h⟩
  | acquire r up =>
      simp only [sysOf] at h
      split at h
      · exact .inl ⟨_, h⟩
      · cases h
  | decr r up | del r up =>
      simp only [sysOf] at h
      split_ifs at h
      cases h
      exact .inr rfl

/-- Every run of the whole is a run of the system. -/
theorem path_system {P : WithSlots → SlotAction → Prop}
    (h : Path (stepSlots cfg lcfg) P initSlots w) : Reach cfg w.sys := by
  refine h.invariant (I := fun t => Reach cfg t.sys) (fun t b t' hI _ hs => ?_) .refl
  obtain ⟨l, -, -, hsys, -⟩ := stepSlots_eq_some hs
  rcases sysOf_eq_some hsys with ⟨a, ha⟩ | heq
  · exact hI.snoc trivial ha
  · rw [heq]
    exact hI

/-- **Every calm run of the whole is a safe run of the limiter.** -/
theorem path_limiter (h : Path (stepSlots cfg lcfg) Calm initSlots w) :
    Path (TenantLimiter.step lcfg) TenantLimiter.Safe TenantLimiter.init w.limiter := by
  refine h.invariant (I := fun t => Path (TenantLimiter.step lcfg) TenantLimiter.Safe
    TenantLimiter.init t.limiter) (fun t b t' hI hcalm hs => ?_) .refl
  obtain ⟨l, hl, hlimiter, -⟩ := stepSlots_eq_some hs
  exact hI.snoc (hcalm l hl) hlimiter

/-! ## Who has a slot -/

/-- The run is there, or was when its process died. -/
def WithSlots.Seen (w : WithSlots) (r : ℕ) (run : Run) : Prop :=
  w.sys.runs r = some run ∨ (r, run) ∈ w.died

/-- The runs that have a slot, and the limiter's holders. -/
structure Holding (w : WithSlots) : Prop where
  held : ∀ r run t, w.sys.runs r = some run → run.tenantId = some t → run.limited = true →
    run.phase.isFinish = false → r ∈ w.limiter.holders t.text
  user : ∀ r u, r ∈ w.limiter.holders u ∨ r ∈ w.limiter.deleting u → r < w.sys.nextRun ∧
    ∀ run, w.sys.runs r = some run → run.HasSlotOf u
  seen : ∀ r u, r ∈ w.limiter.holders u → ∃ run, w.Seen r run ∧ run.HasSlotOf u

theorem holding_init : Holding initSlots where
  held _ _ _ h := by cases h
  user _ _ h := by simp [initSlots, TenantLimiter.init] at h
  seen _ _ h := by simp [initSlots, TenantLimiter.init] at h

section Limiter

variable {l l' : TenantLimiter.State ℕ} {h : Text → Finset ℕ} {r x : ℕ} {u v : Text} {up : Bool}

theorem mem_update_insert :
    x ∈ Function.update h u (insert r (h u)) v ↔ x ∈ h v ∨ x = r ∧ v = u := by
  by_cases hv : v = u
  · subst hv
    simp [or_comm]
  · simp [hv]

theorem mem_update_erase :
    x ∈ Function.update h u ((h u).erase r) v ↔ x ∈ h v ∧ ¬ (x = r ∧ v = u) := by
  by_cases hv : v = u
  · subst hv
    simp [and_comm]
  · simp [hv]

/-- Who has a slot after `limiter.acquire`. -/
theorem limiter_acquire (hl : TenantLimiter.step lcfg l (.acquire r u up) = some l') :
    ¬ (r ∈ l.holders u ∨ r ∈ l.deleting u) ∧ l'.deleting = l.deleting ∧
    ∀ x v, x ∈ l'.holders v ↔ x ∈ l.holders v ∨
      (x = r ∧ v = u) ∧ (TenantLimiter.acquire lcfg up l.redis l.now u).1 = true := by
  simp only [TenantLimiter.step] at hl
  split at hl
  · cases hl
  · rename_i hfree
    by_cases hok : (TenantLimiter.acquire lcfg up l.redis l.now u).1 = true
    · rw [if_pos hok, Option.some.injEq] at hl
      subst hl
      exact ⟨hfree, rfl, fun x v => by rw [mem_update_insert, and_iff_left hok]⟩
    · rw [if_neg hok, Option.some.injEq] at hl
      subst hl
      exact ⟨hfree, rfl, fun x v => (or_iff_left fun hx => hok hx.2).symm⟩

/-- The `DECR` gives the slot back, and its run may have a `DEL` to send. -/
theorem limiter_decr (hl : TenantLimiter.step lcfg l (.decr r u up) = some l') :
    r ∈ l.holders u ∧ (∀ x v, x ∈ l'.holders v ↔ x ∈ l.holders v ∧ ¬ (x = r ∧ v = u)) ∧
    ∀ x v, x ∈ l'.deleting v → x ∈ l.deleting v ∨ x = r ∧ v = u := by
  simp only [TenantLimiter.step, Option.ite_none_right_eq_some, Option.some.injEq] at hl
  obtain ⟨hr, rfl⟩ := hl
  refine ⟨hr, fun x v => mem_update_erase, fun x v hx => ?_⟩
  cases hd : (TenantLimiter.releaseDecr lcfg up l.redis l.now u).1 with
  | true =>
      simp only [hd, if_true] at hx
      exact mem_update_insert.1 hx
  | false =>
      simp only [hd, Bool.false_eq_true, if_false] at hx
      exact .inl hx

theorem limiter_del (hl : TenantLimiter.step lcfg l (.del r u up) = some l') :
    l'.holders = l.holders ∧ ∀ x v, x ∈ l'.deleting v → x ∈ l.deleting v := by
  simp only [TenantLimiter.step, Option.ite_none_right_eq_some, Option.some.injEq] at hl
  obtain ⟨-, rfl⟩ := hl
  exact ⟨rfl, fun x v hx => (mem_update_erase.1 hx).1⟩

end Limiter

/-- A run that is at its end steps only when `limiter.release` is through. -/
theorem isFree_of_mayStep (hmay : mayStep w a = true) : ∀ r i run, a = .run r i →
    w.sys.runs r = some run → run.phase.isFinish = true → isFree w r = true := by
  rintro r i run rfl hrun hfinish
  obtain ⟨ending, hphase⟩ : ∃ ending, run.phase = .finish ending := by
    cases hp : run.phase <;> simp_all [Phase.isFinish]
  simpa [mayStep, hrun, hphase] using hmay

/-- A run that has a slot goes only with its process. -/
theorem Holding.stays (h : Holding w) (hserved : Served w.sys)
    (hfree : ∀ r i run, a = .run r i → w.sys.runs r = some run → run.phase.isFinish = true →
      isFree w r = true) (hs : step cfg w.sys a = some w'.sys) {r : ℕ} {u : Text}
    (hr : r ∈ w.limiter.holders u) {run : Run} (hrun : w.sys.runs r = some run) :
    (∃ run', w'.sys.runs r = some run') ∨ a = .crash r := by
  cases hafter : w'.sys.runs r with
  | some run' => exact .inl ⟨run', rfl⟩
  | none =>
      refine .inr ?_
      obtain ⟨hlimited, t, ht, htext⟩ := (h.user r u (.inl hr)).2 run hrun
      rcases run_gone hs hrun hafter with hcrash | ⟨⟨i, rfl⟩, hdelay | hfinish⟩
      · exact hcrash
      · have hslot := hserved.slot r run hrun
        rw [hdelay] at hslot
        rw [show run.limited = false from hslot] at hlimited
        cases hlimited
      · have hno := hfree r i run rfl hrun hfinish
        simp only [isFree, tenantOf, hrun, Option.bind_some, ht, Option.all_some,
          decide_eq_true_eq] at hno
        exact absurd (htext ▸ hr) hno.1

/-- What a step of the system leaves of the runs with a slot. -/
theorem Holding.seen_of_step (h : Holding w) (hserved : Served w.sys)
    (hfree : ∀ r i run, a = .run r i → w.sys.runs r = some run → run.phase.isFinish = true →
      isFree w r = true) (hs : step cfg w.sys a = some w'.sys)
    (hdied : w'.died = diesIn w.sys (.sys a) ++ w.died)
    (huser : ∀ r u, r ∈ w.limiter.holders u → ∀ run, w'.sys.runs r = some run → run.HasSlotOf u)
    {r : ℕ} {u : Text} (hr : r ∈ w.limiter.holders u) :
    ∃ run, w'.Seen r run ∧ run.HasSlotOf u := by
  obtain ⟨run, hrun | hgone, hslot⟩ := h.seen r u hr
  · rcases h.stays hserved hfree hs hr hrun with ⟨run', hrun'⟩ | rfl
    · exact ⟨run', .inl hrun', huser r u hr run' hrun'⟩
    · refine ⟨run, .inr ?_, hslot⟩
      rw [hdied]
      exact List.mem_append_left _ (by simp [diesIn, hrun])
  · exact ⟨run, .inr (hdied ▸ List.mem_append_right _ hgone), hslot⟩

/-- A step of the system in which the limiter has no part. -/
theorem Holding.sys (h : Holding w) (hserved : Served w.sys) (hmay : mayStep w a = true)
    (hs : step cfg w.sys a = some w'.sys) (hh : w'.limiter.holders = w.limiter.holders)
    (hd : w'.limiter.deleting = w.limiter.deleting)
    (hdied : w'.died = diesIn w.sys (.sys a) ++ w.died) : Holding w' := by
  have notAcquire : ∀ {r : ℕ} {i : Input} {before : Run}, a = .run r i →
      w.sys.runs r = some before → before.phase ≠ .acquire := by
    rintro r i before rfl hbefore hacq
    simp [mayStep, hbefore, hacq] at hmay
  have user : ∀ r u, r ∈ w.limiter.holders u ∨ r ∈ w.limiter.deleting u → r < w'.sys.nextRun ∧
      ∀ run, w'.sys.runs r = some run → run.HasSlotOf u := by
    intro r u hr
    obtain ⟨hlt, huser⟩ := h.user r u hr
    refine ⟨hlt.trans_le (step_nextRun hs), fun run hrun => ?_⟩
    rcases run_cases hs hrun with hold | ⟨j, -, hnext, -⟩ |
      ⟨i, before, next, -, hbefore, hplan, rfl⟩ | ⟨before, hbefore, rfl⟩
    · exact huser run hold
    · exact absurd hlt (hnext ▸ lt_irrefl _)
    · obtain ⟨hlimited, htenant⟩ := huser before hbefore
      exact ⟨(plan_cases hplan).limited.2.1 hlimited, (hserved.planned hbefore hplan).1 ▸ htenant⟩
    · exact huser before hbefore
  refine ⟨fun r run t hrun ht hlimited hphase => ?_, fun r u hr => ?_, fun r u hr => ?_⟩
  · rw [hh]
    rcases run_cases hs hrun with hold | ⟨j, -, -, -, -, hno, -⟩ |
      ⟨i, before, next, ha, hbefore, hplan, rfl⟩ | ⟨before, -, rfl⟩
    · exact h.held r run t hold ht hlimited hphase
    · rw [hno] at hlimited
      cases hlimited
    · obtain ⟨hfinish, -, hsame⟩ := (plan_cases hplan).limited
      exact h.held r before t hbefore ((hserved.planned hbefore hplan).1 ▸ ht)
        (hsame (notAcquire ha hbefore) ▸ hlimited) hfinish
    · cases hphase
  · rw [hh, hd] at hr
    exact user r u hr
  · rw [hh] at hr
    exact h.seen_of_step hserved (isFree_of_mayStep hmay) hs hdied
      (fun r u hr => (user r u (.inl hr)).2) hr

/-- The run that `limiter.acquire` has answered. -/
theorem run_of_answer {r : ℕ} {ok : Bool} {before run : Run} (hbefore : w.sys.runs r = some before)
    (hacq : before.phase = .acquire) (hs : step cfg w.sys (.run r (.answer ok)) = some w'.sys)
    (hrun : w'.sys.runs r = some run) :
    run.tenantId = before.tenantId ∧ run.limited = (ok || before.limited) := by
  obtain ⟨before', hbefore', hgo | ⟨next, hplan, heq⟩⟩ := run_planned hs <;>
    rw [hbefore, Option.some.injEq] at hbefore' <;> subst hbefore'
  · obtain ⟨hp | ⟨ending, hp⟩, -⟩ := letGo_eq_some hgo <;> rw [hacq] at hp <;> cases hp
  · rw [heq] at hrun
    simp only [applyNext, Function.update_self, Option.some.injEq] at hrun
    subst hrun
    obtain ⟨hlimited, hsame, -⟩ := plan_acquire hplan hacq
    exact ⟨hsame, hlimited⟩

/-- The other runs, when a run makes a step. -/
theorem run_of_ne {r x : ℕ} {i : Input} {run : Run} (hs : step cfg w.sys (.run r i) = some w'.sys)
    (hx : x ≠ r) (hrun : w'.sys.runs x = some run) :
    x = w.sys.nextRun ∧ run.limited = false ∨ ∃ before, w.sys.runs x = some before ∧
      run.tenantId = before.tenantId ∧ run.limited = before.limited ∧
      (run.phase.isFinish = false → before.phase.isFinish = false) := by
  rcases run_cases hs hrun with hold | ⟨j, -, hnext, -, -, hno, -⟩ |
    ⟨i, before, next, ha, -⟩ | ⟨before, hbefore, rfl⟩
  · exact .inr ⟨run, hold, rfl, rfl, id⟩
  · exact .inl ⟨hnext, hno⟩
  · cases ha
    exact absurd rfl hx
  · exact .inr ⟨before, hbefore, rfl, rfl, fun hfinish => by cases hfinish⟩

/-- `limiter.acquire` -/
theorem Holding.acquire {r : ℕ} {up : Bool} {t : Uuid} (h : Holding w) (hserved : Served w.sys)
    (hwf : Wf w.sys) (ht : tenantOf w.sys r = some t)
    (hphase : (w.sys.runs r).map Run.phase = some .acquire)
    (hlimiter : TenantLimiter.step lcfg w.limiter (.acquire r t.text up) = some w'.limiter)
    (hs : step cfg w.sys (.run r (.answer (granted lcfg w r up))) = some w'.sys)
    (hdied : w'.died = w.died) : Holding w' := by
  obtain ⟨before, hbefore, hacq⟩ := Option.map_eq_some_iff.1 hphase
  have htenant : before.tenantId = some t := by simpa [tenantOf, hbefore] using ht
  have hfree : before.limited = false := by
    have hslot := hserved.slot r before hbefore
    rw [hacq] at hslot
    exact hslot
  have hok : granted lcfg w r up =
      (TenantLimiter.acquire lcfg up w.limiter.redis w.limiter.now t.text).1 := by
    simp [granted, ht]
  obtain ⟨-, hdel, hhold⟩ := limiter_acquire hlimiter
  rw [← hok] at hhold
  have own : ∀ run, w'.sys.runs r = some run →
      run.tenantId = some t ∧ run.limited = granted lcfg w r up := by
    intro run hrun
    obtain ⟨hsame, hlimited⟩ := run_of_answer hbefore hacq hs hrun
    rw [hfree, Bool.or_false] at hlimited
    exact ⟨hsame.trans htenant, hlimited⟩
  have user : ∀ x u, x ∈ w'.limiter.holders u ∨ x ∈ w'.limiter.deleting u →
      x < w'.sys.nextRun ∧ ∀ run, w'.sys.runs x = some run → run.HasSlotOf u := by
    intro x u hx
    rw [hdel, hhold, or_right_comm] at hx
    rcases hx with hold | ⟨⟨hxr, hu⟩, hgranted⟩
    · obtain ⟨hlt, huser⟩ := h.user x u hold
      refine ⟨hlt.trans_le (step_nextRun hs), fun run hrun => ?_⟩
      have hxr : x ≠ r := by
        -- the run had no slot before
        rintro rfl
        rw [(huser before hbefore).1] at hfree
        cases hfree
      rcases run_of_ne hs hxr hrun with ⟨hnext, -⟩ | ⟨before', hbefore', htenant', hlimited', -⟩
      · exact absurd hlt (hnext ▸ lt_irrefl _)
      · obtain ⟨hlimited, v, hv, htext⟩ := huser before' hbefore'
        exact ⟨hlimited'.trans hlimited, v, htenant'.trans hv, htext⟩
    · subst hxr
      refine ⟨(hwf.lt_nextRun hbefore).trans_le (step_nextRun hs), fun run hrun => ?_⟩
      obtain ⟨htenant', hlimited'⟩ := own run hrun
      exact ⟨hlimited'.trans hgranted, t, htenant', hu.symm⟩
  refine ⟨fun x run v hrun hv hlimited hfinish => ?_, user, fun x u hx => ?_⟩
  · rw [hhold]
    by_cases hxr : x = r
    · subst hxr
      obtain ⟨htenant', hlimited'⟩ := own run hrun
      rw [hv, Option.some.injEq] at htenant'
      exact .inr ⟨⟨rfl, by rw [htenant']⟩, hlimited' ▸ hlimited⟩
    · rcases run_of_ne hs hxr hrun with ⟨-, hno⟩ |
        ⟨before', hbefore', htenant', hlimited', hfinish'⟩
      · rw [hno] at hlimited
        cases hlimited
      · exact .inl (h.held x before' v hbefore' (htenant' ▸ hv) (hlimited' ▸ hlimited)
          (hfinish' hfinish))
  · have huser := (user x u (.inl hx)).2
    rcases (hhold x u).1 hx with hold | ⟨⟨hxr, -⟩, -⟩
    · refine h.seen_of_step hserved (fun k i run ha hrun hfinish => ?_) hs hdied
        (fun k v hk => (user k v (.inl ((hhold k v).2 (.inl hk)))).2) hold
      cases ha
      rw [hbefore, Option.some.injEq] at hrun
      subst hrun
      rw [hacq] at hfinish
      cases hfinish
    · subst hxr
      cases hafter : w'.sys.runs x with
      | some run => exact ⟨run, .inl hafter, huser run hafter⟩
      | none =>
          rcases run_gone hs hbefore hafter with hcrash | ⟨-, hdelay | hfinish⟩
          · cases hcrash
          · rw [hacq] at hdelay
            cases hdelay
          · rw [hacq] at hfinish
            cases hfinish

/-- The `DECR` of `limiter.release` -/
theorem Holding.decr {r : ℕ} {up : Bool} {t : Uuid} (h : Holding w)
    (hending : isEnding w.sys r = true)
    (hlimiter : TenantLimiter.step lcfg w.limiter (.decr r t.text up) = some w'.limiter)
    (hsys : w'.sys = w.sys) (hdied : w'.died = w.died) : Holding w' := by
  obtain ⟨hr, hhold, hdel⟩ := limiter_decr hlimiter
  refine ⟨fun x run v hrun hv hlimited hfinish => ?_, fun x u hx => ?_, fun x u hx => ?_⟩
  · rw [hsys] at hrun
    refine (hhold x _).2 ⟨h.held x run v hrun hv hlimited hfinish, fun hx => ?_⟩
    rw [isEnding, ← hx.1, hrun, Option.any_some, hfinish] at hending
    cases hending
  · rw [hsys]
    apply h.user
    rcases hx with hx | hx
    · exact .inl ((hhold x u).1 hx).1
    · rcases hdel x u hx with hold | ⟨hxr, hu⟩
      · exact .inr hold
      · exact .inl (by rwa [hxr, hu])
  · obtain ⟨run, hseen, hslot⟩ := h.seen x u ((hhold x u).1 hx).1
    exact ⟨run, by rwa [WithSlots.Seen, hsys, hdied], hslot⟩

/-- The `DEL` of `limiter.release` -/
theorem Holding.del {r : ℕ} {up : Bool} {t : Uuid} (h : Holding w)
    (hlimiter : TenantLimiter.step lcfg w.limiter (.del r t.text up) = some w'.limiter)
    (hsys : w'.sys = w.sys) (hdied : w'.died = w.died) : Holding w' := by
  obtain ⟨hhold, hdel⟩ := limiter_del hlimiter
  refine ⟨fun x run v hrun hv hlimited hfinish => ?_, fun x u hx => ?_, fun x u hx => ?_⟩
  · rw [hhold]
    exact h.held x run v (hsys ▸ hrun) hv hlimited hfinish
  · rw [hsys]
    exact h.user x u (hx.imp (fun hx => hhold ▸ hx) (hdel x u))
  · rw [hhold] at hx
    obtain ⟨run, hseen, hslot⟩ := h.seen x u hx
    exact ⟨run, by rwa [WithSlots.Seen, hsys, hdied], hslot⟩

theorem step_holding (hserved : Served w.sys) (hwf : Wf w.sys) (h : Holding w)
    (hs : stepSlots cfg lcfg w b = some w') : Holding w' := by
  obtain ⟨l, hl, hlimiter, hsys, hdied⟩ := stepSlots_eq_some hs
  cases b with
  | sys a =>
      cases hl
      simp only [sysOf] at hsys
      split_ifs at hsys with hmay
      simp only [TenantLimiter.step, Option.some.injEq] at hlimiter
      exact h.sys hserved hmay hsys (by rw [← hlimiter]) (by rw [← hlimiter]) hdied
  | acquire r up =>
      obtain ⟨t, ht, rfl⟩ := Option.map_eq_some_iff.1 hl
      simp only [sysOf] at hsys
      split at hsys
      · rename_i hphase
        exact h.acquire hserved hwf ht hphase hlimiter hsys hdied
      · cases hsys
  | decr r up =>
      obtain ⟨t, -, rfl⟩ := Option.map_eq_some_iff.1 hl
      simp only [sysOf] at hsys
      split_ifs at hsys with hending
      exact h.decr hending hlimiter (Option.some.inj hsys).symm hdied
  | del r up =>
      obtain ⟨t, -, rfl⟩ := Option.map_eq_some_iff.1 hl
      simp only [sysOf] at hsys
      split_ifs at hsys
      exact h.del hlimiter (Option.some.inj hsys).symm hdied

theorem path_holding {P : WithSlots → SlotAction → Prop}
    (h : Path (stepSlots cfg lcfg) P initSlots w) : Holding w :=
  h.invariant_along (J := fun t => Reach cfg t.sys) (fun _ ht => path_system ht)
    (fun _ _ _ hJ hI _ hs => step_holding (path_served hJ) (path_wf hJ) hI hs) holding_init

/-- A run that comes to `limiter.acquire` is always answered. -/
theorem acquire_answered (hserved : Served w.sys) (h : Holding w) {r : ℕ}
    (hphase : (w.sys.runs r).map Run.phase = some .acquire) (up : Bool) :
    ∃ w', stepSlots cfg lcfg w (.acquire r up) = some w' := by
  obtain ⟨run, hrun, hacq⟩ := Option.map_eq_some_iff.1 hphase
  obtain ⟨t, ht, -⟩ := hserved.tenant r run hrun
  have htenant : tenantOf w.sys r = some t := by simp [tenantOf, hrun, ht]
  have hfree : run.limited = false := by
    have hslot := hserved.slot r run hrun
    rw [hacq] at hslot
    exact hslot
  have hno : ¬ (r ∈ w.limiter.holders t.text ∨ r ∈ w.limiter.deleting t.text) := by
    intro hr
    rw [((h.user r _ hr).2 run hrun).1] at hfree
    cases hfree
  have hlimiter : ∃ l, TenantLimiter.step lcfg w.limiter (.acquire r t.text up) = some l := by
    simp only [TenantLimiter.step, if_neg hno]
    split_ifs <;> exact ⟨_, rfl⟩
  have hsys : ∀ ok, ∃ sys, step cfg w.sys (.run r (.answer ok)) = some sys := by
    intro ok
    cases ok <;> simp [step, stepRun, hrun, letGo, plan, hacq]
  obtain ⟨l, hl⟩ := hlimiter
  obtain ⟨sys, hsys⟩ := hsys (granted lcfg w r up)
  refine ⟨⟨sys, l, w.died⟩, ?_⟩
  simp [stepSlots, slotOf, htenant, hl, sysOf, hphase, hsys, diesIn]

/-! ## The result -/

/-- The run is between its claim and its final update, for a delivery of this tenant. -/
def AtWork (s : State) (t : Uuid) (r : ℕ) : Prop :=
  ∃ run d e claimed stage, s.runs r = some run ∧ run.phase = .attempt d e claimed stage ∧
    s.db.BelongsTo d.id t

/-- A run with an attempt under way has a slot of its tenant. -/
theorem atWork_holds (hserved : Served w.sys) (hwf : Wf w.sys) (h : Holding w) {t : Uuid} {r : ℕ}
    (hr : AtWork w.sys t r) : r ∈ w.limiter.holders t.text := by
  obtain ⟨run, d, e, claimed, stage, hrun, hphase, hd⟩ := hr
  obtain ⟨t', ht', hbelongs⟩ := hserved.tenant r run hrun
  have hid := hwf.row_id r run d hrun (by rw [hphase]; rfl)
  obtain rfl := belongsTo_unique (hid ▸ hd) hbelongs
  have hslot := hserved.slot r run hrun
  rw [hphase] at hslot
  exact h.held r run t hrun ht' hslot (by rw [hphase]; rfl)

/-- **Tenants do not get into each other's way.**  In every calm run of the whole a tenant never
has more than `max` attempts under way, and when a run is refused a slot, `max` slots are held by
runs of its own tenant, which are there or died with their slot. -/
theorem neighbours_kept_apart (cfg : WorkerConfig) (lcfg : LimiterConfig) (hmax : 1 ≤ lcfg.max)
    (httl : 0 < lcfg.ttlSec) (w : WithSlots) (h : Path (stepSlots cfg lcfg) Calm initSlots w)
    (t : Uuid) :
    (∀ F : Finset ℕ, (∀ r ∈ F, AtWork w.sys t r) → (F.card : ℤ) ≤ lcfg.max) ∧
    ∀ r, tenantOf w.sys r = some t → granted lcfg w r true = false →
      ((w.limiter.holders t.text).card : ℤ) = lcfg.max ∧
      ∀ x ∈ w.limiter.holders t.text, ∃ run, w.Seen x run ∧ run.tenantId = some t ∧
        run.limited = true := by
  have hreach := path_system h
  have hholding := path_holding h
  have hexact := TenantLimiter.exact_of_path hmax httl (path_limiter h)
  refine ⟨fun F hF => ?_, fun r ht hno => ⟨?_, fun x hx => ?_⟩⟩
  · have hsub : F ⊆ w.limiter.holders t.text := fun r hr =>
      atWork_holds (path_served hreach) (path_wf hreach) hholding (hF r hr)
    exact (Int.ofNat_le.2 (Finset.card_le_card hsub)).trans (hexact.bounded t.text).2
  · have hgrant := (TenantLimiter.acquire_spec w.limiter.redis w.limiter.now t.text
      (by omega) httl).1
    simp only [granted, ht, Option.all_some] at hno
    rw [← hexact.value_eq]
    have hle := hexact.le_max t.text
    have hfull : ¬ w.limiter.redis.count w.limiter.now (TenantLimiter.key t.text) + 1 ≤
        lcfg.max := fun hroom => by rw [hgrant.2 hroom] at hno; cases hno
    unfold TenantLimiter.State.value at hle ⊢
    omega
  · obtain ⟨run, hseen, hlimited, t', ht', htext⟩ := hholding.seen x _ hx
    exact ⟨run, hseen, by rw [ht', Uuid.text_injective htext], hlimited⟩

namespace Sample

/-- `Calm`, while no time passes. -/
def calm (w : WithSlots) (b : SlotAction) : Bool :=
  (slotOf w b).all fun l =>
    match l with
    | .advance ms => ms = 0
    | l => TenantLimiter.isUp l && TenantLimiter.delFindsNoSlot w.limiter l

theorem calm_spec {w : WithSlots} {b : SlotAction} (h : TenantLimiter.Exact lcfg w.limiter)
    (hb : calm w b = true) : Calm w b := by
  intro l hl
  rw [calm, Option.mem_def.1 hl, Option.all_some] at hb
  cases l with
  | advance ms =>
      simp only [decide_eq_true_eq] at hb
      subst hb
      exact ⟨h.live, trivial⟩
  | acquire x u up =>
      rw [Bool.and_eq_true] at hb
      exact ⟨TenantLimiter.undisturbed_of_isUp hb.1, trivial⟩
  | decr x u up =>
      rw [Bool.and_eq_true] at hb
      exact ⟨TenantLimiter.undisturbed_of_isUp hb.1, trivial⟩
  | del x u up =>
      rw [Bool.and_eq_true] at hb
      exact ⟨TenantLimiter.undisturbed_of_isUp hb.1, TenantLimiter.delFindsNoSlot_iff.1 hb.2⟩

theorem step_calm (hmax : 1 ≤ lcfg.max) (httl : 0 < lcfg.ttlSec)
    (h : TenantLimiter.Exact lcfg w.limiter) (hb : calm w b = true)
    (hs : stepSlots cfg lcfg w b = some w') : TenantLimiter.Exact lcfg w'.limiter := by
  obtain ⟨l, hl, hlimiter, -⟩ := stepSlots_eq_some hs
  obtain ⟨hundisturbed, hdel⟩ := calm_spec h hb l hl
  exact TenantLimiter.step_exact hmax httl h hundisturbed hdel hlimiter

/-- Run 0 has the only slot and has claimed an attempt; the job is handed out again, and run 1
comes to `limiter.acquire`. -/
def refusedRun : List SlotAction :=
  enqueued.map .sys ++ [.sys (.take 0 job), .sys (.run 0 .none), .acquire 0 true] ++
    (([.run 0 .none, .run 0 .none, .run 0 .none, .run 0 .none, .run 0 (.digest []),
      .unlock job, .take 1 job, .run 1 .none] : List Action).map .sys)

/-- Run 0 has an attempt for the tenant under way. -/
def atWork (s : State) : Bool :=
  (s.runs 0).any fun run =>
    match run.phase with
    | .attempt d _ _ _ => (s.db.deliveries.find? d.id).any fun y =>
        (s.db.events.find? y.eventId).any fun e => e.tenantId = tenant
    | _ => false

theorem atWork_spec {s : State} (h : atWork s = true) : AtWork s tenant 0 := by
  obtain ⟨run, hrun, h⟩ := (Option.any_eq_true _ _).1 h
  split at h
  · rename_i d e claimed stage hphase
    obtain ⟨y, hy, h⟩ := (Option.any_eq_true _ _).1 h
    obtain ⟨ev, hev, h⟩ := (Option.any_eq_true _ _).1 h
    exact ⟨run, d, e, claimed, stage, hrun, hphase, y, ev, hy, hev, of_decide_eq_true h⟩
  · cases h

end Sample

/-- With `max = 1`, run 0 is at work and run 1 is refused. -/
theorem neighbours_kept_apart_at_refusal : ∃ w : WithSlots,
    Path (stepSlots Sample.cfg ⟨1, 60⟩) Calm initSlots w ∧ AtWork w.sys Sample.tenant 0 ∧
    granted ⟨1, 60⟩ w 1 true = false ∧
    (∀ F : Finset ℕ, (∀ r ∈ F, AtWork w.sys Sample.tenant r) → (F.card : ℤ) ≤ 1) ∧
    ((w.limiter.holders Sample.tenant.text).card : ℤ) = 1 ∧
    ∀ x ∈ w.limiter.holders Sample.tenant.text, ∃ run, w.Seen x run ∧
      run.tenantId = some Sample.tenant ∧ run.limited = true := by
  obtain ⟨w, hpath, hw⟩ := Path.exists_of_runChecked_along (stepSlots Sample.cfg ⟨1, 60⟩)
    (P := Calm) (J := fun w => TenantLimiter.Exact ⟨1, 60⟩ w.limiter) (p := Sample.calm)
    (fun _ _ hJ => Sample.calm_spec hJ)
    (fun _ _ _ hJ hp hs => Sample.step_calm (by decide) (by decide) hJ hp hs) initSlots
    (TenantLimiter.exact_init (by decide)) Sample.refusedRun
    (fun w => Sample.atWork w.sys && (tenantOf w.sys 1 = some Sample.tenant &&
      !granted ⟨1, 60⟩ w 1 true)) (by decide +kernel)
  simp only [Bool.and_eq_true, decide_eq_true_eq, Bool.not_eq_true'] at hw
  obtain ⟨hwork, htenant, hrefused⟩ := hw
  have hapart := neighbours_kept_apart Sample.cfg ⟨1, 60⟩ (by decide) (by decide) w hpath
    Sample.tenant
  exact ⟨w, hpath, Sample.atWork_spec hwork, hrefused, hapart.1, hapart.2 1 htenant hrefused⟩

end System
end HookRelay
