import HookRelay.Lib.Forgetting
import HookRelay.System.Attempts

/-!
# Purging old attempts

`purge-attempts.ts` deletes the attempts that were made before a cutoff, while everything else
goes on.  An attempt row is also the claim on its number, so a purge may hand a number out
again.

* `purgeAttempts` — the deletion.
* `step` — the system with the job beside it.  An `UPDATE` that finds its row deleted throws,
  so such a step of a run is not possible; `throw` is.
* `Lasts` — no run takes longer than `D`, and attempts are kept for at least `2 * D`.
* `counter`, `step_forgetting` — seen from one delivery, the system is the protocol of
  `HookRelay.Lib.Forgetting`.
* `Owned`, `step_owned` — a run keeps the row that it has claimed.
* `one_attempt_at_a_time_with_purge` — so the claims exclude each other all the same.
* `two_attempts_after_early_purge` — and they do not, when a run is slower than that.
-/

namespace HookRelay

open Lib

/-- `DAYS`, if it is not configured. -/
def purgeDefaultDays : ℕ := 90

/-- `DAYS * 24 * 60 * 60 * 1000`. -/
def retentionMs (days : ℕ) : ℕ := days * 24 * 60 * 60 * 1000

/-- `new Date(Date.now() - DAYS * 24 * 60 * 60 * 1000)`, as a time of the database. -/
def purgeCutoff (now : Micros) (days : ℕ) : Micros := (jsDate now - retentionMs days) * 1000

/-- `deleteMany({ where: { attemptedAt: { lt: cutoff } } })`. -/
def purgeAttempts (now : Micros) (days : ℕ) (db : Database) : Database :=
  { db with attempts := db.attempts.deleteMany fun a => a.attemptedAt < purgeCutoff now days }

theorem purgeCutoff_add_le (now : Micros) {days : ℕ} {t : Micros}
    (h : t ≤ retentionMs days * 1000) : purgeCutoff now days = 0 ∨ purgeCutoff now days + t ≤ now := by
  have hdate : jsDate now * 1000 ≤ now := Nat.div_mul_le_self now 1000
  unfold purgeCutoff
  generalize retentionMs days = kept at h ⊢
  rcases Nat.lt_or_ge (jsDate now) kept with hlt | hge
  · left
    rw [Nat.sub_eq_zero_of_le hlt.le, Nat.zero_mul]
  · right
    calc (jsDate now - kept) * 1000 + t ≤ (jsDate now - kept) * 1000 + kept * 1000 :=
          Nat.add_le_add_left h _
      _ = jsDate now * 1000 := by rw [← Nat.add_mul, Nat.sub_add_cancel hge]
      _ ≤ now := hdate

namespace System
namespace Purging

/-- The system, and when each run began. -/
structure State where
  sys : System.State
  began : ℕ → Micros

def init : State := ⟨System.init, fun _ => 0⟩

inductive Action where
  /-- A step of the system. -/
  | sys (a : System.Action)
  /-- The job runs. -/
  | purge (days : ℕ)

/-- The `deliveryAttempt.update` that a run makes next does not find its row. -/
def updatesMissing (s : System.State) : System.Action → Bool
  | .run r _ =>
      match (s.runs r).map Run.phase with
      | some (.attempt _ _ claimed (.record _)) => (s.db.attempts.find? claimed).isNone
      | some (.attempt _ _ claimed .skipRecord) => (s.db.attempts.find? claimed).isNone
      | _ => false
  | _ => false

/-- When the runs began, after a step. -/
def beganAfter (s : State) : System.Action → ℕ → Micros
  | .take _ _ => Function.update s.began s.sys.nextRun s.sys.now
  | _ => s.began

def step (cfg : WorkerConfig) (s : State) : Action → Option State
  | .sys a =>
      if updatesMissing s.sys a then none
      else (System.step cfg s.sys a).map fun sys => ⟨sys, beganAfter s a⟩
  | .purge days =>
      some { s with sys := { s.sys with db := purgeAttempts s.sys.now days s.sys.db } }

/-- While a run is under way no more than `D` passes, and attempts are kept for `2 * D`. -/
def Lasts (D : Micros) (s : State) : Action → Prop
  | .sys (.clock us) => ∀ r run, s.sys.runs r = some run → s.sys.now + us ≤ s.began r + D
  | .sys _ => True
  | .purge days => 2 * D ≤ retentionMs days * 1000

/-! ## The protocol of one delivery -/

/-- Attempt `n` of the delivery was claimed at this time, and its row is there. -/
def ClaimedAt (db : Database) (d : Uuid) (n : ℕ) (u : Micros) : Prop :=
  ∃ a ∈ db.attempts.rows, a.deliveryId = d ∧ a.attemptNo = n ∧ a.attemptedAt = u

/-- The claim protocol of one delivery. -/
def counter (s : State) (d : Uuid) : Forgetting.State ℕ where
  now := s.sys.now
  count := s.sys.db.attemptCount d
  live := s.sys.db.Open d
  row := ClaimedAt s.sys.db d
  phase r := stance d (s.sys.runs r)
  began := s.began

variable {cfg : WorkerConfig} {s s' : State} {d : Uuid} {D : Micros}

theorem attemptTaken_iff_claimedAt {db : Database} {n : ℕ} :
    db.attemptTaken d n = true ↔ ∃ u, ClaimedAt db d n u := by
  rw [Database.attemptTaken_iff]
  constructor
  · rintro ⟨a, ha, hd, hn⟩
    exact ⟨a.attemptedAt, a, ha, hd, hn, rfl⟩
  · rintro ⟨u, a, ha, hd, hn, -⟩
    exact ⟨a, ha, hd, hn⟩

theorem claimedAt_purge {db : Database} {now : Micros} {days n : ℕ} {u : Micros} :
    ClaimedAt (purgeAttempts now days db) d n u ↔
      ClaimedAt db d n u ∧ purgeCutoff now days ≤ u := by
  unfold ClaimedAt purgeAttempts
  simp only [← Table.mem_def, Serial.deleteMany_toTable, Table.mem_deleteMany]
  constructor
  · rintro ⟨a, ⟨ha, hcut⟩, hd, hn, rfl⟩
    exact ⟨⟨a, ha, hd, hn, rfl⟩, by simpa using hcut⟩
  · rintro ⟨⟨a, ha, hd, hn, rfl⟩, hcut⟩
    exact ⟨a, ⟨ha, by simpa using hcut⟩, hd, hn, rfl⟩

/-- Updates of attempts leave their numbers and times alone. -/
theorem claimedAt_modify {db : Database} {k n : ℕ} {u : Micros} {f : AttemptRow → AttemptRow}
    {hf : ∀ a, (f a).id = a.id} (hsame : ∀ a, (f a).deliveryId = a.deliveryId ∧
      (f a).attemptNo = a.attemptNo ∧ (f a).attemptedAt = a.attemptedAt) :
    ClaimedAt { db with attempts := db.attempts.modify k f hf } d n u ↔ ClaimedAt db d n u := by
  have heq : ∀ a, (if a.id = k then f a else a).deliveryId = a.deliveryId ∧
      (if a.id = k then f a else a).attemptNo = a.attemptNo ∧
      (if a.id = k then f a else a).attemptedAt = a.attemptedAt := by
    intro a
    split_ifs
    · exact hsame a
    · exact ⟨rfl, rfl, rfl⟩
  unfold ClaimedAt
  simp only [← Table.mem_def, Serial.modify_toTable, Table.mem_modify]
  constructor
  · rintro ⟨-, ⟨a, ha, rfl⟩, hd, hn, hu⟩
    obtain ⟨h₁, h₂, h₃⟩ := heq a
    exact ⟨a, ha, h₁ ▸ hd, h₂ ▸ hn, h₃ ▸ hu⟩
  · rintro ⟨a, ha, rfl, rfl, rfl⟩
    exact ⟨_, ⟨a, ha, rfl⟩, heq a⟩

/-- The statements of a run keep the claims on record; one of them adds a claim. -/
theorem claimedAt_exec {db : Database} {now : Micros} {w : Write} {n : ℕ} {u : Micros} :
    ClaimedAt (w.exec now db) d n u ↔
      ClaimedAt db d n u ∨ ∃ digest, w = .insertAttempt d n digest ∧ u = now := by
  cases w with
  | insertAttempt k m digest =>
      unfold ClaimedAt
      simp only [Write.exec, Serial.insert_rows, List.mem_append, List.mem_singleton]
      constructor
      · rintro ⟨a, ha | rfl, hd, hn, hu⟩
        · exact .inl ⟨a, ha, hd, hn, hu⟩
        · exact .inr ⟨digest, by rw [← hd, ← hn]; rfl, hu.symm⟩
      · rintro (⟨a, ha, hrest⟩ | ⟨digest', heq, rfl⟩)
        · exact ⟨a, .inl ha, hrest⟩
        · cases heq
          exact ⟨_, .inr rfl, rfl, rfl, rfl⟩
  | recordOutcome id o =>
      rw [Write.exec, claimedAt_modify fun a => by cases o <;> exact ⟨rfl, rfl, rfl⟩]
      simp
  | recordCircuitOpen id =>
      have hsame : ∀ a, (Write.circuitOpenData a).deliveryId = a.deliveryId ∧
          (Write.circuitOpenData a).attemptNo = a.attemptNo ∧
          (Write.circuitOpenData a).attemptedAt = a.attemptedAt := fun _ => ⟨rfl, rfl, rfl⟩
      rw [Write.exec, claimedAt_modify hsame]
      simp
  | _ => simp [Write.exec, ClaimedAt]

/-- The runs that know something began when they did before the step. -/
theorem sameBegan {a : System.Action} (hwf : Wf s.sys) (hb : s'.began = beganAfter s a) :
    Forgetting.SameBegan (counter s d) (counter s' d) := by
  intro r hr
  show s'.began r = s.began r
  rw [hb]
  cases a with
  | take w jobId =>
      refine Function.update_of_ne (fun hnext => hr ?_) _ _
      show stance d (s.sys.runs r) = .idle
      rw [hwf.fresh r hnext.ge]
      rfl
  | _ => rfl

/-- A step after which the records are the same. -/
theorem row_of_eq (ha : s'.sys.db.attempts = s.sys.db.attempts) (n : ℕ) (u : Micros) :
    (counter s' d).row n u ↔ (counter s d).row n u := by
  simp only [counter, ClaimedAt, ha]

theorem phase_update {r : ℕ} {new : Option Run}
    (hr : s'.sys.runs = Function.update s.sys.runs r new) :
    (counter s' d).phase = Function.update (counter s d).phase r (stance d new) :=
  System.phase_update (s := s.sys) hr

theorem phase_applyNext {r : ℕ} {run : Run} {next : Next}
    (hs : s'.sys = applyNext s.sys r run next) :
    (counter s' d).phase = Function.update (counter s d).phase r (stance d (some next.run)) :=
  phase_update (by rw [hs]; rfl)

section Planned

variable {r : ℕ} {run : Run} {next : Next}

/-- A step of a run of the delivery, after which the run knows as much as before. -/
theorem forgetting_same (hrun : s.sys.runs r = some run) (hd : run.deliveryId = d)
    (hs : s'.sys = applyNext s.sys r run next) (hb : Forgetting.SameBegan (counter s d) (counter s' d))
    (hnd : next.run.deliveryId = d) (hw : next.write.target ≠ some d)
    (hst : next.run.phase.stance = run.phase.stance) :
    Forgetting.Step D (counter s d) (counter s' d) := by
  have hsame : SameCounter s.sys.db (next.write.exec s.sys.now s.sys.db) d := exec_same hw
  have hdb : s'.sys.db = next.write.exec s.sys.now s.sys.db := by rw [hs]; rfl
  refine .stay hb ?_ ?_ (fun n u => ?_) ?_
  · simp only [counter, hdb, hsame.count]
  · simp only [counter, hdb]
    exact hsame.live.2
  · simp only [counter, hdb, claimedAt_exec]
    refine or_iff_left ?_
    rintro ⟨digest, heq, -⟩
    exact hw (by rw [heq]; rfl)
  · rw [phase_applyNext hs, stance_of_eq hnd, hst, ← stance_of_eq hd, ← hrun]
    exact Function.update_eq_self r _

/-- A step of a run of the delivery, after which the run knows nothing. -/
theorem forgetting_leave (hs : s'.sys = applyNext s.sys r run next)
    (hb : Forgetting.SameBegan (counter s d) (counter s' d)) (hnd : next.run.deliveryId = d)
    (hw : next.write.target ≠ some d) (hst : next.run.phase.stance = .idle) :
    Forgetting.Step D (counter s d) (counter s' d) := by
  have hsame : SameCounter s.sys.db (next.write.exec s.sys.now s.sys.db) d := exec_same hw
  have hdb : s'.sys.db = next.write.exec s.sys.now s.sys.db := by rw [hs]; rfl
  refine .leave r hb ?_ ?_ (fun n u => ?_) ?_
  · simp only [counter, hdb, hsame.count]
  · simp only [counter, hdb]
    exact hsame.live.2
  · simp only [counter, hdb, claimedAt_exec]
    refine or_iff_left ?_
    rintro ⟨digest, heq, -⟩
    exact hw (by rw [heq]; rfl)
  · rw [phase_applyNext hs, stance_of_eq hnd, hst]

/-- The final update of a run. -/
theorem forgetting_settle {row : DeliveryRow} {f : DeliveryRow → DeliveryRow}
    (hf : ∀ x, (f x).id = x.id) (hinv : Forgetting.Inv D (counter s d))
    (hs : s'.sys = applyNext s.sys r run next) (hb : Forgetting.SameBegan (counter s d) (counter s' d))
    (hst : (counter s d).phase r = .holding row.attemptCount) (hnd : next.run.deliveryId = d)
    (hidle : next.run.phase.stance = .idle)
    (hdel : (next.write.exec s.sys.now s.sys.db).deliveries = s.sys.db.deliveries.modify d f hf)
    (hatt : (next.write.exec s.sys.now s.sys.db).attempts = s.sys.db.attempts)
    (hcount : ∀ x, (f x).attemptCount = row.attemptCount + 1) :
    Forgetting.Step D (counter s d) (counter s' d) := by
  obtain ⟨-, ⟨x, hx, -⟩, -⟩ := hinv.holding r _ hst
  have hdb : s'.sys.db = next.write.exec s.sys.now s.sys.db := by rw [hs]; rfl
  refine .settle r row.attemptCount hb hst ?_ (row_of_eq (by rw [hdb, hatt])) ?_
  · simp only [counter, Database.attemptCount, hdb, hdel, Table.find?_modify_self, hx,
      Option.map_some, Option.getD_some, hcount]
  · rw [phase_applyNext hs, stance_of_eq hnd, hidle]

/-- A step of a run of the delivery is a move of its protocol. -/
theorem planned_forgetting (hwf : Wf s.sys) (hinv : Forgetting.Inv D (counter s d))
    (hb : Forgetting.SameBegan (counter s d) (counter s' d)) (hrun : s.sys.runs r = some run)
    (hd : run.deliveryId = d)
    (hp : Planned cfg s.sys.now s.sys.db (s.sys.cache run.worker) run run.phase next)
    (hs : s'.sys = applyNext s.sys r run next) :
    Forgetting.Step D (counter s d) (counter s' d) := by
  have hst : (counter s d).phase r = run.phase.stance := by
    show stance d (s.sys.runs r) = _
    rw [hrun, stance_of_eq hd]
  have hnd : next.run.deliveryId = d := hp.deliveryId_eq.1.trans hd
  have same := forgetting_same (D := D) hrun hd hs hb hnd
  have leave := forgetting_leave (D := D) hs hb hnd
  have after : ∀ {row : DeliveryRow} {e : EndpointConfig},
      run.phase.stance = .seen row.attemptCount → next.run.phase = afterEndpoint row e →
      next.write = .skip → Forgetting.Step D (counter s d) (counter s' d) := by
    intro row e hseen hphase hw
    rcases stance_afterEndpoint row e with h | h
    · exact same (by rw [hw]; simp [Write.target]) (by rw [hphase, hseen, h])
    · exact leave (by rw [hw]; simp [Write.target]) (by rw [hphase, h])
  generalize hphase : run.phase = p at hp
  have hpst : run.phase.stance = p.stance := by rw [hphase]
  cases hp with
  | tenantKnown | tenantFound | tenantMissing | acquired | notAcquired | missing | done
  | notCached | loaded | retries | ends | retryCounted | retryScheduled =>
      exact same (by simp [Run.goto, Run.writing, Write.target]) (by rw [hpst]; rfl)
  | found row hfind hopen =>
      subst hd
      refine .look r hb (by rw [hst, hpst]; simp [Phase.stance]) ⟨row, hfind, hopen⟩ ?_ ?_
        (row_of_eq (by rw [hs]; rfl)) ?_
      · simp only [counter, hs]
        rfl
      · simp only [counter, hs]
        exact id
      · have hcount : (counter s run.deliveryId).count = row.attemptCount := by
          simp [counter, Database.attemptCount, hfind]
        rw [phase_applyNext hs, hcount, stance_of_eq (by rfl)]
        rfl
  | cached row entry _ => exact after (by rw [hpst]; rfl) rfl rfl
  | stored row e => exact after (by rw [hpst]; rfl) rfl rfl
  | endpointMissing | duplicate => exact leave (by simp [Run.goto, Write.target]) rfl
  | claimed row e text hfree =>
      have hrow : row.id = d := by
        rw [← hd]
        exact hwf.row_id r run row hrun (by rw [hphase]; rfl)
      rw [hrow] at hfree
      have hnot : ∀ u, ¬ ClaimedAt s.sys.db d (row.attemptCount + 1) u := by
        intro u hu
        rw [attemptTaken_iff_claimedAt.2 ⟨u, hu⟩] at hfree
        cases hfree
      refine .claim r row.attemptCount hb (by rw [hst, hpst]; rfl) hnot ?_ ?_ (fun n u => ?_) ?_
      · simp only [counter, hs]
        rfl
      · simp only [counter, hs]
        exact id
      · have hdb : s'.sys.db = Write.exec s.sys.now s.sys.db
            (.insertAttempt row.id (row.attemptCount + 1) text) := by rw [hs]; rfl
        simp only [counter, hdb, claimedAt_exec, hrow, Write.insertAttempt.injEq, true_and]
        refine or_congr Iff.rfl ⟨?_, ?_⟩
        · rintro ⟨-, ⟨rfl, -⟩, rfl⟩
          exact ⟨rfl, rfl⟩
        · rintro ⟨rfl, rfl⟩
          exact ⟨text, ⟨rfl, rfl⟩, rfl⟩
      · rw [phase_applyNext hs, stance_of_eq hnd]
        rfl
  | attempt row e claimed stage _ ha =>
      have hrow : row.id = d := by
        rw [← hd]
        exact hwf.row_id r run row hrun (by rw [hphase]; rfl)
      subst hrow
      have hhold : (counter s row.id).phase r = .holding row.attemptCount := by
        rw [hst, hpst]
        rfl
      cases ha with
      | succeeded =>
          exact forgetting_settle (Write.succeededData_id s.sys.now _) hinv hs hb hhold hnd rfl
            rfl rfl fun _ => rfl
      | failed | failedOpen =>
          exact forgetting_settle (Write.failedData_id s.sys.now _ _) hinv hs hb hhold hnd rfl
            rfl rfl fun _ => rfl
      | _ => exact same (by simp [Run.goto, Run.writing, Write.target]) (by rw [hpst]; rfl)

end Planned

/-! ## Every step is a move -/

/-- New deliveries leave counters as they are, and open ones open. -/
theorem reserved_same {db db' : Database} {ds : List DeliveryRow}
    (hds : ∀ x ∈ ds, x.attemptCount = 0) (hrows : db'.deliveries.rows = db.deliveries.rows ++ ds) :
    db'.attemptCount d = db.attemptCount d ∧ (db.Open d → db'.Open d) := by
  have hfind : db'.deliveries.find? d =
      (db.deliveries.find? d).or (ds.find? fun x => x.id = d) := by
    unfold Table.find?
    rw [hrows, List.find?_append]
  constructor
  · unfold Database.attemptCount
    rw [hfind]
    cases db.deliveries.find? d with
    | some x => rfl
    | none =>
        cases hnew : ds.find? fun x => x.id = d with
        | none => rfl
        | some x => simp [hds x (List.mem_of_find?_eq_some hnew)]
  · rintro ⟨x, hx, hopen⟩
    exact ⟨x, by rw [hfind, hx]; rfl, hopen⟩

/-- **The simulation.**  Every step of the system or the job is a move of the protocol of every
delivery, if the job keeps attempts for `2 * D`. -/
theorem step_forgetting {a : Action} (hwf : Wf s.sys) (hinv : Forgetting.Inv D (counter s d))
    (hlasts : Lasts D s a) (hs : step cfg s a = some s') :
    Forgetting.Step D (counter s d) (counter s' d) := by
  cases a with
  | purge days =>
      cases hs
      -- a cutoff that would lie before the epoch deletes nothing
      rcases purgeCutoff_add_le s.sys.now hlasts with hzero | hle
      · refine .stay (fun _ _ => rfl) rfl id (fun n u => ?_) rfl
        refine claimedAt_purge.trans (and_iff_left ?_)
        rw [hzero]
        exact Nat.zero_le u
      · exact .forget _ hle (fun _ _ => rfl) rfl id (fun n u => claimedAt_purge) rfl
  | sys a =>
      simp only [step] at hs
      split_ifs at hs
      obtain ⟨sys, hsys, rfl⟩ := Option.map_eq_some_iff.1 hs
      have hb : Forgetting.SameBegan (counter s d) (counter ⟨sys, beganAfter s a⟩ d) :=
        sameBegan hwf rfl
      -- a step that replaces the run `r` by one that knows nothing
      have leave : ∀ {r : ℕ} {new : Option Run}, sys.db = s.sys.db →
          sys.runs = Function.update s.sys.runs r new → stance d new = .idle →
          Forgetting.Step D (counter s d) (counter ⟨sys, beganAfter s a⟩ d) := by
        intro r new hdb hr hnew
        refine .leave r hb (by simp only [counter, hdb]) (by simp only [counter, hdb]; exact id)
          (row_of_eq (by rw [hdb])) ?_
        rw [phase_update hr, hnew]
      cases step_change hsys with
      | outside hdel hatt hr _ _ _ =>
          have hsame : SameCounter s.sys.db sys.db d := .of_eq hdel hatt
          exact .stay hb hsame.count hsame.live.2 (row_of_eq hatt) (by simp only [counter, hr])
      | reserved ds hds hrows hatt hr _ _ _ _ =>
          obtain ⟨hcount, hopen⟩ := reserved_same (d := d) (fun x hx => (hds x hx).2.2.1) hrows
          exact .stay hb hcount hopen (row_of_eq hatt) (by simp only [counter, hr])
      | reopened tenantId deliveryId outboxId x hx hdel hatt hr _ _ _ =>
          have hid := (Table.find?_eq_some_iff.1 hx).2
          refine .stay hb ?_ ?_ (row_of_eq hatt) (by simp only [counter, hr])
          · simp only [counter, Database.attemptCount, hdel, Table.find?_modify]
            split_ifs with hd
            · rw [hd, hid, hx]
              rfl
            · rfl
          · rintro ⟨y, hy, hopen⟩
            by_cases hd : d = x.id
            · refine ⟨Database.reopen s.sys.now x, ?_, rfl⟩
              simp [hdel, hd, hid, hx]
            · refine ⟨y, ?_, hopen⟩
              rw [hdel, Table.find?_modify_of_ne _ _ _ hd]
              exact hy
      | started w jobId j _ _ heq =>
          refine leave (r := s.sys.nextRun) (by rw [heq]) (by rw [heq]) ?_
          by_cases hj : j.deliveryId = d
          · rw [stance_of_eq (by exact hj)]
            rfl
          · exact stance_of_ne (by exact hj)
      | planned r i run next hrun hp heq =>
          by_cases hd : run.deliveryId = d
          · exact planned_forgetting hwf hinv hb hrun hd hp heq
          · -- the run is about another delivery
            have hne : next.write.target ≠ some d :=
              hp.target_ne hd fun row hrow => hwf.row_id r run row hrun hrow
            have hsame : SameCounter s.sys.db (next.write.exec s.sys.now s.sys.db) d :=
              exec_same hne
            have hdb : sys.db = next.write.exec s.sys.now s.sys.db := by rw [heq]; rfl
            refine .stay hb ?_ ?_ (fun n u => ?_) ?_
            · simp only [counter, hdb, hsame.count]
            · simp only [counter, hdb]
              exact hsame.live.2
            · simp only [counter, hdb, claimedAt_exec]
              refine or_iff_left ?_
              rintro ⟨digest, hw, -⟩
              exact hne (by rw [hw]; rfl)
            · rw [phase_applyNext heq, stance_of_ne (hp.deliveryId_eq.1 ▸ hd), ← stance_of_ne hd, ← hrun]
              exact Function.update_eq_self r _
      | left r i run _ hgo =>
          obtain ⟨-, queue, heq⟩ := letGo_eq_some hgo
          exact leave (r := r) (by rw [heq]; rfl) (by rw [heq]; rfl) rfl
      | threw r run _ _ heq =>
          refine leave (r := r) (by rw [heq]; rfl) (by rw [heq]; rfl) ?_
          by_cases hd : run.deliveryId = d
          · exact stance_of_eq (by exact hd)
          · exact stance_of_ne (by exact hd)
      | crashed r run _ heq => exact leave (r := r) (by rw [heq]; rfl) (by rw [heq]; rfl) rfl

/-! ## The result -/

/-- What holds in every state of a run in which no run of a worker takes too long. -/
structure Sound (D : Micros) (s : State) : Prop where
  wf : Wf s.sys
  timely : ∀ r run, s.sys.runs r = some run → s.began r ≤ s.sys.now ∧ s.sys.now ≤ s.began r + D
  inv : ∀ d, Forgetting.Inv D (counter s d)

theorem Sound.timely_counter (h : Sound D s) (d : Uuid) : Forgetting.Timely D (counter s d) := by
  intro r hr
  cases hrun : s.sys.runs r with
  | some run => exact h.timely r run hrun
  | none => exact absurd (by simp [counter, hrun, stance]) hr

theorem timely_of_step {a : Action}
    (h : ∀ r run, s.sys.runs r = some run → s.began r ≤ s.sys.now ∧ s.sys.now ≤ s.began r + D)
    (hlasts : Lasts D s a) (hs : step cfg s a = some s') (r : ℕ) (run : Run)
    (hrun : s'.sys.runs r = some run) :
    s'.began r ≤ s'.sys.now ∧ s'.sys.now ≤ s'.began r + D := by
  cases a with
  | purge days =>
      cases hs
      exact h r run hrun
  | sys a =>
      simp only [step] at hs
      split_ifs at hs
      obtain ⟨sys, hsys, rfl⟩ := Option.map_eq_some_iff.1 hs
      -- a step of anything but the clock, after which no run is new
      have same : sys.now = s.sys.now → beganAfter s a = s.began →
          (∃ old, s.sys.runs r = some old) →
          beganAfter s a r ≤ sys.now ∧ sys.now ≤ beganAfter s a r + D := by
        rintro hnow hbegan ⟨old, hold⟩
        rw [hnow, hbegan]
        exact h r old hold
      have updated : ∀ {k : ℕ} {new : Option Run} {old : Run}, s.sys.runs k = some old →
          sys.runs = Function.update s.sys.runs k new → ∃ old, s.sys.runs r = some old := by
        intro k new old hk hupd
        by_cases hrk : r = k
        · exact ⟨old, hrk ▸ hk⟩
        · rw [hupd, Function.update_of_ne hrk] at hrun
          exact ⟨run, hrun⟩
      cases stepped_of_step hsys with
      | clock us =>
          have hle := hlasts r run hrun
          exact ⟨(h r run hrun).1.trans (Nat.le_add_right _ _), hle⟩
      | take w jobId j hj hlock =>
          show Function.update s.began s.sys.nextRun s.sys.now r ≤ s.sys.now ∧
            s.sys.now ≤ Function.update s.began s.sys.nextRun s.sys.now r + D
          by_cases hr : r = s.sys.nextRun
          · subst hr
            rw [Function.update_self]
            exact ⟨le_refl _, Nat.le_add_right _ _⟩
          · simp only [Function.update_of_ne hr] at hrun ⊢
            exact h r run hrun
      | tickAdd k m ms published =>
          obtain ⟨queue, accepted, heq⟩ := addJobs_frame m.id (jobsOf cfg.maxAttempts m) s.sys
          rw [heq] at hrun ⊢
          exact h r run hrun
      | tickFail k mask m ms published =>
          obtain ⟨queue, accepted, heq⟩ :=
            addJobs_frame m.id (addedBeforeFailure mask (jobsOf cfg.maxAttempts m)) s.sys
          rw [heq] at hrun ⊢
          exact h r run hrun
      | planned k i old next hk => exact same rfl rfl (updated hk rfl)
      | left k i old _ hk hgo =>
          obtain ⟨-, queue, rfl⟩ := letGo_eq_some hgo
          exact same rfl rfl (updated hk rfl)
      | threw k old hk => exact same rfl rfl (updated hk rfl)
      | crashed k old hk => exact same rfl rfl (updated hk rfl)
      | _ => exact same rfl rfl ⟨run, hrun⟩

theorem step_sound {a : Action} (h : Sound D s) (hlasts : Lasts D s a)
    (hs : step cfg s a = some s') : Sound D s' where
  wf := by
    cases a with
    | purge days =>
        cases hs
        exact ⟨h.wf.fresh, h.wf.row_id⟩
    | sys a =>
        simp only [step] at hs
        split_ifs at hs
        obtain ⟨sys, hsys, rfl⟩ := Option.map_eq_some_iff.1 hs
        exact step_wf h.wf hsys
  timely := timely_of_step h.timely hlasts hs
  inv := fun d => (step_forgetting h.wf (h.inv d) hlasts hs).inv (h.timely_counter d) (h.inv d)

theorem sound_init : Sound D init :=
  ⟨wf_init, (fun _ _ hr => by cases hr), fun _ => .of_fresh
    (fun _ _ hn => by obtain ⟨a, ha, -⟩ := hn; cases ha) (fun _ => rfl)⟩

theorem path_sound (h : Path (step cfg) (Lasts D) init s) : Sound D s :=
  h.invariant (fun _ _ _ hI hlasts hs => step_sound hI hlasts hs) sound_init

theorem holds_iff {r : ℕ} : Holds s.sys d r ↔ ∃ k, (counter s d).phase r = .holding k :=
  System.holds_iff

/-! ## The row of a claim -/

/-- The statements of a run change nothing of an attempt but its result. -/
theorem exec_attempt_kept {db : Database} (now : Micros) (w : Write) {x : AttemptRow}
    (hx : x ∈ db.attempts.rows) : ∃ y ∈ (w.exec now db).attempts.rows, y.id = x.id ∧
      y.deliveryId = x.deliveryId ∧ y.attemptNo = x.attemptNo ∧ y.attemptedAt = x.attemptedAt := by
  have modified : ∀ {k : ℕ} {f : AttemptRow → AttemptRow} {hf : ∀ a, (f a).id = a.id},
      (∀ a, (f a).deliveryId = a.deliveryId ∧ (f a).attemptNo = a.attemptNo ∧
        (f a).attemptedAt = a.attemptedAt) →
      ∃ y ∈ (db.attempts.modify k f hf).rows, y.id = x.id ∧ y.deliveryId = x.deliveryId ∧
        y.attemptNo = x.attemptNo ∧ y.attemptedAt = x.attemptedAt := by
    intro k f hf hsame
    refine ⟨if x.id = k then f x else x, ?_, ?_⟩
    · simp only [← Table.mem_def, Serial.modify_toTable, Table.mem_modify]
      exact ⟨x, hx, rfl⟩
    split_ifs
    · exact ⟨hf x, hsame x⟩
    · exact ⟨rfl, rfl, rfl, rfl⟩
  cases w with
  | insertAttempt d n digest =>
      refine ⟨x, ?_, rfl, rfl, rfl, rfl⟩
      simp only [Write.exec, Serial.insert_rows]
      exact List.mem_append_left _ hx
  | recordOutcome id o => exact modified fun a => by cases o <;> exact ⟨rfl, rfl, rfl⟩
  | recordCircuitOpen id => exact modified fun _ => ⟨rfl, rfl, rfl⟩
  | _ => exact ⟨x, hx, rfl, rfl, rfl, rfl⟩

/-- A run that makes an attempt was making it before, or has just claimed it. -/
theorem planned_attempt {db : Database} {now : Micros} {cache : EndpointCache} {run : Run}
    {p : Phase} {next : Next} {row : DeliveryRow} {e : EndpointConfig} {claimed : ℕ}
    {stage : Stage} (h : Planned cfg now db cache run p next)
    (hnext : next.run.phase = .attempt row e claimed stage) :
    (∃ stage', p = .attempt row e claimed stage') ∨ claimed = db.attempts.next ∧
      ∃ text, next.write = .insertAttempt row.id (row.attemptCount + 1) text := by
  have after : ∀ {d : DeliveryRow} {e' : EndpointConfig},
      afterEndpoint d e' ≠ .attempt row e claimed stage := by
    intro d e' heq
    unfold afterEndpoint at heq
    split_ifs at heq
  cases h with
  | claimed d e text hfree =>
      cases hnext
      exact .inr ⟨rfl, text, rfl⟩
  | attempt d e claimed stage _ ha => cases ha <;> cases hnext <;> exact .inl ⟨_, rfl⟩
  | cached d entry _ => exact absurd hnext after
  | stored d e => exact absurd hnext after
  | _ => cases hnext

/-- A run that makes an attempt has the row it claimed, and this was claimed after it began. -/
def Owned (s : State) : Prop :=
  ∀ r run row e claimed stage, s.sys.runs r = some run → run.phase = .attempt row e claimed stage →
    ∃ x ∈ s.sys.db.attempts.rows, x.id = claimed ∧ x.deliveryId = row.id ∧
      x.attemptNo = row.attemptCount + 1 ∧ s.began r ≤ x.attemptedAt

/-- The job leaves the rows that the runs have claimed. -/
theorem Owned.purge {days : ℕ} (h : Owned s) (hsound : Sound D s)
    (hkept : 2 * D ≤ retentionMs days * 1000) :
    Owned { s with sys := { s.sys with db := purgeAttempts s.sys.now days s.sys.db } } := by
  intro r run row e claimed stage hrun hphase
  obtain ⟨x, hx, hid, hd, hn, hbegan⟩ := h r run row e claimed stage hrun hphase
  refine ⟨x, ?_, hid, hd, hn, hbegan⟩
  have hcut : purgeCutoff s.sys.now days ≤ x.attemptedAt := by
    obtain ⟨-, hlasts⟩ := hsound.timely r run hrun
    rcases purgeCutoff_add_le s.sys.now hkept with hzero | hle
    · rw [hzero]
      exact Nat.zero_le _
    · refine le_trans ?_ hbegan
      have hroom : purgeCutoff s.sys.now days + D + D ≤ s.began r + D := by
        rw [Nat.add_assoc, ← Nat.two_mul]
        exact hle.trans hlasts
      exact (Nat.le_add_right _ D).trans (Nat.le_of_add_le_add_right hroom)
  show x ∈ (s.sys.db.attempts.deleteMany _).toTable
  rw [Serial.deleteMany_toTable, Table.mem_deleteMany]
  exact ⟨hx, by simpa using hcut⟩

/-- **A run keeps the row that it has claimed.** -/
theorem step_owned {a : Action} (hsound : Sound D s) (h : Owned s) (hlasts : Lasts D s a)
    (hs : step cfg s a = some s') : Owned s' := by
  cases a with
  | purge days =>
      cases hs
      exact h.purge hsound hlasts
  | sys a =>
      simp only [step] at hs
      split_ifs at hs
      obtain ⟨sys, hsys, rfl⟩ := Option.map_eq_some_iff.1 hs
      intro r run row e claimed stage hrun hphase
      have began : ∀ {old : Run}, s.sys.runs r = some old → beganAfter s a r = s.began r := by
        intro old hold
        cases a with
        | take w jobId => exact Function.update_of_ne (hsound.wf.lt_nextRun hold).ne _ _
        | _ => rfl
      -- an attempt that was under way before
      have kept : ∀ (w : Write) {stage' : Stage} {old : Run},
          sys.db.attempts = (w.exec s.sys.now s.sys.db).attempts → s.sys.runs r = some old →
          old.phase = .attempt row e claimed stage' →
          ∃ x ∈ sys.db.attempts.rows, x.id = claimed ∧ x.deliveryId = row.id ∧
            x.attemptNo = row.attemptCount + 1 ∧ beganAfter s a r ≤ x.attemptedAt := by
        intro w stage' old hdb hold hp
        obtain ⟨x, hx, hid, hd, hn, hle⟩ := h r old row e claimed stage' hold hp
        obtain ⟨y, hy, hyid, hyd, hyn, hya⟩ := exec_attempt_kept s.sys.now w hx
        refine ⟨y, by rw [hdb]; exact hy, hyid.trans hid, hyd.trans hd, hyn.trans hn, ?_⟩
        rw [began hold, hya]
        exact hle
      -- another run has moved
      have other : ∀ (w : Write) {k : ℕ} {new : Option Run},
          sys.db.attempts = (w.exec s.sys.now s.sys.db).attempts →
          sys.runs = Function.update s.sys.runs k new → r ≠ k →
          ∃ x ∈ sys.db.attempts.rows, x.id = claimed ∧ x.deliveryId = row.id ∧
            x.attemptNo = row.attemptCount + 1 ∧ beganAfter s a r ≤ x.attemptedAt := by
        intro w k new hdb hupd hrk
        rw [show sys.runs r = s.sys.runs r by rw [hupd, Function.update_of_ne hrk]] at hrun
        exact kept w hdb hrun hphase
      have own : ∀ {new : Option Run}, sys.runs = Function.update s.sys.runs r new →
          new = some run := by
        intro new hupd
        rwa [hupd, Function.update_self] at hrun
      cases step_change hsys with
      | outside _ hatt hr _ _ _ => exact kept .skip hatt (hr ▸ hrun) hphase
      | reserved _ _ _ hatt hr _ _ _ _ => exact kept .skip hatt (hr ▸ hrun) hphase
      | reopened _ _ _ _ _ _ hatt hr _ _ _ => exact kept .skip hatt (hr ▸ hrun) hphase
      | started w jobId j _ _ heq =>
          by_cases hr : r = s.sys.nextRun
          · obtain rfl := Option.some.inj (own (by rw [heq, hr]))
            cases hphase
          · exact other .skip (by rw [heq]; rfl) (by rw [heq]) hr
      | planned k i before next hbefore hp heq =>
          have hdb : sys.db = next.write.exec s.sys.now s.sys.db := by rw [heq]; rfl
          by_cases hr : r = k
          · subst hr
            obtain rfl := Option.some.inj (own (by rw [heq]; rfl))
            rcases planned_attempt hp hphase with ⟨stage', hold⟩ | ⟨rfl, text, hw⟩
            · exact kept next.write (by rw [hdb]) hbefore hold
            · -- the claim itself
              refine ⟨Write.newAttempt s.sys.now row.id (row.attemptCount + 1) text
                s.sys.db.attempts.next, ?_, rfl, rfl, rfl, ?_⟩
              · rw [hdb, hw]
                simp [Write.exec, Serial.insert_rows]
              · exact (began hbefore).le.trans (hsound.timely r before hbefore).1
          · exact other next.write (by rw [hdb]) (by rw [heq]; rfl) hr
      | left k i before _ hgo =>
          obtain ⟨-, queue, heq⟩ := letGo_eq_some hgo
          by_cases hr : r = k
          · subst hr
            have hnone : none = some run := own (by rw [heq]; rfl)
            cases hnone
          · exact other .skip (by rw [heq]; rfl) (by rw [heq]; rfl) hr
      | threw k before _ _ heq =>
          by_cases hr : r = k
          · subst hr
            obtain rfl := Option.some.inj (own (by rw [heq]; rfl))
            cases hphase
          · exact other .skip (by rw [heq]; rfl) (by rw [heq]; rfl) hr
      | crashed k before _ heq =>
          by_cases hr : r = k
          · subst hr
            have hnone : none = some run := own (by rw [heq]; rfl)
            cases hnone
          · exact other .skip (by rw [heq]; rfl) (by rw [heq]; rfl) hr

theorem path_owned (h : Path (step cfg) (Lasts D) init s) : Owned s :=
  h.invariant_along (J := Sound D) (fun _ => path_sound)
    (fun _ _ _ hJ hI hlasts hs => step_owned hJ hI hlasts hs) fun _ _ _ _ _ _ hrun => by cases hrun

/-- **One attempt at a time, though old attempts are purged.**  In every run of the system with
the purge job beside it, in which no run of a worker takes longer than `D` and attempts are kept
for at least `2 * D`: at most one run of a delivery is between its claim and its final update,
the row that it has claimed is there for its result, the numbers on record are at most
`attemptCount + 1`, and no step lowers `attemptCount`. -/
theorem one_attempt_at_a_time_with_purge (cfg : WorkerConfig) (D : Micros) (s : State)
    (h : Path (step cfg) (Lasts D) init s) (d : Uuid) :
    (∀ r r', Holds s.sys d r → Holds s.sys d r' → r = r') ∧
    (∀ r run row e claimed stage, s.sys.runs r = some run → run.deliveryId = d →
      run.phase = .attempt row e claimed stage → ∃ x ∈ s.sys.db.attempts.rows,
        x.id = claimed ∧ x.deliveryId = d ∧ x.attemptNo = s.sys.db.attemptCount d + 1) ∧
    (∀ n, s.sys.db.attemptTaken d n = true → 1 ≤ n ∧ n ≤ s.sys.db.attemptCount d + 1) ∧
    (∀ a s', Lasts D s a → step cfg s a = some s' →
      s.sys.db.attemptCount d ≤ s'.sys.db.attemptCount d) := by
  have hsound := path_sound h
  have hinv := hsound.inv d
  refine ⟨fun r r' hr hr' => ?_, fun r run row e claimed stage hrun hd hphase => ?_,
    fun n hn => ?_, fun a s' hlasts hs => ?_⟩
  · obtain ⟨k, hk⟩ := holds_iff.1 hr
    obtain ⟨k', hk'⟩ := holds_iff.1 hr'
    exact hinv.unique r r' k k' hk hk'
  · obtain ⟨x, hx, hid, hxd, hxn, -⟩ := path_owned h r run row e claimed stage hrun hphase
    have hrow : row.id = d :=
      (hsound.wf.row_id r run row hrun (by rw [hphase]; rfl)).trans hd
    have hk : (counter s d).phase r = .holding row.attemptCount := by
      show stance d (s.sys.runs r) = _
      rw [hrun, stance_of_eq hd, hphase]
      rfl
    obtain ⟨hcount, -⟩ := hinv.holding r _ hk
    exact ⟨x, hx, hid, hxd.trans hrow, hxn.trans (congrArg (· + 1) hcount)⟩
  · obtain ⟨u, hu⟩ := attemptTaken_iff_claimedAt.1 hn
    exact hinv.row_le n u hu
  · exact (step_forgetting hsound.wf hinv hlasts hs).count_le hinv

/-! ## Two replays -/

namespace Sample

def ofSys (as : List System.Action) : List Action := as.map .sys

/-- `Lasts`, of runs that have a number below `nextRun`. -/
def lasts (D : Micros) (s : State) : Action → Bool
  | .sys (.clock us) => (List.range s.sys.nextRun).all fun r =>
      (s.sys.runs r).all fun _ => s.sys.now + us ≤ s.began r + D
  | .sys _ => true
  | .purge days => 2 * D ≤ retentionMs days * 1000

theorem lasts_spec {s : State} {a : Action} (hwf : Wf s.sys) (h : lasts D s a = true) :
    Lasts D s a := by
  cases a with
  | purge days =>
      rw [lasts, decide_eq_true_eq] at h
      exact h
  | sys a =>
      cases a with
      | clock us =>
          intro r run hrun
          have hr := List.all_eq_true.1 h r (List.mem_range.2 (hwf.lt_nextRun hrun))
          rw [hrun] at hr
          exact of_decide_eq_true hr
      | _ => trivial

theorem holds_spec {s : System.State} {r : ℕ} (h : System.Sample.holds s r = true) :
    Holds s System.Sample.delivery r := by
  unfold System.Sample.holds at h
  split at h
  · rename_i run hrun
    split at h
    · rename_i row e claimed stage hp
      exact ⟨run, row, e, claimed, stage, hrun, of_decide_eq_true h, hp⟩
    · cases h
  · cases h

/-- The attempts on record. -/
def numbers (s : State) : List ℕ := s.sys.db.attempts.rows.map AttemptRow.attemptNo

/-- Half a minute. -/
def maxRun : Micros := 30 * 1000 * 1000

def day : Micros := 24 * 60 * 60 * 1000 * 1000

/-- An attempt fails; 91 days later the delivery has claimed its second one, and the job runs. -/
def purgedLater : List Action :=
  ofSys (System.Sample.failedOnce ++ [.clock (91 * day), .take 1 System.Sample.job] ++
    System.Sample.toClaim 1 ++ [.run 1 (.digest [])]) ++ [.purge purgeDefaultDays]

/-- Two runs have looked at the delivery, one has claimed an attempt, and a job that keeps
nothing runs before the other one claims. -/
def purgedEarly : List Action :=
  ofSys (System.Sample.beforeClaim ++ [.unlock System.Sample.job, .take 1 System.Sample.job] ++
    System.Sample.toClaim 1 ++ [.run 1 (.digest []), .clock 1000]) ++
  [.purge 0, .sys (.run 0 (.digest []))]

end Sample

/-- At a state in which the first attempt has been purged, and the second is under way. -/
theorem one_attempt_at_a_time_after_purge : ∃ s,
    Path (step System.Sample.cfg) (Lasts Sample.maxRun) init s ∧ Sample.numbers s = [2] ∧
    Holds s.sys System.Sample.delivery 1 ∧
    (∀ r, Holds s.sys System.Sample.delivery r → r = 1) ∧
    ∃ x ∈ s.sys.db.attempts.rows, x.deliveryId = System.Sample.delivery ∧
      x.attemptNo = s.sys.db.attemptCount System.Sample.delivery + 1 := by
  obtain ⟨s, hpath, hs⟩ := Path.exists_of_runChecked_along (step System.Sample.cfg)
    (P := Lasts Sample.maxRun) (J := Sound Sample.maxRun) (p := Sample.lasts Sample.maxRun)
    (fun _ _ hJ => Sample.lasts_spec hJ.wf)
    (fun _ _ _ hJ hp hs => step_sound hJ (Sample.lasts_spec hJ.wf hp) hs) init
    sound_init Sample.purgedLater
    (fun s => System.Sample.holds s.sys 1 && (Sample.numbers s = [2])) (by decide +kernel)
  rw [Bool.and_eq_true, decide_eq_true_eq] at hs
  have hone := Sample.holds_spec hs.1
  have hres := one_attempt_at_a_time_with_purge System.Sample.cfg Sample.maxRun s hpath
    System.Sample.delivery
  have hheld := hone
  obtain ⟨run, row, e, claimed, stage, hrun, hd, hphase⟩ := hheld
  obtain ⟨x, hx, -, hrest⟩ := hres.2.1 1 run row e claimed stage hrun hd hphase
  exact ⟨s, hpath, hs.2, hone, fun r hr => hres.1 r 1 hr hone, x, hx, hrest⟩

/-- Without `Lasts`, two runs come to make attempt 1 of one delivery at the same time. -/
theorem two_attempts_after_early_purge : ∃ s,
    Path (step System.Sample.cfg) (fun _ _ => True) init s ∧
    Holds s.sys System.Sample.delivery 0 ∧ Holds s.sys System.Sample.delivery 1 := by
  obtain ⟨s, hpath, hs⟩ := Path.exists_of_runChecked (step System.Sample.cfg)
    (P := fun _ _ => True) (p := fun _ _ => true) (fun _ _ _ => trivial) init
    Sample.purgedEarly (fun s => System.Sample.holds s.sys 0 && System.Sample.holds s.sys 1)
    (by decide +kernel)
  rw [Bool.and_eq_true] at hs
  exact ⟨s, hpath, Sample.holds_spec hs.1, Sample.holds_spec hs.2⟩

end Purging
end System
end HookRelay
