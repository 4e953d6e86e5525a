import HookRelay.Lib.Claims
import HookRelay.System.Changes

/-!
# One attempt at a time

Seen from one delivery, the system is the claim protocol of `Lib.Claims`: `attemptCount`
is the counter, the attempt rows are the numbers claimed, `PENDING` and
`FAILED_RETRYING` mean that the counter is live, and a run that works on the delivery
has seen or holds a number.

* `counter` — that view of a state.
* `step_counter` — every step of the system is a move of the protocol on every delivery;
  a claim is abandoned only by a run that throws or dies while it holds one.
* `path_inv` — so the protocol's invariant holds in every reachable state.
* `one_attempt_at_a_time` — at most one run of a delivery is between its claim and its
  final update, no attempt is sent twice, `attemptCount` never decreases, and the numbers
  claimed are `1 … attemptCount`, and `attemptCount + 1` when that claim is unresolved.
-/

namespace HookRelay

open Lib

/-- What a run in this phase knows about the counter. -/
def Phase.stance : Phase → Claims.Phase
  | .lookup d => .seen d.attemptCount
  | .load d => .seen d.attemptCount
  | .store d _ => .seen d.attemptCount
  | .claim d _ => .seen d.attemptCount
  | .attempt d _ _ _ => .holding d.attemptCount
  | _ => .idle

/-- The delivery whose counter a statement may change. -/
def Write.target : Write → Option Uuid
  | .insertAttempt d _ _ => some d
  | .settleSuccess d _ => some d
  | .settleFailure d _ _ => some d
  | _ => none

/-- A run writes only about its own delivery. -/
theorem Planned.target_ne {cfg : WorkerConfig} {now : Micros} {db : Database}
    {cache : EndpointCache} {run : Run} {p : Phase} {next : Next} {d : Uuid}
    (h : Planned cfg now db cache run p next) (hd : run.deliveryId ≠ d)
    (hrow : ∀ row, p.row? = some row → row.id = run.deliveryId) : next.write.target ≠ some d := by
  have own : ∀ row, p.row? = some row → some row.id ≠ some d := by
    intro row h heq
    rw [hrow row h, Option.some.injEq] at heq
    exact hd heq
  cases h with
  | claimed row e text _ => exact own row rfl
  | attempt row e claimed stage _ ha =>
      cases ha <;> first | exact own row rfl | simp [Run.goto, Run.writing, Write.target]
  | _ => simp [Run.goto, Run.writing, Write.target]

namespace Database

/-- `attemptCount` of a delivery. -/
def attemptCount (db : Database) (d : Uuid) : ℕ :=
  ((db.deliveries.find? d).map DeliveryRow.attemptCount).getD 0

/-- The delivery exists and is neither `SUCCEEDED` nor `DEAD`. -/
def Open (db : Database) (d : Uuid) : Prop :=
  ∃ row, db.deliveries.find? d = some row ∧ row.status.isDone = false

end Database

namespace System

variable {cfg : WorkerConfig} {s s' : State} {a : Action} {d : Uuid}

/-- What a run knows about the counter of delivery `d`. -/
def stance (d : Uuid) : Option Run → Claims.Phase
  | some run => if run.deliveryId = d then run.phase.stance else .idle
  | none => .idle

/-- The claim protocol of one delivery. -/
def counter (s : State) (d : Uuid) : Claims.State ℕ where
  count := s.db.attemptCount d
  live := s.db.Open d
  taken n := s.db.attemptTaken d n = true
  phase r := stance d (s.runs r)

/-! ## What the statements do to a counter -/

/-- The two databases agree on what the protocol of delivery `d` is about. -/
structure SameCounter (db db' : Database) (d : Uuid) : Prop where
  count : db'.attemptCount d = db.attemptCount d
  live : db'.Open d ↔ db.Open d
  taken : ∀ n, db'.attemptTaken d n = db.attemptTaken d n

theorem SameCounter.of_eq {db db' : Database} (hd : db'.deliveries = db.deliveries)
    (ha : db'.attempts = db.attempts) : SameCounter db db' d := by
  constructor
  · rw [Database.attemptCount, hd, Database.attemptCount]
  · rw [Database.Open, hd, Database.Open]
  · intro n
    rw [Database.attemptTaken, ha, Database.attemptTaken]

/-- An update of deliveries that leaves the counter of `d` alone. -/
theorem SameCounter.of_modify {db db' : Database} {k : Uuid} {f : DeliveryRow → DeliveryRow}
    (hf : ∀ r, (f r).id = r.id) (hd : db'.deliveries = db.deliveries.modify k f hf)
    (ha : db'.attempts = db.attempts)
    (hsame : d = k → ∀ r, (f r).attemptCount = r.attemptCount ∧ (f r).status = r.status) :
    SameCounter db db' d := by
  have hfind : ∀ row', db'.deliveries.find? d = some row' → ∃ row,
      db.deliveries.find? d = some row ∧ row'.attemptCount = row.attemptCount ∧
      row'.status = row.status := by
    intro row' h
    rw [hd, Table.find?_modify] at h
    split_ifs at h with hk
    · obtain ⟨row, hrow, rfl⟩ := Option.map_eq_some_iff.1 h
      exact ⟨row, hk ▸ hrow, hsame hk row⟩
    · exact ⟨row', h, rfl, rfl⟩
  have hnone : db'.deliveries.find? d = none ↔ db.deliveries.find? d = none := by
    rw [hd, Table.find?_modify]
    split_ifs with hk
    · rw [Option.map_eq_none_iff, hk]
    · rfl
  constructor
  · unfold Database.attemptCount
    cases h' : db'.deliveries.find? d with
    | none => rw [hnone.1 h']
    | some row' =>
        obtain ⟨row, hrow, hc, -⟩ := hfind row' h'
        simp [hrow, hc]
  · constructor
    · rintro ⟨row', h', hdone⟩
      obtain ⟨row, hrow, -, hs⟩ := hfind row' h'
      exact ⟨row, hrow, hs ▸ hdone⟩
    · rintro ⟨row, hrow, hdone⟩
      cases h' : db'.deliveries.find? d with
      | none => rw [hnone.1 h'] at hrow; exact absurd hrow (by simp)
      | some row' =>
          obtain ⟨row₁, hrow₁, -, hs⟩ := hfind row' h'
          rw [hrow, Option.some.injEq] at hrow₁
          exact ⟨row', h', by rw [hs, ← hrow₁]; exact hdone⟩
  · intro n
    rw [Database.attemptTaken, ha, Database.attemptTaken]

/-- An update of attempts that leaves their numbers alone claims nothing. -/
theorem attemptTaken_modify {db : Database} {k n : ℕ} {f : AttemptRow → AttemptRow}
    {hf : ∀ r, (f r).id = r.id}
    (hsame : ∀ r, (f r).deliveryId = r.deliveryId ∧ (f r).attemptNo = r.attemptNo) :
    { db with attempts := db.attempts.modify k f hf }.attemptTaken d n = db.attemptTaken d n := by
  rw [Bool.eq_iff_iff, Database.attemptTaken_iff, Database.attemptTaken_iff]
  constructor
  · rintro ⟨a, ha, hd, hn⟩
    rw [← Table.mem_def, Serial.modify_toTable, Table.mem_modify] at ha
    obtain ⟨r, hr, rfl⟩ := ha
    refine ⟨r, hr, ?_⟩
    split_ifs at hd hn
    · rw [(hsame r).1] at hd
      rw [(hsame r).2] at hn
      exact ⟨hd, hn⟩
    · exact ⟨hd, hn⟩
  · rintro ⟨r, hr, hd, hn⟩
    refine ⟨if r.id = k then f r else r, ?_, ?_, ?_⟩
    · rw [← Table.mem_def, Serial.modify_toTable, Table.mem_modify]
      exact ⟨r, hr, rfl⟩
    · split_ifs
      · rw [(hsame r).1, hd]
      · exact hd
    · split_ifs
      · rw [(hsame r).2, hn]
      · exact hn

theorem attemptTaken_insert {db : Database} {now : Micros} {k : Uuid} {n m : ℕ} {digest : Text} :
    (Write.exec now db (.insertAttempt k m digest)).attemptTaken d n =
      (db.attemptTaken d n || (k = d && m = n)) := by
  rw [Write.exec, Database.attemptTaken, Serial.insert_rows, List.any_append]
  simp [Database.attemptTaken, Write.newAttempt]

theorem outcomeData_same (o : AttemptOutcome) (r : AttemptRow) :
    (Write.outcomeData o r).deliveryId = r.deliveryId ∧
      (Write.outcomeData o r).attemptNo = r.attemptNo := by
  cases o <;> exact ⟨rfl, rfl⟩

theorem circuitOpenData_same (r : AttemptRow) :
    (Write.circuitOpenData r).deliveryId = r.deliveryId ∧
      (Write.circuitOpenData r).attemptNo = r.attemptNo := ⟨rfl, rfl⟩

theorem exec_same {now : Micros} {db : Database} {w : Write} (h : w.target ≠ some d) :
    SameCounter db (w.exec now db) d := by
  cases w with
  | skip => exact .of_eq rfl rfl
  | insertAttempt k n digest =>
      have hk : k ≠ d := fun hk => h (by rw [Write.target, hk])
      refine ⟨rfl, Iff.rfl, fun m => ?_⟩
      rw [attemptTaken_insert]
      simp [hk]
  | recordOutcome id o => exact ⟨rfl, Iff.rfl, fun n => attemptTaken_modify (outcomeData_same o)⟩
  | recordCircuitOpen id => exact ⟨rfl, Iff.rfl, fun n => attemptTaken_modify circuitOpenData_same⟩
  | resetFailures e => exact .of_eq rfl rfl
  | countFailure e disable => exact .of_eq rfl rfl
  | settleSuccess k n =>
      have hk : d ≠ k := fun hk => h (by rw [Write.target, hk])
      exact .of_modify (Write.succeededData_id now n) rfl rfl fun hd => absurd hd hk
  | settleFailure k n dead =>
      have hk : d ≠ k := fun hk => h (by rw [Write.target, hk])
      exact .of_modify (Write.failedData_id now n dead) rfl rfl fun hd => absurd hd hk
  | scheduleRetry k retryAt =>
      exact .of_modify (Write.retryData_id now retryAt) rfl rfl fun _ _ => ⟨rfl, rfl⟩

/-! ## Every step is a move of the protocol -/

/-- A run of delivery `d` that holds a claim throws or dies. -/
def Abandons (s : State) (d : Uuid) : Action → Prop
  | .throw r | .crash r => ∃ k, stance d (s.runs r) = .holding k
  | _ => False

/-- A step of run `r`, as far as the runs of delivery `d` are concerned. -/
theorem phase_update {r : ℕ} {new : Option Run} (hr : s'.runs = Function.update s.runs r new) :
    (counter s' d).phase = Function.update (counter s d).phase r (stance d new) := by
  funext r'
  simp only [counter, hr]
  by_cases h : r' = r
  · subst h
    rw [Function.update_self, Function.update_self]
  · rw [Function.update_of_ne h, Function.update_of_ne h]

/-- A step after which run `r` knows the same as before, and the counter is the same. -/
theorem stay_of_same {r : ℕ} {new : Option Run} (hdb : SameCounter s.db s'.db d)
    (hr : s'.runs = Function.update s.runs r new) (hst : stance d new = stance d (s.runs r)) :
    Claims.Step .stay (counter s d) (counter s' d) := by
  refine .stay hdb.count hdb.live (fun n => by simp only [counter, hdb.taken]) ?_
  rw [phase_update hr, hst]
  exact Function.update_eq_self r _

/-- A step after which run `r`, which held nothing, is through with the counter. -/
theorem drop_of_idle {r : ℕ} {new : Option Run} (hdb : SameCounter s.db s'.db d)
    (hr : s'.runs = Function.update s.runs r new) (hnew : stance d new = .idle)
    (hold : ∀ k, stance d (s.runs r) ≠ .holding k) :
    Claims.Step (.drop r) (counter s d) (counter s' d) := by
  refine .drop r hold hdb.count hdb.live (fun n => by simp only [counter, hdb.taken]) ?_
  rw [phase_update hr, hnew]

theorem stance_of_ne {run : Run} (h : run.deliveryId ≠ d) : stance d (some run) = .idle :=
  if_neg h

theorem stance_of_eq {run : Run} (h : run.deliveryId = d) :
    stance d (some run) = run.phase.stance := if_pos h

theorem stance_afterEndpoint (d : DeliveryRow) (e : EndpointConfig) :
    (afterEndpoint d e).stance = .seen d.attemptCount ∨ (afterEndpoint d e).stance = .idle := by
  unfold afterEndpoint
  split_ifs
  · exact .inl rfl
  · exact .inr rfl

/-- The final update of a run that holds a claim settles it. -/
theorem settle_of_modify {r : ℕ} {row : DeliveryRow} {new : Option Run}
    {f : DeliveryRow → DeliveryRow} (hf : ∀ x, (f x).id = x.id)
    (hrun : stance d (s.runs r) = .holding row.attemptCount)
    (hopen : s.db.deliveries.find? d ≠ none)
    (hd : s'.db.deliveries = s.db.deliveries.modify d f hf) (ha : s'.db.attempts = s.db.attempts)
    (hcount : ∀ x, (f x).attemptCount = row.attemptCount + 1)
    (hr : s'.runs = Function.update s.runs r new) (hnew : stance d new = .idle) :
    Claims.Step (.settle r) (counter s d) (counter s' d) := by
  refine .settle r row.attemptCount hrun ?_ (fun n => ?_) ?_
  · obtain ⟨x, hx⟩ := Option.ne_none_iff_exists'.1 hopen
    simp only [counter, Database.attemptCount, hd, Table.find?_modify_self, hx, Option.map_some,
      Option.getD_some, hcount]
  · simp only [counter, Database.attemptTaken, ha]
  · rw [phase_update hr, hnew]

section Planned

variable {r : ℕ} {run : Run} {next : Next}

/-- A step of a run after its claim either leaves the counter alone and the claim in
place, or settles it. -/
theorem attempt_counter {row : DeliveryRow} {e : EndpointConfig} {claimed : ℕ} {stage : Stage}
    (hinv : Claims.Inv (counter s d)) (hrun : s.runs r = some run) (hd : run.deliveryId = d)
    (hrow : row.id = d) (hphase : run.phase = .attempt row e claimed stage)
    (hp : PlannedAttempt cfg run row e claimed stage next) :
    ∃ m, Claims.Step m (counter s d) (counter (applyNext s r run next) d) ∧
      ∀ r', m ≠ .abandon r' := by
  have hst : stance d (s.runs r) = .holding row.attemptCount := by
    rw [hrun, stance_of_eq hd, hphase]
    rfl
  have hopen : s.db.deliveries.find? d ≠ none := by
    obtain ⟨-, ⟨x, hx, -⟩, -⟩ := hinv.holding r _ hst
    rw [hx]
    simp
  have stay : ∀ {p : Phase} {w : Write} {c : CacheWrite}, w.target ≠ some d →
      p.stance = .holding row.attemptCount →
      ∃ m, Claims.Step m (counter s d)
        (counter (applyNext s r run ⟨{ run with phase := p }, w, c⟩) d) ∧
        ∀ r', m ≠ .abandon r' := by
    intro p w c hw hpst
    refine ⟨.stay, stay_of_same (r := r) (exec_same hw) rfl ?_, by simp⟩
    rw [hst, stance_of_eq (by exact hd)]
    exact hpst
  have settle : ∀ {p : Phase} {w : Write} {c : CacheWrite} {f : DeliveryRow → DeliveryRow}
      (hf : ∀ x, (f x).id = x.id), p.stance = .idle →
      (w.exec s.now s.db).deliveries = s.db.deliveries.modify d f hf →
      (w.exec s.now s.db).attempts = s.db.attempts →
      (∀ x, (f x).attemptCount = row.attemptCount + 1) →
      ∃ m, Claims.Step m (counter s d)
        (counter (applyNext s r run ⟨{ run with phase := p }, w, c⟩) d) ∧
        ∀ r', m ≠ .abandon r' := by
    intro p w c f hf hpst hdel hatt hcount
    refine ⟨.settle r, settle_of_modify hf hst hopen hdel hatt hcount rfl ?_, by simp⟩
    rw [stance_of_eq (by exact hd)]
    exact hpst
  cases hp with
  | allowed => exact stay (by simp [Write.target]) rfl
  | refused => exact stay (by simp [Write.target]) rfl
  | sent => exact stay (by simp [Write.target]) rfl
  | answered res ms => exact stay (by simp [Write.target]) rfl
  | recordedOk status bodyHead ms => exact stay (by simp [Write.target]) rfl
  | recordedFailed errorClass status bodyHead ms => exact stay (by simp [Write.target]) rfl
  | circuitSuccess => exact stay (by simp [Write.target]) rfl
  | endpointReset => exact stay (by simp [Write.target]) rfl
  | circuitFailure disable => exact stay (by simp [Write.target]) rfl
  | endpointCounted disable => exact stay (by simp [Write.target]) rfl
  | recordedOpen => exact stay (by simp [Write.target]) rfl
  | succeeded =>
      subst hrow
      exact settle (Write.succeededData_id s.now _) rfl rfl rfl fun _ => rfl
  | failed =>
      subst hrow
      exact settle (Write.failedData_id s.now _ _) rfl rfl rfl fun _ => rfl
  | failedOpen =>
      subst hrow
      exact settle (Write.failedData_id s.now _ _) rfl rfl rfl fun _ => rfl

/-- A step of a run of delivery `d` is a move of its protocol. -/
theorem planned_counter (hwf : Wf s) (hinv : Claims.Inv (counter s d)) (hrun : s.runs r = some run)
    (hd : run.deliveryId = d)
    (hp : Planned cfg s.now s.db (s.cache run.worker) run run.phase next) :
    ∃ m, Claims.Step m (counter s d) (counter (applyNext s r run next) d) ∧
      ∀ r', m ≠ .abandon r' := by
  have hst : stance d (s.runs r) = run.phase.stance := by rw [hrun, stance_of_eq hd]
  -- most steps write nothing about the counter, and leave the run's knowledge of it as it is
  have same : ∀ {n : Next}, n.run.deliveryId = d → n.write.target ≠ some d →
      n.run.phase.stance = run.phase.stance →
      ∃ m, Claims.Step m (counter s d) (counter (applyNext s r run n) d) ∧
        ∀ r', m ≠ .abandon r' := by
    intro n hnd hw hns
    refine ⟨.stay, stay_of_same (r := r) (exec_same hw) rfl ?_, by simp⟩
    rw [hst, stance_of_eq hnd, hns]
  -- or make it forget what it saw
  have forget : ∀ {n : Next}, n.run.deliveryId = d → n.write.target ≠ some d →
      n.run.phase.stance = .idle → (∀ k, run.phase.stance ≠ .holding k) →
      ∃ m, Claims.Step m (counter s d) (counter (applyNext s r run n) d) ∧
        ∀ r', m ≠ .abandon r' := by
    intro n hnd hw hns hnh
    refine ⟨.drop r, drop_of_idle (r := r) (exec_same hw) rfl ?_ (fun k => hst ▸ hnh k), by simp⟩
    rw [stance_of_eq hnd, hns]
  have after : ∀ {row : DeliveryRow} {e : EndpointConfig} {c : CacheWrite},
      run.phase.stance = .seen row.attemptCount →
      ∃ m, Claims.Step m (counter s d)
        (counter (applyNext s r run ⟨{ run with phase := afterEndpoint row e }, .skip, c⟩) d) ∧
        ∀ r', m ≠ .abandon r' := by
    intro row e c hseen
    rcases stance_afterEndpoint row e with h | h
    · exact same hd (by simp [Write.target]) (by rw [hseen]; exact h)
    · exact forget hd (by simp [Write.target]) h (by simp [hseen])
  generalize hphase : run.phase = p at hp
  have hpst : run.phase.stance = p.stance := by rw [hphase]
  have hcst : (counter s d).phase r = p.stance := hst.trans hpst
  cases hp with
  | tenantKnown t _ => exact same hd (by simp [Run.goto, Write.target]) (by rw [hpst]; rfl)
  | tenantFound t => exact same hd (by simp [Write.target]) (by rw [hpst]; rfl)
  | tenantMissing => exact same hd (by simp [Run.goto, Write.target]) (by rw [hpst]; rfl)
  | acquired => exact same hd (by simp [Write.target]) (by rw [hpst]; rfl)
  | notAcquired => exact same hd (by simp [Run.goto, Write.target]) (by rw [hpst]; rfl)
  | missing _ => exact same hd (by simp [Run.goto, Write.target]) (by rw [hpst]; rfl)
  | done row _ _ => exact same hd (by simp [Run.goto, Write.target]) (by rw [hpst]; rfl)
  | found row hfind hopen =>
      subst hd
      refine ⟨.look r, .look r (by rw [hcst]; simp [Phase.stance]) ⟨row, hfind, hopen⟩ rfl
        Iff.rfl (fun _ => Iff.rfl) ?_, by simp⟩
      rw [phase_update (r := r) rfl]
      have hcount : (counter s run.deliveryId).count = row.attemptCount := by
        simp [counter, Database.attemptCount, hfind]
      rw [hcount, stance_of_eq (by rfl)]
      rfl
  | cached row entry _ => exact after (by rw [hpst]; rfl)
  | notCached row => exact same hd (by simp [Run.goto, Write.target]) (by rw [hpst]; rfl)
  | endpointMissing row _ =>
      exact forget hd (by simp [Run.goto, Write.target]) rfl (by rw [hpst]; simp [Phase.stance])
  | loaded row e _ => exact same hd (by simp [Run.goto, Write.target]) (by rw [hpst]; rfl)
  | stored row e => exact after (by rw [hpst]; rfl)
  | duplicate row e _ =>
      exact forget hd (by simp [Run.goto, Write.target]) rfl (by rw [hpst]; simp [Phase.stance])
  | claimed row e text hfree =>
      have hrow : row.id = d := by
        rw [← hd]
        exact hwf.row_id r run row hrun (by rw [hphase]; rfl)
      rw [hrow] at hfree ⊢
      refine ⟨.claim r, .claim r row.attemptCount (by rw [hcst]; rfl)
        (by simp [counter, hfree]) rfl Iff.rfl (fun n => ?_) ?_, by simp⟩
      · simp only [counter, applyNext, attemptTaken_insert, decide_true, Bool.true_and,
          Bool.or_eq_true, decide_eq_true_eq]
        exact or_congr Iff.rfl eq_comm
      · rw [phase_update (r := r) rfl, stance_of_eq (by exact hd)]
        rfl
  | attempt row e claimed stage _ ha =>
      have hrow : row.id = d := by
        rw [← hd]
        exact hwf.row_id r run row hrun (by rw [hphase]; rfl)
      exact attempt_counter hinv hrun hd hrow hphase ha
  | retries _ => exact same hd (by simp [Run.goto, Write.target]) (by rw [hpst]; rfl)
  | ends res _ => exact same hd (by simp [Run.goto, Write.target]) (by rw [hpst]; rfl)
  | retryCounted n => exact same hd (by simp [Run.goto, Write.target]) (by rw [hpst]; rfl)
  | retryScheduled n retryAt =>
      exact same hd (by simp [Run.writing, Write.target]) (by rw [hpst]; rfl)

end Planned

/-- New deliveries leave the counter as it is, or begin it. -/
theorem reserved_counter {ds : List DeliveryRow}
    (hds : ∀ x ∈ ds, x.status = .pending ∧ x.attemptCount = 0)
    (hrows : s'.db.deliveries.rows = s.db.deliveries.rows ++ ds)
    (ha : s'.db.attempts = s.db.attempts) (hr : s'.runs = s.runs) :
    ∃ m, Claims.Step m (counter s d) (counter s' d) ∧ ∀ r', m ≠ .abandon r' := by
  have htaken : ∀ n, (counter s' d).taken n ↔ (counter s d).taken n := by
    intro n
    simp only [counter, Database.attemptTaken, ha]
  have hphase : (counter s' d).phase = (counter s d).phase := by simp only [counter, hr]
  have hfind : s'.db.deliveries.find? d =
      (s.db.deliveries.find? d).or (ds.find? fun x => x.id = d) := by
    unfold Table.find?
    rw [hrows, List.find?_append]
  cases hold : s.db.deliveries.find? d with
  | some row =>
      have hnew : s'.db.deliveries.find? d = some row := by rw [hfind, hold]; rfl
      refine ⟨.stay, .stay ?_ ?_ htaken hphase, by simp⟩
      · simp only [counter, Database.attemptCount, hold, hnew]
      · simp only [counter, Database.Open, hold, hnew]
  | none =>
      cases hnew : ds.find? fun x => x.id = d with
      | none =>
          have hnone : s'.db.deliveries.find? d = none := by rw [hfind, hold, hnew]; rfl
          refine ⟨.stay, .stay ?_ ?_ htaken hphase, by simp⟩
          · simp only [counter, Database.attemptCount, hold, hnone]
          · simp only [counter, Database.Open, hold, hnone]
      | some row =>
          have hsome : s'.db.deliveries.find? d = some row := by rw [hfind, hold, hnew]; rfl
          obtain ⟨hstatus, hcount⟩ := hds row (List.mem_of_find?_eq_some hnew)
          refine ⟨.reopen, .reopen ?_ ?_ htaken hphase, by simp⟩
          · simp [counter, Database.attemptCount, hold, hsome, hcount]
          · exact ⟨row, hsome, by rw [hstatus]; rfl⟩

/-- A run that is cut off abandons its claim, if it holds one. -/
theorem cutOff_counter {r : ℕ} {new : Option Run} (hdb : s'.db = s.db)
    (hr : s'.runs = Function.update s.runs r new) (hnew : stance d new = .idle) :
    ∃ m, Claims.Step m (counter s d) (counter s' d) ∧
      ((∃ r', m = .abandon r') → ∃ k, stance d (s.runs r) = .holding k) := by
  by_cases hold : ∃ k, stance d (s.runs r) = .holding k
  · obtain ⟨k, hk⟩ := hold
    refine ⟨.abandon r, .abandon r k hk (by simp only [counter, hdb]) (by simp only [counter, hdb])
      (fun n => by simp only [counter, hdb]) ?_, fun _ => ⟨k, hk⟩⟩
    rw [phase_update hr, hnew]
  · push Not at hold
    refine ⟨.drop r, drop_of_idle (.of_eq (by rw [hdb]) (by rw [hdb])) hr hnew hold, ?_⟩
    rintro ⟨r', ⟨⟩⟩

/-- **The simulation.**  Every step of the system is a move of the protocol of every
delivery; it abandons a claim only if the holder throws or dies. -/
theorem step_counter (hwf : Wf s) (hinv : Claims.Inv (counter s d)) (hs : step cfg s a = some s') :
    ∃ m, Claims.Step m (counter s d) (counter s' d) ∧ ((∃ r, m = .abandon r) → Abandons s d a) := by
  have fine : (∃ m, Claims.Step m (counter s d) (counter s' d) ∧ ∀ r', m ≠ .abandon r') →
      ∃ m, Claims.Step m (counter s d) (counter s' d) ∧ ((∃ r, m = .abandon r) → Abandons s d a) := by
    rintro ⟨m, hm, hne⟩
    exact ⟨m, hm, fun ⟨r, hr⟩ => absurd hr (hne r)⟩
  cases step_change hs with
  | outside hd ha hr _ _ _ =>
      have hdb : SameCounter s.db s'.db d := .of_eq hd ha
      exact fine ⟨.stay, .stay hdb.count hdb.live (fun n => by simp only [counter, hdb.taken])
        (by simp only [counter, hr]), by simp⟩
  | reserved ds hds hrows ha hr _ _ _ _ =>
      exact fine (reserved_counter (fun x hx => ⟨(hds x hx).2.1, (hds x hx).2.2.1⟩) hrows ha hr)
  | reopened tenantId deliveryId outboxId row hrow hdel ha hr _ _ _ =>
      refine fine ?_
      have hid := (Table.find?_eq_some_iff.1 hrow).2
      by_cases hd : d = row.id
      · refine ⟨.reopen, .reopen ?_ ?_ (fun n => ?_) ?_, by simp⟩
        · simp [counter, Database.attemptCount, hdel, hd, hid, hrow, Database.reopen]
        · refine ⟨Database.reopen s.now row, ?_, rfl⟩
          simp [hdel, hd, hid, hrow]
        · simp only [counter, Database.attemptTaken, ha]
        · simp only [counter, hr]
      · have hdb : SameCounter s.db s'.db d :=
          .of_modify (Database.reopen_id s.now) hdel ha fun h => absurd h hd
        exact ⟨.stay, .stay hdb.count hdb.live (fun n => by simp only [counter, hdb.taken])
          (by simp only [counter, hr]), by simp⟩
  | started w jobId j _ _ heq =>
      subst heq
      refine fine ⟨.stay, stay_of_same (r := s.nextRun) (.of_eq rfl rfl) rfl ?_, by simp⟩
      rw [hwf.fresh _ (le_refl _)]
      by_cases hj : j.deliveryId = d
      · rw [stance_of_eq (by exact hj)]
        rfl
      · rw [stance_of_ne (by exact hj)]
        rfl
  | planned r i run next hrun hp heq =>
      subst heq
      by_cases hd : run.deliveryId = d
      · exact fine (planned_counter hwf hinv hrun hd hp)
      · refine fine ⟨.stay, stay_of_same (r := r) (exec_same ?_) rfl ?_, by simp⟩
        · exact hp.target_ne hd fun row hrow => hwf.row_id r run row hrun hrow
        · rw [hrun, stance_of_ne hd, stance_of_ne (hp.deliveryId_eq.1 ▸ hd)]
  | left r i run hrun hgo =>
      obtain ⟨hphase, queue, rfl⟩ := letGo_eq_some hgo
      refine fine ⟨.stay, stay_of_same (r := r) (.of_eq rfl rfl) rfl ?_, by simp⟩
      rw [hrun]
      by_cases hd : run.deliveryId = d
      · rw [stance_of_eq hd]
        rcases hphase with h | ⟨ending, h⟩ <;> rw [h] <;> rfl
      · rw [stance_of_ne hd]
        rfl
  | threw r run hrun _ heq =>
      subst heq
      refine cutOff_counter (r := r) rfl rfl ?_
      by_cases hd : run.deliveryId = d
      · exact stance_of_eq (by exact hd)
      · exact stance_of_ne (by exact hd)
  | crashed r run hrun heq =>
      subst heq
      exact cutOff_counter (r := r) rfl rfl rfl

/-! ## What holds in every reachable state -/

theorem inv_init (d : Uuid) : Claims.Inv (counter init d) :=
  .of_fresh rfl (fun n h => by cases h) (fun _ => rfl)

theorem path_inv {P : State → Action → Prop} (h : Path (step cfg) P init s) (d : Uuid) :
    Claims.Inv (counter s d) := by
  refine h.invariant_along (I := fun t => Claims.Inv (counter t d)) (fun t ht => path_wf ht)
    (fun t a u hwf hinv _ hs => ?_) (inv_init d)
  obtain ⟨m, hm, -⟩ := step_counter hwf hinv hs
  exact hm.inv hinv

/-- One step never lowers a counter and never takes a claim back. -/
theorem step_monotone (hwf : Wf s) (hinv : Claims.Inv (counter s d))
    (hs : step cfg s a = some s') :
    s.db.attemptCount d ≤ s'.db.attemptCount d ∧
      ∀ n, s.db.attemptTaken d n = true → s'.db.attemptTaken d n = true := by
  obtain ⟨m, hm, -⟩ := step_counter hwf hinv hs
  exact hm.count_le hinv

/-- Along a run counters only grow, and claims stay. -/
theorem path_monotone {P Q : State → Action → Prop} (h : Path (step cfg) P init s)
    (h' : Path (step cfg) Q s s') :
    s.db.attemptCount d ≤ s'.db.attemptCount d ∧
      ∀ n, s.db.attemptTaken d n = true → s'.db.attemptTaken d n = true := by
  refine h'.rel (R := fun t u : State => t.db.attemptCount d ≤ u.db.attemptCount d ∧
    ∀ n, t.db.attemptTaken d n = true → u.db.attemptTaken d n = true) (fun t => ?_)
    (fun t u v htu huv => ?_) (fun t a u ht _ hs => ?_)
  · exact ⟨le_refl _, fun _ => id⟩
  · exact ⟨htu.1.trans huv.1, fun n hn => huv.2 n (htu.2 n hn)⟩
  have hreach := h.reachable.trans ht.reachable
  exact step_monotone (path_wf hreach) (path_inv hreach d) hs

/-! ## No attempt is sent twice -/

end System

/-- The attempt a run has claimed and not sent yet. -/
def Phase.unsent : Phase → Option (Uuid × ℕ)
  | .attempt d _ _ .allow => some (d.id, d.attemptCount + 1)
  | .attempt d _ _ .send => some (d.id, d.attemptCount + 1)
  | _ => none

theorem unsent_afterEndpoint (d : DeliveryRow) (e : EndpointConfig) :
    (afterEndpoint d e).unsent = none := by
  unfold afterEndpoint
  split_ifs <;> rfl

/-- An attempt that is still to be sent after a step was so before, or was just claimed. -/
theorem Planned.unsent {cfg : WorkerConfig} {now : Micros} {db : Database}
    {cache : EndpointCache} {run : Run} {p : Phase} {next : Next} {x : Uuid × ℕ}
    (h : Planned cfg now db cache run p next) (hx : next.run.phase.unsent = some x) :
    p.unsent = some x ∨ db.attemptTaken x.1 x.2 = false := by
  cases h with
  | cached d entry _ => exact absurd hx (by simp [Run.goto, unsent_afterEndpoint])
  | stored d e => exact absurd hx (by simp [unsent_afterEndpoint])
  | claimed d e text hfree =>
      cases hx
      exact .inr hfree
  | attempt d e claimed stage _ ha => cases ha <;> first | exact .inl hx | cases hx
  | _ => cases hx

namespace System

/-- What was sent has been claimed, once each, and nothing that is still to be sent is
among it. -/
structure SentOnce (s : State) : Prop where
  nodup : s.sent.Nodup
  taken : ∀ x ∈ s.sent, s.db.attemptTaken x.1 x.2 = true
  unsent : ∀ r run x, s.runs r = some run → run.phase.unsent = some x → x ∉ s.sent

theorem holding_of_unsent {r : ℕ} {run : Run} {x : Uuid × ℕ} (hwf : Wf s)
    (hr : s.runs r = some run) (hx : run.phase.unsent = some x) :
    ∃ k, (counter s x.1).phase r = .holding k := by
  have key : ∃ row e c st, run.phase = .attempt row e c st ∧ row.id = x.1 := by
    unfold Phase.unsent at hx
    split at hx
    · rename_i row e c hp
      exact ⟨row, e, c, _, hp, by cases hx; rfl⟩
    · rename_i row e c hp
      exact ⟨row, e, c, _, hp, by cases hx; rfl⟩
    · cases hx
  obtain ⟨row, e, c, st, hp, hid⟩ := key
  have hd : run.deliveryId = x.1 := by
    rw [← hid]
    exact (hwf.row_id r run row hr (by rw [hp]; rfl)).symm
  refine ⟨row.attemptCount, ?_⟩
  simp only [counter, hr]
  rw [stance_of_eq hd, hp]
  rfl

theorem sentOnce_init : SentOnce init :=
  ⟨.nil, (fun _ h => by cases h), (fun _ _ _ h => by cases h)⟩

/-- A run sends the attempt that it holds. -/
theorem send_sentOnce {r : ℕ} {run : Run} {next : Next} {row : DeliveryRow} {e : EndpointConfig}
    {c : ℕ} (hwf : Wf s) (hinv : ∀ d, Claims.Inv (counter s d)) (h : SentOnce s)
    (htaken : ∀ x : Uuid × ℕ, s.db.attemptTaken x.1 x.2 = true →
      (applyNext s r run next).db.attemptTaken x.1 x.2 = true)
    (hrun : s.runs r = some run) (hphase : run.phase = .attempt row e c .send)
    (hp : Planned cfg s.now s.db (s.cache run.worker) run run.phase next) :
    SentOnce (applyNext s r run next) := by
  have hsent : (applyNext s r run next).sent = s.sent ++ [(row.id, row.attemptCount + 1)] := by
    simp only [applyNext, hphase]
  have hun : run.phase.unsent = some (row.id, row.attemptCount + 1) := by rw [hphase]; rfl
  have hnot := h.unsent r run _ hrun hun
  obtain ⟨k, hk⟩ := holding_of_unsent hwf hrun hun
  refine ⟨?_, ?_, ?_⟩
  · rw [hsent]
    exact h.nodup.append (List.nodup_singleton _) (by simpa using hnot)
  · intro x hx
    rw [hsent, List.mem_append, List.mem_singleton] at hx
    rcases hx with hx | rfl
    · exact htaken x (h.taken x hx)
    · -- the attempt is claimed, since the run holds it
      have hphase' : (counter s row.id).phase r = .holding row.attemptCount := by
        have hd := (hwf.row_id r run row hrun (by rw [hphase]; rfl)).symm
        simp only [counter, hrun]
        rw [stance_of_eq hd, hphase]
        rfl
      exact htaken (row.id, row.attemptCount + 1) ((hinv row.id).holding r _ hphase').2.2
  · intro r' run' x hr' hx
    simp only [applyNext] at hr'
    rw [hsent, List.mem_append, List.mem_singleton, not_or]
    by_cases hrr : r' = r
    · -- the run itself has nothing more to send
      subst hrr
      rw [Function.update_self, Option.some.injEq] at hr'
      subst hr'
      rw [hphase] at hp
      cases hp with
      | attempt _ _ _ _ _ ha =>
          cases ha
          cases hx
    · rw [Function.update_of_ne hrr] at hr'
      refine ⟨h.unsent r' run' x hr' hx, ?_⟩
      rintro rfl
      obtain ⟨k', hk'⟩ := holding_of_unsent hwf hr' hx
      exact hrr ((hinv row.id).unique r' r k' k hk' hk)

theorem step_sentOnce (hwf : Wf s) (hinv : ∀ d, Claims.Inv (counter s d)) (h : SentOnce s)
    (hs : step cfg s a = some s') : SentOnce s' := by
  have htaken : ∀ x ∈ s.sent, s'.db.attemptTaken x.1 x.2 = true := fun x hx =>
    (step_monotone hwf (hinv x.1) hs).2 x.2 (h.taken x hx)
  -- a step that sends nothing, and after which nothing new is to be sent
  have quiet : s'.sent = s.sent → (∀ r run x, s'.runs r = some run → run.phase.unsent = some x →
      x ∉ s.sent) → SentOnce s' := by
    intro hsent hun
    exact ⟨hsent ▸ h.nodup, fun x hx => htaken x (hsent ▸ hx),
      fun r run x hr hx => hsent ▸ hun r run x hr hx⟩
  have replaced : ∀ r (new : Option Run), s'.sent = s.sent →
      s'.runs = Function.update s.runs r new →
      (∀ run x, new = some run → run.phase.unsent = some x → x ∉ s.sent) → SentOnce s' := by
    intro r new hsent hr hnew
    refine quiet hsent fun r' run' x hr' hx => ?_
    rw [hr] at hr'
    by_cases hrr : r' = r
    · subst hrr
      rw [Function.update_self] at hr'
      exact hnew run' x hr' hx
    · rw [Function.update_of_ne hrr] at hr'
      exact h.unsent r' run' x hr' hx
  cases step_change hs with
  | outside _ _ hr _ hsent _ => exact quiet hsent fun r run x hrun => h.unsent r run x (hr ▸ hrun)
  | reserved _ _ _ _ hr _ hsent _ _ =>
      exact quiet hsent fun r run x hrun => h.unsent r run x (hr ▸ hrun)
  | reopened _ _ _ _ _ _ _ hr _ hsent _ =>
      exact quiet hsent fun r run x hrun => h.unsent r run x (hr ▸ hrun)
  | started w jobId j _ _ heq =>
      subst heq
      refine replaced s.nextRun _ rfl rfl fun run x hrun hx => ?_
      cases hrun
      cases hx
  | left r i run _ hgo =>
      obtain ⟨-, queue, rfl⟩ := letGo_eq_some hgo
      exact replaced r none rfl rfl fun run x hrun => by cases hrun
  | threw r run _ _ heq =>
      subst heq
      refine replaced r _ rfl rfl fun run x hrun hx => ?_
      cases hrun
      cases hx
  | crashed r run _ heq =>
      subst heq
      exact replaced r none rfl rfl fun run x hrun => by cases hrun
  | planned r i run next hrun hp heq =>
      subst heq
      have hnew : ∀ x, next.run.phase.unsent = some x → x ∉ s.sent := by
        intro x hx hmem
        rcases hp.unsent hx with hold | hfree
        · exact h.unsent r run x hrun hold hmem
        · rw [h.taken x hmem] at hfree
          exact absurd hfree (by simp)
      by_cases hsend : ∃ row e c, run.phase = .attempt row e c .send
      · obtain ⟨row, e, c, hphase⟩ := hsend
        exact send_sentOnce hwf hinv h (fun x => (step_monotone hwf (hinv x.1) hs).2 x.2) hrun
          hphase hp
      · refine replaced r (some next.run) ?_ rfl fun run' x hrun' hx => ?_
        · unfold applyNext
          simp only
          split
          · rename_i row e c hphase
            exact absurd ⟨row, e, c, hphase⟩ hsend
          · rfl
        · cases hrun'
          exact hnew x hx

theorem path_sentOnce {P : State → Action → Prop} (h : Path (step cfg) P init s) : SentOnce s :=
  h.invariant_along (J := fun t => Wf t ∧ ∀ d, Claims.Inv (counter t d))
    (fun _ ht => ⟨path_wf ht, path_inv ht⟩)
    (fun _ _ _ hJ hI _ hs => step_sentOnce hJ.1 hJ.2 hI hs) sentOnce_init

/-! ## The result -/

/-- Run `r` is between its successful claim of an attempt of delivery `d` and its final
update of the delivery. -/
def Holds (s : State) (d : Uuid) (r : ℕ) : Prop :=
  ∃ run row e claimed stage, s.runs r = some run ∧ run.deliveryId = d ∧
    run.phase = .attempt row e claimed stage

theorem holds_iff {r : ℕ} : Holds s d r ↔ ∃ k, (counter s d).phase r = .holding k := by
  constructor
  · rintro ⟨run, row, e, claimed, stage, hr, hd, hp⟩
    refine ⟨row.attemptCount, ?_⟩
    simp only [counter, hr]
    rw [stance_of_eq hd, hp]
    rfl
  · rintro ⟨k, hk⟩
    simp only [counter] at hk
    cases hr : s.runs r with
    | none => rw [hr] at hk; cases hk
    | some run =>
        rw [hr] at hk
        by_cases hd : run.deliveryId = d
        · rw [stance_of_eq hd] at hk
          cases hp : run.phase with
          | attempt row e claimed stage => exact ⟨run, row, e, claimed, stage, hr, hd, hp⟩
          | _ => rw [hp] at hk; cases hk
        · rw [stance_of_ne hd] at hk
          cases hk

/-- **One attempt at a time.**  In every reachable state at most one run of a delivery is
between its claim and its final update; no attempt has been sent twice; the numbers
claimed are `1 … attemptCount`, and `attemptCount + 1` when that one is; and no step
lowers `attemptCount`. -/
theorem one_attempt_at_a_time (cfg : WorkerConfig) (s : State) (h : Reach cfg s) (d : Uuid) :
    (∀ r r', Holds s d r → Holds s d r' → r = r') ∧
    s.sent.Nodup ∧
    (∀ n, s.db.attemptTaken d n = true ↔ (1 ≤ n ∧ n ≤ s.db.attemptCount d) ∨
      (n = s.db.attemptCount d + 1 ∧ s.db.attemptTaken d (s.db.attemptCount d + 1) = true)) ∧
    (∀ a s', step cfg s a = some s' → s.db.attemptCount d ≤ s'.db.attemptCount d) := by
  have hinv := path_inv h d
  refine ⟨?_, (path_sentOnce h).nodup, hinv.taken_iff, ?_⟩
  · intro r r' hr hr'
    obtain ⟨k, hk⟩ := holds_iff.1 hr
    obtain ⟨k', hk'⟩ := holds_iff.1 hr'
    exact hinv.unique r r' k k' hk hk'
  · intro a s' hs
    exact (step_monotone (path_wf h) hinv hs).1

/-- At a state in which two runs of one delivery have raced for its first attempt. -/
theorem one_attempt_at_a_time_in_race : ∃ s, Reach Sample.cfg s ∧
    s.db.attemptTaken Sample.delivery 1 = true ∧ Holds s Sample.delivery 0 ∧
    ∀ r, Holds s Sample.delivery r → r = 0 := by
  obtain ⟨s, hpath, hs⟩ := Path.exists_of_runChecked (step Sample.cfg) (P := anyAction)
    (p := fun _ _ => true) (fun _ _ _ => trivial) init
    (Sample.enqueued ++ [.take 0 Sample.job] ++ Sample.toClaim 0 ++
      [.unlock Sample.job, .take 1 Sample.job] ++ Sample.toClaim 1 ++
      [.run 0 (.digest []), .run 1 (.digest [])])
    (fun s => s.db.attemptTaken Sample.delivery 1 && Sample.holds s 0) (by decide)
  rw [Bool.and_eq_true] at hs
  have h0 : Holds s Sample.delivery 0 := by
    have h0 := hs.2
    unfold Sample.holds at h0
    split at h0
    · rename_i run hr
      split at h0
      · rename_i row e c st hp
        exact ⟨run, row, e, c, st, hr, by simpa using h0, hp⟩
      · cases h0
    · cases h0
  exact ⟨s, hpath, hs.1, h0, fun r hr =>
    (one_attempt_at_a_time Sample.cfg s hpath Sample.delivery).1 r 0 hr h0⟩

end System
end HookRelay
