import HookRelay.System.Attempts

/-!
# The status of a delivery agrees with its attempts

Attempt rows, endpoint and delivery are written by separate statements on three exit
paths.  `History` says what ties them together at every point in between; it rests on
the claim protocol, since only the run that holds the claim on attempt
`attemptCount + 1` writes that row and then the delivery.

* `Stage.Recorded` — what the attempt row says once a run has reached a stage.
* `step_history`, `path_history` — the invariant.
* `status_agrees_with_history` — the result.
* `step_done` — a delivery leaves `SUCCEEDED` or `DEAD` only through `redeliver`.
-/

namespace HookRelay

open Lib

/-- The row records a success: a 2xx status and no error. -/
def AttemptRow.Succeeded (a : AttemptRow) : Prop :=
  a.errorClass = none ∧ a.durationMs ≠ none ∧
    ∃ status, a.responseStatus = some status ∧ 200 ≤ status ∧ status < 300

/-- The row records a failure: an error class. -/
def AttemptRow.Failed (a : AttemptRow) : Prop := a.errorClass ≠ none ∧ a.durationMs ≠ none

/-- The result of the attempt is recorded. -/
def AttemptRow.Recorded (a : AttemptRow) : Prop := a.Succeeded ∨ a.Failed

/-- What the attempt row of a run says when the run has come to a stage. -/
def Stage.Recorded (a : AttemptRow) : Stage → Prop
  | .success | .endpointSuccess | .deliverySuccess => a.Succeeded
  | .failure | .endpointFailure _ | .deliveryFailure | .skipDelivery => a.Failed
  | .record (.ok status _ _) => 200 ≤ status ∧ status < 300
  | _ => True

namespace Database

/-- There is a row for attempt `n` of the delivery, and it satisfies `P`. -/
def HasAttempt (db : Database) (d : Uuid) (n : ℕ) (P : AttemptRow → Prop) : Prop :=
  ∃ a ∈ db.attempts.rows, a.deliveryId = d ∧ a.attemptNo = n ∧ P a

/-- The status of a delivery row agrees with its last attempt. -/
def StatusAgrees (db : Database) (maxAttempts : ℤ) (row : DeliveryRow) : Prop :=
  match row.status with
  | .pending => True
  | .succeeded => db.HasAttempt row.id row.attemptCount AttemptRow.Succeeded
  | .failedRetrying => (row.attemptCount : ℤ) < maxAttempts ∧
      db.HasAttempt row.id row.attemptCount AttemptRow.Failed
  | .dead => maxAttempts ≤ (row.attemptCount : ℤ) ∧
      db.HasAttempt row.id row.attemptCount AttemptRow.Failed

end Database

namespace System

variable {cfg : WorkerConfig} {s s' : State} {a : Action} {d : Uuid}

/-- What ties deliveries, attempts and runs together. -/
structure History (cfg : WorkerConfig) (s : State) : Prop where
  unique : ∀ x ∈ s.db.attempts.rows, ∀ y ∈ s.db.attempts.rows,
    x.deliveryId = y.deliveryId → x.attemptNo = y.attemptNo → x = y
  recorded : ∀ d i, 1 ≤ i → i ≤ s.db.attemptCount d →
    s.db.HasAttempt d i AttemptRow.Recorded
  agrees : ∀ d row, s.db.deliveries.find? d = some row →
    s.db.StatusAgrees cfg.maxAttempts row
  held : ∀ r run row e claimed stage, s.runs r = some run →
    run.phase = .attempt row e claimed stage →
    ∃ a ∈ s.db.attempts.rows, a.id = claimed ∧ a.deliveryId = row.id ∧
      a.attemptNo = row.attemptCount + 1 ∧ stage.Recorded a

/-- The rows of `db` about settled attempts are still there in `db'`. -/
def Keeps (db db' : Database) : Prop :=
  ∀ a ∈ db.attempts.rows, a.attemptNo ≤ db.attemptCount a.deliveryId → a ∈ db'.attempts.rows

theorem Keeps.hasAttempt {db db' : Database} (h : Keeps db db') {n : ℕ} {P : AttemptRow → Prop}
    (hn : n ≤ db.attemptCount d) (ha : db.HasAttempt d n P) : db'.HasAttempt d n P := by
  obtain ⟨x, hx, rfl, rfl, hP⟩ := ha
  exact ⟨x, h x hx hn, rfl, rfl, hP⟩

theorem Keeps.agrees {db db' : Database} {row : DeliveryRow} {M : ℤ} (h : Keeps db db')
    (hn : row.attemptCount ≤ db.attemptCount row.id) (ha : db.StatusAgrees M row) :
    db'.StatusAgrees M row := by
  unfold Database.StatusAgrees at ha ⊢
  split <;> rename_i hs <;> rw [hs] at ha
  · trivial
  · exact h.hasAttempt hn ha
  · exact ⟨ha.1, h.hasAttempt hn ha.2⟩
  · exact ⟨ha.1, h.hasAttempt hn ha.2⟩

theorem Keeps.of_eq {db db' : Database} (h : db'.attempts = db.attempts) : Keeps db db' :=
  fun _ hx _ => h ▸ hx

theorem attemptCount_of_find? {db : Database} {row : DeliveryRow}
    (h : db.deliveries.find? d = some row) : db.attemptCount d = row.attemptCount := by
  simp [Database.attemptCount, h]

/-- The number of attempts in a row is that of the delivery with its id. -/
theorem attemptCount_row {db : Database} {row : DeliveryRow}
    (h : db.deliveries.find? d = some row) : row.attemptCount ≤ db.attemptCount row.id := by
  have hid := (Table.find?_eq_some_iff.1 h).2
  rw [hid, attemptCount_of_find? h]

/-! ## Steps that settle nothing -/

/-- A step that keeps the settled attempts, and changes deliveries only by adding some or
by reopening some, keeps the invariant, if the runs' own attempts are in order. -/
theorem History.of_frame (h : History cfg s) (hkeep : Keeps s.db s'.db)
    (hunique : ∀ x ∈ s'.db.attempts.rows, ∀ y ∈ s'.db.attempts.rows,
      x.deliveryId = y.deliveryId → x.attemptNo = y.attemptNo → x = y)
    (hcount : ∀ d, s'.db.attemptCount d = s.db.attemptCount d)
    (hrows : ∀ d row', s'.db.deliveries.find? d = some row' → row'.status = .pending ∨
      ∃ row, s.db.deliveries.find? d = some row ∧ row'.status = row.status)
    (hheld : ∀ r run row e claimed stage, s'.runs r = some run →
      run.phase = .attempt row e claimed stage →
      ∃ a ∈ s'.db.attempts.rows, a.id = claimed ∧ a.deliveryId = row.id ∧
        a.attemptNo = row.attemptCount + 1 ∧ stage.Recorded a) : History cfg s' where
  unique := hunique
  recorded := fun d i h1 hi => by
    rw [hcount] at hi
    exact hkeep.hasAttempt hi (h.recorded d i h1 hi)
  agrees := by
    intro d row' hrow'
    rcases hrows d row' hrow' with hp | ⟨row, hrow, hstatus⟩
    · unfold Database.StatusAgrees
      rw [hp]
      trivial
    · have hid : row'.id = row.id := by
        rw [(Table.find?_eq_some_iff.1 hrow').2, (Table.find?_eq_some_iff.1 hrow).2]
      have hc : row'.attemptCount = row.attemptCount := by
        rw [← attemptCount_of_find? hrow', hcount, attemptCount_of_find? hrow]
      have hag := hkeep.agrees (attemptCount_row hrow) (h.agrees d row hrow)
      unfold Database.StatusAgrees at hag ⊢
      rw [hstatus, hid, hc]
      exact hag
  held := hheld

/-- Deliveries and attempts unchanged, and every run in an attempt was in it before. -/
theorem History.of_runs (h : History cfg s) (hd : s'.db.deliveries = s.db.deliveries)
    (ha : s'.db.attempts = s.db.attempts)
    (hr : ∀ r run row e claimed stage, s'.runs r = some run →
      run.phase = .attempt row e claimed stage →
      ∃ run' stage', s.runs r = some run' ∧ run'.phase = .attempt row e claimed stage' ∧
        ∀ a, stage'.Recorded a → stage.Recorded a) : History cfg s' := by
  refine h.of_frame (.of_eq ha) (by rw [ha]; exact h.unique) (fun d => ?_) (fun d row' hrow' => ?_) ?_
  · rw [Database.attemptCount, hd, Database.attemptCount]
  · exact .inr ⟨row', hd ▸ hrow', rfl⟩
  · intro r run row e claimed stage hrun hphase
    obtain ⟨run', stage', hrun', hphase', himp⟩ := hr r run row e claimed stage hrun hphase
    obtain ⟨x, hx, hid, hxd, hno, hrec⟩ := h.held r run' row e claimed stage' hrun' hphase'
    exact ⟨x, ha ▸ hx, hid, hxd, hno, himp x hrec⟩

/-- A run that is replaced by one that is in no attempt. -/
theorem runs_of_update {r : ℕ} {new : Option Run} (hs : s'.runs = Function.update s.runs r new)
    (hnew : ∀ run row e claimed stage, new = some run → run.phase ≠ .attempt row e claimed stage) :
    ∀ r' run row e claimed stage, s'.runs r' = some run →
      run.phase = .attempt row e claimed stage → r' ≠ r ∧ s.runs r' = some run := by
  intro r' run row e claimed stage hrun hphase
  rw [hs] at hrun
  by_cases hrr : r' = r
  · subst hrr
    rw [Function.update_self] at hrun
    exact absurd hphase (hnew run row e claimed stage hrun)
  · rw [Function.update_of_ne hrr] at hrun
    exact ⟨hrr, hrun⟩

/-- Two runs in an attempt do not share the row. -/
theorem claimed_ne (hwf : Wf s) (hinv : ∀ d, Claims.Inv (counter s d)) (h : History cfg s)
    {r r' : ℕ} {run run' : Run} {row row' : DeliveryRow} {e e' : EndpointConfig}
    {claimed claimed' : ℕ} {stage stage' : Stage} (hne : r' ≠ r)
    (hr : s.runs r = some run) (hp : run.phase = .attempt row e claimed stage)
    (hr' : s.runs r' = some run') (hp' : run'.phase = .attempt row' e' claimed' stage') :
    claimed' ≠ claimed := by
  rintro rfl
  obtain ⟨x, hx, hxid, hxd, -, -⟩ := h.held r run row e _ stage hr hp
  obtain ⟨y, hy, hyid, hyd, -, -⟩ := h.held r' run' row' e' _ stage' hr' hp'
  obtain rfl : x = y := s.db.attempts.eq_of_key hx hy (hxid.trans hyid.symm)
  have hd := hwf.row_id r run row hr (by rw [hp]; rfl)
  have hd' := hwf.row_id r' run' row' hr' (by rw [hp']; rfl)
  have hhold : Holds s row.id r := ⟨run, row, e, _, stage, hr, hd.symm, hp⟩
  have hhold' : Holds s row.id r' :=
    ⟨run', row', e', _, stage', hr', by rw [← hd', ← hyd, hxd], hp'⟩
  obtain ⟨k, hk⟩ := holds_iff.1 hhold
  obtain ⟨k', hk'⟩ := holds_iff.1 hhold'
  exact hne ((hinv row.id).unique r' r k' k hk' hk)

/-! ## Claiming, recording, settling -/

section Attempt

variable {r : ℕ} {run : Run} {row : DeliveryRow} {e : EndpointConfig} {claimed : ℕ} {stage : Stage}

/-- A run in an attempt is on the attempt after the counter, and the delivery is open. -/
theorem count_of_attempt (hwf : Wf s) (hinv : ∀ d, Claims.Inv (counter s d))
    (hrun : s.runs r = some run) (hphase : run.phase = .attempt row e claimed stage) :
    row.attemptCount = s.db.attemptCount row.id ∧ s.db.Open row.id := by
  have hk : (counter s row.id).phase r = .holding row.attemptCount := by
    simp only [counter, hrun]
    rw [stance_of_eq (hwf.row_id r run row hrun (by rw [hphase]; rfl)).symm, hphase]
    rfl
  have hhold := (hinv row.id).holding r _ hk
  exact ⟨hhold.1, hhold.2.1⟩

/-- The claim adds a row, and the run that made it is in its first stage. -/
theorem history_of_claim {text : Text} {new : Run} (h : History cfg s)
    (hfree : s.db.attemptTaken row.id (row.attemptCount + 1) = false)
    (hdb : s'.db = Write.exec s.now s.db (.insertAttempt row.id (row.attemptCount + 1) text))
    (hruns : s'.runs = Function.update s.runs r (some new))
    (hnew : new.phase = .attempt row e s.db.attempts.next .allow) : History cfg s' := by
  obtain ⟨x, hx⟩ : ∃ x, x = Write.newAttempt s.now row.id (row.attemptCount + 1) text
      s.db.attempts.next := ⟨_, rfl⟩
  have hrows : s'.db.attempts.rows = s.db.attempts.rows ++ [x] := by
    rw [hdb, hx]
    exact Serial.insert_rows _ _ (Write.newAttempt_id _ _ _ _)
  have hother : ∀ y ∈ s.db.attempts.rows,
      ¬ (y.deliveryId = x.deliveryId ∧ y.attemptNo = x.attemptNo) := by
    rintro y hy ⟨hyd, hyn⟩
    have : s.db.attemptTaken row.id (row.attemptCount + 1) = true :=
      Database.attemptTaken_iff.2 ⟨y, hy, by rw [hyd, hx]; rfl, by rw [hyn, hx]; rfl⟩
    rw [hfree] at this
    exact absurd this (by simp)
  refine h.of_frame (fun y hy _ => ?_) ?_ (fun d => by rw [hdb]; rfl)
    (fun d row' hrow' => .inr ⟨row', by rw [hdb] at hrow'; exact hrow', rfl⟩) ?_
  · rw [hrows]
    exact List.mem_append_left _ hy
  · intro y hy z hz hd hn
    rw [hrows, List.mem_append, List.mem_singleton] at hy hz
    rcases hy with hy | rfl <;> rcases hz with hz | rfl
    · exact h.unique y hy z hz hd hn
    · exact absurd ⟨hd, hn⟩ (hother y hy)
    · exact absurd ⟨hd.symm, hn.symm⟩ (hother z hz)
    · rfl
  · intro r' run' row' e' claimed' stage' hrun' hphase'
    rw [hruns] at hrun'
    rw [hrows]
    by_cases hrr : r' = r
    · subst hrr
      rw [Function.update_self, Option.some.injEq] at hrun'
      subst hrun'
      rw [hnew] at hphase'
      cases hphase'
      exact ⟨x, by simp, by rw [hx]; rfl, by rw [hx]; rfl, by rw [hx]; rfl, trivial⟩
    · rw [Function.update_of_ne hrr] at hrun'
      obtain ⟨y, hy, hyid, hyd, hyn, hyr⟩ := h.held r' run' row' e' claimed' stage' hrun' hphase'
      exact ⟨y, List.mem_append_left _ hy, hyid, hyd, hyn, hyr⟩

/-- Recording the result changes the row of the run's own attempt and no other. -/
theorem history_of_record {f : AttemptRow → AttemptRow} {hf : ∀ x, (f x).id = x.id} {new : Run}
    {stage' : Stage} (hwf : Wf s) (hinv : ∀ d, Claims.Inv (counter s d)) (h : History cfg s)
    (hrun : s.runs r = some run) (hphase : run.phase = .attempt row e claimed stage)
    (hsame : ∀ x, (f x).deliveryId = x.deliveryId ∧ (f x).attemptNo = x.attemptNo)
    (hdb : s'.db = { s.db with attempts := s.db.attempts.modify claimed f hf })
    (hruns : s'.runs = Function.update s.runs r (some new))
    (hnew : new.phase = .attempt row e claimed stage')
    (hrec : ∀ x, stage.Recorded x → stage'.Recorded (f x)) : History cfg s' := by
  have hmem : ∀ y, y ∈ s'.db.attempts.rows ↔
      ∃ x ∈ s.db.attempts.rows, (if x.id = claimed then f x else x) = y := by
    intro y
    rw [hdb, ← Table.mem_def, Serial.modify_toTable, Table.mem_modify]
    rfl
  have hkeep : ∀ x ∈ s.db.attempts.rows, x.id ≠ claimed → x ∈ s'.db.attempts.rows :=
    fun x hx hne => (hmem x).2 ⟨x, hx, if_neg hne⟩
  obtain ⟨own, hown, hownid, hownd, hownn, hownr⟩ := h.held r run row e claimed stage hrun hphase
  have hcount := (count_of_attempt hwf hinv hrun hphase).1
  refine h.of_frame (fun x hx hle => ?_) ?_ (fun d => by rw [hdb]; rfl)
    (fun d row' hrow' => .inr ⟨row', by rw [hdb] at hrow'; exact hrow', rfl⟩) ?_
  · refine hkeep x hx fun hid => ?_
    obtain rfl : x = own := s.db.attempts.eq_of_key hx hown (hid.trans hownid.symm)
    rw [hownd, hownn, ← hcount] at hle
    omega
  · intro y hy z hz hd hn
    obtain ⟨y₀, hy₀, rfl⟩ := (hmem y).1 hy
    obtain ⟨z₀, hz₀, rfl⟩ := (hmem z).1 hz
    have hsame' : ∀ x, (if x.id = claimed then f x else x).deliveryId = x.deliveryId ∧
        (if x.id = claimed then f x else x).attemptNo = x.attemptNo := by
      intro x
      split_ifs
      · exact hsame x
      · exact ⟨rfl, rfl⟩
    rw [(hsame' y₀).1, (hsame' z₀).1] at hd
    rw [(hsame' y₀).2, (hsame' z₀).2] at hn
    rw [h.unique y₀ hy₀ z₀ hz₀ hd hn]
  · intro r' run' row' e' claimed' stage₁ hrun' hphase'
    rw [hruns] at hrun'
    by_cases hrr : r' = r
    · subst hrr
      rw [Function.update_self, Option.some.injEq] at hrun'
      subst hrun'
      rw [hnew] at hphase'
      cases hphase'
      refine ⟨f own, (hmem _).2 ⟨own, hown, if_pos hownid⟩, ?_, ?_, ?_, hrec own hownr⟩
      · rw [hf, hownid]
      · rw [(hsame own).1, hownd]
      · rw [(hsame own).2, hownn]
    · rw [Function.update_of_ne hrr] at hrun'
      obtain ⟨y, hy, hyid, hyd, hyn, hyr⟩ := h.held r' run' row' e' claimed' stage₁ hrun' hphase'
      have hne := claimed_ne hwf hinv h hrr hrun hphase hrun' hphase'
      exact ⟨y, hkeep y hy (hyid ▸ hne), hyid, hyd, hyn, hyr⟩

/-- The final update of a delivery: the new status agrees with the attempt the run made. -/
theorem history_of_settle {f : DeliveryRow → DeliveryRow} {hf : ∀ x, (f x).id = x.id} {new : Run}
    (hwf : Wf s) (hinv : ∀ d, Claims.Inv (counter s d)) (h : History cfg s)
    (hrun : s.runs r = some run) (hphase : run.phase = .attempt row e claimed stage)
    (hdb : s'.db = { s.db with deliveries := s.db.deliveries.modify row.id f hf })
    (hruns : s'.runs = Function.update s.runs r (some new))
    (hnew : ∀ row e claimed stage, new.phase ≠ .attempt row e claimed stage)
    (hcount : ∀ x, (f x).attemptCount = row.attemptCount + 1)
    (hrec : ∀ x, stage.Recorded x → x.Recorded)
    (hagree : ∀ x, (∃ a ∈ s.db.attempts.rows, a.deliveryId = row.id ∧
      a.attemptNo = row.attemptCount + 1 ∧ stage.Recorded a) → x.id = row.id →
      s.db.StatusAgrees cfg.maxAttempts (f x)) : History cfg s' := by
  obtain ⟨own, hown, -, hownd, hownn, hownr⟩ := h.held r run row e claimed stage hrun hphase
  obtain ⟨hc, x₀, hx₀, -⟩ := count_of_attempt hwf hinv hrun hphase
  have hatt : s'.db.attempts = s.db.attempts := by rw [hdb]
  have hfind : s'.db.deliveries.find? row.id = some (f x₀) := by simp [hdb, hx₀]
  have hfind' : ∀ d, d ≠ row.id → s'.db.deliveries.find? d = s.db.deliveries.find? d := by
    intro d hd
    simp [hdb, Table.find?_modify_of_ne _ _ _ hd]
  have hagrees : ∀ x, s'.db.StatusAgrees cfg.maxAttempts x ↔ s.db.StatusAgrees cfg.maxAttempts x := by
    intro x
    simp only [Database.StatusAgrees, Database.HasAttempt, hatt]
  refine ⟨by rw [hatt]; exact h.unique, ?_, ?_, ?_⟩
  · intro d i h1 hi
    have hhas : s.db.HasAttempt d i AttemptRow.Recorded := by
      by_cases hd : d = row.id
      · subst hd
        rw [attemptCount_of_find? hfind, hcount] at hi
        rcases Nat.lt_or_ge row.attemptCount i with hlt | hle
        · exact ⟨own, hown, hownd, by omega, hrec own hownr⟩
        · exact h.recorded _ i h1 (hc ▸ hle)
      · refine h.recorded d i h1 ?_
        simpa only [Database.attemptCount, hfind' d hd] using hi
    simpa only [Database.HasAttempt, hatt] using hhas
  · intro d row' hrow'
    rw [hagrees]
    by_cases hd : d = row.id
    · subst hd
      rw [hfind, Option.some.injEq] at hrow'
      subst hrow'
      exact hagree x₀ ⟨own, hown, hownd, hownn, hownr⟩ (Table.find?_eq_some_iff.1 hx₀).2
    · exact h.agrees d row' (hfind' d hd ▸ hrow')
  · intro r' run' row' e' claimed' stage' hrun' hphase'
    obtain ⟨-, hrun'⟩ := runs_of_update hruns
      (fun run row e claimed stage hn => by cases hn; exact hnew row e claimed stage)
      r' run' row' e' claimed' stage' hrun' hphase'
    rw [hatt]
    exact h.held r' run' row' e' claimed' stage' hrun' hphase'

end Attempt

/-! ## Every step keeps the history in order -/

theorem succeeded_outcomeData {status : ℕ} {bodyHead : CodeUnits} {ms : ℤ} (x : AttemptRow)
    (h : 200 ≤ status ∧ status < 300) :
    (Write.outcomeData (.ok status bodyHead ms) x).Succeeded :=
  ⟨rfl, by simp [Write.outcomeData], status, rfl, h⟩

theorem failed_outcomeData {errorClass : AttemptErrorClass} {status : Option ℕ}
    {bodyHead : Option CodeUnits} {ms : ℤ} (x : AttemptRow) :
    (Write.outcomeData (.failed errorClass status bodyHead ms) x).Failed :=
  ⟨by simp [Write.outcomeData], by simp [Write.outcomeData]⟩

theorem failed_circuitOpenData (x : AttemptRow) : (Write.circuitOpenData x).Failed :=
  ⟨by simp [Write.circuitOpenData], by simp [Write.circuitOpenData]⟩

/-- The status a failure leaves agrees with a failed attempt. -/
theorem agrees_failedData {db : Database} {row x : DeliveryRow} {now : Micros}
    (h : ∃ a ∈ db.attempts.rows, a.deliveryId = row.id ∧ a.attemptNo = row.attemptCount + 1 ∧
      a.Failed) (hid : x.id = row.id) :
    db.StatusAgrees cfg.maxAttempts
      (Write.failedData now (row.attemptCount + 1) (isDead cfg (row.attemptCount + 1)) x) := by
  obtain ⟨a, ha, hd, hn, hf⟩ := h
  have hhas : db.HasAttempt x.id (row.attemptCount + 1) AttemptRow.Failed :=
    ⟨a, ha, by rw [hd, hid], hn, hf⟩
  unfold Database.StatusAgrees
  cases hdead : isDead cfg (row.attemptCount + 1) with
  | true => exact ⟨of_decide_eq_true hdead, hhas⟩
  | false => exact ⟨not_le.1 (of_decide_eq_false hdead), hhas⟩

theorem attempt_history {r : ℕ} {run : Run} {row : DeliveryRow} {e : EndpointConfig}
    {claimed : ℕ} {stage : Stage} {next : Next} (hwf : Wf s)
    (hinv : ∀ d, Claims.Inv (counter s d)) (h : History cfg s) (hrun : s.runs r = some run)
    (hphase : run.phase = .attempt row e claimed stage)
    (hp : PlannedAttempt cfg run row e claimed stage next) :
    History cfg (applyNext s r run next) := by
  -- a step to another stage that writes neither attempts nor deliveries
  have move : ∀ {n : Next} {stage' : Stage}, n.run.phase = .attempt row e claimed stage' →
      (n.write.exec s.now s.db).deliveries = s.db.deliveries →
      (n.write.exec s.now s.db).attempts = s.db.attempts →
      (∀ x, stage.Recorded x → stage'.Recorded x) → History cfg (applyNext s r run n) := by
    intro n stage' hn hd ha himp
    refine h.of_runs hd ha fun r' run' row' e' claimed' stage₁ hrun' hphase' => ?_
    simp only [applyNext] at hrun'
    by_cases hrr : r' = r
    · subst hrr
      rw [Function.update_self, Option.some.injEq] at hrun'
      subst hrun'
      rw [hn] at hphase'
      cases hphase'
      exact ⟨run, stage, hrun, hphase, himp⟩
    · rw [Function.update_of_ne hrr] at hrun'
      exact ⟨run', stage₁, hrun', hphase', fun _ => id⟩
  cases hp with
  | allowed => exact move rfl rfl rfl fun _ _ => trivial
  | refused => exact move rfl rfl rfl fun _ _ => trivial
  | sent => exact move rfl rfl rfl fun _ _ => trivial
  | answered res ms =>
      refine move rfl rfl rfl fun x _ => ?_
      cases ho : send cfg.allowPrivate cfg.newUrl e.url res ms with
      | ok status bodyHead d => exact send_ok_status ho
      | failed errorClass status bodyHead d => trivial
  | recordedOk status bodyHead ms =>
      exact history_of_record hwf hinv h hrun hphase (outcomeData_same _) rfl rfl rfl
        fun x hx => succeeded_outcomeData x hx
  | recordedFailed errorClass status bodyHead ms =>
      exact history_of_record hwf hinv h hrun hphase (outcomeData_same _) rfl rfl rfl
        fun x _ => failed_outcomeData x
  | circuitSuccess => exact move rfl rfl rfl fun _ => id
  | endpointReset => exact move rfl rfl rfl fun _ => id
  | circuitFailure disable => exact move rfl rfl rfl fun _ => id
  | endpointCounted disable => exact move rfl rfl rfl fun _ => id
  | recordedOpen =>
      exact history_of_record hwf hinv h hrun hphase circuitOpenData_same rfl rfl rfl
        fun x _ => failed_circuitOpenData x
  | succeeded =>
      refine history_of_settle hwf hinv h hrun hphase rfl rfl (fun _ _ _ _ hc => by cases hc)
        (fun _ => rfl) (fun _ => .inl) ?_
      rintro x ⟨a, ha, hd, hn, hs⟩ hid
      exact ⟨a, ha, by rw [hd]; exact hid.symm, hn, hs⟩
  | failed =>
      exact history_of_settle hwf hinv h hrun hphase rfl rfl (fun _ _ _ _ hc => by cases hc)
        (fun _ => rfl) (fun _ => .inr) fun x => agrees_failedData
  | failedOpen =>
      exact history_of_settle hwf hinv h hrun hphase rfl rfl (fun _ _ _ _ hc => by cases hc)
        (fun _ => rfl) (fun _ => .inr) fun x => agrees_failedData

theorem planned_history {r : ℕ} {run : Run} {next : Next} (hwf : Wf s)
    (hinv : ∀ d, Claims.Inv (counter s d)) (h : History cfg s) (hrun : s.runs r = some run)
    (hp : Planned cfg s.now s.db (s.cache run.worker) run run.phase next) :
    History cfg (applyNext s r run next) := by
  -- a step that ends in no attempt and writes neither attempts nor statuses
  have move : ∀ {n : Next}, (∀ row e claimed stage, n.run.phase ≠ .attempt row e claimed stage) →
      n.write = .skip → History cfg (applyNext s r run n) := by
    intro n hn hw
    refine h.of_runs (by simp [applyNext, hw, Write.exec]) (by simp [applyNext, hw, Write.exec])
      fun r' run' row e claimed stage hrun' hphase' => ?_
    obtain ⟨-, hrun'⟩ := runs_of_update (r := r) rfl
      (fun run row e claimed stage he => by cases he; exact hn row e claimed stage)
      r' run' row e claimed stage hrun' hphase'
    exact ⟨run', stage, hrun', hphase', fun _ => id⟩
  have after : ∀ (d : DeliveryRow) (e : EndpointConfig) (row : DeliveryRow) (e' : EndpointConfig)
      (claimed : ℕ) (stage : Stage), afterEndpoint d e ≠ .attempt row e' claimed stage := by
    intro d e row e' claimed stage
    unfold afterEndpoint
    split_ifs <;> simp
  generalize hphase : run.phase = p at hp
  cases hp with
  | cached d entry _ => exact move (after d entry.value) rfl
  | stored d e => exact move (after d e) rfl
  | claimed d e text hfree => exact history_of_claim h hfree rfl rfl rfl
  | attempt row e claimed stage _ ha => exact attempt_history hwf hinv h hrun hphase ha
  | retryScheduled n retryAt =>
      have hsame : ∀ d, SameCounter s.db
          (Write.exec s.now s.db (.scheduleRetry run.deliveryId retryAt)) d :=
        fun d => exec_same (by simp [Write.target])
      refine h.of_frame (.of_eq rfl) h.unique (fun d => (hsame d).count) (fun d row' hrow' => ?_) ?_
      · simp only [applyNext, Run.writing, Write.exec, Table.find?_modify] at hrow'
        split_ifs at hrow' with hd
        · obtain ⟨row, hrow, rfl⟩ := Option.map_eq_some_iff.1 hrow'
          exact .inr ⟨row, hd ▸ hrow, rfl⟩
        · exact .inr ⟨row', hrow', rfl⟩
      · intro r' run' row e claimed stage hrun' hphase'
        obtain ⟨-, hrun'⟩ := runs_of_update (r := r) rfl
          (fun run row e claimed stage he => by cases he; exact fun hc => by cases hc)
          r' run' row e claimed stage hrun' hphase'
        exact h.held r' run' row e claimed stage hrun' hphase'
  | _ => exact move (fun _ _ _ _ hc => by cases hc) rfl

theorem step_history (hwf : Wf s) (hinv : ∀ d, Claims.Inv (counter s d)) (h : History cfg s)
    (hs : step cfg s a = some s') : History cfg s' := by
  cases step_change hs with
  | outside hd ha hr _ _ _ =>
      exact h.of_runs hd ha fun r run row e claimed stage hrun hphase =>
        ⟨run, stage, hr ▸ hrun, hphase, fun _ => id⟩
  | reserved ds hds hrows ha hr _ _ _ _ =>
      have hfind : ∀ d, s'.db.deliveries.find? d =
          (s.db.deliveries.find? d).or (ds.find? fun x => x.id = d) := by
        intro d
        unfold Table.find?
        rw [hrows, List.find?_append]
      refine h.of_frame (.of_eq ha) (by rw [ha]; exact h.unique) (fun d => ?_)
        (fun d row' hrow' => ?_) (by rw [hr, ha]; exact h.held)
      · unfold Database.attemptCount
        rw [hfind]
        cases hold : s.db.deliveries.find? d with
        | some row => rfl
        | none =>
            cases hnew : ds.find? fun x => x.id = d with
            | none => rfl
            | some row => simp [(hds row (List.mem_of_find?_eq_some hnew)).2.2.1]
      · rw [hfind] at hrow'
        cases hold : s.db.deliveries.find? d with
        | some row =>
            rw [hold] at hrow'
            cases hrow'
            exact .inr ⟨_, rfl, rfl⟩
        | none =>
            rw [hold] at hrow'
            exact .inl (hds row' (List.mem_of_find?_eq_some hrow')).2.1
  | reopened tenantId deliveryId outboxId row hrow hdel ha hr _ _ _ =>
      have hid := (Table.find?_eq_some_iff.1 hrow).2
      refine h.of_frame (.of_eq ha) (by rw [ha]; exact h.unique) (fun d => ?_)
        (fun d row' hrow' => ?_) (by rw [hr, ha]; exact h.held)
      · simp only [Database.attemptCount, hdel, Table.find?_modify]
        split_ifs with hd
        · rw [hd, hid, hrow]
          rfl
        · rfl
      · rw [hdel, Table.find?_modify] at hrow'
        split_ifs at hrow' with hd
        · obtain ⟨x, -, rfl⟩ := Option.map_eq_some_iff.1 hrow'
          exact .inl rfl
        · exact .inr ⟨row', hrow', rfl⟩
  | started w jobId j _ _ heq =>
      subst heq
      refine h.of_runs rfl rfl fun r run row e claimed stage hrun hphase => ?_
      obtain ⟨-, hrun⟩ := runs_of_update (r := s.nextRun) rfl
        (fun run row e claimed stage he => by cases he; exact fun hc => by cases hc)
        r run row e claimed stage hrun hphase
      exact ⟨run, stage, hrun, hphase, fun _ => id⟩
  | planned r i run next hrun hp heq =>
      subst heq
      exact planned_history hwf hinv h hrun hp
  | left r i run _ hgo =>
      obtain ⟨-, queue, rfl⟩ := letGo_eq_some hgo
      refine h.of_runs rfl rfl fun r' run row e claimed stage hrun hphase => ?_
      obtain ⟨-, hrun⟩ := runs_of_update (r := r) rfl (fun run row e claimed stage he => by cases he)
        r' run row e claimed stage hrun hphase
      exact ⟨run, stage, hrun, hphase, fun _ => id⟩
  | threw r run _ _ heq =>
      subst heq
      refine h.of_runs rfl rfl fun r' run row e claimed stage hrun hphase => ?_
      obtain ⟨-, hrun⟩ := runs_of_update (r := r) rfl
        (fun run row e claimed stage he => by cases he; exact fun hc => by cases hc)
        r' run row e claimed stage hrun hphase
      exact ⟨run, stage, hrun, hphase, fun _ => id⟩
  | crashed r run _ heq =>
      subst heq
      refine h.of_runs rfl rfl fun r' run row e claimed stage hrun hphase => ?_
      obtain ⟨-, hrun⟩ := runs_of_update (r := r) rfl (fun run row e claimed stage he => by cases he)
        r' run row e claimed stage hrun hphase
      exact ⟨run, stage, hrun, hphase, fun _ => id⟩

theorem history_init : History cfg init where
  unique := fun _ h => by cases h
  recorded := fun d i h1 hi => by
    have : i ≤ 0 := hi
    omega
  agrees := fun _ _ h => by cases h
  held := fun _ _ _ _ _ _ h => by cases h

theorem path_history {P : State → Action → Prop} (h : Path (step cfg) P init s) : History cfg s :=
  h.invariant_along (J := fun t => Wf t ∧ ∀ d, Claims.Inv (counter t d))
    (fun _ ht => ⟨path_wf ht, path_inv ht⟩)
    (fun _ _ _ hJ hI _ hs => step_history hJ.1 hJ.2 hI hs) history_init

/-! ## The result -/

/-- A statement that settles another delivery, or none, leaves the status alone. -/
theorem exec_status {now : Micros} {db : Database} {w : Write} (h : w.target ≠ some d) :
    ((w.exec now db).deliveries.find? d).map DeliveryRow.status =
      (db.deliveries.find? d).map DeliveryRow.status := by
  cases w with
  | settleSuccess k n =>
      have hk : d ≠ k := fun hk => h (by rw [Write.target, hk])
      simp [Write.exec, Table.find?_modify_of_ne _ _ _ hk]
  | settleFailure k n dead =>
      have hk : d ≠ k := fun hk => h (by rw [Write.target, hk])
      simp [Write.exec, Table.find?_modify_of_ne _ _ _ hk]
  | scheduleRetry k retryAt =>
      simp only [Write.exec, Table.find?_modify]
      split_ifs with hd
      · rw [hd, Option.map_map]
        rfl
      · rfl
  | _ => rfl

/-- A run that settles a delivery finds it open. -/
theorem open_of_target {r : ℕ} {run : Run} {next : Next} (hwf : Wf s)
    (hinv : ∀ d, Claims.Inv (counter s d)) (hrun : s.runs r = some run)
    (hp : Planned cfg s.now s.db (s.cache run.worker) run run.phase next)
    (ht : next.write.target = some d) :
    s.db.Open d ∨ ((next.write.exec s.now s.db).deliveries = s.db.deliveries) := by
  generalize hphase : run.phase = p at hp
  cases hp with
  | claimed row e text _ => exact .inr rfl
  | attempt row e claimed stage _ ha =>
      have hopen := (count_of_attempt hwf hinv hrun hphase).2
      cases ha <;> first
        | exact .inl ((Option.some.inj ht) ▸ hopen)
        | exact absurd ht (by simp [Run.goto, Run.writing, Write.target])
  | _ => exact absurd ht (by simp [Run.goto, Run.writing, Write.target])

/-- A delivery that is `SUCCEEDED` or `DEAD` keeps its status in every step but a
redelivery of it. -/
theorem step_done {row : DeliveryRow} (hwf : Wf s) (hinv : ∀ d, Claims.Inv (counter s d))
    (hrow : s.db.deliveries.find? d = some row) (hdone : row.status.isDone = true)
    (hs : step cfg s a = some s') :
    (∃ row', s'.db.deliveries.find? d = some row' ∧ row'.status = row.status) ∨
      ∃ tenantId outboxId, a = .redeliver tenantId d outboxId := by
  have kept : (s'.db.deliveries.find? d).map DeliveryRow.status =
      (s.db.deliveries.find? d).map DeliveryRow.status →
      ∃ row', s'.db.deliveries.find? d = some row' ∧ row'.status = row.status := by
    intro heq
    rw [hrow] at heq
    obtain ⟨row', hrow', hst⟩ := Option.map_eq_some_iff.1 heq
    exact ⟨row', hrow', hst⟩
  cases step_change hs with
  | outside hd _ _ _ _ _ => exact .inl (kept (by rw [hd]))
  | reserved ds _ hrows _ _ _ _ _ _ =>
      refine .inl (kept ?_)
      have hfind : s'.db.deliveries.find? d = some row := by
        unfold Table.find? at hrow ⊢
        rw [hrows, List.find?_append, hrow]
        rfl
      rw [hfind, hrow]
  | reopened tenantId deliveryId outboxId x hx hdel _ _ _ _ _ =>
      have hid := (Table.find?_eq_some_iff.1 hx).2
      by_cases hd : d = x.id
      · exact .inr ⟨tenantId, outboxId, by rw [hd, hid]⟩
      · exact .inl (kept (by rw [hdel, Table.find?_modify_of_ne _ _ _ hd]))
  | started _ _ _ _ _ heq => exact .inl (kept (by rw [heq]))
  | planned r i run next hrun hp heq =>
      refine .inl (kept ?_)
      rw [heq]
      by_cases ht : next.write.target = some d
      · rcases open_of_target hwf hinv hrun hp ht with ⟨x, hx, hopen⟩ | hsame
        · rw [hrow, Option.some.injEq] at hx
          rw [hx, hopen] at hdone
          exact absurd hdone (by simp)
        · simp only [applyNext, hsame]
      · exact exec_status ht
  | left r i run _ hgo =>
      obtain ⟨-, queue, rfl⟩ := letGo_eq_some hgo
      exact .inl (kept rfl)
  | threw _ _ _ _ heq => exact .inl (kept (by rw [heq]; rfl))
  | crashed _ _ _ heq => exact .inl (kept (by rw [heq]; rfl))

/-- **The status of a delivery agrees with its attempts.**  In every reachable state:
attempts `1 … attemptCount` each have exactly one row, with its result recorded; the
status agrees with the row of the last of them (`SUCCEEDED`: a 2xx response and no error;
`FAILED_RETRYING` and `DEAD`: an error, with `attemptCount` below the maximum, or not);
and no step but a redelivery takes a delivery out of `SUCCEEDED` or `DEAD`. -/
theorem status_agrees_with_history (cfg : WorkerConfig) (s : State) (h : Reach cfg s) (d : Uuid)
    (row : DeliveryRow) (hrow : s.db.deliveries.find? d = some row) :
    (∀ i, 1 ≤ i → i ≤ row.attemptCount → s.db.HasAttempt d i AttemptRow.Recorded) ∧
    (∀ x ∈ s.db.attempts.rows, ∀ y ∈ s.db.attempts.rows,
      x.deliveryId = y.deliveryId → x.attemptNo = y.attemptNo → x = y) ∧
    (row.status = .succeeded → s.db.HasAttempt d row.attemptCount AttemptRow.Succeeded) ∧
    (row.status = .failedRetrying → (row.attemptCount : ℤ) < cfg.maxAttempts ∧
      s.db.HasAttempt d row.attemptCount AttemptRow.Failed) ∧
    (row.status = .dead → cfg.maxAttempts ≤ (row.attemptCount : ℤ) ∧
      s.db.HasAttempt d row.attemptCount AttemptRow.Failed) ∧
    (row.status.isDone = true → ∀ a s', step cfg s a = some s' →
      (∃ row', s'.db.deliveries.find? d = some row' ∧ row'.status = row.status) ∨
        ∃ tenantId outboxId, a = .redeliver tenantId d outboxId) := by
  have hist := path_history h
  have hagrees := hist.agrees d row hrow
  have hid := (Table.find?_eq_some_iff.1 hrow).2
  unfold Database.StatusAgrees at hagrees
  refine ⟨fun i h1 hi => ?_, hist.unique, fun hs => ?_, fun hs => ?_, fun hs => ?_,
    fun hdone a s' hs => ?_⟩
  · exact hist.recorded d i h1 (by rw [attemptCount_of_find? hrow]; exact hi)
  · rw [hs] at hagrees
    exact hid ▸ hagrees
  · rw [hs] at hagrees
    exact hid ▸ hagrees
  · rw [hs] at hagrees
    exact hid ▸ hagrees
  · exact step_done (path_wf h) (path_inv h) hrow hdone hs

/-- At a delivery that succeeded at once. -/
theorem status_agrees_after_success : ∃ s, Reach Sample.cfg s ∧
    Sample.statusIs s .succeeded 1 = true ∧
    s.db.HasAttempt Sample.delivery 1 AttemptRow.Succeeded := by
  obtain ⟨s, hpath, hs⟩ := Path.exists_of_runChecked (step Sample.cfg) (P := anyAction)
    (p := fun _ _ => true) (fun _ _ _ => trivial) init
    (Sample.enqueued ++ [.take 0 Sample.job] ++ Sample.toClaim 0 ++ Sample.attempt 0 200 ++
      Sample.settleSuccess 0) (fun s => Sample.statusIs s .succeeded 1) (by decide)
  obtain ⟨row, hrow, hstatus, hcount⟩ := Sample.statusIs_iff.1 hs
  have hres := status_agrees_with_history Sample.cfg s hpath Sample.delivery row hrow
  exact ⟨s, hpath, hs, hcount ▸ hres.2.2.1 hstatus⟩

end System
end HookRelay
