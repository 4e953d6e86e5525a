import HookRelay.System.Changes

/-!
# The time of the next retry

`nextRetryAt` is meant to be set only while a retry is scheduled.  It is cleared by a success
and by `redeliver`; the final update of a failed attempt leaves it as it is, and the handler
sets it in a statement of its own after `process` has returned.

* `Database.RetriesFit` — no delivery has a `nextRetryAt` unless it is `FAILED_RETRYING`.
* `keepsRetry` — the condition on a step: an attempt that makes the delivery `DEAD` finds
  `nextRetryAt` null, and the handler's update finds the delivery `FAILED_RETRYING`.
* `step_retriesFit` — a step keeps `RetriesFit` exactly if it meets the condition.
* `retry_only_while_retrying` — the result for runs.
-/

namespace HookRelay

open Lib

/-- `nextRetryAt` is set only if the status is `FAILED_RETRYING`. -/
def DeliveryRow.RetryFits (d : DeliveryRow) : Prop :=
  d.nextRetryAt ≠ none → d.status = .failedRetrying

instance (d : DeliveryRow) : Decidable d.RetryFits :=
  inferInstanceAs (Decidable (d.nextRetryAt ≠ none → d.status = .failedRetrying))

/-- The same of every delivery. -/
def Database.RetriesFit (db : Database) : Prop := ∀ d ∈ db.deliveries, d.RetryFits

/-- An update of one delivery. -/
theorem Database.retriesFit_modify {db : Database} {k : Uuid} {f : DeliveryRow → DeliveryRow}
    {hf : ∀ d, (f d).id = d.id} (h : db.RetriesFit) :
    Database.RetriesFit { db with deliveries := db.deliveries.modify k f hf } ↔
      ∀ row, db.deliveries.find? k = some row → (f row).RetryFits := by
  constructor
  · intro hfit row hrow
    have hmem : (db.deliveries.modify k f hf).find? k = some (f row) := by
      rw [Table.find?_modify_self, hrow]
      rfl
    exact hfit _ (Table.find?_eq_some_iff.1 hmem).1
  · intro hrow d hd
    have hd' : d ∈ db.deliveries.modify k f hf := hd
    obtain ⟨x, hx, rfl⟩ := Table.mem_modify.1 hd'
    split_ifs with hk
    · exact hrow x (hk ▸ Table.find?_of_mem hx)
    · exact h x hx

namespace System

variable {cfg : WorkerConfig} {s s' : State} {a : Action}

/-- The final update of a failed attempt: if it makes the delivery `DEAD`, `nextRetryAt` is
null. -/
def deadFindsNoRetry (cfg : WorkerConfig) (db : Database) (d : DeliveryRow) : Bool :=
  !isDead cfg (d.attemptCount + 1) ||
    (db.deliveries.find? d.id).all fun row => row.nextRetryAt = none

/-- The handler's update of `nextRetryAt`: the delivery is `FAILED_RETRYING`. -/
def retryFindsRetrying (db : Database) (deliveryId : Uuid) : Bool :=
  (db.deliveries.find? deliveryId).all fun row => row.status = .failedRetrying

/-- The condition on the next step of a run. -/
def runKeepsRetry (cfg : WorkerConfig) (db : Database) (run : Run) : Bool :=
  match run.phase with
  | .attempt d _ _ .deliveryFailure => deadFindsNoRetry cfg db d
  | .attempt d _ _ .skipDelivery => deadFindsNoRetry cfg db d
  | .retryWrite _ => retryFindsRetrying db run.deliveryId
  | _ => true

/-- The condition on a step. -/
def keepsRetry (cfg : WorkerConfig) (s : State) : Action → Bool
  | .run r _ => (s.runs r).all (runKeepsRetry cfg s.db)
  | _ => true

theorem settleFailure_fits {db : Database} {now : Micros} {d : DeliveryRow} (h : db.RetriesFit) :
    ((Write.settleFailure d.id (d.attemptCount + 1) (isDead cfg (d.attemptCount + 1))).exec now
      db).RetriesFit ↔ deadFindsNoRetry cfg db d = true := by
  refine (Database.retriesFit_modify h).trans ?_
  unfold deadFindsNoRetry
  cases hrow : db.deliveries.find? d.id with
  | none => simp
  | some row =>
      have hfits := h row (Table.find?_eq_some_iff.1 hrow).1
      cases hdead : isDead cfg (d.attemptCount + 1) with
      | true => simp [DeliveryRow.RetryFits, Write.failedData]
      | false => simp [DeliveryRow.RetryFits, Write.failedData]

theorem scheduleRetry_fits {db : Database} {now retryAt : Micros} {d : Uuid} (h : db.RetriesFit) :
    ((Write.scheduleRetry d retryAt).exec now db).RetriesFit ↔
      retryFindsRetrying db d = true := by
  refine (Database.retriesFit_modify h).trans ?_
  unfold retryFindsRetrying
  cases hrow : db.deliveries.find? d with
  | none => simp
  | some row => simp [DeliveryRow.RetryFits, Write.retryData]

/-- A planned step. -/
theorem planned_fits {db : Database} {now : Micros} {cache : EndpointCache} {run : Run}
    {next : Next} (h : db.RetriesFit) (hp : Planned cfg now db cache run run.phase next) :
    (next.write.exec now db).RetriesFit ↔ runKeepsRetry cfg db run = true := by
  have idle : ∀ {b : Bool}, b = true → (db.RetriesFit ↔ b = true) :=
    fun hb => iff_of_true h hb
  obtain ⟨p, hphase⟩ : ∃ p, run.phase = p := ⟨_, rfl⟩
  unfold runKeepsRetry
  rw [hphase] at hp ⊢
  cases hp with
  | attempt d e claimed stage _ ha =>
      cases ha with
      | succeeded =>
          refine iff_of_true ((Database.retriesFit_modify h).2 fun row _ hne => ?_) rfl
          exact absurd rfl hne
      | failed => exact settleFailure_fits h
      | failedOpen => exact settleFailure_fits h
      | _ => exact idle rfl
  | retryScheduled n retryAt => exact scheduleRetry_fits h
  | _ => exact idle rfl

/-- A step that is not one of a run. -/
theorem other_fits (h : s.db.RetriesFit) (ha : ∀ r i, a ≠ .run r i)
    (hs : step cfg s a = some s') : s'.db.RetriesFit := by
  unfold Database.RetriesFit at h ⊢
  cases step_change hs with
  | outside hd _ _ _ _ _ => rwa [hd]
  | reserved ds hds hrows _ _ _ _ _ _ =>
      intro d hd
      rw [Table.mem_def, hrows, List.mem_append] at hd
      rcases hd with hd | hd
      · exact h d hd
      · exact fun hne => absurd (hds d hd).2.2.2 hne
  | reopened tenantId deliveryId outboxId x hx hdel _ _ _ _ _ =>
      have hfits := (@Database.retriesFit_modify s.db x.id _ (Database.reopen_id s.now) h).2
        fun row _ hne => absurd rfl hne
      rw [hdel]
      exact hfits
  | started _ _ _ _ _ heq => rwa [heq]
  | planned r i run next _ _ _ => exact absurd rfl (ha r i)
  | left r i run _ _ => exact absurd rfl (ha r i)
  | threw _ _ _ _ heq => rwa [heq]
  | crashed _ _ _ heq => rwa [heq]

/-- **One step** keeps `RetriesFit` exactly if it meets the condition. -/
theorem step_retriesFit (h : s.db.RetriesFit) (hs : step cfg s a = some s') :
    s'.db.RetriesFit ↔ keepsRetry cfg s a = true := by
  cases a with
  | run r i =>
      obtain ⟨run, hrun, hgo | ⟨next, hp, rfl⟩⟩ := run_eq_some hs
      · -- a run that lets go of its job is in none of the phases with a condition
        have hkeeps : runKeepsRetry cfg s.db run = true := by
          unfold letGo at hgo
          unfold runKeepsRetry
          split at hgo <;> first | (cases hgo; done) | (rename_i hphase; rw [hphase])
        obtain ⟨-, queue, rfl⟩ := letGo_eq_some hgo
        exact iff_of_true h (by simpa [keepsRetry, hrun] using hkeeps)
      · have hkeeps : keepsRetry cfg s (.run r i) = runKeepsRetry cfg s.db run := by
          simp [keepsRetry, hrun]
        rw [hkeeps]
        exact planned_fits h hp
  | _ => exact iff_of_true (other_fits h (fun r i hr => by cases hr) hs) rfl

/-- **When `nextRetryAt` is set only while a retry is scheduled.**  So it is in every state of
every run in which an attempt that makes its delivery `DEAD` finds `nextRetryAt` null and
the handler's update finds its delivery `FAILED_RETRYING`; and the first step that does not
meet the condition breaks it. -/
theorem retry_only_while_retrying (cfg : WorkerConfig) :
    (∀ s, Path (step cfg) (fun s a => keepsRetry cfg s a = true) init s → s.db.RetriesFit) ∧
    (∀ s a s', Path (step cfg) (fun s a => keepsRetry cfg s a = true) init s →
      step cfg s a = some s' → (s'.db.RetriesFit ↔ keepsRetry cfg s a = true)) := by
  have hinit : init.db.RetriesFit := fun d hd => absurd hd (Table.not_mem_empty d)
  have hpath : ∀ s, Path (step cfg) (fun s a => keepsRetry cfg s a = true) init s →
      s.db.RetriesFit := by
    intro s h
    exact h.invariant (I := fun s => s.db.RetriesFit)
      (fun _ _ _ hI hP hs => (step_retriesFit hI hs).2 hP) hinit
  exact ⟨hpath, fun s a s' h hs => step_retriesFit (hpath s h) hs⟩

/-- At a delivery whose first attempt failed. -/
theorem retry_set_after_failure : ∃ s,
    Path (step Sample.cfg) (fun s a => keepsRetry Sample.cfg s a = true) init s ∧
    (∃ row, s.db.deliveries.find? Sample.delivery = some row ∧ row.nextRetryAt ≠ none) ∧
    s.db.RetriesFit := by
  obtain ⟨s, hpath, hs⟩ := Path.exists_of_runChecked (step Sample.cfg)
    (p := keepsRetry Sample.cfg) (fun s a => id) init Sample.failedOnce
    (fun s => (s.db.deliveries.find? Sample.delivery).any fun row => row.nextRetryAt.isSome)
    (by decide +kernel)
  obtain ⟨row, hrow, hsome⟩ := (Option.any_eq_true _ _).1 hs
  refine ⟨s, hpath, ⟨row, hrow, ?_⟩, (retry_only_while_retrying Sample.cfg).1 s hpath⟩
  exact Option.isSome_iff_ne_none.1 hsome

/-- The second and last attempt fails too: the delivery is `DEAD`, and `nextRetryAt` is still
the time of the retry that has been made. -/
theorem retry_left_on_dead :
    ¬ (∀ s, Reach Sample.cfg s → s.db.RetriesFit) := by
  intro h
  obtain ⟨s, hpath, hs⟩ := Path.exists_of_runChecked (step Sample.cfg)
    (P := anyAction) (p := fun _ _ => true) (fun s a _ => trivial) init
    (Sample.failedOnce ++ [.take 0 Sample.job, .run 1 .none, .run 1 (.answer true), .run 1 .none,
      .run 1 .none] ++ Sample.attempt 1 500 ++ Sample.settleFailure 1)
    (fun s => (s.db.deliveries.find? Sample.delivery).any fun row =>
      row.nextRetryAt.isSome && row.status = .dead) (by decide +kernel)
  obtain ⟨row, hrow, hdead⟩ := (Option.any_eq_true _ _).1 hs
  rw [Bool.and_eq_true, decide_eq_true_eq] at hdead
  have := h s hpath row (Table.find?_eq_some_iff.1 hrow).1 (Option.isSome_iff_ne_none.1 hdead.1)
  rw [hdead.2] at this
  cases this

end System
end HookRelay
