import HookRelay.System.History

/-!
# How often a delivery is attempted

A delivery is `DEAD` after `HR_MAX_ATTEMPTS` failed attempts, and a redelivery makes it
`PENDING` again without resetting its count.  So every redelivery buys one more attempt, and
nothing else does: no crash, no duplicate job, no race between workers.

* `allowance` — the attempts a delivery may be given.
* `step_withinAllowance` — one step keeps to it; a redelivery raises it by one.
* `sends_within_allowance` — over a whole run no more requests go out than that, and a
  delivery that was never redelivered is given up after exactly its first allowance.
-/

namespace HookRelay
namespace System

open Lib

variable {cfg : WorkerConfig} {s s' : State} {a : Action} {d : Uuid} {n : ℕ}

/-- The attempts of a delivery after so many redeliveries: `HR_MAX_ATTEMPTS`, but at least
one, and one for each redelivery. -/
def allowance (cfg : WorkerConfig) (redeliveries : ℕ) : ℕ :=
  max 1 cfg.maxAttempts.toNat + redeliveries

def isRedeliveryOf (d : Uuid) : Action → Bool
  | .redeliver _ deliveryId _ => deliveryId = d
  | _ => false

/-- How often the delivery was redelivered. -/
def redeliveries (d : Uuid) (as : List Action) : ℕ := as.countP (isRedeliveryOf d)

/-- How many requests went out for the delivery. -/
def sends (s : State) (d : Uuid) : ℕ := s.sent.countP fun x => x.1 = d

/-- A delivery has not used more than `n` redeliveries allow, and less while it is open. -/
def Allowed (cfg : WorkerConfig) (n : ℕ) (row : DeliveryRow) : Prop :=
  row.attemptCount ≤ allowance cfg n ∧
    (row.status.isDone = false → row.attemptCount < allowance cfg n)

theorem Allowed.mono {row : DeliveryRow} {m : ℕ} (h : Allowed cfg n row) (hnm : n ≤ m) :
    Allowed cfg m row := by
  have hle : allowance cfg n ≤ allowance cfg m := Nat.add_le_add_left hnm _
  exact ⟨h.1.trans hle, fun hd => (h.2 hd).trans_le hle⟩

/-- The same count and status. -/
theorem Allowed.congr {row row' : DeliveryRow} (h : Allowed cfg n row)
    (hc : row'.attemptCount = row.attemptCount) (hs : row'.status = row.status) :
    Allowed cfg n row' := by
  unfold Allowed
  rw [hc, hs]
  exact h

theorem allowed_fresh {row : DeliveryRow} (h : row.attemptCount = 0) : Allowed cfg n row := by
  have hpos : 0 < allowance cfg n := Nat.lt_of_lt_of_le Nat.one_pos
    ((le_max_left 1 _).trans (Nat.le_add_right _ n))
  unfold Allowed
  rw [h]
  exact ⟨Nat.zero_le _, fun _ => hpos⟩

/-- A redelivery leaves the count and allows one attempt more. -/
theorem Allowed.reopen {row : DeliveryRow} (h : Allowed cfg n row) (now : Micros) :
    Allowed cfg (n + 1) (Database.reopen now row) := by
  have hc : (Database.reopen now row).attemptCount = row.attemptCount := rfl
  have hsucc : allowance cfg (n + 1) = allowance cfg n + 1 := rfl
  unfold Allowed
  rw [hc, hsucc]
  exact ⟨h.1.trans (Nat.le_succ _), fun _ => Nat.lt_succ_of_le h.1⟩

theorem Allowed.succeeded {row x : DeliveryRow} (h : Allowed cfg n row)
    (hopen : row.status.isDone = false) (now : Micros) :
    Allowed cfg n (Write.succeededData now (row.attemptCount + 1) x) :=
  ⟨h.2 hopen, fun hd => by cases hd⟩

/-- An attempt that fails leaves the delivery `DEAD`, or below `HR_MAX_ATTEMPTS`. -/
theorem Allowed.failed {row x : DeliveryRow} (h : Allowed cfg n row)
    (hopen : row.status.isDone = false) (now : Micros) :
    Allowed cfg n (Write.failedData now (row.attemptCount + 1)
      (isDead cfg (row.attemptCount + 1)) x) := by
  refine ⟨h.2 hopen, fun hd => ?_⟩
  cases hdead : isDead cfg (row.attemptCount + 1) with
  | true => rw [hdead] at hd; cases hd
  | false =>
      have hlt : ((row.attemptCount + 1 : ℕ) : ℤ) < cfg.maxAttempts :=
        not_le.1 (of_decide_eq_false hdead)
      show row.attemptCount + 1 < max 1 cfg.maxAttempts.toNat + n
      omega

/-- The delivery keeps to its allowance. -/
def WithinAllowance (cfg : WorkerConfig) (n : ℕ) (s : State) (d : Uuid) : Prop :=
  ∀ row, s.db.deliveries.find? d = some row → Allowed cfg n row

/-! ## One step -/

/-- A run settles the attempt that it holds on a delivery that is open. -/
theorem exec_withinAllowance {r : ℕ} {run : Run} {next : Next} (hwf : Wf s)
    (hinv : ∀ d, Claims.Inv (counter s d)) (h : WithinAllowance cfg n s d)
    (hrun : s.runs r = some run)
    (hp : Planned cfg s.now s.db (s.cache run.worker) run run.phase next) :
    WithinAllowance cfg n (applyNext s r run next) d := by
  -- an update of one delivery by a statement of the run
  have modified : ∀ {k : Uuid} {f : DeliveryRow → DeliveryRow} (hf : ∀ x, (f x).id = x.id),
      (next.write.exec s.now s.db).deliveries = s.db.deliveries.modify k f hf →
      (∀ row, d = k → s.db.deliveries.find? d = some row → Allowed cfg n (f row)) →
      WithinAllowance cfg n (applyNext s r run next) d := by
    intro k f hf heq hrow row' hrow'
    simp only [applyNext, heq, Table.find?_modify] at hrow'
    split_ifs at hrow' with hd
    · obtain ⟨row, hfind, rfl⟩ := Option.map_eq_some_iff.1 hrow'
      exact hrow row hd (hd ▸ hfind)
    · exact h row' hrow'
  have kept : (next.write.exec s.now s.db).deliveries = s.db.deliveries →
      WithinAllowance cfg n (applyNext s r run next) d := by
    intro heq row' hrow'
    simp only [applyNext, heq] at hrow'
    exact h row' hrow'
  generalize hphase : run.phase = p at hp
  cases hp with
  | attempt row e claimed stage _ ha =>
      obtain ⟨hcount, x, hx, hopen⟩ := count_of_attempt hwf hinv hrun hphase
      have hown : ∀ y, d = row.id → s.db.deliveries.find? d = some y →
          Allowed cfg n y ∧ y.attemptCount = row.attemptCount ∧ y.status.isDone = false := by
        rintro y rfl hy
        rw [hx, Option.some.injEq] at hy
        subst hy
        exact ⟨h x hx, by rw [hcount, attemptCount_of_find? hx], hopen⟩
      cases ha with
      | succeeded =>
          refine modified (Write.succeededData_id s.now _) rfl fun y hd hy => ?_
          obtain ⟨hy, hc, ho⟩ := hown y hd hy
          exact hc ▸ hy.succeeded ho s.now
      | failed =>
          refine modified (Write.failedData_id s.now _ _) rfl fun y hd hy => ?_
          obtain ⟨hy, hc, ho⟩ := hown y hd hy
          exact hc ▸ hy.failed ho s.now
      | failedOpen =>
          refine modified (Write.failedData_id s.now _ _) rfl fun y hd hy => ?_
          obtain ⟨hy, hc, ho⟩ := hown y hd hy
          exact hc ▸ hy.failed ho s.now
      | _ => exact kept rfl
  | retryScheduled k retryAt =>
      exact modified (Write.retryData_id s.now retryAt) rfl fun y _ hy => (h y hy).congr rfl rfl
  | _ => exact kept rfl

/-- **The step lemma.**  A redelivery allows one attempt more; every other step keeps to what
was allowed. -/
theorem step_withinAllowance (hwf : Wf s) (hinv : ∀ d, Claims.Inv (counter s d))
    (h : WithinAllowance cfg n s d) (hs : step cfg s a = some s') :
    WithinAllowance cfg (n + if isRedeliveryOf d a then 1 else 0) s' d := by
  have more : ∀ {m : ℕ}, WithinAllowance cfg n s' d → WithinAllowance cfg (n + m) s' d :=
    fun hw row hrow => (hw row hrow).mono (Nat.le_add_right _ _)
  have same : s'.db.deliveries = s.db.deliveries → WithinAllowance cfg n s' d :=
    fun heq row hrow => h row (heq ▸ hrow)
  cases step_change hs with
  | outside hd _ _ _ _ _ => exact more (same hd)
  | reserved ds hds hrows _ _ _ _ _ _ =>
      refine more fun row hrow => ?_
      have hfind : s'.db.deliveries.find? d =
          (s.db.deliveries.find? d).or (ds.find? fun x => x.id = d) := by
        unfold Table.find?
        rw [hrows, List.find?_append]
      rw [hfind] at hrow
      cases hold : s.db.deliveries.find? d with
      | some x =>
          rw [hold] at hrow
          cases hrow
          exact h _ hold
      | none =>
          rw [hold] at hrow
          exact allowed_fresh (hds row (List.mem_of_find?_eq_some hrow)).2.2.1
  | reopened tenantId deliveryId outboxId x hx hdel _ _ _ _ _ =>
      have hid := (Table.find?_eq_some_iff.1 hx).2
      intro row hrow
      rw [hdel, Table.find?_modify] at hrow
      split_ifs at hrow with hd
      · obtain ⟨y, hy, rfl⟩ := Option.map_eq_some_iff.1 hrow
        have hred : isRedeliveryOf d (.redeliver tenantId deliveryId outboxId) = true :=
          decide_eq_true (hid.symm.trans hd.symm)
        rw [if_pos hred]
        exact (h y (hd ▸ hy)).reopen s.now
      · exact (h row hrow).mono (Nat.le_add_right _ _)
  | started _ _ _ _ _ heq => exact more (same (by rw [heq]))
  | planned r i run next hrun hp heq =>
      subst heq
      exact more (exec_withinAllowance hwf hinv h hrun hp)
  | left r i run _ hgo =>
      obtain ⟨-, queue, rfl⟩ := letGo_eq_some hgo
      exact more (same rfl)
  | threw _ _ _ _ heq => exact more (same (by rw [heq]; rfl))
  | crashed _ _ _ heq => exact more (same (by rw [heq]; rfl))

/-! ## Whole runs -/

/-- The attempt after the last one is claimed only while the delivery is open. -/
theorem path_open_of_taken {P : State → Action → Prop} (h : Path (step cfg) P init s) :
    s.db.attemptTaken d (s.db.attemptCount d + 1) = true → s.db.Open d := by
  refine h.invariant_along (I := fun t => (counter t d).taken ((counter t d).count + 1) →
    (counter t d).live) (J := fun t => Wf t ∧ Claims.Inv (counter t d))
    (fun t ht => ⟨path_wf ht, path_inv ht d⟩) (fun t a u hJ hI _ hs => ?_) (fun h => by cases h)
  obtain ⟨m, hm, -⟩ := step_counter hJ.1 hJ.2 hs
  exact hm.live_of_taken hJ.2 hI

theorem run_withinAllowance {as : List Action} (h : run (step cfg) init as = some s) (d : Uuid) :
    Reach cfg s ∧ WithinAllowance cfg (redeliveries d as) s d := by
  refine run_induction (I := fun bs t => Reach cfg t ∧
    WithinAllowance cfg (redeliveries d bs) t d) (fun bs t a u hI hs => ?_)
    ⟨.refl, fun row hrow => by cases hrow⟩ h
  refine ⟨hI.1.snoc trivial hs, ?_⟩
  have hstep := step_withinAllowance (path_wf hI.1) (path_inv hI.1) hI.2 hs
  rwa [redeliveries, List.countP_append, List.countP_singleton]

/-- Every request of a delivery is within its allowance. -/
theorem sent_le_allowance {x : Uuid × ℕ} (hreach : Reach cfg s)
    (hw : WithinAllowance cfg n s x.1) (hx : x ∈ s.sent) : 1 ≤ x.2 ∧ x.2 ≤ allowance cfg n := by
  have htaken := (path_sentOnce hreach).taken x hx
  have hinv := path_inv hreach x.1
  obtain ⟨h1, hle⟩ := hinv.taken_le x.2 htaken
  refine ⟨h1, ?_⟩
  rcases Nat.lt_or_ge (s.db.attemptCount x.1) x.2 with hlt | hge
  · -- the last attempt is claimed and not settled, so the delivery is open
    have hlast : x.2 = s.db.attemptCount x.1 + 1 := Nat.le_antisymm hle hlt
    obtain ⟨row, hrow, hopen⟩ := path_open_of_taken hreach (hlast ▸ htaken)
    have := (hw row hrow).2 hopen
    rw [hlast, attemptCount_of_find? hrow]
    exact this
  · cases hrow : s.db.deliveries.find? x.1 with
    | none =>
        rw [Database.attemptCount, hrow] at hge
        exact absurd (h1.trans hge) (by simp)
    | some row => exact hge.trans (by rw [attemptCount_of_find? hrow]; exact (hw row hrow).1)

/-- Different numbers from `1` to `k` are at most `k`. -/
theorem length_le_of_nodup_le {l : List ℕ} {k : ℕ} (hn : l.Nodup)
    (h : ∀ i ∈ l, 1 ≤ i ∧ i ≤ k) : l.length ≤ k := by
  have hsub : l.toFinset ⊆ Finset.Icc 1 k := fun i hi =>
    Finset.mem_Icc.2 (h i (List.mem_toFinset.1 hi))
  calc l.length = l.toFinset.card := (List.toFinset_card_of_nodup hn).symm
    _ ≤ (Finset.Icc 1 k).card := Finset.card_le_card hsub
    _ = k := by simp

/-- **A delivery is attempted no more often than its redeliveries allow, and no less.**  After
any run, with any crashes, duplicate jobs and races: no more requests went out for a delivery
than `HR_MAX_ATTEMPTS` (at least one) and one for each of its redeliveries; the count of its
attempts keeps to the same bound, and below it while the delivery is open; and a delivery that
is `DEAD` and was never redelivered has had exactly `HR_MAX_ATTEMPTS` attempts, or one when
that is less than one. -/
theorem sends_within_allowance (cfg : WorkerConfig) (as : List Action) (s : State)
    (h : run (step cfg) init as = some s) (d : Uuid) :
    sends s d ≤ max 1 cfg.maxAttempts.toNat + redeliveries d as ∧
    ∀ row, s.db.deliveries.find? d = some row →
      row.attemptCount ≤ max 1 cfg.maxAttempts.toNat + redeliveries d as ∧
      (row.status.isDone = false →
        row.attemptCount < max 1 cfg.maxAttempts.toNat + redeliveries d as) ∧
      (row.status = .dead → redeliveries d as = 0 →
        row.attemptCount = max 1 cfg.maxAttempts.toNat) := by
  obtain ⟨hreach, hw⟩ := run_withinAllowance h d
  refine ⟨?_, fun row hrow => ⟨(hw row hrow).1, (hw row hrow).2, fun hdead hzero => ?_⟩⟩
  · -- the numbers of the requests are different, and all within the allowance
    have hnodup : ((s.sent.filter fun x => x.1 = d).map Prod.snd).Nodup := by
      refine List.Nodup.map_on (fun x hx y hy hxy => ?_) ((path_sentOnce hreach).nodup.filter _)
      have hxd : x.1 = d := by simpa using (List.mem_filter.1 hx).2
      have hyd : y.1 = d := by simpa using (List.mem_filter.1 hy).2
      exact Prod.ext (hxd.trans hyd.symm) hxy
    have hlen := length_le_of_nodup_le hnodup (k := allowance cfg (redeliveries d as)) ?_
    · rwa [List.length_map, ← List.countP_eq_length_filter] at hlen
    · intro i hi
      obtain ⟨x, hx, rfl⟩ := List.mem_map.1 hi
      obtain ⟨hmem, hxd⟩ := List.mem_filter.1 hx
      have hxd : x.1 = d := by simpa using hxd
      exact sent_le_allowance hreach (hxd ▸ hw) hmem
  · have hagree := (path_history hreach).agrees d row hrow
    unfold Database.StatusAgrees at hagree
    rw [hdead] at hagree
    obtain ⟨hmax, x, hx, hxd, hxn, -⟩ := hagree
    have hpos := ((path_inv hreach row.id).taken_le row.attemptCount
      (Database.attemptTaken_iff.2 ⟨x, hx, hxd, hxn⟩)).1
    have hle := (hw row hrow).1
    rw [hzero] at hle
    simp only [allowance] at hle
    omega

/-- At a delivery that failed twice, and failed once more after a redelivery. -/
theorem sends_within_allowance_after_redelivery : ∃ as s, run (step Sample.cfg) init as = some s ∧
    redeliveries Sample.delivery as = 1 ∧ sends s Sample.delivery = 3 ∧
    sends s Sample.delivery ≤ max 1 Sample.cfg.maxAttempts.toNat +
      redeliveries Sample.delivery as := by
  obtain ⟨as, has⟩ : ∃ as : List Action, as = Sample.failedOnce ++ [.take 1 Sample.job] ++
      Sample.toClaim 1 ++ Sample.attempt 1 500 ++ Sample.settleFailure 1 ++ [.run 1 .none] ++
      [.redeliver Sample.tenant Sample.delivery 1, .tickRead 0 100, .tickAdd 0, .tickMark 0,
        .take 2 (deliveryJobId Sample.delivery (some (outboxSuffix 1)))] ++
      Sample.toClaim 2 ++ Sample.attempt 2 500 := ⟨_, rfl⟩
  have hrun : (run (step Sample.cfg) init as).any
      (fun s => sends s Sample.delivery = 3) = true := by rw [has]; decide
  obtain ⟨s, hs, hsends⟩ := (Option.any_eq_true _ _).1 hrun
  exact ⟨as, s, hs, by rw [has]; decide, of_decide_eq_true hsends,
    (sends_within_allowance Sample.cfg as s hs Sample.delivery).1⟩

end System
end HookRelay
