import HookRelay.Worker.TenantLimiter

/-!
# The tenant limiter when Redis fails

`acquire` says yes in two situations: the script counted the slot, or Redis could not be
asked.  `release` cannot tell them apart, and takes one off the counter in both.  Here the
calls are whole: the `DECR` of a release and its `DEL` are not interrupted, each Redis
command may fail without an effect, and no key expires.

* `stepCall` — one call, put together from the steps of `TenantLimiter.step`.
* `Covered` — the holders that the script counted are at most the value of the counter, and
  so at most `max`.
* `Spares` — a release of a slot that was not counted takes nothing off a counter that has
  nothing to spare.
* `covered_iff_spares` — the counter covers its holders exactly in the runs in which every
  release spares it.
-/

namespace HookRelay
namespace TenantLimiter

open Lib

variable {W : Type} [DecidableEq W]

inductive Call (W : Type) where
  /-- Time passes. -/
  | advance (ms : ℕ)
  | acquire (w : W) (tenantId : Text) (up : Bool)
  | release (w : W) (tenantId : Text) (decrUp delUp : Bool)

/-- One call.  The `DEL` follows its `DECR` at once. -/
def stepCall (cfg : LimiterConfig) (s : State W) : Call W → Option (State W)
  | .advance ms => step cfg s (.advance ms)
  | .acquire w t up => step cfg s (.acquire w t up)
  | .release w t decrUp delUp =>
      (step cfg s (.decr w t decrUp)).bind fun s' =>
        if w ∈ s'.deleting t then step cfg s' (.del w t delUp) else some s'

/-- No key expires. -/
def NoExpiry (s : State W) : Call W → Prop
  | .advance ms => s.redis.AllLive (s.now + ms)
  | _ => True

/-- A release of a slot that the script did not count fails, or finds a counter above the
number of counted holders, or one at `0` that it deletes. -/
def Spares (s : State W) : Call W → Prop
  | .release w t decrUp delUp => decrUp = true → w ∉ s.counted t →
      ((s.counted t).card : ℤ) < s.value t ∨ s.value t = 0 ∧ delUp = true
  | _ => True

/-- Every counted holder is in the counter, and they are at most `max`. -/
def Covered (cfg : LimiterConfig) (s : State W) : Prop :=
  ∀ t, ((s.counted t).card : ℤ) ≤ s.value t ∧ ((s.counted t).card : ℤ) ≤ cfg.max

/-- The state between two calls. -/
structure Between (cfg : LimiterConfig) (s : State W) : Prop where
  live : s.redis.AllLive s.now
  idle : ∀ t, s.deleting t = ∅
  holds : ∀ t, s.counted t ⊆ s.holders t
  le_value : ∀ t, ((s.counted t).card : ℤ) ≤ s.value t
  value_le : ∀ t, s.value t ≤ cfg.max

variable {cfg : LimiterConfig} {s s' : State W} {t u : Text} {w : W}

omit [DecidableEq W] in
theorem between_init (hmax : 1 ≤ cfg.max) : Between cfg (init : State W) where
  live := by intro k e he; simp [init] at he
  idle := fun _ => rfl
  holds := fun _ => Finset.Subset.refl _
  le_value := fun _ => le_refl _
  value_le := fun _ => le_trans (show (0 : ℤ) ≤ 1 by decide) hmax

omit [DecidableEq W] in
theorem Between.covered (h : Between cfg s) : Covered cfg s :=
  fun t => ⟨h.le_value t, le_trans (h.le_value t) (h.value_le t)⟩

/-! ## What a release does -/

/-- The value that a release leaves in a counter. -/
def valueAfter (v : ℤ) (decrUp delUp : Bool) : ℤ :=
  if decrUp then if v - 1 ≤ 0 ∧ delUp = true then 0 else v - 1 else v

/-- A release gives the slot back and leaves `valueAfter` in the tenant's counter. -/
theorem release_spec (hmax : 1 ≤ cfg.max) (h : Between cfg s) {decrUp delUp : Bool}
    (hs : stepCall cfg s (.release w t decrUp delUp) = some s') :
    w ∈ s.holders t ∧ s'.redis.AllLive s'.now ∧ (∀ u, s'.deleting u = ∅) ∧
    s'.holders = Function.update s.holders t ((s.holders t).erase w) ∧
    s'.counted = Function.update s.counted t ((s.counted t).erase w) ∧
    ∀ u, s'.value u = if u = t then valueAfter (s.value t) decrUp delUp else s.value u := by
  obtain ⟨s₁, h₁, h₂⟩ := Option.bind_eq_some_iff.1 hs
  simp only [step, Option.ite_none_right_eq_some, Option.some.injEq] at h₁
  obtain ⟨hw, rfl⟩ := h₁
  cases decrUp with
  | false =>
      -- the `DECR` failed, and there is no `DEL`
      have hdecr : releaseDecr cfg false s.redis s.now t = (false, s.redis) := by
        simp [releaseDecr]
      rw [hdecr] at h₂
      simp only [Bool.false_eq_true, if_false, h.idle t, Finset.notMem_empty,
        Option.some.injEq] at h₂
      subst h₂
      refine ⟨hw, h.live, h.idle, rfl, rfl, fun u => ?_⟩
      by_cases hu : u = t
      · rw [if_pos hu, hu]; rfl
      · rw [if_neg hu]; rfl
  | true =>
      have hdel : (releaseDecr cfg true s.redis s.now t).1 = decide (s.value t - 1 ≤ 0) := by
        rw [releaseDecr, if_neg (by omega), if_pos rfl]
        rfl
      have hredis : (releaseDecr cfg true s.redis s.now t).2 =
          (s.redis.incrBy s.now (key t) (-1)).2 := releaseDecr_eq (by omega)
      have hcount := releaseDecr_count s.redis s.now t (show 0 < cfg.max by omega)
      have hlive : (releaseDecr cfg true s.redis s.now t).2.AllLive s.now := by
        rw [hredis]
        exact h.live.incrBy
      simp only [hdel, h.idle t] at h₂
      by_cases hpos : s.value t - 1 ≤ 0
      · -- the `DEL` follows
        simp only [hpos, decide_true, if_true, Function.update_self, step, insert_empty_eq,
          Finset.mem_singleton, Finset.erase_singleton, Option.some.injEq] at h₂
        subst h₂
        refine ⟨hw, ?_, fun u => ?_, rfl, rfl, fun u => ?_⟩
        · cases delUp with
          | false => exact hlive
          | true => exact hlive.del
        · by_cases hu : u = t
          · subst hu
            simp
          · simp [hu, h.idle u]
        · cases delUp with
          | false =>
              show (releaseDecr cfg true s.redis s.now t).2.count s.now (key u) = _
              rw [hcount]
              by_cases hu : u = t
              · rw [if_pos hu, if_pos hu]
                simp [valueAfter, State.value]
              · rw [if_neg hu, if_neg hu]; rfl
          | true =>
              show ((releaseDecr cfg true s.redis s.now t).2.del (key t)).count s.now (key u) = _
              rw [Expiring.count_del, hcount]
              by_cases hu : u = t
              · rw [if_pos (by rw [hu]), if_pos hu]
                simp [valueAfter, hpos]
              · rw [if_neg (fun hk => hu (key_inj.1 hk)), if_neg hu, if_neg hu]; rfl
      · simp only [hpos, decide_false, Bool.false_eq_true, if_false, h.idle t,
          Finset.notMem_empty, Option.some.injEq] at h₂
        subst h₂
        refine ⟨hw, hlive, h.idle, rfl, rfl, fun u => ?_⟩
        show (releaseDecr cfg true s.redis s.now t).2.count s.now (key u) = _
        rw [hcount]
        by_cases hu : u = t
        · rw [if_pos hu, if_pos hu, valueAfter, if_pos rfl, if_neg fun hc => hpos hc.1]
          rfl
        · rw [if_neg hu, if_neg hu]; rfl

/-! ## One call -/

omit [DecidableEq W] in
theorem advance_between (h : Between cfg s) {ms : ℕ} (hlive : s.redis.AllLive (s.now + ms)) :
    Between cfg { s with now := s.now + ms } := by
  have hvalue : ∀ t, State.value { s with now := s.now + ms } t = s.value t :=
    fun t => h.live.count_eq hlive (key t)
  exact ⟨hlive, h.idle, h.holds, fun t => by rw [hvalue]; exact h.le_value t,
    fun t => by rw [hvalue]; exact h.value_le t⟩

/-- An `acquire` that Redis answers counts the slot it grants; one that it does not answer
grants a slot that is not counted. -/
theorem acquire_between (hmax : 1 ≤ cfg.max) (httl : 0 < cfg.ttlSec) (h : Between cfg s) {up : Bool}
    (hs : step cfg s (.acquire w t up) = some s') : Between cfg s' := by
  simp only [step] at hs
  split at hs
  · exact absurd hs (by simp)
  rename_i hbusy
  have hw : w ∉ s.counted t := fun hc => hbusy (.inl (h.holds t hc))
  cases up with
  | false =>
      have hopen : acquire cfg false s.redis s.now t = (true, s.redis) := by
        simp [acquire]
      rw [hopen] at hs
      simp only [if_true, Bool.false_eq_true, false_and, if_false, Option.some.injEq] at hs
      subst hs
      refine ⟨h.live, h.idle, fun u => ?_, h.le_value, h.value_le⟩
      by_cases hu : u = t
      · subst hu
        simpa using (h.holds u).trans (Finset.subset_insert _ _)
      · simpa [hu] using h.holds u
  | true =>
      have hlive : (acquire cfg true s.redis s.now t).2.AllLive s.now := by
        rw [acquire_eq (by omega)]
        exact acquireLua_live h.live httl
      obtain ⟨hgrant, hcount, -⟩ := acquire_spec s.redis s.now t (by omega) httl
      by_cases hok : (acquire cfg true s.redis s.now t).1 = true
      · have hroom : s.value t + 1 ≤ cfg.max := hgrant.1 hok
        rw [if_pos hok, if_pos ⟨rfl, by omega⟩, Option.some.injEq] at hs
        subst hs
        have hvalue : ∀ u, State.value { s with
            redis := (acquire cfg true s.redis s.now t).2
            holders := Function.update s.holders t (insert w (s.holders t))
            counted := Function.update s.counted t (insert w (s.counted t)) } u =
              if u = t then s.value t + 1 else s.value u := by
          intro u
          show (acquire cfg true s.redis s.now t).2.count s.now (key u) = _
          rw [hcount]
          simp only [hok, and_true]
          rfl
        refine ⟨hlive, h.idle, fun u => ?_, fun u => ?_, fun u => ?_⟩
        · by_cases hu : u = t
          · subst hu
            simpa using Finset.insert_subset_insert w (h.holds u)
          · simpa [hu] using h.holds u
        · rw [hvalue]
          by_cases hu : u = t
          · subst hu
            have := h.le_value u
            rw [if_pos rfl]
            simp only [Function.update_self, Finset.card_insert_of_notMem hw]
            omega
          · rw [if_neg hu]
            simpa [hu] using h.le_value u
        · rw [hvalue]
          split_ifs
          · exact hroom
          · exact h.value_le u
      · rw [if_neg hok, Option.some.injEq] at hs
        subst hs
        have hvalue : ∀ u, State.value
            { s with redis := (acquire cfg true s.redis s.now t).2 } u = s.value u := by
          intro u
          show (acquire cfg true s.redis s.now t).2.count s.now (key u) = _
          rw [hcount, if_neg fun hc => hok hc.2]
          rfl
        exact ⟨hlive, h.idle, h.holds, fun u => by rw [hvalue]; exact h.le_value u,
          fun u => by rw [hvalue]; exact h.value_le u⟩

/-- A release that spares the counter leaves every counted holder in it. -/
theorem release_between (hmax : 1 ≤ cfg.max) (h : Between cfg s) {decrUp delUp : Bool}
    (hsp : Spares s (.release w t decrUp delUp))
    (hs : stepCall cfg s (.release w t decrUp delUp) = some s') : Between cfg s' := by
  obtain ⟨-, hlive, hidle, hholders, hcounted, hvalue⟩ := release_spec hmax h hs
  have hle := h.le_value t
  have hmaxv := h.value_le t
  refine ⟨hlive, hidle, fun u => ?_, fun u => ?_, fun u => ?_⟩
  · rw [hholders, hcounted]
    by_cases hu : u = t
    · subst hu
      simpa using Finset.erase_subset_erase w (h.holds u)
    · simpa [hu] using h.holds u
  · rw [hcounted, hvalue]
    by_cases hu : u = t
    · subst hu
      rw [if_pos rfl, Function.update_self, valueAfter]
      have herase := Finset.card_erase_le (s := s.counted u) (a := w)
      cases decrUp with
      | false =>
          simp only [Bool.false_eq_true, if_false]
          omega
      | true =>
          simp only [if_true]
          by_cases hw : w ∈ s.counted u
          · have hpos := Finset.card_pos.2 ⟨w, hw⟩
            rw [Finset.card_erase_of_mem hw]
            split_ifs <;> omega
          · rw [Finset.erase_eq_of_notMem hw]
            rcases hsp rfl hw with hlt | ⟨hzero, hdel⟩
            · split_ifs <;> omega
            · rw [if_pos ⟨by omega, hdel⟩]
              omega
    · rw [if_neg hu, Function.update_of_ne hu]
      exact h.le_value u
  · rw [hvalue]
    by_cases hu : u = t
    · rw [if_pos hu, valueAfter]
      split_ifs <;> omega
    · rw [if_neg hu]
      exact h.value_le u

/-- A release that does not spare the counter leaves it short of its counted holders, or
below `0`. -/
theorem release_not_covered (hmax : 1 ≤ cfg.max) (h : Between cfg s) {decrUp delUp : Bool}
    (hsp : ¬ Spares s (.release w t decrUp delUp))
    (hs : stepCall cfg s (.release w t decrUp delUp) = some s') : ¬ Covered cfg s' := by
  obtain ⟨-, -, -, -, hcounted, hvalue⟩ := release_spec hmax h hs
  simp only [Spares, not_forall, not_or, not_and] at hsp
  obtain ⟨rfl, hw, hge, hdel⟩ := hsp
  intro hc
  have hle := (hc t).1
  have hbefore := h.le_value t
  rw [hcounted, hvalue, if_pos rfl, Function.update_self, Finset.erase_eq_of_notMem hw,
    valueAfter, if_pos rfl] at hle
  split_ifs at hle with hn
  · -- a `DEL` of a counter at `1`, or a second one at `0`
    have hzero : s.value t = 0 := by omega
    exact hdel hzero hn.2
  · omega

theorem call_between (hmax : 1 ≤ cfg.max) (httl : 0 < cfg.ttlSec) (h : Between cfg s) {a : Call W}
    (hn : NoExpiry s a) (hsp : Spares s a) (hs : stepCall cfg s a = some s') : Between cfg s' := by
  cases a with
  | advance ms =>
      simp only [stepCall, step, Option.some.injEq] at hs
      subst hs
      exact advance_between h hn
  | acquire w t up => exact acquire_between hmax httl h hs
  | release w t decrUp delUp => exact release_between hmax h hsp hs

/-- The calls of a run in which no release takes off what others hold. -/
def Sparing (s : State W) (a : Call W) : Prop := NoExpiry s a ∧ Spares s a

theorem between_of_path (hmax : 1 ≤ cfg.max) (httl : 0 < cfg.ttlSec)
    (h : Path (stepCall cfg) Sparing (init : State W) s) : Between cfg s :=
  h.invariant (fun _ _ _ hI hP hs => call_between hmax httl hI hP.1 hP.2 hs) (between_init hmax)

/-- **When failing open frees nobody else's slot.**  In every run in which each release
spares the counter, the holders that the script counted are at most its value and at most
`max` in every state, whenever Redis fails.  The first release that does not spare it ends
that. -/
theorem covered_iff_spares (cfg : LimiterConfig) (hmax : 1 ≤ cfg.max) (httl : 0 < cfg.ttlSec) :
    (∀ s : State W, Path (stepCall cfg) Sparing init s → Covered cfg s) ∧
    ∀ (s s' : State W) (a : Call W), Path (stepCall cfg) Sparing init s → NoExpiry s a →
      stepCall cfg s a = some s' → (Covered cfg s' ↔ Spares s a) := by
  refine ⟨fun s h => (between_of_path hmax httl h).covered, fun s s' a h hn hs => ?_⟩
  have hb := between_of_path hmax httl h
  constructor
  · intro hc
    by_contra hsp
    cases a with
    | release w t decrUp delUp => exact release_not_covered hmax hb hsp hs hc
    | advance ms => exact hsp trivial
    | acquire w t up => exact hsp trivial
  · intro hsp
    exact (call_between hmax httl hb hn hsp hs).covered

/-! ## An outage between two calls -/

/-- A call that does not wait. -/
def isCall : Call W → Bool
  | .advance _ => false
  | _ => true

omit [DecidableEq W] in
theorem noExpiry_of_isCall {a : Call W} (h : isCall a = true) : NoExpiry s a := by
  cases a with
  | advance ms => cases h
  | acquire w t up => trivial
  | release w t decrUp delUp => trivial

/-- `Spares`, computed. -/
def spares (s : State W) : Call W → Bool
  | .release w t decrUp delUp => !decrUp || decide (w ∈ s.counted t) ||
      decide (((s.counted t).card : ℤ) < s.value t) || (decide (s.value t = 0) && delUp)
  | _ => true

theorem spares_sound {a : Call W} (h : spares s a = true) : Spares s a := by
  cases a with
  | advance ms => trivial
  | acquire w t up => trivial
  | release w t decrUp delUp =>
      rintro rfl hw
      simpa [spares, hw, or_assoc] using h

/-- At a run in which worker `1` gets its slot and gives it back while Redis is down, and
worker `0` has one from before. -/
theorem covered_iff_spares_in_outage : ∃ s : State ℕ,
    Path (stepCall ⟨1, 60⟩) Sparing init s ∧ (s.counted "t".toList).card = 1 ∧
      Covered ⟨1, 60⟩ s := by
  have hguard : ∀ (s : State ℕ) (a : Call ℕ), (isCall a && spares s a) = true → Sparing s a := by
    intro s a ha
    rw [Bool.and_eq_true] at ha
    exact ⟨noExpiry_of_isCall ha.1, spares_sound ha.2⟩
  obtain ⟨s, hpath, hs⟩ := Path.exists_of_runChecked (stepCall ⟨1, 60⟩) hguard init
    [.acquire 0 "t".toList true, .acquire 1 "t".toList false, .release 1 "t".toList false false]
    (fun s => (s.counted "t".toList).card = 1) (by decide)
  exact ⟨s, hpath, by simpa using hs,
    (covered_iff_spares ⟨1, 60⟩ (by decide) (by decide)).1 s hpath⟩

/-- Redis is down when worker `1` asks for a slot and up when it gives it back: the only
slot, which worker `0` holds, is free for worker `2`. -/
def outageOver : List (Call ℕ) :=
  [.acquire 0 "t".toList true, .acquire 1 "t".toList false, .release 1 "t".toList true true,
    .acquire 2 "t".toList true]

/-- With `max = 1` there are two counted holders, and the counter is `1`. -/
theorem not_covered_after_outage :
    ¬ (∀ s : State ℕ, Path (stepCall ⟨1, 60⟩) NoExpiry init s → Covered ⟨1, 60⟩ s) := by
  intro h
  have hguard : ∀ (s : State ℕ) (a : Call ℕ), isCall a = true → NoExpiry s a :=
    fun s a => noExpiry_of_isCall
  obtain ⟨s, hpath, hs⟩ := Path.exists_of_runChecked (stepCall ⟨1, 60⟩) hguard init outageOver
    (fun s => (s.counted "t".toList).card = 2 ∧ s.value "t".toList = 1) (by decide)
  have hle := h s hpath "t".toList
  rw [decide_eq_true_eq] at hs
  rw [hs.1, hs.2] at hle
  exact absurd hle (by decide)

end TenantLimiter

end HookRelay
