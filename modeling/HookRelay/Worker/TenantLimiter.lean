import HookRelay.Lib.Expiring
import HookRelay.Lib.Transition
import HookRelay.Data.Text

/-!
# The tenant limiter

`tenant-limiter.ts`: a counter in Redis for each tenant caps how many of its deliveries
are under way at once.  Taking a slot is one script and so one step; giving it back is
two commands, `DECR` and, when the result is not positive, `DEL`.

The system is any number of workers of any tenants taking and releasing slots, with
time passing and with Redis calls that may fail.  A worker is named by anything; the
limiter only sees the tenant.

* `step_exact` — what one step does to the counters.
* `Exact` — the counter of each tenant is the number of its holders.
* `holders_le_count` — the counter never undercounts in a run in which every `DEL` finds
  the counter at `0` or below; the first `DEL` that does not breaks it.
-/

namespace HookRelay

open Lib

/-- The configuration: `HR_TENANT_CONCURRENCY` and `HR_TENANT_SLOT_TTL_SEC`. -/
structure LimiterConfig where
  max : ℤ
  ttlSec : ℤ

namespace TenantLimiter

/-- The limiter's keys in Redis. -/
abbrev Redis := Expiring Text ℤ

/-- `key(tenantId)`. -/
def key (tenantId : Text) : Text := "hr:tenant:".toList ++ tenantId ++ ":inflight".toList

@[simp] theorem key_inj {t u : Text} : key t = key u ↔ t = u := by
  unfold key
  rw [List.append_left_inj, List.append_right_inj]

/-- `ACQUIRE_LUA`, with times in milliseconds. -/
def acquireLua (cfg : LimiterConfig) (redis : Redis) (now : ℕ) (k : Text) : Bool × Redis :=
  let (n, redis) := redis.incrBy now k 1
  let redis := if n = 1 then redis.expire now k (cfg.ttlSec * 1000) else redis
  if n > cfg.max then (false, (redis.incrBy now k (-1)).2) else (true, redis)

/-- `acquire`; `up` says whether the Redis call succeeds. -/
def acquire (cfg : LimiterConfig) (up : Bool) (redis : Redis) (now : ℕ) (tenantId : Text) :
    Bool × Redis :=
  if cfg.max ≤ 0 then (true, redis)
  else if up then acquireLua cfg redis now (key tenantId)
  else (true, redis)

/-- The first command of `release`: whether the `DEL` follows, and Redis after it. -/
def releaseDecr (cfg : LimiterConfig) (up : Bool) (redis : Redis) (now : ℕ) (tenantId : Text) :
    Bool × Redis :=
  if cfg.max ≤ 0 then (false, redis)
  else if up then
    let (n, redis) := redis.incrBy now (key tenantId) (-1)
    (decide (n ≤ 0), redis)
  else (false, redis)

/-- The second command of `release`. -/
def releaseDel (up : Bool) (redis : Redis) (tenantId : Text) : Redis :=
  if up then redis.del (key tenantId) else redis

/-! ## The system -/

variable {W : Type} [DecidableEq W]

/-- Redis, and for each tenant the workers that have acquired a slot and not begun to
release it, those of them that the script counted, and those that are to send the
`DEL` of a release. -/
structure State (W : Type) where
  now : ℕ
  redis : Redis
  holders : Text → Finset W
  counted : Text → Finset W
  deleting : Text → Finset W

/-- Nobody has asked for a slot yet. -/
def init : State W := ⟨0, fun _ => none, fun _ => ∅, fun _ => ∅, fun _ => ∅⟩

inductive Action (W : Type) where
  /-- Time passes. -/
  | advance (ms : ℕ)
  /-- A worker calls `acquire`. -/
  | acquire (w : W) (tenantId : Text) (up : Bool)
  /-- A holder begins its `release`. -/
  | decr (w : W) (tenantId : Text) (up : Bool)
  /-- The `DEL` of a release. -/
  | del (w : W) (tenantId : Text) (up : Bool)

/-- One step.  A worker asks for a slot only when it is not busy with one, and releases
only a slot it acquired. -/
def step (cfg : LimiterConfig) (s : State W) : Action W → Option (State W)
  | .advance ms => some { s with now := s.now + ms }
  | .acquire w t up =>
      if w ∈ s.holders t ∨ w ∈ s.deleting t then none
      else
        let (ok, redis) := acquire cfg up s.redis s.now t
        let s := { s with redis := redis }
        if ok then
          some { s with
            holders := Function.update s.holders t (insert w (s.holders t))
            counted := if up ∧ 0 < cfg.max then Function.update s.counted t (insert w (s.counted t))
              else s.counted }
        else some s
  | .decr w t up =>
      if w ∈ s.holders t then
        let (del, redis) := releaseDecr cfg up s.redis s.now t
        some { s with
          redis := redis
          holders := Function.update s.holders t ((s.holders t).erase w)
          counted := Function.update s.counted t ((s.counted t).erase w)
          deleting := if del then Function.update s.deleting t (insert w (s.deleting t))
            else s.deleting }
      else none
  | .del w t up =>
      if w ∈ s.deleting t then
        some { s with
          redis := releaseDel up s.redis t
          deleting := Function.update s.deleting t ((s.deleting t).erase w) }
      else none

/-- The value of a tenant's counter; an absent key is `0`. -/
def State.value (s : State W) (tenantId : Text) : ℤ := s.redis.count s.now (key tenantId)

/-- No Redis call fails and no key expires. -/
def Undisturbed (s : State W) : Action W → Prop
  | .advance ms => s.redis.AllLive (s.now + ms)
  | .acquire _ _ up | .decr _ _ up | .del _ _ up => up = true

/-- A `DEL` is sent while the counter is not positive: nobody has taken a slot since the
`DECR` that asked for it. -/
def DelFindsNoSlot (s : State W) : Action W → Prop
  | .del _ t _ => s.value t ≤ 0
  | _ => True

/-- A Redis command that succeeds. -/
def isUp : Action W → Bool
  | .advance _ => false
  | .acquire _ _ up | .decr _ _ up | .del _ _ up => up

/-- `DelFindsNoSlot`, computed. -/
def delFindsNoSlot (s : State W) : Action W → Bool
  | .del _ t _ => s.value t ≤ 0
  | _ => true

omit [DecidableEq W] in
theorem undisturbed_of_isUp {s : State W} {a : Action W} (h : isUp a = true) :
    Undisturbed s a := by
  cases a with
  | advance ms => simp [isUp] at h
  | acquire w t up => exact h
  | decr w t up => exact h
  | del w t up => exact h

omit [DecidableEq W] in
theorem delFindsNoSlot_iff {s : State W} {a : Action W} :
    delFindsNoSlot s a = true ↔ DelFindsNoSlot s a := by
  cases a with
  | del w t up => exact decide_eq_true_iff
  | _ => exact ⟨fun _ => trivial, fun _ => rfl⟩

/-- The counter of no tenant undercounts, and no tenant has more than `max` holders. -/
def Bounded (cfg : LimiterConfig) (s : State W) : Prop :=
  ∀ t, ((s.holders t).card : ℤ) ≤ s.value t ∧ ((s.holders t).card : ℤ) ≤ cfg.max

/-! ## What the commands do to the counters -/

variable {cfg : LimiterConfig} {redis : Redis} {now : ℕ} {t u : Text}

/-- The script adds one to the counter exactly when it grants the slot, that is when the
counter is below `max`; the grant that finds it at `0` starts the clock of the key.  It
touches no other counter. -/
theorem acquireLua_spec (redis : Redis) (now : ℕ) {k : Text} (httl : 0 < cfg.ttlSec) :
    ((acquireLua cfg redis now k).1 = true ↔ redis.count now k + 1 ≤ cfg.max) ∧
    (∀ j, (acquireLua cfg redis now k).2.count now j =
      if j = k ∧ (acquireLua cfg redis now k).1 = true then redis.count now k + 1
      else redis.count now j) ∧
    ∀ j, (acquireLua cfg redis now k).2.expiry now j =
      if j = k ∧ redis.count now k = 0 then some (now + (cfg.ttlSec * 1000).toNat)
      else redis.expiry now j := by
  have hms : 0 < cfg.ttlSec * 1000 := by omega
  -- the counter after `INCR` and, possibly, `EXPIRE`
  obtain ⟨r, hr⟩ : ∃ r, r = if redis.count now k + 1 = 1
      then (redis.incrBy now k 1).2.expire now k (cfg.ttlSec * 1000) else (redis.incrBy now k 1).2 :=
    ⟨_, rfl⟩
  have hcount : ∀ j, r.count now j =
      if j = k then redis.count now k + 1 else redis.count now j := by
    intro j
    rw [hr]
    split_ifs <;> simp [Expiring.count_expire hms, Expiring.count_incrBy, *]
  have hexp : ∀ j, r.expiry now j =
      if j = k ∧ redis.count now k = 0 then some (now + (cfg.ttlSec * 1000).toNat)
      else redis.expiry now j := by
    intro j
    have hsome : ((redis.incrBy now k 1).2.get now k).isSome := by
      rw [Expiring.get_incrBy_self]
      rfl
    rw [hr]
    by_cases h0 : redis.count now k = 0
    · rw [if_pos (by omega), Expiring.expiry_expire hms hsome, Expiring.expiry_incrBy]
      simp only [h0, and_true]
    · rw [if_neg (by omega), Expiring.expiry_incrBy, if_neg fun hc => h0 hc.2]
  have hlua : acquireLua cfg redis now k =
      if redis.count now k + 1 > cfg.max then (false, (r.incrBy now k (-1)).2) else (true, r) := by
    rw [hr]
    rfl
  rw [hlua]
  split_ifs with hmax
  · refine ⟨by simpa using hmax, fun j => ?_, fun j => by rw [Expiring.expiry_incrBy, hexp]⟩
    rw [Expiring.count_incrBy, hcount, hcount]
    by_cases hj : j = k <;> simp [hj]
  · refine ⟨by simpa using hmax, fun j => ?_, hexp⟩
    simp [hcount]

theorem acquireLua_live {k : Text} (h : redis.AllLive now) (httl : 0 < cfg.ttlSec) :
    (acquireLua cfg redis now k).2.AllLive now := by
  have hms : 0 < cfg.ttlSec * 1000 := by omega
  unfold acquireLua
  simp only
  split_ifs
  · exact (h.incrBy.expire hms).incrBy
  · exact h.incrBy.incrBy
  · exact h.incrBy.expire hms
  · exact h.incrBy

/-- With Redis up and a cap, `acquire` is the script. -/
theorem acquire_eq (hmax : 0 < cfg.max) :
    acquire cfg true redis now t = acquireLua cfg redis now (key t) := by
  rw [acquire, if_neg (by omega), if_pos rfl]

theorem acquire_spec (redis : Redis) (now : ℕ) (t : Text) (hmax : 0 < cfg.max)
    (httl : 0 < cfg.ttlSec) :
    ((acquire cfg true redis now t).1 = true ↔ redis.count now (key t) + 1 ≤ cfg.max) ∧
    (∀ u, (acquire cfg true redis now t).2.count now (key u) =
      if u = t ∧ (acquire cfg true redis now t).1 = true then redis.count now (key t) + 1
      else redis.count now (key u)) ∧
    ∀ u, (acquire cfg true redis now t).2.expiry now (key u) =
      if u = t ∧ redis.count now (key t) = 0 then some (now + (cfg.ttlSec * 1000).toNat)
      else redis.expiry now (key u) := by
  rw [acquire_eq hmax]
  obtain ⟨hok, hcount, hexp⟩ := acquireLua_spec redis now (k := key t) httl
  refine ⟨hok, fun u => ?_, fun u => ?_⟩
  · simp only [hcount, key_inj]
  · simp only [hexp, key_inj]

theorem releaseDecr_eq (hmax : 0 < cfg.max) :
    (releaseDecr cfg true redis now t).2 = (redis.incrBy now (key t) (-1)).2 := by
  rw [releaseDecr, if_neg (by omega), if_pos rfl]

theorem releaseDecr_count (redis : Redis) (now : ℕ) (t : Text) (hmax : 0 < cfg.max) (u : Text) :
    (releaseDecr cfg true redis now t).2.count now (key u) =
      if u = t then redis.count now (key t) - 1 else redis.count now (key u) := by
  rw [releaseDecr_eq hmax]
  simp only [Expiring.count_incrBy, key_inj, Int.sub_eq_add_neg]

/-! ## The invariant -/

/-- No key has expired, and each tenant's counter is the number of its holders, at most
`max` of them. -/
structure Exact (cfg : LimiterConfig) (s : State W) : Prop where
  live : s.redis.AllLive s.now
  value_eq : ∀ t, s.value t = (s.holders t).card
  le_max : ∀ t, s.value t ≤ cfg.max

omit [DecidableEq W] in
theorem exact_init (hmax : 1 ≤ cfg.max) : Exact cfg (init : State W) where
  live := by intro k e he; simp [init] at he
  value_eq := fun _ => rfl
  le_max := fun _ => le_trans (show (0 : ℤ) ≤ 1 by decide) hmax

omit [DecidableEq W] in
theorem Exact.bounded {s : State W} (h : Exact cfg s) : Bounded cfg s := by
  intro t
  rw [← h.value_eq t]
  exact ⟨le_refl _, h.le_max t⟩

variable {s s' : State W} {a : Action W}

omit [DecidableEq W] in
/-- A step about one tenant leaves the others as they are. -/
theorem Exact.of_tenant (h : Exact cfg s) (hlive : s'.redis.AllLive s'.now)
    (hothers : ∀ u, u ≠ t → s'.value u = s.value u ∧ s'.holders u = s.holders u)
    (hvalue : s'.value t = (s'.holders t).card) (hmax : s'.value t ≤ cfg.max) : Exact cfg s' := by
  refine ⟨hlive, fun u => ?_, fun u => ?_⟩
  · by_cases hut : u = t
    · rw [hut, hvalue]
    · rw [(hothers u hut).1, (hothers u hut).2, h.value_eq]
  · by_cases hut : u = t
    · rw [hut]
      exact hmax
    · rw [(hothers u hut).1]
      exact h.le_max u

/-- A slot is granted, and the counter and the holders are one more; or nothing changes. -/
theorem Exact.acquire {w : W} (hmax : 1 ≤ cfg.max) (httl : 0 < cfg.ttlSec) (h : Exact cfg s)
    (hs : step cfg s (.acquire w t true) = some s') : Exact cfg s' := by
  simp only [step] at hs
  split at hs
  · exact absurd hs (by simp)
  rename_i hbusy
  have hlive : (TenantLimiter.acquire cfg true s.redis s.now t).2.AllLive s.now := by
    rw [acquire_eq (by omega)]
    exact acquireLua_live h.live httl
  obtain ⟨hgrant, hcount, -⟩ := acquire_spec s.redis s.now t (by omega) httl
  by_cases hok : (TenantLimiter.acquire cfg true s.redis s.now t).1 = true
  · rw [if_pos hok, Option.some.injEq] at hs
    subst hs
    have hw : w ∉ s.holders t := fun hw => hbusy (.inl hw)
    have hvalue : (TenantLimiter.acquire cfg true s.redis s.now t).2.count s.now (key t) =
        s.value t + 1 := by
      rw [hcount, if_pos ⟨rfl, hok⟩]
      rfl
    refine h.of_tenant hlive (fun u hut => ⟨?_, Function.update_of_ne hut _ _⟩) ?_ ?_
    · unfold State.value
      rw [hcount, if_neg fun hc => hut hc.1]
    · show _ = ((Function.update s.holders t (insert w (s.holders t)) t).card : ℤ)
      rw [State.value, hvalue, h.value_eq, Function.update_self, Finset.card_insert_of_notMem hw]
      push_cast
      rfl
    · rw [State.value, hvalue]
      exact hgrant.1 hok
  · rw [if_neg hok, Option.some.injEq] at hs
    subst hs
    have hsame : ∀ u, State.value { s with redis := (TenantLimiter.acquire cfg true s.redis s.now
        t).2 } u = s.value u := fun u => by
      unfold State.value
      rw [hcount, if_neg fun hc => hok hc.2]
    exact h.of_tenant (t := t) hlive (fun u _ => ⟨hsame u, rfl⟩)
      (by rw [hsame]; exact h.value_eq t) (by rw [hsame]; exact h.le_max t)

/-- A slot is given back: the counter and the holders are one less. -/
theorem Exact.decr {w : W} (hmax : 1 ≤ cfg.max) (h : Exact cfg s)
    (hs : step cfg s (.decr w t true) = some s') : Exact cfg s' := by
  simp only [step, Option.ite_none_right_eq_some, Option.some.injEq] at hs
  obtain ⟨hw, rfl⟩ := hs
  have hlive : (releaseDecr cfg true s.redis s.now t).2.AllLive s.now := by
    rw [releaseDecr_eq (by omega)]
    exact h.live.incrBy
  have hcount := releaseDecr_count s.redis s.now t (show 0 < cfg.max by omega)
  have hvalue : (releaseDecr cfg true s.redis s.now t).2.count s.now (key t) = s.value t - 1 := by
    rw [hcount, if_pos rfl]
    rfl
  refine h.of_tenant hlive (fun u hut => ⟨?_, Function.update_of_ne hut _ _⟩) ?_ ?_
  · unfold State.value
    rw [hcount, if_neg hut]
  · show _ = ((Function.update s.holders t ((s.holders t).erase w) t).card : ℤ)
    have hpos := Finset.card_pos.2 ⟨w, hw⟩
    rw [State.value, hvalue, h.value_eq, Function.update_self, Finset.card_erase_of_mem hw]
    omega
  · have hle := h.le_max t
    rw [State.value, hvalue]
    omega

/-- The counter is not positive, so it is `0`, and to delete it changes nothing. -/
theorem Exact.del {w : W} (h : Exact cfg s) (hd : s.value t ≤ 0)
    (hs : step cfg s (.del w t true) = some s') : Exact cfg s' := by
  simp only [step, Option.ite_none_right_eq_some, Option.some.injEq] at hs
  obtain ⟨-, rfl⟩ := hs
  have hzero : s.value t = 0 := by
    have := h.value_eq t
    omega
  have hcount : ∀ u, (releaseDel true s.redis t).count s.now (key u) = s.value u := by
    intro u
    rw [releaseDel, if_pos rfl, Expiring.count_del]
    simp only [key_inj]
    split_ifs with hut
    · rw [hut, hzero]
    · rfl
  exact h.of_tenant (t := t) h.live.del (fun u _ => ⟨hcount u, rfl⟩)
    ((hcount t).trans (h.value_eq t)) ((hcount t).trans_le (h.le_max t))

/-- One step of an undisturbed run keeps the counters exact, unless it is a `DEL` of a
counter somebody is using. -/
theorem step_exact (hmax : 1 ≤ cfg.max) (httl : 0 < cfg.ttlSec) (h : Exact cfg s)
    (hu : Undisturbed s a) (hd : DelFindsNoSlot s a) (hs : step cfg s a = some s') :
    Exact cfg s' := by
  cases a with
  | advance ms =>
      simp only [step, Option.some.injEq] at hs
      subst hs
      have hcount : ∀ t, State.value { s with now := s.now + ms } t = s.value t :=
        fun t => h.live.count_eq hu (key t)
      exact ⟨hu, fun t => by rw [hcount, h.value_eq], fun t => by rw [hcount]; exact h.le_max t⟩
  | acquire w t up =>
      obtain rfl : up = true := hu
      exact h.acquire hmax httl hs
  | decr w t up =>
      obtain rfl : up = true := hu
      exact h.decr hmax hs
  | del w t up =>
      obtain rfl : up = true := hu
      exact h.del hd hs

/-- A `DEL` of a counter somebody is using makes it undercount. -/
theorem not_bounded_of_del {w : W} (h : Exact cfg s) (hpos : 0 < s.value t)
    (hs : step cfg s (.del w t true) = some s') : ¬ Bounded cfg s' := by
  intro hb
  simp only [step, Option.ite_none_right_eq_some, Option.some.injEq] at hs
  obtain ⟨-, rfl⟩ := hs
  have hzero : State.value { s with
      redis := releaseDel true s.redis t
      deleting := Function.update s.deleting t ((s.deleting t).erase w) } t = 0 := by
    unfold State.value releaseDel
    simp only [if_true]
    rw [Expiring.count_del, if_pos rfl]
  have hle := (hb t).1
  rw [hzero] at hle
  have := h.value_eq t
  simp only at hle
  omega

/-- The steps of a run the claim is about, in which no `DEL` hits a counter in use. -/
def Safe (s : State W) (a : Action W) : Prop := Undisturbed s a ∧ DelFindsNoSlot s a

theorem exact_of_path (hmax : 1 ≤ cfg.max) (httl : 0 < cfg.ttlSec)
    (h : Path (step cfg) Safe (init : State W) s) : Exact cfg s :=
  h.invariant (fun _ _ _ hI hP hs => step_exact hmax httl hI hP.1 hP.2 hs) (exact_init hmax)

/-- **When the slot counter does not undercount.**  In every run without Redis failures
and expiries in which each `DEL` finds the counter at `0` or below, the holders of a
tenant are at most its counter and at most `max`, in every state.  The first `DEL` that
finds a positive counter leaves a holder uncounted. -/
theorem holders_le_count (cfg : LimiterConfig) (hmax : 1 ≤ cfg.max) (httl : 0 < cfg.ttlSec) :
    (∀ s : State W, Path (step cfg) Safe init s → Bounded cfg s) ∧
    (∀ (s s' : State W) (w : W) (t : Text), Path (step cfg) Safe init s →
      step cfg s (.del w t true) = some s' →
      (Bounded cfg s' ↔ DelFindsNoSlot s (.del w t true))) := by
  refine ⟨fun s h => (exact_of_path hmax httl h).bounded, fun s s' w t h hs => ?_⟩
  have hex := exact_of_path hmax httl h
  constructor
  · intro hb
    by_contra hno
    exact not_bounded_of_del hex (not_le.1 hno) hs hb
  · intro hd
    have hu : Undisturbed s (.del w t true) := rfl
    exact (step_exact hmax httl hex hu hd hs).bounded

/-- At a run that takes a slot and gives it back in full. -/
theorem holders_le_count_at_release : ∃ s : State ℕ,
    Path (step ⟨1, 60⟩) Safe init s ∧ s.deleting "t".toList = ∅ ∧ Bounded ⟨1, 60⟩ s := by
  have hguard : ∀ (s : State ℕ) (a : Action ℕ), (isUp a && delFindsNoSlot s a) = true →
      Safe s a := by
    intro s a ha
    rw [Bool.and_eq_true] at ha
    exact ⟨undisturbed_of_isUp ha.1, delFindsNoSlot_iff.1 ha.2⟩
  obtain ⟨s, hpath, hs⟩ := Path.exists_of_runChecked (step ⟨1, 60⟩) hguard init
    [.acquire 0 "t".toList true, .decr 0 "t".toList true, .del 0 "t".toList true]
    (fun s => s.deleting "t".toList = ∅) (by decide)
  exact ⟨s, hpath, by simpa using hs, (holders_le_count ⟨1, 60⟩ (by decide) (by decide)).1 s hpath⟩

/-- Worker `0` releases the only slot, and worker `1` takes one before the `DEL`, which
then deletes a counter in use. -/
def lateDel : List (Action ℕ) :=
  [.acquire 0 "t".toList true, .decr 0 "t".toList true, .acquire 1 "t".toList true,
    .del 0 "t".toList true]

/-- The counter undercounts: with `max = 1`, worker `1` holds a slot and the counter is `0`. -/
theorem undercount_after_late_del :
    ¬ (∀ s : State ℕ, Path (step ⟨1, 60⟩) Undisturbed init s → Bounded ⟨1, 60⟩ s) := by
  intro h
  have hguard : ∀ (s : State ℕ) (a : Action ℕ), isUp a = true → Undisturbed s a :=
    fun s a => undisturbed_of_isUp
  obtain ⟨s, hpath, hs⟩ := Path.exists_of_runChecked (step ⟨1, 60⟩) hguard init lateDel
    (fun s => (s.holders "t".toList).card = 1 ∧ s.value "t".toList = 0) (by decide)
  have hle := (h s hpath "t".toList).1
  rw [decide_eq_true_eq] at hs
  rw [hs.1, hs.2] at hle
  exact absurd hle (by decide)

end TenantLimiter

end HookRelay
