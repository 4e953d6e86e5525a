import HookRelay.Worker.TenantLimiter

/-!
# The tenant limiter under sustained load

The slot counter of a tenant expires `HR_TENANT_SLOT_TTL_SEC` after the grant that found
it at `0`, however many slots have been taken since.  Here `acquire` and `release` are
each one step and Redis does not fail; time passes as it likes between the steps.

A run is prompt when every holder gives its slot back before it has had it for the TTL.
That alone does not keep the cap: a tenant that always has some slot taken outlives its
counter.

* `State.busySince` — since when a tenant has had some slot taken without a break.
* `Counted` — the counter of a tenant is the number of its holders, and it expires the
  TTL after `busySince`.
* `slots_capped` — the cap of a tenant holds in every run in which it is not busy for the TTL
  on end, whatever the other tenants do; once it has been, in a prompt run, it can go beyond
  its cap at once.
-/

namespace HookRelay
namespace TenantLimiter

open Lib

/-- `release`, in one step. -/
def release (cfg : LimiterConfig) (redis : Redis) (now : ℕ) (tenantId : Text) : Redis :=
  let (del, redis) := releaseDecr cfg true redis now tenantId
  if del then releaseDel true redis tenantId else redis

namespace Timed

variable {W : Type} [DecidableEq W]

/-- Redis, the holders of each tenant with the time each took its slot, and since when
each tenant has been busy. -/
structure State (W : Type) where
  now : ℕ
  redis : Redis
  holders : Text → Finset W
  since : Text → W → ℕ
  busySince : Text → ℕ

def init : State W := ⟨0, fun _ => none, fun _ => ∅, fun _ _ => 0, fun _ => 0⟩

inductive Action (W : Type) where
  /-- Time passes. -/
  | advance (ms : ℕ)
  /-- A worker calls `acquire`. -/
  | acquire (w : W) (tenantId : Text)
  /-- A holder calls `release`. -/
  | release (w : W) (tenantId : Text)

/-- Worker `w` has taken a slot of the tenant. -/
def State.grant (s : State W) (redis : Redis) (w : W) (t : Text) : State W :=
  { s with
    redis := redis
    holders := Function.update s.holders t (insert w (s.holders t))
    since := Function.update s.since t (Function.update (s.since t) w s.now)
    busySince := if s.holders t = ∅ then Function.update s.busySince t s.now else s.busySince }

/-- One step. -/
def step (cfg : LimiterConfig) (s : State W) : Action W → Option (State W)
  | .advance ms => some { s with now := s.now + ms }
  | .acquire w t =>
      if w ∈ s.holders t then none
      else
        let (ok, redis) := TenantLimiter.acquire cfg true s.redis s.now t
        some (if ok then s.grant redis w t else { s with redis := redis })
  | .release w t =>
      if w ∈ s.holders t then
        some { s with
          redis := TenantLimiter.release cfg s.redis s.now t
          holders := Function.update s.holders t ((s.holders t).erase w) }
      else none

/-- The counter of a tenant; an absent key is `0`. -/
def State.value (s : State W) (t : Text) : ℤ := s.redis.count s.now (key t)

/-- `HR_TENANT_SLOT_TTL_SEC` in milliseconds. -/
def ttlMs (cfg : LimiterConfig) : ℤ := cfg.ttlSec * 1000

/-- Every holder of the tenant has had its slot for less than the TTL. -/
def State.Prompt (cfg : LimiterConfig) (s : State W) (t : Text) : Prop :=
  ∀ w ∈ s.holders t, (s.now : ℤ) < s.since t w + ttlMs cfg

/-- The tenant has not had slots taken for the TTL without a break. -/
def State.Idles (cfg : LimiterConfig) (s : State W) (t : Text) : Prop :=
  s.holders t ≠ ∅ → (s.now : ℤ) < s.busySince t + ttlMs cfg

/-- The steps of a run in which every holder, of any tenant, releases in time. -/
def Prompt (cfg : LimiterConfig) (s : State W) (a : Action W) : Prop :=
  ∀ s', step cfg s a = some s' → ∀ t, s'.Prompt cfg t

/-- The steps of a run in which tenant `t` idles within the TTL. -/
def Idles (cfg : LimiterConfig) (t : Text) (s : State W) (a : Action W) : Prop :=
  ∀ s', step cfg s a = some s' → s'.Idles cfg t

/-- The steps of a prompt run in which tenant `t` idles within the TTL. -/
def PromptIdles (cfg : LimiterConfig) (t : Text) (s : State W) (a : Action W) : Prop :=
  Prompt cfg s a ∧ Idles cfg t s a

/-- The tenant has at most `max` holders. -/
def Capped (cfg : LimiterConfig) (t : Text) (s : State W) : Prop :=
  ((s.holders t).card : ℤ) ≤ cfg.max

/-! ## What the calls do to the counters -/

variable {cfg : LimiterConfig} {redis : Redis} {now : ℕ} {t u : Text}

/-- `acquire` for another tenant leaves a counter alone. -/
theorem acquire_of_ne (redis : Redis) (now : ℕ) (hut : u ≠ t) :
    (TenantLimiter.acquire cfg true redis now u).2 (key t) = redis (key t) := by
  have hkey : key t ≠ key u := fun h => hut (key_inj.1 h).symm
  unfold TenantLimiter.acquire acquireLua
  simp only
  split_ifs
  · rfl
  · simp only [Expiring.incrBy_of_ne hkey, Expiring.expire_of_ne hkey]
  · simp only [Expiring.incrBy_of_ne hkey]
  · simp only [Expiring.incrBy_of_ne hkey, Expiring.expire_of_ne hkey]
  · simp only [Expiring.incrBy_of_ne hkey]

/-- So does `release`. -/
theorem release_of_ne (redis : Redis) (now : ℕ) (hut : u ≠ t) :
    release cfg redis now u (key t) = redis (key t) := by
  have hkey : key t ≠ key u := fun h => hut (key_inj.1 h).symm
  unfold release releaseDecr releaseDel
  by_cases hmax : cfg.max ≤ 0
  · simp [hmax]
  · simp only [hmax, if_false, if_true]
    split_ifs
    · rw [Expiring.del_of_ne hkey, Expiring.incrBy_of_ne hkey]
    · rw [Expiring.incrBy_of_ne hkey]

/-- `release` takes one off the counter; a counter that comes to `0` is forgotten. -/
theorem release_spec (hmax : 0 < cfg.max) (hpos : 0 < redis.count now (key t)) :
    (release cfg redis now t).count now (key t) = redis.count now (key t) - 1 ∧
    (redis.count now (key t) ≠ 1 →
      (release cfg redis now t).expiry now (key t) = redis.expiry now (key t)) := by
  have hrel : release cfg redis now t =
      if redis.count now (key t) - 1 ≤ 0 then (redis.incrBy now (key t) (-1)).2.del (key t)
      else (redis.incrBy now (key t) (-1)).2 := by
    unfold release releaseDecr releaseDel
    rw [if_neg (by omega), if_pos rfl]
    simp [Int.sub_eq_add_neg]
  rw [hrel]
  by_cases h0 : redis.count now (key t) - 1 ≤ 0
  · rw [if_pos h0, Expiring.count_del, if_pos rfl]
    exact ⟨by omega, fun hne => by omega⟩
  · rw [if_neg h0, Expiring.count_incrBy, if_pos rfl, Expiring.expiry_incrBy]
    exact ⟨rfl, fun _ => rfl⟩

/-- A counter at `0` grants, whatever the TTL is. -/
theorem acquire_of_zero (hmax : 1 ≤ cfg.max) (h0 : redis.count now (key t) = 0) :
    (TenantLimiter.acquire cfg true redis now t).1 = true := by
  rw [acquire_eq (by omega), acquireLua]
  simp only [Expiring.incrBy_fst, h0]
  rw [if_neg (by omega)]

/-! ## The invariant -/

/-- The counter of the tenant is the number of its holders, at most `max`, and while it
has holders its counter expires the TTL after it became busy. -/
structure Counted (cfg : LimiterConfig) (t : Text) (s : State W) : Prop where
  value_eq : s.value t = (s.holders t).card
  le_max : s.value t ≤ cfg.max
  busy_le : s.busySince t ≤ s.now
  expiry_eq : s.holders t ≠ ∅ →
    s.redis.expiry s.now (key t) = some (s.busySince t + (ttlMs cfg).toNat)

omit [DecidableEq W] in
theorem counted_init (hmax : 1 ≤ cfg.max) : Counted cfg t (init : State W) where
  value_eq := rfl
  le_max := le_trans (show (0 : ℤ) ≤ 1 by decide) hmax
  busy_le := le_refl 0
  expiry_eq := fun h => absurd rfl h

omit [DecidableEq W] in
theorem Counted.value_eq_zero_iff {s : State W} (h : Counted cfg t s) :
    s.value t = 0 ↔ s.holders t = ∅ := by
  rw [h.value_eq, ← Finset.card_eq_zero, Int.natCast_eq_zero]

variable {s s' : State W}

omit [DecidableEq W] in
/-- What another tenant does. -/
theorem Counted.other (h : Counted cfg t s) (hnow : s'.now = s.now)
    (hkey : s'.redis (key t) = s.redis (key t)) (hholders : s'.holders t = s.holders t)
    (hbusy : s'.busySince t = s.busySince t) : Counted cfg t s' := by
  have hget : s'.redis.get s'.now (key t) = s.redis.get s.now (key t) := by
    rw [hnow]
    exact Expiring.get_congr hkey
  have hvalue : s'.value t = s.value t := by
    unfold State.value Expiring.count
    rw [hget]
  refine ⟨?_, ?_, ?_, fun hne => ?_⟩
  · rw [hvalue, hholders]
    exact h.value_eq
  · rw [hvalue]
    exact h.le_max
  · rw [hbusy, hnow]
    exact h.busy_le
  · rw [hholders] at hne
    rw [hbusy, ← h.expiry_eq hne, Expiring.expiry, hget, Expiring.expiry]

/-- Time passes, and the tenant does not lose its counter while it has holders. -/
theorem advance_counted {ms : ℕ} (h : Counted cfg t s)
    (hi : State.Idles cfg { s with now := s.now + ms } t) :
    Counted cfg t { s with now := s.now + ms } := by
  have hle : s.now ≤ s.now + ms := Nat.le_add_right _ _
  have hkept : s.holders t ≠ ∅ →
      s.redis.get (s.now + ms) (key t) = s.redis.get s.now (key t) := by
    intro ht
    refine Expiring.get_later hle fun u hu => ?_
    rw [h.expiry_eq ht, Option.mem_def, Option.some.injEq] at hu
    have hbusy := h.busy_le
    have := hi ht
    simp only at this
    omega
  have hval : State.value { s with now := s.now + ms } t = s.value t := by
    by_cases ht : s.holders t = ∅
    · have h0 := h.value_eq_zero_iff.2 ht
      rw [h0]
      exact Expiring.count_later_zero hle h0
    · show Expiring.count s.redis (s.now + ms) (key t) = Expiring.count s.redis s.now (key t)
      rw [Expiring.count, hkept ht, Expiring.count]
  refine ⟨by rw [hval, h.value_eq], by rw [hval]; exact h.le_max, h.busy_le.trans hle,
    fun ht => ?_⟩
  rw [← h.expiry_eq ht]
  show Expiring.expiry s.redis (s.now + ms) (key t) = Expiring.expiry s.redis s.now (key t)
  rw [Expiring.expiry, hkept ht, Expiring.expiry]

/-- A worker takes a slot. -/
theorem grant_counted {w : W} (hmax : 1 ≤ cfg.max) (httl : 0 < cfg.ttlSec) (h : Counted cfg t s)
    (hw : w ∉ s.holders t) (hok : (TenantLimiter.acquire cfg true s.redis s.now t).1 = true) :
    Counted cfg t (s.grant (TenantLimiter.acquire cfg true s.redis s.now t).2 w t) := by
  obtain ⟨hgrant, hcount, hexp⟩ := acquire_spec s.redis s.now t (by omega) httl
  have hval : State.value (s.grant (TenantLimiter.acquire cfg true s.redis s.now t).2 w t) t =
      s.value t + 1 := by
    show Expiring.count (TenantLimiter.acquire cfg true s.redis s.now t).2 s.now (key t) = _
    rw [hcount, if_pos ⟨rfl, hok⟩]
    rfl
  refine ⟨?_, ?_, ?_, fun _ => ?_⟩
  · rw [hval]
    show _ = ((Function.update s.holders t (insert w (s.holders t)) t).card : ℤ)
    rw [Function.update_self, Finset.card_insert_of_notMem hw, h.value_eq]
    simp
  · rw [hval]
    exact hgrant.1 hok
  · have hbusy := h.busy_le
    simp only [State.grant]
    split_ifs
    · rw [Function.update_self]
    · exact hbusy
  · show Expiring.expiry (TenantLimiter.acquire cfg true s.redis s.now t).2 s.now (key t) = _
    rw [hexp]
    -- the grant that finds the counter at `0` is the one that makes the tenant busy
    by_cases h0 : s.redis.count s.now (key t) = 0
    · have hempty := h.value_eq_zero_iff.1 h0
      simp [State.grant, h0, hempty, ttlMs]
    · have hbusy : s.holders t ≠ ∅ := fun he => h0 (h.value_eq_zero_iff.2 he)
      rw [if_neg fun hc => h0 hc.2, h.expiry_eq hbusy]
      simp [State.grant, hbusy]

omit [DecidableEq W] in
/-- A worker is refused a slot. -/
theorem refuse_counted (hmax : 1 ≤ cfg.max) (httl : 0 < cfg.ttlSec) (h : Counted cfg t s)
    (hno : (TenantLimiter.acquire cfg true s.redis s.now t).1 ≠ true) :
    Counted cfg t { s with redis := (TenantLimiter.acquire cfg true s.redis s.now t).2 } := by
  obtain ⟨-, hcount, hexp⟩ := acquire_spec s.redis s.now t (by omega) httl
  have hval : State.value
      { s with redis := (TenantLimiter.acquire cfg true s.redis s.now t).2 } t = s.value t := by
    show Expiring.count _ s.now (key t) = _
    rw [hcount, if_neg fun hc => hno hc.2]
    rfl
  refine ⟨by rw [hval, h.value_eq], by rw [hval]; exact h.le_max, h.busy_le, fun ht => ?_⟩
  show Expiring.expiry _ s.now (key t) = _
  rw [hexp, if_neg fun hc => hno (acquire_of_zero hmax hc.2)]
  exact h.expiry_eq ht

/-- A holder gives its slot back. -/
theorem release_counted {w : W} (hmax : 1 ≤ cfg.max) (h : Counted cfg t s) (hw : w ∈ s.holders t) :
    Counted cfg t { s with
      redis := TenantLimiter.release cfg s.redis s.now t
      holders := Function.update s.holders t ((s.holders t).erase w) } := by
  have hcard := Finset.card_pos.2 ⟨w, hw⟩
  have hvalue := h.value_eq
  have hle := h.le_max
  unfold State.value at hvalue hle
  have hpos : 0 < s.redis.count s.now (key t) := by omega
  obtain ⟨hcount, hexp⟩ := release_spec (show 0 < cfg.max by omega) hpos
  refine ⟨?_, ?_, h.busy_le, fun hne => ?_⟩
  · show Expiring.count _ s.now (key t) = _
    simp only
    rw [hcount, Function.update_self, Finset.card_erase_of_mem hw]
    omega
  · show Expiring.count _ s.now (key t) ≤ _
    rw [hcount]
    omega
  · show Expiring.expiry _ s.now (key t) = _
    simp only [Function.update_self] at hne
    have hcard' := Finset.card_pos.2 (Finset.nonempty_iff_ne_empty.2 hne)
    rw [Finset.card_erase_of_mem hw] at hcard'
    rw [hexp (by omega)]
    exact h.expiry_eq (Finset.ne_empty_of_mem hw)

variable {a : Action W}

/-- **One step** after which the tenant has been busy for less than the TTL keeps its counter,
whichever tenant the step is of. -/
theorem step_counted (hmax : 1 ≤ cfg.max) (h : Counted cfg t s) (hi : Idles cfg t s a)
    (hs : step cfg s a = some s') : Counted cfg t s' := by
  have hidle := hi s' hs
  cases a with
  | advance ms =>
      simp only [step, Option.some.injEq] at hs
      subst hs
      exact advance_counted h hidle
  | acquire w u =>
      simp only [step] at hs
      by_cases hut : u = t
      · subst hut
        split_ifs at hs with hw hok
        · cases hs
          have httl : 0 < cfg.ttlSec := by
            have hbusy : (s.grant (TenantLimiter.acquire cfg true s.redis s.now u).2 w u).busySince u
                ≤ s.now := by
              have hle := h.busy_le
              simp only [State.grant]
              split_ifs
              · rw [Function.update_self]
              · exact hle
            have hlt := hidle (by simp [State.grant])
            simp only [State.grant, ttlMs] at hlt hbusy
            omega
          exact grant_counted hmax httl h hw hok
        · cases hs
          have httl : 0 < cfg.ttlSec := by
            have hbusy : s.holders u ≠ ∅ :=
              fun he => hok (acquire_of_zero hmax (h.value_eq_zero_iff.2 he))
            have hlt := hidle hbusy
            have hle := h.busy_le
            simp only [ttlMs] at hlt
            omega
          exact refuse_counted hmax httl h hok
      · split_ifs at hs
        · cases hs
          refine h.other rfl (acquire_of_ne _ _ hut) (Function.update_of_ne (Ne.symm hut) _ _) ?_
          simp only [State.grant]
          split_ifs
          · exact Function.update_of_ne (Ne.symm hut) _ _
          · rfl
        · cases hs
          exact h.other rfl (acquire_of_ne _ _ hut) rfl rfl
  | release w u =>
      simp only [step] at hs
      split_ifs at hs with hw
      cases hs
      by_cases hut : u = t
      · subst hut
        exact release_counted hmax h hw
      · exact h.other rfl (release_of_ne _ _ hut) (Function.update_of_ne (Ne.symm hut) _ _) rfl

theorem path_counted (hmax : 1 ≤ cfg.max) (h : Path (step cfg) (Idles cfg t) init s) :
    Counted cfg t s :=
  h.invariant (fun _ _ _ hI hP hs => step_counted hmax hI hP hs) (counted_init hmax)

/-! ## When the cap holds -/

theorem path_idles (h : Path (step cfg) (Idles cfg t) (init : State W) s) : s.Idles cfg t :=
  h.invariant (I := fun v => v.Idles cfg t) (fun _ _ _ _ hP hs => hP _ hs) fun ht => absurd rfl ht

/-- As long as a counter is below `max`, fresh workers are granted slots at once. -/
theorem exists_grants [Infinite W] (hmax : 1 ≤ cfg.max) (httl : 0 < cfg.ttlSec) (n : ℕ) :
    ∀ s : State W, (∀ u, s.Prompt cfg u) → s.value t + n = cfg.max →
      ∃ s', Path (step cfg) (Prompt cfg) s s' ∧
        (s'.holders t).card = (s.holders t).card + n := by
  induction n with
  | zero => exact fun s _ _ => ⟨s, .refl, rfl⟩
  | succ n ih =>
      intro s hp hroom
      obtain ⟨w, hw⟩ := Infinite.exists_notMem_finset (s.holders t)
      obtain ⟨hgrant, hcount, -⟩ := acquire_spec (s.redis) s.now t (show 0 < cfg.max by omega) httl
      have hok : (TenantLimiter.acquire cfg true s.redis s.now t).1 = true := by
        refine hgrant.2 ?_
        unfold State.value at hroom
        push_cast at hroom
        omega
      have hstep : step cfg s (.acquire w t) =
          some (s.grant (TenantLimiter.acquire cfg true s.redis s.now t).2 w t) := by
        simp only [step]
        rw [if_neg hw, if_pos hok]
      have hprompt : ∀ u, State.Prompt cfg
          (s.grant (TenantLimiter.acquire cfg true s.redis s.now t).2 w t) u := by
        intro u x hx
        simp only [State.grant, ttlMs] at hx ⊢
        by_cases hut : u = t
        · subst hut
          rw [Function.update_self] at hx ⊢
          by_cases hxw : x = w
          · rw [hxw, Function.update_self]
            omega
          · rw [Function.update_of_ne hxw]
            exact hp u x (Finset.mem_of_mem_insert_of_ne hx hxw)
        · rw [Function.update_of_ne hut] at hx ⊢
          exact hp u x hx
      have hval : State.value (s.grant (TenantLimiter.acquire cfg true s.redis s.now t).2 w t) t + n
          = cfg.max := by
        have hone : State.value (s.grant (TenantLimiter.acquire cfg true s.redis s.now t).2 w t) t
            = s.value t + 1 := by
          show Expiring.count (TenantLimiter.acquire cfg true s.redis s.now t).2 s.now (key t) = _
          rw [hcount, if_pos ⟨rfl, hok⟩]
          rfl
        rw [hone]
        push_cast at hroom
        omega
      obtain ⟨s', hpath, hcard⟩ := ih _ hprompt hval
      refine ⟨s', (Path.single ?_ hstep).trans hpath, ?_⟩
      · intro s₁ hs₁
        rw [hstep, Option.some.injEq] at hs₁
        exact hs₁ ▸ hprompt
      · rw [hcard]
        simp only [State.grant, Function.update_self, Finset.card_insert_of_notMem hw]
        omega

/-- Once a tenant has been busy for the TTL, its counter is gone and its cap can be
exceeded at once. -/
theorem exists_overload [Infinite W] {ms : ℕ} (hmax : 1 ≤ cfg.max)
    (h : Path (step cfg) (Idles cfg t) (init : State W) s) (hp : Prompt cfg s (.advance ms))
    (hbusy : s.holders t ≠ ∅) (hlong : s.busySince t + ttlMs cfg ≤ s.now + ms) :
    ∃ s', Path (step cfg) (Prompt cfg) s s' ∧ cfg.max < (s'.holders t).card := by
  have hc := path_counted hmax h
  have hidle := path_idles h hbusy
  have hle := hc.busy_le
  have httl : 0 < cfg.ttlSec := by
    unfold ttlMs at hidle
    omega
  have hgone : s.redis.get (s.now + ms) (key t) = none := by
    refine Expiring.get_expired (t := s.busySince t + (ttlMs cfg).toNat) (hc.expiry_eq hbusy) ?_
    omega
  have hzero : State.value { s with now := s.now + ms } t = 0 := by
    show Expiring.count s.redis (s.now + ms) (key t) = 0
    rw [Expiring.count, hgone]
    rfl
  obtain ⟨s', hpath, hcard⟩ := exists_grants (t := t) hmax httl cfg.max.toNat
    { s with now := s.now + ms } (hp _ rfl) (by rw [hzero]; omega)
  refine ⟨s', (Path.single hp rfl).trans hpath, ?_⟩
  have hpos := Finset.card_pos.2 (Finset.nonempty_iff_ne_empty.2 hbusy)
  simp only at hcard
  omega

/-- **When the cap survives sustained load.**  In every run in which a tenant never has slots
taken for the TTL without a break, it never has more than `max` holders, whatever the other
tenants do.  And once it has had slots taken for that long, in a run in which every slot is
released in time, it can be over its cap the next moment if there are workers enough. -/
theorem slots_capped (cfg : LimiterConfig) (hmax : 1 ≤ cfg.max) (t : Text) :
    (∀ s : State W, Path (step cfg) (Idles cfg t) init s → Capped cfg t s) ∧
    (Infinite W → ∀ (s : State W) (ms : ℕ), Path (step cfg) (PromptIdles cfg t) init s →
      Prompt cfg s (.advance ms) → s.holders t ≠ ∅ → s.busySince t + ttlMs cfg ≤ s.now + ms →
      ∃ s', Path (step cfg) (Prompt cfg) s s' ∧ ¬ Capped cfg t s') := by
  refine ⟨fun s h => ?_, fun _ s ms h hp hbusy hlong => ?_⟩
  · have hc := path_counted hmax h
    rw [Capped, ← hc.value_eq]
    exact hc.le_max
  · obtain ⟨s', hpath, hover⟩ :=
      exists_overload hmax (h.mono fun _ _ hstep => hstep.2) hp hbusy hlong
    exact ⟨s', hpath, not_le.2 hover⟩

/-! ## Replaying runs of one tenant -/

section Sample

/-- Only tenant `t` has holders. -/
def Only (t : Text) (s : State ℕ) : Prop := ∀ u, u ≠ t → s.holders u = ∅

/-- The action is of tenant `t`, if it is of one. -/
def isOf (t : Text) : Action ℕ → Bool
  | .advance _ => true
  | .acquire _ u | .release _ u => u = t

/-- After the step every holder of `t` has had its slot for less than the TTL. -/
def promptAt (cfg : LimiterConfig) (t : Text) (s : State ℕ) (a : Action ℕ) : Bool :=
  isOf t a && (step cfg s a).all fun s' => ∀ w ∈ s'.holders t, (s'.now : ℤ) < s'.since t w + ttlMs cfg

/-- After the step `t` has no holders, or has been busy for less than the TTL. -/
def idlesAt (cfg : LimiterConfig) (t : Text) (s : State ℕ) (a : Action ℕ) : Bool :=
  (step cfg s a).all fun s' => s'.holders t = ∅ ∨ (s'.now : ℤ) < s'.busySince t + ttlMs cfg

theorem step_only {s s' : State ℕ} {a : Action ℕ} (h : Only t s) (ha : isOf t a = true)
    (hs : step cfg s a = some s') : Only t s' := by
  intro u hu
  cases a with
  | advance ms =>
      simp only [step, Option.some.injEq] at hs
      subst hs
      exact h u hu
  | acquire w v =>
      obtain rfl : v = t := by simpa [isOf] using ha
      simp only [step] at hs
      split_ifs at hs
      · cases hs
        simp only [State.grant, Function.update_of_ne hu]
        exact h u hu
      · cases hs
        exact h u hu
  | release w v =>
      obtain rfl : v = t := by simpa [isOf] using ha
      simp only [step] at hs
      split_ifs at hs
      cases hs
      simp only [Function.update_of_ne hu]
      exact h u hu

theorem prompt_of_promptAt {s : State ℕ} {a : Action ℕ} (h : Only t s)
    (hp : promptAt cfg t s a = true) : Prompt cfg s a := by
  rw [promptAt, Bool.and_eq_true] at hp
  intro s' hs u w hw
  by_cases hut : u = t
  · subst hut
    have := hp.2
    rw [hs] at this
    simp only [Option.all_some, decide_eq_true_eq] at this
    exact this w hw
  · rw [step_only h hp.1 hs u hut] at hw
    simp at hw

theorem idles_of_idlesAt {s : State ℕ} {a : Action ℕ} (hi : idlesAt cfg t s a = true) :
    Idles cfg t s a := by
  intro s' hs ht
  rw [idlesAt, hs, Option.all_some, decide_eq_true_eq] at hi
  exact hi.resolve_left ht

end Sample

/-- Two workers share the two slots for fifty seconds and give them back, and a third one takes a
slot later; all the while a neighbour has a slot. -/
theorem slots_capped_after_idling : ∃ s : State ℕ,
    Path (step ⟨2, 60⟩) (Idles ⟨2, 60⟩ "t".toList) init s ∧ s.now = 70000 ∧
    s.holders "t".toList = {2} ∧ s.holders "u".toList = {9} ∧ s.busySince "u".toList = 0 ∧
    Capped ⟨2, 60⟩ "t".toList s := by
  obtain ⟨s, hpath, hs⟩ := Path.exists_of_runChecked (step ⟨2, 60⟩)
    (P := Idles ⟨2, 60⟩ "t".toList) (p := idlesAt ⟨2, 60⟩ "t".toList)
    (fun s a => idles_of_idlesAt) init
    [.acquire 9 "u".toList, .acquire 0 "t".toList, .acquire 1 "t".toList, .advance 50000,
      .release 0 "t".toList, .release 1 "t".toList, .advance 20000, .acquire 2 "t".toList]
    (fun s => s.now = 70000 ∧ s.holders "t".toList = {2} ∧ s.holders "u".toList = {9} ∧
      s.busySince "u".toList = 0) (by decide +kernel)
  obtain ⟨hnow, ht, hu, hbusy⟩ := of_decide_eq_true hs
  exact ⟨s, hpath, hnow, ht, hu, hbusy,
    (slots_capped ⟨2, 60⟩ (by decide) "t".toList).1 s hpath⟩

/-- Worker `1` takes its slot ten seconds before the counter, started by worker `0`,
expires; then two more workers are let in beside it. -/
def relayed : List (Action ℕ) :=
  [.acquire 0 "t".toList, .advance 50000, .acquire 1 "t".toList, .advance 9000,
    .release 0 "t".toList, .advance 1000, .acquire 2 "t".toList, .acquire 3 "t".toList]

/-- Three workers hold slots although `max = 2`, and none of them has had its slot for the
TTL. -/
theorem overload_after_expiry : ¬ (∀ s : State ℕ,
    Path (step ⟨2, 60⟩) (Prompt ⟨2, 60⟩) init s → ∀ t, Capped ⟨2, 60⟩ t s) := by
  intro h
  obtain ⟨s, hpath, hs⟩ := Path.exists_of_runChecked_along (step ⟨2, 60⟩)
    (J := Only "t".toList) (p := promptAt ⟨2, 60⟩ "t".toList)
    (fun s a => prompt_of_promptAt)
    (fun s a s' h ha => step_only h (by
      rw [promptAt, Bool.and_eq_true] at ha
      exact ha.1))
    init (fun _ _ => rfl) relayed (fun s => (s.holders "t".toList).card = 3) (by decide +kernel)
  have hle := h s hpath "t".toList
  rw [decide_eq_true_eq] at hs
  rw [Capped, hs] at hle
  exact absurd hle (by decide)

end Timed
end TenantLimiter
end HookRelay
