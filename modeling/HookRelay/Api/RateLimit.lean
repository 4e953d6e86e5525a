import HookRelay.Lib.Expiring
import HookRelay.Lib.Transition
import HookRelay.Lib.Windows
import HookRelay.Common.Errors
import HookRelay.Data.Accounts

/-!
# The publish rate limit

`publish-rate-limiter.ts`: a counter in Redis for each tenant, which is deleted by its expiry
a minute after the call that created it.  A call that finds the counter at the cap of the
tenant's plan is refused, and counted all the same.

The system is calls for any tenants, at times that do not go back.

* `Tracks` — the counter of a tenant is the number of calls in the window that is open, and
  expires when that window ends.
* `step_tracks` — one step keeps it so.
* `consume_windows` — which calls are accepted, and how many can be in a minute.
-/

namespace HookRelay

open Lib Lib.Windows

/-- The limits of the plans: `HR_RATE_LIMIT_FREE_PER_MIN` and `HR_RATE_LIMIT_PRO_PER_MIN`. -/
structure RateLimits where
  free : ℤ
  pro : ℤ

namespace PublishRateLimiter

/-- The limiter's keys in Redis. -/
abbrev Redis := Expiring Text ℤ

def key (tenantId : Text) : Text := "hr:rl:".toList ++ tenantId

@[simp] theorem key_inj {t u : Text} : key t = key u ↔ t = u := by
  unfold key
  rw [List.append_right_inj]

def windowSec : ℕ := 60

/-- The same, in milliseconds. -/
def windowMs : ℕ := windowSec * 1000

/-- `TTL`: in seconds, rounded. -/
def ttl (redis : Redis) (now : ℕ) (k : Text) : ℤ :=
  match redis.get now k with
  | none => -2
  | some ⟨_, none⟩ => -1
  | some ⟨_, some t⟩ => ((t : ℤ) - now + 500) / 1000

/-- `CONSUME_LUA`, with times in milliseconds: the count and the time to live. -/
def consumeLua (redis : Redis) (now : ℕ) (k : Text) : (ℤ × ℤ) × Redis :=
  let (n, redis) := redis.incrBy now k 1
  let redis := if n = 1 then redis.expire now k windowMs else redis
  ((n, ttl redis now k), redis)

def capOf (limits : RateLimits) : TenantPlan → ℤ
  | .pro => limits.pro
  | .free => limits.free

/-- `consume`; `up` says whether Redis answers.  There is no connection when neither plan
has a limit, and then `cap` is not positive. -/
def consume (limits : RateLimits) (up : Bool) (redis : Redis) (now : ℕ) (tenantId : Text)
    (plan : TenantPlan) : Except DomainException Unit × Redis :=
  let cap := capOf limits plan
  if cap ≤ 0 then (.ok (), redis)
  else if up then
    let ((used, ttl), redis) := consumeLua redis now (key tenantId)
    if used > cap then (.error (Errors.rateLimited (max 1 ttl).toNat), redis) else (.ok (), redis)
  else (.ok (), redis)

/-! ## The system -/

/-- A call that was made. -/
structure Call where
  tenantId : Text
  time : ℕ
  accepted : Bool
  deriving DecidableEq

/-- Redis, and the calls made so far, the latest first. -/
structure State where
  now : ℕ
  redis : Redis
  calls : List Call

def init : State := ⟨0, fun _ => none, []⟩

inductive Action where
  /-- Time passes. -/
  | advance (ms : ℕ)
  | consume (tenantId : Text) (plan : TenantPlan) (up : Bool)

def step (limits : RateLimits) (s : State) : Action → Option State
  | .advance ms => some { s with now := s.now + ms }
  | .consume t plan up =>
      let (result, redis) := consume limits up s.redis s.now t plan
      some { s with redis := redis, calls := ⟨t, s.now, result.toBool⟩ :: s.calls }

/-- The calls of a tenant. -/
def State.callsOf (s : State) (t : Text) : List Call := s.calls.filter fun c => c.tenantId = t

/-- Redis answers, and the tenant's plan has this cap. -/
def Capped (limits : RateLimits) (t : Text) (cap : ℕ) (_ : State) : Action → Prop
  | .advance _ => True
  | .consume u plan up => up = true ∧ (u = t → capOf limits plan = cap)

/-- The counter of a tenant that made these calls: the number of those in the open window,
until it ends. -/
def counterOf (calls : List Call) (now : ℕ) : Option (Entry ℤ) :=
  ((lastWindow windowMs Call.time calls).filter fun w => decide (now < w + windowMs)).map fun w =>
    ⟨arrivalsIn windowMs Call.time calls w, some (w + windowMs)⟩

/-- What is known of a tenant with this cap. -/
structure Tracks (t : Text) (cap : ℕ) (s : State) : Prop where
  order : InOrder Call.time (s.callsOf t)
  past : ∀ c ∈ s.callsOf t, c.time ≤ s.now
  admits : Admits windowMs cap Call.time Call.accepted (s.callsOf t)
  counter : s.redis.get s.now (key t) = counterOf (s.callsOf t) s.now

variable {limits : RateLimits} {t u : Text} {cap : ℕ} {s s' : State} {plan : TenantPlan}
  {redis : Redis} {now : ℕ} {calls : List Call}

theorem tracks_init (t : Text) (cap : ℕ) : Tracks t cap init where
  order := .nil
  past := by intro c hc; simp [init, State.callsOf] at hc
  admits := admits_nil
  counter := rfl

/-! ## What the script does -/

theorem windowMs_pos : 0 < windowMs := by decide

/-- The script counts the call, and gives a counter that was not there its expiry. -/
theorem consumeLua_spec (redis : Redis) (now : ℕ) (k : Text) :
    (consumeLua redis now k).1.1 = redis.count now k + 1 ∧
    (∀ j, j ≠ k → (consumeLua redis now k).2.get now j = redis.get now j) ∧
    (consumeLua redis now k).2.get now k = some ⟨redis.count now k + 1,
      if redis.count now k = 0 then some (now + windowMs) else redis.expiry now k⟩ := by
  have hms : (0 : ℤ) < windowMs := by decide
  by_cases h0 : redis.count now k = 0
  · have hlua : consumeLua redis now k = ((redis.count now k + 1,
        ttl ((redis.incrBy now k 1).2.expire now k windowMs) now k),
        (redis.incrBy now k 1).2.expire now k windowMs) := by
      simp only [consumeLua, Expiring.incrBy_fst, h0, zero_add, if_true]
    rw [hlua]
    refine ⟨rfl, fun j hj => ?_, ?_⟩
    · rw [Expiring.get_expire hms, if_neg hj, Expiring.get_incrBy_of_ne hj]
    · rw [Expiring.get_expire hms, if_pos rfl, Expiring.get_incrBy_self, if_pos h0]
      rfl
  · have hlua : consumeLua redis now k =
        ((redis.count now k + 1, ttl (redis.incrBy now k 1).2 now k), (redis.incrBy now k 1).2) := by
      have hn : ¬ redis.count now k + 1 = 1 := by omega
      simp only [consumeLua, Expiring.incrBy_fst, hn, if_false]
    rw [hlua]
    refine ⟨rfl, fun j hj => Expiring.get_incrBy_of_ne hj, ?_⟩
    rw [Expiring.get_incrBy_self, if_neg h0]

/-- With Redis up and a cap, a call is refused exactly when the counter was at the cap. -/
theorem consume_spec (hcap : 0 < capOf limits plan) (redis : Redis) (now : ℕ) (t : Text) :
    ((consume limits true redis now t plan).1.toBool = true ↔
      redis.count now (key t) < capOf limits plan) ∧
    (consume limits true redis now t plan).2 = (consumeLua redis now (key t)).2 := by
  have hused := (consumeLua_spec redis now (key t)).1
  have hconsume : consume limits true redis now t plan =
      if (consumeLua redis now (key t)).1.1 > capOf limits plan then
        (.error (Errors.rateLimited (max 1 (consumeLua redis now (key t)).1.2).toNat),
          (consumeLua redis now (key t)).2)
      else (.ok (), (consumeLua redis now (key t)).2) := by
    simp only [consume, not_le.2 hcap, if_false, if_true]
  rw [hconsume]
  by_cases hlt : redis.count now (key t) < capOf limits plan
  · rw [if_neg (by omega)]
    exact ⟨⟨fun _ => hlt, fun _ => rfl⟩, rfl⟩
  · rw [if_pos (by omega)]
    exact ⟨⟨fun h => absurd h (by simp [Except.toBool]), fun h => absurd h hlt⟩, rfl⟩

/-- A call touches no other tenant's counter. -/
theorem get_consume_of_ne (hu : u ≠ t) (up : Bool) :
    (consume limits up redis now u plan).2.get now (key t) = redis.get now (key t) := by
  by_cases hcap : capOf limits plan ≤ 0
  · simp only [consume, if_pos hcap]
  · cases up with
    | false => simp [consume, hcap]
    | true =>
        rw [(consume_spec (not_le.1 hcap) redis now u).2]
        exact (consumeLua_spec redis now (key u)).2.1 _ fun h => hu (key_inj.1 h).symm

/-! ## The counter follows the window -/

/-- As time passes the counter goes when its window ends. -/
theorem counterOf_later {later : ℕ} (hle : now ≤ later) :
    (counterOf calls now).filter (fun e => decide (e.Live later)) = counterOf calls later := by
  unfold counterOf
  cases lastWindow windowMs Call.time calls with
  | none => rfl
  | some w =>
      by_cases hl : later < w + windowMs
      · have hn : now < w + windowMs := by omega
        simp [Option.filter, hl, hn, Entry.Live]
      · by_cases hn : now < w + windowMs
        · simp [Option.filter, hl, hn, Entry.Live]
        · simp [Option.filter, hl, hn]

/-- What a call finds is the number of calls before it in its window, and what it leaves
expires when that window ends. -/
theorem counter_found (h : redis.get now (key t) = counterOf calls now) :
    redis.count now (key t) =
      arrivalsIn windowMs Call.time calls
        (windowOf windowMs (lastWindow windowMs Call.time calls) now) ∧
    (if redis.count now (key t) = 0 then some (now + windowMs) else redis.expiry now (key t)) =
      some (windowOf windowMs (lastWindow windowMs Call.time calls) now + windowMs) := by
  rcases windowOf_cases windowMs (lastWindow windowMs Call.time calls) now with
    ⟨heq, hall⟩ | ⟨w, hw, hlt, heq⟩
  · -- no window is open, and there is no counter
    have hnone : counterOf calls now = none := by
      unfold counterOf
      cases hl : lastWindow windowMs Call.time calls with
      | none => rfl
      | some w =>
          have hend := not_lt.2 (hall w hl)
          simp [Option.filter, hend]
    have hcount : redis.count now (key t) = 0 := by
      rw [Expiring.count, h, hnone]
      rfl
    rw [heq, hcount, arrivalsIn_of_lt windowMs_pos hall]
    exact ⟨rfl, rfl⟩
  · have hsome : counterOf calls now =
        some ⟨arrivalsIn windowMs Call.time calls w, some (w + windowMs)⟩ := by
      unfold counterOf
      rw [Option.mem_def.1 hw]
      simp [Option.filter, hlt]
    have hcount : redis.count now (key t) = arrivalsIn windowMs Call.time calls w := by
      rw [Expiring.count, h, hsome]
      rfl
    have hpos := arrivalsIn_pos hw
    rw [heq, hcount, if_neg (by omega), Expiring.expiry, h, hsome]
    exact ⟨rfl, rfl⟩

theorem callsOf_cons (c : Call) (redis : Redis) : State.callsOf ⟨s.now, redis, c :: s.calls⟩ t =
    if c.tenantId = t then c :: s.callsOf t else s.callsOf t := by
  unfold State.callsOf
  by_cases hc : c.tenantId = t
  · rw [if_pos hc, List.filter_cons_of_pos (by simpa using hc)]
  · rw [if_neg hc, List.filter_cons_of_neg (by simpa using hc)]

/-- A call of the tenant itself. -/
theorem consume_tracks (hcap : 1 ≤ cap) (h : Tracks t cap s) (hplan : capOf limits plan = cap) :
    Tracks t cap ⟨s.now, (consume limits true s.redis s.now t plan).2,
      ⟨t, s.now, (consume limits true s.redis s.now t plan).1.toBool⟩ :: s.calls⟩ := by
  have hcap' : 0 < capOf limits plan := by omega
  obtain ⟨hok, hredis⟩ := consume_spec hcap' s.redis s.now t
  obtain ⟨hfound, hexpiry⟩ := counter_found h.counter
  rw [hplan, hfound, Int.ofNat_lt] at hok
  obtain ⟨c, hc⟩ : ∃ c : Call,
      c = ⟨t, s.now, (consume limits true s.redis s.now t plan).1.toBool⟩ := ⟨_, rfl⟩
  have htime : c.time = s.now := by rw [hc]
  have hcalls : State.callsOf ⟨s.now, (consume limits true s.redis s.now t plan).2,
      c :: s.calls⟩ t = c :: s.callsOf t := by
    rw [callsOf_cons, if_pos (by rw [hc])]
  rw [← hc]
  refine ⟨?_, ?_, ?_, ?_⟩ <;> rw [hcalls]
  · rw [InOrder, List.pairwise_cons, htime]
    exact ⟨h.past, h.order⟩
  · intro x hx
    rcases List.mem_cons.1 hx with rfl | hx
    · exact le_of_eq htime
    · exact h.past x hx
  · refine admits_cons h.admits ?_
    rw [htime, hc]
    exact hok
  · show (consume limits true s.redis s.now t plan).2.get s.now (key t) = _
    rw [hredis, (consumeLua_spec s.redis s.now (key t)).2.2, hexpiry, hfound]
    unfold counterOf
    rw [lastWindow_cons, htime]
    have hopen : s.now <
        windowOf windowMs (lastWindow windowMs Call.time (s.callsOf t)) s.now + windowMs := by
      rcases windowOf_cases windowMs (lastWindow windowMs Call.time (s.callsOf t)) s.now with
        ⟨heq, -⟩ | ⟨w, -, hlt, heq⟩
      · rw [heq]
        have := windowMs_pos
        omega
      · rw [heq]
        exact hlt
    simp [Option.filter, hopen, arrivalsIn_cons, htime]

/-- **One step keeps the counter to the window.** -/
theorem step_tracks {a : Action} (hcap : 1 ≤ cap) (h : Tracks t cap s) (hP : Capped limits t cap s a)
    (hs : step limits s a = some s') : Tracks t cap s' := by
  cases a with
  | advance ms =>
      simp only [step, Option.some.injEq] at hs
      subst hs
      have hle : s.now ≤ s.now + ms := Nat.le_add_right _ _
      refine ⟨h.order, fun c hc => le_trans (h.past c hc) hle, h.admits, ?_⟩
      show s.redis.get (s.now + ms) (key t) = counterOf (s.callsOf t) (s.now + ms)
      rw [Expiring.get_of_le hle, h.counter, counterOf_later hle]
  | consume u plan up =>
      obtain ⟨rfl, hplan⟩ := hP
      simp only [step, Option.some.injEq] at hs
      by_cases hu : u = t
      · subst hu
        rw [← hs]
        exact consume_tracks hcap h (hplan rfl)
      · have hcalls : s'.callsOf t = s.callsOf t := by
          rw [← hs]
          exact (callsOf_cons _ _).trans (if_neg hu)
        have hnow : s'.now = s.now := by rw [← hs]
        refine ⟨by rw [hcalls]; exact h.order, by rw [hcalls, hnow]; exact h.past,
          by rw [hcalls]; exact h.admits, ?_⟩
        rw [hcalls, hnow, ← h.counter, ← hs]
        exact get_consume_of_ne hu true

theorem tracks_of_path (hcap : 1 ≤ cap) (h : Path (step limits) (Capped limits t cap) init s) :
    Tracks t cap s :=
  h.invariant (fun _ _ _ hI hP hs => step_tracks hcap hI hP hs) (tracks_init t cap)

/-- **The publish rate limit.**  While Redis answers, the counter of a tenant is that of the
window that is open and expires when it ends; a call is accepted exactly when fewer than
`cap` calls came before it in its window, and so always when it opens one; a minute has at
most `2 * cap` accepted calls; and all this depends on the times of the tenant's own calls
alone. -/
theorem consume_windows (limits : RateLimits) (t : Text) (cap : ℕ) (hcap : 1 ≤ cap) (s : State)
    (h : Path (step limits) (Capped limits t cap) init s) :
    s.redis.get s.now (key t) = counterOf (s.callsOf t) s.now ∧
    (∀ later c earlier, s.callsOf t = later ++ c :: earlier →
      (c.accepted = true ↔ arrivalsIn windowMs Call.time earlier
        (windowOf windowMs (lastWindow windowMs Call.time earlier) c.time) < cap) ∧
      ((∀ w ∈ lastWindow windowMs Call.time earlier, w + windowMs ≤ c.time) →
        c.accepted = true)) ∧
    (∀ x, (s.callsOf t).countP (fun c =>
      c.accepted && decide (x ≤ c.time ∧ c.time ≤ x + windowMs)) ≤ 2 * cap) ∧
    ∀ s₂, Path (step limits) (Capped limits t cap) init s₂ →
      (s.callsOf t).map Call.time = (s₂.callsOf t).map Call.time →
      (s.callsOf t).map Call.accepted = (s₂.callsOf t).map Call.accepted := by
  have htr := tracks_of_path hcap h
  refine ⟨htr.counter, fun later c earlier heq => ?_,
    fun x => htr.admits.countP_interval_le windowMs_pos htr.order x,
    fun s₂ h₂ heq => htr.admits.eq_of_times (tracks_of_path hcap h₂).admits heq⟩
  have hiff := htr.admits later c earlier heq
  refine ⟨hiff, fun hend => hiff.2 ?_⟩
  rcases windowOf_cases windowMs (lastWindow windowMs Call.time earlier) c.time with
    ⟨hw, -⟩ | ⟨w, hw, hlt, -⟩
  · rw [hw, arrivalsIn_of_lt windowMs_pos hend]
    omega
  · exact absurd hlt (not_lt.2 (hend w hw))

/-- Redis answers, and the plan is `FREE`. -/
def upAndFree : Action → Bool
  | .advance _ => true
  | .consume _ plan up => up && decide (plan = .free)

/-- At a cap of `1`: two calls in a window, and one in the next. -/
theorem consume_windows_at_cap_one : ∃ s : State,
    Path (step ⟨1, 600⟩) (Capped ⟨1, 600⟩ "t".toList 1) init s ∧
    (s.callsOf "t".toList).map Call.accepted = [true, false, true] ∧
    (s.callsOf "t".toList).countP (fun c =>
      c.accepted && decide (0 ≤ c.time ∧ c.time ≤ 0 + windowMs)) ≤ 2 * 1 := by
  have hguard : ∀ (s : State) (a : Action), upAndFree a = true →
      Capped ⟨1, 600⟩ "t".toList 1 s a := by
    intro s a ha
    cases a with
    | advance ms => trivial
    | consume u plan up =>
        rw [upAndFree, Bool.and_eq_true, decide_eq_true_eq] at ha
        exact ⟨ha.1, fun _ => by rw [ha.2]; rfl⟩
  obtain ⟨s, hpath, hs⟩ := Path.exists_of_runChecked (step ⟨1, 600⟩) hguard init
    [.consume "t".toList .free true, .advance 59000, .consume "t".toList .free true,
      .advance 1000, .consume "t".toList .free true]
    (fun s => (s.callsOf "t".toList).map Call.accepted = [true, false, true]) (by decide)
  exact ⟨s, hpath, by simpa using hs,
    (consume_windows ⟨1, 600⟩ "t".toList 1 (by decide) s hpath).2.2.1 0⟩

end PublishRateLimiter

end HookRelay
