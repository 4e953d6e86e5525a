import Mathlib.Tactic
import Mathlib.Logic.Function.Basic

/-!
# A key-value store with expiry

A store of counters as a key-value server keeps it: a key has a value and may have a
time at which it expires; from then on it is as if it were not there.  Commands are
taken at a time `now`.

* `count` — the value of a counter, `0` when there is none.
* `incrBy` — `INCR` and `DECR`: the expiry of a live key is kept, a missing key starts
  at `0` without one.
* `expire`, `del` — `EXPIRE` and `DEL`.
* `AllLive` — no key has expired; as long as that holds, `count` is the stored value.
* `expiry` — when a key will expire; until then it stays as it is (`get_later`), and from
  then on it is not there (`get_expired`).
-/

namespace Lib

/-- A stored value with the time it expires, if it does. -/
structure Entry (ν : Type*) where
  value : ν
  expireAt : Option ℕ

/-- The entry has not expired. -/
def Entry.Live {ν : Type*} (e : Entry ν) (now : ℕ) : Prop := ∀ t ∈ e.expireAt, now < t

instance {ν : Type*} (e : Entry ν) (now : ℕ) : Decidable (e.Live now) :=
  inferInstanceAs (Decidable (∀ t ∈ e.expireAt, now < t))

theorem Entry.Live.mono {ν : Type*} {e : Entry ν} {now later : ℕ} (h : e.Live later)
    (hle : now ≤ later) : e.Live now :=
  fun t ht => lt_of_le_of_lt hle (h t ht)

/-- The stored entries, expired ones included. -/
abbrev Expiring (κ ν : Type*) := κ → Option (Entry ν)

namespace Expiring

variable {κ ν : Type*} [DecidableEq κ]

/-- The live entry of a key. -/
def get (s : Expiring κ ν) (now : ℕ) (k : κ) : Option (Entry ν) :=
  (s k).filter fun e => decide (e.Live now)

/-- The value of a counter; a missing one is `0`. -/
def count (s : Expiring κ ℤ) (now : ℕ) (k : κ) : ℤ := ((get s now k).map Entry.value).getD 0

/-- When a key will expire, if it is live and does. -/
def expiry (s : Expiring κ ν) (now : ℕ) (k : κ) : Option ℕ := (get s now k).bind Entry.expireAt

/-- Add to a counter, and give its new value. -/
def incrBy (s : Expiring κ ℤ) (now : ℕ) (k : κ) (d : ℤ) : ℤ × Expiring κ ℤ :=
  let n := count s now k + d
  (n, Function.update s k (some ⟨n, expiry s now k⟩))

/-- Forget a key. -/
def del (s : Expiring κ ν) (k : κ) : Expiring κ ν := Function.update s k none

/-- Let a key expire after `ttl`; with a `ttl` that is not positive it is deleted. -/
def expire (s : Expiring κ ν) (now : ℕ) (k : κ) (ttl : ℤ) : Expiring κ ν :=
  match get s now k with
  | none => s
  | some e =>
      if ttl ≤ 0 then del s k
      else Function.update s k (some ⟨e.value, some (now + ttl.toNat)⟩)

/-- No stored key has expired. -/
def AllLive (s : Expiring κ ν) (now : ℕ) : Prop := ∀ k, ∀ e ∈ s k, e.Live now

section Lemmas

variable {s : Expiring κ ℤ} {now later : ℕ} {k j : κ} {d ttl : ℤ}

omit [DecidableEq κ] in
theorem mem_get {s : Expiring κ ν} {e : Entry ν} : e ∈ s.get now k ↔ s k = some e ∧ e.Live now := by
  simp [get, Option.filter_eq_some_iff]

omit [DecidableEq κ] in
theorem AllLive.get_eq {s : Expiring κ ν} (h : s.AllLive now) (k : κ) : s.get now k = s k := by
  unfold get
  cases hk : s k with
  | none => rfl
  | some e => simp [h k e hk]

omit [DecidableEq κ] in
/-- Time may pass as long as no key expires. -/
theorem AllLive.count_eq {later : ℕ} (h : s.AllLive now) (hl : s.AllLive later) (k : κ) :
    s.count later k = s.count now k := by
  unfold count
  rw [h.get_eq, hl.get_eq]

omit [DecidableEq κ] in
/-- A key stays as it is until it expires. -/
theorem get_later {s : Expiring κ ν} (hle : now ≤ later) (h : ∀ t ∈ s.expiry now k, later < t) :
    s.get later k = s.get now k := by
  ext e
  rw [← Option.mem_def, ← Option.mem_def, mem_get, mem_get]
  refine and_congr_right fun hk => ⟨fun hl => hl.mono hle, fun hn t ht => h t ?_⟩
  exact Option.mem_bind_iff.2 ⟨e, mem_get.2 ⟨hk, hn⟩, ht⟩

omit [DecidableEq κ] in
/-- From its expiry on a key is not there. -/
theorem get_expired {s : Expiring κ ν} {t : ℕ} (ht : t ∈ s.expiry now k) (hle : t ≤ later) :
    s.get later k = none := by
  obtain ⟨e, he, het⟩ := Option.mem_bind_iff.1 ht
  rw [Option.eq_none_iff_forall_not_mem]
  intro e' he'
  obtain ⟨hk', hl'⟩ := mem_get.1 he'
  obtain rfl : e = e' := Option.some.inj ((mem_get.1 he).1.symm.trans hk')
  exact absurd (hl' t het) (not_lt.2 hle)

omit [DecidableEq κ] in
/-- What is there later is what has not expired by then. -/
theorem get_of_le {s : Expiring κ ν} (hle : now ≤ later) :
    s.get later k = (s.get now k).filter fun e => decide (e.Live later) := by
  ext e
  rw [← Option.mem_def, ← Option.mem_def, mem_get, Option.mem_filter_iff, mem_get,
    decide_eq_true_eq]
  exact ⟨fun h => ⟨⟨h.1, h.2.mono hle⟩, h.2⟩, fun h => ⟨h.1.1, h.2⟩⟩

omit [DecidableEq κ] in
/-- A counter that is `0` stays `0` as time passes. -/
theorem count_later_zero (hle : now ≤ later) (h : s.count now k = 0) : s.count later k = 0 := by
  unfold count at h ⊢
  cases hl : s.get later k with
  | none => rfl
  | some e =>
      obtain ⟨hk, hlive⟩ := mem_get.1 hl
      rw [show s.get now k = some e from mem_get.2 ⟨hk, hlive.mono hle⟩] at h
      exact h

/-- A command leaves the other keys alone. -/
theorem incrBy_of_ne (hj : j ≠ k) : (s.incrBy now k d).2 j = s j := Function.update_of_ne hj _ _

theorem del_of_ne {s : Expiring κ ν} (hj : j ≠ k) : s.del k j = s j := Function.update_of_ne hj _ _

theorem expire_of_ne {s : Expiring κ ν} (hj : j ≠ k) : s.expire now k ttl j = s j := by
  unfold expire
  cases s.get now k with
  | none => rfl
  | some e =>
      simp only
      split_ifs
      · exact del_of_ne hj
      · exact Function.update_of_ne hj _ _

omit [DecidableEq κ] in
theorem get_congr {s s' : Expiring κ ν} (h : s' k = s k) : s'.get now k = s.get now k := by
  rw [get, get, h]

@[simp] theorem incrBy_fst : (s.incrBy now k d).1 = s.count now k + d := rfl

theorem get_incrBy_self :
    (s.incrBy now k d).2.get now k = some ⟨s.count now k + d, s.expiry now k⟩ := by
  rw [← Option.mem_def, mem_get]
  refine ⟨by simp [incrBy], fun t ht => ?_⟩
  obtain ⟨e, he, het⟩ := Option.mem_bind_iff.1 ht
  exact (mem_get.1 he).2 t het

theorem get_incrBy_of_ne (hj : j ≠ k) : (s.incrBy now k d).2.get now j = s.get now j := by
  simp [get, incrBy, hj]

theorem count_incrBy :
    (s.incrBy now k d).2.count now j = if j = k then s.count now k + d else s.count now j := by
  by_cases hj : j = k
  · subst hj
    rw [if_pos rfl, count, get_incrBy_self]
    rfl
  · rw [if_neg hj, count, get_incrBy_of_ne hj, count]

/-- `INCR` and `DECR` keep every expiry. -/
@[simp] theorem expiry_incrBy : (s.incrBy now k d).2.expiry now j = s.expiry now j := by
  by_cases hj : j = k
  · subst hj
    rw [expiry, get_incrBy_self]
    rfl
  · rw [expiry, get_incrBy_of_ne hj, expiry]

theorem AllLive.incrBy (h : s.AllLive now) : (s.incrBy now k d).2.AllLive now := by
  intro j e he
  by_cases hj : j = k
  · subst hj
    intro t ht
    simp only [Expiring.incrBy, Function.update_self, Option.mem_def, Option.some.injEq] at he
    subst he
    obtain ⟨e', he', ht⟩ := Option.mem_bind_iff.1 ht
    exact (mem_get.1 he').2 t ht
  · simp only [Expiring.incrBy, Function.update_of_ne hj] at he
    exact h j e he

theorem count_del : (s.del k).count now j = if j = k then 0 else s.count now j := by
  by_cases hj : j = k
  · subst hj
    simp [count, get, del]
  · simp [count, get, del, hj]

theorem AllLive.del {s : Expiring κ ν} (h : s.AllLive now) : (s.del k).AllLive now := by
  intro j e he
  by_cases hj : j = k
  · subst hj
    simp [Expiring.del] at he
  · rw [Expiring.del, Function.update_of_ne hj] at he
    exact h j e he

/-- `EXPIRE` with a positive time to live changes nothing but the expiry of its key. -/
theorem get_expire (httl : 0 < ttl) {s : Expiring κ ν} :
    (s.expire now k ttl).get now j =
      if j = k then (s.get now k).map fun e => ⟨e.value, some (now + ttl.toNat)⟩ else s.get now j := by
  unfold expire
  cases hk : s.get now k with
  | none =>
      by_cases hj : j = k
      · subst hj
        simp [hk]
      · simp [hj]
  | some e =>
      simp only
      rw [if_neg (by omega)]
      by_cases hj : j = k
      · subst hj
        have hlive : (Entry.mk e.value (some (now + ttl.toNat))).Live now := by
          intro t ht
          simp only [Option.mem_def, Option.some.injEq] at ht
          omega
        simp [get, Option.filter, hlive]
      · simp [get, hj]

/-- A positive time to live changes no value. -/
theorem count_expire (httl : 0 < ttl) : (s.expire now k ttl).count now j = s.count now j := by
  rw [count, get_expire httl, count]
  by_cases hj : j = k
  · rw [if_pos hj, hj, Option.map_map]
    rfl
  · rw [if_neg hj]

/-- `EXPIRE` sets the expiry of a key that is there. -/
theorem expiry_expire (httl : 0 < ttl) {s : Expiring κ ν} (hk : (s.get now k).isSome) :
    (s.expire now k ttl).expiry now j =
      if j = k then some (now + ttl.toNat) else s.expiry now j := by
  obtain ⟨e, he⟩ := Option.isSome_iff_exists.1 hk
  rw [expiry, get_expire httl, he, expiry]
  by_cases hj : j = k
  · rw [if_pos hj, if_pos hj]
    rfl
  · rw [if_neg hj, if_neg hj]

theorem expiry_del {s : Expiring κ ν} :
    (s.del k).expiry now j = if j = k then none else s.expiry now j := by
  by_cases hj : j = k
  · subst hj
    simp [expiry, get, del]
  · simp [expiry, get, del, hj]

theorem AllLive.expire {s : Expiring κ ν} (h : s.AllLive now) (httl : 0 < ttl) :
    (s.expire now k ttl).AllLive now := by
  unfold Expiring.expire
  cases hk : s.get now k with
  | none => exact h
  | some e =>
      simp only
      rw [if_neg (by omega)]
      intro j e' he'
      by_cases hj : j = k
      · subst hj
        simp only [Function.update_self, Option.mem_def, Option.some.injEq] at he'
        subst he'
        intro t ht
        simp only [Option.mem_def, Option.some.injEq] at ht
        omega
      · simp only [Function.update_of_ne hj] at he'
        exact h j e' he'

end Lemmas

end Expiring

end Lib
