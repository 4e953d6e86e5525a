import HookRelay.Worker.CircuitCalls

/-!
# Probes of an open circuit

Once a circuit is open, an attempt is let through only as a probe: one at a time, and one
per cooldown.  The key that a probe holds is meant to see to that, but `allow` decides on
the snapshot it read before it competes for the key, and every report deletes the key,
whoever holds it.

* `Call.kind` — a call is outside (it has not been let through), a probe, or left over: let
  through while the circuit was closed, or a `success` that still has its `DEL` to send.
* `Fresh` — the condition: a `SET NX` that wins finds the snapshot its `GET` read, and no call
  is left over.
* `Probing`, `Resting` — the two modes of the circuit: one probe holds the key, or nobody
  does.  `step_guarded` — a step goes from one of them to one of them.
* `one_probe_per_cooldown` — the result.
-/

namespace HookRelay
namespace Circuit

open Lib

/-- How a call stands to the probe key. -/
inductive Kind where
  | outside
  | probe (wonAt : ℕ)
  | leftOver
  deriving DecidableEq

/-- A call that has been let through: as a probe, or while the circuit was closed. -/
def Kind.through : Option ℕ → Kind
  | some wonAt => .probe wonAt
  | none => .leftOver

theorem Kind.through_ne_outside (probe : Option ℕ) : Kind.through probe ≠ .outside := by
  cases probe <;> simp [Kind.through]

def Call.kind : Call → Kind
  | .idle | .allowGet _ | .allowNx _ _ _ => .outside
  | .allowSet _ wonAt => .probe wonAt
  | .attempting probe | .successSet probe | .failureGet _ probe | .failureSet _ probe
  | .failureDel probe => .through probe
  | .successDel _ => .leftOver

/-- The attempt has been let through as a probe, and its report is not complete. -/
def Call.isProbe : Call → Bool
  | .attempting probe | .successSet probe | .failureGet _ probe | .failureSet _ probe
  | .failureDel probe => probe.isSome
  | _ => false

theorem Call.kind_of_isProbe {c : Call} (h : c.isProbe = true) : ∃ t, c.kind = .probe t := by
  cases c with
  | idle | allowGet _ | allowNx _ _ _ | allowSet _ _ | successDel _ => cases h
  | attempting p | successSet p | failureGet _ p | failureSet _ p | failureDel p =>
      obtain ⟨t, rfl⟩ := Option.isSome_iff_exists.1 h
      exact ⟨t, rfl⟩

variable {W : Type} [DecidableEq W]

/-- Every probe has reported before its key expires. -/
def InTime (s : State W) : Action W → Prop
  | .advance ms => ∀ w t, (s.calls w).kind = .probe t → s.now + ms < t + probeTtlMs
  | _ => True

/-- A `SET NX` that wins finds the snapshot its `GET` read, and no call is left over. -/
def Fresh (s : State W) : Action W → Prop
  | .command w => ∀ now current next, s.calls w = .allowNx now current next →
      s.keys.probeTaken s.now = false →
      s.keys.read = current ∧ ∀ x, (s.calls x).kind ≠ .leftOver
  | _ => True

/-- A cooldown lies between two times. -/
def Spaced (cfg : CircuitConfig) (later earlier : ℕ) : Prop :=
  (earlier : ℤ) + cfg.cooldownMs ≤ later

/-- No two probes are outstanding at once, and any two consecutive ones are a cooldown
apart. -/
def OneProbe (cfg : CircuitConfig) (s : State W) : Prop :=
  (∀ w x, (s.calls w).isProbe = true → (s.calls x).isProbe = true → w = x) ∧
  s.grants.IsChain (Spaced cfg)

/-! ## The two modes of the circuit -/

/-- What a call has read is what a transition allows, and its clock is not ahead. -/
def Call.Sound (cfg : CircuitConfig) (now : ℕ) : Call → Prop
  | .allowGet t => t ≤ now
  | .allowNx t current next => t ≤ now ∧ next = { current with state := .halfOpen } ∧
      (current.state = .halfOpen ∨
        current.state = .opened ∧ current.openedAt + cfg.cooldownMs ≤ t)
  | .failureGet t _ => t ≤ now
  | .failureSet next _ =>
      next.state = if cfg.openAfter ≤ (next.failures : ℤ) then .opened else .closed
  | _ => True

/-- What the holder of the probe key has made of the snapshot. -/
def Call.Holding (cfg : CircuitConfig) (s : State W) : Call → Prop
  | .allowSet next _ => s.keys.read.state = .opened ∧
      next = { s.keys.read with state := .halfOpen } ∧
      ∀ g ∈ s.grants.head?, (g : ℤ) + cfg.cooldownMs ≤ s.now
  | .attempting _ | .successSet _ => s.keys.read.state = .halfOpen ∧
      ∀ g ∈ s.grants.head?, g ≤ s.now
  | .failureGet t _ => s.keys.read.state = .halfOpen ∧ ∀ g ∈ s.grants.head?, g ≤ t
  | .failureSet next _ => s.keys.read.state = .halfOpen ∧ next.state = .opened ∧
      ∀ g ∈ s.grants.head?, g ≤ next.openedAt
  | .failureDel _ => s.keys.read.state = .opened ∧
      ∀ g ∈ s.grants.head?, g ≤ s.keys.read.openedAt
  | _ => False

/-- Worker `h` holds the probe key, and all other calls are outside. -/
structure Probing (cfg : CircuitConfig) (s : State W) (h : W) (wonAt : ℕ) : Prop where
  kind : (s.calls h).kind = .probe wonAt
  others : ∀ x, x ≠ h → (s.calls x).kind = .outside
  key : s.keys.probe = some (wonAt + probeTtlMs)
  inTime : s.now < wonAt + probeTtlMs
  holding : (s.calls h).Holding cfg s

/-- Nobody holds the probe key.  If a probe was let through since the last success, the
circuit was opened after it and no call is left over. -/
structure Resting (s : State W) : Prop where
  noProbe : ∀ x t, (s.calls x).kind ≠ .probe t
  not_halfOpen : s.keys.read.state ≠ .halfOpen
  opened : ∀ g ∈ s.grants.head?, s.keys.read.state = .opened ∧ g ≤ s.keys.read.openedAt
  outside : s.grants ≠ [] → ∀ x, (s.calls x).kind = .outside

/-- The invariant. -/
structure Guarded (cfg : CircuitConfig) (s : State W) : Prop where
  sound : ∀ w, (s.calls w).Sound cfg s.now
  count : s.keys.read.state ≠ .closed → cfg.openAfter ≤ (s.keys.read.failures : ℤ)
  chain : s.grants.IsChain (Spaced cfg)
  mode : (∃ h wonAt, Probing cfg s h wonAt) ∨ Resting s

variable {cfg : CircuitConfig} {s s' : State W} {a : Action W} {w h : W} {wonAt : ℕ}

omit [DecidableEq W] in
theorem guarded_init : Guarded cfg (init : State W) where
  sound := fun _ => trivial
  count := fun hc => absurd rfl hc
  chain := .nil
  mode := by
    refine .inr ⟨fun x t ht => ?_, fun hh => ?_, fun g hg => ?_, fun hne => absurd rfl hne⟩
    · cases ht
    · cases hh
    · cases hg

omit [DecidableEq W] in
/-- The invariant gives the result. -/
theorem Guarded.oneProbe (hg : Guarded cfg s) : OneProbe cfg s := by
  refine ⟨fun w x hw hx => ?_, hg.chain⟩
  obtain ⟨t, ht⟩ := Call.kind_of_isProbe hw
  obtain ⟨u, hu⟩ := Call.kind_of_isProbe hx
  rcases hg.mode with ⟨h, wonAt, hp⟩ | hr
  · have hone : ∀ y t, (s.calls y).kind = .probe t → y = h := by
      intro y t hy
      by_contra hne
      rw [hp.others y hne] at hy
      cases hy
    rw [hone w t ht, hone x u hu]
  · exact absurd ht (hr.noProbe w t)

theorem step_sound (hg : ∀ w, (s.calls w).Sound cfg s.now) (hs : step cfg s a = some s') :
    ∀ w, (s'.calls w).Sound cfg s'.now := by
  cases step_cases hs with
  | advance ms =>
      intro w
      have := hg w
      show (s.calls w).Sound cfg (s.now + ms)
      cases hc : s.calls w <;> rw [hc] at this <;> simp only [Call.Sound] at this ⊢
      · omega
      · exact ⟨by omega, this.2⟩
      · omega
      · exact this
  | allow w hc =>
      exact State.forall_put (P := fun _ c => c.Sound cfg s.now) (le_refl s.now) fun x _ => hg x
  | reportFailed w probe hc =>
      exact State.forall_put (P := fun _ c => c.Sound cfg s.now) (le_refl s.now) fun x _ => hg x
  | probing w now hc hopen =>
      refine State.forall_put (P := fun _ c => c.Sound cfg s.now) ?_ fun x _ => hg x
      have := hg w
      rw [hc] at this
      exact ⟨this, rfl, hopen⟩
  | counted w now probe hc =>
      refine State.forall_put (P := fun _ c => c.Sound cfg s.now) ?_ fun x _ => hg x
      show (onFailure s.keys.read now cfg).1.state = _
      rw [onFailure_state, onFailure_failures]
  | _ => exact State.forall_put (P := fun _ c => c.Sound cfg s.now) trivial fun x _ => hg x

/-- What the step lemmas give, beside `step_sound`. -/
structure Kept (cfg : CircuitConfig) (s : State W) : Prop where
  count : s.keys.read.state ≠ .closed → cfg.openAfter ≤ (s.keys.read.failures : ℤ)
  chain : s.grants.IsChain (Spaced cfg)
  mode : (∃ h wonAt, Probing cfg s h wonAt) ∨ Resting s

/-! ### While a probe holds the key -/

omit [DecidableEq W] in
theorem Probing.not_closed (hp : Probing cfg s h wonAt) : s.keys.read.state ≠ .closed := by
  have hh := hp.holding
  intro hclosed
  cases hc : s.calls h <;> rw [hc] at hh <;> simp only [Call.Holding] at hh <;>
    rw [hclosed] at hh <;> exact absurd hh.1 (by decide)

/-- Another worker moves outside. -/
theorem Probing.put_other {c : Call} (hp : Probing cfg s h wonAt) (hw : w ≠ h)
    (hc : c.kind = .outside) : Probing cfg (s.put w c) h wonAt := by
  have hcall : (s.put w c).calls h = s.calls h := s.calls_put_of_ne c hw.symm
  refine ⟨by rw [hcall]; exact hp.kind, fun x hx => ?_, hp.key, hp.inTime, ?_⟩
  · by_cases hxw : x = w
    · subst hxw
      rw [State.calls_put_self]
      exact hc
    · rw [s.calls_put_of_ne c hxw]
      exact hp.others x hx
  · rw [hcall]
    exact hp.holding

/-- The holder moves, and the key stays its own. -/
theorem Probing.put_holder {c : Call} {t : State W} (hp : Probing cfg s h wonAt)
    (ht : t.calls = s.calls) (hnow : t.now = s.now) (hkey : t.keys.probe = s.keys.probe)
    (hc : c.kind = .probe wonAt) (hh : c.Holding cfg (t.put h c)) :
    Probing cfg (t.put h c) h wonAt := by
  refine ⟨by rw [State.calls_put_self]; exact hc, fun x hx => ?_, hkey.trans hp.key, ?_, ?_⟩
  · rw [t.calls_put_of_ne c hx, ht]
    exact hp.others x hx
  · show t.now < _
    rw [hnow]
    exact hp.inTime
  · rw [State.calls_put_self]
    exact hh

/-- The holder has let go of the key: every call is outside or left over. -/
theorem Probing.noProbe {c : Call} {t : State W} (hp : Probing cfg s h wonAt)
    (ht : t.calls = s.calls) (hc : ∀ u, c.kind ≠ .probe u) :
    ∀ x u, ((t.put h c).calls x).kind ≠ .probe u := by
  refine State.forall_put (P := fun _ c => ∀ u, c.kind ≠ .probe u) hc fun x hx u hu => ?_
  rw [ht, hp.others x hx] at hu
  cases hu

omit [DecidableEq W] in
/-- Time passes, and the key has not expired. -/
theorem Probing.advance {ms : ℕ} (hp : Probing cfg s h wonAt)
    (hlt : s.now + ms < wonAt + probeTtlMs) :
    Probing cfg { s with now := s.now + ms } h wonAt := by
  have hhold := hp.holding
  refine ⟨hp.kind, hp.others, hp.key, hlt, ?_⟩
  show (s.calls h).Holding cfg { s with now := s.now + ms }
  cases hc : s.calls h <;> rw [hc] at hhold <;> simp only [Call.Holding] at hhold ⊢
  · refine ⟨hhold.1, hhold.2.1, fun g hgr => ?_⟩
    have := hhold.2.2 g hgr
    push_cast
    omega
  · exact ⟨hhold.1, fun g hgr => le_trans (hhold.2 g hgr) (Nat.le_add_right _ _)⟩
  · exact ⟨hhold.1, fun g hgr => le_trans (hhold.2 g hgr) (Nat.le_add_right _ _)⟩
  · exact hhold
  · exact hhold
  · exact hhold

/-- The holder counts its failure: that opens the circuit again. -/
theorem Probing.counted {now : ℕ} {probe : Option ℕ} (hp : Probing cfg s h wonAt)
    (hg : Guarded cfg s) (hc : s.calls h = .failureGet now probe) :
    Probing cfg (s.put h (.failureSet (onFailure s.keys.read now cfg).1 probe)) h wonAt := by
  have hkind := hp.kind
  have hhold := hp.holding
  rw [hc] at hkind hhold
  obtain ⟨hhalf, hlast⟩ := hhold
  have hle : cfg.openAfter ≤ ((s.keys.read.failures + 1 : ℕ) : ℤ) := by
    have := hg.count (by rw [hhalf]; decide)
    push_cast
    omega
  refine hp.put_holder rfl rfl rfl hkind ⟨hhalf, ?_, fun g hgr => ?_⟩
  · rw [onFailure_state, if_pos hle]
  · rw [onFailure_openedAt hle]
    exact hlast g hgr

/-- A step while `h` holds the probe key. -/
theorem Probing.step (hp : Probing cfg s h wonAt) (hg : Guarded cfg s) (ht : InTime s a)
    (hs : Stepped cfg s a s') : Kept cfg s' := by
  have hkind := hp.kind
  have hhold := hp.holding
  -- a worker other than the holder only moves outside
  have hother : ∀ {w : W} {c : Call}, w ≠ h → c.kind = .outside → Kept cfg (s.put w c) :=
    fun hw hc => ⟨hg.count, hg.chain, .inl ⟨h, wonAt, hp.put_other hw hc⟩⟩
  have hself : ∀ {w : W}, (s.calls w).kind = .outside → w ≠ h := by
    rintro w hw rfl
    rw [hkind] at hw
    cases hw
  have hholder : ∀ {w : W}, (s.calls w).kind ≠ .outside → w = h := by
    intro w hw
    by_contra hne
    exact hw (hp.others w hne)
  cases hs with
  | advance ms => exact ⟨hg.count, hg.chain, .inl ⟨h, wonAt, hp.advance (ht h wonAt hkind)⟩⟩
  | allow w hc => exact hother (hself (by rw [hc]; rfl)) rfl
  | refused w now hc => exact hother (hself (by rw [hc]; rfl)) rfl
  | probing w now hc _ => exact hother (hself (by rw [hc]; rfl)) rfl
  | lost w now current next hc => exact hother (hself (by rw [hc]; rfl)) rfl
  | allowed w now hc hclosed => exact absurd hclosed hp.not_closed
  | won w now current next hc hfree =>
      exact absurd (hfree _ hp.key) (not_le.2 hp.inTime)
  | reportOk w probe hc =>
      obtain rfl : w = h := hholder (by rw [hc]; exact Kind.through_ne_outside probe)
      rw [hc] at hkind hhold
      exact ⟨hg.count, hg.chain, .inl ⟨w, wonAt, hp.put_holder rfl rfl rfl hkind hhold⟩⟩
  | reportFailed w probe hc =>
      obtain rfl : w = h := hholder (by rw [hc]; exact Kind.through_ne_outside probe)
      rw [hc] at hkind hhold
      exact ⟨hg.count, hg.chain, .inl ⟨w, wonAt, hp.put_holder rfl rfl rfl hkind hhold⟩⟩
  | granted w next t hc =>
      obtain rfl : w = h := hholder (by rw [hc]; simp [Call.kind])
      rw [hc] at hkind hhold
      obtain ⟨hopen, hnext, hspace⟩ := hhold
      refine ⟨fun _ => ?_, ?_, .inl ⟨w, wonAt, hp.put_holder rfl rfl rfl hkind ⟨?_, ?_⟩⟩⟩
      · show cfg.openAfter ≤ (next.failures : ℤ)
        rw [hnext]
        exact hg.count (by rw [hopen]; decide)
      · exact List.IsChain.cons hg.chain hspace
      · show next.state = .halfOpen
        rw [hnext]
      · intro g hgr
        cases hgr
        exact le_refl s.now
  | succeeded w probe hc =>
      obtain rfl : w = h := hholder (by rw [hc]; exact Kind.through_ne_outside probe)
      refine ⟨fun hne => absurd rfl hne, .nil,
        .inr ⟨hp.noProbe rfl (fun u hu => by cases hu), fun hh => ?_, fun g hgr => ?_,
          fun hne => absurd rfl hne⟩⟩
      · cases hh
      · cases hgr
  | cleared w probe hc =>
      rcases hc with hc | hc
      · obtain rfl : w = h := hholder (by rw [hc]; simp [Call.kind])
        rw [hc] at hkind
        cases hkind
      · obtain rfl : w = h := hholder (by rw [hc]; exact Kind.through_ne_outside probe)
        rw [hc] at hhold
        obtain ⟨hopen, hlast⟩ := hhold
        refine ⟨hg.count, hg.chain, .inr ⟨hp.noProbe rfl (fun u hu => by cases hu), ?_,
          fun g hgr => ⟨hopen, hlast g hgr⟩, fun _ => ?_⟩⟩
        · show s.keys.read.state ≠ .halfOpen
          rw [hopen]
          decide
        · exact State.forall_put (P := fun _ c => c.kind = .outside) rfl hp.others
  | counted w now probe hc =>
      obtain rfl : w = h := hholder (by rw [hc]; exact Kind.through_ne_outside probe)
      exact ⟨hg.count, hg.chain, .inl ⟨w, wonAt, hp.counted hg hc⟩⟩
  | failed w next probe hc =>
      obtain rfl : w = h := hholder (by rw [hc]; exact Kind.through_ne_outside probe)
      have hsound := hg.sound w
      rw [hc] at hkind hhold hsound
      obtain ⟨-, hopen, hlast⟩ := hhold
      refine ⟨fun _ => ?_, hg.chain,
        .inl ⟨w, wonAt, hp.put_holder rfl rfl rfl hkind ⟨hopen, hlast⟩⟩⟩
      show cfg.openAfter ≤ (next.failures : ℤ)
      by_contra hlt
      rw [show next.state = _ from hsound, if_neg hlt] at hopen
      cases hopen

/-! ### While nobody holds the key -/

omit [DecidableEq W] in
/-- A call is left over only as long as no probe has been let through. -/
theorem Resting.grants_nil (hr : Resting s) (hw : (s.calls w).kind = .leftOver) :
    s.grants = [] := by
  by_contra hne
  rw [hr.outside hne w] at hw
  cases hw

omit [DecidableEq W] in
/-- As long as the circuit is closed no probe has been let through. -/
theorem Resting.grants_nil_of_closed (hr : Resting s) (hc : s.keys.read.state = .closed) :
    s.grants = [] := by
  rw [← List.head?_eq_none_iff, Option.eq_none_iff_forall_not_mem]
  intro g hgr
  rw [(hr.opened g hgr).1] at hc
  cases hc

/-- A worker moves outside, or is left over before the first probe. -/
theorem Resting.put {c : Call} (hr : Resting s)
    (hc : c.kind = .outside ∨ c.kind = .leftOver ∧ s.grants = []) : Resting (s.put w c) := by
  refine ⟨?_, hr.not_halfOpen, hr.opened, fun hne => ?_⟩
  · refine State.forall_put (P := fun _ c => ∀ u, c.kind ≠ .probe u) (fun u hu => ?_)
      fun x _ => hr.noProbe x
    rcases hc with hc | hc
    · rw [hc] at hu
      cases hu
    · rw [hc.1] at hu
      cases hu
  · exact State.forall_put (P := fun _ c => c.kind = .outside)
      (hc.resolve_right fun hc => hne hc.2) fun x _ => hr.outside hne x

/-- A worker writes a snapshot before the first probe. -/
theorem Resting.write {c : Call} {t : State W} (hr : Resting s) (ht : t.calls = s.calls)
    (hgr : t.grants = []) (hhalf : t.keys.read.state ≠ .halfOpen) (hc : c.kind = .leftOver) :
    Resting (t.put w c) := by
  refine ⟨?_, hhalf, fun g hg => ?_, fun hne => absurd hgr hne⟩
  · refine State.forall_put (P := fun _ c => ∀ u, c.kind ≠ .probe u) (fun u hu => ?_)
      fun x _ u hu => ?_
    · rw [hc] at hu
      cases hu
    · rw [ht] at hu
      exact hr.noProbe x u hu
  · rw [State.grants_put, hgr] at hg
    cases hg

/-- A `SET NX` wins the key, on the snapshot of an open circuit whose cooldown is over. -/
theorem Resting.won {now : ℕ} {current next : CircuitSnapshot} (hr : Resting s)
    (hg : Guarded cfg s) (hf : Fresh s (.command w)) (hc : s.calls w = .allowNx now current next)
    (hfree : ∀ t ∈ s.keys.probe, t ≤ s.now) :
    Probing cfg ({ s with keys := { s.keys with probe := some (s.now + probeTtlMs) } }.put w
      (.allowSet next s.now)) w s.now := by
  have hsound := hg.sound w
  rw [hc] at hsound
  obtain ⟨hle, hnext, hopen⟩ := hsound
  have htaken : s.keys.probeTaken s.now = false := by
    rw [Keys.probeTaken, Option.any_eq_false_iff_get]
    intro hsome
    simpa using hfree _ (Option.get_mem hsome)
  obtain ⟨hcur, hnone⟩ := hf now current next hc htaken
  have hopened : s.keys.read.state = .opened ∧ s.keys.read.openedAt + cfg.cooldownMs ≤ now := by
    rw [← hcur] at hopen
    exact hopen.resolve_left hr.not_halfOpen
  refine ⟨?_, fun x hx => ?_, rfl, ?_, ?_⟩
  · rw [State.calls_put_self]
    rfl
  · rw [State.calls_put_of_ne _ _ hx]
    show (s.calls x).kind = .outside
    cases hk : (s.calls x).kind with
    | outside => rfl
    | probe t => exact absurd hk (hr.noProbe x t)
    | leftOver => exact absurd hk (hnone x)
  · exact Nat.lt_add_of_pos_right (by decide)
  · rw [State.calls_put_self]
    refine ⟨hopened.1, hnext.trans (by rw [← hcur]; rfl), fun g hgr => ?_⟩
    have hlast := (hr.opened g hgr).2
    show (g : ℤ) + cfg.cooldownMs ≤ s.now
    have := hopened.2
    omega

/-- A step while nobody holds the probe key. -/
theorem Resting.step (hr : Resting s) (hg : Guarded cfg s) (hf : Fresh s a)
    (hs : Stepped cfg s a s') : Kept cfg s' := by
  have houtside : ∀ {w : W} {c : Call}, c.kind = .outside → Kept cfg (s.put w c) :=
    fun hc => ⟨hg.count, hg.chain, .inr (hr.put (.inl hc))⟩
  have hreport : ∀ {w : W} {c : Call}, (s.calls w).kind = .leftOver → c.kind = .leftOver →
      Kept cfg (s.put w c) := fun hw hc =>
    ⟨hg.count, hg.chain, .inr (hr.put (.inr ⟨hc, hr.grants_nil hw⟩))⟩
  -- a report is one of a call that is left over
  have hleft : ∀ {w : W} {probe : Option ℕ}, (s.calls w).kind = .through probe → probe = none := by
    intro w probe hw
    cases probe with
    | none => rfl
    | some t => exact absurd hw (hr.noProbe w t)
  cases hs with
  | advance ms =>
      exact ⟨hg.count, hg.chain, .inr ⟨hr.noProbe, hr.not_halfOpen, hr.opened, hr.outside⟩⟩
  | allow w hc => exact houtside rfl
  | refused w now hc => exact houtside rfl
  | probing w now hc _ => exact houtside rfl
  | lost w now current next hc => exact houtside rfl
  | allowed w now hc hclosed =>
      exact ⟨hg.count, hg.chain, .inr (hr.put (.inr ⟨rfl, hr.grants_nil_of_closed hclosed⟩))⟩
  | won w now current next hc hfree =>
      exact ⟨hg.count, hg.chain, .inl ⟨w, s.now, hr.won hg hf hc hfree⟩⟩
  | reportOk w probe hc =>
      obtain rfl := hleft (w := w) (by rw [hc]; rfl)
      exact hreport (by rw [hc]; rfl) rfl
  | reportFailed w probe hc =>
      obtain rfl := hleft (w := w) (by rw [hc]; rfl)
      exact hreport (by rw [hc]; rfl) rfl
  | granted w next t hc => exact absurd (by rw [hc]; rfl) (hr.noProbe w t)
  | succeeded w probe hc =>
      exact ⟨fun hne => absurd rfl hne, .nil, .inr (hr.write rfl rfl (fun hh => by cases hh) rfl)⟩
  | cleared w probe hc =>
      exact ⟨hg.count, hg.chain, .inr
        (Resting.put ⟨hr.noProbe, hr.not_halfOpen, hr.opened, hr.outside⟩ (.inl rfl))⟩
  | counted w now probe hc =>
      obtain rfl := hleft (w := w) (by rw [hc]; rfl)
      exact hreport (by rw [hc]; rfl) rfl
  | failed w next probe hc =>
      obtain rfl := hleft (w := w) (by rw [hc]; rfl)
      have hsound := hg.sound w
      rw [hc] at hsound
      have hstate : next.state = if cfg.openAfter ≤ (next.failures : ℤ) then .opened else .closed :=
        hsound
      have hnil : s.grants = [] := hr.grants_nil (w := w) (by rw [hc]; rfl)
      refine ⟨fun hne => ?_, hg.chain, .inr (hr.write rfl hnil ?_ rfl)⟩
      · show cfg.openAfter ≤ (next.failures : ℤ)
        by_contra hlt
        rw [if_neg hlt] at hstate
        exact hne hstate
      · show next.state ≠ .halfOpen
        rw [hstate]
        split_ifs <;> decide

/-! ## One probe per cooldown -/

/-- **One step** in time and with a fresh snapshot keeps the invariant. -/
theorem step_guarded (hg : Guarded cfg s) (ht : InTime s a) (hf : Fresh s a)
    (hs : step cfg s a = some s') : Guarded cfg s' := by
  have hsound := step_sound hg.sound hs
  have hkept : Kept cfg s' := by
    rcases hg.mode with ⟨h, wonAt, hp⟩ | hr
    · exact hp.step hg ht (step_cases hs)
    · exact hr.step hg hf (step_cases hs)
  exact ⟨hsound, hkept.count, hkept.chain, hkept.mode⟩

/-- **When there is at most one probe per cooldown.**  In every run in which each probe
reports before its key expires and each `SET NX` that wins finds the snapshot its `GET` read
and no call left over, no two probes are outstanding at once and consecutive ones are a
cooldown apart, in every state. -/
theorem one_probe_per_cooldown (cfg : CircuitConfig) (s : State W)
    (h : Path (step cfg) (fun s a => InTime s a ∧ Fresh s a) init s) : OneProbe cfg s :=
  (h.invariant (fun _ _ _ hI hP hs => step_guarded hI hP.1 hP.2 hs) guarded_init).oneProbe

/-! ## Replaying runs of two workers -/

/-- A probe of this kind may still be outstanding at a time. -/
def Kind.inTime (later : ℕ) : Kind → Bool
  | .probe t => later < t + probeTtlMs
  | _ => true

/-- `InTime`, computed for two workers. -/
def inTime (s : State ℕ) : Action ℕ → Bool
  | .advance ms => (s.calls 0).kind.inTime (s.now + ms) && (s.calls 1).kind.inTime (s.now + ms)
  | _ => true

/-- `Fresh`, computed for two workers. -/
def fresh (s : State ℕ) : Action ℕ → Bool
  | .command w =>
      match s.calls w with
      | .allowNx _ current _ => s.keys.probeTaken s.now ||
          (s.keys.read = current && (s.calls 0).kind ≠ .leftOver && (s.calls 1).kind ≠ .leftOver)
      | _ => true
  | _ => true

/-- A property of kinds that holds of the two workers and outside holds of all. -/
theorem OnlyTwo.forall_kind {s : State ℕ} {P : Kind → Prop} (h : OnlyTwo s) (hout : P .outside)
    (h0 : P (s.calls 0).kind) (h1 : P (s.calls 1).kind) (w : ℕ) : P (s.calls w).kind := by
  rcases Nat.lt_or_ge w 2 with hw | hw
  · interval_cases w
    · exact h0
    · exact h1
  · rw [h w hw]
    exact hout

theorem inTime_sound {s : State ℕ} {a : Action ℕ} (hs : OnlyTwo s) (h : inTime s a = true) :
    InTime s a := by
  cases a with
  | advance ms =>
      rw [inTime, Bool.and_eq_true] at h
      intro w t ht
      have := hs.forall_kind (P := fun k => k.inTime (s.now + ms) = true) rfl h.1 h.2 w
      rw [ht] at this
      exact of_decide_eq_true this
  | _ => trivial

theorem fresh_sound {s : State ℕ} {a : Action ℕ} (hs : OnlyTwo s) (h : fresh s a = true) :
    Fresh s a := by
  cases a with
  | command w =>
      intro now current next hc hfree
      simp only [fresh, hc, hfree, Bool.false_or, Bool.and_eq_true, decide_eq_true_eq] at h
      exact ⟨h.1.1, hs.forall_kind (P := fun k => k ≠ .leftOver) (by decide) h.1.2 h.2⟩
  | _ => trivial

/-- The first attempt fails, which opens the circuit; then the cooldown passes. -/
def cooledDown : List (Action ℕ) :=
  [.allow 0, .command 0, .report 0 false, .command 0, .command 0, .command 0, .advance 10]

/-- Worker `0` is let through as a probe, and fails. -/
def failingProbe : List (Action ℕ) :=
  [.allow 0, .command 0, .command 0, .command 0, .report 0 false, .command 0, .command 0,
    .command 0]

/-- Two probes, one after the other, with a cooldown between them. -/
theorem one_probe_per_cooldown_in_turn : ∃ s : State ℕ,
    Path (step ⟨1, 10, 50⟩) (fun s a => InTime s a ∧ Fresh s a) init s ∧ s.grants = [20, 10] ∧
    OneProbe ⟨1, 10, 50⟩ s := by
  obtain ⟨s, hpath, hs⟩ := Path.exists_of_runChecked_along (step ⟨1, 10, 50⟩) (J := OnlyTwo)
    (P := fun s a => InTime s a ∧ Fresh s a) (p := fun s a => byTwo a && (inTime s a && fresh s a))
    (fun s a hs ha => by
      rw [Bool.and_eq_true, Bool.and_eq_true] at ha
      exact ⟨inTime_sound hs ha.2.1, fresh_sound hs ha.2.2⟩)
    (fun s a s' hs ha => step_onlyTwo hs (by
      rw [Bool.and_eq_true] at ha
      exact ha.1))
    init (fun _ _ => rfl) (cooledDown ++ failingProbe ++ [.advance 10] ++ failingProbe)
    (fun s => s.grants = [20, 10]) (by decide +kernel)
  exact ⟨s, hpath, by simpa using hs, one_probe_per_cooldown ⟨1, 10, 50⟩ s hpath⟩

/-- Worker `1` reads the open circuit, worker `0` probes and fails, and then worker `1` goes
on with what it read: two probes in the same cooldown. -/
theorem two_probes_after_stale_read : ¬ (∀ s : State ℕ, Path (step ⟨1, 10, 50⟩) InTime init s →
    OneProbe ⟨1, 10, 50⟩ s) := by
  intro h
  obtain ⟨s, hpath, hs⟩ := Path.exists_of_runChecked_along (step ⟨1, 10, 50⟩) (J := OnlyTwo)
    (P := InTime) (p := fun s a => byTwo a && inTime s a)
    (fun s a hs ha => by
      rw [Bool.and_eq_true] at ha
      exact inTime_sound hs ha.2)
    (fun s a s' hs ha => step_onlyTwo hs (by
      rw [Bool.and_eq_true] at ha
      exact ha.1))
    init (fun _ _ => rfl)
    (cooledDown ++ [.allow 1, .command 1] ++ failingProbe ++ [.command 1, .command 1])
    (fun s => s.grants = [10, 10]) (by decide +kernel)
  have hchain := (h s hpath).2
  rw [show s.grants = [10, 10] by simpa using hs] at hchain
  have hspaced : Spaced ⟨1, 10, 50⟩ 10 10 := (List.isChain_cons_cons.1 hchain).1
  exact absurd hspaced (show ¬ ((10 : ℕ) : ℤ) + 10 ≤ (10 : ℕ) by decide)

end Circuit
end HookRelay
