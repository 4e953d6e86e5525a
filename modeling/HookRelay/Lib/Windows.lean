import Mathlib.Tactic

/-!
# Fixed windows that open with an arrival

Things arrive at times that do not go back.  A window opens at the first arrival at which
none is open, and is open for a fixed length, whatever arrives in it.  Lists of arrivals
have the latest first.

* `windowOf`, `stamped` — each arrival with the start of its window.
* `arrivalsIn` — how many arrivals there were in a window.
* `Admits` — a rule that accepts an arrival exactly when fewer than `cap` came before it in
  its window.  `Admits.eq_of_times`: what it accepts depends on the times alone.
* `Admits.countP_interval_le` — in any interval as long as a window at most `2 * cap`
  arrivals are accepted: it meets no more than two windows.
-/

namespace Lib
namespace Windows

variable {α β : Type*}

/-- The start of the window that an arrival at `t` falls in, where `last` is the start of
the window that was opened last. -/
def windowOf (len : ℕ) (last : Option ℕ) (t : ℕ) : ℕ :=
  (last.filter fun w => decide (t < w + len)).getD t

/-- Each arrival with the start of its window. -/
def stamped (len : ℕ) (time : α → ℕ) : List α → List (α × ℕ)
  | [] => []
  | a :: as =>
      (a, windowOf len ((stamped len time as).head?.map Prod.snd) (time a)) :: stamped len time as

/-- The start of the window that was opened last. -/
def lastWindow (len : ℕ) (time : α → ℕ) (as : List α) : Option ℕ :=
  (stamped len time as).head?.map Prod.snd

/-- How many arrivals there were in a window. -/
def arrivalsIn (len : ℕ) (time : α → ℕ) (as : List α) (w : ℕ) : ℕ :=
  (stamped len time as).countP fun p => p.2 = w

/-- The times do not go back. -/
def InOrder (time : α → ℕ) (as : List α) : Prop :=
  as.Pairwise fun later earlier => time earlier ≤ time later

/-- What is accepted is what comes in a window in which fewer than `cap` came before. -/
def Admits (len cap : ℕ) (time : α → ℕ) (accepted : α → Bool) (as : List α) : Prop :=
  ∀ later a earlier, as = later ++ a :: earlier →
    (accepted a = true ↔
      arrivalsIn len time earlier (windowOf len (lastWindow len time earlier) (time a)) < cap)

variable {len cap : ℕ} {time : α → ℕ} {as : List α} {a : α} {last : Option ℕ} {t : ℕ}

/-! ## Windows -/

/-- An arrival opens a window, or falls in the one that is open. -/
theorem windowOf_cases (len : ℕ) (last : Option ℕ) (t : ℕ) :
    windowOf len last t = t ∧ (∀ w ∈ last, w + len ≤ t) ∨
      ∃ w ∈ last, t < w + len ∧ windowOf len last t = w := by
  cases last with
  | none => exact .inl ⟨rfl, by simp⟩
  | some w =>
      by_cases h : t < w + len
      · exact .inr ⟨w, rfl, h, by simp [windowOf, Option.filter, h]⟩
      · exact .inl ⟨by simp [windowOf, Option.filter, h], by simpa using h⟩

theorem stamped_cons (len : ℕ) (time : α → ℕ) (a : α) (as : List α) :
    stamped len time (a :: as) =
      (a, windowOf len (lastWindow len time as) (time a)) :: stamped len time as := rfl

@[simp] theorem lastWindow_cons :
    lastWindow len time (a :: as) = some (windowOf len (lastWindow len time as) (time a)) := rfl

theorem map_fst_stamped (len : ℕ) (time : α → ℕ) (as : List α) :
    (stamped len time as).map Prod.fst = as := by
  induction as with
  | nil => rfl
  | cons a as ih => rw [stamped_cons, List.map_cons, ih]

theorem arrivalsIn_cons (w : ℕ) : arrivalsIn len time (a :: as) w =
    arrivalsIn len time as w + if windowOf len (lastWindow len time as) (time a) = w then 1 else 0 := by
  unfold arrivalsIn
  rw [stamped_cons, List.countP_cons]
  simp

/-- The window opened last starts with an arrival. -/
theorem exists_of_mem_lastWindow {w : ℕ} (h : w ∈ lastWindow len time as) :
    ∃ a ∈ as, time a = w := by
  induction as generalizing w with
  | nil => exact absurd h (by simp [lastWindow, stamped])
  | cons a as ih =>
      rw [lastWindow_cons, Option.mem_def, Option.some.injEq] at h
      subst h
      rcases windowOf_cases len (lastWindow len time as) (time a) with ⟨heq, -⟩ | ⟨w, hw, -, heq⟩
      · exact ⟨a, List.mem_cons_self, heq.symm⟩
      · obtain ⟨b, hb, hbw⟩ := ih hw
        exact ⟨b, List.mem_cons_of_mem _ hb, by rw [hbw, heq]⟩

/-- Two windows are the same, or the later one starts when the other has ended. -/
theorem pairwise_stamped (len : ℕ) (time : α → ℕ) (as : List α) :
    (stamped len time as).Pairwise fun later earlier =>
      earlier.2 = later.2 ∨ earlier.2 + len ≤ later.2 := by
  induction as with
  | nil => exact .nil
  | cons a as ih =>
      rw [stamped_cons, List.pairwise_cons]
      refine ⟨fun p hp => ?_, ih⟩
      cases hs : stamped len time as with
      | nil => rw [hs] at hp; cases hp
      | cons q qs =>
          have hlast : lastWindow len time as = some q.2 := by rw [lastWindow, hs]; rfl
          -- `p` is in the last window or before it
          have hpq : p.2 = q.2 ∨ p.2 + len ≤ q.2 := by
            rw [hs, List.pairwise_cons] at ih
            rw [hs] at hp
            rcases List.mem_cons.1 hp with rfl | hp
            · exact .inl rfl
            · exact ih.1 p hp
          rcases windowOf_cases len (lastWindow len time as) (time a) with
            ⟨heq, hall⟩ | ⟨w, hw, -, heq⟩
          · have := hall q.2 (by rw [hlast]; rfl)
            rw [heq]
            simp only
            omega
          · rw [hlast, Option.mem_def, Option.some.injEq] at hw
            rw [heq, ← hw]
            exact hpq

/-- Any two windows are the same or do not overlap. -/
theorem stamped_separate {p q : α × ℕ} (hp : p ∈ stamped len time as) (hq : q ∈ stamped len time as) :
    p.2 = q.2 ∨ p.2 + len ≤ q.2 ∨ q.2 + len ≤ p.2 := by
  have hpw := pairwise_stamped len time as
  generalize stamped len time as = l at hp hq hpw
  induction l with
  | nil => cases hp
  | cons r rs ih =>
      obtain ⟨hhead, htail⟩ := List.pairwise_cons.1 hpw
      rcases List.mem_cons.1 hp with hpr | hpr <;> rcases List.mem_cons.1 hq with hqr | hqr
      · exact .inl (by rw [hpr, hqr])
      · have := hhead q hqr
        rw [hpr]
        omega
      · have := hhead p hpr
        rw [hqr]
        omega
      · exact ih hpr hqr htail

/-- An arrival is in its window. -/
theorem mem_stamped (hlen : 0 < len) (ho : InOrder time as) {p : α × ℕ}
    (hp : p ∈ stamped len time as) : p.2 ≤ time p.1 ∧ time p.1 < p.2 + len := by
  induction as with
  | nil => cases hp
  | cons a as ih =>
      obtain ⟨hhead, htail⟩ := List.pairwise_cons.1 ho
      rw [stamped_cons] at hp
      rcases List.mem_cons.1 hp with rfl | hp
      · simp only
        rcases windowOf_cases len (lastWindow len time as) (time a) with ⟨heq, -⟩ | ⟨w, hw, hlt, heq⟩
        · omega
        · obtain ⟨b, hb, hbw⟩ := exists_of_mem_lastWindow hw
          have := hhead b hb
          omega
      · exact ih htail hp

/-- A window that an arrival opens is a new one. -/
theorem arrivalsIn_of_lt (hlen : 0 < len) {w : ℕ} (h : ∀ v ∈ lastWindow len time as, v + len ≤ w) :
    arrivalsIn len time as w = 0 := by
  unfold arrivalsIn
  rw [List.countP_eq_zero]
  intro p hp
  have hpw := pairwise_stamped len time as
  cases hs : stamped len time as with
  | nil => rw [hs] at hp; cases hp
  | cons q qs =>
      have hq := h q.2 (by rw [lastWindow, hs]; rfl)
      rw [hs] at hp hpw
      have hle : p.2 ≤ q.2 := by
        rcases List.mem_cons.1 hp with rfl | hp
        · exact le_refl _
        · rcases (List.pairwise_cons.1 hpw).1 p hp with heq | hle <;> omega
      simp only [decide_eq_true_eq]
      omega

/-- There is an arrival in the window opened last. -/
theorem arrivalsIn_pos {w : ℕ} (h : w ∈ lastWindow len time as) : 0 < arrivalsIn len time as w := by
  unfold arrivalsIn
  rw [List.countP_pos_iff]
  cases hs : stamped len time as with
  | nil => rw [lastWindow, hs] at h; cases h
  | cons q qs =>
      rw [lastWindow, hs] at h
      exact ⟨q, List.mem_cons_self, by simpa using h⟩

/-! ## Accepting up to a cap -/

variable {accepted : α → Bool}

theorem Admits.head (h : Admits len cap time accepted (a :: as)) :
    accepted a = true ↔
      arrivalsIn len time as (windowOf len (lastWindow len time as) (time a)) < cap :=
  h [] a as rfl

theorem Admits.tail (h : Admits len cap time accepted (a :: as)) :
    Admits len cap time accepted as := by
  intro later b earlier heq
  exact h (a :: later) b earlier (by rw [heq]; rfl)

theorem admits_nil : Admits len cap time accepted [] := by
  intro later b earlier h
  exact absurd h (by simp)

theorem admits_cons (h : Admits len cap time accepted as)
    (ha : accepted a = true ↔
      arrivalsIn len time as (windowOf len (lastWindow len time as) (time a)) < cap) :
    Admits len cap time accepted (a :: as) := by
  intro later b earlier heq
  cases later with
  | nil =>
      obtain ⟨rfl, rfl⟩ := List.cons.inj heq
      exact ha
  | cons c later => exact h later b earlier (List.cons.inj heq).2

/-- Windows depend on the times alone. -/
theorem stamps_eq_of_times {time' : β → ℕ} {bs : List β} (heq : as.map time = bs.map time') :
    (stamped len time as).map Prod.snd = (stamped len time' bs).map Prod.snd := by
  induction as generalizing bs with
  | nil => rw [List.map_eq_nil_iff.1 heq.symm]; rfl
  | cons a as ih =>
      cases bs with
      | nil => cases heq
      | cons b bs =>
          obtain ⟨htime, hrest⟩ := List.cons.inj heq
          have hlast : lastWindow len time as = lastWindow len time' bs := by
            rw [lastWindow, lastWindow, ← List.head?_map, ← List.head?_map, ih hrest]
          rw [stamped_cons, stamped_cons, List.map_cons, List.map_cons, ih hrest, hlast, htime]

theorem lastWindow_eq_of_times {time' : β → ℕ} {bs : List β} (heq : as.map time = bs.map time') :
    lastWindow len time as = lastWindow len time' bs := by
  rw [lastWindow, lastWindow, ← List.head?_map, ← List.head?_map, stamps_eq_of_times heq]

theorem arrivalsIn_eq_of_times {time' : β → ℕ} {bs : List β} (heq : as.map time = bs.map time')
    (w : ℕ) : arrivalsIn len time as w = arrivalsIn len time' bs w := by
  have hstamps : (stamped len time as).map Prod.snd = (stamped len time' bs).map Prod.snd :=
    stamps_eq_of_times heq
  have h := congrArg (List.countP fun v => decide (v = w)) hstamps
  rw [List.countP_map, List.countP_map] at h
  exact h

/-- What is accepted depends on the times alone. -/
theorem Admits.eq_of_times {time' : β → ℕ} {accepted' : β → Bool} {bs : List β}
    (h : Admits len cap time accepted as) (h' : Admits len cap time' accepted' bs)
    (heq : as.map time = bs.map time') : as.map accepted = bs.map accepted' := by
  induction as generalizing bs with
  | nil => rw [List.map_eq_nil_iff.1 heq.symm]; rfl
  | cons a as ih =>
      cases bs with
      | nil => cases heq
      | cons b bs =>
          obtain ⟨htime, hrest⟩ := List.cons.inj heq
          have hab : accepted a = accepted' b := by
            rw [Bool.eq_iff_iff, h.head, h'.head, lastWindow_eq_of_times hrest, htime,
              arrivalsIn_eq_of_times hrest]
          rw [List.map_cons, List.map_cons, hab, ih h.tail h'.tail hrest]

/-- No window has more than `cap` accepted arrivals. -/
theorem Admits.countP_window_le (h : Admits len cap time accepted as) (w : ℕ) :
    (stamped len time as).countP (fun p => accepted p.1 && decide (p.2 = w)) ≤
      min cap (arrivalsIn len time as w) := by
  induction as with
  | nil => simp [stamped]
  | cons a as ih =>
      have ih := ih h.tail
      have ha := h.head
      rw [arrivalsIn_cons, stamped_cons, List.countP_cons]
      by_cases hw : windowOf len (lastWindow len time as) (time a) = w
      · rw [hw] at ha
        cases hacc : accepted a with
        | false => simp only [Bool.false_and, Bool.false_eq_true, if_false]; omega
        | true =>
            have := ha.1 hacc
            simp only [hw, decide_true, Bool.and_self, if_true]
            omega
      · simp only [hw, decide_false, Bool.and_false, Bool.false_eq_true, if_false]
        omega

/-- A list whose members carry one of two marks is no longer than the two counts. -/
theorem length_le_of_two {l : List (α × ℕ)} {v w : ℕ} (h : ∀ p ∈ l, p.2 = v ∨ p.2 = w) :
    l.length ≤ l.countP (fun p => p.2 = v) + l.countP fun p => p.2 = w := by
  induction l with
  | nil => simp
  | cons p l ih =>
      have ih := ih fun q hq => h q (List.mem_cons_of_mem _ hq)
      rw [List.length_cons, List.countP_cons, List.countP_cons]
      rcases h p List.mem_cons_self with hp | hp
      · simp only [hp, decide_true, if_true]; omega
      · simp only [hp, decide_true, if_true]; omega

/-- **An interval as long as a window has at most `2 * cap` accepted arrivals**, both of its
ends included. -/
theorem Admits.countP_interval_le (hlen : 0 < len) (ho : InOrder time as)
    (h : Admits len cap time accepted as) (x : ℕ) :
    as.countP (fun a => accepted a && decide (x ≤ time a ∧ time a ≤ x + len)) ≤ 2 * cap := by
  -- the accepted arrivals in the interval, with their windows
  obtain ⟨l, hl⟩ : ∃ l, l = (stamped len time as).filter fun p =>
      accepted p.1 && decide (x ≤ time p.1 ∧ time p.1 ≤ x + len) := ⟨_, rfl⟩
  have hlength : as.countP (fun a => accepted a && decide (x ≤ time a ∧ time a ≤ x + len)) =
      l.length := by
    rw [hl, ← List.countP_eq_length_filter]
    conv_lhs => rw [← map_fst_stamped len time as]
    rw [List.countP_map]
    rfl
  have hcap : ∀ w, l.countP (fun p => decide (p.2 = w)) ≤ cap := by
    intro w
    rw [hl, List.countP_filter]
    refine le_trans (List.countP_mono_left ?_) (le_trans (h.countP_window_le w) (min_le_left _ _))
    intro p _ hp
    simp only [Bool.and_eq_true, decide_eq_true_eq] at hp ⊢
    exact ⟨hp.2.1, hp.1⟩
  have hmem : ∀ p ∈ l, p ∈ stamped len time as ∧ x ≤ time p.1 ∧ time p.1 ≤ x + len := by
    intro p hp
    rw [hl, List.mem_filter, Bool.and_eq_true, decide_eq_true_eq] at hp
    exact ⟨hp.1, hp.2.2⟩
  have hsep : ∀ p ∈ l, ∀ q ∈ l, p.2 = q.2 ∨ p.2 + len ≤ q.2 ∨ q.2 + len ≤ p.2 :=
    fun p hp q hq => stamped_separate (hmem p hp).1 (hmem q hq).1
  rw [hlength]
  -- two windows that occur cover all of them, since three are longer than the interval
  obtain ⟨v, w, hvw⟩ : ∃ v w, ∀ p ∈ l, p.2 = v ∨ p.2 = w := by
    by_cases hone : ∀ p ∈ l, ∀ q ∈ l, p.2 = q.2
    · cases l with
      | nil => exact ⟨0, 0, fun p hp => absurd hp (by simp)⟩
      | cons p l => exact ⟨p.2, p.2, fun q hq => .inl (hone q hq p List.mem_cons_self)⟩
    · simp only [not_forall] at hone
      obtain ⟨p, hp, q, hq, hne⟩ := hone
      refine ⟨p.2, q.2, fun r hr => ?_⟩
      have hpin := mem_stamped hlen ho (hmem p hp).1
      have hqin := mem_stamped hlen ho (hmem q hq).1
      have hrin := mem_stamped hlen ho (hmem r hr).1
      have hpx := (hmem p hp).2
      have hqx := (hmem q hq).2
      have hrx := (hmem r hr).2
      have hpq := hsep p hp q hq
      have hpr := hsep p hp r hr
      have hqr := hsep q hq r hr
      omega
  have hle := length_le_of_two hvw
  have hv := hcap v
  have hw := hcap w
  omega

end Windows

end Lib
