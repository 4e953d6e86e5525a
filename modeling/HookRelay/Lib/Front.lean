import Mathlib.Data.Finset.Card
import Mathlib.Data.List.Sort
import Mathlib.Tactic

/-!
# Taking numbers from the front

Numbered things wait until somebody takes them off, a batch at a time and the smallest numbers
first.  A batch is a list of numbers that was read some time ago; others may have taken some
of them since.

* `Front` — a batch in order that leaves out nothing that waits below one of its members.
* `Front.of_append`, `Front.mono` — a prefix of a batch is a batch, and it stays one while
  numbers are taken off and larger ones come in.
* `front_take` — the first numbers of a sorted list are a batch.
* `Front.card_outside_add_le` — a batch of `n` leaves `n` fewer waiting up to a number that it
  has no room for.
-/

namespace Lib

/-- The list is in order, and what waits below one of its members is a member. -/
structure Front (waits : ℕ → Prop) (l : List ℕ) : Prop where
  sorted : l.Pairwise (· < ·)
  closed : ∀ x ∈ l, ∀ i, waits i → i < x → i ∈ l

variable {waits waits' : ℕ → Prop} {l r : List ℕ} {x i : ℕ}

theorem Front.nil : Front waits [] := ⟨.nil, fun _ h => by cases h⟩

/-- What comes before a member in a batch is all that waits below it. -/
theorem Front.mem_left (h : Front waits (l ++ x :: r)) (hi : waits i) (hlt : i < x) : i ∈ l := by
  have hmem := h.closed x (by simp) i hi hlt
  rcases List.mem_append.1 hmem with hmem | hmem
  · exact hmem
  · rcases List.mem_cons.1 hmem with rfl | hmem
    · exact absurd hlt (lt_irrefl _)
    · have := (List.pairwise_append.1 h.sorted).2.1
      have hxi := (List.pairwise_cons.1 this).1 i hmem
      exact absurd hlt (not_lt.2 hxi.le)

theorem Front.of_append (h : Front waits (l ++ r)) : Front waits l := by
  obtain ⟨hl, -, hlr⟩ := List.pairwise_append.1 h.sorted
  refine ⟨hl, fun x hx i hi hlt => ?_⟩
  rcases List.mem_append.1 (h.closed x (List.mem_append_left _ hx) i hi hlt) with hmem | hmem
  · exact hmem
  · exact absurd hlt (not_lt.2 (hlr x hx i hmem).le)

/-- Numbers are taken off, and larger ones come in. -/
theorem Front.mono (h : Front waits l)
    (hw : ∀ i, waits' i → waits i ∨ ∀ x ∈ l, x < i) : Front waits' l := by
  refine ⟨h.sorted, fun x hx i hi hlt => ?_⟩
  rcases hw i hi with hi | hi
  · exact h.closed x hx i hi hlt
  · exact absurd hlt (not_lt.2 (hi x hx).le)

theorem front_take {xs : List ℕ} (hs : xs.Pairwise (· < ·)) (hw : ∀ i, waits i → i ∈ xs) (n : ℕ) :
    Front waits (xs.take n) := by
  have hall : Front waits (xs.take n ++ xs.drop n) := by
    rw [List.take_append_drop]
    exact ⟨hs, fun _ _ i hi _ => hw i hi⟩
  exact hall.of_append

/-- When `x` waits and a batch of `n` has no room for it, the batch leaves `n` fewer waiting up
to `x`. -/
theorem Front.card_outside_add_le {P : Finset ℕ} {n : ℕ} (h : Front (· ∈ P) l)
    (hsub : ∀ i ∈ l, i ∈ P) (hfull : n ≤ l.length ∨ ∀ i ∈ P, i ∈ l) (hx : x ∈ P) (hxl : x ∉ l) :
    (P.filter fun i => i ≤ x ∧ i ∉ l).card + n ≤ (P.filter (· ≤ x)).card := by
  have hbelow : ∀ y ∈ l, y < x := by
    intro y hy
    by_contra hge
    have hne : x ≠ y := fun heq => hxl (heq ▸ hy)
    exact hxl (h.closed y hy x hx (by omega))
  have hlen : n ≤ l.length := hfull.resolve_right fun hall => hxl (hall x hx)
  have hdisj : Disjoint (P.filter fun i => i ≤ x ∧ i ∉ l) l.toFinset := by
    rw [Finset.disjoint_left]
    intro y hy hyl
    exact (Finset.mem_filter.1 hy).2.2 (List.mem_toFinset.1 hyl)
  have hunion : (P.filter fun i => i ≤ x ∧ i ∉ l) ∪ l.toFinset ⊆ P.filter (· ≤ x) := by
    intro y hy
    rcases Finset.mem_union.1 hy with hy | hy
    · obtain ⟨hyP, hyx, -⟩ := Finset.mem_filter.1 hy
      exact Finset.mem_filter.2 ⟨hyP, hyx⟩
    · have hyl := List.mem_toFinset.1 hy
      exact Finset.mem_filter.2 ⟨hsub y hyl, (hbelow y hyl).le⟩
  have hcard := Finset.card_le_card hunion
  have hnodup : l.Nodup := h.sorted.imp fun hlt => hlt.ne
  rw [Finset.card_union_of_disjoint hdisj, List.toFinset_card_of_nodup hnodup] at hcard
  omega

end Lib
