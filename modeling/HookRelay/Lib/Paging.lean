import Mathlib.Data.List.Sort
import Mathlib.Tactic

/-!
# Walking a sorted list page by page

A list is read in pages of `size`.  The next page starts after a cursor that is made of the
last row of the page before it: `keep l r` says that the row `r` comes after the cursor of
`l`.  A cursor may be coarser than the rows it stands for, and then rows are passed over.

* `resume` — the rows of a sorted list after a cursor; `filter_keep` — taking them from the
  whole list by a filter gives the same.
* `walk` — page after page, until one is the last.
* `walk_isSome` — the walk ends.
* `flatten_walk_iff` — **the pages are the whole list exactly if no cursor passes over a
  row**, that is, if the first row of every page comes after the cursor of the page before.
* `walkLive` — the walk when the list changes between the pages: it still ends
  (`exists_walkLive`), shows rows in order (`sorted_walkLive`), and passes over none of those
  that stay but at a cursor (`covers_walkLive`).
-/

namespace Lib.Paging

variable {α : Type*} (keep : α → α → Bool)

/-- The rows of the rest of a list that come after the cursor of `l`. -/
def resume (l : α) (rest : List α) : List α := rest.dropWhile fun r => !keep l r

/-- Page after page of the rows; `none` when the fuel runs out. -/
def walk (size : ℕ) : ℕ → List α → Option (List (List α))
  | 0, _ => none
  | n + 1, rows =>
      match (rows.take size).getLast? with
      | some l =>
          if size < rows.length then
            (walk size n (resume keep l (rows.drop size))).map (rows.take size :: ·)
          else some [rows]
      | none => some [rows]

/-- No cursor passes over a row. -/
def Gapless (size : ℕ) (rows : List α) : Prop :=
  ∀ k l r, rows[(k + 1) * size - 1]? = some l → rows[(k + 1) * size]? = some r → keep l r = true

variable {keep}

theorem resume_suffix (l : α) (rest : List α) : resume keep l rest <:+ rest :=
  List.dropWhile_suffix _

/-- Nothing is passed over if the first row comes after the cursor. -/
theorem resume_eq_self_iff {l : α} {rest : List α} :
    resume keep l rest = rest ↔ ∀ r, rest[0]? = some r → keep l r = true := by
  cases rest with
  | nil => simp [resume]
  | cons r rest =>
      constructor
      · intro h x hx
        cases hx
        by_contra hk
        have hlen := congrArg List.length h
        rw [resume, List.dropWhile_cons_of_pos (by simpa using hk)] at hlen
        have := (List.dropWhile_suffix (l := rest) fun r => !keep l r).length_le
        rw [hlen, List.length_cons] at this
        omega
      · intro h
        exact List.dropWhile_cons_of_neg (by simp [h r rfl])

theorem length_resume_drop {l : α} {rows : List α} {size : ℕ} :
    (resume keep l (rows.drop size)).length ≤ rows.length - size := by
  rw [← List.length_drop]
  exact (resume_suffix l _).length_le

/-- A page that is not the last. -/
theorem exists_last {size : ℕ} (hsize : 0 < size) {rows : List α} (h : size < rows.length) :
    ∃ l, (rows.take size).getLast? = some l ∧ rows[size - 1]? = some l := by
  have hl : size - 1 < rows.length := by omega
  refine ⟨rows[size - 1], ?_, List.getElem?_eq_getElem hl⟩
  rw [List.getLast?_eq_getElem?, List.length_take, min_eq_left (by omega),
    List.getElem?_take_of_lt (by omega), List.getElem?_eq_getElem hl]

theorem walk_more {size : ℕ} {n : ℕ} {rows : List α} {l : α} (h : size < rows.length)
    (hl : (rows.take size).getLast? = some l) :
    walk keep size (n + 1) rows =
      (walk keep size n (resume keep l (rows.drop size))).map (rows.take size :: ·) := by
  rw [walk, hl]
  simp only [if_pos h]

theorem walk_last {size : ℕ} {n : ℕ} {rows : List α} (h : ¬ size < rows.length) :
    walk keep size (n + 1) rows = some [rows] := by
  rw [walk]
  split
  · rw [if_neg h]
  · rfl

/-- **The walk ends**, after no more pages than there are rows. -/
theorem walk_isSome {size : ℕ} (hsize : 0 < size) {n : ℕ} {rows : List α} (h : rows.length < n) :
    (walk keep size n rows).isSome = true := by
  induction n generalizing rows with
  | zero => omega
  | succ n ih =>
      by_cases hmore : size < rows.length
      · obtain ⟨l, hl, -⟩ := exists_last hsize hmore
        rw [walk_more hmore hl, Option.isSome_map]
        apply ih
        have hshort : (resume keep l (rows.drop size)).length ≤ rows.length - size :=
          length_resume_drop
        omega
      · rw [walk_last hmore]
        rfl

/-- The pages hold rows of the list, in its order. -/
theorem flatten_walk_sublist {size n : ℕ} {rows : List α} {ps : List (List α)}
    (h : walk keep size n rows = some ps) : ps.flatten.Sublist rows := by
  induction n generalizing rows ps with
  | zero => cases h
  | succ n ih =>
      rw [walk] at h
      split at h
      · rename_i l hl
        split_ifs at h with hmore
        · obtain ⟨qs, hqs, rfl⟩ := Option.map_eq_some_iff.1 h
          have hrest := (ih hqs).trans (resume_suffix l (rows.drop size)).sublist
          have := (List.Sublist.refl (rows.take size)).append hrest
          rwa [List.take_append_drop] at this
        · cases h
          simp
      · cases h
        simp

theorem gapless_of_short {size : ℕ} {rows : List α} (h : ¬ size < rows.length) :
    Gapless keep size rows := by
  intro k l r _ hr
  have hlt := (List.getElem?_eq_some_iff.1 hr).1
  have : size ≤ (k + 1) * size := Nat.le_mul_of_pos_left size (Nat.succ_pos k)
  omega

/-- The first boundary, and those after it. -/
theorem gapless_iff {size : ℕ} (hsize : 0 < size) {rows : List α} {l : α}
    (hl : rows[size - 1]? = some l) :
    Gapless keep size rows ↔
      (∀ r, (rows.drop size)[0]? = some r → keep l r = true) ∧
      Gapless keep size (rows.drop size) := by
  have hshift : ∀ k, size + ((k + 1) * size - 1) = (k + 1 + 1) * size - 1 := by
    intro k
    have h1 : 0 < (k + 1) * size := Nat.mul_pos (Nat.succ_pos k) hsize
    have h2 : (k + 1 + 1) * size = (k + 1) * size + size := by ring
    omega
  have hshift' : ∀ k, size + (k + 1) * size = (k + 1 + 1) * size := by
    intro k
    ring
  constructor
  · intro h
    refine ⟨fun r hr => h 0 l r (by simpa using hl) ?_, fun k a b ha hb => ?_⟩
    · rw [List.getElem?_drop] at hr
      simpa using hr
    · rw [List.getElem?_drop] at ha hb
      rw [hshift] at ha
      rw [hshift'] at hb
      exact h (k + 1) a b ha hb
  · rintro ⟨h0, h⟩ k a b ha hb
    cases k with
    | zero =>
        have hal : a = l := by
          rw [show (0 + 1) * size - 1 = size - 1 by omega, hl] at ha
          exact (Option.some.inj ha).symm
        subst hal
        refine h0 b ?_
        rw [List.getElem?_drop]
        simpa using hb
    | succ k =>
        refine h k a b ?_ ?_
        · rw [List.getElem?_drop, hshift]
          exact ha
        · rw [List.getElem?_drop, hshift']
          exact hb

/-- **What the pages are.**  Together they are the whole list exactly if no cursor passes over a
row. -/
theorem flatten_walk_iff {size : ℕ} (hsize : 0 < size) {n : ℕ} {rows : List α}
    {ps : List (List α)} (h : walk keep size n rows = some ps) :
    ps.flatten = rows ↔ Gapless keep size rows := by
  induction n generalizing rows ps with
  | zero => cases h
  | succ n ih =>
      by_cases hmore : size < rows.length
      · obtain ⟨l, hl, hget⟩ := exists_last hsize hmore
        rw [walk_more hmore hl] at h
        obtain ⟨qs, hqs, rfl⟩ := Option.map_eq_some_iff.1 h
        rw [gapless_iff hsize hget, ← resume_eq_self_iff]
        have hsplit : (rows.take size :: qs).flatten = rows ↔ qs.flatten = rows.drop size := by
          rw [List.flatten_cons]
          nth_rewrite 2 [← List.take_append_drop size rows]
          exact List.append_right_inj _
        rw [hsplit]
        constructor
        · intro heq
          -- a row that is passed over is missing in the end
          have hsub := flatten_walk_sublist hqs
          rw [heq] at hsub
          have hresume : resume keep l (rows.drop size) = rows.drop size :=
            (resume_suffix l _).eq_of_length_le hsub.length_le
          rw [hresume] at hqs
          exact ⟨hresume, (ih hqs).1 heq⟩
        · rintro ⟨hresume, hgap⟩
          rw [hresume] at hqs
          exact (ih hqs).2 hgap
      · rw [walk_last hmore] at h
        cases h
        simp [gapless_of_short hmore]

/-! ## Rows after a cursor, by a filter -/

/-- In a sorted list, the rows a cursor keeps are a tail of what follows its row. -/
theorem filter_keep {lt : α → α → Prop} {before rest : List α} {l : α}
    (hsound : ∀ r, keep l r = true → lt l r) (hirrefl : ∀ a, ¬ lt a a)
    (hasymm : ∀ a b, lt a b → ¬ lt b a)
    (hup : ∀ a b, keep l a = true → lt a b → keep l b = true)
    (hsorted : (before ++ l :: rest).Pairwise lt) :
    (before ++ l :: rest).filter (keep l) = resume keep l rest := by
  rw [List.pairwise_append, List.pairwise_cons] at hsorted
  obtain ⟨-, ⟨-, hrest⟩, hcross⟩ := hsorted
  have hbefore : before.filter (keep l) = [] := by
    refine List.filter_eq_nil_iff.2 fun a ha hk => ?_
    exact hasymm _ _ (hsound a hk) (hcross a ha l (by simp))
  have hl : keep l l = false := by
    cases hk : keep l l with
    | false => rfl
    | true => exact absurd (hsound l hk) (hirrefl l)
  rw [List.filter_append, hbefore, List.filter_cons_of_neg (by simp [hl]), List.nil_append]
  clear hcross
  induction rest with
  | nil => rfl
  | cons r rest ih =>
      rw [List.pairwise_cons] at hrest
      cases hk : keep l r with
      | true =>
          have hall : ∀ x ∈ r :: rest, keep l x = true := by
            intro x hx
            rcases List.mem_cons.1 hx with rfl | hx
            · exact hk
            · exact hup r x hk (hrest.1 x hx)
          rw [List.filter_eq_self.2 hall, resume, List.dropWhile_cons_of_neg (by simp [hk])]
      | false =>
          rw [List.filter_cons_of_neg (by simp [hk]), resume,
            List.dropWhile_cons_of_pos (by simp [hk])]
          exact ih hrest.2

/-! ## A list that changes between the pages -/

section Live

variable (keep)

/-- Page after page, where call `k` finds the list `rows k`, and reads the rows that `sel` keeps. -/
def walkLive (size : ℕ) (rows : ℕ → List α) : ℕ → ℕ → (α → Bool) → Option (List (List α))
  | 0, _, _ => none
  | n + 1, k, sel =>
      let found := (rows k).filter sel
      match (found.take size).getLast? with
      | some l =>
          if size < found.length then
            (walkLive size rows n (k + 1) (keep l)).map (found.take size :: ·)
          else some [found]
      | none => some [found]

variable {keep} {size : ℕ} {rows : ℕ → List α} {n k : ℕ} {sel : α → Bool} {ps : List (List α)}

theorem walkLive_more {l : α} (h : size < ((rows k).filter sel).length)
    (hl : (((rows k).filter sel).take size).getLast? = some l) :
    walkLive keep size rows (n + 1) k sel =
      (walkLive keep size rows n (k + 1) (keep l)).map (((rows k).filter sel).take size :: ·) := by
  rw [walkLive]
  simp only [hl, if_pos h]

theorem walkLive_last (h : ¬ size < ((rows k).filter sel).length) :
    walkLive keep size rows (n + 1) k sel = some [(rows k).filter sel] := by
  rw [walkLive]
  split
  · rw [if_neg h]
  · rfl

/-- A call reads the last page, or one after which the walk goes on. -/
theorem walkLive_cases (hsize : 0 < size) (h : walkLive keep size rows (n + 1) k sel = some ps) :
    ps = [(rows k).filter sel] ∨
      ∃ l qs, size < ((rows k).filter sel).length ∧
        (((rows k).filter sel).take size).getLast? = some l ∧
        walkLive keep size rows n (k + 1) (keep l) = some qs ∧
        ps = ((rows k).filter sel).take size :: qs := by
  by_cases hmore : size < ((rows k).filter sel).length
  · obtain ⟨l, hl, -⟩ := exists_last hsize hmore
    rw [walkLive_more hmore hl] at h
    obtain ⟨qs, hqs, rfl⟩ := Option.map_eq_some_iff.1 h
    exact .inr ⟨l, qs, hmore, hl, hqs, rfl⟩
  · rw [walkLive_last hmore] at h
    exact .inl (Option.some.inj h).symm

theorem ne_nil_of_walkLive (hsize : 0 < size) (h : walkLive keep size rows n k sel = some ps) :
    ps ≠ [] := by
  cases n with
  | zero => cases h
  | succ n =>
      rcases walkLive_cases hsize h with rfl | ⟨l, qs, -, -, -, rfl⟩
      · exact List.cons_ne_nil _ _
      · exact List.cons_ne_nil _ _

/-- Page `j` holds rows of the list as call `j` has found it. -/
theorem mem_walkLive (hsize : 0 < size) (h : walkLive keep size rows n k sel = some ps) {j : ℕ}
    {p : List α} (hp : ps[j]? = some p) : ∀ x ∈ p, x ∈ rows (k + j) := by
  induction n generalizing k sel ps j with
  | zero => cases h
  | succ n ih =>
      rcases walkLive_cases hsize h with rfl | ⟨l, qs, -, -, hqs, rfl⟩
      · cases j with
        | zero =>
            cases hp
            exact fun x hx => List.mem_of_mem_filter hx
        | succ j => cases hp
      · cases j with
        | zero =>
            cases hp
            exact fun x hx => List.mem_of_mem_filter (List.mem_of_mem_take hx)
        | succ j =>
            rw [Nat.add_comm j 1, ← Nat.add_assoc]
            exact ih hqs (by simpa using hp)

/-- In a sorted page everything but its last row comes before that one. -/
theorem before_last {lt : α → α → Prop} {q : List α} {l : α} (hq : q.Pairwise lt)
    (hl : q.getLast? = some l) : ∀ x ∈ q, x = l ∨ lt x l := by
  obtain ⟨ys, rfl⟩ := List.getLast?_eq_some_iff.1 hl
  intro x hx
  rcases List.mem_append.1 hx with hx | hx
  · exact .inr ((List.pairwise_append.1 hq).2.2 x hx l (List.mem_singleton_self l))
  · exact .inl (List.mem_singleton.1 hx)

section Sorted

variable {lt : α → α → Prop} (htrans : ∀ a b c, lt a b → lt b c → lt a c)
  (hsound : ∀ l r, keep l r = true → lt l r) (hsorted : ∀ k, (rows k).Pairwise lt)
include hsound

/-- **The walk ends**, if the rows do not go down for ever. -/
theorem exists_walkLive (hsize : 0 < size) (hwf : WellFounded fun a b => lt b a) (k : ℕ)
    (sel : α → Bool) : ∃ n ps, walkLive keep size rows n k sel = some ps := by
  have after : ∀ l k, ∃ n ps, walkLive keep size rows n k (keep l) = some ps := by
    intro l
    induction l using hwf.induction with
    | _ l ih =>
        intro k
        by_cases hmore : size < ((rows k).filter (keep l)).length
        · obtain ⟨l', hl', -⟩ := exists_last hsize hmore
          have hmem := List.mem_of_mem_take (List.mem_of_getLast? hl')
          obtain ⟨n, qs, hqs⟩ := ih l' (hsound l l' (List.mem_filter.1 hmem).2) (k + 1)
          exact ⟨n + 1, _, by rw [walkLive_more hmore hl', hqs]; rfl⟩
        · exact ⟨1, _, walkLive_last hmore⟩
  by_cases hmore : size < ((rows k).filter sel).length
  · obtain ⟨l, hl, -⟩ := exists_last hsize hmore
    obtain ⟨n, qs, hqs⟩ := after l (k + 1)
    exact ⟨n + 1, _, by rw [walkLive_more hmore hl, hqs]; rfl⟩
  · exact ⟨1, _, walkLive_last hmore⟩

include htrans hsorted

/-- **Together the pages are sorted**, whatever has become of the list between the calls; and
everything in them comes after what everything comes after that the first call selects. -/
theorem sorted_walkLive (hsize : 0 < size) (h : walkLive keep size rows n k sel = some ps) :
    ps.flatten.Pairwise lt ∧ ∀ y, (∀ x, sel x = true → lt y x) → ∀ x ∈ ps.flatten, lt y x := by
  induction n generalizing k sel ps with
  | zero => cases h
  | succ n ih =>
      have hfound : ((rows k).filter sel).Pairwise lt := (hsorted k).filter _
      have hsel : ∀ x ∈ (rows k).filter sel, sel x = true := fun x hx => (List.mem_filter.1 hx).2
      rcases walkLive_cases hsize h with rfl | ⟨l, qs, -, hl, hqs, rfl⟩
      · rw [List.flatten_singleton]
        exact ⟨hfound, fun y hy x hx => hy x (hsel x hx)⟩
      · obtain ⟨hrest, hafter⟩ := ih hqs
        have hpage := hfound.sublist (List.take_sublist size _)
        have hlater : ∀ x ∈ qs.flatten, lt l x := hafter l (hsound l)
        rw [List.flatten_cons]
        refine ⟨List.pairwise_append.2 ⟨hpage, hrest, fun x hx y hy => ?_⟩, fun y hy x hx => ?_⟩
        · rcases before_last hpage hl x hx with rfl | hxl
          · exact hlater y hy
          · exact htrans x l y hxl (hlater y hy)
        · rcases List.mem_append.1 hx with hx | hx
          · exact hy x (hsel x (List.mem_of_mem_take hx))
          · have hlmem := List.mem_of_mem_take (List.mem_of_getLast? hl)
            exact htrans y l x (hy l (hsel l hlmem)) (hlater x hx)

omit htrans hsound in
/-- **What the walk shows**: a row that is there at every call is on a page, unless it comes after
the last row of a page but not after the cursor that is made of it for the next one. -/
theorem covers_walkLive (hsize : 0 < size) {c : α → Prop}
    (hkeep : ∀ l x y, c x → c y → keep l x = keep l y) (hsel : ∀ x, c x → sel x = true)
    (h : walkLive keep size rows n k sel = some ps)
    (hthere : ∀ j, j < ps.length → ∃ x ∈ rows (k + j), c x) :
    (∃ x ∈ ps.flatten, c x) ∨
      ∃ p ∈ ps.dropLast, ∃ l x, p.getLast? = some l ∧ c x ∧ lt l x ∧ keep l x = false := by
  induction n generalizing k sel ps with
  | zero => cases h
  | succ n ih =>
      rcases walkLive_cases hsize h with rfl | ⟨l, qs, -, hl, hqs, rfl⟩
      · obtain ⟨x, hx, hc⟩ := hthere 0 (by simp)
        exact .inl ⟨x, by simpa using ⟨hx, hsel x hc⟩, hc⟩
      · obtain ⟨x, hx, hc⟩ := hthere 0 (by simp)
        have hfound : x ∈ ((rows k).filter sel).take size ++ ((rows k).filter sel).drop size := by
          rw [List.take_append_drop]
          exact List.mem_filter.2 ⟨hx, hsel x hc⟩
        rw [List.dropLast_cons_of_ne_nil (ne_nil_of_walkLive hsize hqs)]
        rcases List.mem_append.1 hfound with htake | hdrop
        · exact .inl ⟨x, by rw [List.flatten_cons]; exact List.mem_append_left _ htake, hc⟩
        · have hcross := (hsorted k).filter (p := sel)
          rw [← List.take_append_drop size ((rows k).filter sel), List.pairwise_append] at hcross
          have hlx : lt l x := hcross.2.2 l (List.mem_of_getLast? hl) x hdrop
          cases hk : keep l x with
          | false => exact .inr ⟨_, List.mem_cons_self, l, x, hl, hc, hlx, hk⟩
          | true =>
              have hnext := ih (fun y hy => (hkeep l y x hy hc).trans hk) hqs fun j hj => by
                rw [Nat.add_assoc, Nat.add_comm 1 j]
                exact hthere (j + 1) (by simpa using hj)
              rcases hnext with ⟨y, hy, hcy⟩ | ⟨p, hp, hrest⟩
              · exact .inl ⟨y, by rw [List.flatten_cons]; exact List.mem_append_right _ hy, hcy⟩
              · exact .inr ⟨p, List.mem_cons_of_mem _ hp, hrest⟩

end Sorted

end Live
end Lib.Paging
