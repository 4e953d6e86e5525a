import Mathlib.Data.List.Nodup
import Mathlib.Tactic

/-!
# Tables with a primary key

A table is the list of its rows, in insertion order, together with the proof that
no two of them share a key.  The operations are the ones a relational store
offers on one table, and each of them keeps the key constraint by construction:

* `find?` — the row with a key; `insert?` — a new row, refused when its key is
  taken; `modify`, `modifyMany` — an update of the row with a key, or of all rows
  that satisfy a condition, by a function that leaves the key alone; `deleteMany`.
* `total` — the sum of a weight over the rows, and what the operations make of it.
* `Serial` — a table whose key is drawn from a sequence, so that `insert` never
  fails; `insertAt?` inserts a row under a number drawn earlier by `draw`.
-/

namespace Lib

variable {κ ρ : Type}

/-- The rows of a table, no two with the same key. -/
structure Table (κ ρ : Type) (key : ρ → κ) where
  rows : List ρ
  nodup : (rows.map key).Nodup

namespace Table

variable {key : ρ → κ}

@[ext] theorem ext {t u : Table κ ρ key} (h : t.rows = u.rows) : t = u := by
  cases t; cases u; cases h; rfl

instance : EmptyCollection (Table κ ρ key) := ⟨⟨[], by simp⟩⟩

instance : Membership ρ (Table κ ρ key) := ⟨fun t r => r ∈ t.rows⟩

@[simp] theorem empty_rows : (∅ : Table κ ρ key).rows = [] := rfl

theorem mem_def {t : Table κ ρ key} {r : ρ} : r ∈ t ↔ r ∈ t.rows := Iff.rfl

@[simp] theorem not_mem_empty (r : ρ) : r ∉ (∅ : Table κ ρ key) := by simp [mem_def]

/-- Two rows with the same key are the same row. -/
theorem eq_of_key {t : Table κ ρ key} {r r' : ρ} (h : r ∈ t) (h' : r' ∈ t)
    (hk : key r = key r') : r = r' :=
  List.inj_on_of_nodup_map t.nodup h h' hk

section Ops

variable [DecidableEq κ]

/-- The row with key `k`. -/
def find? (t : Table κ ρ key) (k : κ) : Option ρ := t.rows.find? fun r => key r = k

/-- Insert a row, unless its key is taken. -/
def insert? (t : Table κ ρ key) (r : ρ) : Option (Table κ ρ key) :=
  if h : key r ∈ t.rows.map key then none
  else some ⟨t.rows ++ [r], by
    rw [List.map_append]
    exact t.nodup.append (List.nodup_singleton _) (by simpa using h)⟩

/-- Update all rows that satisfy `p` with a function that keeps the key. -/
def modifyMany (t : Table κ ρ key) (p : ρ → Bool) (f : ρ → ρ)
    (hf : ∀ r, key (f r) = key r) : Table κ ρ key :=
  ⟨t.rows.map fun r => if p r then f r else r, by
    have : (t.rows.map fun r => if p r then f r else r).map key = t.rows.map key := by
      rw [List.map_map]
      refine List.map_congr_left fun r _ => ?_
      by_cases hp : p r <;> simp [hp, hf]
    rw [this]; exact t.nodup⟩

/-- Update the row with key `k`. -/
def modify (t : Table κ ρ key) (k : κ) (f : ρ → ρ) (hf : ∀ r, key (f r) = key r) :
    Table κ ρ key :=
  t.modifyMany (fun r => key r = k) f hf

/-- Delete all rows that satisfy `p`. -/
def deleteMany (t : Table κ ρ key) (p : ρ → Bool) : Table κ ρ key :=
  ⟨t.rows.filter fun r => !p r, (t.nodup.sublist ((List.filter_sublist).map key))⟩

/-! ### Finding -/

theorem find?_eq_some_iff {t : Table κ ρ key} {k : κ} {r : ρ} :
    t.find? k = some r ↔ r ∈ t ∧ key r = k := by
  constructor
  · intro h
    exact ⟨List.mem_of_find?_eq_some h, by simpa using List.find?_some h⟩
  · rintro ⟨hr, rfl⟩
    cases hc : t.find? (key r) with
    | none =>
        have := List.find?_eq_none.1 hc r hr
        simp at this
    | some r' =>
        have hr' : r' ∈ t := List.mem_of_find?_eq_some hc
        have hk : key r' = key r := by simpa using List.find?_some hc
        rw [t.eq_of_key hr' hr hk]

theorem find?_of_mem {t : Table κ ρ key} {r : ρ} (h : r ∈ t) : t.find? (key r) = some r :=
  find?_eq_some_iff.2 ⟨h, rfl⟩

theorem find?_eq_none_iff {t : Table κ ρ key} {k : κ} :
    t.find? k = none ↔ ∀ r ∈ t, key r ≠ k := by
  simp [find?, List.find?_eq_none, mem_def]

@[simp] theorem find?_empty (k : κ) : (∅ : Table κ ρ key).find? k = none := rfl

/-! ### Inserting -/

theorem insert?_eq_some_iff {t u : Table κ ρ key} {r : ρ} :
    t.insert? r = some u ↔ t.find? (key r) = none ∧ u.rows = t.rows ++ [r] := by
  rw [find?_eq_none_iff]
  unfold insert?
  split
  · rename_i h
    obtain ⟨r', hr', hk⟩ := List.mem_map.1 h
    simp only [reduceCtorEq, false_iff, not_and]
    intro hall
    exact absurd hk (hall r' hr')
  · rename_i h
    simp only [Option.some.injEq]
    constructor
    · rintro rfl
      refine ⟨fun r' hr' hk => h (List.mem_map.2 ⟨r', hr', hk⟩), rfl⟩
    · rintro ⟨-, hu⟩
      exact Table.ext hu.symm

theorem insert?_isSome {t : Table κ ρ key} {r : ρ} (h : t.find? (key r) = none) :
    ∃ u, t.insert? r = some u := by
  unfold insert?
  split
  · rename_i hm
    obtain ⟨r', hr', hk⟩ := List.mem_map.1 hm
    exact absurd hk (find?_eq_none_iff.1 h r' hr')
  · exact ⟨_, rfl⟩

theorem mem_insert? {t u : Table κ ρ key} {r x : ρ} (h : t.insert? r = some u) :
    x ∈ u ↔ x ∈ t ∨ x = r := by
  rw [mem_def, (insert?_eq_some_iff.1 h).2, List.mem_append, List.mem_singleton, mem_def]

theorem find?_insert? {t u : Table κ ρ key} {r : ρ} (h : t.insert? r = some u) (k : κ) :
    u.find? k = if key r = k then some r else t.find? k := by
  obtain ⟨hfresh, hrows⟩ := insert?_eq_some_iff.1 h
  unfold find?
  rw [hrows, List.find?_append]
  by_cases hk : key r = k
  · subst hk
    have : t.rows.find? (fun r' => decide (key r' = key r)) = none := hfresh
    simp [this]
  · simp [hk]

/-! ### Updating -/

omit [DecidableEq κ] in
theorem mem_modifyMany {t : Table κ ρ key} {p : ρ → Bool} {f : ρ → ρ}
    {hf : ∀ r, key (f r) = key r} {x : ρ} :
    x ∈ t.modifyMany p f hf ↔ ∃ r ∈ t, (if p r then f r else r) = x := by
  simp [mem_def, modifyMany]

theorem find?_modifyMany (t : Table κ ρ key) (p : ρ → Bool) (f : ρ → ρ)
    (hf : ∀ r, key (f r) = key r) (k : κ) :
    (t.modifyMany p f hf).find? k = (t.find? k).map fun r => if p r then f r else r := by
  unfold find? modifyMany
  rw [List.find?_map]
  congr 1
  refine congrArg (fun q => t.rows.find? q) (funext fun r => ?_)
  by_cases hp : p r <;> simp [hp, hf]

@[simp] theorem find?_modify_self (t : Table κ ρ key) (k : κ) (f : ρ → ρ)
    (hf : ∀ r, key (f r) = key r) : (t.modify k f hf).find? k = (t.find? k).map f := by
  rw [modify, find?_modifyMany]
  cases h : t.find? k with
  | none => rfl
  | some r => simp [(find?_eq_some_iff.1 h).2]

theorem find?_modify_of_ne (t : Table κ ρ key) {k k' : κ} (f : ρ → ρ)
    (hf : ∀ r, key (f r) = key r) (h : k' ≠ k) : (t.modify k f hf).find? k' = t.find? k' := by
  rw [modify, find?_modifyMany]
  cases hc : t.find? k' with
  | none => rfl
  | some r => simp [(find?_eq_some_iff.1 hc).2, h]

theorem find?_modify (t : Table κ ρ key) (k k' : κ) (f : ρ → ρ) (hf : ∀ r, key (f r) = key r) :
    (t.modify k f hf).find? k' = if k' = k then (t.find? k).map f else t.find? k' := by
  by_cases h : k' = k
  · subst h; simp
  · rw [find?_modify_of_ne _ _ _ h, if_neg h]

theorem mem_modify {t : Table κ ρ key} {k : κ} {f : ρ → ρ} {hf : ∀ r, key (f r) = key r}
    {x : ρ} : x ∈ t.modify k f hf ↔ ∃ r ∈ t, (if key r = k then f r else r) = x := by
  simp [modify, mem_modifyMany]

omit [DecidableEq κ] in
theorem mem_deleteMany {t : Table κ ρ key} {p : ρ → Bool} {x : ρ} :
    x ∈ t.deleteMany p ↔ x ∈ t ∧ p x = false := by
  simp [mem_def, deleteMany]

end Ops

/-! ### Sums over the rows -/

/-- The sum of a weight over the rows. -/
def total (t : Table κ ρ key) (w : ρ → ℕ) : ℕ := (t.rows.map w).sum

theorem total_congr {t : Table κ ρ key} {w w' : ρ → ℕ} (h : ∀ r ∈ t, w r = w' r) :
    t.total w = t.total w' := congrArg List.sum (List.map_congr_left h)

section Weights

variable [DecidableEq κ]

/-- Two weights that differ in one row. -/
theorem total_change {t : Table κ ρ key} {k : κ} {r : ρ} (w w' : ρ → ℕ) (hr : t.find? k = some r)
    (h : ∀ x ∈ t, key x ≠ k → w x = w' x) : t.total w + w' r = t.total w' + w r := by
  obtain ⟨hmem, rfl⟩ := find?_eq_some_iff.1 hr
  obtain ⟨front, back, hrows⟩ := List.append_of_mem (mem_def.1 hmem)
  have hnodup := t.nodup
  have apart : ∀ x ∈ front ++ back, w x = w' x := by
    intro x hx
    refine h x ?_ fun hk => ?_
    · rw [mem_def, hrows]
      rcases List.mem_append.1 hx with hx | hx
      · exact List.mem_append_left _ hx
      · exact List.mem_append_right _ (List.mem_cons_of_mem _ hx)
    · rw [hrows, List.map_append, List.map_cons, List.nodup_middle, List.nodup_cons,
        ← List.map_append] at hnodup
      exact hnodup.1 (List.mem_map.2 ⟨x, hx, hk⟩)
  have hfront : front.map w = front.map w' :=
    List.map_congr_left fun x hx => apart x (List.mem_append_left _ hx)
  have hback : back.map w = back.map w' :=
    List.map_congr_left fun x hx => apart x (List.mem_append_right _ hx)
  simp only [total, hrows, List.map_append, List.map_cons, List.sum_append, List.sum_cons, hfront,
    hback]
  omega

theorem total_insert? {t u : Table κ ρ key} {r : ρ} (h : t.insert? r = some u) (w : ρ → ℕ) :
    u.total w = t.total w + w r := by
  simp [total, (insert?_eq_some_iff.1 h).2]

theorem total_modify_eq (t : Table κ ρ key) (k : κ) (f : ρ → ρ) (hf : ∀ x, key (f x) = key x)
    (w : ρ → ℕ) :
    (t.modify k f hf).total w = t.total fun x => w (if key x = k then f x else x) := by
  simp [total, modify, modifyMany, List.map_map, Function.comp_def]

/-- An update that does not change the weight of the row. -/
theorem total_modify_same {t : Table κ ρ key} {k : κ} {f : ρ → ρ} {hf : ∀ x, key (f x) = key x}
    {w : ρ → ℕ} (h : ∀ x ∈ t, key x = k → w (f x) = w x) : (t.modify k f hf).total w = t.total w := by
  rw [total_modify_eq]
  refine total_congr fun x hx => ?_
  split_ifs with hk
  · exact h x hx hk
  · rfl

theorem total_modify {t : Table κ ρ key} {k : κ} {r : ρ} (f : ρ → ρ) (hf : ∀ x, key (f x) = key x)
    (hr : t.find? k = some r) (w : ρ → ℕ) :
    (t.modify k f hf).total w + w r = t.total w + w (f r) := by
  have hk := (find?_eq_some_iff.1 hr).2
  have hchange := total_change (fun x => w (if key x = k then f x else x)) w hr
    fun x _ hx => by rw [if_neg hx]
  rw [total_modify_eq, hchange, if_pos hk]

theorem total_delete_eq (t : Table κ ρ key) (k : κ) (w : ρ → ℕ) :
    (t.deleteMany fun x => key x = k).total w = t.total fun x => if key x = k then 0 else w x := by
  simp only [total, deleteMany]
  induction t.rows with
  | nil => rfl
  | cons x xs ih =>
      by_cases hx : key x = k
      · simpa [hx] using ih
      · simpa [hx] using ih

/-- Rows without weight may go. -/
theorem total_delete_same {t : Table κ ρ key} {k : κ} {w : ρ → ℕ} (h : ∀ x ∈ t, key x = k → w x = 0) :
    (t.deleteMany fun x => key x = k).total w = t.total w := by
  rw [total_delete_eq]
  refine total_congr fun x hx => ?_
  split_ifs with hk
  · exact (h x hx hk).symm
  · rfl

theorem total_delete {t : Table κ ρ key} {k : κ} {r : ρ} (hr : t.find? k = some r) (w : ρ → ℕ) :
    (t.deleteMany fun x => key x = k).total w + w r = t.total w := by
  have hk := (find?_eq_some_iff.1 hr).2
  have hchange := total_change (fun x => if key x = k then 0 else w x) w hr fun x _ hx => if_neg hx
  rw [total_delete_eq, hchange, if_pos hk, Nat.add_zero]

end Weights

end Table

/-! ## Tables keyed by a sequence -/

/-- A table whose key is a number drawn from a sequence: `next` is the number the
sequence gives out next, and it is above every number in use. -/
structure Serial (ρ : Type) (id : ρ → ℕ) extends Table ℕ ρ id where
  next : ℕ
  fresh : ∀ r ∈ rows, id r < next

namespace Serial

variable {id : ρ → ℕ}

instance : EmptyCollection (Serial ρ id) := ⟨⟨∅, 0, by simp⟩⟩

@[simp] theorem empty_rows : (∅ : Serial ρ id).rows = [] := rfl

/-- Insert a row under the next number of the sequence. -/
def insert (t : Serial ρ id) (mk : ℕ → ρ) (hmk : ∀ n, id (mk n) = n) : Serial ρ id where
  rows := t.rows ++ [mk t.next]
  nodup := by
    rw [List.map_append]
    refine t.nodup.append (List.nodup_singleton _) ?_
    simp only [hmk, List.map_cons, List.map_nil, List.disjoint_singleton, List.mem_map, not_exists,
      not_and]
    intro r hr hk
    exact absurd (t.fresh r hr) (by omega)
  next := t.next + 1
  fresh := by
    intro r hr
    rcases List.mem_append.1 hr with h | h
    · exact Nat.lt_succ_of_lt (t.fresh r h)
    · rw [List.mem_singleton.1 h, hmk]; exact Nat.lt_succ_self _

/-- Insert a row for each of several values, each under the next number of the sequence. -/
def insertMany {β : Type} (t : Serial ρ id) (mk : β → ℕ → ρ) (hmk : ∀ b n, id (mk b n) = n) :
    List β → Serial ρ id
  | [] => t
  | b :: bs => (t.insert (mk b) (hmk b)).insertMany mk hmk bs

/-- Insert a row under a number that was drawn from the sequence earlier. -/
def insertAt? (t : Serial ρ id) (r : ρ) : Option (Serial ρ id) :=
  if h : id r ∈ t.rows.map id then none
  else some {
    rows := t.rows ++ [r]
    nodup := by
      rw [List.map_append]
      exact t.nodup.append (List.nodup_singleton _) (by simpa using h)
    next := max t.next (id r + 1)
    fresh := by
      intro x hx
      rcases List.mem_append.1 hx with hx | hx
      · exact lt_of_lt_of_le (t.fresh x hx) (le_max_left _ _)
      · rw [List.mem_singleton.1 hx]
        exact lt_of_lt_of_le (Nat.lt_succ_self _) (le_max_right _ _) }

/-- Draw a number from the sequence without inserting a row. -/
def draw (t : Serial ρ id) : Serial ρ id where
  toTable := t.toTable
  next := t.next + 1
  fresh := fun r hr => Nat.lt_succ_of_lt (t.fresh r hr)

/-- Update all rows that satisfy `p` with a function that keeps the number. -/
def modifyMany (t : Serial ρ id) (p : ρ → Bool) (f : ρ → ρ) (hf : ∀ r, id (f r) = id r) :
    Serial ρ id where
  toTable := t.toTable.modifyMany p f hf
  next := t.next
  fresh := by
    intro x hx
    obtain ⟨r, hr, rfl⟩ := Table.mem_modifyMany.1 hx
    by_cases hp : p r <;> simp [hp, hf, t.fresh r hr]

/-- Update the row with number `n`. -/
def modify (t : Serial ρ id) (n : ℕ) (f : ρ → ρ) (hf : ∀ r, id (f r) = id r) : Serial ρ id :=
  t.modifyMany (fun r => id r = n) f hf

/-- Delete all rows that satisfy `p`; the sequence does not go back. -/
def deleteMany (t : Serial ρ id) (p : ρ → Bool) : Serial ρ id where
  toTable := t.toTable.deleteMany p
  next := t.next
  fresh := fun r hr => t.fresh r (List.mem_of_mem_filter hr)

@[simp] theorem insert_rows (t : Serial ρ id) (mk : ℕ → ρ) (hmk : ∀ n, id (mk n) = n) :
    (t.insert mk hmk).rows = t.rows ++ [mk t.next] := rfl

@[simp] theorem insert_next (t : Serial ρ id) (mk : ℕ → ρ) (hmk : ∀ n, id (mk n) = n) :
    (t.insert mk hmk).next = t.next + 1 := rfl

/-- Inserting several rows appends rows for them. -/
theorem insertMany_rows {β : Type} (mk : β → ℕ → ρ) (hmk : ∀ b n, id (mk b n) = n) (bs : List β)
    (t : Serial ρ id) : ∃ new, (t.insertMany mk hmk bs).rows = t.rows ++ new ∧
      ∀ x ∈ new, ∃ b ∈ bs, ∃ n, x = mk b n := by
  induction bs generalizing t with
  | nil => exact ⟨[], by simp [insertMany], fun x hx => by cases hx⟩
  | cons b bs ih =>
      obtain ⟨new, hrows, hnew⟩ := ih (t.insert (mk b) (hmk b))
      refine ⟨mk b t.next :: new, by rw [insertMany, hrows, insert_rows, List.append_assoc]; rfl, ?_⟩
      intro x hx
      rcases List.mem_cons.1 hx with rfl | hx
      · exact ⟨b, List.mem_cons_self, t.next, rfl⟩
      · obtain ⟨c, hc, n, rfl⟩ := hnew x hx
        exact ⟨c, List.mem_cons_of_mem _ hc, n, rfl⟩

/-- Inserting several rows appends them; what does not depend on the numbers is known. -/
theorem insertMany_map {β γ : Type} (mk : β → ℕ → ρ) (hmk : ∀ b n, id (mk b n) = n) (f : ρ → γ)
    (g : β → γ) (h : ∀ b n, f (mk b n) = g b) (bs : List β) (t : Serial ρ id) :
    (t.insertMany mk hmk bs).rows.map f = t.rows.map f ++ bs.map g := by
  induction bs generalizing t with
  | nil => simp [insertMany]
  | cons b bs ih =>
      rw [insertMany, ih, insert_rows, List.map_append, List.append_assoc]
      simp [h]

theorem insertAt?_eq_some_iff {t u : Serial ρ id} {r : ρ} (h : t.insertAt? r = some u) :
    (∀ x ∈ t.rows, id x ≠ id r) ∧ u.rows = t.rows ++ [r] := by
  unfold insertAt? at h
  split at h
  · exact absurd h (by simp)
  · rename_i hid
    cases h
    exact ⟨fun x hx hk => hid (List.mem_map.2 ⟨x, hx, hk⟩), rfl⟩

/-- The sequence never goes back. -/
theorem next_le_of_insertAt? {t u : Serial ρ id} {r : ρ} (h : t.insertAt? r = some u) :
    t.next ≤ u.next := by
  unfold insertAt? at h
  split at h
  · cases h
  · cases h
    exact le_max_left _ _

/-- Drawing a number first makes no difference to a row with the next number. -/
theorem insertAt?_draw {t : Serial ρ id} {r : ρ} (h : id r = t.next) :
    t.draw.insertAt? r = t.insertAt? r := by
  have hmax : max (t.next + 1) (id r + 1) = max t.next (id r + 1) := by omega
  unfold insertAt? draw
  by_cases hmem : id r ∈ t.rows.map id
  · rw [dif_pos hmem, dif_pos hmem]
  · rw [dif_neg hmem, dif_neg hmem]
    simp only [hmax]

theorem insertAt?_isSome {t : Serial ρ id} {r : ρ} (h : ∀ x ∈ t.rows, id x ≠ id r) :
    ∃ u, t.insertAt? r = some u := by
  unfold insertAt?
  split
  · rename_i hmem
    obtain ⟨x, hx, hk⟩ := List.mem_map.1 hmem
    exact absurd hk (h x hx)
  · exact ⟨_, rfl⟩

@[simp] theorem modifyMany_toTable (t : Serial ρ id) (p : ρ → Bool) (f : ρ → ρ)
    (hf : ∀ r, id (f r) = id r) : (t.modifyMany p f hf).toTable = t.toTable.modifyMany p f hf := rfl

@[simp] theorem modifyMany_next (t : Serial ρ id) (p : ρ → Bool) (f : ρ → ρ)
    (hf : ∀ r, id (f r) = id r) : (t.modifyMany p f hf).next = t.next := rfl

@[simp] theorem modify_toTable (t : Serial ρ id) (n : ℕ) (f : ρ → ρ)
    (hf : ∀ r, id (f r) = id r) : (t.modify n f hf).toTable = t.toTable.modify n f hf := rfl

@[simp] theorem deleteMany_toTable (t : Serial ρ id) (p : ρ → Bool) :
    (t.deleteMany p).toTable = t.toTable.deleteMany p := rfl

end Serial

end Lib
