import Mathlib.Data.List.Basic
import HookRelay.Lib.Transition

/-!
# Concurrent transactions under READ COMMITTED

A table and any number of transactions of two statements: the first changes the rows that
satisfy a condition, the second inserts rows.  A statement sees the rows that were committed
before it began and the changes of its own transaction.  The first statement takes the rows
that it saw one by one, in any order: it waits for a row that another transaction has
locked, and looks at its condition again.  An insert waits for a row of another transaction
that could violate a unique index, and a violation aborts its transaction.

* `Cell` — a row: its committed version, and the version of the transaction that has locked
  it.
* `Program`, `step` — the two statements of a transaction, and its steps.
* `live`, `own` — the committed rows that satisfy a condition, and those that a transaction
  has written.
* `Replaces` — the transactions change the rows that satisfy a condition so that they no
  longer do, and insert rows that satisfy it.
* `Covers` — a transaction that commits has locked every live row, or inserted none.
* `live_of_covers`, `live_of_not_covers` — if every commit covers, the live rows are those of
  one transaction; a commit that does not cover leaves the rows of two.
* `Schedule` — two transactions that overlap, and a third one after a rollback.
-/

namespace Lib
namespace ReadCommitted

/-- A row of the table. -/
structure Cell (τ ρ : Type*) where
  committed : Option ρ
  /-- The transaction that has locked the row, and what it makes of it. -/
  pending : Option (τ × Option ρ)

/-- `UPDATE … SET change WHERE cond`, or a `DELETE` where `change` gives nothing, and then
`INSERT … rows`. -/
structure Program (ρ : Type*) where
  cond : ρ → Bool
  change : ρ → Option ρ
  rows : List ρ

/-- Where a transaction stands. -/
inductive Phase (ρ : Type*) where
  | idle
  /-- The first statement has these rows still to look at. -/
  | changing (todo : List ℕ)
  /-- The second statement has these rows still to insert. -/
  | inserting (todo : List ρ)
  | committed
  | aborted

structure State (τ ρ : Type*) where
  cells : List (Cell τ ρ)
  phase : τ → Phase ρ

inductive Action (τ : Type*) where
  /-- The first statement begins: it sees its rows. -/
  | begin (t : τ)
  /-- It looks at a row and changes it. -/
  | change (t : τ) (i : ℕ)
  /-- The second statement begins. -/
  | next (t : τ)
  /-- It inserts its next row. -/
  | insert (t : τ)
  | commit (t : τ)
  | abort (t : τ)

variable {τ ρ : Type*}

/-- A table of committed rows, and no transaction. -/
def init (rows : List ρ) : State τ ρ := ⟨rows.map fun r => ⟨some r, none⟩, fun _ => .idle⟩

/-- It has begun and not ended. -/
def Phase.isOpen : Phase ρ → Bool
  | .changing _ | .inserting _ => true
  | .idle | .committed | .aborted => false

/-- It has committed. -/
def Phase.isCommitted : Phase ρ → Bool
  | .committed => true
  | _ => false

theorem Phase.isCommitted_iff {q : Phase ρ} : q.isCommitted = true ↔ q = .committed := by
  cases q <;> simp [Phase.isCommitted]

/-- The rows that the first statement has still to look at. -/
def Phase.todo : Phase ρ → List ℕ
  | .changing todo => todo
  | _ => []

variable [DecidableEq τ]

namespace Cell

/-- The transaction has locked the row. -/
def lockedBy (t : τ) (c : Cell τ ρ) : Bool := c.pending.any fun v => decide (v.1 = t)

/-- Another transaction has locked the row. -/
def lockedByOther (t : τ) (c : Cell τ ρ) : Bool := c.pending.any fun v => decide (v.1 ≠ t)

/-- What its transaction makes of a locked row. -/
def written (c : Cell τ ρ) : Option ρ := c.pending.bind Prod.snd

/-- The row as the transaction sees it. -/
def seenBy (t : τ) (c : Cell τ ρ) : Option ρ := if c.lockedBy t then c.written else c.committed

/-- The row after the first statement has looked at it. -/
def changeBy (t : τ) (p : Program ρ) (c : Cell τ ρ) : Cell τ ρ :=
  (c.seenBy t).elim c fun r => if p.cond r then { c with pending := some (t, p.change r) } else c

/-- A new row. -/
def inserted (t : τ) (r : ρ) : Cell τ ρ := ⟨none, some (t, some r)⟩

def commitBy (t : τ) (c : Cell τ ρ) : Cell τ ρ := if c.lockedBy t then ⟨c.written, none⟩ else c

def abortBy (t : τ) (c : Cell τ ρ) : Cell τ ρ :=
  if c.lockedBy t then { c with pending := none } else c

/-- An insert of `r` has to wait for the transaction that has locked this row. -/
def blocks (conflict : ρ → ρ → Bool) (t : τ) (r : ρ) (c : Cell τ ρ) : Bool :=
  c.lockedByOther t && (c.committed.any (conflict r) || c.written.any (conflict r))

/-- An insert of `r` violates a unique index. -/
def violates (conflict : ρ → ρ → Bool) (t : τ) (r : ρ) (c : Cell τ ρ) : Bool :=
  (c.seenBy t).any (conflict r)

end Cell

/-- A transaction goes on to a phase. -/
def State.goto (s : State τ ρ) (t : τ) (p : Phase ρ) : State τ ρ :=
  { s with phase := Function.update s.phase t p }

/-- The rows that a statement sees and that satisfy its condition. -/
def State.matching (s : State τ ρ) (t : τ) (cond : ρ → Bool) : List ℕ :=
  (List.range s.cells.length).filter fun i =>
    (s.cells[i]?.bind (Cell.seenBy t)).any cond

/-- A transaction is rolled back. -/
def State.abort (s : State τ ρ) (t : τ) : State τ ρ :=
  { cells := s.cells.map (Cell.abortBy t), phase := Function.update s.phase t .aborted }

variable (conflict : ρ → ρ → Bool) (calls : τ → Program ρ)

/-- One step of a transaction. -/
def step (s : State τ ρ) : Action τ → Option (State τ ρ)
  | .begin t =>
      match s.phase t with
      | .idle => some (s.goto t (.changing (s.matching t (calls t).cond)))
      | _ => none
  | .change t i =>
      match s.phase t with
      | .changing todo =>
          if i ∈ todo ∧ s.cells[i]?.any (Cell.lockedByOther t) = false then
            some { cells := s.cells.modify i (Cell.changeBy t (calls t))
                   phase := Function.update s.phase t (.changing (todo.erase i)) }
          else none
      | _ => none
  | .next t =>
      match s.phase t with
      | .changing [] => some (s.goto t (.inserting (calls t).rows))
      | _ => none
  | .insert t =>
      match s.phase t with
      | .inserting (r :: rs) =>
          if s.cells.any (Cell.blocks conflict t r) then none
          else if s.cells.any (Cell.violates conflict t r) then some (s.abort t)
          else
            some { cells := s.cells ++ [Cell.inserted t r]
                   phase := Function.update s.phase t (.inserting rs) }
      | _ => none
  | .commit t =>
      match s.phase t with
      | .inserting [] =>
          some { cells := s.cells.map (Cell.commitBy t)
                 phase := Function.update s.phase t .committed }
      | _ => none
  | .abort t => if (s.phase t).isOpen then some (s.abort t) else none

/-- The committed rows that satisfy the condition. -/
def live (p : ρ → Bool) (s : State τ ρ) : List ρ :=
  s.cells.filterMap fun c => c.committed.filter p

/-- What the transaction has written that satisfies the condition. -/
def own (p : ρ → Bool) (t : τ) (s : State τ ρ) : List ρ :=
  s.cells.filterMap fun c => if c.lockedBy t then c.written.filter p else none

/-- A transaction that commits has locked every live row, or has nothing to insert. -/
def Covers (p : ρ → Bool) (s : State τ ρ) : Action τ → Prop
  | .commit t => (calls t).rows = [] ∨
      ∀ c ∈ s.cells, ∀ r ∈ c.committed, p r = true → c.lockedBy t = true
  | _ => True

/-- `Covers`, computed. -/
def covers (p : ρ → Bool) (s : State τ ρ) : Action τ → Bool
  | .commit t => (calls t).rows.isEmpty ||
      s.cells.all fun c => c.committed.all fun r => !p r || c.lockedBy t
  | _ => true

/-- The transactions replace the rows that satisfy the condition. -/
structure Replaces (p : ρ → Bool) : Prop where
  cond : ∀ t, (calls t).cond = p
  change : ∀ t r, p r = true → ∀ r' ∈ (calls t).change r, p r' = false
  rows : ∀ t, ∀ r ∈ (calls t).rows, p r = true

variable {conflict calls} {p : ρ → Bool} {s s' : State τ ρ} {t u : τ} {a : Action τ} {c : Cell τ ρ}

theorem covers_iff : covers calls p s a = true ↔ Covers calls p s a := by
  cases a with
  | commit t => simp [covers, Covers, or_iff_not_imp_left, Option.all_eq_true]
  | _ => simp [covers, Covers]

/-! ## One row -/

namespace Cell

theorem lockedBy_eq_true : c.lockedBy t = true ↔ ∃ row, c.pending = some (t, row) := by
  unfold lockedBy
  cases hc : c.pending with
  | none => simp
  | some v =>
      obtain ⟨w, row⟩ := v
      simp

/-- One transaction has the lock. -/
theorem lockedBy_unique (h : c.lockedBy t = true) (h' : c.lockedBy u = true) : t = u := by
  obtain ⟨row, hrow⟩ := lockedBy_eq_true.1 h
  obtain ⟨row', hrow'⟩ := lockedBy_eq_true.1 h'
  rw [hrow, Option.some.injEq, Prod.mk.injEq] at hrow'
  exact hrow'.1

theorem lockedBy_of_ne (h : c.lockedBy t = true) (hu : u ≠ t) : c.lockedBy u = false := by
  by_contra hl
  exact hu (lockedBy_unique (by simpa using hl) h)

theorem lockedBy_of_pending {row : Option ρ} (h : c.pending = some (t, row)) (u : τ) :
    c.lockedBy u = decide (t = u) := by
  simp [lockedBy, h]

theorem lockedBy_of_none (h : c.pending = none) (u : τ) : c.lockedBy u = false := by
  simp [lockedBy, h]

/-- A row that no other transaction has locked. -/
theorem free_or_mine (h : c.lockedByOther t = false) : c.pending = none ∨ c.lockedBy t = true := by
  cases hc : c.pending with
  | none => exact .inl rfl
  | some v =>
      right
      simpa [lockedByOther, lockedBy, hc] using h

/-- The first statement changes a row that satisfies its condition, if it has not changed it
already. -/
theorem changeBy_cases (hr : Replaces calls p) (hother : c.lockedByOther t = false)
    (hown : c.lockedBy t = true → c.written.filter p = none) :
    (c.pending = none ∧ ∃ r, c.committed = some r ∧ p r = true ∧
      c.changeBy t (calls t) = { c with pending := some (t, (calls t).change r) }) ∨
    c.changeBy t (calls t) = c ∧ ∀ r ∈ c.committed, p r = true → c.lockedBy t = true := by
  rcases free_or_mine hother with hfree | hmine
  · have hseen : c.seenBy t = c.committed := by
      simp [seenBy, lockedBy_of_none hfree]
    cases hc : c.committed with
    | none =>
        refine .inr ⟨?_, by rintro r ⟨⟩⟩
        simp [changeBy, hseen, hc]
    | some r =>
        by_cases hp : p r = true
        · exact .inl ⟨hfree, r, rfl, hp, by simp [changeBy, hseen, hc, hr.cond, hp]⟩
        · refine .inr ⟨by simp [changeBy, hseen, hc, hr.cond, hp], ?_⟩
          intro r' hr' hp'
          rw [Option.mem_some_iff] at hr'
          exact absurd (hr' ▸ hp') hp
  · refine .inr ⟨?_, fun _ _ _ => hmine⟩
    have hseen : c.seenBy t = c.written := by simp [seenBy, hmine]
    cases hw : c.written with
    | none => simp [changeBy, hseen, hw]
    | some r =>
        have hp : ¬ p r = true := by
          intro hp
          have hnone := hown hmine
          simp [hw, hp] at hnone
        simp [changeBy, hseen, hw, hr.cond, hp]

/-- Another transaction's row is the same after a commit, and so is a free one. -/
theorem commitBy_of_not (h : c.lockedBy t = false) : c.commitBy t = c := by
  simp [commitBy, h]

theorem commitBy_of_locked (h : c.lockedBy t = true) : c.commitBy t = ⟨c.written, none⟩ := by
  simp [commitBy, h]

theorem abortBy_committed (t : τ) (c : Cell τ ρ) : (c.abortBy t).committed = c.committed := by
  unfold abortBy
  split <;> rfl

theorem abortBy_pending (t : τ) (c : Cell τ ρ) :
    (c.abortBy t).pending = if c.lockedBy t = true then none else c.pending := by
  unfold abortBy
  split <;> rfl

theorem abortBy_lockedBy (h : u ≠ t) (c : Cell τ ρ) : (c.abortBy t).lockedBy u = c.lockedBy u := by
  by_cases hl : c.lockedBy t = true
  · rw [lockedBy_of_ne hl h]
    exact lockedBy_of_none (by rw [abortBy_pending, if_pos hl]) u
  · rw [abortBy, if_neg hl]

end Cell

/-! ## The steps -/

/-- What a step does. -/
inductive Move (conflict : ρ → ρ → Bool) (calls : τ → Program ρ) (s : State τ ρ) :
    Action τ → State τ ρ → Prop
  | begin (t : τ) : s.phase t = .idle →
      Move conflict calls s (.begin t) (s.goto t (.changing (s.matching t (calls t).cond)))
  | change (t : τ) (i : ℕ) (todo : List ℕ) : s.phase t = .changing todo → i ∈ todo →
      (∀ c, s.cells[i]? = some c → c.lockedByOther t = false) →
      Move conflict calls s (.change t i)
        { cells := s.cells.modify i (Cell.changeBy t (calls t))
          phase := Function.update s.phase t (.changing (todo.erase i)) }
  | next (t : τ) : s.phase t = .changing [] →
      Move conflict calls s (.next t) (s.goto t (.inserting (calls t).rows))
  | insert (t : τ) (r : ρ) (rs : List ρ) : s.phase t = .inserting (r :: rs) →
      (∀ c ∈ s.cells, c.blocks conflict t r = false ∧ c.violates conflict t r = false) →
      Move conflict calls s (.insert t)
        { cells := s.cells ++ [Cell.inserted t r], phase := Function.update s.phase t (.inserting rs) }
  | commit (t : τ) : s.phase t = .inserting [] →
      Move conflict calls s (.commit t)
        { cells := s.cells.map (Cell.commitBy t), phase := Function.update s.phase t .committed }
  /-- A transaction is rolled back, by itself or for a violation. -/
  | rollback {a : Action τ} (t : τ) : (s.phase t).isOpen = true →
      Move conflict calls s a (s.abort t)

theorem step_move (h : step conflict calls s a = some s') : Move conflict calls s a s' := by
  cases a with
  | begin t =>
      simp only [step] at h
      split at h
      · rename_i hp
        cases h
        exact .begin t hp
      · cases h
  | change t i =>
      simp only [step] at h
      split at h
      · rename_i todo hp
        split_ifs at h with hi
        cases h
        refine .change t i todo hp hi.1 fun c hc => ?_
        simpa [hc] using hi.2
      · cases h
  | next t =>
      simp only [step] at h
      split at h
      · rename_i hp
        cases h
        exact .next t hp
      · cases h
  | insert t =>
      simp only [step] at h
      split at h
      · rename_i r rs hp
        split_ifs at h with hblocks hviolates
        · cases h
          exact .rollback t (by rw [hp]; rfl)
        · cases h
          refine .insert t r rs hp fun c hc => ?_
          rw [List.any_eq_true, not_exists] at hblocks hviolates
          exact ⟨by simpa [hc] using hblocks c, by simpa [hc] using hviolates c⟩
      · cases h
  | commit t =>
      simp only [step] at h
      split at h
      · rename_i hp
        cases h
        exact .commit t hp
      · cases h
  | abort t =>
      simp only [step, Option.ite_none_right_eq_some, Option.some.injEq] at h
      obtain ⟨hopen, rfl⟩ := h
      exact .rollback t hopen

/-! ## The invariant -/

/-- The rows that a transaction still has to insert, while it is open. -/
def Phase.left (rows : List ρ) : Phase ρ → Option (List ρ)
  | .changing _ => some rows
  | .inserting todo => some todo
  | .idle | .committed | .aborted => none

/-- What a lock is for: a new row, or a live row that is changed. -/
def Cell.Written (p : ρ → Bool) (c : Cell τ ρ) (row : Option ρ) : Prop :=
  (c.committed = none ∧ ∃ r, row = some r ∧ p r = true) ∨
  ∃ r, c.committed = some r ∧ p r = true ∧ row.filter p = none

/-- The transaction has locked every live row, or has still to look at it. -/
def Seen (p : ρ → Bool) (s : State τ ρ) (t : τ) : Prop :=
  ∀ i c, s.cells[i]? = some c → ∀ r, c.committed = some r → p r = true →
    c.lockedBy t = true ∨ i ∈ (s.phase t).todo

/-- The live rows are those of a transaction. -/
def Settled (calls : τ → Program ρ) (p : ρ → Bool) (s : State τ ρ) : Prop :=
  ∃ u, s.phase u = .committed ∧ live p s = (calls u).rows

/-- The first statement has seen no live row: they were committed after it began. -/
def Missed (p : ρ → Bool) (s : State τ ρ) (t : τ) : Prop :=
  ∀ i c, s.cells[i]? = some c → ∀ r, c.committed = some r → p r = true →
    c.lockedBy t = false ∧ i ∉ (s.phase t).todo

structure Inv (calls : τ → Program ρ) (p : ρ → Bool) (rows : List ρ) (s : State τ ρ) : Prop where
  locks : ∀ c ∈ s.cells, ∀ t row, c.pending = some (t, row) →
    (s.phase t).isOpen = true ∧ c.Written p row
  writes : ∀ t left, (s.phase t).left (calls t).rows = some left → own p t s ++ left = (calls t).rows
  todos : ∀ t, ∀ i ∈ (s.phase t).todo, ∃ c, s.cells[i]? = some c ∧
    (c.committed = none → c.pending = none)
  sees : ∀ t, (s.phase t).isOpen = true → Seen p s t ∨ Missed p s t ∧ Settled calls p s
  settled : Settled calls p s ∨ (∀ u, s.phase u ≠ .committed) ∧ live p s = rows.filter p

variable {rows : List ρ} {r : ρ} {rs : List ρ} {i : ℕ} {todo : List ℕ}

theorem inv_init (rows : List ρ) : Inv calls p rows (init rows : State τ ρ) where
  locks := by
    intro c hc t row hp
    obtain ⟨r, -, rfl⟩ := List.mem_map.1 hc
    cases hp
  writes := by rintro t left ⟨⟩
  todos := by rintro t i ⟨⟩
  sees := by rintro t ⟨⟩
  settled := by
    refine .inr ⟨by rintro u ⟨⟩, ?_⟩
    rw [live, init, List.filterMap_map]
    induction rows with
    | nil => rfl
    | cons r rs ih =>
        rw [List.filterMap_cons, ih, List.filter_cons]
        by_cases hp : p r = true <;> simp [Option.filter, hp]

/-! ## Lists of rows -/

section Lists

variable {α β : Type*}

/-- A view of the rows that a change of one row respects. -/
theorem filterMap_modify {f : α → α} {g : α → Option β} :
    ∀ (l : List α) (i : ℕ), (∀ a, l[i]? = some a → g (f a) = g a) →
      (l.modify i f).filterMap g = l.filterMap g := by
  intro l
  induction l with
  | nil => intro i _; simp
  | cons a l ih =>
      intro i h
      cases i with
      | zero => simp [List.filterMap_cons, h a rfl]
      | succ i => simp [List.filterMap_cons, ih i h]

theorem mem_modify {l : List α} {f : α → α} {i : ℕ} {x : α} (h : x ∈ l.modify i f) :
    x ∈ l ∨ ∃ y, l[i]? = some y ∧ x = f y := by
  obtain ⟨j, hj⟩ := List.mem_iff_getElem?.1 h
  rw [List.getElem?_modify] at hj
  obtain ⟨y, hy, rfl⟩ := Option.map_eq_some_iff.1 hj
  by_cases hij : i = j
  · rw [if_pos hij]
    exact .inr ⟨y, hij ▸ hy, rfl⟩
  · rw [if_neg hij]
    exact .inl (List.mem_of_getElem? hy)

/-- Rows of two kinds, put together. -/
theorem perm_filterMap_or {f g h : α → Option β} {l : List α}
    (hl : ∀ a ∈ l, h a = f a ∧ g a = none ∨ h a = g a ∧ f a = none) :
    (l.filterMap h).Perm (l.filterMap f ++ l.filterMap g) := by
  induction l with
  | nil => exact .nil
  | cons a l ih =>
      have hrest := ih fun b hb => hl b (List.mem_cons_of_mem _ hb)
      rcases hl a List.mem_cons_self with ⟨hh, hg⟩ | ⟨hh, hf⟩
      · simp only [List.filterMap_cons, hh, hg]
        cases f a with
        | none => exact hrest
        | some b => exact hrest.cons b
      · simp only [List.filterMap_cons, hh, hf]
        cases g a with
        | none => exact hrest
        | some b => exact (hrest.cons b).trans List.perm_middle.symm

end Lists

/-! ## What the steps keep -/

theorem Inv.locked (h : Inv calls p rows s) (hc : c ∈ s.cells) (hl : c.lockedBy t = true) :
    (s.phase t).isOpen = true ∧ c.Written p c.written := by
  obtain ⟨row, hrow⟩ := Cell.lockedBy_eq_true.1 hl
  obtain ⟨hopen, hw⟩ := h.locks c hc t row hrow
  refine ⟨hopen, ?_⟩
  rw [Cell.written, hrow]
  exact hw

/-- A transaction that is not open has locked nothing. -/
theorem Inv.lockedBy_eq_false (h : Inv calls p rows s) (ht : (s.phase t).isOpen = false)
    (hc : c ∈ s.cells) : c.lockedBy t = false := by
  by_contra hl
  rw [(h.locked hc (by simpa using hl)).1] at ht
  cases ht

/-- A transaction that is still at its first statement has written no row that satisfies the
condition. -/
theorem Inv.written_of_changing (h : Inv calls p rows s) (hp : s.phase t = .changing todo)
    (hc : c ∈ s.cells) (hl : c.lockedBy t = true) : c.written.filter p = none := by
  have hown : own p t s = [] := by
    have heq := h.writes t (calls t).rows (by rw [hp]; rfl)
    exact List.self_eq_append_left.1 heq.symm
  have hnone := List.filterMap_eq_nil_iff.1 hown c hc
  rwa [if_pos hl] at hnone

theorem Seen.congr (h : Seen p s t)
    (hcells : ∀ (i : ℕ) (c' : Cell τ ρ), s'.cells[i]? = some c' → ∀ r, c'.committed = some r →
      p r = true → ∃ c : Cell τ ρ, s.cells[i]? = some c ∧ c.committed = some r ∧
        c'.lockedBy t = c.lockedBy t)
    (htodo : (s'.phase t).todo = (s.phase t).todo) : Seen p s' t := by
  intro i c' hc' r hr hp
  obtain ⟨c, hc, hr', hl⟩ := hcells i c' hc' r hr hp
  rw [hl, htodo]
  exact h i c hc r hr' hp

theorem Missed.congr (h : Missed p s t)
    (hcells : ∀ (i : ℕ) (c' : Cell τ ρ), s'.cells[i]? = some c' → ∀ r, c'.committed = some r →
      p r = true → ∃ c : Cell τ ρ, s.cells[i]? = some c ∧ c.committed = some r ∧
        c'.lockedBy t = c.lockedBy t)
    (htodo : (s'.phase t).todo = (s.phase t).todo) : Missed p s' t := by
  intro i c' hc' r hr hp
  obtain ⟨c, hc, hr', hl⟩ := hcells i c' hc' r hr hp
  rw [hl, htodo]
  exact h i c hc r hr' hp

omit [DecidableEq τ] in
theorem Settled.congr (h : Settled calls p s) (hlive : live p s' = live p s)
    (hcommitted : ∀ u, s.phase u = .committed → s'.phase u = .committed) :
    Settled calls p s' := by
  obtain ⟨u, hu, hrows⟩ := h
  exact ⟨u, hcommitted u hu, hlive.trans hrows⟩

/-- What is known of another transaction, when a step changes neither its locks nor what is
live. -/
theorem Inv.sees_congr (h : Inv calls p rows s) (hopen : (s.phase t).isOpen = true)
    (hcells : ∀ (i : ℕ) (c' : Cell τ ρ), s'.cells[i]? = some c' → ∀ r, c'.committed = some r →
      p r = true → ∃ c : Cell τ ρ, s.cells[i]? = some c ∧ c.committed = some r ∧
        c'.lockedBy t = c.lockedBy t)
    (htodo : (s'.phase t).todo = (s.phase t).todo) (hlive : live p s' = live p s)
    (hcommitted : ∀ u, s.phase u = .committed → s'.phase u = .committed) :
    Seen p s' t ∨ Missed p s' t ∧ Settled calls p s' := by
  rcases h.sees t hopen with hseen | ⟨hmissed, hsettled⟩
  · exact .inl (hseen.congr hcells htodo)
  · exact .inr ⟨hmissed.congr hcells htodo, hsettled.congr hlive hcommitted⟩

/-- What is live stays live, and nothing is committed. -/
theorem Inv.live_congr (h : Inv calls p rows s) (hlive : live p s' = live p s)
    (hcommitted : ∀ u, s'.phase u = .committed ↔ s.phase u = .committed) :
    Settled calls p s' ∨ (∀ u, s'.phase u ≠ .committed) ∧ live p s' = rows.filter p := by
  rcases h.settled with hsettled | ⟨hnone, hrows⟩
  · exact .inl (hsettled.congr hlive fun u => (hcommitted u).2)
  · exact .inr ⟨fun u hu => hnone u ((hcommitted u).1 hu), hlive.trans hrows⟩

/-- A transaction goes from one phase to another, neither of them committed. -/
theorem committed_update {q : Phase ρ} (ht : s.phase t ≠ .committed) (hq : q ≠ .committed) (u : τ) :
    Function.update s.phase t q u = .committed ↔ s.phase u = .committed := by
  by_cases hu : u = t
  · rw [hu, Function.update_self]
    exact ⟨fun h => absurd h hq, fun h => absurd h ht⟩
  · rw [Function.update_of_ne hu]

/-- A first statement begins. -/
theorem Inv.begin (hr : Replaces calls p) (h : Inv calls p rows s) (ht : s.phase t = .idle) :
    Inv calls p rows (s.goto t (.changing (s.matching t (calls t).cond))) := by
  have hclosed : (s.phase t).isOpen = false := by rw [ht]; rfl
  have hseen : ∀ c ∈ s.cells, c.seenBy t = c.committed := by
    intro c hc
    rw [Cell.seenBy, h.lockedBy_eq_false hclosed hc]
    rfl
  have hcommitted := committed_update (s := s) (t := t)
    (q := .changing (s.matching t (calls t).cond)) (by rw [ht]; rintro ⟨⟩) (by rintro ⟨⟩)
  refine ⟨?_, ?_, ?_, ?_, h.live_congr rfl hcommitted⟩
  · intro c hc u row hrow
    obtain ⟨hopen, hw⟩ := h.locks c hc u row hrow
    refine ⟨?_, hw⟩
    have hu : u ≠ t := by
      rintro rfl
      rw [hclosed] at hopen
      cases hopen
    simp only [State.goto, Function.update_of_ne hu]
    exact hopen
  · intro u left hleft
    by_cases hu : u = t
    · subst hu
      simp only [State.goto, Function.update_self, Phase.left, Option.some.injEq] at hleft
      have hown : own p u s = [] := by
        refine List.filterMap_eq_nil_iff.2 fun c hc => ?_
        rw [h.lockedBy_eq_false hclosed hc]
        rfl
      show own p u s ++ left = _
      rw [hown, hleft]
      rfl
    · simp only [State.goto, Function.update_of_ne hu] at hleft
      exact h.writes u left hleft
  · intro u i hi
    by_cases hu : u = t
    · subst hu
      simp only [State.goto, Function.update_self, Phase.todo, State.matching, List.mem_filter,
        List.mem_range] at hi
      have hc : s.cells[i]? = some s.cells[i] := List.getElem?_eq_getElem hi.1
      refine ⟨s.cells[i], hc, fun hnone => ?_⟩
      have hmatch := hi.2
      rw [hc, Option.bind_some, hseen _ (List.getElem_mem hi.1), hnone] at hmatch
      cases hmatch
    · simp only [State.goto, Function.update_of_ne hu] at hi
      exact h.todos u i hi
  · intro u hopen
    by_cases hu : u = t
    · subst hu
      left
      intro i c hc r hcr hp
      right
      simp only [State.goto, Function.update_self, Phase.todo, State.matching, List.mem_filter,
        List.mem_range]
      obtain ⟨hi, -⟩ := List.getElem?_eq_some_iff.1 hc
      refine ⟨hi, ?_⟩
      have hc' : s.cells[i]? = some c := hc
      rw [hc', Option.bind_some, hseen c (List.mem_of_getElem? hc), hcr, hr.cond]
      exact hp
    · simp only [State.goto, Function.update_of_ne hu] at hopen
      refine h.sees_congr hopen (fun i c' hc' r hcr _ => ⟨c', hc', hcr, rfl⟩) ?_ rfl
        fun v hv => (hcommitted v).2 hv
      simp only [State.goto, Function.update_of_ne hu]

/-- A transaction that goes on stays open. -/
theorem isOpen_update {q : Phase ρ} (hq : q.isOpen = true) (h : (s.phase u).isOpen = true) :
    (Function.update s.phase t q u).isOpen = true := by
  by_cases hu : u = t
  · rw [hu, Function.update_self]
    exact hq
  · rw [Function.update_of_ne hu]
    exact h

/-- A second statement begins. -/
theorem Inv.next (h : Inv calls p rows s) (ht : s.phase t = .changing []) :
    Inv calls p rows (s.goto t (.inserting (calls t).rows)) := by
  have hcommitted := committed_update (s := s) (t := t) (q := .inserting (calls t).rows)
    (by rw [ht]; rintro ⟨⟩) (by rintro ⟨⟩)
  have htodo : ∀ u, ((s.goto t (.inserting (calls t).rows)).phase u).todo = (s.phase u).todo := by
    intro u
    by_cases hu : u = t
    · subst hu
      simp only [State.goto, Function.update_self, ht, Phase.todo]
    · simp only [State.goto, Function.update_of_ne hu]
  refine ⟨?_, ?_, ?_, ?_, h.live_congr rfl hcommitted⟩
  · intro c hc u row hrow
    obtain ⟨hopen, hw⟩ := h.locks c hc u row hrow
    exact ⟨isOpen_update rfl hopen, hw⟩
  · intro u left hleft
    by_cases hu : u = t
    · subst hu
      simp only [State.goto, Function.update_self] at hleft
      exact h.writes u left (by rw [ht]; exact hleft)
    · simp only [State.goto, Function.update_of_ne hu] at hleft
      exact h.writes u left hleft
  · intro u i hi
    rw [htodo] at hi
    exact h.todos u i hi
  · intro u hopen
    have hopen' : (s.phase u).isOpen = true := by
      by_cases hu : u = t
      · rw [hu, ht]
        rfl
      · simpa only [State.goto, Function.update_of_ne hu] using hopen
    exact h.sees_congr hopen' (fun i c' hc' r hcr _ => ⟨c', hc', hcr, rfl⟩) (htodo u) rfl
      fun v hv => (hcommitted v).2 hv

/-- A transaction is rolled back. -/
theorem Inv.abort (h : Inv calls p rows s) (ht : (s.phase t).isOpen = true) :
    Inv calls p rows (s.abort t) := by
  have hcommitted := committed_update (s := s) (t := t) (q := .aborted)
    (by intro hp; rw [hp] at ht; cases ht) (by rintro ⟨⟩)
  have hlive : live p (s.abort t) = live p s := by
    rw [live, State.abort, List.filterMap_map]
    exact List.filterMap_congr fun c _ => by simp [Cell.abortBy_committed]
  refine ⟨?_, ?_, ?_, ?_, h.live_congr hlive hcommitted⟩
  · intro c' hc' u row hrow
    obtain ⟨c, hc, rfl⟩ := List.mem_map.1 hc'
    rw [Cell.abortBy_pending] at hrow
    split_ifs at hrow with hl
    obtain ⟨hopen, hw⟩ := h.locks c hc u row hrow
    have hu : u ≠ t := by
      rintro rfl
      exact hl (Cell.lockedBy_eq_true.2 ⟨row, hrow⟩)
    refine ⟨by simpa only [State.abort, Function.update_of_ne hu] using hopen, ?_⟩
    rw [Cell.Written, Cell.abortBy_committed]
    exact hw
  · intro u left hleft
    by_cases hu : u = t
    · subst hu
      simp only [State.abort, Function.update_self] at hleft
      cases hleft
    · simp only [State.abort, Function.update_of_ne hu] at hleft
      rw [← h.writes u left hleft]
      congr 1
      rw [own, State.abort, List.filterMap_map]
      refine List.filterMap_congr fun c _ => ?_
      by_cases hl : c.lockedBy t = true
      · simp [Cell.abortBy_lockedBy hu, Cell.lockedBy_of_ne hl hu]
      · simp [Cell.abortBy, hl]
  · intro u i hi
    by_cases hu : u = t
    · subst hu
      simp only [State.abort, Function.update_self] at hi
      cases hi
    · simp only [State.abort, Function.update_of_ne hu] at hi
      obtain ⟨c, hc, hfree⟩ := h.todos u i hi
      refine ⟨c.abortBy t, by simp [State.abort, hc], fun hnone => ?_⟩
      rw [Cell.abortBy_committed] at hnone
      rw [Cell.abortBy_pending, hfree hnone, ite_self]
  · intro u hopen
    by_cases hu : u = t
    · subst hu
      simp only [State.abort, Function.update_self] at hopen
      cases hopen
    · simp only [State.abort, Function.update_of_ne hu] at hopen
      refine h.sees_congr hopen ?_ (by simp only [State.abort, Function.update_of_ne hu]) hlive
        fun v hv => (hcommitted v).2 hv
      intro i c' hc' r hcr _
      simp only [State.abort, List.getElem?_map, Option.map_eq_some_iff] at hc'
      obtain ⟨c, hc, rfl⟩ := hc'
      exact ⟨c, hc, by rw [← hcr, Cell.abortBy_committed], Cell.abortBy_lockedBy hu c⟩

/-- A row is inserted. -/
theorem Inv.insert (hr : Replaces calls p) (h : Inv calls p rows s)
    (ht : s.phase t = .inserting (r :: rs)) :
    Inv calls p rows { cells := s.cells ++ [Cell.inserted t r]
                       phase := Function.update s.phase t (.inserting rs) } := by
  have hcommitted := committed_update (s := s) (t := t) (q := .inserting rs)
    (by rw [ht]; rintro ⟨⟩) (by rintro ⟨⟩)
  have hopen : (s.phase t).isOpen = true := by rw [ht]; rfl
  have hwrites := h.writes t (r :: rs) (by rw [ht]; rfl)
  have hp : p r = true := hr.rows t r (by rw [← hwrites]; simp)
  have hlocked : ∀ u, (Cell.inserted t r).lockedBy u = decide (t = u) :=
    Cell.lockedBy_of_pending rfl
  have hlive : live p { cells := s.cells ++ [Cell.inserted t r]
                        phase := Function.update s.phase t (.inserting rs) } = live p s := by
    simp [live, List.filterMap_append, Cell.inserted]
  have htodo : ∀ u, (Function.update s.phase t (.inserting rs) u).todo = (s.phase u).todo := by
    intro u
    by_cases hu : u = t
    · subst hu
      simp only [Function.update_self, ht, Phase.todo]
    · rw [Function.update_of_ne hu]
  refine ⟨?_, ?_, ?_, ?_, h.live_congr hlive hcommitted⟩
  · intro c hc u row hrow
    rcases List.mem_append.1 hc with hc | hc
    · obtain ⟨hopen', hw⟩ := h.locks c hc u row hrow
      exact ⟨isOpen_update rfl hopen', hw⟩
    · rw [List.mem_singleton.1 hc] at hrow ⊢
      cases hrow
      exact ⟨isOpen_update rfl hopen, .inl ⟨rfl, r, rfl, hp⟩⟩
  · intro u left hleft
    have hown : own p u { cells := s.cells ++ [Cell.inserted t r]
                          phase := Function.update s.phase t (.inserting rs) } =
        own p u s ++ if t = u then [r] else [] := by
      have hw : (Cell.inserted t r).written.filter p = some r := by
        simp [Cell.inserted, Cell.written, Option.filter, hp]
      rw [own, List.filterMap_append, List.filterMap_cons, hlocked, hw]
      by_cases hu : t = u <;> simp [own, hu]
    rw [hown]
    by_cases hu : u = t
    · subst hu
      simp only [Function.update_self, Phase.left, Option.some.injEq] at hleft
      rw [if_pos rfl, ← hleft, List.append_assoc]
      exact hwrites
    · simp only [Function.update_of_ne hu] at hleft
      rw [if_neg (Ne.symm hu), List.append_nil]
      exact h.writes u left hleft
  · intro u i hi
    have hi' : i ∈ (s.phase u).todo := by
      rw [← htodo u]
      exact hi
    obtain ⟨c, hc, hfree⟩ := h.todos u i hi'
    refine ⟨c, ?_, hfree⟩
    rw [List.getElem?_append_left (List.getElem?_eq_some_iff.1 hc).1]
    exact hc
  · intro u hopen'
    have hopenu : (s.phase u).isOpen = true := by
      by_cases hu : u = t
      · rw [hu]
        exact hopen
      · simpa only [Function.update_of_ne hu] using hopen'
    refine h.sees_congr hopenu ?_ (htodo u) hlive fun v hv => (hcommitted v).2 hv
    intro i c' hc' r' hcr _
    -- the new row is not committed
    rcases Nat.lt_or_ge i s.cells.length with hi | hi
    · rw [List.getElem?_append_left hi] at hc'
      exact ⟨c', hc', hcr, rfl⟩
    · rw [List.getElem?_append_right hi] at hc'
      have hmem := List.mem_of_getElem? hc'
      rw [List.mem_singleton.1 hmem] at hcr
      cases hcr

/-! ## The first statement looks at a row -/

/-- The state after it has looked at a row. -/
def State.change (s : State τ ρ) (t : τ) (program : Program ρ) (i : ℕ) (todo : List ℕ) :
    State τ ρ :=
  { cells := s.cells.modify i (Cell.changeBy t program)
    phase := Function.update s.phase t (.changing (todo.erase i)) }

section Change

variable (hr : Replaces calls p) (h : Inv calls p rows s) (ht : s.phase t = .changing todo)
  (hother : ∀ c, s.cells[i]? = some c → c.lockedByOther t = false)
include hr h ht hother

/-- It changes the row, or has changed it already, or the row does not satisfy its condition. -/
theorem Inv.changeBy_cases (hc : s.cells[i]? = some c) :
    (c.pending = none ∧ ∃ r, c.committed = some r ∧ p r = true ∧
      ((calls t).change r).filter p = none ∧
      c.changeBy t (calls t) = { c with pending := some (t, (calls t).change r) }) ∨
    c.changeBy t (calls t) = c ∧ ∀ r ∈ c.committed, p r = true → c.lockedBy t = true := by
  have hown := h.written_of_changing ht (List.mem_of_getElem? hc)
  rcases Cell.changeBy_cases hr (hother c hc) hown with ⟨hfree, r, hcr, hp, heq⟩ | hkept
  · refine .inl ⟨hfree, r, hcr, hp, ?_, heq⟩
    exact Option.filter_eq_none_iff.2 fun r' hr' => by simp [hr.change t r hp r' hr']
  · exact .inr hkept

theorem Inv.changeBy_committed (hc : s.cells[i]? = some c) :
    (c.changeBy t (calls t)).committed = c.committed := by
  rcases h.changeBy_cases hr ht hother hc with ⟨-, r, -, -, -, heq⟩ | ⟨heq, -⟩ <;> rw [heq]

theorem Inv.changeBy_lockedBy (hc : s.cells[i]? = some c) (hu : u ≠ t) :
    (c.changeBy t (calls t)).lockedBy u = c.lockedBy u := by
  rcases h.changeBy_cases hr ht hother hc with ⟨hfree, r, -, -, -, heq⟩ | ⟨heq, -⟩
  · rw [heq, Cell.lockedBy_of_none hfree, Cell.lockedBy_of_pending rfl]
    simpa using Ne.symm hu
  · rw [heq]

theorem Inv.live_change : live p (s.change t (calls t) i todo) = live p s :=
  filterMap_modify s.cells i fun c hc => by rw [h.changeBy_committed hr ht hother hc]

/-- What the row becomes does not satisfy the condition. -/
theorem Inv.own_change (u : τ) : own p u (s.change t (calls t) i todo) = own p u s := by
  refine filterMap_modify s.cells i fun c hc => ?_
  rcases h.changeBy_cases hr ht hother hc with ⟨hfree, r, -, -, hnone, heq⟩ | ⟨heq, -⟩
  · rw [heq, Cell.lockedBy_of_none hfree, Cell.written, Option.bind_some, hnone, ite_self]
    rfl
  · rw [heq]

/-- The rows afterwards. -/
theorem Inv.getElem?_change {j : ℕ} {c' : Cell τ ρ}
    (hc' : (s.change t (calls t) i todo).cells[j]? = some c') :
    ∃ c, s.cells[j]? = some c ∧ c'.committed = c.committed ∧
      (j = i ∧ c' = c.changeBy t (calls t) ∨ j ≠ i ∧ c' = c) := by
  rw [State.change, List.getElem?_modify] at hc'
  obtain ⟨c, hc, rfl⟩ := Option.map_eq_some_iff.1 hc'
  by_cases hij : i = j
  · rw [if_pos hij]
    exact ⟨c, hc, h.changeBy_committed hr ht hother (hij ▸ hc), .inl ⟨hij.symm, rfl⟩⟩
  · rw [if_neg hij]
    exact ⟨c, hc, rfl, .inr ⟨Ne.symm hij, rfl⟩⟩

theorem Inv.seen_change (hseen : Seen p s t) : Seen p (s.change t (calls t) i todo) t := by
  intro j c' hc' r hcr hp
  obtain ⟨c, hc, hsame, ⟨rfl, rfl⟩ | ⟨hji, rfl⟩⟩ := h.getElem?_change hr ht hother hc'
  · left
    rw [hsame] at hcr
    rcases h.changeBy_cases hr ht hother hc with ⟨-, r', -, -, -, heq⟩ | ⟨heq, hmine⟩
    · rw [heq, Cell.lockedBy_of_pending rfl]
      simp
    · rw [heq]
      exact hmine r hcr hp
  · rcases hseen j c' hc r hcr hp with hl | hj
    · exact .inl hl
    · right
      rw [ht] at hj
      simp only [State.change, Function.update_self]
      exact (List.mem_erase_of_ne hji).2 hj

/-- A row that it has to look at is not live. -/
theorem Inv.missed_change (hi : i ∈ todo) (hmissed : Missed p s t) :
    Missed p (s.change t (calls t) i todo) t := by
  intro j c' hc' r hcr hp
  obtain ⟨c, hc, hsame, ⟨rfl, rfl⟩ | ⟨hji, rfl⟩⟩ := h.getElem?_change hr ht hother hc'
  · rw [hsame] at hcr
    have hmiss := (hmissed j c hc r hcr hp).2
    rw [ht] at hmiss
    exact absurd hi hmiss
  · obtain ⟨hl, hj⟩ := hmissed j c' hc r hcr hp
    refine ⟨hl, fun hmem => hj ?_⟩
    simp only [State.change, Function.update_self] at hmem
    rw [ht]
    exact List.mem_of_mem_erase hmem

theorem Inv.change (hi : i ∈ todo) : Inv calls p rows (s.change t (calls t) i todo) := by
  have hcommitted := committed_update (s := s) (t := t) (q := .changing (todo.erase i))
    (by rw [ht]; rintro ⟨⟩) (by rintro ⟨⟩)
  have hopen : (s.phase t).isOpen = true := by rw [ht]; rfl
  have hlive := h.live_change hr ht hother
  refine ⟨?_, ?_, ?_, ?_, h.live_congr hlive hcommitted⟩
  · intro c' hc' u row hrow
    rcases mem_modify hc' with hc | ⟨c, hc, rfl⟩
    · obtain ⟨hopen', hw⟩ := h.locks c' hc u row hrow
      exact ⟨isOpen_update rfl hopen', hw⟩
    · rcases h.changeBy_cases hr ht hother hc with ⟨-, r, hcr, hp, hnone, heq⟩ | ⟨heq, -⟩
      · rw [heq] at hrow ⊢
        cases hrow
        exact ⟨isOpen_update rfl hopen, .inr ⟨r, hcr, hp, hnone⟩⟩
      · rw [heq] at hrow ⊢
        obtain ⟨hopen', hw⟩ := h.locks c (List.mem_of_getElem? hc) u row hrow
        exact ⟨isOpen_update rfl hopen', hw⟩
  · intro u left hleft
    rw [h.own_change hr ht hother]
    by_cases hu : u = t
    · subst hu
      simp only [State.change, Function.update_self] at hleft
      exact h.writes u left (by rw [ht]; exact hleft)
    · simp only [State.change, Function.update_of_ne hu] at hleft
      exact h.writes u left hleft
  · intro u j hj
    have hj' : j ∈ (s.phase u).todo := by
      by_cases hu : u = t
      · subst hu
        simp only [State.change, Function.update_self] at hj
        rw [ht]
        exact List.mem_of_mem_erase hj
      · simpa only [State.change, Function.update_of_ne hu] using hj
    obtain ⟨c, hc, hfree⟩ := h.todos u j hj'
    by_cases hij : i = j
    · subst hij
      refine ⟨c.changeBy t (calls t), by simp [State.change, hc], fun hnone => ?_⟩
      rcases h.changeBy_cases hr ht hother hc with ⟨-, r, hcr, -, -, heq⟩ | ⟨heq, -⟩
      · rw [heq, hcr] at hnone
        cases hnone
      · rw [heq] at hnone ⊢
        exact hfree hnone
    · exact ⟨c, by simp [State.change, hc, hij], hfree⟩
  · intro u hopen'
    by_cases hu : u = t
    · subst hu
      rcases h.sees u hopen with hseen | ⟨hmissed, hsettled⟩
      · exact .inl (h.seen_change hr ht hother hseen)
      · exact .inr ⟨h.missed_change hr ht hother hi hmissed,
          hsettled.congr hlive fun v hv => (hcommitted v).2 hv⟩
    · have hopenu : (s.phase u).isOpen = true := by
        simpa only [State.change, Function.update_of_ne hu] using hopen'
      refine h.sees_congr hopenu ?_ (by simp only [State.change, Function.update_of_ne hu]) hlive
        fun v hv => (hcommitted v).2 hv
      intro j c' hc' r hcr _
      obtain ⟨c, hc, hsame, ⟨rfl, rfl⟩ | ⟨-, rfl⟩⟩ := h.getElem?_change hr ht hother hc'
      · exact ⟨c, hc, hsame ▸ hcr, h.changeBy_lockedBy hr ht hother hc hu⟩
      · exact ⟨c', hc, hcr, rfl⟩

end Change

/-! ## Commits -/

/-- The state after a commit. -/
def State.commit (s : State τ ρ) (t : τ) : State τ ρ :=
  { cells := s.cells.map (Cell.commitBy t), phase := Function.update s.phase t .committed }

/-- A transaction that is about to commit has written its rows. -/
theorem Inv.own_eq (h : Inv calls p rows s) (ht : s.phase t = .inserting []) :
    own p t s = (calls t).rows := by
  rw [← h.writes t [] (by rw [ht]; rfl), List.append_nil]

/-- The locks of another transaction are not touched. -/
theorem Cell.commitBy_lockedBy (h : u ≠ t) (c : Cell τ ρ) :
    (c.commitBy t).lockedBy u = c.lockedBy u := by
  by_cases hl : c.lockedBy t = true
  · rw [Cell.lockedBy_of_ne hl h, Cell.commitBy_of_locked hl]
    rfl
  · rw [Cell.commitBy, if_neg hl]

theorem commit_phase_of_ne (s : State τ ρ) (h : u ≠ t) : (s.commit t).phase u = s.phase u :=
  Function.update_of_ne h _ _

/-- What is left of the invariant, when the live rows are known. -/
theorem Inv.commit_of (h : Inv calls p rows s)
    (hsees : ∀ u ≠ t, (s.phase u).isOpen = true → Seen p (s.commit t) u ∨
      Missed p (s.commit t) u ∧ Settled calls p (s.commit t))
    (hsettled : Settled calls p (s.commit t)) : Inv calls p rows (s.commit t) := by
  have hself : (s.commit t).phase t = .committed := Function.update_self t _ _
  refine ⟨?_, ?_, ?_, ?_, .inl hsettled⟩
  · intro c' hc' u row hrow
    obtain ⟨c, hc, rfl⟩ := List.mem_map.1 hc'
    by_cases hl : c.lockedBy t = true
    · rw [Cell.commitBy_of_locked hl] at hrow
      cases hrow
    · rw [Cell.commitBy, if_neg hl] at hrow ⊢
      obtain ⟨hopen, hw⟩ := h.locks c hc u row hrow
      have hu : u ≠ t := by
        rintro rfl
        exact hl (Cell.lockedBy_eq_true.2 ⟨row, hrow⟩)
      rw [commit_phase_of_ne s hu]
      exact ⟨hopen, hw⟩
  · intro u left hleft
    by_cases hu : u = t
    · rw [hu, hself] at hleft
      cases hleft
    · rw [commit_phase_of_ne s hu] at hleft
      rw [← h.writes u left hleft]
      congr 1
      rw [own, State.commit, List.filterMap_map]
      refine List.filterMap_congr fun c _ => ?_
      rw [Function.comp_apply, Cell.commitBy_lockedBy hu]
      by_cases hlu : c.lockedBy u = true
      · rw [Cell.commitBy_of_not (Cell.lockedBy_of_ne hlu (Ne.symm hu))]
      · rw [if_neg hlu, if_neg hlu]
  · intro u i hi
    by_cases hu : u = t
    · rw [hu, hself] at hi
      cases hi
    · rw [commit_phase_of_ne s hu] at hi
      obtain ⟨c, hc, hfree⟩ := h.todos u i hi
      refine ⟨c.commitBy t, by simp [State.commit, hc], ?_⟩
      by_cases hl : c.lockedBy t = true
      · rw [Cell.commitBy_of_locked hl]
        exact fun _ => rfl
      · rw [Cell.commitBy, if_neg hl]
        exact hfree
  · intro u hopen
    by_cases hu : u = t
    · rw [hu, hself] at hopen
      cases hopen
    · rw [commit_phase_of_ne s hu] at hopen
      exact hsees u hu hopen

/-- A commit of a transaction that has locked every live row: its own rows are live. -/
theorem Inv.commit_of_all (h : Inv calls p rows s) (ht : s.phase t = .inserting [])
    (hall : ∀ c ∈ s.cells, ∀ r ∈ c.committed, p r = true → c.lockedBy t = true) :
    Inv calls p rows (s.commit t) := by
  have hlive : live p (s.commit t) = (calls t).rows := by
    rw [← h.own_eq ht, live, State.commit, List.filterMap_map]
    refine List.filterMap_congr fun c hc => ?_
    by_cases hl : c.lockedBy t = true
    · rw [Function.comp_apply, Cell.commitBy_of_locked hl, if_pos hl]
    · rw [Function.comp_apply, Cell.commitBy, if_neg hl, if_neg hl, Option.filter_eq_none_iff]
      exact fun r hr hp => hl (hall c hc r hr hp)
  have hsettled : Settled calls p (s.commit t) := ⟨t, Function.update_self t _ _, hlive⟩
  refine h.commit_of (fun u hu hopen => .inr ⟨?_, hsettled⟩) hsettled
  intro i c' hc' r hcr hp
  simp only [State.commit, List.getElem?_map, Option.map_eq_some_iff] at hc'
  obtain ⟨c, hc, rfl⟩ := hc'
  have hmem := List.mem_of_getElem? hc
  rw [commit_phase_of_ne s hu]
  by_cases hl : c.lockedBy t = true
  · rw [Cell.commitBy_of_locked hl] at hcr ⊢
    refine ⟨rfl, fun hi => ?_⟩
    -- the row is new: the other transaction has not seen it
    obtain ⟨c₀, hc₀, hfree⟩ := h.todos u i hi
    rw [hc, Option.some.injEq] at hc₀
    subst hc₀
    obtain ⟨-, ⟨hnone, -⟩ | ⟨r', -, -, hw⟩⟩ := h.locked hmem hl
    · rw [Cell.lockedBy_of_none (hfree hnone)] at hl
      cases hl
    · rw [show c.written = some r from hcr] at hw
      simp [Option.filter, hp] at hw
  · rw [Cell.commitBy, if_neg hl] at hcr
    exact absurd (hall c hmem r hcr hp) hl

/-- The locks of a transaction that has missed the live rows are for its own rows. -/
theorem Inv.committed_eq_none (h : Inv calls p rows s) (hm : Missed p s t) (hc : c ∈ s.cells)
    (hl : c.lockedBy t = true) : c.committed = none ∧ ∃ r, c.written = some r ∧ p r = true := by
  obtain ⟨-, hnew | ⟨r, hcr, hp, -⟩⟩ := h.locked hc hl
  · exact hnew
  · obtain ⟨i, hi⟩ := List.mem_iff_getElem?.1 hc
    rw [(hm i c hi r hcr hp).1] at hl
    cases hl

/-- A commit of a transaction that has missed the live rows, and inserts none, does nothing. -/
theorem Inv.commit_of_nil (h : Inv calls p rows s) (ht : s.phase t = .inserting [])
    (hm : Missed p s t) (hs : Settled calls p s) (hnil : (calls t).rows = []) :
    Inv calls p rows (s.commit t) := by
  have hfree : ∀ c ∈ s.cells, c.lockedBy t = false := by
    intro c hc
    by_contra hl
    rw [Bool.not_eq_false] at hl
    obtain ⟨-, r, hw, hp⟩ := h.committed_eq_none hm hc hl
    have hown := h.own_eq ht
    rw [hnil, own, List.filterMap_eq_nil_iff] at hown
    have hnone := hown c hc
    rw [if_pos hl, hw] at hnone
    simp [Option.filter, hp] at hnone
  have hcells : (s.commit t).cells = s.cells := by
    rw [State.commit]
    exact (List.map_congr_left fun c hc => Cell.commitBy_of_not (hfree c hc)).trans s.cells.map_id
  have hlive : live p (s.commit t) = live p s := by rw [live, hcells, live]
  have hcommitted : ∀ u, s.phase u = .committed → (s.commit t).phase u = .committed := by
    intro u hu
    by_cases hut : u = t
    · rw [hut]
      exact Function.update_self t _ _
    · rw [commit_phase_of_ne s hut]
      exact hu
  refine h.commit_of (fun u hu hopen => ?_) (hs.congr hlive hcommitted)
  refine h.sees_congr hopen ?_ (by rw [commit_phase_of_ne s hu]) hlive hcommitted
  intro i c' hc' r hcr _
  rw [hcells] at hc'
  exact ⟨c', hc', hcr, rfl⟩

/-- A transaction that is about to commit and has seen the live rows has locked them. -/
theorem Seen.all (h : Seen p s t) (ht : s.phase t = .inserting []) :
    ∀ c ∈ s.cells, ∀ r ∈ c.committed, p r = true → c.lockedBy t = true := by
  intro c hc r hr hp
  obtain ⟨i, hi⟩ := List.mem_iff_getElem?.1 hc
  rcases h i c hi r hr hp with hl | hmem
  · exact hl
  · rw [ht] at hmem
    cases hmem

theorem Inv.commit (h : Inv calls p rows s) (ht : s.phase t = .inserting [])
    (hc : Covers calls p s (.commit t)) : Inv calls p rows (s.commit t) := by
  rcases h.sees t (by rw [ht]; rfl) with hseen | ⟨hm, hs⟩
  · exact h.commit_of_all ht (hseen.all ht)
  · rcases hc with hnil | hall
    · exact h.commit_of_nil ht hm hs hnil
    · exact h.commit_of_all ht hall

/-! ## Whole runs -/

/-- One step. -/
theorem step_inv (hr : Replaces calls p) (h : Inv calls p rows s) (hc : Covers calls p s a)
    (hs : step conflict calls s a = some s') : Inv calls p rows s' := by
  cases step_move hs with
  | begin t ht => exact h.begin hr ht
  | change t i todo ht hi hother => exact h.change hr ht hother hi
  | next t ht => exact h.next ht
  | insert t r rs ht hfree => exact h.insert hr ht
  | commit t ht => exact h.commit ht hc
  | rollback t ht => exact h.abort ht

theorem inv_of_path (hr : Replaces calls p)
    (h : Path (step conflict calls) (Covers calls p) (init rows) s) : Inv calls p rows s :=
  h.invariant (fun _ _ _ hi hc hs => step_inv hr hi hc hs) (inv_init rows)

/-- **If every commit covers.**  The live rows are those of a transaction that has committed,
or, if none has, those from the beginning. -/
theorem live_of_covers (hr : Replaces calls p)
    (h : Path (step conflict calls) (Covers calls p) (init rows) s) :
    (∃ t, s.phase t = .committed ∧ live p s = (calls t).rows) ∨
    (∀ t, s.phase t ≠ .committed) ∧ live p s = rows.filter p :=
  (inv_of_path hr h).settled

/-- **A commit that does not cover.**  The live rows are those of two transactions, each of
which has inserted some. -/
theorem live_of_not_covers (hr : Replaces calls p)
    (h : Path (step conflict calls) (Covers calls p) (init rows) s)
    (hs : step conflict calls s (.commit t) = some s') (hc : ¬ Covers calls p s (.commit t)) :
    ∃ u, s.phase u = .committed ∧ (calls u).rows ≠ [] ∧ (calls t).rows ≠ [] ∧
      (live p s').Perm ((calls u).rows ++ (calls t).rows) := by
  have hinv := inv_of_path hr h
  have ht : s.phase t = .inserting [] ∧ s' = s.commit t := by
    simp only [step] at hs
    split at hs
    · rename_i hp
      cases hs
      exact ⟨hp, rfl⟩
    · cases hs
  obtain ⟨ht, rfl⟩ := ht
  rw [Covers, not_or] at hc
  rcases hinv.sees t (by rw [ht]; rfl) with hseen | ⟨hm, u, hu, hlive⟩
  · exact absurd (hseen.all ht) hc.2
  · refine ⟨u, hu, ?_, hc.1, ?_⟩
    · rw [← hlive]
      intro hnil
      refine hc.2 fun c hcell r hcr hp => ?_
      have hnone := List.filterMap_eq_nil_iff.1 hnil c hcell
      rw [Option.mem_def.1 hcr] at hnone
      simp [Option.filter, hp] at hnone
    · rw [← hlive, ← hinv.own_eq ht, live, State.commit, List.filterMap_map]
      refine perm_filterMap_or fun c hcell => ?_
      by_cases hl : c.lockedBy t = true
      · right
        rw [Function.comp_apply, Cell.commitBy_of_locked hl, if_pos hl,
          (hinv.committed_eq_none hm hcell hl).1]
        exact ⟨rfl, rfl⟩
      · left
        rw [Function.comp_apply, Cell.commitBy, if_neg hl, if_neg hl]
        exact ⟨rfl, rfl⟩

/-! ## A schedule of three transactions -/

namespace Schedule

inductive Caller where
  | first | second | third
  deriving DecidableEq

instance : Fintype Caller := ⟨{.first, .second, .third}, by rintro (_ | _ | _) <;> decide⟩

/-- There is one row, and two transactions have seen it. -/
def overlapping : List (Action Caller) :=
  [.begin .first, .begin .second, .change .first 0, .next .first, .insert .first, .commit .first,
    .change .second 0, .next .second, .insert .second]

/-- The second one is rolled back, and a third one follows. -/
def rolledBack : List (Action Caller) :=
  overlapping ++ [.abort .second, .begin .third, .change .third 1, .next .third, .insert .third,
    .commit .third]

end Schedule

end ReadCommitted
end Lib
