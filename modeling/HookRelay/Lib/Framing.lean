import Mathlib.Data.List.Sort
import Mathlib.Data.List.Nodup

/-!
# Records framed by separators

A map with distinct keys, written as one list: a line for each key, in the order of the keys,
and on each line the key, a separator and its value.

* `append_separator_inj`, `intercalate_inj` — what holds no separator can be split at it.
* `insertionSort_eq_of_perm` — sorting forgets the order, if the order is antisymmetric.
* `map_lookup_keys`, `lookup_eq_some_iff_mem` — a map is its keys, with what they look up.
-/

namespace Lib.Framing

variable {α β : Type*}

/-! ## Splitting at a separator -/

/-- A list is split at the first separator. -/
theorem append_separator_inj {sep : α} {a b c d : List α} (ha : sep ∉ a) (hc : sep ∉ c)
    (h : a ++ sep :: b = c ++ sep :: d) : a = c ∧ b = d := by
  induction a generalizing c with
  | nil =>
      cases c with
      | nil => exact ⟨rfl, (List.cons.inj h).2⟩
      | cons x c =>
          have hx : sep = x := (List.cons.inj h).1
          exact absurd (hx ▸ List.mem_cons_self) hc
  | cons x a ih =>
      cases c with
      | nil =>
          have hx : x = sep := (List.cons.inj h).1
          exact absurd (hx ▸ List.mem_cons_self) ha
      | cons y c =>
          obtain ⟨rfl, htail⟩ := List.cons.inj h
          obtain ⟨rfl, hrest⟩ := ih (fun hm => ha (List.mem_cons_of_mem _ hm))
            (fun hm => hc (List.mem_cons_of_mem _ hm)) htail
          exact ⟨rfl, hrest⟩

/-- Lines without a separator are determined by their join. -/
theorem intercalate_inj [BEq α] [LawfulBEq α] {sep : α} {ls ms : List (List α)} (hls : ls ≠ [])
    (hms : ms ≠ []) (hl : ∀ l ∈ ls, sep ∉ l) (hm : ∀ m ∈ ms, sep ∉ m)
    (h : [sep].intercalate ls = [sep].intercalate ms) : ls = ms := by
  calc ls = ([sep].intercalate ls).splitOn sep := (List.splitOn_intercalate sep hl hls).symm
    _ = ([sep].intercalate ms).splitOn sep := by rw [h]
    _ = ms := List.splitOn_intercalate sep hm hms

/-- Lists are equal where a function that is injective on them gives equal lists. -/
theorem map_inj_on {f : α → β} {as bs : List α} (hf : ∀ a ∈ as, ∀ b ∈ bs, f a = f b → a = b)
    (h : as.map f = bs.map f) : as = bs := by
  induction as generalizing bs with
  | nil => exact (List.map_eq_nil_iff.1 h.symm).symm
  | cons a as ih =>
      cases bs with
      | nil => exact absurd h (List.cons_ne_nil _ _)
      | cons b bs =>
          obtain ⟨hhead, htail⟩ := List.cons.inj h
          have hab : a = b := hf a List.mem_cons_self b List.mem_cons_self hhead
          have hrest : as = bs := ih (fun c hc d hd =>
            hf c (List.mem_cons_of_mem _ hc) d (List.mem_cons_of_mem _ hd)) htail
          rw [hab, hrest]

/-! ## Sorting -/

/-- Sorting forgets the order. -/
theorem insertionSort_eq_of_perm (r : α → α → Prop) [DecidableRel r] [Std.Total r] [IsTrans α r]
    [Std.Antisymm r] {l m : List α} (h : l.Perm m) : l.insertionSort r = m.insertionSort r := by
  have hperm : (l.insertionSort r).Perm (m.insertionSort r) :=
    ((List.perm_insertionSort r l).trans h).trans (List.perm_insertionSort r m).symm
  exact hperm.eq_of_pairwise' (List.pairwise_insertionSort r l) (List.pairwise_insertionSort r m)

/-! ## Maps with distinct keys -/

section Maps

variable [BEq α] [LawfulBEq α]

/-- Keys that are looked up give the map back. -/
theorem map_lookup_keys {es : List (α × β)} (hnodup : (es.map Prod.fst).Nodup) (d : β) :
    (es.map Prod.fst).map (fun k => (k, (es.lookup k).getD d)) = es := by
  induction es with
  | nil => rfl
  | cons e es ih =>
      obtain ⟨k, v⟩ := e
      obtain ⟨hk, hnodup⟩ := List.nodup_cons.1 hnodup
      have hrest : ∀ j ∈ es.map Prod.fst, ((k, v) :: es).lookup j = es.lookup j := by
        intro j hj
        have hne : (j == k) = false := by
          rw [beq_eq_false_iff_ne]
          rintro rfl
          exact hk hj
        rw [List.lookup_cons, hne]
      rw [List.map_cons, List.map_cons, List.lookup_cons_self, Option.getD_some]
      congr 1
      calc (es.map Prod.fst).map (fun j => (j, (((k, v) :: es).lookup j).getD d))
          = (es.map Prod.fst).map (fun j => (j, (es.lookup j).getD d)) :=
            List.map_congr_left fun j hj => by rw [hrest j hj]
        _ = es := ih hnodup

/-- What is looked up is an entry. -/
theorem lookup_eq_some_iff_mem {es : List (α × β)} (hnodup : (es.map Prod.fst).Nodup) {k : α}
    {v : β} : es.lookup k = some v ↔ (k, v) ∈ es := by
  induction es with
  | nil => simp
  | cons e es ih =>
      obtain ⟨j, w⟩ := e
      obtain ⟨hj, hnodup⟩ := List.nodup_cons.1 hnodup
      by_cases hk : k = j
      · subst hk
        have hnone : (k, v) ∉ es := fun hm => hj (List.mem_map.2 ⟨_, hm, rfl⟩)
        rw [List.lookup_cons_self, List.mem_cons, Option.some.injEq, Prod.mk.injEq]
        constructor
        · exact fun hv => .inl ⟨rfl, hv.symm⟩
        · rintro (⟨-, hv⟩ | hm)
          · exact hv.symm
          · exact absurd hm hnone
      · have hne : (k == j) = false := beq_eq_false_iff_ne.2 hk
        have hhead : (k, v) ≠ (j, w) := fun h => hk (Prod.mk.inj h).1
        rw [List.lookup_cons, hne, List.mem_cons, or_iff_right hhead]
        exact ih hnodup

/-- Two maps look up the same if and only if they have the same entries, in some order. -/
theorem lookup_eq_iff_perm {es fs : List (α × β)} (he : (es.map Prod.fst).Nodup)
    (hf : (fs.map Prod.fst).Nodup) : (∀ k, es.lookup k = fs.lookup k) ↔ es.Perm fs := by
  rw [List.perm_ext_iff_of_nodup (.of_map _ he) (.of_map _ hf)]
  constructor
  · rintro h ⟨k, v⟩
    rw [← lookup_eq_some_iff_mem he, ← lookup_eq_some_iff_mem hf, h k]
  · intro h k
    ext v
    rw [lookup_eq_some_iff_mem he, lookup_eq_some_iff_mem hf]
    exact h (k, v)

end Maps

end Lib.Framing
