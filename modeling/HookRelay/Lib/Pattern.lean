import Mathlib.Computability.RegularExpressions

/-!
# Patterns

Regular expressions as programs write them, and the symbols that their words are made of.

* `oneOf`, `oneOrMore` — `[abc]` and `P+`.
* `Only`, `Only.of_matches` — the words of a pattern have no symbols but those it names.
-/

namespace Lib.Pattern

variable {α : Type*}

/-- A regular expression names only symbols with a property. -/
def Only (p : α → Prop) : RegularExpression α → Prop
  | .zero | .epsilon => True
  | .char a => p a
  | .plus P Q | .comp P Q => Only p P ∧ Only p Q
  | .star P => Only p P

/-- Then its words have only such symbols. -/
theorem Only.of_matches {p : α → Prop} {P : RegularExpression α} (hP : Only p P) {w : List α}
    (hw : w ∈ P.matches') : ∀ a ∈ w, p a := by
  induction P generalizing w with
  | zero => exact absurd hw (Language.notMem_zero w)
  | epsilon =>
      rw [(Language.mem_one w).1 hw]
      simp
  | char a =>
      intro b hb
      rw [Set.mem_singleton_iff.1 hw, List.mem_singleton] at hb
      exact hb ▸ hP
  | plus P Q ihP ihQ =>
      rcases hw with hw | hw
      · exact ihP hP.1 hw
      · exact ihQ hP.2 hw
  | comp P Q ihP ihQ =>
      obtain ⟨u, hu, v, hv, rfl⟩ := Language.mem_mul.1 hw
      intro a ha
      rcases List.mem_append.1 ha with ha | ha
      · exact ihP hP.1 hu a ha
      · exact ihQ hP.2 hv a ha
  | star P ih =>
      obtain ⟨ws, rfl, hws⟩ := Language.mem_kstar.1 hw
      intro a ha
      obtain ⟨u, hu, ha⟩ := List.mem_flatten.1 ha
      exact ih hP (hws u hu) a ha

/-- One of some symbols. -/
def oneOf (as : List α) : RegularExpression α := as.foldr (fun a P => .char a + P) 0

theorem only_oneOf {p : α → Prop} {as : List α} (h : ∀ a ∈ as, p a) : Only p (oneOf as) := by
  induction as with
  | nil => trivial
  | cons a as ih =>
      exact ⟨h a List.mem_cons_self, ih fun b hb => h b (List.mem_cons_of_mem _ hb)⟩

/-- One or more times. -/
def oneOrMore (P : RegularExpression α) : RegularExpression α := P * .star P

theorem only_oneOrMore {p : α → Prop} {P : RegularExpression α} (h : Only p P) :
    Only p (oneOrMore P) := ⟨h, h⟩

end Lib.Pattern
