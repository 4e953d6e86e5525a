import Mathlib.Data.List.TakeWhile
import HookRelay.Lib.Ip

/-!
# What the text of an IPv6 address says

Facts about `parseV6` that hold for every spelling of an address.

* `parseV6_serializeV6` — reading what `serializeV6` wrote.
* `parseZonedV6_firstPiece` — what stands before the first colon is the first group.
* `parseZonedV6_map` — reading does not depend on the case of the letters.
* `parseV6_mapped` — the form `::ffff:` followed by a dotted quad.
* `mem_of_parseV4`, `mem_of_parseZonedV6` — which characters an address may have.
-/

namespace Lib

/-! ## The serialisation reads back -/

theorem hexChar_ne_sep {d : ℕ} (h : d < 16) : hexChar d ≠ ':' ∧ hexChar d ≠ '.' ∧ hexChar d ≠ '%' := by
  revert h; revert d; decide

theorem sep_notMem_hexText (v : ℕ) : ':' ∉ hexText v ∧ '.' ∉ hexText v ∧ '%' ∉ hexText v := by
  refine ⟨?_, ?_, ?_⟩ <;> intro h <;> obtain ⟨d, hd, hc⟩ := mem_hexText h
  · exact (hexChar_ne_sep hd).1 hc.symm
  · exact (hexChar_ne_sep hd).2.1 hc.symm
  · exact (hexChar_ne_sep hd).2.2 hc.symm

theorem parseGroup_hexText {g : ℕ} (h : g < 65536) : parseGroup (hexText g) = some g := by
  have hlen := length_hexText g
  rw [parseGroup, if_neg (by omega), hexNumber_hexText h]

theorem parseGroups_hexText {gs : List ℕ} (h : ∀ g ∈ gs, g < 65536) :
    parseGroups (gs.map hexText) = some gs := by
  induction gs with
  | nil => rfl
  | cons g gs ih =>
      rw [List.map_cons, parseGroups, parseGroup_hexText (h g (by simp)),
        ih fun x hx => h x (by simp [hx])]

theorem parseTail_hexText {gs : List ℕ} (h : ∀ g ∈ gs, g < 65536) :
    parseTail (gs.map hexText) = some gs := by
  induction gs with
  | nil => rfl
  | cons g gs ih =>
      have hg := parseGroup_hexText (h g (by simp))
      cases gs with
      | nil =>
          rw [List.map_cons, List.map_nil, parseTail, if_neg (sep_notMem_hexText g).2.1, hg]
          rfl
      | cons g' gs =>
          have hrest := ih fun x hx => h x (by simp [hx])
          rw [List.map_cons, List.map_cons, parseTail, hg, ← List.map_cons, hrest]
          simp

theorem split_joinGroups {gs : List ℕ} (hne : gs ≠ []) :
    split ':' (joinGroups gs) = gs.map hexText := by
  refine split_intercalate (by simpa using hne) ?_
  intro p hp
  obtain ⟨g, -, rfl⟩ := List.mem_map.1 hp
  exact (sep_notMem_hexText g).1

theorem piecesOf_joinGroups (gs : List ℕ) : piecesOf (joinGroups gs) = gs.map hexText := by
  unfold piecesOf
  by_cases hne : gs = []
  · subst hne; rfl
  · have hj : joinGroups gs ≠ [] := by
      intro h
      have hs := split_joinGroups hne
      rw [h, split] at hs
      obtain ⟨g, gs', rfl⟩ := List.exists_cons_of_ne_nil hne
      have := (length_hexText g).1
      simp only [List.map_cons, List.cons.injEq] at hs
      rw [← hs.1] at this
      simp at this
    rw [if_neg hj, split_joinGroups hne]

/-- No piece of joined groups is empty. -/
theorem nil_notMem_split_joinGroups {gs : List ℕ} (hne : gs ≠ []) :
    [] ∉ split ':' (joinGroups gs) := by
  rw [split_joinGroups hne]
  intro h
  obtain ⟨g, -, hg⟩ := List.mem_map.1 h
  have := (length_hexText g).1
  rw [hg] at this
  simp at this

theorem splitDouble_joinGroups (gs : List ℕ) : splitDouble (joinGroups gs) = none := by
  by_cases hne : gs = []
  · subst hne; rfl
  · cases hd : splitDouble (joinGroups gs) with
    | none => rfl
    | some p =>
        obtain ⟨l, r⟩ := p
        have ht := splitDouble_eq_some hd
        refine absurd ?_ (nil_notMem_split_joinGroups hne)
        rw [ht, split_append_cons]
        simp [split]

theorem getLast?_joinGroups (gs : List ℕ) : (joinGroups gs).getLast? ≠ some ':' := by
  by_cases hne : gs = []
  · subst hne; simp [joinGroups, List.intercalate]
  · intro h
    obtain ⟨t, ht⟩ := List.getLast?_eq_some_iff.1 h
    refine absurd ?_ (nil_notMem_split_joinGroups hne)
    rw [ht, split_append_cons]
    simp [split]

/-! ### The run of zeros that is left out -/

theorem zeroRun_spec (gs : List ℕ) : gs = List.replicate (zeroRun gs) 0 ++ gs.drop (zeroRun gs) := by
  induction gs with
  | nil => rfl
  | cons g gs ih =>
      by_cases hg : g = 0
      · have hrun : zeroRun (g :: gs) = zeroRun gs + 1 := by simp [zeroRun, hg]
        rw [hrun, List.replicate_succ, List.drop_succ_cons, List.cons_append, ← ih, hg]
      · have hrun : zeroRun (g :: gs) = 0 := by simp [zeroRun, hg]
        simp [hrun]

theorem compressed_spec {gs : List ℕ} {i n : ℕ} (h : compressed gs = some (i, n)) :
    2 ≤ n ∧ gs.drop i = List.replicate n 0 ++ gs.drop (i + n) := by
  have key : ∀ (is : List ℕ) (best : Option (ℕ × ℕ)),
      (∀ i n, best = some (i, n) → 2 ≤ n ∧ n = zeroRun (gs.drop i)) →
      ∀ i n, is.foldl (fun best i =>
        let n := zeroRun (gs.drop i)
        if 2 ≤ n ∧ (best.map Prod.snd).getD 0 < n then some (i, n) else best) best = some (i, n) →
      2 ≤ n ∧ n = zeroRun (gs.drop i) := by
    intro is
    induction is with
    | nil => intro best hbest i n h; exact hbest i n h
    | cons j is ih =>
        intro best hbest i n h
        refine ih _ ?_ i n h
        intro i' n' hb
        simp only at hb
        split_ifs at hb with hc
        · cases hb; exact ⟨hc.1, rfl⟩
        · exact hbest i' n' hb
  obtain ⟨hn, hrun⟩ := key _ none (by simp) i n h
  refine ⟨hn, ?_⟩
  have hspec := zeroRun_spec (gs.drop i)
  rw [← hrun, List.drop_drop] at hspec
  exact hspec

/-- **The serialisation denotes the address it came from.** -/
theorem parseV6_serializeV6 (a : Ipv6) : parseV6 (serializeV6 a) = some a := by
  unfold serializeV6
  cases hc : compressed a.groups with
  | none =>
      have hne : a.groups ≠ [] := by
        intro h; have := a.length_eq; simp [h] at this
      simp only [parseV6, splitDouble_joinGroups, split_joinGroups hne, parseTail_hexText a.lt,
        Option.bind_some, Ipv6.ofGroups?_groups]
  | some p =>
      obtain ⟨i, n⟩ := p
      obtain ⟨hn, hdrop⟩ := compressed_spec hc
      have hsplit := List.take_append_drop i a.groups
      rw [hdrop] at hsplit
      have hlen : (a.groups.take i).length + n + (a.groups.drop (i + n)).length = 8 := by
        have := congrArg List.length hsplit
        simp only [List.length_append, List.length_replicate, a.length_eq] at this
        omega
      have hls : parseGroups (piecesOf (joinGroups (a.groups.take i))) = some (a.groups.take i) := by
        rw [piecesOf_joinGroups]
        exact parseGroups_hexText fun g hg => a.lt g (List.mem_of_mem_take hg)
      have hrs : parseTail (piecesOf (joinGroups (a.groups.drop (i + n)))) =
          some (a.groups.drop (i + n)) := by
        rw [piecesOf_joinGroups]
        exact parseTail_hexText fun g hg => a.lt g (List.mem_of_mem_drop hg)
      have hzero : 8 - ((a.groups.take i).length + (a.groups.drop (i + n)).length) = n := by omega
      simp only [parseV6, splitDouble_append (splitDouble_joinGroups _) (getLast?_joinGroups _),
        hls, hrs]
      rw [if_pos (by omega), hzero, List.append_assoc, hsplit, Ipv6.ofGroups?_groups]

theorem mem_joinGroups {gs : List ℕ} {c : Char} (h : c ∈ joinGroups gs) :
    c = ':' ∨ ∃ g, c ∈ hexText g := by
  induction gs with
  | nil => simp [joinGroups, List.intercalate] at h
  | cons g gs ih =>
      cases gs with
      | nil => exact Or.inr ⟨g, by simpa [joinGroups, List.intercalate] using h⟩
      | cons g' gs =>
          have hj : joinGroups (g :: g' :: gs) = hexText g ++ ':' :: joinGroups (g' :: gs) := by
            simp [joinGroups, List.intercalate]
          rw [hj, List.mem_append, List.mem_cons] at h
          rcases h with h | h | h
          · exact Or.inr ⟨g, h⟩
          · exact Or.inl h
          · exact ih h

/-- The serialisation has neither a dot nor a zone. -/
theorem notMem_serializeV6 (a : Ipv6) : '.' ∉ serializeV6 a ∧ '%' ∉ serializeV6 a := by
  have hj : ∀ gs : List ℕ, '.' ∉ joinGroups gs ∧ '%' ∉ joinGroups gs := by
    intro gs
    constructor <;> intro h <;> rcases mem_joinGroups h with h | ⟨g, h⟩
    · exact absurd h (by decide)
    · exact (sep_notMem_hexText g).2.1 h
    · exact absurd h (by decide)
    · exact (sep_notMem_hexText g).2.2 h
  unfold serializeV6
  split
  · exact hj _
  · constructor <;> intro h <;> simp only [List.mem_append, List.mem_cons] at h
    · rcases h with h | h | h | h
      · exact (hj _).1 h
      · exact absurd h (by decide)
      · exact absurd h (by decide)
      · exact (hj _).1 h
    · rcases h with h | h | h | h
      · exact (hj _).2 h
      · exact absurd h (by decide)
      · exact absurd h (by decide)
      · exact (hj _).2 h

/-! ## The first group -/

/-- What stands before the first colon of a text. -/
def firstPiece (t : List Char) : List Char := t.takeWhile (· ≠ ':')

theorem firstPiece_append {a b : List Char} (h : ':' ∈ a) : firstPiece (a ++ b) = firstPiece a := by
  induction a with
  | nil => exact absurd h (by simp)
  | cons c a ih =>
      unfold firstPiece at *
      rw [List.cons_append, List.takeWhile_cons, List.takeWhile_cons]
      by_cases hc : c = ':'
      · simp [hc]
      · rw [if_pos (by simpa using hc), if_pos (by simpa using hc),
          ih (by simpa [Ne.symm hc] using h)]

theorem firstPiece_append_colon (a b : List Char) : firstPiece (a ++ ':' :: b) = firstPiece a := by
  by_cases h : ':' ∈ a
  · exact firstPiece_append h
  · have hall : ∀ c ∈ a, (decide (c ≠ ':')) = true := fun c hc => by
      have : c ≠ ':' := fun hcc => h (hcc ▸ hc)
      simpa using this
    unfold firstPiece
    rw [List.takeWhile_append_of_pos hall, List.takeWhile_eq_self_iff.2 hall]
    simp

theorem split_eq_firstPiece (t : List Char) : ∃ ps, split ':' t = firstPiece t :: ps := by
  obtain ⟨p, ps, hp⟩ := List.exists_cons_of_ne_nil (split_ne_nil ':' t)
  have := head?_split ':' t
  rw [hp] at this
  exact ⟨ps, by rw [hp, show p = firstPiece t from Option.some.inj this]⟩

theorem length_le_of_parseTail_singleton {p : List Char} {gs : List ℕ}
    (h : parseTail [p] = some gs) : gs.length ≤ 2 := by
  rw [parseTail] at h
  split_ifs at h
  · obtain ⟨v, -, rfl⟩ := Option.map_eq_some_iff.1 h
    simp [quadGroups]
  · obtain ⟨g, -, rfl⟩ := Option.map_eq_some_iff.1 h
    simp

/-- **The first group of any spelling.**  What stands before the first colon is the
first group of the address, or nothing when that group is zero and left out. -/
theorem parseV6_firstPiece {t : List Char} {a : Ipv6} (h : parseV6 t = some a) :
    ':' ∈ t ∧ ((firstPiece t = [] ∧ a.groups.head? = some 0) ∨
      (firstPiece t ≠ [] ∧ parseGroup (firstPiece t) = a.groups.head?)) := by
  unfold parseV6 at h
  cases hd : splitDouble t with
  | none =>
      rw [hd] at h
      obtain ⟨gs, hgs, ha⟩ := Option.bind_eq_some_iff.1 h
      have hgroups := Ipv6.ofGroups?_eq_some ha
      have hlen := a.length_eq
      obtain ⟨ps, hps⟩ := split_eq_firstPiece t
      rw [hps] at hgs
      cases ps with
      | nil =>
          have := length_le_of_parseTail_singleton hgs
          rw [hgroups] at hlen
          omega
      | cons q qs =>
          have hcolon : ':' ∈ t := by
            by_contra hno
            rw [split_of_notMem hno] at hps
            simp at hps
          refine ⟨hcolon, Or.inr ?_⟩
          rw [parseTail] at hgs
          · cases hg : parseGroup (firstPiece t) with
            | none => rw [hg] at hgs; simp at hgs
            | some g =>
                rw [hg] at hgs
                refine ⟨fun hnil => ?_, ?_⟩
                · rw [hnil] at hg; simp [parseGroup] at hg
                · cases hrest : parseTail (q :: qs) with
                  | none => rw [hrest] at hgs; simp at hgs
                  | some gs' =>
                      rw [hrest] at hgs
                      simp only [Option.some.injEq] at hgs
                      rw [hgroups, ← hgs]
                      rfl
          · simp
  | some p =>
      obtain ⟨l, r⟩ := p
      have ht := splitDouble_eq_some hd
      rw [hd] at h
      simp only at h
      cases hls : parseGroups (piecesOf l) with
      | none => rw [hls] at h; simp at h
      | some ls =>
          cases hrs : parseTail (piecesOf r) with
          | none => rw [hls, hrs] at h; simp at h
          | some rs =>
              rw [hls, hrs] at h
              simp only at h
              split_ifs at h with hle
              have hgroups := Ipv6.ofGroups?_eq_some h
              have hfp : firstPiece t = firstPiece l := by rw [ht, firstPiece_append_colon]
              refine ⟨by rw [ht]; simp, ?_⟩
              by_cases hl : l = []
              · subst hl
                left
                have hls0 : ls = [] := by simpa [piecesOf, parseGroups] using hls.symm
                refine ⟨by rw [hfp]; rfl, ?_⟩
                obtain ⟨m, hm⟩ : ∃ m, 8 - (ls.length + rs.length) = m + 1 :=
                  ⟨7 - (ls.length + rs.length), by omega⟩
                rw [hgroups, hm, hls0]
                simp [List.replicate_succ]
              · right
                obtain ⟨ps, hps⟩ := split_eq_firstPiece l
                rw [piecesOf, if_neg hl, hps, parseGroups] at hls
                rw [hfp]
                cases hg : parseGroup (firstPiece l) with
                | none => rw [hg] at hls; simp at hls
                | some g =>
                    refine ⟨fun hnil => ?_, ?_⟩
                    · rw [hnil] at hg; simp [parseGroup] at hg
                    · rw [hg] at hls
                      cases hgs : parseGroups ps with
                      | none => rw [hgs] at hls; simp at hls
                      | some gs =>
                          rw [hgs] at hls
                          simp only [Option.some.injEq] at hls
                          rw [hgroups, ← hls]
                          rfl

theorem parseZonedV6_cases {t : List Char} {a : Ipv6} (h : parseZonedV6 t = some a) :
    ∃ body rest, t = body ++ rest ∧ parseV6 body = some a ∧ ('%' ∉ t → body = t) := by
  unfold parseZonedV6 at h
  split at h
  · exact ⟨t, [], by simp, h, fun _ => rfl⟩
  · rename_i hdrop
    split_ifs at h
    refine ⟨_, _, (List.takeWhile_append_dropWhile (p := (· ≠ '%'))).symm, h, fun hno => ?_⟩
    refine List.takeWhile_eq_self_iff.2 fun c hc => ?_
    have : c ≠ '%' := fun hcc => hno (hcc ▸ hc)
    simpa using this

/-- `parseV6_firstPiece` with a zone after the address. -/
theorem parseZonedV6_firstPiece {t : List Char} {a : Ipv6} (h : parseZonedV6 t = some a) :
    ':' ∈ t ∧ ((firstPiece t = [] ∧ a.groups.head? = some 0) ∨
      (firstPiece t ≠ [] ∧ parseGroup (firstPiece t) = a.groups.head?)) := by
  obtain ⟨body, rest, rfl, hbody, -⟩ := parseZonedV6_cases h
  obtain ⟨hcolon, hfirst⟩ := parseV6_firstPiece hbody
  rw [firstPiece_append hcolon]
  exact ⟨List.mem_append_left _ hcolon, hfirst⟩

theorem parseZonedV6_of_no_zone {t : List Char} (h : '%' ∉ t) : parseZonedV6 t = parseV6 t := by
  have hdrop : t.dropWhile (· ≠ '%') = [] := by
    refine List.dropWhile_eq_nil_iff.2 fun c hc => ?_
    have : c ≠ '%' := fun hcc => h (hcc ▸ hc)
    simpa using this
  unfold parseZonedV6
  rw [hdrop]

/-! ## The case of the letters -/

/-- A change of the characters that the readers do not notice. -/
structure CaseFold (f : Char → Char) : Prop where
  hex : ∀ c, hexVal (f c) = hexVal c
  dec : ∀ c, decVal (f c) = decVal c
  sep : ∀ s ∈ [':', '.', '%', '0'], ∀ c, f c = s ↔ c = s
  zone : ∀ c, isZoneChar (f c) = isZoneChar c

section CaseFold

variable {f : Char → Char}

theorem split_map {s : Char} (hs : ∀ c, f c = s ↔ c = s) (t : List Char) :
    split s (t.map f) = (split s t).map (List.map f) := by
  induction t with
  | nil => rfl
  | cons c t ih =>
      rw [List.map_cons, split, split, ih]
      by_cases hc : c = s
      · rw [if_pos hc, if_pos ((hs c).2 hc)]
        rfl
      · rw [if_neg hc, if_neg (fun h => hc ((hs c).1 h))]
        cases h : split s t with
        | nil => exact absurd h (split_ne_nil s t)
        | cons p ps => rfl

theorem splitDouble_map (hs : ∀ c, f c = ':' ↔ c = ':') (t : List Char) :
    splitDouble (t.map f) = (splitDouble t).map fun p => (p.1.map f, p.2.map f) := by
  induction t using splitDouble.induct with
  | case1 r => simp [splitDouble, (hs ':').2 rfl]
  | case2 d t hne ih =>
      have hne' : ∀ r : List Char, f d = ':' → t.map f = ':' :: r → False := by
        intro r hd ht
        cases t with
        | nil => simp at ht
        | cons e t =>
            simp only [List.map_cons, List.cons.injEq] at ht
            exact hne t ((hs d).1 hd) (by rw [(hs e).1 ht.1])
      rw [List.map_cons, splitDouble, splitDouble, ih, Option.map_map, Option.map_map]
      · rfl
      · exact hne
      · exact hne'
  | case3 => rfl

variable (hf : CaseFold f)

include hf

theorem decNumberFrom_map (acc : ℕ) (cs : List Char) :
    decNumberFrom acc (cs.map f) = decNumberFrom acc cs := by
  induction cs generalizing acc with
  | nil => rfl
  | cons c cs ih =>
      simp only [List.map_cons, decNumberFrom, hf.dec]
      cases decVal c with
      | none => rfl
      | some d => exact ih _

theorem parseOctet_map (p : List Char) : parseOctet (p.map f) = parseOctet p := by
  have hhead : (p.map f).head? = some '0' ↔ p.head? = some '0' := by
    cases p with
    | nil => simp
    | cons c p => simpa using hf.sep '0' (by simp) c
  simp only [parseOctet, List.length_map, hhead, decNumber, decNumberFrom_map hf]

theorem parseV4_map (t : List Char) : parseV4 (t.map f) = parseV4 t := by
  unfold parseV4
  rw [split_map (hf.sep '.' (by simp))]
  match split '.' t with
  | [] => rfl
  | [_] => rfl
  | [_, _] => rfl
  | [_, _, _] => rfl
  | [a, b, c, d] => simp only [List.map_cons, List.map_nil, parseOctet_map hf]
  | _ :: _ :: _ :: _ :: _ :: _ => rfl

theorem parseGroup_map (p : List Char) : parseGroup (p.map f) = parseGroup p := by
  simp only [parseGroup, List.length_map, hexNumber, hexNumberFrom_map hf.hex]

theorem parseGroups_map (ps : List (List Char)) :
    parseGroups (ps.map (List.map f)) = parseGroups ps := by
  induction ps with
  | nil => rfl
  | cons p ps ih => rw [List.map_cons, parseGroups, parseGroups, parseGroup_map hf, ih]

theorem dot_mem_map (p : List Char) : '.' ∈ p.map f ↔ '.' ∈ p := by
  simp only [List.mem_map]
  constructor
  · rintro ⟨c, hc, hcf⟩
    exact ((hf.sep '.' (by simp) c).1 hcf) ▸ hc
  · intro h
    exact ⟨'.', h, (hf.sep '.' (by simp) '.').2 rfl⟩

theorem parseTail_map (ps : List (List Char)) :
    parseTail (ps.map (List.map f)) = parseTail ps := by
  induction ps with
  | nil => rfl
  | cons p ps ih =>
      cases ps with
      | nil => simp only [List.map_cons, List.map_nil, parseTail, dot_mem_map hf, parseV4_map hf,
          parseGroup_map hf]
      | cons q qs =>
          simp only [List.map_cons] at ih ⊢
          simp only [parseTail, parseGroup_map hf, ih]

omit hf in
theorem piecesOf_map (hs : ∀ c, f c = ':' ↔ c = ':') (t : List Char) :
    piecesOf (t.map f) = (piecesOf t).map (List.map f) := by
  unfold piecesOf
  by_cases ht : t = []
  · simp [ht]
  · rw [if_neg ht, if_neg (by simpa using ht), split_map hs]

theorem parseV6_map (t : List Char) : parseV6 (t.map f) = parseV6 t := by
  have hs := hf.sep ':' (by simp)
  unfold parseV6
  rw [splitDouble_map hs]
  cases splitDouble t with
  | none => simp only [Option.map_none, split_map hs, parseTail_map hf]
  | some p => simp only [Option.map_some, piecesOf_map hs, parseGroups_map hf, parseTail_map hf]

/-- **Reading an address does not depend on the case of its letters.** -/
theorem parseZonedV6_map (t : List Char) : parseZonedV6 (t.map f) = parseZonedV6 t := by
  have hp : ((fun c => decide (c ≠ '%')) ∘ f) = fun c => decide (c ≠ '%') := by
    funext c
    simp [hf.sep '%' (by simp) c]
  unfold parseZonedV6
  rw [List.dropWhile_map, List.takeWhile_map, hp]
  cases t.dropWhile (fun c => decide (c ≠ '%')) with
  | nil => exact parseV6_map hf t
  | cons c zone =>
      have hz : (zone.map f).all isZoneChar = zone.all isZoneChar := by
        rw [List.all_map]
        congr 1
        exact funext hf.zone
      simp only [List.map_cons, ne_eq, List.map_eq_nil_iff, hz, parseV6_map hf]

end CaseFold

/-! ## IPv4-mapped addresses with a dotted quad -/

/-- The form `::ffff:` and a dotted quad: the address is IPv4-mapped, and the IPv4
address in it is the one the quad says. -/
theorem parseV6_mapped {q : List Char} {a : Ipv6} (hdot : '.' ∈ q) (hcolon : ':' ∉ q)
    (h : parseV6 ("::ffff:".toList ++ q) = some a) :
    a.IsMapped ∧ parseV4 q = some a.embedded := by
  have hd : splitDouble ("::ffff:".toList ++ q) = some ([], "ffff:".toList ++ q) := rfl
  have hpieces : piecesOf ("ffff:".toList ++ q) = ["ffff".toList, q] := by
    have hne : "ffff:".toList ++ q ≠ [] := by simp
    rw [piecesOf, if_neg hne,
      show "ffff:".toList ++ q = "ffff".toList ++ ':' :: q from rfl, split_append_cons,
      split_of_notMem hcolon]
    rfl
  have hffff : parseGroup "ffff".toList = some 0xffff := by decide
  unfold parseV6 at h
  rw [hd] at h
  have hnil : parseGroups (piecesOf []) = some [] := rfl
  simp only [hpieces, hnil, parseTail, hffff, if_pos hdot] at h
  cases hv : parseV4 q with
  | none => rw [hv] at h; simp at h
  | some v =>
      rw [hv] at h
      simp only [Option.map_some, quadGroups, List.length_cons, List.length_nil] at h
      have hgroups := Ipv6.ofGroups?_eq_some h
      obtain ⟨⟨va, ha⟩, ⟨vb, hb⟩, ⟨vc, hc⟩, ⟨vd, hd⟩⟩ := v
      have hval : a.val = 0xffff * 2 ^ 32 + Ipv4.val ⟨⟨va, ha⟩, ⟨vb, hb⟩, ⟨vc, hc⟩, ⟨vd, hd⟩⟩ := by
        rw [Ipv6.val, hgroups]
        simp [Ipv4.val, List.replicate]
        ring
      have hlt : Ipv4.val ⟨⟨va, ha⟩, ⟨vb, hb⟩, ⟨vc, hc⟩, ⟨vd, hd⟩⟩ < 2 ^ 32 := by
        simp only [Ipv4.val]
        omega
      refine ⟨?_, ?_⟩
      · rw [Ipv6.IsMapped, hval]
        omega
      · have hmod : a.val % 2 ^ 32 = Ipv4.val ⟨⟨va, ha⟩, ⟨vb, hb⟩, ⟨vc, hc⟩, ⟨vd, hd⟩⟩ := by
          rw [hval]
          omega
        rw [Ipv6.embedded, hmod, Ipv4.ofNat_val]

/-! ## The two kinds of address are told apart -/

/-- Every character of a text is the separator or in one of the pieces. -/
theorem mem_split {s c : Char} {t : List Char} (h : c ∈ t) : c = s ∨ ∃ p ∈ split s t, c ∈ p := by
  induction t with
  | nil => simp at h
  | cons d t ih =>
      rw [split]
      by_cases hd : d = s
      · rw [if_pos hd]
        rcases List.mem_cons.1 h with rfl | h
        · exact .inl hd
        · rcases ih h with hc | ⟨p, hp, hc⟩
          · exact .inl hc
          · exact .inr ⟨p, List.mem_cons_of_mem _ hp, hc⟩
      · rw [if_neg hd]
        cases hs : split s t with
        | nil => exact absurd hs (split_ne_nil s t)
        | cons q qs =>
            simp only [hs, List.mem_cons] at ih
            simp only [List.modifyHead_cons, List.mem_cons]
            rcases List.mem_cons.1 h with rfl | h
            · exact .inr ⟨c :: q, .inl rfl, by simp⟩
            · rcases ih h with hc | ⟨p, rfl | hp, hc⟩
              · exact .inl hc
              · exact .inr ⟨d :: p, .inl rfl, by simp [hc]⟩
              · exact .inr ⟨p, .inr hp, hc⟩

theorem isSome_decVal_of_mem {acc n : ℕ} {p : List Char} {c : Char}
    (h : decNumberFrom acc p = some n) (hc : c ∈ p) : (decVal c).isSome := by
  induction p generalizing acc with
  | nil => simp at hc
  | cons d p ih =>
      rw [decNumberFrom] at h
      cases hd : decVal d with
      | none => rw [hd] at h; simp at h
      | some v =>
          rw [hd] at h
          rcases List.mem_cons.1 hc with rfl | hc
          · rw [hd]; rfl
          · exact ih h hc

theorem isSome_decVal_of_parseOctet {p : List Char} {o : Fin 256} {c : Char}
    (h : parseOctet p = some o) (hc : c ∈ p) : (decVal c).isSome := by
  unfold parseOctet at h
  split_ifs at h
  obtain ⟨n, hn, -⟩ := Option.bind_eq_some_iff.1 h
  exact isSome_decVal_of_mem hn hc

theorem isSome_hexVal_of_mem {acc n : ℕ} {p : List Char} {c : Char}
    (h : hexNumberFrom acc p = some n) (hc : c ∈ p) : (hexVal c).isSome := by
  induction p generalizing acc with
  | nil => simp at hc
  | cons d p ih =>
      rw [hexNumberFrom] at h
      cases hd : hexVal d with
      | none => rw [hd] at h; simp at h
      | some v =>
          rw [hd] at h
          rcases List.mem_cons.1 hc with rfl | hc
          · rw [hd]; rfl
          · exact ih h hc

/-- A dotted quad is made of digits and dots. -/
theorem mem_of_parseV4 {t : List Char} {v : Ipv4} {c : Char} (h : parseV4 t = some v)
    (hc : c ∈ t) : c = '.' ∨ (decVal c).isSome := by
  unfold parseV4 at h
  split at h
  · rename_i a b c' d hs
    split at h
    · rename_i ha hb hc' hd
      rcases mem_split (s := '.') hc with hdot | ⟨p, hp, hcp⟩
      · exact .inl hdot
      · rw [hs] at hp
        simp only [List.mem_cons, List.not_mem_nil, or_false] at hp
        rcases hp with rfl | rfl | rfl | rfl
        · exact .inr (isSome_decVal_of_parseOctet ha hcp)
        · exact .inr (isSome_decVal_of_parseOctet hb hcp)
        · exact .inr (isSome_decVal_of_parseOctet hc' hcp)
        · exact .inr (isSome_decVal_of_parseOctet hd hcp)
    · exact absurd h (by simp)
  · exact absurd h (by simp)

/-- A dotted quad has no colon. -/
theorem colon_notMem_of_parseV4 {t : List Char} {v : Ipv4} (h : parseV4 t = some v) : ':' ∉ t := by
  intro hcolon
  rcases mem_of_parseV4 h hcolon with hc | hc
  · exact absurd hc (by decide)
  · exact absurd hc (by decide)

/-! ## The characters of an address -/

/-- The characters that a piece of an address between colons may have. -/
def isPieceChar (c : Char) : Bool := c = '.' || (decVal c).isSome || (hexVal c).isSome

theorem mem_of_parseGroup {p : List Char} {g : ℕ} {c : Char} (h : parseGroup p = some g)
    (hc : c ∈ p) : isPieceChar c = true := by
  unfold parseGroup at h
  split_ifs at h
  simp [isPieceChar, isSome_hexVal_of_mem h hc]

theorem mem_of_parseGroups {ps : List (List Char)} {gs : List ℕ} {p : List Char} {c : Char}
    (h : parseGroups ps = some gs) (hp : p ∈ ps) (hc : c ∈ p) : isPieceChar c = true := by
  induction ps generalizing gs with
  | nil => simp at hp
  | cons q ps ih =>
      rw [parseGroups] at h
      split at h
      · rename_i hq hps
        rcases List.mem_cons.1 hp with rfl | hp
        · exact mem_of_parseGroup hq hc
        · exact ih hps hp
      · exact absurd h (by simp)

theorem mem_of_parseTail {ps : List (List Char)} {gs : List ℕ} {p : List Char} {c : Char}
    (h : parseTail ps = some gs) (hp : p ∈ ps) (hc : c ∈ p) : isPieceChar c = true := by
  fun_induction parseTail ps generalizing gs with
  | case1 => simp at hp
  | case2 q hdot =>
      obtain ⟨v, hv, -⟩ := Option.map_eq_some_iff.1 h
      rw [List.mem_singleton.1 hp] at hc
      rcases mem_of_parseV4 hv hc with hc | hc <;> simp [isPieceChar, hc]
  | case3 q hdot =>
      obtain ⟨g, hg, -⟩ := Option.map_eq_some_iff.1 h
      rw [List.mem_singleton.1 hp] at hc
      exact mem_of_parseGroup hg hc
  | case4 q qs hne g gs' hqs hq ih =>
      rcases List.mem_cons.1 hp with rfl | hp
      · exact mem_of_parseGroup hq hc
      · exact ih hqs hp
  | case5 q qs hne hnone => cases h

theorem mem_piecesOf {t : List Char} {c : Char} (h : c ∈ t) :
    c = ':' ∨ ∃ p ∈ piecesOf t, c ∈ p := by
  rw [piecesOf, if_neg (by rintro rfl; simp at h)]
  exact mem_split h

/-- An address is made of piece characters and colons. -/
theorem mem_of_parseV6 {t : List Char} {a : Ipv6} {c : Char} (h : parseV6 t = some a)
    (hc : c ∈ t) : c = ':' ∨ isPieceChar c = true := by
  unfold parseV6 at h
  split at h
  · obtain ⟨gs, hgs, -⟩ := Option.bind_eq_some_iff.1 h
    rcases mem_split (s := ':') hc with hcolon | ⟨p, hp, hcp⟩
    · exact .inl hcolon
    · exact .inr (mem_of_parseTail hgs hp hcp)
  · rename_i l r hd
    split at h
    · rename_i ls rs hls hrs
      rw [splitDouble_eq_some hd, List.mem_append, List.mem_cons, List.mem_cons] at hc
      rcases hc with hc | hc | hc | hc
      · rcases mem_piecesOf hc with hcolon | ⟨p, hp, hcp⟩
        · exact .inl hcolon
        · exact .inr (mem_of_parseGroups hls hp hcp)
      · exact .inl hc
      · exact .inl hc
      · rcases mem_piecesOf hc with hcolon | ⟨p, hp, hcp⟩
        · exact .inl hcolon
        · exact .inr (mem_of_parseTail hrs hp hcp)
    · exact absurd h (by simp)

/-- An address with a zone has the zone's characters too. -/
theorem mem_of_parseZonedV6 {t : List Char} {a : Ipv6} {c : Char} (h : parseZonedV6 t = some a)
    (hc : c ∈ t) : c = ':' ∨ c = '%' ∨ isPieceChar c = true ∨ isZoneChar c = true := by
  have haddress : ∀ {t : List Char}, parseV6 t = some a → c ∈ t →
      c = ':' ∨ c = '%' ∨ isPieceChar c = true ∨ isZoneChar c = true := by
    intro t ht hct
    rcases mem_of_parseV6 ht hct with hc | hc
    · exact .inl hc
    · exact .inr (.inr (.inl hc))
  unfold parseZonedV6 at h
  split at h
  · exact haddress h hc
  · rename_i d zone hdrop
    split_ifs at h with hzone
    rw [← List.takeWhile_append_dropWhile (p := (· ≠ '%')) (l := t), hdrop, List.mem_append,
      List.mem_cons] at hc
    rcases hc with hc | rfl | hc
    · exact haddress h hc
    · have : (t.dropWhile (· ≠ '%')).head? = some c := by rw [hdrop]; rfl
      have hnot := List.head?_dropWhile_not (· ≠ '%') t
      rw [this] at hnot
      exact .inr (.inl (by simpa using hnot))
    · exact .inr (.inr (.inr (List.all_eq_true.1 hzone.2 c hc)))

/-! ## Network prefixes -/

/-- Masking the bits from `k` on keeps what the division by `2 ^ k` keeps. -/
theorem land_shiftLeft_mask (g k n : ℕ) :
    g &&& ((2 ^ n - 1) <<< k) = (g / 2 ^ k % 2 ^ n) * 2 ^ k := by
  have hand : g &&& ((2 ^ n - 1) <<< k) = ((g >>> k) &&& (2 ^ n - 1)) <<< k := by
    apply Nat.eq_of_testBit_eq
    intro i
    simp only [Nat.testBit_and, Nat.testBit_shiftLeft, Nat.testBit_shiftRight]
    by_cases hi : k ≤ i
    · simp [hi, Nat.add_sub_cancel' hi]
    · simp [hi]
  rw [hand, Nat.and_two_pow_sub_one_eq_mod, Nat.shiftRight_eq_div_pow, Nat.shiftLeft_eq]

/-- A 16-bit group agrees with a prefix under the mask of its first `16 - k` bits. -/
theorem land_mask_eq_iff {g : ℕ} (hg : g < 65536) (k q : ℕ) (hk : k ≤ 16) :
    g &&& ((2 ^ (16 - k) - 1) <<< k) = q * 2 ^ k ↔ g / 2 ^ k = q := by
  have hlt : g / 2 ^ k < 2 ^ (16 - k) := by
    rw [Nat.div_lt_iff_lt_mul (by positivity), ← pow_add, Nat.sub_add_cancel hk]
    exact hg
  rw [land_shiftLeft_mask, Nat.mod_eq_of_lt hlt]
  exact Nat.mul_left_inj (by positivity)

end Lib
