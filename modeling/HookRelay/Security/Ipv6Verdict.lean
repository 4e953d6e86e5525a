import HookRelay.Worker.HttpClient

/-!
# The filter and the IPv6 address

`blockedIpReason` judges the text of an IPv6 address; what is meant is the address.
This module says exactly how far the two agree.

* `Forbidden a` — the address is one that must not be delivered to.
* `Spelled t a` — the text is one of the spellings that the filter recognises for
  this address: `::` and `::1` as they stand, and a mapped address with a dotted quad
  after `::ffff:`.
* `blocked_iff` — what the filter refuses, as a statement about the address and the
  spelling.
* `blocked_iff_forbidden_iff_spelled` — the verdict is the right one exactly for those
  spellings; in particular a URL whose host is a forbidden IPv6 literal gets through
  exactly when the address is IPv4-mapped, since a URL writes it in hexadecimal groups.
-/

namespace HookRelay

open Lib

/-- The IPv4 address in the last 32 bits is one the filter refuses. -/
def EmbedsBlocked (a : Ipv6) : Prop := blockedV4Reason (dotted a.embedded) ≠ none

/-- `::` or `::1`. -/
def IsLocal (a : Ipv6) : Prop := a.val = 0 ∨ a.val = 1

/-- `fc00::/7`, `fe80::/10` or `ff00::/8`. -/
def InReservedRange (a : Ipv6) : Prop :=
  a.val / 2 ^ 121 = 0xfc00 / 2 ^ 9 ∨ a.val / 2 ^ 118 = 0xfe80 / 2 ^ 6 ∨
    a.val / 2 ^ 120 = 0xff00 / 2 ^ 8

/-- An address that must not be delivered to: unspecified or loopback, in a reserved
range, or IPv4-mapped with a refused IPv4 address. -/
def Forbidden (a : Ipv6) : Prop :=
  IsLocal a ∨ InReservedRange a ∨ (a.IsMapped ∧ EmbedsBlocked a)

/-- The spelling is one that the filter's matching on the text is made for. -/
def Spelled (t : Text) (a : Ipv6) : Prop :=
  (IsLocal a → toLowerCase t = "::".toList ∨ toLowerCase t = "::1".toList) ∧
    (a.IsMapped ∧ EmbedsBlocked a → mappedQuad (toLowerCase t) ≠ none)

instance (a : Ipv6) : Decidable (EmbedsBlocked a) := inferInstanceAs (Decidable (_ ≠ _))

instance (a : Ipv6) : Decidable (IsLocal a) := inferInstanceAs (Decidable (_ ∨ _))

instance (a : Ipv6) : Decidable (InReservedRange a) := inferInstanceAs (Decidable (_ ∨ _))

instance (a : Ipv6) : Decidable (Forbidden a) := inferInstanceAs (Decidable (_ ∨ _))

instance (t : Text) (a : Ipv6) : Decidable (Spelled t a) := inferInstanceAs (Decidable (_ ∧ _))

/-! ## Lower case -/

/-- An upper-case letter is one of 26. -/
theorem toLower_cases (c : Char) : c.toLower = c ∨ ∃ n < 26, c = Char.ofNat (65 + n) := by
  by_cases h : 65 ≤ c.toNat ∧ c.toNat ≤ 90
  · refine .inr ⟨c.toNat - 65, by omega, ?_⟩
    rw [Nat.add_sub_cancel' h.1, Char.ofNat_toNat]
  · refine .inl ?_
    unfold Char.toLower
    rw [dif_neg]
    intro hc
    exact h ⟨UInt32.le_iff_toNat_le.1 hc.1, UInt32.le_iff_toNat_le.1 hc.2⟩

theorem caseFold_toLower : CaseFold Char.toLower where
  hex c := by
    rcases toLower_cases c with h | ⟨n, hn, rfl⟩
    · rw [h]
    · revert n; decide
  dec c := by
    rcases toLower_cases c with h | ⟨n, hn, rfl⟩
    · rw [h]
    · revert n; decide
  sep s hs c := by
    rcases toLower_cases c with h | ⟨n, hn, rfl⟩
    · rw [h]
    · simp only [List.mem_cons, List.not_mem_nil, or_false] at hs
      rcases hs with rfl | rfl | rfl | rfl <;> revert n <;> decide
  zone c := by
    rcases toLower_cases c with h | ⟨n, hn, rfl⟩
    · rw [h]
    · revert n; decide

theorem parseZonedV6_toLowerCase (t : Text) : parseZonedV6 (toLowerCase t) = parseZonedV6 t :=
  parseZonedV6_map caseFold_toLower t

/-! ## What the text says -/

/-- A text that denotes an IPv6 address is no dotted quad, so `isIP` says `6`. -/
theorem isIP_of_parseZonedV6 {t : Text} {a : Ipv6} (h : parseZonedV6 t = some a) : isIP t = 6 := by
  have hv4 : (parseV4 t).isSome = false := by
    cases hv : parseV4 t with
    | none => rfl
    | some v => exact absurd (parseZonedV6_firstPiece h).1 (colon_notMem_of_parseV4 hv)
  simp [isIP, hv4, h]

/-- `parseInt` reads a whole group. -/
theorem parseInt16_of_parseGroup {p : Text} {g : ℕ} (h : parseGroup p = some g) :
    parseInt16 p = some g := by
  unfold parseGroup at h
  split_ifs at h with hlen
  have htake : p.takeWhile (fun c => (hexVal c).isSome) = p :=
    List.takeWhile_eq_self_iff.2 fun c hc => isSome_hexVal_of_mem h hc
  have hne : p ≠ [] := fun hp => hlen (.inl (by rw [hp]; rfl))
  unfold parseInt16
  rw [htake, if_neg hne]
  exact h

/-- The first group of the text is the first 16 bits of the address. -/
theorem firstGroup_eq {t : Text} {a : Ipv6} (h : parseZonedV6 t = some a) :
    firstGroup t = a.val / 2 ^ 112 := by
  obtain ⟨g₀, g₁, g₂, g₃, g₄, g₅, g₆, g₇, hgs, h₀, h₁, h₂, h₃, h₄, h₅, h₆, h₇, hval⟩ :=
    a.exists_groups
  have hdiv : a.val / 2 ^ 112 = g₀ := by rw [hval]; omega
  have hhead : a.groups.head? = some g₀ := by rw [hgs]; rfl
  rw [hdiv]
  obtain ⟨-, ⟨hnil, hzero⟩ | ⟨hne, hgroup⟩⟩ := parseZonedV6_firstPiece h
  · rw [hhead, Option.some.injEq] at hzero
    rw [firstGroup, hnil, hzero]
    rfl
  · rw [hhead] at hgroup
    simp only [firstGroup, if_neg hne, parseInt16_of_parseGroup hgroup, Option.getD_some]

/-- What the regular expression matches: the literal, then digits and dots. -/
theorem mappedQuad_eq_some {t q : Text} (h : mappedQuad t = some q) :
    t = "::ffff:".toList ++ q ∧ '.' ∈ q ∧ ':' ∉ q ∧ '%' ∉ q := by
  unfold mappedQuad at h
  split_ifs at h with hpre
  simp only [Option.ite_none_right_eq_some, Option.some.injEq] at h
  obtain ⟨hps, hq⟩ := h
  obtain ⟨r, hr⟩ := List.isPrefixOf_iff_prefix.1 hpre
  have hqr : t.drop 7 = r := by rw [← hr]; rfl
  rw [hqr] at hq hps
  subst hq
  have hdigit : ∀ c ∈ r, c = '.' ∨ (decVal c).isSome := by
    intro c hc
    rcases mem_split (s := '.') hc with hdot | ⟨p, hp, hcp⟩
    · exact .inl hdot
    · have hp := List.all_eq_true.1 hps.2 p hp
      rw [isDigits, Bool.and_eq_true] at hp
      exact .inr (List.all_eq_true.1 hp.2 c hcp)
  refine ⟨hr.symm, ?_, fun hc => absurd (hdigit _ hc) (by decide),
    fun hc => absurd (hdigit _ hc) (by decide)⟩
  by_contra hno
  rw [split_of_notMem hno] at hps
  exact absurd hps.1 (by simp)

/-- The text it matches denotes a mapped address, whose quad it finds. -/
theorem mappedQuad_spec {t q : Text} {a : Ipv6} (h : parseZonedV6 t = some a)
    (hq : mappedQuad t = some q) : a.IsMapped ∧ parseV4 q = some a.embedded := by
  obtain ⟨rfl, hdot, hcolon, hzone⟩ := mappedQuad_eq_some hq
  have hzone' : '%' ∉ "::ffff:".toList ++ q := by
    rw [List.mem_append, not_or]
    exact ⟨by decide, hzone⟩
  rw [parseZonedV6_of_no_zone hzone'] at h
  exact parseV6_mapped hdot hcolon h

/-! ## The verdict -/

/-- The three masks are the three ranges. -/
theorem masks_iff (a : Ipv6) :
    (a.val / 2 ^ 112 &&& 0xfe00 = 0xfc00 ∨ a.val / 2 ^ 112 &&& 0xffc0 = 0xfe80 ∨
      a.val / 2 ^ 112 &&& 0xff00 = 0xff00) ↔ InReservedRange a := by
  have hlt : a.val / 2 ^ 112 < 65536 := by
    obtain ⟨g₀, g₁, g₂, g₃, g₄, g₅, g₆, g₇, -, h₀, h₁, h₂, h₃, h₄, h₅, h₆, h₇, hval⟩ :=
      a.exists_groups
    rw [hval]
    omega
  have h7 := land_mask_eq_iff hlt 9 0x7e (by decide)
  have h10 := land_mask_eq_iff hlt 6 0x3fa (by decide)
  have h8 := land_mask_eq_iff hlt 8 0xff (by decide)
  rw [Nat.div_div_eq_div_mul, ← pow_add] at h7 h10 h8
  exact or_congr h7 (or_congr h10 h8)

theorem blockedIpReason_of_parseZonedV6 {t : Text} {a : Ipv6} (h : parseZonedV6 t = some a) :
    blockedIpReason t = blockedV6Reason t := by
  unfold blockedIpReason
  rw [isIP_of_parseZonedV6 h]
  rfl

/-- What the filter refuses: a mapped address in the one spelling it looks for, the two
literals, and the three ranges whatever the spelling. -/
theorem blocked_iff {t : Text} {a : Ipv6} (h : parseZonedV6 t = some a) :
    blockedIpReason t ≠ none ↔
      (mappedQuad (toLowerCase t) ≠ none ∧ EmbedsBlocked a) ∨
      (mappedQuad (toLowerCase t) = none ∧
        ((toLowerCase t = "::".toList ∨ toLowerCase t = "::1".toList) ∨ InReservedRange a)) := by
  have hlow : parseZonedV6 (toLowerCase t) = some a := by rw [parseZonedV6_toLowerCase, h]
  rw [blockedIpReason_of_parseZonedV6 h, blockedV6Reason, firstGroup_eq hlow, ← masks_iff]
  cases hq : mappedQuad (toLowerCase t) with
  | some q =>
      have hquad := (mappedQuad_spec hlow hq).2
      simp [EmbedsBlocked, blockedV4Reason_of_parseV4 hquad]
  | none =>
      simp only [ne_eq, not_true_eq_false, false_and, false_or, true_and]
      split_ifs with hl h7 h10 h8 <;> simp_all

/-- The two literals denote what they say. -/
theorem isLocal_of_literal {t : Text} {a : Ipv6} (h : parseZonedV6 t = some a)
    (hlit : toLowerCase t = "::".toList ∨ toLowerCase t = "::1".toList) : IsLocal a := by
  rw [← parseZonedV6_toLowerCase] at h
  have hv : (parseZonedV6 (toLowerCase t)).map Ipv6.val = some a.val := by rw [h]; rfl
  rcases hlit with he | he
  · have h0 : (parseZonedV6 "::".toList).map Ipv6.val = some 0 := by decide
    rw [he, h0, Option.some.injEq] at hv
    exact .inl hv.symm
  · have h1 : (parseZonedV6 "::1".toList).map Ipv6.val = some 1 := by decide
    rw [he, h1, Option.some.injEq] at hv
    exact .inr hv.symm

/-- The three kinds of forbidden address do not overlap. -/
theorem kinds_disjoint (a : Ipv6) :
    (IsLocal a → ¬ a.IsMapped) ∧ (InReservedRange a → ¬ IsLocal a) ∧
      (InReservedRange a → ¬ a.IsMapped) := by
  simp only [IsLocal, InReservedRange, Ipv6.IsMapped]
  generalize a.val = v
  omega

/-- The verdict on a text is the verdict on its address exactly when the filter knows
the spelling. -/
theorem verdict_iff_spelled {t : Text} {a : Ipv6} (h : parseZonedV6 t = some a) :
    (blockedIpReason t ≠ none ↔ Forbidden a) ↔ Spelled t a := by
  have hlow : parseZonedV6 (toLowerCase t) = some a := by rw [parseZonedV6_toLowerCase, h]
  have hlit := isLocal_of_literal h
  have hquad : mappedQuad (toLowerCase t) ≠ none → a.IsMapped := by
    intro hne
    obtain ⟨q, hq⟩ := Option.ne_none_iff_exists'.1 hne
    exact (mappedQuad_spec hlow hq).1
  obtain ⟨hlm, hrl, hrm⟩ := kinds_disjoint a
  rw [blocked_iff h, Spelled, Forbidden]
  -- what is left is propositional in these five facts
  generalize IsLocal a = loc, InReservedRange a = res, a.IsMapped = mapped,
    EmbedsBlocked a = emb at *
  generalize (toLowerCase t = "::".toList ∨ toLowerCase t = "::1".toList) = lit at *
  by_cases hq : mappedQuad (toLowerCase t) = none
  · simp only [hq, ne_eq, not_true_eq_false, false_and, false_or, true_and] at hquad ⊢
    grind
  · simp only [hq, ne_eq, not_false_eq_true, true_and, false_and, or_false] at hquad ⊢
    grind

/-! ## URLs -/

/-- In a URL an address is written in hexadecimal groups: of the forbidden ones, the
filter misses those that are IPv4-mapped. -/
theorem spelled_serializeV6 (a : Ipv6) :
    Spelled (serializeV6 a) a ↔ ¬ (a.IsMapped ∧ EmbedsBlocked a) := by
  have hnone : mappedQuad (toLowerCase (serializeV6 a)) = none := by
    cases hq : mappedQuad (toLowerCase (serializeV6 a)) with
    | none => rfl
    | some q =>
        obtain ⟨he, hdot, -, -⟩ := mappedQuad_eq_some hq
        have hmem : '.' ∈ toLowerCase (serializeV6 a) := by
          rw [he]
          exact List.mem_append_right _ hdot
        exact absurd ((dot_mem_map caseFold_toLower _).1 hmem) (notMem_serializeV6 a).1
  have hlocal : IsLocal a → toLowerCase (serializeV6 a) = "::".toList ∨
      toLowerCase (serializeV6 a) = "::1".toList := by
    obtain ⟨g₀, g₁, g₂, g₃, g₄, g₅, g₆, g₇, hgs, -, -, -, -, -, -, -, -, hval⟩ := a.exists_groups
    rintro (h | h) <;> rw [hval] at h
    · obtain ⟨rfl, rfl, rfl, rfl, rfl, rfl, rfl, rfl⟩ : g₀ = 0 ∧ g₁ = 0 ∧ g₂ = 0 ∧ g₃ = 0 ∧
          g₄ = 0 ∧ g₅ = 0 ∧ g₆ = 0 ∧ g₇ = 0 := by omega
      left
      rw [serializeV6, hgs]
      decide
    · obtain ⟨rfl, rfl, rfl, rfl, rfl, rfl, rfl, rfl⟩ : g₀ = 0 ∧ g₁ = 0 ∧ g₂ = 0 ∧ g₃ = 0 ∧
          g₄ = 0 ∧ g₅ = 0 ∧ g₆ = 0 ∧ g₇ = 1 := by omega
      right
      rw [serializeV6, hgs]
      decide
  rw [Spelled, hnone]
  simp only [ne_eq, not_true_eq_false, imp_false]
  exact ⟨fun h => h.2, fun h => ⟨hlocal, h⟩⟩

theorem parseZonedV6_serializeV6 (a : Ipv6) : parseZonedV6 (serializeV6 a) = some a := by
  rw [parseZonedV6_of_no_zone (notMem_serializeV6 a).2, parseV6_serializeV6]

theorem blocked_serializeV6_iff {a : Ipv6} (h : Forbidden a) :
    blockedIpReason (serializeV6 a) = none ↔ a.IsMapped ∧ EmbedsBlocked a := by
  have hv := verdict_iff_spelled (parseZonedV6_serializeV6 a)
  rw [spelled_serializeV6, iff_true_right h] at hv
  grind

/-- The scheme and the credentials of the URL pass. -/
def SchemeAccepted (cfg : SsrfConfig) (u : Url) : Prop :=
  (u.protocol = "https:".toList ∨
    (cfg.allowInsecureHttp = true ∧ u.protocol = "http:".toList)) ∧
    u.username = [] ∧ u.password = []

section Url

variable {cfg : SsrfConfig} {newUrl : Text → Option Url} {resolve : Text → Option (List Text)}
  {rawUrl : Text} {u : Url} {a : Ipv6}

/-- A URL with an IPv6 literal is judged by the serialised address. -/
theorem assertDeliverableUrl_ipv6 (hcfg : cfg.allowPrivateDestinations = false)
    (hu : newUrl rawUrl = some u) (ha : u.host = .ipv6 a) :
    assertDeliverableUrl cfg newUrl resolve rawUrl = .ok () ↔
      SchemeAccepted cfg u ∧ blockedIpReason (serializeV6 a) = none := by
  have hip : isIP (serializeV6 a) ≠ 0 := by
    rw [isIP_of_parseZonedV6 (parseZonedV6_serializeV6 a)]
    decide
  simp only [assertDeliverableUrl, hu, hcfg, stripBrackets_ipv6 ha, if_pos hip, firstBlocked,
    SchemeAccepted]
  by_cases hscheme : u.protocol = "https:".toList ∨
      (cfg.allowInsecureHttp = true ∧ u.protocol = "http:".toList)
  · rw [if_neg (by tauto)]
    by_cases hcred : u.username = [] ∧ u.password = []
    · rw [if_neg (by tauto), if_neg (by simp)]
      cases hb : blockedIpReason (serializeV6 a) with
      | none => exact iff_of_true rfl ⟨⟨hscheme, hcred⟩, rfl⟩
      | some reason => simp
    · rw [if_pos (by tauto)]
      exact iff_of_false (by simp) (fun h => hcred h.1.2)
  · rw [if_pos (by tauto)]
    exact iff_of_false (by simp) (fun h => hscheme h.1.1)

theorem literalCheck_ipv6 (hu : newUrl rawUrl = some u) (ha : u.host = .ipv6 a) :
    literalCheck false newUrl rawUrl = .ok () ↔ blockedIpReason (serializeV6 a) = none := by
  have hip : isIP (serializeV6 a) ≠ 0 := by
    rw [isIP_of_parseZonedV6 (parseZonedV6_serializeV6 a)]
    decide
  simp only [literalCheck, hu, stripBrackets_ipv6 ha, if_pos hip]
  cases blockedIpReason (serializeV6 a) with
  | none => simp
  | some reason => simp

end Url

/-- **When IPv6 destinations are judged by the address.**  A text that denotes an
address gets the verdict the address deserves exactly when it is `Spelled` for it, and
two texts of one address get the same verdict exactly when both are or neither is.  A
URL whose host is a forbidden IPv6 literal passes the registration check exactly when
its scheme does and the address is IPv4-mapped, and passes the check before a request
exactly when it is IPv4-mapped. -/
theorem blocked_iff_forbidden_iff_spelled (a : Ipv6) :
    (∀ t : Text, parseZonedV6 t = some a →
      ((blockedIpReason t ≠ none ↔ Forbidden a) ↔ Spelled t a)) ∧
    (∀ s t : Text, parseZonedV6 s = some a → parseZonedV6 t = some a →
      ((blockedIpReason s ≠ none ↔ blockedIpReason t ≠ none) ↔ (Spelled s a ↔ Spelled t a))) ∧
    (∀ (cfg : SsrfConfig) (newUrl : Text → Option Url) (resolve : Text → Option (List Text))
      (rawUrl : Text) (u : Url), cfg.allowPrivateDestinations = false →
      newUrl rawUrl = some u → u.host = .ipv6 a → Forbidden a →
      (assertDeliverableUrl cfg newUrl resolve rawUrl ≠ .ok () ↔
        ¬ (SchemeAccepted cfg u ∧ a.IsMapped)) ∧
      (literalCheck false newUrl rawUrl ≠ .ok () ↔ ¬ a.IsMapped)) := by
  refine ⟨fun t h => verdict_iff_spelled h, ?_, ?_⟩
  · intro s t hs ht
    have vs := verdict_iff_spelled hs
    have vt := verdict_iff_spelled ht
    grind
  · intro cfg newUrl resolve rawUrl u hcfg hu ha hf
    -- a forbidden mapped address is forbidden for the IPv4 address in it
    have hmapped : a.IsMapped ∧ EmbedsBlocked a ↔ a.IsMapped := by
      obtain ⟨hlm, -, hrm⟩ := kinds_disjoint a
      refine ⟨fun h => h.1, fun h => ⟨h, ?_⟩⟩
      rcases hf with hl | hr | hm
      · exact absurd h (hlm hl)
      · exact absurd h (hrm hr)
      · exact hm.2
    rw [ne_eq, assertDeliverableUrl_ipv6 hcfg hu ha, ne_eq, literalCheck_ipv6 hu ha,
      blocked_serializeV6_iff hf, hmapped]
    exact ⟨Iff.rfl, Iff.rfl⟩

/-- `10.0.0.1`, IPv4-mapped. -/
def mappedPrivate : Ipv6 := ⟨[0, 0, 0, 0, 0, 0xffff, 0xa00, 1], rfl, by decide⟩

/-- `https://[::ffff:10.0.0.1]/` as the URL parser gives it. -/
def mappedUrl : Url := ⟨"https:".toList, [], [], .ipv6 mappedPrivate⟩

/-- At the two spellings of the mapped address and at its URL. -/
theorem blocked_iff_forbidden_at_mapped :
    (¬ (blockedIpReason "::ffff:a00:1".toList ≠ none ↔ Forbidden mappedPrivate)) ∧
    (blockedIpReason "::FFFF:10.0.0.1".toList ≠ none ↔ Forbidden mappedPrivate) ∧
    ¬ (blockedIpReason "::ffff:a00:1".toList ≠ none ↔
      blockedIpReason "::FFFF:10.0.0.1".toList ≠ none) ∧
    ¬ (assertDeliverableUrl ⟨false, false⟩ (fun _ => some mappedUrl) (fun _ => none)
      "https://[::ffff:10.0.0.1]/".toList ≠ .ok ()) := by
  obtain ⟨hverdict, hsame, hurl⟩ := blocked_iff_forbidden_iff_spelled mappedPrivate
  have hs : parseZonedV6 "::ffff:a00:1".toList = some mappedPrivate := by decide
  have ht : parseZonedV6 "::FFFF:10.0.0.1".toList = some mappedPrivate := by decide
  have hns : ¬ Spelled "::ffff:a00:1".toList mappedPrivate := by decide
  have hst : Spelled "::FFFF:10.0.0.1".toList mappedPrivate := by decide
  refine ⟨fun h => hns ((hverdict _ hs).1 h), (hverdict _ ht).2 hst, fun h => ?_, fun h => ?_⟩
  · exact hns (((hsame _ _ hs ht).1 h).2 hst)
  · refine (hurl ⟨false, false⟩ (fun _ => some mappedUrl) (fun _ => none) _ mappedUrl
      rfl rfl rfl (by decide)).1.1 h ⟨⟨.inl rfl, rfl, rfl⟩, by decide⟩

/-- The filter does not judge by the address: `::ffff:a00:1` is `10.0.0.1` and passes. -/
theorem not_blocked_of_mapped_hex :
    ¬ (∀ (t : Text) (a : Ipv6), parseZonedV6 t = some a →
      (blockedIpReason t ≠ none ↔ Forbidden a)) := by
  intro h
  have hs : parseZonedV6 "::ffff:a00:1".toList = some mappedPrivate := by decide
  exact absurd ((h _ _ hs).2 (by decide)) (by decide)

end HookRelay
