import HookRelay.Lib.Hex

/-!
# Internet addresses and their text forms

IPv4 and IPv6 addresses, the text forms of RFC 4291 with a reader for them, and
the serialisation of an IPv6 address that the URL standard prescribes.

* `parseV4` — four decimal octets without leading zeros.
* `parseV6` — eight groups of one to four hexadecimal digits separated by colons;
  the last two groups may be written as a dotted quad; one or more zero groups may
  be left out and written `::`, once.  `parseZonedV6` also takes a `%zone` after
  the address.
* `serializeV6` — lower-case groups without leading zeros, the first longest run
  of two or more zero groups left out.
-/

namespace Lib

/-! ## Splitting -/

/-- The pieces of a text between the occurrences of `c`. -/
def split (c : Char) : List Char → List (List Char)
  | [] => [[]]
  | d :: t => if d = c then [] :: split c t else (split c t).modifyHead (d :: ·)

/-- Cut a text at the first `::`. -/
def splitDouble : List Char → Option (List Char × List Char)
  | ':' :: ':' :: r => some ([], r)
  | d :: t => (splitDouble t).map fun p => (d :: p.1, p.2)
  | [] => none

theorem split_ne_nil (c : Char) (t : List Char) : split c t ≠ [] := by
  induction t with
  | nil => simp [split]
  | cons d t ih =>
      rw [split]
      split_ifs
      · simp
      · cases h : split c t with
        | nil => exact absurd h ih
        | cons p ps => simp

theorem split_of_notMem {c : Char} {t : List Char} (h : c ∉ t) : split c t = [t] := by
  induction t with
  | nil => rfl
  | cons d t ih =>
      simp only [List.mem_cons, not_or] at h
      rw [split, if_neg (Ne.symm h.1), ih h.2]
      rfl

/-- Splitting a text that ends a piece before `c` and goes on after it. -/
theorem split_append_cons (c : Char) (a b : List Char) :
    split c (a ++ c :: b) = split c a ++ split c b := by
  induction a with
  | nil => simp [split]
  | cons d a ih =>
      rw [List.cons_append, split, split, ih]
      split_ifs
      · simp
      · cases h : split c a with
        | nil => exact absurd h (split_ne_nil c a)
        | cons p ps => simp

/-- The first piece is what stands before the first `c`. -/
theorem head?_split (c : Char) (t : List Char) :
    (split c t).head? = some (t.takeWhile (· ≠ c)) := by
  induction t with
  | nil => rfl
  | cons d t ih =>
      rw [split, List.takeWhile_cons]
      by_cases hd : d = c
      · simp [hd]
      · cases h : split c t with
        | nil => exact absurd h (split_ne_nil c t)
        | cons p ps =>
            rw [h] at ih
            simp only [List.head?_cons, Option.some.injEq] at ih
            simp [hd, ih]

/-- Splitting what was joined with a separator gives the pieces back. -/
theorem split_intercalate {c : Char} {ps : List (List Char)} (hne : ps ≠ [])
    (h : ∀ p ∈ ps, c ∉ p) : split c ([c].intercalate ps) = ps := by
  induction ps with
  | nil => exact absurd rfl hne
  | cons p ps ih =>
      cases ps with
      | nil => simpa [List.intercalate] using split_of_notMem (h p (by simp))
      | cons q qs =>
          have hrest := ih (by simp) (fun x hx => h x (by simp [hx]))
          have : [c].intercalate (p :: q :: qs) = p ++ c :: [c].intercalate (q :: qs) := by
            simp [List.intercalate, List.intersperse]
          rw [this, split_append_cons, split_of_notMem (h p (by simp)), hrest]
          rfl

theorem splitDouble_eq_some {t l r : List Char} (h : splitDouble t = some (l, r)) :
    t = l ++ ':' :: ':' :: r := by
  induction t using splitDouble.induct generalizing l with
  | case1 r' => simp [splitDouble] at h; obtain ⟨rfl, rfl⟩ := h; rfl
  | case2 d t hne ih =>
      rw [splitDouble] at h
      · obtain ⟨⟨l', r'⟩, hp, heq⟩ := Option.map_eq_some_iff.1 h
        simp only [Prod.mk.injEq] at heq
        obtain ⟨rfl, rfl⟩ := heq
        rw [ih hp]
        rfl
      · exact hne
  | case3 => simp [splitDouble] at h

/-- Without a `::` in it there is nothing to cut. -/
theorem splitDouble_append {l r : List Char} (h : splitDouble l = none)
    (hlast : l.getLast? ≠ some ':') : splitDouble (l ++ ':' :: ':' :: r) = some (l, r) := by
  induction l with
  | nil => rfl
  | cons d l ih =>
      cases l with
      | nil =>
          have hd : d ≠ ':' := by simpa using hlast
          rw [List.cons_append, List.nil_append, splitDouble]
          · rfl
          · intro r' hd' _; exact hd hd'
      | cons e l =>
          have hnot : ¬ (d = ':' ∧ e = ':') := by
            rintro ⟨rfl, rfl⟩
            simp [splitDouble] at h
          have hrec : splitDouble (d :: e :: l) =
              (splitDouble (e :: l)).map fun p => (d :: p.1, p.2) := by
            rw [splitDouble]
            intro r' hd he
            simp only [List.cons.injEq] at he
            exact hnot ⟨hd, he.1⟩
          rw [hrec, Option.map_eq_none_iff] at h
          have := ih h (by simpa using hlast)
          rw [List.cons_append, splitDouble, this]
          · rfl
          · intro r' hd he
            simp only [List.cons_append, List.cons.injEq] at he
            exact hnot ⟨hd, he.1⟩

/-! ## Addresses -/

/-- An IPv4 address: four octets. -/
structure Ipv4 where
  a : Fin 256
  b : Fin 256
  c : Fin 256
  d : Fin 256
  deriving DecidableEq

namespace Ipv4

/-- The unsigned 32-bit value. -/
def val (v : Ipv4) : ℕ := v.a * 2 ^ 24 + v.b * 2 ^ 16 + v.c * 2 ^ 8 + v.d

/-- The address with a 32-bit value. -/
def ofNat (n : ℕ) : Ipv4 :=
  ⟨Fin.ofNat 256 (n / 2 ^ 24), Fin.ofNat 256 (n / 2 ^ 16), Fin.ofNat 256 (n / 2 ^ 8),
    Fin.ofNat 256 n⟩

theorem ofNat_val (v : Ipv4) : ofNat v.val = v := by
  obtain ⟨⟨a, ha⟩, ⟨b, hb⟩, ⟨c, hc⟩, ⟨d, hd⟩⟩ := v
  simp only [ofNat, val, Fin.ofNat, mk.injEq, Fin.mk.injEq]
  refine ⟨?_, ?_, ?_, ?_⟩ <;> omega

end Ipv4

/-- An IPv6 address: eight groups of 16 bits. -/
structure Ipv6 where
  groups : List ℕ
  length_eq : groups.length = 8
  lt : ∀ g ∈ groups, g < 65536

namespace Ipv6

@[ext] theorem ext {a b : Ipv6} (h : a.groups = b.groups) : a = b := by
  cases a; cases b; cases h; rfl

instance : DecidableEq Ipv6 := fun a b => decidable_of_iff (a.groups = b.groups)
  ⟨Ipv6.ext, fun h => h ▸ rfl⟩

/-- The unsigned 128-bit value. -/
def val (a : Ipv6) : ℕ := a.groups.foldl (fun acc g => acc * 65536 + g) 0

/-- The address with the given groups, if they are the groups of one. -/
def ofGroups? (gs : List ℕ) : Option Ipv6 :=
  if h : gs.length = 8 ∧ ∀ g ∈ gs, g < 65536 then some ⟨gs, h.1, h.2⟩ else none

theorem ofGroups?_eq_some {gs : List ℕ} {a : Ipv6} (h : ofGroups? gs = some a) : a.groups = gs := by
  unfold ofGroups? at h
  split at h
  · cases h; rfl
  · exact absurd h (by simp)

theorem ofGroups?_groups (a : Ipv6) : ofGroups? a.groups = some a := by
  unfold ofGroups?
  rw [dif_pos ⟨a.length_eq, a.lt⟩]

/-- An address is its eight groups, and its value their value to the base `2 ^ 16`. -/
theorem exists_groups (a : Ipv6) : ∃ g₀ g₁ g₂ g₃ g₄ g₅ g₆ g₇ : ℕ,
    a.groups = [g₀, g₁, g₂, g₃, g₄, g₅, g₆, g₇] ∧ g₀ < 65536 ∧ g₁ < 65536 ∧ g₂ < 65536 ∧
    g₃ < 65536 ∧ g₄ < 65536 ∧ g₅ < 65536 ∧ g₆ < 65536 ∧ g₇ < 65536 ∧
    a.val = ((((((g₀ * 65536 + g₁) * 65536 + g₂) * 65536 + g₃) * 65536 + g₄) * 65536 + g₅) * 65536
      + g₆) * 65536 + g₇ := by
  obtain ⟨gs, hlen, hlt⟩ := a
  match gs, hlen, hlt with
  | [g₀, g₁, g₂, g₃, g₄, g₅, g₆, g₇], _, hlt =>
      simp only [List.mem_cons, List.not_mem_nil, or_false, forall_eq_or_imp, forall_eq] at hlt
      refine ⟨g₀, g₁, g₂, g₃, g₄, g₅, g₆, g₇, rfl, hlt.1, hlt.2.1, hlt.2.2.1, hlt.2.2.2.1,
        hlt.2.2.2.2.1, hlt.2.2.2.2.2.1, hlt.2.2.2.2.2.2.1, hlt.2.2.2.2.2.2.2, ?_⟩
      simp [val]

/-- The IPv4 address in the last 32 bits. -/
def embedded (a : Ipv6) : Ipv4 := Ipv4.ofNat (a.val % 2 ^ 32)

/-- `::ffff:0:0/96`: an IPv4 address written as an IPv6 address. -/
def IsMapped (a : Ipv6) : Prop := a.val / 2 ^ 32 = 0xffff

instance (a : Ipv6) : Decidable a.IsMapped := inferInstanceAs (Decidable (_ = _))

end Ipv6

/-! ## Reading -/

/-- A decimal octet: one to three digits, no leading zero, at most 255. -/
def parseOctet (p : List Char) : Option (Fin 256) :=
  if p.length = 0 ∨ 3 < p.length ∨ (p.head? = some '0' ∧ p.length ≠ 1) then none
  else (decNumber p).bind fun n => if h : n < 256 then some ⟨n, h⟩ else none

/-- A dotted quad. -/
def parseV4 (t : List Char) : Option Ipv4 :=
  match split '.' t with
  | [a, b, c, d] =>
      match parseOctet a, parseOctet b, parseOctet c, parseOctet d with
      | some a, some b, some c, some d => some ⟨a, b, c, d⟩
      | _, _, _, _ => none
  | _ => none

/-- A group: one to four hexadecimal digits. -/
def parseGroup (p : List Char) : Option ℕ :=
  if p.length = 0 ∨ 4 < p.length then none else hexNumber p

/-- The two groups of a dotted quad. -/
def quadGroups (v : Ipv4) : List ℕ := [v.a * 256 + v.b, v.c * 256 + v.d]

/-- Groups, none of them dotted. -/
def parseGroups : List (List Char) → Option (List ℕ)
  | [] => some []
  | p :: ps =>
      match parseGroup p, parseGroups ps with
      | some g, some gs => some (g :: gs)
      | _, _ => none

/-- Groups, the last two of which may be written as a dotted quad. -/
def parseTail : List (List Char) → Option (List ℕ)
  | [] => some []
  | [p] => if '.' ∈ p then (parseV4 p).map quadGroups else (parseGroup p).map fun g => [g]
  | p :: ps =>
      match parseGroup p, parseTail ps with
      | some g, some gs => some (g :: gs)
      | _, _ => none

/-- The groups on one side of a `::`; there may be none. -/
def piecesOf (t : List Char) : List (List Char) := if t = [] then [] else split ':' t

/-- An IPv6 address in one of the text forms of RFC 4291. -/
def parseV6 (t : List Char) : Option Ipv6 :=
  match splitDouble t with
  | none => (parseTail (split ':' t)).bind Ipv6.ofGroups?
  | some (l, r) =>
      match parseGroups (piecesOf l), parseTail (piecesOf r) with
      | some ls, some rs =>
          if ls.length + rs.length ≤ 7 then
            Ipv6.ofGroups? (ls ++ List.replicate (8 - (ls.length + rs.length)) 0 ++ rs)
          else none
      | _, _ => none

/-- The characters of a zone. -/
def isZoneChar (c : Char) : Bool := c.isAlphanum || c = '-' || c = '.' || c = ':'

/-- An IPv6 address, possibly followed by `%` and a zone. -/
def parseZonedV6 (t : List Char) : Option Ipv6 :=
  match t.dropWhile (· ≠ '%') with
  | [] => parseV6 t
  | _ :: zone =>
      if zone ≠ [] ∧ zone.all isZoneChar then parseV6 (t.takeWhile (· ≠ '%')) else none

/-! ## Serialising -/

/-- The number of zero groups at the front. -/
def zeroRun (gs : List ℕ) : ℕ := (gs.takeWhile (· = 0)).length

/-- The first longest run of zero groups that is at least two long: its position
and its length. -/
def compressed (gs : List ℕ) : Option (ℕ × ℕ) :=
  (List.range gs.length).foldl (fun best i =>
    let n := zeroRun (gs.drop i)
    if 2 ≤ n ∧ (best.map Prod.snd).getD 0 < n then some (i, n) else best) none

/-- Groups in hexadecimal, separated by colons. -/
def joinGroups (gs : List ℕ) : List Char := [':'].intercalate (gs.map hexText)

/-- The serialisation of an IPv6 address in a URL. -/
def serializeV6 (a : Ipv6) : List Char :=
  match compressed a.groups with
  | none => joinGroups a.groups
  | some (i, n) => joinGroups (a.groups.take i) ++ ':' :: ':' :: joinGroups (a.groups.drop (i + n))

/-- The dotted form of an IPv4 address. -/
def dotted (v : Ipv4) : List Char :=
  ['.'].intercalate ([(v.a : ℕ), v.b, v.c, v.d].map (Nat.toDigits 10))

example : (parseV6 "2001:DB8::192.0.2.33".toList).map serializeV6 =
    some "2001:db8::c000:221".toList := by decide

end Lib
