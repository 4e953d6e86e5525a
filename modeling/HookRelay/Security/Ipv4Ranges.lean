import HookRelay.Lib.Int32
import HookRelay.Security.Ssrf

/-!
# The IPv4 ranges

`blockedV4Reason` compares octets in some places and masks in others.  Here both are intervals
of the unsigned value.

* `signedInRange` — `inRange` with the operators of JavaScript, on signed 32-bit integers;
  `inRange_eq_signedInRange` says that `inRange` is that.
* `Cidr`, `reservedRanges` — the ten ranges, as the intervals they stand for.
* `blockedV4Reason_iff_reserved` — an address is refused exactly when it is in one of them.
-/

namespace HookRelay

open Lib

/-- `inRange(cidr)`: `(value & mask) === (baseValue & mask)` for `mask = -1 << (32 - bits)`. -/
def signedInRange (value : ℕ) (base : Text) (bits : ℕ) : Bool :=
  Int32.band value (Int32.shl (-1) (32 - bits)) =
    Int32.band (octetsValue (octets base)) (Int32.shl (-1) (32 - bits))

/-- **The sign is harmless.** -/
theorem inRange_eq_signedInRange (value : ℕ) (base : Text) {bits : ℕ} (h : bits ≤ 32) :
    inRange value base bits = signedInRange value base bits := by
  have hshift : ((32 - bits : ℤ) % 32).toNat = (32 - bits) % 32 := by omega
  unfold inRange signedInRange
  apply Bool.decide_congr
  rw [Int32.band_eq_band_iff, Int32.ofInt_mask, hshift]
  rfl

/-- An address range: the octets of its base, and the number of leading bits that count. -/
structure Cidr where
  base : List ℕ
  bits : ℕ

namespace Cidr

/-- The addresses of a range, by their unsigned value. -/
def Contains (r : Cidr) (value : ℕ) : Prop :=
  octetsValue r.base ≤ value ∧ value < octetsValue r.base + 2 ^ (32 - r.bits)

/-- The base fits 32 bits and has no bit below the mask. -/
def Aligned (r : Cidr) : Prop :=
  octetsValue r.base < 2 ^ 32 ∧ 0 < r.bits ∧ r.bits ≤ 32 ∧
    2 ^ (32 - r.bits) ∣ octetsValue r.base

instance (r : Cidr) : Decidable r.Aligned := inferInstanceAs (Decidable (_ ∧ _))

end Cidr

/-- The ranges a delivery may not be sent to. -/
def reservedRanges : List Cidr :=
  [⟨[0, 0, 0, 0], 8⟩, ⟨[10, 0, 0, 0], 8⟩, ⟨[100, 64, 0, 0], 10⟩, ⟨[127, 0, 0, 0], 8⟩,
    ⟨[169, 254, 0, 0], 16⟩, ⟨[172, 16, 0, 0], 12⟩, ⟨[192, 0, 0, 0], 24⟩, ⟨[192, 168, 0, 0], 16⟩,
    ⟨[198, 18, 0, 0], 15⟩, ⟨[224, 0, 0, 0], 3⟩]

theorem aligned_reservedRanges : ∀ r ∈ reservedRanges, r.Aligned := by decide

/-- `inRange` is membership. -/
theorem inRange_iff_contains {value : ℕ} {base : Text} {r : Cidr} (hvalue : value < 2 ^ 32)
    (hoctets : octets base = r.base) (hr : r.Aligned) :
    inRange value base r.bits = true ↔ r.Contains value := by
  obtain ⟨hbase, hpos, hbits, hdvd⟩ := hr
  have hshift : (32 - r.bits : ℤ) = ((32 - r.bits : ℕ) : ℤ) := by omega
  rw [inRange_eq_signedInRange value base hbits, signedInRange, hoctets, decide_eq_true_eq,
    hshift, Int32.band_prefix_iff hvalue hbase (by omega),
    Int32.div_eq_div_iff_interval (Nat.two_pow_pos _) hdvd]
  rfl

/-- The five masks of the source, as intervals. -/
theorem inRange_source {value : ℕ} (h : value < 2 ^ 32) :
    (inRange value "0.0.0.0".toList 8 = true ↔ Cidr.Contains ⟨[0, 0, 0, 0], 8⟩ value) ∧
    (inRange value "100.64.0.0".toList 10 = true ↔ Cidr.Contains ⟨[100, 64, 0, 0], 10⟩ value) ∧
    (inRange value "169.254.0.0".toList 16 = true ↔ Cidr.Contains ⟨[169, 254, 0, 0], 16⟩ value) ∧
    (inRange value "192.0.0.0".toList 24 = true ↔ Cidr.Contains ⟨[192, 0, 0, 0], 24⟩ value) ∧
    (inRange value "198.18.0.0".toList 15 = true ↔ Cidr.Contains ⟨[198, 18, 0, 0], 15⟩ value) := by
  have hmem : ∀ (base : Text) (r : Cidr), octets base = r.base → r ∈ reservedRanges →
      (inRange value base r.bits = true ↔ r.Contains value) := fun _ r hoctets hr =>
    inRange_iff_contains h hoctets (aligned_reservedRanges r hr)
  refine ⟨?_, ?_, ?_, ?_, ?_⟩
  · exact hmem _ ⟨[0, 0, 0, 0], 8⟩ (by decide) (by simp [reservedRanges])
  · exact hmem _ ⟨[100, 64, 0, 0], 10⟩ (by decide) (by simp [reservedRanges])
  · exact hmem _ ⟨[169, 254, 0, 0], 16⟩ (by decide) (by simp [reservedRanges])
  · exact hmem _ ⟨[192, 0, 0, 0], 24⟩ (by decide) (by simp [reservedRanges])
  · exact hmem _ ⟨[198, 18, 0, 0], 15⟩ (by decide) (by simp [reservedRanges])

/-- The value of four octets. -/
theorem octetsValue_four (a b c d : ℕ) :
    octetsValue [a, b, c, d] = ((a * 256 + b) * 256 + c) * 256 + d := by
  simp [octetsValue]

theorem ite_some_ne_none {p : Prop} [Decidable p] {reason : Text} {rest : Option Text} :
    (if p then some reason else rest) ≠ none ↔ p ∨ rest ≠ none := by
  by_cases h : p
  · simp [h]
  · simp [h]

/-- The tests of the source, each by itself. -/
theorem blockedV4Reason_ne_none_iff (t : Text) : blockedV4Reason t ≠ none ↔
    inRange (octetsValue (octets t)) "0.0.0.0".toList 8 = true ∨
    (octets t).getD 0 0 = 10 ∨
    inRange (octetsValue (octets t)) "100.64.0.0".toList 10 = true ∨
    (octets t).getD 0 0 = 127 ∨
    inRange (octetsValue (octets t)) "169.254.0.0".toList 16 = true ∨
    ((octets t).getD 0 0 = 172 ∧ 16 ≤ (octets t).getD 1 0 ∧ (octets t).getD 1 0 ≤ 31) ∨
    inRange (octetsValue (octets t)) "192.0.0.0".toList 24 = true ∨
    ((octets t).getD 0 0 = 192 ∧ (octets t).getD 1 0 = 168) ∨
    inRange (octetsValue (octets t)) "198.18.0.0".toList 15 = true ∨
    224 ≤ (octets t).getD 0 0 := by
  unfold blockedV4Reason
  simp only [ite_some_ne_none, ne_eq, not_true, or_false]

/-- **The verdict on IPv4.**  `inRange` is what JavaScript computes on signed 32-bit integers,
and an address, as any text that splits into its octets, is refused exactly when its unsigned
value lies in one of the ten ranges. -/
theorem blockedV4Reason_iff_reserved :
    (∀ (value : ℕ) (base : Text) (bits : ℕ), bits ≤ 32 →
      inRange value base bits = signedInRange value base bits) ∧
    (∀ (v : Ipv4) (t : Text), octets t = [(v.a : ℕ), v.b, v.c, v.d] →
      (blockedV4Reason t ≠ none ↔ ∃ r ∈ reservedRanges, r.Contains v.val)) := by
  refine ⟨fun value base bits h => inRange_eq_signedInRange value base h, ?_⟩
  intro v t ht
  have ha := v.a.isLt
  have hb := v.b.isLt
  have hc := v.c.isLt
  have hd := v.d.isLt
  have hvalue : octetsValue (octets t) = v.val := by
    rw [ht, octetsValue_four, Ipv4.val]
    omega
  have hlt : v.val < 2 ^ 32 := by
    unfold Ipv4.val
    omega
  obtain ⟨h0, h100, h169, h192, h198⟩ := inRange_source hlt
  rw [blockedV4Reason_ne_none_iff, hvalue, h0, h100, h169, h192, h198, ht]
  simp only [reservedRanges, List.exists_mem_cons_iff, List.not_mem_nil, false_and, exists_false,
    or_false, Cidr.Contains, octetsValue_four, List.getD_cons_zero, List.getD_cons_succ, Ipv4.val,
    Nat.reduceMul, Nat.reduceAdd, Nat.reduceSub, Nat.reducePow]
  omega

/-- At `172.31.255.255`, whose value is above `2 ^ 31`. -/
theorem blockedV4Reason_iff_reserved_at :
    signedInRange 0xAC1FFFFF "198.18.0.0".toList 15 = false ∧
    blockedV4Reason "172.31.255.255".toList ≠ none := by
  refine ⟨?_, ?_⟩
  · rw [← blockedV4Reason_iff_reserved.1 0xAC1FFFFF "198.18.0.0".toList 15 (by decide)]
    decide
  · refine (blockedV4Reason_iff_reserved.2 (Ipv4.ofNat 0xAC1FFFFF) "172.31.255.255".toList
      (by decide)).2 ⟨⟨[172, 16, 0, 0], 12⟩, by simp [reservedRanges], ?_⟩
    unfold Cidr.Contains
    decide

end HookRelay
