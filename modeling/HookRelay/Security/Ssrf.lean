import HookRelay.Lib.IpText
import HookRelay.Common.Errors

/-!
# The destination filter

`ssrf.service.ts`: which addresses a delivery may not be sent to, and the check of
an endpoint's URL when it is registered or changed.

* `blockedIpReason` — why an address, given as text, is refused.  For IPv4 the text
  is turned into numbers and compared with the reserved ranges; for IPv6 the *text*
  is matched against two literals, a regular expression and its first group.
* `assertDeliverableUrl` — the check of a URL.  The URL parser and the resolver are
  parameters; what the parser gives for an IPv6 literal is the serialisation of the
  address (`Url.hostname`).

`isIP` is Node's `net.isIP`: `4` for a dotted quad, `6` for an RFC 4291 form that
may carry a zone, `0` otherwise.
-/

namespace HookRelay

open Lib

/-- `net.isIP`. -/
def isIP (t : Text) : ℕ :=
  if (parseV4 t).isSome then 4 else if (parseZonedV6 t).isSome then 6 else 0

/-! ## IPv4 -/

/-- `text.split('.').map(Number)`; every caller passes a text of digits and dots. -/
def octets (t : Text) : List ℕ := (split '.' t).map fun p => (decNumber p).getD 0

/-- `octets.reduce((acc, o) => acc * 256 + o, 0)`. -/
def octetsValue (os : List ℕ) : ℕ := os.foldl (fun acc o => acc * 256 + o) 0

/-- `inRange(cidr)`: both sides are cut to 32 bits by `&`; the shift `-1 << (32 - bits)`
takes its distance modulo 32. -/
def inRange (value : ℕ) (base : Text) (bits : ℕ) : Bool :=
  let baseValue := octetsValue (octets base)
  let mask := BitVec.allOnes 32 <<< ((32 - bits) % 32)
  BitVec.ofNat 32 value &&& mask = BitVec.ofNat 32 baseValue &&& mask

/-- `blockedV4Reason`. -/
def blockedV4Reason (ip : Text) : Option Text :=
  let os := octets ip
  let a := os.getD 0 0
  let b := os.getD 1 0
  let value := octetsValue os
  if inRange value "0.0.0.0".toList 8 then some "예약 대역(0.0.0.0/8)입니다".toList
  else if a = 10 then some "사설 대역(10.0.0.0/8)입니다".toList
  else if inRange value "100.64.0.0".toList 10 then some "CGNAT 대역(100.64.0.0/10)입니다".toList
  else if a = 127 then some "루프백(127.0.0.0/8)입니다".toList
  else if inRange value "169.254.0.0".toList 16 then
    some "링크로컬(169.254.0.0/16) — 클라우드 메타데이터 대역입니다".toList
  else if a = 172 ∧ 16 ≤ b ∧ b ≤ 31 then some "사설 대역(172.16.0.0/12)입니다".toList
  else if inRange value "192.0.0.0".toList 24 then some "예약 대역(192.0.0.0/24)입니다".toList
  else if a = 192 ∧ b = 168 then some "사설 대역(192.168.0.0/16)입니다".toList
  else if inRange value "198.18.0.0".toList 15 then
    some "벤치마크 예약 대역(198.18.0.0/15)입니다".toList
  else if 224 ≤ a then some "멀티캐스트/예약 대역(224.0.0.0/3)입니다".toList
  else none

/-- The verdict looks at the numbers only. -/
theorem blockedV4Reason_congr {s t : Text} (h : octets s = octets t) :
    blockedV4Reason s = blockedV4Reason t := by
  unfold blockedV4Reason
  rw [h]

/-- The numbers of a dotted quad are the octets of the address it denotes. -/
theorem octets_of_parseV4 {t : Text} {v : Ipv4} (h : parseV4 t = some v) :
    octets t = [(v.a : ℕ), v.b, v.c, v.d] := by
  have octet : ∀ {p : Text} {o : Fin 256}, parseOctet p = some o → (decNumber p).getD 0 = o := by
    intro p o hp
    unfold parseOctet at hp
    split_ifs at hp
    obtain ⟨n, hn, hp⟩ := Option.bind_eq_some_iff.1 hp
    split_ifs at hp
    simp only [Option.some.injEq] at hp
    rw [hn, ← hp]
    rfl
  unfold parseV4 at h
  unfold octets
  split at h
  · rename_i a b c d hs
    split at h
    · rename_i ha hb hc hd
      simp only [Option.some.injEq] at h
      rw [hs, ← h]
      simp only [List.map_cons, List.map_nil, octet ha, octet hb, octet hc, octet hd]
    · exact absurd h (by simp)
  · exact absurd h (by simp)

/-- The dotted form is read back. -/
theorem octets_dotted (v : Ipv4) : octets (dotted v) = [(v.a : ℕ), v.b, v.c, v.d] := by
  have digits : ∀ o : Fin 256,
      '.' ∉ Nat.toDigits 10 o ∧ decNumber (Nat.toDigits 10 o) = some (o : ℕ) := by
    decide +kernel
  have hs : split '.' (dotted v) =
      [(v.a : ℕ), v.b, v.c, v.d].map (Nat.toDigits 10) := by
    unfold dotted
    refine split_intercalate (by simp) ?_
    intro p hp
    simp only [List.map_cons, List.map_nil, List.mem_cons, List.not_mem_nil, or_false] at hp
    rcases hp with rfl | rfl | rfl | rfl <;> exact (digits _).1
  unfold octets
  rw [hs]
  simp only [List.map_cons, List.map_nil, (digits _).2, Option.getD_some]

/-- The verdict on a quad is the verdict on the address it denotes. -/
theorem blockedV4Reason_of_parseV4 {t : Text} {v : Ipv4} (h : parseV4 t = some v) :
    blockedV4Reason t = blockedV4Reason (dotted v) :=
  blockedV4Reason_congr ((octets_of_parseV4 h).trans (octets_dotted v).symm)

/-! ## IPv6 -/

/-- `String.prototype.toLowerCase`, on the ASCII texts that `isIP` accepts. -/
def toLowerCase (t : Text) : Text := t.map Char.toLower

/-- One or more decimal digits: `\d+`. -/
def isDigits (p : Text) : Bool := p ≠ [] && p.all fun c => (decVal c).isSome

/-- `/^::ffff:(\d+\.\d+\.\d+\.\d+)$/.exec(lower)`: what the group matches. -/
def mappedQuad (lower : Text) : Option Text :=
  if "::ffff:".toList.isPrefixOf lower then
    let q := lower.drop 7
    let ps := split '.' q
    if ps.length = 4 ∧ ps.all isDigits then some q else none
  else none

/-- `parseInt(text, 16)`: the hexadecimal digits at the front, `none` for `NaN`.  The
caller's text is the first group of an address, which has no sign, blank or `0x`. -/
def parseInt16 (t : Text) : Option ℕ :=
  let ds := t.takeWhile fun c => (hexVal c).isSome
  if ds = [] then none else hexNumber ds

/-- `parseInt(lower.split(':')[0] || '0', 16)`. -/
def firstGroup (lower : Text) : ℕ :=
  let p := firstPiece lower
  (parseInt16 (if p = [] then "0".toList else p)).getD 0

/-- `blockedV6Reason`. -/
def blockedV6Reason (ip : Text) : Option Text :=
  let lower := toLowerCase ip
  match mappedQuad lower with
  | some q => blockedV4Reason q
  | none =>
      if lower = "::".toList ∨ lower = "::1".toList then some "루프백/미지정(::1, ::)입니다".toList
      else if firstGroup lower &&& 0xfe00 = 0xfc00 then some "ULA 사설 대역(fc00::/7)입니다".toList
      else if firstGroup lower &&& 0xffc0 = 0xfe80 then some "링크로컬(fe80::/10)입니다".toList
      else if firstGroup lower &&& 0xff00 = 0xff00 then some "멀티캐스트(ff00::/8)입니다".toList
      else none

/-- `blockedIpReason`. -/
def blockedIpReason (ip : Text) : Option Text :=
  match isIP ip with
  | 4 => blockedV4Reason ip
  | 6 => blockedV6Reason ip
  | _ => some "IP 형식이 아닙니다".toList

/-! ## URLs -/

/-- The host of a parsed URL. -/
inductive Host where
  | domain (name : Text)
  | ipv4 (v : Ipv4)
  | ipv6 (a : Ipv6)

/-- The parts of a `URL` the service looks at. -/
structure Url where
  protocol : Text
  username : Text
  password : Text
  host : Host

/-- `url.hostname`: the host is serialised again, an IPv6 address in brackets. -/
def Url.hostname (u : Url) : Text :=
  match u.host with
  | .domain name => name
  | .ipv4 v => dotted v
  | .ipv6 a => '[' :: serializeV6 a ++ [']']

/-- `hostname.replace(/^\[|\]$/g, '')`. -/
def stripBrackets (t : Text) : Text :=
  let t := if t.head? = some '[' then t.tail else t
  if t.getLast? = some ']' then t.dropLast else t

/-- The configuration of the filter. -/
structure SsrfConfig where
  allowInsecureHttp : Bool
  allowPrivateDestinations : Bool

/-- The first of the addresses that is refused, with the reason. -/
def firstBlocked : List Text → Option (Text × Text)
  | [] => none
  | ip :: ips =>
      match blockedIpReason ip with
      | some reason => some (reason, ip)
      | none => firstBlocked ips

/-- `resolveOrReject`: the resolver throws, finds nothing, or gives addresses. -/
def resolveOrReject (resolve : Text → Option (List Text)) (hostname : Text) :
    Except DomainException (List Text) :=
  match resolve hostname with
  | some (ip :: ips) => .ok (ip :: ips)
  | _ => .error (Errors.unsafeEndpointUrl "호스트명을 해석할 수 없습니다".toList)

/-- `assertDeliverableUrl`, with the URL parser `newUrl` (`none` when it throws) and
the resolver. -/
def assertDeliverableUrl (cfg : SsrfConfig) (newUrl : Text → Option Url)
    (resolve : Text → Option (List Text)) (rawUrl : Text) : Except DomainException Unit :=
  match newUrl rawUrl with
  | none => .error (Errors.unsafeEndpointUrl "URL 형식이 아닙니다".toList)
  | some url =>
      if url.protocol ≠ "https:".toList ∧
          ¬ (cfg.allowInsecureHttp = true ∧ url.protocol = "http:".toList) then
        .error (Errors.unsafeEndpointUrl "https만 허용됩니다".toList)
      else if url.username ≠ [] ∨ url.password ≠ [] then
        .error (Errors.unsafeEndpointUrl "URL에 자격증명을 포함할 수 없습니다".toList)
      else if cfg.allowPrivateDestinations then .ok ()
      else
        let hostname := stripBrackets url.hostname
        let ips := if isIP hostname ≠ 0 then .ok [hostname] else resolveOrReject resolve hostname
        match ips with
        | .error e => .error e
        | .ok ips =>
            match firstBlocked ips with
            | some (reason, ip) =>
                .error (Errors.unsafeEndpointUrl (reason ++ " (".toList ++ ip ++ ")".toList))
            | none => .ok ()

/-- The literal host of an IPv6 URL is the serialised address, without its brackets. -/
theorem stripBrackets_ipv6 {u : Url} {a : Ipv6} (h : u.host = .ipv6 a) :
    stripBrackets u.hostname = serializeV6 a := by
  simp [Url.hostname, h, stripBrackets]

end HookRelay
