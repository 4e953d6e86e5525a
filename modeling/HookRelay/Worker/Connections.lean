import HookRelay.Lib.Transition
import HookRelay.Worker.HttpClient

/-!
# The connections of the delivery client

`DeliveryHttpClient` with the agent behind it, over any number of attempts.  What the HTTP
library and the socket layer do is taken as documented: a host that is an address is
connected to as it is; any other host is resolved by the `lookup` hook of the agent and only
what the hook returns is connected to; a connection that stays open may carry later
attempts; a redirect is not followed.

* `connectHost`, `connectTo` — where a new connection goes.
* `attempt` — one `send`, with the sockets it opens.
* `Action`, `step` — attempts, each with its own answer of the resolver, and connections
  that close.
* `Allowed` — the invariant of a run: no open connection leads to a blocked address.
* `connectTo_allowed` — the check of a literal host and the hook together cover every host.
-/

namespace HookRelay

open Lib

/-- The host a new connection is made to: an IPv6 literal without its brackets. -/
def Url.connectHost (u : Url) : Text :=
  match u.host with
  | .domain name => name
  | .ipv4 v => dotted v
  | .ipv6 a => serializeV6 a

/-- The addresses a new connection may go to.  `dns` is what the resolver answers for the
host this time: an error or a list of addresses. -/
def connectTo (allowPrivate : Bool) (host : Text) (dns : Except Thrown (List Text)) :
    Except Thrown (List Text) :=
  if isIP host ≠ 0 then .ok [host]
  else
    match dns with
    | .error e => .error e
    | .ok addresses => lookupHook allowPrivate addresses

namespace Connections

/-- What the world outside chooses for one attempt. -/
structure Env where
  /-- The answer of the resolver, if it is asked. -/
  dns : Except Thrown (List Text)
  /-- An open connection that is used again; the agent keeps them by origin. -/
  reuse : Option ℕ
  /-- Which of the addresses are tried, in order. -/
  tries : List ℕ
  /-- The response, or what the exchange throws. -/
  reply : Except Thrown Response
  durationMs : ℤ

/-- What one attempt did. -/
structure Attempt where
  url : Text
  /-- The list a lookup returned to the hook. -/
  lookup : Option (List Text)
  /-- The addresses a socket was opened to, in order. -/
  opened : List Text
  /-- The address of the open connection that was used again. -/
  reused : Option Text
  outcome : AttemptOutcome

/-- The open connections, by their address, and the attempts so far. -/
structure State where
  pool : List Text
  attempts : List Attempt

/-- The list the hook gets to see. -/
def lookupOf (host : Text) (dns : Except Thrown (List Text)) : Option (List Text) :=
  if isIP host ≠ 0 then none
  else
    match dns with
    | .error _ => none
    | .ok addresses => some addresses

/-- One `send`. -/
def attempt (allowPrivate : Bool) (newUrl : Text → Option Url) (pool : List Text) (url : Text)
    (env : Env) : Attempt :=
  match literalCheck allowPrivate newUrl url, newUrl url with
  | .error e, _ => ⟨url, none, [], none, send allowPrivate newUrl url (.error e) env.durationMs⟩
  | .ok (), none =>
      ⟨url, none, [], none, send allowPrivate newUrl url (.error invalidUrl) env.durationMs⟩
  | .ok (), some u =>
      match env.reuse.bind (pool[·]?) with
      | some address =>
          ⟨url, none, [], some address, send allowPrivate newUrl url env.reply env.durationMs⟩
      | none =>
          match connectTo allowPrivate u.connectHost env.dns with
          | .error e =>
              ⟨url, lookupOf u.connectHost env.dns, [], none,
                send allowPrivate newUrl url (.error e) env.durationMs⟩
          | .ok addresses =>
              ⟨url, lookupOf u.connectHost env.dns, env.tries.filterMap (addresses[·]?), none,
                send allowPrivate newUrl url env.reply env.durationMs⟩

/-- The system takes an attempt to a URL, or loses an open connection. -/
inductive Action where
  | send (url : Text) (env : Env)
  | close (i : ℕ)

/-- A socket that was opened may stay open. -/
def step (allowPrivate : Bool) (newUrl : Text → Option Url) (s : State) : Action → Option State
  | .send url env =>
      let r := attempt allowPrivate newUrl s.pool url env
      some ⟨s.pool ++ r.opened, s.attempts ++ [r]⟩
  | .close i => some { s with pool := s.pool.eraseIdx i }

def init : State := ⟨[], []⟩

/-! ## Every host is checked -/

/-- The text of an address has no brackets. -/
theorem bracket_notMem_of_isIP {t : Text} (h : isIP t ≠ 0) : '[' ∉ t ∧ ']' ∉ t := by
  unfold isIP at h
  split_ifs at h with h4 h6
  · obtain ⟨v, hv⟩ := Option.isSome_iff_exists.1 h4
    constructor <;> intro hc <;> rcases mem_of_parseV4 hv hc with h | h <;> revert h <;> decide
  · obtain ⟨a, ha⟩ := Option.isSome_iff_exists.1 h6
    constructor <;> intro hc <;> rcases mem_of_parseZonedV6 ha hc with h | h | h | h <;>
      revert h <;> decide
  · exact absurd rfl h

theorem stripBrackets_of_isIP {t : Text} (h : isIP t ≠ 0) : stripBrackets t = t := by
  obtain ⟨hopen, hclose⟩ := bracket_notMem_of_isIP h
  have hhead : t.head? ≠ some '[' := fun hh => hopen (List.mem_of_head? hh)
  have hlast : t.getLast? ≠ some ']' := fun hh => hclose (List.mem_of_getLast? hh)
  simp [stripBrackets, hhead, hlast]

/-- What `send` checks is what a literal host is connected to. -/
theorem stripBrackets_hostname {u : Url} (h : isIP u.connectHost ≠ 0) :
    stripBrackets u.hostname = u.connectHost := by
  cases hu : u.host with
  | domain name =>
      have hname : u.hostname = u.connectHost := by simp [Url.hostname, Url.connectHost, hu]
      rw [hname, stripBrackets_of_isIP h]
  | ipv4 v =>
      have hname : u.hostname = u.connectHost := by simp [Url.hostname, Url.connectHost, hu]
      rw [hname, stripBrackets_of_isIP h]
  | ipv6 a =>
      rw [stripBrackets_ipv6 hu, Url.connectHost, hu]

/-- The loop of the hook finds a blocked address if there is one. -/
theorem firstBlocked_eq_none_iff {addresses : List Text} :
    firstBlocked addresses = none ↔ ∀ a ∈ addresses, blockedIpReason a = none := by
  induction addresses with
  | nil => simp [firstBlocked]
  | cons a as ih =>
      rw [firstBlocked]
      cases ha : blockedIpReason a with
      | none => simp [ha, ih]
      | some reason => simp [ha]

/-- What the hook lets through is not blocked, all of it. -/
theorem lookupHook_ok {addresses as : List Text} (h : lookupHook false addresses = .ok as) :
    as = addresses ∧ ∀ a ∈ addresses, blockedIpReason a = none := by
  unfold lookupHook at h
  rw [if_neg (by simp)] at h
  split at h
  · cases h
  · rename_i hnone
    cases h
    exact ⟨rfl, firstBlocked_eq_none_iff.1 hnone⟩

/-- A literal host that passed the check is not blocked. -/
theorem literalCheck_ok {newUrl : Text → Option Url} {url : Text} {u : Url}
    (h : literalCheck false newUrl url = .ok ()) (hu : newUrl url = some u)
    (hip : isIP u.connectHost ≠ 0) : blockedIpReason u.connectHost = none := by
  unfold literalCheck at h
  rw [if_neg (by simp), hu] at h
  simp only [stripBrackets_hostname hip, if_pos hip] at h
  split at h
  · cases h
  · assumption

/-- **The two checks cover every host.**  Where a new connection may go after the check of a
literal host: to no blocked address, and nowhere if the lookup returned one. -/
theorem connectTo_allowed {newUrl : Text → Option Url} {url : Text} {u : Url}
    {dns : Except Thrown (List Text)} {addresses : List Text}
    (hcheck : literalCheck false newUrl url = .ok ()) (hu : newUrl url = some u)
    (h : connectTo false u.connectHost dns = .ok addresses) :
    (∀ a ∈ addresses, blockedIpReason a = none) ∧
    ∀ as, lookupOf u.connectHost dns = some as → ∀ a ∈ as, blockedIpReason a = none := by
  unfold connectTo at h
  unfold lookupOf
  split_ifs at h ⊢ with hip
  · cases h
    refine ⟨fun a ha => ?_, fun as has => by cases has⟩
    rw [List.mem_singleton.1 ha]
    exact literalCheck_ok hcheck hu hip
  · cases dns with
    | error e => cases h
    | ok as =>
        obtain ⟨rfl, hall⟩ := lookupHook_ok h
        refine ⟨hall, fun as has => ?_⟩
        cases has
        exact hall

/-! ## Over a run -/

/-- What an attempt may do: it opens sockets to addresses that are not blocked, opens none if
the lookup returned a blocked one, and uses no open connection to a blocked one. -/
structure Attempt.Allowed (r : Attempt) : Prop where
  opened : ∀ a ∈ r.opened, blockedIpReason a = none
  lookup : ∀ as, r.lookup = some as → (∃ a ∈ as, blockedIpReason a ≠ none) → r.opened = []
  reused : ∀ a, r.reused = some a → blockedIpReason a = none

/-- **The invariant.**  No open connection leads to a blocked address, and every attempt did
what it may do. -/
structure Allowed (s : State) : Prop where
  pool : ∀ a ∈ s.pool, blockedIpReason a = none
  attempts : ∀ r ∈ s.attempts, r.Allowed

/-- An attempt that opened nothing and used nothing. -/
theorem Attempt.Allowed.idle (url : Text) (lookup : Option (List Text)) (o : AttemptOutcome) :
    Attempt.Allowed ⟨url, lookup, [], none, o⟩ where
  opened := by simp
  lookup := fun _ _ _ => rfl
  reused := by simp

theorem attempt_allowed {newUrl : Text → Option Url} {pool : List Text} {url : Text} {env : Env}
    (hpool : ∀ a ∈ pool, blockedIpReason a = none) :
    (attempt false newUrl pool url env).Allowed := by
  unfold attempt
  split
  · exact .idle _ _ _
  · exact .idle _ _ _
  · rename_i u hcheck hu
    split
    · rename_i address hreuse
      obtain ⟨i, -, hi⟩ := Option.bind_eq_some_iff.1 hreuse
      refine ⟨by simp, fun as h => (by cases h), fun a ha => ?_⟩
      cases ha
      exact hpool _ (List.mem_of_getElem? hi)
    · split
      · exact .idle _ _ _
      · rename_i addresses hconn
        obtain ⟨hall, hlook⟩ := connectTo_allowed hcheck hu hconn
        refine ⟨fun a ha => ?_, fun as has ⟨a, ha, hblocked⟩ => ?_, fun a ha => by cases ha⟩
        · obtain ⟨i, -, hi⟩ := List.mem_filterMap.1 ha
          exact hall a (List.mem_of_getElem? hi)
        · exact absurd (hlook as has a ha) hblocked

theorem step_allowed {newUrl : Text → Option Url} {s t : State} {a : Action} (hs : Allowed s)
    (h : step false newUrl s a = some t) : Allowed t := by
  cases a with
  | send url env =>
      cases h
      have hr : (attempt false newUrl s.pool url env).Allowed := attempt_allowed hs.pool
      refine ⟨fun a ha => ?_, fun r hmem => ?_⟩
      · rcases List.mem_append.1 ha with ha | ha
        · exact hs.pool a ha
        · exact hr.opened a ha
      · rcases List.mem_append.1 hmem with hmem | hmem
        · exact hs.attempts r hmem
        · rw [List.mem_singleton.1 hmem]
          exact hr
  | close i =>
      cases h
      exact ⟨fun a ha => hs.pool a (List.mem_of_mem_eraseIdx ha), hs.attempts⟩

theorem allowed_init : Allowed init := ⟨by simp [init], by simp [init]⟩

/-- **No connection to a blocked address.**  Whatever the URLs, the answers of the resolver,
the order of the attempts and the connections that stay open: a socket is opened only to an
address that is not blocked, and none at all when a lookup returned a blocked one. -/
theorem no_socket_to_blocked {newUrl : Text → Option Url} {s : State}
    (h : Reachable (step false newUrl) init s) : ∀ r ∈ s.attempts,
      (∀ a ∈ r.opened, blockedIpReason a = none) ∧
      (∀ as, r.lookup = some as → (∃ a ∈ as, blockedIpReason a ≠ none) → r.opened = []) ∧
      ∀ a, r.reused = some a → blockedIpReason a = none := by
  have hall : Allowed s := h.invariant (fun _ _ _ ht _ hstep => step_allowed ht hstep) allowed_init
  intro r hr
  exact ⟨(hall.attempts r hr).opened, (hall.attempts r hr).lookup, (hall.attempts r hr).reused⟩

namespace Sample

/-- A parser for which every URL has the host `a.test`. -/
def newUrl (_ : Text) : Option Url := some ⟨"https:".toList, [], [], .domain "a.test".toList⟩

/-- An attempt whose lookup gives these addresses. -/
def sendTo (addresses : List String) : Action :=
  .send "https://a.test/".toList
    ⟨.ok (addresses.map String.toList), none, [0, 1], .ok ⟨200, []⟩, 5⟩

/-- The name leads to a public address first, and then to a private one as well. -/
def rebinding : List Action :=
  [sendTo ["93.184.216.34"], .close 0, sendTo ["93.184.216.34", "10.0.0.7"]]

end Sample

/-- At a name that is bound again between two attempts. -/
theorem no_socket_after_rebinding : ∃ s, Reachable (step false Sample.newUrl) init s ∧
    s.attempts.map Attempt.opened = [["93.184.216.34".toList], []] ∧ ∀ r ∈ s.attempts,
      (∀ a ∈ r.opened, blockedIpReason a = none) ∧
      (∀ as, r.lookup = some as → (∃ a ∈ as, blockedIpReason a ≠ none) → r.opened = []) ∧
      ∀ a, r.reused = some a → blockedIpReason a = none := by
  obtain ⟨s, hs, hopened⟩ := Path.exists_of_runChecked (step false Sample.newUrl)
    (P := anyAction) (p := fun _ _ => true) (fun _ _ _ => trivial) init Sample.rebinding
    (fun s => s.attempts.map Attempt.opened = [["93.184.216.34".toList], []]) (by decide +kernel)
  exact ⟨s, hs, of_decide_eq_true hopened, no_socket_to_blocked hs⟩

end Connections

end HookRelay
