import HookRelay.Receiver.Verify

/-!
# The receiver: consuming a delivery once

`POST /hooks` of the demo receiver under replays: a request is verified, and then its
delivery id is inserted into a table of which it is the primary key.  The delivery id is a
header and not under the MAC.

* `consume`, `hooks` — the insert and the handler.
* `Action`, `step` — any requests in any order, with what each of them was answered.
* `Unforged` — what an attacker cannot do; `KeepsId` — what the receiver relies on besides.
* `ConsumedOnce` — every delivery is consumed at most once, and under its own id.
-/

namespace HookRelay

open Lib JsonText

namespace Receiver

/-- A value that `run` can bind to a column that is not null. -/
def bindable : Json → Bool
  | .str _ | .num _ => true
  | _ => false

/-- The rows of `processed_delivery_ids`: the delivery id, which is the key, and the event id. -/
abbrev Processed := List (CodeUnits × Json)

/-- `consume`: the table afterwards, and whether the insert was refused. -/
def consume (rows : Processed) (deliveryId : CodeUnits) (eventId : Option Json) :
    Processed × Bool :=
  match eventId with
  | none => (rows, true)
  | some e =>
      if bindable e && rows.all fun r => r.1 ≠ deliveryId then
        (rows ++ [(deliveryId, e)], false)
      else (rows, true)

/-- What the handler answers: an error, an exception, or 200 with or without `duplicate`. -/
inductive Answer where
  | refused (status : ℕ) (error : String)
  | failed
  | duplicate
  | consumed
  deriving DecidableEq

/-- `POST /hooks`. -/
def hooks (hmac : Hmac) (secrets : List CodeUnits) (rows : Processed) (nowMs : ℕ)
    (req : Request) : Processed × Answer :=
  match verify hmac secrets nowMs req with
  | .refused status error => (rows, .refused status error)
  | .threw => (rows, .failed)
  | .ok _ .null => (rows, .failed)
  | .ok deliveryId body =>
      match consume rows deliveryId (field? (ascii "eventId") body) with
      | (rows', true) => (rows', .duplicate)
      | (rows', false) => (rows', .consumed)

/-- A request presented to the receiver at some time. -/
structure Action where
  nowMs : ℕ
  req : Request

/-- The table, and the requests so far with their answers, the last one first. -/
structure State where
  rows : Processed
  log : List (Request × Answer)

def step (hmac : Hmac) (secrets : List CodeUnits) (s : State) (a : Action) : Option State :=
  let r := hooks hmac secrets s.rows a.nowMs a.req
  some ⟨r.1, (a.req, r.2) :: s.log⟩

def init : State := ⟨[], []⟩

/-! ## What the sender and an attacker can do -/

/-- A request that `process` makes, of an event whose payload is a JSON object. -/
def Produced (hmac : Hmac) (secret : CodeUnits) (g : Outgoing) : Prop :=
  ∃ nowMs deliveryId e fields, e.payload = .obj fields ∧ Json.validFields fields = true ∧
    outgoing hmac secret nowMs deliveryId e = some g

/-- The request has the signed parts of a genuine one. -/
def Carries (req : Request) (g : Outgoing) : Prop :=
  req.timestamp = some g.headers.timestamp ∧ req.body = g.body ∧
    req.signature = some g.headers.signature

/-- The attacker makes no MAC: if the signature of the request is that of a text under one of
the secrets, the sender signed that text with it. -/
def Unforged (hmac : Hmac) (secrets : List CodeUnits) (sent : CodeUnits → Outgoing → Prop)
    (req : Request) : Prop :=
  ∀ s ∈ secrets, ∀ text, req.signature = some (versioned hmac s text) →
    ∃ g, sent s g ∧ text = signedText g.headers.timestamp g.body

/-- The delivery id is the one the sender gave. -/
def KeepsId (sent : CodeUnits → Outgoing → Prop) (req : Request) : Prop :=
  ∀ s g, sent s g → Carries req g → req.deliveryId = some g.headers.deliveryId

/-- What consumption should be: of genuine requests only, each delivery at most once, and under
the id that the sender gave it. -/
structure ConsumedOnce (sent : CodeUnits → Outgoing → Prop) (log : List (Request × Answer)) :
    Prop where
  genuine : ∀ x ∈ log, x.2 = .consumed → ∃ s g, sent s g ∧ Carries x.1 g
  once : log.Pairwise fun x y => x.2 = .consumed → y.2 = .consumed →
    ∀ s g s' g', sent s g → sent s' g' → Carries x.1 g → Carries y.1 g' →
      g.headers.deliveryId ≠ g'.headers.deliveryId
  ownId : ∀ x ∈ log, x.2 = .consumed → ∀ s g, sent s g → Carries x.1 g →
    x.1.deliveryId = some g.headers.deliveryId

/-! ## The table -/

theorem consume_eq_false {rows rows' : Processed} {deliveryId : CodeUnits} {eventId : Option Json}
    (h : consume rows deliveryId eventId = (rows', false)) :
    ∃ e, rows' = rows ++ [(deliveryId, e)] ∧ ∀ r ∈ rows, r.1 ≠ deliveryId := by
  unfold consume at h
  split at h
  · cases h
  · rename_i e
    split_ifs at h with hnew
    · cases h
      rw [Bool.and_eq_true, List.all_eq_true] at hnew
      exact ⟨e, rfl, fun r hr => by simpa using hnew.2 r hr⟩
    · cases h

theorem consume_eq_true {rows rows' : Processed} {deliveryId : CodeUnits} {eventId : Option Json}
    (h : consume rows deliveryId eventId = (rows', true)) : rows' = rows := by
  unfold consume at h
  split at h
  · cases h; rfl
  · split_ifs at h
    · cases h
    · cases h; rfl

/-- **What the handler does to the table.**  A delivery that is consumed was verified, its id is
new and is in the table afterwards; otherwise the table stays as it is. -/
theorem hooks_cases (hmac : Hmac) (secrets : List CodeUnits) (rows : Processed) (nowMs : ℕ)
    (req : Request) :
    (∃ id v e, verify hmac secrets nowMs req = .ok id v ∧
      (hooks hmac secrets rows nowMs req).2 = .consumed ∧
      (hooks hmac secrets rows nowMs req).1 = rows ++ [(id, e)] ∧ ∀ r ∈ rows, r.1 ≠ id) ∨
    ((hooks hmac secrets rows nowMs req).2 ≠ .consumed ∧
      (hooks hmac secrets rows nowMs req).1 = rows) := by
  unfold hooks
  split
  · exact .inr ⟨by simp, rfl⟩
  · exact .inr ⟨by simp, rfl⟩
  · exact .inr ⟨by simp, rfl⟩
  · rename_i id body hv hok
    split
    · rename_i rows' hc
      exact .inr ⟨by simp, consume_eq_true hc⟩
    · rename_i rows' hc
      obtain ⟨e, he, hnew⟩ := consume_eq_false hc
      exact .inl ⟨id, body, e, hok, rfl, he, hnew⟩

/-- The ids that were consumed are in the table, and no two of them are the same. -/
structure Recorded (s : State) : Prop where
  mem : ∀ x ∈ s.log, x.2 = .consumed → ∃ r ∈ s.rows, x.1.deliveryId = some r.1
  distinct : s.log.Pairwise fun x y =>
    x.2 = .consumed → y.2 = .consumed → x.1.deliveryId ≠ y.1.deliveryId

theorem recorded_init : Recorded init := ⟨by simp [init], List.Pairwise.nil⟩

theorem step_recorded {hmac : Hmac} {secrets : List CodeUnits} {s t : State} {a : Action}
    (hs : Recorded s) (h : step hmac secrets s a = some t) : Recorded t := by
  cases h
  obtain ⟨id, v, e, hok, hans, hrows, hnew⟩ | ⟨hans, hrows⟩ :=
    hooks_cases hmac secrets s.rows a.nowMs a.req
  · have hid : a.req.deliveryId = some id := (verify_ok hok).1
    refine ⟨fun x hx hcons => ?_, List.Pairwise.cons (fun x hx _ hcons heq => ?_) hs.distinct⟩
    · rcases List.mem_cons.1 hx with rfl | hx
      · exact ⟨(id, e), by rw [hrows]; simp, hid⟩
      · obtain ⟨r, hr, hreq⟩ := hs.mem x hx hcons
        exact ⟨r, by rw [hrows]; exact List.mem_append_left _ hr, hreq⟩
    · obtain ⟨r, hr, hreq⟩ := hs.mem x hx hcons
      rw [hid, hreq] at heq
      exact hnew r hr (Option.some.inj heq).symm
  · refine ⟨fun x hx hcons => ?_, List.Pairwise.cons (fun x _ hc => absurd hc hans) hs.distinct⟩
    rcases List.mem_cons.1 hx with rfl | hx
    · exact absurd hcons hans
    · rw [hrows]
      exact hs.mem x hx hcons

/-! ## Consumption is of genuine requests -/

/-- A request that is consumed carries a genuine message. -/
theorem carries_of_verify {hmac : Hmac} {secrets : List CodeUnits}
    {sent : CodeUnits → Outgoing → Prop} (hsent : ∀ s g, sent s g → Produced hmac s g)
    {nowMs : ℕ} {req : Request} {id : CodeUnits} {v : Json}
    (hun : Unforged hmac secrets sent req) (h : verify hmac secrets nowMs req = .ok id v) :
    ∃ s g, sent s g ∧ Carries req g := by
  obtain ⟨-, hbody, timestamp, signature, htime, hsig, -, s, hs, rfl⟩ := verify_ok h
  obtain ⟨g, hg, htext⟩ := hun s hs _ hsig
  obtain ⟨ms, deliveryId, e, fields, hpayload, hvalid, hout⟩ := hsent s g hg
  obtain ⟨occurredAt, -, rfl⟩ := Option.map_eq_some_iff.1 hout
  have hobj : e.payload.valid = true := by
    rw [hpayload, Json.valid]
    exact hvalid
  obtain ⟨rfl, hsame⟩ := signedText_split hobj hbody htext
  refine ⟨s, _, hg, htime, hsame, ?_⟩
  rw [hsig, hsame]
  rfl

/-- Every request of the run was unforged and kept its id. -/
structure Faithful (sent : CodeUnits → Outgoing → Prop) (s : State) : Prop where
  genuine : ∀ x ∈ s.log, x.2 = .consumed → ∃ k g, sent k g ∧ Carries x.1 g
  ownId : ∀ x ∈ s.log, KeepsId sent x.1

theorem step_faithful {hmac : Hmac} {secrets : List CodeUnits} {sent : CodeUnits → Outgoing → Prop}
    (hsent : ∀ s g, sent s g → Produced hmac s g) {s t : State} {a : Action}
    (hs : Faithful sent s) (hun : Unforged hmac secrets sent a.req) (hkeep : KeepsId sent a.req)
    (h : step hmac secrets s a = some t) : Faithful sent t := by
  cases h
  refine ⟨fun x hx hcons => ?_, fun x hx => ?_⟩
  · rcases List.mem_cons.1 hx with rfl | hx
    · obtain ⟨id, v, e, hok, -⟩ | ⟨hans, -⟩ :=
        hooks_cases hmac secrets s.rows a.nowMs a.req
      · exact carries_of_verify hsent hun hok
      · exact absurd hcons hans
    · exact hs.genuine x hx hcons
  · rcases List.mem_cons.1 hx with rfl | hx
    · exact hkeep
    · exact hs.ownId x hx

/-- **Replays are not consumed twice while the delivery ids are kept.**  Over any set of genuine
requests and any run of requests none of which has a forged MAC or another delivery id than
the sender gave to what it carries: every consumption is of a genuine delivery, under its own
id, and no delivery is consumed twice. -/
theorem consumed_once (hmac : Hmac) (secrets : List CodeUnits)
    (sent : CodeUnits → Outgoing → Prop) (hsent : ∀ s g, sent s g → Produced hmac s g)
    {s : State} (h : Path (step hmac secrets)
      (fun _ a => Unforged hmac secrets sent a.req ∧ KeepsId sent a.req) init s) :
    ConsumedOnce sent s.log := by
  have hrec : Recorded s := h.invariant (fun _ _ _ ht _ hstep => step_recorded ht hstep) recorded_init
  have hfaith : Faithful sent s :=
    h.invariant (fun _ _ _ ht hP hstep => step_faithful hsent ht hP.1 hP.2 hstep)
      ⟨by simp [init], by simp [init]⟩
  refine ⟨hfaith.genuine, ?_, fun x hx _ => hfaith.ownId x hx⟩
  refine hrec.distinct.imp_of_mem ?_
  intro x y hx hy hxy hcx hcy k g k' g' hg hg' hcar hcar' heq
  refine hxy hcx hcy ?_
  rw [hfaith.ownId x hx k g hg hcar, hfaith.ownId y hy k' g' hg' hcar', heq]

namespace Sample

def deliveryId : Uuid := Uuid.ofNat 2

def event : EventRow :=
  { id := Uuid.ofNat 1, tenantId := Uuid.ofNat 3, type := "a.b".toList, payload := .obj [],
    idempotencyKey := [], createdAt := 0 }

/-- The request that is sent for the delivery. -/
def genuine : Outgoing :=
  ⟨buildDeliveryHeaders (ascii "a.b") (codeUnits deliveryId.text) (decimalText 1000) signature,
    message.body⟩

def sent (s : CodeUnits) (g : Outgoing) : Prop := s = secret ∧ g = genuine

/-- The same request under a delivery id. -/
def resent (id : CodeUnits) : Action := ⟨1200000, { request with deliveryId := some id }⟩

theorem produced : ∀ s g, sent s g → Produced hmac s g := by
  rintro s g ⟨rfl, rfl⟩
  refine ⟨1000000, deliveryId, event, [], rfl, rfl, ?_⟩
  have hdate : isoText (jsDate event.createdAt) = some "1970-01-01T00:00:00.000Z".toList := by
    decide +kernel
  have hid : codeUnits event.id.text = message.eventId := by decide +kernel
  have htype : codeUnits event.type = ascii "a.b" := by decide
  have hat : codeUnits "1970-01-01T00:00:00.000Z".toList = message.occurredAt := by decide
  rw [outgoing, hdate, Option.map_some, hid, htype, hat]
  rfl

/-- The signature belongs to the genuine text only. -/
theorem unforged (id : CodeUnits) : Unforged hmac [secret] sent (resent id).req := by
  intro s hs text h
  obtain ⟨m, ⟨-, rfl⟩, htext⟩ := unforgeable s hs text (Option.some.inj h).symm
  exact ⟨genuine, ⟨List.mem_singleton.1 hs, rfl⟩, htext.symm⟩

theorem keepsId : KeepsId sent (resent (codeUnits deliveryId.text)).req := by
  rintro s g ⟨-, rfl⟩ -
  rfl

/-- An id that is new is consumed. -/
theorem hooks_resent {rows : Processed} {id : CodeUnits} (hid : id ≠ [])
    (hnew : ∀ r ∈ rows, r.1 ≠ id) :
    hooks hmac [secret] rows 1200000 (resent id).req =
      (rows ++ [(id, .str message.eventId)], .consumed) := by
  have hall : (rows.all fun r => r.1 ≠ id) = true := List.all_eq_true.2 fun r hr => by
    simpa using hnew r hr
  have hconsume : consume rows id (field? (ascii "eventId") content) =
      (rows ++ [(id, .str message.eventId)], false) := by
    show consume rows id (some (.str message.eventId)) = _
    simp only [consume, bindable, Bool.true_and, hall, if_true]
  have hverify : verify hmac [secret] 1200000 (resent id).req = .ok id content :=
    verify_request hid
  rw [hooks, hverify]
  simp only [content] at hconsume ⊢
  rw [hconsume]

/-- The same id again is a duplicate. -/
theorem hooks_resent_again {rows : Processed} {id : CodeUnits} (hid : id ≠ [])
    (hold : ∃ r ∈ rows, r.1 = id) :
    hooks hmac [secret] rows 1200000 (resent id).req = (rows, .duplicate) := by
  have hall : (rows.all fun r => r.1 ≠ id) = false := by
    obtain ⟨r, hr, heq⟩ := hold
    exact List.all_eq_false.2 ⟨r, hr, by simpa using heq⟩
  have hconsume : consume rows id (field? (ascii "eventId") content) = (rows, true) := by
    show consume rows id (some (.str message.eventId)) = _
    simp only [consume, hall, Bool.and_false, Bool.false_eq_true, if_false]
  have hverify : verify hmac [secret] 1200000 (resent id).req = .ok id content :=
    verify_request hid
  rw [hooks, hverify]
  simp only [content] at hconsume ⊢
  rw [hconsume]

theorem text_ne_nil : codeUnits deliveryId.text ≠ [] := by decide

theorem step_resent {s : State} {id : CodeUnits} (hid : id ≠ []) (hnew : ∀ r ∈ s.rows, r.1 ≠ id) :
    step hmac [secret] s (resent id) =
      some ⟨s.rows ++ [(id, .str message.eventId)], ((resent id).req, .consumed) :: s.log⟩ := by
  have h : hooks hmac [secret] s.rows (resent id).nowMs (resent id).req = _ :=
    hooks_resent hid hnew
  simp only [step, h]

theorem step_resent_again {s : State} {id : CodeUnits} (hid : id ≠ [])
    (hold : ∃ r ∈ s.rows, r.1 = id) :
    step hmac [secret] s (resent id) = some ⟨s.rows, ((resent id).req, .duplicate) :: s.log⟩ := by
  have h : hooks hmac [secret] s.rows (resent id).nowMs (resent id).req = _ :=
    hooks_resent_again hid hold
  simp only [step, h]

end Sample

open Sample in
/-- At a request that is presented twice. -/
theorem consumed_once_at_replay : ∃ s, Path (step Sample.hmac [secret])
      (fun _ a => Unforged Sample.hmac [secret] sent a.req ∧ KeepsId sent a.req) init s ∧
    s.log.map Prod.snd = [.duplicate, .consumed] ∧ ConsumedOnce sent s.log := by
  have hfirst : Path (step Sample.hmac [secret])
      (fun _ a => Unforged Sample.hmac [secret] sent a.req ∧ KeepsId sent a.req) init _ :=
    .single ⟨unforged _, keepsId⟩ (step_resent text_ne_nil (by simp [init]))
  have hpath := hfirst.snoc ⟨unforged _, keepsId⟩
    (step_resent_again text_ne_nil ⟨_, List.mem_append_right _ (List.mem_singleton.2 rfl), rfl⟩)
  exact ⟨_, hpath, rfl, consumed_once Sample.hmac [secret] sent produced hpath⟩

open Sample in
/-- The same request under another delivery id is consumed once more. -/
theorem consumed_twice_under_another_id : ¬ (∀ (hmac : Hmac) (secrets : List CodeUnits)
    (sent : CodeUnits → Outgoing → Prop), (∀ s g, sent s g → Produced hmac s g) → ∀ s,
    Path (step hmac secrets) (fun _ a => Unforged hmac secrets sent a.req) init s →
    ConsumedOnce sent s.log) := by
  intro h
  have hfirst : Path (step Sample.hmac [secret])
      (fun _ a => Unforged Sample.hmac [secret] sent a.req) init _ :=
    .single (unforged _) (step_resent text_ne_nil (by simp [init]))
  have hnew : ∀ r ∈ init.rows ++ [(codeUnits deliveryId.text, Json.str message.eventId)],
      r.1 ≠ ascii "another" := by
    intro r hr
    rw [List.mem_singleton.1 hr]
    decide
  have hpath := hfirst.snoc (unforged _) (step_resent (by decide) hnew)
  have hown := (h Sample.hmac [secret] sent produced _ hpath).ownId _ (List.mem_cons_self ..) rfl
    secret genuine ⟨rfl, rfl⟩ ⟨rfl, rfl, rfl⟩
  exact absurd hown (by decide)

end Receiver

end HookRelay
