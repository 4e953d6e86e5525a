import HookRelay.Lib.Paging
import HookRelay.Api.Deliveries

/-!
# Walking the list of deliveries

`DeliveriesService.list` called again and again with the cursor of the page before, until
there is none.  The rows are sorted by date and id, and the cursor is made of the last row of
a page; its date has milliseconds only, while the rows have microseconds.

* `ordered` — the deliveries of a tenant that match, in order; `filter_ordered` — what one call
  reads of them.
* `walkPages` — the walk.
* `Resumes` — the cursor of a row does not pass over the next one.
* `walk_visits_all_iff` — the walk ends, and visits every delivery once and in order exactly
  if that holds at the end of every page.
-/

namespace HookRelay

open Lib

namespace DeliveriesService

/-- The deliveries of a tenant that match, the newest first. -/
def ordered (db : Database) (tenantId : Uuid) (status : Option DeliveryStatus) :
    List DeliveryRow :=
  (db.deliveries.rows.filter fun d =>
    ownedBy db tenantId d && status.all fun st => d.status = st).insertionSort before

/-- The pages of the walk; `none` as long as it has not ended. -/
def walkPages (codec : CursorCodec) (tenantId : Uuid) (status : Option DeliveryStatus)
    (db : Database) : ℕ → Option Text → Option (Except ServiceError (List (List View)))
  | 0, _ => none
  | n + 1, cursor =>
      match list codec tenantId status cursor db with
      | .error e => some (.error e)
      | .ok (page, _) =>
          match page.nextCursor with
          | none => some (.ok [page.deliveries])
          | some next =>
              (walkPages codec tenantId status db n (some next)).map fun r =>
                r.map (page.deliveries :: ·)

/-! ## The order -/

/-- The date and the id of a row, as numbers. -/
def time (d : DeliveryRow) : ℕ := d.createdAt

def number (d : DeliveryRow) : ℕ := d.id.val

theorem before_iff {a b : DeliveryRow} :
    before a b ↔ time b < time a ∨ (time b = time a ∧ number b ≤ number a) := Iff.rfl

/-- The row `b` comes after `a`. -/
def newer (a b : DeliveryRow) : Prop :=
  time b < time a ∨ (time b = time a ∧ number b < number a)

theorem newer_irrefl (a : DeliveryRow) : ¬ newer a a := by
  unfold newer
  omega

theorem newer_asymm (a b : DeliveryRow) (hab : newer a b) : ¬ newer b a := by
  unfold newer at *
  omega

instance : Std.Total before := ⟨fun a b => by
  rw [before_iff, before_iff]
  omega⟩

instance : IsTrans DeliveryRow before := ⟨fun a b c hab hbc => by
  rw [before_iff] at *
  omega⟩

theorem mem_ordered {db : Database} {tenantId : Uuid} {status : Option DeliveryStatus}
    {d : DeliveryRow} (h : d ∈ ordered db tenantId status) : d ∈ db.deliveries := by
  rw [ordered, List.mem_insertionSort] at h
  exact List.mem_of_mem_filter h

/-- Two deliveries in the same place are the same. -/
theorem eq_of_before {db : Database} {a b : DeliveryRow} (ha : a ∈ db.deliveries)
    (hb : b ∈ db.deliveries) (hab : before a b) (hba : before b a) : a = b := by
  refine Table.eq_of_key ha hb ?_
  rw [before_iff] at hab hba
  have hnumber : number a = number b := by omega
  have hval : a.id.val = b.id.val := Fin.ext hnumber
  show a.id = b.id
  generalize a.id = x at hval
  generalize b.id = y at hval
  cases x
  cases y
  exact congrArg Uuid.mk hval

theorem pairwise_before (db : Database) (tenantId : Uuid) (status : Option DeliveryStatus) :
    (ordered db tenantId status).Pairwise before :=
  List.pairwise_insertionSort before _

theorem nodup_ordered (db : Database) (tenantId : Uuid) (status : Option DeliveryStatus) :
    (ordered db tenantId status).Nodup := by
  rw [ordered, (List.perm_insertionSort before _).nodup_iff]
  exact (List.Nodup.of_map _ db.deliveries.nodup).filter _

theorem pairwise_newer (db : Database) (tenantId : Uuid) (status : Option DeliveryStatus) :
    (ordered db tenantId status).Pairwise newer := by
  refine ((pairwise_before db tenantId status).and (nodup_ordered db tenantId status)).imp_of_mem ?_
  rintro a b ha hb ⟨hab, hne⟩
  by_contra hnew
  refine hne (eq_of_before (mem_ordered ha) (mem_ordered hb) hab ?_)
  unfold newer at hnew
  rw [before_iff] at hab ⊢
  omega

/-! ## One call -/

/-- The rows that a call reads are those of the whole list that come after its cursor. -/
theorem filter_ordered (db : Database) (tenantId : Uuid) (status : Option DeliveryStatus)
    (keep : DeliveryRow → Bool) :
    (db.deliveries.rows.filter fun d => ownedBy db tenantId d &&
      (status.all fun st => d.status = st) && keep d).insertionSort before =
      (ordered db tenantId status).filter keep := by
  have hperm : ((db.deliveries.rows.filter fun d => ownedBy db tenantId d &&
      (status.all fun st => d.status = st) && keep d).insertionSort before).Perm
      ((ordered db tenantId status).filter keep) := by
    refine (List.perm_insertionSort before _).trans ?_
    have hfilter : (db.deliveries.rows.filter fun d => ownedBy db tenantId d &&
        (status.all fun st => d.status = st) && keep d) = (db.deliveries.rows.filter fun d =>
          ownedBy db tenantId d && status.all fun st => d.status = st).filter keep := by
      rw [List.filter_filter]
      exact List.filter_congr fun d _ => Bool.and_comm _ _
    rw [hfilter]
    exact ((List.perm_insertionSort before _).filter keep).symm
  refine hperm.eq_of_pairwise ?_ (List.pairwise_insertionSort before _)
    ((pairwise_before db tenantId status).filter keep)
  intro a b ha hb hab hba
  refine eq_of_before ?_ (mem_ordered (List.mem_of_mem_filter hb)) hab hba
  rw [List.mem_insertionSort] at ha
  exact List.mem_of_mem_filter ha

/-- A call for the last page. -/
theorem list_last {codec : CursorCodec} {tenantId : Uuid} {status : Option DeliveryStatus}
    {cursor : Option Text} {db : Database} {keep : DeliveryRow → Bool}
    (hkeep : cursorFilter codec cursor = .ok keep) {q : List DeliveryRow}
    (hq : (ordered db tenantId status).filter keep = q) (h : ¬ pageSize < q.length) :
    list codec tenantId status cursor db = .ok (⟨q.map (toView db), none⟩, db) := by
  have htake : q.take (pageSize + 1) = q := List.take_of_length_le (by omega)
  unfold list
  rw [hkeep]
  simp only [filter_ordered, hq, htake, gt_iff_lt, if_neg h]

/-- A call for a page that is not the last. -/
theorem list_more {codec : CursorCodec} {tenantId : Uuid} {status : Option DeliveryStatus}
    {cursor : Option Text} {db : Database} {keep : DeliveryRow → Bool}
    (hkeep : cursorFilter codec cursor = .ok keep) {q : List DeliveryRow}
    (hq : (ordered db tenantId status).filter keep = q) (h : pageSize < q.length)
    {l : DeliveryRow} (hl : (q.take pageSize).getLast? = some l) :
    (cursorOf l = none → list codec tenantId status cursor db = .error .invalidValue) ∧
    ∀ next, cursorOf l = some next → list codec tenantId status cursor db =
      .ok (⟨(q.take pageSize).map (toView db), some next⟩, db) := by
  have hlen : pageSize < (q.take (pageSize + 1)).length := by
    rw [List.length_take]
    omega
  have htake : (q.take (pageSize + 1)).take pageSize = q.take pageSize := by
    rw [List.take_take, min_eq_left (by omega)]
  unfold list
  rw [hkeep]
  simp only [filter_ordered, hq, gt_iff_lt, if_pos hlen, htake, hl]
  exact ⟨fun hc => by rw [hc], fun next hc => by rw [hc]⟩

/-- A walk that has ended stays as it is. -/
theorem walkPages_succ {codec : CursorCodec} {tenantId : Uuid} {status : Option DeliveryStatus}
    {db : Database} {n : ℕ} {cursor : Option Text} {r : Except ServiceError (List (List View))}
    (h : walkPages codec tenantId status db n cursor = some r) :
    walkPages codec tenantId status db (n + 1) cursor = some r := by
  induction n generalizing cursor r with
  | zero => cases h
  | succ n ih =>
      rw [walkPages] at h ⊢
      cases hlist : list codec tenantId status cursor db with
      | error e =>
          rw [hlist] at h
          exact h
      | ok answer =>
          obtain ⟨page, db'⟩ := answer
          rw [hlist] at h
          cases hnext : page.nextCursor with
          | none =>
              simp only [hnext] at h ⊢
              exact h
          | some next =>
              simp only [hnext] at h ⊢
              obtain ⟨r', hr', rfl⟩ := Option.map_eq_some_iff.1 h
              rw [ih hr', Option.map_some]

theorem walkPages_add {codec : CursorCodec} {tenantId : Uuid} {status : Option DeliveryStatus}
    {db : Database} {n : ℕ} {cursor : Option Text} {r : Except ServiceError (List (List View))}
    (h : walkPages codec tenantId status db n cursor = some r) (m : ℕ) :
    walkPages codec tenantId status db (n + m) cursor = some r := by
  induction m with
  | zero => exact h
  | succ m ih => exact walkPages_succ ih

/-! ## Cursors -/

/-- The cursor of `l` does not pass over `r`: its date has a text, and `r` was created before
it, or at it with a smaller id. -/
def Resumes (l r : DeliveryRow) : Prop :=
  jsDate l.createdAt ≤ maxTime ∧ (time r < jsDate l.createdAt * 1000 ∨
    (time r = jsDate l.createdAt * 1000 ∧ number r < number l))

instance (l r : DeliveryRow) : Decidable (Resumes l r) := by
  unfold Resumes
  infer_instance

/-- The same, for `Paging`. -/
def keepOf (l r : DeliveryRow) : Bool := Resumes l r

theorem keepOf_iff {l r : DeliveryRow} : keepOf l r = true ↔ Resumes l r := decide_eq_true_iff

theorem after_eq_keepOf {l : DeliveryRow} (h : jsDate l.createdAt ≤ maxTime) :
    after (jsDate l.createdAt) l.id = keepOf l := by
  funext r
  rw [Bool.eq_iff_iff, keepOf_iff, Resumes, after, Bool.or_eq_true, Bool.and_eq_true,
    decide_eq_true_eq, decide_eq_true_eq, decide_eq_true_eq, and_iff_right h]
  generalize jsDate l.createdAt = ms
  show (time r : ℤ) < ms * 1000 ∨ (time r : ℤ) = ms * 1000 ∧ number r < number l ↔ _
  omega

theorem newer_of_resumes {l r : DeliveryRow} (h : Resumes l r) : newer l r := by
  obtain ⟨-, h⟩ := h
  have hdate : jsDate l.createdAt * 1000 ≤ time l := Nat.div_mul_le_self _ 1000
  unfold newer
  omega

/-- What comes after a row that is kept is kept. -/
theorem resumes_of_newer {l a b : DeliveryRow} (h : Resumes l a) (hab : newer a b) :
    Resumes l b := by
  refine ⟨h.1, ?_⟩
  obtain ⟨-, h⟩ := h
  unfold newer at hab
  omega

/-! ## The walk -/

theorem cursorOf_isSome_iff {d : DeliveryRow} :
    (cursorOf d).isSome = true ↔ jsDate d.createdAt ≤ maxTime := by
  rw [cursorOf, Option.isSome_map]
  by_cases h : jsDate d.createdAt ≤ maxTime
  · rw [isoText, if_pos h]
    simp [h]
  · rw [isoText, if_neg h]
    simp [h]

/-- A cursor without a date keeps nothing. -/
theorem resume_eq_nil {l : DeliveryRow} (h : ¬ jsDate l.createdAt ≤ maxTime)
    (rest : List DeliveryRow) : Paging.resume keepOf l rest = [] := by
  refine List.dropWhile_eq_nil_iff.2 fun r _ => ?_
  have : keepOf l r = false := decide_eq_false fun hr => h hr.1
  rw [this]
  rfl

/-- What is missing in the rest of the walk is missing in the whole of it. -/
theorem flatten_cons_ne {q q' : List DeliveryRow} {n : ℕ} {qs : List (List DeliveryRow)}
    (hq' : q' <:+ q.drop n) (hsub : qs.flatten.Sublist q') (hne : qs.flatten ≠ q') :
    (q.take n :: qs).flatten ≠ q := by
  rw [List.flatten_cons]
  intro heq
  have hdrop : qs.flatten = q.drop n := by
    have h := heq.trans (List.take_append_drop n q).symm
    exact List.append_cancel_left h
  refine hne (hsub.eq_of_length_le ?_)
  rw [hdrop]
  exact hq'.length_le

/-- Where a page ends, the whole list is cut after its last row. -/
theorem cut_at_last (pre : List DeliveryRow) {q : List DeliveryRow} {l : DeliveryRow}
    (hl : (q.take pageSize).getLast? = some l) :
    ∃ init, pre ++ q = init ++ l :: q.drop pageSize := by
  obtain ⟨ys, hys⟩ := List.getLast?_eq_some_iff.1 hl
  refine ⟨pre ++ ys, ?_⟩
  conv_lhs => rw [← List.take_append_drop pageSize q, hys]
  simp

/-- **The calls of the walk are the walk of the list.**  They end in the pages of the list, or
in an error at a date that has no text; and then rows are missing. -/
theorem walkPages_eq {codec : CursorCodec} {tenantId : Uuid} {status : Option DeliveryStatus}
    {db : Database} (huuid : ∀ u, codec.parseUuid (codeUnits u.text) = some u) :
    ∀ {n : ℕ} {cursor : Option Text} {keep : DeliveryRow → Bool} {pre q : List DeliveryRow}
      {ps : List (List DeliveryRow)}, cursorFilter codec cursor = .ok keep →
      (ordered db tenantId status).filter keep = q → ordered db tenantId status = pre ++ q →
      Paging.walk keepOf pageSize n q = some ps →
      ∃ r, walkPages codec tenantId status db n cursor = some r ∧
        (r = .ok (ps.map (List.map (toView db))) ∨ (∃ e, r = .error e) ∧ ps.flatten ≠ q) := by
  intro n
  induction n with
  | zero => intro _ _ _ _ _ _ _ _ hwalk; cases hwalk
  | succ n ih =>
      intro cursor keep pre q ps hkeep hq hpre hwalk
      by_cases hmore : pageSize < q.length
      · obtain ⟨l, hl, -⟩ := Paging.exists_last (by decide) hmore
        obtain ⟨hnone, hsome⟩ := list_more hkeep hq hmore hl
        rw [Paging.walk_more hmore hl] at hwalk
        obtain ⟨qs, hqs, rfl⟩ := Option.map_eq_some_iff.1 hwalk
        have hsub := Paging.flatten_walk_sublist hqs
        by_cases hdate : jsDate l.createdAt ≤ maxTime
        · obtain ⟨next, hnext⟩ := Option.isSome_iff_exists.1 (cursorOf_isSome_iff.2 hdate)
          have hfilter : cursorFilter codec (some next) = .ok (keepOf l) := by
            rw [cursorFilter_cursorOf (huuid l.id) hnext, after_eq_keepOf hdate]
          obtain ⟨init, hcut⟩ := cut_at_last pre hl
          have hq' : (ordered db tenantId status).filter (keepOf l) =
              Paging.resume keepOf l (q.drop pageSize) := by
            have hsorted := pairwise_newer db tenantId status
            rw [hpre, hcut] at hsorted ⊢
            exact Paging.filter_keep (fun r hr => newer_of_resumes (keepOf_iff.1 hr)) newer_irrefl
              newer_asymm (fun a b ha hab => keepOf_iff.2 (resumes_of_newer (keepOf_iff.1 ha) hab))
              hsorted
          have hsuffix : Paging.resume keepOf l (q.drop pageSize) <:+ q.drop pageSize :=
            Paging.resume_suffix l _
          obtain ⟨mid, hmid⟩ := hsuffix
          have hpre' : ordered db tenantId status =
              (init ++ l :: mid) ++ Paging.resume keepOf l (q.drop pageSize) := by
            rw [hpre, hcut, List.append_assoc, List.cons_append, hmid]
          obtain ⟨r, hr, hcases⟩ := ih hfilter hq' hpre' hqs
          have hwalked : walkPages codec tenantId status db (n + 1) cursor =
              some (r.map (((q.take pageSize).map (toView db)) :: ·)) := by
            rw [walkPages, hsome next hnext]
            simp only [hr, Option.map_some]
          refine ⟨_, hwalked, ?_⟩
          rcases hcases with rfl | ⟨⟨e, rfl⟩, hne⟩
          · exact .inl rfl
          · exact .inr ⟨⟨e, rfl⟩, flatten_cons_ne (Paging.resume_suffix l _) hsub hne⟩
        · have hempty := resume_eq_nil hdate (q.drop pageSize)
          rw [hempty] at hsub
          have hcursor : cursorOf l = none := by
            rw [← Option.not_isSome_iff_eq_none, cursorOf_isSome_iff]
            exact hdate
          refine ⟨.error .invalidValue, ?_, .inr ⟨⟨_, rfl⟩, ?_⟩⟩
          · rw [walkPages, hnone hcursor]
          · rw [List.flatten_cons, List.sublist_nil.1 hsub, List.append_nil]
            intro heq
            have := congrArg List.length heq
            rw [List.length_take] at this
            omega
      · rw [Paging.walk_last hmore] at hwalk
        cases hwalk
        refine ⟨.ok [q.map (toView db)], ?_, .inl rfl⟩
        rw [walkPages, list_last hkeep hq hmore]

/-- At the end of every page, the cursor of its last row does not pass over the next row. -/
def NoGaps (rows : List DeliveryRow) : Prop :=
  ∀ k l r, rows[(k + 1) * pageSize - 1]? = some l → rows[(k + 1) * pageSize]? = some r →
    Resumes l r

theorem gapless_iff_noGaps {rows : List DeliveryRow} :
    Paging.Gapless keepOf pageSize rows ↔ NoGaps rows := by
  unfold Paging.Gapless NoGaps
  simp only [keepOf_iff]

/-- The walk has visited every delivery that matches exactly once, the newest first. -/
def VisitsAll (db : Database) (tenantId : Uuid) (status : Option DeliveryStatus)
    (r : Except ServiceError (List (List View))) : Prop :=
  ∃ pages, r = .ok pages ∧ pages.flatten = (ordered db tenantId status).map (toView db)

theorem visitsAll_iff_noGaps (codec : CursorCodec)
    (huuid : ∀ u, codec.parseUuid (codeUnits u.text) = some u) (db : Database) (tenantId : Uuid)
    (status : Option DeliveryStatus) {n : ℕ} (hn : (ordered db tenantId status).length < n) :
    ∃ r, walkPages codec tenantId status db n none = some r ∧
      (VisitsAll db tenantId status r ↔ NoGaps (ordered db tenantId status)) := by
  have hall : (ordered db tenantId status).filter (fun _ => true) = ordered db tenantId status :=
    List.filter_eq_self.2 fun _ _ => rfl
  have hends : (Paging.walk keepOf pageSize n (ordered db tenantId status)).isSome = true :=
    Paging.walk_isSome (by decide) hn
  obtain ⟨ps, hps⟩ := Option.isSome_iff_exists.1 hends
  have hfirst : cursorFilter codec none = .ok fun _ => true := rfl
  obtain ⟨r, hr, hcases⟩ := walkPages_eq huuid hfirst hall (List.nil_append _).symm hps
  refine ⟨r, hr, ?_⟩
  rw [← gapless_iff_noGaps, ← Paging.flatten_walk_iff (by decide) hps]
  have hsub := Paging.flatten_walk_sublist hps
  rcases hcases with rfl | ⟨⟨e, rfl⟩, hne⟩
  · have hflat : (ps.map (List.map (toView db))).flatten = ps.flatten.map (toView db) :=
      List.map_flatten.symm
    constructor
    · rintro ⟨pages, hpages, heq⟩
      cases hpages
      rw [hflat] at heq
      refine hsub.eq_of_length ?_
      have hlen := congrArg List.length heq
      rwa [List.length_map, List.length_map] at hlen
    · intro heq
      exact ⟨_, rfl, by rw [hflat, heq]⟩
  · refine iff_of_false ?_ hne
    rintro ⟨pages, hpages, -⟩
    cases hpages

/-- **When walking the list visits every delivery.**  The calls end after at most as many pages
as there are deliveries.  Together the pages hold every delivery that matches, once and the
newest first, exactly if at the end of every page the next row was created before the
millisecond of the page's last row, or right at it with a smaller id. -/
theorem walk_visits_all_iff (codec : CursorCodec)
    (huuid : ∀ u, codec.parseUuid (codeUnits u.text) = some u) (db : Database) (tenantId : Uuid)
    (status : Option DeliveryStatus) (n : ℕ) (hn : (ordered db tenantId status).length < n) :
    ∃ r, walkPages codec tenantId status db n none = some r ∧
      (VisitsAll db tenantId status r ↔ NoGaps (ordered db tenantId status)) :=
  visitsAll_iff_noGaps codec huuid db tenantId status hn

/-! ## The deliveries of one event

An event that goes to 21 endpoints.  Its deliveries are inserted in one transaction, so they
have the same date. -/

/-- A UUID, read as the database reads it: 32 digits, with hyphens between them. -/
def readUuid (s : CodeUnits) : Option Uuid :=
  (decodeUnits s).bind fun t =>
    let digits := t.filter (· ≠ '-')
    if digits.length = 32 then (hexNumber digits).map Uuid.ofNat else none

theorem readUuid_text (u : Uuid) : readUuid (codeUnits u.text) = some u := by
  have hnumber : hexNumber u.digits = some u.val.val := by
    have hlt : u.val.val < 16 ^ 32 := lt_of_lt_of_eq u.val.isLt (by norm_num)
    rw [hexNumber, Uuid.digits, hexNumberFrom_hexDigits, Nat.mod_eq_of_lt hlt]
    simp
  have hofNat : Uuid.ofNat u.val.val = u := congrArg Uuid.mk (Fin.ofNat_val_eq_self u.val)
  rw [readUuid, decodeUnits_codeUnits, Option.bind_some, Uuid.filter_text]
  simp only [Uuid.length_digits, if_true, hnumber, Option.map_some, hofNat]

/-- A codec that takes no dates but those of `toISOString`. -/
def strictCodec : CursorCodec := ⟨fun _ => none, readUuid⟩

theorem strictCodec_parseUuid : ∀ u : Uuid,
    strictCodec.parseUuid (codeUnits u.text) = some u := by
  have hparse : strictCodec.parseUuid = readUuid := rfl
  rw [hparse]
  exact readUuid_text

def fanOutTenant : Uuid := Uuid.ofNat 1

def fanOutEndpoint (k : ℕ) : EndpointRow :=
  { id := Uuid.ofNat (100 + k), tenantId := fanOutTenant,
    url := "https://hooks.example/".toList ++ hexText k, secretEnc := [], status := .active,
    description := none, consecutiveFailures := 0, createdAt := 0, updatedAt := 0 }

def fanOutDelivery (t : Micros) (k : ℕ) : DeliveryRow :=
  { id := Uuid.ofNat (200 + k), eventId := Uuid.ofNat 2, endpointId := Uuid.ofNat (100 + k),
    status := .pending, attemptCount := 0, nextRetryAt := none, createdAt := t, updatedAt := t }

/-- The event was published at the time `t`. -/
def fanOutAt (t : Micros) : Database :=
  { Database.empty with
    endpoints := ⟨(List.range 21).map fanOutEndpoint, by decide +kernel⟩
    events := ⟨[⟨Uuid.ofNat 2, fanOutTenant, "order.paid".toList, .null, "k".toList, t⟩], by simp⟩
    deliveries := ⟨(List.range 21).map (fanOutDelivery t), by
      rw [List.map_map]
      show ((List.range 21).map fun k => Uuid.ofNat (200 + k)).Nodup
      decide +kernel⟩ }

/-- One microsecond past a millisecond, the last of the deliveries is not visited. -/
theorem not_noGaps_fanOutAt : ¬ NoGaps (ordered (fanOutAt 1000001) fanOutTenant none) := by
  intro h
  have hgap := h 0 (fanOutDelivery 1000001 1) (fanOutDelivery 1000001 0) (by decide +kernel)
    (by decide +kernel)
  exact absurd hgap (by decide +kernel)

/-- Right at a millisecond, the ids tell the deliveries apart. -/
theorem noGaps_fanOutAt : NoGaps (ordered (fanOutAt 1000000) fanOutTenant none) := by
  have hlen : (ordered (fanOutAt 1000000) fanOutTenant none).length = 21 := by decide +kernel
  intro k l r hl hr
  cases k with
  | zero =>
      have hlast : (ordered (fanOutAt 1000000) fanOutTenant none)[19]? =
          some (fanOutDelivery 1000000 1) := by decide +kernel
      have hnext : (ordered (fanOutAt 1000000) fanOutTenant none)[20]? =
          some (fanOutDelivery 1000000 0) := by decide +kernel
      cases hlast.symm.trans hl
      cases hnext.symm.trans hr
      decide +kernel
  | succ k =>
      have hlt := (List.getElem?_eq_some_iff.1 hr).1
      rw [hlen] at hlt
      unfold pageSize at hlt
      omega

/-- Published right at a millisecond, all the deliveries are visited. -/
theorem walk_visits_all_at_millisecond :
    ∃ r, walkPages strictCodec fanOutTenant none (fanOutAt 1000000) 22 none = some r ∧
      VisitsAll (fanOutAt 1000000) fanOutTenant none r := by
  have hlen : (ordered (fanOutAt 1000000) fanOutTenant none).length = 21 := by decide +kernel
  obtain ⟨r, hr, hiff⟩ := walk_visits_all_iff strictCodec strictCodec_parseUuid (fanOutAt 1000000)
    fanOutTenant none 22 (lt_of_eq_of_lt hlen (by omega))
  exact ⟨r, hr, hiff.2 noGaps_fanOutAt⟩

/-- **The walk may miss deliveries**: those of one event, published one microsecond past a
millisecond. -/
theorem walk_misses_delivery :
    ¬ ∀ codec : CursorCodec, (∀ u, codec.parseUuid (codeUnits u.text) = some u) →
      ∀ (db : Database) (tenantId : Uuid) (status : Option DeliveryStatus),
        ∃ n r, walkPages codec tenantId status db n none = some r ∧
          VisitsAll db tenantId status r := by
  intro hall
  obtain ⟨n, r, hr, hvisits⟩ :=
    hall strictCodec strictCodec_parseUuid (fanOutAt 1000001) fanOutTenant none
  have hlen : (ordered (fanOutAt 1000001) fanOutTenant none).length = 21 := by decide +kernel
  obtain ⟨r', hr', hiff⟩ := visitsAll_iff_noGaps strictCodec strictCodec_parseUuid (fanOutAt 1000001)
    fanOutTenant none (lt_of_eq_of_lt hlen (by omega : 21 < n + 22))
  cases (walkPages_add hr 22).symm.trans hr'
  exact not_noGaps_fanOutAt (hiff.1 hvisits)

end DeliveriesService

end HookRelay
