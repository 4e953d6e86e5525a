import HookRelay.Data.JsonRoundTrip
import HookRelay.Data.Numbers
import HookRelay.Lib.Transition
import HookRelay.Worker.CircuitHistory

/-!
# The circuit's store when Redis fails

`circuit.store.ts` with everything that can go wrong: any command may fail, before or after
Redis has executed it, either key may be lost, and the value may be damaged.  The snapshot is
stored as a JSON text.  Every `catch` of the store goes on as if the circuit were closed.

* `snapshotText`, `readText` — what `write` stores, and what `read` makes of it.
* `step` — calls of any number of workers, command by command.
* `State.made`, `State.effective` — the calls, and those whose `SET` Redis has executed;
  `State.recorded` counts the failures among these, and `State.refusals` and `State.disables`
  say how many there were when `allow` said no and when `failure` asked to disable.  No step
  reads them.
* `never_early` — none of that refuses or disables an endpoint too early.
* `outage_drops_calls` — while calls do not overlap, what an outage does to the circuit is to
  drop calls from its history.
-/

namespace HookRelay
namespace CircuitStore

open Lib JsonText Circuit

/-! ## The stored text -/

def stateText : CircuitState → CodeUnits
  | .closed => ascii "CLOSED"
  | .opened => ascii "OPEN"
  | .halfOpen => ascii "HALF_OPEN"

def readState (t : CodeUnits) : Option CircuitState :=
  if t = ascii "CLOSED" then some .closed
  else if t = ascii "OPEN" then some .opened
  else if t = ascii "HALF_OPEN" then some .halfOpen
  else none

/-- The snapshot as a JSON value. -/
def toJson (c : CircuitSnapshot) : Json :=
  .obj [(ascii "state", .str (stateText c.state)), (ascii "failures", .num (decimalText c.failures)),
    (ascii "openedAt", .num (decimalText c.openedAt))]

/-- `JSON.stringify(snapshot)`. -/
def snapshotText (c : CircuitSnapshot) : CodeUnits := (toJson c).stringify

def readNat : Option Json → Option ℕ
  | some (.num t) => if t ≠ [] ∧ t.all isDigit then some (decimalValue t) else none
  | _ => none

/-- The JSON value as a `CircuitSnapshot`, if it is one. -/
def ofJson (v : Json) : Option CircuitSnapshot :=
  match field? (ascii "state") v, readNat (field? (ascii "failures") v),
      readNat (field? (ascii "openedAt") v) with
  | some (.str t), some failures, some openedAt =>
      (readState t).map fun state => ⟨state, failures, openedAt⟩
  | _, _, _ => none

/-- `read`, of what the key holds: a text that is no JSON is taken for the empty circuit. -/
def readText : Option CodeUnits → Option CircuitSnapshot
  | none => some empty
  | some t =>
      if t = [] then some empty
      else
        match parse t with
        | none => some empty
        | some v => ofJson v

/-- The text of a natural number is a JSON number. -/
theorem isNumber_decimalText (n : ℕ) : isNumber (decimalText n) = true := by
  have hdigit : ∀ d < 10, NumPart.next .int (UInt16.ofNat (Nat.digitChar d).toNat) = some .int := by
    decide
  have hfirst : ∀ d < 10, 0 < d →
      NumPart.next .start (UInt16.ofNat (Nat.digitChar d).toNat) = some .int := by decide
  have key : ∀ n, 0 < n → run NumPart.next .start (decimalText n) = some .int := by
    intro n
    induction n using Nat.strong_induction_on with
    | _ n ih =>
        intro hpos
        rcases Nat.lt_or_ge n 10 with hlt | hge
        · rw [decimalText, Nat.toDigits_of_lt_base hlt]
          simp only [List.map_cons, List.map_nil, run, hfirst n hlt hpos, Option.bind_some]
        · have hrest := ih (n / 10) (by omega) (by omega)
          rw [decimalText] at hrest ⊢
          rw [Nat.toDigits_of_base_le (by norm_num) hge, List.map_append, run_append, hrest]
          simp only [List.map_cons, List.map_nil, run, Option.bind_some,
            hdigit (n % 10) (Nat.mod_lt n (by norm_num))]
  rcases Nat.eq_zero_or_pos n with rfl | hpos
  · decide
  · rw [isNumber, key n hpos]
    rfl

theorem readState_stateText (s : CircuitState) : readState (stateText s) = some s := by
  cases s <;> decide

theorem readNat_decimalText (n : ℕ) : readNat (some (.num (decimalText n))) = some n := by
  have hall : (decimalText n).all isDigit = true :=
    List.all_eq_true.2 fun u hu => isDigit_of_mem_decimalText hu
  rw [readNat, if_pos ⟨decimalText_ne_nil n, hall⟩, decimalValue_decimalText]

theorem ofJson_toJson (c : CircuitSnapshot) : ofJson (toJson c) = some c := by
  have h₁ : ascii "openedAt" ≠ ascii "state" := by decide
  have h₂ : ascii "failures" ≠ ascii "state" := by decide
  have h₃ : ascii "openedAt" ≠ ascii "failures" := by decide
  have hstate : field? (ascii "state") (toJson c) = some (.str (stateText c.state)) := by
    simp [field?, toJson, h₁, h₂]
  have hfailures : field? (ascii "failures") (toJson c) = some (.num (decimalText c.failures)) := by
    simp [field?, toJson, h₃]
  have hopened : field? (ascii "openedAt") (toJson c) = some (.num (decimalText c.openedAt)) := by
    simp [field?, toJson]
  simp only [ofJson, hstate, hfailures, hopened, readNat_decimalText, readState_stateText,
    Option.map_some]

/-- **What `write` stores is what `read` gives.** -/
theorem readText_snapshotText (c : CircuitSnapshot) :
    readText (some (snapshotText c)) = some c := by
  have hvalid : (toJson c).valid = true := by
    simp [toJson, Json.valid, Json.validFields, isNumber_decimalText]
  have hparse : parse (snapshotText c) = some (toJson c) := parse_stringify _ hvalid
  have hne : snapshotText c ≠ [] := by
    intro hnil
    have hempty : parse [] = none := by decide
    rw [hnil, hempty] at hparse
    cases hparse
  rw [readText, if_neg hne, hparse]
  exact ofJson_toJson c

/-! ## The calls, command by command -/

/-- The two keys of an endpoint: the text of the snapshot, and when the probe key expires. -/
structure Store where
  raw : Option CodeUnits
  probe : Option ℕ

namespace Store

def read (k : Store) : Option CircuitSnapshot := readText k.raw

def write (k : Store) (c : CircuitSnapshot) : Store := { k with raw := some (snapshotText c) }

/-- Nobody holds the probe key. -/
def probeFree (k : Store) (now : ℕ) : Bool := k.probe.all fun t => t ≤ now

/-- `SET probeKey 1 EX PROBE_TTL_SEC NX`. -/
def setNx (k : Store) (now : ℕ) : Store :=
  if k.probeFree now then { k with probe := some (now + probeTtlMs) } else k

/-- `DEL probeKey`. -/
def delProbe (k : Store) : Store := { k with probe := none }

@[simp] theorem read_write (k : Store) (c : CircuitSnapshot) : (k.write c).read = some c :=
  readText_snapshotText c

@[simp] theorem read_setNx (k : Store) (now : ℕ) : (k.setNx now).read = k.read := by
  unfold setNx
  split_ifs <;> rfl

@[simp] theorem read_delProbe (k : Store) : k.delProbe.read = k.read := rfl

end Store

/-- What a worker is about to do; `now` was read when the call began. -/
inductive Call where
  | idle
  /-- `allow`: `GET` -/
  | allowGet (now : ℕ)
  /-- `allow`: `SET NX` -/
  | allowNx (now : ℕ) (next : CircuitSnapshot)
  /-- `allow`: `SET` -/
  | allowSet (now : ℕ) (next : CircuitSnapshot)
  /-- `allow` has said yes. -/
  | attempting
  /-- `success`: `SET` -/
  | successSet (now : ℕ)
  /-- `success`: `DEL` -/
  | successDel
  /-- `failure`: `GET` -/
  | failureGet (now : ℕ)
  /-- `failure`: `SET` -/
  | failureSet (now : ℕ) (next : CircuitSnapshot) (disable : Bool)
  /-- `failure`: `DEL` -/
  | failureDel (disable : Bool)

/-- What becomes of a command. -/
inductive Fate where
  /-- Redis executes it and answers. -/
  | answered
  /-- Redis executes it, and the answer does not come. -/
  | unanswered
  /-- It does not come to Redis. -/
  | lost
  deriving DecidableEq

def Fate.executed : Fate → Bool
  | .lost => false
  | _ => true

variable {W : Type} [DecidableEq W]

structure State (W : Type) where
  now : ℕ
  store : Store
  calls : W → Call
  /-- How many `SET`s of `failure` Redis has executed. -/
  recorded : ℕ
  /-- How many there were when `allow` said no. -/
  refusals : List ℕ
  /-- How many there were when `failure` asked to disable. -/
  disables : List ℕ
  /-- The calls that were begun, the latest first. -/
  made : List Timed
  /-- The calls whose `SET` Redis has executed, the latest first. -/
  effective : List Timed

def init : State W := ⟨0, ⟨none, none⟩, fun _ => .idle, 0, [], [], [], []⟩

inductive Action (W : Type) where
  /-- Time passes. -/
  | advance (ms : ℕ)
  /-- A worker calls `allow`. -/
  | allow (w : W)
  /-- A worker calls `success` or `failure` for the attempt it was let through for. -/
  | report (w : W) (ok : Bool)
  /-- A worker's call sends its next command. -/
  | command (w : W) (fate : Fate)
  /-- Redis loses the value. -/
  | loseValue
  /-- Redis loses the probe key. -/
  | loseProbe
  /-- The value is damaged. -/
  | damage (text : CodeUnits)

namespace State

/-- Put a worker where it stands after a step. -/
def put (s : State W) (w : W) (call : Call) : State W :=
  { s with calls := Function.update s.calls w call }

/-- A call begins. -/
def begin (s : State W) (w : W) (call : Call) (transition : Transition) : State W :=
  { s with made := ⟨s.now, transition⟩ :: s.made }.put w call

/-- `allow` says no. -/
def refuse (s : State W) (w : W) : State W :=
  { s with refusals := s.recorded :: s.refusals }.put w .idle

/-- The `SET` of a transition. -/
def set (s : State W) (fate : Fate) (next : CircuitSnapshot) (call : Timed) : State W :=
  if fate.executed then
    { s with
      store := s.store.write next
      recorded := if call.transition = .onFailure then s.recorded + 1 else s.recorded
      effective := call :: s.effective }
  else s

/-- The `DEL` of the probe key. -/
def del (s : State W) (fate : Fate) : State W :=
  if fate.executed then { s with store := s.store.delProbe } else s

/-- The `SET NX` of the probe key. -/
def nx (s : State W) (fate : Fate) : State W :=
  if fate.executed then { s with store := s.store.setNx s.now } else s

end State

/-- The `GET` of `allow`, answered. -/
def allowGot (cfg : CircuitConfig) (s : State W) (w : W) (now : ℕ) (current : CircuitSnapshot) :
    State W :=
  let (allow, next) := decideAttempt current now cfg
  if allow then
    if next.state = .halfOpen then s.put w (.allowNx now next) else s.put w .attempting
  else s.refuse w

/-- One command of a call.  A value that is JSON but no snapshot is never read. -/
def commanded (cfg : CircuitConfig) (s : State W) (w : W) (fate : Fate) : Call → Option (State W)
  | .idle | .attempting => none
  | .allowGet now =>
      if fate = .answered then s.store.read.map (allowGot cfg s w now)
      else some (s.put w .attempting)
  | .allowNx now next =>
      if fate = .answered then
        some (if s.store.probeFree s.now then (s.nx fate).put w (.allowSet now next)
          else s.refuse w)
      else some ((s.nx fate).put w .attempting)
  | .allowSet now next => some ((s.set fate next ⟨now, .decideAttempt⟩).put w .attempting)
  | .successSet now =>
      some ((s.set fate onSuccess ⟨now, .onSuccess⟩).put w
        (if fate = .answered then .successDel else .idle))
  | .successDel => some ((s.del fate).put w .idle)
  | .failureGet now =>
      if fate = .answered then
        s.store.read.map fun current =>
          s.put w (.failureSet now (onFailure current now cfg).1 (onFailure current now cfg).2)
      else some (s.put w .idle)
  | .failureSet now next disable =>
      some ((s.set fate next ⟨now, .onFailure⟩).put w
        (if fate = .answered then .failureDel disable else .idle))
  | .failureDel disable =>
      let t := (s.del fate).put w .idle
      some (if fate = .answered ∧ disable then { t with disables := t.recorded :: t.disables }
        else t)

/-- One step. -/
def step (cfg : CircuitConfig) (s : State W) : Action W → Option (State W)
  | .advance ms => some { s with now := s.now + ms }
  | .allow w =>
      match s.calls w with
      | .idle => some (s.begin w (.allowGet s.now) .decideAttempt)
      | _ => none
  | .report w ok =>
      match s.calls w with
      | .attempting =>
          some (if ok then s.begin w (.successSet s.now) .onSuccess
            else s.begin w (.failureGet s.now) .onFailure)
      | _ => none
  | .command w fate => commanded cfg s w fate (s.calls w)
  | .loseValue => some { s with store := { s.store with raw := none } }
  | .loseProbe => some { s with store := s.store.delProbe }
  | .damage text =>
      if (parse text).isNone then some { s with store := { s.store with raw := some text } }
      else none

/-! ## Nothing happens too early -/

variable {cfg : CircuitConfig} {s s' : State W} {a : Action W} {w : W} {n m : ℕ}

/-- A snapshot that `n` failures account for. -/
structure Earned (cfg : CircuitConfig) (n : ℕ) (c : CircuitSnapshot) : Prop where
  le : c.failures ≤ n
  opened : c.state ≠ .closed → cfg.openAfter ≤ (c.failures : ℤ)

theorem Earned.mono {c : CircuitSnapshot} (h : Earned cfg n c) (hnm : n ≤ m) : Earned cfg m c :=
  ⟨h.le.trans hnm, h.opened⟩

theorem earned_empty : Earned cfg n empty := ⟨Nat.zero_le n, fun h => absurd rfl h⟩

theorem Earned.onFailure {c : CircuitSnapshot} (h : Earned cfg n c) (now : ℕ) :
    Earned cfg (n + 1) (onFailure c now cfg).1 := by
  refine ⟨?_, fun hopen => ?_⟩
  · rw [onFailure_failures]
    exact Nat.succ_le_succ h.le
  · rw [onFailure_state] at hopen
    rw [onFailure_failures]
    by_contra hlt
    exact hopen (if_neg hlt)

/-- A call that `n` recorded failures account for. -/
def Call.Fits (cfg : CircuitConfig) (n : ℕ) : Call → Prop
  | .allowNx _ next | .allowSet _ next => Earned cfg n next ∧ cfg.openAfter ≤ (n : ℤ)
  | .failureSet _ next disable =>
      Earned cfg (n + 1) next ∧ (disable = true → cfg.disableAfter ≤ (next.failures : ℤ))
  | .failureDel disable => disable = true → cfg.disableAfter ≤ (n : ℤ)
  | _ => True

theorem Call.Fits.mono {c : Call} (h : c.Fits cfg n) (hnm : n ≤ m) : c.Fits cfg m := by
  have hle : (n : ℤ) ≤ m := Int.ofNat_le.2 hnm
  cases c with
  | allowNx now next => exact ⟨h.1.mono hnm, h.2.trans hle⟩
  | allowSet now next => exact ⟨h.1.mono hnm, h.2.trans hle⟩
  | failureSet now next disable => exact ⟨h.1.mono (Nat.succ_le_succ hnm), h.2⟩
  | failureDel disable => exact fun hd => (h hd).trans hle
  | _ => trivial

/-- What holds at any time. -/
structure Timely (cfg : CircuitConfig) (s : State W) : Prop where
  stored : ∃ c, s.store.read = some c ∧ Earned cfg s.recorded c
  calls : ∀ w, (s.calls w).Fits cfg s.recorded
  refusals : ∀ n ∈ s.refusals, cfg.openAfter ≤ (n : ℤ)
  disables : ∀ n ∈ s.disables, cfg.disableAfter ≤ (n : ℤ)

omit [DecidableEq W] in
theorem timely_init : Timely cfg (init : State W) :=
  ⟨⟨empty, rfl, earned_empty⟩, fun _ => trivial, by simp [init], by simp [init]⟩

theorem Timely.put {c : Call} (h : Timely cfg s) (hc : c.Fits cfg s.recorded) :
    Timely cfg (s.put w c) := by
  refine ⟨h.stored, fun x => ?_, h.refusals, h.disables⟩
  by_cases hx : x = w
  · subst hx
    simpa [State.put] using hc
  · simpa [State.put, Function.update_of_ne hx] using h.calls x

theorem Timely.refuse (h : Timely cfg s) (hopen : cfg.openAfter ≤ (s.recorded : ℤ)) :
    Timely cfg (s.refuse w) := by
  have hs : Timely cfg { s with refusals := s.recorded :: s.refusals } :=
    ⟨h.stored, h.calls, by simpa using ⟨hopen, h.refusals⟩, h.disables⟩
  exact hs.put trivial

omit [DecidableEq W] in
theorem recorded_le_set (s : State W) (fate : Fate) (next : CircuitSnapshot) (call : Timed) :
    s.recorded ≤ (s.set fate next call).recorded := by
  unfold State.set
  split_ifs
  · exact Nat.le_succ _
  · exact le_refl _
  · exact le_refl _

omit [DecidableEq W] in
/-- The `SET` of a snapshot that is accounted for afterwards. -/
theorem Timely.set {fate : Fate} {next : CircuitSnapshot} {call : Timed} (h : Timely cfg s)
    (hnext : fate.executed = true → Earned cfg (s.set fate next call).recorded next) :
    Timely cfg (s.set fate next call) := by
  have hle := recorded_le_set s fate next call
  cases hexec : fate.executed with
  | false =>
      rw [State.set, if_neg (by simp [hexec])]
      exact h
  | true =>
      refine ⟨⟨next, ?_, hnext hexec⟩, fun x => ?_, ?_, ?_⟩
      · rw [State.set, if_pos hexec]
        exact Store.read_write _ _
      · have hfits := (h.calls x).mono hle
        rw [State.set, if_pos hexec] at hfits ⊢
        exact hfits
      · rw [State.set, if_pos hexec]
        exact h.refusals
      · rw [State.set, if_pos hexec]
        exact h.disables

omit [DecidableEq W] in
theorem Timely.nx (h : Timely cfg s) (fate : Fate) : Timely cfg (s.nx fate) := by
  unfold State.nx
  split_ifs
  · exact ⟨by simpa using h.stored, h.calls, h.refusals, h.disables⟩
  · exact h

omit [DecidableEq W] in
theorem Timely.del (h : Timely cfg s) (fate : Fate) : Timely cfg (s.del fate) := by
  unfold State.del
  split_ifs
  · exact ⟨by simpa using h.stored, h.calls, h.refusals, h.disables⟩
  · exact h

omit [DecidableEq W] in
@[simp] theorem State.recorded_nx (s : State W) (fate : Fate) : (s.nx fate).recorded = s.recorded := by
  unfold State.nx
  split_ifs <;> rfl

/-- The `GET` of `allow`. -/
theorem Timely.allowGot {c : CircuitSnapshot} (h : Timely cfg s) (hc : Earned cfg s.recorded c)
    (now : ℕ) : Timely cfg (allowGot cfg s w now c) := by
  unfold CircuitStore.allowGot
  simp only
  have recorded : c.state ≠ .closed → cfg.openAfter ≤ (s.recorded : ℤ) := fun hne =>
    (hc.opened hne).trans (Int.ofNat_le.2 hc.le)
  split_ifs with hallow hhalf
  · obtain ⟨hnext, hstate⟩ := decideAttempt_halfOpen hallow hhalf
    have hne : c.state ≠ .closed := by
      rcases hstate with hs | ⟨hs, -⟩ <;> rw [hs] <;> decide
    refine h.put ⟨?_, recorded hne⟩
    rw [hnext]
    exact ⟨hc.le, fun _ => hc.opened hne⟩
  · exact h.put trivial
  · refine h.refuse (recorded fun hclosed => hallow ?_)
    rw [decideAttempt, hclosed]

theorem commanded_timely {fate : Fate} (h : Timely cfg s)
    (hs : commanded cfg s w fate (s.calls w) = some s') : Timely cfg s' := by
  have hcall := h.calls w
  obtain ⟨c, hread, hc⟩ := h.stored
  cases hw : s.calls w with
  | idle => rw [hw] at hs; cases hs
  | attempting => rw [hw] at hs; cases hs
  | allowGet now =>
      rw [hw, commanded, hread] at hs
      split_ifs at hs
      · cases hs
        exact h.allowGot hc now
      · cases hs
        exact h.put trivial
  | allowNx now next =>
      rw [hw] at hs hcall
      rw [commanded] at hs
      split_ifs at hs
      · cases hs
        exact (h.nx fate).put (by rw [State.recorded_nx]; exact hcall)
      · cases hs
        exact h.refuse hcall.2
      · cases hs
        exact (h.nx fate).put trivial
  | allowSet now next =>
      rw [hw] at hs hcall
      cases hs
      exact (h.set fun _ => hcall.1.mono (recorded_le_set s _ _ _)).put trivial
  | successSet now =>
      rw [hw] at hs
      cases hs
      refine (h.set fun _ => earned_empty).put ?_
      split_ifs <;> trivial
  | successDel =>
      rw [hw] at hs
      cases hs
      exact (h.del fate).put trivial
  | failureGet now =>
      rw [hw, commanded, hread] at hs
      split_ifs at hs
      · cases hs
        refine h.put ⟨hc.onFailure now, fun hdisable => ?_⟩
        rw [onFailure_disable, decide_eq_true_eq] at hdisable
        rw [onFailure_failures]
        exact hdisable
      · cases hs
        exact h.put trivial
  | failureSet now next disable =>
      rw [hw] at hs hcall
      cases hs
      have hset : Timely cfg (s.set fate next ⟨now, .onFailure⟩) := h.set fun hexec => by
        rw [State.set, if_pos hexec]
        exact hcall.1
      refine hset.put ?_
      split_ifs with hfate
      · -- the failure itself is among those recorded
        subst hfate
        exact fun hdisable => (hcall.2 hdisable).trans (Int.ofNat_le.2 hcall.1.le)
      · trivial
  | failureDel disable =>
      rw [hw] at hs hcall
      have ht : Timely cfg ((s.del fate).put w .idle) := (h.del fate).put trivial
      rw [commanded] at hs
      simp only [Option.some.injEq] at hs
      subst hs
      have hrec : (s.del fate).recorded = s.recorded := by
        unfold State.del
        split_ifs <;> rfl
      split_ifs with hd
      · refine ⟨ht.stored, ht.calls, ht.refusals, ?_⟩
        simpa [State.put, hrec] using ⟨hcall hd.2, ht.disables⟩
      · exact ht

theorem step_timely (h : Timely cfg s) (hs : step cfg s a = some s') : Timely cfg s' := by
  cases a with
  | advance ms => cases hs; exact ⟨h.stored, h.calls, h.refusals, h.disables⟩
  | allow w =>
      simp only [step] at hs
      split at hs
      · cases hs
        exact Timely.put (s := { s with made := _ :: s.made })
          ⟨h.stored, h.calls, h.refusals, h.disables⟩ trivial
      · cases hs
  | report w ok =>
      simp only [step] at hs
      split at hs
      · cases hs
        split_ifs <;> exact Timely.put (s := { s with made := _ :: s.made })
          ⟨h.stored, h.calls, h.refusals, h.disables⟩ trivial
      · cases hs
  | command w fate => exact commanded_timely h hs
  | loseValue =>
      cases hs
      exact ⟨⟨empty, rfl, earned_empty⟩, h.calls, h.refusals, h.disables⟩
  | loseProbe =>
      cases hs
      exact ⟨h.stored, h.calls, h.refusals, h.disables⟩
  | damage text =>
      simp only [step] at hs
      split_ifs at hs with htext
      cases hs
      refine ⟨⟨empty, ?_, earned_empty⟩, h.calls, h.refusals, h.disables⟩
      simp only [Store.read, readText]
      split_ifs
      · rfl
      · rw [Option.isNone_iff_eq_none.1 htext]

/-- **Never too early.**  Whatever Redis fails at, loses or damages, and however calls of workers
interleave: `allow` says no only when `openAfter` failures have been recorded, and `failure`
asks to disable the endpoint only when `disableAfter` have. -/
theorem never_early (cfg : CircuitConfig) (s : State W) (h : Reachable (step cfg) init s) :
    (∀ n ∈ s.refusals, cfg.openAfter ≤ (n : ℤ)) ∧ ∀ n ∈ s.disables, cfg.disableAfter ≤ (n : ℤ) := by
  have ht : Timely cfg s := h.invariant (fun _ _ _ hI _ hs => step_timely hI hs) timely_init
  exact ⟨ht.refusals, ht.disables⟩

namespace Sample

/-- An endpoint is opened by two failures and disabled by three, and cools down for a second. -/
def twoFailures : CircuitConfig := ⟨2, 1000, 3⟩

/-- An attempt that fails: `allow` and `failure`, all their commands answered. -/
def failing (w : W) : List (Action W) :=
  [.allow w, .command w .answered, .report w false, .command w .answered, .command w .answered,
    .command w .answered]

/-- A failure is forgotten with the value.  Two more open the circuit, and `allow` says no; the
`GET` of the next call fails, so it goes ahead, and its failure disables the endpoint. -/
def outage : List (Action ℕ) :=
  failing 0 ++ [.loseValue] ++ failing 0 ++ failing 1 ++ [.allow 1, .command 1 .answered] ++
    [.allow 0, .command 0 .lost, .report 0 false, .command 0 .answered, .command 0 .answered,
      .command 0 .answered]

end Sample

theorem never_early_through_outage : ∃ s : State ℕ, Reachable (step Sample.twoFailures) init s ∧
    s.refusals = [3] ∧ s.disables = [4] ∧
    (∀ n ∈ s.refusals, Sample.twoFailures.openAfter ≤ (n : ℤ)) ∧
    ∀ n ∈ s.disables, Sample.twoFailures.disableAfter ≤ (n : ℤ) := by
  obtain ⟨s, hpath, hs⟩ := Path.exists_of_runChecked (step Sample.twoFailures)
    (p := fun _ _ => true) (fun _ _ _ => trivial) (init : State ℕ) Sample.outage
    (fun s => decide (s.refusals = [3] ∧ s.disables = [4])) (by decide +kernel)
  have hs := of_decide_eq_true hs
  exact ⟨s, hpath, hs.1, hs.2, never_early Sample.twoFailures s hpath⟩

/-! ## What an outage leaves of the history -/

/-- The call sends a command next. -/
def Call.busy : Call → Bool
  | .idle | .attempting => false
  | _ => true

/-- A call begins when no other is under way, and the keys are neither lost nor damaged. -/
def Sequential (s : State W) : Action W → Prop
  | .allow _ | .report _ _ => ∀ x, (s.calls x).busy = false
  | .loseValue | .loseProbe | .damage _ => False
  | _ => True

/-- The call, as a transition that is still to be stored. -/
def Call.timed : Call → Option Timed
  | .allowGet now | .allowNx now _ | .allowSet now _ => some ⟨now, .decideAttempt⟩
  | .successSet now => some ⟨now, .onSuccess⟩
  | .failureGet now | .failureSet now _ _ => some ⟨now, .onFailure⟩
  | _ => none

/-- What the call is about to store is what the transition makes of this snapshot. -/
def Call.Next (cfg : CircuitConfig) (c : CircuitSnapshot) : Call → Prop
  | .allowNx now next | .allowSet now next => next = (decideAttempt c now cfg).2
  | .failureSet now next _ => next = (onFailure c now cfg).1
  | _ => True

theorem Call.next_of_idle {c : CircuitSnapshot} {call : Call} (h : call.busy = false) :
    call.Next cfg c := by
  cases call <;> trivial

theorem Call.timed_of_idle {call : Call} (h : call.busy = false) : call.timed = none := by
  cases call <;> first | rfl | cases h

/-- The store holds what the effective calls have made of it; these are some of the calls made,
and the call under way is the last one made. -/
structure Follows (cfg : CircuitConfig) (s : State W) : Prop where
  read : s.store.read = some (replay cfg s.effective)
  alone : ∀ w x, (s.calls w).busy = true → (s.calls x).busy = true → w = x
  next : ∀ w, (s.calls w).Next cfg (replay cfg s.effective)
  sublist : s.effective.Sublist s.made
  current : ∀ w call, (s.calls w).timed = some call →
    ∃ rest, s.made = call :: rest ∧ s.effective.Sublist rest

omit [DecidableEq W] in
theorem follows_init : Follows cfg (init : State W) where
  read := rfl
  alone := fun _ _ h => by cases h
  next := fun _ => trivial
  sublist := .slnil
  current := fun _ _ h => by cases h

/-- Worker `w` has moved, and nobody else is in a call. -/
theorem Follows.of_move {t : State W} {c : Call} (ht : t.calls = Function.update s.calls w c)
    (hothers : ∀ x, x ≠ w → (s.calls x).busy = false)
    (hread : t.store.read = some (replay cfg t.effective))
    (hnext : c.Next cfg (replay cfg t.effective)) (hsub : t.effective.Sublist t.made)
    (hcurrent : ∀ call, c.timed = some call →
      ∃ rest, t.made = call :: rest ∧ t.effective.Sublist rest) : Follows cfg t := by
  have hself : t.calls w = c := by rw [ht, Function.update_self]
  have hidle : ∀ x, x ≠ w → (t.calls x).busy = false := by
    intro x hx
    rw [ht, Function.update_of_ne hx]
    exact hothers x hx
  have hw : ∀ x, (t.calls x).busy = true → x = w := by
    intro x hx
    by_contra hne
    rw [hidle x hne] at hx
    cases hx
  refine ⟨hread, fun x y hx hy => (hw x hx).trans (hw y hy).symm, fun x => ?_, hsub,
    fun x call hcall => ?_⟩
  · by_cases hx : x = w
    · rw [hx, hself]
      exact hnext
    · exact Call.next_of_idle (hidle x hx)
  · by_cases hx : x = w
    · rw [hx, hself] at hcall
      exact hcurrent call hcall
    · rw [Call.timed_of_idle (hidle x hx)] at hcall
      cases hcall

/-- A command that stores nothing. -/
theorem Follows.stay {t : State W} {c : Call} (h : Follows cfg s) (hw : (s.calls w).busy = true)
    (ht : t.calls = Function.update s.calls w c) (hread : t.store.read = s.store.read)
    (he : t.effective = s.effective) (hm : t.made = s.made)
    (hnext : c.Next cfg (replay cfg s.effective))
    (htimed : c.timed = none ∨ c.timed = (s.calls w).timed) : Follows cfg t := by
  refine .of_move ht (fun x hx => ?_) (by rw [hread, he, h.read]) (by rw [he]; exact hnext)
    (by rw [he, hm]; exact h.sublist) fun call hcall => ?_
  · by_contra hbusy
    exact hx (h.alone x w (by simpa using hbusy) hw)
  · rw [he, hm]
    rcases htimed with hnone | hsame
    · rw [hnone] at hcall
      cases hcall
    · exact h.current w call (hsame ▸ hcall)

/-- The `SET` of a transition. -/
theorem Follows.set {fate : Fate} {next : CircuitSnapshot} {call : Timed} {c : Call}
    (h : Follows cfg s) (hw : (s.calls w).timed = some call)
    (hnext : next = Circuit.next cfg (replay cfg s.effective) call)
    (hc : ∀ snapshot, c.Next cfg snapshot) (htimed : c.timed = none) :
    Follows cfg ((s.set fate next call).put w c) := by
  have hbusy : (s.calls w).busy = true := by
    cases hcall : s.calls w with
    | idle => rw [hcall] at hw; cases hw
    | attempting => rw [hcall] at hw; cases hw
    | _ => rfl
  cases hexec : fate.executed with
  | false =>
      rw [State.set, if_neg (by simp [hexec])]
      exact h.stay hbusy rfl rfl rfl rfl (hc _) (.inl htimed)
  | true =>
      obtain ⟨rest, hmade, hsub⟩ := h.current w call hw
      rw [State.set, if_pos hexec]
      refine .of_move (s := s) rfl (fun x hx => ?_) ?_ (hc _) ?_ fun call' hcall => ?_
      · by_contra hb
        exact hx (h.alone x w (by simpa using hb) hbusy)
      · rw [hnext]
        exact Store.read_write _ _
      · show (call :: s.effective).Sublist s.made
        rw [hmade]
        exact hsub.cons_cons call
      · rw [htimed] at hcall
        cases hcall

/-- A call begins. -/
theorem Follows.begin {call : Call} {transition : Transition} (h : Follows cfg s)
    (hidle : ∀ x, (s.calls x).busy = false) (hnext : ∀ snapshot, call.Next cfg snapshot)
    (htimed : call.timed = some ⟨s.now, transition⟩) :
    Follows cfg (s.begin w call transition) := by
  refine .of_move rfl (fun x _ => hidle x) h.read (hnext _) (h.sublist.cons _) fun c hc => ?_
  rw [htimed] at hc
  cases hc
  exact ⟨s.made, rfl, h.sublist⟩

theorem commanded_follows {fate : Fate} (h : Follows cfg s)
    (hs : commanded cfg s w fate (s.calls w) = some s') : Follows cfg s' := by
  have hnext := h.next w
  have nx : ∀ c : Call, (s.calls w).busy = true → c.Next cfg (replay cfg s.effective) →
      (c.timed = none ∨ c.timed = (s.calls w).timed) → Follows cfg ((s.nx fate).put w c) := by
    intro c hbusy hc htimed
    unfold State.nx
    split_ifs
    · exact h.stay hbusy rfl (Store.read_setNx _ _) rfl rfl hc htimed
    · exact h.stay hbusy rfl rfl rfl rfl hc htimed
  have del : (s.calls w).busy = true → Follows cfg ((s.del fate).put w .idle) := by
    intro hbusy
    unfold State.del
    split_ifs <;> exact h.stay hbusy rfl rfl rfl rfl trivial (.inl rfl)
  cases hw : s.calls w with
  | idle => rw [hw] at hs; cases hs
  | attempting => rw [hw] at hs; cases hs
  | allowGet now =>
      have hbusy : (s.calls w).busy = true := by rw [hw]; rfl
      rw [hw, commanded, h.read] at hs
      split_ifs at hs
      · cases hs
        unfold CircuitStore.allowGot
        simp only
        split_ifs
        · exact h.stay hbusy rfl rfl rfl rfl rfl (.inr (by rw [hw]; rfl))
        · exact h.stay hbusy rfl rfl rfl rfl trivial (.inl rfl)
        · exact h.stay hbusy rfl rfl rfl rfl trivial (.inl rfl)
      · cases hs
        exact h.stay hbusy rfl rfl rfl rfl trivial (.inl rfl)
  | allowNx now next =>
      have hbusy : (s.calls w).busy = true := by rw [hw]; rfl
      rw [hw] at hs hnext
      rw [commanded] at hs
      split_ifs at hs
      · cases hs
        exact nx _ hbusy hnext (.inr (by rw [hw]; rfl))
      · cases hs
        exact h.stay hbusy rfl rfl rfl rfl trivial (.inl rfl)
      · cases hs
        exact nx _ hbusy trivial (.inl rfl)
  | allowSet now next =>
      have htimed : (s.calls w).timed = some ⟨now, .decideAttempt⟩ := by rw [hw]; rfl
      rw [hw] at hs hnext
      cases hs
      exact h.set htimed hnext (fun _ => trivial) rfl
  | successSet now =>
      have htimed : (s.calls w).timed = some ⟨now, .onSuccess⟩ := by rw [hw]; rfl
      rw [hw] at hs
      cases hs
      refine h.set htimed rfl (fun _ => ?_) ?_
      · split_ifs <;> trivial
      · split_ifs <;> rfl
  | successDel =>
      rw [hw] at hs
      cases hs
      exact del (by rw [hw]; rfl)
  | failureGet now =>
      have hbusy : (s.calls w).busy = true := by rw [hw]; rfl
      rw [hw, commanded, h.read] at hs
      split_ifs at hs
      · cases hs
        exact h.stay hbusy rfl rfl rfl rfl rfl (.inr (by rw [hw]; rfl))
      · cases hs
        exact h.stay hbusy rfl rfl rfl rfl trivial (.inl rfl)
  | failureSet now next disable =>
      have htimed : (s.calls w).timed = some ⟨now, .onFailure⟩ := by rw [hw]; rfl
      rw [hw] at hs hnext
      cases hs
      refine h.set htimed hnext (fun _ => ?_) ?_
      · split_ifs <;> trivial
      · split_ifs <;> rfl
  | failureDel disable =>
      have hdel := del (by rw [hw]; rfl)
      rw [hw, commanded] at hs
      simp only [Option.some.injEq] at hs
      subst hs
      split_ifs
      · exact ⟨hdel.read, hdel.alone, hdel.next, hdel.sublist, hdel.current⟩
      · exact hdel

theorem step_follows (h : Follows cfg s) (hq : Sequential s a) (hs : step cfg s a = some s') :
    Follows cfg s' := by
  cases a with
  | advance ms => cases hs; exact ⟨h.read, h.alone, h.next, h.sublist, h.current⟩
  | allow w =>
      simp only [step] at hs
      split at hs
      · cases hs
        exact h.begin hq (fun _ => trivial) rfl
      · cases hs
  | report w ok =>
      simp only [step] at hs
      split at hs
      · cases hs
        split_ifs
        · exact h.begin hq (fun _ => trivial) rfl
        · exact h.begin hq (fun _ => trivial) rfl
      · cases hs
  | command w fate => exact commanded_follows h hs
  | loseValue => exact hq.elim
  | loseProbe => exact hq.elim
  | damage text => exact hq.elim

/-- **An outage drops calls from the history.**  While calls do not overlap, and whatever commands
Redis fails at: the stored text reads as the snapshot that the transitions of `circuit.ts` make
of some of the calls, in their order, namely of those whose `SET` it has executed.  So its
count is that of the effective failures since the last effective success, and the circuit is
closed as long as these are fewer than `openAfter`. -/
theorem outage_drops_calls (cfg : CircuitConfig) (hopen : 1 ≤ cfg.openAfter) (s : State W)
    (h : Path (step cfg) Sequential init s) :
    s.effective.Sublist s.made ∧ ∃ c, s.store.read = some c ∧ c = replay cfg s.effective ∧
      c.failures = failuresSince s.effective ∧
      (c.state = .closed ↔ (failuresSince s.effective : ℤ) < cfg.openAfter) := by
  have hf : Follows cfg s := h.invariant (fun _ _ _ hI hq hs => step_follows hI hq hs) follows_init
  have hm := matches_replay hopen s.effective
  exact ⟨hf.sublist, _, hf.read, rfl, hm.failures, hm.closed_iff⟩

namespace Sample

/-- One worker: `Sequential`, decided. -/
def sequential (s : State Unit) : Action Unit → Bool
  | .allow _ | .report _ _ => !(s.calls ()).busy
  | .loseValue | .loseProbe | .damage _ => false
  | _ => true

theorem sequential_of_check {s : State Unit} {a : Action Unit} (h : sequential s a = true) :
    Sequential s a := by
  cases a with
  | allow w => exact fun x => by simpa [sequential] using h
  | report w ok => exact fun x => by simpa [sequential] using h
  | loseValue => cases h
  | loseProbe => cases h
  | damage text => cases h
  | _ => trivial

/-- A failure that is stored, and one whose `SET` does not come to Redis. -/
def halfLost : List (Action Unit) :=
  failing () ++ [.allow (), .command () .answered, .report () false, .command () .answered,
    .command () .lost]

end Sample

theorem outage_drops_calls_at_lost_set : ∃ s : State Unit,
    Path (step Sample.twoFailures) Sequential init s ∧ s.made.length = 4 ∧
    s.effective.length = 1 ∧ s.effective.Sublist s.made ∧
    ∃ c, s.store.read = some c ∧ c.failures = 1 := by
  obtain ⟨s, hpath, hs⟩ := Path.exists_of_runChecked (step Sample.twoFailures)
    (p := Sample.sequential) (fun _ _ => Sample.sequential_of_check) (init : State Unit)
    Sample.halfLost
    (fun s => decide (s.made.length = 4 ∧ s.effective.length = 1 ∧
      failuresSince s.effective = 1)) (by decide +kernel)
  obtain ⟨hmade, heffective, hone⟩ := of_decide_eq_true hs
  obtain ⟨hsub, c, hread, -, hcount, -⟩ :=
    outage_drops_calls Sample.twoFailures (by decide) s hpath
  exact ⟨s, hpath, hmade, heffective, hsub, c, hread, by rw [hcount, hone]⟩

end CircuitStore
end HookRelay
