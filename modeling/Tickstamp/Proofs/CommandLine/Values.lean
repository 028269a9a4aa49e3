import Tickstamp.Proofs.Coding
import Tickstamp.Proofs.CommandLine.Settings

/-!
# What settings are worth

Every setting has a type of values, a reader of texts and a place in what is
given. An environment in which every variable can be read fills in exactly what
is not given already. The configuration of some settings is that of the settings
with the standard ones put where nothing is given; while clocks that went back
are not waited for, the largest drift does not matter. A level assigns a value
where there is none yet, at once or when it is settled. Which of several texts
cannot be read is not considered.
-/

namespace Tickstamp.CommandLine

namespace Setting

abbrev Value : Setting → Type
  | .epochMillis | .maxDriftMillis | .resetThreshold => UInt64
  | .timestampBits | .machineBits | .sequenceBits => Nat
  | .asString => Bool
  | .workerId => Int
  | .rollback => RollbackChoice

def read : (s : Setting) → String → Except UsageError s.Value
  | .epochMillis | .maxDriftMillis | .resetThreshold => readWord
  | .timestampBits | .machineBits | .sequenceBits => readWidth
  | .asString => readFlag
  | .workerId => readWorker
  | .rollback => readRollback

def value? (s : Setting) (text : String) : Option s.Value :=
  (s.read text).toOption

theorem mem_all (s : Setting) : s ∈ all := by
  cases s <;> decide

end Setting

/-- Every variable that is set has a value that can be read. -/
def Environment.Readable (env : Environment) : Prop :=
  ∀ s text, env s = some text → ∃ v, s.read text = .ok v

namespace Given

def get (g : Given) : (s : Setting) → Option s.Value
  | .epochMillis => g.epochMillis
  | .timestampBits => g.timestampBits
  | .machineBits => g.machineBits
  | .sequenceBits => g.sequenceBits
  | .asString => g.asString
  | .workerId => g.workerId
  | .rollback => g.rollback
  | .maxDriftMillis => g.maxDriftMillis
  | .resetThreshold => g.resetThreshold

def set (g : Given) : (s : Setting) → s.Value → Given
  | .epochMillis, v => { g with epochMillis := some v }
  | .timestampBits, v => { g with timestampBits := some v }
  | .machineBits, v => { g with machineBits := some v }
  | .sequenceBits, v => { g with sequenceBits := some v }
  | .asString, v => { g with asString := some v }
  | .workerId, v => { g with workerId := some v }
  | .rollback, v => { g with rollback := some v }
  | .maxDriftMillis, v => { g with maxDriftMillis := some v }
  | .resetThreshold, v => { g with resetThreshold := some v }

theorem has_eq_isSome_get (g : Given) (s : Setting) : g.has s = (g.get s).isSome := by
  cases s <;> rfl

theorem put_eq (s : Setting) (text : String) (g : Given) :
    g.put s text = (s.read text).map (g.set s) := by
  cases s <;> rfl

@[simp]
theorem get_empty (s : Setting) : ({} : Given).get s = none := by
  cases s <;> rfl

@[simp]
theorem get_set_self (g : Given) (s : Setting) (v : s.Value) : (g.set s v).get s = some v := by
  cases s <;> rfl

theorem get_set_of_ne {s s' : Setting} (other : s' ≠ s) (g : Given) (v : s.Value) :
    (g.set s v).get s' = g.get s' := by
  cases s <;> cases s' <;> first | rfl | exact absurd rfl other

theorem get_orElse (a b : Given) (s : Setting) :
    (a.orElse b).get s = (a.get s).or (b.get s) := by
  cases s <;> exact Option.orElse_eq_or ..

/-! ## Variables -/

/-- Variables that can be read are taken over where nothing is given. -/
theorem exists_ofVariables {env : Environment} (readable : env.Readable) (taken acc : Given)
    (settings : List Setting) :
    ∃ g, ofVariables env taken acc settings = .ok g ∧ ∀ s, g.get s =
      if s ∈ settings ∧ taken.get s = none then ((env s).bind s.value?).or (acc.get s)
      else acc.get s := by
  induction settings generalizing acc with
  | nil => exact ⟨acc, rfl, by simp⟩
  | cons s rest ih =>
    -- passing over a variable changes nothing if it would not have been taken over
    have skip (nothing : taken.get s = none → env s = none) :
        ∃ g, ofVariables env taken acc rest = .ok g ∧ ∀ s', g.get s' =
          if s' ∈ s :: rest ∧ taken.get s' = none then ((env s').bind s'.value?).or (acc.get s')
          else acc.get s' := by
      obtain ⟨g, made, values⟩ := ih acc
      refine ⟨g, made, fun s' => ?_⟩
      rw [values]
      by_cases same : s' = s
      · subst same
        by_cases free : taken.get s' = none
        · simp [free, nothing free]
        · simp [free]
      · simp [same]
    rw [ofVariables, has_eq_isSome_get]
    cases given : taken.get s with
    | some v => exact skip (by simp [given])
    | none =>
      cases set : env s with
      | none => exact skip (by simp [set])
      | some text =>
        obtain ⟨v, read⟩ := readable s text set
        obtain ⟨g, made, values⟩ := ih (acc.set s v)
        refine ⟨g, by simpa [put_eq, read, Except.map] using made, fun s' => ?_⟩
        rw [values]
        by_cases same : s' = s
        · subst same
          simp [given, set, Setting.value?, read, Except.toOption]
        · simp [same, get_set_of_ne same]

/-- An environment that can be read gives what is not given already. -/
theorem exists_ofEnvironment {env : Environment} (readable : env.Readable) (taken : Given) :
    ∃ g, ofEnvironment env taken = .ok g ∧ ∀ s, g.get s =
      if taken.get s = none then (env s).bind s.value? else none := by
  obtain ⟨g, made, values⟩ := exists_ofVariables readable taken {} Setting.all
  exact ⟨g, made, fun s => by simp [values, Setting.mem_all]⟩

/-! ## Configurations -/

/-- What the settings are worth that nobody gives. -/
def standard : Given where
  epochMillis := some 1477958400000
  timestampBits := some 41
  machineBits := some 10
  sequenceBits := some 12
  asString := some false
  workerId := none
  rollback := some .wait
  maxDriftMillis := some 2000
  resetThreshold := none

/-- Settings that are filled up with the standard ones make the same configuration. -/
theorem config_orElse_standard (g : Given) : (g.orElse standard).config = g.config := by
  simp only [config, orElse, standard, LagPolicy.standardLimit, Option.orElse_eq_orElse,
    Option.orElse_eq_or, Option.or_some, Option.or_none, Option.getD_some]

theorem workerId_orElse_standard (g : Given) : (g.orElse standard).workerId = g.workerId :=
  (get_orElse g standard .workerId).trans Option.or_none

/-- The configuration does not depend on the largest drift if clocks that went back are not waited
for. -/
theorem config_congr {g g' : Given}
    (same : ∀ s, (s = .maxDriftMillis → g.get .rollback ≠ some .fail) → g.get s = g'.get s) :
    g.config = g'.config := by
  have epochMillis : g.epochMillis = g'.epochMillis := same .epochMillis nofun
  have timestampBits : g.timestampBits = g'.timestampBits := same .timestampBits nofun
  have machineBits : g.machineBits = g'.machineBits := same .machineBits nofun
  have sequenceBits : g.sequenceBits = g'.sequenceBits := same .sequenceBits nofun
  have asString : g.asString = g'.asString := same .asString nofun
  have rollback : g.rollback = g'.rollback := same .rollback nofun
  have resetThreshold : g.resetThreshold = g'.resetThreshold := same .resetThreshold nofun
  have drift : g.rollback ≠ some .fail → g.maxDriftMillis = g'.maxDriftMillis := fun waits =>
    same .maxDriftMillis fun _ => waits
  by_cases fails : g.rollback = some .fail
  · rw [fails] at rollback
    simp only [config, epochMillis, timestampBits, machineBits, sequenceBits, asString, fails,
      ← rollback, resetThreshold, Option.getD_some]
  · simp only [config, epochMillis, timestampBits, machineBits, sequenceBits, asString, rollback,
      drift fails, resetThreshold]

end Given

/-! ## Invocations -/

theorem ofRequest_eq_ok_iff (r : Request) (i : Invocation) :
    Invocation.ofRequest r = .ok i ↔
      r.given.config = .ok i.config ∧ i.worker = r.given.workerId ∧ i.command = r.command := by
  obtain ⟨c, worker, command⟩ := i
  rw [Invocation.ofRequest]
  cases r.given.config with
  | error failure => simp [bind, Except.bind]
  | ok config => simp [bind, Except.bind, pure, Except.pure, eq_comm]

/-- Every value stands in its own place of an invocation. A threshold need not be given; without one
the sequence runs through half its range. -/
structure Invocation.MadeOf (i : Invocation) (value : (s : Setting) → Option s.Value) : Prop where
  epoch : value .epochMillis = some i.config.epoch
  timestampBits : value .timestampBits = some i.config.layout.timestampBits
  machineBits : value .machineBits = some i.config.layout.machineBits
  sequenceBits : value .sequenceBits = some i.config.layout.sequenceBits
  asString : value .asString = some i.config.asString
  worker : value .workerId = i.worker
  lag : value .rollback = some .fail ∧ i.config.lag = .fail ∨
    value .rollback = some .wait ∧
      ∃ limit, value .maxDriftMillis = some limit ∧ i.config.lag = .wait limit
  carryOver : i.config.carryOver = (value .resetThreshold).elim .half .upTo

theorem madeOf_orElse_standard_iff (g : Given) (i : Invocation) :
    i.MadeOf (g.orElse Given.standard).get ↔
      Layout.ofBits (g.timestampBits.getD 41) (g.machineBits.getD 10) (g.sequenceBits.getD 12) =
        .ok i.config.layout ∧ i.config = g.on i.config.layout ∧ i.worker = g.workerId := by
  obtain ⟨⟨epoch, l, asString, lag, carryOver⟩, worker, command⟩ := i
  -- a setting that nobody gives has its standard value in the configuration as well
  have filled {α : Type} (a : Option α) (d a' : α) :
      (a <|> some d) = some a' ↔ a.getD d = a' := by
    cases a <;> simp
  have policy : ((g.orElse .standard).get .rollback = some .fail ∧ lag = .fail ∨
      (g.orElse .standard).get .rollback = some .wait ∧
        ∃ limit, (g.orElse .standard).get .maxDriftMillis = some limit ∧ lag = .wait limit) ↔
      lag = (g.on l).lag := by
    simp only [Given.get, Given.orElse, Given.standard, filled, Given.on]
    cases g.rollback.getD .wait <;> simp [LagPolicy.standardLimit]
  have threshold : carryOver = ((g.orElse .standard).get .resetThreshold).elim .half .upTo ↔
      carryOver = (g.on l).carryOver := by
    simp only [Given.get, Given.orElse, Given.standard, Given.on]
    cases g.resetThreshold <;> rfl
  constructor
  · intro made
    refine ⟨(Layout.ofBits_eq_ok_iff ..).mpr ⟨?_, ?_, ?_⟩, ?_, ?_⟩
    · exact ((filled ..).mp made.timestampBits).symm
    · exact ((filled ..).mp made.machineBits).symm
    · exact ((filled ..).mp made.sequenceBits).symm
    · exact (Config.mk.injEq ..).mpr ⟨((filled ..).mp made.epoch).symm, rfl,
        ((filled ..).mp made.asString).symm, policy.mp made.lag, threshold.mp made.carryOver⟩
    · exact made.worker.symm.trans g.workerId_orElse_standard
  · rintro ⟨gate, config, worker⟩
    obtain ⟨epoch, -, asString, lag, carryOver⟩ := Config.mk.inj config
    obtain ⟨timestamp, machine, sequence⟩ := (Layout.ofBits_eq_ok_iff ..).mp gate
    exact {
      epoch := (filled ..).mpr epoch.symm
      timestampBits := (filled ..).mpr timestamp.symm
      machineBits := (filled ..).mpr machine.symm
      sequenceBits := (filled ..).mpr sequence.symm
      asString := (filled ..).mpr asString.symm
      worker := g.workerId_orElse_standard.trans worker.symm
      lag := policy.mpr lag
      carryOver := threshold.mpr carryOver }

/-- A request makes the invocation in which each of its values has its place, if that has a valid
configuration. -/
theorem ofRequest_eq_ok_iff_madeOf (r : Request) (i : Invocation) :
    Invocation.ofRequest r = .ok i ↔ i.command = r.command ∧ i.config.validate = .ok () ∧
      i.MadeOf (r.given.orElse Given.standard).get := by
  rw [ofRequest_eq_ok_iff, madeOf_orElse_standard_iff, Given.config_eq_ok_iff]
  constructor
  · rintro ⟨⟨l, gate, valid, made⟩, worker, command⟩
    obtain rfl : i.config.layout = l := congrArg Config.layout made
    exact ⟨command, made ▸ valid, gate, made, worker⟩
  · rintro ⟨command, valid, gate, made, worker⟩
    exact ⟨⟨_, gate, made ▸ valid, made⟩, worker, command⟩

/-! ## Levels -/

theorem UsageError.bind_eq_ok_iff {α β : Type} {x : Except UsageError α}
    {f : α → Except UsageError β} {b : β} : (x >>= f) = .ok b ↔ ∃ a, x = .ok a ∧ f a = .ok b := by
  cases x <;> simp [bind, Except.bind]

namespace Target

abbrev Value : Target → Type
  | .setting s => s.Value
  | .count => UInt64

def read : (t : Target) → String → Except UsageError t.Value
  | .setting s => s.read
  | .count => readWord

def value? (t : Target) (text : String) : Option t.Value :=
  (t.read text).toOption

end Target

namespace Level

def get (l : Level) : (t : Target) → Option t.Value
  | .setting s => l.given.get s
  | .count => l.count

def set (l : Level) : (t : Target) → t.Value → Level
  | .setting s, v => { l with given := l.given.set s v }
  | .count, v => { l with count := some v }

theorem get_set_self (l : Level) (t : Target) (v : t.Value) : (l.set t v).get t = some v := by
  cases t with
  | setting s => exact l.given.get_set_self s v
  | count => rfl

theorem get_set_of_ne {t t' : Target} (other : t' ≠ t) (l : Level) (v : t.Value) :
    (l.set t v).get t' = l.get t' := by
  cases t with
  | setting s =>
    cases t' with
    | setting s' => exact Given.get_set_of_ne (fun same => other (congrArg _ same)) l.given v
    | count => rfl
  | count =>
    cases t' with
    | setting s' => rfl
    | count => exact absurd rfl other

theorem has_eq_isSome_get (l : Level) (t : Target) : l.has t = (l.get t).isSome := by
  cases t with
  | setting s => exact l.given.has_eq_isSome_get s
  | count => rfl

/-- A value is assigned if it can be read and is the first one. -/
theorem assign_eq_ok_iff (l : Level) (t : Target) (text : String) (m : Level) :
    l.assign t text = .ok m ↔ l.get t = none ∧ ∃ v, t.read text = .ok v ∧ m = l.set t v := by
  rw [assign.eq_def, has_eq_isSome_get]
  cases l.get t with
  | some v => simp
  | none =>
    cases t with
    | setting s =>
      cases read : s.read text <;>
        simp [Given.put_eq, Target.read, set, read, Except.map, eq_comm]
    | count =>
      cases read : readWord text <;> simp [Target.read, set, read, Except.map, eq_comm]

/-- An option is left without a value so far. -/
def awaiting (m : Level) (t : Target) : Level :=
  { m with pending := some (t, none) }

/-- A value is left to be read later. -/
def holding (m : Level) (t : Target) (text : String) : Level :=
  { m with pending := some (t, some text) }

/-- What is assigned leaves nothing to be read later. -/
theorem assign_settled {m m' : Level} {t : Target} {text : String}
    (assigned : m.assign t text = .ok m') :
    m'.pending = m.pending ∧ m'.plain = m.plain ∧ m'.ids = m.ids := by
  obtain ⟨_, v, _, rfl⟩ := (assign_eq_ok_iff ..).mp assigned
  cases t <;> exact ⟨rfl, rfl, rfl⟩

theorem settle_of_idle {m : Level} (idle : m.pending = none) : m.settle = .ok m := by
  rw [settle.eq_def, idle]

theorem settle_holding {m : Level} (idle : m.pending = none) (t : Target) (text : String) :
    (m.holding t text).settle = m.assign t text := by
  obtain ⟨given, count, ids, pending, plain⟩ := m
  obtain rfl : pending = none := idle
  rfl

theorem idle_of_settle {l m : Level} (settled : l.settle = .ok m) :
    m.pending = none ∧ m.plain = l.plain ∧ m.ids = l.ids := by
  rw [settle.eq_def] at settled
  split at settled
  · next idle =>
    cases settled
    exact ⟨idle, rfl, rfl⟩
  · cases settled
  · exact assign_settled settled

end Level
end Tickstamp.CommandLine
