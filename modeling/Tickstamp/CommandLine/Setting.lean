import Tickstamp.Config
import Tickstamp.Text.Integer
/-!
# Settings of the command line

Nine settings can be given as options and as environment variables. `Given` holds those that one
place gives, already read; places are combined by `Given.orElse`, so which of them wins is settled
in one line wherever they meet.
-/
namespace Tickstamp.CommandLine

/-- What the command line refuses before it does anything, or answers with a text of its own. -/
inductive UsageError where
  /-- A value is no number, or not in the range of its option. -/
  | badNumber
  /-- A value is missing or none of the accepted words. -/
  | badValue
  /-- A flag is given a value. -/
  | tooManyValues
  | unknownArgument
  | missingArgument
  /-- An option is given twice at one level. -/
  | repeated
  | unknownCommand
  | missingCommand
  /-- There is nothing on the command line, so the help is shown. -/
  | nothingGiven
  | help
  | version
  deriving DecidableEq

/-- The settings, in the order in which their variables are looked up. -/
inductive Setting where
  | epochMillis
  | timestampBits
  | machineBits
  | sequenceBits
  | asString
  | workerId
  | rollback
  | maxDriftMillis
  | resetThreshold
  deriving DecidableEq

/-- What to do about a clock that went back, before the largest drift is known. -/
inductive RollbackChoice where
  | wait
  | fail
  deriving DecidableEq

namespace Setting

def all : List Setting :=
  [.epochMillis, .timestampBits, .machineBits, .sequenceBits, .asString, .workerId, .rollback,
    .maxDriftMillis, .resetThreshold]

/-- The name of the option, without its dashes. -/
def option : Setting → String
  | .epochMillis => "epoch-millis"
  | .timestampBits => "timestamp-bits"
  | .machineBits => "machine-bits"
  | .sequenceBits => "sequence-bits"
  | .asString => "as-string"
  | .workerId => "worker-id"
  | .rollback => "rollback"
  | .maxDriftMillis => "max-drift-millis"
  | .resetThreshold => "sequence-reset-threshold"

/-- The environment variable. -/
def envName : Setting → String
  | .epochMillis => "EPOCH_MILLIS"
  | .timestampBits => "TIMESTAMP_BITS"
  | .machineBits => "MACHINE_BITS"
  | .sequenceBits => "SEQUENCE_BITS"
  | .asString => "AS_STRING"
  | .workerId => "WORKER_ID"
  | .rollback => "ROLLBACK_POLICY"
  | .maxDriftMillis => "MAX_DRIFT_MILLIS"
  | .resetThreshold => "SEQUENCE_RESET_THRESHOLD"

def named? (option : String) : Option Setting :=
  all.find? (·.option == option)

end Setting

/-- The variables of the settings, as far as they are set. -/
abbrev Environment := Setting → Option String

/-- What is set for the settings among variables that are known by their names. -/
def Environment.named (vars : String → Option String) : Environment :=
  fun s => vars s.envName

/-- Numbers of 64 bits without a sign. -/
def readWord (text : String) : Except UsageError UInt64 :=
  match Text.readNatural UInt64.size text with
  | .ok n => .ok (UInt64.ofNat n)
  | .error _ => .error .badNumber

/-- Numbers from 0 to 255, which may have either sign. -/
def readWidth (text : String) : Except UsageError Nat :=
  match Text.readSigned text with
  | .ok i => if 0 ≤ i ∧ i ≤ 255 then .ok i.toNat else .error .badNumber
  | .error _ => .error .badNumber

def readWorker (text : String) : Except UsageError Int :=
  match Text.readSigned text with
  | .ok i => .ok i
  | .error _ => .error .badNumber

def readFlag (text : String) : Except UsageError Bool :=
  if text = "true" then .ok true
  else if text = "false" then .ok false
  else .error .badValue

def readRollback (text : String) : Except UsageError RollbackChoice :=
  if text = "wait" then .ok .wait
  else if text = "fail" then .ok .fail
  else .error .badValue

structure Given where
  epochMillis : Option UInt64 := none
  timestampBits : Option Nat := none
  machineBits : Option Nat := none
  sequenceBits : Option Nat := none
  asString : Option Bool := none
  workerId : Option Int := none
  rollback : Option RollbackChoice := none
  maxDriftMillis : Option UInt64 := none
  resetThreshold : Option UInt64 := none
  deriving DecidableEq

namespace Given

def has (g : Given) : Setting → Bool
  | .epochMillis => g.epochMillis.isSome
  | .timestampBits => g.timestampBits.isSome
  | .machineBits => g.machineBits.isSome
  | .sequenceBits => g.sequenceBits.isSome
  | .asString => g.asString.isSome
  | .workerId => g.workerId.isSome
  | .rollback => g.rollback.isSome
  | .maxDriftMillis => g.maxDriftMillis.isSome
  | .resetThreshold => g.resetThreshold.isSome

def put (s : Setting) (text : String) (g : Given) : Except UsageError Given :=
  match s with
  | .epochMillis => (readWord text).map fun v => { g with epochMillis := some v }
  | .timestampBits => (readWidth text).map fun v => { g with timestampBits := some v }
  | .machineBits => (readWidth text).map fun v => { g with machineBits := some v }
  | .sequenceBits => (readWidth text).map fun v => { g with sequenceBits := some v }
  | .asString => (readFlag text).map fun v => { g with asString := some v }
  | .workerId => (readWorker text).map fun v => { g with workerId := some v }
  | .rollback => (readRollback text).map fun v => { g with rollback := some v }
  | .maxDriftMillis => (readWord text).map fun v => { g with maxDriftMillis := some v }
  | .resetThreshold => (readWord text).map fun v => { g with resetThreshold := some v }

/-- What the first place gives, and of the rest what the second gives. -/
def orElse (a b : Given) : Given where
  epochMillis := a.epochMillis <|> b.epochMillis
  timestampBits := a.timestampBits <|> b.timestampBits
  machineBits := a.machineBits <|> b.machineBits
  sequenceBits := a.sequenceBits <|> b.sequenceBits
  asString := a.asString <|> b.asString
  workerId := a.workerId <|> b.workerId
  rollback := a.rollback <|> b.rollback
  maxDriftMillis := a.maxDriftMillis <|> b.maxDriftMillis
  resetThreshold := a.resetThreshold <|> b.resetThreshold

/-- What the variables of `settings` give where `taken` gives nothing; the first bad one is
reported. -/
def ofVariables (env : Environment) (taken : Given) (acc : Given) :
    List Setting → Except UsageError Given
  | [] => .ok acc
  | s :: rest =>
    if taken.has s then ofVariables env taken acc rest
    else
      match env s with
      | none => ofVariables env taken acc rest
      | some text =>
        match acc.put s text with
        | .error e => .error e
        | .ok acc => ofVariables env taken acc rest

/-- What the environment gives where `taken` gives nothing. -/
def ofEnvironment (env : Environment) (taken : Given) : Except UsageError Given :=
  ofVariables env taken {} Setting.all

def isAny (g : Given) : Bool :=
  Setting.all.any g.has

end Given
end Tickstamp.CommandLine
