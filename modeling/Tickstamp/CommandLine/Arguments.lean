import Tickstamp.CommandLine.Setting
/-!
# Arguments

The command line has two levels: what stands before the name of the command, and what stands after
it. Every setting may be given once at each level. An option that takes a value takes the next
argument, unless that begins with a dash; only a worker id may be negative. A value is read when
the next option or the next identifier comes, or when its level ends, and the level of the command
ends first. `--` makes everything after it an identifier.
-/
namespace Tickstamp.CommandLine

inductive Command where
  | generate (count : UInt64)
  | decode (ids : List String)
  deriving DecidableEq

inductive Place where
  | top
  | generate
  | decode
  deriving DecidableEq

/-- What takes a value. -/
inductive Target where
  | setting (s : Setting)
  | count
  deriving DecidableEq

structure Level where
  given : Given := {}
  count : Option UInt64 := none
  ids : List String := []
  /-- The option before, with its value if there is one already. -/
  pending : Option (Target × Option String) := none
  /-- There was a `--`. -/
  plain : Bool := false

namespace Level

def has (l : Level) : Target → Bool
  | .setting s => l.given.has s
  | .count => l.count.isSome

def assign (l : Level) (t : Target) (text : String) : Except UsageError Level :=
  if l.has t then .error .repeated
  else
    match t with
    | .setting s => (l.given.put s text).map fun given => { l with given }
    | .count => (readWord text).map fun n => { l with count := some n }

def settle (l : Level) : Except UsageError Level :=
  match l.pending with
  | none => .ok l
  | some (_, none) => .error .badValue
  | some (t, some text) => { l with pending := none }.assign t text

/-- An option that takes a value, with a value attached or still to come. -/
def option (l : Level) (t : Target) (attached : Option String) : Except UsageError Level := do
  let l ← l.settle
  match attached with
  | some text => l.assign t text
  | none => return { l with pending := some (t, none) }

/-- An answer with a text, once the option before has been read. -/
def inform (l : Level) (answer : UsageError) (attached : Option String) :
    Except UsageError Level :=
  if attached.isSome then .error .tooManyValues
  else
    match l.settle with
    | .error e => .error e
    | .ok _ => .error answer

def long (place : Place) (l : Level) (name : String) (attached : Option String) :
    Except UsageError Level :=
  if name = "help" then l.inform .help attached
  else if name = "version" ∧ place = .top then l.inform .version attached
  else if name = "count" ∧ place = .generate then l.option .count attached
  else
    match Setting.named? name with
    | none => .error .unknownArgument
    | some .asString =>
      if attached.isSome then .error .tooManyValues
      else do (← l.settle).assign (.setting .asString) "true"
    | some s => l.option (.setting s) attached

def short (place : Place) (l : Level) (letter : Char) (rest : List Char) :
    Except UsageError Level :=
  if letter = 'h' then l.inform .help none
  else if letter = 'V' ∧ place = .top then l.inform .version none
  else if letter = 'n' ∧ place = .generate then
    match rest with
    | [] => l.option .count none
    | '=' :: value => l.option .count (some (String.ofList value))
    | value => l.option .count (some (String.ofList value))
  else .error .unknownArgument

def awaits (l : Level) : Bool :=
  match l.pending with
  | some (_, none) => !l.plain
  | _ => false

/-- The option before takes any argument as its value. -/
def awaitsAnything (l : Level) : Bool :=
  match l.pending with
  | some (.setting .workerId, none) => !l.plain
  | _ => false

def fill (l : Level) (arg : String) : Level :=
  { l with pending := l.pending.map fun p => (p.1, some arg) }

/-- An argument that is neither an option nor its value. -/
def positional (place : Place) (l : Level) (arg : String) : Except UsageError Level :=
  match place with
  | .top => .error .unknownCommand
  | .generate => .error .unknownArgument
  | .decode => do
    let l ← l.settle
    return { l with ids := l.ids ++ [arg] }

/-- Splits at the first equals sign. -/
def splitValue (cs : List Char) : String × Option String :=
  match cs.dropWhile (· != '=') with
  | [] => (String.ofList cs, none)
  | _ :: value => (String.ofList (cs.takeWhile (· != '=')), some (String.ofList value))

/-- One argument, the names of commands apart. -/
def take (place : Place) (l : Level) (arg : String) : Except UsageError Level :=
  if l.plain then l.positional place arg
  else if l.awaitsAnything then .ok (l.fill arg)
  else
    match arg.toList with
    | ['-', '-'] => .ok { l with plain := true }
    | '-' :: '-' :: rest =>
      let (name, attached) := splitValue rest
      l.long place name attached
    | '-' :: letter :: rest => l.short place letter rest
    | _ => if l.awaits then .ok (l.fill arg) else l.positional place arg

/-- Reads what is left when a level ends, and looks up the variables that it leaves open. -/
def finish (env : Environment) (l : Level) : Except UsageError (Level × Given) := do
  let l ← l.settle
  return (l, ← Given.ofEnvironment env l.given)

end Level

/-- What has been asked for: the command and the settings of every place, the strongest first. -/
structure Request where
  command : Command
  inner : Given
  outer : Given
  environment : Given

def Request.given (r : Request) : Given :=
  (r.inner.orElse r.outer).orElse r.environment

/-- The arguments after the name of a command. -/
def takeInner (env : Environment) (place : Place) (l : Level) :
    List String → Except UsageError (Level × Given)
  | [] => do
    let (l, fromEnv) ← l.finish env
    if place = .decode ∧ l.ids = [] then throw .missingArgument
    return (l, fromEnv)
  | arg :: rest =>
    match l.take place arg with
    | .error e => .error e
    | .ok l => takeInner env place l rest

/-- A command with everything around its name. -/
def enter (env : Environment) (outer : Level) (place : Place) (args : List String)
    (command : Level → Command) : Except UsageError Request := do
  let (inner, innerEnv) ← takeInner env place {} args
  let (outer, outerEnv) ← outer.finish env
  return {
    command := command inner
    inner := inner.given
    outer := outer.given
    environment := innerEnv.orElse outerEnv }

/-- The help on a command is shown for the name of a command, or for none. -/
def helpOn : List String → UsageError
  | [] | ["generate"] | ["decode"] | ["help"] => .help
  | _ => .unknownCommand

/-- The arguments before the name of a command. After `--` no command can be named any more. -/
def takeOuter (env : Environment) (l : Level) : List String → Except UsageError Request
  | [] => do
    let (l, fromEnv) ← l.finish env
    if l.given.isAny || fromEnv.isAny then throw .missingCommand else throw .nothingGiven
  | arg :: rest =>
    if l.plain && (arg == "generate" || arg == "decode" || arg == "help") then
      .error .unknownArgument
    else if arg = "generate" ∧ !l.awaits then
      enter env l .generate rest fun inner => .generate (inner.count.getD 1)
    else if arg = "decode" ∧ !l.awaits then
      enter env l .decode rest fun inner => .decode inner.ids
    else if arg = "help" ∧ !l.awaits then .error (helpOn rest)
    else
      match l.take .top arg with
      | .error e => .error e
      | .ok l => takeOuter env l rest

def Request.read (env : Environment) (args : List String) : Except UsageError Request :=
  takeOuter env {} args

end Tickstamp.CommandLine
