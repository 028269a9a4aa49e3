import Tickstamp.Issue.Call
import Tickstamp.Issue.Locked
/-!
# The issuer

An issuer holds a configuration and, once a worker id is bound, a locked generator. Binding another
worker goes on from the last tick as if all of its sequences were used, because the machine number
stands above the sequence: a stamp of the new machine in that tick could be smaller than the last
one of the old. Binding the worker that is bound already does nothing.
-/
namespace Tickstamp

structure Issuer where
  config : Config
  bound : Option LockedGenerator := none

namespace Issuer

def ofConfig (c : Config) : Except Fault Issuer := do
  c.validate
  return { config := c }

/-- An issuer on the system clock, which refuses an epoch after the Unix time `now`. -/
def ofSystemClock (c : Config) (now : UInt64) : Except Fault (Issuer × SystemClock) := do
  c.validate
  let clock ← c.systemClock now
  return (← ofConfig c, clock)

/-- Makes a worker the one that issues, and answers with its machine number. -/
def bind (k : Issuer) (worker : Int) : Except Fault UInt64 × Issuer :=
  match Rules.ofConfig k.config worker with
  | .error fault => (.error fault, k)
  | .ok rules =>
    match k.bound with
    | none => (.ok rules.machine, { k with bound := some { rules, progress := .fresh } })
    | some g =>
      if g.rules.machine = rules.machine then (.ok rules.machine, k)
      else
        match g.progress? with
        | .error fault => (.error fault, k)
        | .ok p =>
          let progress := p.saturate k.config.layout.maxSequence
          (.ok rules.machine, { k with bound := some { rules, progress } })

/-- Binds the worker that a source names, unless the source fails with a text. -/
def bindFrom (k : Issuer) (source : Except String Int) : Except Fault UInt64 × Issuer :=
  match source with
  | .error text => (.error (.workerProvider text), k)
  | .ok worker => k.bind worker

def worker (k : Issuer) : Except Fault UInt64 :=
  match k.bound with
  | none => .error .workerUnbound
  | some g => .ok g.rules.machine

def offer (k : Issuer) (reading : Reading) : Answer × Issuer :=
  match k.bound with
  | none => (.refused .workerUnbound, k)
  | some g =>
    let (answer, g) := g.attempt reading
    (answer, { k with bound := some g })

def textOf (k : Issuer) (s : Stamp) : Except Halt String :=
  Halt.ofExcept (k.config.layout.encodeKey s)

/-- A stamp in the form that the configuration asks for. -/
def keyOf (k : Issuer) (s : Stamp) : Except Halt Key :=
  if k.config.asString then (k.textOf s).map .text else .ok (.numeric s)

/-- The end of a request that may have issued stamps. -/
structure Run (α σ : Type) where
  result : Except Halt α
  /-- Every stamp that was issued, in order, whether or not the result shows it. -/
  issued : List Stamp
  issuer : Issuer
  clock : σ

def Run.andThen {α β σ : Type} (r : Run α σ) (f : α → Except Halt β) : Run β σ :=
  { r with result := r.result.bind f }

variable {σ : Type} [Clock σ]

/-- One stamp, for which at most `patience` polls are made. -/
def generate (k : Issuer) (patience : Nat) (clock : σ) : Run Stamp σ :=
  match k.bound with
  | none => ⟨.error (.refused .workerUnbound), [], k, clock⟩
  | some g =>
    let one := Call.next LockedGenerator.poll Call.idle patience g clock
    ⟨one.result, one.result.toOption.toList, { k with bound := some one.generator }, one.clock⟩

/-- `count` stamps in one go; no other worker can be bound before it ends. -/
def generateBatch (k : Issuer) (patience count : Nat) (clock : σ) : Run (List Stamp) σ :=
  match k.bound with
  | none => ⟨.error (.refused .workerUnbound), [], k, clock⟩
  | some g =>
    let batch := Call.batch LockedGenerator.poll patience count g clock
    ⟨batch.result, batch.issued, { k with bound := some batch.generator }, batch.clock⟩

def generateText (k : Issuer) (patience : Nat) (clock : σ) : Run String σ :=
  (k.generate patience clock).andThen k.textOf

def generateTexts (k : Issuer) (patience count : Nat) (clock : σ) : Run (List String) σ :=
  (k.generateBatch patience count clock).andThen (·.mapM k.textOf)

def generateKey (k : Issuer) (patience : Nat) (clock : σ) : Run Key σ :=
  (k.generate patience clock).andThen k.keyOf

def generateKeys (k : Issuer) (patience count : Nat) (clock : σ) : Run (List Key) σ :=
  (k.generateBatch patience count clock).andThen (·.mapM k.keyOf)

def decode (k : Issuer) (s : Stamp) : Except Fault Origin :=
  k.config.originOf s

def decodeText (k : Issuer) (text : String) : Except Fault Origin := do
  k.config.originOf (← k.config.layout.decodeKey text)

/-- Where the stamp of a key comes from; both forms are read whatever the configuration says. -/
def decodeKey (k : Issuer) : Key → Except Fault Origin
  | .numeric stamp => k.decode stamp
  | .text text => k.decodeText text

end Issuer
end Tickstamp
