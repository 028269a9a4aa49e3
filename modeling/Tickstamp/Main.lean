import Std.Time.DateTime.Timestamp
import Tickstamp.CommandLine.Invocation
import Tickstamp.CommandLine.Usage
/-!
# The program

Reads the variables and the clock of the machine, and prints. Everything else is in the library.
-/
namespace Tickstamp

open CommandLine

/-- Unix time in milliseconds; a time before 1970 counts as zero. -/
def unixMillis : IO UInt64 := do
  let now ← Std.Time.Timestamp.now
  return UInt64.ofNat now.toMillisecondsSinceUnixEpoch.val.toNat

def environment : IO Environment := do
  let values ← Setting.all.mapM fun s => return (s.envName, ← IO.getEnv s.envName)
  return .named fun name => (values.lookup name).join

/-- Passes the time that a poll asks for; short waits end at once. -/
def backOff (millis : UInt64) : IO Unit :=
  if 10 < millis then IO.sleep (min millis 0xFFFFFFFF).toUInt32 else pure ()

partial def follow : Phase → IO Output
  | .finished output => return output
  | .waits millis job => do
    backOff millis
    follow (job.poll (.shows (← unixMillis)))

end Tickstamp

open Tickstamp CommandLine in
def main (args : List String) : IO UInt32 := do
  match Request.read (← environment) args with
  | .error e =>
    if e.exitCode = 0 then IO.println e.message else IO.eprintln e.message
    return e.exitCode
  | .ok request =>
    match Invocation.ofRequest request with
    | .error failure =>
      IO.eprintln s!"Error: {failure.message}"
      return 1
    | .ok i =>
      let output ← follow (i.start (.shows (← unixMillis)))
      output.lines.forM IO.println
      match output.failure with
      | none => return 0
      | some failure =>
        IO.eprintln s!"Error: {failure.message}"
        return 1
