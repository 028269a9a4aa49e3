import Tickstamp.CommandLine.Setting
/-!
# Usage

What is shown to a user whose command line is not run.
-/
namespace Tickstamp.CommandLine

def Setting.usage (s : Setting) : String :=
  s!"  --{s.option} [env: {s.envName}]"

def usage : String :=
  "\n".intercalate (
    ["Usage: tickstamp [OPTIONS] generate [-n COUNT]",
      "       tickstamp [OPTIONS] decode [--] ID...",
      "",
      "Options:"] ++ Setting.all.map Setting.usage)

def UsageError.message : UsageError → String
  | .badNumber => "error: a value is no number in the range of its option"
  | .badValue => "error: a value is missing or not one of the accepted words"
  | .tooManyValues => "error: an option takes no value"
  | .unknownArgument => "error: unexpected argument"
  | .missingArgument => "error: no identifier to decode"
  | .repeated => "error: an option is given twice"
  | .unknownCommand => "error: unrecognized command"
  | .missingCommand => "error: no command"
  | .nothingGiven | .help => usage
  | .version => "tickstamp 0.1.0"

def UsageError.exitCode : UsageError → UInt32
  | .help | .version => 0
  | _ => 2

end Tickstamp.CommandLine
