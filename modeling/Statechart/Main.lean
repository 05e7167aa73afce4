import Statechart.CommandLine.Run

/-!
# The program

Runs a machine from a file against events from the command line, and prints the state that it
reaches.
-/

namespace Statechart.CommandLine

/-- The text of a file, if it can be read. -/
def fileText? (path : String) : IO (Option String) := do
  try
    return some (← IO.FS.readFile path)
  catch _ => return none

/-- The settings in the environment. -/
def environmentNames : List String :=
  [RuntimeConfig.fileVariable, "RSTCHART_DEV_MODE", "RSTCHART_DEFER_EVENTS",
    "RSTCHART_WARN_ON_DROPPED", "RSTCHART_CLOCK", "RSTCHART_MAILBOX_WARN_LEN"]

/-- Reads all that the options name. -/
def surrounding (o : Options) : IO Surrounding := do
  let settings ← environmentNames.filterMapM fun name => do
    return (← IO.getEnv name).map fun value => (name, value)
  let named := [some o.machine, o.restore, settings.lookup RuntimeConfig.fileVariable]
  let files ← (named.filterMap id).filterMapM fun path => do
    return (← fileText? path).map fun text => (path, text)
  return { environment := fun name => settings.lookup name,
           fileText := fun path => files.lookup path }

/-- Carries out a request and gives the exit code. -/
def carryOut : Request → IO UInt32
  | .help => do
      IO.println usage
      return 0
  | .version => do
      IO.println versionText
      return 0
  | .run o => do
      match run (← surrounding o) o with
      | .ok j =>
          IO.sleep (UInt32.ofNat o.settleMs)
          IO.println j.prettyText
          return 0
      | .error e =>
          IO.eprintln ("Error: " ++ e.message)
          return 1

end Statechart.CommandLine

open Statechart.CommandLine in
def main (args : List String) : IO UInt32 := do
  match parse args with
  | .ok request => carryOut request
  | .error e =>
      IO.eprintln ("error: " ++ e.message)
      return 2
