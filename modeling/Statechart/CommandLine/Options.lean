import Statechart.Text.Split

/-!
# Options

What is asked for on the command line: the file with the machine, the events to send, and options
between them in any order. After `--` everything is a file or an event.
-/

namespace Statechart.CommandLine

structure Options where
  /-- The file with the machine. -/
  machine : String
  events : List String := []
  /-- The actor's input, as JSON text. -/
  input : Option String := none
  /-- The file with a stored snapshot to go on from. -/
  restore : Option String := none
  /-- How many milliseconds to wait for delayed events in the end. -/
  settleMs : Nat := 0
  /-- Whether to print the snapshot in its stored form. -/
  persist : Bool := false
deriving DecidableEq, Inhabited

/-- What is printed for help. -/
def usage : String :=
  "Run a statechart definition against a sequence of events\n\n" ++
  "Usage: rstchart [OPTIONS] <MACHINE> [EVENTS]...\n\n" ++
  "Arguments:\n" ++
  "  <MACHINE>    Machine definition (JSON file)\n" ++
  "  [EVENTS]...  Events to send in order, as NAME or NAME=<json payload>\n\n" ++
  "Options:\n" ++
  "  -i, --input <INPUT>          Actor input (JSON)\n" ++
  "      --restore <RESTORE>      Persisted snapshot to resume from (JSON file)\n" ++
  "      --settle-ms <SETTLE_MS>  Milliseconds to wait for delayed transitions after the last " ++
  "event [default: 0]\n" ++
  "      --persist                Print the persisted snapshot instead of the state value\n" ++
  "  -h, --help                   Print help\n" ++
  "  -V, --version                Print version"

def versionText : String := "rstchart 0.1.0"

inductive Request where
  | run (options : Options)
  | help
  | version
deriving DecidableEq

/-- What is wrong with a command line. -/
inductive UsageError where
  | unknownOption (text : String)
  | missingValue (option : String)
  | repeated (option : String)
  | badNumber (text : String)
  | noMachine
deriving DecidableEq

def UsageError.message : UsageError → String
  | .unknownOption text => "unexpected argument '" ++ text ++ "' found"
  | .missingValue option => "a value is required for '" ++ option ++ "' but none was supplied"
  | .repeated option => "the argument '" ++ option ++ "' cannot be used multiple times"
  | .badNumber text => "invalid value '" ++ text ++ "' for '--settle-ms <SETTLE_MS>'"
  | .noMachine => "the following required arguments were not provided: <MACHINE>"

/-- What has been read so far. -/
structure Seen where
  positional : List String := []
  input : Option String := none
  restore : Option String := none
  settleMs : Option Nat := none
  persist : Bool := false

namespace Seen

def setInput (seen : Seen) (value : String) : Except UsageError Seen :=
  if seen.input.isSome then .error (.repeated "--input <INPUT>")
  else .ok { seen with input := some value }

/-- Names the file to restore from; no file has an empty name. -/
def setRestore (seen : Seen) (value : String) : Except UsageError Seen :=
  if value = "" then .error (.missingValue "--restore <RESTORE>")
  else if seen.restore.isSome then .error (.repeated "--restore <RESTORE>")
  else .ok { seen with restore := some value }

def setSettle (seen : Seen) (value : String) : Except UsageError Seen :=
  if seen.settleMs.isSome then .error (.repeated "--settle-ms <SETTLE_MS>")
  else match Text.natBelow? UInt64.size value with
    | some n => .ok { seen with settleMs := some n }
    | none => .error (.badNumber value)

def setPersist (seen : Seen) : Except UsageError Seen :=
  if seen.persist then .error (.repeated "--persist") else .ok { seen with persist := true }

/-- Adds an argument that is no option. The first one names a file, so it is not empty. -/
def addPositional (seen : Seen) (text : String) : Except UsageError Seen :=
  if text = "" ∧ seen.positional.isEmpty then .error (.missingValue "<MACHINE>")
  else .ok { seen with positional := seen.positional ++ [text] }

end Seen

/-- How an option with a value takes it. -/
def withValue? (name : String) : Option (Seen → String → Except UsageError Seen) :=
  if name = "--input" ∨ name = "-i" then some Seen.setInput
  else if name = "--restore" then some Seen.setRestore
  else if name = "--settle-ms" then some Seen.setSettle
  else none

/-- Whether an argument looks like an option. -/
def isOption (text : String) : Bool := Text.startsWith "-" text && text != "-"

/-- A long option with its value after an equals sign. -/
def splitValue (text : String) : String × Option String :=
  let name := text.toList.takeWhile (· ≠ '=')
  match text.toList.drop name.length with
  | _ :: value => (String.ofList name, some (String.ofList value))
  | [] => (text, none)

/-- The value written right after a short option. -/
def shortValue? (text : String) : Option String :=
  match text.toList with
  | '-' :: 'i' :: '=' :: value => some (String.ofList value)
  | '-' :: 'i' :: c :: value => some (String.ofList (c :: value))
  | _ => none

/-- Reads arguments in order. -/
def scan : Seen → List String → Except UsageError (Request ⊕ Seen)
  | seen, [] => .ok (.inr seen)
  | seen, arg :: rest =>
      if arg = "--" then (rest.foldlM Seen.addPositional seen).map .inr
      else if !isOption arg then
        match seen.addPositional arg with
        | .ok seen => scan seen rest
        | .error e => .error e
      else if arg = "--help" ∨ Text.startsWith "-h" arg then .ok (.inl .help)
      else if arg = "--version" ∨ Text.startsWith "-V" arg then .ok (.inl .version)
      else if arg = "--persist" then
        match seen.setPersist with
        | .ok seen => scan seen rest
        | .error e => .error e
      else match shortValue? arg with
        | some value =>
            match seen.setInput value with
            | .ok seen => scan seen rest
            | .error e => .error e
        | none =>
            let (name, value) := splitValue arg
            match withValue? name, value, rest with
            | none, _, _ => .error (.unknownOption arg)
            | some set, some value, rest =>
                match set seen value with
                | .ok seen => scan seen rest
                | .error e => .error e
            | some _, none, [] => .error (.missingValue name)
            | some set, none, value :: rest =>
                if isOption value then .error (.missingValue name)
                else match set seen value with
                  | .ok seen => scan seen rest
                  | .error e => .error e

/-- Reads a command line. -/
def parse (args : List String) : Except UsageError Request :=
  match scan {} args with
  | .error e => .error e
  | .ok (.inl request) => .ok request
  | .ok (.inr seen) =>
      match seen.positional with
      | [] => .error .noMachine
      | machine :: events =>
          .ok (.run {
            machine, events, input := seen.input, restore := seen.restore
            settleMs := seen.settleMs.getD 0, persist := seen.persist })

end Statechart.CommandLine
