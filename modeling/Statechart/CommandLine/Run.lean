import Statechart.Actor.Calls
import Statechart.CommandLine.Options
import Statechart.Definition.Build
import Statechart.Json.Parser

/-!
# Running a machine from the command line

A machine is read from a file, started as an actor, and sent events in order; then delayed events
get their time, and the state that is reached is printed.
-/

namespace Statechart.CommandLine

/-- Why nothing is printed. -/
inductive Failure where
  | config (e : ConfigError)
  | unreadable (file : String)
  | definition (e : BuildError)
  /-- A text that should be JSON is not. -/
  | notJson (text : String)
  | notSnapshot (file : String)
  | actor (e : ActorError)

def Failure.message : Failure → String
  | .config e => e.message?.getD e.code
  | .unreadable file => "cannot read '" ++ file ++ "'"
  | .definition e => e.message
  | .notJson text => "not a JSON text: '" ++ text ++ "'"
  | .notSnapshot file => "no stored snapshot in '" ++ file ++ "'"
  | .actor e => e.message

/-- What the program finds around it. -/
structure Surrounding where
  environment : RuntimeConfig.Environment
  fileText : String → Option String

/-- The configuration. Where no file is named, settings that do not fit together do not count. -/
def configuration (around : Surrounding) : Except Failure RuntimeConfig :=
  match RuntimeConfig.load around.environment around.fileText with
  | .ok c => .ok c
  | .error e =>
      if (around.environment RuntimeConfig.fileVariable).isSome then .error (.config e) else .ok {}

def readJson (text : String) : Except Failure Json :=
  match Json.ofText? text with
  | some j => .ok j
  | none => .error (.notJson text)

/-- An event as it is written: a name, or a name and the payload as JSON after an equals sign. -/
def readEvent (arg : String) : Except Failure Event :=
  let name := arg.toList.takeWhile (· ≠ '=')
  match arg.toList.drop name.length with
  | [] => .ok (.named arg)
  | _ :: payload => do
      let data ← readJson (String.ofList payload)
      .ok { name := String.ofList name, data }

def readMachine (around : Surrounding) (file : String) : Except Failure (Definition Logic) :=
  match around.fileText file with
  | none => .error (.unreadable file)
  | some text => (Definition.ofText text).mapError .definition

def readSnapshot (around : Surrounding) (file : String) : Except Failure PersistedSnapshot :=
  match around.fileText file with
  | none => .error (.unreadable file)
  | some text =>
      match PersistedSnapshot.ofText? text with
      | some stored => .ok stored
      | none => .error (.notSnapshot file)

/-- Reads something that may be left out. -/
def optional {α : Type} (read : String → Except Failure α) :
    Option String → Except Failure (Option α)
  | none => .ok none
  | some text => (read text).map some

/-- The system after a call, if it went well. -/
def check (r : System × Except ActorError Unit) : Except Failure System :=
  match r.2 with
  | .ok () => .ok r.1
  | .error e => .error (.actor e)

/-- Sends events in order. -/
def sendAll (s : Session) : System → List String → Except Failure System
  | sys, [] => .ok sys
  | sys, arg :: rest => do
      let event ← readEvent arg
      let sys ← check (sys.perform s (.send event))
      sendAll s sys rest

/-- Takes note of a failure, so that it does not end the program. -/
def watcher : Observer where
  next := some fun _ _ => .done ()
  error := some fun _ => .done ()

/-- Gives delayed events their time. -/
def settle (sys : System) (ms : Nat) : System := sys.fireUnattended.pass ms

/-- What is printed of the state that was reached. -/
def summary (s : Snapshot) : Json :=
  match s with
  | .machine m =>
      .obj [("value", m.value.toJson), ("context", m.context), ("status", .str m.status.text),
        ("output", m.output.getD .null)]
  | .value v => v.context

/-- What is printed. -/
def run (around : Surrounding) (o : Options) : Except Failure Json := do
  let config ← configuration around
  let definition ← readMachine around o.machine
  let input ← optional readJson o.input
  let snapshot ← optional (readSnapshot around) o.restore
  let sys : System := { config, clock := { simulated := false } }
  let (sys, made) :=
    spawn sys (.machine definition .empty) { input := input.getD .null, snapshot }
  match made with
  | .error e => .error (.actor e)
  | .ok s => do
      let (sys, _) := { sys with kept := [s] : System }.subscribe s watcher
      let sys ← check (sys.perform s .start)
      let sys ← sendAll s sys o.events
      let sys := settle sys o.settleMs
      if o.persist then
        match sys.store s with
        | .ok stored => .ok stored.toJson
        | .error e => .error (.actor e)
      else .ok (summary (sys.actor s).snapshot)

end Statechart.CommandLine
