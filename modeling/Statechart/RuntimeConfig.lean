import Statechart.Text.LowerCase
import Statechart.Text.Split
import Statechart.Yaml.Document

/-!
# Runtime configuration

The settings of an actor system: whether missing implementations and lost events are reported,
whether events wait for an actor that has not started, which clock a new system uses, and how long a
mailbox may grow before it is reported. Settings are read from a file, and then from variables of
the environment.
-/

namespace Statechart

inductive ClockKind where
  /-- The time of day. -/
  | system
  /-- A clock that only moves when it is told to. -/
  | simulated
deriving DecidableEq, Inhabited

structure RuntimeConfig where
  devMode : Bool := false
  deferEvents : Bool := true
  warnOnDropped : Bool := true
  clock : ClockKind := .system
  mailboxWarnLen : Nat := 10000
deriving DecidableEq, Inhabited

/-- Why no configuration could be had. -/
inductive ConfigError where
  /-- A file cannot be read or written. -/
  | io
  /-- A file holds no configuration. -/
  | parse
  | validation (reason : String)
deriving DecidableEq

namespace ConfigError

def code : ConfigError → String
  | .io => "IO_ERROR"
  | .parse => "PARSE_ERROR"
  | .validation _ => "VALIDATION_ERROR"

def message? : ConfigError → Option String
  | .validation reason => some ("configuration validation failed: " ++ reason)
  | _ => none

end ConfigError

namespace ClockKind

def text : ClockKind → String
  | .system => "system"
  | .simulated => "simulated"

def ofText? : String → Option ClockKind
  | "system" => some .system
  | "simulated" => some .simulated
  | _ => none

@[simp] theorem ofText?_text (k : ClockKind) : ofText? k.text = some k := by
  cases k <;> rfl

/-- Reads a clock in any mixture of capital and small letters. -/
def parse (s : String) : Except ConfigError ClockKind :=
  let name := Text.lower s
  match ofText? name with
  | some k => .ok k
  | none => .error (.validation ("unknown clock '" ++ name ++ "'"))

end ClockKind

namespace RuntimeConfig

/-- Checks settings that can be written but make no sense. -/
def validate (c : RuntimeConfig) : Except ConfigError Unit :=
  if c.mailboxWarnLen = 0 then
    .error (.validation "mailbox_warn_len must be greater than zero")
  else .ok ()

/-! ## Files -/

/-- The names of the settings in a file, in order. -/
def fieldNames : List String :=
  ["dev_mode", "defer_events", "warn_on_dropped", "clock", "mailbox_warn_len"]

/-! ### Scalars -/

/-- The text of a plain scalar, or of a literal block that is tagged as being of a type. -/
def typedText? (type : String) : Yaml.Node → Option String
  | .scalar p text style =>
      if style = .plain ∨ (style = .literal ∧
          p.tag = some ("tag:yaml.org,2002:" ++ type).toUTF8.toList) then some text
      else none
  | _ => none

def flagOfNode? (node : Yaml.Node) : Option Bool := do
  let text ← typedText? "bool" node
  if ["true", "True", "TRUE"].contains text then some true
  else if ["false", "False", "FALSE"].contains text then some false
  else none

def digitBelow? (base : Nat) (c : Char) : Option Nat :=
  let n := if c.isDigit then some (c.toNat - '0'.toNat)
    else if 'a' ≤ c ∧ c ≤ 'f' then some (c.toNat - 'a'.toNat + 10)
    else if 'A' ≤ c ∧ c ≤ 'F' then some (c.toNat - 'A'.toNat + 10)
    else none
  n.bind fun d => if d < base then some d else none

/-- A number in a base, below 2^64. -/
def digits? (base : Nat) (cs : List Char) : Option Nat := do
  if cs.isEmpty then none
  let ds ← cs.mapM (digitBelow? base)
  let n := ds.foldl (fun n d => n * base + d) 0
  if n < UInt64.size then some n else none

/-- A whole number: decimal without needless zeros, or with the mark of another base. -/
def natOfText? (s : String) : Option Nat :=
  let cs := match s.toList with
    | '+' :: rest => rest
    | cs => cs
  match cs with
  | '0' :: 'x' :: rest => digits? 16 rest
  | '0' :: 'o' :: rest => digits? 8 rest
  | '0' :: 'b' :: rest => digits? 2 rest
  -- A zero in front of other digits marks no base.
  | '0' :: _ :: _ => none
  | _ => digits? 10 cs

def natOfNode? (node : Yaml.Node) : Option Nat := (typedText? "int" node).bind natOfText?

/-- What follows the exclamation mark of a tag that begins with one, if it is a text. -/
def localName? : Yaml.TagText → Option String
  | 33 :: name => String.fromUTF8? ⟨name.toArray⟩
  | _ => none

/-- Whether a text stands for nothing. -/
def isNullText (text : String) : Bool := ["", "null", "Null", "NULL", "~"].contains text

/-- A clock is named by the scalar, or by a tag of its own before a scalar for nothing. -/
def clockOfNode? : Yaml.Node → Option ClockKind
  | .scalar p text style =>
      match p.tag.bind localName? with
      | none => ClockKind.ofText? text
      | some name => if style = .plain ∧ isNullText text then ClockKind.ofText? name else none
  | _ => none

/-! ### Settings -/

/-- What an alias stands for. -/
def resolve? (anchored : List (Nat × Yaml.Node)) : Yaml.Node → Option Yaml.Node
  | .alias n => anchored.lookup n
  | node => some node

/-- The entries of a mapping by name; a setting may be given once only. Where a key is an alias, it
stands for a scalar. -/
def entries? (anchored : List (Nat × Yaml.Node)) :
    List (Yaml.Node × Yaml.Node) → Option (List (String × Yaml.Node))
  | [] => some []
  | (keyNode, value) :: rest => do
      match ← resolve? anchored keyNode with
      | .scalar _ key _ =>
          let others ← entries? anchored rest
          if fieldNames.contains key && others.any fun e => e.1 == key then none
          else some ((key, value) :: others)
      | _ => none

/-- The settings of a document by name. An empty document has none. -/
def settings? (anchored : List (Nat × Yaml.Node)) :
    Yaml.Node → Option (List (String × Yaml.Node))
  | .mapping _ entries => entries? anchored entries
  | .scalar _ "" .plain => some []
  | _ => none

/-- One setting, or its usual value. -/
def setting? {α : Type} (anchored : List (Nat × Yaml.Node)) (settings : List (String × Yaml.Node))
    (name : String) (usual : α) (read : Yaml.Node → Option α) : Option α :=
  match settings.lookup name with
  | some node => (resolve? anchored node).bind read
  | none => some usual

def ofNode? (node : Yaml.Node) : Option RuntimeConfig := do
  let anchored := node.anchored []
  let settings ← settings? anchored node
  let devMode ← setting? anchored settings "dev_mode" false flagOfNode?
  let deferEvents ← setting? anchored settings "defer_events" true flagOfNode?
  let warnOnDropped ← setting? anchored settings "warn_on_dropped" true flagOfNode?
  let clock ← setting? anchored settings "clock" .system clockOfNode?
  let mailboxWarnLen ← setting? anchored settings "mailbox_warn_len" 10000 natOfNode?
  some { devMode, deferEvents, warnOnDropped, clock, mailboxWarnLen }

/-- Reads the text of a file, if there is one. -/
def ofFile : Option String → Except ConfigError RuntimeConfig
  | none => .error .io
  | some text =>
      match (Yaml.parse? text).bind ofNode? with
      | some c => .ok c
      | none => .error .parse

def flagText (b : Bool) : String := if b then "true" else "false"

/-- The text to store, one setting a line. -/
def text (c : RuntimeConfig) : String :=
  "dev_mode: " ++ flagText c.devMode ++ "\ndefer_events: " ++ flagText c.deferEvents ++
    "\nwarn_on_dropped: " ++ flagText c.warnOnDropped ++ "\nclock: " ++ c.clock.text ++
    "\nmailbox_warn_len: " ++ toString c.mailboxWarnLen ++ "\n"

/-! ## The environment -/

/-- The variables of the environment. -/
abbrev Environment := String → Option String

/-- `1` and `true` in any letters are yes, all else is no. -/
def flagOfText (s : String) : Bool := s == "1" || Text.lower s == "true"

/-- Names the file with the settings. -/
def fileVariable : String := "RSTCHART_CONFIG"

/-- Puts settings from the environment in place of others. A clock or a length that cannot be read
does not count. -/
def withEnvironment (env : Environment) (c : RuntimeConfig) : RuntimeConfig where
  devMode := ((env "RSTCHART_DEV_MODE").map flagOfText).getD c.devMode
  deferEvents := ((env "RSTCHART_DEFER_EVENTS").map flagOfText).getD c.deferEvents
  warnOnDropped := ((env "RSTCHART_WARN_ON_DROPPED").map flagOfText).getD c.warnOnDropped
  clock := ((env "RSTCHART_CLOCK").bind fun s => (ClockKind.parse s).toOption).getD c.clock
  mailboxWarnLen :=
    ((env "RSTCHART_MAILBOX_WARN_LEN").bind (Text.natBelow? UInt64.size)).getD c.mailboxWarnLen

/-- The settings of the environment alone. -/
def ofEnvironment (env : Environment) : RuntimeConfig := withEnvironment env {}

/-- The settings of the file that the environment names, if it does, and of the environment. -/
def load (env : Environment) (fileText : String → Option String) :
    Except ConfigError RuntimeConfig := do
  let base ← match env fileVariable with
    | some path => ofFile (fileText path)
    | none => .ok {}
  let c := withEnvironment env base
  c.validate
  return c

end RuntimeConfig

end Statechart
