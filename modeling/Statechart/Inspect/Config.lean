import Statechart.Json.Record
import Statechart.RuntimeConfig

/-!
# Settings for inspection

A JSON view of runtime configurations and of what can be wrong with them.
-/

namespace Statechart

def RuntimeConfig.inspect (c : RuntimeConfig) : Json :=
  .obj [("config", .obj [("clock", .str c.clock.text), ("defer_events", .bool c.deferEvents),
    ("dev_mode", .bool c.devMode), ("mailbox_warn_len", .nat c.mailboxWarnLen),
    ("warn_on_dropped", .bool c.warnOnDropped)]), ("valid", .bool c.validate.toBool)]

/-- Errors about files show without a message. -/
def ConfigError.inspect (e : ConfigError) : Json :=
  .obj (("error", .str e.code) :: Json.optionalField "message" .str e.message?)

/-- A configuration, or why there is none. -/
def RuntimeConfig.inspectResult : Except ConfigError RuntimeConfig → Json
  | .ok c => c.inspect
  | .error e => e.inspect

end Statechart
