import Statechart.Error

/-!
# Records

What becomes visible outside while actors run: lines that supplied functions report, values that
machines log, and notices of the runtime itself about actors and missing pieces.
-/

namespace Statechart

inductive Level where
  | info
  | warn
  | error
deriving DecidableEq

def Level.text : Level → String
  | .info => "info"
  | .warn => "warn"
  | .error => "error"

/-- A message of the runtime. Actors are named by their ids. -/
inductive Notice where
  | actorStarted (actor session : String)
  | actorDone (actor : String)
  | actorStopped (actor session : String)
  | unhandledActorError (actor error : String)
  | unhandledTimerError (error : String)
  | unhandledOutside (error : String)
  | eventDropped (actor event : String)
  | mailboxBackingUp (actor : String) (queued : Nat)
  | missingImplementation (actor kind name : String)
  | timerDeliveryFailed (actor error : String)
  | stopFailed (actor error : String)
  | otherDefinition (machine expected found : String)
  | inlineChildSkipped (machine child : String)
  | unknownChildSkipped (machine child source : String)
  | systemIdReplaced (systemId : String)
  | advanceWithoutControl
deriving DecidableEq

namespace Notice

def level : Notice → Level
  | .actorStarted _ _ => .info
  | .actorDone _ => .info
  | .actorStopped _ _ => .info
  | .unhandledActorError _ _ => .error
  | .unhandledTimerError _ => .error
  | _ => .warn

def message : Notice → String
  | .actorStarted _ _ => "actor started"
  | .actorDone _ => "actor done"
  | .actorStopped _ _ => "actor stopped"
  | .unhandledActorError _ _ => "unhandled actor error"
  | .unhandledTimerError _ => "unhandled error from timer"
  | .unhandledOutside _ => "unhandled error outside a delivery"
  | .eventDropped _ _ => "event sent to stopped actor dropped"
  | .mailboxBackingUp _ _ => "mailbox is backing up"
  | .missingImplementation _ _ _ => "missing implementation, skipping"
  | .timerDeliveryFailed _ _ => "timer delivery failed"
  | .stopFailed _ _ => "stop failed"
  | .otherDefinition _ _ _ => "snapshot was taken from a different definition"
  | .inlineChildSkipped _ _ => "inline child cannot be restored, skipping"
  | .unknownChildSkipped _ _ _ => "no actor implementation, skipping"
  | .systemIdReplaced _ => "system id already registered, replacing"
  | .advanceWithoutControl => "advance called on a non-simulated clock"

/-- What the message is about, by name. -/
def fields : Notice → List (String × Json)
  | .actorStarted actor session => [("actor", .str actor), ("session", .str session)]
  | .actorDone actor => [("actor", .str actor)]
  | .actorStopped actor session => [("actor", .str actor), ("session", .str session)]
  | .unhandledActorError actor error => [("actor", .str actor), ("error", .str error)]
  | .unhandledTimerError error => [("error", .str error)]
  | .unhandledOutside error => [("error", .str error)]
  | .eventDropped actor event => [("actor", .str actor), ("event", .str event)]
  | .mailboxBackingUp actor queued => [("actor", .str actor), ("queued", .nat queued)]
  | .missingImplementation actor kind name =>
      [("actor", .str actor), ("kind", .str kind), ("name", .str name)]
  | .timerDeliveryFailed actor error => [("actor", .str actor), ("error", .str error)]
  | .stopFailed actor error => [("actor", .str actor), ("error", .str error)]
  | .otherDefinition machine expected found =>
      [("machine", .str machine), ("expected", .str expected), ("found", .str found)]
  | .inlineChildSkipped machine child => [("machine", .str machine), ("child", .str child)]
  | .unknownChildSkipped machine child source =>
      [("machine", .str machine), ("child", .str child), ("src", .str source)]
  | .systemIdReplaced systemId => [("system_id", .str systemId)]
  | .advanceWithoutControl => []

end Notice

inductive Record where
  | line (content : Json)
  | logged (label : Option String) (actor : String) (value : Json)
  | notice (n : Notice)
deriving DecidableEq

end Statechart
