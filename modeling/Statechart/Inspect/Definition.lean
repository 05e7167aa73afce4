import Statechart.Configuration
import Statechart.Definition.Build

/-!
# Definitions for inspection

A JSON view of built definitions, with guards, actions, states and transitions as they were
understood. What is computed by a supplied function shows as `"dynamic"`, and a supplied predicate
as `"predicate"`; what is absent shows as null.
-/

namespace Statechart

/-! ## Errors -/

def inspectError (code message : String) : Json :=
  .obj [("error", .str code), ("message", .str message)]

/-- A document that is no definition shows without a message. -/
def BuildError.inspect (e : BuildError) : Json :=
  match e with
  | .malformed => .obj [("error", .str e.code)]
  | _ => inspectError e.code e.message

def ActorError.inspect (e : ActorError) : Json := inspectError e.code e.message

/-! ## Guards -/

namespace Guard

/-- A bound beyond all doubles shows as a text. -/
def inspectNumber (x : Float) : Json :=
  if x.isInf then .str (infinityText x) else .num (.float x)

def Scope.name : Scope → String
  | .context => "ctx"
  | .event => "event"

def Field.inspect (f : Field) : Json := .arr [.str f.scope.name, .str (Text.joinDots f.path)]

def Literal.inspect : Literal → Json
  | .null => .null
  | .bool b => .bool b
  | .str s => .str s
  | .num x => inspectNumber x

def Order.text : Order → String
  | .lt => "<"
  | .le => "<="
  | .gt => ">"
  | .ge => ">="

def Expr.inspect : Expr → Json
  | .truthy f => .obj [("truthy", f.inspect)]
  | .eq f literal => .obj [("eq", .arr [f.inspect, literal.inspect])]
  | .ne f literal => .obj [("ne", .arr [f.inspect, literal.inspect])]
  | .compare f order bound =>
      .obj [("cmp", .arr [f.inspect, .str order.text, inspectNumber bound])]
  | .and a b => .obj [("and", .arr [a.inspect, b.inspect])]
  | .or a b => .obj [("or", .arr [a.inspect, b.inspect])]
  | .not e => .obj [("not", e.inspect)]

mutual

def inspect : Guard → Json
  | .named name params => .obj [("named", .str name), ("params", params)]
  | .expr e => .obj [("expr", e.inspect)]
  | .predicate _ => .str "predicate"
  | .not inner => .obj [("not", inspect inner)]
  | .and guards => .obj [("and", .arr (inspectAll guards))]
  | .or guards => .obj [("or", .arr (inspectAll guards))]
  | .stateIn id => .obj [("stateIn", .str id)]

def inspectAll : List Guard → List Json
  | [] => []
  | g :: rest => inspect g :: inspectAll rest

end

end Guard

/-! ## Actions -/

def ValueExpr.inspect : ValueExpr → Json
  | .fixed value => .obj [("static", value)]
  | .computed _ => .str "dynamic"

def EventExpr.inspect : EventExpr → Json
  | .fixed event => .obj [("static", event.toJson)]
  | .computed _ => .str "dynamic"

def Assigner.inspect : Assigner → Json
  | .fixed value => .obj [("static", value)]
  | .computed _ => .str "dynamic"

def Assignment.inspect : Assignment → Json
  | .reducer _ => .str "reducer"
  | .keys assigners => .arr (assigners.map fun (key, a) => .arr [.str key, a.inspect])

def Delay.inspect : Delay → Json
  | .ms n => .obj [("ms", .nat n)]
  | .named name => .obj [("named", .str name)]

/-- A behaviour given in place shows as its kind. -/
def LogicSource.inspect {L : Type} (kind : L → String) : LogicSource L → Json
  | .key name => .str name
  | .inline logic => .obj [("inline", .str (kind logic))]

namespace Action

variable {L : Type} (kindOf : L → String)

def inspectTiming (event : EventExpr) (delay : Option Delay) (id : Option String) :
    List (String × Json) :=
  [("event", event.inspect), ("delay", .ofOption Delay.inspect delay),
    ("id", .ofOption .str id)]

mutual

def inspectBody : Action L → Json
  | .named _ params => .obj [("named", .bool true), ("params", params)]
  | .assign assignment => assignment.inspect
  | .raise event delay id => .obj (inspectTiming event delay id)
  | .sendTo target event delay id =>
      .obj (("to", .str target.text) :: inspectTiming event delay id)
  | .log label value =>
      .obj [("label", .ofOption .str label), ("value", .ofOption ValueExpr.inspect value)]
  | .spawn source id systemId input =>
      .obj [("src", source.inspect kindOf), ("id", .ofOption .str id),
        ("systemId", .ofOption .str systemId), ("input", input.inspect)]
  | .stop id => .obj [("id", .str id)]
  | .cancel id => .obj [("id", .str id)]
  | .choose branches => .arr (inspectBranches branches)
  | .enqueue _ => .str "dynamic"
  | .custom _ => .str "dynamic"

def inspectBranches : List (Branch (Action L)) → List Json
  | [] => []
  | ⟨guard, actions⟩ :: rest =>
      .obj [("guard", .ofOption Guard.inspect guard), ("actions", .arr (inspectAll actions))] ::
        inspectBranches rest

def inspectAll : List (Action L) → List Json
  | [] => []
  | a :: rest => .arr [.str a.kind, inspectBody a] :: inspectAll rest

end

/-- An action with the name under which it is recorded. -/
def inspect (action : Action L) : Json := .arr [.str action.kind, action.inspectBody kindOf]

end Action

/-! ## States and transitions -/

def Descriptor.kind : Descriptor → String
  | .exact _ => "exact"
  | .family _ => "partial"
  | .wildcard => "wildcard"
  | .eventless => "eventless"

def Descriptor.inspect (d : Descriptor) : Json := .arr [.str d.kind, .str d.text]

def Json.strings (texts : List String) : Json := .arr (texts.map .str)

def Json.nats (ns : List Nat) : Json := .arr (ns.map .nat)

namespace Definition

variable {L : Type} (kindOf : L → String) (d : Definition L)

/-- The names of the events that a state listens for by name. -/
def eventsOf (n : StateNode L) : List String :=
  SortedSet.ofList <| n.transitions.filterMap fun t =>
    match (d.transition t).event with
    | .exact name => some name
    | _ => none

def inspectNode (n : StateNode L) : Json :=
  .obj [("index", .nat n.index), ("id", .str n.id), ("key", .str n.key),
    ("kind", .str n.kind.text), ("parent", .ofOption .nat n.parent),
    ("children", .nats n.children), ("initial", .ofOption .nat n.initial),
    ("entry", .arr (Action.inspectAll kindOf n.entry)),
    ("exit", .arr (Action.inspectAll kindOf n.exit)),
    ("invoke", .arr (n.invoke.map fun i => .strings [i.id, i.source])),
    ("transitions", .nats n.transitions), ("tags", .strings n.tags),
    ("output", n.output.getD .null), ("history", .ofOption (fun h => .str h.text) n.history),
    ("historyDefault", .nats n.historyDefault), ("description", .ofOption .str n.description),
    ("meta", n.metadata.getD .null), ("depth", .nat n.depth), ("events", .strings (d.eventsOf n)),
    ("eventless", .nats (d.eventless n.index)), ("atomic", .bool n.isAtomic),
    ("final", .bool n.isFinal), ("isHistory", .bool n.isHistory)]

def inspectTransition (t : Transition L) : Json :=
  .obj [("index", .nat t.index), ("source", .nat t.source), ("event", t.event.inspect),
    ("targets", .nats t.targets), ("targetless", .bool t.isTargetless),
    ("forbidden", .bool t.forbidden), ("guard", .ofOption Guard.inspect t.guard),
    ("actions", .arr (Action.inspectAll kindOf t.actions)), ("reenter", .bool t.reenter),
    ("delay", .ofOption Delay.inspect t.delay), ("description", .ofOption .str t.description)]

/-- A set of states, with all that is said of it as a configuration. -/
def inspectConfiguration (config : Configuration) : Json :=
  .obj [("config", .nats config.toList), ("value", (d.stateValue config).toJson),
    ("tags", .strings (d.tags config)), ("leaves", .nats (d.leaves config)),
    ("valid", .bool (d.isValid config)),
    ("final", .nats ((List.range d.nodes.size).filter (d.isInFinalState config)))]

def inspect : Json :=
  .obj [("id", .str d.id), ("context", d.context), ("strict", .bool d.strict),
    ("checksum", .str d.checksum), ("events", .strings d.events), ("root", .str d.root.id),
    ("raw", d.toJson), ("nodes", .arr (d.nodes.toList.map (d.inspectNode kindOf))),
    ("transitions", .arr (d.transitions.toList.map (inspectTransition kindOf)))]

end Definition

end Statechart
