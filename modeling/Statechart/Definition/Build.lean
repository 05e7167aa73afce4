import Statechart.Checksum
import Statechart.Definition.Basic
import Statechart.Definition.Reader
import Statechart.Definition.Writer

/-!
# Building definitions

`Definition.build` turns a written definition into a built one. The states are laid out in document
order, checked for their kinds and for repeated ids, and then linked: names of targets, initial
states and actions are resolved state by state. The first fault found in this order is the error.
-/

namespace Statechart

/-! ## Layout -/

/-- A written state at its place in the document. -/
structure Outline where
  index : Nat
  key : String
  parent : Option Nat
  /-- The keys from the root, root left out. -/
  path : List String
  children : List Nat
  subtreeEnd : Nat
  attributes : StateAttributes

namespace StateConfig

mutual

/-- How many states a tree has. -/
def size : StateConfig → Nat
  | .node _ none => 1
  | .node _ (some states) => sizeAll states + 1

def sizeAll : List (String × StateConfig) → Nat
  | [] => 0
  | (_, state) :: rest => size state + sizeAll rest

end

/-- The positions of neighbouring states, of which the first stands at `index`. -/
def positions (index : Nat) : List (String × StateConfig) → List Nat
  | [] => []
  | (_, state) :: rest => index :: positions (index + size state) rest

mutual

/-- A tree in document order, beginning at `index`. -/
def layout (index : Nat) (key : String) (parent : Option Nat) (path : List String) :
    StateConfig → List Outline
  | .node attributes none =>
      [{ index, key, parent, path, children := [], subtreeEnd := index + 1, attributes }]
  | .node attributes (some states) =>
      { index, key, parent, path, children := positions (index + 1) states
        subtreeEnd := index + 1 + sizeAll states, attributes } ::
        layoutAll (index + 1) index path states

def layoutAll (index parent : Nat) (path : List String) :
    List (String × StateConfig) → List Outline
  | [] => []
  | (key, state) :: rest =>
      layout index key (some parent) (path ++ [key]) state ++
        layoutAll (index + size state) parent path rest

end

end StateConfig

/-! ## Checks -/

namespace Outline

/-- A state without an id of its own has the machine's id and its path. -/
def id (machine : String) (o : Outline) : String :=
  match o.attributes.id with
  | some id => id
  | none => Text.joinDots (machine :: o.path)

/-- A state is of the kind written, of history if it says so, else compound if it has children. -/
def kind (o : Outline) : StateKind :=
  match o.attributes.kind with
  | some kind => kind
  | none =>
      if o.attributes.history.isSome then .history
      else if o.children.isEmpty then .atomic else .compound

/-- What is wrong with a state of its kind. -/
def kindFault? (o : Outline) : Option String :=
  match o.kind, o.children.isEmpty with
  | .compound, true => some "has no child states"
  | .parallel, true => some "has no child states"
  | .atomic, false => some "cannot have child states"
  | .final, false => some "cannot have child states"
  | .history, false => some "cannot have child states"
  | .final, true => if o.parent.isNone then some "cannot be the root state" else none
  | .history, true => if o.parent.isNone then some "cannot be the root state" else none
  | _, _ => none

/-- Finds the first state of a wrong kind or with an id that was used before. -/
def check (machine : String) (used : List String) : List Outline → Except BuildError Unit
  | [] => .ok ()
  | o :: rest =>
      let id := o.id machine
      match o.kindFault? with
      | some fault => .error (.invalidDefinition ("state '" ++ id ++ "' " ++ fault))
      | none =>
          if id ∈ used then .error (.duplicateId id)
          else check machine (id :: used) rest

/-- The state before anything in it is linked. -/
def toNode {L : Type} (machine : String) (o : Outline) : StateNode L where
  index := o.index
  id := o.id machine
  key := o.key
  kind := o.kind
  parent := o.parent
  children := o.children
  initial := none
  entry := []
  exit := []
  invoke := []
  transitions := []
  tags := o.attributes.tags
  output := o.attributes.output
  history := if o.kind = .history then some (o.attributes.history.getD .shallow) else none
  historyDefault := []
  description := o.attributes.description
  metadata := o.attributes.metadata
  depth := o.path.length
  subtreeEnd := o.subtreeEnd

end Outline

/-! ## Guards and actions -/

namespace GuardConfig

mutual

def compile : GuardConfig → Except BuildError Guard
  | .named name => .ok (.named name .null)
  | .expr text =>
      match Guard.Expr.parse text with
      | .ok e => .ok (.expr e)
      | .error fault => .error (.invalidGuard fault)
  | .not inner => do .ok (.not (← compile inner))
  | .and guards => do .ok (.and (← compileAll guards))
  | .or guards => do .ok (.or (← compileAll guards))
  | .stateIn id => .ok (.stateIn id)
  | .parameterized name params => .ok (.named name params)

def compileAll : List GuardConfig → Except BuildError (List Guard)
  | [] => .ok []
  | g :: rest => do
      let guard ← compile g
      let guards ← compileAll rest
      .ok (guard :: guards)

end

def compileOption : Option GuardConfig → Except BuildError (Option Guard)
  | none => .ok none
  | some g => do .ok (some (← compile g))

end GuardConfig

namespace ActionConfig

variable {L : Type}

mutual

def compile : ActionConfig → Except BuildError (Action L)
  | .named name => .ok (.named name .null)
  | .parameterized name params => .ok (.named name params)
  | .assign assignment =>
      .ok (.assign (.keys (assignment.map fun field => (field.1, .fixed field.2))))
  | .raise event delay id =>
      .ok (.raise (.fixed event.toEvent) (delay.map DelayConfig.toDelay) id)
  | .sendTo target event delay id =>
      .ok (.sendTo (.parse target) (.fixed event.toEvent) (delay.map DelayConfig.toDelay) id)
  | .sendParent event delay id =>
      .ok (.sendTo .parent (.fixed event.toEvent) (delay.map DelayConfig.toDelay) id)
  | .log label message => .ok (.log label (message.map .fixed))
  | .cancel id => .ok (.cancel id)
  | .stopChild id => .ok (.stop id)
  | .spawnChild source id systemId input =>
      .ok (.spawn (.key source) id systemId (.fixed (input.getD .null)))
  | .choose branches => do .ok (.choose (← compileBranches branches))

def compileBranches :
    List (BranchConfig ActionConfig) → Except BuildError (List (Branch (Action L)))
  | [] => .ok []
  | ⟨guard, actions⟩ :: rest => do
      let guard ← GuardConfig.compileOption guard
      let actions ← compileAll actions
      let branches ← compileBranches rest
      .ok ({ guard, actions } :: branches)

def compileAll : List ActionConfig → Except BuildError (List (Action L))
  | [] => .ok []
  | a :: rest => do
      let action ← compile a
      let actions ← compileAll rest
      .ok (action :: actions)

end

end ActionConfig

/-! ## Targets -/

namespace Definition

variable {L : Type} (nodes : Array (StateNode L))

def nodeAt (index : Nat) : StateNode L := nodes[index]?.getD default

/-- The position of the state with exactly this id. -/
def findId? (id : String) : Option Nat := nodes.toList.findIdx? fun n => n.id == id

/-- Follows keys downwards. -/
def descend? (start : Nat) : List String → Option Nat
  | [] => some start
  | key :: rest => do
      let child ← (nodeAt nodes start).children.find? fun c => (nodeAt nodes c).key == key
      descend? child rest

/-- An id, or else the longest beginning of the text that is an id and a path below that state. -/
def resolveId? (text : String) : Option Nat :=
  match findId? nodes text with
  | some index => some index
  | none =>
      let pieces := Text.splitDots text
      (List.range pieces.length).reverse.findSome? fun i =>
        -- Longest beginning first: an id with dots in it hides a path of the same text.
        if i = 0 then none
        else do
          let base ← findId? nodes (Text.joinDots (pieces.take i))
          descend? nodes base (pieces.drop i)

/-- `#` begins an id, a dot a path below the source, anything else a path beside the source. -/
def resolveTarget (source : Nat) (target : String) : Except BuildError Nat :=
  let found :=
    match Text.stripStart? "#" target with
    | some id => resolveId? nodes id
    | none =>
    match Text.stripStart? "." target with
    | some path => descend? nodes source (Text.splitDots path)
    | none => descend? nodes ((nodeAt nodes source).parent.getD source) (Text.splitDots target)
  match found with
  | some index => .ok index
  | none => .error (.unknownTarget (nodeAt nodes source).id target)

def resolveTargets (source : Nat) : List String → Except BuildError (List Nat)
  | [] => .ok []
  | target :: rest => do
      let index ← resolveTarget nodes source target
      let others ← resolveTargets source rest
      .ok (index :: others)

/-- The initial child of a compound state, which is one of its children and no history state. -/
def resolveInitial (n : StateNode L) (a : StateAttributes) : Except BuildError Nat :=
  match a.initial with
  | none => .error (.missingInitial n.id)
  | some initial =>
      -- The name may be written like a path that begins at the state.
      let key := Text.dropLeading '.' initial
      match n.children.find? fun c =>
          (nodeAt nodes c).key == key && !(nodeAt nodes c).isHistory with
      | some c => .ok c
      | none => .error (.invalidInitial n.id initial)

/-- Only compound states have an initial child. -/
def initialOf (n : StateNode L) (a : StateAttributes) : Except BuildError (Option Nat) :=
  if n.kind = .compound then some <$> resolveInitial nodes n a else pure none

/-- Only history states have defaults. -/
def historyDefaultOf (n : StateNode L) (a : StateAttributes) : Except BuildError (List Nat) :=
  if n.kind = .history then resolveTargets nodes n.index a.target else pure []

/-! ## Linking -/

def linkTransition (source : Nat) (event : Descriptor) (delay : Option Delay)
    (t : TransitionConfig) : Except BuildError (Transition L) := do
  let targets ← resolveTargets nodes source t.target
  let guard ← GuardConfig.compileOption t.guard
  let actions ← ActionConfig.compileAll t.actions
  .ok {
    index := 0, source, event, targets, forbidden := false, guard, actions, reenter := t.reenter
    delay, description := t.description }

def linkTransitions (source : Nat) (event : Descriptor) (delay : Option Delay) :
    List TransitionConfig → Except BuildError (List (Transition L))
  | [] => .ok []
  | t :: rest => do
      let first ← linkTransition nodes source event delay t
      let others ← linkTransitions source event delay rest
      .ok (first :: others)

/-- A transition that takes an event away without doing anything. -/
def forbiddenTransition (source : Nat) (event : Descriptor) : Transition L where
  index := 0
  source := source
  event := event
  targets := []
  forbidden := true
  guard := none
  actions := []
  reenter := false
  delay := none
  description := none

/-- The transitions written under `on`. -/
def linkOn (source : Nat) :
    List (String × Option (List TransitionConfig)) → Except BuildError (List (Transition L))
  | [] => .ok []
  | (event, none) :: rest => do
      let others ← linkOn source rest
      .ok (forbiddenTransition source (.parse event) :: others)
  | (event, some ts) :: rest => do
      let first ← linkTransitions nodes source (.parse event) none ts
      let others ← linkOn source rest
      .ok (first ++ others)

/-- The name of the event that drives a delayed transition of a state. -/
def afterEvent (key id : String) : String := Event.afterStart ++ key ++ "." ++ id

/-- The transitions written under `after`. -/
def linkAfter (source : Nat) (id : String) :
    List (String × List TransitionConfig) → Except BuildError (List (Transition L))
  | [] => .ok []
  | (key, ts) :: rest => do
      let first ←
        linkTransitions nodes source (.exact (afterEvent key id)) (some (.parse key)) ts
      let others ← linkAfter source id rest
      .ok (first ++ others)

/-- The id of the actor that a state invokes in the given place. -/
def invocationId (id : String) (place : Nat) (i : InvokeConfig) : String :=
  i.id.getD (id ++ ":invocation[" ++ toString place ++ "]")

/-- The transitions written at invocations, of which the first stands at `place`. -/
def linkInvoke (source : Nat) (id : String) (place : Nat) :
    List InvokeConfig → Except BuildError (List (Transition L))
  | [] => .ok []
  | i :: rest => do
      let actor := invocationId id place i
      let done ← linkTransitions nodes source (.exact (Event.doneActorStart ++ actor)) none
        (i.onDone.getD [])
      let failed ← linkTransitions nodes source (.exact (Event.platformErrorStart ++ actor)) none
        (i.onError.getD [])
      let others ← linkInvoke source id (place + 1) rest
      .ok (done ++ failed ++ others)

/-- Entering a state starts its timers. -/
def afterEntry (id : String) (key : String) : Action L :=
  let event := afterEvent key id
  .raise (.fixed (Event.named event)) (some (.parse key)) (some event)

/-- Entering a state starts the actors it invokes. -/
def invokeEntry (id : String) (i : InvokeConfig × Nat) : Action L :=
  .spawn (.key i.1.source) (some (invocationId id i.2 i.1)) i.1.systemId
    (.fixed (i.1.input.getD .null))

/-- Links one state: the state itself and the transitions that leave from it. -/
def linkNode (n : StateNode L) (a : StateAttributes) :
    Except BuildError (StateNode L × List (Transition L)) := do
  let initial ← initialOf nodes n a
  let historyDefault ← historyDefaultOf nodes n a
  let entry ← ActionConfig.compileAll a.entry
  let exit ← ActionConfig.compileAll a.exit
  let timers := (a.after.getD []).map (·.1)
  let invoked := a.invoke.zipIdx
  let on ← linkOn nodes n.index (a.on.getD [])
  let after ← linkAfter nodes n.index n.id (a.after.getD [])
  let always ← linkTransitions nodes n.index .eventless none (a.always.getD [])
  let onDone ←
    linkTransitions nodes n.index (.exact (Event.doneStateStart ++ n.id)) none (a.onDone.getD [])
  let invoke ← linkInvoke nodes n.index n.id 0 a.invoke
  -- What timers and invocations add comes after the actions that are written out.
  let linked : StateNode L := { n with
    initial, historyDefault
    entry := entry ++ timers.map (afterEntry n.id) ++ invoked.map (invokeEntry n.id)
    exit := exit ++ timers.map (fun key => .cancel (afterEvent key n.id)) ++
      invoked.map (fun i => .stop (invocationId n.id i.2 i.1))
    invoke := invoked.map fun i => { id := invocationId n.id i.2 i.1, source := i.1.source } }
  .ok (linked, on ++ after ++ always ++ onDone ++ invoke)

/-- Links states one after the other. -/
def linkAll : List (StateNode L × StateAttributes) →
    Except BuildError (List (StateNode L) × List (Transition L))
  | [] => .ok ([], [])
  | (n, a) :: rest => do
      let (linked, ts) ← linkNode nodes n a
      let (others, more) ← linkAll rest
      .ok (linked :: others, ts ++ more)

/-- Numbers the transitions in order. -/
def number (ts : List (Transition L)) : List (Transition L) :=
  ts.zipIdx.map fun t => { t.1 with index := t.2 }

/-- The id of a machine whose root has none. -/
def defaultId : String := "machine"

/-- Builds a written definition. -/
def build (raw : MachineConfig) : Except BuildError (Definition L) := do
  let id := raw.root.attributes.id.getD defaultId
  let outlines := raw.root.layout 0 id none []
  Outline.check id [] outlines
  let nodes : List (StateNode L) := outlines.map (Outline.toNode id)
  let (linked, ts) ← linkAll nodes.toArray (nodes.zip (outlines.map (·.attributes)))
  let transitions := number ts
  .ok {
    id, context := raw.context, strict := raw.strict
    nodes := (linked.map fun n =>
      { n with transitions := (transitions.filter (·.source == n.index)).map (·.index) }).toArray
    transitions := transitions.toArray
    raw
    checksum := Checksum.ofString raw.toJson.text }

/-- Builds a definition from a JSON document. -/
def ofJson (j : Json) : Except BuildError (Definition L) :=
  match MachineConfig.ofJson? j with
  | some raw => build raw
  | none => .error .malformed

/-- Builds a definition from a JSON text. -/
def ofText (text : String) : Except BuildError (Definition L) :=
  match MachineConfig.ofText? text with
  | some raw => build raw
  | none => .error .malformed

/-- The definition as it was written. -/
def toJson (d : Definition L) : Json := d.raw.toJson

end Definition

end Statechart
