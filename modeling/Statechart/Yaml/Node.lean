import Statechart.Yaml.Token

/-!
# Nodes

The tree of a document and how it is read from tokens. Anchors are numbered, and an alias stands for
a number; where several nodes have it, the last of them is meant.

Where nothing stands for a key, a value or an item, there is an empty plain scalar.
-/

namespace Statechart.Yaml

/-- What may stand before a node. -/
structure Properties where
  anchor : Option Nat := none
  tag : Option TagText := none

inductive Node where
  | alias (target : Nat)
  | scalar (properties : Properties) (text : String) (style : Style)
  | sequence (properties : Properties) (items : List Node)
  | mapping (properties : Properties) (entries : List (Node × Node))

namespace Node

/-- What stands where nothing is written. -/
def nothing : Node := .scalar {} "" .plain

instance : Inhabited Node := ⟨nothing⟩

/-! ## Anchors -/

/-- Adds a node to those with an anchor, if it has one. -/
def addAnchor (p : Properties) (node : Node) (found : List (Nat × Node)) : List (Nat × Node) :=
  match p.anchor with
  | some n => (n, node) :: found
  | none => found

mutual

/-- The nodes with an anchor by their numbers, from the last one to the first, before those that
were found already. -/
def anchored (found : List (Nat × Node)) : Node → List (Nat × Node)
  | .alias _ => found
  | .scalar p text style => addAnchor p (.scalar p text style) found
  | .sequence p items => anchoredItems (addAnchor p (.sequence p items) found) items
  | .mapping p entries => anchoredEntries (addAnchor p (.mapping p entries) found) entries

def anchoredItems (found : List (Nat × Node)) : List Node → List (Nat × Node)
  | [] => found
  | item :: items => anchoredItems (anchored found item) items

def anchoredEntries (found : List (Nat × Node)) : List (Node × Node) → List (Nat × Node)
  | [] => found
  | (key, value) :: entries => anchoredEntries (anchored (anchored found key) value) entries

end

end Node

/-! ## Properties -/

/-- What the handles of tags stand for. -/
abbrev Handles := List (String × TagText)

/-- The whole tag; none if its handle has no meaning. -/
def wholeTag? (handles : Handles) (handle : Option String) (suffix : TagText) : Option TagText :=
  match handle with
  | none => some suffix
  | some handle => (handles.lookup handle).map (· ++ suffix)

/-- An anchor and a tag, in either order. -/
def properties? (handles : Handles) :
    List Token → Option (Properties × List Token)
  | .anchor n :: .tag handle suffix :: rest => do
      some ({ anchor := some n, tag := some (← wholeTag? handles handle suffix) }, rest)
  | .tag handle suffix :: .anchor n :: rest => do
      some ({ anchor := some n, tag := some (← wholeTag? handles handle suffix) }, rest)
  | .anchor n :: rest => some ({ anchor := some n }, rest)
  | .tag handle suffix :: rest => do
      some ({ tag := some (← wholeTag? handles handle suffix) }, rest)
  | rest => some ({}, rest)

/-! ## Collections -/

/-- Whether nothing stands for an item of a block sequence. -/
def noBlockItem : List Token → Bool
  | .blockEntry :: _ | .blockEnd :: _ | .key :: _ | .value :: _ => true
  | _ => false

/-- Whether nothing stands for a key or a value of a block mapping. -/
def noBlockPart : List Token → Bool
  | .key :: _ | .value :: _ | .blockEnd :: _ => true
  | _ => false

/-- Whether nothing stands for a value in a flow collection that ends with `close`. -/
def noFlowValue (close : Token) : List Token → Bool
  | [] => false
  | t :: _ => t == .flowEntry || t == close

/-- Whether nothing stands for a key in a flow collection that ends with `close`. -/
def noFlowKey (close : Token) : List Token → Bool
  | [] => false
  | t :: _ => t == .value || t == .flowEntry || t == close

/-- Takes the comma before all items but the first. -/
def separated? (first : Bool) (ts : List Token) : Option (List Token) :=
  if first then some ts
  else match ts with
    | .flowEntry :: rest => some rest
    | _ => none

mutual

/-- Reads a node. `block` tells that it may be a block collection, and `level` that it may be a
block sequence at the level of the mapping around. -/
def node? (handles : Handles) : Nat → Bool → Bool → List Token →
    Option (Node × List Token)
  | 0, _, _, _ => none
  | _ + 1, _, _, .alias n :: rest => some (.alias n, rest)
  | fuel + 1, block, level, ts => do
      let (p, ts) ← properties? handles ts
      -- Properties with nothing after them belong to an empty scalar.
      let bare := if p.anchor.isSome || p.tag.isSome then some (.scalar p "" .plain, ts) else none
      match ts with
      | .scalar text style :: rest => some (.scalar p text style, rest)
      | .flowSequenceStart :: rest => do
          let (items, rest) ← flowItems? handles fuel [] rest
          some (.sequence p items, rest)
      | .flowMappingStart :: rest => do
          let (entries, rest) ← flowEntries? handles fuel [] rest
          some (.mapping p entries, rest)
      | .blockSequenceStart :: rest =>
          if block then do
            let (items, rest) ← blockItems? handles fuel [] rest
            match rest with
            | .blockEnd :: rest => some (.sequence p items, rest)
            | _ => none
          else bare
      | .blockEntry :: _ =>
          if level then do
            let (items, rest) ← blockItems? handles fuel [] ts
            some (.sequence p items, rest)
          else bare
      | .blockMappingStart :: rest =>
          if block then do
            let (entries, rest) ← blockEntries? handles fuel [] rest
            some (.mapping p entries, rest)
          else bare
      | _ => bare

/-- Reads the items of a block sequence, as long as there are dashes. -/
def blockItems? (handles : Handles) : Nat → List Node → List Token →
    Option (List Node × List Token)
  | 0, _, _ => none
  | fuel + 1, done, .blockEntry :: rest => do
      let (item, rest) ←
        if noBlockItem rest then some (.nothing, rest) else node? handles fuel true false rest
      blockItems? handles fuel (item :: done) rest
  | _ + 1, done, ts => some (done.reverse, ts)

/-- Reads the entries of a block mapping up to its end. -/
def blockEntries? (handles : Handles) : Nat → List (Node × Node) → List Token →
    Option (List (Node × Node) × List Token)
  | 0, _, _ => none
  | fuel + 1, done, .key :: rest => do
      let (key, rest) ←
        if noBlockPart rest then some (.nothing, rest) else node? handles fuel true true rest
      match rest with
      | .value :: rest => do
          let (value, rest) ←
            if noBlockPart rest then some (.nothing, rest) else node? handles fuel true true rest
          blockEntries? handles fuel ((key, value) :: done) rest
      | _ => blockEntries? handles fuel ((key, .nothing) :: done) rest
  | _ + 1, done, .blockEnd :: rest => some (done.reverse, rest)
  | _ + 1, _, _ => none

/-- Reads the items of a flow sequence up to its end. An item may be a single pair, as a mapping; if
nothing stands for its key, the token that ends the key does not count. -/
def flowItems? (handles : Handles) : Nat → List Node → List Token →
    Option (List Node × List Token)
  | 0, _, _ => none
  | _ + 1, done, .flowSequenceEnd :: rest => some (done.reverse, rest)
  | fuel + 1, done, ts => do
      match ← separated? done.isEmpty ts with
      | .flowSequenceEnd :: rest => some (done.reverse, rest)
      | .key :: rest => do
          let (key, rest) ←
            if noFlowKey .flowSequenceEnd rest then some (.nothing, rest.drop 1)
            else node? handles fuel false false rest
          let (value, rest) ← match rest with
            | .value :: rest =>
                if noFlowValue .flowSequenceEnd rest then some (.nothing, rest)
                else node? handles fuel false false rest
            | _ => some (.nothing, rest)
          flowItems? handles fuel (.mapping {} [(key, value)] :: done) rest
      | rest => do
          let (item, rest) ← node? handles fuel false false rest
          flowItems? handles fuel (item :: done) rest

/-- Reads the entries of a flow mapping up to its end. -/
def flowEntries? (handles : Handles) : Nat → List (Node × Node) → List Token →
    Option (List (Node × Node) × List Token)
  | 0, _, _ => none
  | _ + 1, done, .flowMappingEnd :: rest => some (done.reverse, rest)
  | fuel + 1, done, ts => do
      match ← separated? done.isEmpty ts with
      | .flowMappingEnd :: rest => some (done.reverse, rest)
      | .key :: rest => do
          let (key, rest) ←
            if noFlowKey .flowMappingEnd rest then some (.nothing, rest)
            else node? handles fuel false false rest
          let (value, rest) ← match rest with
            | .value :: rest =>
                if noFlowValue .flowMappingEnd rest then some (.nothing, rest)
                else node? handles fuel false false rest
            | _ => some (.nothing, rest)
          flowEntries? handles fuel ((key, value) :: done) rest
      | rest => do
          let (key, rest) ← node? handles fuel false false rest
          flowEntries? handles fuel ((key, .nothing) :: done) rest

end

end Statechart.Yaml
