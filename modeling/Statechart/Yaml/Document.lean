import Statechart.Yaml.Node
import Statechart.Yaml.Token.Scan

/-!
# Documents

A text with one document, which may be empty. Directives before it say what the handles of tags
stand for.
-/

namespace Statechart.Yaml

/-- What the handles of tags stand for, unless a directive says otherwise. -/
def usualHandles : Handles := [("!", "!".toUTF8.toList), ("!!", "tag:yaml.org,2002:".toUTF8.toList)]

/-- Reads the directives before a document: the version, once at most, and handles, each once at
most. -/
def directives? (versioned : Bool) (handles : Handles) :
    List Token → Option (Handles × List Token)
  | .versionDirective major minor :: rest =>
      if versioned || major != 1 || (minor != 1 && minor != 2) then none
      else directives? true handles rest
  | .tagDirective handle start :: rest =>
      if (handles.lookup handle).isSome then none
      else directives? versioned ((handle, start) :: handles) rest
  | rest => some (handles, rest)

/-- Whether nothing is left but marks of the end. -/
def isFinished (ts : List Token) : Bool := ts.all (· == .documentEnd)

/-- Reads the node of a document, whose tokens are nested no deeper than three calls for each. -/
def content? (handles : Handles) (ts : List Token) : Option (Node × List Token) :=
  node? (handles ++ usualHandles) (3 * ts.length + 3) true false ts

/-- Reads a document that begins with directives or its mark; it may be empty. -/
def explicit? (ts : List Token) : Option (Node × List Token) := do
  match ← directives? false [] ts with
  | (handles, .documentStart :: rest) =>
      match rest with
      | [] | .documentEnd :: _ | .documentStart :: _ | .versionDirective _ _ :: _
      | .tagDirective _ _ :: _ => some (.nothing, rest)
      | _ => content? handles rest
  | _ => none

/-- Reads the document of a list of tokens. -/
def ofTokens? (ts : List Token) : Option Node := do
  let (node, rest) ← match ts with
    | [] => some (.nothing, [])
    | .documentStart :: _ | .versionDirective _ _ :: _ | .tagDirective _ _ :: _ => explicit? ts
    | _ => content? [] ts
  if isFinished rest then some node else none

/-- Reads a text with one document. -/
def parse? (text : String) : Option Node := (tokens? text).bind ofTokens?

end Statechart.Yaml
