/-!
# Tokens of YAML

The words of a YAML text. Indentation is turned into tokens that open and close block collections,
and the key of a pair is announced by a token of its own. Anchors are numbered. Tags are lists of
bytes, as they may be written with escapes for any byte.
-/

namespace Statechart.Yaml

/-- How a scalar is written. -/
inductive Style where
  | plain
  | singleQuoted
  | doubleQuoted
  | literal
  | folded
deriving DecidableEq, Inhabited

/-- A tag, or a part of one. -/
abbrev TagText := List UInt8

/-- A word of a text, or what its indentation tells. -/
inductive Token where
  | versionDirective (major minor : Nat)
  | tagDirective (handle : String) (start : TagText)
  | documentStart
  | documentEnd
  | blockSequenceStart
  | blockMappingStart
  | blockEnd
  | flowSequenceStart
  | flowSequenceEnd
  | flowMappingStart
  | flowMappingEnd
  | blockEntry
  | flowEntry
  | key
  | value
  | alias (target : Nat)
  | anchor (number : Nat)
  /-- A tag; without a handle the suffix is all of it. -/
  | tag (handle : Option String) (suffix : TagText)
  | scalar (text : String) (style : Style)
deriving DecidableEq

end Statechart.Yaml
