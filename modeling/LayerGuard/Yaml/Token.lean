/-! # YAML tokens -/

namespace LayerGuard.Yaml

/-- A tag as written: a handle, which is empty for a tag that is given in full, and the rest of the
tag. Escaped octets are kept as the characters of their numbers. -/
structure TagName where
  handle : String
  suffix : String
  deriving DecidableEq, Repr

/-- The smallest parts of a YAML text that have a meaning; some stand for indentation alone. -/
inductive Token where
  | streamEnd
  | version (major minor : Nat)
  | tagHandle (handle stem : String)
  | documentStart
  | documentEnd
  | blockSequence
  | blockMapping
  | blockEnd
  | flowSequence
  | flowSequenceEnd
  | flowMapping
  | flowMappingEnd
  | blockEntry
  | flowEntry
  | key
  | value
  | alias (name : String)
  | anchor (name : String)
  | tag (name : TagName)
  | scalar (text : String) (isPlain : Bool)
  deriving DecidableEq, Repr

end LayerGuard.Yaml
