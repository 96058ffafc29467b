import LayerGuard.Glob
import LayerGuard.Path
import LayerGuard.Text.Blank

/-! # Ignored paths

An entry of an ignore list excludes paths below the source directory in one of three ways: a plain
name excludes every path with that component, an entry with a slash every path that begins with
its components, and a pattern every path that it matches as a whole or in one of its parents. An
entry that looks like a pattern but is none is taken by its letters. What patterns there are and
what they match is up to a matcher; where none is given they are globs.
-/

namespace LayerGuard

/-- Tells which texts are patterns, and what a pattern matches as a whole. -/
abbrev Matcher := String → Option (String → Bool)

/-- One way of excluding paths. -/
inductive IgnoreRule where
  | component (name : String)
  | below (base : Path)
  | pattern (fits : String → Bool)

namespace IgnoreRule

/-- An entry behind any number of leading `./`. -/
def dropHere : List Char → List Char
  | '.' :: '/' :: rest => dropHere rest
  | cs => cs

/-- An entry without the blanks at its ends, leading `./` and trailing slashes. -/
def clean (entry : String) : String :=
  let start := dropHere (Text.trimEnds Text.isBlank entry.toList)
  String.ofList (start.reverse.dropWhile (· == '/')).reverse

/-- Whether an entry has a character that makes it a pattern. -/
def looksLikePattern (entry : String) : Bool :=
  entry.toList.any fun c => c == '*' || c == '?' || c == '['

/-- The rule for an entry taken by its letters. -/
def plain (entry : String) : IgnoreRule :=
  if entry.toList.contains '/' then .below ⟨entry⟩ else .component entry

/-- The rule that an entry of an ignore list stands for. -/
def ofEntry? (matcher : Matcher) (entry : String) : Option IgnoreRule :=
  let entry := clean entry
  if entry == "" then none
  else if looksLikePattern entry then
    match matcher entry with
    | some fits => some (.pattern fits)
    | none => some (plain entry)
  else some (plain entry)

/-- Whether a rule excludes a path that is told from the source directory. -/
def excludes (rule : IgnoreRule) (relative : Path) : Bool :=
  match rule with
  | .component name => relative.components.any (·.text == name)
  | .below base => relative.isBelow base
  | .pattern fits => (relative.ancestors.filter (·.text != "")).any fun path => fits path.text

end IgnoreRule

/-- The rules of an ignore list. -/
structure IgnoreList where
  rules : List IgnoreRule

namespace IgnoreList

/-- The rules that the entries of a list stand for. -/
def ofEntries (entries : List String) (matcher : Matcher := Glob.matcher?) : IgnoreList :=
  ⟨entries.filterMap (IgnoreRule.ofEntry? matcher)⟩

def excludes (ignored : IgnoreList) (relative : Path) : Bool :=
  ignored.rules.any (·.excludes relative)

/-- The entries of two lists in order, without the blanks at their ends; blank and repeated ones
are left out. -/
def merge (first second : List String) : List String :=
  Text.distinct (((first ++ second).map Text.trim).filter (· != ""))

end IgnoreList
end LayerGuard
