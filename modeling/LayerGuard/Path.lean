import LayerGuard.Text.Split

/-! # Paths as written

A path is the text that names a file. It is kept as written; what it means is read off its
components, where repeated slashes and inner dots have vanished, a leading dot is kept and two
dots are not resolved. Two paths are compared component by component. Names are texts: a file whose
name is no UTF-8 has no path here. In a report such a name would be shown with replacement
characters, and it could not be written as JSON.
-/

namespace LayerGuard

/-- A path as written, with slashes between the names. -/
structure Path where
  text : String
  deriving DecidableEq, Repr, Inhabited

/-- A part of a path that counts. -/
inductive Component where
  | root
  | here
  | up
  | name (text : String)
  deriving DecidableEq, Repr

namespace Component

def text : Component → String
  | root => "/"
  | here => "."
  | up => ".."
  | name s => s

/-- The kinds of components in order. -/
def rank : Component → Nat
  | root => 0
  | here => 1
  | up => 2
  | name _ => 3

/-- Components are ordered by kind and then by text. -/
def cmp (a b : Component) : Ordering := (compare a.rank b.rank).then (compare a.text b.text)

/-- The component that a segment between slashes stands for; an empty one and a dot stand for
none. -/
def ofSegment? (segment : String) : Option Component :=
  if segment == "" || segment == "." then none
  else if segment == ".." then some up
  else some (name segment)

end Component

namespace Path

/-- The texts between the slashes. -/
def segments (p : Path) : List String := Text.split '/' p.text

def isAbsolute (p : Path) : Bool := Text.beginsWith p.text "/"

/-- Whether a path starts with a dot that counts. -/
def startsHere (p : Path) : Bool := p.segments.head? == some "."

def components (p : Path) : List Component :=
  (if p.isAbsolute then [.root] else if p.startsHere then [.here] else []) ++
    p.segments.filterMap Component.ofSegment?

/-- The name of the file a path leads to, unless it ends at a root or at dots. -/
def fileName? (p : Path) : Option String :=
  match p.components.getLast? with
  | some (.name s) => some s
  | _ => none

/-- A file name cut at its last dot; a dot in front is no cut. -/
def cutName (name : String) : String × Option String :=
  let cs := name.toList.reverse
  let after := cs.takeWhile (· != '.')
  match cs.drop after.length with
  | _ :: before =>
    if before.isEmpty then (name, none)
    else (String.ofList before.reverse, some (String.ofList after.reverse))
  | [] => (name, none)

/-- The file name without its extension. -/
def stem? (p : Path) : Option String := p.fileName?.map fun name => (cutName name).1

/-- What follows the last dot of the file name. -/
def extension? (p : Path) : Option String := p.fileName?.bind fun name => (cutName name).2

/-- One path continued by another; an absolute continuation stands alone. -/
def join (base next : Path) : Path :=
  if next.isAbsolute then next
  else if base.text == "" || Text.endsWith base.text "/" then ⟨base.text ++ next.text⟩
  else ⟨base.text ++ "/" ++ next.text⟩

/-- The path made of the given pieces, joined one after the other. -/
def ofPieces (pieces : List String) : Path := pieces.foldl (fun p piece => p.join ⟨piece⟩) ⟨""⟩

/-- The segments of a path in reverse, each with the mark whether it counts. -/
def markedSegments (p : Path) : List (String × Bool) :=
  match p.segments with
  | [] => []
  | first :: rest =>
    (((first, p.startsHere || (Component.ofSegment? first).isSome) ::
      rest.map fun s => (s, (Component.ofSegment? s).isSome))).reverse

/-- The path without its last component, as a beginning of the text. -/
def parent? (p : Path) : Option Path :=
  match p.components with
  | [] => none
  | [.root] => none
  | _ =>
    let kept := ((p.markedSegments.dropWhile (!·.2)).drop 1).dropWhile (!·.2)
    if kept.isEmpty && p.isAbsolute then some ⟨"/"⟩
    else some ⟨Text.join "/" (kept.reverse.map (·.1))⟩

/-- A path and its parents up to the given number. -/
def ancestorsUpTo : Nat → Path → List Path
  | 0, p => [p]
  | n + 1, p =>
    p :: match p.parent? with
      | some q => ancestorsUpTo n q
      | none => []

/-- The path as written, and then each parent in turn. -/
def ancestors (p : Path) : List Path := ancestorsUpTo p.components.length p

/-- Whether a path begins with the components of another. -/
def isBelow (p base : Path) : Bool := base.components.isPrefixOf p.components

/-- The order of paths: component by component. -/
def cmp (p q : Path) : Ordering := List.compareLex Component.cmp p.components q.components

/-- Whether `p` does not come behind `q`. -/
def le (p q : Path) : Bool := (cmp p q).isLE

end Path
end LayerGuard
