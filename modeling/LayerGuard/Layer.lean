import LayerGuard.Text.Split

/-! # Layers

A layer is a namespace prefix together with the prefixes it may use. Prefixes are compared
character by character and not by segments: a layer that may use `App\Use` may use `App\User`.
-/

namespace LayerGuard

/-- A layer: its name and the prefixes that it may use, each listed once. -/
structure Layer where
  name : String
  children : List String
  deriving DecidableEq, Repr, Inhabited

namespace Layer

def separator : Char := '\\'

/-- The layer with the given name and children; a repeated child keeps its first place. -/
def make (name : String) (children : List String) : Layer := ⟨name, Text.distinct children⟩

/-- A layer is strict if it lists itself. It then uses nothing that no layer owns, except what the
runtime provides. -/
def isStrict (l : Layer) : Bool := l.children.contains l.name

/-- Whether some child is the beginning of a name. -/
def admits (l : Layer) (name : String) : Bool := l.children.any (Text.beginsWith name)

/-- Whether the layer's name is the beginning of a namespace. -/
def owns (l : Layer) (name : String) : Bool := Text.beginsWith name l.name

/-- A name without the root namespace and the separator behind it; a name outside the root stays
as it is. -/
def withoutRoot (name root : String) : String :=
  if name == root then ""
  else ((Text.behind? root name).bind (Text.behind? separator.toString)).getD name

end Layer
end LayerGuard
