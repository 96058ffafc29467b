import LayerGuard.Architecture

/-! # Who may use what

A layer may always use itself and what its children admit. What no layer owns is open to every
layer that is not strict, and to a strict one if it is built in. Which names are built in is up to
the policy: any test of names will do.
-/

namespace LayerGuard

/-- The rules by which references are judged. -/
structure Policy where
  architecture : Architecture
  isBuiltin : String → Bool

namespace Policy

/-- The name by which a reference is judged: that of the layer that owns it, or its own. -/
def usedName (p : Policy) (name : String) : String :=
  ((p.architecture.owner? name).map Layer.name).getD name

def mayUse (p : Policy) (layer : Layer) (name : String) : Bool :=
  let used := p.usedName name
  let known := p.architecture.contains used
  if layer.name == used then true
  else if !layer.isStrict && !known then true
  else if layer.admits used then true
  else if layer.isStrict && !known then p.isBuiltin name
  else false

end Policy
end LayerGuard
