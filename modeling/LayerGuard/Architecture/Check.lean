import LayerGuard.Architecture
import LayerGuard.FileTree

/-! # Checks of an architecture

What can be wrong with an architecture as a whole, before any source is read: names in conflict,
two layers that each may use the other, or a layer without a directory of its own. Only cycles of
two layers are looked for. Each check reports the first fault in declaration order.
-/

namespace LayerGuard

/-- What is wrong with an architecture. -/
inductive ArchitectureFault where
  | conflict (names : Conflict)
  /-- Two layers may use each other; `other` is declared first. -/
  | circular (layer other : String)
  /-- No directory `path` for the layer at `relative` under the source root. -/
  | missingDirectory (path sourceRoot relative : Path)
  | missingRootNamespace
  deriving DecidableEq, Repr

namespace ArchitectureFault

def message : ArchitectureFault → String
  | conflict ⟨existing, layer⟩ => "Layer conflict between " ++ existing ++ " and " ++ layer
  | circular layer other => "Circular dependency between " ++ layer ++ " and " ++ other
  | missingDirectory path sourceRoot relative =>
    path.text ++ " not found, make sure your [" ++ sourceRoot.text ++ "] contains a [" ++
      relative.text ++ "] directory"
  | missingRootNamespace => "purity check requires `root_namespace` in the config file"

def code : ArchitectureFault → String
  | conflict _ => "arch_enforcer::layer_conflict"
  | circular _ _ => "arch_enforcer::circular_dependency"
  | missingDirectory _ _ _ => "arch_enforcer::missing_layer_directory"
  | missingRootNamespace => "arch_enforcer::missing_root_namespace"

/-- What to do about the fault. -/
def help? : ArchitectureFault → Option String
  | conflict _ =>
    some "layer names must not be prefixes of each other, otherwise a namespace could belong to both"
  | circular _ _ =>
    some "remove one direction of the dependency, or run without --no-circular"
  | missingDirectory _ _ _ => none
  | missingRootNamespace => some "add e.g. `root_namespace = \"App\"` to the config"

end ArchitectureFault

namespace Layer

/-- Whether two layers of different names may each use the name of the other. -/
def mutuallyAdmit (a b : Layer) : Bool := a.name != b.name && a.admits b.name && b.admits a.name

/-- The directory of a layer below the source root: the segments of its name that are left
without the root namespace. -/
def directory (l : Layer) (rootNamespace : String) : Path :=
  .ofPieces ((Text.split separator (withoutRoot l.name rootNamespace)).filter (· != ""))

end Layer

namespace Architecture

/-- The first layer that mutually admits an earlier one, with the first such one. -/
def firstCycleAfter (seen : List Layer) : List Layer → Option (Layer × Layer)
  | [] => none
  | layer :: rest =>
    match seen.find? (·.mutuallyAdmit layer) with
    | some other => some (layer, other)
    | none => firstCycleAfter (seen ++ [layer]) rest

/-- Fails if two layers may use each other. -/
def checkCircular (a : Architecture) : Except ArchitectureFault Unit :=
  match firstCycleAfter [] a.layers with
  | some (layer, other) => .error (.circular layer.name other.name)
  | none => .ok ()

/-- Fails unless every layer has its directory below the source root. -/
def checkPurity (a : Architecture) (tree : FileTree) (sourceRoot : Path)
    (rootNamespace? : Option String) : Except ArchitectureFault Unit :=
  match rootNamespace? with
  | none => .error .missingRootNamespace
  | some root =>
    match a.layers.find? fun l => !tree.isFolder (sourceRoot.join (l.directory root)) with
    | some l =>
      .error (.missingDirectory (sourceRoot.join (l.directory root)) sourceRoot (l.directory root))
    | none => .ok ()

end Architecture
end LayerGuard
