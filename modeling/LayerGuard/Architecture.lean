import LayerGuard.Layer
import LayerGuard.Path

/-! # Architectures

An architecture is an ordered list of layers no two of which have comparable names: if one name
began another, or were equal to it, some namespace would belong to both. The list is free of such
conflicts by construction, so the first layer whose name begins a namespace is the only one.
-/

namespace LayerGuard

/-- Two layer names of which one begins the other; `existing` is declared first. -/
structure Conflict where
  existing : String
  layer : String
  deriving DecidableEq, Repr

/-- Whether one of two names begins the other. -/
def comparableNames (a b : String) : Bool := Text.beginsWith a b || Text.beginsWith b a

/-- The first name comparable with one seen before it, with the first such one. -/
def firstConflictAfter (seen : List String) : List String → Option Conflict
  | [] => none
  | name :: rest =>
    match seen.find? (comparableNames name) with
    | some existing => some ⟨existing, name⟩
    | none => firstConflictAfter (seen ++ [name]) rest

def firstConflict? (names : List String) : Option Conflict := firstConflictAfter [] names

/-- An ordered list of layers without a conflict. -/
structure Architecture where
  layers : List Layer
  conflictFree : firstConflict? (layers.map Layer.name) = none
  deriving Repr

namespace Architecture

def layersOf (definition : List (String × List String)) : List Layer :=
  definition.map fun (name, children) => Layer.make name children

/-- The architecture that a definition describes, unless two of its names conflict. -/
def build (definition : List (String × List String)) : Except Conflict Architecture :=
  match h : firstConflict? ((layersOf definition).map Layer.name) with
  | none => .ok ⟨layersOf definition, h⟩
  | some conflict => .error conflict

/-- The layer that owns a namespace: the first whose name begins it. -/
def owner? (a : Architecture) (name : String) : Option Layer := a.layers.find? (·.owns name)

/-- The layer of exactly the given name. -/
def get? (a : Architecture) (name : String) : Option Layer := a.layers.find? (·.name == name)

def contains (a : Architecture) (name : String) : Bool := a.layers.any (·.name == name)

end Architecture
end LayerGuard
