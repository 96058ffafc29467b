import LayerGuard.Architecture.Check
import LayerGuard.Config.Setting

/-! # Configurations

A configuration names the layers, the ignored paths, the namespace of the source root and further
built-in names. Settings are read in the order of the text and the first one that is not accepted
decides the error; unknown settings are passed over, but have to be well-formed. The architecture
is built last.
-/

namespace LayerGuard

structure Config where
  architecture? : Option Architecture
  ignored : List String
  rootNamespace? : Option String
  builtins : List String
  deriving Repr

/-- Why there is no configuration. -/
inductive ConfigError where
  | notAFile (path : Path)
  /-- The file holds no UTF-8 text. -/
  | notText (path : Path)
  | unsupportedExtension (extension : String)
  /-- The text is not accepted; `mappingExpected` if that is because the layers are no mapping. -/
  | notAccepted (path? : Option Path) (mappingExpected : Bool)
  | missingArchitecture
  | architecture (fault : ArchitectureFault)
  deriving DecidableEq, Repr

def ConfigError.message : ConfigError → String
  | notAFile path => "'" ++ path.text ++ "' is not a file"
  | notText path =>
    "Failed to read config file " ++ path.text ++ ": stream did not contain valid UTF-8"
  | unsupportedExtension extension => "Unsupported config file extension: " ++ extension
  | notAccepted (some path) _ => "Failed to parse config " ++ path.text
  | notAccepted none _ => "Failed to parse config"
  | missingArchitecture => "'architecture' key not set in config file"
  | architecture fault => fault.message

namespace Config

def default : Config := ⟨none, [], none, []⟩

def ofArchitecture (a : Architecture) : Config := { default with architecture? := some a }

/-- The architecture of a configuration, which may not be left out. -/
def architecture (c : Config) : Except ConfigError Architecture :=
  match c.architecture? with
  | some a => .ok a
  | none => .error .missingArchitecture

/-- The settings with a meaning. -/
inductive Key where
  | layers
  | ignored
  | rootNamespace
  | builtins
  deriving DecidableEq, Repr

/-- The meaning of a key, if it has one. -/
def Key.ofText? (key : String) : Option Key :=
  if key == "architecture" then some .layers
  else if key == "ignore" then some .ignored
  else if key == "root_namespace" || key == "projectRootNamespace" then some .rootNamespace
  else if key == "builtins" then some .builtins
  else none

/-- The keys in the order of a configuration without key words. -/
def Key.inOrder : List Key := [.layers, .ignored, .rootNamespace, .builtins]

/-- The settings read so far; a setting is missing until it has been read. -/
structure Partial where
  layers? : Option (Option (List (String × List String)))
  ignored? : Option (List String)
  rootNamespace? : Option (Option String)
  builtins? : Option (List String)
  deriving Repr

namespace Partial

def start : Partial := ⟨none, none, none, none⟩

def has (p : Partial) : Key → Bool
  | .layers => p.layers?.isSome
  | .ignored => p.ignored?.isSome
  | .rootNamespace => p.rootNamespace?.isSome
  | .builtins => p.builtins?.isSome

def set (p : Partial) (key : Key) (value : Setting) : Except Setting.Refusal Partial := do
  match key with
  | .layers => return { p with layers? := some (← value.toLayers?) }
  | .ignored => return { p with ignored? := some (← value.toTexts) }
  | .rootNamespace => return { p with rootNamespace? := some (← value.toText?) }
  | .builtins => return { p with builtins? := some (← value.toTexts) }

/-- The settings after an entry of a table. A setting may not be given twice. -/
def entry (p : Partial) : Option String × Setting → Except Setting.Refusal Partial
  | (key?, value) => do
    match Key.ofText? (← Setting.keyText key?) with
    | some key => if p.has key then .error .unsuitable else p.set key value
    | none => if value.isWellFormed then .ok p else .error .unsuitable

/-- The settings of a table. -/
def ofEntries (entries : List (Option String × Setting)) : Except Setting.Refusal Partial :=
  entries.foldlM entry start

/-- The settings of a list that gives them in order and may end early. -/
def ofItems (items : List Setting) : Except Setting.Refusal Partial := do
  let p ← (Key.inOrder.zip items).foldlM (fun p (key, value) => p.set key value) start
  if Key.inOrder.length < items.length then .error .unsuitable else .ok p

end Partial

/-- The configuration made of the settings that were read. -/
def ofPartial (p : Partial) : Except ConfigError Config :=
  match p.layers?.getD none with
  | none => .ok ⟨none, p.ignored?.getD [], p.rootNamespace?.getD none, p.builtins?.getD []⟩
  | some definition =>
    match Architecture.build definition with
    | .error conflict => .error (.architecture (.conflict conflict))
    | .ok a => .ok ⟨some a, p.ignored?.getD [], p.rootNamespace?.getD none, p.builtins?.getD []⟩

/-- The settings of a whole text. Where `listAllowed`, the root may be a list of the settings in
order. -/
def Partial.ofDocument (listAllowed : Bool) (d : Document) : Except Setting.Refusal Partial := do
  let p ← match d.root with
    | .table entries => ofEntries entries
    | .word s _ => if s.isEmpty then .ok start else .error .unsuitable
    | .list items => if listAllowed then ofItems items else .error .unsuitable
    | _ => .error .unsuitable
  if d.endsWell then .ok p else .error .unsuitable

def ofDocument (listAllowed : Bool) (d : Document) : Except ConfigError Config :=
  match Partial.ofDocument listAllowed d with
  | .error refusal => .error (.notAccepted none (refusal == .mappingExpected))
  | .ok p => ofPartial p

end Config
end LayerGuard
