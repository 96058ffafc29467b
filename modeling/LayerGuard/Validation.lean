import LayerGuard.Analyzer
import LayerGuard.Config.File
import LayerGuard.Discovery
import LayerGuard.Report.Format

/-! # Validating a source directory

A validation loads the configuration, checks the source directory and, if wanted, the architecture,
and then reports on every source. The first check that fails decides the error, and then there is
no report. The time that the report tells is measured elsewhere. Every file of a tree can be read
and a report is a text, so neither a source that cannot be read nor a report that cannot be written
ends a validation.
-/

namespace LayerGuard

/-- What is wanted of a validation. -/
structure ValidationOptions where
  /-- Further entries of the ignore list. -/
  ignored : List String
  /-- Whether two layers that may use each other are an error. -/
  noCircular : Bool
  /-- Whether a layer without a directory is an error. -/
  pureLayout : Bool
  format : Report.Format
  deriving DecidableEq, Repr

/-- Why there is no report. -/
inductive ValidationError where
  | config (error : ConfigError)
  | notADirectory (source : Path)
  /-- The source directory itself is in the ignore list. -/
  | ignoredSource (source : Path)
  | architecture (fault : ArchitectureFault)
  deriving DecidableEq, Repr

namespace ValidationError

/-- The error that an error of the configuration is. -/
def ofConfig : ConfigError → ValidationError
  | .architecture fault => .architecture fault
  | error => .config error

def message : ValidationError → String
  | config error => error.message
  | notADirectory source => "'" ++ source.text ++ "' is not a valid directory"
  | ignoredSource source => "Source '" ++ source.text ++ "' exists in the ignored list"
  | architecture fault => fault.message

end ValidationError

/-- What a validation finds, and the report on it. -/
structure Validation where
  result : ScanResult
  output : String
  deriving Repr

namespace Validation

/-- Whether an entry of the ignore list and the source directory end alike. -/
def hitsSource (source : Path) (entry : String) : Bool :=
  Text.endsWith source.text entry || Text.endsWith entry source.text

def checkSource (tree : FileTree) (source : Path) (ignored : List String) :
    Except ValidationError Unit :=
  if !tree.isFolder source then .error (.notADirectory source)
  else if ignored.any (hitsSource source) then .error (.ignoredSource source)
  else .ok ()

def checkArchitecture (tree : FileTree) (source : Path) (options : ValidationOptions)
    (rootNamespace? : Option String) (a : Architecture) : Except ArchitectureFault Unit := do
  if options.noCircular then a.checkCircular
  if options.pureLayout then a.checkPurity tree source rootNamespace?

/-- The sources of a directory with their texts; what is no UTF-8 in them is replaced. -/
def sources (tree : FileTree) (source : Path) (ignored extensions : List String) :
    List (Path × String) :=
  (Discovery.found tree source (.ofEntries ignored) extensions).map fun (path, bytes) =>
    (path, Text.decodeLossy bytes)

/-- What judges the sources of an architecture in a configuration. -/
def analyzer (config : Config) (a : Architecture) : Analyzer :=
  ⟨⟨a, Builtins.php.withNames config.builtins⟩, .php⟩

/-- The validation of a source directory by the configuration in a file, with the time that was
measured for the scan. -/
def run (tree : FileTree) (source configPath : Path) (options : ValidationOptions) (color : Bool)
    (elapsed : UInt64 := 0) : Except ValidationError Validation := do
  let config ← (Config.load tree configPath).mapError .ofConfig
  let a ← config.architecture.mapError .ofConfig
  let ignored := IgnoreList.merge options.ignored config.ignored
  checkSource tree source ignored
  (checkArchitecture tree source options config.rootNamespace? a).mapError .architecture
  let analyzer := analyzer config a
  let result := analyzer.scan (sources tree source ignored analyzer.extractor.extensions) elapsed
  return ⟨result, Report.render options.format color ⟨source, ignored⟩ result⟩

end Validation
end LayerGuard
