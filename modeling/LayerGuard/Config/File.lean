import LayerGuard.Config.Format
import LayerGuard.FileTree
import LayerGuard.Text.Utf8

/-! # Configuration files

A configuration is read from a file that is named, or else from the first of the usual files of a
project that exists.
-/

namespace LayerGuard.Config

/-- The error of a text that comes from a file. -/
def inFile (path : Path) : ConfigError → ConfigError
  | .notAccepted _ mappingExpected => .notAccepted (some path) mappingExpected
  | error => error

/-- The configuration that a file gives. -/
def load (tree : FileTree) (path : Path) : Except ConfigError Config :=
  match tree.read? path with
  | none => .error (.notAFile path)
  | some bytes => do
    let format ← Format.ofPath path
    match Text.decode? bytes with
    | none => .error (.notText path)
    | some text => (parse format text).mapError (inFile path)

/-- Where a configuration comes from. -/
inductive Origin where
  /-- The file that was named. -/
  | explicit (path : Path)
  /-- One of the usual files of the project. -/
  | project (path : Path)
  | notFound
  deriving DecidableEq, Repr

def Origin.path? : Origin → Option Path
  | .explicit path => some path
  | .project path => some path
  | .notFound => none

/-- The usual files of a project in order of preference. -/
def usualFiles : List String :=
  ["", "config/"].flatMap fun folder =>
    ["toml", "yaml", "yml", "json"].map fun extension => folder ++ "architecture." ++ extension

/-- The origin of the configuration of a project. A file that is named need not exist. -/
def locate (tree : FileTree) (project : Path) : Option Path → Origin
  | some path => .explicit path
  | none =>
    match (usualFiles.map fun file => project.join ⟨file⟩).find? tree.isFile with
    | some path => .project path
    | none => .notFound

end LayerGuard.Config
