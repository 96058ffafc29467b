import LayerGuard.Config
import LayerGuard.Config.Json
import LayerGuard.Config.Toml
import LayerGuard.Config.Yaml
import LayerGuard.Text.LowerCase

/-! # Formats of configurations

The format of a file is told by its extension, whatever its case.
-/

namespace LayerGuard.Config

/-- The formats a configuration can be written in. -/
inductive Format where
  | toml
  | json
  | yaml
  deriving DecidableEq, Repr

namespace Format

def extensions : List (String × Format) :=
  [("toml", toml), ("json", json), ("yml", yaml), ("yaml", yaml)]

def ofPath (path : Path) : Except ConfigError Format :=
  let extension := Text.lowerCase (path.extension?.getD "")
  match extensions.lookup extension with
  | some format => .ok format
  | none => .error (.unsupportedExtension extension)

def document : Format → String → Document
  | toml => Toml.document
  | json => Json.document
  | yaml => Yaml.settings

/-- Whether the settings may be given as a list. -/
def admitsList (format : Format) : Bool := format == json

end Format

def parse (format : Format) (text : String) : Except ConfigError Config :=
  ofDocument format.admitsList (format.document text)

end LayerGuard.Config
