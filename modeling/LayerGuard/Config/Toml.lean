import LayerGuard.Config.Setting
import LayerGuard.Toml.Reader

/-! # Configurations in TOML

A text is taken apart only as a whole. Dates have no meaning as a setting.
-/

namespace LayerGuard.Toml

mutual

/-- The setting that a value stands for. -/
def Value.toSetting : Value → Setting
  | .text s => .text s
  | .date => .meaningless
  | .other => .other
  | .array items => .list (Value.toSettings items)
  | .table entries => .table (Value.toEntries entries)

def Value.toSettings : List Value → List Setting
  | [] => []
  | item :: items => item.toSetting :: Value.toSettings items

def Value.toEntries : List (String × Value) → List (Option String × Setting)
  | [] => []
  | (key, value) :: entries => (some key, value.toSetting) :: Value.toEntries entries

end

def document (text : String) : Document :=
  match parse? text with
  | some entries => ⟨.table (Value.toEntries entries), true⟩
  | none => ⟨.malformed, false⟩

end LayerGuard.Toml
