import LayerGuard.Config.Setting
import LayerGuard.Json.Reader

/-! # Configurations in JSON

Strings that are no Unicode text and numbers beyond double precision may be passed over, but have
no meaning as a setting.
-/

namespace LayerGuard.Json

mutual

/-- The setting that a draft stands for. -/
def Draft.toSetting : Draft → Setting
  | .broken => .malformed
  | .null => .null
  | .bool _ => .other
  | .number n => if n.isOutOfRange then .meaningless else .other
  | .string (some s) => .text s
  | .string none => .meaningless
  | .array items => .list (Draft.toSettings items)
  | .object fields => .table (Draft.toEntries fields)

def Draft.toSettings : List Draft → List Setting
  | [] => []
  | item :: items => item.toSetting :: Draft.toSettings items

def Draft.toEntries : List (Option String × Draft) → List (Option String × Setting)
  | [] => []
  | (key?, value) :: fields => (key?, value.toSetting) :: Draft.toEntries fields

end

def document (text : String) : Document :=
  let (value, endsWell) := draft text
  ⟨value.toSetting, endsWell⟩

end LayerGuard.Json
