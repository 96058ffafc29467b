import LayerGuard.Report.Json
import LayerGuard.Report.Text

/-! # Forms of the report -/

namespace LayerGuard.Report

/-- The compact report: one line per violation. -/
def compact (r : ScanResult) : String :=
  String.join (r.violations.map fun v =>
    v.place.file.text ++ ":" ++ toString v.place.line ++ ": cannot use " ++ v.used ++ "\n")

/-- The forms a report can have. -/
inductive Format where
  | text
  | json
  | compact
  deriving DecidableEq, Repr

namespace Format

def name : Format → String
  | text => "text"
  | json => "json"
  | compact => "compact"

def ofName? (s : String) : Option Format := [text, json, compact].find? (·.name == s)

end Format

/-- The report in the given form. Only the text report knows colours. -/
def render (format : Format) (color : Bool) (scope : Scope) (r : ScanResult) : String :=
  match format with
  | .text => text color scope r
  | .json => json r
  | .compact => compact r

end LayerGuard.Report
