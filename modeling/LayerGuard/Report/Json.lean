import LayerGuard.Json.Printer
import LayerGuard.Json.Reader
import LayerGuard.ScanResult

/-! # The JSON report

The report is the result of a scan as a JSON value, one item a line. It can be read back: every
field but the time has to be there with the right kind of value, unknown fields are passed over,
and a record may also be given as the array of its fields in order. Of a repeated field the last one
counts, although a text that repeats one is no report; a written report repeats none.
-/

namespace LayerGuard.Report

def placeToJson (p : Place) : Json :=
  .object [("file", .string p.file.text), ("line", .nat p.line)]

def violationToJson (v : Violation) : Json :=
  .object [("location", placeToJson v.place), ("subject", .string v.subject),
    ("namespace", .string v.used)]

def fileToJson (r : FileReport) : Json :=
  .object [("path", .string r.path.text), ("subject", .string r.subject),
    ("violations", .array (r.violations.map violationToJson))]

def resultToJson (r : ScanResult) : Json :=
  .object [("files", .array (r.files.map fileToJson)), ("elapsed_ms", .nat r.elapsedMs.toNat)]

def json (r : ScanResult) : String := (resultToJson r).indented ++ "\n"

/-! ## Reading a report back -/

def readText? : Json → Option String
  | .string s => some s
  | _ => none

/-- A natural number of 64 bits. -/
def readCount? : Json → Option Nat
  | .number n => n.toNat?.filter (· < Nat.pow 2 64)
  | _ => none

def readList? (read? : Json → Option α) : Json → Option (List α)
  | .array items => items.mapM read?
  | _ => none

/-- The value of the field of a record that has the given key, or the given place when the record
is an array. -/
def member? (key : String) (index : Nat) : Json → Option Json
  | .array items => items[index]?
  | value => value.field? key

/-- Whether a value can be a record with the given number of fields at most. -/
def isRecord (size : Nat) : Json → Bool
  | .array items => items.length ≤ size
  | .object _ => true
  | _ => false

def placeOfJson? (j : Json) : Option Place := do
  guard (isRecord 2 j)
  return ⟨⟨← readText? (← member? "file" 0 j)⟩, ← readCount? (← member? "line" 1 j)⟩

def violationOfJson? (j : Json) : Option Violation := do
  guard (isRecord 3 j)
  return ⟨← placeOfJson? (← member? "location" 0 j), ← readText? (← member? "subject" 1 j),
    ← readText? (← member? "namespace" 2 j)⟩

def fileOfJson? (j : Json) : Option FileReport := do
  guard (isRecord 3 j)
  return ⟨⟨← readText? (← member? "path" 0 j)⟩, ← readText? (← member? "subject" 1 j),
    ← readList? violationOfJson? (← member? "violations" 2 j)⟩

/-- The result of a scan from JSON; a missing time counts as none. -/
def resultOfJson? (j : Json) : Option ScanResult := do
  guard (isRecord 2 j)
  let files ← readList? fileOfJson? (← member? "files" 0 j)
  let elapsed ← match member? "elapsed_ms" 1 j with
    | some value => readCount? value
    | none => some 0
  return ⟨files, elapsed.toUInt64⟩

/-- The result of a scan that a JSON report tells of. -/
def readJson? (text : String) : Option ScanResult := (Json.parse? text).bind resultOfJson?

end LayerGuard.Report
