import LayerGuard.Path

/-! # Results of a scan

A violation is a reference that the layer of its file may not use. The result of a scan has one
report per file, in the order of the scan, and the time it took.
-/

namespace LayerGuard

/-- A line of a file. -/
structure Place where
  file : Path
  line : Nat
  deriving DecidableEq, Repr

/-- A reference that is not allowed: where it stands, how its file is called in reports and the
name it uses. -/
structure Violation where
  place : Place
  subject : String
  used : String
  deriving DecidableEq, Repr

def Violation.message (v : Violation) : String :=
  v.subject ++ ":" ++ toString v.place.line ++ " cannot use " ++ v.used

/-- What a scan found in one file. -/
structure FileReport where
  path : Path
  subject : String
  violations : List Violation
  deriving DecidableEq, Repr

def FileReport.isOk (r : FileReport) : Bool := r.violations.isEmpty

/-- What a scan found, and how many milliseconds it took. -/
structure ScanResult where
  files : List FileReport
  elapsedMs : UInt64
  deriving DecidableEq, Repr

namespace ScanResult

def empty : ScanResult := ⟨[], 0⟩

def scanned (r : ScanResult) : Nat := r.files.length

def successful (r : ScanResult) : Nat := r.files.countP FileReport.isOk

def failed (r : ScanResult) : Nat := r.scanned - r.successful

/-- Every violation in the order of the scan. -/
def violations (r : ScanResult) : List Violation := r.files.flatMap FileReport.violations

def issues (r : ScanResult) : Nat := (r.files.map (·.violations.length)).foldr (· + ·) 0

def hasViolations (r : ScanResult) : Bool := r.files.any (!·.isOk)

/-- The files of two results one after the other, and the sum of their times. -/
def append (r s : ScanResult) : ScanResult := ⟨r.files ++ s.files, r.elapsedMs + s.elapsedMs⟩

end ScanResult
end LayerGuard
