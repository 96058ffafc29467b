import LayerGuard.Builtins
import LayerGuard.Policy
import LayerGuard.ScanResult
import LayerGuard.Source.Analysis

/-! # Judging sources

A source belongs to the layer that owns the namespace it declares. Its violations are the
references that this layer may not use, in order of appearance and with repetitions; a source that
belongs to no layer has none.
-/

namespace LayerGuard

/-- A way of reading sources, and the extensions of the files it reads. -/
structure Extractor where
  extensions : List String
  analyze : String → Source.Analysis

def Extractor.php : Extractor := ⟨Source.extensions, Source.analyze⟩

/-- A source placed in an architecture. -/
structure SourceFile where
  path : Path
  declared : Option String
  layer? : Option Layer
  references : List Reference
  deriving DecidableEq, Repr

namespace SourceFile

def read (extractor : Extractor) (architecture : Architecture) (path : Path) (text : String) :
    SourceFile :=
  let analysis := extractor.analyze text
  ⟨path, analysis.declared, analysis.declared.bind architecture.owner?, analysis.references⟩

/-- The name of the file; the empty text if the path has none. -/
def fileName (f : SourceFile) : String := f.path.fileName?.getD ""

/-- How the source is called in reports: its namespace and the stem of its file name, or the file
name alone. -/
def subject (f : SourceFile) : String :=
  match f.declared with
  | some declared => declared ++ Layer.separator.toString ++ f.path.stem?.getD ""
  | none => f.fileName

end SourceFile

def Policy.violations (p : Policy) (f : SourceFile) : List Violation :=
  match f.layer? with
  | none => []
  | some layer =>
    (f.references.filter fun r => !p.mayUse layer r.name).map fun r =>
      ⟨⟨f.path, r.line⟩, f.subject, r.name⟩

/-- Everything needed to judge sources. -/
structure Analyzer where
  policy : Policy
  extractor : Extractor

/-- Why there is no analyzer. -/
inductive AnalyzerError where
  | missingArchitecture
  | missingExtractor
  deriving DecidableEq, Repr

def AnalyzerError.message : AnalyzerError → String
  | missingArchitecture => "analyzer needs an architecture"
  | missingExtractor => "analyzer needs a name extractor"

namespace Analyzer

/-- The analyzer made of the given parts. Without built-in names there are none. -/
def assemble (architecture? : Option Architecture) (extractor? : Option Extractor)
    (isBuiltin? : Option (String → Bool)) : Except AnalyzerError Analyzer :=
  match architecture?, extractor? with
  | none, _ => .error .missingArchitecture
  | some _, none => .error .missingExtractor
  | some architecture, some extractor =>
    .ok ⟨⟨architecture, isBuiltin?.getD Builtins.none⟩, extractor⟩

def report (a : Analyzer) (path : Path) (text : String) : FileReport :=
  let file := SourceFile.read a.extractor a.policy.architecture path text
  ⟨file.path, file.subject, a.policy.violations file⟩

/-- The reports on sources in order, and the time that was measured for them. -/
def scan (a : Analyzer) (sources : List (Path × String)) (elapsed : UInt64) : ScanResult :=
  ⟨sources.map fun (path, text) => a.report path text, elapsed⟩

end Analyzer
end LayerGuard
