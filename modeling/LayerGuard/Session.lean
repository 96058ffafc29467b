import LayerGuard.Analyzer
import LayerGuard.Config.Format
import LayerGuard.Report.Format

/-! # Sessions

A session holds a configuration, an analyzer once it has been built, and the result of what has been
analyzed so far. Each step answers and leads to the next session; a step that fails leaves the
session as it was. An analyzer keeps the architecture it was built with.
-/

namespace LayerGuard

structure Session where
  config : Config
  analyzer? : Option Analyzer
  result : ScanResult

namespace Session

def start : Session := ⟨.default, none, .empty⟩

/-- The parts that an analyzer is built from. -/
structure Parts where
  withArchitecture : Bool
  withExtractor : Bool
  /-- The built-in names: those of PHP and of the configuration, or none at all. -/
  withBuiltins : Bool
  deriving DecidableEq, Repr

/-- A step of a session. -/
inductive Step where
  | defineLayers (definition : List (String × List String))
  | configure (format : Config.Format) (text : String)
  | build (parts : Parts)
  | analyzeSource (path : Path) (text : String)
  | analyze (sources : List (Path × String)) (elapsed : UInt64 := 0)
  /-- Add a result in the form of the JSON report. -/
  | extend (report : Json)
  | checkCircular
  | count
  | render (format : Report.Format) (color : Bool) (scope : Report.Scope)
  | reset

/-- What a step answers. -/
inductive Answer where
  | config (outcome : Except ConfigError Config)
  | analyzer (outcome : Except AnalyzerError Analyzer)
  | report (report : FileReport)
  | reports (reports : List FileReport)
  | result (result : ScanResult)
  | checked (outcome : Except ConfigError Unit)
  | text (text : String)
  /-- There is no analyzer yet. -/
  | noAnalyzer
  /-- The report to be added could not be read. -/
  | unreadable

/-- The session with a new configuration, if there is one. -/
def configured (s : Session) (outcome : Except ConfigError Config) : Session × Answer :=
  match outcome with
  | .ok config => ({ s with config }, .config outcome)
  | .error _ => (s, .config outcome)

/-- The configuration that layers alone make. -/
def layersOnly (definition : List (String × List String)) : Except ConfigError Config :=
  match Architecture.build definition with
  | .ok a => .ok (.ofArchitecture a)
  | .error conflict => .error (.architecture (.conflict conflict))

def assemble (s : Session) (parts : Parts) : Except AnalyzerError Analyzer :=
  Analyzer.assemble (if parts.withArchitecture then s.config.architecture? else none)
    (if parts.withExtractor then some .php else none)
    (if parts.withBuiltins then some (Builtins.php.withNames s.config.builtins).contains else none)

def add (s : Session) (r : ScanResult) : Session := { s with result := s.result.append r }

/-- The check that no two layers of the configuration may use each other. -/
def circularity (s : Session) : Except ConfigError Unit := do
  let a ← s.config.architecture
  a.checkCircular.mapError .architecture

def step (s : Session) : Step → Session × Answer
  | .defineLayers definition => s.configured (layersOnly definition)
  | .configure format text => s.configured (Config.parse format text)
  | .build parts =>
    match s.assemble parts with
    | .ok analyzer => ({ s with analyzer? := some analyzer }, .analyzer (.ok analyzer))
    | .error e => (s, .analyzer (.error e))
  | .analyzeSource path text =>
    match s.analyzer? with
    | some analyzer =>
      let report := analyzer.report path text
      (s.add ⟨[report], 0⟩, .report report)
    | none => (s, .noAnalyzer)
  | .analyze sources elapsed =>
    match s.analyzer? with
    | some analyzer =>
      let result := analyzer.scan sources elapsed
      (s.add result, .reports result.files)
    | none => (s, .noAnalyzer)
  | .extend report =>
    match Report.resultOfJson? report with
    | some result => let s := s.add result; (s, .result s.result)
    | none => (s, .unreadable)
  | .checkCircular => (s, .checked s.circularity)
  | .count => (s, .result s.result)
  | .render format color scope => (s, .text (Report.render format color scope s.result))
  | .reset => ({ s with result := .empty }, .result .empty)

/-- The answers to steps in order. -/
def run (s : Session) : List Step → List Answer
  | [] => []
  | step :: steps => let (s, answer) := s.step step; answer :: s.run steps

end Session
end LayerGuard
