import LayerGuard.ScanResult

/-! # The text report

The report is a list of lines, and a line is a list of spans, some of them with a style. Styles
show only in a coloured report; the uncoloured one is the same spans without them.
-/

namespace LayerGuard.Report

/-- How a span looks in a coloured report. -/
inductive Style where
  | yellow
  | green
  | boldRed
  | gray
  deriving DecidableEq, Repr

/-- The terminal sequence that switches to a style. -/
def Style.sequence : Style → String
  | yellow => "\x1b[33m"
  | green => "\x1b[32m"
  | boldRed => "\x1b[1;31m"
  | gray => "\x1b[90m"

/-- The terminal sequence that switches back. -/
def resetSequence : String := "\x1b[0m"

/-- A stretch of text in one style. -/
structure Span where
  style? : Option Style
  text : String
  deriving DecidableEq, Repr

def plain (text : String) : Span := ⟨none, text⟩

def styled (style : Style) (text : String) : Span := ⟨some style, text⟩

def Span.render (color : Bool) (s : Span) : String :=
  match s.style?, color with
  | some style, true => style.sequence ++ s.text ++ resetSequence
  | _, _ => s.text

abbrev Line := List Span

/-- A line as it is printed, through its line end. -/
def renderLine (color : Bool) (line : Line) : String :=
  String.join (line.map (Span.render color)) ++ "\n"

def renderLines (color : Bool) (lines : List Line) : String :=
  String.join (lines.map (renderLine color))

/-- What was scanned: the source directory as given, and the entries of the ignore list. -/
structure Scope where
  source : Path
  ignored : List String
  deriving DecidableEq, Repr

/-- The line that names the ignored entries, if there are any. -/
def ignoredLines (entries : List String) : List Line :=
  if entries.isEmpty then []
  else
    [plain "Ignored: " ::
      List.intercalate [plain " "]
        (entries.map fun entry => [plain "[", styled .gray entry, plain "]"])]

/-- The line of a file, and a line for each of its violations. -/
def fileLines (r : FileReport) : List Line :=
  [plain "Scanning ", if r.isOk then styled .green "[OK]" else styled .boldRed "[ERROR]", plain " ",
    styled .yellow r.subject] ::
    r.violations.map fun v => [styled .boldRed v.message]

/-- The verdict, the numbers and the time. -/
def summaryLines (r : ScanResult) : List Line :=
  let counts := [plain "[Scanned: ", styled .yellow (toString r.scanned), plain "] [Successful: ",
    styled .green (toString r.successful), plain "]"]
  let time := [plain "[Time: ", styled .yellow (toString r.elapsedMs.toNat ++ "ms"), plain "]"]
  if r.hasViolations then
    [[styled .boldRed "Issues found"],
      counts ++ [plain " [Failed: ", styled .boldRed (toString r.failed), plain "] [Issues: ",
        styled .boldRed (toString r.issues), plain "]"], time]
  else [[styled .green "No issues found"], counts, time]

def textLines (scope : Scope) (r : ScanResult) : List Line :=
  [plain "Scanning directory: ", styled .yellow scope.source.text] ::
    (ignoredLines scope.ignored ++ r.files.flatMap fileLines ++ summaryLines r)

def text (color : Bool) (scope : Scope) (r : ScanResult) : String :=
  renderLines color (textLines scope r)

end LayerGuard.Report
