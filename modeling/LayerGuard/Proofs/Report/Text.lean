import LayerGuard.Analyzer
import LayerGuard.Proofs.Architecture.Ownership
import LayerGuard.Proofs.Path
import LayerGuard.Proofs.Source.NameText
import LayerGuard.Proofs.Text.Lines
import LayerGuard.Report.Text
import Mathlib.Data.List.Forall2

/-! # The lines of the text report

The uncoloured report on sources has a line at its top, one for the ignored entries, three at its
bottom, and between them the texts on each source: that it was scanned, and then its violations.
Each of these is one line unless the namespace that the source declares has line feeds in it, which
nothing forbids: a namespace is whatever stands between its word and the next semicolon. Names that
are used, numbers and the parts of a path add no line feed.
-/

namespace LayerGuard

/-! ## Line feeds in the texts on a source -/

def Text.lineFeedsIn (s : String) : Nat := s.toList.count '\n'

theorem Text.lineFeedsIn_append (s t : String) :
    lineFeedsIn (s ++ t) = lineFeedsIn s + lineFeedsIn t := by
  rw [lineFeedsIn, String.toList_append, List.count_append]
  rfl

theorem Text.lineFeedsIn_eq_zero {s : String} (free : '\n' ∉ s.toList) : lineFeedsIn s = 0 :=
  List.count_eq_zero_of_not_mem free

/-- How many line feeds stand in the namespace that a source declares. -/
def Source.declaredLineFeeds (source : String) : Nat :=
  ((declaredNamespace source).map Text.lineFeedsIn).getD 0

theorem SourceFile.lineFeedsIn_subject {f : SourceFile} (path : '\n' ∉ f.path.text.toList) :
    Text.lineFeedsIn f.subject = (f.declared.map Text.lineFeedsIn).getD 0 := by
  have name {s : String} (named : f.path.fileName? = some s) : '\n' ∉ s.toList :=
    fun member => path (Path.mem_of_mem_fileName named member)
  have stem : '\n' ∉ (f.path.stem?.getD "").toList := by
    cases named : f.path.fileName? with
    | none => simp [Path.stem?, named]
    | some s =>
      simp only [Path.stem?, named, Option.map_some, Option.getD_some]
      exact fun member => name named (Path.mem_of_mem_cutName member)
  have file : '\n' ∉ f.fileName.toList := by
    rw [fileName]
    cases named : f.path.fileName? with
    | none => simp
    | some s => exact name named
  rw [subject]
  cases f.declared with
  | none => exact Text.lineFeedsIn_eq_zero file
  | some declared =>
    have separator : Text.lineFeedsIn Layer.separator.toString = 0 := by decide
    simp only [Text.lineFeedsIn_append, separator, Text.lineFeedsIn_eq_zero stem]
    rfl

theorem Violation.lineFeedsIn_message {v : Violation} (used : '\n' ∉ v.used.toList) :
    Text.lineFeedsIn v.message = Text.lineFeedsIn v.subject := by
  have colon : Text.lineFeedsIn ":" = 0 := by decide
  have words : Text.lineFeedsIn " cannot use " = 0 := by decide
  have number : '\n' ∉ (toString v.place.line).toList := Text.not_mem_toString (by decide) _
  simp only [message, Text.lineFeedsIn_append, colon, words, Text.lineFeedsIn_eq_zero number,
    Text.lineFeedsIn_eq_zero used, Nat.add_zero]

/-- A violation has the subject of its source and uses a name that the source refers to. -/
theorem Policy.mem_violations {p : Policy} {f : SourceFile} {v : Violation}
    (member : v ∈ p.violations f) :
    v.subject = f.subject ∧ ∃ r ∈ f.references, v.used = r.name := by
  rw [violations] at member
  split at member
  · cases member
  · obtain ⟨r, listed, rfl⟩ := List.mem_map.mp member
    exact ⟨rfl, r, (List.mem_filter.mp listed).1, rfl⟩

namespace Report

/-- The texts on a source: that it was scanned, and its violations. -/
def fileTexts (r : FileReport) : List String :=
  ("Scanning " ++ (if r.isOk then "[OK]" else "[ERROR]") ++ " " ++ r.subject) ::
    r.violations.map Violation.message

/-- Each text on a source has the line feeds of the namespace that the source declares. -/
theorem lineFeedsIn_fileTexts (p : Policy) {path : Path} (plain : '\n' ∉ path.text.toList)
    (source : String) :
    ∀ item ∈ fileTexts (Analyzer.report ⟨p, .php⟩ path source),
      Text.lineFeedsIn item = Source.declaredLineFeeds source := by
  let f := SourceFile.read .php p.architecture path source
  have subject : Text.lineFeedsIn f.subject = Source.declaredLineFeeds source :=
    f.lineFeedsIn_subject plain
  intro item member
  rcases List.mem_cons.mp member with rfl | member
  · have status (ok : Bool) : Text.lineFeedsIn (if ok then "[OK]" else "[ERROR]") = 0 := by
      cases ok <;> decide
    have words : Text.lineFeedsIn "Scanning " = 0 := by decide
    have blank : Text.lineFeedsIn " " = 0 := by decide
    simp only [Text.lineFeedsIn_append, status, words, blank, Nat.zero_add]
    exact subject
  · obtain ⟨v, listed, rfl⟩ := List.mem_map.mp member
    obtain ⟨same, r, referred, used⟩ := p.mem_violations listed
    have name : '\n' ∉ v.used.toList := by
      rw [used]
      exact (Source.isName_of_mem_references referred).newline_not_mem
    rw [v.lineFeedsIn_message name, same, subject]

/-! ## Uncoloured lines -/

def plainText (line : Line) : String := String.join (line.map Span.text)

theorem text_uncoloured (scope : Scope) (r : ScanResult) :
    text false scope r = Text.endLines ((textLines scope r).map plainText) := by
  have span : Span.render false = Span.text := by
    funext s
    cases style : s.style? <;> simp [Span.render, style]
  have line : renderLine false = fun line => plainText line ++ "\n" := by
    funext line
    rw [renderLine, span]
    rfl
  rw [text, renderLines, line, Text.endLines, List.map_map]
  rfl

theorem map_plainText_fileLines (r : FileReport) : (fileLines r).map plainText = fileTexts r := by
  rw [fileLines, List.map_cons, List.map_map, fileTexts]
  congr 1
  cases r.isOk <;> simp [plainText, plain, styled, String.join]

theorem not_mem_plainText {c : Char} {line : Line} (free : ∀ s ∈ line, c ∉ s.text.toList) :
    c ∉ (plainText line).toList := by
  rw [plainText, String.toList_join, List.mem_flatMap]
  rintro ⟨t, member, inside⟩
  obtain ⟨s, listed, rfl⟩ := List.mem_map.mp member
  exact free s listed inside

theorem mem_of_mem_intercalate {α : Type} {separator : List α} {pieces : List (List α)} {x : α}
    (member : x ∈ List.intercalate separator pieces) :
    x ∈ separator ∨ ∃ piece ∈ pieces, x ∈ piece := by
  induction pieces with
  | nil => simp at member
  | cons piece pieces ih =>
    cases pieces with
    | nil =>
      rw [List.intercalate_singleton] at member
      exact .inr ⟨piece, List.mem_cons_self .., member⟩
    | cons next pieces =>
      rw [List.intercalate_cons_cons, List.append_assoc, List.mem_append, List.mem_append] at member
      rcases member with here | between | later
      · exact .inr ⟨piece, List.mem_cons_self .., here⟩
      · exact .inl between
      · refine (ih later).imp_right ?_
        rintro ⟨other, listed, inside⟩
        exact ⟨other, List.mem_cons_of_mem _ listed, inside⟩

section Control

variable {c : Char} (control : c.toNat < 32)

include control

/-- The fixed words of a report hold no control characters. -/
theorem control_not_mem {words : String} (printable : words.toList.all (32 ≤ ·.toNat) = true) :
    c ∉ words.toList := by
  intro member
  have bound : 32 ≤ c.toNat := of_decide_eq_true (List.all_eq_true.mp printable c member)
  omega

theorem control_not_mem_number (n : Nat) : c ∉ (toString n).toList := by
  have zero : '0'.toNat = 48 := rfl
  refine Text.not_mem_toString ?_ n
  rw [← Bool.not_eq_true, Char.isDigit_iff_toNat]
  omega

/-- The line of the ignored entries has no control character that they do not have. -/
theorem control_not_mem_ignoredLines {entries : List String}
    (free : ∀ entry ∈ entries, c ∉ entry.toList) :
    ∀ line ∈ ignoredLines entries, ∀ s ∈ line, c ∉ s.text.toList := by
  rw [ignoredLines]
  split
  · intro line member
    cases member
  · intro line member s listed
    rw [List.mem_singleton.mp member] at listed
    rcases List.mem_cons.mp listed with rfl | listed
    · exact control_not_mem control rfl
    rcases mem_of_mem_intercalate listed with between | ⟨piece, member, inside⟩
    · rw [List.mem_singleton.mp between]
      exact control_not_mem control rfl
    · obtain ⟨entry, given, rfl⟩ := List.mem_map.mp member
      simp only [List.mem_cons, List.not_mem_nil, or_false] at inside
      rcases inside with rfl | rfl | rfl
      · exact control_not_mem control rfl
      · exact free entry given
      · exact control_not_mem control rfl

theorem control_not_mem_summaryLines (r : ScanResult) :
    ∀ line ∈ summaryLines r, ∀ s ∈ line, c ∉ s.text.toList := by
  have words {text : String} (printable : text.toList.all (32 ≤ ·.toNat) = true) :
      c ∉ text.toList := control_not_mem control printable
  have number (n : Nat) : c ∉ (toString n).toList := control_not_mem_number control n
  have time : c ∉ (toString r.elapsedMs.toNat ++ "ms").toList := by
    rw [String.toList_append, List.mem_append, not_or]
    exact ⟨number _, words rfl⟩
  rw [summaryLines]
  split
  · simp only [List.forall_mem_cons, List.forall_mem_append, List.not_mem_nil, false_imp_iff,
      implies_true, and_true]
    exact ⟨words rfl, ⟨⟨words rfl, number _, words rfl, number _, words rfl⟩, words rfl, number _,
      words rfl, number _, words rfl⟩, words rfl, time, words rfl⟩
  · simp only [List.forall_mem_cons, List.not_mem_nil, false_imp_iff, implies_true, and_true]
    exact ⟨words rfl, ⟨words rfl, number _, words rfl, number _, words rfl⟩, words rfl, time,
      words rfl⟩

end Control

/-- The lines in front of those on the sources. -/
def topLines (scope : Scope) : List Line :=
  [plain "Scanning directory: ", styled .yellow scope.source.text] :: ignoredLines scope.ignored

theorem length_topLines (scope : Scope) :
    (topLines scope).length = 1 + if scope.ignored.isEmpty then 0 else 1 := by
  rw [topLines, List.length_cons, ignoredLines, Nat.add_comm]
  split <;> rfl

theorem control_not_mem_topLines {c : Char} (control : c.toNat < 32) {scope : Scope}
    (directory : c ∉ scope.source.text.toList)
    (entries : ∀ entry ∈ scope.ignored, c ∉ entry.toList) :
    ∀ line ∈ topLines scope, ∀ s ∈ line, c ∉ s.text.toList := by
  intro line member
  rcases List.mem_cons.mp member with rfl | member
  · intro s listed
    simp only [List.mem_cons, List.not_mem_nil, or_false] at listed
    rcases listed with rfl | rfl
    · exact control_not_mem control rfl
    · exact directory
  · exact control_not_mem_ignoredLines control entries line member

theorem length_summaryLines (r : ScanResult) : (summaryLines r).length = 3 := by
  rw [summaryLines]
  split <;> rfl

/-! ## The report -/

/-- The report is made of the lines at its top, those of the texts on each source, and those at its
bottom. -/
theorem hasLines_text {scope : Scope} (directory : '\n' ∉ scope.source.text.toList)
    (entries : ∀ entry ∈ scope.ignored, '\n' ∉ entry.toList) (r : ScanResult) :
    Text.HasLines (text false scope r)
      ((topLines scope).map plainText ++ (r.files.flatMap fileTexts).flatMap (Text.split '\n') ++
        (summaryLines r).map plainText) := by
  have free {lines : List Line} (plain : ∀ line ∈ lines, ∀ s ∈ line, '\n' ∉ s.text.toList) :
      (lines.map plainText).flatMap (Text.split '\n') = lines.map plainText := by
    refine Text.flatMap_split_of_free ?_
    intro t member
    obtain ⟨line, listed, rfl⟩ := List.mem_map.mp member
    exact not_mem_plainText (plain line listed)
  have items : (r.files.flatMap fileLines).map plainText = r.files.flatMap fileTexts := by
    rw [List.map_flatMap]
    simp only [map_plainText_fileLines]
  have parts : textLines scope r =
      topLines scope ++ r.files.flatMap fileLines ++ summaryLines r := rfl
  rw [text_uncoloured, parts, List.map_append, List.map_append, items]
  have lines := Text.hasLines_endLines ((topLines scope).map plainText ++
    r.files.flatMap fileTexts ++ (summaryLines r).map plainText)
  rwa [List.flatMap_append, List.flatMap_append,
    free (control_not_mem_topLines (by decide) directory entries),
    free (control_not_mem_summaryLines (by decide) r)] at lines

/-- There are as many texts on the sources as there are sources and violations. -/
theorem length_fileTexts (r : ScanResult) :
    (r.files.flatMap fileTexts).length = r.scanned + r.issues := by
  rw [ScanResult.scanned, ScanResult.issues]
  induction r.files with
  | nil => rfl
  | cons file files ih =>
    rw [List.flatMap_cons, List.length_append, ih, fileTexts]
    simp only [List.length_cons, List.length_map, List.map_cons, List.foldr_cons]
    omega

/-- Texts have as many lines as there are texts exactly if none of them has a line feed. -/
theorem length_flatMap_split_eq_iff (items : List String) :
    (items.flatMap (Text.split '\n')).length = items.length ↔
      ∀ item ∈ items, Text.lineFeedsIn item = 0 := by
  have atLeast (items : List String) :
      items.length ≤ (items.flatMap (Text.split '\n')).length := by
    induction items with
    | nil => exact Nat.le_refl _
    | cons item items ih =>
      rw [List.flatMap_cons, List.length_append, Text.length_split, List.length_cons]
      omega
  induction items with
  | nil => simp
  | cons item items ih =>
    rw [List.flatMap_cons, List.length_append, Text.length_split, List.length_cons,
      List.forall_mem_cons, Text.lineFeedsIn]
    refine Iff.trans ?_ (and_congr_right fun _ => ih)
    have rest := atLeast items
    omega

section Sources

variable (p : Policy) (elapsed : UInt64) {sources : List (Path × String)} {scope : Scope}

/-- The texts on sources are free of line feeds exactly if the declared namespaces are. -/
theorem lineFeedsIn_items_iff (paths : ∀ source ∈ sources, '\n' ∉ source.1.text.toList) :
    (∀ item ∈ (Analyzer.scan ⟨p, .php⟩ sources elapsed).files.flatMap fileTexts,
        Text.lineFeedsIn item = 0) ↔
      ∀ source ∈ sources, Source.declaredLineFeeds source.2 = 0 := by
  constructor
  · intro none source member
    have listed : Analyzer.report ⟨p, .php⟩ source.1 source.2 ∈
        (Analyzer.scan ⟨p, .php⟩ sources elapsed).files := List.mem_map.mpr ⟨source, member, rfl⟩
    rw [← lineFeedsIn_fileTexts p (paths source member) source.2 _ (List.mem_cons_self ..)]
    exact none _ (List.mem_flatMap.mpr ⟨_, listed, List.mem_cons_self ..⟩)
  · intro none item listed
    obtain ⟨file, reported, inside⟩ := List.mem_flatMap.mp listed
    obtain ⟨source, member, rfl⟩ := List.mem_map.mp reported
    rw [lineFeedsIn_fileTexts p (paths source member) source.2 item inside, none source member]

/-- There is a line for each text exactly if no declared namespace has a line feed in it. -/
theorem length_lines_iff (paths : ∀ source ∈ sources, '\n' ∉ source.1.text.toList)
    (directory : '\n' ∉ scope.source.text.toList)
    (entries : ∀ entry ∈ scope.ignored, '\n' ∉ entry.toList) {lines : List String}
    (has : Text.HasLines (text false scope (Analyzer.scan ⟨p, .php⟩ sources elapsed)) lines) :
    let r := Analyzer.scan ⟨p, .php⟩ sources elapsed
    lines.length = 1 + (if scope.ignored.isEmpty then 0 else 1) + r.scanned + r.issues + 3 ↔
      ∀ source ∈ sources, Source.declaredLineFeeds source.2 = 0 := by
  intro r
  have free : (∀ item ∈ r.files.flatMap fileTexts, Text.lineFeedsIn item = 0) ↔
      ∀ source ∈ sources, Source.declaredLineFeeds source.2 = 0 :=
    lineFeedsIn_items_iff p elapsed paths
  rw [has.unique (hasLines_text directory entries r), List.length_append, List.length_append,
    List.length_map, List.length_map, length_topLines, length_summaryLines,
    ← free, ← length_flatMap_split_eq_iff, length_fileTexts]
  omega

end Sources

/-- The uncoloured report on sources has the lines at its top, then those of the texts on each
source, each text with one line more than there are line feeds in the namespace that the source
declares, and then three. So every text has a line of its own, and the lines are as many as the
sources, the violations and those at the top and at the bottom, exactly if no declared namespace has
a line feed in it. -/
theorem text_lines (p : Policy) (sources : List (Path × String)) (scope : Scope) (elapsed : UInt64)
    (paths : ∀ source ∈ sources, '\n' ∉ source.1.text.toList)
    (directory : '\n' ∉ scope.source.text.toList)
    (entries : ∀ entry ∈ scope.ignored, '\n' ∉ entry.toList) :
    let r := Analyzer.scan ⟨p, .php⟩ sources elapsed
    let items := r.files.flatMap fileTexts
    ∃ top bottom, top.length = 1 + (if scope.ignored.isEmpty then 0 else 1) ∧ bottom.length = 3 ∧
      Text.HasLines (text false scope r) (top ++ items.flatMap (Text.split '\n') ++ bottom) ∧
      List.Forall₂ (fun source file => ∀ item ∈ fileTexts file,
        (Text.split '\n' item).length = 1 + Source.declaredLineFeeds source.2) sources r.files ∧
      ((top ++ items.flatMap (Text.split '\n') ++ bottom).length =
          1 + (if scope.ignored.isEmpty then 0 else 1) + r.scanned + r.issues + 3 ↔
        ∀ source ∈ sources, Source.declaredLineFeeds source.2 = 0) ∧
      ((∀ source ∈ sources, Source.declaredLineFeeds source.2 = 0) →
        items.flatMap (Text.split '\n') = items) := by
  intro r items
  have has := hasLines_text directory entries r
  refine ⟨(topLines scope).map plainText, (summaryLines r).map plainText, ?_, ?_, has, ?_,
    length_lines_iff _ _ paths directory entries has, ?_⟩
  · rw [List.length_map, length_topLines]
  · rw [List.length_map, length_summaryLines]
  · refine List.forall₂_map_right_iff.mpr (List.forall₂_same.mpr ?_)
    intro source member item inside
    rw [Text.length_split]
    exact congrArg (1 + ·) (lineFeedsIn_fileTexts p (paths source member) source.2 item inside)
  · intro none
    refine Text.flatMap_split_of_free fun item listed => ?_
    exact List.count_eq_zero.mp ((lineFeedsIn_items_iff p elapsed paths).mpr none item listed)

/-- Two sources, one of them with a violation, and an ignored entry: a line for each text. -/
theorem text_lines_violation :
    let sources : List (Path × String) :=
      [(⟨"src/a.php"⟩, "<?php namespace A; new B\\C;"), (⟨"src/b.php"⟩, "")]
    let scope : Scope := ⟨⟨"src"⟩, ["vendor"]⟩
    ∃ a, Architecture.build [("A", []), ("B", [])] = .ok a ∧
      (∀ source ∈ sources, '\n' ∉ source.1.text.toList) ∧ '\n' ∉ scope.source.text.toList ∧
      (∀ entry ∈ scope.ignored, '\n' ∉ entry.toList) ∧
      (∀ source ∈ sources, Source.declaredLineFeeds source.2 = 0) ∧
      let r := Analyzer.scan ⟨⟨a, Builtins.php⟩, .php⟩ sources 7
      ∃ top bottom, top.length = 2 ∧ bottom.length = 3 ∧
        Text.HasLines (text false scope r) (top ++ r.files.flatMap fileTexts ++ bottom) := by
  intro sources scope
  let a : Architecture := ⟨Architecture.layersOf [("A", []), ("B", [])], by decide⟩
  have paths : ∀ source ∈ sources, '\n' ∉ source.1.text.toList := by decide
  have directory : '\n' ∉ scope.source.text.toList := by decide
  have entries : ∀ entry ∈ scope.ignored, '\n' ∉ entry.toList := by decide
  have none : ∀ source ∈ sources, Source.declaredLineFeeds source.2 = 0 := by decide
  obtain ⟨top, bottom, first, last, has, -, -, whole⟩ :=
    text_lines ⟨a, Builtins.php⟩ sources scope 7 paths directory entries
  rw [whole none] at has
  exact ⟨a, (Architecture.build_eq_ok_iff _ a).mpr rfl, paths, directory, entries, none, top,
    bottom, first, last, has⟩

/-- A namespace in braces goes as far as the next semicolon, which is on the next line here. So the
report on this source has one line too many. -/
theorem text_lines_braces :
    let sources : List (Path × String) :=
      [(⟨"src/a.php"⟩,
        "<?php\nnamespace App \x7b\n    use Lib\\Thing;\n    class A \x7b\x7d\n\x7d\n")]
    let scope : Scope := ⟨⟨"src"⟩, []⟩
    ∃ a, Architecture.build [("Domain", [])] = .ok a ∧
      (∀ source ∈ sources, '\n' ∉ source.1.text.toList) ∧ '\n' ∉ scope.source.text.toList ∧
      (∀ entry ∈ scope.ignored, '\n' ∉ entry.toList) ∧
      let r := Analyzer.scan ⟨⟨a, Builtins.php⟩, .php⟩ sources 0
      ¬ ∃ lines, Text.HasLines (text false scope r) lines ∧ lines.length =
        1 + (if scope.ignored.isEmpty then 0 else 1) + r.scanned + r.issues + 3 := by
  intro sources scope
  let a : Architecture := ⟨Architecture.layersOf [("Domain", [])], by decide⟩
  have paths : ∀ source ∈ sources, '\n' ∉ source.1.text.toList := by decide
  have directory : '\n' ∉ scope.source.text.toList := by decide
  have entries : ∀ entry ∈ scope.ignored, '\n' ∉ entry.toList := by decide
  refine ⟨a, (Architecture.build_eq_ok_iff _ a).mpr rfl, paths, directory, entries, ?_⟩
  have broken : ¬ ∀ source ∈ sources, Source.declaredLineFeeds source.2 = 0 := by decide
  rintro r ⟨lines, has, length⟩
  exact broken ((length_lines_iff _ _ paths directory entries has).mp length)

end Report
end LayerGuard
