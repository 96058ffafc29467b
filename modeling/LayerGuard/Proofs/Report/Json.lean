import LayerGuard.Proofs.Json.RoundTrip
import LayerGuard.Report.Json

/-! # The JSON report can be read back

Whatever texts a result holds, the result that is read from its report is the same one: its files
in order, their violations in order, and the time. Only line numbers have to fit in 64 bits.
-/

namespace LayerGuard.Report

theorem readCount?_nat {n : Nat} (fits : n < Nat.pow 2 64) : readCount? (.nat n) = some n := by
  change (some n).filter (· < Nat.pow 2 64) = some n
  simp [Option.filter, fits]

theorem readList?_map {α : Type} {read? : Json → Option α} {write : α → Json} {xs : List α}
    (back : ∀ x ∈ xs, read? (write x) = some x) : readList? read? (.array (xs.map write)) = some xs :=
  Json.mapM_map_eq_pure back

theorem placeOfJson?_placeToJson {p : Place} (fits : p.line < Nat.pow 2 64) :
    placeOfJson? (placeToJson p) = some p := by
  have record : guard (isRecord 2 (placeToJson p)) = some () := rfl
  have file : member? "file" 0 (placeToJson p) = some (.string p.file.text) := rfl
  have line : member? "line" 1 (placeToJson p) = some (.nat p.line) := rfl
  rw [placeOfJson?, record]
  simp [file, line, readText?, readCount?_nat fits]

theorem violationOfJson?_violationToJson {v : Violation} (fits : v.place.line < Nat.pow 2 64) :
    violationOfJson? (violationToJson v) = some v := by
  have record : guard (isRecord 3 (violationToJson v)) = some () := rfl
  have place : member? "location" 0 (violationToJson v) = some (placeToJson v.place) := rfl
  have subject : member? "subject" 1 (violationToJson v) = some (.string v.subject) := rfl
  have used : member? "namespace" 2 (violationToJson v) = some (.string v.used) := rfl
  rw [violationOfJson?, record]
  simp [place, subject, used, readText?, placeOfJson?_placeToJson fits]

theorem fileOfJson?_fileToJson {r : FileReport}
    (fits : ∀ v ∈ r.violations, v.place.line < Nat.pow 2 64) : fileOfJson? (fileToJson r) = some r := by
  have record : guard (isRecord 3 (fileToJson r)) = some () := rfl
  have path : member? "path" 0 (fileToJson r) = some (.string r.path.text) := rfl
  have subject : member? "subject" 1 (fileToJson r) = some (.string r.subject) := rfl
  have violations : member? "violations" 2 (fileToJson r) =
    some (.array (r.violations.map violationToJson)) := rfl
  have back := readList?_map fun v member => violationOfJson?_violationToJson (fits v member)
  rw [fileOfJson?, record]
  simp [path, subject, violations, readText?, back]

theorem resultOfJson?_resultToJson {r : ScanResult}
    (fits : ∀ file ∈ r.files, ∀ v ∈ file.violations, v.place.line < Nat.pow 2 64) :
    resultOfJson? (resultToJson r) = some r := by
  have record : guard (isRecord 2 (resultToJson r)) = some () := rfl
  have files : member? "files" 0 (resultToJson r) = some (.array (r.files.map fileToJson)) := rfl
  have time : member? "elapsed_ms" 1 (resultToJson r) = some (.nat r.elapsedMs.toNat) := rfl
  have back := readList?_map fun file member => fileOfJson?_fileToJson (fits file member)
  have small := readCount?_nat r.elapsedMs.toNat_lt
  rw [resultOfJson?, record]
  simp [files, time, back, small]

/-- The JSON report of a result whose line numbers fit in 64 bits tells all of the result. -/
theorem readJson?_json (r : ScanResult)
    (fits : ∀ file ∈ r.files, ∀ v ∈ file.violations, v.place.line < Nat.pow 2 64) :
    readJson? (json r) = some r := by
  have newline : ∀ c ∈ ['\n'], Json.isJsonBlank c = true := by
    intro c member
    rw [List.mem_singleton.mp member]
    rfl
  have text : json r = String.ofList ((resultToJson r).write .indented 0 ++ ['\n']) := by
    rw [json, Json.indented, String.ofList_append]
  rw [readJson?, text, Json.parse?_write Json.Layout.blank_indented _ newline]
  exact resultOfJson?_resultToJson fits

/-- Quotes, backslashes, control characters, letters outside ASCII and the greatest numbers. -/
theorem readJson?_json_escaped :
    let violation : Violation :=
      ⟨⟨⟨"src/\"é\"\x00.php"⟩, 18446744073709551615⟩, "A\\é\n", "B\\u0041"⟩
    let r : ScanResult :=
      ⟨[⟨violation.place.file, "A\\é\n", [violation]⟩, ⟨⟨""⟩, "", []⟩], 18446744073709551615⟩
    violation.place.line < Nat.pow 2 64 ∧ readJson? (json r) = some r :=
  ⟨by decide, readJson?_json _ (by decide)⟩

end LayerGuard.Report
