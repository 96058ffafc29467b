import LayerGuard.Proofs.Source.NameText
import LayerGuard.Proofs.Text.Lines
import LayerGuard.Report.Format

/-! # The compact report is unambiguous

A line of the compact report ends with a name, and no name has a blank in it; in front of the name
stand fixed words, and in front of these a number, which has no colon in it. So a line is read from
its right end, whatever the path at its left holds, and the report tells the file, the line and the
name of every violation.
-/

namespace LayerGuard

theorem ScanResult.length_violations (r : ScanResult) : r.violations.length = r.issues := by
  rw [violations, issues]
  induction r.files with
  | nil => rfl
  | cons file files ih =>
    rw [List.flatMap_cons, List.length_append, ih, List.map_cons, List.foldr_cons]

/-- The file, the line and the name of a violation. -/
def Violation.entry (v : Violation) : Path × Nat × String := (v.place.file, v.place.line, v.used)

namespace Report

/-! ## Lines -/

def entryLine (entry : Path × Nat × String) : String :=
  entry.1.text ++ ":" ++ toString entry.2.1 ++ ": cannot use " ++ entry.2.2

theorem compact_eq (r : ScanResult) :
    compact r = Text.endLines ((r.violations.map Violation.entry).map entryLine) := by
  rw [compact, Text.endLines, List.map_map, List.map_map]
  rfl

/-- A file that is named on one line, and a name that has the form of one. -/
structure Legible (entry : Path × Nat × String) : Prop where
  file : '\n' ∉ entry.1.text.toList
  used : Source.IsName entry.2.2

theorem Legible.newline_not_mem {entry : Path × Nat × String} (legible : Legible entry) :
    '\n' ∉ (entryLine entry).toList := by
  have number : '\n' ∉ (toString entry.2.1).toList := Text.not_mem_toString (by decide) _
  simp only [entryLine, String.toList_append, List.mem_append, not_or]
  exact ⟨⟨⟨⟨legible.file, by decide⟩, number⟩, by decide⟩, legible.used.newline_not_mem⟩

/-- A line tells what it was made of. -/
theorem Legible.eq_of_entryLine_eq {entry other : Path × Nat × String} (legible : Legible entry)
    (legible' : Legible other) (same : entryLine entry = entryLine other) : entry = other := by
  -- The name stands behind the last blank, and the number behind the last colon before the words.
  have chars (e : Path × Nat × String) : (entryLine e).toList =
      (e.1.text.toList ++ ':' :: (toString e.2.1).toList ++ ": cannot use".toList) ++
        ' ' :: e.2.2.toList := by
    simp [entryLine]
  have parts := congrArg String.toList same
  rw [chars, chars] at parts
  obtain ⟨front, used⟩ :=
    Text.append_cons_inj_of_not_mem legible.used.space_not_mem legible'.used.space_not_mem parts
  obtain ⟨file, line⟩ := Text.append_cons_inj_of_not_mem (Text.not_mem_toString (by decide) _)
    (Text.not_mem_toString (by decide) _) (List.append_cancel_right front)
  obtain ⟨⟨path⟩, number, name⟩ := entry
  obtain ⟨⟨path'⟩, number', name'⟩ := other
  obtain rfl : path = path' := String.toList_inj.mp file
  obtain rfl : number = number' := Text.toString_inj line
  obtain rfl : name = name' := String.toList_inj.mp used
  rfl

theorem eq_of_entryLines_eq {entries others : List (Path × Nat × String)}
    (legible : ∀ e ∈ entries, Legible e) (legible' : ∀ e ∈ others, Legible e)
    (same : entries.map entryLine = others.map entryLine) : entries = others := by
  induction entries generalizing others with
  | nil => exact (List.map_eq_nil_iff.mp same.symm).symm
  | cons e entries ih =>
    cases others with
    | nil => cases same
    | cons f others =>
      obtain ⟨here, rest⟩ := List.cons.inj same
      have first := (legible e (List.mem_cons_self ..)).eq_of_entryLine_eq
        (legible' f (List.mem_cons_self ..)) here
      have others := ih (fun e member => legible e (List.mem_cons_of_mem _ member))
        (fun e member => legible' e (List.mem_cons_of_mem _ member)) rest
      rw [first, others]

/-! ## The report -/

/-- Legible violations have a line each. -/
theorem hasLines_compact {r : ScanResult}
    (legible : ∀ e ∈ r.violations.map Violation.entry, Legible e) :
    Text.HasLines (compact r) ((r.violations.map Violation.entry).map entryLine) := by
  have free : ∀ line ∈ (r.violations.map Violation.entry).map entryLine, '\n' ∉ line.toList := by
    intro line member
    obtain ⟨e, listed, rfl⟩ := List.mem_map.mp member
    exact (legible e listed).newline_not_mem
  have lines := Text.hasLines_endLines ((r.violations.map Violation.entry).map entryLine)
  rwa [Text.flatMap_split_of_free free, ← compact_eq] at lines

/-- Results of legible violations have the same compact report exactly if the files, lines and names
of their violations are the same in the same order, and each violation has a line of its own. -/
theorem compact_unambiguous {r s : ScanResult} (legible : ∀ v ∈ r.violations, Legible v.entry)
    (legible' : ∀ v ∈ s.violations, Legible v.entry) :
    (compact r = compact s ↔ r.violations.map Violation.entry = s.violations.map Violation.entry) ∧
      ∃ lines, Text.HasLines (compact r) lines ∧ lines.length = r.issues := by
  rw [← List.forall_mem_map] at legible legible'
  have lines := hasLines_compact legible
  refine ⟨⟨?_, ?_⟩, _, lines, ?_⟩
  · intro same
    rw [same] at lines
    exact eq_of_entryLines_eq legible legible' (lines.unique (hasLines_compact legible'))
  · intro same
    rw [compact_eq, compact_eq, same]
  · rw [List.length_map, List.length_map, r.length_violations]

/-- A path that itself reads like the beginning of a line, and a letter outside ASCII in a name. -/
theorem compact_unambiguous_nested :
    let v : Violation := ⟨⟨⟨"x:1: cannot use A"⟩, 2⟩, "N\\x", "Bé\\C"⟩
    let w : Violation := ⟨⟨⟨"x"⟩, 1⟩, "N\\x", "A"⟩
    let r : ScanResult := ⟨[⟨⟨"x"⟩, "N\\x", [v, w]⟩], 0⟩
    let s : ScanResult := ⟨[⟨⟨"y"⟩, "M\\x", [v]⟩, ⟨⟨"x"⟩, "N\\x", [w]⟩], 7⟩
    Legible v.entry ∧ Legible w.entry ∧
      (compact r = compact s ↔
        r.violations.map Violation.entry = s.violations.map Violation.entry) ∧
      ∃ lines, Text.HasLines (compact r) lines ∧ lines.length = r.issues := by
  intro v w r s
  have first : Legible v.entry := by
    refine ⟨by decide, ⟨66, [0xC3, 0xA9], by decide, List.all_eq_true.mp rfl⟩,
      [⟨67, [], by decide, List.all_eq_true.mp rfl⟩], by decide⟩
  have second : Legible w.entry := by
    refine ⟨by decide, ⟨65, [], by decide, List.all_eq_true.mp rfl⟩, [], by decide⟩
  refine ⟨first, second, compact_unambiguous ?_ ?_⟩
  · rintro u (_ | ⟨_, _ | ⟨_, ⟨⟩⟩⟩)
    · exact first
    · exact second
  · rintro u (_ | ⟨_, _ | ⟨_, ⟨⟩⟩⟩)
    · exact first
    · exact second

end Report
end LayerGuard
