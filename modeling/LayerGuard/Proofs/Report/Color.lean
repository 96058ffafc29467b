import LayerGuard.Proofs.Json.Characters
import LayerGuard.Proofs.Report.Compact
import LayerGuard.Proofs.Report.Text

/-! # Colours

A terminal sequence begins with an escape character and a bracket and goes through the next `m`. A
report whose texts have no escape character shows it only where a style begins or ends. So taking
the sequences out of the coloured report leaves the uncoloured one, whatever brackets, digits and
letters stand in the texts. Only the text report knows colours, and the other forms have no escape
character at all: JSON writes it in digits.
-/

namespace LayerGuard

namespace Text

/-! ## Taking out terminal sequences -/

/-- The characters left when every sequence from an escape character and a bracket through the next
`m` is taken out. Inside a sequence everything is passed over up to its end. -/
def dropSequences (inside : Bool) : List Char → List Char
  | [] => []
  | c :: cs =>
    if inside then dropSequences (c != 'm') cs
    else if c == '\x1b' && cs.head? == some '[' && cs.contains 'm' then dropSequences true cs
    else c :: dropSequences false cs

/-- A text without its terminal sequences. -/
def withoutSequences (s : String) : String := String.ofList (dropSequences false s.toList)

/-- A text that is a terminal sequence. -/
def IsSequence (s : String) : Prop :=
  ∃ parameters, 'm' ∉ parameters ∧ s.toList = '\x1b' :: '[' :: parameters ++ ['m']

theorem dropSequences_inside {parameters : List Char} (free : 'm' ∉ parameters)
    (rest : List Char) :
    dropSequences true (parameters ++ 'm' :: rest) = dropSequences false rest := by
  induction parameters with
  | nil => rfl
  | cons c parameters ih =>
    rw [List.mem_cons, not_or] at free
    obtain ⟨here, later⟩ := free
    have goes : (c != 'm') = true := bne_iff_ne.mpr (Ne.symm here)
    rw [List.cons_append, dropSequences, if_pos rfl, goes]
    exact ih later

/-- What is left of `written` is `kept`, whatever follows. -/
def LeavesOf (written kept : String) : Prop :=
  ∀ rest, dropSequences false (written.toList ++ rest) = kept.toList ++ dropSequences false rest

theorem LeavesOf.withoutSequences_eq {written kept : String} (leaves : LeavesOf written kept) :
    withoutSequences written = kept := by
  have whole := leaves []
  rw [List.append_nil, dropSequences, List.append_nil] at whole
  rw [withoutSequences, whole, String.ofList_toList]

theorem LeavesOf.append {written kept written' kept' : String} (leaves : LeavesOf written kept)
    (leaves' : LeavesOf written' kept') : LeavesOf (written ++ written') (kept ++ kept') := by
  intro rest
  rw [String.toList_append, String.toList_append, List.append_assoc, leaves, leaves',
    List.append_assoc]

/-- A text without escape characters stays as it is. -/
theorem leavesOf_free {s : String} (free : '\x1b' ∉ s.toList) : LeavesOf s s := by
  intro rest
  generalize s.toList = cs at free
  induction cs with
  | nil => rfl
  | cons c cs ih =>
    rw [List.mem_cons, not_or] at free
    obtain ⟨here, later⟩ := free
    have other : (c == '\x1b') = false := beq_eq_false_iff_ne.mpr (Ne.symm here)
    rw [List.cons_append, dropSequences, other]
    simp only [Bool.false_and, Bool.false_eq_true, ↓reduceIte]
    rw [ih later, List.cons_append]

theorem dropSequences_open {cs : List Char} (ends : 'm' ∈ cs) :
    dropSequences false ('\x1b' :: '[' :: cs) = dropSequences true cs := by
  have closes : ('[' :: cs).contains 'm' = true :=
    List.contains_iff_mem.mpr (List.mem_cons_of_mem _ ends)
  rw [dropSequences, closes]
  rfl

/-- Nothing is left of a terminal sequence. -/
theorem IsSequence.leavesOf {s : String} (isSequence : IsSequence s) : LeavesOf s "" := by
  intro rest
  obtain ⟨parameters, free, written⟩ := isSequence
  have chars : s.toList ++ rest = '\x1b' :: '[' :: (parameters ++ 'm' :: rest) := by
    rw [written]
    simp
  rw [chars, dropSequences_open (by simp), dropSequences_inside free]
  rfl

example : withoutSequences "\x1b[1;31m[0m\x1b[0m \x1b[3" = "[0m \x1b[3" := by decide

theorem leavesOf_join {α : Type} {items : List α} {written kept : α → String}
    (each : ∀ item ∈ items, LeavesOf (written item) (kept item)) :
    LeavesOf (String.join (items.map written)) (String.join (items.map kept)) := by
  induction items with
  | nil => exact leavesOf_free List.not_mem_nil
  | cons item items ih =>
    obtain ⟨here, later⟩ := List.forall_mem_cons.mp each
    rw [List.map_cons, List.map_cons, String.join_cons, String.join_cons]
    exact here.append (ih later)

theorem not_mem_endLines {c : Char} (other : c ≠ '\n') {lines : List String}
    (free : ∀ line ∈ lines, c ∉ line.toList) : c ∉ (endLines lines).toList := by
  rw [endLines, String.toList_join, List.mem_flatMap]
  rintro ⟨_, listed, inside⟩
  obtain ⟨line, member, rfl⟩ := List.mem_map.mp listed
  rw [String.toList_append, List.mem_append] at inside
  rcases inside with here | feed
  · exact free line member here
  · exact other (List.mem_singleton.mp feed)

end Text

namespace Report

/-! ## The text report -/

theorem Style.isSequence (style : Style) : Text.IsSequence style.sequence := by
  cases style with
  | yellow => exact ⟨['3', '3'], by decide, rfl⟩
  | green => exact ⟨['3', '2'], by decide, rfl⟩
  | boldRed => exact ⟨['1', ';', '3', '1'], by decide, rfl⟩
  | gray => exact ⟨['9', '0'], by decide, rfl⟩

theorem isSequence_reset : Text.IsSequence resetSequence := ⟨['0'], by decide, rfl⟩

theorem leavesOf_span {s : Span} (free : '\x1b' ∉ s.text.toList) :
    Text.LeavesOf (s.render true) (s.render false) := by
  obtain ⟨style?, text⟩ := s
  cases style? with
  | none => exact Text.leavesOf_free free
  | some style =>
    have painted := (style.isSequence.leavesOf.append (Text.leavesOf_free free)).append
      isSequence_reset.leavesOf
    rwa [String.empty_append, String.append_empty] at painted

theorem leavesOf_renderLines {lines : List Line}
    (free : ∀ line ∈ lines, ∀ s ∈ line, '\x1b' ∉ s.text.toList) :
    Text.LeavesOf (renderLines true lines) (renderLines false lines) := by
  refine Text.leavesOf_join fun line member => ?_
  have spans := Text.leavesOf_join fun s listed => leavesOf_span (free line member s listed)
  exact spans.append (Text.leavesOf_free (by decide))

/-- A style shows in coloured lines. -/
theorem escape_mem_renderLines {style : Style} {words : String} {line : Line} {lines : List Line}
    (painted : styled style words ∈ line) (listed : line ∈ lines) :
    '\x1b' ∈ (renderLines true lines).toList := by
  have span : '\x1b' ∈ ((styled style words).render true).toList := by
    obtain ⟨parameters, _, opens⟩ := style.isSequence
    have shape : (styled style words).render true = style.sequence ++ words ++ resetSequence := rfl
    rw [shape, String.toList_append, String.toList_append, opens]
    simp
  have inLine : '\x1b' ∈ (renderLine true line).toList := by
    rw [renderLine, String.toList_append, String.toList_join, List.mem_append, List.mem_flatMap]
    exact .inl ⟨_, List.mem_map_of_mem painted, span⟩
  rw [renderLines, String.toList_join, List.mem_flatMap]
  exact ⟨_, List.mem_map_of_mem listed, inLine⟩

/-- An uncoloured report has no character that none of its spans has, line feeds apart. -/
theorem not_mem_uncoloured {c : Char} (other : c ≠ '\n') {scope : Scope} {r : ScanResult}
    (free : ∀ line ∈ textLines scope r, ∀ s ∈ line, c ∉ s.text.toList) :
    c ∉ (text false scope r).toList := by
  rw [text_uncoloured]
  refine Text.not_mem_endLines other ?_
  intro _ listed
  obtain ⟨line, member, rfl⟩ := List.mem_map.mp listed
  exact not_mem_plainText (free line member)

/-! ## All forms -/

/-- A character that stands in no text of a result and of what was scanned that some report shows
as it is. The path of a file is not among them: only JSON has it, in its own writing. -/
structure FreeOf (c : Char) (scope : Scope) (r : ScanResult) : Prop where
  source : c ∉ scope.source.text.toList
  ignored : ∀ entry ∈ scope.ignored, c ∉ entry.toList
  subjects : ∀ file ∈ r.files, c ∉ file.subject.toList
  violations : ∀ v ∈ r.violations,
    c ∉ v.place.file.text.toList ∧ c ∉ v.subject.toList ∧ c ∉ v.used.toList

section FreeOf

variable {c : Char} {scope : Scope} {r : ScanResult} (free : FreeOf c scope r)
  (control : c.toNat < 32)

include free control

theorem FreeOf.not_mem_message {v : Violation} (member : v ∈ r.violations) :
    c ∉ v.message.toList := by
  obtain ⟨_, subject, used⟩ := free.violations v member
  simp only [Violation.message, String.toList_append, List.mem_append, not_or]
  exact ⟨⟨⟨⟨subject, control_not_mem control rfl⟩, control_not_mem_number control _⟩,
    control_not_mem control rfl⟩, used⟩

theorem FreeOf.not_mem_fileLines {file : FileReport} (member : file ∈ r.files) :
    ∀ line ∈ fileLines file, ∀ s ∈ line, c ∉ s.text.toList := by
  intro line listed
  rcases List.mem_cons.mp listed with rfl | listed
  · have verdict : c ∉ (if file.isOk then styled .green "[OK]"
        else styled .boldRed "[ERROR]").text.toList := by
      cases file.isOk with
      | true => exact control_not_mem control rfl
      | false => exact control_not_mem control rfl
    simp only [List.forall_mem_cons]
    exact ⟨control_not_mem control rfl, verdict, control_not_mem control rfl,
      free.subjects file member, List.forall_mem_nil _⟩
  · obtain ⟨v, found, rfl⟩ := List.mem_map.mp listed
    refine List.forall_mem_singleton.mpr (free.not_mem_message control ?_)
    exact List.mem_flatMap.mpr ⟨file, member, found⟩

theorem FreeOf.not_mem_textLines :
    ∀ line ∈ textLines scope r, ∀ s ∈ line, c ∉ s.text.toList := by
  have parts : textLines scope r =
      topLines scope ++ r.files.flatMap fileLines ++ summaryLines r := rfl
  rw [parts, List.forall_mem_append, List.forall_mem_append]
  refine ⟨⟨control_not_mem_topLines control free.source free.ignored, ?_⟩,
    control_not_mem_summaryLines control r⟩
  intro line listed
  obtain ⟨file, member, inside⟩ := List.mem_flatMap.mp listed
  exact free.not_mem_fileLines control member line inside

theorem FreeOf.not_mem_compact (other : c ≠ '\n') : c ∉ (compact r).toList := by
  rw [compact_eq, List.map_map]
  refine Text.not_mem_endLines other ?_
  intro _ listed
  obtain ⟨v, member, rfl⟩ := List.mem_map.mp listed
  obtain ⟨file, _, used⟩ := free.violations v member
  simp only [Function.comp_apply, entryLine, String.toList_append, List.mem_append, not_or]
  exact ⟨⟨⟨⟨file, control_not_mem control rfl⟩, control_not_mem_number control _⟩,
    control_not_mem control rfl⟩, used⟩

end FreeOf

theorem not_mem_json {c : Char} (control : c.toNat < 32) (other : c ≠ '\n') (r : ScanResult) :
    c ∉ (json r).toList := by
  change c ∉ ((resultToJson r).indented ++ "\n").toList
  rw [String.toList_append, List.mem_append]
  rintro (written | feed)
  · rcases Json.isShown_of_mem_indented written with shown | feed
    · exact absurd (of_decide_eq_true shown) (Nat.not_le_of_lt control)
    · exact other feed
  · exact other (List.mem_singleton.mp feed)

/-- If no text of a result and of what was scanned has an escape character, then in every form the
coloured report without its terminal sequences is the uncoloured one, and that has no escape
character. Only the text report has colours to lose. -/
theorem render_withoutSequences (format : Format) {scope : Scope} {r : ScanResult}
    (free : FreeOf '\x1b' scope r) :
    Text.withoutSequences (render format true scope r) = render format false scope r ∧
      '\x1b' ∉ (render format false scope r).toList ∧
      ('\x1b' ∈ (render format true scope r).toList ↔ format = .text) := by
  have control : '\x1b'.toNat < 32 := by decide
  have other : '\x1b' ≠ '\n' := by decide
  cases format with
  | text =>
    have spans := free.not_mem_textLines control
    -- The directory at the top has a style in every report.
    have top : [plain "Scanning directory: ", styled .yellow scope.source.text] ∈
        textLines scope r := List.mem_cons_self ..
    have directory : '\x1b' ∈ (text true scope r).toList :=
      escape_mem_renderLines (List.mem_cons_of_mem _ (List.mem_singleton_self _)) top
    exact ⟨(leavesOf_renderLines spans).withoutSequences_eq, not_mem_uncoloured other spans,
      iff_of_true directory rfl⟩
  | json =>
    have none := not_mem_json control other r
    exact ⟨(Text.leavesOf_free none).withoutSequences_eq, none, iff_of_false none nofun⟩
  | compact =>
    have none := free.not_mem_compact control other
    exact ⟨(Text.leavesOf_free none).withoutSequences_eq, none, iff_of_false none nofun⟩

/-- Texts that look like the inside of a sequence stay. -/
theorem render_withoutSequences_bracket :
    let scope : Scope := ⟨⟨"src[0m"⟩, ["[33m", "m"]⟩
    let r : ScanResult := ⟨[⟨⟨"\x1b[1m.php"⟩, "[90m", [⟨⟨⟨"a;1m.php"⟩, 3⟩, "[90m", "App\\[m"⟩]⟩], 5⟩
    Text.withoutSequences (render .text true scope r) = render .text false scope r ∧
      '\x1b' ∉ (render .text false scope r).toList ∧
      ('\x1b' ∈ (render .text true scope r).toList ↔ Format.text = .text) := by
  have words {s : String} (printable : s.toList.all (32 ≤ ·.toNat) = true) :
      '\x1b' ∉ s.toList := control_not_mem (by decide) printable
  refine render_withoutSequences .text ⟨words rfl, ?_, ?_, ?_⟩
  · simp only [List.forall_mem_cons]
    exact ⟨words rfl, words rfl, List.forall_mem_nil _⟩
  · exact List.forall_mem_singleton.mpr (words rfl)
  · exact List.forall_mem_singleton.mpr ⟨words rfl, words rfl, words rfl⟩

end Report
end LayerGuard
