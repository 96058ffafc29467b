import LayerGuard.Proofs.Source.Interpolation
import LayerGuard.Proofs.Source.Layout
import LayerGuard.Proofs.Text.Utf8

/-! # The spellings of a variable in a literal

A variable in a literal is written with the dollar in front of the brace or behind it. Behind the
brace it is a variable like any other. In front of it the label alone is read as code, and a label
that is the keyword then opens a declaration, which takes all names from there to the next
semicolon. So the two spellings are the same to every text behind the literal unless the variable
is called like the keyword and no declaration is open yet.
-/

namespace LayerGuard.Source

/-- The spellings of a variable in a literal. -/
inductive Spelling where
  | dollarFirst
  | braceFirst
  deriving DecidableEq, Repr

namespace Spelling

def text (name : String) : Spelling → String
  | dollarFirst => "$\x7b" ++ name ++ "\x7d"
  | braceFirst => "\x7b$" ++ name ++ "\x7d"

def bytes (label : Label) : Spelling → List UInt8
  | dollarFirst => ascii '$' :: ascii '\x7b' :: (label.bytes ++ [ascii '\x7d'])
  | braceFirst => ascii '\x7b' :: ascii '$' :: (label.bytes ++ [ascii '\x7d'])

/-- Whether the label is taken for the keyword that opens a declaration. -/
def declares (label : Label) : Spelling → Bool
  | dollarFirst => label.isKeyword
  | braceFirst => false

theorem bytesOf_text {name : String} {label : Label} (written : Text.bytesOf name = label.bytes)
    (spelling : Spelling) : Text.bytesOf (spelling.text name) = spelling.bytes label := by
  cases spelling <;> rw [text, Text.bytesOf_append, Text.bytesOf_append, written] <;> rfl

end Spelling

/-- Whether a text between double quotes stands for itself byte by byte. -/
def isPlain (text : List UInt8) : Bool :=
  text.all fun b => b != ascii '"' && b != separator && b != ascii '\x7b' && b != ascii '$'

namespace Cursor

/-- A plain text is passed byte by byte. -/
theorem run_plain (c : Cursor) (quoted : c.state.mode = .quoted Quote.double.byte)
    {text : List UInt8} (plain : isPlain text = true) (rest : List UInt8) :
    c.run (text ++ rest) = (c.skip c.state text).run rest := by
  induction text generalizing c with
  | nil => rfl
  | cons b text ih =>
    obtain ⟨byte, plain⟩ := Bool.and_eq_true_iff.mp plain
    simp only [Bool.and_eq_true, bne_iff_ne] at byte
    obtain ⟨⟨⟨unquoted, unescaped⟩, unbraced⟩, undollared⟩ := byte
    have moves : c.state.move b (text ++ rest) = c.state.pass 0 := by
      simp only [State.move, quoted]
      rw [State.quotedMove_text _ _ unquoted unescaped]
      apply State.textMove_plain
      · rw [beq_eq_false_iff_ne.mpr unbraced, Bool.false_and]
      · rw [beq_eq_false_iff_ne.mpr undollared, Bool.false_and]
    rw [List.cons_append, Cursor.run_byte moves, ih (c.skip c.state [b]) quoted plain,
      Cursor.skip_skip]
    rfl

variable {c : Cursor} {outer : List Mode} {isOpen : Bool}

/-- A label in embedded code opens a declaration if it is the keyword. -/
theorem run_embeddedLabel (state : c.state = ⟨.embedded 0, outer, isOpen, false⟩) (label : Label)
    (rest : List UInt8) :
    c.run (label.bytes ++ ascii '\x7d' :: rest) =
      (c.skip ⟨.embedded 0, outer, isOpen || label.isKeyword, false⟩ label.bytes).run
        (ascii '\x7d' :: rest) := by
  have moves : c.state.move label.first ((joinLabels label []).tail ++ ascii '\x7d' :: rest) =
      State.pass ⟨.embedded 0, outer, isOpen || label.isKeyword, false⟩
        (joinLabels label []).tail.length := by
    rw [state, State.move_of_isCode rfl, State.codeMove_label _ _ label.starts,
      State.name_joinLabels _ _ _ _ (nameBytes_of_stop rfl)]
    cases label.isKeyword <;> simp [State.pass]
  rw [← joinLabels_nil label]
  exact Cursor.run_pass _ moves rfl

/-- A variable in embedded code leaves the state alone. -/
theorem run_embeddedDollar (state : c.state = ⟨.embedded 0, outer, isOpen, false⟩) (label : Label)
    (rest : List UInt8) :
    c.run (ascii '$' :: (label.bytes ++ ascii '\x7d' :: rest)) =
      (c.skip ⟨.embedded 0, outer, isOpen, false⟩ (ascii '$' :: label.bytes)).run
        (ascii '\x7d' :: rest) := by
  have moves : c.state.move (ascii '$') (label.bytes ++ ascii '\x7d' :: rest) =
      State.pass ⟨.embedded 0, outer, isOpen, false⟩ label.bytes.length := by
    rw [state, State.move_of_isCode rfl, State.codeMove_dollar,
      runLength_append (fun _ => label.isLabelByte_of_mem) rfl]
  exact Cursor.run_pass _ moves rfl

/-- The brace behind a variable leads back into the literal. -/
theorem run_lastBrace {mode : Mode} (state : c.state = ⟨.embedded 0, mode :: outer, isOpen, false⟩)
    (rest : List UInt8) :
    c.run (ascii '\x7d' :: rest) =
      (c.skip ⟨mode, outer, isOpen, false⟩ [ascii '\x7d']).run rest := by
  refine Cursor.run_byte ?_
  rw [state, State.move_of_isCode rfl, State.codeMove_lastBrace rfl]
  rfl

/-- Behind a variable the scanner is in the literal again, and at most the label itself has opened
a declaration. -/
theorem run_variable (state : c.state = ⟨.quoted Quote.double.byte, outer, isOpen, false⟩)
    (spelling : Spelling) (label : Label) (rest : List UInt8) :
    c.run (spelling.bytes label ++ rest) =
      (c.skip ⟨.quoted Quote.double.byte, outer, isOpen || spelling.declares label, false⟩
        (spelling.bytes label)).run rest := by
  cases spelling with
  | dollarFirst =>
    have opens : c.state.move (ascii '$')
        ([ascii '\x7b'] ++ (label.bytes ++ ascii '\x7d' :: rest)) =
          State.pass ⟨.embedded 0, .quoted Quote.double.byte :: outer, isOpen, false⟩ 1 := by
      rw [state]
      exact State.quotedMove_text _ _ (by decide) (by decide)
    have run := (Cursor.run_pass _ opens rfl).trans (run_embeddedLabel rfl label rest)
    rw [run_lastBrace rfl, Cursor.skip_skip, Cursor.skip_skip] at run
    simpa only [Spelling.bytes, Spelling.declares, Bool.or_false, List.cons_append,
      List.nil_append, List.append_assoc] using run
  | braceFirst =>
    have opens : c.state.move (ascii '\x7b')
        (ascii '$' :: (label.bytes ++ ascii '\x7d' :: rest)) =
          State.pass ⟨.embedded 0, .quoted Quote.double.byte :: outer, isOpen, false⟩ 0 := by
      rw [state]
      exact State.quotedMove_text _ _ (by decide) (by decide)
    have run := (Cursor.run_byte opens).trans (run_embeddedDollar rfl label rest)
    rw [run_lastBrace rfl, Cursor.skip_skip, Cursor.skip_skip] at run
    simpa only [Spelling.bytes, Spelling.declares, Bool.or_false, List.cons_append,
      List.nil_append, List.append_assoc] using run

end Cursor

/-! ## A literal with a variable -/

/-- A literal with a variable between two texts. -/
def variableLiteral (spelling : Spelling) (label : Label) (x y : List UInt8) : List UInt8 :=
  [ascii '"'] ++ x ++ spelling.bytes label ++ y ++ [ascii '"']

/-- The reading behind a literal with a variable. -/
def Reading.behindVariable (r : Reading) (spelling : Spelling) (label : Label)
    (x y : List UInt8) : Reading where
  inDeclaration := r.inDeclaration || spelling.declares label
  afterMember := false
  offset := r.offset + (variableLiteral spelling label x y).length
  line := r.line + lineFeeds (variableLiteral spelling label x y)

variable {x y : List UInt8}

/-- Behind a literal with a variable the scanner stands where the reading says. -/
theorem Reading.run_variableLiteral (r : Reading) (found : List Occurrence) (spelling : Spelling)
    (label : Label) (plainX : isPlain x = true) (plainY : isPlain y = true) (rest : List UInt8) :
    (r.cursor found).run (variableLiteral spelling label x y ++ rest) =
      ((r.behindVariable spelling label x y).cursor found).run rest := by
  have opens (rest : List UInt8) : (r.cursor found).run (ascii '"' :: rest) =
      ((r.cursor found).skip ⟨.quoted Quote.double.byte, [.code], r.inDeclaration, false⟩
        [ascii '"']).run rest := by
    refine Cursor.run_byte ?_
    rw [State.move_of_code rfl]
    exact State.codeMove_quote _ .double _
  have closes {c : Cursor} {isOpen : Bool}
      (state : c.state = ⟨.quoted Quote.double.byte, [.code], isOpen, false⟩) :
      c.run (ascii '"' :: rest) = (c.skip ⟨.code, [], isOpen, false⟩ [ascii '"']).run rest := by
    refine Cursor.run_byte ?_
    rw [state]
    exact State.quotedMove_close _ .double _
  simp only [variableLiteral, List.append_assoc, List.cons_append, List.nil_append]
  rw [opens, Cursor.run_plain _ rfl plainX, Cursor.run_variable rfl, Cursor.run_plain _ rfl plainY,
    closes rfl]
  simp only [Cursor.skip_skip]
  rfl

/-- The spellings are the same bytes in another order, so they agree on the position behind them. -/
theorem variableLiteral_perm (label : Label) (x y : List UInt8) :
    (variableLiteral .dollarFirst label x y).Perm (variableLiteral .braceFirst label x y) :=
  (((List.Perm.swap _ _ _).append_left _).append_right _).append_right _

/-- Behind a literal the spellings leave the same reading unless one opens a declaration. -/
theorem Reading.behindVariable_congr (r : Reading) (label : Label) (x y : List UInt8)
    (same : label.isKeyword = false ∨ r.inDeclaration = true) :
    r.behindVariable .dollarFirst label x y = r.behindVariable .braceFirst label x y := by
  have perm := variableLiteral_perm label x y
  have isOpen : (r.inDeclaration || label.isKeyword) = r.inDeclaration := by
    rcases same with ordinary | isOpen
    · rw [ordinary, Bool.or_false]
    · rw [isOpen, Bool.true_or]
  simp only [behindVariable, perm.length_eq, lineFeeds, perm.count_eq, Spelling.declares, isOpen,
    Bool.or_false]

/-- The scan of code, a literal with a variable and whatever follows it. -/
theorem Layout.run_variableLiteral {layout : Layout} (apart : layout.parted [ascii '"'] = true)
    (spelling : Spelling) (label : Label) (plainX : isPlain x = true) (plainY : isPlain y = true)
    (rest : List UInt8) :
    Cursor.start.run (openTag ++ layout.bytes ++ (variableLiteral spelling label x y ++ rest)) =
      (((layout.behind .start).behindVariable spelling label x y).cursor
        (layout.occurrences .start).reverse).run rest := by
  rw [layout.parted_congr [] _ (by decide)] at apart
  exact (layout.run_openTag apart).trans
    (Reading.run_variableLiteral _ _ spelling label plainX plainY rest)

/-! ## What the spelling changes -/

/-- A text with one name, `A\B`. -/
def oneName : Layout :=
  [.blank (ascii ' ') rfl,
    .token (.qualified ⟨ascii 'A', [], rfl, nofun⟩ (by decide) ⟨ascii 'B', [], rfl, nofun⟩ [])]

/-- The name is recorded unless a declaration is open. -/
theorem length_run_oneName (r : Reading) (found : List Occurrence) :
    ((r.cursor found).run oneName.bytes).found.length =
      (if r.inDeclaration then 0 else 1) + found.length := by
  have names : (oneName.occurrences r).length = if r.inDeclaration then 0 else 1 := by
    obtain ⟨isOpen, member, offset, line⟩ := r
    cases isOpen <;> rfl
  rw [oneName.run_whole r found (by decide), ← names, Reading.cursor, List.length_append,
    List.length_reverse]

/-- A source in which a variable stands in a literal behind some code. -/
def variableSource (spelling : Spelling) (code x name y post : String) : String :=
  "<?php " ++ code ++ "\"" ++ x ++ spelling.text name ++ y ++ "\"" ++ post

theorem bytesOf_variableSource {layout : Layout} {label : Label} {code name : String}
    (written : Text.bytesOf code = layout.bytes) (named : Text.bytesOf name = label.bytes)
    (spelling : Spelling) (x y post : String) :
    Text.bytesOf (variableSource spelling code x name y post) = openTag ++ layout.bytes ++
      (variableLiteral spelling label (Text.bytesOf x) (Text.bytesOf y) ++ Text.bytesOf post) := by
  have tag : Text.bytesOf "<?php " = openTag := rfl
  have quote : Text.bytesOf "\"" = [ascii '"'] := rfl
  change Text.bytesOf ("<?php " ++ code ++ "\"" ++ x ++ spelling.text name ++ y ++ "\"" ++ post) = _
  simp only [variableLiteral, Text.bytesOf_append, written, Spelling.bytesOf_text named, tag, quote,
    List.append_assoc]

/-- The two spellings of a variable are the same to every text behind the literal, unless the
variable is called like the keyword and no declaration is open. -/
theorem references_spelling_iff (layout : Layout) (label : Label) {code x name y : String}
    (written : Text.bytesOf code = layout.bytes) (apart : layout.parted [ascii '"'] = true)
    (named : Text.bytesOf name = label.bytes) (plainX : isPlain (Text.bytesOf x) = true)
    (plainY : isPlain (Text.bytesOf y) = true) :
    (∀ post, references (variableSource .dollarFirst code x name y post) =
        references (variableSource .braceFirst code x name y post)) ↔
      label.isKeyword = false ∨ (layout.behind .start).inDeclaration = true := by
  have scan (spelling : Spelling) (post : String) :
      Cursor.start.run (Text.bytesOf (variableSource spelling code x name y post)) = _ :=
    (congrArg _ (bytesOf_variableSource written named spelling x y post)).trans
      (Layout.run_variableLiteral apart spelling label plainX plainY (Text.bytesOf post))
  constructor
  · intro same
    -- The text `A\B` tells the spellings apart by the number of names.
    have probe : Text.bytesOf " A\\B" = oneName.bytes := by decide
    have count (spelling : Spelling) :
        (references (variableSource spelling code x name y " A\\B")).length =
          (if (layout.behind .start).inDeclaration || spelling.declares label then 0 else 1) +
            (layout.occurrences .start).length := by
      rw [references, List.length_map, occurrences, List.length_reverse, scan, probe,
        length_run_oneName, List.length_reverse]
      rfl
    have lengths := congrArg List.length (same " A\\B")
    rw [count, count] at lengths
    cases isOpen : (layout.behind .start).inDeclaration with
    | true => exact .inr rfl
    | false =>
      refine .inl (Bool.eq_false_iff.mpr fun keyword => ?_)
      simp [isOpen, Spelling.declares, keyword] at lengths
  · intro agree post
    rw [references, references, occurrences, occurrences, scan, scan,
      Reading.behindVariable_congr _ _ _ _ agree]

/-- Behind a finished statement the keyword tells the spellings apart, in capitals too, and a label
that only begins with it does not. -/
theorem references_spelling_iff_keyword :
    let word : Label :=
      ⟨ascii 'n', "AMESPACE".toList.map ascii, by decide, List.all_eq_true.mp rfl⟩
    let longer : Label :=
      ⟨ascii 'n', "amespaces".toList.map ascii, by decide, List.all_eq_true.mp rfl⟩
    let layout : Layout :=
      [.token (.keyword word (by decide)), .blank newline (by decide), .token .semicolon,
        .token (.punctuation (ascii '(') (by decide))]
    let code := "nAMESPACE\n;("
    (Text.bytesOf code = layout.bytes ∧ layout.parted [ascii '"'] = true ∧
      Text.bytesOf "nAMESPACE" = word.bytes ∧ Text.bytesOf "namespaces" = longer.bytes ∧
      isPlain (Text.bytesOf "x\n") = true ∧ isPlain (Text.bytesOf "'") = true) ∧
    (¬ ∀ post, references (variableSource .dollarFirst code "x\n" "nAMESPACE" "'" post) =
      references (variableSource .braceFirst code "x\n" "nAMESPACE" "'" post)) ∧
    ∀ post, references (variableSource .dollarFirst code "x\n" "namespaces" "'" post) =
      references (variableSource .braceFirst code "x\n" "namespaces" "'" post) := by
  intro word longer layout code
  have written : Text.bytesOf code = layout.bytes := by decide
  have apart : layout.parted [ascii '"'] = true := by decide
  have named : Text.bytesOf "nAMESPACE" = word.bytes := by decide
  have other : Text.bytesOf "namespaces" = longer.bytes := by decide
  have plainX : isPlain (Text.bytesOf "x\n") = true := by decide
  have plainY : isPlain (Text.bytesOf "'") = true := by decide
  refine ⟨⟨written, apart, named, other, plainX, plainY⟩, ?_, ?_⟩
  · rw [references_spelling_iff layout word written apart named plainX plainY]
    decide
  · exact (references_spelling_iff layout longer written apart other plainX plainY).mpr
      (by decide)

/-- A name that is lost behind one spelling of a variable and found behind the other. -/
theorem references_variable_lost :
    references "<?php \"$\x7bnamespace\x7d\" A\\B" = [] ∧
      references "<?php \"\x7b$namespace\x7d\" A\\B" = [⟨1, "A\\B"⟩] := by
  let word : Label :=
    ⟨ascii 'n', "amespace".toList.map ascii, by decide, List.all_eq_true.mp rfl⟩
  have scan (spelling : Spelling) {source : String}
      (written : Text.bytesOf source =
        openTag ++ (variableLiteral spelling word [] [] ++ oneName.bytes)) :
      occurrences (Text.bytesOf source) =
        oneName.occurrences (Reading.start.behindVariable spelling word [] []) := by
    rw [occurrences, written, Cursor.run_openTag, Reading.run_variableLiteral _ _ _ _ rfl rfl,
      oneName.run_whole _ _ (by decide), List.append_nil]
    exact List.reverse_reverse _
  have lost : oneName.occurrences (Reading.start.behindVariable .dollarFirst word [] []) = [] := by
    decide
  have found : oneName.occurrences (Reading.start.behindVariable .braceFirst word [] []) =
      [⟨21, 1, Text.bytesOf "A\\B"⟩] := by
    decide
  constructor
  · rw [references, scan .dollarFirst (by decide), lost]
    rfl
  · rw [references, scan .braceFirst (by decide), found, List.map_singleton,
      Occurrence.toReference, Text.decodeLossy_bytesOf]

end LayerGuard.Source
