import LayerGuard.Proofs.Source.Name
import LayerGuard.Source.Scan

/-! # Moves over whole lexemes

What the scanner does at a byte of code depends on the bytes behind it. Each law here names a
lexeme and the text that follows it, and says which state the scanner is in behind the lexeme. A
run over a text is then a chain of such laws. What holds in front of a source and is kept by every
single move holds at its end.
-/

namespace LayerGuard.Source

/-! ## Lengths of lexemes -/

theorem runLength_append {inClass : UInt8 → Bool} {run rest : List UInt8}
    (inside : ∀ b ∈ run, inClass b = true) (ends : nextIs inClass rest = false) :
    runLength inClass (run ++ rest) = run.length := by
  rw [runLength, List.takeWhile_append_of_pos inside]
  cases rest with
  | nil => simp
  | cons b rest =>
    rw [nextIs_cons] at ends
    simp [ends]

/-- A text free of a pair of bytes does not begin with it, and its tail is free of it. -/
theorem pair_free_cons {first second b : UInt8} {text : List UInt8}
    (free : ¬ [first, second] <:+: b :: text) :
    (b == first && nextIs (· == second) text) = false ∧ ¬ [first, second] <:+: text := by
  refine ⟨?_, fun inner => free (List.infix_cons inner)⟩
  rw [Bool.eq_false_iff]
  intro begins
  apply free
  cases text with
  | nil => simp at begins
  | cons c text =>
    simp only [nextIs_cons, Bool.and_eq_true, beq_iff_eq] at begins
    obtain ⟨rfl, rfl⟩ := begins
    exact ⟨[], text, rfl⟩

/-- A line comment reaches to the end of its line unless a close tag ends it. -/
theorem commentLineLength_append {text : List UInt8} (rest : List UInt8)
    (oneLine : newline ∉ text) (untagged : ¬ [ascii '?', ascii '>'] <:+: text) :
    commentLineLength (text ++ newline :: rest) = text.length := by
  induction text with
  | nil => simp [commentLineLength]
  | cons b text ih =>
    obtain ⟨here, tail⟩ := pair_free_cons untagged
    have notNewline : (b == newline) = false := by
      rw [beq_eq_false_iff_ne]
      rintro rfl
      exact oneLine (List.mem_cons_self ..)
    have untaggedHere :
        (b == ascii '?' && nextIs (· == ascii '>') (text ++ newline :: rest)) = false := by
      cases text with
      | nil => simp [newline]
      | cons c text => exact here
    have inner := ih (fun member => oneLine (List.mem_cons_of_mem _ member)) tail
    simp only [List.cons_append, commentLineLength, notNewline, untaggedHere, Bool.or_self,
      Bool.false_eq_true, ↓reduceIte, inner, List.length_cons]

/-- A block comment reaches through its first closer. -/
theorem commentBlockLength_append {text : List UInt8} (rest : List UInt8)
    (unclosed : ¬ [ascii '*', ascii '/'] <:+: text) :
    commentBlockLength (text ++ ascii '*' :: ascii '/' :: rest) = text.length + 2 := by
  induction text with
  | nil => simp [commentBlockLength]
  | cons b text ih =>
    obtain ⟨here, tail⟩ := pair_free_cons unclosed
    have unclosedHere : (b == ascii '*' &&
        nextIs (· == ascii '/') (text ++ ascii '*' :: ascii '/' :: rest)) = false := by
      cases text with
      | nil => simp
      | cons c text => exact here
    simp only [List.cons_append, commentBlockLength, unclosedHere, Bool.false_eq_true, ↓reduceIte,
      ih tail, List.length_cons]

/-! ## Runs -/

theorem lineFeeds_append (first second : List UInt8) :
    lineFeeds (first ++ second) = lineFeeds first + lineFeeds second :=
  List.count_append

/-- The cursor behind text that records nothing. -/
def Cursor.skip (c : Cursor) (state : State) (text : List UInt8) : Cursor where
  state := state
  offset := c.offset + text.length
  line := c.line + lineFeeds text
  found := c.found

theorem Cursor.skip_skip (c : Cursor) (inner outer : State) (first second : List UInt8) :
    (c.skip inner first).skip outer second = c.skip outer (first ++ second) := by
  simp only [Cursor.skip, List.length_append, lineFeeds_append, Nat.add_assoc]

theorem Cursor.advance_pass (c : Cursor) (state : State) (more : Nat) (lexeme : List UInt8) :
    c.advance (state.pass more) lexeme = c.skip state lexeme := rfl

theorem Cursor.run_nil (c : Cursor) : c.run [] = c := by rw [Cursor.run]

/-- A run over a text that begins with a lexeme goes on behind the lexeme. -/
theorem Cursor.run_lexeme {c : Cursor} {b : UInt8} {more rest : List UInt8} {move : Move}
    (moves : c.state.move b (more ++ rest) = move) (length : move.more = more.length) :
    c.run (b :: (more ++ rest)) = (c.advance move (b :: more)).run rest := by
  rw [Cursor.run]
  simp only [moves, length, List.take_left, List.drop_left]

/-- A run over a text that begins with a lexeme without a name. -/
theorem Cursor.run_pass {c : Cursor} {b : UInt8} (more : List UInt8) {rest : List UInt8}
    {state : State} {length : Nat} (moves : c.state.move b (more ++ rest) = state.pass length)
    (fits : length = more.length) :
    c.run (b :: (more ++ rest)) = (c.skip state (b :: more)).run rest := by
  rw [Cursor.run_lexeme moves fits, Cursor.advance_pass]

/-- A run over a text that begins with a lexeme of one byte. -/
theorem Cursor.run_byte {c : Cursor} {b : UInt8} {rest : List UInt8} {state : State}
    (moves : c.state.move b rest = state.pass 0) :
    c.run (b :: rest) = (c.skip state [b]).run rest :=
  Cursor.run_pass [] moves rfl

/-- What every move keeps holds behind a run if it holds in front of it. -/
theorem Cursor.run_preserves {holds : Cursor → List UInt8 → Prop}
    (step : ∀ (c : Cursor) (b : UInt8) (rest : List UInt8), holds c (b :: rest) →
      holds (c.advance (c.state.move b rest) (b :: rest.take (c.state.move b rest).more))
        (rest.drop (c.state.move b rest).more))
    {c : Cursor} {text : List UInt8} (front : holds c text) : holds (c.run text) [] := by
  induction c, text using Cursor.run.induct with
  | case1 c => rw [Cursor.run_nil]; exact front
  | case2 c b rest move ih =>
    rw [Cursor.run]
    exact ih (step c b rest front)

/-! ## Tokens of code -/

namespace State

theorem move_of_code {s : State} (code : s.mode = .code) (b : UInt8) (rest : List UInt8) :
    s.move b rest = s.codeMove b rest := by
  simp only [move, code]

theorem codeMove_space (s : State) {b : UInt8} (rest : List UInt8) (space : isSpace b = true) :
    s.codeMove b rest = s.pass 0 := by
  simp [codeMove, space]

theorem codeMove_arrow (s : State) (rest : List UInt8) :
    s.codeMove (ascii '-') (ascii '>' :: rest) = { s with afterMember := true }.pass 1 := by
  simp [codeMove, token, isSpace]

theorem codeMove_nullArrow (s : State) (rest : List UInt8) :
    s.codeMove (ascii '?') (ascii '-' :: ascii '>' :: rest) =
      { s with afterMember := true }.pass 2 := by
  simp [codeMove, token, isSpace]

theorem codeMove_doubleColon (s : State) (rest : List UInt8) :
    s.codeMove (ascii ':') (ascii ':' :: rest) = { s with afterMember := true }.pass 1 := by
  simp [codeMove, token, isSpace]

theorem codeMove_semicolon (s : State) (rest : List UInt8) :
    s.codeMove (ascii ';') rest =
      { s with inDeclaration := false, afterMember := false }.pass 0 := by
  simp [codeMove, token, isSpace]

theorem codeMove_dollar (s : State) (rest : List UInt8) :
    s.codeMove (ascii '$') rest =
      { s with afterMember := false }.pass (runLength isLabelByte rest) := by
  simp [codeMove, token, isSpace]

theorem codeMove_singleQuote (s : State) (rest : List UInt8) :
    s.codeMove (ascii '\'') rest =
      ({ s with afterMember := false }.enter (.quoted (ascii '\''))).pass 0 := by
  simp [codeMove, token, isSpace]

theorem codeMove_blockComment (s : State) (rest : List UInt8) :
    s.codeMove (ascii '/') (ascii '*' :: rest) = s.pass (1 + commentBlockLength rest) := by
  simp [codeMove, isSpace]

theorem codeMove_slashComment (s : State) (rest : List UInt8) :
    s.codeMove (ascii '/') (ascii '/' :: rest) = s.pass (commentLineLength rest + 1) := by
  simp [codeMove, isSpace, commentLineLength, newline]

theorem codeMove_hashComment (s : State) {rest : List UInt8}
    (plain : nextIs (· == ascii '[') rest = false) :
    s.codeMove (ascii '#') rest = s.pass (commentLineLength rest) := by
  simp only [codeMove, plain]
  simp [isSpace]

/-- A byte of a label begins a number if it is a digit and a name otherwise. -/
theorem codeMove_labelByte (s : State) {b : UInt8} (rest : List UInt8)
    (inside : isLabelByte b = true) :
    s.codeMove b rest =
      if isDigit b then { s with afterMember := false }.pass (runLength isNumberByte rest)
      else { s with afterMember := false }.name s.afterMember b rest := by
  have other {c : UInt8} (outside : isLabelByte c = false) : (b == c) = false :=
    beq_eq_false_of_class inside outside
  have space : isSpace b = false := by
    simp only [isSpace, Bool.or_eq_false_iff]
    exact ⟨⟨⟨⟨other rfl, other rfl⟩, other rfl⟩, other rfl⟩, other rfl⟩
  have comments : (b == ascii '?') = false ∧ (b == ascii '/') = false ∧ (b == ascii '#') = false :=
    ⟨other rfl, other rfl, other rfl⟩
  have operators : (b == ascii '-') = false ∧ (b == ascii ':') = false ∧ (b == ascii ';') = false :=
    ⟨other rfl, other rfl, other rfl⟩
  have quotes : (b == ascii '\'') = false ∧ (b == ascii '"') = false ∧
      (b == ascii '\x60') = false ∧ (b == ascii '<') = false ∧ (b == ascii '$') = false :=
    ⟨other rfl, other rfl, other rfl, other rfl, other rfl⟩
  simp only [codeMove, token, space, comments, operators, quotes, Bool.false_and, Bool.and_false,
    Bool.or_self, Bool.false_eq_true, ↓reduceIte]
  cases digit : isDigit b with
  | true => rfl
  | false =>
    have starts : isLabelStart b = true := by simpa [isLabelByte, digit] using inside
    simp only [starts, Bool.or_true, Bool.false_eq_true, ↓reduceIte]

theorem codeMove_digit (s : State) {b : UInt8} (rest : List UInt8) (digit : isDigit b = true) :
    s.codeMove b rest = { s with afterMember := false }.pass (runLength isNumberByte rest) := by
  have inside : isLabelByte b = true := by simp [isLabelByte, digit]
  rw [codeMove_labelByte s rest inside, if_pos digit]

theorem codeMove_label (s : State) {b : UInt8} (rest : List UInt8)
    (starts : isLabelStart b = true) :
    s.codeMove b rest = { s with afterMember := false }.name s.afterMember b rest := by
  have notDigit : ¬ isDigit b = true := by
    intro digit
    simp only [isLabelStart, isLetter, isDigit, Bool.or_eq_true, Bool.and_eq_true,
      decide_eq_true_eq, beq_iff_eq, UInt8.le_iff_toNat_le, ← UInt8.toNat_inj] at starts digit
    have low : (ascii '0').toNat = 48 ∧ (ascii '9').toNat = 57 := by decide
    have letters : (ascii 'a').toNat = 97 ∧ (ascii 'A').toNat = 65 ∧ (ascii '_').toNat = 95 ∧
        (0x80 : UInt8).toNat = 128 := by decide
    omega
  rw [codeMove_labelByte s rest (isLabelByte_of_start starts), if_neg notDigit]

theorem codeMove_separator (s : State) (rest : List UInt8) :
    s.codeMove separator rest = { s with afterMember := false }.name s.afterMember separator rest := by
  simp [codeMove, token, isSpace, separator, isDigit]

/-- A written name without a leading separator. -/
theorem name_joinLabels (s : State) (member : Bool) (first : Label) (more : List Label)
    {rest : List UInt8} (ends : nameBytes rest = []) :
    s.name member first.first ((joinLabels first more).tail ++ rest) =
      if first.isKeyword then
        (if more.isEmpty && !member then { s with inDeclaration := true } else s).pass
          (joinLabels first more).tail.length
      else ⟨(joinLabels first more).tail.length, s, !more.isEmpty && !s.inDeclaration⟩ := by
  have written : first.first :: ((joinLabels first more).tail ++ rest) =
      joinLabels first more ++ rest := rfl
  have unseparated : (first.first == separator) = false :=
    beq_eq_false_of_class first.starts (by decide)
  have label := firstLabel_joinLabels first more ((nameBytes_eq_nil_iff rest).mp ends).1
  have qualified : decide (first.bytes.length < (joinLabels first more).length) =
      !more.isEmpty := by
    rw [Bool.eq_iff_iff, decide_eq_true_iff, length_lt_joinLabels_iff]
    simp
  simp only [name, unseparated, written, nameBytes_joinLabels, ends, label, List.append_nil,
    Bool.false_eq_true, ↓reduceIte, Label.isKeyword, qualified, Bool.not_not, List.length_tail]

/-- A written name behind a leading separator. -/
theorem name_separator (s : State) (member : Bool) (first : Label) (more : List Label)
    {rest : List UInt8} (ends : nameBytes rest = []) :
    s.name member separator (joinLabels first more ++ rest) =
      ⟨(joinLabels first more).length, s, !s.inDeclaration⟩ := by
  have next : nextIs isLabelStart (joinLabels first more ++ rest) = true := first.starts
  simp only [name, next, nameBytes_joinLabels, ends, List.append_nil, beq_self_eq_true, ↓reduceIte]

/-! ## Text that may embed code -/

/-- A byte of text stands for itself unless it begins the opener of embedded code. -/
theorem textMove_plain (s : State) {b : UInt8} {rest : List UInt8}
    (unbraced : (b == ascii '\x7b' && nextIs (· == ascii '$') rest) = false)
    (undollared : (b == ascii '$' && nextIs (· == ascii '\x7b') rest) = false) :
    s.textMove b rest = s.pass 0 := by
  have unopened : interpolationLength? (b :: rest) = none := by
    cases rest with
    | nil => rfl
    | cons c rest =>
      rw [nextIs_cons] at unbraced undollared
      simp only [interpolationLength?, unbraced, undollared, Bool.false_eq_true, ↓reduceIte]
  simp only [textMove, unopened]

end State

end LayerGuard.Source
